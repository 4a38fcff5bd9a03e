import BunnyDs.Kernel.Basic

/-!
# Errors and result codes

`BunnyError` and the two ways the code makes one: `ds_try!`, on the result code of a kernel or
service call, and `net_try`, on the POSIX return value of a socket command.

The libctru macros that classify result codes are parameters (`Ctru`), with the two facts about
them that the code relies on as fields.

* `netTry_of_nonneg`, `netTry_of_known`, `netTry_of_unknown` : what `net_try` does on every 32-bit
  word.
-/

namespace BunnyDs

/-- The `libc` error numbers of `ERROR_MAP`; `zero` is its first entry. -/
inductive Errno where
  | zero | e2big | eacces | eaddrinuse | eaddrnotavail | eafnosupport | eagain | ealready | ebadf
  | ebadmsg | ebusy | ecanceled | echild | econnaborted | econnrefused | econnreset | edeadlk
  | edestaddrreq | edom | edquot | eexist | efault | efbig | ehostunreach | eidrm | eilseq
  | einprogress | eintr | einval | eio | eisconn | eisdir | eloop | emfile | emlink | emsgsize
  | emultihop | enametoolong | enetdown | enetreset | enetunreach | enfile | enobufs | enodata
  | enodev | enoent | enoexec | enolck | enolink | enomem | enomsg | enoprotoopt | enospc | enosr
  | enostr | enosys | enotconn | enotdir | enotempty | enotsock | enotsup | enotty | enxio
  | eopnotsupp | eoverflow | eperm | epipe | eproto | eprotonosupport | eprototype | erange | erofs
  | espipe | esrch | estale | etime | etimedout
  deriving DecidableEq

/-- `ctru::Error`: a result code, or something else. -/
inductive CtruError where
  | os (code : Int32)
  | other (what : String)
  deriving DecidableEq

/-- `err::BunnyError`. -/
inductive BunnyError where
  | ctru (error : CtruError)
  | libc (errno : Errno)
  | other (what : String)
  deriving DecidableEq

/-- `err::BunnyResult`. -/
abbrev BunnyResult (α : Type*) := Except BunnyError α

/-- How a call ends: it returns, it panics, or it has undefined behaviour. -/
inductive Outcome (α : Type*) where
  | ok (val : α)
  | err (error : BunnyError)
  | panic
  | ub
  deriving DecidableEq

/-! ### Result codes -/

/-- libctru's view of result codes: `R_FAILED`, `R_SUMMARY`, `RS_SUCCESS`, and the codes on which
`ds_try!` returns `Err(Os(code))`. -/
structure Ctru where
  rFailed : Int32 → Bool
  rSummary : Int32 → Int32
  rsSuccess : Int32
  dsFails : Int32 → Bool
  /-- The code `0` is a success. -/
  zero_success : (rFailed 0 || rSummary 0 != rsSuccess) = false
  /-- `ds_try!` fails only on codes that are classified as failures. -/
  failed_of_dsFails : ∀ code, dsFails code = true →
    (rFailed code || rSummary code != rsSuccess) = true

namespace Ctru

/-- The test of `state_resolve`. -/
def failed (C : Ctru) (code : Int32) : Bool := C.rFailed code || C.rSummary code != C.rsSuccess

/-- `ds_try!(code)`. -/
def dsTry (C : Ctru) (code : Int32) : Outcome Unit :=
  if C.dsFails code then .err (.ctru (.os code)) else .ok ()

variable {C : Ctru} {code : Int32}

theorem dsTry_of_fails (h : C.dsFails code = true) : C.dsTry code = .err (.ctru (.os code)) :=
  if_pos h

theorem dsTry_of_success (h : C.dsFails code = false) : C.dsTry code = .ok () := by
  simp [dsTry, h]

theorem dsFails_zero (C : Ctru) : C.dsFails 0 = false := by
  by_contra h
  have := C.failed_of_dsFails 0 (by simpa using h)
  rw [C.zero_success] at this
  cases this

/-- The macros as libctru defines them. -/
def libctru : Ctru where
  rFailed code := code < 0
  rSummary code := (code >>> 21) &&& 0x3F
  rsSuccess := 0
  dsFails code := code < 0
  zero_success := by decide
  failed_of_dsFails code h := by simp [h]

end Ctru

/-! ### POSIX return values -/

/-- `ERROR_MAP`. -/
def errorMap : List Errno :=
  [.zero,
   .e2big, .eacces, .eaddrinuse, .eaddrnotavail, .eafnosupport,
   .eagain, .ealready, .ebadf, .ebadmsg, .ebusy,
   .ecanceled, .echild, .econnaborted, .econnrefused, .econnreset,
   .edeadlk, .edestaddrreq, .edom, .edquot, .eexist,
   .efault, .efbig, .ehostunreach, .eidrm, .eilseq,
   .einprogress, .eintr, .einval, .eio, .eisconn,
   .eisdir, .eloop, .emfile, .emlink, .emsgsize,
   .emultihop, .enametoolong, .enetdown, .enetreset, .enetunreach,
   .enfile, .enobufs, .enodata, .enodev, .enoent,
   .enoexec, .enolck, .enolink, .enomem, .enomsg,
   .enoprotoopt, .enospc, .enosr, .enostr, .enosys,
   .enotconn, .enotdir, .enotempty, .enotsock, .enotsup,
   .enotty, .enxio, .eopnotsupp, .eoverflow, .eperm,
   .epipe, .eproto, .eprotonosupport, .eprototype, .erange,
   .erofs, .espipe, .esrch, .estale, .etime,
   .etimedout]

theorem errorMap_length : errorMap.length = 77 := rfl

/-- `net_try`; a value outside of `ERROR_MAP` is a `todo!`. -/
def netTry (retVal : Int32) : Outcome Unit :=
  if 0 ≤ retVal then .ok ()
  else
    match errorMap[(-retVal).toUInt32.toNat]? with
    | some ret => .err (.libc ret)
    | none => .panic

section NetTry

variable {retVal : Int32}

theorem int32_nonneg_iff : 0 ≤ retVal ↔ 0 ≤ retVal.toInt := by
  rw [Int32.le_iff_toInt_le, Int32.toInt_zero]

/-- The negation wraps at `i32::MIN` only, where the cast to `u32` makes up for it. -/
theorem toNat_neg_toUInt32 (h : retVal.toInt < 0) :
    (-retVal).toUInt32.toNat = (-retVal.toInt).toNat := by
  have hneg : (-retVal).toUInt32.toNat = (-retVal.toBitVec).toNat := rfl
  have hint : retVal.toInt = retVal.toBitVec.toInt := rfl
  have hlt := retVal.toBitVec.isLt
  rw [hint, BitVec.toInt_eq_toNat_cond] at h ⊢
  rw [hneg, BitVec.toNat_neg]
  split at h <;> split <;> omega

theorem netTry_of_nonneg (h : 0 ≤ retVal.toInt) : netTry retVal = .ok () :=
  if_pos (int32_nonneg_iff.2 h)

theorem netTry_of_known (h₁ : -76 ≤ retVal.toInt) (h₂ : retVal.toInt < 0) :
    ∃ errno, errno ∈ errorMap ∧ netTry retVal = .err (.libc errno) := by
  have hlt : (-retVal).toUInt32.toNat < errorMap.length := by
    rw [toNat_neg_toUInt32 h₂, errorMap_length]
    omega
  have hneg : ¬ 0 ≤ retVal := by rw [int32_nonneg_iff]; omega
  refine ⟨errorMap[(-retVal).toUInt32.toNat], List.getElem_mem hlt, ?_⟩
  rw [netTry, if_neg hneg, List.getElem?_eq_getElem hlt]

theorem netTry_of_unknown (h : retVal.toInt < -76) : netTry retVal = .panic := by
  have hge : errorMap.length ≤ (-retVal).toUInt32.toNat := by
    rw [toNat_neg_toUInt32 (by omega), errorMap_length]
    omega
  have hneg : ¬ 0 ≤ retVal := by rw [int32_nonneg_iff]; omega
  rw [netTry, if_neg hneg, List.getElem?_eq_none hge]

end NetTry

end BunnyDs
