import Mathlib.Data.List.TakeDrop
import BunnyDs.Net.Service

/-!
# Sending on a TCP stream

`soc:U` may accept any prefix of what it is offered, and reports its length.  The count passes
through `send_to`, which only looks at its sign, `TcpSocket::send`, which returns unit, and
`io::Write::write`, which reports the length of what it offered.  So a short write is a gap in the
stream: `TcpSocket.short_write_lost`.

A service is a sequence of answers, one for each `SendTo`, and `Wire` is what it has accepted so
far.  `TcpSocket.gap_free_iff` says for which answers `write`, `write_all` (the method of
`io::Write`) and `SendFuture` keep the stream free of gaps.
-/

namespace BunnyDs

/-- What `soc:U` answers to one `SendTo`. -/
inductive SendAnswer (C : Ctru) where
  /-- It accepts the first `k` bytes, or all if there are fewer, and reports their number. -/
  | accepts (k : ℕ) (res : Int32) (hres : C.dsFails res = false)
  /-- The command fails. -/
  | osError (res posix : Int32) (hres : C.dsFails res = true)
  /-- The command succeeds with a POSIX error. -/
  | posixError (res posix : Int32) (hres : C.dsFails res = false) (hposix : posix.toInt < 0)

namespace SendAnswer

variable {C : Ctru}

/-- The reply, when `len` bytes were offered. -/
def reply (answer : SendAnswer C) (len : ℕ) : SocketReply :=
  match answer with
  | .accepts k res _ => .sendTo res (Int32.ofNat (min k len))
  | .osError res posix _ => .sendTo res posix
  | .posixError res posix _ _ => .sendTo res posix

/-- The bytes that are accepted. -/
def accepted (answer : SendAnswer C) (data : List UInt8) : List UInt8 :=
  match answer with
  | .accepts k _ _ => data.take k
  | _ => []

/-- Nothing is accepted. -/
def isError : SendAnswer C → Bool
  | .accepts _ _ _ => false
  | _ => true

/-- All of `len` bytes are accepted. -/
def TakesAll (answer : SendAnswer C) (len : ℕ) : Prop :=
  match answer with
  | .accepts k _ _ => len ≤ k
  | _ => False

/-- What the two stages of the check make of it. -/
def outcome : SendAnswer C → Outcome Unit
  | .accepts _ _ _ => .ok ()
  | .osError res _ _ => .err (.ctru (.os res))
  | .posixError _ posix _ _ => netTry posix

/-- The socket would block. -/
def IsEagain (answer : SendAnswer C) : Prop := answer.outcome = .err (.libc .eagain)

variable {answer : SendAnswer C}

theorem outcome_ok_iff : answer.outcome = .ok () ↔ answer.isError = false := by
  cases answer with
  | accepts k res hres => simp [outcome, isError]
  | osError res posix hres => simp [outcome, isError]
  | posixError res posix hres hposix =>
    simp only [outcome, isError, Bool.true_eq_false, iff_false]
    by_cases h76 : -76 ≤ posix.toInt
    · obtain ⟨errno, -, herr⟩ := netTry_of_known h76 hposix
      simp [herr]
    · simp [netTry_of_unknown (by omega : posix.toInt < -76)]

/-- An answer that is not an error takes all of the data if and only if nothing is missing. -/
theorem accepted_eq_iff {data : List UInt8} (h : answer.isError = false) :
    answer.accepted data = data ↔ answer.TakesAll data.length := by
  cases answer with
  | accepts k res hres => exact List.take_eq_self_iff data
  | osError res posix hres => cases h
  | posixError res posix hres hposix => cases h

theorem accepted_of_isError {data : List UInt8} (h : answer.isError = true) :
    answer.accepted data = [] := by
  cases answer with
  | accepts k res hres => cases h
  | osError res posix hres => rfl
  | posixError res posix hres hposix => rfl

theorem IsEagain.isError (h : answer.IsEagain) : answer.isError = true := by
  by_contra hok
  rw [IsEagain, outcome_ok_iff.2 (by simpa using hok)] at h
  cases h

theorem length_accepted_le (answer : SendAnswer C) (data : List UInt8) :
    (answer.accepted data).length ≤ data.length := by
  cases answer with
  | accepts k res hres => exact List.length_take_le' k data
  | osError res posix hres => exact Nat.zero_le _
  | posixError res posix hres hposix => exact Nat.zero_le _

end SendAnswer

/-- `TcpSocket`. -/
structure TcpSocket where
  addr : SocketAddrV4
  handle : SocketHandle

/-- The service's side of a stream: how many answers it has given, and what it has accepted. -/
structure Wire where
  calls : ℕ
  accepted : List UInt8
  deriving DecidableEq

/-- One more answer, with which `bytes` are accepted. -/
def Wire.accept (w : Wire) (bytes : List UInt8) : Wire := ⟨w.calls + 1, w.accepted ++ bytes⟩

namespace TcpSocket

section Definitions

variable {C : Ctru} (answers : ℕ → SendAnswer C) (socket : TcpSocket)

/-- `TcpSocket::send`: the service sees the data if the assertion of `send_to` passes. -/
def send (data : List UInt8) (w : Wire) : Outcome Unit × Wire :=
  let answer := answers w.calls
  ((SocketService.sendTo C (fun _ => .ok (answer.reply data.length)) socket.handle socket.addr
      data).outcome,
    if data.length < 0x2000 then w.accept (answer.accepted data) else w)

/-- What `write` offers of a buffer. -/
def chunk (buf : List UInt8) : List UInt8 :=
  if 0x2000 ≤ buf.length then buf.take (0x2000 - 1) else buf

/-- `io::Write::write`; an error stands for the `io::Error` made of its text. -/
def write (buf : List UInt8) (w : Wire) : Outcome ℕ × Wire :=
  match send answers socket (chunk buf) w with
  | (.ok (), w') => (.ok (chunk buf).length, w')
  | (.err error, w') => (.err error, w')
  | (.panic, w') => (.panic, w')
  | (.ub, w') => (.ub, w')

/-- `io::Write::write_all`: the loop of the standard library. -/
def writeAll (buf : List UInt8) (w : Wire) : Outcome Unit × Wire :=
  if _ : buf = [] then (.ok (), w)
  else
    match write answers socket buf w with
    | (.ok n, w') =>
      -- `n` is what was offered, not what was accepted
      if _ : n = 0 then (.err (.other "failed to write whole buffer"), w')
      else writeAll (buf.drop n) w'
    | (.err error, w') => (.err error, w')
    | (.panic, w') => (.panic, w')
    | (.ub, w') => (.ub, w')
termination_by buf.length
decreasing_by
  have := List.length_pos_iff.2 ‹buf ≠ []›
  rw [List.length_drop]
  omega

/-- `SendFuture::poll`: `none` is `Pending`; the interest it registers is not modelled here. -/
def sendPoll (data : List UInt8) (w : Wire) : Option (Outcome Unit) × Wire :=
  match send answers socket data w with
  | (.err (.libc .eagain), w') => (none, w')
  | (o, w') => (some o, w')

/-- A `SendFuture` is polled up to `n` times, until it is ready. -/
def sendFuture (data : List UInt8) : ℕ → Wire → Option (Outcome Unit) × Wire
  | 0, w => (none, w)
  | n + 1, w =>
    match sendPoll answers socket data w with
    | (none, w') => sendFuture data n w'
    | (some o, w') => (some o, w')

/-! ### No gaps -/

/-- `write` returns `Ok(n)` only if exactly the first `n` bytes were accepted. -/
def WriteSound (buf : List UInt8) (w : Wire) : Prop :=
  ∀ n w', write answers socket buf w = (.ok n, w') → w'.accepted = w.accepted ++ buf.take n

/-- `write_all` returns `Ok` only if the buffer was accepted. -/
def WriteAllSound (buf : List UInt8) (w : Wire) : Prop :=
  ∀ w', writeAll answers socket buf w = (.ok (), w') → w'.accepted = w.accepted ++ buf

/-- A `SendFuture` resolves to `Ok` only if its data was accepted. -/
def SendSound (data : List UInt8) (w : Wire) : Prop :=
  ∀ n w', sendFuture answers socket data n w = (some (.ok ()), w') →
    w'.accepted = w.accepted ++ data

end Definitions

section Send

variable {C : Ctru} {answers : ℕ → SendAnswer C} {socket : TcpSocket} {data : List UInt8} {w : Wire}

/-- `send` makes of the answer what the two stages make of it: the count is not looked at. -/
theorem send_eq (hlen : data.length < 0x2000) :
    send answers socket data w =
      ((answers w.calls).outcome, w.accept ((answers w.calls).accepted data)) := by
  simp only [send, SocketService.sendTo, if_pos hlen, ask, Run.lift_ok_andThen]
  cases answers w.calls with
  | accepts k res hres =>
    -- the number of bytes is small enough to be reported
    have hposix : 0 ≤ (Int32.ofNat (min k data.length)).toInt := by
      rw [Int32.toInt_ofNat_of_lt (by omega)]
      omega
    simp only [SendAnswer.reply, twoStage, Ctru.dsTry_of_success hres, netTry_of_nonneg hposix,
      Run.lift_ok_andThen]
    rfl
  | osError res posix hres =>
    simp only [SendAnswer.reply, twoStage, Ctru.dsTry_of_fails hres, Run.lift_err_andThen]
    rfl
  | posixError res posix hres hposix =>
    simp only [SendAnswer.reply, twoStage, Ctru.dsTry_of_success hres, Run.lift_ok_andThen]
    cases hnet : netTry posix <;> simp [SendAnswer.outcome, Run.andThen, Run.lift, hnet]

end Send

section Write

variable {C : Ctru} {answers : ℕ → SendAnswer C} {socket : TcpSocket} {buf : List UInt8} {w : Wire}

theorem chunk_length_lt (buf : List UInt8) : (chunk buf).length < 0x2000 := by
  unfold chunk
  split_ifs
  · rw [List.length_take]
    omega
  · omega

theorem chunk_length_pos (hbuf : buf ≠ []) : 0 < (chunk buf).length := by
  have := List.length_pos_iff.2 hbuf
  unfold chunk
  split_ifs
  · rw [List.length_take]
    omega
  · exact this

theorem take_chunk_length (buf : List UInt8) : buf.take (chunk buf).length = chunk buf := by
  unfold chunk
  split_ifs
  · rw [List.length_take, List.take_eq_take_iff]
    omega
  · exact List.take_length

theorem chunk_append_drop (buf : List UInt8) :
    chunk buf ++ buf.drop (chunk buf).length = buf := by
  conv_rhs => rw [← List.take_append_drop (chunk buf).length buf, take_chunk_length]

/-- `write` reports what it offered. -/
theorem write_of_ok (h : (answers w.calls).isError = false) :
    write answers socket buf w =
      (.ok (chunk buf).length, w.accept ((answers w.calls).accepted (chunk buf))) := by
  rw [write, send_eq (chunk_length_lt buf), SendAnswer.outcome_ok_iff.2 h]

theorem write_of_error (h : (answers w.calls).isError = true) (n : ℕ) :
    (write answers socket buf w).1 ≠ .ok n := by
  rw [write, send_eq (chunk_length_lt buf)]
  cases ho : (answers w.calls).outcome with
  | ok val =>
    rw [SendAnswer.outcome_ok_iff.1 ho] at h
    cases h
  | err error => simp
  | panic => simp
  | ub => simp

theorem writeSound_iff :
    WriteSound answers socket buf w ↔
      (answers w.calls).isError = true ∨ (answers w.calls).TakesAll (chunk buf).length := by
  unfold WriteSound
  cases herr : (answers w.calls).isError with
  | true =>
    refine iff_of_true (fun n w' h => ?_) (.inl rfl)
    exact absurd (congrArg Prod.fst h) (write_of_error herr n)
  | false =>
    rw [← SendAnswer.accepted_eq_iff herr, write_of_ok herr]
    constructor
    · intro h
      have := h _ _ rfl
      rw [take_chunk_length] at this
      exact .inr (List.append_cancel_left this)
    · rintro (h | h) n w' heq
      · cases h
      · obtain ⟨hn, rfl⟩ := Prod.mk.inj heq
        obtain rfl := Outcome.ok.inj hn
        rw [take_chunk_length, Wire.accept, h]

/-! ### `write_all` -/

/-- What `write_all` offers, if no answer is an error. -/
def chunks (buf : List UInt8) : List (List UInt8) :=
  if _ : buf = [] then [] else chunk buf :: chunks (buf.drop (chunk buf).length)
termination_by buf.length
decreasing_by
  have := List.length_pos_iff.2 ‹buf ≠ []›
  have := chunk_length_pos ‹buf ≠ []›
  rw [List.length_drop]
  omega

/-- One of the answers to `chs`, from number `c` on, is an error. -/
def SomeError (answers : ℕ → SendAnswer C) : List (List UInt8) → ℕ → Prop
  | [], _ => False
  | _ :: chs, c => (answers c).isError = true ∨ SomeError answers chs (c + 1)

/-- Each of the answers to `chs` accepts all of it. -/
def AllTaken (answers : ℕ → SendAnswer C) : List (List UInt8) → ℕ → Prop
  | [], _ => True
  | ch :: chs, c => (answers c).TakesAll ch.length ∧ AllTaken answers chs (c + 1)

/-- What is accepted of `chs`. -/
def taken (answers : ℕ → SendAnswer C) : List (List UInt8) → ℕ → List UInt8
  | [], _ => []
  | ch :: chs, c => (answers c).accepted ch ++ taken answers chs (c + 1)

theorem length_taken_le (answers : ℕ → SendAnswer C) (chs : List (List UInt8)) (c : ℕ) :
    (taken answers chs c).length ≤ chs.flatten.length := by
  induction chs generalizing c with
  | nil => exact Nat.le_refl _
  | cons ch chs ih =>
    have := (answers c).length_accepted_le ch
    have := ih (c + 1)
    simp only [taken, List.flatten_cons, List.length_append]
    omega

/-- Nothing is missing if and only if nothing is missing of any chunk. -/
theorem taken_eq_flatten_iff {chs : List (List UInt8)} {c : ℕ}
    (h : ¬ SomeError answers chs c) :
    taken answers chs c = chs.flatten ↔ AllTaken answers chs c := by
  induction chs generalizing c with
  | nil => exact iff_of_true rfl trivial
  | cons ch chs ih =>
    simp only [SomeError, not_or, Bool.not_eq_true] at h
    rw [taken, List.flatten_cons, AllTaken, ← SendAnswer.accepted_eq_iff h.1, ← ih h.2]
    constructor
    · intro heq
      -- what is missing of one chunk cannot be made up for by the others
      have hlen := congrArg List.length heq
      rw [List.length_append, List.length_append] at hlen
      have h₁ := (answers c).length_accepted_le ch
      have h₂ := length_taken_le answers chs (c + 1)
      exact List.append_inj heq (by omega)
    · rintro ⟨h₁, h₂⟩
      rw [h₁, h₂]

theorem flatten_chunks (buf : List UInt8) : (chunks buf).flatten = buf := by
  fun_induction chunks buf with
  | case1 => rfl
  | case2 buf hbuf ih => rw [List.flatten_cons, ih, chunk_append_drop]

theorem writeAll_of_ok (hbuf : buf ≠ []) (h : (answers w.calls).isError = false) :
    writeAll answers socket buf w =
      writeAll answers socket (buf.drop (chunk buf).length)
        (w.accept ((answers w.calls).accepted (chunk buf))) := by
  have hpos := chunk_length_pos hbuf
  rw [writeAll, dif_neg hbuf, write_of_ok h]
  simp only [dif_neg (show ¬ (chunk buf).length = 0 by omega)]

theorem writeAll_of_error (hbuf : buf ≠ []) (h : (answers w.calls).isError = true) :
    (writeAll answers socket buf w).1 ≠ .ok () := by
  have hne : ∀ n, (write answers socket buf w).1 ≠ .ok n := write_of_error h
  rw [writeAll, dif_neg hbuf]
  rcases hw : write answers socket buf w with ⟨o, w'⟩
  rw [hw] at hne
  cases o with
  | ok n => exact absurd rfl (hne n)
  | err error => simp
  | panic => simp
  | ub => simp

variable (socket) in
/-- The loop: a run without errors returns `Ok`, whatever was accepted. -/
theorem writeAll_of_not_someError (h : ¬ SomeError answers (chunks buf) w.calls) :
    ∃ w', writeAll answers socket buf w = (.ok (), w') ∧
      w'.accepted = w.accepted ++ taken answers (chunks buf) w.calls := by
  fun_induction chunks buf generalizing w with
  | case1 =>
    rw [writeAll, dif_pos rfl]
    exact ⟨w, rfl, (List.append_nil _).symm⟩
  | case2 buf hbuf ih =>
    simp only [SomeError, not_or, Bool.not_eq_true] at h
    obtain ⟨w', hw, hacc⟩ := ih (w := w.accept ((answers w.calls).accepted (chunk buf))) h.2
    rw [writeAll_of_ok hbuf h.1]
    exact ⟨w', hw, by rw [hacc, taken, ← List.append_assoc]; rfl⟩

theorem writeAll_of_someError (h : SomeError answers (chunks buf) w.calls) :
    (writeAll answers socket buf w).1 ≠ .ok () := by
  -- along the chunks, to the first answer that is an error
  fun_induction chunks buf generalizing w with
  | case1 => exact h.elim
  | case2 buf hbuf ih =>
    cases herr : (answers w.calls).isError with
    | true => exact writeAll_of_error hbuf herr
    | false =>
      rw [writeAll_of_ok hbuf herr]
      exact ih (h.resolve_left (by simp [herr]))

theorem writeAllSound_iff :
    WriteAllSound answers socket buf w ↔
      SomeError answers (chunks buf) w.calls ∨ AllTaken answers (chunks buf) w.calls := by
  unfold WriteAllSound
  by_cases herr : SomeError answers (chunks buf) w.calls
  · refine iff_of_true (fun w' h => ?_) (.inl herr)
    exact absurd (congrArg Prod.fst h) (writeAll_of_someError herr)
  · obtain ⟨w', hw, hacc⟩ := writeAll_of_not_someError socket herr
    rw [or_iff_right herr, ← taken_eq_flatten_iff herr, flatten_chunks, hw]
    constructor
    · intro h
      exact List.append_cancel_left (hacc.symm.trans (h w' rfl))
    · intro h w'' heq
      obtain ⟨-, rfl⟩ := Prod.mk.inj heq
      rw [hacc, h]

end Write

/-! ### `SendFuture` -/

section SendFuture

variable {C : Ctru} {answers : ℕ → SendAnswer C} {socket : TcpSocket} {data : List UInt8} {w : Wire}

theorem sendPoll_of_eagain (hlen : data.length < 0x2000) (h : (answers w.calls).IsEagain) :
    sendPoll answers socket data w = (none, w.accept []) := by
  rw [sendPoll, send_eq hlen, SendAnswer.accepted_of_isError h.isError]
  rw [SendAnswer.IsEagain] at h
  rw [h]

/-- A poll that does not find the socket blocked is the last one. -/
theorem sendPoll_of_not_eagain (hlen : data.length < 0x2000) (h : ¬ (answers w.calls).IsEagain) :
    sendPoll answers socket data w =
      (some (answers w.calls).outcome, w.accept ((answers w.calls).accepted data)) := by
  rw [sendPoll, send_eq hlen]
  split
  · rename_i heq
    exact absurd (congrArg Prod.fst heq) h
  · rename_i heq
    obtain ⟨rfl, rfl⟩ := Prod.mk.inj heq
    rfl

/-- The first answer that is not `EAGAIN` decides. -/
theorem sendFuture_ok_iff (hlen : data.length < 0x2000) {n : ℕ} {w' : Wire} :
    sendFuture answers socket data n w = (some (.ok ()), w') ↔
      ∃ j < n, (∀ i < j, (answers (w.calls + i)).IsEagain) ∧
        (answers (w.calls + j)).isError = false ∧
        w' = ⟨w.calls + j + 1, w.accepted ++ (answers (w.calls + j)).accepted data⟩ := by
  induction n generalizing w with
  | zero => simp [sendFuture]
  | succ n ih =>
    rw [sendFuture]
    by_cases h : (answers w.calls).IsEagain
    · rw [sendPoll_of_eagain hlen h]
      have hcalls : ∀ j, (w.accept []).calls + j = w.calls + (j + 1) := fun j => by
        rw [Wire.accept, Nat.add_assoc, Nat.add_comm 1]
      have haccepted : (w.accept []).accepted = w.accepted := List.append_nil _
      simp only [ih, hcalls, haccepted]
      constructor
      · rintro ⟨j, hj, hprev, hok, rfl⟩
        refine ⟨j + 1, by omega, fun i hi => ?_, hok, rfl⟩
        cases i with
        | zero => exact h
        | succ i => exact hprev i (by omega)
      · rintro ⟨j, hj, hprev, hok, rfl⟩
        cases j with
        | zero =>
          rw [Nat.add_zero, h.isError] at hok
          cases hok
        | succ j => exact ⟨j, by omega, fun i hi => hprev (i + 1) (by omega), hok, rfl⟩
    · rw [sendPoll_of_not_eagain hlen h]
      simp only [Prod.mk.injEq, Option.some.injEq, SendAnswer.outcome_ok_iff]
      constructor
      · rintro ⟨hok, rfl⟩
        exact ⟨0, Nat.succ_pos n, fun i hi => absurd hi (Nat.not_lt_zero i), hok, rfl⟩
      · rintro ⟨j, -, hj, hok, rfl⟩
        -- no poll comes before this one
        obtain rfl : j = 0 := by
          by_contra hne
          exact h (hj 0 (by omega))
        exact ⟨hok, rfl⟩

/-- Data that is too long is never sent: the assertion of `send_to` panics. -/
theorem sendFuture_of_long (hlen : 0x2000 ≤ data.length) {n : ℕ} :
    (sendFuture answers socket data n w).1 ≠ some (.ok ()) := by
  cases n with
  | zero => simp [sendFuture]
  | succ n => simp [sendFuture, sendPoll, send, SocketService.sendTo, Run.lift, Nat.not_lt.2 hlen]

/-- The first answer that is not `EAGAIN` is an error or accepts `len` bytes. -/
def FirstTakesAll (answers : ℕ → SendAnswer C) (c len : ℕ) : Prop :=
  ∀ j, (∀ i < j, (answers (c + i)).IsEagain) →
    (answers (c + j)).isError = true ∨ (answers (c + j)).TakesAll len

theorem sendSound_iff :
    SendSound answers socket data w ↔
      0x2000 ≤ data.length ∨ FirstTakesAll answers w.calls data.length := by
  unfold SendSound FirstTakesAll
  rcases Nat.lt_or_ge data.length 0x2000 with hlen | hlen
  · rw [or_iff_right (Nat.not_le.2 hlen)]
    simp only [sendFuture_ok_iff hlen]
    constructor
    · intro h j hprev
      refine or_iff_not_imp_left.2 fun hok => ?_
      rw [Bool.not_eq_true] at hok
      have := h (j + 1) _ ⟨j, Nat.lt_succ_self j, hprev, hok, rfl⟩
      exact (SendAnswer.accepted_eq_iff hok).1 (List.append_cancel_left this)
    · rintro h n w' ⟨j, -, hprev, hok, rfl⟩
      have htakes := (h j hprev).resolve_left (by simp [hok])
      rw [(SendAnswer.accepted_eq_iff hok).2 htakes]
  · refine iff_of_true (fun n w' h => ?_) (.inl hlen)
    exact absurd (congrArg Prod.fst h) (sendFuture_of_long hlen)

end SendFuture

/-! ### Gaps -/

/-- **For which answers the stream has no gaps**: `write` and `SendFuture` need the answer they
return on to be an error or to accept everything; `write_all` needs this of the answers to all of
its chunks together. -/
theorem gap_free_iff {C : Ctru} (answers : ℕ → SendAnswer C) (socket : TcpSocket)
    (buf : List UInt8) (w : Wire) :
    (WriteSound answers socket buf w ↔
      (answers w.calls).isError = true ∨ (answers w.calls).TakesAll (chunk buf).length) ∧
    (WriteAllSound answers socket buf w ↔
      SomeError answers (chunks buf) w.calls ∨ AllTaken answers (chunks buf) w.calls) ∧
    (SendSound answers socket buf w ↔
      0x2000 ≤ buf.length ∨ FirstTakesAll answers w.calls buf.length) :=
  ⟨writeSound_iff, writeAllSound_iff, sendSound_iff⟩

/-- Every `SendTo` accepts at most two bytes. -/
def shortAnswers (_ : ℕ) : SendAnswer .libctru := .accepts 2 0 (by decide)

/-- A socket connected to `127.0.0.1:80`. -/
def localSocket : TcpSocket := ⟨⟨#v[127, 0, 0, 1], 80⟩, ⟨5⟩⟩

/-- **Bytes are dropped**: offered three bytes, `soc:U` accepts two; `write` returns `Ok(3)`, and
`write_all` and `SendFuture` return `Ok(())`. -/
theorem short_write_lost :
    ¬ WriteSound shortAnswers localSocket [1, 2, 3] ⟨0, []⟩ ∧
      ¬ WriteAllSound shortAnswers localSocket [1, 2, 3] ⟨0, []⟩ ∧
      ¬ SendSound shortAnswers localSocket [1, 2, 3] ⟨0, []⟩ := by
  have hwrite : write shortAnswers localSocket [1, 2, 3] ⟨0, []⟩ = (.ok 3, ⟨1, [1, 2]⟩) := rfl
  have hwriteAll : writeAll shortAnswers localSocket [1, 2, 3] ⟨0, []⟩ = (.ok (), ⟨1, [1, 2]⟩) := by
    simp [writeAll, hwrite]
  have hsend : sendFuture shortAnswers localSocket [1, 2, 3] 1 ⟨0, []⟩ =
      (some (.ok ()), ⟨1, [1, 2]⟩) := rfl
  refine ⟨fun h => ?_, fun h => ?_, fun h => ?_⟩
  · exact absurd (h _ _ hwrite) (by decide)
  · exact absurd (h _ hwriteAll) (by decide)
  · exact absurd (h _ _ hsend) (by decide)

end TcpSocket

end BunnyDs
