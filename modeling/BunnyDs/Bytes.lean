import Mathlib.Tactic.Common
import Mathlib.Data.Nat.Notation

/-!
# Byte buffers

Raw copies between two buffers of fixed size, and 16-bit words in big-endian order.

* `copy` copies a range of one buffer into another; it is `none` when the range leaves one of the
  two, where `copy_nonoverlapping` has undefined behaviour.  `copy_of_fits` says when it returns,
  `getElem_copied_of_mem` and `getElem_copied_of_notMem` what the destination holds then.
* `ofBytes_toBytes`, `high_ofBytes`, `low_ofBytes` : a word is its two bytes.
-/

namespace BunnyDs.Bytes

section Copy

variable {α : Type*} {n m : ℕ}

/-- A range of `count` elements from `i` in a buffer of `n` and from `j` in one of `m` stays
inside both. -/
def Fits (n i m j count : ℕ) : Prop := i + count ≤ n ∧ j + count ≤ m

instance (n i m j count : ℕ) : Decidable (Fits n i m j count) :=
  inferInstanceAs (Decidable (_ ∧ _))

/-- What `dst` holds after `count` elements of `src` from `i` were copied to it at `j`. -/
def copied (src : Vector α n) (i : ℕ) (dst : Vector α m) (j count : ℕ)
    (h : Fits n i m j count) : Vector α m :=
  Vector.ofFn fun k =>
    if hk : j ≤ k.val ∧ k.val < j + count then
      src.get ⟨i + (k.val - j), by have := h.1; omega⟩
    else dst.get k

/-- `copy_nonoverlapping(src.add(i), dst.add(j), count)`. -/
def copy (src : Vector α n) (i : ℕ) (dst : Vector α m) (j count : ℕ) : Option (Vector α m) :=
  if h : Fits n i m j count then some (copied src i dst j count h) else none

variable {src : Vector α n} {i : ℕ} {dst : Vector α m} {j count : ℕ}

theorem copy_of_fits (h : Fits n i m j count) :
    copy src i dst j count = some (copied src i dst j count h) := dif_pos h

theorem copy_of_not_fits (h : ¬Fits n i m j count) : copy src i dst j count = none := dif_neg h

theorem getElem_copied_of_mem (h : Fits n i m j count) {k : ℕ} (hk : j ≤ k ∧ k < j + count)
    (hkm : k < m) :
    (copied src i dst j count h)[k] = src.get ⟨i + (k - j), by have := h.1; omega⟩ := by
  rw [copied, Vector.getElem_ofFn]
  exact dif_pos hk

theorem getElem_copied_of_notMem (h : Fits n i m j count) {k : ℕ}
    (hk : ¬(j ≤ k ∧ k < j + count)) (hkm : k < m) :
    (copied src i dst j count h)[k] = dst[k] := by
  rw [copied, Vector.getElem_ofFn]
  exact dif_neg hk

end Copy

/-! ### Big-endian words -/

/-- The shift by one byte is below the width of the word. -/
private theorem byteShift : (8 : UInt16).toNat % 16 = 8 := rfl

/-- The value of a big-endian word. -/
theorem toNat_ofBytes (hi lo : UInt8) :
    ((hi.toUInt16 <<< 8) ||| lo.toUInt16).toNat = 256 * hi.toNat + lo.toNat := by
  have hhi : hi.toNat < 256 := hi.toNat_lt
  have hlo : lo.toNat < 2 ^ 8 := lo.toNat_lt
  have hshift : (hi.toUInt16 <<< 8).toNat = 2 ^ 8 * hi.toNat := by
    rw [UInt16.toNat_shiftLeft, UInt8.toNat_toUInt16, byteShift, Nat.shiftLeft_eq]
    omega
  rw [UInt16.toNat_or, hshift, UInt8.toNat_toUInt16, ← Nat.two_pow_add_eq_or_of_lt hlo]

theorem toNat_high (word : UInt16) : (word >>> 8).toUInt8.toNat = word.toNat / 256 := by
  have hword : word.toNat < 65536 := word.toNat_lt
  rw [UInt16.toNat_toUInt8, UInt16.toNat_shiftRight, byteShift, Nat.shiftRight_eq_div_pow]
  omega

/-- A word is read back from its two bytes. -/
theorem ofBytes_toBytes (word : UInt16) :
    ((word >>> 8).toUInt8.toUInt16 <<< 8) ||| word.toUInt8.toUInt16 = word := by
  apply UInt16.toNat_inj.mp
  rw [toNat_ofBytes, toNat_high, UInt16.toNat_toUInt8]
  exact Nat.div_add_mod word.toNat 256

theorem high_ofBytes (hi lo : UInt8) :
    (((hi.toUInt16 <<< 8) ||| lo.toUInt16) >>> 8).toUInt8 = hi := by
  apply UInt8.toNat_inj.mp
  have hlo : lo.toNat < 256 := lo.toNat_lt
  rw [toNat_high, toNat_ofBytes]
  omega

theorem low_ofBytes (hi lo : UInt8) :
    ((hi.toUInt16 <<< 8) ||| lo.toUInt16).toUInt8 = lo := by
  apply UInt8.toNat_inj.mp
  have hlo : lo.toNat < 256 := lo.toNat_lt
  rw [UInt16.toNat_toUInt8, toNat_ofBytes]
  omega

end BunnyDs.Bytes
