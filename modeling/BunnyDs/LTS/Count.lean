import Mathlib.Algebra.BigOperators.Ring.Finset
import Mathlib.Data.Fintype.Basic
import Mathlib.Data.Multiset.Count

/-!
# Counting parties

A system with finitely many parties keeps the place of each in a function `f : ι → α`, and a step
moves one of them: `Function.update f i a`.  `cnt p f` is the number of parties at a place with
`p`; `cnt_update` says how one move changes it, which is all that counting invariants need.
-/

namespace BunnyDs

open Finset

variable {ι α τ : Type*} [Fintype ι]

/-- The number of parties at a place with `p`. -/
def cnt (p : α → Bool) (f : ι → α) : ℕ := (univ.filter fun i => p (f i) = true).card

theorem cnt_eq_sum (p : α → Bool) (f : ι → α) : cnt p f = ∑ i, (p (f i)).toNat := by
  rw [cnt, card_filter]
  refine sum_congr rfl fun i _ => ?_
  cases p (f i) <;> rfl

/-- **One move**: the party `i` leaves the place `f i` for `a`. -/
theorem cnt_update [DecidableEq ι] (p : α → Bool) (f : ι → α) (i : ι) (a : α) :
    cnt p (Function.update f i a) + (p (f i)).toNat = cnt p f + (p a).toNat := by
  rw [cnt_eq_sum, cnt_eq_sum, ← add_sum_erase _ _ (mem_univ i), ← add_sum_erase _ _ (mem_univ i)]
  have hrest : ∑ j ∈ univ.erase i, (p (Function.update f i a j)).toNat =
      ∑ j ∈ univ.erase i, (p (f j)).toNat :=
    sum_congr rfl fun j hj => by rw [Function.update_of_ne (ne_of_mem_erase hj)]
  rw [hrest, Function.update_self]
  omega

section Move

variable [DecidableEq ι] {p : α → Bool} {f : ι → α} {i : ι} {a : α}

/-- A move between places that are both counted, or both not. -/
theorem cnt_update_of_eq (h : p (f i) = p a) : cnt p (Function.update f i a) = cnt p f := by
  have := cnt_update p f i a
  rw [h] at this
  omega

/-- A move to a place that is counted. -/
theorem cnt_update_enter (h₁ : p (f i) = false) (h₂ : p a = true) :
    cnt p (Function.update f i a) = cnt p f + 1 := by
  have := cnt_update p f i a
  rwa [h₁, h₂] at this

/-- A move from a place that is counted. -/
theorem cnt_update_leave (h₁ : p (f i) = true) (h₂ : p a = false) :
    cnt p (Function.update f i a) + 1 = cnt p f := by
  have := cnt_update p f i a
  rwa [h₁, h₂] at this

end Move

theorem cnt_congr {p : α → Bool} {f g : ι → α} (h : ∀ i, p (f i) = p (g i)) :
    cnt p f = cnt p g := by
  simp only [cnt, h]

theorem cnt_pos_iff {p : α → Bool} {f : ι → α} : 0 < cnt p f ↔ ∃ i, p (f i) = true := by
  rw [cnt, card_pos]
  simp [Finset.Nonempty]

theorem cnt_const (p : α → Bool) {a : α} (h : p a = false) : cnt p (fun _ : ι => a) = 0 := by
  simp [cnt, h]

theorem le_one_iff_cnt {p : α → Bool} {f : ι → α} :
    cnt p f ≤ 1 ↔ ∀ i j, p (f i) = true → p (f j) = true → i = j := by
  rw [cnt, card_le_one]
  simp only [mem_filter, mem_univ, true_and]
  exact ⟨fun h i j hi hj => h i hi j hj, fun h i hi j hj => h i j hi hj⟩

omit [Fintype ι] in
/-- Parties that can be matched, tag by tag, with the entries of a list are at most as many. -/
theorem card_le_length [DecidableEq τ] (P : Finset ι) (tag : ι → τ) (l : List τ)
    (h : ∀ t, (P.filter fun i => tag i = t).card ≤ l.count t) : P.card ≤ l.length := by
  -- as multisets, the tags of `P` are contained in the list
  have hle : P.val.map tag ≤ (l : Multiset τ) := by
    rw [Multiset.le_iff_count]
    intro t
    rw [Multiset.count_map, Multiset.coe_count]
    have := h t
    rw [Finset.card_def, Finset.filter_val] at this
    simpa only [eq_comm] using this
  have := Multiset.card_le_card hle
  rwa [Multiset.card_map, Multiset.coe_card] at this

end BunnyDs
