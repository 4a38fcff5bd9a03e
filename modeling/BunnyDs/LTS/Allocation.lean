import BunnyDs.LTS.Count
import Mathlib.Data.Fintype.Card

/-!
# A reference-counted allocation

`Allocation ι` is one reference-counted allocation with the handles `ι`.  Dropping a handle is a
`fetch_sub` on the count; whoever finds that it dropped the last one then frees the allocation, in a
step of its own, so that other handles may be dropped in between.

`Allocation.Counted` is the invariant: the count is the number of live handles, and the allocation
is freed, or about to be freed by one handle, exactly when no handle is live.
-/

namespace BunnyDs

/-- Where a handle is. -/
inductive Handle where
  | live
  /-- Its `fetch_sub` found the count at one: it has to free the allocation. -/
  | last
  | gone
  deriving DecidableEq

namespace Handle

def isLive : Handle → Bool
  | .live => true
  | _ => false

def isLast : Handle → Bool
  | .last => true
  | _ => false

end Handle

/-- An allocation with its count and its handles. -/
structure Allocation (ι : Type*) where
  strong : ℕ
  handle : ι → Handle
  /-- How often the allocation was freed. -/
  freed : ℕ

namespace Allocation

variable {ι : Type*}

/-- All handles have been made. -/
def new [Fintype ι] : Allocation ι := ⟨Fintype.card ι, fun _ => .live, 0⟩

section Operations

variable [DecidableEq ι]

/-- The handle `i` is dropped: `fetch_sub(1)`. -/
def drop (a : Allocation ι) (i : ι) : Allocation ι :=
  { a with
    strong := a.strong - 1
    handle := Function.update a.handle i (if a.strong = 1 then .last else .gone) }

/-- The handle `i` frees the allocation. -/
def free (a : Allocation ι) (i : ι) : Allocation ι :=
  { a with handle := Function.update a.handle i .gone, freed := a.freed + 1 }

end Operations

variable [Fintype ι]

/-- The count is exact, and the allocation is freed once. -/
structure Counted (a : Allocation ι) : Prop where
  strong_eq : a.strong = cnt Handle.isLive a.handle
  freed_eq : cnt Handle.isLast a.handle + a.freed = if a.strong = 0 then 1 else 0

variable {a : Allocation ι} {i : ι}

theorem counted_new [Nonempty ι] : (new : Allocation ι).Counted := by
  refine ⟨by simp [new, cnt, Handle.isLive], ?_⟩
  have hlast : cnt Handle.isLast (new : Allocation ι).handle = 0 := cnt_const _ rfl
  have hpos : (new : Allocation ι).strong ≠ 0 := Fintype.card_ne_zero
  rw [hlast, if_neg hpos]
  rfl

namespace Counted

theorem strong_pos (h : a.Counted) (hi : a.handle i = .live) : 0 < a.strong := by
  rw [h.strong_eq, cnt_pos_iff]
  exact ⟨i, by rw [hi]; rfl⟩

/-- While a handle is live the allocation is not freed, and no handle is about to free it. -/
theorem of_live (h : a.Counted) (hi : a.handle i = .live) :
    a.freed = 0 ∧ ∀ j, a.handle j ≠ .last := by
  have hpos := h.strong_pos hi
  have hfreed := h.freed_eq
  rw [if_neg (Nat.ne_of_gt hpos)] at hfreed
  refine ⟨by omega, fun j hj => ?_⟩
  have : 0 < cnt Handle.isLast a.handle := cnt_pos_iff.2 ⟨j, by rw [hj]; rfl⟩
  omega

/-- Nobody else has the allocation when it is freed. -/
theorem of_last (h : a.Counted) (hi : a.handle i = .last) :
    a.freed = 0 ∧ ∀ j, j ≠ i → a.handle j = .gone := by
  have hlast : 0 < cnt Handle.isLast a.handle := cnt_pos_iff.2 ⟨i, by rw [hi]; rfl⟩
  have hfreed := h.freed_eq
  have hone : cnt Handle.isLast a.handle ≤ 1 := by split_ifs at hfreed <;> omega
  refine ⟨by split_ifs at hfreed <;> omega, fun j hne => ?_⟩
  cases hj : a.handle j with
  | live => exact absurd hi ((h.of_live hj).2 i)
  | last =>
    exact absurd (le_one_iff_cnt.1 hone j i (by rw [hj]; rfl) (by rw [hi]; rfl)) hne
  | gone => rfl

theorem freed_le_one (h : a.Counted) : a.freed ≤ 1 := by
  have hfreed := h.freed_eq
  split_ifs at hfreed <;> omega

/-- Freed means that every handle is gone. -/
theorem freed_iff (h : a.Counted) : a.freed = 1 ↔ ∀ i, a.handle i = .gone := by
  constructor
  · intro hf i
    cases hi : a.handle i with
    | live => exact absurd (h.of_live hi).1 (by omega)
    | last => exact absurd (h.of_last hi).1 (by omega)
    | gone => rfl
  · intro hgone
    have hnone : ∀ p : Handle → Bool, p .gone = false → cnt p a.handle = 0 := by
      intro p hp
      rw [funext hgone]
      exact cnt_const p hp
    have hfreed := h.freed_eq
    rw [if_pos (h.strong_eq.trans (hnone _ rfl)), hnone _ rfl] at hfreed
    omega

variable [DecidableEq ι]

protected theorem drop (h : a.Counted) (hi : a.handle i = .live) : (a.drop i).Counted := by
  have hpos := h.strong_pos hi
  have hfreed := h.freed_eq
  rw [if_neg (Nat.ne_of_gt hpos)] at hfreed
  have his : (a.handle i).isLive = true := by rw [hi]; rfl
  have hnot : (a.handle i).isLast = false := by rw [hi]; rfl
  by_cases hone : a.strong = 1
  · have hlive := cnt_update_leave (p := Handle.isLive) (a := .last) his rfl
    have hlast := cnt_update_enter (p := Handle.isLast) (a := .last) hnot rfl
    constructor
    · have := h.strong_eq
      simp only [drop, if_pos hone]
      omega
    · simp only [drop, if_pos hone, hlast]
      rw [if_pos (by omega)]
      omega
  · have hlive := cnt_update_leave (p := Handle.isLive) (a := .gone) his rfl
    have hlast := cnt_update_of_eq (p := Handle.isLast) (a := .gone) hnot
    constructor
    · have := h.strong_eq
      simp only [drop, if_neg hone]
      omega
    · simp only [drop, if_neg hone, hlast]
      rw [if_neg (by omega)]
      omega

protected theorem free (h : a.Counted) (hi : a.handle i = .last) : (a.free i).Counted := by
  have hnot : (a.handle i).isLive = false := by rw [hi]; rfl
  have his : (a.handle i).isLast = true := by rw [hi]; rfl
  have hlast := cnt_update_leave (p := Handle.isLast) (a := .gone) his rfl
  refine ⟨h.strong_eq.trans (cnt_update_of_eq (p := Handle.isLive) hnot).symm, ?_⟩
  refine Eq.trans ?_ h.freed_eq
  simp only [free]
  omega

end Counted

end Allocation

end BunnyDs
