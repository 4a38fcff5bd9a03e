import Mathlib.Data.List.Basic
import Mathlib.Tactic.Common

/-!
# Event logs

A ghost log records what the parties of a system did, **newest event first**, so that a step
logs an event with `e :: log`.  Temporal words of a specification become statements about it:

* `Log.since p log` : the events after the latest one with `p` ("since the last poll");
* `Log.Before a b log` : `a` happened, and `b` happened after it.
-/

namespace BunnyDs

namespace Log

variable {E : Type*} {a b e : E} {log : List E}

/-- The events logged after the latest event with `p`. -/
def since (p : E → Bool) (log : List E) : List E := log.takeWhile fun e => !p e

theorem since_cons (p : E → Bool) (e : E) (log : List E) :
    since p (e :: log) = if p e = true then [] else e :: since p log := by
  cases h : p e <;> simp [since, h]

/-- `b` was logged at some time after `a`. -/
def Before (a b : E) (log : List E) : Prop := [b, a].Sublist log

instance [DecidableEq E] : Decidable (Before a b log) :=
  inferInstanceAs (Decidable (List.Sublist _ _))

@[simp] theorem not_before_nil : ¬ Before a b [] := by simp [Before]

theorem before_cons : Before a b (e :: log) ↔ Before a b log ∨ b = e ∧ a ∈ log := by
  simp only [Before, List.sublist_cons_iff]
  constructor
  · rintro (h | ⟨r, hr, h⟩)
    · exact .inl h
    · simp only [List.cons.injEq] at hr
      obtain ⟨rfl, rfl⟩ := hr
      exact .inr ⟨rfl, List.singleton_sublist.1 h⟩
  · rintro (h | ⟨rfl, h⟩)
    · exact .inl h
    · exact .inr ⟨[a], rfl, List.singleton_sublist.2 h⟩

theorem Before.cons (h : Before a b log) : Before a b (e :: log) := before_cons.2 (.inl h)

theorem Before.append (h : Before a b log) (es : List E) : Before a b (es ++ log) :=
  List.Sublist.trans h (List.sublist_append_right es log)

theorem Before.mem_left (h : Before a b log) : a ∈ log := h.subset (by simp)

theorem Before.mem_right (h : Before a b log) : b ∈ log := h.subset (by simp)

/-- What is logged since the latest event with `p` is later than every event with `p`. -/
theorem before_of_mem_since {p : E → Bool} (hp : p a = true) (ha : a ∈ log)
    (hb : b ∈ since p log) : Before a b log := by
  induction log with
  | nil => cases ha
  | cons e log ih =>
    rw [since_cons] at hb
    split_ifs at hb with he
    · cases hb
    · have hne : a ≠ e := by
        rintro rfl
        exact he hp
      have hold : a ∈ log := (List.mem_cons.1 ha).resolve_left hne
      rcases List.mem_cons.1 hb with rfl | hb
      · exact before_cons.2 (.inr ⟨rfl, hold⟩)
      · exact (ih hold hb).cons

/-- An event that is logged once, since the latest event with `p`, is earlier than none of them. -/
theorem not_before_of_mem_since [DecidableEq E] {p : E → Bool} (hp : p b = true)
    (ha : a ∈ since p log) (hone : log.count a ≤ 1) : ¬ Before a b log := by
  induction log with
  | nil => exact not_before_nil
  | cons e log ih =>
    rw [since_cons] at ha
    split_ifs at ha with he
    · cases ha
    · have hcount : log.count a ≤ 1 := Nat.le_trans List.count_le_count_cons hone
      intro hb
      rcases before_cons.1 hb with hold | ⟨rfl, -⟩
      · rcases List.mem_cons.1 ha with rfl | ha
        · -- the one occurrence is the newest event
          rw [List.count_cons_self] at hone
          have := List.count_pos_iff.2 hold.mem_left
          omega
        · exact ih ha hcount hold
      · exact he hp

end Log

end BunnyDs
