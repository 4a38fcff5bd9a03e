import BunnyDs.LTS.Basic

/-!
# Parties that come to rest

One party of a system, the one that takes the steps `own`, is left alone: `A.Runs own s n s'` says
that `n` of its steps lead from `s` to `s'`, and `A.Idle own s` that it has none to take.  A rank
that each of its steps lowers (`Ranks`) bounds the number of steps that it takes, and so makes it
come to rest from every state.
-/

namespace BunnyDs

namespace LTS

variable {S L : Type*} {A : LTS S L} {own : L → Bool}

/-- `n` steps of the party lead from one state to the other. -/
inductive Runs (A : LTS S L) (own : L → Bool) : S → ℕ → S → Prop
  | refl (s : S) : Runs A own s 0 s
  | step {s s' : S} {l : L} {n : ℕ} : A.Enabled s l → own l = true →
      Runs A own (A.fire s l) n s' → Runs A own s (n + 1) s'

/-- The party has no step to take. -/
def Idle (A : LTS S L) (own : L → Bool) (s : S) : Prop := ∀ l, own l = true → ¬ A.Enabled s l

theorem Runs.reachable {s s' : S} {n : ℕ} (h : A.Runs own s n s') (hs : A.Reachable s) :
    A.Reachable s' := by
  induction h with
  | refl s => exact hs
  | step hen _ _ ih => exact ih (hs.fire _ hen)

/-- Each step of the party lowers the rank. -/
def Ranks (A : LTS S L) (own : L → Bool) (rank : S → ℕ) : Prop :=
  ∀ s l, A.Enabled s l → own l = true → rank (A.fire s l) < rank s

variable {rank : S → ℕ}

/-- The rank bounds the number of steps. -/
theorem Ranks.add_le (hr : A.Ranks own rank) {s s' : S} {n : ℕ} (h : A.Runs own s n s') :
    n + rank s' ≤ rank s := by
  induction h with
  | refl s => omega
  | step hen hown _ ih =>
    have := hr _ _ hen hown
    omega

/-- **The party comes to rest.** -/
theorem Ranks.exists_idle (hr : A.Ranks own rank) (s : S) :
    ∃ n s', A.Runs own s n s' ∧ A.Idle own s' := by
  -- by induction on the rank: a state that is not at rest has a step to one of lower rank
  induction hrank : rank s using Nat.strongRecOn generalizing s with
  | _ r ih =>
    by_cases hidle : A.Idle own s
    · exact ⟨0, s, .refl s, hidle⟩
    · simp only [Idle, not_forall, not_not] at hidle
      obtain ⟨l, hown, hen⟩ := hidle
      obtain ⟨n, s', hruns, hrest⟩ := ih _ (hrank ▸ hr s l hen hown) _ rfl
      exact ⟨n + 1, s', .step hen hown hruns, hrest⟩

end LTS

end BunnyDs
