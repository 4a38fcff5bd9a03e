import Mathlib.Logic.Function.Basic
import Mathlib.Tactic.Common

/-!
# Guarded transition systems

Every concurrent component of this development is given a semantics as a system of guarded
actions: a label `l` names one atomic step of one party, `Enabled s l` says when that party can
take it and `fire s l` is the state it leaves behind.  Nondeterminism (who moves next, what the
kernel or a service answers) sits in the labels, so a run is a list of labels.

## Main definitions

* `LTS S L` : initial state, guards and effects.
* `LTS.ReachableBy ok s` : `s` is the end of a run **all of whose steps meet `ok`**, a condition
  on the state before the step and on its label.  Assumptions on the environment and conditions
  under which a component behaves are stated this way.
* `LTS.Reachable s` : the same without a condition.
* `LTS.exec` : runs a list of labels, checking guards and conditions.
* `LTS.Simulation` : every step of one system is matched by at most one step of another.
* `LTS.withGhost` : the same system next to a value that its steps update and never read.
-/

namespace BunnyDs

/-- A system of guarded actions with states `S` and labels `L`. -/
structure LTS (S L : Type*) where
  /-- The state before any step. -/
  init : S
  /-- The step `l` can be taken in `s`. -/
  Enabled : S → L → Prop
  /-- The state after the step `l`. -/
  fire : S → L → S

namespace LTS

variable {S L T M : Type*}

/-- `s` is reached by a run whose steps all meet `ok`. -/
inductive ReachableBy (A : LTS S L) (ok : S → L → Prop) : S → Prop
  | init : ReachableBy A ok A.init
  | step {s : S} {l : L} : ReachableBy A ok s → A.Enabled s l → ok s l →
      ReachableBy A ok (A.fire s l)

/-- `s` is reached by some run. -/
def Reachable (A : LTS S L) : S → Prop := A.ReachableBy fun _ _ => True

variable {A : LTS S L} {ok ok' : S → L → Prop}

namespace ReachableBy

/-- An inductive invariant holds in every state reached.  The step may use that the state before
it is itself reached, so one invariant can rest on another. -/
theorem invariant {I : S → Prop} {s : S} (h : A.ReachableBy ok s) (h₀ : I A.init)
    (hstep : ∀ s l, A.ReachableBy ok s → I s → A.Enabled s l → ok s l → I (A.fire s l)) :
    I s := by
  induction h with
  | init => exact h₀
  | step hs hen hok ih => exact hstep _ _ hs ih hen hok

theorem mono (hle : ∀ s l, ok s l → ok' s l) {s : S} (h : A.ReachableBy ok s) :
    A.ReachableBy ok' s := by
  induction h with
  | init => exact .init
  | step _ hen hok ih => exact ih.step hen (hle _ _ hok)

theorem reachable {s : S} (h : A.ReachableBy ok s) : A.Reachable s :=
  h.mono fun _ _ _ => trivial

end ReachableBy

theorem Reachable.fire {s : S} (h : A.Reachable s) (l : L) (hen : A.Enabled s l) :
    A.Reachable (A.fire s l) :=
  ReachableBy.step h hen trivial

/-- One more step, to a state written out. -/
theorem Reachable.to {s s' : S} (h : A.Reachable s) (l : L) (hen : A.Enabled s l)
    (he : A.fire s l = s') : A.Reachable s' :=
  he ▸ h.fire l hen

/-! ### Executing a list of labels -/

section Exec

variable (A) [∀ s l, Decidable (A.Enabled s l)] (ok) [∀ s l, Decidable (ok s l)]

/-- Take the steps `ls` in order; `none` if one of them is not enabled or does not meet `ok`. -/
def exec (s : S) : List L → Option S
  | [] => some s
  | l :: ls => if A.Enabled s l ∧ ok s l then exec (A.fire s l) ls else none

variable {A ok} in
theorem reachableBy_of_exec {ls : List L} {s s' : S} (hs : A.ReachableBy ok s)
    (h : A.exec ok s ls = some s') : A.ReachableBy ok s' := by
  induction ls generalizing s with
  | nil =>
    simp only [exec, Option.some.injEq] at h
    exact h ▸ hs
  | cons l ls ih =>
    simp only [exec] at h
    split at h
    · rename_i hl
      exact ih (hs.step hl.1 hl.2) h
    · cases h

/-- A run that ends in a state with `P`, checked by evaluation. -/
theorem exists_of_exec (ls : List L) (P : S → Prop) [DecidablePred P]
    (h : ((A.exec ok A.init ls).any fun s => decide (P s)) = true) :
    ∃ s, A.ReachableBy ok s ∧ P s := by
  cases hs : A.exec ok A.init ls with
  | none => simp [hs] at h
  | some s =>
    simp only [hs, Option.any_some, decide_eq_true_eq] at h
    exact ⟨s, reachableBy_of_exec .init hs, h⟩

end Exec

/-! ### Simulations -/

/-- `f` maps every step of `A` that meets `ok` to a step of `B` that meets `ok'`, or to no step
at all. -/
structure Simulation (A : LTS S L) (ok : S → L → Prop) (B : LTS T M) (ok' : T → M → Prop)
    (f : S → T) : Prop where
  init : f A.init = B.init
  step : ∀ s l, A.ReachableBy ok s → A.Enabled s l → ok s l →
    f (A.fire s l) = f s ∨
      ∃ m, B.Enabled (f s) m ∧ ok' (f s) m ∧ f (A.fire s l) = B.fire (f s) m

theorem Simulation.reachableBy {B : LTS T M} {ok' : T → M → Prop} {f : S → T}
    (hf : Simulation A ok B ok' f) {s : S} (h : A.ReachableBy ok s) : B.ReachableBy ok' (f s) := by
  induction h with
  | init => exact hf.init ▸ .init
  | step hs hen hok ih =>
    obtain he | ⟨m, hm, hok', he⟩ := hf.step _ _ hs hen hok
    · exact he ▸ ih
    · exact he ▸ ih.step hm hok'

/-! ### Ghost values -/

/-- `A` next to a ghost value: the step `l` in `s` turns `g` into `upd s l g`. -/
def withGhost {G : Type*} (A : LTS S L) (g₀ : G) (upd : S → L → G → G) : LTS (S × G) L where
  init := (A.init, g₀)
  Enabled p l := A.Enabled p.1 l
  fire p l := (A.fire p.1 l, upd p.1 l p.2)

end LTS

end BunnyDs
