import BunnyDs.LTS.Basic
import Mathlib.Data.Sigma.Basic

/-!
# Leaf futures and their contract

A task of an asynchronous program awaits *leaf futures*: values with a `poll` that is called again
and again until it is ready, and with somebody elsewhere who pushes the token of the task when a
poll is worth repeating.  `Leaves` describes a system with any number of them: which steps are
accesses of a poll, which steps push a token, and what each leaf waits for.

* `Leaves.tracked` : the system next to a `Track` of what a scheduler can observe: which leaves
  were polled, which were woken since their latest poll began, which wake calls were made.
* `Leaves.Contract` : what a scheduler may rely on.  The last field is the point: a leaf whose
  latest poll was pending, and for which the event it waits for has happened, **has been woken
  since that poll began**, once the parties that wake it are quiet.
* `Leaves.pi` : independent systems side by side; `Leaves.Contract.pi` : they keep their contracts.
-/

namespace BunnyDs

/-- Where the await of a leaf is. -/
inductive PollStatus where
  /-- Not being polled, and not ready so far. -/
  | idle
  /-- Inside a poll. -/
  | polling
  /-- A poll was ready. -/
  | ready
  deriving DecidableEq

/-- A system with leaf futures `κ`, woken by calls `W` that push tokens `τ`. -/
structure Leaves (κ W τ σ Λ : Type*) where
  sys : LTS σ Λ
  /-- The condition on the runs considered. -/
  ok : σ → Λ → Prop
  /-- The step is an access of a poll of this leaf. -/
  access : Λ → Option κ
  /-- The step is the first one of a poll of this leaf. -/
  starts : Λ → Option κ
  /-- The step is a wake call, with the token it pushes. -/
  wake : σ → Λ → Option (W × τ)
  /-- The leaf that a wake call is for. -/
  leaf : W → κ
  /-- The token in the wakers given to the polls of a leaf. -/
  task : κ → τ
  status : σ → κ → PollStatus
  /-- What the leaf waits for has happened. -/
  Fired : σ → κ → Prop
  /-- Whoever wakes leaves is at rest. -/
  Quiet : σ → Prop

/-- What can be observed of leaves from outside. -/
structure Track (κ W : Type*) where
  /-- The leaf was polled. -/
  begun : κ → Bool
  /-- The leaf was woken since its latest poll began. -/
  woken : κ → Bool
  /-- The wake call was made. -/
  made : W → Bool

namespace Track

variable {κ W : Type*}

/-- Before any step. -/
def new : Track κ W := ⟨fun _ => false, fun _ => false, fun _ => false⟩

variable [DecidableEq κ] [DecidableEq W]

/-- A poll of `k` begins. -/
def start (t : Track κ W) : Option κ → Track κ W
  | some k => { t with begun := Function.update t.begun k true,
                       woken := Function.update t.woken k false }
  | none => t

/-- The wake call `w` for the leaf `leaf w` is made. -/
def notify (t : Track κ W) (leaf : W → κ) : Option W → Track κ W
  | some w => { t with woken := Function.update t.woken (leaf w) true,
                       made := Function.update t.made w true }
  | none => t

end Track

namespace Leaves

variable {κ W τ σ Λ : Type*} [DecidableEq κ] [DecidableEq W]

/-- What the step `l` in `s` adds to the track. -/
def note (L : Leaves κ W τ σ Λ) (s : σ) (l : Λ) (t : Track κ W) : Track κ W :=
  (t.start (L.starts l)).notify L.leaf ((L.wake s l).map Prod.fst)

/-- The system next to its track. -/
def tracked (L : Leaves κ W τ σ Λ) : LTS (σ × Track κ W) Λ := L.sys.withGhost .new L.note

/-- A state and its track, at the end of a run. -/
def Run (L : Leaves κ W τ σ Λ) (s : σ) (t : Track κ W) : Prop :=
  L.tracked.ReachableBy (fun p l => L.ok p.1 l) (s, t)

/-- **What a scheduler may rely on.** -/
structure Contract (L : Leaves κ W τ σ Λ) : Prop where
  access_of_starts : ∀ l k, L.starts l = some k → L.access l = some k
  /-- Only its own polls change the status of a leaf. -/
  frame : ∀ s t l k, L.Run s t → L.sys.Enabled s l → L.ok s l → L.access l ≠ some k →
    L.status (L.sys.fire s l) k = L.status s k
  /-- The token pushed is the one the leaf was polled with. -/
  token : ∀ s t l w tok, L.Run s t → L.sys.Enabled s l → L.ok s l → L.wake s l = some (w, tok) →
    tok = L.task (L.leaf w)
  /-- Each wake call is made at most once. -/
  once : ∀ s t l w tok, L.Run s t → L.sys.Enabled s l → L.ok s l → L.wake s l = some (w, tok) →
    t.made w = false
  /-- A pending leaf whose event has happened is woken. -/
  answered : ∀ s t k, L.Run s t → L.Quiet s → t.begun k = true → L.status s k = .idle →
    L.Fired s k → t.woken k = true

section Run

variable {L : Leaves κ W τ σ Λ} {s : σ} {t : Track κ W}

theorem run_init (L : Leaves κ W τ σ Λ) : L.Run L.sys.init .new := LTS.ReachableBy.init

theorem Run.step {l : Λ} (h : L.Run s t) (hen : L.sys.Enabled s l) (hok : L.ok s l) :
    L.Run (L.sys.fire s l) (L.note s l t) :=
  LTS.ReachableBy.step h hen hok

/-- The track does not restrict the system. -/
theorem Run.reachableBy (h : L.Run s t) : L.sys.ReachableBy L.ok s := by
  have hsim : LTS.Simulation L.tracked (fun p l => L.ok p.1 l) L.sys L.ok Prod.fst :=
    ⟨rfl, fun p l _ hen hok => .inr ⟨l, hen, hok, rfl⟩⟩
  exact hsim.reachableBy h

/-- An invariant of the system with its track. -/
theorem Run.invariant {I : σ → Track κ W → Prop} (h : L.Run s t) (h₀ : I L.sys.init .new)
    (hstep : ∀ s t l, L.Run s t → I s t → L.sys.Enabled s l → L.ok s l →
      I (L.sys.fire s l) (L.note s l t)) : I s t := by
  have hinv : ∀ p, L.tracked.ReachableBy (fun p l => L.ok p.1 l) p → I p.1 p.2 := by
    intro p hp
    refine hp.invariant (I := fun p => I p.1 p.2) h₀ ?_
    rintro ⟨s, t⟩ l hs hi hen hok
    exact hstep s t l hs hi hen hok
  exact hinv (s, t) h

end Run

/-! ### What a step adds to the track -/

section Note

variable {L : Leaves κ W τ σ Λ} {s : σ} {l : Λ} {t : Track κ W}

theorem note_begun (k : κ) : (L.note s l t).begun k = true ↔
    L.starts l = some k ∨ t.begun k = true := by
  have hn : (L.note s l t).begun = (t.start (L.starts l)).begun := by
    simp only [note, Track.notify]
    split <;> rfl
  rw [hn]
  cases hst : L.starts l with
  | none => simp [Track.start]
  | some j =>
    by_cases hk : k = j
    · simp [Track.start, hk]
    · simp [Track.start, Function.update_of_ne hk, Ne.symm hk]

theorem note_made (w : W) : (L.note s l t).made w = true ↔
    (∃ tok, L.wake s l = some (w, tok)) ∨ t.made w = true := by
  have hst : (t.start (L.starts l)).made = t.made := by
    cases L.starts l <;> rfl
  cases hw : L.wake s l with
  | none => simp [note, hw, Track.notify, hst]
  | some p =>
    by_cases hk : w = p.1
    · simp only [note, hw, Option.map_some, Track.notify, hk, Function.update_self, true_iff]
      exact .inl ⟨p.2, rfl⟩
    · simp only [note, hw, Option.map_some, Track.notify, Function.update_of_ne hk, hst]
      refine ⟨.inr, fun h => h.resolve_left ?_⟩
      rintro ⟨tok, he⟩
      exact hk (congrArg Prod.fst (Option.some.inj he)).symm

/-- A step that nobody outside observes. -/
theorem note_of_none (hst : L.starts l = none) (hw : L.wake s l = none) : L.note s l t = t := by
  simp [note, hst, hw, Track.start, Track.notify]

/-- A step that begins a poll and wakes nobody. -/
theorem note_of_starts {k : κ} (hst : L.starts l = some k) (hw : L.wake s l = none) :
    L.note s l t = t.start (some k) := by
  simp [note, hst, hw, Track.notify]

/-- A step that is a wake call and no access of a poll. -/
theorem note_of_wake {w : W} {tok : τ} (hst : L.starts l = none)
    (hw : L.wake s l = some (w, tok)) : L.note s l t = t.notify L.leaf (some w) := by
  simp [note, hst, hw, Track.start]

/-- A step that wakes the leaf. -/
theorem note_woken_wake {w : W} {tok : τ} (hw : L.wake s l = some (w, tok)) :
    (L.note s l t).woken (L.leaf w) = true := by
  simp [note, hw, Track.notify]

/-- A step that wakes another leaf, or none. -/
theorem note_woken {k : κ} (hw : ∀ w tok, L.wake s l = some (w, tok) → L.leaf w ≠ k) :
    (L.note s l t).woken k = true ↔ L.starts l ≠ some k ∧ t.woken k = true := by
  have hn : (L.note s l t).woken k = (t.start (L.starts l)).woken k := by
    cases hwk : L.wake s l with
    | none => simp [note, hwk, Track.notify]
    | some p =>
      have hne : k ≠ L.leaf p.1 := (hw p.1 p.2 hwk).symm
      simp [note, hwk, Track.notify, Function.update_of_ne hne]
  rw [hn]
  cases hst : L.starts l with
  | none => simp [Track.start]
  | some j =>
    by_cases hk : k = j
    · simp [Track.start, hk]
    · simp [Track.start, Function.update_of_ne hk, Ne.symm hk]

end Note

/-! ### Independent systems side by side -/

section Pi

variable {I : Type*} [DecidableEq I] {κ W σ Λ : I → Type*} [∀ i, DecidableEq (κ i)]
  [∀ i, DecidableEq (W i)]

/-- The systems `L i` side by side: a step is a step of one of them. -/
def pi (L : ∀ i, Leaves (κ i) (W i) τ (σ i) (Λ i)) :
    Leaves (Σ i, κ i) (Σ i, W i) τ (∀ i, σ i) (Σ i, Λ i) where
  sys :=
    { init := fun i => (L i).sys.init
      Enabled := fun s l => (L l.1).sys.Enabled (s l.1) l.2
      fire := fun s l => Function.update s l.1 ((L l.1).sys.fire (s l.1) l.2) }
  ok s l := (L l.1).ok (s l.1) l.2
  access l := ((L l.1).access l.2).map (Sigma.mk l.1)
  starts l := ((L l.1).starts l.2).map (Sigma.mk l.1)
  wake s l := ((L l.1).wake (s l.1) l.2).map fun p => (⟨l.1, p.1⟩, p.2)
  leaf w := ⟨w.1, (L w.1).leaf w.2⟩
  task k := (L k.1).task k.2
  status s k := (L k.1).status (s k.1) k.2
  Fired s k := (L k.1).Fired (s k.1) k.2
  Quiet s := ∀ i, (L i).Quiet (s i)

/-- The part of a track about one of the systems. -/
def part (t : Track (Σ i, κ i) (Σ i, W i)) (i : I) : Track (κ i) (W i) :=
  ⟨t.begun ∘ Sigma.mk i, t.woken ∘ Sigma.mk i, t.made ∘ Sigma.mk i⟩

omit [DecidableEq I] in
/-- A function of a sum, updated at a value of `j`, seen from `i`. -/
theorem update_comp_mk {α : I → Type*} [DecidableEq (Σ i, α i)] {β : Type*} {i j : I} (hij : j ≠ i)
    (f : (Σ i, α i) → β) (a : α j) (b : β) :
    Function.update f ⟨j, a⟩ b ∘ Sigma.mk i = f ∘ Sigma.mk i := by
  refine Function.update_comp_eq_of_forall_ne f b fun c he => ?_
  exact hij (congrArg Sigma.fst he).symm

section Part

variable {L : ∀ i, Leaves (κ i) (W i) τ (σ i) (Λ i)} {s : ∀ i, σ i}
  {t : Track (Σ i, κ i) (Σ i, W i)} {i j : I}

/-- A step of the system `i`, seen from `i`. -/
theorem part_note_self (l : Λ i) :
    part ((pi L).note s ⟨i, l⟩ t) i = (L i).note (s i) l (part t i) := by
  have hk : Function.Injective (Sigma.mk i : κ i → Σ i, κ i) := sigma_mk_injective
  have hw : Function.Injective (Sigma.mk i : W i → Σ i, W i) := sigma_mk_injective
  have hstart : ∀ o : Option (κ i), part (t.start (o.map (Sigma.mk i))) i = (part t i).start o := by
    intro o
    cases o with
    | none => rfl
    | some k => simp [part, Track.start, Function.update_comp_eq_of_injective _ hk]
  have hnotify : ∀ (u : Track (Σ i, κ i) (Σ i, W i)) (o : Option (W i)),
      part (u.notify (pi L).leaf (o.map (Sigma.mk i))) i = (part u i).notify (L i).leaf o := by
    intro u o
    cases o with
    | none => rfl
    | some w =>
      simp [part, pi, Track.notify, Function.update_comp_eq_of_injective _ hk,
        Function.update_comp_eq_of_injective _ hw]
  have hwake : ((pi L).wake s ⟨i, l⟩).map Prod.fst =
      (((L i).wake (s i) l).map Prod.fst).map (Sigma.mk i) := by
    simp [pi, Function.comp_def]
  rw [note, hwake, hnotify]
  exact congrArg (fun u => Track.notify u (L i).leaf _) (hstart _)

/-- A step of another system, seen from `i`. -/
theorem part_note_ne (hij : j ≠ i) (l : Λ j) : part ((pi L).note s ⟨j, l⟩ t) i = part t i := by
  have hstart : ∀ o : Option (κ j), part (t.start (o.map (Sigma.mk j))) i = part t i := by
    intro o
    cases o with
    | none => rfl
    | some k => simp [part, Track.start, update_comp_mk hij]
  have hnotify : ∀ (u : Track (Σ i, κ i) (Σ i, W i)) (o : Option (W j)),
      part (u.notify (pi L).leaf (o.map (Sigma.mk j))) i = part u i := by
    intro u o
    cases o with
    | none => rfl
    | some w => simp [part, pi, Track.notify, update_comp_mk hij]
  have hwake : ((pi L).wake s ⟨j, l⟩).map Prod.fst =
      (((L j).wake (s j) l).map Prod.fst).map (Sigma.mk j) := by
    simp [pi, Function.comp_def]
  rw [note, hwake, hnotify]
  exact hstart _

/-- Each system sees a run of its own. -/
theorem Run.part (h : (pi L).Run s t) (i : I) : (L i).Run (s i) (part t i) := by
  refine h.invariant (I := fun s t => (L i).Run (s i) (Leaves.part t i)) (run_init _) ?_
  rintro s t ⟨j, l⟩ - hi hen hok
  by_cases hij : j = i
  · subst hij
    rw [part_note_self]
    have hs : (pi L).sys.fire s ⟨j, l⟩ j = (L j).sys.fire (s j) l := Function.update_self ..
    rw [hs]
    exact hi.step hen hok
  · rw [part_note_ne hij]
    have hs : (pi L).sys.fire s ⟨j, l⟩ i = s i := Function.update_of_ne (Ne.symm hij) ..
    rwa [hs]

/-- **Independent systems keep their contracts.** -/
theorem Contract.pi (h : ∀ i, (L i).Contract) : (Leaves.pi L).Contract where
  access_of_starts := by
    rintro ⟨j, l⟩ k hk
    obtain ⟨k', hk', rfl⟩ := Option.map_eq_some_iff.1 hk
    exact Option.map_eq_some_iff.2 ⟨k', (h j).access_of_starts l k' hk', rfl⟩
  frame := by
    rintro s t ⟨j, l⟩ ⟨i, k⟩ hr hen hok hne
    by_cases hij : j = i
    · subst hij
      have hs : (Leaves.pi L).sys.fire s ⟨j, l⟩ j = (L j).sys.fire (s j) l :=
        Function.update_self ..
      change (L j).status ((Leaves.pi L).sys.fire s ⟨j, l⟩ j) k = _
      rw [hs]
      refine (h j).frame _ _ l k (hr.part j) hen hok fun hk => hne ?_
      exact Option.map_eq_some_iff.2 ⟨k, hk, rfl⟩
    · have hs : (Leaves.pi L).sys.fire s ⟨j, l⟩ i = s i := Function.update_of_ne (Ne.symm hij) ..
      change (L i).status ((Leaves.pi L).sys.fire s ⟨j, l⟩ i) k = _
      rw [hs]
      rfl
  token := by
    rintro s t ⟨j, l⟩ w tok hr hen hok hw
    obtain ⟨⟨w', tok'⟩, hw', he⟩ := Option.map_eq_some_iff.1 hw
    obtain ⟨rfl, rfl⟩ := Prod.mk.inj he
    exact (h j).token _ _ l w' tok' (hr.part j) hen hok hw'
  once := by
    rintro s t ⟨j, l⟩ w tok hr hen hok hw
    obtain ⟨⟨w', tok'⟩, hw', he⟩ := Option.map_eq_some_iff.1 hw
    obtain ⟨rfl, rfl⟩ := Prod.mk.inj he
    exact (h j).once _ _ l w' tok' (hr.part j) hen hok hw'
  answered := by
    rintro s t ⟨i, k⟩ hr hq hb hst hf
    exact (h i).answered _ _ k (hr.part i) (hq i) hb hst hf

end Part

end Pi

end Leaves

end BunnyDs
