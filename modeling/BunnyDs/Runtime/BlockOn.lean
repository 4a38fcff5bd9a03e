import BunnyDs.Executor.Join
import BunnyDs.Runtime.App

/-!
# `block_on`

`Runtime::block_on` runs an application: it spawns the main future inside
`wrap_with_join_state`, blocks the calling thread on a `WaitSignal`, and returns what the future
made.  `Runtime.BlockOn.system` puts the runtime of `BunnyDs.Runtime.System` together with the
wrapper and the blocked thread of `BunnyDs.Executor.Join`: the wrapper runs inside the polls of the
main task, once the future has reached its end, and the poll is ready when the wrapper has finished.

* `Join.Blocking` : where the value of the future is while nobody but the blocked thread wants it.
* `Runtime.BlockOn.block_on_returns` : **`block_on` returns the value of its future and does not
  panic; and when the runtime is at rest it has returned, unless the main task waits for something
  outside of the runtime**, under what `Runtime.App.Regular` assumes of the run.
-/

namespace BunnyDs

namespace Join

variable {T : Type*}

/-- What the cells hold at each place of the wrapper; `outcome` is what the future completed
with. -/
def BlockingAt (outcome : Option T) (s : State T) : Wrap T → Prop
  | .running => outcome = none ∧ s.cell = .unawaited ∧ s.event = false ∧ s.caller = .wait
  | .lock v | .store v =>
    outcome = some v ∧ s.cell = .unawaited ∧ s.event = false ∧ s.caller = .wait
  | .check | .signal =>
    ∃ v, outcome = some v ∧ s.cell = .ready v ∧ s.event = false ∧ s.caller = .wait
  | .finished => ∃ v, outcome = some v ∧
      (s.cell = .ready v ∧ s.event = true ∧ s.caller = .wait ∨
        s.cell = .ready v ∧ s.event = false ∧ s.caller = .lock ∨
        s.cell = .done ∧ s.event = false ∧ s.caller = .returned v)
  | .add _ | .panicked => False

/-- The value of the future is on its way to the blocked thread. -/
def Blocking (outcome : Option T) (s : State T) : Prop :=
  s.poisoned = false ∧ BlockingAt outcome s s.wrap

variable {outcome : Option T} {s : State T}

theorem blocking_init : Blocking none (system T true).init := ⟨rfl, rfl, rfl, rfl, rfl⟩

/-- The future completes. -/
theorem Blocking.complete (h : Blocking outcome s) (v : T) (hrun : s.wrap = .running) :
    Blocking (some v) (fire true s (.complete v)) := by
  obtain ⟨hp, hw⟩ := h
  rw [hrun] at hw
  exact ⟨hp, rfl, hw.2⟩

/-- The wrapper publishes the value and signals. -/
theorem Blocking.wrap (h : Blocking outcome s) (hact : s.wrap.active = true) :
    Blocking outcome (fire true s .wrap) := by
  obtain ⟨hp, hw⟩ := h
  cases hwrap : s.wrap with
  | running => simp [hwrap, Wrap.active] at hact
  | finished => simp [hwrap, Wrap.active] at hact
  | panicked => simp [hwrap, Wrap.active] at hact
  | add task =>
    rw [hwrap] at hw
    exact hw.elim
  | lock v =>
    rw [hwrap] at hw
    have hstep : fire true s .wrap = { s with wrap := .store v } := by
      simp [fire, wrapStep, hwrap, hp]
    rw [hstep]
    exact ⟨hp, hw⟩
  | store v =>
    rw [hwrap] at hw
    obtain ⟨ho, -, he, hc⟩ := hw
    simp only [fire, wrapStep, hwrap]
    exact ⟨hp, v, ho, rfl, he, hc⟩
  | check =>
    rw [hwrap] at hw
    obtain ⟨v, ho, hcell, he, hc⟩ := hw
    simp only [fire, wrapStep, hwrap, hcell]
    exact ⟨hp, v, ho, rfl, he, hc⟩
  | signal =>
    rw [hwrap] at hw
    obtain ⟨v, ho, hcell, he, hc⟩ := hw
    simp only [fire, wrapStep, hwrap, Bool.or_true]
    exact ⟨hp, v, ho, .inl ⟨hcell, rfl, hc⟩⟩

/-- A thread that can go on finds the value. -/
theorem Blocking.finished_of_caller (h : Blocking outcome s) (hen : Enabled s .caller) :
    s.wrap = .finished := by
  obtain ⟨-, hw⟩ := h
  cases hwrap : s.wrap with
  | finished => rfl
  | add | panicked =>
    rw [hwrap] at hw
    exact hw.elim
  | running | lock | store | check | signal =>
    simp only [hwrap, BlockingAt] at hw
    rcases hen with ⟨-, he⟩ | ⟨hc, -⟩ <;> simp_all

/-- The blocked thread takes the value. -/
theorem Blocking.caller (h : Blocking outcome s) (hen : Enabled s .caller) :
    Blocking outcome (fire true s .caller) ∧ (fire true s .caller).wrap = .finished := by
  have hwrap := h.finished_of_caller hen
  obtain ⟨hp, hw⟩ := h
  rw [hwrap] at hw
  obtain ⟨v, ho, ⟨hcell, -, hc⟩ | ⟨hcell, he, hc⟩ | ⟨-, -, hc⟩⟩ := hw
  · have hstep : fire true s .caller = { s with event := false, caller := .lock } := by
      simp [fire, callerStep, hc]
    rw [hstep]
    refine ⟨⟨hp, ?_⟩, hwrap⟩
    change BlockingAt outcome _ s.wrap
    rw [hwrap]
    exact ⟨v, ho, .inr (.inl ⟨hcell, rfl, rfl⟩)⟩
  · have hstep : fire true s .caller = { s with cell := .done, caller := .returned v } := by
      simp [fire, callerStep, hc, hp, hcell]
    rw [hstep]
    refine ⟨⟨hp, ?_⟩, hwrap⟩
    change BlockingAt outcome _ s.wrap
    rw [hwrap]
    exact ⟨v, ho, .inr (.inr ⟨rfl, he, rfl⟩)⟩
  · rcases hen with ⟨hc', -⟩ | ⟨hc', -⟩ <;> rw [hc] at hc' <;> cases hc'

/-- The thread waits, or takes the value, or has returned what the future completed with. -/
theorem Blocking.caller_cases (h : Blocking outcome s) :
    s.caller = .wait ∨ s.caller = .lock ∨ ∃ v, s.caller = .returned v ∧ outcome = some v := by
  obtain ⟨-, hw⟩ := h
  cases hwrap : s.wrap with
  | running | lock | store =>
    rw [hwrap] at hw
    exact .inl hw.2.2.2
  | check | signal =>
    rw [hwrap] at hw
    obtain ⟨v, -, -, -, hc⟩ := hw
    exact .inl hc
  | finished =>
    rw [hwrap] at hw
    obtain ⟨v, ho, ⟨-, -, hc⟩ | ⟨-, -, hc⟩ | ⟨-, -, hc⟩⟩ := hw
    · exact .inl hc
    · exact .inr (.inl hc)
    · exact .inr (.inr ⟨v, hc, ho⟩)
  | add | panicked =>
    rw [hwrap] at hw
    exact hw.elim

/-- Until the future completes, the thread waits. -/
theorem Blocking.waits (h : Blocking outcome s) (ho : outcome = none) : s.caller = .wait := by
  obtain ⟨-, hw⟩ := h
  cases hwrap : s.wrap with
  | running =>
    rw [hwrap] at hw
    exact hw.2.2.2
  | lock | store =>
    rw [hwrap] at hw
    cases ho.symm.trans hw.1
  | check | signal | finished =>
    rw [hwrap] at hw
    obtain ⟨v, hv, -⟩ := hw
    cases ho.symm.trans hv
  | add | panicked =>
    rw [hwrap] at hw
    exact hw.elim

/-- Once the wrapper has finished, a thread that cannot go on has returned. -/
theorem Blocking.at_rest (h : Blocking outcome s) (hfin : s.wrap = .finished)
    (hrest : ¬ Enabled s .caller) : ∃ v, s.caller = .returned v ∧ outcome = some v := by
  obtain ⟨-, hw⟩ := h
  rw [hfin] at hw
  obtain ⟨v, ho, ⟨-, he, hc⟩ | ⟨-, -, hc⟩ | ⟨-, -, hc⟩⟩ := hw
  · exact absurd (.inl ⟨hc, he⟩) hrest
  · exact absurd (.inr ⟨hc, by rw [hfin]; rfl⟩) hrest
  · exact ⟨v, hc, ho⟩

end Join

namespace Runtime

namespace BlockOn

variable {V F κ W X σ Λ : Type*}

/-- The runtime, the wrapper of the main future and the blocked thread. -/
structure State (V F κ W X σ : Type*) where
  run : Runtime.State F κ W X σ
  join : Join.State V
  /-- What the main future completed with. -/
  outcome : Option V

/-- One step of one party. -/
inductive Label (V F κ W X Λ : Type*) where
  /-- A step of the runtime, or of the thread that spawns a task. -/
  | run (l : Runtime.Label F κ W X Λ)
  /-- The main future completes with `value`. -/
  | complete (value : V)
  /-- The next step of the wrapper. -/
  | wrap
  /-- The next step of the thread in `spawn_and_block`, after `TASK_QUEUE.add`. -/
  | caller

variable [DecidableEq F] [DecidableEq κ] [DecidableEq W] [DecidableEq X]
variable (P : Program F κ W X σ Λ) (main : F)

/-- The effect of a step. -/
def fire (s : State V F κ W X σ) : Label V F κ W X Λ → State V F κ W X σ
  | .run l => { s with run := Runtime.fire P s.run l }
  | .complete value =>
    { s with join := Join.fire true s.join (.complete value), outcome := some value }
  | .wrap => { s with join := Join.fire true s.join .wrap }
  | .caller => { s with join := Join.fire true s.join .caller }

/-- The poll of the main task is ready only when the wrapper has finished. -/
def Returns (s : State V F κ W X σ) : Runtime.Label F κ W X Λ → Prop
  | .exec (.finish true) => s.run.exec.phase.polls main = true → s.join.wrap = .finished
  | _ => True

/-- A step can be taken: what the wrapper does, it does inside a poll of the main task, after the
future has come to its end. -/
def Enabled (s : State V F κ W X σ) : Label V F κ W X Λ → Prop
  | .run l => (Runtime.system P).Enabled s.run l ∧ Returns main s l
  | .complete value => Join.Enabled s.join (.complete value) ∧
      s.run.exec.phase.polls main = true ∧ s.run.current main = none
  | .wrap => Join.Enabled s.join .wrap ∧ s.run.exec.phase.polls main = true
  | .caller => Join.Enabled s.join .caller ∧ s.run.exec.taskQueue.adds main = .returned

/-- `block_on` of the main task, on a runtime that has just been started. -/
def system : LTS (State V F κ W X σ) (Label V F κ W X Λ) where
  init := ⟨(Runtime.system P).init, (Join.system V true).init, none⟩
  Enabled := Enabled P main
  fire := fire P

omit [DecidableEq F] [DecidableEq κ] [DecidableEq W] [DecidableEq X] in
/-- The steps of the runtime meet `ok`. -/
def OnRun (ok : Runtime.State F κ W X σ → Runtime.Label F κ W X Λ → Prop)
    (s : State V F κ W X σ) : Label V F κ W X Λ → Prop
  | .run l => ok s.run l
  | .complete _ | .wrap | .caller => True

instance (ok : Runtime.State F κ W X σ → Runtime.Label F κ W X Λ → Prop)
    [∀ s l, Decidable (ok s l)] (s : State V F κ W X σ) (l : Label V F κ W X Λ) :
    Decidable (OnRun ok s l) :=
  match l with
  | .run l => inferInstanceAs (Decidable (ok s.run l))
  | .complete _ | .wrap | .caller => inferInstanceAs (Decidable True)

instance [DecidableEq V] (s : State V F κ W X σ) (l : Runtime.Label F κ W X Λ) :
    Decidable (Returns main s l) :=
  match l with
  | .exec (.finish true) =>
    inferInstanceAs (Decidable (s.run.exec.phase.polls main = true → s.join.wrap = .finished))
  | .exec (.finish false) | .exec (.pushWake _) | .exec (.pushTask _) | .exec (.releaseTask _)
  | .exec (.releaseWake _) | .exec .wait | .exec .remove | .exec .poll | .leaf _
  | .advance .. => inferInstanceAs (Decidable True)

instance [DecidableEq V] [∀ s l, Decidable ((Runtime.system P).Enabled s l)]
    (s : State V F κ W X σ) (l : Label V F κ W X Λ) : Decidable ((system P main).Enabled s l) :=
  match l with
  | .run l => inferInstanceAs (Decidable ((Runtime.system P).Enabled s.run l ∧ Returns main s l))
  | .complete value => inferInstanceAs (Decidable (Join.Enabled s.join (.complete value) ∧
      s.run.exec.phase.polls main = true ∧ s.run.current main = none))
  | .wrap => inferInstanceAs (Decidable
      (Join.Enabled s.join .wrap ∧ s.run.exec.phase.polls main = true))
  | .caller => inferInstanceAs (Decidable
      (Join.Enabled s.join .caller ∧ s.run.exec.taskQueue.adds main = .returned))

/-- Nothing is left to do: the runtime is at rest and the blocked thread cannot go on. -/
structure AtRest (s : State V F κ W X σ) : Prop where
  run : Runtime.AtRest P s.run
  caller : ¬ Join.Enabled s.join .caller
  spawned : s.run.exec.taskQueue.adds main = .returned

instance [DecidableEq V] [∀ s, Decidable (P.leaves.Quiet s)] (s : State V F κ W X σ) :
    Decidable (AtRest P main s) :=
  decidable_of_iff (Runtime.AtRest P s.run ∧ ¬ Join.Enabled s.join .caller ∧
      s.run.exec.taskQueue.adds main = .returned)
    ⟨fun h => ⟨h.1, h.2.1, h.2.2⟩, fun h => ⟨h.run, h.caller, h.spawned⟩⟩

variable {P main} {s : State V F κ W X σ}

/-- The runtime, the join state, and what ties them together. -/
structure Inv (P : Program F κ W X σ Λ) (main : F) (s : State V F κ W X σ) : Prop where
  run : Runtime.Inv P s.run
  join : Join.Blocking s.outcome s.join
  ready : .polled main true ∈ s.run.exec.log → s.join.wrap = .finished
  ended : s.outcome ≠ none → s.run.current main = none

/-- Only the return of a poll of the main task that is ready makes it so. -/
theorem polled_main {l : Runtime.Label F κ W X Λ} (hen : (Runtime.system P).Enabled s.run l)
    (hret : Returns main s l) (h : .polled main true ∈ s.run.exec.log → s.join.wrap = .finished) :
    .polled main true ∈ (Runtime.fire P s.run l).exec.log → s.join.wrap = .finished := by
  intro hm
  cases l with
  | exec l =>
    have heffect := Executor.fire_polls P.token s.run.exec hen.1
    change _ ∈ (Executor.fire P.token s.run.exec l).log at hm
    cases heffect with
    | silent _ _ hlog => exact h (hlog ▸ hm)
    | pushed w _ hlog => exact h (by simpa [hlog] using hm)
    | began x _ _ hlog => exact h (by simpa [hlog] using hm)
    | returned x b hbefore _ hlog =>
      rw [hlog] at hm
      rcases List.mem_cons.1 hm with he | hm
      · obtain ⟨rfl, rfl⟩ := Executor.Event.polled.inj he
        exact hret ((hbefore main).2 rfl)
      · exact h hm
  | leaf l => exact h (((push_calm (P := P) _ _).polled main true).1 hm)
  | advance x next => exact h hm

/-- A task that has reached its end stays there. -/
theorem current_main {l : Runtime.Label F κ W X Λ} (hen : (Runtime.system P).Enabled s.run l)
    (h : s.run.current main = none) : (Runtime.fire P s.run l).current main = none := by
  cases l with
  | exec l => exact h
  | leaf l => exact h
  | advance x next =>
    obtain ⟨-, ⟨k, hk, -⟩, -⟩ := hen
    have hx : main ≠ x := by
      rintro rfl
      rw [h] at hk
      cases hk
    exact (Function.update_of_ne hx ..).trans h

theorem inv_step {l : Label V F κ W X Λ} (h : Inv P main s) (hen : Enabled P main s l)
    (hok : OnRun (Regular P) s l) : Inv P main (fire P s l) := by
  cases l with
  | run l =>
    exact ⟨Runtime.inv_step h.run hen.1 hok, h.join, polled_main hen.1 hen.2 h.ready,
      fun ho => current_main hen.1 (h.ended ho)⟩
  | complete value =>
    refine ⟨h.run, h.join.complete value hen.1, fun hm => ?_, fun _ => hen.2.2⟩
    have hrun : s.join.wrap = .running := hen.1
    rw [h.ready hm] at hrun
    cases hrun
  | wrap =>
    refine ⟨h.run, h.join.wrap hen.1, fun hm => ?_, h.ended⟩
    have hact : s.join.wrap.active = true := hen.1
    rw [h.ready hm] at hact
    cases hact
  | caller => exact ⟨h.run, (h.join.caller hen.1).1, fun _ => (h.join.caller hen.1).2, h.ended⟩

theorem inv_reachable (h : (system P main).ReachableBy (OnRun (Regular P)) s) : Inv P main s := by
  refine h.invariant ⟨Runtime.inv_init, Join.blocking_init, ?_, fun ho => absurd rfl ho⟩
    fun _ _ _ hi hen hok => inv_step hi hen hok
  simp [system, Runtime.system, Executor.system]

/-! ### An application -/

section App

variable {V F X Ch ι κ Sl So Sf : Type} {T : Ch → Type}
variable [DecidableEq F] [DecidableEq X] [DecidableEq Ch] [DecidableEq ι] [DecidableEq κ]
  [DecidableEq Sl] [DecidableEq So] [DecidableEq Sf] [Fintype κ]

/-- The states of an application under `block_on`. -/
abbrev AppState (V F X Ch ι κ Sl So Sf : Type) (T : Ch → Type) :=
  State V F (Σ p : Part Ch So, p.Leaf ι Sl Sf) (Σ p : Part Ch So, p.Call ι Sl Sf) X
    (∀ p : Part Ch So, p.State T ι κ Sl Sf)

/-- **What `block_on` does.** -/
structure Sound (a : App F X Ch ι Sl So Sf) (main : F) (s : AppState V F X Ch ι κ Sl So Sf T) :
    Prop where
  /-- It returns what its future completed with. -/
  value : ∀ v, s.join.caller = .returned v → s.outcome = some v
  no_panic : s.join.caller ≠ .panicked
  /-- When everything is at rest it has returned, or the main task waits for the outside. -/
  rest : AtRest (a.program T κ) main s →
    (∃ v, s.join.caller = .returned v ∧ s.outcome = some v) ∨
      s.join.caller = .wait ∧ ∃ k, s.run.current main = some k ∧ a.WaitsFor s.run.leaves k

/-- **`block_on` returns the value of its future**, in every run of every application that keeps to
`App.Regular`: it does not panic, and if everything comes to rest without it the main task waits for
the outside world. -/
theorem block_on_returns (a : App F X Ch ι Sl So Sf) (main : F)
    {s : AppState V F X Ch ι κ Sl So Sf T}
    (h : (system (a.program T κ) main).ReachableBy (OnRun a.Regular) s) : Sound a main s := by
  have hi := inv_reachable (h.mono fun s l hok => by
    cases l with
    | run l => exact App.Regular.program hok
    | _ => trivial)
  refine ⟨fun v hv => ?_, fun hp => ?_, fun hrest => ?_⟩
  · rcases hi.join.caller_cases with hc | hc | ⟨w, hc, ho⟩
    · cases hv.symm.trans hc
    · cases hv.symm.trans hc
    · cases hv.symm.trans hc
      exact ho
  · rcases hi.join.caller_cases with hc | hc | ⟨w, hc, -⟩ <;> cases hp.symm.trans hc
  · rcases hi.run.at_rest hrest.run hrest.spawned with ⟨-, hready⟩ | ⟨k, hk, hbegun, hidle, hnot⟩
    · exact .inl (hi.join.at_rest (hi.ready hready) hrest.caller)
    · have hnone : s.outcome = none := by
        by_contra ho
        cases hk.symm.trans (hi.ended ho)
      exact .inr ⟨hi.join.waits hnone, k, hk,
        Services.waitsFor_of_not_fired hi.run.leaves hrest.run.quiet hbegun hidle hnot⟩

/-- The second of the two tasks of `App.twoTasks` is the main one: `block_on` returns what came
through the channel, while the first task is left with its socket. -/
theorem block_on_returns_true :
    ∃ s : AppState Bool (Fin 2) Empty Unit (Fin 1) (Fin 1) (Fin 1) Unit (Fin 1) fun _ => Bool,
      (system (App.twoTasks.program (fun _ => Bool) (Fin 1)) 1).ReachableBy
        (OnRun App.twoTasks.Regular) s ∧
      (AtRest (App.twoTasks.program (fun _ => Bool) (Fin 1)) 1 s ∧
        s.join.caller = .returned true) ∧ Sound App.twoTasks 1 s := by
  obtain ⟨s, hs, hend⟩ :=
    LTS.exists_of_exec (system (App.twoTasks.program (fun _ => Bool) (Fin 1)) 1)
      (OnRun App.twoTasks.Regular)
      -- the poll in which the task reaches its end also runs the wrapper
      ((App.twoTasksRun.take 50).map .run ++ [.complete true, .wrap, .wrap, .wrap, .wrap] ++
        (App.twoTasksRun.drop 50).map .run ++ [.caller, .caller])
      (fun s : AppState Bool (Fin 2) Empty Unit (Fin 1) (Fin 1) (Fin 1) Unit (Fin 1)
          fun _ => Bool =>
        AtRest (App.twoTasks.program (fun _ => Bool) (Fin 1)) 1 s ∧
          s.join.caller = .returned true) (by decide +kernel)
  exact ⟨s, hs, hend, block_on_returns App.twoTasks 1 hs⟩

end App

end BlockOn

end Runtime

end BunnyDs
