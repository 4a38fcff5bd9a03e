import BunnyDs.LTS.Ranking

/-!
# What a scheduler of one processor is for

Jobs are spawned, and calls ask for one of them to be run again: `aims w f` says that the call `w`
is for the job `f`.  A job that was spawned is run once; a job that was run and is not done is run
once more for each call that reaches it.  A call for a job that was not run yet, or is done, is
discarded.  One job runs at a time.  Nothing is said about the order, and nothing about how jobs
and calls are kept.

* `Scheduler.system` : the scheduler as a transition system.
* `Scheduler.idle_iff` : it has nothing to do exactly when no job is queued or running and no call
  is pending.
-/

namespace BunnyDs

namespace Scheduler

variable {F W : Type*}

/-- Where a job is in its life. -/
inductive Life where
  /-- Not spawned yet. -/
  | new
  /-- Spawned, never run. -/
  | queued
  | running
  /-- Was run, waits for a call. -/
  | idle
  | done
  deriving DecidableEq

/-- Where a call is. -/
inductive Call where
  | unmade
  | pending
  | handled
  deriving DecidableEq

/-- The jobs and the calls. -/
@[ext]
structure State (F W : Type*) where
  life : F → Life
  calls : W → Call

/-- A step of a client or of the scheduler. -/
inductive Label (F W : Type*) where
  | spawn (f : F)
  | call (w : W)
  /-- The first run of a job. -/
  | start (f : F)
  /-- The run of a job that a call asked for. -/
  | answer (w : W) (f : F)
  /-- A call that asks for nothing. -/
  | discard (w : W)
  /-- The run ends; `isDone` if the job need not be run again. -/
  | finish (f : F) (isDone : Bool)

/-- The step is one of the scheduler's. -/
def Label.own : Label F W → Bool
  | .spawn _ | .call _ => false
  | .start _ | .answer .. | .discard _ | .finish .. => true

/-- No job is running. -/
def State.Free (s : State F W) : Prop := ∀ f, s.life f ≠ .running

/-- A step can be taken. -/
def Enabled (aims : W → F → Prop) (s : State F W) : Label F W → Prop
  | .spawn f => s.life f = .new
  | .call w => s.calls w = .unmade
  | .start f => s.Free ∧ s.life f = .queued
  | .answer w f => s.Free ∧ s.calls w = .pending ∧ aims w f ∧ s.life f = .idle
  | .discard w => s.Free ∧ s.calls w = .pending ∧ ∀ f, aims w f → s.life f ≠ .idle
  | .finish f _ => s.life f = .running

variable [DecidableEq F] [DecidableEq W]

/-- The effect of a step. -/
def fire (s : State F W) : Label F W → State F W
  | .spawn f => { s with life := Function.update s.life f .queued }
  | .call w => { s with calls := Function.update s.calls w .pending }
  | .start f => { s with life := Function.update s.life f .running }
  | .answer w f => ⟨Function.update s.life f .running, Function.update s.calls w .handled⟩
  | .discard w => { s with calls := Function.update s.calls w .handled }
  | .finish f isDone =>
    { s with life := Function.update s.life f (if isDone then .done else .idle) }

/-- The scheduler, before any spawn or call. -/
def system (aims : W → F → Prop) : LTS (State F W) (Label F W) where
  init := ⟨fun _ => .new, fun _ => .unmade⟩
  Enabled := Enabled aims
  fire := fire

/-- **At rest.**  The scheduler has nothing to do exactly when no job is queued or running and no
call is pending. -/
theorem idle_iff {aims : W → F → Prop} {s : State F W} :
    (system aims).Idle Label.own s ↔
      (∀ f, s.life f ≠ .queued ∧ s.life f ≠ .running) ∧ ∀ w, s.calls w ≠ .pending := by
  constructor
  · intro h
    have hfree : s.Free := fun f hf => h (.finish f true) rfl hf
    refine ⟨fun f => ⟨fun hf => h (.start f) rfl ⟨hfree, hf⟩, hfree f⟩, fun w hw => ?_⟩
    -- a pending call can be answered or discarded
    by_cases hf : ∃ f, aims w f ∧ s.life f = .idle
    · obtain ⟨f, haims, hf⟩ := hf
      exact h (.answer w f) rfl ⟨hfree, hw, haims, hf⟩
    · exact h (.discard w) rfl ⟨hfree, hw, fun f haims hi => hf ⟨f, haims, hi⟩⟩
  · rintro ⟨hlife, hcalls⟩ l hown hen
    cases l with
    | spawn f => cases hown
    | call w => cases hown
    | start f => exact (hlife f).1 hen.2
    | answer w f => exact hcalls w hen.2.1
    | discard w => exact hcalls w hen.2.1
    | finish f isDone => exact (hlife f).2 hen

end Scheduler

end BunnyDs
