import BunnyDs.Kernel.Basic
import BunnyDs.LTS.Basic
import BunnyDs.LTS.Log

/-!
# Join handles

A spawned future runs inside `wrap_with_join_state`, which publishes its value in a
mutex-protected `JoinState`.  On the other side is a `JoinHandle` (`spawn`), polled by any tasks
in any order, or a thread blocked on a `WaitSignal` (`spawn_and_block`).  `Join.system blocking`
is the interleaving of the two sides.  What one party does under the mutex is atomic for the
others; the wrapper's steps are kept apart because it signals while it holds the guard.

`wrap_with_join_state` overwrites the state before it looks for a stored waker, so the waker of a
pending poll is dropped and never woken: `Join.never_woken`.  A handle is not left behind only when
nobody awaits it at the completion: `Join.woken_of_unawaited`.
-/

namespace BunnyDs

namespace Join

variable {T : Type*}

/-- `JoinState`; a waker is its token. -/
inductive JoinState (T : Type*) where
  | unawaited
  | awaited (waker : TaskToken)
  | ready (val : T)
  | done
  deriving DecidableEq

/-- A waker is stored. -/
def JoinState.isAwaited : JoinState T → Bool
  | .awaited _ => true
  | _ => false

/-- What a poll of the handle did. -/
inductive PollResult (T : Type*) where
  | pending
  | ready (val : T)
  /-- `panic!("polled ready future ):")`, or the `unwrap` of a poisoned lock. -/
  | panicked
  deriving DecidableEq

/-- Events of interest: a poll with the given waker, a token goes to `WAKE_QUEUE`. -/
inductive Event (T : Type*) where
  | polled (waker : TaskToken) (res : PollResult T)
  | woke (task : TaskToken)
  deriving DecidableEq

/-- The event is a poll of the handle. -/
def Event.isPolled : Event T → Bool
  | .polled _ _ => true
  | .woke _ => false

/-- Where `wrap_with_join_state` is. -/
inductive Wrap (T : Type*) where
  /-- `future.await` is pending. -/
  | running
  /-- `join_state.lock().unwrap()`. -/
  | lock (value : T)
  /-- `*guard = JoinState::Ready(value)`. -/
  | store (value : T)
  /-- `if let JoinState::Awaited(waker) = &*guard`. -/
  | check
  /-- `WAKE_QUEUE.add(TaskToken::from_waker(waker))`. -/
  | add (task : TaskToken)
  /-- `if let Some(signal) = signal { signal.signal() }`. -/
  | signal
  /-- The guard is dropped, the wrapper is done. -/
  | finished
  /-- The lock was poisoned. -/
  | panicked
  deriving DecidableEq

/-- The wrapper holds the guard. -/
def Wrap.guard : Wrap T → Bool
  | .store _ | .check | .add _ | .signal => true
  | _ => false

/-- The wrapper is about to store its value. -/
def Wrap.storing : Wrap T → Bool
  | .store _ => true
  | _ => false

/-- The wrapper has stored its value. -/
def Wrap.stored : Wrap T → Bool
  | .check | .add _ | .signal | .finished => true
  | _ => false

/-- The wrapper has a step to take by itself. -/
def Wrap.active : Wrap T → Bool
  | .running | .finished | .panicked => false
  | _ => true

/-- The thread inside `spawn_and_block`. -/
inductive Caller (T : Type*) where
  /-- There is none: the future was `spawn`ed. -/
  | absent
  /-- `signal.wait()`. -/
  | wait
  /-- `join_state.lock().unwrap()` and the `match` on the replaced state. -/
  | lock
  | returned (val : T)
  | panicked
  deriving DecidableEq

/-- The join state behind its mutex, the parties and what they did. -/
structure State (T : Type*) where
  cell : JoinState T
  /-- A party panicked while it held the guard. -/
  poisoned : Bool
  wrap : Wrap T
  /-- The `JoinHandle` exists. -/
  handle : Bool
  /-- The latched state of the `WaitSignal`. -/
  event : Bool
  caller : Caller T
  log : List (Event T)

/-- One step of one party. -/
inductive Label (T : Type*) where
  /-- The spawned future completes with `value`. -/
  | complete (value : T)
  /-- The next step of the wrapper. -/
  | wrap
  /-- `JoinHandle::poll` with the given waker. -/
  | poll (waker : TaskToken)
  /-- The handle is dropped. -/
  | drop
  /-- The next step of the blocked thread. -/
  | caller

/-- The next step of `wrap_with_join_state`; `blocking` if it was given a signal. -/
def wrapStep (blocking : Bool) (s : State T) : State T :=
  match s.wrap with
  | .running | .finished | .panicked => s
  | .lock value => { s with wrap := if s.poisoned then .panicked else .store value }
  | .store value => { s with cell := .ready value, wrap := .check }
  | .check =>
    match s.cell with
    | .awaited waker => { s with wrap := .add waker }
    | _ => { s with wrap := .signal }
  | .add task => { s with log := .woke task :: s.log, wrap := .signal }
  | .signal => { s with event := s.event || blocking, wrap := .finished }

/-- `JoinHandle::poll`: under the lock, the state is replaced by `Done` and looked at. -/
def pollStep (waker : TaskToken) (s : State T) : State T :=
  if s.poisoned then { s with log := .polled waker .panicked :: s.log }
  else match s.cell with
    | .ready val => { s with cell := .done, log := .polled waker (.ready val) :: s.log }
    | .unawaited | .awaited _ =>
      { s with cell := .awaited waker, log := .polled waker .pending :: s.log }
    -- the panic unwinds through the guard
    | .done => { s with poisoned := true, log := .polled waker .panicked :: s.log }

/-- The next step of `spawn_and_block` after it queued the task. -/
def callerStep (s : State T) : State T :=
  match s.caller with
  | .absent | .returned _ | .panicked => s
  | .wait => { s with event := false, caller := .lock }
  | .lock =>
    if s.poisoned then { s with caller := .panicked }
    else match s.cell with
      | .ready val => { s with cell := .done, caller := .returned val }
      | _ => { s with cell := .done, poisoned := true, caller := .panicked }

/-- A step can be taken: a party that needs the lock waits for the wrapper's guard. -/
def Enabled (s : State T) : Label T → Prop
  | .complete _ => s.wrap = .running
  | .wrap => s.wrap.active = true
  | .poll _ => s.handle = true ∧ s.wrap.guard = false
  | .drop => s.handle = true
  | .caller => s.caller = .wait ∧ s.event = true ∨ s.caller = .lock ∧ s.wrap.guard = false

instance [DecidableEq T] (s : State T) (l : Label T) : Decidable (Enabled s l) :=
  match l with
  | .complete _ => inferInstanceAs (Decidable (s.wrap = .running))
  | .wrap => inferInstanceAs (Decidable (s.wrap.active = true))
  | .poll _ => inferInstanceAs (Decidable (s.handle = true ∧ s.wrap.guard = false))
  | .drop => inferInstanceAs (Decidable (s.handle = true))
  | .caller => inferInstanceAs
      (Decidable (s.caller = .wait ∧ s.event = true ∨ s.caller = .lock ∧ s.wrap.guard = false))

/-- The effect of a step. -/
def fire (blocking : Bool) (s : State T) : Label T → State T
  | .complete value => { s with wrap := .lock value }
  | .wrap => wrapStep blocking s
  | .poll waker => pollStep waker s
  | .drop => { s with handle := false }
  | .caller => callerStep s

/-- `spawn` (with a handle), or `spawn_and_block` (with a blocked thread). -/
def system (T : Type*) (blocking : Bool) : LTS (State T) (Label T) where
  init := ⟨.unawaited, false, .running, !blocking, false, if blocking then .wait else .absent, []⟩
  Enabled := Enabled
  fire := fire blocking

instance [DecidableEq T] (blocking : Bool) (s : State T) (l : Label T) :
    Decidable ((system T blocking).Enabled s l) :=
  inferInstanceAs (Decidable (Enabled s l))

/-! ### Waking the task that awaits the handle -/

/-- The most recent poll was pending, with the given waker. -/
def State.LastPending (s : State T) (waker : TaskToken) : Prop :=
  s.log.find? Event.isPolled = some (.polled waker .pending)

/-- Once the wrapped future has completed, a handle that is still there and was left pending by
its most recent poll has had that poll's waker added to `WAKE_QUEUE` since. -/
def Woken (s : State T) : Prop :=
  s.wrap = .finished → s.handle = true → ∀ waker, s.LastPending waker →
    Event.woke waker ∈ Log.since Event.isPolled s.log

/-- When the wrapper stores the value, nobody awaits the handle: it was not polled, or it was
dropped. -/
def Unawaited (s : State T) : Label T → Prop
  | .wrap => s.wrap.storing = true → s.cell.isAwaited = false ∨ s.handle = false
  | _ => True

instance (s : State T) (l : Label T) : Decidable (Unawaited s l) :=
  match l with
  | .wrap => inferInstanceAs
      (Decidable (s.wrap.storing = true → s.cell.isAwaited = false ∨ s.handle = false))
  | .complete _ | .poll _ | .drop | .caller => inferInstanceAs (Decidable True)

section Invariant

variable {blocking : Bool} {s : State T}

/-- The invariant of every run. -/
structure Inv (s : State T) : Prop where
  /-- After the store the state is `Ready` or `Done`. -/
  stored : s.wrap.stored = true → ∀ waker, s.cell ≠ .unawaited ∧ s.cell ≠ .awaited waker
  /-- A handle and a blocked thread exclude each other. -/
  caller : s.handle = true → s.caller = .absent
  /-- The wrapper never finds a waker to wake. -/
  wake : ∀ task, s.wrap ≠ .add task

theorem inv_init : Inv (system T blocking).init where
  stored := by simp [system, Wrap.stored]
  caller := by cases blocking <;> simp [system]
  wake := by simp [system]

theorem inv_wrap (h : Inv s) : Inv (wrapStep blocking s) := by
  cases hw : s.wrap with
  | running => simpa only [wrapStep, hw] using h
  | finished => simpa only [wrapStep, hw] using h
  | panicked => simpa only [wrapStep, hw] using h
  | lock value =>
    simp only [wrapStep, hw]
    refine ⟨?_, h.caller, fun task => ?_⟩ <;> split <;> simp [Wrap.stored]
  | store value =>
    simp only [wrapStep, hw]
    exact ⟨by simp, h.caller, by simp⟩
  | check =>
    have hst := h.stored (by simp [hw, Wrap.stored])
    -- the state was overwritten just before: the stored waker is not there any more
    have hstep : wrapStep blocking s = { s with wrap := .signal } := by
      cases hc : s.cell with
      | awaited waker => exact absurd hc (hst waker).2
      | _ => simp [wrapStep, hw, hc]
    rw [hstep]
    exact ⟨fun _ => hst, h.caller, by simp⟩
  | add task => exact absurd hw (h.wake task)
  | signal =>
    simp only [wrapStep, hw]
    exact ⟨fun _ => h.stored (by simp [hw, Wrap.stored]), h.caller, by simp⟩

theorem inv_poll (waker : TaskToken) (h : Inv s) : Inv (pollStep waker s) := by
  unfold pollStep
  split_ifs with hp
  · exact ⟨h.stored, h.caller, h.wake⟩
  · cases hc : s.cell with
    | ready val => exact ⟨by simp, h.caller, h.wake⟩
    | done => exact ⟨by simp, h.caller, h.wake⟩
    | unawaited =>
      refine ⟨fun hst => ?_, h.caller, h.wake⟩
      exact absurd hc (h.stored hst waker).1
    | awaited waker' =>
      refine ⟨fun hst => ?_, h.caller, h.wake⟩
      exact absurd hc (h.stored hst waker').2

theorem inv_caller (h : Inv s) : Inv (callerStep s) := by
  cases hc : s.caller with
  | absent => simpa only [callerStep, hc] using h
  | returned val => simpa only [callerStep, hc] using h
  | panicked => simpa only [callerStep, hc] using h
  | wait =>
    simp only [callerStep, hc]
    exact ⟨h.stored, fun hh => absurd (hc.symm.trans (h.caller hh)) (by simp), h.wake⟩
  | lock =>
    have hh : s.handle = true → s.caller = .absent := h.caller
    simp only [hc, reduceCtorEq, imp_false] at hh
    simp only [callerStep, hc]
    split_ifs with hp
    · exact ⟨h.stored, fun h' => absurd h' hh, h.wake⟩
    · cases s.cell <;> exact ⟨by simp, fun h' => absurd h' hh, h.wake⟩

theorem inv_step {l : Label T} (h : Inv s) : Inv (fire blocking s l) := by
  cases l with
  | complete value =>
    exact ⟨by simp [fire, Wrap.stored], h.caller, by simp [fire]⟩
  | wrap => exact inv_wrap h
  | poll waker => exact inv_poll waker h
  | drop => exact ⟨h.stored, by simp [fire], h.wake⟩
  | caller => exact inv_caller h

theorem inv_reachable {ok : State T → Label T → Prop} (h : (system T blocking).ReachableBy ok s) :
    Inv s :=
  h.invariant inv_init fun _ _ _ hi _ _ => inv_step hi

/-- While nobody awaits the handle at the store, a pending poll has left its waker in the state. -/
def WakerStored (s : State T) : Prop :=
  s.handle = true → ∀ waker, s.LastPending waker → s.cell = .awaited waker

theorem wakerStored_wrap (h : WakerStored s) (hi : Inv s) (hok : Unawaited s .wrap) :
    WakerStored (wrapStep blocking s) := by
  cases hw : s.wrap with
  | store value =>
    simp only [wrapStep, hw]
    intro hh waker hp
    rcases hok (by rw [hw]; rfl) with hc | hc
    · simp [h hh waker hp, JoinState.isAwaited] at hc
    · exact absurd (hc.symm.trans hh) (by simp)
  | add task => exact absurd hw (hi.wake task)
  | check => simp only [wrapStep, hw]; split <;> exact h
  | _ => simp only [wrapStep, hw]; exact h

theorem wakerStored_poll (waker : TaskToken) : WakerStored (pollStep waker s) := by
  unfold pollStep
  split_ifs
  · intro _ waker' hp
    simp [State.LastPending, Event.isPolled] at hp
  · cases s.cell <;> intro _ waker' hp <;> simp_all [State.LastPending, Event.isPolled]

theorem callerStep_handle (s : State T) : (callerStep s).handle = s.handle := by
  unfold callerStep
  cases s.caller with
  | lock => simp only; split_ifs <;> [rfl; (cases s.cell <;> rfl)]
  | _ => rfl

theorem wakerStored_step {l : Label T} (h : WakerStored s) (hi : Inv s)
    (hen : Enabled s l) (hok : Unawaited s l) : WakerStored (fire blocking s l) := by
  cases l with
  | complete value => exact h
  | wrap => exact wakerStored_wrap h hi hok
  | poll waker => exact wakerStored_poll waker
  | drop => exact fun hh => by simp [fire] at hh
  | caller =>
    intro hh
    -- a blocked thread took the step, so there is no handle
    have hc := hi.caller (callerStep_handle s ▸ hh)
    rcases hen with ⟨h', -⟩ | ⟨h', -⟩ <;> simp [hc] at h'

end Invariant

/-- **The awaiting task is woken, when there is none.**  In every run in which the wrapper stores
the value while the handle is not awaited, no completed future leaves a handle pending without a
wake. -/
theorem woken_of_unawaited {s : State T} (h : (system T false).ReachableBy Unawaited s) :
    Woken s := by
  have hw : WakerStored s :=
    h.invariant (fun _ waker hp => by simp [system, State.LastPending] at hp)
      fun _ _ hs hi hen hok => wakerStored_step hi (inv_reachable hs) hen hok
  intro hfin hh waker hp
  exact absurd (hw hh waker hp) ((inv_reachable h).stored (by simp [hfin, Wrap.stored]) waker).2

/-- A handle that is polled only after the completion gets its value at once. -/
theorem woken_of_unawaited_late : ∃ s : State ℕ, (system ℕ false).ReachableBy Unawaited s ∧
    s.wrap = .finished ∧ s.handle = true ∧ s.log = [.polled ⟨1⟩ (.ready 9)] ∧ Woken s := by
  obtain ⟨s, hs, hfin, hh, hlog⟩ := LTS.exists_of_exec (system ℕ false) Unawaited
    [.complete 9, .wrap, .wrap, .wrap, .wrap, .poll ⟨1⟩]
    (fun s => s.wrap = .finished ∧ s.handle = true ∧ s.log = [.polled ⟨1⟩ (.ready 9)]) (by decide)
  exact ⟨s, hs, hfin, hh, hlog, woken_of_unawaited hs⟩

/-- **A task that awaits a handle is never woken**: it polls once, the future completes, and its
token never reaches `WAKE_QUEUE`. -/
theorem never_woken : ¬ ∀ s, (system ℕ false).Reachable s → Woken s := by
  intro hall
  obtain ⟨s, hs, hfin, hh, hlog⟩ := LTS.exists_of_exec (system ℕ false) (fun _ _ => True)
    [.poll ⟨1⟩, .complete 9, .wrap, .wrap, .wrap, .wrap]
    (fun s => s.wrap = .finished ∧ s.handle = true ∧ s.log = [.polled ⟨1⟩ .pending]) (by decide)
  have := hall s hs hfin hh ⟨1⟩ (by simp [State.LastPending, hlog, Event.isPolled])
  simp [hlog, Log.since_cons, Event.isPolled] at this

end Join

end BunnyDs
