import BunnyDs.Kernel.Basic
import BunnyDs.LTS.Basic
import BunnyDs.LTS.Log

/-!
# Notifications

`sync::notification` packs its whole state in one 32-bit word: two reserved values
(`NOTIFICATION_UNINIT`, `NOTIFICATION_READY`) and, between them, the token of the waiting task.
Loads and stores of the word are separate steps; the sender notifies at most once (`notify`
consumes it) and the waiter is polled any number of times by the task `tok`.

`notify` does nothing when it loads `NOTIFICATION_UNINIT`, so a notification that comes before
the waiter's first poll has stored its token is forgotten: `Notification.lost_when_first`.  It is
the only way to lose one: `Notification.not_lost` holds in every run in which `notify` loads a
token.
-/

namespace BunnyDs

namespace Notification

/-- `NOTIFICATION_READY`. -/
def ready : UInt32 := u32Max - 1

/-- `NOTIFICATION_UNINIT`. -/
def uninit : UInt32 := u32Max

/-- Events of interest: a poll returns, a token goes to `WAKE_QUEUE`. -/
inductive Event where
  /-- A poll returned; `late` if it started after `notify` had returned. -/
  | polled (late isReady : Bool)
  | woke (task : TaskToken)
  deriving DecidableEq

/-- The event is the return of a poll. -/
def Event.isPolled : Event → Bool
  | .polled _ _ => true
  | .woke _ => false

/-- The sender's next access. -/
inductive Sender where
  /-- `notify` was not called. -/
  | idle
  /-- `self.state.load(Acquire)`. -/
  | load
  /-- `self.state.store(NOTIFICATION_READY, Release)`. -/
  | store (task : TaskToken)
  /-- `WAKE_QUEUE.add(task)`. -/
  | add (task : TaskToken)
  /-- `notify` has returned. -/
  | returned
  deriving DecidableEq

/-- The waiter's next access; `late` if its poll started after `notify` had returned. -/
inductive Waiter where
  /-- Not being polled. -/
  | idle
  /-- `self.state.load(Acquire)`. -/
  | pollLoad (late : Bool)
  /-- `self.state.store(token, Release)`. -/
  | pollStore (late : Bool)
  deriving DecidableEq

/-- The shared word, the two parties and what they did. -/
structure State where
  word : UInt32
  tx : Sender
  rx : Waiter
  log : List Event
  deriving DecidableEq

/-- One step of one party. -/
inductive Label where
  /-- `NotificationSender::notify` is called. -/
  | notify
  /-- The next access of `notify`. -/
  | tx
  /-- The waiter is polled. -/
  | poll
  /-- The next access of the poll. -/
  | rx
  deriving DecidableEq

/-- The next access of `notify`. -/
def txStep (s : State) : State :=
  match s.tx with
  | .idle | .returned => s
  | .load =>
    if s.word = uninit ∨ s.word = ready then { s with tx := .returned }
    else { s with tx := .store ⟨s.word⟩ }
  | .store task => { s with word := ready, tx := .add task }
  | .add task => { s with log := .woke task :: s.log, tx := .returned }

/-- The next access of a poll by the task `tok`. -/
def rxStep (tok : TaskToken) (s : State) : State :=
  match s.rx with
  | .idle => s
  | .pollLoad late =>
    if s.word = ready then { s with log := .polled late true :: s.log, rx := .idle }
    else if s.word = uninit then { s with rx := .pollStore late }
    else { s with log := .polled late false :: s.log, rx := .idle }
  | .pollStore late => { s with word := tok.id, log := .polled late false :: s.log, rx := .idle }

/-- A step can be taken: calls need an idle party, accesses a party inside a call. -/
def Enabled (s : State) : Label → Prop
  | .notify => s.tx = .idle
  | .tx => s.tx ≠ .idle ∧ s.tx ≠ .returned
  | .poll => s.rx = .idle
  | .rx => s.rx ≠ .idle

instance (s : State) (l : Label) : Decidable (Enabled s l) :=
  match l with
  | .notify => inferInstanceAs (Decidable (s.tx = .idle))
  | .tx => inferInstanceAs (Decidable (s.tx ≠ .idle ∧ s.tx ≠ .returned))
  | .poll => inferInstanceAs (Decidable (s.rx = .idle))
  | .rx => inferInstanceAs (Decidable (s.rx ≠ .idle))

/-- The effect of a step. -/
def fire (tok : TaskToken) (s : State) : Label → State
  | .notify => { s with tx := .load }
  | .tx => txStep s
  | .poll => { s with rx := .pollLoad (decide (s.tx = .returned)) }
  | .rx => rxStep tok s

/-- The pair made by `notification()`, its waiter polled by the task `tok`. -/
def system (tok : TaskToken) : LTS State Label where
  init := ⟨uninit, .idle, .idle, []⟩
  Enabled := Enabled
  fire := fire tok

instance (tok : TaskToken) (s : State) (l : Label) : Decidable ((system tok).Enabled s l) :=
  inferInstanceAs (Decidable (Enabled s l))

/-! ### What a notification promises -/

/-- The last poll that returned was pending. -/
def State.LastPending (s : State) : Prop :=
  ∃ late, s.log.find? Event.isPolled = some (.polled late false)

/-- **No notification is lost**, and none comes out of nowhere. -/
structure NotLost (tok : TaskToken) (s : State) : Prop where
  /-- A poll that starts after `notify` has returned is ready. -/
  late_ready : ∀ isReady, Event.polled true isReady ∈ s.log → isReady = true
  /-- Once `notify` has returned, the next access of a poll makes it return ready. -/
  ready_next : s.tx = .returned → s.rx ≠ .idle →
    ∃ late, fire tok s .rx = { s with log := .polled late true :: s.log, rx := .idle }
  /-- Once `notify` has returned, a waiter left pending has been woken. -/
  woken : s.tx = .returned → s.rx = .idle → s.LastPending →
    Event.woke tok ∈ Log.since Event.isPolled s.log
  /-- No poll is ready before `notify` was called. -/
  not_early : s.tx = .idle → ∀ late, Event.polled late true ∉ s.log

/-- `notify` loads the word only after the waiter has stored its token in it. -/
def Registered (s : State) : Label → Prop
  | .tx => s.tx = .load → s.word ≠ uninit
  | _ => True

instance (s : State) (l : Label) : Decidable (Registered s l) :=
  match l with
  | .tx => inferInstanceAs (Decidable (s.tx = .load → s.word ≠ uninit))
  | .notify | .poll | .rx => inferInstanceAs (Decidable True)

/-- What the word holds at each place of the sender, in a run that is `Registered`. -/
def SenderInv (tok : TaskToken) (s : State) : Prop :=
  match s.tx with
  | .idle | .load => s.word = uninit ∨ s.word = tok.id
  | .store task => task = tok ∧ s.word = tok.id
  | .add task => task = tok ∧ s.word = ready
  | .returned => s.word = ready

/-- What is known at each place of the waiter, in a run that is `Registered`. -/
def WaiterInv (s : State) : Prop :=
  match s.rx with
  | .idle => True
  | .pollLoad late => late = true → s.tx = .returned
  | .pollStore late => late = false ∧ s.word = uninit

/-- The invariant of a run that is `Registered`. -/
structure Inv (tok : TaskToken) (s : State) : Prop where
  sender : SenderInv tok s
  waiter : WaiterInv s
  late_ready : ∀ isReady, Event.polled true isReady ∈ s.log → isReady = true
  woken : s.tx = .returned → s.LastPending → Event.woke tok ∈ Log.since Event.isPolled s.log
  not_early : ∀ late, Event.polled late true ∈ s.log → s.word = ready

section Invariant

variable {tok : TaskToken} {s : State}

theorem inv_init : Inv tok (system tok).init where
  sender := .inl rfl
  waiter := trivial
  late_ready := by simp [system]
  woken := by simp [system]
  not_early := by simp [system]

theorem ready_ne_uninit : ready ≠ uninit := by decide

/-- The word is `NOTIFICATION_READY` only once `notify` has stored it. -/
theorem Inv.tx_of_ready (h : Inv tok s) (hrdy : tok.id ≠ ready) (hw : s.word = ready) :
    s.tx = .add tok ∨ s.tx = .returned := by
  have hs := h.sender
  cases htx : s.tx <;> simp_all [SenderInv, ready_ne_uninit, Ne.symm hrdy]

/-- Once `notify` has returned, a poll has nothing left to do but to load `NOTIFICATION_READY`. -/
theorem Inv.ready_next (h : Inv tok s) (htx : s.tx = .returned) (hrx : s.rx ≠ .idle) :
    ∃ late, rxStep tok s = { s with log := .polled late true :: s.log, rx := .idle } := by
  have hw : s.word = ready := by
    have hs := h.sender
    rwa [SenderInv, htx] at hs
  have hr := h.waiter
  cases hph : s.rx with
  | idle => exact absurd hph hrx
  | pollLoad late => exact ⟨late, by simp [rxStep, hph, hw]⟩
  | pollStore late =>
    rw [WaiterInv, hph] at hr
    exact absurd (hw.symm.trans hr.2) ready_ne_uninit

/-- Every access of `notify` keeps the invariant when it loads a token. -/
theorem inv_tx (h : Inv tok s) (hrdy : tok.id ≠ ready) (hun : tok.id ≠ uninit)
    (hreg : Registered s .tx) : Inv tok (txStep s) := by
  have hs := h.sender
  have hr := h.waiter
  cases htx : s.tx with
  | idle => simpa only [txStep, htx] using h
  | returned => simpa only [txStep, htx] using h
  | load =>
    simp only [SenderInv, htx] at hs
    have hw : s.word = tok.id := hs.resolve_left (hreg htx)
    have hstep : txStep s = { s with tx := .store tok } := by
      simp [txStep, htx, hw, hrdy, hun]
    rw [hstep]
    refine ⟨⟨rfl, hw⟩, ?_, h.late_ready, by simp, h.not_early⟩
    cases hrx : s.rx <;> simp_all [WaiterInv]
  | store task =>
    simp only [SenderInv, htx] at hs
    simp only [txStep, htx]
    refine ⟨⟨hs.1, rfl⟩, ?_, h.late_ready, by simp, fun _ _ => rfl⟩
    cases hrx : s.rx with
    | idle => trivial
    | pollLoad late => simpa [WaiterInv, hrx, htx] using hr
    | pollStore late =>
      -- a poll about to store its token has loaded `NOTIFICATION_UNINIT`, but the word is a token
      simp only [WaiterInv, hrx] at hr
      exact absurd (hs.2.symm.trans hr.2) hun
  | add task =>
    simp only [SenderInv, htx] at hs
    simp only [txStep, htx]
    refine ⟨hs.2, ?_, ?_, fun _ _ => ?_, ?_⟩
    · cases hrx : s.rx <;> simp_all [WaiterInv]
    · simpa using h.late_ready
    · simp [Log.since_cons, Event.isPolled, hs.1]
    · simpa using h.not_early

/-- Every access of a poll keeps the invariant. -/
theorem inv_rx (h : Inv tok s) (hun : tok.id ≠ uninit) : Inv tok (rxStep tok s) := by
  have hs := h.sender
  have hr := h.waiter
  cases hrx : s.rx with
  | idle => simpa only [rxStep, hrx] using h
  | pollLoad late =>
    simp only [WaiterInv, hrx] at hr
    by_cases hw : s.word = ready
    · have hstep : rxStep tok s = { s with log := .polled late true :: s.log, rx := .idle } := by
        simp [rxStep, hrx, hw]
      rw [hstep]
      refine ⟨hs, trivial, ?_, ?_, fun _ _ => hw⟩
      · simpa using h.late_ready
      · simp [State.LastPending, Event.isPolled]
    · -- before `NOTIFICATION_READY` is stored, `notify` has not returned
      have hret : s.tx ≠ .returned := by
        intro htx
        simp only [SenderInv, htx] at hs
        exact hw hs
      have hlate : late = false := by
        cases late with
        | false => rfl
        | true => exact absurd (hr rfl) hret
      subst hlate
      by_cases hu : s.word = uninit
      · have hstep : rxStep tok s = { s with rx := .pollStore false } := by
          simp [rxStep, hrx, hu, ready_ne_uninit.symm]
        rw [hstep]
        exact ⟨hs, ⟨rfl, hu⟩, h.late_ready, h.woken, h.not_early⟩
      · have hstep : rxStep tok s =
            { s with log := .polled false false :: s.log, rx := .idle } := by
          simp [rxStep, hrx, hw, hu]
        rw [hstep]
        refine ⟨hs, trivial, ?_, fun htx => absurd htx hret, ?_⟩
        · simpa using h.late_ready
        · simpa using h.not_early
  | pollStore late =>
    simp only [WaiterInv, hrx] at hr
    obtain ⟨rfl, hu⟩ := hr
    simp only [rxStep, hrx]
    have htx : s.tx = .idle ∨ s.tx = .load := by
      cases htx : s.tx <;> simp_all [SenderInv, ready_ne_uninit.symm, Ne.symm hun]
    refine ⟨?_, trivial, ?_, ?_, ?_⟩
    · rcases htx with htx | htx <;> simp [SenderInv, htx]
    · simpa using h.late_ready
    · rcases htx with htx | htx <;> simp [htx]
    · intro late hl
      simp only [List.mem_cons, Event.polled.injEq, Bool.true_eq_false, and_false, false_or] at hl
      exact absurd (hu.symm.trans (h.not_early late hl)) ready_ne_uninit.symm

theorem inv_step {l : Label} (h : Inv tok s) (hrdy : tok.id ≠ ready) (hun : tok.id ≠ uninit)
    (hen : Enabled s l) (hreg : Registered s l) : Inv tok (fire tok s l) := by
  cases l with
  | notify =>
    have htx : s.tx = .idle := hen
    have hs := h.sender
    simp only [SenderInv, htx] at hs
    refine ⟨hs, ?_, h.late_ready, by simp [fire], h.not_early⟩
    have hr := h.waiter
    cases hrx : s.rx <;> simp_all [WaiterInv, fire]
  | tx => exact inv_tx h hrdy hun hreg
  | poll => exact ⟨h.sender, by simp [WaiterInv, fire], h.late_ready, h.woken, h.not_early⟩
  | rx => exact inv_rx h hun

end Invariant

/-- **No notification is lost when `notify` finds a token.**  In every run in which `notify` loads
the word after the waiter's first poll has stored its token: every poll that starts after `notify`
has returned is ready, a waiter left pending by its last poll has been woken, and no poll is ready
before `notify` was called. -/
theorem not_lost {tok : TaskToken} (hrdy : tok.id ≠ ready) (hun : tok.id ≠ uninit) {s : State}
    (h : (system tok).ReachableBy Registered s) : NotLost tok s := by
  have hi : Inv tok s :=
    h.invariant inv_init fun _ _ _ hi hen hreg => inv_step hi hrdy hun hen hreg
  refine ⟨hi.late_ready, hi.ready_next, fun htx _ => hi.woken htx, fun htx late hl => ?_⟩
  rcases hi.tx_of_ready hrdy (hi.not_early late hl) with h' | h' <;> simp [htx] at h'

/-- A waiter that registered first is woken, and its next poll is ready. -/
theorem not_lost_seven : ∃ s : State, (system ⟨7⟩).ReachableBy Registered s ∧
    Event.polled true true ∈ s.log ∧ NotLost ⟨7⟩ s := by
  obtain ⟨s, hs, hlog⟩ := LTS.exists_of_exec (system ⟨7⟩) Registered
    [.poll, .rx, .rx, .notify, .tx, .tx, .tx, .poll, .rx] (fun s => .polled true true ∈ s.log)
    (by decide)
  exact ⟨s, hs, hlog, not_lost (by decide) (by decide) hs⟩

/-- **A notification that comes first is lost**: `notify` returns before the waiter is polled, and
the poll that follows is pending, with no wake on its way. -/
theorem lost_when_first : ¬ ∀ s, (system ⟨7⟩).Reachable s → NotLost ⟨7⟩ s := by
  intro hall
  obtain ⟨s, hs, hlog⟩ := LTS.exists_of_exec (system ⟨7⟩) (fun _ _ => True)
    [.notify, .tx, .poll, .rx, .rx] (fun s => .polled true false ∈ s.log) (by decide)
  exact absurd ((hall s hs).late_ready _ hlog) (by simp)

end Notification

end BunnyDs
