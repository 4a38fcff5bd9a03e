import BunnyDs.Kernel.Basic
import BunnyDs.LTS.Basic
import BunnyDs.LTS.Log

/-!
# Oneshot channels

`sync::oneshot` shares three cells between a sender and a receiver: `value`, the flag `state`
and the write-once `rx_task`.  Here every access to one of them is a step of its own.  The sender
runs `send(v)` followed by its `Drop`, or its `Drop` alone; the receiver is polled any number of
times by the task `tok` until a poll is ready.

* `Oneshot.Inv` relates the cells to the place of each party; `Oneshot.inv_step` shows that every
  access keeps it.
* `Oneshot.exactly_once` : the value arrives exactly once, and a receiver that saw nothing is
  woken.

The second store of the sender (every `send` is followed by a `drop`) writes the value `state`
already has, and never touches `value`.
-/

namespace BunnyDs

namespace Oneshot

variable {T : Type*}

/-- Events of interest: a poll returns, a token goes to `WAKE_QUEUE`. -/
inductive Event where
  | polled (isReady : Bool)
  | woke (task : TaskToken)
  deriving DecidableEq

/-- The event is the return of a poll. -/
def Event.isPolled : Event → Bool
  | .polled _ => true
  | .woke _ => false

/-- The sender's next access. -/
inductive Sender (T : Type*) where
  /-- Alive; neither `send` nor `drop` was called. -/
  | idle
  /-- `send`: `self.state.load(Acquire)`. -/
  | sendLoad (v : T)
  /-- `send`: `*self.value.get() = Some(value)`. -/
  | sendValue (v : T)
  /-- `send`: `self.state.store(true, Release)`. -/
  | sendStore
  /-- `send`: `self.rx_task.get()`. -/
  | sendGet
  /-- `send`: `WAKE_QUEUE.add(*task)`. -/
  | sendAdd (task : TaskToken)
  /-- `send` returns; `self` goes out of scope. -/
  | sendRet (res : Bool)
  /-- `drop`: `self.state.state.store(true, Release)`. -/
  | dropStore
  /-- `drop`: `self.state.rx_task.get()`. -/
  | dropGet
  /-- `drop`: `WAKE_QUEUE.add(*task)`. -/
  | dropAdd (task : TaskToken)
  /-- The sender is gone. -/
  | gone
  deriving DecidableEq

/-- The sender is inside `send` or `drop`. -/
def Sender.active : Sender T → Bool
  | .idle | .gone => false
  | _ => true

/-- The sender has written its value, or was dropped. -/
def Sender.wroteOrDropped : Sender T → Bool
  | .idle | .sendLoad _ | .sendValue _ => false
  | _ => true

/-- The sender is in its `drop`, or past it. -/
def Sender.dropped : Sender T → Bool
  | .dropStore | .dropGet | .dropAdd _ | .gone => true
  | _ => false

/-- How many accesses the sender has left at most, once called. -/
def Sender.left : Sender T → ℕ
  | .idle => 10
  | .sendLoad _ => 9
  | .sendValue _ => 8
  | .sendStore => 7
  | .sendGet => 6
  | .sendAdd _ => 5
  | .sendRet _ => 4
  | .dropStore => 3
  | .dropGet => 2
  | .dropAdd _ => 1
  | .gone => 0

/-- The receiver's next access. -/
inductive Receiver (T : Type*) where
  /-- Not being polled. -/
  | idle
  /-- `poll`: `self.state.rx_task.set(token)`. -/
  | pollSet
  /-- `poll`: `self.state.state.load(Acquire)`. -/
  | pollLoad
  /-- `poll`: `self.state.value.get().take()`. -/
  | pollTake
  /-- A poll returned `Ready(out)`. -/
  | ready (out : Option T)
  deriving DecidableEq

/-- A poll is running. -/
def Receiver.polling : Receiver T → Bool
  | .idle | .ready _ => false
  | _ => true

/-- The shared cells (`OneshotState`), the two parties, and what they did. -/
structure State (T : Type*) where
  value : Option T
  state : Bool
  rxTask : Option TaskToken
  tx : Sender T
  rx : Receiver T
  /-- The argument of `send`, once it was called. -/
  sent : Option T
  /-- What `send` returned. -/
  returned : Option Bool
  log : List Event

/-- One step of one party. -/
inductive Label (T : Type*) where
  /-- `OneshotSender::send(v)` is called. -/
  | send (v : T)
  /-- The sender goes out of scope without sending. -/
  | drop
  /-- The next access of the sender. -/
  | tx
  /-- The receiver is polled. -/
  | poll
  /-- The next access of the poll. -/
  | rx

/-- The next access of the sender. -/
def txStep (s : State T) : State T :=
  match s.tx with
  | .idle | .gone => s
  | .sendLoad v => { s with tx := if s.state then .sendRet false else .sendValue v }
  | .sendValue v => { s with value := some v, tx := .sendStore }
  | .sendStore => { s with state := true, tx := .sendGet }
  | .sendGet =>
    match s.rxTask with
    | some task => { s with tx := .sendAdd task }
    | none => { s with tx := .sendRet true }
  | .sendAdd task => { s with log := .woke task :: s.log, tx := .sendRet true }
  | .sendRet res => { s with returned := some res, tx := .dropStore }
  | .dropStore => { s with state := true, tx := .dropGet }
  | .dropGet =>
    match s.rxTask with
    | some task => { s with tx := .dropAdd task }
    | none => { s with tx := .gone }
  | .dropAdd task => { s with log := .woke task :: s.log, tx := .gone }

/-- The next access of a poll by the task `tok`.  `OnceLock::set` keeps an earlier token. -/
def rxStep (tok : TaskToken) (s : State T) : State T :=
  match s.rx with
  | .idle | .ready _ => s
  | .pollSet => { s with rxTask := s.rxTask.or (some tok), rx := .pollLoad }
  | .pollLoad =>
    if s.state then { s with rx := .pollTake }
    else { s with log := .polled false :: s.log, rx := .idle }
  | .pollTake => { s with value := none, log := .polled true :: s.log, rx := .ready s.value }

/-- A step can be taken: calls need an idle party, accesses a party inside a call. -/
def Enabled (s : State T) : Label T → Prop
  | .send _ | .drop => s.tx = .idle
  | .tx => s.tx.active = true
  | .poll => s.rx = .idle
  | .rx => s.rx.polling = true

instance [DecidableEq T] (s : State T) (l : Label T) : Decidable (Enabled s l) :=
  match l with
  | .send _ | .drop => inferInstanceAs (Decidable (s.tx = .idle))
  | .tx => inferInstanceAs (Decidable (s.tx.active = true))
  | .poll => inferInstanceAs (Decidable (s.rx = .idle))
  | .rx => inferInstanceAs (Decidable (s.rx.polling = true))

/-- The effect of a step. -/
def fire (tok : TaskToken) (s : State T) : Label T → State T
  | .send v => { s with tx := .sendLoad v, sent := some v }
  | .drop => { s with tx := .dropStore }
  | .tx => txStep s
  | .poll => { s with rx := .pollSet }
  | .rx => rxStep tok s

/-- The pair made by `oneshot()`, its receiver owned by the task `tok`. -/
def system (T : Type*) (tok : TaskToken) : LTS (State T) (Label T) where
  init := ⟨none, false, none, .idle, .idle, none, none, []⟩
  Enabled := Enabled
  fire := fire tok

instance [DecidableEq T] (tok : TaskToken) (s : State T) (l : Label T) :
    Decidable ((system T tok).Enabled s l) :=
  inferInstanceAs (Decidable (Enabled s l))

/-! ### What each end leaves alone -/

theorem txStep_rx (s : State T) : (txStep s).rx = s.rx := by
  unfold txStep
  split <;> first | rfl | (split <;> rfl)

theorem txStep_sent (s : State T) : (txStep s).sent = s.sent := by
  unfold txStep
  split <;> first | rfl | (split <;> rfl)

theorem rxStep_tx (tok : TaskToken) (s : State T) : (rxStep tok s).tx = s.tx := by
  unfold rxStep
  split <;> first | rfl | (split <;> rfl)

theorem rxStep_sent (tok : TaskToken) (s : State T) : (rxStep tok s).sent = s.sent := by
  unfold rxStep
  split <;> first | rfl | (split <;> rfl)

/-! ### The invariant -/

/-- The value on its way: in its cell, or already taken by the receiver. -/
def State.held (s : State T) : Option T :=
  match s.rx with
  | .ready out => out
  | _ => s.value

/-- The last poll that returned was pending. -/
def State.LastPending (s : State T) : Prop := s.log.find? Event.isPolled = some (.polled false)

/-- What the cells hold at each place of the sender. -/
def SenderInv (s : State T) : Prop :=
  match s.tx with
  | .idle => s.sent = none ∧ s.state = false ∧ s.held = none
  | .sendLoad v | .sendValue v => s.sent = some v ∧ s.state = false ∧ s.held = none
  | .sendStore => s.sent.isSome = true ∧ s.state = false ∧ s.held = s.sent
  | .sendGet | .sendAdd _ => s.sent.isSome = true ∧ s.state = true ∧ s.held = s.sent
  | .sendRet res => res = true ∧ s.sent.isSome = true ∧ s.state = true ∧ s.held = s.sent
  | .dropStore => s.state = s.sent.isSome ∧ s.held = s.sent
  | .dropGet | .dropAdd _ | .gone => s.state = true ∧ s.held = s.sent

/-- What is known at each place of the receiver's poll. -/
def ReceiverInv (tok : TaskToken) (s : State T) : Prop :=
  match s.rx with
  | .idle | .pollSet => True
  | .pollLoad => s.rxTask = some tok
  | .pollTake | .ready _ => s.rxTask = some tok ∧ s.state = true

/-- The invariant of the channel. -/
structure Inv (tok : TaskToken) (s : State T) : Prop where
  sender : SenderInv s
  receiver : ReceiverInv tok s
  task : ∀ t, s.rxTask = some t → t = tok
  adding : ∀ t, s.tx = .sendAdd t ∨ s.tx = .dropAdd t → t = tok
  returned : ∀ b, s.returned = some b → b = true
  /-- `send` has returned by the time the sender is dropped. -/
  finished : s.tx.dropped = true → s.sent.isSome = true → s.returned = some true
  /-- A poll returns after the registration. -/
  registered : s.LastPending → s.rxTask = some tok
  /-- Once `state` is set, a receiver that was left pending is about to be woken or was woken. -/
  wake : s.LastPending → s.state = true →
    (∃ b, s.tx = .sendRet b) ∨ s.tx = .dropStore ∨ s.tx = .gone →
    Event.woke tok ∈ Log.since Event.isPolled s.log

theorem lastPending_woke {s : State T} {t : TaskToken} {tx : Sender T} :
    State.LastPending { s with log := .woke t :: s.log, tx := tx } ↔ s.LastPending := by
  simp [State.LastPending, Event.isPolled]

theorem inv_init (tok : TaskToken) : Inv tok (system T tok).init where
  sender := ⟨rfl, rfl, rfl⟩
  receiver := trivial
  task := by simp [system]
  adding := by simp [system]
  returned := by simp [system]
  finished := by simp [system]
  registered := by simp [system, State.LastPending]
  wake := by simp [system, State.LastPending]

/-- `send` is called on a sender that did nothing yet. -/
theorem inv_send {tok : TaskToken} {s : State T} (h : Inv tok s) (hidle : s.tx = .idle) (v : T) :
    Inv tok (fire tok s (.send v)) := by
  have hs := h.sender
  simp only [SenderInv, hidle] at hs
  obtain ⟨-, hstate, hheld⟩ := hs
  exact ⟨⟨rfl, hstate, hheld⟩, h.receiver, h.task, by simp [fire], h.returned,
    by simp [fire, Sender.dropped], h.registered, by simp [fire]⟩

/-- A sender that did nothing yet goes out of scope. -/
theorem inv_drop {tok : TaskToken} {s : State T} (h : Inv tok s) (hidle : s.tx = .idle) :
    Inv tok (fire tok s .drop) := by
  have hs := h.sender
  simp only [SenderInv, hidle] at hs
  obtain ⟨hsent, hstate, hheld⟩ := hs
  exact ⟨⟨by simp [fire, hsent, hstate], hheld.trans hsent.symm⟩, h.receiver, h.task,
    by simp [fire], h.returned, by simp [fire, hsent], h.registered, by simp [fire, hstate]⟩

section SenderSteps

variable {tok : TaskToken} {s : State T} {tx : Sender T}

/-- The sender moves on without touching a cell. -/
theorem Inv.move (h : Inv tok s) (hs : SenderInv { s with tx := tx })
    (hadd : ∀ t, tx = .sendAdd t ∨ tx = .dropAdd t → t = tok)
    (hfin : tx.dropped = true → s.sent.isSome = true → s.returned = some true)
    (hwake : s.LastPending → (∃ b, tx = .sendRet b) ∨ tx = .dropStore ∨ tx = .gone →
      Event.woke tok ∈ Log.since Event.isPolled s.log) : Inv tok { s with tx := tx } :=
  ⟨hs, h.receiver, h.task, hadd, h.returned, hfin, h.registered, fun hp _ => hwake hp⟩

/-- The store to `state`, in `send` and in `drop`: the wake is still to come. -/
theorem Inv.store (h : Inv tok s) (hs : SenderInv { s with state := true, tx := tx })
    (hfin : tx.dropped = true → s.sent.isSome = true → s.returned = some true)
    (htx : tx = .sendGet ∨ tx = .dropGet) : Inv tok { s with state := true, tx := tx } := by
  refine ⟨hs, ?_, h.task, ?_, h.returned, hfin, h.registered, ?_⟩
  · have hr := h.receiver
    cases hrx : s.rx <;> simp_all [ReceiverInv]
  · rcases htx with rfl | rfl <;> simp
  · rcases htx with rfl | rfl <;> simp

/-- `rx_task.get()` returned a token, which is the receiver's. -/
theorem Inv.get (h : Inv tok s) {t : TaskToken} (htask : s.rxTask = some t)
    (hs : SenderInv { s with tx := tx })
    (hfin : tx.dropped = true → s.sent.isSome = true → s.returned = some true)
    (htx : tx = .sendAdd t ∨ tx = .dropAdd t) : Inv tok { s with tx := tx } := by
  have ht := h.task t htask
  refine h.move hs (fun t' ht' => ?_) hfin ?_
  · rcases htx with rfl | rfl <;> simp_all
  · rcases htx with rfl | rfl <;> simp

/-- `rx_task.get()` returned nothing: no poll has registered, so none was pending. -/
theorem Inv.get_none (h : Inv tok s) (htask : s.rxTask = none)
    (hs : SenderInv { s with tx := tx })
    (hfin : tx.dropped = true → s.sent.isSome = true → s.returned = some true)
    (htx : tx = .sendRet true ∨ tx = .gone) : Inv tok { s with tx := tx } := by
  refine h.move hs ?_ hfin fun hp => ?_
  · rcases htx with rfl | rfl <;> simp
  · exact absurd (h.registered hp) (by simp [htask])

/-- `WAKE_QUEUE.add`: whatever poll was pending is woken. -/
theorem Inv.add (h : Inv tok s) {t : TaskToken} (ht : s.tx = .sendAdd t ∨ s.tx = .dropAdd t)
    (hs : SenderInv { s with log := .woke t :: s.log, tx := tx })
    (hfin : tx.dropped = true → s.sent.isSome = true → s.returned = some true)
    (htx : tx = .sendRet true ∨ tx = .gone) :
    Inv tok { s with log := .woke t :: s.log, tx := tx } := by
  obtain rfl := h.adding t ht
  refine ⟨hs, h.receiver, h.task, ?_, h.returned, hfin, fun hp => ?_, fun _ _ _ => ?_⟩
  · rcases htx with rfl | rfl <;> simp
  · exact h.registered (lastPending_woke.1 hp)
  · simp [Log.since_cons, Event.isPolled]

/-- Every access of the sender keeps the invariant. -/
theorem inv_tx (h : Inv tok s) : Inv tok (txStep s) := by
  have hs := h.sender
  have hr := h.receiver
  cases htx : s.tx with
  | idle => simpa only [txStep, htx] using h
  | gone => simpa only [txStep, htx] using h
  | sendLoad v =>
    simp only [SenderInv, htx] at hs
    have hstep : txStep s = { s with tx := .sendValue v } := by simp [txStep, htx, hs.2.1]
    rw [hstep]
    exact h.move hs (by simp) (by simp [Sender.dropped]) (by simp)
  | sendValue v =>
    simp only [SenderInv, htx] at hs
    obtain ⟨hsent, hstate, -⟩ := hs
    -- the receiver has taken nothing: it would have seen `state` set
    have hready : ∀ out, s.rx ≠ .ready out := by
      intro out hout
      simp [ReceiverInv, hout, hstate] at hr
    simp only [txStep, htx]
    refine ⟨⟨by simp [hsent], hstate, ?_⟩, hr, h.task, by simp, h.returned,
      by simp [Sender.dropped], h.registered, by simp⟩
    rw [hsent]
    cases hrx : s.rx with
    | ready out => exact absurd hrx (hready out)
    | _ => rfl
  | sendStore =>
    simp only [SenderInv, htx] at hs
    simp only [txStep, htx]
    exact h.store ⟨hs.1, rfl, hs.2.2⟩ (by simp [Sender.dropped]) (.inl rfl)
  | sendGet =>
    simp only [SenderInv, htx] at hs
    simp only [txStep, htx]
    split
    · exact h.get ‹_› hs (by simp [Sender.dropped]) (.inl rfl)
    · exact h.get_none ‹_› ⟨rfl, hs⟩ (by simp [Sender.dropped]) (.inl rfl)
  | sendAdd t =>
    simp only [SenderInv, htx] at hs
    simp only [txStep, htx]
    exact h.add (.inl htx) ⟨rfl, hs⟩ (by simp [Sender.dropped]) (.inl rfl)
  | sendRet b =>
    simp only [SenderInv, htx] at hs
    obtain ⟨rfl, hsent, hstate, hheld⟩ := hs
    simp only [txStep, htx]
    refine ⟨⟨by simp [hsent, hstate], hheld⟩, hr, h.task, by simp, by simp, fun _ _ => rfl,
      h.registered, ?_⟩
    exact fun hp hst _ => h.wake hp hst (.inl ⟨_, htx⟩)
  | dropStore =>
    simp only [SenderInv, htx] at hs
    simp only [txStep, htx]
    exact h.store ⟨rfl, hs.2⟩ (fun _ => h.finished (by simp [htx, Sender.dropped])) (.inr rfl)
  | dropGet =>
    simp only [SenderInv, htx] at hs
    have hfin := h.finished (by simp [htx, Sender.dropped])
    simp only [txStep, htx]
    split
    · exact h.get ‹_› hs (fun _ => hfin) (.inr rfl)
    · exact h.get_none ‹_› hs (fun _ => hfin) (.inr rfl)
  | dropAdd t =>
    simp only [SenderInv, htx] at hs
    simp only [txStep, htx]
    exact h.add (.inr htx) hs (fun _ => h.finished (by simp [htx, Sender.dropped])) (.inr rfl)

end SenderSteps

/-- Every access of a poll keeps the invariant. -/
theorem inv_rx {tok : TaskToken} {s : State T} (h : Inv tok s) : Inv tok (rxStep tok s) := by
  have hs := h.sender
  have hr := h.receiver
  cases hrx : s.rx with
  | idle => simpa only [rxStep, hrx] using h
  | ready out => simpa only [rxStep, hrx] using h
  | pollSet =>
    have htask : s.rxTask.or (some tok) = some tok := by
      cases ht : s.rxTask with
      | none => rfl
      | some t => rw [h.task t ht]; rfl
    simp only [rxStep, hrx, htask]
    refine ⟨?_, rfl, by simp, h.adding, h.returned, h.finished, fun _ => rfl, h.wake⟩
    cases htx : s.tx <;> simp_all [SenderInv, State.held]
  | pollLoad =>
    simp only [ReceiverInv, hrx] at hr
    cases hst : s.state with
    | false =>
      have hstep : rxStep tok s = { s with log := .polled false :: s.log, rx := .idle } := by
        simp [rxStep, hrx, hst]
      rw [hstep]
      refine ⟨?_, trivial, h.task, h.adding, h.returned, h.finished, fun _ => hr, fun _ h => ?_⟩
      · cases htx : s.tx <;> simp_all [SenderInv, State.held]
      · exact absurd (hst.symm.trans h) (by simp)
    | true =>
      have hstep : rxStep tok s = { s with rx := .pollTake } := by simp [rxStep, hrx, hst]
      rw [hstep]
      refine ⟨?_, ⟨hr, hst⟩, h.task, h.adding, h.returned, h.finished, fun _ => hr, h.wake⟩
      cases htx : s.tx <;> simp_all [SenderInv, State.held]
  | pollTake =>
    simp only [ReceiverInv, hrx] at hr
    simp only [rxStep, hrx]
    -- `take` moves the value from its cell to the receiver: `held` is the same
    refine ⟨?_, hr, h.task, h.adding, h.returned, h.finished, fun _ => hr.1, fun hp => ?_⟩
    · cases htx : s.tx <;> simp_all [SenderInv, State.held]
    · simp [State.LastPending, Event.isPolled] at hp

theorem inv_step {tok : TaskToken} {s : State T} {l : Label T} (h : Inv tok s)
    (hen : Enabled s l) : Inv tok (fire tok s l) := by
  cases l with
  | send v => exact inv_send h hen v
  | drop => exact inv_drop h hen
  | tx => exact inv_tx h
  | poll =>
    refine ⟨?_, trivial, h.task, h.adding, h.returned, h.finished, h.registered, h.wake⟩
    have hs := h.sender
    have hrx : s.rx = .idle := hen
    cases htx : s.tx <;> simp_all [SenderInv, State.held, fire]
  | rx => exact inv_rx h

theorem inv_reachable {tok : TaskToken} {s : State T} (h : (system T tok).Reachable s) :
    Inv tok s :=
  h.invariant (inv_init tok) fun _ _ _ hi hen _ => inv_step hi hen

/-! ### Delivery -/

/-- The sender never waits: each of its accesses leaves it with fewer to make. -/
theorem left_txStep {s : State T} (h : s.tx.active = true) : (txStep s).tx.left < s.tx.left := by
  cases htx : s.tx with
  | idle => simp [htx, Sender.active] at h
  | gone => simp [htx, Sender.active] at h
  | sendLoad v => simp only [txStep, htx]; split <;> simp [Sender.left]
  | sendGet => simp only [txStep, htx]; split <;> simp [Sender.left]
  | dropGet => simp only [txStep, htx]; split <;> simp [Sender.left]
  | _ => simp [txStep, htx, Sender.left]

/-- Whoever sees `state` set sees the sender's value. -/
theorem Inv.held_eq {tok : TaskToken} {s : State T} (h : Inv tok s) (hst : s.state = true) :
    s.held = s.sent ∧ s.tx.wroteOrDropped = true ∧ (s.sent = none → s.tx.dropped = true) := by
  have hs := h.sender
  cases htx : s.tx <;>
    simp_all [SenderInv, Sender.wroteOrDropped, Sender.dropped, Option.isSome_iff_ne_none]

/-- **A oneshot channel delivers exactly once and does not hang.**  `send` returns `true`, and the
sender reaches the end of `send` and `drop` on its own; a ready receiver holds the value that was
sent, `None` only if the sender was dropped without sending, and is not ready before either; once
the sender is gone, a receiver whose last poll was pending has been woken since that poll, which is
pending as soon as it has loaded `state`. -/
theorem exactly_once {tok : TaskToken} {s : State T} (h : (system T tok).Reachable s) :
    ((∀ b, s.returned = some b → b = true) ∧
      (s.tx.dropped = true → s.sent.isSome = true → s.returned = some true) ∧
      (s.tx.active = true → (fire tok s .tx).tx.left < s.tx.left)) ∧
    (∀ out, s.rx = .ready out → (∀ v, s.sent = some v → out = some v) ∧
      (out = none → s.sent = none ∧ s.tx.dropped = true) ∧ s.tx.wroteOrDropped = true) ∧
    (s.tx = .gone → s.LastPending → Event.woke tok ∈ Log.since Event.isPolled s.log) := by
  have hi := inv_reachable h
  refine ⟨⟨hi.returned, hi.finished, left_txStep⟩, fun out hout => ?_, fun hgone hp => ?_⟩
  · have hr := hi.receiver
    simp only [ReceiverInv, hout] at hr
    obtain ⟨hheld, hwrote, hdrop⟩ := hi.held_eq hr.2
    simp only [State.held, hout] at hheld
    exact ⟨fun v hv => hheld.trans hv, fun hn => ⟨hheld.symm.trans hn, hdrop (hheld.symm.trans hn)⟩,
      hwrote⟩
  · have hs := hi.sender
    simp only [SenderInv, hgone] at hs
    exact hi.wake hp hs.1 (.inr (.inr hgone))

/-- A receiver that was pending before `send(5)` is woken and then takes the value. -/
theorem exactly_once_five : ∃ s : State ℕ, (system ℕ ⟨3⟩).Reachable s ∧ s.tx = .gone ∧
    s.rx = .ready (some 5) ∧ s.returned = some true ∧
    ∀ out, s.rx = .ready out → ∀ v, s.sent = some v → out = some v := by
  obtain ⟨s, hs, hgone, hrx, hret⟩ := LTS.exists_of_exec (system ℕ ⟨3⟩) (fun _ _ => True)
    ([.poll, .rx, .rx, .send 5] ++ List.replicate 9 .tx ++ [.poll, .rx, .rx, .rx])
    (fun s => s.tx = .gone ∧ s.rx = .ready (some 5) ∧ s.returned = some true) (by decide)
  exact ⟨s, hs, hgone, hrx, hret, fun out hout => ((exactly_once hs).2.1 out hout).1⟩

end Oneshot

end BunnyDs
