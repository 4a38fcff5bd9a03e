import BunnyDs.LTS.Allocation
import BunnyDs.Sync.Oneshot

/-!
# Who owns the value of a oneshot channel

The two ends of a oneshot channel share its state through an `Arc`, and access `value` through an
`UnsafeCell`.  `Oneshot.Owned.system` adds to the channel the two handles and what becomes of the
values: the sender's handle is dropped after its `Drop` has run, the receiver may be dropped between
any two polls, and freeing the state drops the value that is still in it.

`Owned.owned_safe` : no access touches freed memory, the state is freed once, the two ends never
touch `value` at the same time, and the value that was sent is in exactly one place: with the
sender, in the cell, with the receiver, or dropped.
-/

namespace BunnyDs

namespace Oneshot

/-- The two handles of the state. -/
inductive End where
  | tx
  | rx
  deriving DecidableEq

instance : Fintype End := ⟨{.tx, .rx}, fun e => by cases e <;> decide⟩

namespace Owned

variable {T : Type*}

/-- A channel, the count of its allocation, and the values whose destructor has run. -/
structure State (T : Type*) where
  chan : Oneshot.State T
  arc : Allocation End
  dropped : List T

/-- One step of one party. -/
inductive Label (T : Type*) where
  /-- A call of one end, or one of its accesses. -/
  | chan (l : Oneshot.Label T)
  /-- The handle of an end is dropped. -/
  | drop (e : End)
  /-- The end that dropped the last handle frees the state. -/
  | free (e : End)

/-- The values that an access destroys: `send` finds `state` set and its argument goes out of scope,
or it overwrites what is in the cell. -/
def destroyed (s : Oneshot.State T) : Oneshot.Label T → List T
  | .tx =>
    match s.tx with
    | .sendLoad v => if s.state then [v] else []
    | .sendValue _ => s.value.toList
    | _ => []
  | .send _ | .drop | .poll | .rx => []

/-- An end is not in a call, and makes no other: the sender is gone, or no poll is running. -/
def Done (s : Oneshot.State T) : End → Prop
  | .tx => s.tx = .gone
  | .rx => s.rx.polling = false

/-- A step can be taken.  A poll borrows the receiver, so the receiver was not dropped. -/
def Enabled (s : State T) : Label T → Prop
  | .chan .poll => s.chan.rx = .idle ∧ s.arc.handle .rx = .live
  | .chan l => Oneshot.Enabled s.chan l
  | .drop e => Done s.chan e ∧ s.arc.handle e = .live
  | .free e => s.arc.handle e = .last

/-- The effect of a step. -/
def fire (tok : TaskToken) (s : State T) : Label T → State T
  | .chan l =>
    { s with chan := Oneshot.fire tok s.chan l, dropped := destroyed s.chan l ++ s.dropped }
  | .drop e => { s with arc := s.arc.drop e }
  | .free e => { s with arc := s.arc.free e, dropped := s.chan.value.toList ++ s.dropped }

/-- The pair made by `oneshot()`. -/
def system (T : Type*) (tok : TaskToken) : LTS (State T) (Label T) where
  init := ⟨(Oneshot.system T tok).init, .new, []⟩
  Enabled := Enabled
  fire := fire tok

instance [DecidableEq T] (s : Oneshot.State T) (e : End) : Decidable (Done s e) :=
  match e with
  | .tx => inferInstanceAs (Decidable (s.tx = .gone))
  | .rx => inferInstanceAs (Decidable (s.rx.polling = false))

instance [DecidableEq T] (s : State T) (l : Label T) : Decidable (Enabled s l) :=
  match l with
  | .chan .poll =>
    inferInstanceAs (Decidable (s.chan.rx = .idle ∧ s.arc.handle .rx = .live))
  | .chan (.send v) => inferInstanceAs (Decidable (Oneshot.Enabled s.chan (.send v)))
  | .chan .drop => inferInstanceAs (Decidable (Oneshot.Enabled s.chan .drop))
  | .chan .tx => inferInstanceAs (Decidable (Oneshot.Enabled s.chan .tx))
  | .chan .rx => inferInstanceAs (Decidable (Oneshot.Enabled s.chan .rx))
  | .drop e => inferInstanceAs (Decidable (Done s.chan e ∧ s.arc.handle e = .live))
  | .free e => inferInstanceAs (Decidable (s.arc.handle e = .last))

instance [DecidableEq T] (tok : TaskToken) (s : State T) (l : Label T) :
    Decidable ((system T tok).Enabled s l) :=
  inferInstanceAs (Decidable (Enabled s l))

/-! ### The channel -/

variable {tok : TaskToken} {s : State T}

theorem enabled_chan {l : Oneshot.Label T} (h : Enabled s (.chan l)) :
    Oneshot.Enabled s.chan l := by
  cases l with
  | poll => exact h.1
  | _ => exact h

/-- The channel runs as if there were no handles. -/
theorem chan_simulation (T : Type*) (tok : TaskToken) :
    LTS.Simulation (system T tok) (fun _ _ => True) (Oneshot.system T tok) (fun _ _ => True)
      State.chan where
  init := rfl
  step s l _ hen _ := by
    cases l with
    | chan l => exact .inr ⟨l, enabled_chan hen, trivial, rfl⟩
    | drop e => exact .inl rfl
    | free e => exact .inl rfl

theorem inv_chan (h : (system T tok).Reachable s) : Oneshot.Inv tok s.chan :=
  Oneshot.inv_reachable ((chan_simulation T tok).reachableBy h)

/-! ### The allocation -/

/-- The end that makes a call or an access. -/
def endOf : Oneshot.Label T → End
  | .send _ | .drop | .tx => .tx
  | .poll | .rx => .rx

/-- An end that is in a call, or can still be called, has its handle. -/
structure Handles (s : State T) : Prop where
  counted : s.arc.Counted
  done : ∀ e, s.arc.handle e ≠ .live → Done s.chan e

/-- Whoever makes an access has its handle. -/
theorem Handles.live (h : Handles s) {l : Oneshot.Label T} (hen : Enabled s (.chan l)) :
    s.arc.handle (endOf l) = .live := by
  by_contra hnot
  have hdone := h.done _ hnot
  cases l with
  | send v =>
    have htx : s.chan.tx = .idle := hen
    simp [endOf, Done, htx] at hdone
  | drop =>
    have htx : s.chan.tx = .idle := hen
    simp [endOf, Done, htx] at hdone
  | tx =>
    have htx : s.chan.tx.active = true := hen
    have hgone : s.chan.tx = .gone := hdone
    rw [hgone] at htx
    cases htx
  | poll => exact hnot hen.2
  | rx =>
    have hrx : s.chan.rx.polling = true := hen
    have hnone : s.chan.rx.polling = false := hdone
    rw [hnone] at hrx
    cases hrx

/-- An access of one end leaves the other where it is. -/
theorem done_fire {l : Oneshot.Label T} {e : End} (hne : e ≠ endOf l) (h : Done s.chan e) :
    Done (Oneshot.fire tok s.chan l) e := by
  cases l with
  | send v => cases e <;> first | exact absurd rfl hne | exact h
  | drop => cases e <;> first | exact absurd rfl hne | exact h
  | poll => cases e <;> first | exact absurd rfl hne | exact h
  | tx =>
    cases e with
    | tx => exact absurd rfl hne
    | rx => exact (congrArg Receiver.polling (txStep_rx s.chan)).trans h
  | rx =>
    cases e with
    | rx => exact absurd rfl hne
    | tx => exact (rxStep_tx tok s.chan).trans h

theorem handles_reachable (h : (system T tok).Reachable s) : Handles s := by
  have : Nonempty End := ⟨.tx⟩
  refine h.invariant ⟨Allocation.counted_new, by simp [system, Allocation.new]⟩ ?_
  intro s l _ hi hen _
  cases l with
  | chan l =>
    refine ⟨hi.counted, fun e he => ?_⟩
    have hne : e ≠ endOf l := by
      rintro rfl
      exact he (hi.live hen)
    exact done_fire hne (hi.done e he)
  | drop e =>
    refine ⟨hi.counted.drop hen.2, fun e' he' => ?_⟩
    by_cases hee : e' = e
    · exact hee ▸ hen.1
    · exact hi.done e' (by simpa [system, fire, Allocation.drop, hee] using he')
  | free e =>
    refine ⟨hi.counted.free hen, fun e' he' => ?_⟩
    by_cases hee : e' = e
    · subst hee
      exact hi.done e' (by rw [show s.arc.handle e' = .last from hen]; simp)
    · exact hi.done e' (by simpa [system, fire, Allocation.free, hee] using he')

/-! ### The value -/

/-- The value that the sender still has to write. -/
def carried : Sender T → Option T
  | .sendLoad v | .sendValue v => some v
  | _ => none

/-- The value in the cell, as long as there is a cell. -/
def State.cell (s : State T) : Option T := if s.arc.freed = 0 then s.chan.value else none

/-- The value that a poll returned. -/
def delivered : Receiver T → Option T
  | .ready out => out
  | _ => none

/-- Every place where a value can be. -/
def State.places (s : State T) : List T :=
  (carried s.chan.tx).toList ++ s.cell.toList ++ s.dropped ++ (delivered s.chan.rx).toList

/-- Until `send` has stored `state`, no poll has got to the value. -/
theorem rx_of_unset {c : Oneshot.State T} (h : Oneshot.Inv tok c) (hst : c.state = false) :
    c.rx ≠ .pollTake ∧ ∀ out, c.rx ≠ .ready out := by
  have hr := h.receiver
  constructor
  · intro hrx
    simp [ReceiverInv, hrx, hst] at hr
  · intro out hrx
    simp [ReceiverInv, hrx, hst] at hr

/-- Until then the cell is empty, while the sender has not written to it. -/
theorem unset_of_carried {c : Oneshot.State T} (h : Oneshot.Inv tok c) {v : T}
    (htx : c.tx = .sendLoad v ∨ c.tx = .sendValue v) : c.state = false ∧ c.value = none := by
  have hs := h.sender
  have hst : c.state = false := by
    rcases htx with htx | htx <;> rw [SenderInv, htx] at hs <;> exact hs.2.1
  have hheld : c.held = none := by
    rcases htx with htx | htx <;> rw [SenderInv, htx] at hs <;> exact hs.2.2
  refine ⟨hst, ?_⟩
  cases hrx : c.rx with
  | ready out => exact absurd hrx ((rx_of_unset h hst).2 out)
  | _ => simpa [State.held, hrx] using hheld

/-- No access destroys a value. -/
theorem destroyed_eq_nil {c : Oneshot.State T} (h : Oneshot.Inv tok c) (l : Oneshot.Label T) :
    destroyed c l = [] := by
  cases l with
  | tx =>
    cases htx : c.tx with
    | sendLoad v => simp [destroyed, htx, (unset_of_carried h (.inl htx)).1]
    | sendValue v => simp [destroyed, htx, (unset_of_carried h (.inr htx)).2]
    | _ => simp [destroyed, htx]
  | _ => rfl

/-- A poll that was ready has emptied the cell. -/
theorem taken {c : Oneshot.State T} (h : (Oneshot.system T tok).Reachable c) :
    ∀ out, c.rx = .ready out → c.value = none := by
  refine h.invariant (I := fun c => ∀ out, c.rx = .ready out → c.value = none)
    (by simp [Oneshot.system]) fun c l hc hi hen _ => ?_
  have hinv : Oneshot.Inv tok c := Oneshot.inv_reachable hc
  cases l with
  | send v => exact hi
  | drop => exact hi
  | poll => simp [Oneshot.system, Oneshot.fire]
  | tx =>
    change ∀ out, (txStep c).rx = .ready out → (txStep c).value = none
    cases htx : c.tx with
    | sendValue v =>
      have hunset := (unset_of_carried hinv (.inr htx)).1
      intro out hout
      simp only [txStep, htx] at hout
      exact absurd hout ((rx_of_unset hinv hunset).2 out)
    | sendGet => simp only [txStep, htx]; split <;> exact hi
    | dropGet => simp only [txStep, htx]; split <;> exact hi
    | _ => simpa only [txStep, htx] using hi
  | rx =>
    change ∀ out, (rxStep tok c).rx = .ready out → (rxStep tok c).value = none
    cases hrx : c.rx with
    | pollLoad => simp only [rxStep, hrx]; split <;> simp
    | ready out => simpa only [rxStep, hrx] using hrx ▸ hi
    | _ => simp [rxStep, hrx]

/-- The value that was sent is with the sender, in its cell or with the receiver. -/
theorem channel_places {c : Oneshot.State T} (h : (Oneshot.system T tok).Reachable c) :
    (carried c.tx).toList ++ c.value.toList ++ (delivered c.rx).toList = c.sent.toList := by
  have hinv : Oneshot.Inv tok c := Oneshot.inv_reachable h
  have hheld : c.value.toList ++ (delivered c.rx).toList = c.held.toList := by
    cases hrx : c.rx with
    | ready out => simp [taken h out hrx, delivered, State.held, hrx]
    | _ => simp [delivered, State.held, hrx]
  rw [List.append_assoc, hheld]
  have hs := hinv.sender
  cases htx : c.tx <;> simp_all [SenderInv, carried]

/-- Freeing the state drops what is in the cell, and nothing else drops a value. -/
theorem dropped_reachable (h : (system T tok).Reachable s) :
    s.dropped = if s.arc.freed = 0 then [] else s.chan.value.toList := by
  refine h.invariant
    (I := fun s => s.dropped = if s.arc.freed = 0 then [] else s.chan.value.toList)
    (by simp [system, Allocation.new]) fun s l hs hi hen _ => ?_
  have hh := handles_reachable hs
  cases l with
  | chan l =>
    have hfreed : s.arc.freed = 0 := (hh.counted.of_live (hh.live hen)).1
    simp only [system, fire, destroyed_eq_nil (inv_chan hs) l, hi, hfreed]
    simp
  | drop e => exact hi
  | free e =>
    have hfreed : s.arc.freed = 0 := (hh.counted.of_last hen).1
    simp only [system, fire, hi, hfreed]
    simp [Allocation.free, hfreed]

/-- **The state of a channel is used safely.** -/
structure Safe (s : State T) : Prop where
  /-- No access touches freed memory: whoever makes one has its handle. -/
  access : ∀ l, Enabled s (.chan l) → s.arc.handle (endOf l) = .live ∧ s.arc.freed = 0
  /-- The state is freed when both ends are gone, by an end that is alone with it, and once. -/
  freed_iff : s.arc.freed = 1 ↔ ∀ e, s.arc.handle e = .gone
  freed_le : s.arc.freed ≤ 1
  alone : ∀ e, s.arc.handle e = .last → ∀ e', e' ≠ e → s.arc.handle e' = .gone
  /-- The two ends are never both about to access the `UnsafeCell`. -/
  no_race : ∀ v, s.chan.tx = .sendValue v → s.chan.rx ≠ .pollTake
  /-- The value that was sent is in exactly one place. -/
  once : s.places = s.chan.sent.toList

/-- **A oneshot channel is memory safe and loses no value**, whatever its ends do and whenever the
receiver is dropped. -/
theorem owned_safe (h : (system T tok).Reachable s) : Safe s := by
  have hh := handles_reachable h
  have hinv := inv_chan h
  refine ⟨fun l hl => ?_, hh.counted.freed_iff, hh.counted.freed_le_one, fun e he => ?_, ?_, ?_⟩
  · have hlive := hh.live hl
    exact ⟨hlive, (hh.counted.of_live hlive).1⟩
  · exact (hh.counted.of_last he).2
  · intro v htx
    exact (rx_of_unset hinv (unset_of_carried hinv (.inr htx)).1).1
  · -- the cell and what was dropped with it are the value, before and after the state is freed
    rw [← channel_places ((chan_simulation T tok).reachableBy h), State.places, State.cell,
      dropped_reachable h]
    split_ifs <;> simp

/-- The receiver is dropped after a pending poll; the value that is then sent is dropped with the
state. -/
theorem owned_safe_unreceived : ∃ s : State ℕ, (system ℕ ⟨3⟩).Reachable s ∧
    (s.dropped = [5] ∧ s.arc.freed = 1) ∧ Safe s := by
  obtain ⟨s, hs, hend⟩ := LTS.exists_of_exec (system ℕ ⟨3⟩) (fun _ _ => True)
    ([.chan .poll, .chan .rx, .chan .rx, .drop .rx, .chan (.send 5)] ++
      List.replicate 9 (.chan .tx) ++ [.drop .tx, .free .tx])
    (fun s => s.dropped = [5] ∧ s.arc.freed = 1) (by decide)
  exact ⟨s, hs, hend, owned_safe hs⟩

end Owned

end Oneshot

end BunnyDs
