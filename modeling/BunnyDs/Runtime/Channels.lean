import BunnyDs.LTS.Leaves
import BunnyDs.Sync.Oneshot

/-!
# Oneshot receivers as leaves

The receiver of a oneshot channel waits for `state`, which its sender sets in `send` and in `drop`.
The sender looks for a token to wake after each of the two stores, so there are two wake calls.
-/

namespace BunnyDs

namespace Oneshot

variable {T : Type*}

/-- The two wake calls of a sender. -/
inductive Call where
  /-- At the end of `OneshotState::send`. -/
  | send
  /-- In `OneshotSender::drop`. -/
  | drop
  deriving DecidableEq

/-- The status of the receiver. -/
def Receiver.status : Receiver T → PollStatus
  | .idle => .idle
  | .pollSet | .pollLoad | .pollTake => .polling
  | .ready _ => .ready

/-- The wake call that the sender's next access is. -/
def Sender.call : Sender T → Option (Call × TaskToken)
  | .sendAdd task => some (.send, task)
  | .dropAdd task => some (.drop, task)
  | _ => none

/-- How many accesses are left at each of the two calls. -/
theorem Sender.left_of_call {tx : Sender T} {c : Call × TaskToken} (h : tx.call = some c) :
    tx.left = if c.1 = .send then 5 else 1 := by
  cases tx <;> simp only [call, Option.some.injEq, reduceCtorEq] at h <;> subst h <;> rfl

/-- The receiver of a channel, polled by the task `tok`. -/
def leaves (T : Type*) (tok : TaskToken) : Leaves Unit Call TaskToken (State T) (Label T) where
  sys := system T tok
  ok _ _ := True
  access
    | .poll | .rx => some ()
    | .send _ | .drop | .tx => none
  starts
    | .poll => some ()
    | .send _ | .drop | .tx | .rx => none
  wake s
    | .tx => s.tx.call
    | .send _ | .drop | .poll | .rx => none
  leaf _ := ()
  task _ := tok
  status s _ := s.rx.status
  Fired s _ := s.state = true
  Quiet s := s.tx.active = false

instance decidableEnabled [DecidableEq T] (tok : TaskToken) (s : State T) (l : Label T) :
    Decidable ((leaves T tok).sys.Enabled s l) :=
  inferInstanceAs (Decidable ((system T tok).Enabled s l))

instance decidableOk (tok : TaskToken) (s : State T) (l : Label T) :
    Decidable ((leaves T tok).ok s l) :=
  inferInstanceAs (Decidable True)

instance decidableQuiet (tok : TaskToken) (s : State T) : Decidable ((leaves T tok).Quiet s) :=
  inferInstanceAs (Decidable (s.tx.active = false))

variable {tok : TaskToken} {s : State T} {t : Track Unit Call}

/-- The track and the cells: a receiver between polls was left pending; what was woken since then
counts as woken since the poll; and the sender makes each call once. -/
structure Tracked (s : State T) (t : Track Unit Call) : Prop where
  pending : t.begun () = true → s.rx = .idle → s.LastPending
  woken : s.rx.polling = false → ∀ x, .woke x ∈ Log.since Event.isPolled s.log →
    t.woken () = true
  sent : t.made .send = true → s.tx.left ≤ 4
  dropped : t.made .drop = true → s.tx.left = 0

/-- A step of the sender that wakes nobody. -/
theorem Tracked.move {s' : State T} (h : Tracked s t) (hrx : s'.rx = s.rx) (hlog : s'.log = s.log)
    (hleft : s'.tx.left ≤ s.tx.left ∨ s.tx = .idle) : Tracked s' t := by
  refine ⟨fun hb hi => ?_, fun hl x hx => ?_, fun hm => ?_, fun hm => ?_⟩
  · have := h.pending hb (hrx ▸ hi)
    rwa [State.LastPending, hlog]
  · rw [hlog] at hx
    exact h.woken (hrx ▸ hl) x hx
  · have hle := h.sent hm
    rcases hleft with hl | hidle
    · omega
    · simp [hidle, Sender.left] at hle
  · have hle := h.dropped hm
    rcases hleft with hl | hidle
    · omega
    · simp [hidle, Sender.left] at hle

/-- The log records the wake calls of the sender. -/
theorem txStep_log (s : State T) :
    (txStep s).log = (s.tx.call.map fun c => Event.woke c.2).toList ++ s.log := by
  cases htx : s.tx <;> simp [txStep, htx, Sender.call] <;> split <;> rfl

/-- An access of the sender. -/
theorem Tracked.tx (h : Tracked s t) (hact : s.tx.active = true) :
    Tracked (txStep s) ((leaves T tok).note s .tx t) := by
  have hleft := left_txStep hact
  have hlog := txStep_log s
  cases hcall : s.tx.call with
  | none =>
    rw [Leaves.note_of_none rfl hcall]
    rw [hcall] at hlog
    exact h.move (txStep_rx s) hlog (.inl (Nat.le_of_lt hleft))
  | some c =>
    have hwake : (leaves T tok).wake s .tx = some c := hcall
    rw [hcall] at hlog
    change _ = .woke c.2 :: s.log at hlog
    have hat := Sender.left_of_call hcall
    have hmade : ∀ w, ((leaves T tok).note s .tx t).made w = true → c.1 = w ∨ t.made w = true := by
      intro w hw
      refine ((Leaves.note_made w).1 hw).imp_left ?_
      rintro ⟨x, he⟩
      exact congrArg Prod.fst (Option.some.inj (hwake.symm.trans he))
    have hwoken : ((leaves T tok).note s .tx t).woken () = true :=
      Leaves.note_woken_wake (w := c.1) hwake
    refine ⟨fun hb hi => ?_, fun _ _ _ => hwoken, fun hm => ?_, fun hm => ?_⟩
    · have hbegun := ((Leaves.note_begun ()).1 hb).resolve_left (by simp [leaves])
      have := h.pending hbegun (txStep_rx s ▸ hi)
      rw [State.LastPending, hlog]
      simpa [State.LastPending, Event.isPolled] using this
    · rcases hmade _ hm with hc | hm
      · rw [if_pos hc] at hat
        omega
      · have := h.sent hm
        omega
    · rcases hmade _ hm with hc | hm
      · rw [hc] at hat
        simp only [reduceCtorEq, if_false] at hat
        omega
      · have := h.dropped hm
        omega

/-- An access of a poll. -/
theorem Tracked.rx (h : Tracked s t) : Tracked (rxStep tok s) t := by
  cases hrx : s.rx with
  | idle => simpa only [rxStep, hrx] using h
  | ready out => simpa only [rxStep, hrx] using h
  | pollSet =>
    simp only [rxStep, hrx]
    exact ⟨by simp, by simp [Receiver.polling], h.sent, h.dropped⟩
  | pollLoad =>
    simp only [rxStep, hrx]
    split_ifs
    · exact ⟨by simp, by simp [Receiver.polling], h.sent, h.dropped⟩
    · refine ⟨fun _ _ => ?_, fun _ x hx => ?_, h.sent, h.dropped⟩
      · simp [State.LastPending, Event.isPolled]
      · simp [Log.since_cons, Event.isPolled] at hx
  | pollTake =>
    simp only [rxStep, hrx]
    refine ⟨by simp, fun _ x hx => ?_, h.sent, h.dropped⟩
    simp [Log.since_cons, Event.isPolled] at hx

theorem tracked_step {l : Label T} (h : Tracked s t) (hen : Enabled s l) :
    Tracked (fire tok s l) ((leaves T tok).note s l t) := by
  cases l with
  | send v =>
    rw [Leaves.note_of_none rfl rfl]
    exact h.move rfl rfl (.inr hen)
  | drop =>
    rw [Leaves.note_of_none rfl rfl]
    exact h.move rfl rfl (.inr hen)
  | tx => exact h.tx hen
  | poll => exact ⟨by simp [fire], by simp [fire, Receiver.polling], h.sent, h.dropped⟩
  | rx =>
    rw [Leaves.note_of_none rfl rfl]
    exact h.rx

theorem tracked_run (h : (leaves T tok).Run s t) : Tracked s t := by
  refine h.invariant ?_ fun _ _ _ _ hi hen _ => tracked_step hi hen
  exact ⟨by simp [Track.new], by simp [leaves, system, Log.since], by simp [Track.new],
    by simp [Track.new]⟩

/-- A sender at rest is gone if it has set `state`, and was not used otherwise. -/
theorem Inv.at_rest (h : Inv tok s) (hq : s.tx.active = false) :
    s.tx = if s.state then .gone else .idle := by
  have hs := h.sender
  unfold SenderInv at hs
  cases htx : s.tx with
  | idle =>
    rw [htx] at hs
    rw [hs.2.1]
    rfl
  | gone =>
    rw [htx] at hs
    rw [hs.1]
    rfl
  | _ =>
    rw [htx] at hq
    cases hq

/-- **A receiver may be awaited.**  When its sender is at rest and has set `state`, a receiver whose
latest poll was pending has been woken since that poll began. -/
theorem contract (T : Type*) (tok : TaskToken) : (leaves T tok).Contract where
  access_of_starts l k hk := by
    cases l <;> simp_all [leaves]
  frame s t l k _ _ _ hne := by
    cases l with
    | send v => rfl
    | drop => rfl
    | tx => exact congrArg Receiver.status (txStep_rx s)
    | poll => exact absurd rfl hne
    | rx => exact absurd rfl hne
  token s t l w x h _ _ hw := by
    have hi : Inv tok s := inv_reachable h.reachableBy
    cases l with
    | tx =>
      have hcall : s.tx.call = some (w, x) := hw
      refine hi.adding x ?_
      cases htx : s.tx <;> simp_all [Sender.call]
    | _ => cases hw
  once s t l w x h _ _ hw := by
    have ht := tracked_run h
    cases l with
    | tx =>
      rw [Bool.eq_false_iff]
      intro hm
      have hleft := Sender.left_of_call hw
      cases w with
      | send =>
        have := ht.sent hm
        simp only [if_true] at hleft
        omega
      | drop =>
        have := ht.dropped hm
        simp only [reduceCtorEq, if_false] at hleft
        omega
    | _ => cases hw
  answered s t k h hq hb hst hf := by
    have hi : Inv tok s := inv_reachable h.reachableBy
    have ht := tracked_run h
    have hidle : s.rx = .idle := by
      cases hrx : s.rx <;> simp_all [leaves, Receiver.status]
    have hf : s.state = true := hf
    have hgone : s.tx = .gone := by
      rw [hi.at_rest hq, hf]
      rfl
    have hpoll : s.rx.polling = false := by rw [hidle]; rfl
    exact ht.woken hpoll tok (hi.wake (ht.pending hb hidle) hf (.inr (.inr hgone)))

end Oneshot

end BunnyDs
