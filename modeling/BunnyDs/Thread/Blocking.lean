import BunnyDs.Sync.Oneshot
import BunnyDs.Thread.Join

/-!
# Blocking calls

`spawn_blocking` runs a function on a thread of its own and returns the receiver of a oneshot
channel: the thread calls the function, and sends what it returned; if it panics, unwinding drops
the sender. The `RawJoin` is dropped before `spawn_blocking` returns, so the thread is detached, and
nobody is left to free it but itself.  If `threadCreate` fails, `spawn_blocking` panics with both
halves of the channel.

The system runs `CtruThread.system` and `Oneshot.system` together, with every access of both.

* `SpawnBlocking.thread_simulation`, `SpawnBlocking.chan_simulation` : both parts behave as on their
  own.
* `SpawnBlocking.resolves` : **the future is `Some(v)` if the function returned `v`, and `None` if
  it panicked**; it is not ready before, its task is woken, and the thread is freed when it has
  ended.
-/

namespace BunnyDs

namespace SpawnBlocking

variable {P T : Type*}

/-- The thread with its `RawJoin`, the channel, and what the function did. -/
structure State (P T : Type*) where
  thread : CtruThread.State P Unit
  chan : Oneshot.State T
  outcome : Option (Except P T)

/-- One step of one party. -/
inductive Label (P T : Type*) where
  /-- `threadCreate` returns. -/
  | create (succeeds : Bool)
  /-- `spawn_blocking` drops the `RawJoin`. -/
  | drop
  /-- The next access of `spawn_blocking`. -/
  | owner
  /-- The function returns or panics. -/
  | func (res : Except P T)
  /-- The next access of the sender, on the thread. -/
  | tx
  /-- The closure ends. -/
  | finish
  /-- The next access of the thread, after the closure. -/
  | thread
  /-- The future is polled. -/
  | poll
  /-- The next access of its poll. -/
  | rx

/-- The function has returned, so its result is sent; or unwinding drops the sender. -/
def send : Except P T → Oneshot.Label T
  | .ok v => .send v
  | .error _ => .drop

/-- What the closure leaves in the packet. -/
def packetOf (res : Except P T) : CtruThread.ThreadResult P Unit := res.map fun _ => ()

/-- The effect of a step; the future is polled by the task `tok`. -/
def fire (tok : TaskToken) (s : State P T) : Label P T → State P T
  | .create succeeds => { s with thread := CtruThread.fire s.thread (.create succeeds) }
  | .drop => { s with thread := CtruThread.fire s.thread .drop }
  | .owner => { s with thread := CtruThread.fire s.thread .owner }
  | .func res => { s with chan := Oneshot.fire tok s.chan (send res), outcome := some res }
  | .tx => { s with chan := Oneshot.fire tok s.chan .tx }
  | .finish =>
    match s.outcome with
    | some res => { s with thread := CtruThread.fire s.thread (.finish (packetOf res)) }
    | none => s
  | .thread => { s with thread := CtruThread.fire s.thread .thread }
  | .poll => { s with chan := Oneshot.fire tok s.chan .poll }
  | .rx => { s with chan := Oneshot.fire tok s.chan .rx }

/-- A step can be taken. -/
def Enabled (s : State P T) : Label P T → Prop
  | .create succeeds => CtruThread.Enabled s.thread (.create succeeds)
  | .drop => CtruThread.Enabled s.thread .drop
  | .owner => CtruThread.Enabled s.thread .owner
  | .func _ => s.thread.thread = .running ∧ s.outcome.isNone = true
  | .tx => s.chan.tx.active = true
  -- the sender is dropped at the end of the closure
  | .finish => s.thread.thread = .running ∧ s.chan.tx = .gone
  | .thread => s.thread.thread.active = true
  -- the future is returned when the `RawJoin` is gone
  | .poll => s.chan.rx = .idle ∧ s.thread.owner = .dropped
  | .rx => s.chan.rx.polling = true

/-- A call of `spawn_blocking`, whose future is awaited by the task `tok`. -/
def system (P T : Type*) (tok : TaskToken) : LTS (State P T) (Label P T) where
  init := ⟨(CtruThread.system P Unit).init, (Oneshot.system T tok).init, none⟩
  Enabled := Enabled
  fire := fire tok

instance [DecidableEq P] [DecidableEq T] (tok : TaskToken) (s : State P T) (l : Label P T) :
    Decidable ((system P T tok).Enabled s l) :=
  match l with
  | .create succeeds =>
    inferInstanceAs (Decidable ((CtruThread.system P Unit).Enabled s.thread (.create succeeds)))
  | .drop => inferInstanceAs (Decidable ((CtruThread.system P Unit).Enabled s.thread .drop))
  | .owner => inferInstanceAs (Decidable ((CtruThread.system P Unit).Enabled s.thread .owner))
  | .func _ => inferInstanceAs (Decidable (s.thread.thread = .running ∧ s.outcome.isNone = true))
  | .tx => inferInstanceAs (Decidable (s.chan.tx.active = true))
  | .finish => inferInstanceAs (Decidable (s.thread.thread = .running ∧ s.chan.tx = .gone))
  | .thread => inferInstanceAs (Decidable (s.thread.thread.active = true))
  | .poll => inferInstanceAs (Decidable (s.chan.rx = .idle ∧ s.thread.owner = .dropped))
  | .rx => inferInstanceAs (Decidable (s.chan.rx.polling = true))

/-! ### The link between thread and channel -/

/-- **The sender follows the function, and the thread follows the sender.** -/
structure Link (s : State P T) : Prop where
  /-- The sender is used when the function has ended. -/
  used : s.chan.tx = .idle ↔ s.outcome = none
  sent : s.chan.sent = s.outcome.bind Except.toOption
  /-- The closure ends with the function, after the sender was dropped. -/
  result : ∀ res, s.thread.result = some res → s.chan.tx = .gone ∧ s.outcome.map packetOf = some res

section Steps

variable {tok : TaskToken} {s : State P T}

theorem link_init : Link (system P T tok).init :=
  ⟨by simp [system, Oneshot.system], rfl, by simp [system, CtruThread.system]⟩

/-- A step of the thread that is not the end of the closure. -/
theorem Link.thread (h : Link s) {th : CtruThread.State P Unit}
    (hres : th.result = s.thread.result) : Link { s with thread := th } :=
  ⟨h.used, h.sent, fun res hr => h.result res (hres ▸ hr)⟩

/-- A step of the sender or of a poll: the sender does not come back. -/
theorem Link.chan (h : Link s) {c : Oneshot.State T} (hused : c.tx = .idle ↔ s.chan.tx = .idle)
    (hsent : c.sent = s.chan.sent) (hgone : s.chan.tx = .gone → c.tx = .gone) :
    Link { s with chan := c } := by
  refine ⟨hused.trans h.used, hsent.trans h.sent, fun res hr => ?_⟩
  obtain ⟨htx, hout⟩ := h.result res hr
  exact ⟨hgone htx, hout⟩

theorem ownerStep_result (th : CtruThread.State P Unit) :
    (CtruThread.ownerStep th).result = th.result := by
  unfold CtruThread.ownerStep
  split <;> first | rfl | (split <;> rfl)

theorem threadStep_result (th : CtruThread.State P Unit) :
    (CtruThread.threadStep th).result = th.result := by
  unfold CtruThread.threadStep
  split <;> rfl

/-- The sender on its way. -/
theorem txStep_used (c : Oneshot.State T) (hact : c.tx.active = true) :
    (Oneshot.txStep c).tx ≠ .idle := by
  unfold Oneshot.txStep
  cases htx : c.tx <;> simp_all [Oneshot.Sender.active] <;> split <;> simp

theorem link_step {l : Label P T} (h : Link s) (hs : CtruThread.Shape s.thread)
    (hen : Enabled s l) : Link (fire tok s l) := by
  cases l with
  | create succeeds => cases succeeds <;> exact h.thread rfl
  | drop => exact h.thread rfl
  | owner => exact h.thread (ownerStep_result _)
  | func res =>
    have hnone : s.outcome = none := Option.isNone_iff_eq_none.1 hen.2
    have hresult : s.thread.result = none := by
      have hr := hs.result
      rw [CtruThread.ResultInv, hen.1] at hr
      exact hr.1
    refine ⟨?_, ?_, fun r hr => ?_⟩
    · cases res <;> simp [fire, send, Oneshot.fire]
    · have hidle := h.sent
      rw [hnone] at hidle
      cases res with
      | ok v => rfl
      | error p => exact hidle
    · rw [show (fire tok s (.func res)).thread.result = none from hresult] at hr
      cases hr
  | tx =>
    have hused := txStep_used s.chan hen
    refine h.chan ⟨fun hi => absurd hi hused, fun hi => ?_⟩ (Oneshot.txStep_sent _) fun hg => ?_
    · have hen : s.chan.tx.active = true := hen
      simp [hi, Oneshot.Sender.active] at hen
    · have hen : s.chan.tx.active = true := hen
      simp [hg, Oneshot.Sender.active] at hen
  | finish =>
    have hout : s.outcome ≠ none := fun hn => by
      have hidle := h.used.2 hn
      rw [hen.2] at hidle
      cases hidle
    obtain ⟨res, hres⟩ := Option.ne_none_iff_exists'.1 hout
    simp only [fire, hres]
    refine ⟨by simpa [hres] using h.used, by simpa [hres] using h.sent, fun r hr => ⟨hen.2, ?_⟩⟩
    exact hr
  | thread => exact h.thread (threadStep_result _)
  | poll => exact h.chan .rfl rfl id
  | rx =>
    have htx := Oneshot.rxStep_tx tok s.chan
    exact h.chan (by simp [Oneshot.fire, htx]) (Oneshot.rxStep_sent tok _) fun hg => htx.trans hg

/-- **The thread behaves as a thread.** -/
theorem thread_simulation : LTS.Simulation (system P T tok) (fun _ _ => True)
    (CtruThread.system P Unit) (fun _ _ => True) State.thread := by
  refine ⟨rfl, fun s l _ hen _ => ?_⟩
  cases l with
  | create succeeds => exact .inr ⟨.create succeeds, hen, trivial, rfl⟩
  | drop => exact .inr ⟨.drop, hen, trivial, rfl⟩
  | owner => exact .inr ⟨.owner, hen, trivial, rfl⟩
  | finish =>
    have hrunning : s.thread.thread = .running := hen.1
    simp only [system, fire]
    cases s.outcome with
    | none => exact .inl rfl
    | some res => exact .inr ⟨.finish (packetOf res), hrunning, trivial, rfl⟩
  | thread => exact .inr ⟨.thread, hen, trivial, rfl⟩
  | func res | tx | poll | rx => exact .inl rfl

theorem shape_reachable (h : (system P T tok).Reachable s) : CtruThread.Shape s.thread :=
  CtruThread.shape_reachable (thread_simulation.reachableBy h)

theorem link_reachable (h : (system P T tok).Reachable s) : Link s :=
  h.invariant link_init fun _ _ hs hi hen _ => link_step hi (shape_reachable hs) hen

/-- **The channel behaves as a channel.** -/
theorem chan_simulation : LTS.Simulation (system P T tok) (fun _ _ => True)
    (Oneshot.system T tok) (fun _ _ => True) State.chan := by
  refine ⟨rfl, fun s l hs hen _ => ?_⟩
  cases l with
  | func res =>
    have hidle : s.chan.tx = .idle :=
      (link_reachable hs).used.2 (Option.isNone_iff_eq_none.1 hen.2)
    refine .inr ⟨send res, ?_, trivial, rfl⟩
    cases res <;> exact hidle
  | tx => exact .inr ⟨.tx, hen, trivial, rfl⟩
  | poll => exact .inr ⟨.poll, hen.1, trivial, rfl⟩
  | rx => exact .inr ⟨.rx, hen, trivial, rfl⟩
  | finish =>
    simp only [system, fire]
    cases s.outcome <;> exact .inl rfl
  | create succeeds | drop | owner | thread => exact .inl rfl

theorem chan_reachable (h : (system P T tok).Reachable s) : Oneshot.Inv tok s.chan :=
  Oneshot.inv_reachable (chan_simulation.reachableBy h)

end Steps

/-! ### What the future promises -/

/-- **What the future of a blocking call promises** to the task `tok`. -/
structure Resolves (tok : TaskToken) (s : State P T) : Prop where
  /-- A future that is ready tells what the function did. -/
  ready : ∀ out, s.chan.rx = .ready out → ∃ res, s.outcome = some res ∧ out = res.toOption
  /-- When the function has ended and its sender is gone, a pending future was woken. -/
  woken : s.chan.tx = .gone → s.chan.LastPending →
    Oneshot.Event.woke tok ∈ Log.since Oneshot.Event.isPolled s.chan.log
  /-- When the thread has ended, the sender is gone; record and closure are freed, exactly once. -/
  ended : s.thread.thread = .gone → s.thread.owner = .dropped →
    s.chan.tx = .gone ∧ s.thread.native = .freed ∧ s.thread.closures = 1 ∧
      s.thread.packets = [s.outcome.map packetOf]
  never_wild : s.thread.native ≠ .wild

/-- **A blocking call resolves to what its function did.**  In every run of a call of
`spawn_blocking` and of the polls of its future: `Some(v)` if the function returned `v`, `None` if
it panicked, and neither before it has ended. -/
theorem resolves {tok : TaskToken} {s : State P T} (h : (system P T tok).Reachable s) :
    Resolves tok s := by
  have hlink := link_reachable h
  have hchan := chan_reachable h
  have hthread := (shape_reachable h).sound
  refine ⟨fun out hout => ?_, fun hgone hp => ?_, fun hgone ho => ?_, hthread.never_wild⟩
  · have hr := hchan.receiver
    simp only [Oneshot.ReceiverInv, hout] at hr
    obtain ⟨hheld, hwrote, -⟩ := hchan.held_eq hr.2
    simp only [Oneshot.State.held, hout] at hheld
    -- the sender has been used, so the function has ended
    have hused : s.outcome ≠ none := fun hn => by
      rw [hlink.used.2 hn] at hwrote
      cases hwrote
    obtain ⟨res, hres⟩ := Option.ne_none_iff_exists'.1 hused
    refine ⟨res, hres, ?_⟩
    rw [hheld, hlink.sent, hres]
    rfl
  · have hs := hchan.sender
    simp only [Oneshot.SenderInv, hgone] at hs
    exact hchan.wake hp hs.1 (.inr (.inr hgone))
  · obtain ⟨hnative, hclosures, left, hpackets, hmoved, -⟩ :=
      hthread.settled (by rw [ho]; rfl) (.inr hgone)
    have hr := (shape_reachable h).result
    rw [CtruThread.ResultInv, hgone] at hr
    obtain ⟨res, hres, -⟩ := hr
    obtain ⟨htx, hout⟩ := hlink.result res hres
    refine ⟨htx, hnative.resolve_left fun habsent => ?_, hclosures, ?_⟩
    · have hn := (shape_reachable h).native
      rw [habsent, ho, hgone] at hn
      cases hn
    · rw [ho] at hmoved
      rw [hpackets, hout, ← hres, ← hmoved]
      rfl

/-- The function returns 7 after the future was polled; the future is woken and then ready, and the
thread has freed itself. -/
theorem resolves_seven : ∃ s : State String ℕ, (system String ℕ ⟨3⟩).Reachable s ∧
    s.chan.rx = .ready (some 7) ∧ s.thread.native = .freed ∧ Resolves ⟨3⟩ s := by
  obtain ⟨s, hs, hrx, hnative⟩ := LTS.exists_of_exec (system String ℕ ⟨3⟩) (fun _ _ => True)
    ([.create true, .drop, .owner, .owner, .poll, .rx, .rx, .func (.ok 7)] ++
      List.replicate 9 .tx ++ [.finish, .thread, .thread, .thread, .poll, .rx, .rx, .rx])
    (fun s => s.chan.rx = .ready (some 7) ∧ s.thread.native = .freed) (by decide)
  exact ⟨s, hs, hrx, hnative, resolves hs⟩

end SpawnBlocking

end BunnyDs
