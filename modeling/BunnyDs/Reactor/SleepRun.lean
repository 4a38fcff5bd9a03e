import BunnyDs.Reactor.Sleep

/-!
# Runs of the reactor

Any number of sleeps share one reactor; a step concerns one of them, and leaves the view of every
other one as it was.

* `Reactor.Inv` : the protocol of every sleep, and what the reactor is doing.
* `Reactor.sleeps_sound` : **a sleep is never early, and is woken exactly once, when its timer has
  run out**; the reactor never panics.
* `Reactor.panics_before_start` : a sleep that is polled before the reactor thread has run panics.
-/

namespace BunnyDs

namespace Reactor

variable {κ : Type*} [DecidableEq κ]

/-! ### The protocol over whole runs -/

/-- **The invariant of a run**: the protocol of every sleep, and what the reactor is doing. -/
structure Inv (c : Config κ) (s : State κ) : Prop where
  sleeps : ∀ k, SleepInv (c.task k) (c.time k) (s.view c k)
  waking : ∀ handle tokens, s.phase = .waking handle tokens →
    ∃ k, handle = c.handle k ∧ tokens = [c.task k]
  no_panic : s.phase ≠ .panicked

section Runs

variable {c : Config κ} {s : State κ} {k : κ}

theorem view_update_self (g : Sleep → Sleep) :
    (s.update k g).view c k = { s.view c k with sleep := g (s.sleeps k) } := by
  have hk : (s.update k g).sleeps k = g (s.sleeps k) := Function.update_self ..
  unfold State.view
  rw [hk]
  rfl

theorem view_update_ne {j : κ} (hj : j ≠ k) (g : Sleep → Sleep) :
    (s.update k g).view c j = s.view c j := by
  have hj : (s.update k g).sleeps j = s.sleeps j := Function.update_of_ne hj ..
  unfold State.view
  rw [hj]
  rfl

/-- A step of one sleep that the reactor is no part of. -/
theorem Inv.update (h : Inv c s) {g : Sleep → Sleep}
    (hk : SleepInv (c.task k) (c.time k) { s.view c k with sleep := g (s.sleeps k) }) :
    Inv c (s.update k g) := by
  refine ⟨fun j => ?_, h.waking, h.no_panic⟩
  by_cases hj : j = k
  · subst hj
    rw [view_update_self]
    exact hk
  · rw [view_update_ne hj]
    exact h.sleeps j

theorem inv_access (htime : c.time k < 2 ^ 63) (h : Inv c s)
    (hact : (s.sleeps k).pc.active = true) : Inv c (s.update k (access c s k)) := by
  have hk := h.sleeps k
  refine h.update ?_
  cases hpc : (s.sleeps k).pc with
  | read =>
    simp only [access, hpc]
    exact sleepInv_read hk hpc
  | create cur =>
    simp only [access, hpc]
    exact sleepInv_create hk hpc
  | arm cur =>
    simp only [access, hpc]
    exact sleepInv_arm hk hpc htime
  | request =>
    simp only [access, hpc]
    refine sleepInv_request hk hpc ?_
    split_ifs
    · exact .inr rfl
    · exact .inl rfl
  | store =>
    simp only [access, hpc]
    exact sleepInv_store hk hpc _
  | _ => simp [hpc, PollPc.active] at hact

/-- The reactor thread starts. -/
theorem inv_start (h : Inv c s) (hph : s.phase = .starting) :
    Inv c { s with phase := .waiting } := by
  refine ⟨fun j => ?_, by simp, by simp⟩
  have hview : State.view c { s with phase := .waiting } j = s.view c j := by
    simp [State.view, hph]
  rw [hview]
  exact h.sleeps j

/-- A request is handled. -/
theorem inv_receive (h : Inv c s) (hph : s.phase = .waiting) (hpc : (s.sleeps k).pc = .blocked) :
    Inv c (fire c s (.receive k)) := by
  simp only [fire, Server.handleRequest]
  refine ⟨fun j => ?_, by simp, by simp⟩
  by_cases hj : j = k
  · subst hj
    have := sleepInv_receive (h.sleeps j) hpc (by simp [State.view, hph])
    simpa [State.view, hph] using this
  · have hne : c.handle j ≠ c.handle k := fun he => hj (c.handle_injective he)
    have := h.sleeps j
    simpa [State.view, hph, hne, Ne.symm hj] using this

/-- The reactor replies. -/
theorem inv_reply (h : Inv c s) (hph : s.phase = .replying k) :
    Inv c { s.update k fun f => { f with pc := .store } with phase := .waiting } := by
  refine ⟨fun j => ?_, by simp, by simp⟩
  by_cases hj : j = k
  · subst hj
    have := sleepInv_reply (h.sleeps j) (by simp [State.view, hph])
    simpa [State.view, State.update, hph] using this
  · have := h.sleeps j
    simpa [State.view, State.update, hph, Function.update_of_ne hj, Ne.symm hj] using this

/-- The reactor's wait returns with a timer. -/
theorem inv_signal (h : Inv c s) (hph : s.phase = .waiting)
    (hsig : (s.sleeps k).kernel.isSignalled = true) (hlisted : c.handle k ∈ s.server.handles) :
    Inv c (fire c s (.signal k)) := by
  have hk := h.sleeps k
  have htokens : s.server.waitTokens (c.handle k) = some [c.task k] :=
    hk.tokens_eq hsig (by simpa [State.view] using hlisted)
  simp only [fire, State.update, Server.handleAdditionalOshandle, htokens, Option.map_some,
    wakeNext]
  refine ⟨fun j => ?_, fun handle tokens he => ?_, by simp⟩
  · by_cases hj : j = k
    · subst hj
      have := sleepInv_signal hk hsig (by simpa [State.view] using hlisted)
        (by simp [State.view, hph])
      simpa [State.view, hph] using this
    · have hne : c.handle j ≠ c.handle k := fun he => hj (c.handle_injective he)
      have := h.sleeps j
      simpa [State.view, hph, hne, Function.update_of_ne hj, Ne.symm hne] using this
  · obtain ⟨rfl, rfl⟩ := Phase.waking.inj he
    exact ⟨k, rfl, rfl⟩

/-- One task waits for each handle. -/
theorem Inv.phase_of_wakes (h : Inv c s) (hwakes : s.phase.wakes (c.handle k) = true) :
    s.phase = .waking (c.handle k) [c.task k] := by
  cases hp : s.phase with
  | waking handle tokens =>
    obtain ⟨j, rfl, rfl⟩ := h.waking _ _ hp
    have hjk : j = k := c.handle_injective (by simpa [hp, Phase.wakes] using hwakes)
    rw [hjk]
  | _ => simp [hp, Phase.wakes] at hwakes

/-- The reactor wakes a task. -/
theorem inv_wake (h : Inv c s) (hwakes : s.phase.wakes (c.handle k) = true) :
    Inv c (fire c s (.wake k)) := by
  have hph := h.phase_of_wakes hwakes
  simp only [fire, hph, wakeNext, State.update]
  refine ⟨fun j => ?_, by simp, by simp⟩
  by_cases hj : j = k
  · subst hj
    have := sleepInv_wake (h.sleeps j) (by simp [State.view, hph])
    simpa [State.view, hph] using this
  · have hne : c.handle j ≠ c.handle k := fun he => hj (c.handle_injective he)
    have := h.sleeps j
    simpa [State.view, hph, Function.update_of_ne hj, Ne.symm hne] using this

theorem inv_step {l : Label κ} (htime : ∀ k, c.time k < 2 ^ 63) (h : Inv c s)
    (hen : Enabled c s l) : Inv c (fire c s l) := by
  cases l with
  | tick => exact ⟨fun k => sleepInv_tick (h.sleeps k), h.waking, h.no_panic⟩
  | sleep k =>
    simp only [fire]
    refine h.update ?_
    exact sleepInv_call (h.sleeps k) hen
  | poll k =>
    simp only [fire]
    refine h.update ?_
    exact sleepInv_poll (h.sleeps k) hen.1 hen.2
  | access k => exact inv_access (htime k) h hen
  | expire k =>
    simp only [fire]
    refine h.update ?_
    exact sleepInv_expire (h.sleeps k) hen
  | start => exact inv_start h hen
  | receive k => exact inv_receive h hen.1 hen.2
  | reply =>
    simp only [fire]
    split
    · exact inv_reply h ‹_›
    · exact h
  | signal k => exact inv_signal h hen.1 hen.2.1 hen.2.2
  | wake k => exact inv_wake h hen

theorem inv_init : Inv c (system c).init where
  sleeps k := by
    refine ⟨by simp [State.view, system], by simp [State.view, system], .inl ?_, ?_, ?_, ?_, ?_, ?_,
      ?_, ?_, ?_⟩ <;>
      simp [State.view, system, Server.new, Timer.expiry?, Timer.isSpent]
  waking := by simp [system]
  no_panic := by simp [system]

theorem inv_reachable (htime : ∀ k, c.time k < 2 ^ 63) (h : (system c).Reachable s) : Inv c s :=
  h.invariant inv_init fun _ _ _ hi hen _ => inv_step htime hi hen

end Runs

/-! ### What a sleep promises -/

/-- Nothing is left to do for the kernel and the reactor: it waits, no request is pending, no timer
is due, and no timer it waits for is signalled. -/
structure Settled (c : Config κ) (s : State κ) : Prop where
  waiting : s.phase = .waiting
  answered : ∀ k, (s.sleeps k).pc ≠ .blocked
  expired : ∀ k, (s.sleeps k).kernel.due s.now = false
  handled : ∀ k, c.handle k ∈ s.server.handles → (s.sleeps k).kernel.isSignalled = false

/-- **What a sleep promises.** -/
structure Sound (c : Config κ) (s : State κ) : Prop where
  /-- A sleep is never over before the time it was asked for has passed. -/
  never_early : ∀ k n, .ready n ∈ (s.sleeps k).log →
    ∃ m, .called m ∈ (s.sleeps k).log ∧ m + c.time k ≤ n
  woken_once : ∀ k, (s.sleeps k).log.countP Event.isWoke ≤ 1
  /-- Its task, and no other, is woken, and not before the deadline plus the time that passed
  between the reading of the clock and the arming of the timer. -/
  woken_late : ∀ k t n, .woke t n ∈ (s.sleeps k).log → t = c.task k ∧
    ∃ m cur a, .called m ∈ (s.sleeps k).log ∧ .armed cur a ∈ (s.sleeps k).log ∧ cur ≤ a ∧
      m + c.time k + (a - cur) ≤ n
  /-- The poll that the wake leads to is ready. -/
  elapsed : ∀ k t n, .woke t n ∈ (s.sleeps k).log → (readClock s.now (s.sleeps k)).pc = .ready
  /-- Once kernel and reactor are settled, a pending sleep whose timer has run out was woken. -/
  served : Settled c s → ∀ k, (s.sleeps k).timer ≠ none → ∃ e,
    (s.sleeps k).kernel.expiry? = some e ∧ (e ≤ s.now → ∃ t n, .woke t n ∈ (s.sleeps k).log)
  no_panic : s.phase ≠ .panicked

section Sound

variable {c : Config κ} {s : State κ}

/-- A timer runs out after the deadline. -/
theorem SleepInv.deadline_le {task : TaskToken} {time : ℕ} {v : View} (h : SleepInv task time v)
    {e : ℕ} (he : v.sleep.kernel.expiry? = some e) :
    ∃ d m cur a, v.sleep.deadline = some d ∧ .called m ∈ v.sleep.log ∧ d = m + time ∧
      .armed cur a ∈ v.sleep.log ∧ cur ≤ a ∧ e + cur = d + a := by
  obtain ⟨d, cur, a, hd, ha, -, hle, heq⟩ := h.armed e he
  obtain ⟨m, hm, hdm, -⟩ := h.called d hd
  exact ⟨d, m, cur, a, hd, hm, hdm, ha, hle, heq⟩

theorem Timer.exists_of_isSpent {t : Timer} (h : t.isSpent = true) : ∃ e, t = .spent e := by
  cases t <;> first | exact ⟨_, rfl⟩ | cases h

/-- A wake comes after the timer has run out, and so after the deadline. -/
theorem SleepInv.elapsed {task t : TaskToken} {time n : ℕ} {v : View} (h : SleepInv task time v)
    (hm : .woke t n ∈ v.sleep.log) : ∃ d, v.sleep.deadline = some d ∧ d ≤ v.now := by
  have hpos : 0 < v.sleep.log.countP Event.isWoke := List.countP_pos_iff.2 ⟨_, hm, rfl⟩
  have hansw := h.answered
  have hspent : v.sleep.kernel.isSpent = true := by
    cases hs : v.sleep.kernel.isSpent with
    | true => rfl
    | false =>
      rw [hs] at hansw
      exact absurd hansw (by simp only [Bool.toNat_false]; omega)
  obtain ⟨e, hk⟩ := Timer.exists_of_isSpent hspent
  have he : v.sleep.kernel.expiry? = some e := by rw [hk]; rfl
  obtain ⟨d, -, cur, a, hd, -, -, -, hcur, heq⟩ := h.deadline_le he
  have hnow := h.past e (.inr hk)
  exact ⟨d, hd, by omega⟩

/-- A timer that is spent has been answered, unless the reactor is at it. -/
theorem SleepInv.exists_woke {task : TaskToken} {time : ℕ} {v : View} (h : SleepInv task time v)
    (hspent : v.sleep.kernel.isSpent = true) (hwaking : v.waking = false) :
    ∃ t n, .woke t n ∈ v.sleep.log := by
  have hansw := h.answered
  rw [hspent, hwaking] at hansw
  have hpos : 0 < v.sleep.log.countP Event.isWoke := by
    simp only [Bool.toNat_false, Bool.toNat_true] at hansw
    omega
  obtain ⟨e, hm, he⟩ := List.countP_pos_iff.1 hpos
  cases e <;> first | exact ⟨_, _, hm⟩ | cases he

omit [DecidableEq κ] in
/-- A timer that has run out, and that is settled, is spent. -/
theorem Settled.spent {k : κ} {e : ℕ} (h : Settled c s) (hk : c.handle k ∈ s.server.handles)
    (he : (s.sleeps k).kernel.expiry? = some e) (hle : e ≤ s.now) :
    (s.sleeps k).kernel.isSpent = true := by
  have hdue := h.expired k
  have hsig := h.handled k hk
  cases hkernel : (s.sleeps k).kernel with
  | armed e' =>
    obtain rfl : e' = e := by simpa [hkernel, Timer.expiry?] using he
    simp [hkernel, Timer.due, hle] at hdue
  | signalled e' => simp [hkernel, Timer.isSignalled] at hsig
  | spent e' => rfl
  | _ => simp [hkernel, Timer.expiry?] at he

/-- A sleep that has stored its timer is waited for. -/
theorem SleepInv.listed_of_timer {task : TaskToken} {time : ℕ} {v : View}
    (h : SleepInv task time v) (ht : v.sleep.timer ≠ none) :
    v.listed = true ∧ ∃ e, v.sleep.kernel.expiry? = some e := by
  have hp := h.pc
  unfold PcInv at hp
  have hboth : v.sleep.kernel.expiry?.isSome = true ∧ v.listed = true := by
    cases hpc : v.sleep.pc with
    | idle | read | ready =>
      rw [hpc] at hp
      exact (hp.resolve_left fun hl => ht hl.1).2
    | _ =>
      rw [hpc] at hp
      exact absurd hp.1 ht
  exact ⟨hboth.2, Option.isSome_iff_exists.1 hboth.1⟩

/-- **A sleep is never early, and its task is woken exactly once, when the timer has run out.**  In
every run in which no sleep is asked for `2 ^ 63` nanoseconds or more, whatever the clock does
between the steps and in whatever order requests, signals and polls arrive. -/
theorem sleeps_sound (htime : ∀ k, c.time k < 2 ^ 63) (h : (system c).Reachable s) : Sound c s := by
  have hi := inv_reachable htime h
  refine ⟨fun k n hn => ?_, fun k => ?_, fun k t n hm => ?_, fun k t n hm => ?_,
    fun hset k hk => ?_, hi.no_panic⟩
  · obtain ⟨d, hd, hle⟩ := (hi.sleeps k).ready n hn
    obtain ⟨m, hm, rfl, -⟩ := (hi.sleeps k).called d hd
    exact ⟨m, hm, hle⟩
  · have hansw := (hi.sleeps k).answered
    have hspent := Bool.toNat_le (s.sleeps k).kernel.isSpent
    change (s.sleeps k).log.countP Event.isWoke + _ = (s.sleeps k).kernel.isSpent.toNat at hansw
    omega
  · obtain ⟨ht, e, he, hle⟩ := (hi.sleeps k).woke t n hm
    obtain ⟨d, m, cur, a, -, hcalled, rfl, ha, hcur, heq⟩ := (hi.sleeps k).deadline_le he
    exact ⟨ht, m, cur, a, hcalled, ha, hcur, by omega⟩
  · obtain ⟨d, hd, hle⟩ := (hi.sleeps k).elapsed hm
    have hd : (s.sleeps k).deadline = some d := hd
    have hle : d ≤ s.now := hle
    simp [readClock, hd, hle]
  · obtain ⟨hlisted, e, he⟩ := (hi.sleeps k).listed_of_timer hk
    refine ⟨e, he, fun hle => ?_⟩
    have hspent := hset.spent (by simpa [State.view] using hlisted) he hle
    exact (hi.sleeps k).exists_woke hspent (by simp [State.view, hset.waiting])

end Sound

/-- Two tasks, which sleep for 3 and for 5 nanoseconds. -/
def twoSleeps : Config (Fin 2) where
  task k := ⟨UInt32.ofNat k⟩
  handle k := UInt32.ofNat (k + 40)
  handle_injective := by
    intro j k
    revert j k
    decide
  time k := 2 * k + 3

/-- The first task is preempted for two nanoseconds between the clock and its timer, and is woken
two nanoseconds late; the second one is still asleep. -/
theorem sleeps_sound_two : ∃ s : State (Fin 2), (system twoSleeps).Reachable s ∧
    .woke ⟨0⟩ 5 ∈ (s.sleeps 0).log ∧ .ready 6 ∈ (s.sleeps 0).log ∧ (s.sleeps 1).timer ≠ none ∧
    Sound twoSleeps s := by
  obtain ⟨s, hs, h₀, h₁, h₂⟩ := LTS.exists_of_exec (system twoSleeps) (fun _ _ => True)
    [.start, .sleep 0, .poll 0, .access 0, .access 0, .tick, .tick, .access 0, .access 0,
      .receive 0, .reply, .access 0, .sleep 1, .poll 1, .access 1, .access 1, .access 1, .access 1,
      .receive 1, .reply, .access 1, .tick, .tick, .tick, .expire 0, .signal 0, .wake 0, .tick,
      .poll 0, .access 0]
    (fun s : State (Fin 2) => .woke ⟨0⟩ 5 ∈ (s.sleeps 0).log ∧ .ready 6 ∈ (s.sleeps 0).log ∧
      (s.sleeps 1).timer ≠ none) (by decide)
  exact ⟨s, hs, h₀, h₁, h₂, sleeps_sound (by decide) hs⟩

/-! ### Before the reactor thread has run -/

/-- Nobody waits for anything before the reactor has started. -/
theorem server_of_starting {c : Config κ} {s : State κ} (h : (system c).Reachable s) :
    s.phase = .starting → s.server = .new := by
  refine h.invariant (I := fun s => s.phase = .starting → s.server = .new) (fun _ => rfl) ?_
  intro s l _ hi hen _
  change (fire c s l).phase = .starting → (fire c s l).server = .new
  cases l with
  | start => simp [fire]
  | receive k => simp [fire, Server.handleRequest]
  | reply =>
    simp only [fire]
    split
    · simp
    · exact hi
  | signal k =>
    simp only [fire, State.update]
    split
    · rename_i tokens _ _
      cases tokens <;> simp [wakeNext]
    · simp
  | wake k =>
    simp only [fire, State.update]
    split
    · rename_i tokens _
      cases tokens <;> simp [wakeNext]
    · exact hi
  | _ => exact hi

/-- The accesses of one poll that gets as far as its request. -/
def pollRun (k : κ) : List (Label κ) := [.poll k, .access k, .access k, .access k, .access k]

/-- An access of a poll, with everything else as it was in `s`. -/
theorem exec_access (c : Config κ) (s : State κ) {k : κ} {f : Sleep} (hact : f.pc.active = true)
    (ls : List (Label κ)) :
    (system c).exec (fun _ _ => True) (s.update k fun _ => f) (.access k :: ls) =
      (system c).exec (fun _ _ => True) (s.update k fun _ => access c s k f) ls := by
  have hk : (s.update k fun _ => f).sleeps k = f := Function.update_self ..
  have hen : (system c).Enabled (s.update k fun _ => f) (.access k) := by
    rw [← hk] at hact
    exact hact
  have hfire : (system c).fire (s.update k fun _ => f) (.access k) =
      s.update k fun _ => access c s k f := by
    simp [system, fire, State.update, access]
  rw [LTS.exec, if_pos ⟨hen, trivial⟩, hfire]

/-- **A sleep that is polled before the reactor thread has run panics.**  The port is set by the
thread itself, and nobody waits for it: until then the next poll of a sleep that is not over runs
into `REACTOR_PORT.get().unwrap()`. -/
theorem panics_before_start {c : Config κ} {s : State κ} (htime : ∀ k, c.time k < 2 ^ 63)
    (h : (system c).Reachable s) (hph : s.phase = .starting) {k : κ} {d : ℕ}
    (hidle : (s.sleeps k).pc = .idle) (hd : (s.sleeps k).deadline = some d) (hlt : s.now < d) :
    ∃ s', (system c).exec (fun _ _ => True) s (pollRun k) = some s' ∧ s'.now = s.now ∧
      (s'.sleeps k).pc = .panicked ∧ ∀ j, j ≠ k → s'.sleeps j = s.sleeps j := by
  have hi := inv_reachable htime h
  have hserver := server_of_starting h hph
  have htimer : (s.sleeps k).timer = none := by
    by_contra hne
    have := ((hi.sleeps k).listed_of_timer hne).1
    simp [State.view, hserver, Server.new] at this
  have hpoll : (system c).Enabled s (.poll k) := ⟨hidle, by simp [hd]⟩
  -- the clock, `svcCreateTimer`, `svcSetTimer`, and the missing port
  have hread : access c s k { s.sleeps k with pc := .read } =
      { s.sleeps k with pc := .create s.now } := by
    simp [access, readClock, hd, htimer, Nat.not_le.2 hlt]
  have hcreate : access c s k { s.sleeps k with pc := .create s.now } =
      { s.sleeps k with pc := .arm s.now, kernel := .stopped } := rfl
  have harm : access c s k { s.sleeps k with pc := .arm s.now, kernel := .stopped } =
      armTimer s.now s.now { s.sleeps k with pc := .arm s.now, kernel := .stopped } := rfl
  have hrequest (f : Sleep) (hpc : f.pc = .request) :
      access c s k f = { f with pc := .panicked } := by
    simp [access, hpc, hph]
  refine ⟨s.update k fun _ => { armTimer s.now s.now
    { s.sleeps k with pc := .arm s.now, kernel := .stopped } with pc := .panicked }, ?_, rfl, ?_,
    fun j hj => Function.update_of_ne hj ..⟩
  · rw [pollRun, LTS.exec, if_pos ⟨hpoll, trivial⟩]
    change (system c).exec _ (s.update k fun _ => { s.sleeps k with pc := .read }) _ = _
    rw [exec_access c s rfl, hread, exec_access c s rfl, hcreate, exec_access c s rfl, harm,
      exec_access c s rfl, hrequest _ rfl, LTS.exec]
  · simp [State.update]

/-- The first of two sleeps is called at once. -/
theorem panics_before_start_first : ∃ s s' : State (Fin 2), (system twoSleeps).Reachable s ∧
    (system twoSleeps).exec (fun _ _ => True) s (pollRun 0) = some s' ∧
    (s'.sleeps 0).pc = .panicked := by
  obtain ⟨s, hs, hph, hidle, hd, hnow⟩ := LTS.exists_of_exec (system twoSleeps) (fun _ _ => True)
    [.sleep 0] (fun s : State (Fin 2) => s.phase = .starting ∧ (s.sleeps 0).pc = .idle ∧
      (s.sleeps 0).deadline = some 3 ∧ s.now < 3) (by decide)
  obtain ⟨s', hs', -, hpc, -⟩ := panics_before_start (by decide) hs hph hidle hd hnow
  exact ⟨s, s', hs, hs', hpc⟩

end Reactor

end BunnyDs
