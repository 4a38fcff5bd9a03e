import BunnyDs.LTS.Leaves
import BunnyDs.Reactor.SleepRun
import Mathlib.Data.Fintype.Defs

/-!
# Sleeps as leaves

A `Sleep` waits for its timer to run out, which is as much after its deadline as the timer was armed
after the clock was read (`Reactor.Sound.woken_late`).  In the runs considered here the reactor
thread has set `REACTOR_PORT` by the time a sleep is first polled; `Reactor.panics_before_start` is
what happens otherwise.
-/

namespace BunnyDs

namespace Reactor

variable {κ : Type*} [DecidableEq κ]

/-- The status of a sleep. -/
def PollPc.status : PollPc → PollStatus
  | .idle => .idle
  | .ready => .ready
  | .read | .create _ | .arm _ | .request | .blocked | .store | .panicked => .polling

omit [DecidableEq κ] in
/-- The reactor has started when a sleep needs it. -/
def Started (s : State κ) : Label κ → Prop
  | .access k => (s.sleeps k).pc = .request → s.phase ≠ .starting
  | _ => True

instance (s : State κ) (l : Label κ) : Decidable (Started s l) :=
  match l with
  | .access k => inferInstanceAs (Decidable ((s.sleeps k).pc = .request → s.phase ≠ .starting))
  | .tick | .sleep _ | .poll _ | .expire _ | .start | .receive _ | .reply | .signal _ | .wake _ =>
    inferInstanceAs (Decidable True)

/-- The token that the reactor wakes next. -/
def Phase.token? : Phase κ → Option TaskToken
  | .waking _ (task :: _) => some task
  | _ => none

/-- The sleeps of a run, and their reactor. -/
def leaves (c : Config κ) : Leaves κ κ TaskToken (State κ) (Label κ) where
  sys := system c
  ok := Started
  access
    | .poll k | .access k => some k
    | .tick | .sleep _ | .expire _ | .start | .receive _ | .reply | .signal _ | .wake _ => none
  starts
    | .poll k => some k
    | .access _ | .tick | .sleep _ | .expire _ | .start | .receive _ | .reply | .signal _
    | .wake _ => none
  wake s
    | .wake k => s.phase.token?.map fun task => (k, task)
    | .poll _ | .access _ | .tick | .sleep _ | .expire _ | .start | .receive _ | .reply
    | .signal _ => none
  leaf k := k
  task := c.task
  status s k := (s.sleeps k).pc.status
  Fired s k := ∃ e ∈ (s.sleeps k).kernel.expiry?, e ≤ s.now
  Quiet := Settled c

instance decidableEnabled (c : Config κ) (s : State κ) (l : Label κ) :
    Decidable ((leaves c).sys.Enabled s l) :=
  inferInstanceAs (Decidable ((system c).Enabled s l))

instance decidableOk (c : Config κ) (s : State κ) (l : Label κ) :
    Decidable ((leaves c).ok s l) :=
  inferInstanceAs (Decidable (Started s l))

instance decidableQuiet [Fintype κ] (c : Config κ) (s : State κ) : Decidable ((leaves c).Quiet s) :=
  decidable_of_iff (s.phase = .waiting ∧ (∀ k, (s.sleeps k).pc ≠ .blocked) ∧
      (∀ k, (s.sleeps k).kernel.due s.now = false) ∧
      ∀ k, c.handle k ∈ s.server.handles → (s.sleeps k).kernel.isSignalled = false)
    ⟨fun h => ⟨h.1, h.2.1, h.2.2.1, h.2.2.2⟩,
      fun h => ⟨h.waiting, h.answered, h.expired, h.handled⟩⟩

variable {c : Config κ} {s : State κ} {t : Track κ κ} {f : Sleep} {k : κ}

/-- What the track says about one sleep: a pending poll has stored the timer; a sleep that was
woken, and is not over, was woken since its latest poll began, unless that poll is about to read the
clock; and the wake call is the reactor's. -/
structure SleepTracked (f : Sleep) (begun woken made : Bool) : Prop where
  stored : begun = true → f.pc = .idle → f.timer ≠ none
  woken : ∀ x n, .woke x n ∈ f.log → f.pc ≠ .read → f.pc ≠ .ready → woken = true
  made : made = true → ∃ x n, .woke x n ∈ f.log

/-- A step that is no wake and no poll. -/
theorem SleepTracked.move {f' : Sleep} {b w d : Bool} (h : SleepTracked f b w d)
    (hpc : f'.pc = f.pc) (htimer : f'.timer = f.timer)
    (hlog : ∀ x n, .woke x n ∈ f'.log ↔ .woke x n ∈ f.log) : SleepTracked f' b w d := by
  refine ⟨fun hb hi => ?_, fun x n hm => ?_, fun hm => ?_⟩
  · rw [htimer]
    exact h.stored hb (hpc ▸ hi)
  · rw [hpc]
    exact h.woken x n ((hlog x n).1 hm)
  · obtain ⟨x, n, hx⟩ := h.made hm
    exact ⟨x, n, (hlog x n).2 hx⟩

/-- An access of a poll, or the reply it waits for. -/
theorem SleepTracked.go {f' : Sleep} {b w d : Bool} (h : SleepTracked f b w d)
    (hread : f.pc ≠ .read) (hready : f.pc ≠ .ready) (hidle : f'.pc = .idle → f'.timer ≠ none)
    (hlog : ∀ x n, .woke x n ∈ f'.log ↔ .woke x n ∈ f.log) : SleepTracked f' b w d := by
  refine ⟨fun _ => hidle, fun x n hm _ _ => ?_, fun hm => ?_⟩
  · exact h.woken x n ((hlog x n).1 hm) hread hready
  · obtain ⟨x, n, hx⟩ := h.made hm
    exact ⟨x, n, (hlog x n).2 hx⟩

/-- A poll reads the clock: a sleep that was woken is over. -/
theorem SleepTracked.read {b w d : Bool} {task : TaskToken} {time : ℕ} {v : View}
    (h : SleepTracked v.sleep b w d) (hv : SleepInv task time v) (hpc : v.sleep.pc = .read) :
    SleepTracked (readClock v.now v.sleep) b w d := by
  have hcalled : v.sleep.deadline ≠ none := by
    intro hn
    rw [(hv.uncalled hn).1] at hpc
    cases hpc
  obtain ⟨e, he⟩ := Option.ne_none_iff_exists'.1 hcalled
  by_cases hle : e ≤ v.now
  · have hstep : readClock v.now v.sleep =
        { v.sleep with pc := .ready, log := .ready v.now :: v.sleep.log } := by
      simp [readClock, he, hle]
    rw [hstep]
    refine ⟨by simp, by simp, fun hm => ?_⟩
    obtain ⟨x, n, hx⟩ := h.made hm
    exact ⟨x, n, List.mem_cons_of_mem _ hx⟩
  · have hnot : ∀ x n, .woke x n ∉ v.sleep.log := by
      intro x n hm
      obtain ⟨e', he', hle'⟩ := hv.elapsed hm
      rw [he] at he'
      exact hle (Option.some.inj he' ▸ hle')
    cases htimer : v.sleep.timer with
    | none =>
      have hstep : readClock v.now v.sleep = { v.sleep with pc := .create v.now } := by
        simp [readClock, he, hle, htimer]
      rw [hstep]
      exact ⟨by simp, fun x n hm => absurd hm (hnot x n), h.made⟩
    | some x =>
      have hstep : readClock v.now v.sleep = { v.sleep with pc := .idle } := by
        simp [readClock, he, hle, htimer]
      rw [hstep]
      exact ⟨fun _ _ => by simp [htimer], fun x n hm => absurd hm (hnot x n), h.made⟩

/-- The track of all sleeps. -/
def Tracked (s : State κ) (t : Track κ κ) : Prop :=
  ∀ k, SleepTracked (s.sleeps k) (t.begun k) (t.woken k) (t.made k)

/-- A step of one sleep that the track does not show. -/
theorem Tracked.update (h : Tracked s t) {f : Sleep} {now : ℕ} {server : Server} {phase : Phase κ}
    (hf : SleepTracked f (t.begun k) (t.woken k) (t.made k)) :
    Tracked ⟨now, Function.update s.sleeps k f, server, phase⟩ t :=
  (Function.forall_update_iff s.sleeps
    fun j f => SleepTracked f (t.begun j) (t.woken j) (t.made j)).2 ⟨hf, fun j _ => h j⟩

theorem tracked_step {l : Label κ} (h : Tracked s t) (hi : Inv c s) (hen : Enabled c s l) :
    Tracked (fire c s l) ((leaves c).note s l t) := by
  cases l with
  | tick =>
    rw [Leaves.note_of_none rfl rfl]
    exact h
  | sleep k =>
    rw [Leaves.note_of_none rfl rfl]
    exact h.update ((h k).move rfl rfl (by simp))
  | poll k =>
    rw [Leaves.note_of_starts (k := k) rfl rfl]
    intro j
    by_cases hj : j = k
    · subst hj
      simpa [fire, State.update, Track.start] using
        (⟨by simp, by simp, (h j).made⟩ : SleepTracked { s.sleeps j with pc := .read } _ _ _)
    · simpa [fire, State.update, Track.start, Function.update_of_ne hj] using h j
  | access k =>
    rw [Leaves.note_of_none rfl rfl]
    refine h.update ?_
    have hk := h k
    cases hpc : (s.sleeps k).pc with
    | read =>
      simp only [access, hpc]
      exact SleepTracked.read (v := s.view c k) hk (hi.sleeps k) hpc
    | create cur =>
      simp only [access, hpc]
      exact hk.go (by simp [hpc]) (by simp [hpc]) (by simp) (by simp)
    | arm cur =>
      simp only [access, hpc, armTimer]
      exact hk.go (by simp [hpc]) (by simp [hpc]) (by simp) (by simp)
    | request =>
      simp only [access, hpc]
      refine hk.go (by simp [hpc]) (by simp [hpc]) (fun hp => ?_) (by simp)
      split_ifs at hp
    | store =>
      simp only [access, hpc]
      exact hk.go (by simp [hpc]) (by simp [hpc]) (by simp) (by simp)
    | _ => simp [Enabled, hpc, PollPc.active] at hen
  | expire k =>
    rw [Leaves.note_of_none rfl rfl]
    exact h.update ((h k).move rfl rfl (by simp))
  | start =>
    rw [Leaves.note_of_none rfl rfl]
    exact h
  | receive k =>
    rw [Leaves.note_of_none rfl rfl]
    exact h
  | reply =>
    rw [Leaves.note_of_none rfl rfl]
    simp only [fire]
    split
    · rename_i k hph
      have hpc : (s.sleeps k).pc = .blocked := (hi.sleeps k).replying (by simp [State.view, hph])
      exact h.update ((h k).go (by simp [hpc]) (by simp [hpc]) (by simp) (by simp))
    · exact h
  | signal k =>
    rw [Leaves.note_of_none rfl rfl]
    have hk : SleepTracked { s.sleeps k with kernel := (s.sleeps k).kernel.reset } (t.begun k)
        (t.woken k) (t.made k) := (h k).move rfl rfl (by simp)
    simp only [fire, State.update]
    split <;> exact h.update hk
  | wake k =>
    have hph := hi.phase_of_wakes hen
    have hcall : (leaves c).wake s (.wake k) = some (k, c.task k) := by
      simp [leaves, hph, Phase.token?]
    rw [Leaves.note_of_wake rfl hcall]
    simp only [fire, hph, State.update]
    intro j
    by_cases hj : j = k
    · subst hj
      have hk : SleepTracked { s.sleeps j with log := .woke (c.task j) s.now :: (s.sleeps j).log }
          (t.begun j) true true :=
        ⟨(h j).stored, fun _ _ _ _ _ => rfl, fun _ => ⟨_, _, List.mem_cons_self ..⟩⟩
      simpa [Track.notify, leaves] using hk
    · simpa [Track.notify, leaves, Function.update_of_ne hj] using h j

theorem inv_run (htime : ∀ k, c.time k < 2 ^ 63) (h : (leaves c).Run s t) : Inv c s :=
  inv_reachable htime h.reachableBy.reachable

theorem tracked_run (htime : ∀ k, c.time k < 2 ^ 63) (h : (leaves c).Run s t) : Tracked s t := by
  refine h.invariant (fun k => ?_) fun s t l hs ht hen _ => tracked_step ht (inv_run htime hs) hen
  exact ⟨by simp [Track.new], by simp [leaves, system], by simp [Track.new]⟩

/-- A sleep whose latest poll was pending is waited for, by a timer that runs. -/
theorem Tracked.listed (h : Tracked s t) (hi : Inv c s) (hb : t.begun k = true)
    (hidle : (s.sleeps k).pc.status = .idle) : c.handle k ∈ s.server.handles ∧
      (s.sleeps k).pc = .idle ∧ ∃ e, (s.sleeps k).kernel.expiry? = some e := by
  have hpc : (s.sleeps k).pc = .idle := by
    cases hpc : (s.sleeps k).pc <;> simp_all [PollPc.status]
  obtain ⟨hlisted, hexpiry⟩ := (hi.sleeps k).listed_of_timer ((h k).stored hb hpc)
  exact ⟨by simpa [State.view] using hlisted, hpc, hexpiry⟩

/-- **Sleeps may be awaited.**  When the clock, the kernel and the reactor have settled, a sleep
whose latest poll was pending and whose timer has run out has been woken since that poll began. -/
theorem contract (htime : ∀ k, c.time k < 2 ^ 63) : (leaves c).Contract where
  access_of_starts l k hk := by
    cases l <;> simp_all [leaves]
  frame s t l k h hen _ hne := by
    have hi := inv_run htime h
    have hupdate : ∀ {j : κ} {f : Sleep}, (j = k → f.pc.status = (s.sleeps j).pc.status) →
        (Function.update s.sleeps j f k).pc.status = (s.sleeps k).pc.status := by
      intro j f hf
      by_cases hj : k = j
      · subst hj
        rw [Function.update_self, hf rfl]
      · rw [Function.update_of_ne hj]
    change ((fire c s l).sleeps k).pc.status = (s.sleeps k).pc.status
    cases l with
    | tick | start | receive j => rfl
    | sleep j | expire j => exact hupdate fun _ => rfl
    | poll j | access j => exact hupdate fun hj => absurd (congrArg some hj) hne
    | reply =>
      simp only [fire]
      split
      · rename_i j hph
        have hpc : (s.sleeps j).pc = .blocked := (hi.sleeps j).replying (by simp [State.view, hph])
        exact hupdate fun _ => by rw [hpc]; rfl
      · rfl
    | signal j =>
      simp only [fire, State.update]
      split <;> exact hupdate fun _ => rfl
    | wake j =>
      simp only [fire, State.update]
      split
      · exact hupdate fun _ => rfl
      · rfl
  token s t l k tok h hen _ hw := by
    have hi := inv_run htime h
    cases l with
    | wake j =>
      simp only [leaves, hi.phase_of_wakes hen] at hw
      obtain ⟨rfl, rfl⟩ := Prod.mk.inj (Option.some.inj hw)
      rfl
    | _ => cases hw
  once s t l k tok h hen _ hw := by
    have hi := inv_run htime h
    cases l with
    | wake j =>
      have hph := hi.phase_of_wakes hen
      simp only [leaves, hph] at hw
      obtain ⟨rfl, -⟩ := Prod.mk.inj (Option.some.inj hw)
      rw [Bool.eq_false_iff]
      intro hm
      -- the reactor is about to wake the task, so it has not done so before
      obtain ⟨x, n, hx⟩ := (tracked_run htime h j).made hm
      have hpos : 0 < (s.sleeps j).log.countP Event.isWoke := List.countP_pos_iff.2 ⟨_, hx, rfl⟩
      have hansw := (hi.sleeps j).answered
      have hwaking : (s.view c j).waking = true := by simp [State.view, hph]
      have hle := Bool.toNat_le (s.view c j).sleep.kernel.isSpent
      rw [hwaking] at hansw
      change (s.sleeps j).log.countP Event.isWoke + 1 = _ at hansw
      omega
    | _ => cases hw
  answered s t k h hq hb hst hf := by
    have hi := inv_run htime h
    have ht := tracked_run htime h
    obtain ⟨hlisted, hidle, -⟩ := ht.listed hi hb hst
    obtain ⟨e, he, hle⟩ := hf
    have hspent := hq.spent hlisted he hle
    obtain ⟨x, n, hx⟩ := (hi.sleeps k).exists_woke hspent (by simp [State.view, hq.waiting])
    exact (ht k).woken x n hx (by simp [hidle]) (by simp [hidle])

end Reactor

end BunnyDs
