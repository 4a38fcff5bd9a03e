import BunnyDs.Executor.Polls
import BunnyDs.LTS.Ranking

/-!
# The executor does not spin

Two bounds on what `ExecutorHandler::run` does.

* `Executor.comes_to_rest` : **left alone, the executor stops.**  While nobody spawns or wakes and
  every poll returns, it takes at most `State.work` steps before it blocks; and when it blocks,
  every future whose spawn has returned was polled, and every wake call that came after a poll of
  its task and has returned was answered by another one.
* `Executor.polls_paid` : **every poll is paid for.**  A future is polled at most once more than
  tokens were pushed for it: there is no poll without a spawn or a wake call of its own.
-/

namespace BunnyDs

namespace Executor

variable {F W : Type*}

/-- The step is one of the executor's, polls included. -/
def Label.own : Label F W → Bool
  | .wait | .remove | .poll | .finish _ => true
  | .pushTask _ | .releaseTask _ | .pushWake _ | .releaseWake _ => false

/-- How many steps are left until the next `remove`. -/
def Phase.left : Phase F W → ℕ
  | .waiting => 0
  | .draining _ => 1
  | .initialPoll .. | .wakePoll .. => 2
  | .spawning _ | .waking _ => 3

/-- The steps that the executor has to take at most: three for each value in a queue, and two for
each count that makes it look at one. -/
def State.work (s : State F W) : ℕ :=
  3 * (s.taskQueue.queue.vals.length + s.wakeQueue.queue.vals.length) +
    2 * (s.taskQueue.queue.sem.count + s.wakeQueue.queue.sem.count) + s.phase.left

variable [DecidableEq F] [DecidableEq W] {token : W → TaskToken} {s : State F W}

theorem length_of_back? {α : Type*} {c : Channel α} {v : α} (h : c.queue.back? = some v) :
    c.queue.vals.length = c.remove.queue.vals.length + 1 := by
  rw [SyncQueue.vals_eq_of_back? h]
  simp

omit [DecidableEq F] [DecidableEq W] in
theorem work_remove (q : Which) (hph : s.phase = .draining q) : (remove s q).work < s.work := by
  cases q with
  | task =>
    simp only [remove]
    split
    · rename_i fut hback
      have := length_of_back? hback
      simp only [State.work, hph, Phase.left, Channel.remove_queue, SyncQueue.popBack_sem] at this ⊢
      omega
    · simp only [State.work, hph, Phase.left]
      omega
  | wake =>
    simp only [remove]
    split
    · rename_i w hback
      have := length_of_back? hback
      simp only [State.work, hph, Phase.left, Channel.remove_queue, SyncQueue.popBack_sem] at this ⊢
      omega
    · simp only [State.work, hph, Phase.left]
      omega

/-- Every step of the executor leaves it with less to do. -/
theorem ranks_work (token : W → TaskToken) :
    (system (F := F) token).Ranks Label.own State.work := by
  intro s l hen hown
  cases l with
  | wait =>
    obtain ⟨hph, hcount⟩ := hen
    have hleft : s.phase.left = 0 := by rw [hph]; rfl
    simp only [system, fire, waitN]
    split_ifs with hpos
    · simp only [State.work, Phase.left, Channel.wait_queue, SyncQueue.wait_vals,
        SyncQueue.wait_sem, Semaphore.acquire_count]
      omega
    · simp only [State.work, Phase.left, Channel.wait_queue, SyncQueue.wait_vals,
        SyncQueue.wait_sem, Semaphore.acquire_count]
      omega
  | remove =>
    have hen : s.phase.isDraining = true := hen
    cases hph : s.phase with
    | draining q =>
      simp only [system, fire, hph]
      exact work_remove q hph
    | _ => simp [hph, Phase.isDraining] at hen
  | poll =>
    have hen : s.phase.beforePoll = true := hen
    cases hph : s.phase with
    | spawning fut => simp [system, fire, hph, spawn, State.work, Phase.left]
    | waking w =>
      simp only [system, fire, hph, wake]
      split <;> simp [State.work, Phase.left, hph]
    | _ => simp [hph, Phase.beforePoll] at hen
  | finish b =>
    have hen : s.phase.isPoll = true := hen
    cases hph : s.phase with
    | initialPoll key fut => simp [system, fire, hph, finishSpawn, State.work, Phase.left]
    | wakePoll key fut => simp [system, fire, hph, finishWake, State.work, Phase.left]
    | _ => simp [hph, Phase.isPoll] at hen
  | _ => cases hown

/-- An executor that has no step to take is blocked, with both counts at zero. -/
theorem blocked_of_idle (h : (system token).Idle Label.own s) :
    s.phase = .waiting ∧ s.taskQueue.queue.sem.count = 0 ∧ s.wakeQueue.queue.sem.count = 0 := by
  have hwait := h .wait rfl
  have hph : s.phase = .waiting := by
    cases hph : s.phase with
    | waiting => rfl
    | draining q => exact absurd (by simp [system, Enabled, hph, Phase.isDraining]) (h .remove rfl)
    | spawning fut | waking w =>
      exact absurd (by simp [system, Enabled, hph, Phase.beforePoll]) (h .poll rfl)
    | initialPoll key fut | wakePoll key fut =>
      exact absurd (by simp [system, Enabled, hph, Phase.isPoll]) (h (.finish true) rfl)
  simp only [system, Enabled, hph, true_and, not_or, Nat.not_lt, Nat.le_zero] at hwait
  exact ⟨hph, hwait⟩

/-- **No work is left**: a future whose spawn has returned was polled, and a token that was pushed
after a poll of its future began, by a call that has returned, was followed by another poll. -/
structure Served (token : W → TaskToken) (s : State F W) : Prop where
  blocked : s.phase = .waiting
  spawned : ∀ fut, s.taskQueue.adds fut = .returned → .began fut ∈ s.log
  woken : ∀ fut w, s.tasks (token w) = some fut → s.wakeQueue.adds w = .returned →
    Log.Before (.began fut) (.pushed w) s.log → Log.Before (.pushed w) (.began fut) s.log

theorem served_of_idle (hi : Inv token s) (h : (system token).Idle Label.own s) :
    Served token s := by
  obtain ⟨hph, htasks, hwakes⟩ := blocked_of_idle h
  have hb : s.phase.beforePoll = false := by rw [hph]; rfl
  refine ⟨hph, fun fut hret => ?_, fun fut w hlive hret hbefore => ?_⟩
  · have hadds : s.taskQueue.adds fut ≠ .idle := by rw [hret]; exact AddPhase.noConfusion
    refine (hi.queued_or_began hb hadds).resolve_left fun hm => ?_
    have hawake := hi.task_awake (by rw [hph]; rfl)
    rw [hawake.pushed htasks hm] at hret
    cases hret
  · refine (hi.queued_or_polled hb (.inl hlive) hbefore).resolve_left fun hm => ?_
    have hawake := hi.wake_awake (by rw [hph]; rfl)
    rw [hawake.pushed hwakes hm] at hret
    cases hret

/-- **Left alone, the executor comes to rest**, from every state of every run: it takes at most
`work` steps, it can go on until it blocks, and when it blocks no work is left. -/
theorem comes_to_rest (h : (system token).Reachable s) :
    (∀ n s', (system token).Runs Label.own s n s' → n + s'.work ≤ s.work) ∧
    (∃ n s', (system token).Runs Label.own s n s' ∧ (system token).Idle Label.own s') ∧
    ∀ n s', (system token).Runs Label.own s n s' → (system token).Idle Label.own s' →
      Served token s' := by
  refine ⟨fun n s' hruns => (ranks_work token).add_le hruns, (ranks_work token).exists_idle s,
    fun n s' hruns hidle => ?_⟩
  exact served_of_idle (inv_reachable (hruns.reachable h)) hidle

/-- A future was spawned: the executor has a step for the count and three for the future. -/
theorem comes_to_rest_one : ∃ s : State (Fin 1) Empty, (system Empty.elim).Reachable s ∧
    s.work = 5 ∧ ∀ n s', (system Empty.elim).Runs Label.own s n s' →
      (system Empty.elim).Idle Label.own s' → Served Empty.elim s' := by
  obtain ⟨s, hs, hwork⟩ := LTS.exists_of_exec (system Empty.elim) (fun _ _ => True)
    [.pushTask 0, .releaseTask 0] (fun s : State (Fin 1) Empty => s.work = 5) (by decide)
  exact ⟨s, hs, hwork, (comes_to_rest hs).2.2⟩

/-! ### Polls are paid for -/

omit [DecidableEq F] [DecidableEq W] in
/-- The event is a push of the token `task`. -/
def Event.isPushOf (token : W → TaskToken) (task : TaskToken) : Event F W → Bool
  | .pushed w => token w = task
  | .began _ | .polled .. => false

/-- The executor has taken the future, or a token of it, off its queue and not looked at it yet. -/
def Phase.inHand (token : W → TaskToken) (task : TaskToken) (fut : F) : Phase F W → ℕ
  | .spawning fut' => if fut' = fut then 1 else 0
  | .waking w => if token w = task then 1 else 0
  | _ => 0

/-- What the executor still has to do for a future: a spawn, and wakes of its token. -/
def State.due (token : W → TaskToken) (task : TaskToken) (fut : F) (s : State F W) : ℕ :=
  s.taskQueue.queue.vals.count fut + s.wakeQueue.queue.vals.countP (fun w => token w = task) +
    s.phase.inHand token task fut

/-- The number of times a future was spawned. -/
def spawns : AddPhase → ℕ
  | .idle => 0
  | .pushed | .returned => 1

/-- **The account of a future**: the polls so far and those that are due are covered by its spawn
and the tokens pushed for it. -/
def Account (token : W → TaskToken) (task : TaskToken) (fut : F) (s : State F W) : Prop :=
  s.log.count (.began fut) + s.due token task fut ≤
    s.log.countP (Event.isPushOf token task) + spawns (s.taskQueue.adds fut)

variable {task : TaskToken} {fut : F}

theorem account_pushTask {x : F} (h : Account token task fut s) (hen : s.taskQueue.adds x = .idle) :
    Account token task fut { s with taskQueue := s.taskQueue.push x } := by
  simp only [Account, State.due, Channel.push_queue hen, Channel.push_adds hen,
    SyncQueue.pushBack_vals, List.count_append] at h ⊢
  by_cases hx : fut = x
  · subst hx
    simp only [hen, spawns, Function.update_self, List.count_singleton_self] at h ⊢
    omega
  · rw [Function.update_of_ne hx, List.count_singleton]
    simp only [beq_iff_eq, Ne.symm hx, if_false]
    omega

theorem account_releaseTask {x : F} (h : Account token task fut s)
    (hen : s.taskQueue.adds x = .pushed) :
    Account token task fut { s with taskQueue := s.taskQueue.release x } := by
  simp only [Account, State.due, Channel.release_queue, Channel.release_adds,
    SyncQueue.release_vals] at h ⊢
  by_cases hx : fut = x
  · subst hx
    simpa [hen, spawns] using h
  · rwa [Function.update_of_ne hx]

theorem account_pushWake {w : W} (h : Account token task fut s) (hen : s.wakeQueue.adds w = .idle) :
    Account token task fut
      { s with wakeQueue := s.wakeQueue.push w, log := .pushed w :: s.log } := by
  simp only [Account, State.due, Channel.push_queue hen, SyncQueue.pushBack_vals,
    List.countP_append] at h ⊢
  rw [List.count_cons_of_ne (by simp)]
  simp only [List.countP_cons, List.countP_nil, Event.isPushOf]
  by_cases hw : token w = task
  · simp only [hw, decide_true, if_true]
    omega
  · simp only [hw, decide_false, Bool.false_eq_true, if_false]
    omega

theorem account_remove {q : Which} (h : Account token task fut s) (hph : s.phase = .draining q) :
    Account token task fut (remove s q) := by
  have hzero : s.phase.inHand token task fut = 0 := by rw [hph]; rfl
  cases q with
  | task =>
    simp only [remove]
    split
    · rename_i x hback
      have hvals := SyncQueue.vals_eq_of_back? hback
      simp only [Account, State.due, hzero] at h
      rw [hvals, List.count_append, List.count_singleton] at h
      simp only [Account, State.due, Channel.remove_queue, Channel.remove_adds, Phase.inHand]
      simp only [beq_iff_eq] at h
      omega
    · simp only [Account, State.due, hzero] at h
      simpa [Account, State.due, Phase.inHand] using h
  | wake =>
    simp only [remove]
    split
    · rename_i w hback
      have hvals := SyncQueue.vals_eq_of_back? hback
      simp only [Account, State.due, hzero] at h
      rw [hvals, List.countP_append, List.countP_singleton] at h
      simp only [Account, State.due, Channel.remove_queue, Phase.inHand]
      simp only [decide_eq_true_eq] at h
      omega
    · simp only [Account, State.due, hzero] at h
      simpa [Account, State.due, Phase.inHand] using h

/-- The begin of a poll settles what the executor has in hand. -/
theorem account_began {x : F} {s' : State F W} (h : Account token task fut s)
    (htq : s'.taskQueue = s.taskQueue) (hwq : s'.wakeQueue = s.wakeQueue)
    (hlog : s'.log = .began x :: s.log) (hhand : s'.phase.inHand token task fut = 0)
    (hpaid : x = fut → s.phase.inHand token task fut = 1) : Account token task fut s' := by
  simp only [Account, State.due] at h ⊢
  rw [htq, hwq, hlog, hhand, List.countP_cons_of_neg (by simp [Event.isPushOf])]
  by_cases hx : x = fut
  · rw [hx, List.count_cons_self]
    have := hpaid hx
    omega
  · rw [List.count_cons_of_ne (by simpa using hx)]
    omega

/-- What is neither the begin of a poll nor a push leaves the account as it is. -/
theorem account_same {s' : State F W} (h : Account token task fut s)
    (htq : s'.taskQueue.queue.vals = s.taskQueue.queue.vals)
    (hadds : s'.taskQueue.adds = s.taskQueue.adds)
    (hwq : s'.wakeQueue.queue.vals = s.wakeQueue.queue.vals)
    (hbegan : s'.log.count (.began fut) = s.log.count (.began fut))
    (hpushed : s'.log.countP (Event.isPushOf token task) =
      s.log.countP (Event.isPushOf token task))
    (hhand : s'.phase.inHand token task fut = 0) : Account token task fut s' := by
  simp only [Account, State.due] at h ⊢
  rw [htq, hadds, hwq, hbegan, hpushed, hhand]
  omega

theorem account_step {tok : F → TaskToken} (hs : (system token).ReachableBy (Numbered tok) s)
    {l : Label F W} (h : Account token (tok fut) fut s) (hen : Enabled s l) :
    Account token (tok fut) fut (fire token s l) := by
  cases l with
  | pushTask x => exact account_pushTask h hen
  | releaseTask x => exact account_releaseTask h hen
  | pushWake w => exact account_pushWake h hen
  | releaseWake w => exact h
  | wait =>
    simp only [fire, waitN]
    split_ifs <;> exact account_same h rfl rfl rfl rfl rfl rfl
  | remove =>
    have hen : s.phase.isDraining = true := hen
    cases hph : s.phase with
    | draining q =>
      simp only [fire, hph]
      exact account_remove h hph
    | _ => simp [hph, Phase.isDraining] at hen
  | poll =>
    have hen : s.phase.beforePoll = true := hen
    cases hph : s.phase with
    | spawning x =>
      simp only [fire, hph]
      exact account_began h rfl rfl rfl rfl fun hx => by simp [hph, Phase.inHand, hx]
    | waking w =>
      simp only [fire, hph, wake]
      split
      · rename_i x hx
        refine account_began h rfl rfl rfl rfl fun he => ?_
        -- the map gives the future under its own token
        have htok : token w = tok fut := live_tok hs (.inl (he ▸ hx))
        simp [hph, Phase.inHand, htok]
      · exact account_same h rfl rfl rfl rfl rfl rfl
    | _ => simp [hph, Phase.beforePoll] at hen
  | finish b =>
    have hen : s.phase.isPoll = true := hen
    cases hph : s.phase with
    | initialPoll key x =>
      simp only [fire, hph, finishSpawn]
      exact account_same h rfl rfl rfl (List.count_cons_of_ne (by simp))
        (List.countP_cons_of_neg (by simp [Event.isPushOf])) rfl
    | wakePoll key x =>
      simp only [fire, hph, finishWake]
      exact account_same h rfl rfl rfl (List.count_cons_of_ne (by simp))
        (List.countP_cons_of_neg (by simp [Event.isPushOf])) rfl
    | _ => simp [hph, Phase.isPoll] at hen

/-- **Every poll is paid for**: in every run, a future was polled at most once more often than its
token was pushed, and those tokens that are still queued are not counted. -/
theorem polls_paid {tok : F → TaskToken} (h : (system token).ReachableBy (Numbered tok) s)
    (fut : F) :
    s.log.count (.began fut) + s.due token (tok fut) fut ≤
      s.log.countP (Event.isPushOf token (tok fut)) + 1 := by
  have haccount : Account token (tok fut) fut s := by
    refine h.invariant (I := Account token (tok fut) fut) ?_
      fun s l hs hi hen _ => account_step hs hi hen
    simp [Account, system, State.due, Phase.inHand]
  have hone : spawns (s.taskQueue.adds fut) ≤ 1 := by
    cases s.taskQueue.adds fut <;> simp [spawns]
  unfold Account at haccount
  omega

/-- A future that is spawned and woken once is polled twice. -/
theorem polls_paid_twice : ∃ s : State (Fin 1) (Fin 1),
    (system fun _ => ⟨0⟩).ReachableBy (Numbered fun _ => ⟨0⟩) s ∧ s.log.count (.began 0) = 2 ∧
      s.log.count (.began 0) + s.due (fun _ => ⟨0⟩) ⟨0⟩ 0 ≤
        s.log.countP (Event.isPushOf (fun _ => ⟨0⟩) ⟨0⟩) + 1 := by
  obtain ⟨s, hs, htwo⟩ := LTS.exists_of_exec (system fun _ => ⟨0⟩) (Numbered fun _ => ⟨0⟩)
    [.pushTask 0, .releaseTask 0, .wait, .remove, .poll, .finish false, .remove, .pushWake 0,
      .releaseWake 0, .wait, .remove, .poll, .finish false]
    (fun s : State (Fin 1) (Fin 1) => s.log.count (.began 0) = 2) (by decide)
  exact ⟨s, hs, htwo, polls_paid hs 0⟩

end Executor

end BunnyDs
