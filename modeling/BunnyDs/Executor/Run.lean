import BunnyDs.Kernel.Channel
import BunnyDs.LTS.Basic
import BunnyDs.LTS.Log

/-!
# The executor loop

`ExecutorHandler::run` waits on two semaphores, that of `TASK_QUEUE` (index 0) and that of
`WAKE_QUEUE` (index 1), and empties the whole queue whose semaphore it got.  Counts and queue
lengths drift apart: an `add` is two steps, one count stands for a whole drain, and a release at
255 is lost.  What survives is `Channel.Awake`, and it is enough.

`Executor.system token` runs the loop against any number of producers: the futures `F` are
spawned, the wake calls `W` each add the token `token w`.  Both halves of every `add` may fall
between any two steps of the executor, so calls made from inside a poll are included.

* `Executor.Inv` is the invariant that links counts, queues, the executor's place and its map;
  `Executor.PollsReturn` says that polls do not overlap.
* `Executor.no_sleep_over_work` : the executor never waits over pending work.
-/

namespace BunnyDs

namespace Executor

variable {F W : Type*}

/-- The two queues, in the order of `handles`. -/
inductive Which where
  /-- `TASK_QUEUE`. -/
  | task
  /-- `WAKE_QUEUE`. -/
  | wake
  deriving DecidableEq

/-- Where the executor is. -/
inductive Phase (F W : Type*) where
  /-- In `svcWaitSynchronizationN`. -/
  | waiting
  /-- Before a `remove` of the drain loop over this queue. -/
  | draining (q : Which)
  /-- `spawn`, before the initial poll. -/
  | spawning (fut : F)
  /-- `wake` for the token of this call, before the lookup. -/
  | waking (w : W)
  /-- `spawn`: inside the initial poll. -/
  | initialPoll (taskKey : TaskToken) (fut : F)
  /-- `wake`: inside the poll. -/
  | wakePoll (task : TaskToken) (fut : F)
  deriving DecidableEq

/-- The drain loop over `q` is under way. -/
def Phase.worksOn (q : Which) : Phase F W → Bool
  | .waiting => false
  | .draining q' => q' = q
  | .spawning _ | .initialPoll _ _ => Which.task = q
  | .waking _ | .wakePoll _ _ => Which.wake = q

/-- The executor is in a drain loop, before a `remove`. -/
def Phase.isDraining : Phase F W → Bool
  | .draining _ => true
  | _ => false

/-- The executor is about to call `poll`. -/
def Phase.beforePoll : Phase F W → Bool
  | .spawning _ | .waking _ => true
  | _ => false

/-- The executor is inside `poll`. -/
def Phase.isPoll : Phase F W → Bool
  | .initialPoll _ _ | .wakePoll _ _ => true
  | _ => false

/-- The executor is inside a poll of `fut`. -/
def Phase.polls [DecidableEq F] (fut : F) : Phase F W → Bool
  | .initialPoll _ fut' | .wakePoll _ fut' => fut' = fut
  | _ => false

/-- Events of interest. -/
inductive Event (F W : Type*) where
  /-- A poll of the future begins. -/
  | began (fut : F)
  /-- A poll of the future returned. -/
  | polled (fut : F) (isReady : Bool)
  /-- The call `w` pushed its token. -/
  | pushed (w : W)
  deriving DecidableEq

/-- The event is the return of a poll of `fut`. -/
def Event.isPolledOf [DecidableEq F] (fut : F) : Event F W → Bool
  | .polled fut' _ => fut' = fut
  | _ => false

/-- The queues, `ExecutorHandler` and its place in `run`. -/
structure State (F W : Type*) where
  taskQueue : Channel F
  wakeQueue : Channel W
  taskCounter : UInt32
  tasks : TaskToken → Option F
  phase : Phase F W
  log : List (Event F W)

/-- One step of a producer or of the executor. -/
inductive Label (F W : Type*) where
  /-- `spawn(fut)`: the two halves of `TASK_QUEUE.add`. -/
  | pushTask (fut : F)
  | releaseTask (fut : F)
  /-- The wake call `w`: the two halves of `WAKE_QUEUE.add`. -/
  | pushWake (w : W)
  | releaseWake (w : W)
  /-- `svcWaitSynchronizationN` returns. -/
  | wait
  /-- The drain loop's next `remove`. -/
  | remove
  /-- `spawn` or `wake` begins its poll. -/
  | poll
  /-- The poll returns. -/
  | finish (isReady : Bool)

/-- `svcWaitSynchronizationN`: one count is taken from the lowest-indexed semaphore above zero. -/
def waitN (s : State F W) : State F W :=
  -- `TASK_QUEUE` has the index 0, so spawns come before wakes
  if 0 < s.taskQueue.queue.sem.count then
    { s with taskQueue := s.taskQueue.wait, phase := .draining .task }
  else { s with wakeQueue := s.wakeQueue.wait, phase := .draining .wake }

/-- The next `remove` of the drain loop; the loop ends when the queue is empty. -/
def remove (s : State F W) : Which → State F W
  | .task =>
    match s.taskQueue.queue.back? with
    | some fut => { s with taskQueue := s.taskQueue.remove, phase := .spawning fut }
    | none => { s with phase := .waiting }
  | .wake =>
    match s.wakeQueue.queue.back? with
    | some w => { s with wakeQueue := s.wakeQueue.remove, phase := .waking w }
    | none => { s with phase := .waiting }

/-- `spawn` up to the call of `poll`: the counter wraps. -/
def spawn (s : State F W) (fut : F) : State F W :=
  { s with
    taskCounter := s.taskCounter + 1
    phase := .initialPoll ⟨s.taskCounter⟩ fut
    log := .began fut :: s.log }

/-- `wake` up to the call of `poll`; it returns at once if the task is not in the map. -/
def wake (s : State F W) (task : TaskToken) : State F W :=
  match s.tasks task with
  | some fut => { s with phase := .wakePoll task fut, log := .began fut :: s.log }
  | none => { s with phase := .draining .wake }

/-- `spawn` after its poll. -/
def finishSpawn (s : State F W) (taskKey : TaskToken) (fut : F) (isReady : Bool) : State F W :=
  { s with
    -- a future that is ready at once never enters the map
    tasks := if isReady then s.tasks else Function.update s.tasks taskKey (some fut)
    phase := .draining .task
    log := .polled fut isReady :: s.log }

/-- `wake` after its poll. -/
def finishWake (s : State F W) (task : TaskToken) (fut : F) (isReady : Bool) : State F W :=
  { s with
    tasks := if isReady then Function.update s.tasks task none else s.tasks
    phase := .draining .wake
    log := .polled fut isReady :: s.log }

variable [DecidableEq F] [DecidableEq W]

/-- The effect of a step. -/
def fire (token : W → TaskToken) (s : State F W) : Label F W → State F W
  | .pushTask fut => { s with taskQueue := s.taskQueue.push fut }
  | .releaseTask fut => { s with taskQueue := s.taskQueue.release fut }
  | .pushWake w => { s with wakeQueue := s.wakeQueue.push w, log := .pushed w :: s.log }
  | .releaseWake w => { s with wakeQueue := s.wakeQueue.release w }
  | .wait => waitN s
  | .remove =>
    match s.phase with
    | .draining q => remove s q
    | _ => s
  | .poll =>
    match s.phase with
    | .spawning fut => spawn s fut
    | .waking w => wake s (token w)
    | _ => s
  | .finish isReady =>
    match s.phase with
    | .initialPoll taskKey fut => finishSpawn s taskKey fut isReady
    | .wakePoll task fut => finishWake s task fut isReady
    | _ => s

/-- A step can be taken. -/
def Enabled (s : State F W) : Label F W → Prop
  | .pushTask fut => s.taskQueue.adds fut = .idle
  | .releaseTask fut => s.taskQueue.adds fut = .pushed
  | .pushWake w => s.wakeQueue.adds w = .idle
  | .releaseWake w => s.wakeQueue.adds w = .pushed
  | .wait => s.phase = .waiting ∧
      (0 < s.taskQueue.queue.sem.count ∨ 0 < s.wakeQueue.queue.sem.count)
  | .remove => s.phase.isDraining = true
  | .poll => s.phase.beforePoll = true
  | .finish _ => s.phase.isPoll = true

instance (s : State F W) (l : Label F W) : Decidable (Enabled s l) :=
  match l with
  | .pushTask fut => inferInstanceAs (Decidable (s.taskQueue.adds fut = .idle))
  | .releaseTask fut => inferInstanceAs (Decidable (s.taskQueue.adds fut = .pushed))
  | .pushWake w => inferInstanceAs (Decidable (s.wakeQueue.adds w = .idle))
  | .releaseWake w => inferInstanceAs (Decidable (s.wakeQueue.adds w = .pushed))
  | .wait => inferInstanceAs (Decidable (s.phase = .waiting ∧
      (0 < s.taskQueue.queue.sem.count ∨ 0 < s.wakeQueue.queue.sem.count)))
  | .remove => inferInstanceAs (Decidable (s.phase.isDraining = true))
  | .poll => inferInstanceAs (Decidable (s.phase.beforePoll = true))
  | .finish _ => inferInstanceAs (Decidable (s.phase.isPoll = true))

/-- The executor made by `Executor::new`, before any spawn or wake. -/
def system (token : W → TaskToken) : LTS (State F W) (Label F W) where
  init := ⟨.new, .new, 0, fun _ => none, .waiting, []⟩
  Enabled := Enabled
  fire := fire token

instance (token : W → TaskToken) (s : State F W) (l : Label F W) :
    Decidable ((system token).Enabled s l) :=
  inferInstanceAs (Decidable (Enabled s l))

/-! ### The invariant -/

omit [DecidableEq F] [DecidableEq W] in
/-- The future that answers to a token: it is in the map, or in its initial poll. -/
def State.Live (s : State F W) (task : TaskToken) (fut : F) : Prop :=
  s.tasks task = some fut ∨ s.phase = .initialPoll task fut

omit [DecidableEq F] [DecidableEq W] in
/-- **The executor's invariant.**  A queue whose drain loop is not under way is awake.  A spawned
future is queued, taken, or polled.  A token pushed since a poll of its future began is queued,
taken, or the future's poll began again after it. -/
structure Inv (token : W → TaskToken) (s : State F W) : Prop where
  task_awake : s.phase.worksOn .task = false → s.taskQueue.Awake
  wake_awake : s.phase.worksOn .wake = false → s.wakeQueue.Awake
  spawned : ∀ fut, s.taskQueue.adds fut ≠ .idle →
    fut ∈ s.taskQueue.queue.vals ∨ s.phase = .spawning fut ∨ .began fut ∈ s.log
  woken : ∀ fut w, s.Live (token w) fut → Log.Before (.began fut) (.pushed w) s.log →
    w ∈ s.wakeQueue.queue.vals ∨ s.phase = .waking w ∨
      Log.Before (.pushed w) (.began fut) s.log

section Invariant

variable {token : W → TaskToken} {s : State F W}

theorem inv_init : Inv token (system (F := F) token).init where
  task_awake _ := Channel.awake_new
  wake_awake _ := Channel.awake_new
  spawned _ h := absurd rfl h
  woken _ _ _ h := absurd h Log.not_before_nil

omit [DecidableEq W] in
theorem inv_pushTask (h : Inv token s) {fut : F} (hen : s.taskQueue.adds fut = .idle) :
    Inv token { s with taskQueue := s.taskQueue.push fut } := by
  refine ⟨fun hw => (h.task_awake hw).push hen, h.wake_awake, fun x hx => ?_, h.woken⟩
  simp only [Channel.push_adds hen, Channel.push_queue hen] at hx ⊢
  by_cases hne : x = fut
  · simp [hne]
  · rw [Function.update_of_ne hne] at hx
    exact (h.spawned x hx).imp_left fun hm => by simp [hm]

omit [DecidableEq W] in
theorem inv_releaseTask (h : Inv token s) {fut : F} (hen : s.taskQueue.adds fut = .pushed) :
    Inv token { s with taskQueue := s.taskQueue.release fut } := by
  refine ⟨fun _ => Channel.awake_release _ _, h.wake_awake, fun x hx => h.spawned x ?_, h.woken⟩
  by_cases hne : x = fut
  · rw [hne, hen]
    exact AddPhase.noConfusion
  · simpa [Function.update_of_ne hne] using hx

omit [DecidableEq F] in
theorem inv_pushWake (h : Inv token s) {w : W} (hen : s.wakeQueue.adds w = .idle) :
    Inv token { s with wakeQueue := s.wakeQueue.push w, log := .pushed w :: s.log } := by
  refine ⟨h.task_awake, fun hw => (h.wake_awake hw).push hen, fun fut hf => ?_,
    fun fut x hl hb => ?_⟩
  · exact (h.spawned fut hf).imp_right (Or.imp_right (List.mem_cons_of_mem _))
  · simp only [Channel.push_queue hen, SyncQueue.pushBack_vals, List.mem_append,
      List.mem_singleton]
    -- the new push is queued; the older ones are as before
    rcases Log.before_cons.1 hb with hb | ⟨he, -⟩
    · rcases h.woken fut x hl hb with hm | hp | hb'
      · exact .inl (.inl hm)
      · exact .inr (.inl hp)
      · exact .inr (.inr hb'.cons)
    · exact .inl (.inr (Event.pushed.inj he))

omit [DecidableEq F] in
theorem inv_releaseWake (h : Inv token s) {w : W} :
    Inv token { s with wakeQueue := s.wakeQueue.release w } :=
  ⟨h.task_awake, fun _ => Channel.awake_release _ _, h.spawned, h.woken⟩

omit [DecidableEq F] [DecidableEq W]

/-- Unless the executor has just taken it, a spawned future is queued or polled. -/
theorem Inv.queued_or_began (h : Inv token s) (hph : s.phase.beforePoll = false) {fut : F}
    (hf : s.taskQueue.adds fut ≠ .idle) :
    fut ∈ s.taskQueue.queue.vals ∨ .began fut ∈ s.log := by
  rcases h.spawned fut hf with hm | hp | hb
  · exact .inl hm
  · rw [hp] at hph
    cases hph
  · exact .inr hb

/-- Unless the executor has just taken it, a pushed token is queued or its future was polled. -/
theorem Inv.queued_or_polled (h : Inv token s) (hph : s.phase.beforePoll = false) {fut : F} {w : W}
    (hl : s.Live (token w) fut) (hb : Log.Before (.began fut) (.pushed w) s.log) :
    w ∈ s.wakeQueue.queue.vals ∨ Log.Before (.pushed w) (.began fut) s.log := by
  rcases h.woken fut w hl hb with hm | hp | hb'
  · exact .inl hm
  · rw [hp] at hph
    cases hph
  · exact .inr hb'

/-- The executor moves on outside of polls, and takes at most one value off a queue: that value is
the one it is about to poll for. -/
theorem inv_move {s' : State F W} (h : Inv token s) (hb : s.phase.beforePoll = false)
    (hadds : s'.taskQueue.adds = s.taskQueue.adds) (htasks : s'.tasks = s.tasks)
    (hlog : s'.log = s.log) (hpoll : s'.phase.isPoll = false)
    (ht : s'.phase.worksOn .task = false → s'.taskQueue.Awake)
    (hw : s'.phase.worksOn .wake = false → s'.wakeQueue.Awake)
    (htq : ∀ fut ∈ s.taskQueue.queue.vals,
      fut ∈ s'.taskQueue.queue.vals ∨ s'.phase = .spawning fut)
    (hwq : ∀ w ∈ s.wakeQueue.queue.vals, w ∈ s'.wakeQueue.queue.vals ∨ s'.phase = .waking w) :
    Inv token s' := by
  refine ⟨ht, hw, fun fut hf => ?_, fun fut w hl hbefore => ?_⟩
  · rw [hadds] at hf
    rw [hlog]
    rcases h.queued_or_began hb hf with hm | hm
    · exact (htq fut hm).imp_right .inl
    · exact .inr (.inr hm)
  · rw [hlog] at hbefore ⊢
    have hl : s.tasks (token w) = some fut := by
      rcases hl with hl | hl
      · exact htasks ▸ hl
      · rw [hl] at hpoll
        cases hpoll
    rcases h.queued_or_polled hb (.inl hl) hbefore with hm | hm
    · exact (hwq w hm).imp_right .inl
    · exact .inr (.inr hm)

/-- The executor starts to drain a queue. -/
theorem inv_wait (h : Inv token s) (hph : s.phase = .waiting) : Inv token (waitN s) := by
  have hb : s.phase.beforePoll = false := by rw [hph]; rfl
  have ht := h.task_awake (by rw [hph]; rfl)
  have hw := h.wake_awake (by rw [hph]; rfl)
  unfold waitN
  split_ifs
  · exact inv_move h hb rfl rfl rfl rfl (by simp [Phase.worksOn]) (fun _ => hw)
      (fun _ => .inl) fun _ => .inl
  · exact inv_move h hb rfl rfl rfl rfl (fun _ => ht) (by simp [Phase.worksOn])
      (fun _ => .inl) fun _ => .inl

/-- A drained queue is empty, so its drain loop leaves it awake. -/
theorem inv_drained (h : Inv token s) {q : Which} (hph : s.phase = .draining q)
    (ht : q = .task → s.taskQueue.queue.vals = []) (hw : q = .wake → s.wakeQueue.queue.vals = []) :
    Inv token { s with phase := .waiting } := by
  have hb : s.phase.beforePoll = false := by rw [hph]; rfl
  refine inv_move h hb rfl rfl rfl rfl (fun _ => ?_) (fun _ => ?_) (fun _ => .inl) fun _ => .inl
  · cases q with
    | task => exact Channel.awake_of_nil (ht rfl)
    | wake => exact h.task_awake (by rw [hph]; rfl)
  · cases q with
    | task => exact h.wake_awake (by rw [hph]; rfl)
    | wake => exact Channel.awake_of_nil (hw rfl)

theorem inv_remove (h : Inv token s) {q : Which} (hph : s.phase = .draining q) :
    Inv token (remove s q) := by
  have hb : s.phase.beforePoll = false := by rw [hph]; rfl
  cases q with
  | task =>
    simp only [remove]
    split
    · rename_i fut hback
      refine inv_move h hb rfl rfl rfl rfl (by simp [Phase.worksOn])
        (fun _ => h.wake_awake (by rw [hph]; rfl)) (fun x hx => ?_) fun _ => .inl
      rw [SyncQueue.vals_eq_of_back? hback, List.mem_append, List.mem_singleton] at hx
      exact hx.imp_right fun he => by rw [he]
    · rename_i hback
      exact inv_drained h hph (fun _ => SyncQueue.back?_eq_none.1 hback) (by simp)
  | wake =>
    simp only [remove]
    split
    · rename_i w hback
      refine inv_move h hb rfl rfl rfl rfl (fun _ => h.task_awake (by rw [hph]; rfl))
        (by simp [Phase.worksOn]) (fun _ => .inl) fun x hx => ?_
      rw [SyncQueue.vals_eq_of_back? hback, List.mem_append, List.mem_singleton] at hx
      exact hx.imp_right fun he => by rw [he]
    · rename_i hback
      exact inv_drained h hph (by simp) fun _ => SyncQueue.back?_eq_none.1 hback

/-- The initial poll begins: everything pushed so far was pushed before it. -/
theorem inv_spawn (h : Inv token s) {fut : F} (hph : s.phase = .spawning fut) :
    Inv token (spawn s fut) := by
  refine ⟨by simp [spawn, Phase.worksOn], fun _ => h.wake_awake (by rw [hph]; rfl),
    fun x hx => ?_, fun x w hl hb => ?_⟩
  · rcases h.spawned x hx with hm | hp | hm
    · exact .inl hm
    · rw [hph] at hp
      cases hp
      exact .inr (.inr (List.mem_cons_self ..))
    · exact .inr (.inr (List.mem_cons_of_mem _ hm))
  · have hb : Log.Before (.began x) (.pushed w) s.log := by
      simpa [spawn, Log.before_cons] using hb
    rcases hl with hl | hl
    · rcases h.woken x w (.inl hl) hb with hm | hp | hb'
      · exact .inl hm
      · rw [hph] at hp
        cases hp
      · exact .inr (.inr hb'.cons)
    · -- every push so far came before the poll that begins now
      obtain ⟨-, rfl⟩ := Phase.initialPoll.inj hl
      exact .inr (.inr (Log.before_cons.2 (.inr ⟨rfl, hb.mem_right⟩)))

/-- The future that answers to the token taken is polled; without one there is nothing to do. -/
theorem inv_wake (h : Inv token s) {w : W} (hph : s.phase = .waking w) :
    Inv token (wake s (token w)) := by
  have ht := h.task_awake (by rw [hph]; rfl)
  unfold wake
  split
  · rename_i fut hfut
    refine ⟨fun _ => ht, by simp [Phase.worksOn], fun x hx => ?_, fun x w' hl hb => ?_⟩
    · rcases h.spawned x hx with hm | hp | hm
      · exact .inl hm
      · rw [hph] at hp
        cases hp
      · exact .inr (.inr (List.mem_cons_of_mem _ hm))
    · have hl : s.tasks (token w') = some x := by simpa [State.Live] using hl
      have hb : Log.Before (.began x) (.pushed w') s.log := by simpa [Log.before_cons] using hb
      rcases h.woken x w' (.inl hl) hb with hm | hp | hb'
      · exact .inl hm
      · -- the token that was taken: its future is polled now
        rw [hph] at hp
        cases hp
        rw [hfut] at hl
        cases hl
        exact .inr (.inr (Log.before_cons.2 (.inr ⟨rfl, hb.mem_right⟩)))
      · exact .inr (.inr hb'.cons)
  · rename_i hnone
    refine ⟨fun _ => ht, by simp [Phase.worksOn], fun x hx => ?_, fun x w' hl hb => ?_⟩
    · simpa [hph] using h.spawned x hx
    · have hl : s.tasks (token w') = some x := by simpa [State.Live] using hl
      rcases h.woken x w' (.inl hl) hb with hm | hp | hb'
      · exact .inl hm
      · rw [hph] at hp
        cases hp
        rw [hnone] at hl
        cases hl
      · exact .inr (.inr hb')

/-- A poll returned: whoever answers to a token now did so before. -/
theorem inv_finish (h : Inv token s) (hph : s.phase.isPoll = true) {q : Which} {fut : F}
    {isReady : Bool} {tasks : TaskToken → Option F}
    (hother : ∀ q', q' ≠ q → s.phase.worksOn q' = false)
    (htasks : ∀ task x, tasks task = some x → s.Live task x) :
    Inv token { s with
      tasks := tasks, phase := .draining q, log := .polled fut isReady :: s.log } := by
  have hb : s.phase.beforePoll = false := by
    cases hp : s.phase <;> rw [hp] at hph <;> first | rfl | cases hph
  refine ⟨fun hw => h.task_awake (hother _ ?_), fun hw => h.wake_awake (hother _ ?_),
    fun x hx => ?_, fun x w hl hb' => ?_⟩
  · rintro rfl
    simp [Phase.worksOn] at hw
  · rintro rfl
    simp [Phase.worksOn] at hw
  · simpa using h.queued_or_began hb hx
  · have hl : tasks (token w) = some x := by simpa [State.Live] using hl
    have hb' : Log.Before (.began x) (.pushed w) s.log := by simpa [Log.before_cons] using hb'
    have := h.queued_or_polled hb (htasks _ _ hl) hb'
    simpa [Log.before_cons] using this

theorem inv_finishSpawn (h : Inv token s) {taskKey : TaskToken} {fut : F}
    (hph : s.phase = .initialPoll taskKey fut) (isReady : Bool) :
    Inv token (finishSpawn s taskKey fut isReady) := by
  refine inv_finish h (by rw [hph]; rfl) (fun q' hq => ?_) fun task x hx => ?_
  · rw [hph]
    simpa [Phase.worksOn] using hq.symm
  · cases isReady with
    | true => exact .inl hx
    | false =>
      by_cases ht : task = taskKey
      · subst ht
        simp only [Bool.false_eq_true, if_false, Function.update_self, Option.some.injEq] at hx
        exact .inr (hx ▸ hph)
      · simp only [Bool.false_eq_true, if_false, Function.update_of_ne ht] at hx
        exact .inl hx

theorem inv_finishWake (h : Inv token s) {task : TaskToken} {fut : F}
    (hph : s.phase = .wakePoll task fut) (isReady : Bool) :
    Inv token (finishWake s task fut isReady) := by
  refine inv_finish h (by rw [hph]; rfl) (fun q' hq => ?_) fun t x hx => ?_
  · rw [hph]
    simpa [Phase.worksOn] using hq.symm
  · cases isReady with
    | false => exact .inl hx
    | true =>
      by_cases ht : t = task
      · simp [ht] at hx
      · simp only [if_true, Function.update_of_ne ht] at hx
        exact .inl hx

variable [DecidableEq F] [DecidableEq W]

theorem inv_step {l : Label F W} (h : Inv token s) (hen : Enabled s l) :
    Inv token (fire token s l) := by
  cases l with
  | pushTask fut => exact inv_pushTask h hen
  | releaseTask fut => exact inv_releaseTask h hen
  | pushWake w => exact inv_pushWake h hen
  | releaseWake w => exact inv_releaseWake h
  | wait => exact inv_wait h hen.1
  | remove =>
    simp only [fire]
    split
    · exact inv_remove h ‹_›
    · exact h
  | poll =>
    simp only [fire]
    split
    · exact inv_spawn h ‹_›
    · exact inv_wake h ‹_›
    · exact h
  | finish isReady =>
    simp only [fire]
    split
    · exact inv_finishSpawn h ‹_› isReady
    · exact inv_finishWake h ‹_› isReady
    · exact h

theorem inv_reachable (h : (system token).Reachable s) : Inv token s :=
  h.invariant inv_init fun _ _ _ hi hen _ => inv_step hi hen

end Invariant

/-! ### Polls return -/

section Polls

variable {token : W → TaskToken} {s : State F W}

omit [DecidableEq W] in
/-- A poll that began and has not returned is the one the executor is in. -/
def PollsReturn (s : State F W) : Prop :=
  ∀ fut, .began fut ∈ Log.since (Event.isPolledOf fut) s.log → s.phase.polls fut = true

omit [DecidableEq W] in
/-- A step outside of polls that logs nothing. -/
theorem PollsReturn.of_log {s' : State F W} (h : PollsReturn s) (hlog : s'.log = s.log)
    (hph : ∀ fut, s.phase.polls fut = false) : PollsReturn s' := by
  intro fut hm
  rw [hlog] at hm
  exact absurd (h fut hm) (by simp [hph])

omit [DecidableEq W] in
/-- A poll begins. -/
theorem PollsReturn.begin {s' : State F W} {fut : F} (h : PollsReturn s)
    (hlog : s'.log = .began fut :: s.log) (hph : ∀ x, s.phase.polls x = false)
    (hph' : s'.phase.polls fut = true) : PollsReturn s' := by
  intro x hm
  rw [hlog, Log.since_cons] at hm
  simp only [Event.isPolledOf, Bool.false_eq_true, if_false, List.mem_cons] at hm
  rcases hm with he | hm
  · rw [Event.began.inj he]
    exact hph'
  · exact absurd (h x hm) (by simp [hph])

omit [DecidableEq W] in
/-- The poll of `fut` returns. -/
theorem PollsReturn.finish {s' : State F W} {fut : F} {isReady : Bool} (h : PollsReturn s)
    (hlog : s'.log = .polled fut isReady :: s.log)
    (hph : ∀ x, s.phase.polls x = true → x = fut) : PollsReturn s' := by
  intro x hm
  rw [hlog, Log.since_cons] at hm
  split_ifs at hm with hx
  · cases hm
  · simp only [List.mem_cons, reduceCtorEq, false_or] at hm
    have := hph x (h x hm)
    simp [Event.isPolledOf, this] at hx

theorem pollsReturn_step {l : Label F W} (h : PollsReturn s) (hen : Enabled s l) :
    PollsReturn (fire token s l) := by
  cases l with
  | pushTask fut => exact h
  | releaseTask fut => exact h
  | pushWake w =>
    intro fut hm
    simp only [fire, Log.since_cons, Event.isPolledOf, Bool.false_eq_true, if_false, List.mem_cons,
      reduceCtorEq, false_or] at hm
    exact h fut hm
  | releaseWake w => exact h
  | wait =>
    refine h.of_log ?_ fun fut => by rw [hen.1]; rfl
    simp only [fire, waitN]
    split_ifs <;> rfl
  | remove =>
    simp only [fire]
    split
    · rename_i q hph
      refine h.of_log ?_ fun fut => by rw [hph]; rfl
      cases q <;> simp only [remove] <;> split <;> rfl
    · exact h
  | poll =>
    simp only [fire]
    split
    · rename_i fut hph
      exact h.begin rfl (fun x => by rw [hph]; rfl) (by simp [spawn, Phase.polls])
    · rename_i w hph
      have hno : ∀ x, s.phase.polls x = false := fun x => by rw [hph]; rfl
      unfold wake
      split
      · exact h.begin rfl hno (by simp [Phase.polls])
      · exact h.of_log rfl hno
    · exact h
  | finish isReady =>
    simp only [fire]
    split
    · rename_i hph
      exact h.finish rfl fun x hx => by simpa [hph, Phase.polls, eq_comm] using hx
    · rename_i hph
      exact h.finish rfl fun x hx => by simpa [hph, Phase.polls, eq_comm] using hx
    · exact h

end Polls

/-- **The executor never sleeps over pending work.**  Whenever it is blocked with both counts at
zero: a value still in a queue belongs to an `add` that has pushed and not yet released; a future
whose spawning `add` has returned has been polled; a future in the map, whose token was added by a
call that has returned and that pushed after the future's first poll began, has begun a poll after
that push; and every poll that began has returned. -/
theorem no_sleep_over_work {token : W → TaskToken} {s : State F W}
    (h : (system token).Reachable s) (hph : s.phase = .waiting)
    (htask : s.taskQueue.queue.sem.count = 0) (hwake : s.wakeQueue.queue.sem.count = 0) :
    (∀ fut ∈ s.taskQueue.queue.vals, s.taskQueue.adds fut = .pushed) ∧
    (∀ w ∈ s.wakeQueue.queue.vals, s.wakeQueue.adds w = .pushed) ∧
    (∀ fut, s.taskQueue.adds fut = .returned → .began fut ∈ s.log) ∧
    (∀ fut w, s.tasks (token w) = some fut → s.wakeQueue.adds w = .returned →
      Log.Before (.began fut) (.pushed w) s.log → Log.Before (.pushed w) (.began fut) s.log) ∧
    (∀ fut, .began fut ∉ Log.since (Event.isPolledOf fut) s.log) := by
  have hi := inv_reachable h
  have hpolls : PollsReturn s :=
    h.invariant (fun fut hm => by simp [system, Log.since] at hm)
      fun _ _ _ hi hen _ => pollsReturn_step hi hen
  have hb : s.phase.beforePoll = false := by rw [hph]; rfl
  have ht : ∀ fut ∈ s.taskQueue.queue.vals, s.taskQueue.adds fut = .pushed :=
    fun fut => (hi.task_awake (by rw [hph]; rfl)).pushed htask
  have hw : ∀ w ∈ s.wakeQueue.queue.vals, s.wakeQueue.adds w = .pushed :=
    fun w => (hi.wake_awake (by rw [hph]; rfl)).pushed hwake
  -- a returned call has nothing left in the queues, so its value was taken and polled
  refine ⟨ht, hw, fun fut hret => ?_, fun fut w hfut hret hbefore => ?_, fun fut hm => ?_⟩
  · have hne : s.taskQueue.adds fut ≠ .idle := by rw [hret]; exact AddPhase.noConfusion
    refine (hi.queued_or_began hb hne).resolve_left fun hm => ?_
    rw [ht fut hm] at hret
    cases hret
  · refine (hi.queued_or_polled hb (.inl hfut) hbefore).resolve_left fun hm => ?_
    rw [hw w hm] at hret
    cases hret
  · have := hpolls fut hm
    rw [hph] at this
    cases this

/-- A wake that arrives during the initial poll of task 0, before the task is in the map: the
executor goes to sleep only after it has polled the task again. -/
theorem no_sleep_over_work_initial : ∃ s : State (Fin 1) (Fin 1),
    (system fun _ => ⟨0⟩).Reachable s ∧ s.phase = .waiting ∧ s.tasks ⟨0⟩ = some 0 ∧
    Log.Before (.pushed 0) (.began 0) s.log := by
  obtain ⟨s, hs, hph, ht, hw, hfut, hret, hb⟩ :=
    LTS.exists_of_exec (system fun _ : Fin 1 => ⟨0⟩) (fun _ _ => True)
      [.pushTask 0, .releaseTask 0, .wait, .remove, .poll, .pushWake 0, .releaseWake 0,
        .finish false, .remove, .wait, .remove, .poll, .finish false, .remove]
      (fun s : State (Fin 1) (Fin 1) => s.phase = .waiting ∧ s.taskQueue.queue.sem.count = 0 ∧
        s.wakeQueue.queue.sem.count = 0 ∧ s.tasks ⟨0⟩ = some 0 ∧ s.wakeQueue.adds 0 = .returned ∧
        Log.Before (.began 0) (.pushed 0) s.log) (by decide)
  exact ⟨s, hs, hph, hfut, (no_sleep_over_work hs hph ht hw).2.2.2.1 0 0 hfut hret hb⟩

end Executor

end BunnyDs
