import BunnyDs.Executor.Run
import BunnyDs.Sync.Notification

/-!
# Tokens and the map of tasks

`ExecutorHandler::spawn` names a future by `task_counter`, a 32-bit counter that wraps, and puts
it under that name into `tasks` when its initial poll is pending.  Whatever the counter does, a
future is never polled again after it was ready (`Executor.once_reachable`).  That an entry stays
in the map until its own future is ready, and that no task answers to a token which `sync.rs` uses
for something else, rests on the counter: `Executor.undisturbed` under the condition `Fresh` on
each spawn, which holds for the first `2 ^ 32 - 2` of them (`fresh_of_counter_lt`);
`Executor.displaced` is what happens later.
-/

namespace BunnyDs

namespace Executor

variable {F W : Type*}

/-- A token with another meaning in `sync.rs`: `NOTIFICATION_READY`, or `NOTIFICATION_UNINIT`,
which is also the thread marker of `DsLock`. -/
def Reserved (task : TaskToken) : Prop :=
  task.id = Notification.ready ∨ task.id = Notification.uninit

instance (task : TaskToken) : Decidable (Reserved task) :=
  inferInstanceAs (Decidable (task.id = Notification.ready ∨ task.id = Notification.uninit))

/-! ### Polls of one future -/

/-- The life of a future: queued, taken, in its initial poll, in the map, ready. -/
structure Once (s : State F W) : Prop where
  /-- A future that was not spawned, or is queued, was never polled; nor was the one just taken. -/
  unpolled : ∀ fut, s.taskQueue.adds fut = .idle ∨ fut ∈ s.taskQueue.queue.vals →
    .began fut ∉ s.log
  taken : ∀ fut, s.phase = .spawning fut →
    s.taskQueue.adds fut ≠ .idle ∧ fut ∉ s.taskQueue.queue.vals ∧ .began fut ∉ s.log
  /-- A future that answers to a token is not ready. -/
  live : ∀ key fut, s.Live key fut → .began fut ∈ s.log ∧ .polled fut true ∉ s.log
  initial : ∀ key fut, s.phase = .initialPoll key fut → ∀ key', s.tasks key' ≠ some fut
  woken : ∀ key fut, s.phase = .wakePoll key fut → s.tasks key = some fut
  /-- A future is in the map at most once. -/
  unique : ∀ key key' fut, s.tasks key = some fut → s.tasks key' = some fut → key = key'
  began : ∀ fut isReady, .polled fut isReady ∈ s.log → .began fut ∈ s.log
  /-- No poll begins after one that was ready. -/
  order : ∀ fut, ¬ Log.Before (.polled fut true) (.began fut) s.log

section Once

variable {s : State F W}

/-- A step outside of polls that leaves the map and the polls in the log alone. -/
theorem Once.move {s' : State F W} (h : Once s) (htasks : s'.tasks = s.tasks)
    (hlog : s'.log = s.log)
    (hun : ∀ fut, s'.taskQueue.adds fut = .idle ∨ fut ∈ s'.taskQueue.queue.vals →
      s.taskQueue.adds fut = .idle ∨ fut ∈ s.taskQueue.queue.vals)
    (htk : ∀ fut, s'.phase = .spawning fut →
      s'.taskQueue.adds fut ≠ .idle ∧ fut ∉ s'.taskQueue.queue.vals ∧ .began fut ∉ s.log)
    (hpoll : s'.phase.isPoll = false ∨ s'.phase = s.phase) : Once s' := by
  have hini : ∀ key fut, s'.phase = .initialPoll key fut → s.phase = .initialPoll key fut := by
    intro key fut hp
    rcases hpoll with hb | he
    · simp [hp, Phase.isPoll] at hb
    · exact he ▸ hp
  have hwak : ∀ key fut, s'.phase = .wakePoll key fut → s.phase = .wakePoll key fut := by
    intro key fut hp
    rcases hpoll with hb | he
    · simp [hp, Phase.isPoll] at hb
    · exact he ▸ hp
  refine ⟨fun fut hf => ?_, fun fut hp => ?_, fun key fut hl => ?_, fun key fut hp => ?_,
    fun key fut hp => ?_, ?_, ?_, ?_⟩
  · rw [hlog]
    exact h.unpolled fut (hun fut hf)
  · rw [hlog]
    exact htk fut hp
  · rw [hlog]
    refine h.live key fut (hl.imp (fun hl => ?_) (hini key fut))
    rwa [htasks] at hl
  · rw [htasks]
    exact h.initial key fut (hini key fut hp)
  · rw [htasks]
    exact h.woken key fut (hwak key fut hp)
  · rw [htasks]
    exact h.unique
  · rw [hlog]
    exact h.began
  · rw [hlog]
    exact h.order

/-- The initial poll begins. -/
theorem Once.spawn (h : Once s) {fut : F} (hph : s.phase = .spawning fut) :
    Once (Executor.spawn s fut) := by
  obtain ⟨htk, hq, hnew⟩ := h.taken fut hph
  have hne : ∀ key x, s.tasks key = some x → x ≠ fut := by
    rintro key x hx rfl
    exact hnew (h.live key x (.inl hx)).1
  refine ⟨fun x hx => ?_, by simp [Executor.spawn], fun key x hl => ?_, fun key x hp key' hx => ?_,
    by simp [Executor.spawn], h.unique, fun x isReady hm => ?_, fun x hb => ?_⟩
  · have hne : x ≠ fut := by
      rintro rfl
      exact hx.elim htk hq
    simpa [Executor.spawn, hne] using h.unpolled x hx
  · rcases hl with hl | hl
    · obtain ⟨hb, hr⟩ := h.live key x (.inl hl)
      exact ⟨List.mem_cons_of_mem _ hb, by simpa [Executor.spawn] using hr⟩
    · obtain ⟨-, rfl⟩ := Phase.initialPoll.inj hl
      refine ⟨List.mem_cons_self .., ?_⟩
      simpa [Executor.spawn] using fun hm => hnew (h.began _ _ hm)
  · obtain ⟨-, rfl⟩ := Phase.initialPoll.inj hp
    exact hne key' _ hx rfl
  · exact List.mem_cons_of_mem _ (h.began x isReady (by simpa [Executor.spawn] using hm))
  · rcases Log.before_cons.1 hb with hb | ⟨he, hm⟩
    · exact h.order x hb
    · rw [Event.began.inj he] at hm
      exact hnew (h.began _ _ hm)

/-- A poll of a task in the map begins. -/
theorem Once.wake (h : Once s) (task : TaskToken) : Once (Executor.wake s task) := by
  unfold Executor.wake
  split
  · rename_i fut hfut
    obtain ⟨hbegan, hready⟩ := h.live _ _ (.inl hfut)
    refine ⟨fun x hx => ?_, by simp, fun key x hl => ?_, by simp, fun key x hp => ?_, h.unique,
      fun x isReady hm => ?_, fun x hb => ?_⟩
    · have hun := h.unpolled x hx
      have hne : x ≠ fut := by
        rintro rfl
        exact hun hbegan
      simpa [hne] using hun
    · have hl : s.tasks key = some x := by simpa [State.Live] using hl
      obtain ⟨hb, hr⟩ := h.live key x (.inl hl)
      exact ⟨List.mem_cons_of_mem _ hb, by simpa using hr⟩
    · obtain ⟨rfl, rfl⟩ := Phase.wakePoll.inj hp
      exact hfut
    · exact List.mem_cons_of_mem _ (h.began x isReady (by simpa using hm))
    · rcases Log.before_cons.1 hb with hb | ⟨he, hm⟩
      · exact h.order x hb
      · rw [Event.began.inj he] at hm
        exact hready hm
  · exact h.move rfl rfl (fun _ => id) (by simp) (.inl rfl)

/-- A poll returned.  Whoever is in the map now answered to a token before, and is not the future
that is ready. -/
theorem Once.finish (h : Once s) {q : Which} {fut : F} {isReady : Bool}
    {tasks : TaskToken → Option F} (hbegan : .began fut ∈ s.log)
    (hlive : ∀ key x, tasks key = some x → s.Live key x ∧ (isReady = true → x ≠ fut))
    (hun : ∀ key key' x, tasks key = some x → tasks key' = some x → key = key') :
    Once { s with tasks := tasks, phase := .draining q, log := .polled fut isReady :: s.log } := by
  refine ⟨fun x hx => ?_, by simp, fun key x hl => ?_, by simp, by simp, hun, fun x r hm => ?_,
    fun x hb => ?_⟩
  · simpa using h.unpolled x hx
  · have hl : tasks key = some x := by simpa [State.Live] using hl
    obtain ⟨hl, hne⟩ := hlive key x hl
    obtain ⟨hb, hr⟩ := h.live key x hl
    refine ⟨List.mem_cons_of_mem _ hb, fun hm => ?_⟩
    rcases List.mem_cons.1 hm with he | hm
    · obtain ⟨rfl, rfl⟩ := Event.polled.inj he
      exact hne rfl rfl
    · exact hr hm
  · rcases List.mem_cons.1 hm with he | hm
    · rw [(Event.polled.inj he).1]
      exact List.mem_cons_of_mem _ hbegan
    · exact List.mem_cons_of_mem _ (h.began x r hm)
  · exact h.order x (by simpa [Log.before_cons] using hb)

theorem Once.finishSpawn (h : Once s) {taskKey : TaskToken} {fut : F}
    (hph : s.phase = .initialPoll taskKey fut) (isReady : Bool) :
    Once (Executor.finishSpawn s taskKey fut isReady) := by
  have hini := h.initial taskKey fut hph
  refine h.finish (h.live taskKey fut (.inr hph)).1 (fun key x hx => ?_)
    fun key key' x hx hx' => ?_
  · cases isReady with
    | true =>
      refine ⟨.inl hx, fun _ => ?_⟩
      rintro rfl
      exact hini key hx
    | false =>
      refine ⟨?_, by simp⟩
      by_cases hk : key = taskKey
      · subst hk
        simp only [Bool.false_eq_true, if_false, Function.update_self, Option.some.injEq] at hx
        exact .inr (hx ▸ hph)
      · simp only [Bool.false_eq_true, if_false, Function.update_of_ne hk] at hx
        exact .inl hx
  · cases isReady with
    | true => exact h.unique key key' x hx hx'
    | false =>
      simp only [Bool.false_eq_true, if_false, Function.update_apply] at hx hx'
      split_ifs at hx hx' with hk hk' hk'
      · exact hk.trans hk'.symm
      · exact absurd ((Option.some.inj hx) ▸ hx') (hini key')
      · exact absurd ((Option.some.inj hx') ▸ hx) (hini key)
      · exact h.unique key key' x hx hx'

theorem Once.finishWake (h : Once s) {task : TaskToken} {fut : F}
    (hph : s.phase = .wakePoll task fut) (isReady : Bool) :
    Once (Executor.finishWake s task fut isReady) := by
  have hfut := h.woken task fut hph
  refine h.finish (h.live task fut (.inl hfut)).1 (fun key x hx => ?_)
    fun key key' x hx hx' => ?_
  · cases isReady with
    | false => exact ⟨.inl hx, by simp⟩
    | true =>
      simp only [if_true, Function.update_apply] at hx
      split_ifs at hx with hk
      refine ⟨.inl hx, fun _ => ?_⟩
      rintro rfl
      exact hk (h.unique key task x hx hfut)
  · cases isReady with
    | false => exact h.unique key key' x hx hx'
    | true =>
      simp only [if_true, Function.update_apply] at hx hx'
      split_ifs at hx hx'
      exact h.unique key key' x hx hx'

theorem Once.wait (h : Once s) : Once (waitN s) := by
  unfold waitN
  split_ifs
  · exact h.move rfl rfl (fun _ => id) (by simp) (.inl rfl)
  · exact h.move rfl rfl (fun _ => id) (by simp) (.inl rfl)

/-- The values of a queue are distinct, so the one taken is not left in it. -/
theorem Once.remove (h : Once s) (q : Which) : Once (Executor.remove s q) := by
  cases q with
  | task =>
    simp only [Executor.remove]
    split
    · rename_i fut hback
      have hvals := SyncQueue.vals_eq_of_back? hback
      have hmem : fut ∈ s.taskQueue.queue.vals := by
        rw [hvals]
        simp
      have hnd := s.taskQueue.nodup
      rw [hvals, List.nodup_append] at hnd
      refine h.move rfl rfl (fun x hx => hx.imp_right fun hx => ?_) (fun x hp => ?_) (.inl rfl)
      · exact List.dropLast_subset _ hx
      · obtain rfl := Phase.spawning.inj hp
        exact ⟨s.taskQueue.pushed_of_mem _ hmem,
          fun hx => hnd.2.2 _ hx _ (List.mem_singleton_self _) rfl, h.unpolled _ (.inr hmem)⟩
    · exact h.move rfl rfl (fun _ => id) (by simp) (.inl rfl)
  | wake =>
    simp only [Executor.remove]
    split <;> exact h.move rfl rfl (fun _ => id) (by simp) (.inl rfl)

variable [DecidableEq F] [DecidableEq W] {token : W → TaskToken}

theorem once_init : Once (system (F := F) token).init where
  unpolled := by simp [system]
  taken := by simp [system]
  live := by simp [system, State.Live]
  initial := by simp [system]
  woken := by simp [system]
  unique := by simp [system]
  began := by simp [system]
  order _ := Log.not_before_nil

omit [DecidableEq W] in
theorem Once.pushTask (h : Once s) {fut : F} (hen : s.taskQueue.adds fut = .idle) :
    Once { s with taskQueue := s.taskQueue.push fut } := by
  refine h.move rfl rfl (fun x hx => ?_) (fun x hp => ?_) (.inr rfl)
  · by_cases hne : x = fut
    · exact .inl (hne ▸ hen)
    · simpa [Channel.push_adds hen, Channel.push_queue hen, Function.update_of_ne hne, hne] using hx
  · obtain ⟨hadd, hq, hb⟩ := h.taken x hp
    have hne : x ≠ fut := by
      rintro rfl
      exact hadd hen
    simpa [Channel.push_adds hen, Channel.push_queue hen, Function.update_of_ne hne, hne] using
      ⟨hadd, hq, hb⟩

omit [DecidableEq W] in
theorem Once.releaseTask (h : Once s) (fut : F) :
    Once { s with taskQueue := s.taskQueue.release fut } := by
  refine h.move rfl rfl (fun x hx => ?_) (fun x hp => ?_) (.inr rfl)
  · by_cases hne : x = fut
    · exact .inr (by simpa [hne] using hx)
    · simpa [Function.update_of_ne hne] using hx
  · obtain ⟨hadd, hq, hb⟩ := h.taken x hp
    refine ⟨?_, hq, hb⟩
    by_cases hne : x = fut
    · simp [hne]
    · simpa [Function.update_of_ne hne] using hadd

omit [DecidableEq F] in
theorem Once.pushWake (h : Once s) (w : W) :
    Once { s with wakeQueue := s.wakeQueue.push w, log := .pushed w :: s.log } where
  unpolled fut hf := by simpa using h.unpolled fut hf
  taken fut hp := by simpa using h.taken fut hp
  live key fut hl := by simpa using h.live key fut hl
  initial := h.initial
  woken := h.woken
  unique := h.unique
  began fut isReady hm := by simpa using h.began fut isReady (by simpa using hm)
  order fut hb := h.order fut (by simpa [Log.before_cons] using hb)

theorem once_step {l : Label F W} (h : Once s) (hen : Enabled s l) : Once (fire token s l) := by
  cases l with
  | pushTask fut => exact h.pushTask hen
  | releaseTask fut => exact h.releaseTask fut
  | pushWake w => exact h.pushWake w
  | releaseWake w => exact h.move rfl rfl (fun _ => id) h.taken (.inr rfl)
  | wait => exact h.wait
  | remove =>
    simp only [fire]
    split
    · exact h.remove _
    · exact h
  | poll =>
    simp only [fire]
    split
    · exact h.spawn ‹_›
    · exact h.wake _
    · exact h
  | finish isReady =>
    simp only [fire]
    split
    · exact h.finishSpawn ‹_› isReady
    · exact h.finishWake ‹_› isReady
    · exact h

/-- **No future is polled again after it was ready**, whatever the counter does. -/
theorem once_reachable {ok : State F W → Label F W → Prop}
    (h : (system token).ReachableBy ok s) : Once s :=
  h.invariant once_init fun _ _ _ hi hen _ => once_step hi hen

end Once

/-! ### Entries of the map -/

/-- The executor is about to poll a new future. -/
def Phase.isSpawning : Phase F W → Bool
  | .spawning _ => true
  | _ => false

/-- The executor handles a wake of `task`. -/
def Phase.Wakes (token : W → TaskToken) (task : TaskToken) : Phase F W → Prop
  | .waking w => token w = task
  | .wakePoll task' _ => task' = task
  | _ => False

variable [DecidableEq F] [DecidableEq W]

/-- **No task is disturbed by another one.** -/
structure Undisturbed (token : W → TaskToken) (s : State F W) : Prop where
  /-- An entry stays until a poll of its own future is ready. -/
  kept : ∀ l key fut, Enabled s l → s.tasks key = some fut →
    (fire token s l).tasks key = some fut ∨ l = .finish true ∧ s.phase = .wakePoll key fut
  /-- A pending initial poll puts the future under its own token, where nobody was. -/
  inserted : ∀ key fut, s.phase = .initialPoll key fut →
    s.tasks key = none ∧ (fire token s (.finish false)).tasks key = some fut
  /-- A future with a pending poll is in the map, or it has been ready since. -/
  stays : ∀ fut, .polled fut false ∈ s.log →
    .polled fut true ∈ s.log ∨ ∃ key, s.tasks key = some fut
  once : ∀ fut, ¬ Log.Before (.polled fut true) (.began fut) s.log
  /-- A wake touches no entry but its own. -/
  others : ∀ l task key, Enabled s l → s.phase.Wakes token task → key ≠ task →
    (fire token s l).tasks key = s.tasks key
  unreserved : ∀ key fut, s.Live key fut → ¬ Reserved key

omit [DecidableEq F] [DecidableEq W] in
/-- A spawn finds the counter at a value which is not reserved and which no task has. -/
def Fresh (s : State F W) : Label F W → Prop
  | .poll => s.phase.isSpawning = true → ¬ Reserved ⟨s.taskCounter⟩ ∧ s.tasks ⟨s.taskCounter⟩ = none
  | _ => True

instance (s : State F W) (l : Label F W) : Decidable (Fresh s l) :=
  match l with
  | .poll => inferInstanceAs (Decidable (s.phase.isSpawning = true →
      ¬ Reserved ⟨s.taskCounter⟩ ∧ s.tasks ⟨s.taskCounter⟩ = none))
  | .pushTask _ | .releaseTask _ | .pushWake _ | .releaseWake _ | .wait | .remove | .finish _ =>
    inferInstanceAs (Decidable True)

section Map

variable {token : W → TaskToken} {s : State F W}

/-- What a step does to the map. -/
theorem fire_tasks (token : W → TaskToken) (s : State F W) (l : Label F W) :
    (fire token s l).tasks = s.tasks ∨
    (∃ key fut, l = .finish false ∧ s.phase = .initialPoll key fut ∧
      (fire token s l).tasks = Function.update s.tasks key (some fut)) ∨
    ∃ key fut, l = .finish true ∧ s.phase = .wakePoll key fut ∧
      (fire token s l).tasks = Function.update s.tasks key none := by
  cases l with
  | wait =>
    simp only [fire, waitN]
    split_ifs <;> exact .inl rfl
  | remove =>
    simp only [fire]
    split
    · rename_i q _
      cases q <;> simp only [remove] <;> split <;> exact .inl rfl
    · exact .inl rfl
  | poll =>
    simp only [fire]
    split
    · exact .inl rfl
    · simp only [wake]
      split <;> exact .inl rfl
    · exact .inl rfl
  | finish isReady =>
    cases hph : s.phase with
    | initialPoll key fut =>
      cases isReady with
      | true => exact .inl (by simp [fire, hph, finishSpawn])
      | false => exact .inr (.inl ⟨key, fut, rfl, rfl, by simp [fire, hph, finishSpawn]⟩)
    | wakePoll key fut =>
      cases isReady with
      | true => exact .inr (.inr ⟨key, fut, rfl, rfl, by simp [fire, hph, finishWake]⟩)
      | false => exact .inl (by simp [fire, hph, finishWake])
    | _ => exact .inl (by simp [fire, hph])
  | _ => exact .inl rfl

/-- What a step logs: the return of a poll only at that poll's end. -/
theorem fire_log (token : W → TaskToken) (s : State F W) (l : Label F W) :
    ∃ es, (fire token s l).log = es ++ s.log ∧ ∀ fut isReady, .polled fut isReady ∈ es →
      l = .finish isReady ∧
        ∃ key, s.phase = .initialPoll key fut ∨ s.phase = .wakePoll key fut := by
  cases l with
  | pushWake w => exact ⟨[.pushed w], rfl, by simp⟩
  | wait =>
    simp only [fire, waitN]
    split_ifs <;> exact ⟨[], rfl, by simp⟩
  | remove =>
    simp only [fire]
    split
    · rename_i q _
      cases q <;> simp only [remove] <;> split <;> exact ⟨[], rfl, by simp⟩
    · exact ⟨[], rfl, by simp⟩
  | poll =>
    simp only [fire]
    split
    · exact ⟨[_], rfl, by simp⟩
    · simp only [wake]
      split
      · exact ⟨[_], rfl, by simp⟩
      · exact ⟨[], rfl, by simp⟩
    · exact ⟨[], rfl, by simp⟩
  | finish isReady =>
    cases hph : s.phase with
    | initialPoll key fut =>
      refine ⟨[.polled fut isReady], by simp [fire, hph, finishSpawn], fun x r hm => ?_⟩
      obtain ⟨rfl, rfl⟩ := Event.polled.inj (List.mem_singleton.1 hm)
      exact ⟨rfl, key, .inl rfl⟩
    | wakePoll key fut =>
      refine ⟨[.polled fut isReady], by simp [fire, hph, finishWake], fun x r hm => ?_⟩
      obtain ⟨rfl, rfl⟩ := Event.polled.inj (List.mem_singleton.1 hm)
      exact ⟨rfl, key, .inr rfl⟩
    | _ => exact ⟨[], by simp [fire, hph], by simp⟩
  | _ => exact ⟨[], rfl, by simp⟩

/-- How a future gets into its initial poll, and stays there. -/
theorem initialPoll_of_fire {l : Label F W} {key : TaskToken} {fut : F}
    (hp : (fire token s l).phase = .initialPoll key fut) :
    s.phase = .initialPoll key fut ∧ (fire token s l).tasks = s.tasks ∨
      l = .poll ∧ s.phase = .spawning fut ∧ key = ⟨s.taskCounter⟩ := by
  cases l with
  | wait =>
    simp only [fire, waitN] at hp
    split_ifs at hp
  | remove =>
    simp only [fire] at hp ⊢
    split at hp
    · rename_i q _
      cases q <;> simp only [remove] at hp <;> split at hp <;> cases hp
    · exact .inl ⟨hp, rfl⟩
  | poll =>
    simp only [fire] at hp ⊢
    split at hp
    · obtain ⟨rfl, rfl⟩ := Phase.initialPoll.inj hp
      exact .inr ⟨trivial, ‹_›, rfl⟩
    · simp only [wake] at hp
      split at hp <;> cases hp
    · exact .inl ⟨hp, rfl⟩
  | finish isReady =>
    simp only [fire] at hp ⊢
    split at hp
    · cases hp
    · cases hp
    · exact .inl ⟨hp, rfl⟩
  | _ => exact .inl ⟨hp, rfl⟩

/-- What spawns under `Fresh` keep: the token of a future in its initial poll is its own, no task
has a reserved one, and a future with a pending poll is in the map. -/
structure Named (s : State F W) : Prop where
  initial : ∀ key fut, s.phase = .initialPoll key fut → s.tasks key = none
  unreserved : ∀ key fut, s.Live key fut → ¬ Reserved key
  stays : ∀ fut, .polled fut false ∈ s.log →
    .polled fut true ∈ s.log ∨ ∃ key, s.tasks key = some fut

theorem named_init : Named (system (F := F) token).init where
  initial := by simp [system]
  unreserved := by simp [system, State.Live]
  stays := by simp [system]

/-- An entry stays until a poll of its own future is ready. -/
theorem tasks_kept (hini : ∀ key fut, s.phase = .initialPoll key fut → s.tasks key = none)
    (ho : Once s) (l : Label F W) {key : TaskToken} {fut : F} (hkey : s.tasks key = some fut) :
    (fire token s l).tasks key = some fut ∨ l = .finish true ∧ s.phase = .wakePoll key fut := by
  rcases fire_tasks token s l with ht | ⟨key', x, -, hph, ht⟩ | ⟨key', x, hl, hph, ht⟩ <;> rw [ht]
  · exact .inl hkey
  · -- the insertion does not find the entry in its place
    have hne : key ≠ key' := by
      rintro rfl
      rw [hini _ _ hph] at hkey
      cases hkey
    exact .inl (by rwa [Function.update_of_ne hne])
  · by_cases hk : key = key'
    · subst hk
      rw [ho.woken _ _ hph, Option.some.injEq] at hkey
      exact .inr ⟨hl, hkey ▸ hph⟩
    · exact .inl (by rwa [Function.update_of_ne hk])

/-- Whoever answers to a token after a step did so before, or was spawned by it. -/
theorem live_of_fire {l : Label F W} {key : TaskToken} {fut : F}
    (hl : (fire token s l).Live key fut) :
    s.Live key fut ∨ l = .poll ∧ s.phase = .spawning fut ∧ key = ⟨s.taskCounter⟩ := by
  rcases hl with hl | hl
  · refine .inl ?_
    rcases fire_tasks token s l with ht | ⟨key', x, -, hph, ht⟩ | ⟨key', x, -, -, ht⟩ <;>
      rw [ht] at hl
    · exact .inl hl
    · rw [Function.update_apply] at hl
      split_ifs at hl with hk
      · rw [hk, ← Option.some.inj hl]
        exact .inr hph
      · exact .inl hl
    · rw [Function.update_apply] at hl
      split_ifs at hl
      exact .inl hl
  · exact (initialPoll_of_fire hl).imp (fun h => .inr h.1) id

theorem named_step {l : Label F W} (h : Named s) (ho : Once s) (hok : Fresh s l) :
    Named (fire token s l) := by
  have hfresh : ∀ fut, l = .poll → s.phase = .spawning fut →
      ¬ Reserved ⟨s.taskCounter⟩ ∧ s.tasks ⟨s.taskCounter⟩ = none := by
    rintro fut rfl hph
    exact hok (by rw [hph]; rfl)
  refine ⟨fun key fut hp => ?_, fun key fut hl => ?_, fun fut hm => ?_⟩
  · rcases initialPoll_of_fire hp with ⟨hph, ht⟩ | ⟨rfl, hph, rfl⟩
    · rw [ht]
      exact h.initial key fut hph
    · have ht : (fire token s .poll).tasks = s.tasks := by simp [fire, hph, spawn]
      rw [ht]
      exact (hfresh fut rfl hph).2
  · rcases live_of_fire hl with hl | ⟨hpoll, hph, rfl⟩
    · exact h.unreserved key fut hl
    · exact (hfresh fut hpoll hph).1
  · obtain ⟨es, hlog, hes⟩ := fire_log token s l
    rw [hlog, List.mem_append] at hm
    -- the future had a pending poll before, or it has one now; either way its entry is there
    have hentry : (.polled fut true ∈ s.log ∨ ∃ key, s.tasks key = some fut) ∨
        l = .finish false ∧ ∃ key, s.phase = .initialPoll key fut := by
      rcases hm with hm | hm
      · obtain ⟨hl, key, hph | hph⟩ := hes _ _ hm
        · exact .inr ⟨hl, key, hph⟩
        · exact .inl (.inr ⟨key, ho.woken key fut hph⟩)
      · exact .inl (h.stays fut hm)
    rcases hentry with (hr | ⟨key, hkey⟩) | ⟨rfl, key, hph⟩
    · exact .inl (by rw [hlog]; exact List.mem_append_right _ hr)
    · have hkept : (fire token s l).tasks key = some fut ∨
          l = .finish true ∧ s.phase = .wakePoll key fut := tasks_kept h.initial ho l hkey
      rcases hkept with ht | ⟨rfl, hph⟩
      · exact .inr ⟨key, ht⟩
      · exact .inl (by simp [fire, hph, finishWake])
    · exact .inr ⟨key, by simp [fire, hph, finishSpawn]⟩

theorem named_reachable (h : (system token).ReachableBy Fresh s) : Named s :=
  h.invariant named_init fun _ _ hs hi _ hok => named_step hi (once_reachable hs) hok

end Map

/-- **The executor never displaces a live task and never hands out a reserved token**, in every
run in which each spawn finds the counter at a value that is not reserved and not in use. -/
theorem undisturbed {token : W → TaskToken} {s : State F W}
    (h : (system token).ReachableBy Fresh s) : Undisturbed token s := by
  have ho := once_reachable h
  have hn := named_reachable h
  refine ⟨fun l key fut _ hkey => tasks_kept hn.initial ho l hkey, fun key fut hph => ?_, hn.stays,
    ho.order, fun l task key _ hw hne => ?_, hn.unreserved⟩
  · exact ⟨hn.initial key fut hph, by simp [fire, hph, finishSpawn]⟩
  · rcases fire_tasks token s l with ht | ⟨key', x, -, hph, -⟩ | ⟨key', x, -, hph, ht⟩
    · rw [ht]
    · rw [hph] at hw
      exact hw.elim
    · rw [hph] at hw
      have hk : key' = task := hw
      rw [ht, hk, Function.update_of_ne hne]

/-- Two tasks under the tokens 0 and 1; the first one is ready after a wake and leaves the map,
the second one stays. -/
theorem undisturbed_two : ∃ s : State (Fin 2) (Fin 1),
    (system fun _ => ⟨0⟩).ReachableBy Fresh s ∧ s.tasks ⟨0⟩ = none ∧ s.tasks ⟨1⟩ = some 1 ∧
      Undisturbed (fun _ => ⟨0⟩) s := by
  obtain ⟨s, hs, h₀, h₁⟩ := LTS.exists_of_exec (system fun _ : Fin 1 => ⟨0⟩) Fresh
    [.pushTask 0, .releaseTask 0, .wait, .remove, .poll, .finish false, .remove,
      .pushTask 1, .releaseTask 1, .wait, .remove, .poll, .finish false, .remove,
      .pushWake 0, .releaseWake 0, .wait, .remove, .poll, .finish true]
    (fun s : State (Fin 2) (Fin 1) => s.tasks ⟨0⟩ = none ∧ s.tasks ⟨1⟩ = some 1) (by decide)
  exact ⟨s, hs, h₀, h₁, undisturbed hs⟩

/-! ### How far the counter goes -/

/-- The counter has not reached the reserved tokens when a future is spawned: at most
`2 ^ 32 - 2` spawns. -/
def Unwrapped (s : State F W) : Label F W → Prop
  | .poll => s.phase.isSpawning = true → s.taskCounter.toNat < Notification.ready.toNat
  | _ => True

/-- The tokens in use are those the counter has passed. -/
def BelowCounter (s : State F W) : Prop :=
  ∀ key fut, s.Live key fut → key.id.toNat < s.taskCounter.toNat

omit [DecidableEq F] [DecidableEq W] in
theorem fresh_of_unwrapped {s : State F W} {l : Label F W} (h : BelowCounter s)
    (hok : Unwrapped s l) : Fresh s l := by
  cases l with
  | poll =>
    intro hsp
    have hlt := hok hsp
    have hready : Notification.ready.toNat = 4294967294 := rfl
    have huninit : Notification.uninit.toNat = 4294967295 := rfl
    refine ⟨fun hr => ?_, ?_⟩
    · rcases hr with hr | hr <;> have := congrArg UInt32.toNat hr <;> simp only at this <;> omega
    · cases ht : s.tasks ⟨s.taskCounter⟩ with
      | none => rfl
      | some fut => exact absurd (h _ fut (.inl ht)) (lt_irrefl _)
  | _ => trivial

/-- The counter moves at a spawn only. -/
theorem fire_taskCounter (token : W → TaskToken) (s : State F W) (l : Label F W) :
    (fire token s l).taskCounter = s.taskCounter ∨
      l = .poll ∧ s.phase.isSpawning = true ∧
        (fire token s l).taskCounter = s.taskCounter + 1 := by
  cases l with
  | wait =>
    simp only [fire, waitN]
    split_ifs <;> exact .inl rfl
  | remove =>
    simp only [fire]
    split
    · rename_i q _
      cases q <;> simp only [remove] <;> split <;> exact .inl rfl
    · exact .inl rfl
  | poll =>
    cases hph : s.phase with
    | spawning fut => exact .inr ⟨rfl, rfl, by simp [fire, hph, spawn]⟩
    | waking w =>
      simp only [fire, hph, wake]
      split <;> exact .inl rfl
    | _ => exact .inl (by simp [fire, hph])
  | finish isReady =>
    simp only [fire]
    split <;> exact .inl rfl
  | _ => exact .inl rfl

theorem belowCounter_step {token : W → TaskToken} {s : State F W} {l : Label F W}
    (h : BelowCounter s) (hok : Unwrapped s l) : BelowCounter (fire token s l) := by
  have hready : Notification.ready.toNat = 4294967294 := rfl
  intro key fut hl
  rcases fire_taskCounter token s l with hc | ⟨rfl, hsp, hc⟩
  · rw [hc]
    rcases live_of_fire hl with hl | ⟨rfl, hph, rfl⟩
    · exact h key fut hl
    · -- a spawn does move the counter
      have hc' : (fire token s .poll).taskCounter = s.taskCounter + 1 := by simp [fire, hph, spawn]
      have hne := congrArg UInt32.toNat (hc.symm.trans hc')
      have hlt := hok (by rw [hph]; rfl)
      rw [UInt32.toNat_add] at hne
      simp only [UInt32.reduceToNat] at hne
      omega
  · have hlt := hok hsp
    have hsucc : (fire token s .poll).taskCounter.toNat = s.taskCounter.toNat + 1 := by
      rw [hc, UInt32.toNat_add]
      simp only [UInt32.reduceToNat]
      omega
    rw [hsucc]
    rcases live_of_fire hl with hl | ⟨-, -, rfl⟩
    · have := h key fut hl
      omega
    · exact Nat.lt_succ_self _

/-- **The first `2 ^ 32 - 2` spawns meet the condition.** -/
theorem fresh_of_counter_lt {token : W → TaskToken} {s : State F W}
    (h : (system token).ReachableBy Unwrapped s) : (system token).ReachableBy Fresh s := by
  have hboth : (system token).ReachableBy Fresh s ∧ BelowCounter s := by
    induction h with
    | init => exact ⟨.init, by simp [BelowCounter, system, State.Live]⟩
    | step _ hen hok ih =>
      exact ⟨ih.1.step hen (fresh_of_unwrapped ih.2 hok), belowCounter_step ih.2 hok⟩
  exact hboth.1

/-! ### Past the last token -/

section Displacement

/-- A run that spawns the futures 0, 1, 2, ...: those from `n` on were not spawned, the counter
has counted `c` of them, `vals` are queued. -/
structure Spawns (n c : ℕ) (vals : List ℕ) (phase : Phase ℕ Empty) (tasks : TaskToken → Option ℕ)
    (s : State ℕ Empty) : Prop where
  reachable : (system Empty.elim).Reachable s
  taskCounter : s.taskCounter = UInt32.ofNat c
  vals : s.taskQueue.queue.vals = vals
  phase : s.phase = phase
  tasks : s.tasks = tasks
  idle : ∀ m, n ≤ m → s.taskQueue.adds m = .idle

variable {n c : ℕ} {tasks : TaskToken → Option ℕ} {s : State ℕ Empty}

/-- The next future is added. -/
theorem Spawns.add (h : Spawns n c [] .waiting tasks s) :
    ∃ s', Spawns (n + 1) c [n] .waiting tasks s' ∧ 0 < s'.taskQueue.queue.sem.count := by
  have hidle := h.idle n le_rfl
  have hadds : (s.taskQueue.push n).adds = Function.update s.taskQueue.adds n .pushed :=
    Channel.push_adds hidle
  have hpushed : (s.taskQueue.push n).adds n = .pushed := by rw [hadds, Function.update_self]
  refine ⟨_, ⟨(h.reachable.fire (.pushTask n) hidle).fire (.releaseTask n) hpushed, h.taskCounter,
    ?_, h.phase, h.tasks, fun m hm => ?_⟩, Semaphore.release_count_pos _⟩
  · change (s.taskQueue.push n).queue.vals = _
    rw [Channel.push_queue hidle, SyncQueue.pushBack_vals, h.vals, List.nil_append]
  · change Function.update (s.taskQueue.push n).adds n .returned m = .idle
    rw [hadds, Function.update_of_ne (by omega), Function.update_of_ne (by omega)]
    exact h.idle m (by omega)

/-- The executor takes it. -/
theorem Spawns.take (h : Spawns (n + 1) c [n] .waiting tasks s)
    (hcount : 0 < s.taskQueue.queue.sem.count) :
    ∃ s', Spawns (n + 1) c [] (.spawning n) tasks s' := by
  have hback : s.taskQueue.wait.queue.back? = some n := by
    change s.taskQueue.queue.vals.getLast? = _
    rw [h.vals]
    rfl
  have hwait : (system Empty.elim).Reachable
      { s with taskQueue := s.taskQueue.wait, phase := .draining .task } :=
    h.reachable.to .wait ⟨h.phase, .inl hcount⟩ (by simp [system, fire, waitN, hcount])
  have hremove : (system Empty.elim).Reachable
      { s with taskQueue := s.taskQueue.wait.remove, phase := .spawning n } :=
    hwait.to .remove rfl (by simp only [system, fire, remove, hback])
  refine ⟨_, hremove, h.taskCounter, ?_, rfl, h.tasks, h.idle⟩
  change s.taskQueue.queue.vals.dropLast = []
  rw [h.vals]
  rfl

/-- Its initial poll begins. -/
theorem Spawns.poll (h : Spawns (n + 1) c [] (.spawning n) tasks s) :
    ∃ s', Spawns (n + 1) (c + 1) [] (.initialPoll ⟨UInt32.ofNat c⟩ n) tasks s' := by
  have hpoll : (system Empty.elim).Reachable (spawn s n) :=
    h.reachable.to .poll (show s.phase.beforePoll = true by rw [h.phase]; rfl)
      (by simp only [system, fire, h.phase])
  refine ⟨_, hpoll, ?_, h.vals, ?_, h.tasks, h.idle⟩
  · change s.taskCounter + 1 = _
    rw [h.taskCounter, UInt32.ofNat_add]
    rfl
  · change Phase.initialPoll ⟨s.taskCounter⟩ n = _
    rw [h.taskCounter]

/-- The initial poll returns and the executor goes to sleep. -/
theorem Spawns.finish {key : TaskToken} (h : Spawns (n + 1) c [] (.initialPoll key n) tasks s)
    (isReady : Bool) : ∃ s', Spawns (n + 1) c [] .waiting
      (if isReady then tasks else Function.update tasks key (some n)) s' := by
  have hback : s.taskQueue.queue.back? = none := SyncQueue.back?_eq_none.2 h.vals
  have hfin : (system Empty.elim).Reachable (finishSpawn s key n isReady) :=
    h.reachable.to (.finish isReady) (show s.phase.isPoll = true by rw [h.phase]; rfl)
      (by simp only [system, fire, h.phase])
  have hremove : (system Empty.elim).Reachable
      { finishSpawn s key n isReady with phase := .waiting } :=
    hfin.to .remove rfl (by simp only [system, fire, finishSpawn, remove, hback])
  refine ⟨_, hremove, h.taskCounter, h.vals, rfl, ?_, h.idle⟩
  change (if isReady then s.tasks else Function.update s.tasks key (some n)) = _
  rw [h.tasks]

/-- One more spawn, up to its initial poll. -/
theorem Spawns.next (h : Spawns n n [] .waiting tasks s) :
    ∃ s', Spawns (n + 1) (n + 1) [] (.initialPoll ⟨UInt32.ofNat n⟩ n) tasks s' := by
  obtain ⟨_, h₁, hcount⟩ := h.add
  obtain ⟨_, h₂⟩ := h₁.take hcount
  exact h₂.poll

/-- Future 0 is pending, the next ones are ready at once, any number of them. -/
theorem exists_spawns (n : ℕ) : ∃ s, Spawns (n + 1) (n + 1) [] .waiting
    (Function.update (fun _ => none) ⟨0⟩ (some 0)) s := by
  induction n with
  | zero =>
    have h₀ : Spawns 0 0 [] .waiting (fun _ => none) (system Empty.elim).init :=
      ⟨.init, rfl, rfl, rfl, rfl, fun _ _ => rfl⟩
    obtain ⟨_, h₁⟩ := h₀.next
    exact h₁.finish false
  | succ n ih =>
    obtain ⟨_, h₁⟩ := ih
    obtain ⟨_, h₂⟩ := h₁.next
    exact h₂.finish true

/-- **A live task is displaced, and reserved tokens are handed out.**  Future 0 stays pending
under the token 0 while `2 ^ 32 - 1` others are spawned.  The last of these gets the token
`u32::MAX`, the next one gets the token 0 again, and when its initial poll is pending it replaces
future 0 in the map. -/
theorem displaced :
    (∃ (s : State ℕ Empty) (fut : ℕ), (system Empty.elim).Reachable s ∧ s.Live ⟨u32Max⟩ fut ∧
      ¬ Undisturbed Empty.elim s) ∧
    ∃ (s : State ℕ Empty) (fut : ℕ), (system Empty.elim).Reachable s ∧ s.tasks ⟨0⟩ = some 0 ∧
      fut ≠ 0 ∧ (fire Empty.elim s (.finish false)).tasks ⟨0⟩ = some fut ∧
      ¬ Undisturbed Empty.elim s := by
  constructor
  · obtain ⟨_, h⟩ := exists_spawns (2 ^ 32 - 2)
    obtain ⟨s, h⟩ := h.next
    have hlive : s.Live ⟨u32Max⟩ _ := .inr h.phase
    exact ⟨s, _, h.reachable, hlive, fun hu => hu.unreserved _ _ hlive (.inr rfl)⟩
  · obtain ⟨_, h⟩ := exists_spawns (2 ^ 32 - 1)
    obtain ⟨s, h⟩ := h.next
    have hzero : s.tasks ⟨0⟩ = some 0 := by rw [h.tasks, Function.update_self]
    have hph : s.phase = .initialPoll ⟨0⟩ (2 ^ 32 - 1 + 1) := h.phase
    refine ⟨s, 2 ^ 32 - 1 + 1, h.reachable, hzero, Nat.succ_ne_zero _, ?_, fun hu => ?_⟩
    · simp [fire, hph, finishSpawn]
    · exact absurd (hu.inserted _ _ hph).1 (by simp [hzero])

end Displacement

end Executor

end BunnyDs
