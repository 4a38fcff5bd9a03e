import BunnyDs.Executor.Progress
import BunnyDs.LTS.Scheduler
import Mathlib.Data.Fin.VecNotation

/-!
# The executor is a scheduler

`Scheduler.system` says what an executor is for, without queues, semaphores, tokens or a map.
`State.scheduler` reads its state off the executor's: the life of a future off the log and off the
`add` call of its spawn, a wake call off `WAKE_QUEUE`.

* `Executor.simulation` : **every step of the executor and of its clients is a step of the
  scheduler, or is not visible there**: half of an `add`, a wait and a `remove` are not, a poll that
  begins is the start of a job or the answer to a call, and a `wake` that finds nobody in the map
  discards a call that asks for nothing.
* `Executor.refines_scheduler` : moreover the executor blocks only if the scheduler has nothing to
  do, as soon as the `add` calls under way have returned.

The tokens must not wrap: `Numbered tok` with an injective `tok`.
-/

namespace BunnyDs

namespace Executor

variable {F W : Type*} [DecidableEq F] [DecidableEq W]

/-- The life of a future. -/
def State.life (s : State F W) (fut : F) : Scheduler.Life :=
  if .polled fut true ∈ s.log then .done
  else if s.phase.polls fut then .running
  else if .began fut ∈ s.log then .idle
  else if s.taskQueue.adds fut = .idle then .new
  else .queued

/-- Where a wake call is: its token is in the queue or just taken while the call is pending. -/
def State.call (s : State F W) (w : W) : Scheduler.Call :=
  if s.wakeQueue.adds w = .idle then .unmade
  else if w ∈ s.wakeQueue.queue.vals ∨ s.phase = .waking w then .pending
  else .handled

/-- What the executor's state is to its clients. -/
def State.scheduler (s : State F W) : Scheduler.State F W := ⟨s.life, s.call⟩

omit [DecidableEq F] [DecidableEq W] in
/-- The wake call is for the future. -/
def Aims (token : W → TaskToken) (tok : F → TaskToken) (w : W) (fut : F) : Prop :=
  token w = tok fut

variable {token : W → TaskToken} {tok : F → TaskToken} {s s' : State F W}

/-! ### Reading the state -/

/-- The life of a future depends on its polls and on whether it was spawned. -/
theorem life_congr {fut : F} (hready : .polled fut true ∈ s'.log ↔ .polled fut true ∈ s.log)
    (hpolls : s'.phase.polls fut = s.phase.polls fut)
    (hbegan : .began fut ∈ s'.log ↔ .began fut ∈ s.log)
    (hadds : s'.taskQueue.adds fut = .idle ↔ s.taskQueue.adds fut = .idle) :
    s'.life fut = s.life fut := by
  simp only [State.life, hready, hpolls, hbegan, hadds]

theorem life_of_calm (h : Calm s s')
    (hadds : ∀ fut, s'.taskQueue.adds fut = .idle ↔ s.taskQueue.adds fut = .idle) :
    s'.life = s.life := by
  funext fut
  exact life_congr (h.polled fut true) (h.polls fut) (h.began fut) (hadds fut)

/-- A wake call depends on the queue and on whether its token was just taken. -/
theorem call_congr (hadds : ∀ w, s'.wakeQueue.adds w = .idle ↔ s.wakeQueue.adds w = .idle)
    (hwaits : ∀ w, (w ∈ s'.wakeQueue.queue.vals ∨ s'.phase = .waking w) ↔
      (w ∈ s.wakeQueue.queue.vals ∨ s.phase = .waking w)) : s'.call = s.call := by
  funext w
  simp only [State.call, hadds, hwaits]

omit [DecidableEq W] in
/-- A future in a poll has begun one, and was not ready. -/
theorem Once.polling (h : Once s) {fut : F} (hp : s.phase.polls fut = true) :
    .began fut ∈ s.log ∧ .polled fut true ∉ s.log := by
  cases hph : s.phase with
  | initialPoll key x =>
    obtain rfl : x = fut := by simpa [hph, Phase.polls] using hp
    exact h.live key x (.inr hph)
  | wakePoll key x =>
    obtain rfl : x = fut := by simpa [hph, Phase.polls] using hp
    exact h.live key x (.inl (h.woken key x hph))
  | _ => simp [hph, Phase.polls] at hp

theorem Once.life_running_iff (h : Once s) {fut : F} :
    s.life fut = .running ↔ s.phase.polls fut = true := by
  constructor
  · intro hl
    simp only [State.life] at hl
    split_ifs at hl
    assumption
  · intro hp
    simp [State.life, hp, (h.polling hp).2]

theorem life_idle_iff {fut : F} :
    s.life fut = .idle ↔
      .polled fut true ∉ s.log ∧ s.phase.polls fut = false ∧ .began fut ∈ s.log := by
  simp only [State.life]
  split_ifs <;> simp_all

theorem Once.life_queued_iff (h : Once s) {fut : F} :
    s.life fut = .queued ↔ .began fut ∉ s.log ∧ s.taskQueue.adds fut ≠ .idle := by
  constructor
  · intro hl
    simp only [State.life] at hl
    split_ifs at hl
    exact ⟨‹_›, ‹_›⟩
  · rintro ⟨hb, ha⟩
    have hr : .polled fut true ∉ s.log := fun hm => hb (h.began fut true hm)
    have hp : s.phase.polls fut = false := by
      rw [Bool.eq_false_iff]
      exact fun hp => hb (h.polling hp).1
    simp [State.life, hr, hp, hb, ha]

theorem Once.life_new_iff (h : Once s) {fut : F} :
    s.life fut = .new ↔ s.taskQueue.adds fut = .idle := by
  constructor
  · intro hl
    simp only [State.life] at hl
    split_ifs at hl
    assumption
  · intro ha
    have hb := h.unpolled fut (.inl ha)
    have hr : .polled fut true ∉ s.log := fun hm => hb (h.began fut true hm)
    have hp : s.phase.polls fut = false := by
      rw [Bool.eq_false_iff]
      exact fun hp => hb (h.polling hp).1
    simp [State.life, hr, hp, hb, ha]

/-- An executor outside of polls leaves the scheduler free. -/
theorem Once.free (h : Once s) (hph : ∀ fut, s.phase.polls fut = false) : s.scheduler.Free := by
  intro fut hrun
  rw [show s.scheduler.life fut = s.life fut from rfl, h.life_running_iff, hph fut] at hrun
  cases hrun

/-! ### Tokens in hand -/

omit [DecidableEq F] [DecidableEq W] in
/-- The token in hand was taken off the queue. -/
def InHand (s : State F W) : Prop :=
  ∀ w, s.phase = .waking w → s.wakeQueue.adds w ≠ .idle ∧ w ∉ s.wakeQueue.queue.vals

omit [DecidableEq F] [DecidableEq W] in
theorem inHand_remove (q : Which) : InHand (remove s q) := by
  intro w hw
  cases q with
  | task =>
    simp only [remove] at hw
    split at hw <;> cases hw
  | wake =>
    cases hback : s.wakeQueue.queue.back? with
    | none => simp [remove, hback] at hw
    | some x =>
      obtain rfl : x = w := by simpa [remove, hback] using hw
      have hvals := SyncQueue.vals_eq_of_back? hback
      have hmem : x ∈ s.wakeQueue.queue.vals := by
        rw [hvals]
        simp
      have hnd := s.wakeQueue.nodup
      rw [hvals, List.nodup_append] at hnd
      simp only [remove, hback]
      exact ⟨s.wakeQueue.pushed_of_mem x hmem,
        fun hx => hnd.2.2 _ hx _ (List.mem_singleton_self _) rfl⟩

theorem inHand_step {l : Label F W} (h : InHand s) (hen : Enabled s l) :
    InHand (fire token s l) := by
  cases l with
  | pushTask fut => exact h
  | releaseTask fut => exact h
  | pushWake x =>
    intro w hw
    obtain ⟨ha, hv⟩ := h w hw
    have hx : s.wakeQueue.adds x = .idle := hen
    have hne : w ≠ x := by
      rintro rfl
      exact ha hx
    simpa [fire, Channel.push_adds hx, Channel.push_queue hx, Function.update_of_ne hne, hne]
      using ⟨ha, hv⟩
  | releaseWake x =>
    intro w hw
    obtain ⟨ha, hv⟩ := h w hw
    refine ⟨?_, hv⟩
    by_cases hne : w = x
    · simp [fire, hne]
    · simpa [fire, Function.update_of_ne hne] using ha
  | wait =>
    intro w hw
    simp only [fire, waitN] at hw
    split_ifs at hw
  | remove =>
    simp only [fire]
    split
    · exact inHand_remove _
    · exact h
  | poll =>
    intro w hw
    cases hph : s.phase with
    | spawning fut => simp [fire, hph, spawn] at hw
    | waking x =>
      simp only [fire, hph, wake] at hw
      split at hw <;> cases hw
    | _ => simp [Enabled, hph, Phase.beforePoll] at hen
  | finish b =>
    intro w hw
    cases hph : s.phase with
    | initialPoll key fut => simp [fire, hph, finishSpawn] at hw
    | wakePoll key fut => simp [fire, hph, finishWake] at hw
    | _ => simp [Enabled, hph, Phase.isPoll] at hen

theorem inHand_reachable {ok : State F W → Label F W → Prop}
    (h : (system token).ReachableBy ok s) : InHand s :=
  h.invariant (fun w hw => by cases hw) fun _ _ _ hi hen _ => inHand_step hi hen

/-! ### Steps that are not visible -/

theorem scheduler_releaseTask {fut : F} (hen : s.taskQueue.adds fut = .pushed) :
    { s with taskQueue := s.taskQueue.release fut }.scheduler = s.scheduler := by
  refine Scheduler.State.ext (life_of_calm (.of_log (fun _ => rfl) rfl) fun x => ?_)
    (call_congr (fun _ => .rfl) fun _ => .rfl)
  by_cases hx : x = fut
  · simp [hx, hen]
  · simp [Function.update_of_ne hx]

theorem scheduler_releaseWake {w : W} (hen : s.wakeQueue.adds w = .pushed) :
    { s with wakeQueue := s.wakeQueue.release w }.scheduler = s.scheduler := by
  refine Scheduler.State.ext (life_of_calm (.of_log (fun _ => rfl) rfl) fun _ => .rfl)
    (call_congr (fun x => ?_) fun _ => .rfl)
  by_cases hx : x = w
  · simp [hx, hen]
  · simp [Function.update_of_ne hx]

theorem scheduler_wait (hph : s.phase = .waiting) : (waitN s).scheduler = s.scheduler := by
  unfold waitN
  split_ifs
  all_goals
    exact Scheduler.State.ext
      (life_of_calm (.of_log (fun _ => by rw [hph]; rfl) rfl) fun _ => .rfl)
      (call_congr (fun _ => .rfl) fun w => by simp [hph])

theorem scheduler_remove {q : Which} (hph : s.phase = .draining q) :
    (remove s q).scheduler = s.scheduler := by
  have hcalm : ∀ s' : State F W, s'.log = s.log → s'.phase.isPoll = false → Calm s s' := by
    intro s' hlog hp
    refine .of_log (fun fut => ?_) hlog
    rw [hph]
    cases hph' : s'.phase <;> simp_all [Phase.polls, Phase.isPoll]
  cases q with
  | task =>
    simp only [remove]
    split
    all_goals
      exact Scheduler.State.ext (life_of_calm (hcalm _ rfl rfl) fun _ => .rfl)
        (call_congr (fun _ => .rfl) fun w => by simp [hph])
  | wake =>
    simp only [remove]
    split
    · rename_i x hback
      refine Scheduler.State.ext (life_of_calm (hcalm _ rfl rfl) fun _ => .rfl)
        (call_congr (fun _ => .rfl) fun w => ?_)
      -- the last token of the queue is now in hand
      have hvals := SyncQueue.vals_eq_of_back? hback
      rw [hvals, hph]
      simp [eq_comm]
    · exact Scheduler.State.ext (life_of_calm (hcalm _ rfl rfl) fun _ => .rfl)
        (call_congr (fun _ => .rfl) fun w => by simp [hph])

/-! ### Steps that are -/

theorem scheduler_pushTask {fut : F} (ho : Once s) (hen : s.taskQueue.adds fut = .idle) :
    { s with taskQueue := s.taskQueue.push fut }.scheduler =
      Scheduler.fire s.scheduler (.spawn fut) := by
  have ho' := ho.pushTask hen
  refine Scheduler.State.ext ?_ (call_congr (fun _ => .rfl) fun _ => .rfl)
  funext x
  by_cases hx : x = fut
  · subst hx
    simp only [Scheduler.fire, Function.update_self]
    refine ho'.life_queued_iff.2 ⟨ho.unpolled x (.inl hen), ?_⟩
    simp [Channel.push_adds hen]
  · simp only [Scheduler.fire, Function.update_of_ne hx]
    exact life_congr .rfl rfl .rfl (by simp [Channel.push_adds hen, Function.update_of_ne hx])

theorem scheduler_pushWake {w : W} (hen : s.wakeQueue.adds w = .idle) :
    { s with wakeQueue := s.wakeQueue.push w, log := .pushed w :: s.log }.scheduler =
      Scheduler.fire s.scheduler (.call w) := by
  refine Scheduler.State.ext (life_of_calm (.of_pushed (fun _ => rfl) rfl) fun _ => .rfl) ?_
  funext x
  by_cases hx : x = w
  · subst hx
    simp [Scheduler.fire, State.scheduler, State.call, Channel.push_adds hen,
      Channel.push_queue hen]
  · simp [Scheduler.fire, State.scheduler, State.call, Channel.push_adds hen,
      Channel.push_queue hen, hx]

/-- A poll of `fut` begins. -/
theorem life_began {fut : F} (ho' : Once s')
    (hbefore : ∀ x, s.phase.polls x = false) (hafter : ∀ x, s'.phase.polls x = true ↔ x = fut)
    (hlog : s'.log = .began fut :: s.log) (hadds : s'.taskQueue.adds = s.taskQueue.adds) :
    s'.life = Function.update s.life fut .running := by
  funext x
  by_cases hx : x = fut
  · rw [hx, Function.update_self]
    exact ho'.life_running_iff.2 ((hafter fut).2 rfl)
  · rw [Function.update_of_ne hx]
    have hp : s'.phase.polls x = false := by
      rw [Bool.eq_false_iff]
      exact fun hp => hx ((hafter x).1 hp)
    exact life_congr (by simp [hlog]) (hp.trans (hbefore x).symm) (by simp [hlog, hx])
      (by rw [hadds])

/-- The poll of `fut` returns. -/
theorem life_returned {fut : F} {b : Bool} (ho : Once s)
    (hbefore : ∀ x, s.phase.polls x = true ↔ x = fut) (hafter : ∀ x, s'.phase.polls x = false)
    (hlog : s'.log = .polled fut b :: s.log) (hadds : s'.taskQueue.adds = s.taskQueue.adds) :
    s'.life = Function.update s.life fut (if b then .done else .idle) := by
  obtain ⟨hbegan, hready⟩ := ho.polling ((hbefore fut).2 rfl)
  funext x
  by_cases hx : x = fut
  · rw [hx, Function.update_self]
    cases b with
    | true => simp [State.life, hlog]
    | false =>
      exact life_idle_iff.2 ⟨by simpa [hlog] using hready, hafter fut, by simp [hlog, hbegan]⟩
  · rw [Function.update_of_ne hx]
    have hp : s.phase.polls x = false := by
      rw [Bool.eq_false_iff]
      exact fun hp => hx ((hbefore x).1 hp)
    exact life_congr (by simp [hlog, hx]) ((hafter x).trans hp.symm) (by simp [hlog])
      (by rw [hadds])

theorem scheduler_spawn {fut : F} (ho : Once s) (hph : s.phase = .spawning fut) :
    (spawn s fut).scheduler = Scheduler.fire s.scheduler (.start fut) := by
  refine Scheduler.State.ext ?_ (call_congr (fun _ => .rfl) fun w => by simp [spawn, hph])
  exact life_began (ho.spawn hph) (fun x => by rw [hph]; rfl)
    (fun x => by simp [spawn, Phase.polls, eq_comm]) rfl rfl

/-- The token in hand is dealt with. -/
theorem call_handled {w : W} (hh : InHand s) (hph : s.phase = .waking w)
    (hqueue : s'.wakeQueue = s.wakeQueue) (hph' : ∀ x, s'.phase ≠ .waking x) :
    s'.call = Function.update s.call w .handled := by
  obtain ⟨hadds, hvals⟩ := hh w hph
  funext x
  by_cases hx : x = w
  · simp [State.call, hx, hqueue, hadds, hvals, hph']
  · rw [Function.update_of_ne hx]
    simp [State.call, hqueue, hph', hph, Ne.symm hx]

theorem scheduler_answer {w : W} {fut : F} (ho : Once s) (hh : InHand s)
    (hph : s.phase = .waking w) (ht : s.tasks (token w) = some fut) :
    (wake s (token w)).scheduler = Scheduler.fire s.scheduler (.answer w fut) := by
  have ho' := ho.wake (token w)
  simp only [wake, ht] at ho' ⊢
  refine Scheduler.State.ext ?_ (call_handled hh hph rfl (by simp))
  exact life_began ho' (fun x => by rw [hph]; rfl) (fun x => by simp [Phase.polls, eq_comm]) rfl rfl

theorem scheduler_discard {w : W} (hh : InHand s) (hph : s.phase = .waking w)
    (ht : s.tasks (token w) = none) :
    (wake s (token w)).scheduler = Scheduler.fire s.scheduler (.discard w) := by
  simp only [wake, ht]
  refine Scheduler.State.ext (life_of_calm (.of_log (fun _ => by rw [hph]; rfl) rfl) fun _ => .rfl)
    (call_handled hh hph rfl (by simp))

theorem scheduler_finish (token : W → TaskToken) {b : Bool} (ho : Once s)
    (hen : Enabled s (.finish b)) :
    ∃ fut, s.phase.polls fut = true ∧
      (fire token s (.finish b)).scheduler = Scheduler.fire s.scheduler (.finish fut b) := by
  cases hph : s.phase with
  | initialPoll key fut =>
    refine ⟨fut, by simp [Phase.polls], ?_⟩
    simp only [fire, hph, finishSpawn]
    refine Scheduler.State.ext ?_ (call_congr (fun _ => .rfl) fun w => by simp [hph])
    exact life_returned ho (fun x => by simp [hph, Phase.polls, eq_comm]) (fun _ => rfl) rfl rfl
  | wakePoll key fut =>
    refine ⟨fut, by simp [Phase.polls], ?_⟩
    simp only [fire, hph, finishWake]
    refine Scheduler.State.ext ?_ (call_congr (fun _ => .rfl) fun w => by simp [hph])
    exact life_returned ho (fun x => by simp [hph, Phase.polls, eq_comm]) (fun _ => rfl) rfl rfl
  | _ => simp [Enabled, hph, Phase.isPoll] at hen

/-! ### The refinement -/

/-- **Every step is one of the scheduler's, or is not visible to it.** -/
theorem simulation (token : W → TaskToken) (htok : Function.Injective tok) :
    (system token).Simulation (Numbered tok) (Scheduler.system (Aims token tok))
      (fun _ _ => True) State.scheduler := by
  refine ⟨?_, fun s l hs hen _ => ?_⟩
  · refine Scheduler.State.ext ?_ ?_ <;> funext x <;>
      simp [system, State.scheduler, State.life, State.call, Phase.polls, Scheduler.system]
  have ho := once_reachable hs
  have hh := inHand_reachable hs
  cases l with
  | pushTask fut =>
    exact .inr ⟨.spawn fut, ho.life_new_iff.2 hen, trivial, scheduler_pushTask ho hen⟩
  | releaseTask fut => exact .inl (scheduler_releaseTask hen)
  | pushWake w =>
    have hen : s.wakeQueue.adds w = .idle := hen
    refine .inr ⟨.call w, ?_, trivial, scheduler_pushWake hen⟩
    simp [Scheduler.system, Scheduler.Enabled, State.scheduler, State.call, hen]
  | releaseWake w => exact .inl (scheduler_releaseWake hen)
  | wait => exact .inl (scheduler_wait hen.1)
  | remove =>
    cases hph : s.phase with
    | draining q =>
      refine .inl ?_
      simp only [system, fire, hph]
      exact scheduler_remove hph
    | _ => simp [system, Enabled, hph, Phase.isDraining] at hen
  | poll =>
    cases hph : s.phase with
    | spawning fut =>
      obtain ⟨hadds, -, hnew⟩ := ho.taken fut hph
      have hfree := ho.free fun x => by rw [hph]; rfl
      refine .inr ⟨.start fut, ⟨hfree, ho.life_queued_iff.2 ⟨hnew, hadds⟩⟩, trivial, ?_⟩
      simp only [system, fire, hph]
      exact scheduler_spawn ho hph
    | waking w =>
      have hfree := ho.free fun x => by rw [hph]; rfl
      have hpending : s.call w = .pending := by simp [State.call, hph, (hh w hph).1]
      simp only [system, fire, hph]
      cases ht : s.tasks (token w) with
      | some fut =>
        have hlive := ho.live (token w) fut (.inl ht)
        have hidle : s.life fut = .idle :=
          life_idle_iff.2 ⟨hlive.2, by rw [hph]; rfl, hlive.1⟩
        exact .inr ⟨.answer w fut, ⟨hfree, hpending, live_tok hs (.inl ht), hidle⟩, trivial,
          scheduler_answer ho hh hph ht⟩
      | none =>
        -- whoever waits for the call would be in the map
        refine .inr ⟨.discard w, ⟨hfree, hpending, fun fut haims hidle => ?_⟩, trivial,
          scheduler_discard hh hph ht⟩
        obtain ⟨hready, hpolls, hbegan⟩ := life_idle_iff.1 hidle
        have hin := (resident htok hs hbegan hpolls).resolve_left hready
        rw [← show token w = tok fut from haims, ht] at hin
        cases hin
    | _ => simp [system, Enabled, hph, Phase.beforePoll] at hen
  | finish b =>
    obtain ⟨fut, hp, he⟩ := scheduler_finish token ho hen
    exact .inr ⟨.finish fut b, ho.life_running_iff.2 hp, trivial, he⟩

omit [DecidableEq F] [DecidableEq W] in
/-- No `add` call is under way. -/
def State.Quiet (s : State F W) : Prop :=
  (∀ fut, s.taskQueue.adds fut ≠ .pushed) ∧ ∀ w, s.wakeQueue.adds w ≠ .pushed

/-- A blocked executor with no `add` call under way leaves the scheduler nothing to do. -/
theorem at_rest (hi : Inv token s) (ho : Once s) (hidle : (system token).Idle Label.own s)
    (hquiet : s.Quiet) :
    (Scheduler.system (Aims token tok)).Idle Scheduler.Label.own s.scheduler := by
  obtain ⟨hph, htasks, hwakes⟩ := blocked_of_idle hidle
  refine Scheduler.idle_iff.2 ⟨fun fut => ⟨fun hq => ?_, fun hr => ?_⟩, fun w hw => ?_⟩
  · obtain ⟨hnew, hadds⟩ := ho.life_queued_iff.1 hq
    have hm := (hi.queued_or_began (by rw [hph]; rfl) hadds).resolve_right hnew
    exact hquiet.1 fut ((hi.task_awake (by rw [hph]; rfl)).pushed htasks hm)
  · rw [show s.scheduler.life fut = s.life fut from rfl, ho.life_running_iff, hph] at hr
    cases hr
  · simp only [State.scheduler, State.call] at hw
    split_ifs at hw with _ hm
    have hm : w ∈ s.wakeQueue.queue.vals := by simpa [hph] using hm
    exact hquiet.2 w ((hi.wake_awake (by rw [hph]; rfl)).pushed hwakes hm)

/-- **The executor refines the scheduler.** -/
structure Refines (token : W → TaskToken) (tok : F → TaskToken) : Prop where
  simulation : (system token).Simulation (Numbered tok) (Scheduler.system (Aims token tok))
    (fun _ _ => True) State.scheduler
  /-- It blocks only if the scheduler has nothing to do. -/
  rest : ∀ s : State F W, (system token).ReachableBy (Numbered tok) s →
    (system token).Idle Label.own s → s.Quiet →
    (Scheduler.system (Aims token tok)).Idle Scheduler.Label.own s.scheduler

/-- **The executor is a scheduler of one processor**, for any futures and wake calls, as long as
no two futures get the same token. -/
theorem refines_scheduler (token : W → TaskToken) (htok : Function.Injective tok) :
    Refines token tok :=
  ⟨simulation token htok, fun _ hs hidle hquiet =>
    at_rest (inv_reachable hs.reachable) (once_reachable hs) hidle hquiet⟩

/-- Both wake calls are for the first of two tasks: one is answered by the poll that is its last,
the other one is discarded. -/
theorem refines_scheduler_two : ∃ s : State (Fin 2) (Fin 2),
    (system fun _ => ⟨0⟩).ReachableBy (Numbered ![⟨0⟩, ⟨1⟩]) s ∧
    (s.life 0 = .done ∧ s.life 1 = .idle ∧ s.call 0 = .handled ∧ s.call 1 = .handled) ∧
    (Scheduler.system (Aims (fun _ => ⟨0⟩) ![⟨0⟩, ⟨1⟩])).Reachable s.scheduler := by
  obtain ⟨s, hs, hend⟩ := LTS.exists_of_exec (system fun _ => ⟨0⟩) (Numbered ![⟨0⟩, ⟨1⟩])
    [.pushTask 0, .releaseTask 0, .wait, .remove, .poll, .pushTask 1, .finish false, .remove,
      .releaseTask 1, .poll, .finish false, .pushWake 0, .remove, .releaseWake 0, .wait, .remove,
      .wait, .remove, .poll, .finish true, .pushWake 1, .remove, .poll]
    (fun s : State (Fin 2) (Fin 2) =>
      s.life 0 = .done ∧ s.life 1 = .idle ∧ s.call 0 = .handled ∧ s.call 1 = .handled)
    (by decide)
  have htok : Function.Injective (![⟨0⟩, ⟨1⟩] : Fin 2 → TaskToken) := by
    unfold Function.Injective
    decide
  exact ⟨s, hs, hend, (refines_scheduler _ htok).simulation.reachableBy hs⟩

end Executor

end BunnyDs
