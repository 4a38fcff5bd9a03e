import BunnyDs.Executor.Tokens

/-!
# Polls, wakes and the map along a run

What a client of the executor needs to know about a run, besides `Executor.Inv`:

* `Executor.fire_polls` : the four things a step does to polls and log (nothing, a wake call, the
  begin of a poll, the return of a poll);
* `Executor.count_pushed` : a wake call pushes its token once;
* `Executor.resident` : in runs that hand out the tokens `tok`, a future that was polled and is
  not ready is in the map under its own token whenever it is not being polled.
-/

namespace BunnyDs

namespace Executor

variable {F W : Type*} [DecidableEq F] [DecidableEq W] {token : W → TaskToken} {s : State F W}

omit [DecidableEq W] in
/-- The event is the begin of a poll of `fut`. -/
def Event.isBeganOf (fut : F) : Event F W → Bool
  | .began fut' => fut' = fut
  | _ => false

omit [DecidableEq W] in
theorem since_pushed (fut : F) (w : W) (log : List (Event F W)) :
    Log.since (Event.isBeganOf fut) (.pushed w :: log) =
      .pushed w :: Log.since (Event.isBeganOf fut) log := by
  rw [Log.since_cons]
  rfl

omit [DecidableEq W] in
theorem since_polled (fut x : F) (b : Bool) (log : List (Event F W)) :
    Log.since (Event.isBeganOf fut) (.polled x b :: log) =
      .polled x b :: Log.since (Event.isBeganOf fut) log := by
  rw [Log.since_cons]
  rfl

omit [DecidableEq W] in
theorem since_began_of_ne {fut x : F} (hne : x ≠ fut) (log : List (Event F W)) :
    Log.since (Event.isBeganOf fut) (.began x :: log) =
      .began x :: Log.since (Event.isBeganOf fut) log := by
  simp [Log.since_cons, Event.isBeganOf, hne]

/-! ### What a step does -/

/-- What a step does to the polls and to the log. -/
inductive Effect (s s' : State F W) : Label F W → Prop
  /-- Nothing is logged, and no poll begins or returns. -/
  | silent {l : Label F W} (hl : ∀ w, l ≠ .pushWake w)
      (hpolls : ∀ fut, s'.phase.polls fut = s.phase.polls fut) (hlog : s'.log = s.log) :
      Effect s s' l
  /-- The wake call `w` pushes its token. -/
  | pushed (w : W) (hpolls : ∀ fut, s'.phase.polls fut = s.phase.polls fut)
      (hlog : s'.log = .pushed w :: s.log) : Effect s s' (.pushWake w)
  /-- A poll of `fut` begins. -/
  | began (fut : F) (hbefore : ∀ x, s.phase.polls x = false)
      (hafter : ∀ x, s'.phase.polls x = true ↔ x = fut) (hlog : s'.log = .began fut :: s.log) :
      Effect s s' .poll
  /-- The poll of `fut` returns. -/
  | returned (fut : F) (b : Bool) (hbefore : ∀ x, s.phase.polls x = true ↔ x = fut)
      (hafter : ∀ x, s'.phase.polls x = false) (hlog : s'.log = .polled fut b :: s.log) :
      Effect s s' (.finish b)

/-- **Every step is one of the four.** -/
theorem fire_polls (token : W → TaskToken) (s : State F W) {l : Label F W} (hen : Enabled s l) :
    Effect s (fire token s l) l := by
  cases l with
  | pushTask fut => exact .silent (by simp) (fun _ => rfl) rfl
  | releaseTask fut => exact .silent (by simp) (fun _ => rfl) rfl
  | pushWake w => exact .pushed w (fun _ => rfl) rfl
  | releaseWake w => exact .silent (by simp) (fun _ => rfl) rfl
  | wait =>
    have hph : s.phase = .waiting := hen.1
    simp only [fire, waitN]
    split_ifs <;> exact .silent (by simp) (fun _ => by rw [hph]; rfl) rfl
  | remove =>
    cases hph : s.phase with
    | draining q =>
      cases q <;> simp only [fire, hph, remove] <;> split <;>
        exact .silent (by simp) (fun _ => by rw [hph]; rfl) rfl
    | _ => simp [Enabled, hph, Phase.isDraining] at hen
  | poll =>
    cases hph : s.phase with
    | spawning fut =>
      simp only [fire, hph, spawn]
      exact .began fut (fun _ => by rw [hph]; rfl) (fun x => by simp [Phase.polls, eq_comm]) rfl
    | waking w =>
      simp only [fire, hph, wake]
      split
      · rename_i fut _
        exact .began fut (fun _ => by rw [hph]; rfl) (fun x => by simp [Phase.polls, eq_comm]) rfl
      · exact .silent (by simp) (fun _ => by rw [hph]; rfl) rfl
    | _ => simp [Enabled, hph, Phase.beforePoll] at hen
  | finish b =>
    cases hph : s.phase with
    | initialPoll key fut =>
      simp only [fire, hph, finishSpawn]
      exact .returned fut b (fun x => by simp [hph, Phase.polls, eq_comm]) (fun _ => rfl) rfl
    | wakePoll key fut =>
      simp only [fire, hph, finishWake]
      exact .returned fut b (fun x => by simp [hph, Phase.polls, eq_comm]) (fun _ => rfl) rfl
    | _ => simp [Enabled, hph, Phase.isPoll] at hen

omit [DecidableEq W] in
/-- Between `s` and `s'` no poll began or returned, though tokens may have been pushed. -/
structure Calm (s s' : State F W) : Prop where
  polls : ∀ fut, s'.phase.polls fut = s.phase.polls fut
  began : ∀ fut, .began fut ∈ s'.log ↔ .began fut ∈ s.log
  polled : ∀ fut b, .polled fut b ∈ s'.log ↔ .polled fut b ∈ s.log
  since : ∀ fut w, .pushed w ∈ Log.since (Event.isBeganOf fut) s.log →
    .pushed w ∈ Log.since (Event.isBeganOf fut) s'.log

omit [DecidableEq W] in
theorem Calm.of_log {s s' : State F W} (hpolls : ∀ fut, s'.phase.polls fut = s.phase.polls fut)
    (hlog : s'.log = s.log) : Calm s s' := by
  refine ⟨hpolls, fun fut => ?_, fun fut b => ?_, fun fut w hw => ?_⟩ <;> rw [hlog]
  exact hw

omit [DecidableEq W] in
theorem Calm.of_pushed {s s' : State F W} {w : W}
    (hpolls : ∀ fut, s'.phase.polls fut = s.phase.polls fut)
    (hlog : s'.log = .pushed w :: s.log) : Calm s s' := by
  refine ⟨hpolls, fun fut => ?_, fun fut b => ?_, fun fut x hx => ?_⟩ <;> rw [hlog]
  · simp
  · simp
  · rw [since_pushed]
    exact List.mem_cons_of_mem _ hx

/-- What a step does to the wake calls. -/
theorem fire_wakeAdds (token : W → TaskToken) (s : State F W) {l : Label F W} (hen : Enabled s l)
    (w : W) : (fire token s l).wakeQueue.adds w = .idle ↔
      s.wakeQueue.adds w = .idle ∧ l ≠ .pushWake w := by
  cases l with
  | pushWake x =>
    have hx : s.wakeQueue.adds x = .idle := hen
    by_cases hw : w = x
    · simp [fire, hw, Channel.push_adds hx]
    · simp [fire, Channel.push_adds hx, Function.update_of_ne hw, Ne.symm hw]
  | releaseWake x =>
    have hx : s.wakeQueue.adds x = .pushed := hen
    by_cases hw : w = x
    · simp [fire, hw, hx]
    · simp [fire, Function.update_of_ne hw]
  | wait =>
    simp only [fire, waitN]
    split_ifs <;> simp
  | remove =>
    simp only [fire]
    split
    · rename_i q _
      cases q <;> simp only [remove] <;> split <;> simp
    · simp
  | poll =>
    simp only [fire]
    split
    · simp [spawn]
    · simp only [wake]
      split <;> simp
    · simp
  | finish b =>
    simp only [fire]
    split <;> simp [finishSpawn, finishWake]
  | _ => simp [fire]

/-! ### Along a run -/

variable {ok : State F W → Label F W → Prop}

/-- A wake call that was not made has pushed nothing, and no call pushes twice. -/
theorem count_pushed (h : (system token).ReachableBy ok s) (w : W) :
    (s.wakeQueue.adds w = .idle → s.log.count (.pushed w) = 0) ∧ s.log.count (.pushed w) ≤ 1 := by
  refine h.invariant (I := fun s => (s.wakeQueue.adds w = .idle → s.log.count (.pushed w) = 0) ∧
    s.log.count (.pushed w) ≤ 1) (by simp [system]) ?_
  rintro s l - ⟨hzero, hone⟩ hen -
  have hadds := fire_wakeAdds token s hen w
  have heff := fire_polls token s hen
  change ((fire token s l).wakeQueue.adds w = .idle → (fire token s l).log.count _ = 0) ∧
    (fire token s l).log.count _ ≤ 1
  rw [hadds]
  cases heff with
  | silent _ _ hlog =>
    rw [hlog]
    exact ⟨fun hi => hzero hi.1, hone⟩
  | pushed x _ hlog =>
    rw [hlog]
    by_cases hx : x = w
    · subst hx
      have := hzero hen
      simp [this]
    · rw [List.count_cons_of_ne (by simpa using hx)]
      exact ⟨fun hi => hzero hi.1, hone⟩
  | began fut _ _ hlog =>
    rw [hlog, List.count_cons_of_ne (by simp)]
    exact ⟨fun hi => hzero hi.1, hone⟩
  | returned fut b _ _ hlog =>
    rw [hlog, List.count_cons_of_ne (by simp)]
    exact ⟨fun hi => hzero hi.1, hone⟩

/-! ### Runs that hand out given tokens -/

omit [DecidableEq F] [DecidableEq W] in
/-- A spawn gives each future the token `tok` has for it.  With fewer than `2 ^ 32` spawns there is
such a `tok`, and it is injective. -/
def Numbered (tok : F → TaskToken) (s : State F W) : Label F W → Prop
  | .poll =>
    match s.phase with
    | .spawning fut => tok fut = ⟨s.taskCounter⟩
    | _ => True
  | _ => True

instance (tok : F → TaskToken) (s : State F W) (l : Label F W) : Decidable (Numbered tok s l) :=
  match l with
  | .poll =>
    match h : s.phase with
    | .spawning fut =>
      decidable_of_iff (tok fut = ⟨s.taskCounter⟩) (by simp [Numbered, h])
    | .waiting | .draining _ | .waking _ | .initialPoll _ _ | .wakePoll _ _ =>
      isTrue (by simp [Numbered, h])
  | .pushTask _ | .releaseTask _ | .pushWake _ | .releaseWake _ | .wait | .remove | .finish _ =>
    inferInstanceAs (Decidable True)

section Numbered

variable {tok : F → TaskToken}

/-- Whoever answers to a token has been given it. -/
theorem live_tok (h : (system token).ReachableBy (Numbered tok) s) {key : TaskToken} {fut : F}
    (hl : s.Live key fut) : key = tok fut := by
  refine h.invariant (I := fun s => ∀ key fut, s.Live key fut → key = tok fut)
    (by simp [system, State.Live]) ?_ key fut hl
  intro s l _ hi _ hok key fut hl
  rcases live_of_fire hl with hl | ⟨rfl, hph, rfl⟩
  · exact hi key fut hl
  · have hnum : tok fut = ⟨s.taskCounter⟩ := by simpa [Numbered, hph] using hok
    exact hnum.symm

/-- Nobody is in the map under the token of a future in its initial poll. -/
theorem vacant (htok : Function.Injective tok) (h : (system token).ReachableBy (Numbered tok) s)
    {key : TaskToken} {fut : F} (hph : s.phase = .initialPoll key fut) : s.tasks key = none := by
  cases ht : s.tasks key with
  | none => rfl
  | some x =>
    -- both futures answer to the token, so they are the same one
    have hx : tok x = tok fut := (live_tok h (.inl ht)).symm.trans (live_tok h (.inr hph))
    exact absurd (htok hx ▸ ht) ((once_reachable h).initial key fut hph key)

/-- **A task stays in the map until it is ready**: a future that was polled, is not being polled
and was not ready is in the map under its own token. -/
theorem resident (htok : Function.Injective tok)
    (h : (system token).ReachableBy (Numbered tok) s) {fut : F} (hb : .began fut ∈ s.log)
    (hp : s.phase.polls fut = false) :
    .polled fut true ∈ s.log ∨ s.tasks (tok fut) = some fut := by
  refine h.invariant (I := fun s => ∀ fut, .began fut ∈ s.log → s.phase.polls fut = false →
    .polled fut true ∈ s.log ∨ s.tasks (tok fut) = some fut) (by simp [system]) ?_ fut hb hp
  intro s l hs hi hen _ fut hb hp
  have ho := once_reachable hs
  have hkept : s.tasks (tok fut) = some fut → (fire token s l).tasks (tok fut) = some fut ∨
      l = .finish true ∧ s.phase = .wakePoll (tok fut) fut :=
    tasks_kept (fun _ _ => vacant htok hs) ho l
  -- a future that was not being polled is left alone
  have hrest : .began fut ∈ s.log → s.phase.polls fut = false →
      .polled fut true ∈ s.log ∨ (fire token s l).tasks (tok fut) = some fut := by
    intro hb hp
    refine (hi fut hb hp).imp_right fun ht => (hkept ht).resolve_right ?_
    rintro ⟨-, hph⟩
    simp [hph, Phase.polls] at hp
  change .began fut ∈ (fire token s l).log at hb
  change (fire token s l).phase.polls fut = false at hp
  change .polled fut true ∈ (fire token s l).log ∨ (fire token s l).tasks (tok fut) = some fut
  cases fire_polls token s hen with
  | silent _ hpolls hlog =>
    rw [hlog] at hb ⊢
    exact hrest hb (hpolls fut ▸ hp)
  | pushed w hpolls hlog =>
    rw [hlog] at hb ⊢
    exact (hrest (by simpa using hb) (hpolls fut ▸ hp)).imp_left (List.mem_cons_of_mem _)
  | began x hbefore hafter hlog =>
    have hne : fut ≠ x := by
      rintro rfl
      simp [(hafter fut).2 rfl] at hp
    rw [hlog] at hb ⊢
    exact (hrest (by simpa [hne] using hb) (hbefore fut)).imp_left (List.mem_cons_of_mem _)
  | returned x b hbefore _ hlog =>
    rw [hlog] at hb ⊢
    by_cases hx : fut = x
    · subst hx
      cases b with
      | true => exact .inl (List.mem_cons_self ..)
      | false =>
        right
        have hpolled := (hbefore fut).2 rfl
        cases hph : s.phase with
        | initialPoll key y =>
          obtain rfl : y = fut := by simpa [hph, Phase.polls] using hpolled
          rw [← live_tok hs (.inr hph)]
          simp [fire, hph, finishSpawn]
        | wakePoll key y =>
          obtain rfl : y = fut := by simpa [hph, Phase.polls] using hpolled
          have hkey := ho.woken key y hph
          rw [live_tok hs (.inl hkey)] at hkey
          exact (hkept hkey).resolve_right (by simp)
        | _ => simp [hph, Phase.polls] at hpolled
    · have hnot : s.phase.polls fut = false := by
        rw [Bool.eq_false_iff]
        exact fun hf => hx ((hbefore fut).1 hf)
      exact (hrest (by simpa using hb) hnot).imp_left (List.mem_cons_of_mem _)

end Numbered

end Executor

end BunnyDs
