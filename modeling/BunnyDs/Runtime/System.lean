import BunnyDs.Executor.Polls
import BunnyDs.LTS.Leaves

/-!
# The executor together with the leaves its tasks await

`Executor.system` knows a future by its polls only, and the models of the leaf futures know the
executor by the tokens they push.  Here both run together.  A task is any sequential program: it
awaits one leaf after another, chooses the next one freely when the one before is ready, and ends.
While the executor is inside a poll of the task, the task polls the leaf it awaits; it returns
`Pending` when that poll was pending and `Ready` when it has reached its end.  The wake calls of
the leaves are the `WAKE_QUEUE.add` calls of the executor; further wake calls, from anywhere and
for any token, are allowed at any time.

* `Runtime.Program` : leaves that keep `Leaves.Contract`, and the tasks that await them.
* `Runtime.Regular` : what is assumed of the steps of a run.
* `Runtime.Inv` : the executor's log and the leaves' track tell the same story.
* `Runtime.Inv.at_rest` : **when everything has come to rest, a task that was spawned has ended, or
  it awaits a leaf whose event has not happened.**  No wakeup is lost between the parts.
-/

namespace BunnyDs

namespace Executor

variable {F W : Type*}

/-- The future inside whose poll the executor is. -/
def Phase.future? : Phase F W → Option F
  | .initialPoll _ fut | .wakePoll _ fut => some fut
  | _ => none

theorem Phase.mem_future? [DecidableEq F] {p : Phase F W} {fut : F} :
    fut ∈ p.future? ↔ p.polls fut = true := by
  cases p <;> simp [future?, polls]

/-- The executor is inside at most one poll. -/
theorem Phase.polls_unique [DecidableEq F] {p : Phase F W} {fut fut' : F}
    (h : p.polls fut = true) (h' : p.polls fut' = true) : fut = fut' := by
  rw [← mem_future?, Option.mem_def] at h h'
  exact Option.some.inj (h.symm.trans h')

/-- The step is the begin of `spawn`'s or `wake`'s poll. -/
def Label.isPoll : Label F W → Bool
  | .poll => true
  | _ => false

end Executor

namespace Runtime

variable {F κ W X σ Λ : Type*}

/-- The executor, the leaves, and the tasks between them. -/
structure State (F κ W X σ : Type*) where
  exec : Executor.State F (W ⊕ X)
  leaves : σ
  /-- What the tasks have seen of the leaves. -/
  track : Track κ W
  /-- The leaf a task awaits; `none` when the task has reached its end. -/
  current : F → Option κ
  /-- In the poll under way, the task has polled the leaf it awaits. -/
  asked : Bool

/-- One step of one party. -/
inductive Label (F κ W X Λ : Type*) where
  /-- The executor, or somebody who spawns a task or makes a wake call of their own. -/
  | exec (l : Executor.Label F (W ⊕ X))
  /-- A leaf: an access of its poll, or a step of whoever wakes it. -/
  | leaf (l : Λ)
  /-- The task goes on to its next leaf, or to its end. -/
  | advance (fut : F) (next : Option κ)

variable [DecidableEq F] [DecidableEq κ] [DecidableEq W] [DecidableEq X]

/-- Leaves and the tasks that await them. -/
structure Program (F κ W X σ Λ : Type*) [DecidableEq κ] [DecidableEq W] where
  leaves : Leaves κ W TaskToken σ Λ
  contract : leaves.Contract
  /-- The token each task is given when it is spawned. -/
  tok : F → TaskToken
  tok_injective : Function.Injective tok
  /-- The first leaf of a task. -/
  start : F → Option κ
  start_own : ∀ fut k, start fut = some k → leaves.task k = tok fut
  /-- The tokens of the other wake calls. -/
  ext : X → TaskToken

variable (P : Program F κ W X σ Λ)

/-- The token a wake call pushes. -/
def Program.token : W ⊕ X → TaskToken := Sum.elim (fun w => P.leaves.task (P.leaves.leaf w)) P.ext

/-- The first half of `WAKE_QUEUE.add`, when a step of the leaves is a wake call. -/
def push (e : Executor.State F (W ⊕ X)) : Option (W × TaskToken) → Executor.State F (W ⊕ X)
  | some (w, _) => Executor.fire P.token e (.pushWake (.inl w))
  | none => e

/-- The effect of a step. -/
def fire (s : State F κ W X σ) : Label F κ W X Λ → State F κ W X σ
  | .exec l =>
    { s with
      exec := Executor.fire P.token s.exec l
      -- a new poll has not reached the leaf yet
      asked := s.asked && !l.isPoll }
  | .leaf l =>
    { s with
      exec := push P s.exec (P.leaves.wake s.leaves l)
      leaves := P.leaves.sys.fire s.leaves l
      track := P.leaves.note s.leaves l s.track
      asked := s.asked || (P.leaves.starts l).isSome }
  | .advance fut next =>
    { s with current := Function.update s.current fut next, asked := false }

/-- What the tasks allow the executor to see: a poll is ready at the end of the task, and pending
when the poll of the leaf was. -/
def Allowed (s : State F κ W X σ) : Executor.Label F (W ⊕ X) → Prop
  | .pushWake (.inl _) => False
  | .finish isReady => ∀ fut ∈ s.exec.phase.future?,
      isReady = (s.current fut).isNone ∧
        ∀ k ∈ s.current fut, s.asked = true ∧ P.leaves.status s.leaves k = .idle
  | _ => True

/-- A step can be taken. -/
def Enabled (s : State F κ W X σ) : Label F κ W X Λ → Prop
  | .exec l => Executor.Enabled s.exec l ∧ Allowed P s l
  | .leaf l => P.leaves.sys.Enabled s.leaves l ∧
      -- polls of leaves happen inside polls of the task that awaits them
      ∀ k ∈ P.leaves.access l, ∃ fut ∈ s.exec.phase.future?, s.current fut = some k ∧
        (P.leaves.starts l = some k → s.asked = false)
  | .advance fut next => fut ∈ s.exec.phase.future? ∧
      (∃ k ∈ s.current fut, P.leaves.status s.leaves k = .ready) ∧
      -- the next leaf is a new one
      ∀ k ∈ next, s.track.begun k = false ∧ P.leaves.task k = P.tok fut

/-- The runtime before anything was spawned. -/
def system : LTS (State F κ W X σ) (Label F κ W X Λ) where
  init := ⟨(Executor.system P.token).init, P.leaves.sys.init, .new, P.start, false⟩
  Enabled := Enabled P
  fire := fire P

/-- **What is assumed of a run**: each task is spawned with the token that `tok` has for it, and the
steps of the leaves are as `Leaves.Contract` assumes. -/
def Regular (s : State F κ W X σ) : Label F κ W X Λ → Prop
  | .exec l => Executor.Numbered P.tok s.exec l
  | .leaf l => P.leaves.ok s.leaves l
  | .advance _ _ => True

instance [∀ s l, Decidable (P.leaves.sys.Enabled s l)] (s : State F κ W X σ)
    (l : Label F κ W X Λ) : Decidable ((system P).Enabled s l) :=
  match l with
  | .exec (.pushWake (.inl _)) => inferInstanceAs (Decidable (_ ∧ False))
  | .exec (.finish isReady) =>
    inferInstanceAs (Decidable (_ ∧ ∀ fut ∈ s.exec.phase.future?,
      isReady = (s.current fut).isNone ∧
        ∀ k ∈ s.current fut, s.asked = true ∧ P.leaves.status s.leaves k = .idle))
  | .exec (.pushWake (.inr _)) | .exec (.pushTask _) | .exec (.releaseTask _)
  | .exec (.releaseWake _) | .exec .wait | .exec .remove | .exec .poll =>
    inferInstanceAs (Decidable (_ ∧ True))
  | .leaf l =>
    inferInstanceAs (Decidable (_ ∧ ∀ k ∈ P.leaves.access l, ∃ fut ∈ s.exec.phase.future?,
      s.current fut = some k ∧ (P.leaves.starts l = some k → s.asked = false)))
  | .advance fut next =>
    inferInstanceAs (Decidable (fut ∈ s.exec.phase.future? ∧
      (∃ k ∈ s.current fut, P.leaves.status s.leaves k = .ready) ∧
      ∀ k ∈ next, s.track.begun k = false ∧ P.leaves.task k = P.tok fut))

/-! ### The invariant -/

/-- **The log of the executor and the track of the leaves agree.** -/
structure Inv (s : State F κ W X σ) : Prop where
  exec : (Executor.system P.token).ReachableBy (Executor.Numbered P.tok) s.exec
  leaves : P.leaves.Run s.leaves s.track
  made : ∀ w, s.track.made w = true ↔ s.exec.wakeQueue.adds (.inl w) ≠ .idle
  own : ∀ fut k, s.current fut = some k → P.leaves.task k = P.tok fut
  asked : ∀ fut k, s.exec.phase.polls fut = true → s.current fut = some k → s.asked = true →
    s.track.begun k = true
  /-- Between its polls a task awaits a leaf whose poll was pending. -/
  awaits : ∀ fut k, s.current fut = some k → .began fut ∈ s.exec.log →
    s.exec.phase.polls fut = false → s.track.begun k = true ∧ P.leaves.status s.leaves k = .idle
  /-- A task is ready when it has reached its end. -/
  ended : ∀ fut, s.current fut = none → .began fut ∈ s.exec.log →
    s.exec.phase.polls fut = false → .polled fut true ∈ s.exec.log
  done : ∀ fut, .polled fut true ∈ s.exec.log → s.current fut = none
  /-- A leaf woken since its latest poll began was woken after the latest poll of its task began,
  unless the task is in a poll that has not reached the leaf yet. -/
  woken : ∀ fut k, s.current fut = some k → (s.exec.phase.polls fut = true → s.asked = true) →
    s.track.begun k = true → s.track.woken k = true →
    ∃ w, P.leaves.leaf w = k ∧
      .pushed (.inl w) ∈ Log.since (Executor.Event.isBeganOf fut) s.exec.log

variable {P} {s : State F κ W X σ}

theorem inv_init : Inv P (system P).init where
  exec := .init
  leaves := P.leaves.run_init
  made w := by simp [system, Executor.system, Track.new]
  own fut k h := P.start_own fut k h
  asked fut k h := by simp [system, Executor.system, Executor.Phase.polls] at h
  awaits fut k _ h := by simp [system, Executor.system] at h
  ended fut _ h := by simp [system, Executor.system] at h
  done fut h := by simp [system, Executor.system] at h
  woken fut k _ _ h := by simp [system, Track.new] at h

/-- A leaf is awaited by one task. -/
theorem Inv.unique (h : Inv P s) {fut fut' : F} {k : κ} (hk : s.current fut = some k)
    (hk' : s.current fut' = some k) : fut = fut' :=
  P.tok_injective ((h.own fut k hk).symm.trans (h.own fut' k hk'))

/-! ### Steps of the executor -/

/-- No poll begins or returns. -/
theorem inv_calm {e : Executor.State F (W ⊕ X)} {asked : Bool} (h : Inv P s)
    (hexec : (Executor.system P.token).ReachableBy (Executor.Numbered P.tok) e)
    (hmade : ∀ w, s.track.made w = true ↔ e.wakeQueue.adds (.inl w) ≠ .idle)
    (hcalm : Executor.Calm s.exec e) (hasked : asked = true → s.asked = true) :
    Inv P { s with exec := e, asked := asked } := by
  refine ⟨hexec, h.leaves, hmade, h.own, fun fut k hp hk ha => ?_, fun fut k hk hb hp => ?_,
    fun fut hk hb hp => ?_, fun fut hd => ?_, fun fut k hk hp hb hw => ?_⟩
  · exact h.asked fut k (hcalm.polls fut ▸ hp) hk (hasked ha)
  · exact h.awaits fut k hk ((hcalm.began fut).1 hb) (hcalm.polls fut ▸ hp)
  · exact (hcalm.polled fut true).2 (h.ended fut hk ((hcalm.began fut).1 hb) (hcalm.polls fut ▸ hp))
  · exact h.done fut ((hcalm.polled fut true).1 hd)
  · have hask : s.exec.phase.polls fut = true → s.asked = true := by
      intro hf
      exact hasked (hp ((hcalm.polls fut).trans hf))
    obtain ⟨w, hleaf, hm⟩ := h.woken fut k hk hask hb hw
    exact ⟨w, hleaf, hcalm.since fut _ hm⟩

/-- A poll begins: it has not reached the leaf yet. -/
theorem inv_began {e : Executor.State F (W ⊕ X)} {x : F} (h : Inv P s)
    (hexec : (Executor.system P.token).ReachableBy (Executor.Numbered P.tok) e)
    (hmade : ∀ w, s.track.made w = true ↔ e.wakeQueue.adds (.inl w) ≠ .idle)
    (hbefore : ∀ fut, s.exec.phase.polls fut = false)
    (hafter : ∀ fut, e.phase.polls fut = true ↔ fut = x) (hlog : e.log = .began x :: s.exec.log) :
    Inv P { s with exec := e, asked := false } := by
  have hne : ∀ {fut}, e.phase.polls fut = false → fut ≠ x := by
    rintro fut hp rfl
    simp [(hafter fut).2 rfl] at hp
  have hbegan : ∀ {fut}, .began fut ∈ e.log → fut ≠ x → .began fut ∈ s.exec.log := by
    intro fut hb hx
    rw [hlog] at hb
    simpa [hx] using hb
  refine ⟨hexec, h.leaves, hmade, h.own, fun fut k hp hk ha => ?_, fun fut k hk hb hp => ?_,
    fun fut hk hb hp => ?_, fun fut hd => ?_, fun fut k hk hp hb hw => ?_⟩
  · cases ha
  · exact h.awaits fut k hk (hbegan hb (hne hp)) (hbefore fut)
  · have hold := h.ended fut hk (hbegan hb (hne hp)) (hbefore fut)
    change _ ∈ e.log
    rw [hlog]
    exact List.mem_cons_of_mem _ hold
  · change _ ∈ e.log at hd
    rw [hlog] at hd
    exact h.done fut (by simpa using hd)
  · have hx : fut ≠ x := fun hx => Bool.false_ne_true (hp ((hafter fut).2 hx))
    have hask : s.exec.phase.polls fut = true → s.asked = true := by simp [hbefore]
    obtain ⟨w, hleaf, hm⟩ := h.woken fut k hk hask hb hw
    refine ⟨w, hleaf, ?_⟩
    change _ ∈ Log.since _ e.log
    rw [hlog, Executor.since_began_of_ne hx.symm]
    exact List.mem_cons_of_mem _ hm

/-- A poll returns: the task is at its end, or the poll of its leaf was pending. -/
theorem inv_returned {e : Executor.State F (W ⊕ X)} {x : F} {b : Bool} (h : Inv P s)
    (hexec : (Executor.system P.token).ReachableBy (Executor.Numbered P.tok) e)
    (hmade : ∀ w, s.track.made w = true ↔ e.wakeQueue.adds (.inl w) ≠ .idle)
    (hall : b = (s.current x).isNone ∧
      ∀ k ∈ s.current x, s.asked = true ∧ P.leaves.status s.leaves k = .idle)
    (hbefore : ∀ fut, s.exec.phase.polls fut = true ↔ fut = x)
    (hafter : ∀ fut, e.phase.polls fut = false) (hlog : e.log = .polled x b :: s.exec.log) :
    Inv P { s with exec := e } := by
  have hnot : ∀ {fut}, fut ≠ x → s.exec.phase.polls fut = false := by
    intro fut hx
    rw [Bool.eq_false_iff]
    exact fun hf => hx ((hbefore fut).1 hf)
  have hbegan : ∀ {fut}, .began fut ∈ e.log → .began fut ∈ s.exec.log := by
    intro fut hb
    rw [hlog] at hb
    simpa using hb
  refine ⟨hexec, h.leaves, hmade, h.own, fun fut k hp hk ha => ?_, fun fut k hk hb hp => ?_,
    fun fut hk hb hp => ?_, fun fut hd => ?_, fun fut k hk hp hb hw => ?_⟩
  · change e.phase.polls fut = true at hp
    simp [hafter] at hp
  · by_cases hx : fut = x
    · subst hx
      obtain ⟨ha, hidle⟩ := hall.2 k hk
      exact ⟨h.asked fut k ((hbefore fut).2 rfl) hk ha, hidle⟩
    · exact h.awaits fut k hk (hbegan hb) (hnot hx)
  · change _ ∈ e.log
    rw [hlog]
    by_cases hx : fut = x
    · subst hx
      have hk : s.current fut = none := hk
      rw [hall.1, hk]
      exact List.mem_cons_self ..
    · exact List.mem_cons_of_mem _ (h.ended fut hk (hbegan hb) (hnot hx))
  · change _ ∈ e.log at hd
    rw [hlog] at hd
    rcases List.mem_cons.1 hd with he | hd
    · obtain ⟨rfl, hb⟩ := Executor.Event.polled.inj he
      exact Option.isNone_iff_eq_none.1 (hall.1.symm.trans hb.symm)
    · exact h.done fut hd
  · have hask : s.exec.phase.polls fut = true → s.asked = true := by
      intro hf
      rw [(hbefore fut).1 hf] at hk
      exact (hall.2 k hk).1
    obtain ⟨w, hleaf, hm⟩ := h.woken fut k hk hask hb hw
    refine ⟨w, hleaf, ?_⟩
    change _ ∈ Log.since _ e.log
    rw [hlog, Executor.since_polled]
    exact List.mem_cons_of_mem _ hm

/-- A step of the executor, or of somebody who spawns or wakes. -/
theorem inv_exec {l : Executor.Label F (W ⊕ X)} (h : Inv P s) (hen : Executor.Enabled s.exec l)
    (hnum : Executor.Numbered P.tok s.exec l) (hall : Allowed P s l) :
    Inv P (fire P s (.exec l)) := by
  have hexec := h.exec.step hen hnum
  have hmade : ∀ w, s.track.made w = true ↔
      (Executor.fire P.token s.exec l).wakeQueue.adds (.inl w) ≠ .idle := by
    intro w
    rw [h.made w, Ne, Ne, Executor.fire_wakeAdds P.token s.exec hen, not_and_or, not_not]
    refine ⟨.inl, fun hor => hor.resolve_right ?_⟩
    rintro rfl
    exact hall
  have hasked : (s.asked && !l.isPoll) = true → s.asked = true := by simp +contextual
  cases Executor.fire_polls P.token s.exec hen with
  | silent _ hpolls hlog => exact inv_calm h hexec hmade (.of_log hpolls hlog) hasked
  | pushed w hpolls hlog => exact inv_calm h hexec hmade (.of_pushed hpolls hlog) hasked
  | began x hbefore hafter hlog =>
    have hfalse :
        (s.asked && !(Executor.Label.poll : Executor.Label F (W ⊕ X)).isPoll) = false := by
      simp [Executor.Label.isPoll]
    simp only [fire, hfalse]
    exact inv_began h hexec hmade hbefore hafter hlog
  | returned x b hbefore hafter hlog =>
    have hsame : (s.asked && !(Executor.Label.finish b : Executor.Label F (W ⊕ X)).isPoll) =
        s.asked := by simp [Executor.Label.isPoll]
    simp only [fire, hsame]
    have hx : x ∈ s.exec.phase.future? := Executor.Phase.mem_future?.2 ((hbefore x).2 rfl)
    exact inv_returned h hexec hmade (hall x hx) hbefore hafter hlog

/-! ### Steps of the leaves and of the tasks -/

/-- The wake call that a step of the leaves makes, if it makes one. -/
theorem push_calm (e : Executor.State F (W ⊕ X)) (o : Option (W × TaskToken)) :
    Executor.Calm e (push P e o) := by
  cases o with
  | none => exact .of_log (fun _ => rfl) rfl
  | some p => exact .of_pushed (fun _ => rfl) rfl

/-- A wake call of the leaves is a new one for the executor. -/
theorem Inv.adds_wake (h : Inv P s) {l : Λ} (hen : P.leaves.sys.Enabled s.leaves l)
    (hok : P.leaves.ok s.leaves l) {w : W} {t : TaskToken}
    (hw : P.leaves.wake s.leaves l = some (w, t)) : s.exec.wakeQueue.adds (.inl w) = .idle := by
  have hnew := P.contract.once _ _ l w t h.leaves hen hok hw
  by_contra hne
  simp [(h.made w).2 hne] at hnew

/-- The executor and its wake calls after a step of the leaves. -/
theorem Inv.push (h : Inv P s) {l : Λ} (hen : P.leaves.sys.Enabled s.leaves l)
    (hok : P.leaves.ok s.leaves l) :
    (Executor.system P.token).ReachableBy (Executor.Numbered P.tok)
      (push P s.exec (P.leaves.wake s.leaves l)) ∧
    ∀ w, (P.leaves.note s.leaves l s.track).made w = true ↔
      (Runtime.push P s.exec (P.leaves.wake s.leaves l)).wakeQueue.adds (.inl w) ≠ .idle := by
  cases hw : P.leaves.wake s.leaves l with
  | none =>
    refine ⟨h.exec, fun w => ?_⟩
    rw [Leaves.note_made, hw]
    simpa [Runtime.push] using h.made w
  | some p =>
    have hidle := h.adds_wake hen hok hw
    have hcall : (Executor.system P.token).Enabled s.exec (.pushWake (.inl p.1)) := hidle
    refine ⟨h.exec.step hcall trivial, fun w => ?_⟩
    have hadds := Executor.fire_wakeAdds P.token s.exec (l := .pushWake (.inl p.1)) hidle (.inl w)
    change _ ↔ (Executor.fire P.token s.exec (.pushWake (.inl p.1))).wakeQueue.adds (.inl w) ≠ .idle
    rw [Leaves.note_made, hw, h.made w, Ne, Ne, hadds, not_and_or, not_not]
    constructor
    · rintro (⟨t, he⟩ | hne)
      · exact .inr (by rw [Option.some.inj he])
      · exact .inl hne
    · rintro (hne | he)
      · exact .inr hne
      · obtain rfl : p.1 = w := by simpa using he
        exact .inl ⟨p.2, rfl⟩

/-- A step of the leaves. -/
theorem inv_leaf {l : Λ} (h : Inv P s) (hen : P.leaves.sys.Enabled s.leaves l)
    (hok : P.leaves.ok s.leaves l)
    (hpoll : ∀ k ∈ P.leaves.access l, ∃ fut ∈ s.exec.phase.future?, s.current fut = some k ∧
      (P.leaves.starts l = some k → s.asked = false)) : Inv P (fire P s (.leaf l)) := by
  obtain ⟨hexec, hmade⟩ := h.push hen hok
  have hcalm : Executor.Calm s.exec (push P s.exec (P.leaves.wake s.leaves l)) := push_calm _ _
  -- an access is made by the task that awaits the leaf, inside its poll
  have hown : ∀ {fut k}, P.leaves.access l = some k → s.current fut = some k →
      s.exec.phase.polls fut = true := by
    intro fut k ha hk
    obtain ⟨fut', hf, hk', -⟩ := hpoll k ha
    rw [h.unique hk hk']
    exact Executor.Phase.mem_future?.1 hf
  have hcur : ∀ {fut k j}, P.leaves.starts l = some j → s.exec.phase.polls fut = true →
      s.current fut = some k → j = k := by
    intro fut k j hj hp hk
    obtain ⟨fut', hf, hk', -⟩ := hpoll j (P.contract.access_of_starts l j hj)
    rw [← Executor.Phase.polls_unique hp (Executor.Phase.mem_future?.1 hf), hk] at hk'
    exact (Option.some.inj hk').symm
  refine ⟨hexec, h.leaves.step hen hok, hmade, h.own, fun fut k hp hk ha => ?_,
    fun fut k hk hb hp => ?_, fun fut hk hb hp => ?_, fun fut hd => ?_, fun fut k hk hp hb hw => ?_⟩
  · have hp : s.exec.phase.polls fut = true := hcalm.polls fut ▸ hp
    refine (Leaves.note_begun k).2 ?_
    cases hst : P.leaves.starts l with
    | none =>
      have ha : s.asked = true := by simpa [fire, hst] using ha
      exact .inr (h.asked fut k hp hk ha)
    | some j => exact .inl (by rw [hcur hst hp hk])
  · have hp : s.exec.phase.polls fut = false := hcalm.polls fut ▸ hp
    obtain ⟨hbegun, hidle⟩ := h.awaits fut k hk ((hcalm.began fut).1 hb) hp
    refine ⟨(Leaves.note_begun k).2 (.inr hbegun), ?_⟩
    have hframe := P.contract.frame _ _ l k h.leaves hen hok fun ha => by
      simp [hown ha hk] at hp
    exact hframe.trans hidle
  · exact (hcalm.polled fut true).2 (h.ended fut hk ((hcalm.began fut).1 hb) (hcalm.polls fut ▸ hp))
  · exact h.done fut ((hcalm.polled fut true).1 hd)
  · by_cases hwake : ∃ w t, P.leaves.wake s.leaves l = some (w, t) ∧ P.leaves.leaf w = k
    · -- the step wakes the leaf, so the token is the newest event
      obtain ⟨w, t, hwt, hleaf⟩ := hwake
      refine ⟨w, hleaf, ?_⟩
      change _ ∈ Log.since _ (push P s.exec (P.leaves.wake s.leaves l)).log
      rw [hwt]
      change _ ∈ Log.since _ (.pushed (.inl w) :: s.exec.log)
      rw [Executor.since_pushed]
      exact List.mem_cons_self ..
    · have hnote := (Leaves.note_woken (L := P.leaves) (s := s.leaves) (l := l) (t := s.track)
        (k := k) fun w t hwt he => hwake ⟨w, t, hwt, he⟩).1 hw
      have hbegun := ((Leaves.note_begun k).1 hb).resolve_left hnote.1
      have hask : s.exec.phase.polls fut = true → s.asked = true := by
        intro hf
        have hor : (s.asked || (P.leaves.starts l).isSome) = true :=
          hp ((hcalm.polls fut).trans hf)
        cases hst : P.leaves.starts l with
        | none => simpa [hst] using hor
        | some j => exact absurd (by rw [hst, hcur hst hf hk]) hnote.1
      obtain ⟨w, hleaf, hm⟩ := h.woken fut k hk hask hbegun hnote.2
      exact ⟨w, hleaf, hcalm.since fut _ hm⟩

/-- A task goes on to a leaf that was not polled before, or to its end. -/
theorem inv_advance {x : F} {next : Option κ} (h : Inv P s)
    (hx : s.exec.phase.polls x = true) (hcur : s.current x ≠ none)
    (hnext : ∀ k ∈ next, s.track.begun k = false ∧ P.leaves.task k = P.tok x) :
    Inv P (fire P s (.advance x next)) := by
  have hother : ∀ {fut}, fut ≠ x →
      (fire P s (.advance x next)).current fut = s.current fut := fun hne =>
    Function.update_of_ne hne ..
  have hself : (fire P s (.advance x next)).current x = next := Function.update_self ..
  refine ⟨h.exec, h.leaves, h.made, fun fut k hk => ?_, fun fut k hp hk ha => ?_,
    fun fut k hk hb hp => ?_, fun fut hk hb hp => ?_, fun fut hd => ?_, fun fut k hk hp hb hw => ?_⟩
  · by_cases hne : fut = x
    · subst hne
      exact (hnext k (hself.symm.trans hk)).2
    · exact h.own fut k (hother hne ▸ hk)
  · cases ha
  · have hne : fut ≠ x := by
      rintro rfl
      exact Bool.false_ne_true (hp.symm.trans hx)
    exact h.awaits fut k (hother hne ▸ hk) hb hp
  · have hne : fut ≠ x := by
      rintro rfl
      exact Bool.false_ne_true (hp.symm.trans hx)
    exact h.ended fut (hother hne ▸ hk) hb hp
  · have hne : fut ≠ x := by
      rintro rfl
      exact hcur (h.done fut hd)
    rw [hother hne]
    exact h.done fut hd
  · have hne : fut ≠ x := by
      rintro rfl
      have hnew := (hnext k (hself.symm.trans hk)).1
      exact Bool.false_ne_true (hnew.symm.trans hb)
    have hno : s.exec.phase.polls fut = true → s.asked = true := fun hf =>
      absurd (Executor.Phase.polls_unique hf hx) hne
    exact h.woken fut k (hother hne ▸ hk) hno hb hw

/-- **Every step keeps the invariant.** -/
theorem inv_step {l : Label F κ W X Λ} (h : Inv P s) (hen : Enabled P s l)
    (hok : Regular P s l) : Inv P (fire P s l) := by
  cases l with
  | exec l => exact inv_exec h hen.1 hok hen.2
  | leaf l => exact inv_leaf h hen.1 hok hen.2
  | advance x next =>
    obtain ⟨hx, ⟨k, hk, -⟩, hnext⟩ := hen
    refine inv_advance h (Executor.Phase.mem_future?.1 hx) ?_ hnext
    rw [Option.mem_def.1 hk]
    exact Option.some_ne_none k

theorem inv_reachable (h : (system P).ReachableBy (Regular P) s) : Inv P s :=
  h.invariant inv_init fun _ _ _ hi hen hok => inv_step hi hen hok

/-! ### At rest -/

/-- Nothing is left to do for the executor and for those who wake its tasks: it is blocked with
both counts at zero, nobody is between the two halves of an `add` to `WAKE_QUEUE`, and the leaves
are quiet. -/
structure AtRest (P : Program F κ W X σ Λ) (s : State F κ W X σ) : Prop where
  waiting : s.exec.phase = .waiting
  tasks : s.exec.taskQueue.queue.sem.count = 0
  wakes : s.exec.wakeQueue.queue.sem.count = 0
  released : ∀ w ∈ s.exec.wakeQueue.queue.vals, s.exec.wakeQueue.adds w ≠ .pushed
  quiet : P.leaves.Quiet s.leaves

instance [∀ s, Decidable (P.leaves.Quiet s)] (s : State F κ W X σ) : Decidable (AtRest P s) :=
  decidable_of_iff (s.exec.phase = .waiting ∧ s.exec.taskQueue.queue.sem.count = 0 ∧
      s.exec.wakeQueue.queue.sem.count = 0 ∧
      (∀ w ∈ s.exec.wakeQueue.queue.vals, s.exec.wakeQueue.adds w ≠ .pushed) ∧
      P.leaves.Quiet s.leaves)
    ⟨fun h => ⟨h.1, h.2.1, h.2.2.1, h.2.2.2.1, h.2.2.2.2⟩,
      fun h => ⟨h.waiting, h.tasks, h.wakes, h.released, h.quiet⟩⟩

/-- **A runtime at rest waits for the outside world only.**  A task that was spawned has been ready
at its end, or it awaits a leaf whose event has not happened. -/
theorem Inv.at_rest (h : Inv P s) (hrest : AtRest P s) {fut : F}
    (hspawned : s.exec.taskQueue.adds fut = .returned) :
    s.current fut = none ∧ .polled fut true ∈ s.exec.log ∨
      ∃ k, s.current fut = some k ∧ s.track.begun k = true ∧ P.leaves.status s.leaves k = .idle ∧
        ¬ P.leaves.Fired s.leaves k := by
  have hexec : Executor.Inv P.token s.exec := Executor.inv_reachable h.exec.reachable
  have hno : s.exec.phase.polls fut = false := by rw [hrest.waiting]; rfl
  have hb : s.exec.phase.beforePoll = false := by rw [hrest.waiting]; rfl
  have hadds : s.exec.taskQueue.adds fut ≠ .idle := by rw [hspawned]; exact AddPhase.noConfusion
  -- the spawned future was taken off its queue and polled
  have hbegan : .began fut ∈ s.exec.log := by
    refine (hexec.queued_or_began hb hadds).resolve_left fun hm => ?_
    have hawake := hexec.task_awake (by rw [hrest.waiting]; rfl)
    rw [hawake.pushed hrest.tasks hm] at hspawned
    cases hspawned
  cases hk : s.current fut with
  | none => exact .inl ⟨rfl, h.ended fut hk hbegan hno⟩
  | some k =>
    obtain ⟨hbegun, hidle⟩ := h.awaits fut k hk hbegan hno
    refine .inr ⟨k, rfl, hbegun, hidle, fun hfired => ?_⟩
    -- otherwise its token was pushed after its latest poll began, and never taken off the queue
    have hwoken := P.contract.answered _ _ k h.leaves hrest.quiet hbegun hidle hfired
    obtain ⟨w, hleaf, hm⟩ := h.woken fut k hk (by simp [hno]) hbegun hwoken
    have hlive : s.exec.Live (P.token (.inl w)) fut := by
      refine .inl ?_
      have htoken : P.token (.inl w) = P.tok fut := by
        rw [← h.own fut k hk, ← hleaf]
        rfl
      rw [htoken]
      refine (Executor.resident P.tok_injective h.exec hbegan hno).resolve_left fun hd => ?_
      rw [h.done fut hd] at hk
      cases hk
    have hp : Executor.Event.isBeganOf (W := W ⊕ X) fut (.began fut) = true := by
      simp [Executor.Event.isBeganOf]
    have hbefore := Log.before_of_mem_since hp hbegan hm
    rcases hexec.queued_or_polled hb hlive hbefore with hq | hagain
    · have hawake := hexec.wake_awake (by rw [hrest.waiting]; rfl)
      exact hrest.released _ hq (hawake.pushed hrest.wakes hq)
    · exact Log.not_before_of_mem_since hp hm (Executor.count_pushed h.exec _).2 hagain

end Runtime

end BunnyDs
