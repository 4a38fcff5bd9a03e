import BunnyDs.Executor.Join

/-!
# Join results

The value of a spawned future passes through one cell, which both sides swap with `mem::replace`
and a transient `Done`.  For a future that completes with `v`, in every run of `Join.system`:

* the thread in `spawn_and_block` finds `Ready(v)` once its wait has returned;
* a poll of the handle answers `Join.State.answer v`, which depends only on whether the wrapper
  has stored its value and on whether an earlier poll has taken it.

`Join.Delivers` is the invariant behind both: the cell is open before the store, `Ready(v)`
between the store and the taking of the value, and `Done` ever after.
-/

namespace BunnyDs

namespace Join

variable {T : Type*}

/-- The event is a poll that handed out the value. -/
def Event.isReady : Event T → Bool
  | .polled _ (.ready _) => true
  | _ => false

/-- The blocked thread has got a value. -/
def Caller.isReturned : Caller T → Bool
  | .returned _ => true
  | _ => false

/-- A poll of the handle has returned `Ready`. -/
def State.readyPolled (s : State T) : Bool := s.log.any Event.isReady

/-- The value was taken out of the cell. -/
def State.taken (s : State T) : Bool := s.readyPolled || s.caller.isReturned

/-- What a poll of the handle is to answer for a future that completes with `v`: `Pending` before
the store, `Ready(v)` once after it; whoever polls again panics. -/
def State.answer (v : T) (s : State T) : PollResult T :=
  if s.wrap.stored = false then .pending else if s.readyPolled = false then .ready v else .panicked

/-- The spawned future completes with `v`, if it completes. -/
def CompletesWith (v : T) (_ : State T) : Label T → Prop
  | .complete value => value = v
  | _ => True

instance [DecidableEq T] (v : T) (s : State T) (l : Label T) : Decidable (CompletesWith v s l) :=
  match l with
  | .complete value => inferInstanceAs (Decidable (value = v))
  | .wrap | .poll _ | .drop | .caller => inferInstanceAs (Decidable True)

section Invariant

variable {v : T} {blocking : Bool} {s : State T}

/-- **The value is delivered through the cell.** -/
structure Delivers (v : T) (s : State T) : Prop where
  /-- The wrapper carries the value of its future. -/
  value : ∀ value, s.wrap = .lock value ∨ s.wrap = .store value → value = v
  /-- Before the store the cell holds at most a waker, and nobody is signalled. -/
  before : s.wrap.stored = false →
    s.cell ≠ .done ∧ (∀ val, s.cell ≠ .ready val) ∧ s.event = false ∧ s.taken = false
  /-- After the store the value is there until it is taken. -/
  ready : s.wrap.stored = true → s.taken = false → s.cell = .ready v
  done : s.taken = true → s.cell = .done
  /-- Only a poll after the taking panics. -/
  poisoned : s.poisoned = true → s.taken = true
  /-- The blocked thread is past its wait only after the store. -/
  caller : s.caller = .lock → s.wrap.stored = true
  returned : s.caller ≠ .panicked ∧ ∀ val, s.caller = .returned val → val = v
  /-- Next to a blocked thread there are no polls. -/
  polls : s.caller ≠ .absent → s.readyPolled = false

theorem delivers_init : Delivers v (system T blocking).init where
  value := by simp [system]
  before := by cases blocking <;> simp [system, State.taken, State.readyPolled, Caller.isReturned]
  ready := by simp [system, Wrap.stored]
  done := by cases blocking <;> simp [system, State.taken, State.readyPolled, Caller.isReturned]
  poisoned := by simp [system]
  caller := by cases blocking <;> simp [system]
  returned := by cases blocking <;> simp [system]
  polls := by simp [system, State.readyPolled]

/-- The wrapper moves on without touching the cell. -/
theorem Delivers.wrap (h : Delivers v s) {wrap : Wrap T} {event : Bool}
    (hst : wrap.stored = s.wrap.stored)
    (hval : ∀ value, wrap = .lock value ∨ wrap = .store value → value = v)
    (hev : event = true → s.event = true ∨ s.wrap.stored = true) :
    Delivers v { s with wrap := wrap, event := event } := by
  refine ⟨hval, fun hb => ?_, fun hb => h.ready (hst ▸ hb), h.done, h.poisoned, fun hc => ?_,
    h.returned, h.polls⟩
  · rw [show wrap.stored = s.wrap.stored from hst] at hb
    obtain ⟨h₁, h₂, h₃, h₄⟩ := h.before hb
    refine ⟨h₁, h₂, ?_, h₄⟩
    cases event with
    | false => rfl
    | true => rcases hev rfl with he | he <;> simp_all
  · exact hst.trans (h.caller hc)

theorem delivers_wrap (h : Delivers v s) (hi : Inv s) : Delivers v (wrapStep blocking s) := by
  cases hw : s.wrap with
  | running => simpa only [wrapStep, hw] using h
  | finished => simpa only [wrapStep, hw] using h
  | panicked => simpa only [wrapStep, hw] using h
  | lock value =>
    have hv := h.value value (.inl hw)
    simp only [wrapStep, hw]
    refine h.wrap ?_ (fun value' hv' => ?_) .inl
    · rw [hw]
      split <;> rfl
    · split at hv' <;> simp_all
  | store value =>
    obtain ⟨-, -, hev, htk⟩ := h.before (by rw [hw]; rfl)
    have hv := h.value value (.inr hw)
    subst hv
    simp only [wrapStep, hw]
    exact ⟨by simp, by simp [Wrap.stored], fun _ _ => rfl,
      fun ht => absurd (htk.symm.trans ht) (by simp), h.poisoned, fun _ => rfl, h.returned, h.polls⟩
  | check =>
    -- the cell was overwritten, so no waker is found
    have hst := hi.stored (by rw [hw]; rfl)
    have hstep : wrapStep blocking s = { s with wrap := .signal } := by
      cases hc : s.cell with
      | awaited waker => exact absurd hc (hst waker).2
      | _ => simp [wrapStep, hw, hc]
    rw [hstep]
    exact h.wrap (by rw [hw]; rfl) (by simp) .inl
  | add task => exact absurd hw (hi.wake task)
  | signal =>
    simp only [wrapStep, hw]
    exact h.wrap (by rw [hw]; rfl) (by simp) fun _ => .inr (by rw [hw]; rfl)

/-- A handle that can be polled excludes a blocked thread. -/
theorem taken_eq_readyPolled (hc : s.caller = .absent) : s.taken = s.readyPolled := by
  simp [State.taken, hc, Caller.isReturned]

theorem Delivers.not_poisoned (h : Delivers v s) (htk : s.taken = false) : s.poisoned = false := by
  cases hp : s.poisoned with
  | false => rfl
  | true => exact absurd (h.poisoned hp) (by simp [htk])

/-- **What a poll does**: it leaves its waker before the store, takes the value after it, and
panics once the value is gone. -/
theorem pollStep_cases (h : Delivers v s) (hc : s.caller = .absent) (waker : TaskToken) :
    (s.wrap.stored = false ∧ pollStep waker s =
      { s with cell := .awaited waker, log := .polled waker .pending :: s.log }) ∨
    (s.wrap.stored = true ∧ s.readyPolled = false ∧ pollStep waker s =
      { s with cell := .done, log := .polled waker (.ready v) :: s.log }) ∨
    (s.wrap.stored = true ∧ s.readyPolled = true ∧ pollStep waker s =
      { s with poisoned := true, log := .polled waker .panicked :: s.log }) := by
  have htk := taken_eq_readyPolled hc
  cases hst : s.wrap.stored with
  | false =>
    obtain ⟨h₁, h₂, -, h₄⟩ := h.before hst
    refine .inl ⟨rfl, ?_⟩
    cases hcell : s.cell with
    | done => exact absurd hcell h₁
    | ready val => exact absurd hcell (h₂ val)
    | unawaited => simp [pollStep, h.not_poisoned h₄, hcell]
    | awaited waker' => simp [pollStep, h.not_poisoned h₄, hcell]
  | true =>
    cases hr : s.readyPolled with
    | false =>
      have hcell := h.ready hst (htk.trans hr)
      exact .inr (.inl ⟨rfl, rfl, by simp [pollStep, h.not_poisoned (htk.trans hr), hcell]⟩)
    | true =>
      have hcell := h.done (htk.trans hr)
      refine .inr (.inr ⟨rfl, rfl, ?_⟩)
      unfold pollStep
      split_ifs with hp
      · rw [← hp]
      · simp [hcell]

theorem pollStep_log (h : Delivers v s) (hc : s.caller = .absent) (waker : TaskToken) :
    (pollStep waker s).log = .polled waker (s.answer v) :: s.log := by
  rcases pollStep_cases h hc waker with ⟨hst, he⟩ | ⟨hst, hr, he⟩ | ⟨hst, hr, he⟩ <;> rw [he]
  · simp [State.answer, hst]
  · simp [State.answer, hst, hr]
  · simp [State.answer, hst, hr]

theorem delivers_poll (h : Delivers v s) (hc : s.caller = .absent) (waker : TaskToken) :
    Delivers v (pollStep waker s) := by
  have htk := taken_eq_readyPolled hc
  rcases pollStep_cases h hc waker with ⟨hst, he⟩ | ⟨hst, hr, he⟩ | ⟨hst, hr, he⟩ <;> rw [he]
  · obtain ⟨-, -, hev, ht⟩ := h.before hst
    have ht' : State.taken { s with
        cell := .awaited waker, log := .polled waker .pending :: s.log } = false := ht
    exact ⟨h.value, fun _ => ⟨by simp, by simp, hev, ht'⟩,
      fun hst' => absurd hst' (by simp [hst]), fun ht => absurd ht (by simp [ht']),
      fun hp => absurd hp (by simp [h.not_poisoned ht]), h.caller, h.returned,
      fun hc' => absurd hc hc'⟩
  · refine ⟨h.value, fun hst' => absurd hst (by simp [hst']), fun _ ht' => ?_, fun _ => rfl,
      fun _ => ?_, h.caller, h.returned, fun hc' => absurd hc hc'⟩
    · simp [State.taken, State.readyPolled, Event.isReady] at ht'
    · simp [State.taken, State.readyPolled, Event.isReady]
  · have ht : State.taken { s with
        poisoned := true, log := .polled waker .panicked :: s.log } = true := htk.trans hr
    exact ⟨h.value, fun hst' => absurd hst (by simp [hst']), fun _ ht' => absurd ht (by simp [ht']),
      fun _ => h.done (htk.trans hr), fun _ => ht, h.caller, h.returned, fun hc' => absurd hc hc'⟩

/-- The blocked thread past its wait finds the value. -/
theorem Delivers.cell_of_lock (h : Delivers v s) (hc : s.caller = .lock) :
    s.cell = .ready v ∧ s.poisoned = false := by
  have htk : s.taken = false := by
    simp [State.taken, h.polls (by simp [hc]), hc, Caller.isReturned]
  exact ⟨h.ready (h.caller hc) htk, h.not_poisoned htk⟩

theorem callerStep_of_lock (h : Delivers v s) (hc : s.caller = .lock) :
    callerStep s = { s with cell := .done, caller := .returned v } := by
  obtain ⟨hcell, hp⟩ := h.cell_of_lock hc
  simp [callerStep, hc, hcell, hp]

theorem delivers_caller (h : Delivers v s) (hen : Enabled s .caller) :
    Delivers v (callerStep s) := by
  rcases hen with ⟨hc, hev⟩ | ⟨hc, -⟩
  · have hst : s.wrap.stored = true := by
      cases hst : s.wrap.stored with
      | true => rfl
      | false => exact absurd hev (by simp [(h.before hst).2.2.1])
    have htk : s.taken = false := by
      simp [State.taken, h.polls (by simp [hc]), hc, Caller.isReturned]
    have hstep : callerStep s = { s with event := false, caller := .lock } := by
      simp [callerStep, hc]
    have htk' : State.taken { s with event := false, caller := .lock } = false := by
      simpa [State.taken, State.readyPolled, Caller.isReturned, hc] using htk
    rw [hstep]
    exact ⟨h.value, fun hst' => absurd hst (by simp [hst']), fun _ _ => h.ready hst htk,
      fun ht => absurd ht (by simp [htk']), fun hp => absurd hp (by simp [h.not_poisoned htk]),
      fun _ => hst, by simp, fun _ => h.polls (by simp [hc])⟩
  · have hst := h.caller hc
    obtain ⟨-, hp⟩ := h.cell_of_lock hc
    rw [callerStep_of_lock h hc]
    refine ⟨h.value, fun hst' => absurd hst (by simp [hst']), fun _ ht => ?_, fun _ => rfl,
      fun hp' => absurd hp' (by simp [hp]), by simp, by simp, fun _ => h.polls (by simp [hc])⟩
    simp [State.taken, Caller.isReturned] at ht

theorem delivers_step {l : Label T} (h : Delivers v s) (hi : Inv s) (hen : Enabled s l)
    (hok : CompletesWith v s l) : Delivers v (fire blocking s l) := by
  cases l with
  | complete value =>
    have hw : s.wrap = .running := hen
    refine h.wrap (by rw [hw]; rfl) (fun value' hv' => ?_) .inl
    simp only [Wrap.lock.injEq, reduceCtorEq, or_false] at hv'
    exact hv' ▸ hok
  | wrap => exact delivers_wrap h hi
  | poll waker => exact delivers_poll h (hi.caller hen.1) waker
  | drop => exact ⟨h.value, h.before, h.ready, h.done, h.poisoned, h.caller, h.returned, h.polls⟩
  | caller => exact delivers_caller h hen

theorem delivers_reachable (h : (system T blocking).ReachableBy (CompletesWith v) s) :
    Delivers v s :=
  h.invariant delivers_init fun _ _ hs hi hen hok => delivers_step hi (inv_reachable hs) hen hok

/-- The value is handed out at most once. -/
theorem countP_isReady_step {l : Label T} (h : Delivers v s) (hi : Inv s) (hen : Enabled s l)
    (hle : s.log.countP Event.isReady ≤ 1) :
    (fire blocking s l).log.countP Event.isReady ≤ 1 := by
  cases l with
  | complete value => exact hle
  | wrap =>
    cases hw : s.wrap with
    | check => simp only [fire, wrapStep, hw]; split <;> exact hle
    | _ => simp only [fire, wrapStep, hw]; exact hle
  | drop => exact hle
  | caller =>
    rcases hen with ⟨hc, -⟩ | ⟨hc, -⟩
    · simpa only [fire, callerStep, hc] using hle
    · rw [fire, callerStep_of_lock h hc]
      exact hle
  | poll waker =>
    rcases pollStep_cases h (hi.caller hen.1) waker with ⟨-, he⟩ | ⟨-, hr, he⟩ | ⟨-, -, he⟩
    · simpa [fire, he, Event.isReady] using hle
    · -- no earlier poll has returned `Ready`
      have h0 : s.log.countP Event.isReady = 0 := by
        rw [List.countP_eq_zero]
        simpa [State.readyPolled] using hr
      rw [fire, he, List.countP_cons, h0]
      exact le_rfl
    · simpa [fire, he, Event.isReady] using hle

end Invariant

/-- **Join results are delivered exactly once.**  For a future that completes with `v`:
once the wait of `spawn_and_block` has returned, the state holds `Ready(v)`, the thread returns
`v`, and it never panics; every poll of a handle is `Pending` before the store, the first one after
it is `Ready(v)`, and only polls after that one panic. -/
theorem delivered_once (v : T) :
    (∀ s, (system T true).ReachableBy (CompletesWith v) s →
      (s.caller = .lock → s.cell = .ready v ∧ s.poisoned = false ∧
        (fire true s .caller).caller = .returned v) ∧
      s.caller ≠ .panicked ∧ ∀ val, s.caller = .returned val → val = v) ∧
    (∀ s, (system T false).ReachableBy (CompletesWith v) s →
      (∀ waker, Enabled s (.poll waker) →
        (fire false s (.poll waker)).log = .polled waker (s.answer v) :: s.log) ∧
      s.log.countP Event.isReady ≤ 1) := by
  refine ⟨fun s hs => ?_, fun s hs => ⟨fun waker hen => ?_, ?_⟩⟩
  · have h := delivers_reachable hs
    refine ⟨fun hc => ?_, h.returned⟩
    obtain ⟨hcell, hp⟩ := h.cell_of_lock hc
    exact ⟨hcell, hp, by rw [fire, callerStep_of_lock h hc]⟩
  · exact pollStep_log (delivers_reachable hs) ((inv_reachable hs).caller hen.1) waker
  · exact hs.invariant (by simp [system]) fun _ _ hs hle hen _ =>
      countP_isReady_step (delivers_reachable hs) (inv_reachable hs) hen hle

/-- A future that completes with 9: the blocked thread finds it, and so does the first poll after
the store, made with another waker than the one before it. -/
theorem delivered_once_nine :
    (∃ s : State ℕ, (system ℕ true).ReachableBy (CompletesWith 9) s ∧ s.caller = .lock ∧
      (fire true s .caller).caller = .returned 9) ∧
    ∃ s : State ℕ, (system ℕ false).ReachableBy (CompletesWith 9) s ∧
      (fire false s (.poll ⟨2⟩)).log = [.polled ⟨2⟩ (.ready 9), .polled ⟨1⟩ .pending] := by
  constructor
  · obtain ⟨s, hs, hc⟩ := LTS.exists_of_exec (system ℕ true) (CompletesWith 9)
      [.complete 9, .wrap, .wrap, .wrap, .wrap, .caller] (fun s => s.caller = .lock) (by decide)
    exact ⟨s, hs, hc, (((delivered_once 9).1 s hs).1 hc).2.2⟩
  · obtain ⟨s, hs, hen, hans, hlog⟩ := LTS.exists_of_exec (system ℕ false) (CompletesWith 9)
      [.poll ⟨1⟩, .complete 9, .wrap, .wrap, .wrap, .wrap]
      (fun s => Enabled s (.poll ⟨2⟩) ∧ s.answer 9 = .ready 9 ∧ s.log = [.polled ⟨1⟩ .pending])
      (by decide)
    exact ⟨s, hs, by rw [((delivered_once 9).2 s hs).1 _ hen, hans, hlog]⟩

end Join

end BunnyDs
