import BunnyDs.Fs.Futures
import BunnyDs.Fs.Pool
import Mathlib.Data.Fin.VecNotation

/-!
# File futures and workers

Any number of futures `ι` and workers `κ` over one `ASYNC_FS_POOL`, at the granularity of single
loads and stores.  The queue and the workers are the pool of `BunnyDs.Fs.Pool`
(`FileFutures.pool_simulation`); everything else belongs to one future.

* `FileFutures.forall_futs_fire` is the rule for what concerns each future on its own;
  `FileFutures.placement_step` is about where the operations are.
* `FileFutures.Inv` adds to the protocol of every future where its operation is, and that no two
  workers are at the same operation.
* `FileFutures.served_of_quiet` : when the counts of the pool keep pace, a pool at rest has served
  every future.
* `FileFutures.readyVisible_reachable` : a future is `Ready` only after the worker's last store.
-/

namespace BunnyDs

namespace FileFutures

/-! ### The system -/

variable {ι κ : Type*}

/-- The pool and its workers, and the futures. -/
structure State (ι κ : Type*) where
  base : Pool.State ι κ
  futs : ι → Fut

/-- One step of a future or of a worker. -/
inductive Label (ι κ : Type*) where
  /-- The future `i` is polled by its task. -/
  | poll (i : ι)
  /-- The next access of its poll. -/
  | access (i : ι)
  /-- `task_queue.wait` returns in the worker `k`. -/
  | take (k : κ)
  /-- `task_queue.remove()` by the worker `k`. -/
  | remove (k : κ)
  /-- The file operation of the worker `k` is answered. -/
  | execute (k : κ) (reply : FileReply)
  /-- The next store of its `resolve`. -/
  | store (k : κ)
  /-- Its wake. -/
  | wake (k : κ)

/-- The operation the worker executes. -/
def State.opOf (s : State ι κ) (k : κ) : Option ι :=
  match s.base.workers k with
  | .busy op => some op
  | _ => none

/-- The place of the worker in its operation. -/
def State.stageOf (s : State ι κ) (k : κ) : Stage :=
  match s.opOf k with
  | some i => (s.futs i).stage
  | none => .unsent

variable [DecidableEq ι] [DecidableEq κ]

/-- The future `i` makes a step. -/
def State.update (s : State ι κ) (i : ι) (step : Fut → Fut) : State ι κ :=
  { s with futs := Function.update s.futs i (step (s.futs i)) }

/-- The half of `add` that an access makes. -/
def poolLabel (i : ι) : PollPc → Option (Pool.Label ι κ)
  | .push => some (.push i)
  | .release => some (.release i)
  | _ => none

/-- A step of the pool, if there is one. -/
def State.onPool (s : State ι κ) : Option (Pool.Label ι κ) → State ι κ
  | some l => { s with base := Pool.fire s.base l }
  | none => s

/-- The effect of a step. -/
def fire (C : Ctru) (msg : ι → AsyncFsMsg) (s : State ι κ) : Label ι κ → State ι κ
  | .poll i => s.update i fun f => { f with pc := .load }
  | .access i => (s.update i (Fut.access C (msg i))).onPool (poolLabel i (s.futs i).pc)
  | .take k => s.onPool (some (.take k))
  | .remove k =>
    match s.base.pool.queue.back? with
    | some i => (s.update i Fut.dequeue).onPool (some (.remove k))
    | none => s.onPool (some (.remove k))
  | .execute k reply =>
    match s.opOf k with
    | some i => s.update i (Fut.execute (fileResult C (msg i) reply))
    | none => s
  | .store k =>
    match s.opOf k with
    | some i => s.update i (Fut.store (msg i))
    | none => s
  | .wake k =>
    match s.opOf k with
    | some i => (s.update i (Fut.wake (msg i))).onPool (some (.finish k))
    | none => s

/-- A step can be taken. -/
def Enabled (s : State ι κ) : Label ι κ → Prop
  | .poll i => (s.futs i).pc = .idle
  | .access i => (s.futs i).pc ≠ .idle
  | .take k => Pool.Enabled s.base (.take k)
  | .remove k => Pool.Enabled s.base (.remove k)
  | .execute k _ => (s.stageOf k).isHeld = true
  | .store k => (s.stageOf k).isStoring = true
  | .wake k => (s.stageOf k).isResolved = true

instance (s : State ι κ) (l : Label ι κ) : Decidable (Enabled s l) :=
  match l with
  | .poll i => inferInstanceAs (Decidable ((s.futs i).pc = .idle))
  | .access i => inferInstanceAs (Decidable ((s.futs i).pc ≠ .idle))
  | .take k => inferInstanceAs (Decidable (Pool.system.Enabled s.base (.take k)))
  | .remove k => inferInstanceAs (Decidable (Pool.system.Enabled s.base (.remove k)))
  | .execute k _ => inferInstanceAs (Decidable ((s.stageOf k).isHeld = true))
  | .store k => inferInstanceAs (Decidable ((s.stageOf k).isStoring = true))
  | .wake k => inferInstanceAs (Decidable ((s.stageOf k).isResolved = true))

/-- The futures `ι`, with the operations `msg`, on a pool with the workers `κ`. -/
def system (C : Ctru) (msg : ι → AsyncFsMsg) : LTS (State ι κ) (Label ι κ) where
  init := ⟨Pool.system.init, fun _ => .new⟩
  Enabled := Enabled
  fire := fire C msg

instance (C : Ctru) (msg : ι → AsyncFsMsg) (s : State ι κ) (l : Label ι κ) :
    Decidable ((system C msg).Enabled s l) :=
  inferInstanceAs (Decidable (Enabled s l))

/-- The file service answers every operation of the run as it is assumed to. -/
def Assumed (C : Ctru) (msg : ι → AsyncFsMsg) (s : State ι κ) : Label ι κ → Prop
  | .execute k reply => ∀ i ∈ s.opOf k, Answers C (msg i) reply
  | _ => True

/-! ### The protocol over whole runs -/

/-- A worker is at the operation. -/
def Stage.active : Stage → Bool
  | .held | .executed _ | .stored _ | .resolved _ | .panicked => true
  | _ => false

/-- Where the pool has the operation of a future. -/
structure Placed (b : Pool.State ι κ) (i : ι) (f : Fut) : Prop where
  queued : i ∈ b.pool.queue.vals ↔ f.stage = .queued
  busy : (∃ k, b.workers k = .busy i) ↔ f.stage.active = true
  idle : b.pool.adds i = .idle ↔ f.stage.sent = false
  pushed : b.pool.adds i = .pushed ↔ f.pc = .release

/-- **The invariant of a run**: the protocol of every future, where its operation is, and that no
two workers are at the same operation. -/
structure Inv (C : Ctru) (msg : ι → AsyncFsMsg) (s : State ι κ) : Prop where
  futs : ∀ i, FutInv C (msg i) (s.futs i)
  placed : ∀ i, Placed s.base i (s.futs i)
  one : ∀ k k' i, s.base.workers k = .busy i → s.base.workers k' = .busy i → k = k'

section Runs

variable {C : Ctru} {msg : ι → AsyncFsMsg} {s : State ι κ} {i : ι} {k : κ}

omit [DecidableEq ι] [DecidableEq κ] in
theorem State.stageOf_of_op (hop : s.opOf k = some i) : s.stageOf k = (s.futs i).stage := by
  simp only [stageOf, hop]

omit [DecidableEq ι] [DecidableEq κ] in
theorem State.busy_of_op (hop : s.opOf k = some i) : s.base.workers k = .busy i := by
  unfold opOf at hop
  cases hw : s.base.workers k <;> rw [hw] at hop <;> cases hop
  rfl

/-- **What every step of a future and of its worker keeps, every step of a run keeps.** -/
theorem forall_futs_fire {P : ι → Fut → Prop} {l : Label ι κ}
    (hqueued : ∀ i ∈ s.base.pool.queue.vals, (s.futs i).stage = .queued) (hen : Enabled s l)
    (hpoll : ∀ i, (s.futs i).pc = .idle → P i (s.futs i) → P i { s.futs i with pc := .load })
    (haccess : ∀ i, l = .access i → P i (s.futs i) → P i ((s.futs i).access C (msg i)))
    (hdequeue : ∀ i, (s.futs i).stage = .queued → P i (s.futs i) → P i (s.futs i).dequeue)
    (hexecute : ∀ i k reply, l = .execute k reply → s.opOf k = some i →
      (s.futs i).stage = .held → P i (s.futs i) →
      P i ((s.futs i).execute (fileResult C (msg i) reply)))
    (hstore : ∀ i, (s.futs i).stage.isStoring = true → P i (s.futs i) →
      P i ((s.futs i).store (msg i)))
    (hwake : ∀ i, (s.futs i).stage.isResolved = true → P i (s.futs i) →
      P i ((s.futs i).wake (msg i)))
    (h : ∀ i, P i (s.futs i)) : ∀ i, P i ((fire C msg s l).futs i) := by
  have hupdate : ∀ i f, P i f → ∀ j, P j (Function.update s.futs i f j) := fun i f hf =>
    (Function.forall_update_iff s.futs P).2 ⟨hf, fun j _ => h j⟩
  cases l with
  | poll i => exact hupdate i _ (hpoll i hen (h i))
  | access i =>
    have := hupdate i _ (haccess i rfl (h i))
    simp only [fire]
    cases (s.futs i).pc <;> exact this
  | take k => exact h
  | remove k =>
    simp only [fire]
    cases hback : s.base.pool.queue.back? with
    | none => exact h
    | some i =>
      have hmem : i ∈ s.base.pool.queue.vals := by
        rw [SyncQueue.vals_eq_of_back? hback]
        simp
      exact hupdate i _ (hdequeue i (hqueued i hmem) (h i))
  | execute k reply =>
    simp only [fire]
    cases hop : s.opOf k with
    | none => exact h
    | some i =>
      have hst : (s.futs i).stage.isHeld = true := State.stageOf_of_op hop ▸ hen
      exact hupdate i _ (hexecute i k reply rfl hop (Stage.eq_held hst) (h i))
  | store k =>
    simp only [fire]
    cases hop : s.opOf k with
    | none => exact h
    | some i => exact hupdate i _ (hstore i (State.stageOf_of_op hop ▸ hen) (h i))
  | wake k =>
    simp only [fire]
    cases hop : s.opOf k with
    | none => exact h
    | some i => exact hupdate i _ (hwake i (State.stageOf_of_op hop ▸ hen) (h i))

/-- Every step keeps the protocol of every future. -/
theorem futInv_step {l : Label ι κ} (h : Inv C msg s) (hen : Enabled s l)
    (hok : Assumed C msg s l) : ∀ i, FutInv C (msg i) ((fire C msg s l).futs i) := by
  refine forall_futs_fire (P := fun i f => FutInv C (msg i) f)
    (fun i hi => (h.placed i).queued.1 hi) hen (fun _ hpc hf => futInv_poll hf hpc)
    (fun _ _ hf => futInv_access hf) (fun _ hst hf => futInv_dequeue hf hst) ?_
    (fun _ hst hf => futInv_store hf hst) (fun _ hst hf => futInv_wake hf hst) h.futs
  rintro i k reply rfl hop hst hf
  exact futInv_execute hf hst (reported_fileResult (hok i hop))

/-! ### Where the operations are -/

/-- The part of the invariant that is about the pool. -/
structure Placement (s : State ι κ) : Prop where
  placed : ∀ i, Placed s.base i (s.futs i)
  one : ∀ k k' i, s.base.workers k = .busy i → s.base.workers k' = .busy i → k = k'

omit [DecidableEq κ] in
/-- A step of the pool and of one future. -/
theorem placement_update {b : Pool.State ι κ} {f : Fut} (hi : Placed b i f)
    (hj : ∀ j, j ≠ i → Placed b j (s.futs j))
    (hone : ∀ k k' i, b.workers k = .busy i → b.workers k' = .busy i → k = k') :
    Placement ⟨b, Function.update s.futs i f⟩ :=
  ⟨(Function.forall_update_iff s.futs fun j f => Placed b j f).2 ⟨hi, hj⟩, hone⟩

omit [DecidableEq κ] in
/-- A step of one future that does not concern the pool. -/
theorem placement_local {f : Fut} (h : Placement s)
    (hq : f.stage = .queued ↔ (s.futs i).stage = .queued)
    (hb : f.stage.active = (s.futs i).stage.active)
    (hs : f.stage.sent = (s.futs i).stage.sent) (hp : f.pc = .release ↔ (s.futs i).pc = .release) :
    Placement ⟨s.base, Function.update s.futs i f⟩ := by
  have hi := h.placed i
  refine placement_update ⟨hi.queued.trans hq.symm, ?_, ?_, hi.pushed.trans hp.symm⟩
    (fun j _ => h.placed j) h.one
  · rw [hb]
    exact hi.busy
  · rw [hs]
    exact hi.idle

omit [DecidableEq κ] in
/-- An access that is not part of `add`. -/
theorem placement_access (h : Placement s) (hpush : (s.futs i).pc ≠ .push)
    (hrelease : (s.futs i).pc ≠ .release) : Placement (s.update i (Fut.access C (msg i))) := by
  have hstage := access_stage (C := C) (m := msg i) hpush
  refine placement_local h ?_ ?_ ?_ ?_
  · rw [hstage]
  · rw [hstage]
  · rw [hstage]
  · exact ⟨fun h => absurd h (access_pc hpush), fun h => absurd h hrelease⟩

/-- The push of the operation. -/
theorem placement_push (h : Placement s) (hpc : (s.futs i).pc = .push)
    (hst : (s.futs i).stage = .unsent) :
    Placement ⟨Pool.fire s.base (.push i),
      Function.update s.futs i ((s.futs i).access C (msg i))⟩ := by
  have hi := h.placed i
  have hidle : s.base.pool.adds i = .idle := hi.idle.2 (by rw [hst]; rfl)
  refine placement_update ?_ (fun j hj => ?_) h.one
  · simp only [Fut.access, hpc]
    refine ⟨?_, ?_, ?_, ?_⟩
    · simp [Pool.fire, Channel.push_queue hidle]
    · have := hi.busy
      rwa [hst] at this
    · simp [Pool.fire, Channel.push_adds hidle, Stage.sent]
    · simp [Pool.fire, Channel.push_adds hidle]
  · have hjp := h.placed j
    refine ⟨?_, hjp.busy, ?_, ?_⟩
    · simpa [Pool.fire, Channel.push_queue hidle, hj] using hjp.queued
    · simpa [Pool.fire, Channel.push_adds hidle, Function.update_of_ne hj] using hjp.idle
    · simpa [Pool.fire, Channel.push_adds hidle, Function.update_of_ne hj] using hjp.pushed

/-- The release after it. -/
theorem placement_release (h : Placement s) (hpc : (s.futs i).pc = .release)
    (hsent : (s.futs i).stage.sent = true) :
    Placement ⟨Pool.fire s.base (.release i),
      Function.update s.futs i ((s.futs i).access C (msg i))⟩ := by
  have hi := h.placed i
  refine placement_update ?_ (fun j hj => ?_) h.one
  · simp only [Fut.access, hpc]
    refine ⟨hi.queued, hi.busy, ?_, ?_⟩ <;> simp [Pool.fire, hsent]
  · have hjp := h.placed j
    refine ⟨hjp.queued, hjp.busy, ?_, ?_⟩
    · simpa [Pool.fire, Function.update_of_ne hj] using hjp.idle
    · simpa [Pool.fire, Function.update_of_ne hj] using hjp.pushed

omit [DecidableEq ι] in
/-- Who is busy after a worker that was not has moved. -/
theorem busy_update_iff {workers : κ → Pool.Worker ι} (hk : (workers k).isBusy = false)
    {w : Pool.Worker ι} {k' : κ} {j : ι} :
    Function.update workers k w k' = .busy j ↔ k' = k ∧ w = .busy j ∨ workers k' = .busy j := by
  by_cases he : k' = k
  · subst he
    have hne : workers k' ≠ .busy j := fun h => by
      rw [h] at hk
      cases hk
    simp [hne]
  · simp [he]

omit [DecidableEq ι] in
/-- A worker takes a count, or finds the queue empty: it is at no operation, as before. -/
theorem placement_workers (h : Placement s) {b : Pool.State ι κ} {w : Pool.Worker ι}
    (hk : (s.base.workers k).isBusy = false) (hbusy : w.isBusy = false)
    (hw : b.workers = Function.update s.base.workers k w)
    (hvals : b.pool.queue.vals = s.base.pool.queue.vals) (hadds : b.pool.adds = s.base.pool.adds) :
    Placement ⟨b, s.futs⟩ := by
  have hsame : ∀ k' j, b.workers k' = .busy j ↔ s.base.workers k' = .busy j := by
    intro k' j
    rw [hw, busy_update_iff hk]
    refine or_iff_right fun hj => ?_
    rw [hj.2] at hbusy
    cases hbusy
  refine ⟨fun j => ?_, fun k₁ k₂ j h₁ h₂ => ?_⟩
  · have hj := h.placed j
    refine ⟨?_, ?_, ?_, ?_⟩
    · rw [hvals]
      exact hj.queued
    · simp only [hsame]
      exact hj.busy
    · rw [hadds]
      exact hj.idle
    · rw [hadds]
      exact hj.pushed
  · exact h.one k₁ k₂ j ((hsame _ _).1 h₁) ((hsame _ _).1 h₂)

/-- A worker removes an operation: it was queued, and no worker was at it. -/
theorem placement_remove (h : Placement s) (hk : (s.base.workers k).isBusy = false)
    (hback : s.base.pool.queue.back? = some i) :
    Placement ⟨⟨s.base.pool.remove, Function.update s.base.workers k (.busy i)⟩,
      Function.update s.futs i (s.futs i).dequeue⟩ := by
  have hvals := SyncQueue.vals_eq_of_back? hback
  have hi := h.placed i
  have hst : (s.futs i).stage = .queued := hi.queued.1 (by rw [hvals]; simp)
  have hfree : ∀ k', s.base.workers k' ≠ .busy i := fun k' hk' => by
    have := hi.busy.1 ⟨k', hk'⟩
    rw [hst] at this
    cases this
  -- the values are distinct, so the operation is gone from the queue
  have hgone : i ∉ s.base.pool.remove.queue.vals := fun hm => by
    have hnd := s.base.pool.nodup
    rw [hvals, List.nodup_append] at hnd
    exact absurd rfl (hnd.2.2 i hm i (by simp))
  refine placement_update ⟨?_, ?_, ?_, hi.pushed⟩ (fun j hj => ?_) fun k₁ k₂ j h₁ h₂ => ?_
  · exact iff_of_false hgone (by simp [Fut.dequeue])
  · exact iff_of_true ⟨k, Function.update_self ..⟩ rfl
  · have := hi.idle
    rwa [hst] at this
  · have hjp := h.placed j
    refine ⟨?_, ?_, hjp.idle, hjp.pushed⟩
    · rw [← hjp.queued, hvals, List.mem_append, List.mem_singleton, or_iff_left hj]
      rfl
    · simp only [busy_update_iff hk, Pool.Worker.busy.injEq, Ne.symm hj, and_false, false_or]
      exact hjp.busy
  · simp only [busy_update_iff hk, Pool.Worker.busy.injEq] at h₁ h₂
    rcases h₁ with ⟨hk₁, rfl⟩ | h₁ <;> rcases h₂ with ⟨hk₂, hj⟩ | h₂
    · rw [hk₁, hk₂]
    · exact absurd h₂ (hfree k₂)
    · exact absurd (hj ▸ h₁) (hfree k₁)
    · exact h.one k₁ k₂ j h₁ h₂

theorem Stage.sent_of_active {st : Stage} (h : st.active = true) : st.sent = true := by
  cases st <;> first | rfl | cases h

/-- The stores of `resolve` do not end the work on the operation. -/
theorem store_active {m : AsyncFsMsg} {f : Fut} (h : f.stage.isStoring = true) :
    (f.store m).stage.active = true := by
  unfold Fut.store
  cases hst : f.stage <;> rw [hst] at h <;> try cases h
  · dsimp only
    split <;> rfl
  · rfl

omit [DecidableEq κ] in
/-- The worker at an operation moves on with it. -/
theorem placement_active {f : Fut} (h : Placement s) (hact : (s.futs i).stage.active = true)
    (hact' : f.stage.active = true) (hpc : f.pc = (s.futs i).pc) :
    Placement ⟨s.base, Function.update s.futs i f⟩ := by
  have hnot : ∀ st : Stage, st.active = true → st ≠ .queued := by
    rintro st h rfl
    cases h
  refine placement_local h (iff_of_false (hnot _ hact') (hnot _ hact)) ?_ ?_ (by rw [hpc])
  · rw [hact, hact']
  · rw [Stage.sent_of_active hact, Stage.sent_of_active hact']

/-- The worker has woken the task, and waits again. -/
theorem placement_wake (h : Placement s) (hop : s.opOf k = some i)
    (hst : (s.futs i).stage.isResolved = true) :
    Placement ⟨Pool.fire s.base (.finish k),
      Function.update s.futs i ((s.futs i).wake (msg i))⟩ := by
  have hk := State.busy_of_op hop
  have hi := h.placed i
  obtain ⟨res, hs⟩ := Stage.exists_of_isResolved hst
  have hstep : (s.futs i).wake (msg i) = { s.futs i with
      stage := .finished res, log := .woke (msg i).task :: (s.futs i).log } := by
    simp only [Fut.wake, hs]
  rw [hstep]
  have hbusy : ∀ k' j, Function.update s.base.workers k .waiting k' = .busy j ↔
      k' ≠ k ∧ s.base.workers k' = .busy j := by
    intro k' j
    by_cases he : k' = k
    · simp [he]
    · simp [he]
  refine placement_update ⟨?_, ?_, ?_, hi.pushed⟩ (fun j hj => ?_)
    fun k₁ k₂ j h₁ h₂ => h.one k₁ k₂ j ((hbusy _ _).1 h₁).2 ((hbusy _ _).1 h₂).2
  · refine iff_of_false (fun hm => ?_) (by simp)
    rw [hi.queued.1 hm] at hs
    cases hs
  · -- no other worker was at this operation
    refine iff_of_false ?_ (by simp [Stage.active])
    rintro ⟨k', hk'⟩
    obtain ⟨hne, hk'⟩ := (hbusy k' i).1 hk'
    exact hne (h.one k' k i hk' hk)
  · have := hi.idle
    rwa [hs] at this
  · have hjp := h.placed j
    refine ⟨hjp.queued, ?_, hjp.idle, hjp.pushed⟩
    have hne : ∀ k', s.base.workers k' = .busy j → k' ≠ k := by
      rintro k' hk' rfl
      exact hj (Pool.Worker.busy.inj (hk'.symm.trans hk))
    rw [← hjp.busy]
    exact exists_congr fun k' =>
      (hbusy k' j).trans ⟨fun h => h.2, fun h => ⟨hne k' h, h⟩⟩

/-- Every step keeps the operations where the protocol says. -/
theorem placement_step {l : Label ι κ} (hf : ∀ i, PcInv (msg i) (s.futs i)) (h : Placement s)
    (hen : Enabled s l) : Placement (fire C msg s l) := by
  cases l with
  | poll i =>
    have hpc : (s.futs i).pc = .idle := hen
    exact placement_local h Iff.rfl rfl rfl (by simp [hpc])
  | access i =>
    have hp := hf i
    simp only [fire]
    cases hpc : (s.futs i).pc with
    | push =>
      rw [PcInv, hpc] at hp
      exact placement_push h hpc hp.2
    | release =>
      rw [PcInv, hpc] at hp
      exact placement_release h hpc hp.2
    | _ => exact placement_access h (by simp [hpc]) (by simp [hpc])
  | take k =>
    have hk : s.base.workers k = .waiting := hen.1
    exact placement_workers h (by rw [hk]; rfl) rfl rfl rfl rfl
  | remove k =>
    have hk : s.base.workers k = .took := hen
    have hk : (s.base.workers k).isBusy = false := by rw [hk]; rfl
    simp only [fire]
    cases hback : s.base.pool.queue.back? with
    | some i =>
      simp only [State.onPool, State.update, Pool.fire, hback]
      exact placement_remove h hk hback
    | none =>
      simp only [State.onPool, Pool.fire, hback]
      exact placement_workers h hk rfl rfl rfl rfl
  | execute k reply =>
    simp only [fire]
    cases hop : s.opOf k with
    | none => exact h
    | some i =>
      have hst : (s.futs i).stage = .held := Stage.eq_held (State.stageOf_of_op hop ▸ hen)
      exact placement_active h (by rw [hst]; rfl) rfl rfl
  | store k =>
    simp only [fire]
    cases hop : s.opOf k with
    | none => exact h
    | some i =>
      have hst : (s.futs i).stage.isStoring = true := State.stageOf_of_op hop ▸ hen
      have hact := (h.placed i).busy.1 ⟨k, State.busy_of_op hop⟩
      exact placement_active h hact (store_active hst) store_pc
  | wake k =>
    simp only [fire]
    cases hop : s.opOf k with
    | none => exact h
    | some i => exact placement_wake h hop (State.stageOf_of_op hop ▸ hen)

theorem inv_init : Inv C msg (system (ι := ι) (κ := κ) C msg).init where
  futs _ := futInv_new
  placed _ := by constructor <;> simp [system, Pool.system, Fut.new, Stage.sent, Stage.active]
  one _ _ _ h := by simp [system, Pool.system] at h

theorem inv_step {l : Label ι κ} (h : Inv C msg s) (hen : Enabled s l) (hok : Assumed C msg s l) :
    Inv C msg (fire C msg s l) := by
  have hfuts := futInv_step h hen hok
  have hplaced : Placement (fire C msg s l) :=
    placement_step (fun i => (h.futs i).pc) ⟨h.placed, h.one⟩ hen
  exact ⟨hfuts, hplaced.placed, hplaced.one⟩

theorem inv_reachable (h : (system C msg).ReachableBy (Assumed C msg) s) : Inv C msg s :=
  h.invariant inv_init fun _ _ _ hi hen hok => inv_step hi hen hok

end Runs

/-! ### What a `Ready` value tells -/

/-- The worker of the operation still has to touch the memory of the future. -/
def owed : Stage → Bool
  | .queued | .held | .executed _ | .stored _ => true
  | _ => false

theorem owed_of_unsent {st : Stage} (h : st.sent = false) : owed st = false := by
  cases st <;> first | rfl | cases h

theorem owed_of_isStoring {st : Stage} (h : st.isStoring = true) : owed st = true := by
  cases st <;> first | rfl | cases h

theorem owed_of_visible {st : Stage} (h : st.visible?.isSome = true) : owed st = false := by
  cases st <;> first | rfl | cases h

/-- A poll returned `Ready`. -/
def Event.isReady : Event → Bool
  | .polled (some _) => true
  | _ => false

/-- The task has not polled the future yet, or a poll has returned `Ready`. -/
def Fut.NotPending (f : Fut) : Prop := f.log = [] ∨ ∃ res, .polled (some res) ∈ f.log

theorem Event.isReady_iff {e : Event} : e.isReady = true ↔ ∃ res, e = .polled (some res) := by
  cases e with
  | polled res => cases res <;> simp [Event.isReady]
  | _ => simp [Event.isReady]

theorem Fut.notPending_iff {f : Fut} :
    f.NotPending ↔ f.log = [] ∨ ∃ e ∈ f.log, e.isReady = true := by
  refine or_congr_right ⟨fun ⟨res, he⟩ => ⟨_, he, rfl⟩, ?_⟩
  rintro ⟨e, he, hr⟩
  obtain ⟨res, rfl⟩ := Event.isReady_iff.1 hr
  exact ⟨res, he⟩

instance (f : Fut) : Decidable f.NotPending := decidable_of_iff _ Fut.notPending_iff.symm

/-- A `Ready` value was reported after the last store of the worker. -/
def ReadyVisible (f : Fut) : Prop :=
  ∀ res, .polled (some res) ∈ f.log → f.stage.visible?.isSome = true

section Visible

variable {C : Ctru} {m : AsyncFsMsg} {f : Fut}

theorem readyVisible_pending (h : ReadyVisible f) : ReadyVisible f.pending :=
  fun res hres => h res (by simpa [Fut.pending] using hres)

theorem readyVisible_ioPoll (h : ReadyVisible f) : ReadyVisible f.ioPoll := by
  unfold Fut.ioPoll
  split_ifs
  · exact h
  · exact h
  · exact readyVisible_pending h

theorem readyVisible_flushPoll (h : ReadyVisible f) : ReadyVisible f.flushPoll := by
  unfold Fut.flushPoll
  split_ifs
  · exact h
  · exact h
  · exact readyVisible_pending h

theorem readyVisible_access (hi : FutInv C m f) (h : ReadyVisible f) :
    ReadyVisible (f.access C m) := by
  have hp := hi.pc
  cases hpc : f.pc with
  | idle => simpa only [Fut.access, hpc] using h
  | load =>
    simp only [Fut.access, hpc]
    cases m with
    | write op | read op => exact readyVisible_ioPoll h
    | flush op => exact readyVisible_flushPoll h
  | push =>
    -- nothing was submitted, so nothing was reported
    rw [PcInv, hpc] at hp
    intro res hres
    simp only [Fut.access, hpc, List.mem_cons, reduceCtorEq, false_or] at hres
    have := h res hres
    rw [hp.2] at this
    cases this
  | release =>
    simp only [Fut.access, hpc]
    exact h
  | register =>
    intro res hres
    simp only [Fut.access, hpc, Fut.pending, List.mem_cons, Event.polled.injEq, reduceCtorEq,
      false_or] at hres ⊢
    exact h res hres
  | resolve bytes =>
    rw [PcInv, hpc] at hp
    obtain ⟨-, res, hv, -⟩ := hp
    intro _ _
    simp only [Fut.access, hpc, hv, Option.isSome_some]

/-- A step of the worker, which reports nothing. -/
theorem ReadyVisible.of_worker {f' : Fut} (h : ReadyVisible f)
    (hlog : ∀ res, .polled (some res) ∈ f'.log → .polled (some res) ∈ f.log)
    (hv : f.stage.visible?.isSome = true → f'.stage.visible?.isSome = true) : ReadyVisible f' :=
  fun res hres => hv (h res (hlog res hres))

theorem readyVisible_store (h : ReadyVisible f) : ReadyVisible (f.store m) := by
  unfold Fut.store
  cases hst : f.stage with
  | executed res =>
    dsimp only
    cases storeState res f.cells <;>
      exact h.of_worker (fun _ hr => hr) fun hv => by rw [hst] at hv; cases hv
  | stored res => exact h.of_worker (fun _ hr => by simpa using hr) fun _ => rfl
  | _ => exact h

theorem readyVisible_wake (h : ReadyVisible f) : ReadyVisible (f.wake m) := by
  unfold Fut.wake
  cases hst : f.stage with
  | resolved res => exact h.of_worker (fun _ hr => by simpa using hr) fun _ => rfl
  | _ => exact h

/-- Nothing is owed to a future that is not pending. -/
theorem owed_of_notPending (hi : FutInv C m f) (h : ReadyVisible f) (hf : f.NotPending) :
    owed f.stage = false := by
  rcases hf with hlog | ⟨res, hres⟩
  · have hsub := hi.log.submitted
    rw [hlog, List.count_nil, eq_comm, Bool.toNat_eq_zero] at hsub
    exact owed_of_unsent hsub
  · exact owed_of_visible (h res hres)

end Visible

theorem readyVisible_step {C : Ctru} {msg : ι → AsyncFsMsg} {s : State ι κ} {l : Label ι κ}
    (hi : Inv C msg s) (hen : Enabled s l) (h : ∀ i, ReadyVisible (s.futs i)) :
    ∀ i, ReadyVisible ((fire C msg s l).futs i) := by
  refine forall_futs_fire (fun i hm => (hi.placed i).queued.1 hm) hen (fun _ _ h => h)
    (fun i _ h => readyVisible_access (hi.futs i) h) (fun i hst h => ?_)
    (fun i _ _ _ _ hst h => ?_) (fun _ _ h => readyVisible_store h)
    (fun _ _ h => readyVisible_wake h) h
  · exact h.of_worker (fun _ hr => hr) fun hv => by rw [hst] at hv; cases hv
  · exact h.of_worker (fun _ hr => by simpa [Fut.execute] using hr)
      fun hv => by rw [hst] at hv; cases hv

/-- Only the push of its operation makes a worker owe a future something. -/
theorem owed_step {C : Ctru} {msg : ι → AsyncFsMsg} {s : State ι κ} {l : Label ι κ} {P : ι → Prop}
    (hi : Inv C msg s) (hen : Enabled s l)
    (hpush : ∀ i, l = .access i → (s.futs i).pc = .push → P i)
    (h : ∀ i, owed (s.futs i).stage = true → P i) :
    ∀ i, owed ((fire C msg s l).futs i).stage = true → P i := by
  refine forall_futs_fire (P := fun i f => owed f.stage = true → P i)
    (fun i hm => (hi.placed i).queued.1 hm) hen (fun _ _ h => h) (fun i hl h howed => ?_)
    (fun i hst h _ => ?_) (fun i _ _ _ _ hst h _ => ?_) (fun i hst h _ => ?_)
    (fun i hst h howed => ?_) h
  · by_cases hpc : (s.futs i).pc = .push
    · exact hpush i hl hpc
    · exact h (access_stage (C := C) (m := msg i) hpc ▸ howed)
  · exact h (by rw [hst]; rfl)
  · exact h (by rw [hst]; rfl)
  · exact h (owed_of_isStoring hst)
  · obtain ⟨res, hres⟩ := Stage.exists_of_isResolved hst
    simp only [Fut.wake, hres] at howed
    cases howed

theorem readyVisible_reachable {C : Ctru} {msg : ι → AsyncFsMsg} {s : State ι κ}
    (h : (system C msg).ReachableBy (Assumed C msg) s) : ∀ i, ReadyVisible (s.futs i) :=
  h.invariant (fun _ _ hm => by simp [system, Fut.new] at hm)
    fun _ _ hs hv hen _ => readyVisible_step (inv_reachable hs) hen hv

/-! ### The pool below -/

omit [DecidableEq ι] [DecidableEq κ] in
/-- The step of the pool that a step of a future or of a worker makes. -/
def poolStep (s : State ι κ) : Label ι κ → Option (Pool.Label ι κ)
  | .access i => poolLabel i (s.futs i).pc
  | .take k => some (.take k)
  | .remove k => some (.remove k)
  | .wake k => (s.opOf k).map fun _ => .finish k
  | .poll _ | .execute _ _ | .store _ => none

/-- The answers are as assumed, and the steps on the pool meet `ok`. -/
def AssumedOn (C : Ctru) (msg : ι → AsyncFsMsg) (ok : Pool.State ι κ → Pool.Label ι κ → Prop)
    (s : State ι κ) (l : Label ι κ) : Prop :=
  Assumed C msg s l ∧ ∀ m ∈ poolStep s l, ok s.base m

/-- What a step does to the queue and the workers. -/
theorem fire_base (C : Ctru) (msg : ι → AsyncFsMsg) (s : State ι κ) (l : Label ι κ) :
    (fire C msg s l).base = (poolStep s l).elim s.base (Pool.fire s.base) := by
  cases l with
  | poll i | take k => rfl
  | access i =>
    simp only [fire, poolStep]
    cases (s.futs i).pc <;> rfl
  | remove k =>
    simp only [fire, poolStep]
    cases s.base.pool.queue.back? <;> rfl
  | execute k reply | store k | wake k =>
    simp only [fire, poolStep]
    cases s.opOf k <;> rfl

omit [DecidableEq ι] [DecidableEq κ] in
/-- The pool can make its part of an enabled step. -/
theorem Inv.poolStep_enabled {C : Ctru} {msg : ι → AsyncFsMsg} {s : State ι κ} {l : Label ι κ}
    {m : Pool.Label ι κ} (h : Inv C msg s) (hen : Enabled s l) (hm : poolStep s l = some m) :
    Pool.Enabled s.base m := by
  cases l with
  | poll i | execute k reply | store k => cases hm
  | access i =>
    simp only [poolStep] at hm
    cases hpc : (s.futs i).pc <;> rw [hpc] at hm <;> cases hm
    · have hst := (h.futs i).pc
      rw [PcInv, hpc] at hst
      exact (h.placed i).idle.2 (by rw [hst.2]; rfl)
    · exact (h.placed i).pushed.2 hpc
  | take k | remove k =>
    cases hm
    exact hen
  | wake k =>
    simp only [poolStep, Option.map_eq_some_iff] at hm
    obtain ⟨i, hop, rfl⟩ := hm
    simp only [Pool.Enabled, State.busy_of_op hop, Pool.Worker.isBusy]

/-- **The pool below**: in every run of the futures the queue and the workers are the pool of
`BunnyDs.Fs.Pool`, whose `push` and `release` the futures call. -/
theorem pool_simulation (C : Ctru) (msg : ι → AsyncFsMsg)
    (ok : Pool.State ι κ → Pool.Label ι κ → Prop) :
    LTS.Simulation (system C msg) (AssumedOn C msg ok) Pool.system ok State.base := by
  refine ⟨rfl, fun s l hs hen hok => ?_⟩
  have hi := inv_reachable (hs.mono fun _ _ h => h.1)
  have hbase := fire_base C msg s l
  cases hm : poolStep s l with
  | none =>
    rw [hm] at hbase
    exact .inl hbase
  | some m =>
    rw [hm] at hbase
    exact .inr ⟨m, hi.poolStep_enabled hen hm, hok.2 m hm, hbase⟩

omit [DecidableEq ι] [DecidableEq κ] in
/-- A registered future whose operation is neither ready in the queue nor with a worker has been
served. -/
theorem Inv.finished {C : Ctru} {msg : ι → AsyncFsMsg} {s : State ι κ} {i : ι} (h : Inv C msg s)
    (hreg : (s.futs i).registered = true)
    (hqueue : ∀ i ∈ s.base.pool.queue.vals, s.base.pool.adds i ≠ .returned)
    (hwait : ∀ k, s.base.workers k = .waiting) : ∃ res, (s.futs i).stage = .finished res := by
  obtain ⟨hsent, hpc⟩ := (h.futs i).sent_of_registered hreg
  have hi := h.placed i
  have hactive : (s.futs i).stage.active ≠ true := fun hact => by
    obtain ⟨k, hk⟩ := hi.busy.2 hact
    rw [hwait k] at hk
    cases hk
  have hqueued : (s.futs i).stage ≠ .queued := fun hst => by
    refine hqueue i (hi.queued.2 hst) ?_
    cases hadd : s.base.pool.adds i with
    | idle => exact absurd (hsent.symm.trans (hi.idle.1 hadd)) (by simp)
    | pushed => exact absurd (hi.pushed.1 hadd) hpc
    | returned => rfl
  cases hst : (s.futs i).stage with
  | finished res => exact ⟨res, rfl⟩
  | unsent =>
    rw [hst] at hsent
    cases hsent
  | queued => exact absurd hst hqueued
  | held | executed | stored | resolved | panicked => exact absurd (by rw [hst]; rfl) hactive

/-- **Pending futures are served.**  In a run in which the counts of the pool keep pace, whenever
all workers wait at a semaphore at zero, the operation of every registered future is done, and its
task was woken after the result became visible. -/
theorem served_of_quiet [Fintype κ] {C : Ctru} {msg : ι → AsyncFsMsg} {s : State ι κ} {i : ι}
    (h : (system C msg).ReachableBy (AssumedOn C msg Pool.Paced) s)
    (hwait : ∀ k, s.base.workers k = .waiting) (hcount : s.base.pool.queue.sem.count = 0)
    (hreg : (s.futs i).registered = true) :
    (∃ res, (s.futs i).stage = .finished res) ∧
      Log.Before .visible (.woke (msg i).task) (s.futs i).log := by
  have hi := inv_reachable (h.mono fun _ _ h => h.1)
  -- the pool's own invariant, carried up by the simulation
  have hpool := Pool.inv_reachable ((pool_simulation C msg Pool.Paced).reachableBy h)
  have hqueue := Channel.readyCount_eq_zero.1 (hpool.readyCount_eq_zero hwait hcount)
  obtain ⟨res, hres⟩ := hi.finished hreg hqueue hwait
  exact ⟨⟨res, hres⟩, (hi.futs i).log.finished res hres⟩

instance (C : Ctru) (m : AsyncFsMsg) (reply : FileReply) : Decidable (Answers C m reply) :=
  match reply, m with
  | .ipc (.ctru (.os code)), _ => inferInstanceAs (Decidable (C.failed code = true))
  | .ipc (.ctru (.other _)), _ | .ipc (.libc _), _ | .ipc (.other _), _ =>
    inferInstanceAs (Decidable False)
  | .reply _ bytes, .write op | .reply _ bytes, .read op =>
    inferInstanceAs (Decidable (bytes.toNat ≤ op.len))
  | .reply _ _, .flush _ => inferInstanceAs (Decidable True)

instance (C : Ctru) (msg : ι → AsyncFsMsg) (s : State ι κ) (l : Label ι κ) :
    Decidable (Assumed C msg s l) :=
  match l with
  | .execute k reply => inferInstanceAs (Decidable (∀ i ∈ s.opOf k, Answers C (msg i) reply))
  | .poll _ | .access _ | .take _ | .remove _ | .store _ | .wake _ =>
    inferInstanceAs (Decidable True)

end FileFutures

end BunnyDs
