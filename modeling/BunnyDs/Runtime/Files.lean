import BunnyDs.Fs.FuturesRun
import BunnyDs.LTS.Leaves

/-!
# File futures as leaves

A `Read`, `Write` or `Flush` future waits for a worker of the pool, which always gets to it: in runs
in which the counts of the pool keep pace (`Pool.Paced`) there is nothing outside of the runtime
that such a leaf could wait for.
-/

namespace BunnyDs

namespace FileFutures

variable {ι κ : Type*}

/-- The status of a future. -/
def Fut.status (f : Fut) : PollStatus :=
  if f.pc = .idle then if f.log.any Event.isReady then .ready else .idle else .polling

variable [DecidableEq ι] [DecidableEq κ]

/-- The futures `ι`, with the operations `msg`, on a pool with the workers `κ`.  The wake call for a
future is that of the worker that served it. -/
def leaves (κ : Type*) [DecidableEq κ] (C : Ctru) (msg : ι → AsyncFsMsg) :
    Leaves ι ι TaskToken (State ι κ) (Label ι κ) where
  sys := system C msg
  ok := AssumedOn C msg Pool.Paced
  access
    | .poll i | .access i => some i
    | .take _ | .remove _ | .execute _ _ | .store _ | .wake _ => none
  starts
    | .poll i => some i
    | .access _ | .take _ | .remove _ | .execute _ _ | .store _ | .wake _ => none
  wake s
    | .wake k => (s.opOf k).map fun i => (i, (msg i).task)
    | .poll _ | .access _ | .take _ | .remove _ | .execute _ _ | .store _ => none
  leaf i := i
  task i := (msg i).task
  status s i := (s.futs i).status
  Fired _ _ := True
  Quiet s := (∀ k, s.base.workers k = .waiting) ∧ s.base.pool.queue.sem.count = 0

instance decidableEnabled (C : Ctru) (msg : ι → AsyncFsMsg) (s : State ι κ) (l : Label ι κ) :
    Decidable ((leaves κ C msg).sys.Enabled s l) :=
  inferInstanceAs (Decidable ((system C msg).Enabled s l))

instance decidableOk (C : Ctru) (msg : ι → AsyncFsMsg) (s : State ι κ) (l : Label ι κ) :
    Decidable ((leaves κ C msg).ok s l) :=
  inferInstanceAs (Decidable (Assumed C msg s l ∧ ∀ m ∈ poolStep s l, Pool.Paced s.base m))

instance decidableQuiet [Fintype κ] (C : Ctru) (msg : ι → AsyncFsMsg) (s : State ι κ) :
    Decidable ((leaves κ C msg).Quiet s) :=
  inferInstanceAs (Decidable ((∀ k, s.base.workers k = .waiting) ∧ s.base.pool.queue.sem.count = 0))

variable {C : Ctru} {msg : ι → AsyncFsMsg} {s : State ι κ} {t : Track ι ι} {f : Fut}

/-- What the track says about one future: a poll that is over has returned something; a future that
is done, and has not been ready, was woken since its latest poll began; and its wake call is made
when it is done. -/
structure FutTracked (f : Fut) (begun woken made : Bool) : Prop where
  polled : begun = true → f.pc = .idle → ∃ res, .polled res ∈ f.log
  woken : ∀ res, f.stage = .finished res → f.pc ≠ .load → (∀ n, f.pc ≠ .resolve n) →
    f.log.any Event.isReady = false → woken = true
  made : made = true → ∃ res, f.stage = .finished res

/-- The worker moves on, and does not finish. -/
theorem FutTracked.work {f' : Fut} {b w d : Bool} (h : FutTracked f b w d) (hpc : f'.pc = f.pc)
    (hlog : f.log ⊆ f'.log) (hold : ∀ res, f.stage ≠ .finished res)
    (hnew : ∀ res, f'.stage ≠ .finished res) : FutTracked f' b w d := by
  refine ⟨fun hb hi => ?_, fun res hres => absurd hres (hnew res), fun hm => ?_⟩
  · obtain ⟨res, hres⟩ := h.polled hb (hpc ▸ hi)
    exact ⟨res, hlog hres⟩
  · obtain ⟨res, hres⟩ := h.made hm
    exact absurd hres (hold res)

/-- A poll begins. -/
theorem FutTracked.start {b w b' w' d : Bool} (h : FutTracked f b w d) :
    FutTracked { f with pc := .load } b' w' d :=
  ⟨by simp, by simp, h.made⟩

/-- A store of `resolve`. -/
theorem FutTracked.store {m : AsyncFsMsg} {b w d : Bool} (h : FutTracked f b w d)
    (hst : f.stage.isStoring = true) : FutTracked (f.store m) b w d := by
  have hnew : ∀ res, (f.store m).stage ≠ .finished res := by
    intro res hres
    have := store_active (m := m) hst
    rw [hres] at this
    cases this
  refine h.work store_pc ?_ (fun res hres => ?_) hnew
  · unfold Fut.store
    split
    · split <;> exact List.Subset.refl _
    · exact List.subset_cons_self ..
    · exact List.Subset.refl _
  · rw [hres] at hst
    cases hst

/-- A poll that is over has returned something. -/
theorem polled_of_access {m : AsyncFsMsg} (hpc : f.pc ≠ .idle)
    (hidle : (f.access C m).pc = .idle) : ∃ res, .polled res ∈ (f.access C m).log := by
  cases hp : f.pc with
  | idle => exact absurd hp hpc
  | load =>
    simp only [Fut.access, hp] at hidle ⊢
    cases m <;> simp only [Fut.writePoll, Fut.readPoll, Fut.ioPoll, Fut.flushPoll] at hidle ⊢ <;>
      split_ifs at hidle ⊢ <;> exact ⟨none, List.mem_cons_self ..⟩
  | push | release => simp [Fut.access, hp] at hidle
  | register =>
    simp only [Fut.access, hp]
    exact ⟨none, List.mem_cons_self ..⟩
  | resolve n =>
    simp only [Fut.access, hp]
    exact ⟨_, List.mem_cons_self ..⟩

/-- An access of a poll. -/
theorem FutTracked.access {m : AsyncFsMsg} {b w d : Bool} (h : FutTracked f b w d)
    (hf : FutInv C m f) (hpc : f.pc ≠ .idle) : FutTracked (f.access C m) b w d := by
  have hp := hf.pc
  have hstage : f.pc ≠ .push → (f.access C m).stage = f.stage := access_stage
  refine ⟨fun _ hi => polled_of_access hpc hi, fun res hres hl hr hnot => ?_, fun hm => ?_⟩
  · cases hc : f.pc with
    | idle => exact absurd hc hpc
    | load =>
      -- a poll that starts on a future that is done goes on to `state_resolve`
      rw [hstage (by simp [hc])] at hres
      have hv : f.stage.visible? = some res := by rw [hres]; rfl
      rw [PcInv, hc] at hp
      have hreg : f.registered = true := hp.trans (Stage.sent_of_visible? hv)
      exact absurd (by rw [hf.access_load hv hreg hc]) (hr (loadedCount m res))
    | push => simp [Fut.access, hc] at hres
    | release =>
      rw [hstage (by simp [hc])] at hres
      refine h.woken res hres (by simp [hc]) (by simp [hc]) ?_
      simpa [Fut.access, hc] using hnot
    | register =>
      rw [hstage (by simp [hc])] at hres
      refine h.woken res hres (by simp [hc]) (by simp [hc]) ?_
      simpa [Fut.access, hc, Fut.pending, Event.isReady] using hnot
    | resolve n => simp [Fut.access, hc, Event.isReady] at hnot
  · obtain ⟨res, hres⟩ := h.made hm
    have hne : f.pc ≠ .push := by
      intro hc
      rw [PcInv, hc, hres] at hp
      exact absurd hp.2 (by simp)
    exact ⟨res, (hstage hne).trans hres⟩

/-- The worker issues its wake. -/
theorem FutTracked.wake {m : AsyncFsMsg} {b w d : Bool} (h : FutTracked f b w d)
    (hst : f.stage.isResolved = true) : FutTracked (f.wake m) b true true := by
  obtain ⟨res, hs⟩ := Stage.exists_of_isResolved hst
  have hstep : f.wake m = { f with stage := .finished res, log := .woke m.task :: f.log } := by
    simp only [Fut.wake, hs]
  rw [hstep]
  refine ⟨fun hb hi => ?_, fun _ _ _ _ _ => rfl, fun _ => ⟨res, rfl⟩⟩
  obtain ⟨r, hr⟩ := h.polled hb hi
  exact ⟨r, List.mem_cons_of_mem _ hr⟩

/-- The track of all futures. -/
def Tracked (s : State ι κ) (t : Track ι ι) : Prop :=
  ∀ i, FutTracked (s.futs i) (t.begun i) (t.woken i) (t.made i)

omit [DecidableEq κ] in
/-- A step of one future, or of its worker, that the track does not show. -/
theorem Tracked.update (h : Tracked s t) {i : ι} {b : Pool.State ι κ} {f : Fut}
    (hf : FutTracked f (t.begun i) (t.woken i) (t.made i)) :
    Tracked ⟨b, Function.update s.futs i f⟩ t :=
  (Function.forall_update_iff s.futs fun j f => FutTracked f (t.begun j) (t.woken j) (t.made j)).2
    ⟨hf, fun j _ => h j⟩

theorem tracked_step {l : Label ι κ} (h : Tracked s t) (hi : Inv C msg s) (hen : Enabled s l) :
    Tracked (fire C msg s l) ((leaves κ C msg).note s l t) := by
  cases l with
  | poll i =>
    rw [Leaves.note_of_starts (k := i) rfl rfl]
    intro j
    by_cases hj : j = i
    · subst hj
      simpa [fire, State.update, Track.start] using (h j).start
    · simpa [fire, State.update, Track.start, Function.update_of_ne hj] using h j
  | access i =>
    rw [Leaves.note_of_none rfl rfl]
    have := h.update (b := (fire C msg s (.access i)).base) ((h i).access (C := C) (hi.futs i) hen)
    simp only [fire] at this ⊢
    cases hpc : (s.futs i).pc <;> rw [hpc] at this <;> exact this
  | take k =>
    rw [Leaves.note_of_none rfl rfl]
    exact h
  | remove k =>
    rw [Leaves.note_of_none rfl rfl]
    simp only [fire]
    cases hback : s.base.pool.queue.back? with
    | none => exact h
    | some i =>
      have hmem : i ∈ s.base.pool.queue.vals := by
        rw [SyncQueue.vals_eq_of_back? hback]
        simp
      have hst := (hi.placed i).queued.1 hmem
      exact h.update ((h i).work rfl (List.Subset.refl _) (by simp [hst]) (by simp [Fut.dequeue]))
  | execute k reply =>
    rw [Leaves.note_of_none rfl rfl]
    simp only [fire]
    cases hop : s.opOf k with
    | none => exact h
    | some i =>
      have hst : (s.futs i).stage = .held := Stage.eq_held (State.stageOf_of_op hop ▸ hen)
      exact h.update ((h i).work rfl (List.subset_cons_self ..) (by simp [hst])
        (by simp [Fut.execute]))
  | store k =>
    rw [Leaves.note_of_none rfl rfl]
    simp only [fire]
    cases hop : s.opOf k with
    | none => exact h
    | some i =>
      have hst : (s.futs i).stage.isStoring = true := State.stageOf_of_op hop ▸ hen
      exact h.update ((h i).store hst)
  | wake k =>
    simp only [fire]
    cases hop : s.opOf k with
    | none =>
      have hno : (leaves κ C msg).wake s (.wake k) = none := by simp [leaves, hop]
      rw [Leaves.note_of_none rfl hno]
      exact h
    | some i =>
      have hcall : (leaves κ C msg).wake s (.wake k) = some (i, (msg i).task) := by
        simp [leaves, hop]
      have hst : (s.futs i).stage.isResolved = true := State.stageOf_of_op hop ▸ hen
      rw [Leaves.note_of_wake rfl hcall]
      intro j
      by_cases hj : j = i
      · subst hj
        simpa [State.update, State.onPool, Track.notify, leaves] using (h j).wake hst
      · simpa [State.update, State.onPool, Track.notify, leaves, Function.update_of_ne hj] using h j

theorem tracked_run (h : (leaves κ C msg).Run s t) : Tracked s t := by
  refine h.invariant (fun i => ?_) fun s t l hs ht hen _ => ?_
  · exact ⟨by simp [Track.new], by simp [leaves, system, Fut.new], by simp [Track.new]⟩
  · exact tracked_step ht (inv_reachable (hs.reachableBy.mono fun _ _ h => h.1)) hen

/-- Only its own polls change the status of a future. -/
theorem status_of_worker {f' : Fut} (hpc : f'.pc = f.pc)
    (hlog : ∃ es, f'.log = es ++ f.log ∧ ∀ e ∈ es, e.byWorker = true) : f'.status = f.status := by
  obtain ⟨es, hlog, hes⟩ := hlog
  have hnone : es.any Event.isReady = false := by
    rw [List.any_eq_false]
    intro e he
    have := hes e he
    cases e <;> simp_all [Event.byWorker, Event.isReady]
  simp [Fut.status, hpc, hlog, hnone]

/-- **File futures may be awaited.**  When the workers are at rest, a future whose latest poll was
pending has been woken since that poll began. -/
theorem contract [Fintype κ] (C : Ctru) (msg : ι → AsyncFsMsg) :
    (leaves κ C msg).Contract where
  access_of_starts l k hk := by
    cases l <;> simp_all [leaves]
  frame s t l i _ hen _ hne := by
    have hupdate : ∀ {j : ι} {f : Fut}, (j = i → f.status = (s.futs j).status) →
        (Function.update s.futs j f i).status = (s.futs i).status := by
      intro j f hf
      by_cases hj : i = j
      · subst hj
        rw [Function.update_self, hf rfl]
      · rw [Function.update_of_ne hj]
    change ((fire C msg s l).futs i).status = (s.futs i).status
    cases l with
    | poll j => exact hupdate fun hj => absurd (congrArg some hj) hne
    | access j =>
      have := hupdate (f := (s.futs j).access C (msg j)) fun hj => absurd (congrArg some hj) hne
      simp only [fire]
      cases (s.futs j).pc <;> exact this
    | take k => rfl
    | remove k =>
      simp only [fire]
      cases s.base.pool.queue.back? with
      | none => rfl
      | some j => exact hupdate fun _ => status_of_worker rfl ⟨[], rfl, by simp⟩
    | execute k reply =>
      simp only [fire]
      cases s.opOf k with
      | none => rfl
      | some j => exact hupdate fun _ => status_of_worker rfl ⟨[_], rfl, by simp [Event.byWorker]⟩
    | store k =>
      simp only [fire]
      cases s.opOf k with
      | none => rfl
      | some j =>
        refine hupdate fun _ => status_of_worker store_pc ?_
        unfold Fut.store
        split
        · split <;> exact ⟨[], rfl, by simp⟩
        · exact ⟨[_], rfl, by simp [Event.byWorker]⟩
        · exact ⟨[], rfl, by simp⟩
    | wake k =>
      simp only [fire]
      cases s.opOf k with
      | none => rfl
      | some j =>
        refine hupdate fun _ => status_of_worker ?_ ?_
        · unfold Fut.wake
          split <;> rfl
        · unfold Fut.wake
          split
          · exact ⟨[_], rfl, by simp [Event.byWorker]⟩
          · exact ⟨[], rfl, by simp⟩
  token s t l i tok _ _ _ hw := by
    cases l with
    | wake k =>
      obtain ⟨j, -, he⟩ := Option.map_eq_some_iff.1 hw
      obtain ⟨rfl, rfl⟩ := Prod.mk.inj he
      rfl
    | _ => cases hw
  once s t l i tok h hen _ hw := by
    cases l with
    | wake k =>
      obtain ⟨j, hop, he⟩ := Option.map_eq_some_iff.1 hw
      obtain ⟨rfl, -⟩ := Prod.mk.inj he
      have hst : (s.futs j).stage.isResolved = true := State.stageOf_of_op hop ▸ hen
      rw [Bool.eq_false_iff]
      intro hm
      obtain ⟨res, hres⟩ := (tracked_run h j).made hm
      rw [hres] at hst
      cases hst
    | _ => cases hw
  answered s t i h hq hb hst _ := by
    have hinv := inv_reachable (h.reachableBy.mono fun _ _ h => h.1)
    have ht := tracked_run h i
    have hpc : (s.futs i).pc = .idle := by
      by_contra hne
      simp [leaves, Fut.status, hne] at hst
    have hnot : (s.futs i).log.any Event.isReady = false := by
      simpa [leaves, Fut.status, hpc] using hst
    obtain ⟨res, hres⟩ := ht.polled hb hpc
    have hreg : (s.futs i).registered = true := by
      have hp := (hinv.futs i).pc
      rw [PcInv, hpc] at hp
      exact hp.trans ((hinv.futs i).log.polled res hres)
    obtain ⟨⟨out, hout⟩, -⟩ := served_of_quiet h.reachableBy hq.1 hq.2 hreg
    exact ht.woken out hout (by simp [hpc]) (by simp [hpc]) hnot

end FileFutures

end BunnyDs
