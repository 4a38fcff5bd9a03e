import BunnyDs.Fs.FuturesRun

/-!
# Dropping file futures

An `AsyncFsMsg` carries the addresses of its future's cells and of the caller's buffer.  The
futures have no `Drop` and the pool cannot take an operation back, so a task that drops a future
after its first poll leaves an operation behind whose addresses are no longer its own.

* `FileFutures.Dropping.system` : the futures and workers of `BunnyDs.Fs.FuturesRun`, where a task
  may drop a future whenever it is not polling it.
* `FileFutures.Dropping.alive_of_unused` : if every future is dropped while its operation is
  neither queued nor with a worker, no worker touches the memory of a dropped future; what a task
  can see is enough for that: drop a future before its first poll, or after a poll returned `Ready`.
* `FileFutures.Dropping.unused_iff` says in terms of the protocol when an operation is out of the
  pool.
-/

namespace BunnyDs

namespace FileFutures

namespace Dropping

/-! ### The system -/

variable {ι κ : Type*}

/-- The futures and workers, and which futures have not been dropped.  The record of a dropped
future is what the addresses in its operation point to. -/
structure State (ι κ : Type*) where
  run : FileFutures.State ι κ
  alive : ι → Bool

/-- One step of a future, of a worker or of a task that drops a future. -/
inductive Label (ι κ : Type*) where
  | step (l : FileFutures.Label ι κ)
  | drop (i : ι)

/-- The future whose task makes the step. -/
def polled? : FileFutures.Label ι κ → Option ι
  | .poll i | .access i => some i
  | _ => none

variable [DecidableEq ι] [DecidableEq κ]

/-- The effect of a step. -/
def fire (C : Ctru) (msg : ι → AsyncFsMsg) (s : State ι κ) : Label ι κ → State ι κ
  | .step l => { s with run := FileFutures.fire C msg s.run l }
  -- the futures have no `Drop`: nothing happens in the pool
  | .drop i => { s with alive := Function.update s.alive i false }

/-- A step can be taken: only a future that was not dropped is polled, and none is dropped during
its poll. -/
def Enabled (s : State ι κ) : Label ι κ → Prop
  | .step l => FileFutures.Enabled s.run l ∧ ∀ i ∈ polled? l, s.alive i = true
  | .drop i => s.alive i = true ∧ (s.run.futs i).pc = .idle

instance (s : State ι κ) (l : Label ι κ) : Decidable (Enabled s l) :=
  match l with
  | .step l =>
    inferInstanceAs (Decidable (FileFutures.Enabled s.run l ∧ ∀ i ∈ polled? l, s.alive i = true))
  | .drop i => inferInstanceAs (Decidable (s.alive i = true ∧ (s.run.futs i).pc = .idle))

/-- The futures `ι` and the workers `κ`, with drops. -/
def system (C : Ctru) (msg : ι → AsyncFsMsg) : LTS (State ι κ) (Label ι κ) where
  init := ⟨(FileFutures.system C msg).init, fun _ => true⟩
  Enabled := Enabled
  fire := fire C msg

instance (C : Ctru) (msg : ι → AsyncFsMsg) (s : State ι κ) (l : Label ι κ) :
    Decidable ((system C msg).Enabled s l) :=
  inferInstanceAs (Decidable (Enabled s l))

omit [DecidableEq ι] [DecidableEq κ] in
/-- The operation is queued or held by a worker. -/
def InUse (b : Pool.State ι κ) (i : ι) : Prop :=
  i ∈ b.pool.queue.vals ∨ ∃ k, b.workers k = .busy i

instance [Fintype κ] (b : Pool.State ι κ) (i : ι) : Decidable (InUse b i) :=
  inferInstanceAs (Decidable (i ∈ b.pool.queue.vals ∨ ∃ k, b.workers k = .busy i))

/-- **No worker touches the memory of a dropped future.** -/
structure Untouched (s : State ι κ) : Prop where
  /-- A file operation reads or writes the buffer of a future that is still there. -/
  executes : ∀ k reply i, Enabled s (.step (.execute k reply)) → s.run.opOf k = some i →
    s.alive i = true
  /-- A store goes to the cells of a future that is still there. -/
  stores : ∀ k i, Enabled s (.step (.store k)) → s.run.opOf k = some i → s.alive i = true

/-- **Cancellation safety.** -/
structure Safe (s : State ι κ) : Prop extends Untouched s where
  /-- Every operation in the pool belongs to a future that is still there. -/
  inUse : ∀ i, InUse s.run.base i → s.alive i = true

/-- A future is dropped while its operation is neither queued nor with a worker. -/
def DropsUnused (s : State ι κ) : Label ι κ → Prop
  | .drop i => ¬ InUse s.run.base i
  | .step _ => True

instance [Fintype κ] (s : State ι κ) (l : Label ι κ) : Decidable (DropsUnused s l) :=
  match l with
  | .drop i => inferInstanceAs (Decidable (¬ InUse s.run.base i))
  | .step _ => inferInstanceAs (Decidable True)

/-! ### Operations come from futures that are polled -/

section Use

variable {b : Pool.State ι κ} {i : ι} {k : κ}

omit [DecidableEq ι] in
/-- A worker that is at no operation afterwards. -/
theorem InUse.of_update {w : Pool.Worker ι} {pool : Channel ι} (hw : w.isBusy = false)
    (hvals : pool.queue.vals ⊆ b.pool.queue.vals)
    (h : InUse ⟨pool, Function.update b.workers k w⟩ i) : InUse b i := by
  refine h.imp (fun hm => hvals hm) ?_
  rintro ⟨k', hk'⟩
  by_cases he : k' = k
  · subst he
    simp only [Function.update_self] at hk'
    rw [hk'] at hw
    cases hw
  · exact ⟨k', by simpa [he] using hk'⟩

/-- A worker finds its operation in the queue. -/
theorem InUse.of_remove (h : InUse (Pool.fire b (.remove k)) i) : InUse b i := by
  simp only [Pool.fire] at h
  cases hback : b.pool.queue.back? with
  | none =>
    rw [hback] at h
    exact h.of_update rfl fun _ hm => hm
  | some j =>
    rw [hback] at h
    refine h.elim (fun hm => .inl (List.dropLast_subset _ hm)) ?_
    rintro ⟨k', hk'⟩
    by_cases he : k' = k
    · subst he
      simp only [Function.update_self, Pool.Worker.busy.injEq] at hk'
      left
      rw [SyncQueue.vals_eq_of_back? hback, ← hk']
      simp
    · exact .inr ⟨k', by simpa [he] using hk'⟩

/-- An operation that is in use after a step of the pool was in use, or has been pushed. -/
theorem InUse.of_fire {l : Pool.Label ι κ} (h : InUse (Pool.fire b l) i) :
    InUse b i ∨ l = .push i := by
  cases l with
  | push j =>
    refine h.elim (fun hm => ?_) fun hk => .inl (.inr hk)
    by_cases hidle : b.pool.adds j = .idle
    · simp only [Pool.fire, Channel.push_queue hidle, SyncQueue.pushBack_vals, List.mem_append,
        List.mem_singleton] at hm
      exact hm.imp .inl fun he => by rw [he]
    · simp only [Pool.fire, Channel.push, dif_neg hidle] at hm
      exact .inl (.inl hm)
  | release j => exact .inl h
  | take k | finish k => exact .inl (InUse.of_update rfl (fun _ hm => hm) h)
  | remove k => exact .inl h.of_remove

end Use

section Runs

variable {C : Ctru} {msg : ι → AsyncFsMsg} {s : State ι κ}

omit [DecidableEq ι] [DecidableEq κ] in
/-- Only an access of its future pushes an operation. -/
theorem polled?_of_push {s : FileFutures.State ι κ} {l : FileFutures.Label ι κ} {i : ι}
    (h : poolStep s l = some (.push i)) : polled? l = some i := by
  cases l with
  | access j =>
    simp only [poolStep] at h
    cases hpc : (s.futs j).pc <;> rw [hpc] at h <;> cases h
    rfl
  | wake k =>
    simp only [poolStep, Option.map_eq_some_iff] at h
    obtain ⟨_, _, h⟩ := h
    cases h
  | _ => cases h

/-- Every operation in the pool belongs to a future that is still there, if it is so at every
drop. -/
theorem alive_step {l : Label ι κ} (h : ∀ i, InUse s.run.base i → s.alive i = true)
    (hen : Enabled s l) (hok : DropsUnused s l) :
    ∀ i, InUse (fire C msg s l).run.base i → (fire C msg s l).alive i = true := by
  intro i hi
  cases l with
  | drop j =>
    have hne : i ≠ j := by
      rintro rfl
      exact hok hi
    simp only [fire, Function.update_of_ne hne]
    exact h i hi
  | step l =>
    simp only [fire, fire_base] at hi ⊢
    cases hm : poolStep s.run l with
    | none =>
      rw [hm] at hi
      exact h i hi
    | some m =>
      rw [hm] at hi
      obtain hi | rfl := InUse.of_fire hi
      · exact h i hi
      · exact hen.2 i (polled?_of_push hm)

/-- Futures are dropped while their operations are neither queued nor with a worker. -/
theorem safe_of_unused (h : (system C msg).ReachableBy DropsUnused s) : Safe s := by
  have hi := h.invariant (I := fun s => ∀ i, InUse s.run.base i → s.alive i = true)
    (fun _ _ => rfl) fun _ _ _ hi hen hok => alive_step hi hen hok
  have hop : ∀ k i, s.run.opOf k = some i → s.alive i = true :=
    fun k i hop => hi i (.inr ⟨k, State.busy_of_op hop⟩)
  exact ⟨⟨fun k _ i _ => hop k i, fun k i _ => hop k i⟩, hi⟩

end Runs

/-! ### What a task can see -/

/-- The file service answers every operation of the run as it is assumed to. -/
def AnswersAssumed (C : Ctru) (msg : ι → AsyncFsMsg) (s : State ι κ) : Label ι κ → Prop
  | .step l => Assumed C msg s.run l
  | .drop _ => True

/-- A future is dropped before its first poll, or after one of its polls returned `Ready`. -/
def DropsReady (s : State ι κ) : Label ι κ → Prop
  | .drop i => (s.run.futs i).NotPending
  | .step _ => True

instance (C : Ctru) (msg : ι → AsyncFsMsg) (s : State ι κ) (l : Label ι κ) :
    Decidable (AnswersAssumed C msg s l ∧ DropsReady s l) :=
  match l with
  | .step l => inferInstanceAs (Decidable (Assumed C msg s.run l ∧ True))
  | .drop i => inferInstanceAs (Decidable (True ∧ (s.run.futs i).NotPending))

section Seen

variable {C : Ctru} {msg : ι → AsyncFsMsg}

/-- The run of the futures and the workers below the drops. -/
theorem run_simulation (C : Ctru) (msg : ι → AsyncFsMsg) :
    LTS.Simulation (system (κ := κ) C msg) (AnswersAssumed C msg) (FileFutures.system C msg)
      (Assumed C msg) State.run where
  init := rfl
  step s l _ hen hok := by
    cases l with
    | step l => exact .inr ⟨l, hen.1, hok, rfl⟩
    | drop i => exact .inl rfl

variable {s : State ι κ}

/-- The operation of a future is out of the pool before the first poll has submitted it, and after
the worker's wake. -/
theorem unused_iff (h : (system C msg).ReachableBy (AnswersAssumed C msg) s) (i : ι) :
    ¬ InUse s.run.base i ↔
      (s.run.futs i).stage = .unsent ∨ ∃ res, (s.run.futs i).stage = .finished res := by
  have hi := (inv_reachable ((run_simulation C msg).reachableBy h)).placed i
  rw [InUse, hi.queued, hi.busy]
  cases (s.run.futs i).stage <;> simp [Stage.active]

/-- **Dropping by what a task can see.**  If every future is dropped before its first poll or after
a poll returned `Ready`, no worker touches the memory of a dropped future. -/
theorem untouched_of_ready
    (h : (system C msg).ReachableBy (fun s l => AnswersAssumed C msg s l ∧ DropsReady s l) s) :
    Untouched s := by
  have howed := h.invariant
    (I := fun s => ∀ i, owed (s.run.futs i).stage = true → s.alive i = true) ?_ ?_
  · have hstage : ∀ k i, s.run.opOf k = some i → owed (s.run.stageOf k) = true →
        s.alive i = true := fun k i hop ho => howed i (State.stageOf_of_op hop ▸ ho)
    refine ⟨fun k reply i hen hop => hstage k i hop ?_, fun k i hen hop => hstage k i hop ?_⟩
    · rw [Stage.eq_held hen.1]
      rfl
    · exact owed_of_isStoring hen.1
  · exact fun _ h => by simp [system, FileFutures.system, Fut.new, owed] at h
  · intro s l hs hI hen hok
    have hrun := (run_simulation C msg).reachableBy (hs.mono fun _ _ h => h.1)
    have hi := inv_reachable hrun
    cases l with
    | step l => exact owed_step hi hen.1 (fun i hl _ => hen.2 i (by rw [hl]; rfl)) hI
    | drop i =>
      intro j hj
      have hne : j ≠ i := by
        rintro rfl
        have howed := owed_of_notPending (hi.futs j) (readyVisible_reachable hrun j) hok.2
        exact absurd hj (by simp [system, fire, howed])
      simp only [system, fire, Function.update_of_ne hne]
      exact hI j hj

/-- **Cancellation safety.**  In every run in which each future is dropped while its operation is
neither queued nor with a worker, every operation in the pool belongs to a future that is still
there, and no worker executes into the buffer or stores to the cells of a dropped future.  The
second part needs less, which a task can see: that each future is dropped before its first poll or
after a poll returned `Ready`. -/
theorem alive_of_unused (C : Ctru) (msg : ι → AsyncFsMsg) (s : State ι κ) :
    ((system C msg).ReachableBy DropsUnused s → Safe s) ∧
    ((system C msg).ReachableBy (fun s l => AnswersAssumed C msg s l ∧ DropsReady s l) s →
      Untouched s) :=
  ⟨safe_of_unused, untouched_of_ready⟩

end Seen

/-- Task 3 reads up to 16 bytes, task 4 flushes. -/
def readAndFlush : Fin 2 → AsyncFsMsg :=
  ![.read ⟨7, ⟨3⟩, 0x100, 0x104, 0, 16, 0x800, by decide⟩, .flush ⟨7, ⟨4⟩, 0x120, 0x124⟩]

/-- The first future is never polled, the second is dropped after its worker's wake, or as soon as
it is ready, while the worker has its wake still to make. -/
theorem alive_of_unused_two :
    (∃ s : State (Fin 2) (Fin 1), (system .libctru readAndFlush).ReachableBy DropsUnused s ∧
      s.alive 0 = false ∧ s.alive 1 = false ∧ Safe s) ∧
    ∃ s : State (Fin 2) (Fin 1), (system .libctru readAndFlush).ReachableBy
        (fun s l => AnswersAssumed .libctru readAndFlush s l ∧ DropsReady s l) s ∧
      s.alive 0 = false ∧ s.alive 1 = false ∧ InUse s.run.base 1 ∧ Untouched s := by
  constructor
  · obtain ⟨s, hs, h₀, h₁⟩ :=
      LTS.exists_of_exec (system .libctru readAndFlush) DropsUnused
        [.drop 0, .step (.poll 1), .step (.access 1), .step (.access 1), .step (.access 1),
          .step (.access 1), .step (.take 0), .step (.remove 0), .step (.execute 0 (.reply 0 0)),
          .step (.store 0), .step (.store 0), .step (.wake 0), .drop 1]
        (fun s : State (Fin 2) (Fin 1) => s.alive 0 = false ∧ s.alive 1 = false) (by decide)
    exact ⟨s, hs, h₀, h₁, (alive_of_unused .libctru readAndFlush s).1 hs⟩
  · obtain ⟨s, hs, h₀, h₁, hin⟩ :=
      LTS.exists_of_exec (system .libctru readAndFlush)
        (fun s l => AnswersAssumed .libctru readAndFlush s l ∧ DropsReady s l)
        [.drop 0, .step (.poll 1), .step (.access 1), .step (.access 1), .step (.access 1),
          .step (.access 1), .step (.take 0), .step (.remove 0), .step (.execute 0 (.reply 0 0)),
          .step (.store 0), .step (.store 0), .step (.poll 1), .step (.access 1),
          .step (.access 1), .drop 1]
        (fun s : State (Fin 2) (Fin 1) => s.alive 0 = false ∧ s.alive 1 = false ∧
          InUse s.run.base 1) (by decide)
    exact ⟨s, hs, h₀, h₁, hin, (alive_of_unused .libctru readAndFlush s).2 hs⟩

/-- **A dropped future is written to.**  A read is polled once and dropped; its operation stays in
the queue, and the worker that takes it reads into the buffer that is gone. -/
theorem executes_into_dropped : ∃ s : State (Fin 2) (Fin 1),
    (system .libctru readAndFlush).Reachable s ∧ s.run.opOf 0 = some 0 ∧ s.alive 0 = false ∧
    Enabled s (.step (.execute 0 (.reply 0 5))) ∧ ¬ Safe s := by
  obtain ⟨s, hs, hop, halive, hen⟩ :=
    LTS.exists_of_exec (system .libctru readAndFlush) (fun _ _ => True)
      [.step (.poll 0), .step (.access 0), .step (.access 0), .step (.access 0),
        .step (.access 0), .drop 0, .step (.take 0), .step (.remove 0)]
      (fun s : State (Fin 2) (Fin 1) => s.run.opOf 0 = some 0 ∧ s.alive 0 = false ∧
        Enabled s (.step (.execute 0 (.reply 0 5)))) (by decide)
  refine ⟨s, hs, hop, halive, hen, fun h => ?_⟩
  exact absurd (halive.symm.trans (h.executes 0 _ 0 hen hop)) (by decide)

end Dropping

end FileFutures

end BunnyDs
