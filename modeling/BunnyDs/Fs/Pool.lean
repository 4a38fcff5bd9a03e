import BunnyDs.Kernel.Channel
import BunnyDs.LTS.Basic
import BunnyDs.LTS.Count

/-!
# The file-operation pool

`IoWorker::run` takes one count from the semaphore of `ASYNC_FS_POOL` and then removes **one**
operation, so the pool needs a count for every queued operation.  `Pool.system` is any number of
workers `κ` and operations `ι`; what a worker does with an operation is one step here (it is
spelled out in `BunnyDs.Fs.Futures`).

A release at the maximum count is lost and its result ignored, so a backlog of 256 operations
leaves one of them behind for ever: `Pool.stranded`.  In runs where the releases succeed and a
worker does not take the operation of an unfinished `add` past a finished one, the counts are
enough: `Pool.not_stranded`.
-/

namespace BunnyDs

namespace Pool

variable {ι κ : Type*}

/-- Where an `IoWorker` is. -/
inductive Worker (ι : Type*) where
  /-- In `task_queue.wait`. -/
  | waiting
  /-- It has a count, and is about to `remove`. -/
  | took
  /-- It executes an operation, resolves it and wakes its task. -/
  | busy (op : ι)
  deriving DecidableEq

/-- The worker holds a count it has not used. -/
def Worker.hasCount : Worker ι → Bool
  | .took => true
  | _ => false

/-- `ASYNC_FS_POOL` and its workers. -/
structure State (ι κ : Type*) where
  pool : Channel ι
  workers : κ → Worker ι

/-- One step of a future that submits its operation, or of a worker. -/
inductive Label (ι κ : Type*) where
  /-- The two halves of `ASYNC_FS_POOL.add(op)`. -/
  | push (op : ι)
  | release (op : ι)
  /-- `task_queue.wait` returns in the worker `k`. -/
  | take (k : κ)
  /-- `task_queue.remove()` by the worker `k`. -/
  | remove (k : κ)
  /-- The worker `k` is done with its operation. -/
  | finish (k : κ)

variable [DecidableEq ι] [DecidableEq κ]

/-- The effect of a step. -/
def fire (s : State ι κ) : Label ι κ → State ι κ
  | .push op => { s with pool := s.pool.push op }
  | .release op => { s with pool := s.pool.release op }
  | .take k => ⟨s.pool.wait, Function.update s.workers k .took⟩
  | .remove k =>
    match s.pool.queue.back? with
    | some op => ⟨s.pool.remove, Function.update s.workers k (.busy op)⟩
    -- `continue`: the count was for an operation that another worker took
    | none => { s with workers := Function.update s.workers k .waiting }
  | .finish k => { s with workers := Function.update s.workers k .waiting }

/-- The worker executes an operation. -/
def Worker.isBusy : Worker ι → Bool
  | .busy _ => true
  | _ => false

/-- A step can be taken. -/
def Enabled (s : State ι κ) : Label ι κ → Prop
  | .push op => s.pool.adds op = .idle
  | .release op => s.pool.adds op = .pushed
  | .take k => s.workers k = .waiting ∧ 0 < s.pool.queue.sem.count
  | .remove k => s.workers k = .took
  | .finish k => (s.workers k).isBusy = true

/-- The pool after `init_pool`. -/
def system : LTS (State ι κ) (Label ι κ) where
  init := ⟨.new, fun _ => .waiting⟩
  Enabled := Enabled
  fire := fire

instance (s : State ι κ) (l : Label ι κ) : Decidable (system.Enabled s l) :=
  match l with
  | .push op => inferInstanceAs (Decidable (s.pool.adds op = .idle))
  | .release op => inferInstanceAs (Decidable (s.pool.adds op = .pushed))
  | .take k => inferInstanceAs (Decidable (s.workers k = .waiting ∧ 0 < s.pool.queue.sem.count))
  | .remove k => inferInstanceAs (Decidable (s.workers k = .took))
  | .finish k => inferInstanceAs (Decidable ((s.workers k).isBusy = true))

/-! ### When the counts are enough -/

/-- **Counts keep pace with the queue**: a release finds the semaphore below its maximum, and a
worker removes the operation of an `add` that has not released yet only if no other is left. -/
def Paced (s : State ι κ) : Label ι κ → Prop
  | .release _ => s.pool.queue.sem.count < 255
  | .remove _ => (∃ op ∈ s.pool.queue.back?, s.pool.adds op = .returned) ∨ s.pool.readyCount = 0
  | _ => True

instance (s : State ι κ) (l : Label ι κ) : Decidable (Paced s l) :=
  match l with
  | .release _ => inferInstanceAs (Decidable (_ < _))
  | .remove _ => inferInstanceAs (Decidable
      ((∃ op ∈ s.pool.queue.back?, s.pool.adds op = .returned) ∨ s.pool.readyCount = 0))
  | .push _ | .take _ | .finish _ => inferInstanceAs (Decidable True)

section Invariant

variable [Fintype κ] {s : State ι κ}

/-- Every operation whose `add` has returned has a count, in the semaphore or with a worker. -/
def Inv (s : State ι κ) : Prop :=
  s.pool.readyCount ≤ s.pool.queue.sem.count + cnt Worker.hasCount s.workers

theorem inv_step {l : Label ι κ} (h : Inv s) (hen : Enabled s l) (hok : Paced s l) :
    Inv (fire s l) := by
  cases l with
  | push op =>
    have hen : s.pool.adds op = .idle := hen
    simp only [Inv, fire, Channel.readyCount_push hen, Channel.push_queue hen]
    exact h
  | release op =>
    -- one more operation is ready, and its count is not lost
    have hle := Channel.readyCount_release_le s.pool op
    have hcount : (s.pool.release op).queue.sem.count = s.pool.queue.sem.count + 1 :=
      Semaphore.release_count_of_lt hok
    simp only [Inv, fire] at h ⊢
    omega
  | take k =>
    have henter : cnt Worker.hasCount (Function.update s.workers k .took) =
        cnt Worker.hasCount s.workers + 1 := cnt_update_enter (by rw [hen.1]; rfl) rfl
    have hcount : s.pool.wait.queue.sem.count = s.pool.queue.sem.count - 1 := rfl
    have hpos := hen.2
    have hready : s.pool.wait.readyCount = s.pool.readyCount := rfl
    simp only [Inv, fire] at h ⊢
    omega
  | remove k =>
    have hk : s.workers k = .took := hen
    have hleave : ∀ w : Worker ι, w.hasCount = false →
        cnt Worker.hasCount (Function.update s.workers k w) + 1 = cnt Worker.hasCount s.workers :=
      fun w hw => cnt_update_leave (by rw [hk]; rfl) hw
    cases hback : s.pool.queue.back? with
    | some op =>
      have hready := Channel.readyCount_remove hback
      have hcnt := hleave (.busy op) rfl
      simp only [Inv, fire, hback, Channel.remove_queue, SyncQueue.popBack_sem] at h ⊢
      -- either the operation had a count of its own, or nobody in the queue has
      rcases hok with ⟨op', hop', hret⟩ | hzero
      · obtain rfl : op = op' := Option.some.inj (hback.symm.trans hop')
        rw [if_pos hret] at hready
        omega
      · omega
    | none =>
      have hready : s.pool.readyCount = 0 := by
        rw [Channel.readyCount, SyncQueue.back?_eq_none.1 hback, List.countP_nil]
      simp only [Inv, fire, hback]
      omega
  | finish k =>
    have hk : (s.workers k).hasCount = false := by
      have hen : (s.workers k).isBusy = true := hen
      cases hw : s.workers k <;> rw [hw] at hen <;> first | rfl | cases hen
    simp only [Inv, fire, cnt_update_of_eq (a := Worker.waiting) hk]
    exact h

theorem inv_reachable (h : system.ReachableBy Paced s) : Inv s := by
  have hinit : Inv (system (ι := ι) (κ := κ)).init := Nat.zero_le _
  exact h.invariant hinit fun _ _ _ hi hen hok => inv_step hi hen hok

omit [DecidableEq ι] [DecidableEq κ] in
/-- Workers that wait hold no counts. -/
theorem Inv.readyCount_eq_zero (h : Inv s) (hwait : ∀ k, s.workers k = .waiting)
    (hcount : s.pool.queue.sem.count = 0) : s.pool.readyCount = 0 := by
  have hnone : cnt Worker.hasCount s.workers = 0 := by
    rw [funext hwait]
    exact cnt_const _ rfl
  unfold Inv at h
  omega

end Invariant

/-- **No operation is stranded when the counts keep pace**: whenever all workers wait at a
semaphore at zero, the queue holds no operation whose `add` has returned. -/
theorem not_stranded [Fintype κ] {s : State ι κ} (h : system.ReachableBy Paced s)
    (hwait : ∀ k, s.workers k = .waiting) (hcount : s.pool.queue.sem.count = 0) :
    ∀ op ∈ s.pool.queue.vals, s.pool.adds op ≠ .returned := by
  rw [← Channel.readyCount_eq_zero]
  exact (inv_reachable h).readyCount_eq_zero hwait hcount

/-- Two workers and three operations: two were executed, the third is still being added. -/
theorem not_stranded_two : ∃ s : State (Fin 3) (Fin 2), system.ReachableBy Paced s ∧
    (∀ k, s.workers k = .waiting) ∧ s.pool.queue.sem.count = 0 ∧ s.pool.queue.vals = [2] ∧
    ∀ op ∈ s.pool.queue.vals, s.pool.adds op ≠ .returned := by
  obtain ⟨s, hs, hw, hc, hv⟩ := LTS.exists_of_exec system Paced
    [.push 0, .release 0, .push 1, .take 0, .release 1, .take 1, .remove 0, .remove 1, .finish 0,
      .finish 1, .push 2]
    (fun s : State (Fin 3) (Fin 2) => (∀ k, s.workers k = .waiting) ∧
      s.pool.queue.sem.count = 0 ∧ s.pool.queue.vals = [2]) (by decide)
  exact ⟨s, hs, hw, hc, hv, not_stranded hs hw hc⟩

/-! ### A backlog of 256 operations -/

section Backlog

/-- One worker, at `w`; all calls of `add` have returned, those of the operations from `n` on were
not made; `m` operations, from `a` on, are left in the queue, and `c` counts. -/
structure Backlog (n a m c : ℕ) (w : Worker ℕ) (s : State ℕ Unit) : Prop where
  reachable : system.Reachable s
  worker : s.workers () = w
  vals : s.pool.queue.vals = List.range' a m
  count : s.pool.queue.sem.count = c
  idle : ∀ op, n ≤ op → s.pool.adds op = .idle
  quiet : ∀ op, s.pool.adds op ≠ .pushed

variable {n a m c : ℕ} {w : Worker ℕ} {s : State ℕ Unit}

theorem backlog_init : Backlog 0 0 0 0 .waiting (system (ι := ℕ) (κ := Unit)).init :=
  ⟨.init, rfl, rfl, rfl, fun _ _ => rfl, fun _ => AddPhase.noConfusion⟩

/-- One more operation is added; at the maximum its count is lost. -/
theorem Backlog.add (h : Backlog (a + m) a m c w s) :
    ∃ s', Backlog (a + (m + 1)) a (m + 1) (min (c + 1) 255) w s' := by
  have hidle := h.idle (a + m) le_rfl
  have hadds : (s.pool.push (a + m)).adds = Function.update s.pool.adds (a + m) .pushed :=
    Channel.push_adds hidle
  have hpushed : (s.pool.push (a + m)).adds (a + m) = .pushed := by
    rw [hadds, Function.update_self]
  refine ⟨_, (h.reachable.fire (.push (a + m)) hidle).fire (.release (a + m)) hpushed, h.worker,
    ?_, ?_, fun op hop => ?_, fun op => ?_⟩
  · change (s.pool.push (a + m)).queue.vals = _
    rw [Channel.push_queue hidle, SyncQueue.pushBack_vals, h.vals, List.range'_1_concat]
  · change (s.pool.push (a + m)).queue.sem.release.count = _
    rw [Channel.push_queue hidle, Semaphore.release_count, SyncQueue.pushBack_sem, h.count]
  · change Function.update (s.pool.push (a + m)).adds (a + m) .returned op = .idle
    rw [hadds, Function.update_of_ne (by omega), Function.update_of_ne (by omega)]
    exact h.idle op (by omega)
  · change Function.update (s.pool.push (a + m)).adds (a + m) .returned op ≠ .pushed
    by_cases hop : op = a + m
    · simp [hop]
    · rw [hadds, Function.update_of_ne hop, Function.update_of_ne hop]
      exact h.quiet op

/-- The worker takes a count and the operation at the back. -/
theorem Backlog.take (h : Backlog n a (m + 1) (c + 1) .waiting s) :
    ∃ s', Backlog n a m c (.busy (a + m)) s' := by
  have hvals : s.pool.queue.vals = List.range' a m ++ [a + m] := by
    rw [h.vals, List.range'_1_concat]
  have hback : s.pool.wait.queue.back? = some (a + m) := by
    change s.pool.queue.vals.getLast? = _
    rw [hvals, List.getLast?_concat]
  have htook : (fire s (.take ())).workers () = .took := by simp [fire]
  have hstep : fire (fire s (.take ())) (.remove ()) =
      ⟨s.pool.wait.remove,
        Function.update (Function.update s.workers () .took) () (.busy (a + m))⟩ := by
    simp only [fire, hback]
  have hs : system.Reachable (fire (fire s (.take ())) (.remove ())) :=
    (h.reachable.fire (.take ()) ⟨h.worker, by rw [h.count]; omega⟩).fire (.remove ()) htook
  rw [hstep] at hs
  refine ⟨_, hs, by simp, ?_, ?_, h.idle, h.quiet⟩
  · simp [hvals]
  · simp [h.count]

/-- The worker is done with its operation. -/
theorem Backlog.finish {op : ℕ} (h : Backlog n a m c (.busy op) s) :
    ∃ s', Backlog n a m c .waiting s' := by
  have hbusy : (s.workers ()).isBusy = true := by rw [h.worker]; rfl
  exact ⟨_, h.reachable.fire (.finish ()) hbusy, by simp [system, fire], h.vals, h.count, h.idle,
    h.quiet⟩

/-- While the worker is busy, any number of operations is added. -/
theorem Backlog.add_many (h : Backlog a a 0 0 w s) (m : ℕ) :
    ∃ s', Backlog (a + m) a m (min m 255) w s' := by
  induction m with
  | zero => exact ⟨s, h⟩
  | succ m ih =>
    obtain ⟨s₁, h₁⟩ := ih
    obtain ⟨s₂, h₂⟩ := h₁.add
    have hc : min (min m 255 + 1) 255 = min (m + 1) 255 := by omega
    exact ⟨s₂, hc ▸ h₂⟩

/-- The worker serves as many operations as there are counts. -/
theorem Backlog.drain (h : Backlog n a (m + c) c .waiting s) :
    ∃ s', Backlog n a m 0 .waiting s' := by
  induction c generalizing s with
  | zero => exact ⟨s, h⟩
  | succ c ih =>
    -- `pop_back` serves the latest operation, so the first ones stay
    obtain ⟨s₁, h₁⟩ := h.take
    obtain ⟨s₂, h₂⟩ := h₁.finish
    exact ih h₂

end Backlog

/-- **An operation is stranded.**  While the only worker is busy, 256 operations are added; the
last release is lost.  The worker serves 255 of them and waits, at a semaphore at zero, over the
operation that was added first.  No `add` is under way, so nothing will wake it. -/
theorem stranded : ∃ s : State ℕ Unit, system.Reachable s ∧ (∀ k, s.workers k = .waiting) ∧
    s.pool.queue.sem.count = 0 ∧ (∀ op, s.pool.adds op ≠ .pushed) ∧
    ∃ op ∈ s.pool.queue.vals, s.pool.adds op = .returned := by
  obtain ⟨_, hadd⟩ := Backlog.add (a := 0) (m := 0) backlog_init
  obtain ⟨_, hbusy⟩ := Backlog.take (m := 0) (c := 0) hadd
  obtain ⟨_, hfull⟩ := Backlog.add_many (a := 1) ⟨hbusy.1, hbusy.2, hbusy.3, hbusy.4, hbusy.5,
    hbusy.6⟩ 256
  obtain ⟨_, hwait⟩ := hfull.finish
  obtain ⟨s, h⟩ := Backlog.drain (m := 1) (c := 255) hwait
  have hmem : 1 ∈ s.pool.queue.vals := by rw [h.vals]; decide
  refine ⟨s, h.reachable, fun _ => h.worker, h.count, h.quiet, 1, hmem, ?_⟩
  cases hp : s.pool.adds 1 with
  | idle => exact absurd hp (s.pool.pushed_of_mem 1 hmem)
  | pushed => exact absurd hp (h.quiet 1)
  | returned => rfl

end Pool

end BunnyDs
