import BunnyDs.Kernel.Basic
import Mathlib.Data.List.Nodup

/-!
# Queues with their producers

A `Channel` is a `SyncQueue` together with the `add` calls of a run, one for each value: who has
pushed its value and not yet released the semaphore is part of the state.  The values in the
queue are distinct and all pushed by somebody; both facts are carried as fields.

* `Channel.Awake` is what a consumer that empties the queue each time it is woken relies on: a
  value whose `add` has returned is never left behind a semaphore at zero.
* `Channel.readyCount` is what consumers that take one value for each count rely on: the number of
  values whose `add` has returned.
-/

namespace BunnyDs

/-- Where a call of `SyncQueue::add` is. -/
inductive AddPhase where
  /-- Not made yet. -/
  | idle
  /-- The value is in the queue, the semaphore was not released yet. -/
  | pushed
  /-- The call has returned. -/
  | returned
  deriving DecidableEq

/-- A `SyncQueue` and the `add` calls made on it, one for each value. -/
structure Channel (α : Type*) where
  queue : SyncQueue α
  adds : α → AddPhase
  nodup : queue.vals.Nodup
  pushed_of_mem : ∀ v ∈ queue.vals, adds v ≠ .idle

namespace Channel

variable {α : Type*}

/-- A new queue, before any `add`. -/
def new : Channel α := ⟨.new, fun _ => .idle, List.nodup_nil, fun _ h => absurd h List.not_mem_nil⟩

/-- `SyncQueue::remove`: the value at the back is taken off the queue. -/
def remove (c : Channel α) : Channel α :=
  ⟨c.queue.popBack, c.adds, c.nodup.sublist (List.dropLast_sublist _),
    fun v hv => c.pushed_of_mem v (List.dropLast_subset _ hv)⟩

/-- The value at the front is drained off the queue. -/
def popFront (c : Channel α) : Channel α :=
  ⟨c.queue.popFront, c.adds, c.nodup.sublist (List.tail_sublist _),
    fun v hv => c.pushed_of_mem v (List.mem_of_mem_tail hv)⟩

/-- A wait on the queue's semaphore returns. -/
def wait (c : Channel α) : Channel α := ⟨c.queue.wait, c.adds, c.nodup, c.pushed_of_mem⟩

@[simp] theorem new_adds (v : α) : (new : Channel α).adds v = .idle := rfl
@[simp] theorem new_queue : (new : Channel α).queue = .new := rfl
@[simp] theorem remove_queue (c : Channel α) : c.remove.queue = c.queue.popBack := rfl
@[simp] theorem remove_adds (c : Channel α) : c.remove.adds = c.adds := rfl
@[simp] theorem popFront_queue (c : Channel α) : c.popFront.queue = c.queue.popFront := rfl
@[simp] theorem popFront_adds (c : Channel α) : c.popFront.adds = c.adds := rfl
@[simp] theorem wait_queue (c : Channel α) : c.wait.queue = c.queue.wait := rfl
@[simp] theorem wait_adds (c : Channel α) : c.wait.adds = c.adds := rfl

variable [DecidableEq α]

/-- The first half of the call that adds `v`. -/
def push (c : Channel α) (v : α) : Channel α :=
  if h : c.adds v = .idle then
    ⟨c.queue.pushBack v, Function.update c.adds v .pushed, by
      -- what is in the queue was pushed by a call that has been made
      have hv : v ∉ c.queue.vals := fun hv => c.pushed_of_mem v hv h
      rw [SyncQueue.pushBack_vals, List.nodup_append]
      refine ⟨c.nodup, List.nodup_singleton v, fun x hx y hy => ?_⟩
      rw [List.mem_singleton.1 hy]
      rintro rfl
      exact hv hx, by
      intro x hx
      rcases eq_or_ne x v with rfl | hne
      · simp
      · rw [Function.update_of_ne hne]
        refine c.pushed_of_mem x ?_
        simpa [hne] using hx⟩
  else c

/-- The second half of the call that adds `v`. -/
def release (c : Channel α) (v : α) : Channel α :=
  ⟨c.queue.release, Function.update c.adds v .returned, c.nodup, by
    intro x hx
    rcases eq_or_ne x v with rfl | hne
    · simp
    · rw [Function.update_of_ne hne]
      exact c.pushed_of_mem x hx⟩

@[simp] theorem release_queue (c : Channel α) (v : α) :
    (c.release v).queue = c.queue.release := rfl
@[simp] theorem release_adds (c : Channel α) (v : α) :
    (c.release v).adds = Function.update c.adds v .returned := rfl

theorem push_queue {c : Channel α} {v : α} (h : c.adds v = .idle) :
    (c.push v).queue = c.queue.pushBack v := by
  rw [push, dif_pos h]

theorem push_adds {c : Channel α} {v : α} (h : c.adds v = .idle) :
    (c.push v).adds = Function.update c.adds v .pushed := by
  rw [push, dif_pos h]

/-! ### Values left behind -/

/-- A value whose `add` has returned has a count to wake its consumer. -/
def Awake (c : Channel α) : Prop :=
  ∀ v ∈ c.queue.vals, c.adds v = .returned → 0 < c.queue.sem.count

variable {c : Channel α} {v : α}

omit [DecidableEq α] in
theorem awake_of_nil (h : c.queue.vals = []) : c.Awake := fun v hv => by simp [h] at hv

omit [DecidableEq α] in
theorem awake_new : (new : Channel α).Awake := awake_of_nil rfl

/-- A release leaves a positive count, also at the maximum. -/
theorem awake_release (c : Channel α) (v : α) : (c.release v).Awake :=
  fun _ _ _ => Semaphore.release_count_pos _

theorem Awake.push (h : c.Awake) (hv : c.adds v = .idle) : (c.push v).Awake := by
  intro x hx hret
  rw [push_adds hv] at hret
  rw [push_queue hv] at hx ⊢
  have hne : x ≠ v := by
    rintro rfl
    simp at hret
  rw [Function.update_of_ne hne] at hret
  exact h x (by simpa [hne] using hx) hret

omit [DecidableEq α] in
theorem Awake.remove (h : c.Awake) : c.remove.Awake :=
  fun x hx hret => h x (List.dropLast_subset _ hx) hret

omit [DecidableEq α] in
/-- Behind a semaphore at zero only values of unfinished `add` calls are left. -/
theorem Awake.pushed (h : c.Awake) (h0 : c.queue.sem.count = 0) (hv : v ∈ c.queue.vals) :
    c.adds v = .pushed := by
  cases hp : c.adds v with
  | idle => exact absurd hp (c.pushed_of_mem v hv)
  | pushed => rfl
  | returned =>
    have := h v hv hp
    omega

/-! ### Counting the values of finished calls -/

/-- How many values of `add` calls that have returned are in the queue. -/
def readyCount (c : Channel α) : ℕ := c.queue.vals.countP fun v => c.adds v = .returned

omit [DecidableEq α] in
theorem readyCount_eq_zero : c.readyCount = 0 ↔ ∀ v ∈ c.queue.vals, c.adds v ≠ .returned := by
  simp [readyCount, List.countP_eq_zero]

theorem readyCount_push (hv : c.adds v = .idle) : (c.push v).readyCount = c.readyCount := by
  have hne : ∀ x ∈ c.queue.vals, x ≠ v := by
    rintro x hx rfl
    exact c.pushed_of_mem x hx hv
  rw [readyCount, push_queue hv, push_adds hv, SyncQueue.pushBack_vals, List.countP_append]
  have hold : c.queue.vals.countP (fun x => Function.update c.adds v .pushed x = .returned) =
      c.readyCount :=
    List.countP_congr fun x hx => by simp [Function.update_of_ne (hne x hx)]
  rw [hold]
  simp

/-- The values are distinct, so one call that returns adds at most one. -/
theorem readyCount_release_le (c : Channel α) (v : α) :
    (c.release v).readyCount ≤ c.readyCount + 1 := by
  have hone : c.queue.vals.count v ≤ 1 := List.nodup_iff_count_le_one.1 c.nodup v
  have hle : (c.release v).readyCount ≤ c.readyCount + c.queue.vals.count v := by
    simp only [readyCount, release_queue, release_adds, SyncQueue.release_vals]
    -- only the occurrences of `v` itself change their standing
    induction c.queue.vals with
    | nil => simp
    | cons x xs ih =>
      by_cases hx : x = v
      · subst hx
        simp only [List.countP_cons, List.count_cons_self, Function.update_self]
        simp only [decide_true, if_true]
        omega
      · simp only [List.countP_cons, List.count_cons_of_ne hx, Function.update_of_ne hx]
        omega
  omega

omit [DecidableEq α] in
/-- Taking a value off the queue. -/
theorem readyCount_remove (hback : c.queue.back? = some v) :
    c.readyCount = c.remove.readyCount + if c.adds v = .returned then 1 else 0 := by
  have hvals := SyncQueue.vals_eq_of_back? hback
  rw [readyCount, hvals, List.countP_append, List.countP_singleton]
  simp only [decide_eq_true_eq]
  rfl

end Channel

end BunnyDs
