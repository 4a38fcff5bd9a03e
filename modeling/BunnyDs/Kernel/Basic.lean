import Mathlib.Algebra.Ring.Int.Defs
import Mathlib.Algebra.Ring.Nat
import Mathlib.Data.List.Basic
import Mathlib.Tactic.Common

/-!
# Tokens, words and queues

The vocabulary shared by the executor, the synchronisation primitives and the workers:

* `TaskToken` : the 32-bit id of a task, which is also the data pointer of its waker;
* `i32` : the value a 32-bit signed word holds after storing an integer;
* `Semaphore` : a kernel semaphore whose count never exceeds its maximum, 255;
* `SyncQueue` : the queue of `ctru_utils.rs`, a locked deque next to such a semaphore.  Its `add`
  is two steps, `pushBack` and `release`, and nothing ties the two together.
-/

namespace BunnyDs

/-- A token id'ing one task (`executor::TaskToken`). -/
structure TaskToken where
  id : UInt32
  deriving DecidableEq, Repr

/-- `u32::MAX`. -/
def u32Max : UInt32 := 0xFFFFFFFF

/-- What a 32-bit signed word holds after `x` was stored in it. -/
def i32 (x : ℤ) : ℤ := x.bmod (2 ^ 32)

theorem i32_eq_self {x : ℤ} (h₁ : -2 ^ 31 ≤ x) (h₂ : x < 2 ^ 31) : i32 x = x := by
  unfold i32
  exact Int.bmod_eq_of_le (by omega) (by omega)

/-! ### Semaphores -/

/-- A kernel semaphore created by `svcCreateSemaphore(_, 0, 255)`. -/
@[ext] structure Semaphore where
  count : ℕ
  count_le : count ≤ 255
  deriving DecidableEq

namespace Semaphore

/-- A fresh semaphore. -/
def zero : Semaphore := ⟨0, by omega⟩

/-- `svcReleaseSemaphore(_, _, 1)`: fails and changes nothing at the maximum count. -/
def release (σ : Semaphore) : Semaphore :=
  if h : σ.count < 255 then ⟨σ.count + 1, by omega⟩ else σ

/-- A successful wait takes one count. -/
def acquire (σ : Semaphore) : Semaphore := ⟨σ.count - 1, by have := σ.count_le; omega⟩

@[simp] theorem zero_count : zero.count = 0 := rfl

@[simp] theorem acquire_count (σ : Semaphore) : σ.acquire.count = σ.count - 1 := rfl

theorem release_count (σ : Semaphore) : σ.release.count = min (σ.count + 1) 255 := by
  have := σ.count_le
  unfold release
  split_ifs with h
  · change σ.count + 1 = _
    omega
  · omega

theorem release_count_of_lt {σ : Semaphore} (h : σ.count < 255) :
    σ.release.count = σ.count + 1 := by
  rw [release_count]; omega

theorem release_count_pos (σ : Semaphore) : 0 < σ.release.count := by
  rw [release_count]; omega

end Semaphore

/-! ### The os-semaphore based queue -/

/-- `ctru_utils::SyncQueue`: the deque behind the lock, and the semaphore. -/
structure SyncQueue (α : Type*) where
  vals : List α
  sem : Semaphore
  deriving DecidableEq

namespace SyncQueue

variable {α : Type*}

/-- `SyncQueue::new`. -/
def new : SyncQueue α := ⟨[], .zero⟩

/-- The first half of `add`: `vals.lock().push_back(val)`. -/
def pushBack (q : SyncQueue α) (v : α) : SyncQueue α := { q with vals := q.vals ++ [v] }

/-- The second half of `add`: the semaphore is released, its result ignored. -/
def release (q : SyncQueue α) : SyncQueue α := { q with sem := q.sem.release }

/-- `SyncQueue::add`. -/
def add (q : SyncQueue α) (v : α) : SyncQueue α := (q.pushBack v).release

/-- `SyncQueue::remove`, `vals.lock().pop_back()`: the value. -/
def back? (q : SyncQueue α) : Option α := q.vals.getLast?

/-- `SyncQueue::remove`, `vals.lock().pop_back()`: what is left. -/
def popBack (q : SyncQueue α) : SyncQueue α := { q with vals := q.vals.dropLast }

/-- `vals.drain(..)`, under the lock: the next value. -/
def front? (q : SyncQueue α) : Option α := q.vals.head?

/-- `vals.drain(..)`, under the lock: what is left after it. -/
def popFront (q : SyncQueue α) : SyncQueue α := { q with vals := q.vals.tail }

/-- `SyncQueue::wait` returns: one count was taken. -/
def wait (q : SyncQueue α) : SyncQueue α := { q with sem := q.sem.acquire }

@[simp] theorem new_vals : (new : SyncQueue α).vals = [] := rfl
@[simp] theorem new_sem : (new : SyncQueue α).sem = .zero := rfl
@[simp] theorem pushBack_vals (q : SyncQueue α) (v : α) : (q.pushBack v).vals = q.vals ++ [v] := rfl
@[simp] theorem pushBack_sem (q : SyncQueue α) (v : α) : (q.pushBack v).sem = q.sem := rfl
@[simp] theorem release_vals (q : SyncQueue α) : q.release.vals = q.vals := rfl
@[simp] theorem release_sem (q : SyncQueue α) : q.release.sem = q.sem.release := rfl
@[simp] theorem add_vals (q : SyncQueue α) (v : α) : (q.add v).vals = q.vals ++ [v] := rfl
@[simp] theorem popBack_vals (q : SyncQueue α) : q.popBack.vals = q.vals.dropLast := rfl
@[simp] theorem popBack_sem (q : SyncQueue α) : q.popBack.sem = q.sem := rfl
@[simp] theorem popFront_vals (q : SyncQueue α) : q.popFront.vals = q.vals.tail := rfl
@[simp] theorem popFront_sem (q : SyncQueue α) : q.popFront.sem = q.sem := rfl
@[simp] theorem wait_vals (q : SyncQueue α) : q.wait.vals = q.vals := rfl
@[simp] theorem wait_sem (q : SyncQueue α) : q.wait.sem = q.sem.acquire := rfl

/-- `remove` takes the value that was pushed last. -/
theorem vals_eq_of_back? {q : SyncQueue α} {v : α} (h : q.back? = some v) :
    q.vals = q.popBack.vals ++ [v] := by
  obtain ⟨ys, hys⟩ := List.getLast?_eq_some_iff.1 h
  simp [popBack, hys]

theorem vals_eq_of_front? {q : SyncQueue α} {v : α} (h : q.front? = some v) :
    q.vals = v :: q.popFront.vals :=
  (List.cons_head?_tail h).symm

theorem front?_eq_none {q : SyncQueue α} : q.front? = none ↔ q.vals = [] := List.head?_eq_none_iff

theorem back?_eq_none {q : SyncQueue α} : q.back? = none ↔ q.vals = [] :=
  List.getLast?_eq_none_iff

end SyncQueue

end BunnyDs
