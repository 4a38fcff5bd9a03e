import BunnyDs.Kernel.Basic
import BunnyDs.LTS.Basic
import BunnyDs.LTS.Count
import Mathlib.Algebra.Order.Group.Unbundled.Int
import Mathlib.Data.Fin.VecNotation
import Mathlib.Data.Fintype.Defs

/-!
# The counter of `DsLock`

`DSMutex` keeps one arbitrated 32-bit word and a list of waiting tokens.  The sign of the word says
whether the lock is held, its magnitude is one more than the number of registrations that have
not become an acquisition.  `DsLock` and its three methods are translated from `sync.rs`; each
method is one atomic step here.

`DSMutex.system kind` is any finite number of lock attempts on one mutex: a task's `LockFut`
(`Kind.task`, with the token of the waker it is polled with) or a thread's `lock_sync`
(`Kind.thread`).  A task wakes up through `WAKE_QUEUE`, a thread through the address arbiter.

* `DsLock.word held n` is the value of the word, and the `_word` lemmas say what each method does
  to it.
* `DSMutex.Inv` is the counter invariant, `DSMutex.inv_step` its preservation by every step that
  leaves room in the word (`DSMutex.Fits`).
* `DSMutex.counter_invariant` : with fewer than `2 ^ 31 - 1` registrations in all, at most one
  guard is live, the word is never `0`, negative exactly while a guard is live, and its magnitude
  counts the registrations.
-/

namespace BunnyDs

/-- `DsLock`: the arbitrated word and the waiting tokens. -/
structure DsLock where
  arb : ℤ
  waiters : List TaskToken
  deriving DecidableEq

namespace DsLock

/-- The lock inside `DSMutex::new`. -/
def new : DsLock := ⟨1, []⟩

/-- `try_lock_and_register`: the lock afterwards, and whether it was taken. -/
def tryLockAndRegister (l : DsLock) (token : TaskToken) : DsLock × Bool :=
  if 0 < l.arb then ({ l with arb := i32 (-l.arb) }, true)
  else (⟨i32 (l.arb - 1), l.waiters ++ [token]⟩, false)

/-- `try_lock_release_waiter`: the lock afterwards, and whether it was taken. -/
def tryLockReleaseWaiter (l : DsLock) : DsLock × Bool :=
  if 0 < l.arb then ({ l with arb := i32 (-i32 (l.arb - 1)) }, true)
  else (l, false)

/-- `unlock`: the lock afterwards, and the token taken from the front of the list. -/
def unlock (l : DsLock) : DsLock × Option TaskToken :=
  if l.arb < 0 then (⟨i32 (-l.arb), l.waiters.tail⟩, l.waiters.head?)
  else (l, none)

/-- The word of a lock with `n` registrations that have not become an acquisition. -/
def word : (held : Bool) → (n : ℕ) → ℤ
  | true, n => -(n + 1)
  | false, n => n + 1

theorem word_held (n : ℕ) : word true n = -(n + 1) := rfl

theorem word_free (n : ℕ) : word false n = n + 1 := rfl

variable {l : DsLock} {n : ℕ}

theorem tryLockAndRegister_word_free (h : l.arb = word false n) (hn : n + 1 < 2 ^ 31)
    (token : TaskToken) :
    l.tryLockAndRegister token = ({ l with arb := word true n }, true) := by
  rw [word_free] at h
  have hi : i32 (-l.arb) = word true n := by
    rw [h, i32_eq_self (by omega) (by omega), word_held]
  rw [tryLockAndRegister, if_pos (by omega), hi]

theorem tryLockAndRegister_word_held (h : l.arb = word true n) (hn : n + 2 < 2 ^ 31)
    (token : TaskToken) :
    l.tryLockAndRegister token = (⟨word true (n + 1), l.waiters ++ [token]⟩, false) := by
  rw [word_held] at h
  have hi : i32 (l.arb - 1) = word true (n + 1) := by
    rw [h, i32_eq_self (by omega) (by omega), word_held]
    omega
  rw [tryLockAndRegister, if_neg (by omega), hi]

theorem tryLockReleaseWaiter_word_free (h : l.arb = word false (n + 1)) (hn : n + 2 < 2 ^ 31) :
    l.tryLockReleaseWaiter = ({ l with arb := word true n }, true) := by
  rw [word_free] at h
  have hi : i32 (-i32 (l.arb - 1)) = word true n := by
    rw [i32_eq_self (x := l.arb - 1) (by omega) (by omega), i32_eq_self (by omega) (by omega),
      word_held]
    omega
  rw [tryLockReleaseWaiter, if_pos (by omega), hi]

theorem tryLockReleaseWaiter_word_held (h : l.arb = word true n) :
    l.tryLockReleaseWaiter = (l, false) := by
  rw [word_held] at h
  rw [tryLockReleaseWaiter, if_neg (by omega)]

theorem unlock_word_held (h : l.arb = word true n) (hn : n + 1 < 2 ^ 31) :
    l.unlock = (⟨word false n, l.waiters.tail⟩, l.waiters.head?) := by
  rw [word_held] at h
  have hi : i32 (-l.arb) = word false n := by
    rw [h, i32_eq_self (by omega) (by omega), word_free]
    omega
  rw [unlock, if_pos (by omega), hi]

theorem word_neg_iff {held : Bool} : word held n < 0 ↔ held = true := by
  cases held with
  | false => rw [word_free]; constructor <;> intro h <;> [omega; cases h]
  | true => rw [word_held]; constructor <;> intro h <;> [rfl; omega]

theorem word_ne_zero (held : Bool) : word held n ≠ 0 := by
  cases held with
  | false => rw [word_free]; omega
  | true => rw [word_held]; omega

theorem abs_word (held : Bool) : |word held n| = 1 + n := by
  cases held with
  | false => rw [word_free, abs_of_pos (by omega)]; omega
  | true => rw [word_held, abs_of_neg (by omega)]; omega

end DsLock

namespace DSMutex

/-- Who makes a lock attempt. -/
inductive Kind where
  /-- A `LockFut`, polled by the task with this token. -/
  | task (token : TaskToken)
  /-- A thread in `lock_sync`. -/
  | thread
  deriving DecidableEq

/-- The token a registration pushes; `u32::MAX` indicates a thread. -/
def Kind.token : Kind → TaskToken
  | .task token => token
  | .thread => ⟨u32Max⟩

/-- Where a lock attempt is. -/
inductive Phase where
  /-- `LockFut` with `registered` unset, or before `lock_sync`. -/
  | fresh
  /-- `LockFut` with `registered` set; its last poll returned `Pending`. -/
  | pending
  /-- As `pending`, and the executor has started to poll its task. -/
  | polling
  /-- `lock_sync`: before `wait_less_than(0)`. -/
  | toWait
  /-- `lock_sync`: blocked in the address arbiter. -/
  | blocked
  /-- `lock_sync`: before `try_lock_release_waiter`. -/
  | toRetry
  /-- Its `DSMutexGuard` is live. -/
  | holding
  /-- Its guard was dropped. -/
  | released
  /-- `LockFut` that was dropped while pending. -/
  | dropped
  deriving DecidableEq

/-- Registered, still wanting the lock. -/
def Phase.registered : Phase → Bool
  | .pending | .polling | .toWait | .blocked | .toRetry => true
  | _ => false

/-- Its registration has not become an acquisition; abandoned ones included. -/
def Phase.owed : Phase → Bool
  | .dropped => true
  | ph => ph.registered

/-- Its guard is live. -/
def Phase.holds : Phase → Bool
  | .holding => true
  | _ => false

theorem Phase.owed_of_registered {ph : Phase} (h : ph.registered = true) : ph.owed = true := by
  cases ph <;> first | rfl | cases h

theorem Phase.not_holds_of_registered {ph : Phase} (h : ph.registered = true) :
    ph.holds = false := by
  cases ph <;> first | rfl | cases h

/-- One mutex, the attempts `ι` made on it, and `WAKE_QUEUE`. -/
structure State (ι : Type*) where
  lock : DsLock
  wakeQueue : SyncQueue TaskToken
  phase : ι → Phase
  /-- How often `try_lock_and_register` has registered. -/
  registrations : ℕ

/-- One atomic step. -/
inductive Label (ι : Type*) where
  /-- `LockFut::poll`. -/
  | poll (i : ι)
  /-- `lock_sync`: its first `try_lock_and_register`. -/
  | lockSync (i : ι)
  /-- `lock_sync`: the call of `wait_less_than(0)`. -/
  | wait (i : ι)
  /-- `lock_sync`: `try_lock_release_waiter` after the wait. -/
  | retry (i : ι)
  /-- The guard of `i` is dropped; if a thread is signalled, the kernel unblocks `j`. -/
  | unlock (i : ι) (j : Option ι)
  /-- Some other waker adds a token to `WAKE_QUEUE`. -/
  | wake (token : TaskToken)
  /-- The executor removes a token from `WAKE_QUEUE` and starts to poll its task. -/
  | run
  /-- A pending `LockFut` is dropped. -/
  | drop (i : ι)

variable {ι : Type*} [DecidableEq ι]

/-- `try_lock_and_register` by `i`, which goes to `wait` if the lock is held. -/
def register (kind : ι → Kind) (s : State ι) (i : ι) (wait : Phase) : State ι :=
  let r := s.lock.tryLockAndRegister (kind i).token
  { s with
    lock := r.1
    phase := Function.update s.phase i (if r.2 then .holding else wait)
    registrations := s.registrations + (!r.2).toNat }

/-- `try_lock_release_waiter` by `i`, which goes back to `wait` if the lock is held. -/
def retry (s : State ι) (i : ι) (wait : Phase) : State ι :=
  let r := s.lock.tryLockReleaseWaiter
  { s with
    lock := r.1
    phase := Function.update s.phase i (if r.2 then .holding else wait) }

/-- `ARBITRATION_SIGNAL 1`: the kernel unblocks `j`, if any thread is blocked. -/
def signalOne (s : State ι) : Option ι → State ι
  | some j => { s with phase := Function.update s.phase j .toRetry }
  | none => s

/-- `unlock` by the holder `i`, with its wake of the front waiter. -/
def release (s : State ι) (i : ι) (j : Option ι) : State ι :=
  let r := s.lock.unlock
  let s' := { s with lock := r.1, phase := Function.update s.phase i .released }
  match r.2 with
  | none => s'
  -- the token of a thread stands for whichever thread the kernel picks
  | some token =>
    if token = ⟨u32Max⟩ then signalOne s' j
    else { s' with wakeQueue := s'.wakeQueue.add token }

/-- The executor takes the token at the back of `WAKE_QUEUE`; the task will poll its pending
`LockFut`s. -/
def startPoll (kind : ι → Kind) (s : State ι) (token : TaskToken) : State ι :=
  { s with
    wakeQueue := s.wakeQueue.popBack
    phase := fun i =>
      if s.phase i = .pending ∧ (kind i).token = token then .polling else s.phase i }

/-- The effect of a step. -/
def fire (kind : ι → Kind) (s : State ι) : Label ι → State ι
  | .poll i => if s.phase i = .fresh then register kind s i .pending else retry s i .pending
  | .lockSync i => register kind s i .toWait
  | .wait i =>
    { s with phase := Function.update s.phase i (if s.lock.arb < 0 then .blocked else .toRetry) }
  | .retry i => retry s i .toWait
  | .unlock i j => release s i j
  | .wake token => { s with wakeQueue := s.wakeQueue.add token }
  | .run =>
    match s.wakeQueue.back? with
    | some token => startPoll kind s token
    | none => s
  | .drop i => { s with phase := Function.update s.phase i .dropped }

/-- The kernel can unblock `j`: a blocked thread, or nobody if none is blocked. -/
def CanSignal (s : State ι) : Option ι → Prop
  | some j => s.phase j = .blocked
  | none => ∀ j, s.phase j ≠ .blocked

/-- A step can be taken.  A `LockFut` is not polled after `Ready`. -/
def Enabled (kind : ι → Kind) (s : State ι) : Label ι → Prop
  | .poll i => kind i ≠ .thread ∧ s.phase i ∈ [.fresh, .pending, .polling]
  | .lockSync i => kind i = .thread ∧ s.phase i = .fresh
  | .wait i => s.phase i = .toWait
  | .retry i => s.phase i = .toRetry
  | .unlock i j => s.phase i = .holding ∧ CanSignal s j
  | .wake _ => True
  | .run => (∀ i, s.phase i ≠ .polling) ∧ s.wakeQueue.back? ≠ none
  | .drop i => s.phase i ∈ [.pending, .polling]

instance [Fintype ι] (s : State ι) (j : Option ι) : Decidable (CanSignal s j) :=
  match j with
  | some j => inferInstanceAs (Decidable (s.phase j = .blocked))
  | none => inferInstanceAs (Decidable (∀ j, s.phase j ≠ .blocked))

instance [Fintype ι] (kind : ι → Kind) (s : State ι) (l : Label ι) :
    Decidable (Enabled kind s l) :=
  match l with
  | .poll i => inferInstanceAs
      (Decidable (kind i ≠ .thread ∧ s.phase i ∈ [.fresh, .pending, .polling]))
  | .lockSync i => inferInstanceAs (Decidable (kind i = .thread ∧ s.phase i = .fresh))
  | .wait i => inferInstanceAs (Decidable (s.phase i = .toWait))
  | .retry i => inferInstanceAs (Decidable (s.phase i = .toRetry))
  | .unlock i j => inferInstanceAs (Decidable (s.phase i = .holding ∧ CanSignal s j))
  | .wake _ => inferInstanceAs (Decidable True)
  | .run => inferInstanceAs
      (Decidable ((∀ i, s.phase i ≠ .polling) ∧ s.wakeQueue.back? ≠ none))
  | .drop i => inferInstanceAs (Decidable (s.phase i ∈ [.pending, .polling]))

/-- A mutex made by `DSMutex::new`, and the attempts that will be made on it. -/
def system (kind : ι → Kind) : LTS (State ι) (Label ι) where
  init := ⟨.new, .new, fun _ => .fresh, 0⟩
  Enabled := Enabled kind
  fire := fire kind

instance [Fintype ι] (kind : ι → Kind) (s : State ι) (l : Label ι) :
    Decidable ((system kind).Enabled s l) :=
  inferInstanceAs (Decidable (Enabled kind s l))

/-! ### What the attempts do to a lock in a known state -/

section Steps

variable {kind : ι → Kind} {s : State ι} {i : ι} {j : Option ι} {wait : Phase} {n : ℕ}

theorem register_of_held (hw : s.lock.arb = DsLock.word true n) (hn : n + 2 < 2 ^ 31) :
    register kind s i wait = { s with
      lock := ⟨DsLock.word true (n + 1), s.lock.waiters ++ [(kind i).token]⟩
      phase := Function.update s.phase i wait
      registrations := s.registrations + 1 } := by
  rw [register, DsLock.tryLockAndRegister_word_held hw hn]; rfl

theorem register_of_free (hw : s.lock.arb = DsLock.word false n) (hn : n + 1 < 2 ^ 31) :
    register kind s i wait = { s with
      lock := { s.lock with arb := DsLock.word true n }
      phase := Function.update s.phase i .holding } := by
  rw [register, DsLock.tryLockAndRegister_word_free hw hn]; rfl

theorem retry_of_held (hw : s.lock.arb = DsLock.word true n) :
    retry s i wait = { s with phase := Function.update s.phase i wait } := by
  rw [retry, DsLock.tryLockReleaseWaiter_word_held hw]; rfl

theorem retry_of_free (hw : s.lock.arb = DsLock.word false (n + 1)) (hn : n + 2 < 2 ^ 31) :
    retry s i wait = { s with
      lock := { s.lock with arb := DsLock.word true n }
      phase := Function.update s.phase i .holding } := by
  rw [retry, DsLock.tryLockReleaseWaiter_word_free hw hn]; rfl

/-- The guard of `i` is gone and the front waiter is off the list. -/
def freed (s : State ι) (i : ι) (n : ℕ) : State ι :=
  { s with
    lock := ⟨DsLock.word false n, s.lock.waiters.tail⟩
    phase := Function.update s.phase i .released }

theorem release_of_nil (hw : s.lock.arb = DsLock.word true n) (hn : n + 1 < 2 ^ 31)
    (hlist : s.lock.waiters = []) : release s i j = freed s i n := by
  simp only [release, DsLock.unlock_word_held hw hn, hlist, List.head?_nil, freed]

theorem release_of_cons (hw : s.lock.arb = DsLock.word true n) (hn : n + 1 < 2 ^ 31)
    {token : TaskToken} {rest : List TaskToken} (hlist : s.lock.waiters = token :: rest) :
    release s i j =
      if token = ⟨u32Max⟩ then signalOne (freed s i n) j
      else { freed s i n with wakeQueue := s.wakeQueue.add token } := by
  simp only [release, DsLock.unlock_word_held hw hn, hlist, List.head?_cons, freed]

end Steps

/-! ### The counter invariant -/

section Invariant

variable [Fintype ι] {kind : ι → Kind} {s : State ι} {i : ι}

/-- **The counter invariant**: the sign of the word says whether a guard is live, its magnitude is
one more than the number of registrations that are owed the lock. -/
def Inv (s : State ι) : Prop :=
  ∃ held : Bool, cnt Phase.holds s.phase = held.toNat ∧
    s.lock.arb = DsLock.word held (cnt Phase.owed s.phase) ∧
    cnt Phase.owed s.phase + 1 < 2 ^ 31 ∧ cnt Phase.owed s.phase ≤ s.registrations

/-- A registration leaves room in the word for its negation. -/
def Fits (s : State ι) : Label ι → Prop
  | .poll i => s.phase i = .fresh → s.lock.arb ≤ 0 → -(2 ^ 31 - 1) < s.lock.arb
  | .lockSync _ => s.lock.arb ≤ 0 → -(2 ^ 31 - 1) < s.lock.arb
  | _ => True

omit [Fintype ι] [DecidableEq ι] in
/-- Who calls `try_lock_release_waiter` is registered. -/
theorem registered_of_retries (h : Enabled kind s (.retry i) ∨
    Enabled kind s (.poll i) ∧ s.phase i ≠ .fresh) : (s.phase i).registered = true := by
  rcases h with h | ⟨⟨-, h⟩, hf⟩
  · have h : s.phase i = .toRetry := h
    rw [h]; rfl
  · simp only [List.mem_cons, List.not_mem_nil, or_false] at h
    rcases h with h | h | h
    · exact absurd h hf
    · rw [h]; rfl
    · rw [h]; rfl

theorem inv_init : Inv (system kind).init := by
  have ho : cnt Phase.owed (fun _ : ι => Phase.fresh) = 0 := cnt_const _ rfl
  have hh : cnt Phase.holds (fun _ : ι => Phase.fresh) = 0 := cnt_const _ rfl
  refine ⟨false, hh, ?_, ?_, ?_⟩ <;> simp only [system, ho]
  · rfl
  · omega
  · omega

/-- A first attempt: the lock is taken, or the registration is counted. -/
theorem inv_register (h : Inv s) (hi : s.phase i = .fresh) {wait : Phase}
    (howed : wait.owed = true) (hholds : wait.holds = false)
    (hfit : s.lock.arb ≤ 0 → -(2 ^ 31 - 1) < s.lock.arb) : Inv (register kind s i wait) := by
  obtain ⟨held, hh, hw, hs, hr⟩ := h
  have hio : (s.phase i).owed = false := by rw [hi]; rfl
  have hih : (s.phase i).holds = false := by rw [hi]; rfl
  cases held with
  | true =>
    have hroom : cnt Phase.owed s.phase + 2 < 2 ^ 31 := by
      rw [hw, DsLock.word_held] at hfit
      omega
    rw [register_of_held hw hroom]
    refine ⟨true, (cnt_update_of_eq (hih.trans hholds.symm)).trans hh, ?_⟩
    simp only [cnt_update_enter hio howed]
    exact ⟨trivial, hroom, Nat.succ_le_succ hr⟩
  | false =>
    rw [register_of_free hw hs]
    refine ⟨true, (cnt_update_enter hih rfl).trans (by rw [hh]; rfl), ?_⟩
    simp only [cnt_update_of_eq (a := Phase.holding) hio]
    exact ⟨trivial, hs, hr⟩

/-- A later attempt of a registered party: the lock is taken and the registration settled, or
nothing changes. -/
theorem inv_retry (h : Inv s) (hi : (s.phase i).registered = true) {wait : Phase}
    (howed : wait.owed = true) (hholds : wait.holds = false) : Inv (retry s i wait) := by
  obtain ⟨held, hh, hw, hs, hr⟩ := h
  have hio := Phase.owed_of_registered hi
  have hih := Phase.not_holds_of_registered hi
  cases held with
  | true =>
    rw [retry_of_held hw]
    refine ⟨true, (cnt_update_of_eq (hih.trans hholds.symm)).trans hh, ?_⟩
    simp only [cnt_update_of_eq (hio.trans howed.symm)]
    exact ⟨hw, hs, hr⟩
  | false =>
    -- `i` itself is owed the lock, so the word is at least 2
    obtain ⟨n, hn⟩ : ∃ n, cnt Phase.owed s.phase = n + 1 :=
      Nat.exists_eq_succ_of_ne_zero (cnt_pos_iff.2 ⟨i, hio⟩).ne'
    have hleave : cnt Phase.owed (Function.update s.phase i .holding) = n := by
      have := cnt_update_leave (a := Phase.holding) hio rfl
      omega
    rw [hn] at hw hs hr
    rw [retry_of_free hw hs]
    refine ⟨true, (cnt_update_enter hih rfl).trans (by rw [hh]; rfl), ?_⟩
    simp only [hleave]
    exact ⟨trivial, by omega, by omega⟩

omit [DecidableEq ι] in
/-- Steps that move parties between places of the same standing keep the invariant. -/
theorem Inv.of_phase {s' : State ι} (h : Inv s) (harb : s'.lock.arb = s.lock.arb)
    (hregs : s'.registrations = s.registrations)
    (howed : ∀ j, (s'.phase j).owed = (s.phase j).owed)
    (hholds : ∀ j, (s'.phase j).holds = (s.phase j).holds) : Inv s' := by
  unfold Inv
  rw [harb, hregs, cnt_congr howed, cnt_congr hholds]
  exact h

/-- The same for a move of one party. -/
theorem Inv.of_move {ph : Phase} (h : Inv s) (howed : (s.phase i).owed = ph.owed)
    (hholds : (s.phase i).holds = ph.holds) :
    Inv { s with phase := Function.update s.phase i ph } := by
  unfold Inv
  simp only [cnt_update_of_eq howed, cnt_update_of_eq hholds]
  exact h

/-- The guard is dropped; whoever is woken keeps its standing. -/
theorem inv_release (h : Inv s) (hi : s.phase i = .holding) {j : Option ι} (hj : CanSignal s j) :
    Inv (release s i j) := by
  obtain ⟨held, hh, hw, hs, hr⟩ := h
  have hio : (s.phase i).owed = false := by rw [hi]; rfl
  have hih : (s.phase i).holds = true := by rw [hi]; rfl
  have hleave := cnt_update_leave (a := Phase.released) hih rfl
  cases held with
  | false =>
    rw [hh] at hleave
    cases hleave
  | true =>
    have hfree : Inv (freed s i (cnt Phase.owed s.phase)) := by
      rw [hh] at hleave
      refine ⟨false, Nat.succ.inj hleave, ?_⟩
      simp only [freed, cnt_update_of_eq (a := Phase.released) hio]
      exact ⟨trivial, hs, hr⟩
    cases hlist : s.lock.waiters with
    | nil => exact release_of_nil hw hs hlist ▸ hfree
    | cons token rest =>
      rw [release_of_cons hw hs hlist]
      split_ifs
      · cases j with
        | none => exact hfree
        | some j =>
          have hj : s.phase j = .blocked := hj
          have hji : j ≠ i := by
            rintro rfl
            rw [hi] at hj
            cases hj
          refine hfree.of_move ?_ ?_ <;>
            simp only [freed, Function.update_of_ne hji, hj] <;> rfl
      · exact hfree

omit [DecidableEq ι] in
/-- Taking a token from `WAKE_QUEUE` moves pending futures to `polling` only. -/
theorem inv_run (h : Inv s) (token : TaskToken) : Inv (startPoll kind s token) := by
  refine h.of_phase rfl rfl (fun j => ?_) fun j => ?_ <;> simp only [startPoll] <;>
    split_ifs with hj <;> first | rw [hj.1]; rfl | rfl

theorem inv_step {l : Label ι} (h : Inv s) (hen : Enabled kind s l) (hfit : Fits s l) :
    Inv (fire kind s l) := by
  cases l with
  | poll i =>
    simp only [fire]
    split_ifs with hf
    · exact inv_register h hf rfl rfl (hfit hf)
    · exact inv_retry h (registered_of_retries (.inr ⟨hen, hf⟩)) rfl rfl
  | lockSync i => exact inv_register h hen.2 rfl rfl hfit
  | wait i =>
    have hi : s.phase i = .toWait := hen
    refine h.of_move ?_ ?_ <;> rw [hi] <;> split_ifs <;> rfl
  | retry i =>
    have hi : s.phase i = .toRetry := hen
    exact inv_retry h (by rw [hi]; rfl) rfl rfl
  | unlock i j => exact inv_release h hen.1 hen.2
  | wake token => exact h
  | run =>
    simp only [fire]
    split
    · exact inv_run h _
    · exact h
  | drop i =>
    have hi : s.phase i ∈ [.pending, .polling] := hen
    simp only [List.mem_cons, List.not_mem_nil, or_false] at hi
    refine h.of_move ?_ ?_ <;> rcases hi with hi | hi <;> rw [hi] <;> rfl

/-! ### Bounding the registrations -/

omit [Fintype ι] in
theorem registrations_release {j : Option ι} :
    (release s i j).registrations = s.registrations := by
  simp only [release]
  split
  · rfl
  · split_ifs
    · cases j <;> rfl
    · rfl

omit [Fintype ι] in
/-- The count of registrations never goes down. -/
theorem registrations_le_fire {l : Label ι} : s.registrations ≤ (fire kind s l).registrations := by
  cases l with
  | poll i =>
    simp only [fire]
    split_ifs
    · exact Nat.le_add_right _ _
    · exact le_rfl
  | lockSync i => exact Nat.le_add_right _ _
  | unlock i j => exact registrations_release.ge
  | run => simp only [fire]; split <;> exact le_rfl
  | _ => exact le_rfl

omit [DecidableEq ι] in
/-- Few registrations leave room for one more. -/
theorem Inv.room (h : Inv s) (hr : s.registrations + 1 < 2 ^ 31 - 1) (harb : s.lock.arb ≤ 0) :
    -(2 ^ 31 - 1) < s.lock.arb := by
  obtain ⟨held, -, hw, -, hn⟩ := h
  cases held with
  | false => rw [hw, DsLock.word_free] at harb; omega
  | true => rw [hw, DsLock.word_held]; omega

omit [Fintype ι] in
/-- An attempt that finds the lock held is counted. -/
theorem registrations_register {wait : Phase} (harb : s.lock.arb ≤ 0) :
    (register kind s i wait).registrations = s.registrations + 1 := by
  simp [register, DsLock.tryLockAndRegister, not_lt.2 harb]

theorem fits_of_registrations {l : Label ι} (h : Inv s)
    (hr : (fire kind s l).registrations < 2 ^ 31 - 1) : Fits s l := by
  cases l with
  | poll i =>
    intro hi harb
    simp only [fire, if_pos hi, registrations_register harb] at hr
    exact h.room hr harb
  | lockSync i =>
    intro harb
    simp only [fire, registrations_register harb] at hr
    exact h.room hr harb
  | _ => trivial

omit [DecidableEq ι] in
/-- The sign of the word. -/
theorem Inv.neg_iff (h : Inv s) : s.lock.arb < 0 ↔ ∃ i, (s.phase i).holds = true := by
  obtain ⟨held, hh, hw, -, -⟩ := h
  rw [hw, DsLock.word_neg_iff, ← cnt_pos_iff, hh]
  cases held <;> simp

/-- **`DsLock`'s counter invariant**, over every run with fewer than `2 ^ 31 - 1` registrations:
at most one guard is live; the word is never `0`, and negative exactly while a guard is live; its
magnitude is one more than the number of registrations that have not become an acquisition
(abandoned ones included); `unlock` is only called on a negative word, and
`try_lock_release_waiter` never on the word `1`. -/
theorem counter_invariant (h : (system kind).Reachable s) (hr : s.registrations < 2 ^ 31 - 1) :
    (∀ i j, s.phase i = .holding → s.phase j = .holding → i = j) ∧
    s.lock.arb ≠ 0 ∧
    (s.lock.arb < 0 ↔ ∃ i, s.phase i = .holding) ∧
    |s.lock.arb| = 1 + cnt Phase.owed s.phase ∧
    (∀ i j, Enabled kind s (.unlock i j) → s.lock.arb < 0) ∧
    (∀ i, Enabled kind s (.retry i) ∨ Enabled kind s (.poll i) ∧ s.phase i ≠ .fresh →
      s.lock.arb ≠ 1) := by
  have hi : Inv s := by
    -- the bound is on the last state, and the count only grows, so it held all along
    refine h.invariant (I := fun s => s.registrations < 2 ^ 31 - 1 → Inv s) (fun _ => inv_init)
      (fun s l _ hi hen _ hr => ?_) hr
    have hi := hi (lt_of_le_of_lt registrations_le_fire hr)
    exact inv_step hi hen (fits_of_registrations hi hr)
  have hholds : ∀ {i}, (s.phase i).holds = true ↔ s.phase i = .holding := by
    intro i
    cases s.phase i <;> simp [Phase.holds]
  have hneg := hi.neg_iff
  simp only [hholds] at hneg
  obtain ⟨held, hh, hw, -, -⟩ := hi
  refine ⟨fun i j hi hj => ?_, ?_, hneg, ?_, fun i j hen => hneg.2 ⟨i, hen.1⟩, fun i hen => ?_⟩
  · have hone : cnt Phase.holds s.phase ≤ 1 := by rw [hh]; exact Bool.toNat_le held
    exact le_one_iff_cnt.1 hone i j (hholds.2 hi) (hholds.2 hj)
  · rw [hw]; exact DsLock.word_ne_zero held
  · rw [hw]; exact DsLock.abs_word held
  · -- `i` is registered, so the magnitude is at least 2
    have hio : (s.phase i).owed = true := Phase.owed_of_registered (registered_of_retries hen)
    have hpos := cnt_pos_iff.2 ⟨i, hio⟩
    intro hone
    have habs := DsLock.abs_word (n := cnt Phase.owed s.phase) held
    rw [← hw, hone, abs_of_pos one_pos] at habs
    omega

end Invariant

/-- Three attempts: a task takes the lock, another task and a thread register, the first one
unlocks. -/
def threeKinds : Fin 3 → Kind := ![.task ⟨0⟩, .task ⟨1⟩, .thread]

/-- Two registrations are owed the free lock, and the word is `3`. -/
theorem counter_invariant_three : ∃ s, (system threeKinds).Reachable s ∧
    s.registrations = 2 ∧ s.lock.arb = 3 ∧ |s.lock.arb| = 1 + cnt Phase.owed s.phase := by
  obtain ⟨s, hs, hr, harb⟩ := LTS.exists_of_exec (system threeKinds) (fun _ _ => True)
    [.poll 0, .poll 1, .lockSync 2, .unlock 0 none]
    (fun s => s.registrations = 2 ∧ s.lock.arb = 3) (by decide)
  exact ⟨s, hs, hr, harb, (counter_invariant hs (by omega)).2.2.2.1⟩

end DSMutex

end BunnyDs
