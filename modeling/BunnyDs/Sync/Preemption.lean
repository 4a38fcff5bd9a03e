import BunnyDs.Sync.DsLock

/-!
# `DsLock` under preemption

The methods of `DsLock` load the word, decide, and store a new one: plain loads and stores where
`LightLock` has exclusive ones.  `DSMutex.Preemptive.system kind` splits every method into its
accesses, so that any number of callers may be preempted between a load and its store.  Without
preemption the accesses of one call compose to the method that `BunnyDs.Sync.DsLock` takes as one
step (`register_uninterrupted`, `retry_uninterrupted`, `unlock_uninterrupted`).

Two callers that both load a free word both take the lock: `Preemptive.both_hold`.  What mutual
exclusion rests on is that the word is still positive at the store that takes the lock, and that
a registration does not wrap around: `Preemptive.exclusive`.
-/

namespace BunnyDs

namespace DSMutex

namespace Preemptive

/-- Where a lock attempt is; a method that has loaded the word carries what it loaded. -/
inductive Pc where
  /-- `LockFut` with `registered` unset, or before `lock_sync`. -/
  | fresh
  /-- `try_lock_and_register`, before one of its stores. -/
  | registerStore (state : ℤ)
  /-- `try_lock_and_register`, before `waiters.lock().push(token)`. -/
  | registerPush
  /-- Registered: a pending `LockFut`, or `lock_sync` before `wait_less_than(0)`. -/
  | waiting
  /-- `lock_sync`: blocked in the address arbiter. -/
  | blocked
  /-- `lock_sync`: before `try_lock_release_waiter`. -/
  | toRetry
  /-- `try_lock_release_waiter`, before its store. -/
  | retryStore (lockState : ℤ)
  /-- Its `DSMutexGuard` is live. -/
  | holding
  /-- `unlock`, before its store. -/
  | unlockStore (lockState : ℤ)
  /-- `unlock`, before it looks at the waiters. -/
  | unlockPop
  /-- `unlock`, before it wakes the waiter it removed. -/
  | unlockWake (task : TaskToken)
  | released
  /-- `LockFut` that was dropped while pending. -/
  | dropped
  deriving DecidableEq

/-- The caller has the lock: its guard is live, or `unlock` has not stored yet. -/
def Pc.owns : Pc → Bool
  | .holding | .unlockStore _ => true
  | _ => false

/-- The caller cannot move by itself. -/
def Pc.halted : Pc → Bool
  | .blocked | .released | .dropped => true
  | _ => false

/-- One mutex, the attempts `ι` made on it, and `WAKE_QUEUE`. -/
structure State (ι : Type*) where
  lock : DsLock
  wakeQueue : SyncQueue TaskToken
  pc : ι → Pc

/-- One access of one caller. -/
inductive Label (ι : Type*) where
  /-- The next access of `i`; if it signals a thread, the kernel unblocks `j`. -/
  | act (i : ι) (j : Option ι)
  /-- A pending `LockFut` is dropped. -/
  | drop (i : ι)

variable {ι : Type*} [DecidableEq ι]

/-- The caller `i` moves on. -/
def State.goto (s : State ι) (i : ι) (pc : Pc) : State ι :=
  { s with pc := Function.update s.pc i pc }

/-- The caller `i` stores `state` in the word and moves on. -/
def State.store (s : State ι) (i : ι) (state : ℤ) (pc : Pc) : State ι :=
  { s with lock := { s.lock with arb := i32 state }, pc := Function.update s.pc i pc }

/-- `try_lock_release_waiter`: its load. -/
def loadRetry (s : State ι) (i : ι) : State ι :=
  s.goto i (if 0 < s.lock.arb then .retryStore s.lock.arb else .waiting)

/-- `unlock` wakes the waiter it removed: the thread `j` that the kernel picks, or a task. -/
def wakeWaiter (s : State ι) (task : TaskToken) (j : Option ι) : State ι :=
  if task = ⟨u32Max⟩ then
    match j with
    | some j => s.goto j .toRetry
    | none => s
  else { s with wakeQueue := s.wakeQueue.add task }

/-- The next access of `i`. -/
def act (kind : ι → Kind) (s : State ι) (i : ι) (j : Option ι) : State ι :=
  match s.pc i with
  | .fresh => s.goto i (.registerStore s.lock.arb)
  | .registerStore state =>
    if 0 < state then s.store i (-state) .holding else s.store i (state - 1) .registerPush
  | .registerPush =>
    { s with
      lock := { s.lock with waiters := s.lock.waiters ++ [(kind i).token] }
      pc := Function.update s.pc i .waiting }
  | .waiting =>
    match kind i with
    | .task _ => loadRetry s i
    -- the arbiter compares and blocks in one step
    | .thread => s.goto i (if s.lock.arb < 0 then .blocked else .toRetry)
  | .toRetry => loadRetry s i
  | .retryStore lockState => s.store i (-i32 (lockState - 1)) .holding
  | .holding => s.goto i (if s.lock.arb < 0 then .unlockStore s.lock.arb else .released)
  | .unlockStore lockState => s.store i (-lockState) .unlockPop
  | .unlockPop =>
    match s.lock.waiters with
    | [] => s.goto i .released
    | task :: waiters =>
      { s with
        lock := { s.lock with waiters := waiters }
        pc := Function.update s.pc i (.unlockWake task) }
  | .unlockWake task => (wakeWaiter s task j).goto i .released
  | .blocked | .released | .dropped => s

/-- The effect of a step. -/
def fire (kind : ι → Kind) (s : State ι) : Label ι → State ι
  | .act i j => act kind s i j
  | .drop i => s.goto i .dropped

/-- The kernel can unblock `j`: a blocked thread, or nobody if none is blocked. -/
def CanUnblock (s : State ι) : Option ι → Prop
  | some j => s.pc j = .blocked
  | none => ∀ j, s.pc j ≠ .blocked

/-- A step can be taken. -/
def Enabled (kind : ι → Kind) (s : State ι) : Label ι → Prop
  | .act i j => (s.pc i).halted = false ∧ (s.pc i = .unlockWake ⟨u32Max⟩ → CanUnblock s j)
  | .drop i => kind i ≠ .thread ∧ s.pc i = .waiting

instance [Fintype ι] (s : State ι) (j : Option ι) : Decidable (CanUnblock s j) :=
  match j with
  | some j => inferInstanceAs (Decidable (s.pc j = .blocked))
  | none => inferInstanceAs (Decidable (∀ j, s.pc j ≠ .blocked))

instance [Fintype ι] (kind : ι → Kind) (s : State ι) (l : Label ι) :
    Decidable (Enabled kind s l) :=
  match l with
  | .act i j => inferInstanceAs (Decidable
      ((s.pc i).halted = false ∧ (s.pc i = .unlockWake ⟨u32Max⟩ → CanUnblock s j)))
  | .drop i => inferInstanceAs (Decidable (kind i ≠ .thread ∧ s.pc i = .waiting))

/-- A new mutex, on which any number of attempts is made. -/
def system (kind : ι → Kind) : LTS (State ι) (Label ι) where
  init := ⟨.new, .new, fun _ => .fresh⟩
  Enabled := Enabled kind
  fire := fire kind

instance [Fintype ι] (kind : ι → Kind) (s : State ι) (l : Label ι) :
    Decidable ((system kind).Enabled s l) :=
  inferInstanceAs (Decidable (Enabled kind s l))

/-! ### Calls that are not preempted -/

section Uninterrupted

variable {kind : ι → Kind} {s : State ι} {i : ι}

/-- The accesses of `i` alone, `n` of them. -/
def alone (kind : ι → Kind) (i : ι) : ℕ → State ι → State ι
  | 0, s => s
  | n + 1, s => alone kind i n (act kind s i none)

/-- A call of `try_lock_and_register` that is not preempted is the atomic method. -/
theorem register_uninterrupted (h : s.pc i = .fresh) :
    ∃ n, (alone kind i n s).lock = (s.lock.tryLockAndRegister (kind i).token).1 ∧
      (alone kind i n s).pc i =
        if (s.lock.tryLockAndRegister (kind i).token).2 then .holding else .waiting := by
  by_cases hpos : 0 < s.lock.arb
  · exact ⟨2, by simp [alone, act, h, hpos, State.goto, State.store, DsLock.tryLockAndRegister]⟩
  · exact ⟨3, by simp [alone, act, h, hpos, State.goto, State.store, DsLock.tryLockAndRegister]⟩

/-- A call of `try_lock_release_waiter` that is not preempted is the atomic method. -/
theorem retry_uninterrupted (h : s.pc i = .toRetry) :
    ∃ n, (alone kind i n s).lock = s.lock.tryLockReleaseWaiter.1 ∧
      (alone kind i n s).pc i = if s.lock.tryLockReleaseWaiter.2 then .holding else .waiting := by
  by_cases hpos : 0 < s.lock.arb
  · exact ⟨2, by
      simp [alone, act, loadRetry, h, hpos, State.goto, State.store, DsLock.tryLockReleaseWaiter]⟩
  · exact ⟨1, by simp [alone, act, loadRetry, h, hpos, State.goto, DsLock.tryLockReleaseWaiter]⟩

/-- A call of `unlock` that is not preempted leaves the lock of the atomic method. -/
theorem unlock_uninterrupted (h : s.pc i = .holding) :
    ∃ n, (alone kind i n s).lock = s.lock.unlock.1 ∧
      (alone kind i n s).pc i = (s.lock.unlock.2.map Pc.unlockWake).getD .released := by
  by_cases hneg : s.lock.arb < 0
  · cases hw : s.lock.waiters with
    | nil => exact ⟨3, by simp [alone, act, h, hneg, hw, State.goto, State.store, DsLock.unlock]⟩
    | cons task waiters =>
      exact ⟨3, by simp [alone, act, h, hneg, hw, State.goto, State.store, DsLock.unlock]⟩
  · exact ⟨1, by simp [alone, act, h, hneg, State.goto, DsLock.unlock]⟩

end Uninterrupted

/-! ### Mutual exclusion -/

/-- The store that comes next, if it takes the lock, finds the word positive; if it registers, it
does not wrap around. -/
def Pc.TakesFree (arb : ℤ) : Pc → Prop
  | .registerStore state => if 0 < state then 0 < arb else -2 ^ 31 < state
  | .retryStore _ => 0 < arb
  | _ => True

instance (arb : ℤ) (pc : Pc) : Decidable (pc.TakesFree arb) :=
  match pc with
  | .registerStore state =>
    inferInstanceAs (Decidable (if 0 < state then 0 < arb else -2 ^ 31 < state))
  | .retryStore _ => inferInstanceAs (Decidable (0 < arb))
  | .fresh | .registerPush | .waiting | .blocked | .toRetry | .holding | .unlockStore _
  | .unlockPop | .unlockWake _ | .released | .dropped => inferInstanceAs (Decidable True)

omit [DecidableEq ι] in
/-- **The lock is still free when it is taken.** -/
def StillFree (s : State ι) : Label ι → Prop
  | .act i _ => (s.pc i).TakesFree s.lock.arb
  | .drop _ => True

instance (s : State ι) (l : Label ι) : Decidable (StillFree s l) :=
  match l with
  | .act i _ => inferInstanceAs (Decidable ((s.pc i).TakesFree s.lock.arb))
  | .drop _ => inferInstanceAs (Decidable True)

/-- The word and what was loaded from it are 32-bit values; at most one caller has the lock, and
then the word is not positive. -/
structure Inv (s : State ι) : Prop where
  word : s.lock.arb < 2 ^ 31
  registering : ∀ i state, s.pc i = .registerStore state → state < 2 ^ 31
  retrying : ∀ i state, s.pc i = .retryStore state → 0 < state ∧ state < 2 ^ 31
  unique : ∀ i j, (s.pc i).owns = true → (s.pc j).owns = true → i = j
  held : ∀ i, (s.pc i).owns = true → s.lock.arb ≤ 0

section Invariant

variable {kind : ι → Kind} {s : State ι} {i : ι}

theorem i32_lt (x : ℤ) : i32 x < 2 ^ 31 := by
  have := Int.bmod_lt (x := x) (m := 2 ^ 32) (by omega)
  unfold i32
  omega

theorem inv_init : Inv (system kind).init where
  word := by simp [system, DsLock.new]
  registering := by simp [system]
  retrying := by simp [system]
  unique := by simp [system, Pc.owns]
  held := by simp [system, Pc.owns]

/-- The caller `i` moves to `pc` and leaves the word at `arb`. -/
theorem Inv.move (h : Inv s) {s' : State ι} {pc : Pc} (hpc : s'.pc = Function.update s.pc i pc)
    (hword : s'.lock.arb < 2 ^ 31)
    (hreg : ∀ state, pc = .registerStore state → state < 2 ^ 31)
    (hret : ∀ state, pc = .retryStore state → 0 < state ∧ state < 2 ^ 31)
    (hown : pc.owns = true → s'.lock.arb ≤ 0 ∧ ∀ j, j ≠ i → (s.pc j).owns = false)
    (hheld : ∀ j, j ≠ i → (s.pc j).owns = true → s'.lock.arb ≤ 0) : Inv s' := by
  refine ⟨hword, fun j state hj => ?_, fun j state hj => ?_, fun j k hj hk => ?_, fun j hj => ?_⟩
  · rw [hpc, Function.update_apply] at hj
    split_ifs at hj
    · exact hreg state hj
    · exact h.registering j state hj
  · rw [hpc, Function.update_apply] at hj
    split_ifs at hj
    · exact hret state hj
    · exact h.retrying j state hj
  · rw [hpc, Function.update_apply] at hj hk
    split_ifs at hj hk with hji hki hki
    · exact hji.trans hki.symm
    · simp [(hown hj).2 k hki] at hk
    · simp [(hown hk).2 j hji] at hj
    · exact h.unique j k hj hk
  · rw [hpc, Function.update_apply] at hj
    split_ifs at hj with hji
    · exact (hown hj).1
    · exact hheld j hji hj

/-- A move that leaves the word alone. -/
theorem Inv.goto (h : Inv s) {pc : Pc}
    (hreg : ∀ state, pc = .registerStore state → state < 2 ^ 31)
    (hret : ∀ state, pc = .retryStore state → 0 < state ∧ state < 2 ^ 31)
    (hown : pc.owns = true → (s.pc i).owns = true) : Inv (s.goto i pc) := by
  refine h.move rfl h.word hreg hret (fun ho => ⟨h.held i (hown ho), fun j hj => ?_⟩)
    fun j _ hj => h.held j hj
  by_contra hne
  exact hj (h.unique j i (by simpa using hne) (hown ho))

/-- A store that takes the lock: the word was positive, so nobody had it. -/
theorem Inv.acquire (h : Inv s) (hpos : 0 < s.lock.arb) {state : ℤ} (h₀ : state ≤ 0)
    (hmin : -2 ^ 31 ≤ state) : Inv (s.store i state .holding) := by
  have hfree : ∀ j, (s.pc j).owns = false := by
    intro j
    by_contra hj
    have := h.held j (by simpa using hj)
    omega
  have harb : (s.store i state .holding).lock.arb = state := i32_eq_self hmin (by omega)
  refine h.move rfl (by omega) (by simp) (by simp) (fun _ => ⟨by omega, fun j _ => hfree j⟩) ?_
  intro j _ hj
  simp [hfree j] at hj

theorem inv_loadRetry (h : Inv s) : Inv (loadRetry s i) := by
  unfold loadRetry
  split_ifs with hpos
  · refine h.goto (by simp) (fun state hs => ?_) (by simp [Pc.owns])
    obtain rfl := Pc.retryStore.inj hs
    exact ⟨hpos, h.word⟩
  · exact h.goto (by simp) (by simp) (by simp [Pc.owns])

theorem inv_wakeWaiter (h : Inv s) (task : TaskToken) {j : Option ι} :
    Inv (wakeWaiter s task j) := by
  unfold wakeWaiter
  split_ifs
  · cases j with
    | none => exact h
    | some j => exact h.goto (by simp) (by simp) (by simp [Pc.owns])
  · exact ⟨h.word, h.registering, h.retrying, h.unique, h.held⟩

theorem inv_act (h : Inv s) (j : Option ι) (hok : StillFree s (.act i j)) :
    Inv (act kind s i j) := by
  have hok : (s.pc i).TakesFree s.lock.arb := hok
  unfold act
  cases hpc : s.pc i with
  | fresh =>
    refine h.goto (fun state hs => ?_) (by simp) (by simp [Pc.owns])
    exact Pc.registerStore.inj hs ▸ h.word
  | registerStore state =>
    have hlt := h.registering i state hpc
    simp only [hpc, Pc.TakesFree] at hok ⊢
    split_ifs at hok ⊢ with hpos
    · exact h.acquire hok (by omega) (by omega)
    · -- the registration leaves the word negative, whatever it was
      have harb : (s.store i (state - 1) .registerPush).lock.arb = state - 1 :=
        i32_eq_self (by omega) (by omega)
      exact h.move rfl (by omega) (by simp) (by simp) (by simp [Pc.owns]) fun _ _ _ => by omega
  | registerPush =>
    exact h.move rfl h.word (by simp) (by simp) (by simp [Pc.owns]) fun j _ hj => h.held j hj
  | waiting =>
    cases hk : kind i with
    | task token => simpa only [hk] using inv_loadRetry h
    | thread =>
      split_ifs <;> exact h.goto (by simp) (by simp) (by simp [Pc.owns])
  | toRetry => exact inv_loadRetry h
  | retryStore state =>
    obtain ⟨hpos, hlt⟩ := h.retrying i state hpc
    simp only [hpc, Pc.TakesFree] at hok
    have hi : i32 (state - 1) = state - 1 := i32_eq_self (by omega) (by omega)
    exact h.acquire hok (by omega) (by omega)
  | holding =>
    simp only
    split_ifs
    · exact h.goto (by simp) (by simp) fun _ => by rw [hpc]; rfl
    · exact h.goto (by simp) (by simp) (by simp [Pc.owns])
  | unlockStore state =>
    -- the only owner gives the lock up
    refine h.move rfl (i32_lt _) (by simp) (by simp) (by simp [Pc.owns]) fun j hj ho => ?_
    exact absurd (h.unique j i ho (by rw [hpc]; rfl)) hj
  | unlockPop =>
    simp only
    split
    · exact h.goto (by simp) (by simp) (by simp [Pc.owns])
    · exact h.move rfl h.word (by simp) (by simp) (by simp [Pc.owns]) fun j _ hj => h.held j hj
  | unlockWake task => exact (inv_wakeWaiter h task).goto (by simp) (by simp) (by simp [Pc.owns])
  | blocked => exact h
  | released => exact h
  | dropped => exact h

theorem inv_reachable (h : (system kind).ReachableBy StillFree s) : Inv s := by
  refine h.invariant inv_init fun s l _ hi _ hok => ?_
  cases l with
  | act i j => exact inv_act hi j hok
  | drop i => exact hi.goto (by simp) (by simp) (by simp [Pc.owns])

end Invariant

/-- **At most one guard is live**, in every run in which each store that takes the lock finds it
still free and no registration wraps around. -/
theorem exclusive {kind : ι → Kind} {s : State ι} (h : (system kind).ReachableBy StillFree s) :
    ∀ i j, s.pc i = .holding → s.pc j = .holding → i = j := by
  intro i j hi hj
  exact (inv_reachable h).unique i j (by rw [hi]; rfl) (by rw [hj]; rfl)

/-- A task and a thread: the thread registers while the task has the lock, and gets it after the
task's `unlock`. -/
theorem exclusive_two : ∃ s : State (Fin 2),
    (system ![.task ⟨1⟩, .thread]).ReachableBy StillFree s ∧ s.pc 1 = .holding ∧
      ∀ i j, s.pc i = .holding → s.pc j = .holding → i = j := by
  obtain ⟨s, hs, hpc⟩ := LTS.exists_of_exec (system ![.task ⟨1⟩, .thread]) StillFree
    [.act 0 none, .act 0 none, .act 1 none, .act 1 none, .act 1 none, .act 0 none, .act 0 none,
      .act 1 none, .act 0 none, .act 0 none, .act 1 none, .act 1 none]
    (fun s : State (Fin 2) => s.pc 1 = .holding) (by decide)
  exact ⟨s, hs, hpc, exclusive hs⟩

/-- **Two guards are live.**  Both callers load the word of a free lock before either of them
stores, so both take it. -/
theorem both_hold : ¬ ∀ s : State (Fin 2), (system ![.task ⟨1⟩, .thread]).Reachable s →
    ∀ i j, s.pc i = .holding → s.pc j = .holding → i = j := by
  intro hall
  obtain ⟨s, hs, h₀, h₁⟩ := LTS.exists_of_exec (system ![.task ⟨1⟩, .thread]) (fun _ _ => True)
    [.act 0 none, .act 1 none, .act 0 none, .act 1 none]
    (fun s : State (Fin 2) => s.pc 0 = .holding ∧ s.pc 1 = .holding) (by decide)
  exact absurd (hall s hs 0 1 h₀ h₁) (by decide)

end Preemptive

end DSMutex

end BunnyDs
