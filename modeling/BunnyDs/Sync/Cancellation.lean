import BunnyDs.Sync.DsLock
import Mathlib.Data.Finset.Card

/-!
# Cancelled lock attempts

A `LockFut` has no `Drop`: one that is dropped while it is registered leaves its count in the word
and its token in the list of waiters.  To say what that changes, two runs are compared: the one in
which the future was polled and then dropped, and the one in which it was never polled, with the
same calls by the other users.

A user calls the methods of `DsLock` in a fixed order (`try_lock_and_register`, then
`try_lock_release_waiter` until it has the lock, then `unlock`), so a run is the list of the users
in the order of their calls, and cancelling a user is that it is not called any more
(`DSMutex.calls`).  Every state of `DSMutex.system` is reached by such a run (`exists_calls`).

The parity of the word is that of the number of registered users (`Parity`), through every method
and also when the word wraps around.  Hence the two runs never end with the same word while the
other users fare alike: `DSMutex.traceless_iff`.
-/

namespace BunnyDs

namespace DSMutex

/-- What a user has got so far. -/
inductive Stage where
  /-- It has made no call. -/
  | fresh
  /-- It is registered and has not got the lock. -/
  | waiting
  /-- Its guard is live. -/
  | holding
  /-- Its guard was dropped. -/
  | released
  deriving DecidableEq

/-- The lock and its users. -/
structure Users (ι : Type*) where
  lock : DsLock
  stage : ι → Stage

variable {ι : Type*}

/-- A new mutex. -/
def Users.new : Users ι := ⟨.new, fun _ => .fresh⟩

variable [DecidableEq ι]

/-- The next method that `i` calls. -/
def call (kind : ι → Kind) (u : Users ι) (i : ι) : Users ι :=
  match u.stage i with
  | .fresh =>
    let r := u.lock.tryLockAndRegister (kind i).token
    ⟨r.1, Function.update u.stage i (if r.2 then .holding else .waiting)⟩
  | .waiting =>
    let r := u.lock.tryLockReleaseWaiter
    ⟨r.1, Function.update u.stage i (if r.2 then .holding else .waiting)⟩
  | .holding => ⟨u.lock.unlock.1, Function.update u.stage i .released⟩
  | .released => u

/-- The calls of the users `is`, in this order. -/
def calls (kind : ι → Kind) (u : Users ι) (is : List ι) : Users ι := is.foldl (call kind) u

/-- The waiter that the next call of `i` wakes, if that call is an `unlock`. -/
def wakeOf (u : Users ι) (i : ι) : Option TaskToken :=
  match u.stage i with
  | .holding => u.lock.unlock.2
  | _ => none

/-- The wakes at each of the calls, those of the user `c` left out. -/
def wakesOfOthers (kind : ι → Kind) (c : ι) (u : Users ι) : List ι → List (Option TaskToken)
  | [] => []
  | i :: is =>
    ((wakeOf u i).filter (· ≠ (kind c).token)) :: wakesOfOthers kind c (call kind u i) is

/-- **Cancelling `c` leaves no trace.**  After the calls `hist` the future `c` is dropped, and the
calls `ops` follow.  At every point of them each other user has got what it would have got if `c`
had never made a call, the same other waiters are woken at each call, and in the end the word is
the same. -/
structure Traceless (kind : ι → Kind) (c : ι) (hist ops : List ι) : Prop where
  acquisitions : ∀ n, ∀ i, i ≠ c →
    (calls kind (calls kind .new hist) (ops.take n)).stage i =
      (calls kind (calls kind .new (hist.filter (· ≠ c))) (ops.take n)).stage i
  wakes : wakesOfOthers kind c (calls kind .new hist) ops =
    wakesOfOthers kind c (calls kind .new (hist.filter (· ≠ c))) ops
  word : (calls kind (calls kind .new hist) ops).lock.arb =
    (calls kind (calls kind .new (hist.filter (· ≠ c))) ops).lock.arb

/-! ### Runs of calls -/

section Calls

variable {kind : ι → Kind} {u : Users ι} {c i : ι} {is : List ι}

theorem calls_concat (is : List ι) (i : ι) :
    calls kind u (is ++ [i]) = call kind (calls kind u is) i := by
  simp [calls]

/-- A call changes nothing about the other users. -/
theorem call_stage_of_ne (h : c ≠ i) : (call kind u i).stage c = u.stage c := by
  unfold call
  cases u.stage i <;> simp [Function.update_of_ne h]

theorem calls_stage_of_not_mem (h : c ∉ is) : (calls kind u is).stage c = u.stage c := by
  induction is generalizing u with
  | nil => rfl
  | cons i is ih =>
    rw [List.mem_cons, not_or] at h
    rw [calls, List.foldl_cons, ← calls, ih h.2, call_stage_of_ne h.1]

/-- A user that has made a call is not fresh any more. -/
theorem call_stage_self (kind : ι → Kind) (u : Users ι) (i : ι) :
    (call kind u i).stage i ≠ .fresh := by
  unfold call
  cases hs : u.stage i with
  | released => simp [hs]
  | holding => simp
  | fresh => simp only [Function.update_self]; split_ifs <;> simp
  | waiting => simp only [Function.update_self]; split_ifs <;> simp

theorem call_stage_ne_fresh (h : u.stage c ≠ .fresh) (i : ι) :
    (call kind u i).stage c ≠ .fresh := by
  by_cases hi : c = i
  · exact hi ▸ call_stage_self kind u c
  · rwa [call_stage_of_ne hi]

theorem calls_stage_ne_fresh (h : u.stage c ≠ .fresh) (is : List ι) :
    (calls kind u is).stage c ≠ .fresh := by
  induction is generalizing u with
  | nil => exact h
  | cons i is ih => exact ih (call_stage_ne_fresh h i)

/-- A user that is fresh in the end has made no call. -/
theorem not_mem_of_fresh (h : (calls kind u is).stage c = .fresh) : c ∉ is := by
  intro hm
  obtain ⟨as, bs, rfl⟩ := List.append_of_mem hm
  rw [calls, List.foldl_append, List.foldl_cons, ← calls, ← calls] at h
  exact calls_stage_ne_fresh (call_stage_self kind _ c) bs h

end Calls

/-! ### The parity of the word -/

/-- The word has the parity of one more than the number of registered users. -/
def Parity (u : Users ι) : Prop :=
  ∃ W : Finset ι, (∀ i, i ∈ W ↔ u.stage i = .waiting) ∧ (u.lock.arb - W.card) % 2 = 1

section Parity

variable {kind : ι → Kind} {u : Users ι}

theorem i32_emod_two (x : ℤ) : i32 x % 2 = x % 2 := by
  unfold i32 Int.bmod
  simp only [Nat.cast_ofNat, Nat.cast_pow]
  split_ifs <;> omega

/-- A call after which the same users are registered, and the word has the same parity. -/
theorem Parity.same {u' : Users ι} {i : ι} {st : Stage} (h : Parity u)
    (hstage : u'.stage = Function.update u.stage i st) (hst : st ≠ .waiting)
    (hi : u.stage i ≠ .waiting) (hword : u'.lock.arb % 2 = u.lock.arb % 2) : Parity u' := by
  obtain ⟨W, hW, hp⟩ := h
  refine ⟨W, fun j => ?_, by omega⟩
  rw [hstage, Function.update_apply]
  split_ifs with hj
  · rw [hj, hW]
    exact iff_of_false hi hst
  · exact hW j

theorem parity_call (h : Parity u) (i : ι) : Parity (call kind u i) := by
  unfold call
  cases hs : u.stage i with
  | released => exact h
  | holding =>
    refine h.same rfl (by simp) (by simp [hs]) ?_
    simp only [DsLock.unlock]
    split_ifs
    · rw [i32_emod_two]
      omega
    · rfl
  | fresh =>
    by_cases hpos : 0 < u.lock.arb
    · simp only [DsLock.tryLockAndRegister, if_pos hpos]
      refine h.same rfl (by simp) (by simp [hs]) ?_
      rw [i32_emod_two]
      omega
    · -- one more user is registered
      obtain ⟨W, hW, hp⟩ := h
      have hi : i ∉ W := by simp [hW, hs]
      simp only [DsLock.tryLockAndRegister, if_neg hpos]
      refine ⟨insert i W, fun j => ?_, ?_⟩
      · by_cases hj : j = i
        · simp [hj]
        · simp [hj, hW]
      · rw [Finset.card_insert_of_notMem hi]
        have := i32_emod_two (u.lock.arb - 1)
        push_cast
        omega
  | waiting =>
    by_cases hpos : 0 < u.lock.arb
    · -- one user less is registered
      obtain ⟨W, hW, hp⟩ := h
      have hi : i ∈ W := by rw [hW, hs]
      simp only [DsLock.tryLockReleaseWaiter, if_pos hpos]
      refine ⟨W.erase i, fun j => ?_, ?_⟩
      · by_cases hj : j = i
        · simp [hj]
        · simp [hj, hW]
      · have hcard := Finset.card_erase_add_one hi
        have h₁ := i32_emod_two (-i32 (u.lock.arb - 1))
        have h₂ := i32_emod_two (u.lock.arb - 1)
        change (i32 (-i32 (u.lock.arb - 1)) - _) % 2 = 1
        omega
    · have hsame : Function.update u.stage i .waiting = u.stage := by
        rw [← hs, Function.update_eq_self]
      simpa [DsLock.tryLockReleaseWaiter, hpos, hsame] using h

theorem parity_calls (h : Parity u) (is : List ι) : Parity (calls kind u is) := by
  induction is generalizing u with
  | nil => exact h
  | cons i is ih => exact ih (parity_call h i)

omit [DecidableEq ι] in
theorem parity_new : Parity (.new : Users ι) :=
  ⟨∅, by simp [Users.new], by simp [Users.new, DsLock.new]⟩

/-- One registered user more, and the word is another one. -/
theorem Parity.arb_ne {u' : Users ι} {c : ι} (h : Parity u) (h' : Parity u')
    (hc : u.stage c = .waiting) (hc' : u'.stage c ≠ .waiting)
    (hsame : ∀ i, i ≠ c → u.stage i = u'.stage i) : u.lock.arb ≠ u'.lock.arb := by
  obtain ⟨W, hW, hp⟩ := h
  obtain ⟨W', hW', hp'⟩ := h'
  have hins : W = insert c W' := by
    ext i
    by_cases hi : i = c
    · simp [hi, hW, hc]
    · simp [hi, hW, hW', hsame i hi]
  have hcard : W.card = W'.card + 1 := by
    rw [hins, Finset.card_insert_of_notMem (by simpa [hW'] using hc')]
  omega

end Parity

/-! ### States of the mutex as runs of calls -/

/-- What an attempt has got so far; a dropped one is a user that is not called any more. -/
def Phase.stage : Phase → Stage
  | .fresh => .fresh
  | .pending | .polling | .toWait | .blocked | .toRetry | .dropped => .waiting
  | .holding => .holding
  | .released => .released

/-- The run `is` of calls has led to the lock of `s` and to where its attempts are. -/
def RunOf (kind : ι → Kind) (s : State ι) (is : List ι) : Prop :=
  calls kind .new is = ⟨s.lock, fun i => (s.phase i).stage⟩

section

variable {kind : ι → Kind} {s : State ι} {is : List ι} {i : ι}

/-- An attempt moves within its stage. -/
theorem RunOf.stay {s' : State ι} (h : RunOf kind s is) (hlock : s'.lock = s.lock)
    (hph : ∀ j, (s'.phase j).stage = (s.phase j).stage) : RunOf kind s' is := by
  rw [RunOf, h, hlock]
  simp only [hph]

theorem stage_update (s : State ι) (i : ι) (ph : Phase) :
    (fun j => (Function.update s.phase i ph j).stage) =
      Function.update (fun j => (s.phase j).stage) i ph.stage := by
  funext j
  by_cases hj : j = i
  · simp [hj]
  · simp [Function.update_of_ne hj]

theorem RunOf.register (h : RunOf kind s is) (hph : s.phase i = .fresh) {wait : Phase}
    (hwait : wait.stage = .waiting) : RunOf kind (register kind s i wait) (is ++ [i]) := by
  have hst : (s.phase i).stage = .fresh := by rw [hph]; rfl
  rw [RunOf, calls_concat, h]
  simp only [call, hst, DSMutex.register, stage_update]
  split_ifs
  · rfl
  · rw [hwait]

theorem RunOf.retry (h : RunOf kind s is) (hph : (s.phase i).stage = .waiting) {wait : Phase}
    (hwait : wait.stage = .waiting) : RunOf kind (retry s i wait) (is ++ [i]) := by
  rw [RunOf, calls_concat, h]
  simp only [call, hph, DSMutex.retry, stage_update]
  split_ifs
  · rfl
  · rw [hwait]

theorem RunOf.release (h : RunOf kind s is) (hph : s.phase i = .holding) {j : Option ι}
    (hj : CanSignal s j) : RunOf kind (release s i j) (is ++ [i]) := by
  have hst : (s.phase i).stage = .holding := by rw [hph]; rfl
  have hfreed : RunOf kind
      { s with lock := s.lock.unlock.1, phase := Function.update s.phase i .released }
      (is ++ [i]) := by
    rw [RunOf, calls_concat, h]
    simp only [call, hst, stage_update]
    rfl
  simp only [DSMutex.release]
  split
  · exact hfreed
  · split_ifs
    · cases j with
      | none => exact hfreed
      | some j =>
        -- the thread that the kernel unblocks is still waiting
        refine hfreed.stay rfl fun k => ?_
        have hblocked : s.phase j = .blocked := hj
        have hne : j ≠ i := by
          rintro rfl
          rw [hph] at hblocked
          cases hblocked
        by_cases hk : k = j
        · subst hk
          simp [signalOne, Function.update_of_ne hne, hblocked, Phase.stage]
        · simp [signalOne, Function.update_of_ne hk]
    · exact hfreed.stay rfl fun _ => rfl

/-- **Every state of a mutex is reached by a run of calls**, a dropped attempt being a user that
makes no further call. -/
theorem exists_calls (h : (system kind).Reachable s) : ∃ is, RunOf kind s is := by
  induction h with
  | init => exact ⟨[], rfl⟩
  | @step s l _ hen _ ih =>
    obtain ⟨is, ih⟩ := ih
    cases l with
    | poll i =>
      simp only [system, fire]
      split_ifs with hph
      · exact ⟨_, ih.register hph rfl⟩
      · have hen : s.phase i ∈ [.fresh, .pending, .polling] := hen.2
        refine ⟨_, ih.retry (i := i) ?_ rfl⟩
        simp only [List.mem_cons, List.not_mem_nil, or_false, hph, false_or] at hen
        rcases hen with he | he <;> rw [he] <;> rfl
    | lockSync i => exact ⟨_, ih.register hen.2 rfl⟩
    | wait i =>
      refine ⟨is, ih.stay rfl fun j => ?_⟩
      have hen : s.phase i = .toWait := hen
      by_cases hj : j = i
      · subst hj
        simp only [system, fire, Function.update_self, hen]
        split_ifs <;> rfl
      · simp [system, fire, Function.update_of_ne hj]
    | retry i =>
      have hen : s.phase i = .toRetry := hen
      exact ⟨_, ih.retry (by rw [hen]; rfl) rfl⟩
    | unlock i j => exact ⟨_, ih.release hen.1 hen.2⟩
    | wake token => exact ⟨is, ih.stay rfl fun _ => rfl⟩
    | run =>
      simp only [system, fire]
      split
      · refine ⟨is, ih.stay rfl fun j => ?_⟩
        simp only [startPoll]
        split_ifs with hp
        · rw [hp.1]
          rfl
        · rfl
      · exact ⟨is, ih⟩
    | drop i =>
      refine ⟨is, ih.stay rfl fun j => ?_⟩
      have hen : s.phase i ∈ [.pending, .polling] := hen
      by_cases hj : j = i
      · subst hj
        simp only [system, fire, Function.update_self]
        simp only [List.mem_cons, List.not_mem_nil, or_false] at hen
        rcases hen with he | he <;> rw [he] <;> rfl
      · simp [system, fire, Function.update_of_ne hj]

end

/-! ### The trace of a cancelled attempt -/

/-- A future that is dropped while it is registered leaves a trace. -/
theorem not_traceless {kind : ι → Kind} {c : ι} {hist ops : List ι} (hops : c ∉ ops)
    (hc : (calls kind .new hist).stage c = .waiting) : ¬ Traceless kind c hist ops := by
  intro ht
  have hnever : (calls kind .new (hist.filter (· ≠ c))).stage c = .fresh :=
    calls_stage_of_not_mem (by simp)
  refine Parity.arb_ne (c := c) (parity_calls (parity_calls parity_new _) _)
    (parity_calls (parity_calls parity_new _) _) ?_ ?_ (fun i hi => ?_) ht.word
  · rw [calls_stage_of_not_mem hops, hc]
  · rw [calls_stage_of_not_mem hops, hnever]
    exact Stage.noConfusion
  · simpa using ht.acquisitions ops.length i hi

/-- A future that was never polled leaves none. -/
theorem traceless_of_fresh {kind : ι → Kind} {c : ι} {hist : List ι}
    (hc : (calls kind .new hist).stage c = .fresh) (ops : List ι) :
    Traceless kind c hist ops := by
  have hsame : hist.filter (· ≠ c) = hist := by
    rw [List.filter_eq_self]
    intro i hi
    have hne : i ≠ c := fun he => not_mem_of_fresh hc (he ▸ hi)
    simpa using hne
  exact ⟨fun _ _ _ => by rw [hsame], by rw [hsame], by rw [hsame]⟩

/-- **A registered `LockFut` always leaves a trace.**  A future that is dropped before it got the
lock leaves no trace exactly if it was never polled: if it is registered, then whatever came before
and whatever the other users do later, either they fare differently, or the word ends up
different.  In particular there is a trace of every pending future in every state of a mutex. -/
theorem traceless_iff (kind : ι → Kind) :
    (∀ c hist ops, c ∉ ops →
      (calls kind .new hist).stage c = .fresh ∨ (calls kind .new hist).stage c = .waiting →
      (Traceless kind c hist ops ↔ (calls kind .new hist).stage c = .fresh)) ∧
    ∀ s, (system kind).Reachable s → ∃ hist, RunOf kind s hist ∧
      ∀ c ops, (s.phase c).registered = true → c ∉ ops → ¬ Traceless kind c hist ops := by
  refine ⟨fun c hist ops hops hc => ⟨fun ht => ?_, fun hf => traceless_of_fresh hf ops⟩,
    fun s hs => ?_⟩
  · exact hc.resolve_right fun hw => not_traceless hops hw ht
  · obtain ⟨hist, hrun⟩ := exists_calls hs
    refine ⟨hist, hrun, fun c ops hreg hops => not_traceless hops ?_⟩
    have hst : (calls kind .new hist).stage c = (s.phase c).stage := by rw [hrun]
    rw [hst]
    cases hph : s.phase c <;> rw [hph] at hreg <;> first | rfl | cases hreg

/-- User 1 is dropped while two others use the lock: without a poll, and after one. -/
theorem traceless_iff_three :
    Traceless ![.task ⟨1⟩, .task ⟨2⟩, .thread] (1 : Fin 3) [0, 2] [0, 2, 2] ∧
    ¬ Traceless ![.task ⟨1⟩, .task ⟨2⟩, .thread] (1 : Fin 3) [0, 1, 2] [0, 2, 2] := by
  obtain ⟨hiff, -⟩ := traceless_iff (![.task ⟨1⟩, .task ⟨2⟩, .thread] : Fin 3 → Kind)
  refine ⟨(hiff 1 [0, 2] [0, 2, 2] (by decide) (by decide)).2 (by decide), fun ht => ?_⟩
  exact absurd ((hiff 1 [0, 1, 2] [0, 2, 2] (by decide) (by decide)).1 ht) (by decide)

/-- **A cancelled future takes the wake of a live waiter.**  User 0 has the lock, 1 and then 2
register, and 1 is dropped.  The `unlock` of user 0 wakes the dropped future, where it would have
woken user 2, and the word stays one too large. -/
theorem leaves_trace :
    (calls ![.task ⟨1⟩, .task ⟨2⟩, .task ⟨3⟩] .new [0, 1, 2]).stage (1 : Fin 3) = .waiting ∧
    wakesOfOthers ![.task ⟨1⟩, .task ⟨2⟩, .task ⟨3⟩] (1 : Fin 3)
      (calls ![.task ⟨1⟩, .task ⟨2⟩, .task ⟨3⟩] .new [0, 1, 2]) [0] = [none] ∧
    wakesOfOthers ![.task ⟨1⟩, .task ⟨2⟩, .task ⟨3⟩] (1 : Fin 3)
      (calls ![.task ⟨1⟩, .task ⟨2⟩, .task ⟨3⟩] .new [0, 2]) [0] = [some ⟨3⟩] ∧
    (calls ![.task ⟨1⟩, .task ⟨2⟩, .task ⟨3⟩] (.new : Users (Fin 3)) [0, 1, 2, 0]).lock.arb = 3 ∧
    (calls ![.task ⟨1⟩, .task ⟨2⟩, .task ⟨3⟩] (.new : Users (Fin 3)) [0, 2, 0]).lock.arb = 2 ∧
    ¬ Traceless ![.task ⟨1⟩, .task ⟨2⟩, .task ⟨3⟩] (1 : Fin 3) [0, 1, 2] [0] := by
  refine ⟨by decide, by decide, by decide, by decide, by decide, fun ht => ?_⟩
  exact absurd ht.word (by decide)

end DSMutex

end BunnyDs
