import BunnyDs.Sync.DsLock

/-!
# Lost wakeups of `DSMutex`

`unlock` takes the front waiter off the list and wakes it, but the woken party competes for the
free lock with newcomers.  A party that loses this race goes back to waiting **without an entry in
the list**, and the next `unlock` finds nobody to wake: `DSMutex.wakeup_lost`.

That is the only way to lose a wakeup.  Call a registered party *parked* when it can only be moved
by somebody else: its task is neither queued for a wake nor being polled, or its thread is blocked
in the arbiter.  As long as every party that goes back to waiting still has an entry of its own
(`DSMutex.KeepsEntry`), the parked parties match entries of the list one to one
(`DSMutex.Covered`), a free lock with a non-empty list is owed to more parties than the list has
entries, and so one of them is not parked: `DSMutex.wakeup_not_lost`.
-/

namespace BunnyDs

namespace DSMutex

open Finset

variable {ι : Type*} [DecidableEq ι]

/-- The party can still move by itself: its task's token is in `WAKE_QUEUE` or the task is being
polled, or its thread is not blocked in the arbiter wait. -/
def CanProgress (kind : ι → Kind) (s : State ι) (i : ι) : Prop :=
  s.phase i = .pending ∧ (kind i).token ∈ s.wakeQueue.vals ∨
    s.phase i ∈ [.polling, .toWait, .toRetry]

instance (kind : ι → Kind) (s : State ι) (i : ι) : Decidable (CanProgress kind s i) :=
  inferInstanceAs (Decidable (_ ∨ _))

/-- **No wakeup is lost**: while the lock is free and somebody registered for it, some registered
party can still make progress. -/
def WakeupNotLost (kind : ι → Kind) (s : State ι) : Prop :=
  0 < s.lock.arb → (∃ i, (s.phase i).registered = true) →
    ∃ i, (s.phase i).registered = true ∧ CanProgress kind s i

instance [Fintype ι] (kind : ι → Kind) (s : State ι) : Decidable (WakeupNotLost kind s) :=
  inferInstanceAs (Decidable (_ → _ → _))

/-- No `LockFut` is dropped while it is pending. -/
def NoDrop (_ : State ι) : Label ι → Prop
  | .drop _ => False
  | _ => True

instance (s : State ι) (l : Label ι) : Decidable (NoDrop s l) :=
  match l with
  | .drop _ => inferInstanceAs (Decidable False)
  | .poll _ | .lockSync _ | .wait _ | .retry _ | .unlock _ _ | .wake _ | .run =>
    inferInstanceAs (Decidable True)

/-- The party waits for somebody else to move it. -/
def Parked (kind : ι → Kind) (s : State ι) (i : ι) : Prop :=
  s.phase i = .pending ∧ (kind i).token ∉ s.wakeQueue.vals ∨ s.phase i = .blocked

instance (kind : ι → Kind) (s : State ι) (i : ι) : Decidable (Parked kind s i) :=
  inferInstanceAs (Decidable (_ ∨ _))

variable [Fintype ι]

/-- The parked parties that registered with `token`. -/
def parkedWith (kind : ι → Kind) (s : State ι) (token : TaskToken) : Finset ι :=
  univ.filter fun i => Parked kind s i ∧ (kind i).token = token

/-- The list has an entry left for `i`: more entries with its token than other parties that are
parked with this token. -/
def HasEntry (kind : ι → Kind) (s : State ι) (i : ι) : Prop :=
  ((parkedWith kind s (kind i).token).erase i).card < s.lock.waiters.count (kind i).token

instance (kind : ι → Kind) (s : State ι) (i : ι) : Decidable (HasEntry kind s i) :=
  inferInstanceAs (Decidable (_ < _))

/-- **Every party that waits keeps an entry.**  A registered party that finds the lock held and
goes back to waiting has an entry in the list, or a wake on its way; a task does not register with
the token that marks threads, and a registration leaves room in the word. -/
def KeepsEntry (kind : ι → Kind) (s : State ι) : Label ι → Prop
  | .poll i => s.lock.arb ≤ 0 →
      if s.phase i = .fresh then (kind i).token ≠ ⟨u32Max⟩ ∧ -(2 ^ 31 - 1) < s.lock.arb
      else (kind i).token ∈ s.wakeQueue.vals ∨ HasEntry kind s i
  | .lockSync _ => s.lock.arb ≤ 0 → -(2 ^ 31 - 1) < s.lock.arb
  | .wait i => s.lock.arb < 0 → HasEntry kind s i
  | .drop _ => False
  | _ => True

/-- The parked parties are matched with entries of the list. -/
def Covered (kind : ι → Kind) (s : State ι) : Prop :=
  ∀ token, (parkedWith kind s token).card ≤ s.lock.waiters.count token

section Covered

variable {kind : ι → Kind} {s s' : State ι} {i : ι}

omit [DecidableEq ι] in
theorem mem_parkedWith {token : TaskToken} :
    i ∈ parkedWith kind s token ↔ Parked kind s i ∧ (kind i).token = token := by
  simp [parkedWith]

omit [DecidableEq ι] in
/-- Nobody new is parked, and no entry is lost. -/
theorem Covered.mono (h : Covered kind s) (hp : ∀ j, Parked kind s' j → Parked kind s j)
    (hw : ∀ token, s.lock.waiters.count token ≤ s'.lock.waiters.count token) :
    Covered kind s' := fun token => by
  have hsub : parkedWith kind s' token ⊆ parkedWith kind s token := fun j hj => by
    rw [mem_parkedWith] at hj ⊢
    exact ⟨hp j hj.1, hj.2⟩
  exact (card_le_card hsub).trans ((h token).trans (hw token))

/-- Only `i` is newly parked, and it has an entry. -/
theorem Covered.park (h : Covered kind s) (hp : ∀ j, j ≠ i → Parked kind s' j → Parked kind s j)
    (hw : ∀ token, s.lock.waiters.count token ≤ s'.lock.waiters.count token)
    (hi : ((parkedWith kind s (kind i).token).erase i).card <
      s'.lock.waiters.count (kind i).token) : Covered kind s' := fun token => by
  by_cases ht : (kind i).token = token
  · subst ht
    have hsub : parkedWith kind s' (kind i).token ⊆
        insert i ((parkedWith kind s (kind i).token).erase i) := fun j hj => by
      rw [mem_parkedWith] at hj
      by_cases hji : j = i
      · exact hji ▸ mem_insert_self _ _
      · exact mem_insert_of_mem (mem_erase.2 ⟨hji, mem_parkedWith.2 ⟨hp j hji hj.1, hj.2⟩⟩)
    have := (card_le_card hsub).trans (card_insert_le _ _)
    omega
  · have hsub : parkedWith kind s' token ⊆ parkedWith kind s token := fun j hj => by
      rw [mem_parkedWith] at hj ⊢
      refine ⟨hp j ?_ hj.1, hj.2⟩
      rintro rfl
      exact ht hj.2
    exact (card_le_card hsub).trans ((h token).trans (hw token))

omit [DecidableEq ι] in
/-- The front entry is taken off the list and one party parked with its token is woken, if there
is any. -/
theorem Covered.pop {token : TaskToken} {rest : List TaskToken} (h : Covered kind s)
    (hs : s.lock.waiters = token :: rest) (hs' : s'.lock.waiters = rest)
    (hp : ∀ j, Parked kind s' j → Parked kind s j)
    (hwake : (parkedWith kind s' token = ∅) ∨
      ∃ j, j ∈ parkedWith kind s token ∧ j ∉ parkedWith kind s' token) : Covered kind s' := by
  intro u
  have hsub : ∀ u, parkedWith kind s' u ⊆ parkedWith kind s u := fun u j hj => by
    rw [mem_parkedWith] at hj ⊢
    exact ⟨hp j hj.1, hj.2⟩
  have hu := h u
  rw [hs] at hu
  rw [hs']
  by_cases hut : token = u
  · subst hut
    rw [List.count_cons_self] at hu
    rcases hwake with he | ⟨j, hj, hj'⟩
    · rw [he]; simp
    · have := card_lt_card (Finset.ssubset_iff_subset_ne.2 ⟨hsub token, fun he => hj' (he ▸ hj)⟩)
      omega
  · rw [List.count_cons_of_ne hut] at hu
    exact (card_le_card (hsub u)).trans hu

end Covered

/-! ### The invariant -/

/-- Places a party of this kind can be at, when nobody drops a pending future and no task
registers with the token that marks threads. -/
def Phase.Suits (k : Kind) : Phase → Prop
  | .pending | .polling => k.token ≠ ⟨u32Max⟩
  | .toWait | .blocked | .toRetry => k.token = ⟨u32Max⟩
  | .dropped => False
  | _ => True

/-- **The wakeup invariant.**  Besides the counter: the parked parties have entries of their own;
while the lock is held the list has at most one entry for each party that is owed the lock, and
while it is free fewer, since `unlock` took one off. -/
structure WakeInv (kind : ι → Kind) (s : State ι) : Prop where
  inv : Inv s
  suits : ∀ i, (s.phase i).Suits (kind i)
  covered : Covered kind s
  held : s.lock.arb < 0 → (s.lock.waiters.length : ℤ) < -s.lock.arb
  free : 0 < s.lock.arb → s.lock.waiters = [] ∨ (s.lock.waiters.length : ℤ) + 1 < s.lock.arb

section WakeInv

variable {kind : ι → Kind} {s : State ι} {i : ι}

theorem wakeInv_init : WakeInv kind (system kind).init where
  inv := inv_init
  suits _ := trivial
  covered token := by
    have he : parkedWith kind (system kind).init token = ∅ := by
      simp [parkedWith, Parked, system]
    rw [he, card_empty]
    exact Nat.zero_le _
  held h := absurd h (by simp [system, DsLock.new])
  free _ := .inl rfl

omit [Fintype ι] in
theorem suits_update {p : Phase} (h : ∀ j, (s.phase j).Suits (kind j)) (hi : p.Suits (kind i))
    (j : ι) : (Function.update s.phase i p j).Suits (kind j) := by
  by_cases hj : j = i
  · subst hj
    rwa [Function.update_self]
  · rw [Function.update_of_ne hj]
    exact h j

omit [DecidableEq ι] [Fintype ι] in
/-- A party that stays where it is does not get parked by wakes. -/
theorem Parked.of_phase {s' : State ι} (h : Parked kind s' i) (hph : s'.phase i = s.phase i)
    (hq : s.wakeQueue.vals ⊆ s'.wakeQueue.vals) : Parked kind s i := by
  unfold Parked at h ⊢
  rw [hph] at h
  rcases h with ⟨hi, hmem⟩ | hi
  · exact .inl ⟨hi, fun hm => hmem (hq hm)⟩
  · exact .inr hi

omit [Fintype ι] in
/-- A move of `i` parks nobody else. -/
theorem parked_of_update {ph : Phase} {l : DsLock} {n : ℕ} {j : ι} (hj : j ≠ i)
    (h : Parked kind ⟨l, s.wakeQueue, Function.update s.phase i ph, n⟩ j) : Parked kind s j :=
  h.of_phase (Function.update_of_ne hj _ _) (List.Subset.refl _)

omit [Fintype ι] in
/-- A move of `i` to a place that is not parked parks nobody. -/
theorem parked_of_update_awake {ph : Phase} {l : DsLock} {n : ℕ}
    (hi : ¬ Parked kind ⟨l, s.wakeQueue, Function.update s.phase i ph, n⟩ i) (j : ι)
    (h : Parked kind ⟨l, s.wakeQueue, Function.update s.phase i ph, n⟩ j) : Parked kind s j := by
  refine parked_of_update (fun hj => ?_) h
  exact hi (hj ▸ h)

omit [Fintype ι] in
theorem not_parked_update_holding {l : DsLock} {n : ℕ} :
    ¬ Parked kind ⟨l, s.wakeQueue, Function.update s.phase i .holding, n⟩ i := by
  simp [Parked]

/-- The free lock is taken: nobody is parked by it, and the list is no longer than before. -/
theorem wakeInv_take (h : WakeInv kind s) {m n : ℕ} (hw : s.lock.arb = DsLock.word false n)
    (hn : n ≤ m + 1) (hinv : Inv { s with
      lock := { s.lock with arb := DsLock.word true m }
      phase := Function.update s.phase i .holding }) :
    WakeInv kind { s with
      lock := { s.lock with arb := DsLock.word true m }
      phase := Function.update s.phase i .holding } := by
  have hfree := h.free (by rw [hw, DsLock.word_free]; omega)
  refine ⟨hinv, suits_update h.suits trivial, ?_, fun _ => ?_, fun hpos => ?_⟩
  · exact h.covered.mono (parked_of_update_awake not_parked_update_holding) fun _ => le_rfl
  · simp only [DsLock.word_held]
    rw [hw, DsLock.word_free] at hfree
    rcases hfree with hnil | hlt
    · simp [hnil]
    · omega
  · simp only [DsLock.word_held] at hpos
    omega

/-- A first attempt: the lock is taken, or the party and its entry are new. -/
theorem wakeInv_register (h : WakeInv kind s) (hi : s.phase i = .fresh) {wait : Phase}
    (howed : wait.owed = true) (hholds : wait.holds = false)
    (hsuits : s.lock.arb ≤ 0 → wait.Suits (kind i))
    (hfit : s.lock.arb ≤ 0 → -(2 ^ 31 - 1) < s.lock.arb) :
    WakeInv kind (register kind s i wait) := by
  have hinv : Inv (register kind s i wait) := inv_register h.inv hi howed hholds hfit
  obtain ⟨held, -, hw, hs, -⟩ := h.inv
  cases held with
  | true =>
    have hroom : cnt Phase.owed s.phase + 2 < 2 ^ 31 := by
      rw [hw, DsLock.word_held] at hfit
      omega
    have hneg : s.lock.arb < 0 := hw ▸ DsLock.word_neg_iff.2 rfl
    have hheld := h.held hneg
    rw [register_of_held hw hroom] at hinv ⊢
    refine ⟨hinv, suits_update h.suits (hsuits hneg.le), ?_, fun _ => ?_, fun hpos => ?_⟩
    · refine h.covered.park (i := i) (fun j hj => parked_of_update hj) (fun token => ?_) ?_
      · rw [List.count_append]
        exact Nat.le_add_right _ _
      · have := (card_erase_le (a := i)).trans (h.covered (kind i).token)
        rw [List.count_append, List.count_singleton_self]
        omega
    · rw [hw, DsLock.word_held] at hheld
      simp only [List.length_append, List.length_singleton, DsLock.word_held]
      omega
    · simp only [DsLock.word_held] at hpos
      omega
  | false =>
    rw [register_of_free hw hs] at hinv ⊢
    exact wakeInv_take h hw (Nat.le_succ _) hinv

/-- A registered party moves and stays registered; if it is parked now, it has an entry. -/
theorem wakeInv_move (h : WakeInv kind s) (hi : (s.phase i).registered = true) {ph : Phase}
    (hreg : ph.registered = true) (hsuits : ph.Suits (kind i))
    (hentry : ¬ Parked kind { s with phase := Function.update s.phase i ph } i ∨
      HasEntry kind s i) :
    WakeInv kind { s with phase := Function.update s.phase i ph } := by
  have howed : (s.phase i).owed = ph.owed :=
    (Phase.owed_of_registered hi).trans (Phase.owed_of_registered hreg).symm
  have hholds : (s.phase i).holds = ph.holds :=
    (Phase.not_holds_of_registered hi).trans (Phase.not_holds_of_registered hreg).symm
  refine ⟨h.inv.of_move howed hholds, suits_update h.suits hsuits, ?_, h.held, h.free⟩
  rcases hentry with hawake | hentry
  · exact h.covered.mono (parked_of_update_awake hawake) fun _ => le_rfl
  · exact h.covered.park (fun j hj => parked_of_update hj) (fun _ => le_rfl) hentry

/-- A later attempt: the lock is taken, or the party goes back to waiting. -/
theorem wakeInv_retry (h : WakeInv kind s) (hi : (s.phase i).registered = true) {wait : Phase}
    (hreg : wait.registered = true) (hsuits : wait.Suits (kind i))
    (hentry : s.lock.arb ≤ 0 →
      ¬ Parked kind { s with phase := Function.update s.phase i wait } i ∨ HasEntry kind s i) :
    WakeInv kind (retry s i wait) := by
  have hio := Phase.owed_of_registered hi
  have hinv : Inv (retry s i wait) :=
    inv_retry h.inv hi (Phase.owed_of_registered hreg) (Phase.not_holds_of_registered hreg)
  obtain ⟨held, -, hw, hs, -⟩ := h.inv
  cases held with
  | true =>
    rw [retry_of_held hw]
    exact wakeInv_move h hi hreg hsuits (hentry (by rw [hw, DsLock.word_held]; omega))
  | false =>
    obtain ⟨n, hn⟩ : ∃ n, cnt Phase.owed s.phase = n + 1 :=
      Nat.exists_eq_succ_of_ne_zero (cnt_pos_iff.2 ⟨i, hio⟩).ne'
    rw [hn] at hw hs
    rw [retry_of_free hw hs] at hinv ⊢
    exact wakeInv_take h hw le_rfl hinv

omit [Fintype ι] in
/-- Dropping a guard parks nobody. -/
theorem parked_of_freed {n : ℕ} (j : ι) (h : Parked kind (freed s i n) j) : Parked kind s j :=
  parked_of_update_awake (i := i) (by simp [Parked]) j h

/-- The signalled thread takes the entry of a thread with it.  If no thread is blocked, nobody is
parked with the token of threads: tasks are pending with their own. -/
theorem covered_signal {rest : List TaskToken} {j : Option ι} {n : ℕ} (h : WakeInv kind s)
    (hlist : s.lock.waiters = ⟨u32Max⟩ :: rest) (hj : CanSignal s j) :
    Covered kind (signalOne (freed s i n) j) := by
  have hrest : (freed s i n).lock.waiters = rest := by
    simp only [freed, hlist, List.tail_cons]
  cases j with
  | none =>
    refine h.covered.pop hlist hrest parked_of_freed (.inl ?_)
    refine eq_empty_of_forall_notMem fun k hk => ?_
    obtain ⟨hp, htok⟩ := mem_parkedWith.1 hk
    have hp := parked_of_freed k hp
    have hk := h.suits k
    rcases hp with ⟨hph, -⟩ | hph
    · rw [hph] at hk
      exact hk htok
    · exact hj k hph
  | some j =>
    have hj : s.phase j = .blocked := hj
    have htok : (kind j).token = ⟨u32Max⟩ := by
      have := h.suits j
      rwa [hj] at this
    refine h.covered.pop hlist hrest (fun k hk => ?_) (.inr ⟨j, ?_, ?_⟩)
    · exact parked_of_freed k (parked_of_update_awake (by simp [Parked]) k hk)
    · exact mem_parkedWith.2 ⟨.inr hj, htok⟩
    · simp [mem_parkedWith, Parked, signalOne]

/-- Nobody is parked with the token that was just queued for a wake. -/
theorem covered_wake {token : TaskToken} {rest : List TaskToken} {n : ℕ} (h : WakeInv kind s)
    (hlist : s.lock.waiters = token :: rest) (htoken : token ≠ ⟨u32Max⟩) :
    Covered kind { freed s i n with wakeQueue := s.wakeQueue.add token } := by
  have hrest : (freed s i n).lock.waiters = rest := by
    simp only [freed, hlist, List.tail_cons]
  refine h.covered.pop hlist hrest (fun k hk => ?_) (.inl ?_)
  · refine parked_of_freed (n := n) k (hk.of_phase rfl ?_)
    simp [freed]
  · refine eq_empty_of_forall_notMem fun k hk => ?_
    obtain ⟨hp, htok⟩ := mem_parkedWith.1 hk
    have hk := suits_update (i := i) (p := .released) h.suits trivial k
    rcases hp with ⟨-, hmem⟩ | hph
    · simp [htok] at hmem
    · rw [show Function.update s.phase i .released k = .blocked from hph] at hk
      exact htoken (htok.symm.trans hk)

omit [DecidableEq ι] in
/-- The lock was freed and there are fewer entries than parties owed the lock. -/
theorem wakeInv_of_free {s' : State ι} {n : ℕ} (hinv : Inv s')
    (hsuits : ∀ k, (s'.phase k).Suits (kind k)) (hcov : Covered kind s')
    (hlock : s'.lock = ⟨DsLock.word false n, s.lock.waiters.tail⟩)
    (hlen : s.lock.waiters.length ≤ n) : WakeInv kind s' := by
  refine ⟨hinv, hsuits, hcov, fun hneg => ?_, fun _ => ?_⟩
  · simp only [hlock, DsLock.word_free] at hneg
    omega
  · simp only [hlock, DsLock.word_free]
    cases hlist : s.lock.waiters with
    | nil => exact .inl rfl
    | cons token rest =>
      rw [hlist, List.length_cons] at hlen
      exact .inr (by rw [List.tail_cons]; omega)

/-- `unlock`: the front waiter loses its entry, and is no longer parked. -/
theorem wakeInv_release (h : WakeInv kind s) (hi : s.phase i = .holding) {j : Option ι}
    (hj : CanSignal s j) : WakeInv kind (release s i j) := by
  have hinv := inv_release h.inv hi hj
  have hneg : s.lock.arb < 0 := h.inv.neg_iff.2 ⟨i, by rw [hi]; rfl⟩
  have hheld := h.held hneg
  obtain ⟨held, -, hw, hs, -⟩ := h.inv
  obtain rfl : held = true := DsLock.word_neg_iff.1 (hw ▸ hneg)
  have hlen : s.lock.waiters.length ≤ cnt Phase.owed s.phase := by
    rw [hw, DsLock.word_held] at hheld
    omega
  have hsuits := suits_update (i := i) (p := .released) h.suits trivial
  cases hlist : s.lock.waiters with
  | nil =>
    rw [release_of_nil hw hs hlist] at hinv ⊢
    refine wakeInv_of_free hinv hsuits (h.covered.mono parked_of_freed fun token => ?_) rfl hlen
    rw [hlist]
    exact Nat.zero_le _
  | cons token rest =>
    rw [release_of_cons hw hs hlist] at hinv ⊢
    split_ifs at hinv ⊢ with htoken
    · -- the front entry belongs to the threads: the kernel picks one of them
      have hcov := covered_signal (i := i) (n := cnt Phase.owed s.phase) h (htoken ▸ hlist) hj
      cases j with
      | none => exact wakeInv_of_free hinv hsuits hcov rfl hlen
      | some j =>
        have hsuit : (s.phase j).Suits (kind j) := h.suits j
        rw [show s.phase j = .blocked from hj] at hsuit
        exact wakeInv_of_free hinv (suits_update hsuits hsuit) hcov rfl hlen
    · exact wakeInv_of_free hinv hsuits (covered_wake h hlist htoken) rfl hlen

omit [DecidableEq ι] in
/-- The executor takes a token from `WAKE_QUEUE`: its pending futures are being polled. -/
theorem wakeInv_run (h : WakeInv kind s) {token : TaskToken}
    (hback : s.wakeQueue.back? = some token) : WakeInv kind (startPoll kind s token) := by
  refine ⟨inv_run h.inv token, fun j => ?_, h.covered.mono (fun j hj => ?_) fun _ => le_rfl,
    h.held, h.free⟩
  · have hs := h.suits j
    simp only [startPoll]
    split_ifs with hj
    · rw [hj.1] at hs
      exact hs
    · exact hs
  · simp only [Parked, startPoll] at hj
    split_ifs at hj with hp
    · simp at hj
    · rcases hj with ⟨hph, hmem⟩ | hj
      · -- still pending, so its token is not the one taken
        have hne : (kind j).token ≠ token := fun he => hp ⟨hph, he⟩
        refine .inl ⟨hph, ?_⟩
        rw [SyncQueue.vals_eq_of_back? hback]
        simpa [hne] using hmem
      · exact .inr hj

theorem wakeInv_step {l : Label ι} (h : WakeInv kind s) (hen : Enabled kind s l)
    (hok : KeepsEntry kind s l) : WakeInv kind (fire kind s l) := by
  cases l with
  | poll i =>
    simp only [fire]
    simp only [KeepsEntry] at hok
    split_ifs at hok ⊢ with hf
    · exact wakeInv_register h hf rfl rfl (fun harb => (hok harb).1) fun harb => (hok harb).2
    · have hsuits : Phase.pending.Suits (kind i) := by
        have hs := h.suits i
        have hmem := hen.2
        simp only [List.mem_cons, List.not_mem_nil, or_false] at hmem
        rcases hmem with hi | hi | hi
        · exact absurd hi hf
        · rwa [hi] at hs
        · rwa [hi] at hs
      refine wakeInv_retry h (registered_of_retries (.inr ⟨hen, hf⟩)) rfl hsuits fun harb => ?_
      refine (hok harb).imp_left fun hmem => ?_
      simpa [Parked] using hmem
  | lockSync i =>
    refine wakeInv_register h hen.2 rfl rfl (fun _ => ?_) hok
    rw [hen.1]
    rfl
  | wait i =>
    have hi : s.phase i = .toWait := hen
    have hsuits := h.suits i
    rw [hi] at hsuits
    simp only [fire]
    split_ifs with harb
    · exact wakeInv_move h (by rw [hi]; rfl) rfl hsuits (.inr (hok harb))
    · exact wakeInv_move h (by rw [hi]; rfl) rfl hsuits (.inl (by simp [Parked]))
  | retry i =>
    have hi : s.phase i = .toRetry := hen
    have hsuits := h.suits i
    rw [hi] at hsuits
    exact wakeInv_retry h (by rw [hi]; rfl) rfl hsuits fun _ => .inl (by simp [Parked])
  | unlock i j => exact wakeInv_release h hen.1 hen.2
  | wake token =>
    refine ⟨h.inv, h.suits, h.covered.mono (fun j hj => hj.of_phase rfl ?_) fun _ => le_rfl,
      h.held, h.free⟩
    simp [fire]
  | run =>
    simp only [fire]
    split
    · exact wakeInv_run h ‹_›
    · exact h
  | drop i => exact absurd hok id

omit [DecidableEq ι] [Fintype ι] in
/-- A registered party is parked or can make progress. -/
theorem parked_of_not_canProgress (hreg : (s.phase i).registered = true)
    (h : ¬ CanProgress kind s i) : Parked kind s i := by
  unfold CanProgress at h
  unfold Parked
  cases hph : s.phase i <;> simp_all [Phase.registered]

omit [DecidableEq ι] in
/-- Nobody abandons its registration, so whoever is owed the lock wants it. -/
theorem WakeInv.registered_of_owed (h : WakeInv kind s) (hi : (s.phase i).owed = true) :
    (s.phase i).registered = true := by
  have hs := h.suits i
  cases hph : s.phase i <;> rw [hph] at hi hs <;> first | exact hi | exact hs.elim

omit [DecidableEq ι] in
/-- Parked parties have entries and a free lock has fewer entries than parties owed the lock, so
they cannot all be parked. -/
theorem WakeInv.notLost (h : WakeInv kind s) : WakeupNotLost kind s := by
  rintro harb ⟨i, hi⟩
  by_contra hnone
  push Not at hnone
  have hsub : (univ.filter fun j => (s.phase j).owed = true) ⊆ univ.filter (Parked kind s) := by
    intro j hj
    rw [mem_filter] at hj ⊢
    have hreg := h.registered_of_owed hj.2
    exact ⟨mem_univ j, parked_of_not_canProgress hreg (hnone j hreg)⟩
  -- one entry for each parked party, token by token
  have hlen : (univ.filter (Parked kind s)).card ≤ s.lock.waiters.length := by
    refine card_le_length _ (fun j => (kind j).token) _ fun token => ?_
    rw [filter_filter]
    exact h.covered token
  have hle : cnt Phase.owed s.phase ≤ s.lock.waiters.length := (card_le_card hsub).trans hlen
  have hpos : 0 < cnt Phase.owed s.phase := cnt_pos_iff.2 ⟨i, Phase.owed_of_registered hi⟩
  have hfree := h.free harb
  obtain ⟨held, -, hw, -, -⟩ := h.inv
  cases held with
  | true =>
    rw [hw, DsLock.word_held] at harb
    omega
  | false =>
    rw [hw, DsLock.word_free] at hfree
    rcases hfree with hnil | hlt
    · rw [hnil, List.length_nil] at hle
      omega
    · omega

end WakeInv

/-- **No wakeup is lost** in a run in which every party that waits keeps an entry. -/
theorem wakeup_not_lost {kind : ι → Kind} {s : State ι}
    (h : (system kind).ReachableBy (KeepsEntry kind) s) : WakeupNotLost kind s :=
  (h.invariant wakeInv_init fun _ _ _ hi hen hok => wakeInv_step hi hen hok).notLost

instance (kind : ι → Kind) (s : State ι) (l : Label ι) : Decidable (KeepsEntry kind s l) :=
  match l with
  | .poll i => inferInstanceAs (Decidable (s.lock.arb ≤ 0 →
      if s.phase i = .fresh then (kind i).token ≠ ⟨u32Max⟩ ∧ -(2 ^ 31 - 1) < s.lock.arb
      else (kind i).token ∈ s.wakeQueue.vals ∨ HasEntry kind s i))
  | .lockSync _ => inferInstanceAs (Decidable (s.lock.arb ≤ 0 → -(2 ^ 31 - 1) < s.lock.arb))
  | .wait i => inferInstanceAs (Decidable (s.lock.arb < 0 → HasEntry kind s i))
  | .drop _ => inferInstanceAs (Decidable False)
  | .unlock _ _ | .retry _ | .wake _ | .run => inferInstanceAs (Decidable True)

/-- A holder, a pending task that was polled again, and a blocked thread: the unlock leaves the
task's token in `WAKE_QUEUE`. -/
theorem wakeup_not_lost_three : ∃ s, (system threeKinds).ReachableBy (KeepsEntry threeKinds) s ∧
    s.lock.arb = 3 ∧ ∃ i, (s.phase i).registered = true ∧ CanProgress threeKinds s i := by
  obtain ⟨s, hs, harb, hi⟩ := LTS.exists_of_exec (system threeKinds) (KeepsEntry threeKinds)
    [.poll 0, .poll 1, .poll 1, .lockSync 2, .wait 2, .unlock 0 (some 2)]
    (fun s => s.lock.arb = 3 ∧ ∃ i, (s.phase i).registered = true) (by decide)
  exact ⟨s, hs, harb, wakeup_not_lost hs (by omega) hi⟩

/-- Three tasks with their own tokens. -/
def threeTasks : Fin 3 → Kind := ![.task ⟨0⟩, .task ⟨1⟩, .task ⟨2⟩]

/-- **A lost wakeup.**  Task 1 registers while task 0 holds the lock and is woken by its unlock,
but task 2 takes the lock first.  Task 1 fails to lock and waits, now without an entry, so the
unlock of task 2 wakes nobody: the lock is free and task 1 waits for ever. -/
theorem wakeup_lost :
    ∃ s, (system threeTasks).ReachableBy NoDrop s ∧ ¬ WakeupNotLost threeTasks s :=
  LTS.exists_of_exec (system threeTasks) NoDrop
    [.poll 0, .poll 1, .unlock 0 none, .poll 2, .run, .poll 1, .unlock 2 none] _ (by decide)

end DSMutex

end BunnyDs
