import BunnyDs.LTS.Guarded
import BunnyDs.Sync.Preemption

/-!
# The data of a `DSMutex`

A `DSMutexGuard` dereferences to the data of its mutex: `*guard += 1` loads the data and stores a
new value, with nothing but the lock to keep other guards away in between.
`LTS.guarded (system kind) holds d₀` is the preemptive lock next to the data, for any number of
attempts that each make any number of loads and stores through their guard.

* `Preemptive.guard` : while every store that takes the lock finds it still free, `DsLock` is what
  `LTS.Guard` asks of a lock.
* `Preemptive.updates_serial` : so no update is lost, and the critical sections are serial.
* `Preemptive.update_lost` : without that condition, of any update by two callers one can be lost.
-/

namespace BunnyDs

namespace DSMutex

namespace Preemptive

/-- The guard has been dropped. -/
def Pc.past : Pc → Bool
  | .unlockStore _ | .unlockPop | .unlockWake _ | .released => true
  | _ => false

variable {ι : Type*} [DecidableEq ι]

/-- The guard of `i` is live. -/
def holds (s : State ι) (i : ι) : Bool := s.pc i = .holding

/-- The guard of `i` has been dropped. -/
def past (s : State ι) (i : ι) : Bool := (s.pc i).past

variable {kind : ι → Kind} {s : State ι} {i k : ι}

/-- A step of `k` moves no other caller, except that a blocked one may be unblocked. -/
theorem pc_act_of_ne {j : Option ι} (hen : Enabled kind s (.act k j)) (hne : i ≠ k)
    (hi : s.pc i ≠ .blocked) : (act kind s k j).pc i = s.pc i := by
  unfold act
  cases hpc : s.pc k with
  | unlockWake task =>
    have hgoto : ∀ s' : State ι, (s'.goto k .released).pc i = s'.pc i := fun s' => by
      simp [State.goto, hne]
    rw [hgoto]
    unfold wakeWaiter
    split_ifs with htask
    · subst htask
      cases j with
      | none => rfl
      | some j =>
        have hj : s.pc j = .blocked := hen.2 hpc
        have hij : i ≠ j := by
          rintro rfl
          exact hi hj
        simp [State.goto, hij]
    · rfl
  | waiting =>
    cases hk : kind k <;> simp [loadRetry, State.goto, hne]
  | registerStore state =>
    simp only
    split_ifs <;> simp [State.store, hne]
  | unlockPop =>
    simp only
    split <;> simp [State.goto, hne]
  | _ => simp [State.goto, State.store, loadRetry, hne]

/-- The guard of a caller stays live until it is dropped. -/
theorem holds_fire {l : Label ι} (hen : Enabled kind s l) (hi : holds s i = true) :
    holds (fire kind s l) i = true ∨ past (fire kind s l) i = true := by
  simp only [holds, decide_eq_true_eq] at hi ⊢
  cases l with
  | act k j =>
    by_cases hk : i = k
    · subst hk
      right
      simp only [fire, act, hi, past, State.goto, Function.update_self]
      split_ifs <;> rfl
    · exact .inl ((pc_act_of_ne hen hk (by simp [hi])).trans hi)
  | drop k =>
    have hk : i ≠ k := by
      rintro rfl
      have hw : s.pc i = .waiting := hen.2
      rw [hi] at hw
      cases hw
    exact .inl (by simp [fire, State.goto, hk, hi])

/-- A guard that has been dropped does not come back. -/
theorem past_fire {l : Label ι} (hen : Enabled kind s l) (hi : past s i = true) :
    past (fire kind s l) i = true := by
  unfold past at hi ⊢
  cases l with
  | act k j =>
    by_cases hk : i = k
    · subst hk
      cases hpc : s.pc i with
      | unlockStore state => simp [fire, act, hpc, State.store, Pc.past]
      | unlockPop =>
        simp only [fire, act, hpc]
        split <;> simp [State.goto, Pc.past]
      | unlockWake task => simp [fire, act, hpc, State.goto, Pc.past]
      | released => simp [fire, act, hpc, Pc.past]
      | _ => simp [hpc, Pc.past] at hi
    · have hb : s.pc i ≠ .blocked := by
        intro hb
        simp [hb, Pc.past] at hi
      rwa [show (fire kind s (.act k j)).pc i = s.pc i from pc_act_of_ne hen hk hb]
  | drop k =>
    have hk : i ≠ k := by
      rintro rfl
      rw [hen.2] at hi
      cases hi
    simpa [fire, State.goto, hk] using hi

/-- `DsLock` is a lock, as long as it is still free when it is taken. -/
theorem guard (kind : ι → Kind) : (system kind).Guard StillFree holds past where
  unique s hs i j hi hj := by
    simp only [holds, decide_eq_true_eq] at hi hj
    exact (inv_reachable hs).unique i j (by rw [hi]; rfl) (by rw [hj]; rfl)
  not_past s i hi := by
    simp only [holds, decide_eq_true_eq] at hi
    rw [past, hi]
    rfl
  leaves s l i _ hen _ hi := holds_fire hen hi
  stays s l i _ hen _ hi := past_fire hen hi

variable {D : Type*} {d₀ : D}

/-- **No update of the data is lost, and critical sections are serial**, in every run in which each
store that takes the lock finds it still free and no registration wraps around. -/
theorem updates_serial {p : State ι × Cell ι D}
    (h : ((system kind).guarded holds d₀).ReachableBy (LTS.lockOk StillFree) p) :
    p.2.Serial d₀ :=
  (guard kind).serial h

/-- A task stores twice through its guard; a thread that waited for the lock stores once more. -/
theorem updates_serial_two : ∃ p : State (Fin 2) × Cell (Fin 2) ℕ,
    ((system ![.task ⟨1⟩, .thread]).guarded holds 0).ReachableBy (LTS.lockOk StillFree) p ∧
      (p.2.log.map Prod.fst = [1, 0, 0] ∧ p.2.data = 13) ∧ p.2.Serial 0 := by
  obtain ⟨p, hp, hlog⟩ := LTS.exists_of_exec ((system ![.task ⟨1⟩, .thread]).guarded holds 0)
    (LTS.lockOk StillFree)
    [.lock (.act 0 none), .lock (.act 0 none), .load 0, .lock (.act 1 none), .store 0 (· + 3),
      .lock (.act 1 none), .lock (.act 1 none), .load 0, .store 0 (· * 4), .lock (.act 0 none),
      .lock (.act 0 none), .lock (.act 1 none), .lock (.act 0 none), .lock (.act 0 none),
      .lock (.act 1 none), .lock (.act 1 none), .load 1, .store 1 (· + 1)]
    (fun p => p.2.log.map Prod.fst = [1, 0, 0] ∧ p.2.data = 13) (by decide)
  exact ⟨p, hp, hlog, updates_serial hp⟩

/-- Two callers that load the word of a new mutex before either of them stores both get a guard. -/
theorem two_guards (hik : i ≠ k) :
    ∃ s, (system kind).Reachable s ∧ holds s i = true ∧ holds s k = true := by
  have hne : k ≠ i := hik.symm
  have h₀ : (system kind).Reachable (system kind).init := .init
  have h₁ := (h₀.fire (.act i none) (by simp [system, Enabled, Pc.halted])).fire (.act k none)
    (by simp [system, Enabled, fire, act, State.goto, Pc.halted, hne])
  have h₂ := h₁.fire (.act i none)
    (by simp [system, Enabled, fire, act, State.goto, Pc.halted, hik, hne])
  have h₃ := h₂.fire (.act k none)
    (by simp [system, Enabled, fire, act, State.goto, State.store, DsLock.new, Pc.halted, hik, hne])
  exact ⟨_, h₃, by
    simp [system, fire, act, State.goto, State.store, DsLock.new, holds, hik, hne]⟩

/-- **An update is lost**, whatever it is, when two callers are preempted between the load and the
store that take the lock. -/
theorem update_lost (hik : i ≠ k) (f : D → D) :
    ∃ p, ((system kind).guarded holds d₀).Reachable p ∧
      p.2.log = [(k, f), (i, f)] ∧ p.2.data = f d₀ := by
  obtain ⟨s, hs, hi, hk⟩ := two_guards hik
  exact LTS.guarded_lost hs hik hi hk f

end Preemptive

end DSMutex

end BunnyDs
