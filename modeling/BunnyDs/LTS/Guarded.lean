import BunnyDs.LTS.Basic
import Mathlib.Data.List.Nodup

/-!
# Data behind a lock

A lock protects a cell: a caller that holds the lock loads the data and stores back what an update
makes of the value it loaded.  `A.guarded holds d₀` is the lock `A` next to such a cell.  Loads and
stores are separate steps, so two callers that hold the lock at once can overwrite each other.

`Guard` is what a lock has to provide: one holder at a time, and no caller that holds it a second
time.  Then every run is serial (`Guard.serial`): the data is what the updates make of `d₀` in the
order in which they were stored, and that order goes through the callers one after another.
Conversely (`guarded_lost`), two callers that hold the lock at once can lose any update.
-/

namespace BunnyDs

/-- The data behind a lock, and the values that its callers have loaded. -/
structure Cell (ι D : Type*) where
  data : D
  /-- What a caller has loaded and not stored back. -/
  copy : ι → Option D
  /-- The stores, newest first: the caller, and the update that it applied to its copy. -/
  log : List (ι × (D → D))

/-- A step of the lock, or an access to the data. -/
inductive CellAccess (ι D L : Type*) where
  | lock (l : L)
  | load (i : ι)
  | store (i : ι) (f : D → D)

namespace Cell

variable {ι D : Type*} [DecidableEq ι] {d₀ : D} {c : Cell ι D}

/-- What the updates of a log make of `d`. -/
def replay (log : List (ι × (D → D))) (d : D) : D := log.foldr (fun e d => e.2 d) d

/-- The stores of the caller `i`. -/
def storesOf (log : List (ι × (D → D))) (i : ι) : List (ι × (D → D)) :=
  log.filter fun e => e.1 = i

/-- **No update is lost, and none comes between two of another caller.** -/
structure Serial (d₀ : D) (c : Cell ι D) : Prop where
  data_eq : c.data = replay c.log d₀
  in_turn : ∃ order : List ι, order.Nodup ∧ c.log = order.flatMap (storesOf c.log)

/-- The callers of a log in the order of their stores, newest first. -/
structure InTurn (log : List (ι × (D → D))) (order : List ι) : Prop where
  nodup : order.Nodup
  mem_iff : ∀ i, i ∈ order ↔ ∃ e ∈ log, e.1 = i
  log_eq : log = order.flatMap (storesOf log)

theorem storesOf_cons (e : ι × (D → D)) (log : List (ι × (D → D))) (i : ι) :
    storesOf (e :: log) i = if e.1 = i then e :: storesOf log i else storesOf log i := by
  simp [storesOf, List.filter_cons]

/-- The callers in `order` have no store by `e.1`. -/
theorem flatMap_storesOf_cons {e : ι × (D → D)} {log : List (ι × (D → D))} {order : List ι}
    (h : e.1 ∉ order) : order.flatMap (storesOf (e :: log)) = order.flatMap (storesOf log) := by
  refine List.flatMap_congr fun i hi => ?_
  have hne : e.1 ≠ i := by
    rintro rfl
    exact h hi
  rw [storesOf_cons, if_neg hne]

theorem InTurn.nil : InTurn ([] : List (ι × (D → D))) [] := ⟨by simp, by simp, rfl⟩

/-- A store by a caller that has not stored before. -/
theorem InTurn.cons_new {log : List (ι × (D → D))} {order : List ι} (h : InTurn log order)
    (e : ι × (D → D)) (hnew : e.1 ∉ order) : InTurn (e :: log) (e.1 :: order) := by
  have hnone : storesOf log e.1 = [] := by
    refine List.filter_eq_nil_iff.2 fun x hx => ?_
    have := mt (h.mem_iff e.1).2 (by simpa using hnew)
    simpa using fun he => this ⟨x, hx, he⟩
  refine ⟨List.nodup_cons.2 ⟨hnew, h.nodup⟩, fun i => ?_, ?_⟩
  · rw [List.mem_cons, h.mem_iff, @eq_comm _ i]
    simp only [List.mem_cons, exists_eq_or_imp]
  · rw [List.flatMap_cons, flatMap_storesOf_cons hnew, ← h.log_eq, storesOf_cons, if_pos rfl, hnone]
    rfl

/-- Another store by the caller that stored last. -/
theorem InTurn.cons_same {log : List (ι × (D → D))} {order : List ι} {e : ι × (D → D)}
    (h : InTurn log (e.1 :: order)) : InTurn (e :: log) (e.1 :: order) := by
  have hnot : e.1 ∉ order := (List.nodup_cons.1 h.nodup).1
  refine ⟨h.nodup, fun i => ?_, ?_⟩
  · rw [h.mem_iff]
    simp only [List.mem_cons, exists_eq_or_imp]
    refine ⟨.inr, ?_⟩
    rintro (rfl | hi)
    · exact (h.mem_iff _).1 (List.mem_cons_self ..)
    · exact hi
  · rw [List.flatMap_cons, flatMap_storesOf_cons hnot, storesOf_cons, if_pos rfl, List.cons_append,
      ← List.flatMap_cons, ← h.log_eq]

end Cell

namespace LTS

variable {S L ι D : Type*} [DecidableEq ι]

/-- The lock `A` next to a cell whose accesses need the lock.  A caller that stops holding the lock
has lost its borrow of the data, and with it what it loaded. -/
def guarded (A : LTS S L) (holds : S → ι → Bool) (d₀ : D) :
    LTS (S × Cell ι D) (CellAccess ι D L) where
  init := (A.init, ⟨d₀, fun _ => none, []⟩)
  Enabled p
    | .lock l => A.Enabled p.1 l
    | .load i => holds p.1 i = true
    | .store i _ => holds p.1 i = true ∧ (p.2.copy i).isSome = true
  fire p
    | .lock l =>
      (A.fire p.1 l,
        { p.2 with copy := fun i => if holds (A.fire p.1 l) i then p.2.copy i else none })
    | .load i => (p.1, { p.2 with copy := Function.update p.2.copy i (some p.2.data) })
    | .store i f =>
      (p.1,
        { data := ((p.2.copy i).map f).getD p.2.data
          copy := Function.update p.2.copy i none
          log := (i, f) :: p.2.log })

/-- The condition `ok` on the steps of the lock. -/
def lockOk (ok : S → L → Prop) (p : S × Cell ι D) : CellAccess ι D L → Prop
  | .lock l => ok p.1 l
  | .load _ | .store _ _ => True

instance (A : LTS S L) [∀ s l, Decidable (A.Enabled s l)] (holds : S → ι → Bool) (d₀ : D)
    (p : S × Cell ι D) (l : CellAccess ι D L) : Decidable ((A.guarded holds d₀).Enabled p l) :=
  match l with
  | .lock l => inferInstanceAs (Decidable (A.Enabled p.1 l))
  | .load i => inferInstanceAs (Decidable (holds p.1 i = true))
  | .store i _ =>
    inferInstanceAs (Decidable (holds p.1 i = true ∧ (p.2.copy i).isSome = true))

omit [DecidableEq ι] in
instance (ok : S → L → Prop) [∀ s l, Decidable (ok s l)] (p : S × Cell ι D) (l : CellAccess ι D L) :
    Decidable (lockOk ok p l) :=
  match l with
  | .lock l => inferInstanceAs (Decidable (ok p.1 l))
  | .load _ => inferInstanceAs (Decidable True)
  | .store _ _ => inferInstanceAs (Decidable True)

/-- What a lock provides: `holds` is true of one caller at a time, and a caller that stops holding
it is `past` for good. -/
structure Guard (A : LTS S L) (ok : S → L → Prop) (holds past : S → ι → Bool) : Prop where
  unique : ∀ s, A.ReachableBy ok s → ∀ i j, holds s i = true → holds s j = true → i = j
  not_past : ∀ s i, holds s i = true → past s i = false
  leaves : ∀ s l i, A.ReachableBy ok s → A.Enabled s l → ok s l → holds s i = true →
    holds (A.fire s l) i = true ∨ past (A.fire s l) i = true
  stays : ∀ s l i, A.ReachableBy ok s → A.Enabled s l → ok s l → past s i = true →
    past (A.fire s l) i = true

variable {A : LTS S L} {ok : S → L → Prop} {holds past : S → ι → Bool} {d₀ : D}

/-- Copies are those of the holder, and up to date; whoever has stored holds the lock or is past;
and the holder, if it has stored, stored last. -/
structure Guarded (holds past : S → ι → Bool) (d₀ : D) (p : S × Cell ι D) : Prop where
  data_eq : p.2.data = Cell.replay p.2.log d₀
  current : ∀ i d, p.2.copy i = some d → holds p.1 i = true ∧ d = p.2.data
  stored : ∀ e ∈ p.2.log, holds p.1 e.1 = true ∨ past p.1 e.1 = true
  in_turn : ∃ order, Cell.InTurn p.2.log order ∧
    ∀ i, holds p.1 i = true → i ∈ order → ∃ rest, order = i :: rest

theorem guarded_reachable {p : S × Cell ι D}
    (h : (A.guarded holds d₀).ReachableBy (lockOk ok) p) : A.ReachableBy ok p.1 := by
  refine h.invariant (I := fun p => A.ReachableBy ok p.1) .init fun p l _ hi hen hok => ?_
  cases l with
  | lock l => exact hi.step hen hok
  | load i => exact hi
  | store i f => exact hi

/-- A load by the holder. -/
theorem Guarded.load {p : S × Cell ι D} (h : Guarded holds past d₀ p) {i : ι}
    (hi : holds p.1 i = true) :
    Guarded holds past d₀ ((A.guarded holds d₀).fire p (.load i)) := by
  refine ⟨h.data_eq, fun j d hd => ?_, h.stored, h.in_turn⟩
  simp only [guarded, Function.update_apply] at hd
  split_ifs at hd with hj
  · cases hd
    exact ⟨hj ▸ hi, rfl⟩
  · exact h.current j d hd

namespace Guard

variable (g : A.Guard ok holds past) {p : S × Cell ι D}

include g

/-- A step of the lock. -/
theorem guarded_lock (hp : A.ReachableBy ok p.1) (h : Guarded holds past d₀ p) {l : L}
    (hen : A.Enabled p.1 l) (hok : ok p.1 l) :
    Guarded holds past d₀ ((A.guarded holds d₀).fire p (.lock l)) := by
  have hstored : ∀ e ∈ p.2.log,
      holds (A.fire p.1 l) e.1 = true ∨ past (A.fire p.1 l) e.1 = true := by
    intro e he
    rcases h.stored e he with hh | hpast
    · exact g.leaves _ _ _ hp hen hok hh
    · exact .inr (g.stays _ _ _ hp hen hok hpast)
  obtain ⟨order, hturn, hhead⟩ := h.in_turn
  refine ⟨h.data_eq, fun i d hd => ?_, hstored, order, hturn, fun i hi hmem => ?_⟩
  · simp only [guarded] at hd
    split_ifs at hd with hi
    exact ⟨hi, (h.current i d hd).2⟩
  · -- the caller has stored and is not past, so it held the lock before the step
    obtain ⟨e, he, rfl⟩ := (hturn.mem_iff i).1 hmem
    refine hhead e.1 ((h.stored e he).resolve_right fun hpast => ?_) hmem
    have hnot : past (A.fire p.1 l) e.1 = false := g.not_past _ _ hi
    rw [g.stays _ _ _ hp hen hok hpast] at hnot
    cases hnot

/-- A store by the holder: its copy is the data, so nothing is overwritten. -/
theorem guarded_store (hp : A.ReachableBy ok p.1) (h : Guarded holds past d₀ p) {i : ι}
    (f : D → D) (hi : holds p.1 i = true) (hsome : (p.2.copy i).isSome = true) :
    Guarded holds past d₀ ((A.guarded holds d₀).fire p (.store i f)) := by
  obtain ⟨d, hd⟩ := Option.isSome_iff_exists.1 hsome
  obtain rfl := (h.current i d hd).2
  obtain ⟨order, hturn, hhead⟩ := h.in_turn
  refine ⟨?_, fun j d hj => ?_, fun e he => ?_, ?_⟩
  · simp only [guarded, hd, Option.map_some, Option.getD_some]
    rw [h.data_eq]
    rfl
  · simp only [guarded, Function.update_apply] at hj
    split_ifs at hj with hne
    -- a copy of another caller would be that of a second holder
    exact absurd (g.unique _ hp j i (h.current j d hj).1 hi) hne
  · rcases List.mem_cons.1 he with rfl | he
    · exact .inl hi
    · exact h.stored e he
  · by_cases hmem : i ∈ order
    · obtain ⟨rest, rfl⟩ := hhead i hi hmem
      exact ⟨i :: rest, hturn.cons_same (e := (i, f)), hhead⟩
    · refine ⟨i :: order, hturn.cons_new (i, f) hmem, fun j hj _ => ⟨order, ?_⟩⟩
      rw [g.unique _ hp j i hj hi]

/-- **The runs of a guarded cell are serial.** -/
theorem serial (h : (A.guarded holds d₀).ReachableBy (lockOk ok) p) : p.2.Serial d₀ := by
  have hinv : Guarded holds past d₀ p := by
    refine h.invariant ⟨rfl, by simp [guarded], by simp [guarded], [], .nil, by simp⟩ ?_
    intro p l hp hi hen hok
    have hp := guarded_reachable hp
    cases l with
    | lock l => exact g.guarded_lock hp hi hen hok
    | load i => exact hi.load hen
    | store i f => exact g.guarded_store hp hi f hen.1 hen.2
  obtain ⟨order, hturn, -⟩ := hinv.in_turn
  exact ⟨hinv.data_eq, order, hturn.nodup, hturn.log_eq⟩

end Guard

/-! ### Two holders -/

/-- A run of the lock, during which nobody touches the data. -/
theorem guarded_of_reachable {s : S} (h : A.Reachable s) :
    (A.guarded holds d₀).Reachable (s, ⟨d₀, fun _ => none, []⟩) := by
  induction h with
  | init => exact .init
  | step _ hen _ ih =>
    refine Reachable.to ih (.lock _) hen ?_
    simp only [guarded, ite_self]

/-- **Two holders lose an update**: both load the data before either of them stores. -/
theorem guarded_lost {s : S} {i k : ι} (h : A.Reachable s) (hik : i ≠ k)
    (hi : holds s i = true) (hk : holds s k = true) (f : D → D) :
    ∃ p, (A.guarded holds d₀).Reachable p ∧ p.2.log = [(k, f), (i, f)] ∧ p.2.data = f d₀ := by
  have h₀ : (A.guarded holds d₀).Reachable (s, ⟨d₀, fun _ => none, []⟩) := guarded_of_reachable h
  have h₁ := (h₀.fire (.load i) hi).fire (.load k) hk
  have hne : k ≠ i := hik.symm
  have h₂ := h₁.fire (.store i f) ⟨hi, by simp [guarded, hik]⟩
  refine ⟨_, h₂.fire (.store k f) ⟨hk, by simp [guarded, hne]⟩, rfl, ?_⟩
  simp [guarded, hne]

end LTS

end BunnyDs
