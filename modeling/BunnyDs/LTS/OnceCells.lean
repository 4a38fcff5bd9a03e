import BunnyDs.LTS.Basic

/-!
# Cells that are set once

A concurrent program starts up by setting global cells, each of which is set once and then read by
many activities.  Reading a cell that was not set is a panic, and so is setting a cell of some kinds
twice.  An activity is a straight piece of code and then a loop; it is started once, by another one.

* `OnceCells.system code main` : all activities that `main` leads to, in any interleaving.
* `OnceCells.Checked` : a check of the code of each activity alone.  It is given the cells that are
  `known` to be set when an activity starts; whoever starts the activity must know them.
* `OnceCells.excused_of_missing` : in a program that is checked, an activity finds a cell missing
  only if it is excused.
* `OnceCells.mem_of_twice` : only an activity whose code sets a cell finds it set before.
* `OnceCells.not_twice` : an activity that sets a cell once, and that comes before all others that
  set it, does not.
-/

namespace BunnyDs

namespace OnceCells

variable {κ α : Type*}

/-- What an activity does to the cells `κ` and to the activities `α`. -/
inductive Act (κ α : Type*) where
  /-- The cell is set, unless it was set before. -/
  | init (c : κ)
  /-- The cell is set; a panic if it was set before. -/
  | set (c : κ)
  /-- The cell is read; a panic if it was not set. -/
  | need (c : κ)
  /-- An activity is started. -/
  | start (a : α)

/-- An activity: what it does once, and what it then does again and again. -/
structure Code (κ α : Type*) where
  once : List (Act κ α)
  loop : List (Act κ α)

/-- All actions of an activity. -/
def Code.acts (code : Code κ α) : List (Act κ α) := code.once ++ code.loop

/-- Why an activity has panicked. -/
inductive Panic (κ : Type*) where
  | missing (c : κ)
  | twice (c : κ)
  deriving DecidableEq

/-- The cells, and where each activity is. -/
structure State (κ α : Type*) where
  cells : κ → Bool
  todo : α → List (Act κ α)
  started : α → Bool
  panic : α → Option (Panic κ)

variable [DecidableEq κ] [DecidableEq α]

/-- The activity `a` panics. -/
def State.fail (s : State κ α) (a : α) (p : Panic κ) : State κ α :=
  { s with todo := Function.update s.todo a [], panic := Function.update s.panic a (some p) }

/-- The activity `a` goes on with `rest`. -/
def State.go (s : State κ α) (a : α) (rest : List (Act κ α)) : State κ α :=
  { s with todo := Function.update s.todo a rest }

/-- A cell is set. -/
def State.fill (s : State κ α) (c : κ) : State κ α :=
  { s with cells := Function.update s.cells c true }

/-- An activity is started. -/
def State.launch (s : State κ α) (code : α → Code κ α) (b : α) : State κ α :=
  { s with
    todo := Function.update s.todo b (code b).once
    started := Function.update s.started b true }

/-- One action of the activity `a`. -/
def perform (code : α → Code κ α) (s : State κ α) (a : α) (rest : List (Act κ α)) :
    Act κ α → State κ α
  | .init c => (s.fill c).go a rest
  | .set c => if s.cells c then s.fail a (.twice c) else (s.fill c).go a rest
  | .need c => if s.cells c then s.go a rest else s.fail a (.missing c)
  | .start b => (s.go a rest).launch code b

/-- The next action of the activity `a`, or the next turn of its loop. -/
def fire (code : α → Code κ α) (s : State κ α) (a : α) : State κ α :=
  match s.todo a with
  | [] => s.go a (code a).loop
  | act :: rest => perform code s a rest act

omit [DecidableEq κ] [DecidableEq α] in
/-- The activity has something to do; it does not start another one twice. -/
def Ready (s : State κ α) (code : Code κ α) : List (Act κ α) → Prop
  | [] => code.loop ≠ []
  | .start b :: _ => s.started b = false
  | _ => True

omit [DecidableEq κ] [DecidableEq α] in
instance (s : State κ α) (code : Code κ α) : (todo : List (Act κ α)) → Decidable (Ready s code todo)
  | [] => decidable_of_iff (code.loop.isEmpty = false) (by simp [Ready])
  | .start b :: _ => inferInstanceAs (Decidable (s.started b = false))
  | .init _ :: _ | .set _ :: _ | .need _ :: _ => inferInstanceAs (Decidable True)

/-- The activity `main`, before its first action. -/
def system (code : α → Code κ α) (main : α) : LTS (State κ α) α where
  init :=
    ⟨fun _ => false, Function.update (fun _ => []) main (code main).once,
      Function.update (fun _ => false) main true, fun _ => none⟩
  Enabled s a := s.started a = true ∧ s.panic a = none ∧ Ready s (code a) (s.todo a)
  fire := fire code

instance (code : α → Code κ α) (main : α) (s : State κ α) (a : α) :
    Decidable ((system code main).Enabled s a) :=
  inferInstanceAs (Decidable (s.started a = true ∧ s.panic a = none ∧ Ready s (code a) (s.todo a)))

/-! ### The check -/

omit [DecidableEq α] in
/-- The cells known to be set after a piece of code. -/
def after : (κ → Bool) → List (Act κ α) → κ → Bool
  | k, [] => k
  | k, .init c :: l | k, .set c :: l => after (Function.update k c true) l
  | k, .need _ :: l | k, .start _ :: l => after k l

omit [DecidableEq α] in
/-- The code reads only cells that are known to be set, or that it is excused from knowing; and an
activity that it starts finds the cells set that it counts on. -/
def Checks (known : α → κ → Bool) (excused : κ → Bool) : (κ → Bool) → List (Act κ α) → Prop
  | _, [] => True
  | k, .init c :: l | k, .set c :: l => Checks known excused (Function.update k c true) l
  | k, .need c :: l => (k c = true ∨ excused c = true) ∧ Checks known excused k l
  | k, .start b :: l => (∀ c, known b c = true → k c = true) ∧ Checks known excused k l

omit [DecidableEq α] in
/-- **Every activity passes the check.** -/
structure Checked (code : α → Code κ α) (main : α) (known excused : α → κ → Bool) : Prop where
  main : ∀ c, known main c = false
  once : ∀ a, Checks known (excused a) (known a) (code a).once
  loop : ∀ a, Checks known (excused a) (after (known a) (code a).once) (code a).loop

section Check

omit [DecidableEq α]

variable {known : α → κ → Bool} {excused : κ → Bool} {k k' : κ → Bool} {l l' : List (Act κ α)}

theorem update_le {c : κ} (h : ∀ x, k x = true → k' x = true) (x : κ)
    (hx : Function.update k c true x = true) : Function.update k' c true x = true := by
  by_cases hc : x = c
  · rw [hc, Function.update_self]
  · rw [Function.update_of_ne hc] at hx ⊢
    exact h x hx

/-- What is known stays known. -/
theorem le_update {c : κ} (h : k c = true) (x : κ) : Function.update k x true c = true := by
  by_cases hx : c = x
  · rw [hx, Function.update_self]
  · rwa [Function.update_of_ne hx]

theorem le_after (l : List (Act κ α)) {c : κ} (h : k c = true) : after k l c = true := by
  induction l generalizing k with
  | nil => exact h
  | cons act l ih =>
    cases act with
    | init x => exact ih (le_update h x)
    | set x => exact ih (le_update h x)
    | need x => exact ih h
    | start b => exact ih h

/-- Knowing more does no harm. -/
theorem Checks.mono (h : Checks known excused k l) (hk : ∀ c, k c = true → k' c = true) :
    Checks known excused k' l := by
  induction l generalizing k k' with
  | nil => trivial
  | cons act l ih =>
    cases act with
    | init c => exact ih h (update_le hk)
    | set c => exact ih h (update_le hk)
    | need c => exact ⟨h.1.imp_left (hk c), ih h.2 hk⟩
    | start b => exact ⟨fun c hc => hk c (h.1 c hc), ih h.2 hk⟩

theorem Checks.append (h : Checks known excused k l)
    (h' : Checks known excused (after k l) l') : Checks known excused k (l ++ l') := by
  induction l generalizing k with
  | nil => exact h'
  | cons act l ih =>
    cases act with
    | init c => exact ih h h'
    | set c => exact ih h h'
    | need c => exact ⟨h.1, ih h.2 h'⟩
    | start b => exact ⟨h.1, ih h.2 h'⟩

/-- Many activities are started. -/
theorem Checks.starts {bs : List α} (hbs : ∀ b ∈ bs, ∀ c, known b c = true → k c = true)
    (h : Checks known excused k l) : Checks known excused k (bs.map .start ++ l) := by
  induction bs with
  | nil => exact h
  | cons b bs ih =>
    exact ⟨hbs b (List.mem_cons_self ..), ih fun b' hb' => hbs b' (List.mem_cons_of_mem _ hb')⟩

end Check

/-! ### Missing cells -/

variable {code : α → Code κ α} {main : α} {known excused : α → κ → Bool} {s s' : State κ α}

omit [DecidableEq α] in
/-- Where the check of an activity is: what it knows is set, and the rest of its code passes. -/
def Passes (code : α → Code κ α) (known excused : α → κ → Bool) (cells : κ → Bool) (a : α)
    (todo : List (Act κ α)) : Prop :=
  ∃ k : κ → Bool, (∀ c, k c = true → cells c = true) ∧ Checks known (excused a) k todo ∧
    Checks known (excused a) (after k todo) (code a).loop

omit [DecidableEq α] in
/-- Every activity that runs passes, and finds set what it counts on; whoever has found a cell
missing is excused. -/
structure Inv (code : α → Code κ α) (known excused : α → κ → Bool) (s : State κ α) : Prop where
  running : ∀ a, s.started a = true → s.panic a = none →
    Passes code known excused s.cells a (s.todo a)
  counted : ∀ a c, s.started a = true → known a c = true → s.cells c = true
  missing : ∀ a c, s.panic a = some (.missing c) → excused a c = true

omit [DecidableEq α] in
theorem Passes.mono {cells cells' : κ → Bool} {a : α} {todo : List (Act κ α)}
    (h : Passes code known excused cells a todo) (hle : ∀ c, cells c = true → cells' c = true) :
    Passes code known excused cells' a todo := by
  obtain ⟨k, hk, hcheck, hloop⟩ := h
  exact ⟨k, fun c hc => hle c (hk c hc), hcheck, hloop⟩

omit [DecidableEq α] in
/-- The cell is set. -/
theorem Passes.fill {cells : κ → Bool} {a : α} {c : κ} {act : Act κ α} {rest : List (Act κ α)}
    (h : Passes code known excused cells a (act :: rest)) (hact : act = .init c ∨ act = .set c) :
    Passes code known excused (Function.update cells c true) a rest := by
  obtain ⟨k, hk, hcheck, hloop⟩ := h
  refine ⟨Function.update k c true, update_le hk, ?_, ?_⟩
  · rcases hact with rfl | rfl <;> exact hcheck
  · rcases hact with rfl | rfl <;> exact hloop

/-- The activity `a` has moved on, and cells may have been set. -/
theorem Inv.move (h : Inv code known excused s) {a : α} {cells : κ → Bool}
    {rest : List (Act κ α)} (hcells : ∀ c, s.cells c = true → cells c = true)
    (hrest : Passes code known excused cells a rest) :
    Inv code known excused { s with cells := cells, todo := Function.update s.todo a rest } := by
  refine ⟨fun b hb hp => ?_, fun b c hb hk => hcells c (h.counted b c hb hk), h.missing⟩
  by_cases hba : b = a
  · subst hba
    simpa using hrest
  · simp only [Function.update_of_ne hba]
    exact (h.running b hb hp).mono hcells

/-- The activity `a` has panicked. -/
theorem Inv.fail (h : Inv code known excused s) {a : α} {p : Panic κ}
    (hp : ∀ c, p = .missing c → excused a c = true) : Inv code known excused (s.fail a p) := by
  refine ⟨fun b hb hnone => ?_, h.counted, fun b c hb => ?_⟩
  · have hba : b ≠ a := by
      rintro rfl
      simp [State.fail] at hnone
    simp only [State.fail, Function.update_of_ne hba] at hnone ⊢
    exact h.running b hb hnone
  · by_cases hba : b = a
    · subst hba
      exact hp c (by simpa [State.fail] using hb)
    · exact h.missing b c (by simpa [State.fail, Function.update_of_ne hba] using hb)

/-- The activity `b` is started, and finds what it counts on. -/
theorem Inv.launch (h : Inv code known excused s) (hc : Checked code main known excused) {b : α}
    (hknown : ∀ c, known b c = true → s.cells c = true) :
    Inv code known excused (s.launch code b) := by
  refine ⟨fun x hx hp => ?_, fun x c hx hkx => ?_, h.missing⟩
  · by_cases hxb : x = b
    · subst hxb
      refine ⟨known x, hknown, ?_, ?_⟩
      · simpa [State.launch] using hc.once x
      · simpa [State.launch] using hc.loop x
    · simp only [State.launch, Function.update_of_ne hxb] at hx ⊢
      exact h.running x hx hp
  · by_cases hxb : x = b
    · subst hxb
      exact hknown c hkx
    · exact h.counted x c (by simpa [State.launch, Function.update_of_ne hxb] using hx) hkx

theorem inv_fire (hc : Checked code main known excused) (h : Inv code known excused s) {a : α}
    (hen : (system code main).Enabled s a) : Inv code known excused (fire code s a) := by
  obtain ⟨hstarted, hnone, hready⟩ := hen
  have hpass := h.running a hstarted hnone
  unfold fire
  split
  · rename_i htodo
    rw [htodo] at hpass
    obtain ⟨k, hk, -, hloop⟩ := hpass
    exact h.move (fun _ => id) ⟨k, hk, hloop, hloop.mono fun c => le_after _⟩
  · rename_i act rest htodo
    rw [htodo] at hpass hready
    cases act with
    | init c => exact h.move (fun x hx => le_update hx c) (hpass.fill (.inl rfl))
    | set c =>
      simp only [perform]
      split_ifs
      · exact h.fail (by simp)
      · exact h.move (fun x hx => le_update hx c) (hpass.fill (.inr rfl))
    | need c =>
      obtain ⟨k, hk, hcheck, hloop⟩ := hpass
      simp only [perform]
      split_ifs with hset
      · exact h.move (fun _ => id) ⟨k, hk, hcheck.2, hloop⟩
      · refine h.fail fun x hx => ?_
        obtain rfl := Panic.missing.inj hx
        exact hcheck.1.resolve_left fun hkc => hset (hk _ hkc)
    | start b =>
      obtain ⟨k, hk, hcheck, hloop⟩ := hpass
      have hgo := h.move (a := a) (fun _ => id) ⟨k, hk, hcheck.2, hloop⟩
      -- the one who starts it knows what the activity counts on
      exact hgo.launch hc fun c hkc => hk c (hcheck.1 c hkc)

variable {ok : State κ α → α → Prop}

theorem inv_reachable (hc : Checked code main known excused)
    (h : (system code main).ReachableBy ok s) : Inv code known excused s := by
  have hfalse : ∀ x, known main x ≠ true := fun x hx => by
    rw [hc.main x] at hx
    cases hx
  have hmain : ∀ b, (system code main).init.started b = true → b = main := fun b hb => by
    by_contra hne
    simp [system, Function.update_of_ne hne] at hb
  refine h.invariant (I := Inv code known excused)
    ⟨fun b hb _ => ?_, fun b c hb hk => ?_, by simp [system]⟩
    fun s l _ hi hen _ => inv_fire hc hi hen
  · obtain rfl := hmain b hb
    exact ⟨known b, fun x hx => absurd hx (hfalse x), by simpa [system] using hc.once b,
      by simpa [system] using hc.loop b⟩
  · obtain rfl := hmain b hb
    exact absurd hk (hfalse c)

/-- **Cells are set before they are read**, except by the activities that are excused. -/
theorem excused_of_missing (hc : Checked code main known excused)
    (h : (system code main).ReachableBy ok s) {a : α} {c : κ}
    (hp : s.panic a = some (.missing c)) : excused a c = true :=
  (inv_reachable hc h).missing a c hp

/-! ### Cells that are set twice -/

/-- What an activity still has to do is its code, and whoever has found a cell set has code that
sets it. -/
structure Traced (code : α → Code κ α) (s : State κ α) : Prop where
  todo : ∀ b, ∀ act ∈ s.todo b, act ∈ (code b).acts
  twice : ∀ b c, s.panic b = some (.twice c) → .set c ∈ (code b).acts

omit [DecidableEq κ] in
/-- The activity `a` goes on with some of its code. -/
theorem Traced.go (h : Traced code s) {a : α} {rest : List (Act κ α)}
    (hrest : ∀ act ∈ rest, act ∈ (code a).acts) : Traced code (s.go a rest) := by
  refine ⟨fun b => ?_, h.twice⟩
  by_cases hba : b = a
  · subst hba
    simpa [State.go] using hrest
  · simpa [State.go, Function.update_of_ne hba] using h.todo b

omit [DecidableEq κ] in
theorem Traced.fail (h : Traced code s) {a : α} {p : Panic κ}
    (hp : ∀ c, p = .twice c → .set c ∈ (code a).acts) : Traced code (s.fail a p) := by
  have hgo : Traced code (s.go a []) := h.go (by simp)
  refine ⟨hgo.todo, fun b c hb => ?_⟩
  by_cases hba : b = a
  · subst hba
    exact hp c (by simpa [State.fail] using hb)
  · exact h.twice b c (by simpa [State.fail, Function.update_of_ne hba] using hb)

theorem traced_fire (h : Traced code s) (a : α) : Traced code (fire code s a) := by
  unfold fire
  split
  · exact h.go fun act hact => List.mem_append_right _ hact
  · rename_i act rest htodo
    have hmem : ∀ x ∈ act :: rest, x ∈ (code a).acts := htodo ▸ h.todo a
    have hgo : Traced code (s.go a rest) := h.go fun x hx => hmem x (List.mem_cons_of_mem _ hx)
    cases act with
    | init c => exact ⟨hgo.todo, hgo.twice⟩
    | set c =>
      simp only [perform]
      split_ifs
      · refine h.fail fun x hx => ?_
        obtain rfl := Panic.twice.inj hx
        exact hmem _ List.mem_cons_self
      · exact ⟨hgo.todo, hgo.twice⟩
    | need c =>
      simp only [perform]
      split_ifs
      · exact hgo
      · exact h.fail (by simp)
    | start b =>
      have hlaunch := hgo.go (a := b) fun act hact => List.mem_append_left (code b).loop hact
      exact ⟨hlaunch.todo, hlaunch.twice⟩

theorem traced_reachable (h : (system code main).ReachableBy ok s) : Traced code s := by
  refine h.invariant (I := Traced code) ⟨fun b act hact => ?_, by simp [system]⟩
    fun s l _ hi _ _ => traced_fire hi l
  by_cases hb : b = main
  · subst hb
    exact List.mem_append_left _ (by simpa [system] using hact)
  · simp [system, Function.update_of_ne hb] at hact

/-- **A panic on a cell that was set before is that of an activity whose code sets it.** -/
theorem mem_of_twice (h : (system code main).ReachableBy ok s) {a : α} {c : κ}
    (hp : s.panic a = some (.twice c)) : .set c ∈ (code a).acts :=
  (traced_reachable h).twice a c hp

omit [DecidableEq α] in
/-- The action sets the cell. -/
def Act.writes (c : κ) : Act κ α → Bool
  | .init x | .set x => x = c
  | .need _ | .start _ => false

omit [DecidableEq α] in
/-- **The activity `a` is the first that sets the cell**, and it does so at most once: whoever else
sets it counts on it. -/
structure First (code : α → Code κ α) (known : α → κ → Bool) (a : α) (c : κ) : Prop where
  once : (code a).once.countP (Act.writes c) ≤ 1
  loop : (code a).loop.countP (Act.writes c) = 0
  others : ∀ b, b ≠ a → ∀ act ∈ (code b).acts, act.writes c = true → known b c = true

omit [DecidableEq α] in
/-- The cell is set, or the activity `a` has still to set it. -/
structure Open (a : α) (c : κ) (s : State κ α) : Prop where
  left : (s.todo a).countP (Act.writes c) + (s.cells c).toNat ≤ 1
  started : s.cells c = true → s.started a = true
  not_twice : s.panic a ≠ some (.twice c)

variable {a : α} {c : κ}

omit [DecidableEq α] in
/-- When `a` is about to set the cell, it is not set. -/
theorem Open.fresh (h : Open a c s) {act : Act κ α} {rest : List (Act κ α)}
    (htodo : s.todo a = act :: rest) (hact : act.writes c = true) :
    s.cells c = false ∧ rest.countP (Act.writes c) = 0 := by
  have hleft := h.left
  rw [htodo, List.countP_cons, hact] at hleft
  cases hcell : s.cells c with
  | false =>
    simp only [hcell, if_true, Bool.toNat_false] at hleft
    exact ⟨rfl, by omega⟩
  | true =>
    simp only [hcell, if_true, Bool.toNat_true] at hleft
    omega

/-- The activity `b` has moved on and has set nothing. -/
theorem Open.go (h : Open a c s) {b : α} {rest : List (Act κ α)}
    (hle : b = a → rest.countP (Act.writes c) ≤ (s.todo a).countP (Act.writes c)) :
    Open a c (s.go b rest) := by
  refine ⟨?_, h.started, h.not_twice⟩
  have hleft := h.left
  by_cases hba : b = a
  · have hrest := hle hba
    subst hba
    simp only [State.go, Function.update_self]
    omega
  · simpa [State.go, Function.update_of_ne (Ne.symm hba)] using hleft

omit [DecidableEq α] in
/-- Another cell is set, or one that was set before. -/
theorem Open.fill (h : Open a c s) {x : κ} (hx : x = c → s.cells c = true) :
    Open a c (s.fill x) := by
  have hcells : (s.fill x).cells c = s.cells c := by
    by_cases hxc : x = c
    · subst hxc
      simp [State.fill, hx rfl]
    · simp [State.fill, Function.update_of_ne (Ne.symm hxc)]
  exact ⟨hcells.symm ▸ h.left, hcells.symm ▸ h.started, h.not_twice⟩

/-- The activity `b` sets the cell `x`. -/
theorem Open.write (h : Open a c s) {b : α} {x : κ} {act : Act κ α} {rest : List (Act κ α)}
    (htodo : s.todo b = act :: rest) (hact : act = .init x ∨ act = .set x)
    (hother : b ≠ a → act.writes c = true → s.cells c = true)
    (hstarted : s.started b = true) : Open a c ((s.fill x).go b rest) := by
  have hwrites : x = c → act.writes c = true := by rcases hact with rfl | rfl <;> simp [Act.writes]
  by_cases hxc : x = c ∧ b = a
  · obtain ⟨rfl, rfl⟩ := hxc
    refine ⟨?_, fun _ => hstarted, h.not_twice⟩
    simp [State.go, State.fill, (h.fresh htodo (hwrites rfl)).2]
  · refine (h.fill fun hx => ?_).go ?_
    · exact hother (fun hba => hxc ⟨hx, hba⟩) (hwrites hx)
    · rintro rfl
      rw [show (s.fill x).todo b = s.todo b from rfl, htodo, List.countP_cons]
      exact Nat.le_add_right ..

/-- An activity panics, but it is not `a` because of the cell. -/
theorem Open.fail (h : Open a c s) {b : α} {p : Panic κ} (hp : b = a → p ≠ .twice c) :
    Open a c (s.fail b p) := by
  have hgo : Open a c (s.go b []) := h.go (by simp)
  refine ⟨hgo.left, hgo.started, ?_⟩
  by_cases hab : a = b
  · simpa [State.fail, hab] using hp hab.symm
  · simpa [State.fail, Function.update_of_ne hab] using h.not_twice

/-- An activity is started. -/
theorem Open.launch (h : Open a c s) (hfirst : First code known a c) {b : α}
    (hb : s.started b = false) : Open a c (s.launch code b) := by
  refine ⟨?_, fun hcell => ?_, h.not_twice⟩
  · by_cases hab : a = b
    · subst hab
      -- the cell is not set before `a` has been started
      have hcell : s.cells c = false := by
        rw [Bool.eq_false_iff]
        intro hcell
        rw [h.started hcell] at hb
        cases hb
      simpa [State.launch, hcell] using hfirst.once
    · simpa [State.launch, Function.update_of_ne hab] using h.left
  · by_cases hab : a = b
    · simp [State.launch, hab]
    · simpa [State.launch, Function.update_of_ne hab] using h.started hcell

theorem open_fire (hfirst : First code known a c) (hinv : Inv code known excused s)
    (htraced : Traced code s) (h : Open a c s) {b : α} (hen : (system code main).Enabled s b) :
    Open a c (fire code s b) := by
  obtain ⟨hstarted, -, hready⟩ := hen
  unfold fire
  split
  · refine h.go ?_
    rintro rfl
    rw [hfirst.loop]
    exact Nat.zero_le _
  · rename_i act rest htodo
    have hle : b = a → rest.countP (Act.writes c) ≤ (s.todo a).countP (Act.writes c) := by
      rintro rfl
      rw [htodo, List.countP_cons]
      exact Nat.le_add_right ..
    -- another one that sets the cell was started when it was set
    have hother : b ≠ a → act.writes c = true → s.cells c = true := fun hba hw =>
      hinv.counted b c hstarted
        (hfirst.others b hba act (htraced.todo b act (htodo ▸ List.mem_cons_self)) hw)
    rw [htodo] at hready
    cases act with
    | init x => exact h.write htodo (.inl rfl) hother hstarted
    | set x =>
      simp only [perform]
      split_ifs with hset
      · refine h.fail ?_
        rintro rfl hx
        obtain rfl := Panic.twice.inj hx
        rw [(h.fresh htodo (by simp [Act.writes])).1] at hset
        cases hset
      · exact h.write htodo (.inr rfl) hother hstarted
    | need x =>
      simp only [perform]
      split_ifs
      · exact h.go hle
      · exact h.fail (by simp)
    | start x => exact (h.go hle).launch hfirst hready

/-- **The first activity that sets a cell does not find it set.** -/
theorem not_twice (hc : Checked code main known excused) (hfirst : First code known a c)
    (h : (system code main).ReachableBy ok s) : s.panic a ≠ some (.twice c) := by
  refine (h.invariant (I := Open a c) ⟨?_, by simp [system], by simp [system]⟩
    fun s l hs hi hen _ =>
      open_fire hfirst (inv_reachable hc hs) (traced_reachable hs) hi hen).not_twice
  by_cases ha : a = main
  · subst ha
    simpa [system] using hfirst.once
  · simp [system, Function.update_of_ne ha]

end OnceCells

end BunnyDs
