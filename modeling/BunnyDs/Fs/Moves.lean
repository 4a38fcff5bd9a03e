import BunnyDs.Fs.FuturesRun

/-!
# Moving file futures

`Read`, `Write` and `Flush` are `Unpin`, so that safe code may move one between two polls.  The
operation that the first poll submits has the addresses of the cells at that time, and the worker
stores there, whatever lies there then.  Here every future has a place in memory, and a store of
`resolve` goes to an address.

* `FileFutures.Laid` : the cells of the futures do not overlap.
* `FileFutures.Moving.system` : the futures and workers of `BunnyDs.Fs.FuturesRun`, where a task may
  move a future whenever it is not polling it.
* `FileFutures.Moving.run_fire` : a store by address is a store to the future's own cells, as long
  as a future lies where its operation says.
* `FileFutures.Moving.run_reachable` : if no future is moved between its first poll and `Ready`, the
  run is one of `BunnyDs.Fs.FuturesRun`.
* `FileFutures.Moving.reports_own` : every future then reports exactly its own operation's outcome.
* `FileFutures.Moving.reports_other` : a future that takes the place of a pending one reports the
  outcome of the other one's operation.

Memory in which no future lies is left out: nobody reads what a worker stores there, since a future
that is moved there brings its own cells along.
-/

namespace BunnyDs

namespace FileFutures

/-! ### Addresses -/

/-- The cells have no address in common. -/
structure Place.Apart (p q : Place) : Prop where
  state_state : p.state ≠ q.state
  state_result : p.state ≠ q.result
  result_state : p.result ≠ q.state
  result_result : p.result ≠ q.result

theorem Place.Apart.symm {p q : Place} (h : p.Apart q) : q.Apart p :=
  ⟨h.1.symm, h.3.symm, h.2.symm, h.4.symm⟩

instance (p q : Place) : Decidable (p.Apart q) :=
  decidable_of_iff (p.state ≠ q.state ∧ p.state ≠ q.result ∧ p.result ≠ q.state ∧
    p.result ≠ q.result) ⟨fun ⟨h₁, h₂, h₃, h₄⟩ => ⟨h₁, h₂, h₃, h₄⟩,
      fun ⟨h₁, h₂, h₃, h₄⟩ => ⟨h₁, h₂, h₃, h₄⟩⟩

/-- The addresses of the cells in an operation. -/
def AsyncFsMsg.place : AsyncFsMsg → Place
  | .write op | .read op => ⟨op.state, op.result⟩
  | .flush op => ⟨op.state, op.done⟩

/-- The operation that a future submits from the place `p`. -/
def AsyncFsMsg.placedAt (p : Place) : AsyncFsMsg → AsyncFsMsg
  | .write op => .write { op with state := p.state, result := p.result }
  | .read op => .read { op with state := p.state, result := p.result }
  | .flush op => .flush { op with state := p.state, done := p.result }

@[simp]
theorem AsyncFsMsg.place_placedAt (p : Place) (m : AsyncFsMsg) : (m.placedAt p).place = p := by
  cases m <;> rfl

/-- The word of the second store of `resolve`; a flag is taken for a word. -/
def AsyncFsMsg.resultWord (m : AsyncFsMsg) (res : BunnyResult ℕ) : UInt32 :=
  match m, res with
  | .write _, .ok v | .read _, .ok v => UInt32.ofNat v
  | .write _, .error _ | .read _, .error _ => 0
  | .flush _, _ => 1

/-- The next store of `resolve`: its address and its word; errors other than `Os` are a `todo!`. -/
def AsyncFsMsg.nextStore (m : AsyncFsMsg) : Stage → Option (UInt32 × UInt32)
  | .executed (.ok _) => some (m.place.state, 0)
  | .executed (.error (.ctru (.os osErr))) => some (m.place.state, osErr.toUInt32)
  | .stored res => some (m.place.result, m.resultWord res)
  | _ => none

/-- The cells of a future with the operation `m`, which lie at `p`, after a store. -/
def Cells.put (m : AsyncFsMsg) (p : Place) (c : Cells) : Option (UInt32 × UInt32) → Cells
  | some (addr, word) =>
    if addr = p.state then { c with state := word.toInt32 }
    else if addr = p.result then
      match m with
      | .write _ | .read _ => { c with result := word }
      | .flush _ => { c with done := word != 0 }
    else c
  | none => c

/-- Each future has two cells, and no two have one in common. -/
structure Laid {ι : Type*} (place : ι → Place) : Prop where
  two_cells : ∀ i, (place i).state ≠ (place i).result
  apart : ∀ i j, i ≠ j → (place i).Apart (place j)

/-- The future `i` can be moved to `p`. -/
def Free {ι : Type*} (place : ι → Place) (i : ι) (p : Place) : Prop :=
  p.state ≠ p.result ∧ ∀ j, j ≠ i → p.Apart (place j)

instance {ι : Type*} [Fintype ι] [DecidableEq ι] (place : ι → Place) (i : ι) (p : Place) :
    Decidable (Free place i p) :=
  inferInstanceAs (Decidable (p.state ≠ p.result ∧ ∀ j, j ≠ i → p.Apart (place j)))

theorem Laid.move {ι : Type*} [DecidableEq ι] {place : ι → Place} {i : ι} {p : Place}
    (h : Laid place) (hp : Free place i p) : Laid (Function.update place i p) where
  two_cells := (Function.forall_update_iff place fun _ p => p.state ≠ p.result).2
    ⟨hp.1, fun j _ => h.two_cells j⟩
  apart j j' hj := by
    by_cases h₁ : j = i <;> by_cases h₂ : j' = i
    · exact absurd (h₁.trans h₂.symm) hj
    · simpa [h₁, Function.update_of_ne h₂] using hp.2 j' h₂
    · simpa [h₂, Function.update_of_ne h₁] using (hp.2 j h₁).symm
    · simpa [Function.update_of_ne h₁, Function.update_of_ne h₂] using h.apart j j' hj

section Put

variable {m : AsyncFsMsg} {p q : Place} {c : Cells}

/-- A store to the cells of another future changes nothing. -/
theorem Cells.put_of_apart (h : p.Apart q) (st : Stage) {m' : AsyncFsMsg} :
    c.put m' q ((m.placedAt p).nextStore st) = c := by
  have hne : ∀ addr word, addr ≠ q.state → addr ≠ q.result →
      c.put m' q (some (addr, word)) = c := fun addr word hs hr => by
    simp only [put, if_neg hs, if_neg hr]
  unfold AsyncFsMsg.nextStore
  rw [AsyncFsMsg.place_placedAt]
  split
  · exact hne _ _ h.1 h.2
  · exact hne _ _ h.1 h.2
  · exact hne _ _ h.3 h.4
  · rfl

/-- A store to the future's own cells. -/
theorem Cells.put_own (hp : p.state ≠ p.result) (f : Fut) :
    f.cells.put m p ((m.placedAt p).nextStore f.stage) = (f.store m).cells := by
  cases hst : f.stage with
  | executed res =>
    rcases res with ((code | e) | e | e) | n <;>
      simp [AsyncFsMsg.nextStore, Fut.store, hst, storeState, put]
  | stored res =>
    cases m <;> rcases res with e | n <;>
      simp [AsyncFsMsg.nextStore, AsyncFsMsg.resultWord, AsyncFsMsg.placedAt, AsyncFsMsg.place,
        Fut.store, hst, storeResult, storeCount, storeDone, put, hp.symm]
  | _ => simp [AsyncFsMsg.nextStore, Fut.store, hst, put]

end Put

namespace Moving

/-! ### The system -/

variable {ι κ : Type*}

/-- The futures and workers, where the futures lie, and the operations as they were submitted. -/
structure State (ι κ : Type*) where
  run : FileFutures.State ι κ
  place : ι → Place
  sent : ι → Option AsyncFsMsg

/-- One step of a future, of a worker or of a task that moves a future. -/
inductive Label (ι κ : Type*) where
  | step (l : FileFutures.Label ι κ)
  | move (i : ι) (p : Place)

/-- A store: a future that has a cell at its address finds the word there. -/
def State.put (msg : ι → AsyncFsMsg) (s : State ι κ) (store : Option (UInt32 × UInt32)) :
    State ι κ :=
  { s with
    run.futs := fun j => { s.run.futs j with
      cells := (s.run.futs j).cells.put (msg j) (s.place j) store } }

variable [DecidableEq ι] [DecidableEq κ]

/-- The worker of the operation `i` makes its next store, to the address in the operation. -/
def State.store (msg : ι → AsyncFsMsg) (s : State ι κ) (i : ι) : State ι κ :=
  let moved : State ι κ := { s with
    run := s.run.update i fun f => { f.store (msg i) with cells := f.cells } }
  moved.put msg ((s.sent i).bind fun m => m.nextStore (s.run.futs i).stage)

/-- What was submitted, after an access of a poll. -/
def State.submit (msg : ι → AsyncFsMsg) (s : State ι κ) (i : ι) : ι → Option AsyncFsMsg :=
  if (s.run.futs i).pc = .push then
    Function.update s.sent i (some ((msg i).placedAt (s.place i)))
  else s.sent

/-- The effect of a step. -/
def fire (C : Ctru) (msg : ι → AsyncFsMsg) (s : State ι κ) : Label ι κ → State ι κ
  | .step (.access i) =>
    { s with run := FileFutures.fire C msg s.run (.access i), sent := s.submit msg i }
  | .step (.store k) =>
    match s.run.opOf k with
    | some i => s.store msg i
    | none => s
  | .step l => { s with run := FileFutures.fire C msg s.run l }
  -- the future takes its cells along
  | .move i p => { s with place := Function.update s.place i p }

/-- A step can be taken: no future is moved during its poll, or to where another one lies. -/
def Enabled (s : State ι κ) : Label ι κ → Prop
  | .step l => FileFutures.Enabled s.run l
  | .move i p => (s.run.futs i).pc = .idle ∧ Free s.place i p

/-- The futures `ι` and the workers `κ`, with moves; `msg` has the addresses at which the futures
are created. -/
def system (C : Ctru) (msg : ι → AsyncFsMsg) : LTS (State ι κ) (Label ι κ) where
  init := ⟨(FileFutures.system C msg).init, fun i => (msg i).place, fun _ => none⟩
  Enabled := Enabled
  fire := fire C msg

/-- The file service answers every operation of the run as it is assumed to. -/
def AnswersAssumed (C : Ctru) (msg : ι → AsyncFsMsg) (s : State ι κ) : Label ι κ → Prop
  | .step l => Assumed C msg s.run l
  | .move _ _ => True

omit [DecidableEq ι] [DecidableEq κ] in
/-- **No future is moved between its first poll and `Ready`.** -/
def StaysPut (s : State ι κ) : Label ι κ → Prop
  | .move i _ => (s.run.futs i).NotPending
  | .step _ => True

/-! ### Futures that stay put -/

omit [DecidableEq ι] [DecidableEq κ] in
/-- **Every future lies where its operation says**, as long as a worker has to store there. -/
structure InPlace (msg : ι → AsyncFsMsg) (s : State ι κ) : Prop where
  laid : Laid s.place
  sent : ∀ i, owed (s.run.futs i).stage = true → s.sent i = some ((msg i).placedAt (s.place i))

section Runs

variable {C : Ctru} {msg : ι → AsyncFsMsg} {s : State ι κ}

omit [DecidableEq κ] in
/-- The store of a worker, to the cells of its own future. -/
theorem run_store (h : InPlace msg s) {i : ι} (hst : (s.run.futs i).stage.isStoring = true) :
    (s.store msg i).run = s.run.update i (Fut.store (msg i)) := by
  have hsent := h.sent i (owed_of_isStoring hst)
  have hown := Cells.put_own (m := msg i) (h.laid.two_cells i) (s.run.futs i)
  simp only [State.store, State.put, hsent, Option.bind_some, FileFutures.State.update,
    FileFutures.State.mk.injEq, true_and]
  funext j
  by_cases hj : j = i
  · subst hj
    simp only [Function.update_self]
    rw [hown]
  · simp only [Function.update_of_ne hj]
    rw [Cells.put_of_apart (h.laid.apart i j (Ne.symm hj))]

/-- **A store by address is a store to the future's own cells**, as long as every future lies where
its operation says. -/
theorem run_fire (h : InPlace msg s) {l : FileFutures.Label ι κ}
    (hen : FileFutures.Enabled s.run l) :
    (fire C msg s (.step l)).run = FileFutures.fire C msg s.run l := by
  cases l with
  | store k =>
    simp only [fire, FileFutures.fire]
    cases hop : s.run.opOf k with
    | none => rfl
    | some i => exact run_store h (State.stageOf_of_op hop ▸ hen)
  | _ => rfl

omit [DecidableEq κ] in
/-- A poll submits the operation from where the future lies. -/
theorem submit_eq {i j : ι}
    (h : s.sent j = some ((msg j).placedAt (s.place j)) ∨ j = i ∧ (s.run.futs i).pc = .push) :
    s.submit msg i j = some ((msg j).placedAt (s.place j)) := by
  unfold State.submit
  by_cases hj : j = i
  · subst hj
    split_ifs with hpc
    · exact Function.update_self ..
    · exact h.resolve_right fun h => hpc h.2
  · have h := h.resolve_right fun h => hj h.1
    split_ifs
    · rwa [Function.update_of_ne hj]
    · exact h

/-- What is owed to a future was submitted from where it lies, also after a step. -/
theorem sent_step {l : FileFutures.Label ι κ} {i : ι}
    (h : s.sent i = some ((msg i).placedAt (s.place i)) ∨
      l = .access i ∧ (s.run.futs i).pc = .push) :
    (fire C msg s (.step l)).sent i = some ((msg i).placedAt (s.place i)) := by
  cases l with
  | access j =>
    refine submit_eq (h.imp_right fun ⟨hl, hpc⟩ => ?_)
    obtain rfl := FileFutures.Label.access.inj hl
    exact ⟨rfl, hpc⟩
  | store k =>
    obtain h | ⟨⟨⟩, -⟩ := h
    simp only [fire]
    cases s.run.opOf k <;> exact h
  | _ =>
    obtain h | ⟨⟨⟩, -⟩ := h
    exact h

theorem place_step (C : Ctru) (msg : ι → AsyncFsMsg) (s : State ι κ) (l : FileFutures.Label ι κ) :
    (fire C msg s (.step l)).place = s.place := by
  cases l with
  | store k =>
    simp only [fire]
    cases s.run.opOf k <;> rfl
  | _ => rfl

/-- Every step leaves the futures where their operations say. -/
theorem inPlace_step {l : Label ι κ} (h : InPlace msg s) (hi : Inv C msg s.run)
    (hv : ∀ i, ReadyVisible (s.run.futs i)) (hen : Enabled s l) (hok : StaysPut s l) :
    InPlace msg (fire C msg s l) := by
  cases l with
  | move i p =>
    refine ⟨h.laid.move hen.2, fun j hj => ?_⟩
    -- nothing is owed to the future that moves
    have hne : j ≠ i := by
      rintro rfl
      exact absurd hj (by simp [fire, owed_of_notPending (hi.futs j) (hv j) hok])
    simp only [fire, Function.update_of_ne hne]
    exact h.sent j hj
  | step l =>
    have hplace := place_step C msg s l
    refine ⟨hplace ▸ h.laid, ?_⟩
    rw [run_fire h hen, hplace]
    exact owed_step hi hen (fun i hl hpc => sent_step (.inr ⟨hl, hpc⟩))
      fun i ho => sent_step (.inl (h.sent i ho))

/-- **The run without moves.**  If no future is moved between its first poll and `Ready`, the run is
one in which every worker stores to the cells of its own future. -/
theorem run_reachable (hlaid : Laid fun i => (msg i).place)
    (h : (system C msg).ReachableBy (fun s l => AnswersAssumed C msg s l ∧ StaysPut s l) s) :
    (FileFutures.system C msg).ReachableBy (Assumed C msg) s.run ∧ InPlace msg s := by
  refine h.invariant (I := fun s => (FileFutures.system C msg).ReachableBy (Assumed C msg) s.run ∧
    InPlace msg s) ⟨.init, hlaid, fun _ h => ?_⟩ fun s l _ hI hen hok => ?_
  · simp [system, FileFutures.system, Fut.new, owed] at h
  · obtain ⟨hrun, hplace⟩ := hI
    refine ⟨?_, inPlace_step hplace (inv_reachable hrun) (readyVisible_reachable hrun) hen hok.2⟩
    cases l with
    | move i p => exact hrun
    | step l =>
      simp only [system, run_fire hplace hen]
      exact hrun.step hen hok.1

/-- **Every future reports exactly its own operation's outcome.**  For any number of futures and
workers and every interleaving of their accesses, under what is assumed of the file service, and if
no future is moved between its first poll and `Ready`: a future submits exactly one operation, each
of its `Ready` values is what the file operation returned before, its task is woken after the result
became visible, and the poll that follows returns the outcome. -/
theorem reports_own (hlaid : Laid fun i => (msg i).place)
    (h : (system C msg).ReachableBy (fun s l => AnswersAssumed C msg s l ∧ StaysPut s l) s)
    (i : ι) : Reports C (msg i) (s.run.futs i) :=
  ((inv_reachable (run_reachable hlaid h).1).futs i).reports

end Runs

/-! ### Runs of two futures -/

instance [Fintype ι] (C : Ctru) (msg : ι → AsyncFsMsg) (s : State ι κ) (l : Label ι κ) :
    Decidable ((system C msg).Enabled s l) :=
  match l with
  | .step l => inferInstanceAs (Decidable (FileFutures.Enabled s.run l))
  | .move i p => inferInstanceAs (Decidable ((s.run.futs i).pc = .idle ∧ Free s.place i p))

instance (C : Ctru) (msg : ι → AsyncFsMsg) (s : State ι κ) (l : Label ι κ) :
    Decidable (AnswersAssumed C msg s l) :=
  match l with
  | .step l => inferInstanceAs (Decidable (Assumed C msg s.run l))
  | .move _ _ => inferInstanceAs (Decidable True)

instance (s : State ι κ) (l : Label ι κ) : Decidable (StaysPut s l) :=
  match l with
  | .step _ => inferInstanceAs (Decidable True)
  | .move i _ => inferInstanceAs (Decidable (s.run.futs i).NotPending)

/-- Task 3 reads up to 24 bytes of a file, task 4 reads up to 12 bytes of another one. -/
def twoReads : Fin 2 → AsyncFsMsg :=
  ![.read ⟨7, ⟨3⟩, 0x100, 0x104, 0, 24, 0x800, by decide⟩,
    .read ⟨8, ⟨4⟩, 0x120, 0x124, 32, 12, 0x900, by decide⟩]

theorem laid_twoReads : Laid fun i => (twoReads i).place :=
  ⟨by decide, by decide⟩

/-- The first read is moved before its first poll, and again when it is ready; the second one, which
fails, is then moved to where the first one was polled. -/
theorem reports_own_two : ∃ s : State (Fin 2) (Fin 1),
    (system .libctru twoReads).ReachableBy
      (fun s l => AnswersAssumed .libctru twoReads s l ∧ StaysPut s l) s ∧
    .polled (some (.ok 5)) ∈ (s.run.futs 0).log ∧
    .polled (some (.error (.ctru (.os (-1))))) ∈ (s.run.futs 1).log ∧
    ∀ i, Reports .libctru (twoReads i) (s.run.futs i) := by
  obtain ⟨s, hs, h₀, h₁⟩ :=
    LTS.exists_of_exec (system .libctru twoReads)
      (fun s l => AnswersAssumed .libctru twoReads s l ∧ StaysPut s l)
      [.move 0 ⟨0x140, 0x144⟩, .step (.poll 0), .step (.access 0), .step (.access 0),
        .step (.access 0), .step (.take 0), .step (.remove 0), .step (.execute 0 (.reply 0 5)),
        .step (.store 0), .step (.store 0), .step (.access 0), .step (.wake 0), .step (.poll 0),
        .step (.access 0), .step (.access 0), .move 0 ⟨0x100, 0x104⟩, .move 1 ⟨0x140, 0x144⟩,
        .step (.poll 1), .step (.access 1), .step (.access 1), .step (.access 1),
        .step (.access 1), .step (.take 0), .step (.remove 0), .step (.execute 0 (.reply (-1) 0)),
        .step (.store 0), .step (.store 0), .step (.wake 0), .step (.poll 1), .step (.access 1),
        .step (.access 1)]
      (fun s : State (Fin 2) (Fin 1) => .polled (some (.ok 5)) ∈ (s.run.futs 0).log ∧
        .polled (some (.error (.ctru (.os (-1))))) ∈ (s.run.futs 1).log) (by decide)
  exact ⟨s, hs, h₀, h₁, fun i => reports_own laid_twoReads hs i⟩

/-- **A future reports the outcome of another one's operation.**  The first read is polled and then
moved, and the second one is put where it was.  The worker stores the count of the first read into
the cells of the second one, which reports five bytes before its own operation has run. -/
theorem reports_other : ∃ s : State (Fin 2) (Fin 1),
    (system .libctru twoReads).ReachableBy (AnswersAssumed .libctru twoReads) s ∧
    (s.run.futs 1).log = [.polled (some (.ok 5)), .polled none, .submitted] ∧
    1 ∈ s.run.base.pool.queue.vals ∧
    ¬ Reports .libctru (twoReads 1) (s.run.futs 1) := by
  obtain ⟨s, hs, hlog, hqueue⟩ :=
    LTS.exists_of_exec (system .libctru twoReads) (AnswersAssumed .libctru twoReads)
      [.step (.poll 0), .step (.access 0), .step (.access 0), .step (.access 0),
        .step (.access 0), .step (.take 0), .step (.remove 0), .move 0 ⟨0x140, 0x144⟩,
        .move 1 ⟨0x100, 0x104⟩, .step (.poll 1), .step (.access 1), .step (.access 1),
        .step (.access 1), .step (.access 1), .step (.execute 0 (.reply 0 5)), .step (.store 0),
        .step (.store 0), .step (.poll 1), .step (.access 1), .step (.access 1)]
      (fun s : State (Fin 2) (Fin 1) =>
        (s.run.futs 1).log = [.polled (some (.ok 5)), .polled none, .submitted] ∧
        1 ∈ s.run.base.pool.queue.vals) (by decide)
  refine ⟨s, hs, hlog, hqueue, fun h => ?_⟩
  have hbefore := h.ready_own (.ok 5) (by rw [hlog]; decide)
  rw [hlog] at hbefore
  exact absurd hbefore.mem_left (by decide)

end Moving

end FileFutures

end BunnyDs
