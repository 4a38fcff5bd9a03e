import BunnyDs.Executor.Run
import BunnyDs.Fs.Pool

/-!
# The order of queues

`SyncQueue::add` pushes at the back of the deque and `SyncQueue::remove` pops from the **back**:
the queue is a stack.  A `History` keeps what was added and what was served, in order, and
`History.Fifo` says that the second is a prefix of the first.

* `SyncQueue.fifo_iff` : for distinct values the order is kept exactly when every `remove` finds
  at most one value.
* The same condition on the `remove` calls of the executor and of the `IoWorker`s keeps the order
  of first polls, of wakes and of file operations: `first_in_first_out`.
* Two values that meet in a queue are served in the opposite order: `last_in_first_out`.
-/

namespace BunnyDs

/-! ### Histories -/

/-- What went into a queue and what its consumer was served, oldest first. -/
structure History (α : Type*) where
  added : List α
  served : List α
  deriving DecidableEq

namespace History

variable {α : Type*} {h : History α} {v : α} {waiting : List α}

/-- Nothing happened. -/
def nil : History α := ⟨[], []⟩

def add (h : History α) (v : α) : History α := { h with added := h.added ++ [v] }

def serve (h : History α) (v : α) : History α := { h with served := h.served ++ [v] }

/-- First in, first out. -/
def Fifo (h : History α) : Prop := h.served <+: h.added

instance [DecidableEq α] (h : History α) : Decidable h.Fifo :=
  inferInstanceAs (Decidable (h.served <+: h.added))

/-- What was added and not served is `waiting`, in the order of the additions. -/
def Tracks (h : History α) (waiting : List α) : Prop := h.added = h.served ++ waiting

theorem tracks_nil : (nil : History α).Tracks [] := rfl

theorem Tracks.add (ht : h.Tracks waiting) : (h.add v).Tracks (waiting ++ [v]) := by
  simp only [Tracks, History.add] at ht ⊢
  rw [ht, List.append_assoc]

theorem Tracks.serve (ht : h.Tracks (v :: waiting)) : (h.serve v).Tracks waiting := by
  simp only [Tracks, History.serve] at ht ⊢
  rw [ht, List.append_assoc, List.singleton_append]

theorem Tracks.serveAll {held : List α} (ht : h.Tracks (held ++ waiting)) :
    (held.foldl History.serve h).Tracks waiting := by
  induction held generalizing h with
  | nil => exact ht
  | cons v held ih => exact ih ht.serve

theorem Tracks.fifo (ht : h.Tracks waiting) : h.Fifo := ⟨waiting, ht.symm⟩

end History

/-! ### One queue -/

namespace SyncQueue

variable {α : Type*}

/-- One access to a queue by any of its users; the halves of an `add` are apart. -/
inductive Access (α : Type*) where
  | push (v : α)
  | release
  | remove
  | wait
  deriving DecidableEq

/-- What an access leaves behind. -/
def access (q : SyncQueue α) : Access α → SyncQueue α
  | .push v => q.pushBack v
  | .release => q.release
  | .remove => q.popBack
  | .wait => q.wait

/-- What an access adds to the history: a `remove` serves the value it returns. -/
def record (q : SyncQueue α) (h : History α) : Access α → History α
  | .push v => h.add v
  | .remove => (q.back?.map h.serve).getD h
  | .release | .wait => h

/-- A sequence of accesses. -/
def run (q : SyncQueue α) (h : History α) : List (Access α) → SyncQueue α × History α
  | [] => (q, h)
  | a :: as => run (q.access a) (q.record h a) as

/-- Every `remove` of the sequence finds at most one value. -/
def Alone (q : SyncQueue α) : List (Access α) → Prop
  | [] => True
  | a :: as => (a = .remove → q.vals.length ≤ 1) ∧ Alone (q.access a) as

instance decidableAlone [DecidableEq α] :
    (q : SyncQueue α) → (as : List (Access α)) → Decidable (q.Alone as)
  | _, [] => inferInstanceAs (Decidable True)
  | q, a :: as =>
    have := decidableAlone (q.access a) as
    inferInstanceAs (Decidable ((a = .remove → q.vals.length ≤ 1) ∧ Alone (q.access a) as))

variable {q : SyncQueue α} {h : History α}

/-- A queue of at most one value: what `remove` takes is all there was. -/
theorem vals_of_back? {v : α} (hle : q.vals.length ≤ 1) (hback : q.back? = some v) :
    q.vals = [v] ∧ q.popBack.vals = [] := by
  have hv := vals_eq_of_back? hback
  have hnil : q.popBack.vals = [] := by
    rw [hv, List.length_append, List.length_singleton] at hle
    exact List.eq_nil_of_length_eq_zero (by omega)
  exact ⟨by rw [hv, hnil, List.nil_append], hnil⟩

/-- One access keeps the order if it does not remove a value past another one. -/
theorem tracks_record (ht : h.Tracks q.vals) {a : Access α}
    (ha : a = .remove → q.vals.length ≤ 1) : (q.record h a).Tracks (q.access a).vals := by
  cases a with
  | push v => exact ht.add
  | release => exact ht
  | wait => exact ht
  | remove =>
    simp only [record, access]
    cases hback : q.back? with
    | none =>
      rw [back?_eq_none] at hback
      simpa [hback] using ht
    | some v =>
      obtain ⟨hv, hnil⟩ := vals_of_back? (ha rfl) hback
      rw [hv] at ht
      rw [hnil]
      exact ht.serve

theorem tracks_run (ht : h.Tracks q.vals) {as : List (Access α)} (ha : q.Alone as) :
    (q.run h as).2.Tracks (q.run h as).1.vals := by
  induction as generalizing q h with
  | nil => exact ht
  | cons a as ih => exact ih (tracks_record ht ha.1) ha.2

/-- The history only grows. -/
theorem prefix_run (q : SyncQueue α) (h : History α) (as : List (Access α)) :
    h.added <+: (q.run h as).2.added ∧ h.served <+: (q.run h as).2.served := by
  induction as generalizing q h with
  | nil => exact ⟨List.prefix_rfl, List.prefix_rfl⟩
  | cons a as ih =>
    obtain ⟨hadd, hserve⟩ := ih (q.access a) (q.record h a)
    have hstep : h.added <+: (q.record h a).added ∧ h.served <+: (q.record h a).served := by
      cases a with
      | push v => exact ⟨List.prefix_append _ _, List.prefix_rfl⟩
      | remove =>
        cases hb : q.back? with
        | none => simp [record, hb]
        | some v => simp [record, hb, History.serve]
      | release => exact ⟨List.prefix_rfl, List.prefix_rfl⟩
      | wait => exact ⟨List.prefix_rfl, List.prefix_rfl⟩
    exact ⟨hstep.1.trans hadd, hstep.2.trans hserve⟩

/-- A value removed past another one is served too early, and stays so. -/
theorem alone_of_fifo (ht : h.Tracks q.vals) {as : List (Access α)}
    (hnd : (q.run h as).2.added.Nodup) (hf : (q.run h as).2.Fifo) : q.Alone as := by
  induction as generalizing q h with
  | nil => trivial
  | cons a as ih =>
    have ha : a = .remove → q.vals.length ≤ 1 := by
      rintro rfl
      by_contra hlen
      -- the value served is the last one; by the order it is the first one
      obtain ⟨v, w, vs, hv⟩ : ∃ v w vs, q.vals = v :: (vs ++ [w]) := by
        rcases hv : q.vals with _ | ⟨v, rest⟩
        · simp [hv] at hlen
        · rcases List.eq_nil_or_concat rest with rfl | ⟨vs, w, rfl⟩
          · simp [hv] at hlen
          · exact ⟨v, w, vs, by rw [List.concat_eq_append]⟩
      have hback : q.back? = some w := by
        rw [back?, hv, ← List.cons_append, List.getLast?_concat]
      obtain ⟨-, hserve⟩ := prefix_run (q.access .remove) (q.record h .remove) as
      have hadd : h.added <+: (q.run h (.remove :: as)).2.added := (prefix_run q h _).1
      have hw : h.served ++ [w] <+: (q.run h (.remove :: as)).2.added := by
        have : (q.record h .remove).served = h.served ++ [w] := by
          simp [record, hback, History.serve]
        exact this ▸ hserve.trans hf
      have hvw : h.served ++ [w] <+: h.added := by
        refine List.prefix_of_prefix_length_le hw hadd ?_
        rw [show h.added = _ from ht, hv]
        simp
      rw [show h.added = _ from ht, hv, List.prefix_append_right_inj] at hvw
      obtain rfl : w = v := by simpa using hvw
      have hnd' : h.added.Nodup := hnd.sublist hadd.sublist
      rw [show h.added = _ from ht, hv] at hnd'
      simp [List.nodup_append] at hnd'
    exact ⟨ha, ih (tracks_record ht ha) hnd hf⟩

/-- **A queue of distinct values is first in, first out exactly when no `remove` finds two of
them.** -/
theorem fifo_iff {as : List (Access α)} (hnd : (run .new .nil as).2.added.Nodup) :
    (run .new .nil as).2.Fifo ↔ Alone .new as :=
  ⟨alone_of_fifo History.tracks_nil hnd, fun ha => (tracks_run History.tracks_nil ha).fifo⟩

end SyncQueue

/-! ### The executor's queues -/

namespace Executor

variable {F W : Type*}

/-- The future that was taken off `TASK_QUEUE` and not polled yet. -/
def Phase.heldTask : Phase F W → List F
  | .spawning fut => [fut]
  | _ => []

/-- The wake that was taken off `WAKE_QUEUE` and not looked up yet. -/
def Phase.heldWake : Phase F W → List W
  | .waking w => [w]
  | _ => []

/-- Tasks in the order of their pushes, and of their first polls. -/
def recordTask (s : State F W) : Label F W → History F → History F
  | .pushTask fut, h => h.add fut
  | .poll, h => s.phase.heldTask.foldl History.serve h
  | _, h => h

/-- Wakes in the order of their pushes, and of their handling. -/
def recordWake (s : State F W) : Label F W → History W → History W
  | .pushWake w, h => h.add w
  | .poll, h => s.phase.heldWake.foldl History.serve h
  | _, h => h

variable [DecidableEq F] [DecidableEq W]

/-- The executor with the histories of its two queues. -/
def recorded (token : W → TaskToken) : LTS (State F W × History F × History W) (Label F W) :=
  (system token).withGhost (.nil, .nil) fun s l g => (recordTask s l g.1, recordWake s l g.2)

instance (token : W → TaskToken) (p : State F W × History F × History W) (l : Label F W) :
    Decidable ((recorded token).Enabled p l) :=
  inferInstanceAs (Decidable (Enabled p.1 l))

omit [DecidableEq F] [DecidableEq W] in
/-- A `remove` of the executor finds at most one value in its queue. -/
def RemovesAlone (s : State F W) : Label F W → Prop
  | .remove => (s.phase.worksOn .task = true → s.taskQueue.queue.vals.length ≤ 1) ∧
      (s.phase.worksOn .wake = true → s.wakeQueue.queue.vals.length ≤ 1)
  | _ => True

instance (s : State F W) (l : Label F W) : Decidable (RemovesAlone s l) :=
  match l with
  | .remove => inferInstanceAs (Decidable
      ((s.phase.worksOn .task = true → s.taskQueue.queue.vals.length ≤ 1) ∧
        (s.phase.worksOn .wake = true → s.wakeQueue.queue.vals.length ≤ 1)))
  | .pushTask _ | .releaseTask _ | .pushWake _ | .releaseWake _ | .wait | .poll | .finish _ =>
    inferInstanceAs (Decidable True)

section

variable {token : W → TaskToken} {s : State F W}

omit [DecidableEq F] [DecidableEq W] in
/-- The same values wait in both queues. -/
def SameWaiting (s s' : State F W) : Prop :=
  s'.phase.heldTask ++ s'.taskQueue.queue.vals = s.phase.heldTask ++ s.taskQueue.queue.vals ∧
    s'.phase.heldWake ++ s'.wakeQueue.queue.vals = s.phase.heldWake ++ s.wakeQueue.queue.vals

omit [DecidableEq F] [DecidableEq W] in
theorem sameWaiting_waitN (h : s.phase = .waiting) : SameWaiting s (waitN s) := by
  unfold SameWaiting waitN
  rw [h]
  split_ifs <;> exact ⟨rfl, rfl⟩

theorem sameWaiting_finish (token : W → TaskToken) (s : State F W) (isReady : Bool) :
    SameWaiting s (fire token s (.finish isReady)) := by
  unfold SameWaiting fire
  cases hph : s.phase with
  | initialPoll taskKey fut | wakePoll task fut => exact ⟨rfl, rfl⟩
  | _ => simp only [hph, and_self]

/-- A `remove` that finds at most one value only moves it from the queue to the executor. -/
theorem sameWaiting_remove (token : W → TaskToken) (hok : RemovesAlone s .remove) :
    SameWaiting s (fire token s .remove) := by
  simp only [fire]
  split
  · rename_i q hph
    unfold SameWaiting
    cases q with
    | task =>
      simp only [remove]
      split
      · rename_i fut hback
        obtain ⟨hv, -⟩ := SyncQueue.vals_of_back? (hok.1 (by rw [hph]; rfl)) hback
        simp [Phase.heldTask, Phase.heldWake, hph, hv]
      · simp [Phase.heldTask, Phase.heldWake, hph]
    | wake =>
      simp only [remove]
      split
      · rename_i w hback
        obtain ⟨hv, -⟩ := SyncQueue.vals_of_back? (hok.2 (by rw [hph]; rfl)) hback
        simp [Phase.heldTask, Phase.heldWake, hph, hv]
      · simp [Phase.heldTask, Phase.heldWake, hph]
  · exact ⟨rfl, rfl⟩

/-- After the call of `poll` the executor holds nothing, and the queues are as before. -/
theorem fire_poll (token : W → TaskToken) (hen : s.phase.beforePoll = true) :
    ((fire token s .poll).phase.heldTask = [] ∧ (fire token s .poll).taskQueue = s.taskQueue) ∧
      (fire token s .poll).phase.heldWake = [] ∧ (fire token s .poll).wakeQueue = s.wakeQueue := by
  simp only [fire]
  split
  · exact ⟨⟨rfl, rfl⟩, rfl, rfl⟩
  · simp only [wake]
    split <;> exact ⟨⟨rfl, rfl⟩, rfl, rfl⟩
  · cases hph : s.phase <;> simp_all [Phase.beforePoll]

theorem tracks_recordTask {l : Label F W} {h : History F}
    (ht : h.Tracks (s.phase.heldTask ++ s.taskQueue.queue.vals)) (hen : Enabled s l)
    (hok : RemovesAlone s l) : (recordTask s l h).Tracks
      ((fire token s l).phase.heldTask ++ (fire token s l).taskQueue.queue.vals) := by
  cases l with
  | pushTask fut =>
    have hen : s.taskQueue.adds fut = .idle := hen
    simp only [fire, Channel.push_queue hen, SyncQueue.pushBack_vals, ← List.append_assoc]
    exact ht.add
  | wait =>
    rw [fire, (sameWaiting_waitN hen.1).1]
    exact ht
  | remove =>
    rw [(sameWaiting_remove token hok).1]
    exact ht
  | poll =>
    obtain ⟨hheld, hqueue⟩ := (fire_poll token hen).1
    rw [hheld, hqueue]
    exact ht.serveAll
  | finish isReady =>
    rw [(sameWaiting_finish token s isReady).1]
    exact ht
  | _ => exact ht

theorem tracks_recordWake {l : Label F W} {h : History W}
    (ht : h.Tracks (s.phase.heldWake ++ s.wakeQueue.queue.vals)) (hen : Enabled s l)
    (hok : RemovesAlone s l) : (recordWake s l h).Tracks
      ((fire token s l).phase.heldWake ++ (fire token s l).wakeQueue.queue.vals) := by
  cases l with
  | pushWake w =>
    have hen : s.wakeQueue.adds w = .idle := hen
    simp only [fire, Channel.push_queue hen, SyncQueue.pushBack_vals, ← List.append_assoc]
    exact ht.add
  | wait =>
    rw [fire, (sameWaiting_waitN hen.1).2]
    exact ht
  | remove =>
    rw [(sameWaiting_remove token hok).2]
    exact ht
  | poll =>
    obtain ⟨hheld, hqueue⟩ := (fire_poll token hen).2
    rw [hheld, hqueue]
    exact ht.serveAll
  | finish isReady =>
    rw [(sameWaiting_finish token s isReady).2]
    exact ht
  | _ => exact ht

/-- In every run whose `remove` calls find at most one value, tasks and wakes wait in the order of
their pushes. -/
theorem tracks_recorded {p : State F W × History F × History W}
    (h : (recorded token).ReachableBy (fun p => RemovesAlone p.1) p) :
    p.2.1.Tracks (p.1.phase.heldTask ++ p.1.taskQueue.queue.vals) ∧
      p.2.2.Tracks (p.1.phase.heldWake ++ p.1.wakeQueue.queue.vals) :=
  h.invariant (I := fun p => p.2.1.Tracks (p.1.phase.heldTask ++ p.1.taskQueue.queue.vals) ∧
      p.2.2.Tracks (p.1.phase.heldWake ++ p.1.wakeQueue.queue.vals))
    ⟨History.tracks_nil, History.tracks_nil⟩ fun _ _ _ hi hen hok =>
      ⟨tracks_recordTask hi.1 hen hok, tracks_recordWake hi.2 hen hok⟩

end

end Executor

/-! ### The file-operation pool -/

namespace Pool

variable {ι κ : Type*}

/-- Operations in the order of their submission, and in which they are executed. -/
def record (s : State ι κ) : Label ι κ → History ι → History ι
  | .push op, h => h.add op
  | .remove _, h => (s.pool.queue.back?.map h.serve).getD h
  | _, h => h

/-- A worker's `remove` finds at most one operation. -/
def RemovesAlone (s : State ι κ) : Label ι κ → Prop
  | .remove _ => s.pool.queue.vals.length ≤ 1
  | _ => True

instance (s : State ι κ) (l : Label ι κ) : Decidable (RemovesAlone s l) :=
  match l with
  | .remove _ => inferInstanceAs (Decidable (s.pool.queue.vals.length ≤ 1))
  | .push _ | .release _ | .take _ | .finish _ => inferInstanceAs (Decidable True)

variable [DecidableEq ι] [DecidableEq κ]

/-- The pool with the history of its operations. -/
def recorded : LTS (State ι κ × History ι) (Label ι κ) := system.withGhost .nil record

instance (p : State ι κ × History ι) (l : Label ι κ) : Decidable (recorded.Enabled p l) :=
  inferInstanceAs (Decidable (system.Enabled p.1 l))

theorem tracks_record {s : State ι κ} {l : Label ι κ} {h : History ι}
    (ht : h.Tracks s.pool.queue.vals) (hen : Enabled s l) (hok : RemovesAlone s l) :
    (record s l h).Tracks (fire s l).pool.queue.vals := by
  cases l with
  | push op =>
    have hen : s.pool.adds op = .idle := hen
    simp only [fire, Channel.push_queue hen, SyncQueue.pushBack_vals]
    exact ht.add
  | remove k =>
    simp only [fire, record]
    split
    · rename_i op hback
      obtain ⟨hv, hnil⟩ := SyncQueue.vals_of_back? hok hback
      rw [hv] at ht
      rw [hback, Channel.remove_queue, hnil]
      exact ht.serve
    · rename_i hback
      simpa [hback] using ht
  | _ => exact ht

theorem tracks_recorded {p : State ι κ × History ι}
    (h : recorded.ReachableBy (fun p => RemovesAlone p.1) p) : p.2.Tracks p.1.pool.queue.vals :=
  h.invariant (I := fun p => p.2.Tracks p.1.pool.queue.vals) History.tracks_nil
    fun _ _ _ hi hen hok => tracks_record hi hen hok

end Pool

/-! ### All three -/

/-- **First in, first out, while no two values meet in a queue.**  A queue whose every `remove`
finds at most one value serves them in the order of the additions, and for distinct values only
such a queue does.  In a run in which the `remove` calls of the executor find at most one value,
tasks are first polled, and wakes handled, in the order of their pushes; likewise the operations
of the pool are executed in the order of their submission. -/
theorem first_in_first_out {α F W ι κ : Type*} [DecidableEq F] [DecidableEq W] [DecidableEq ι]
    [DecidableEq κ] (token : W → TaskToken) :
    (∀ as : List (SyncQueue.Access α), SyncQueue.Alone .new as →
      (SyncQueue.run .new .nil as).2.Fifo) ∧
    (∀ as : List (SyncQueue.Access α), (SyncQueue.run .new .nil as).2.added.Nodup →
      ((SyncQueue.run .new .nil as).2.Fifo ↔ SyncQueue.Alone .new as)) ∧
    (∀ p, (Executor.recorded (F := F) token).ReachableBy (fun p => Executor.RemovesAlone p.1) p →
      p.2.1.Fifo ∧ p.2.2.Fifo) ∧
    ∀ p : Pool.State ι κ × History ι,
      Pool.recorded.ReachableBy (fun p => Pool.RemovesAlone p.1) p → p.2.Fifo := by
  refine ⟨fun as ha => (SyncQueue.tracks_run History.tracks_nil ha).fifo,
    fun as hnd => SyncQueue.fifo_iff hnd, fun p hp => ?_,
    fun p hp => (Pool.tracks_recorded hp).fifo⟩
  obtain ⟨ht, hw⟩ := Executor.tracks_recorded hp
  exact ⟨ht.fifo, hw.fifo⟩

/-- Values that are removed before the next one is added: by one queue, by the executor (two
tasks and two wakes) and by a worker. -/
theorem first_in_first_out_apart :
    (SyncQueue.run .new .nil
      [.push 1, .release, .wait, .remove, .push 2, .release, .remove]).2.Fifo ∧
    (∃ p : Executor.State (Fin 2) (Fin 2) × History (Fin 2) × History (Fin 2),
      (Executor.recorded fun _ => ⟨0⟩).Reachable p ∧ p.2.1.served = [0, 1] ∧
        p.2.2.served = [0, 1] ∧ p.2.1.Fifo ∧ p.2.2.Fifo) ∧
    ∃ p : Pool.State (Fin 2) Unit × History (Fin 2),
      Pool.recorded.Reachable p ∧ p.2.served = [0, 1] ∧ p.2.Fifo := by
  obtain ⟨hqueue, -, hexec, hpool⟩ :=
    first_in_first_out (α := ℕ) (F := Fin 2) (W := Fin 2) (ι := Fin 2) (κ := Unit) fun _ => ⟨0⟩
  refine ⟨hqueue _ (by decide), ?_, ?_⟩
  · obtain ⟨p, hp, ht, hw⟩ := LTS.exists_of_exec (Executor.recorded fun _ : Fin 2 => ⟨0⟩)
      (fun p => Executor.RemovesAlone p.1)
      [.pushTask 0, .releaseTask 0, .wait, .remove, .poll, .finish false, .remove,
        .pushWake 0, .releaseWake 0, .wait, .remove, .poll, .finish false,
        .pushWake 1, .releaseWake 1, .remove, .poll, .finish false,
        .pushTask 1, .releaseTask 1, .remove, .wait, .remove, .poll]
      (fun p : Executor.State (Fin 2) (Fin 2) × History (Fin 2) × History (Fin 2) =>
        p.2.1.served = [0, 1] ∧ p.2.2.served = [0, 1]) (by decide)
    exact ⟨p, hp.reachable, ht, hw, hexec p hp⟩
  · obtain ⟨p, hp, hs⟩ := LTS.exists_of_exec Pool.recorded (fun p => Pool.RemovesAlone p.1)
      [.push 0, .release 0, .take (), .remove (), .push 1, .release 1, .finish (), .take (),
        .remove ()]
      (fun p : Pool.State (Fin 2) Unit × History (Fin 2) => p.2.served = [0, 1]) (by decide)
    exact ⟨p, hp.reachable, hs, hpool p hp⟩

/-- **Last in, first out.**  Two values that meet in a queue leave it in the opposite order: the
`remove` of a queue returns the second one, the executor first polls the task that was spawned
last and handles the latest wake first, and a worker executes the operation submitted last. -/
theorem last_in_first_out :
    ¬ (SyncQueue.run .new .nil [.push 1, .release, .push 2, .release, .remove]).2.Fifo ∧
    (∃ p : Executor.State (Fin 2) (Fin 2) × History (Fin 2) × History (Fin 2),
      (Executor.recorded fun _ => ⟨0⟩).Reachable p ∧ p.2.1 = ⟨[0, 1], [1]⟩ ∧ ¬ p.2.1.Fifo) ∧
    (∃ p : Executor.State (Fin 2) (Fin 2) × History (Fin 2) × History (Fin 2),
      (Executor.recorded fun _ => ⟨0⟩).Reachable p ∧ p.2.2 = ⟨[0, 1], [1]⟩ ∧ ¬ p.2.2.Fifo) ∧
    ∃ p : Pool.State (Fin 2) Unit × History (Fin 2),
      Pool.recorded.Reachable p ∧ p.2 = ⟨[0, 1], [1]⟩ ∧ ¬ p.2.Fifo := by
  refine ⟨by decide, ?_, ?_, ?_⟩
  · exact LTS.exists_of_exec (Executor.recorded fun _ : Fin 2 => ⟨0⟩) (fun _ _ => True)
      [.pushTask 0, .releaseTask 0, .pushTask 1, .releaseTask 1, .wait, .remove, .poll]
      (fun p => p.2.1 = ⟨[0, 1], [1]⟩ ∧ ¬ p.2.1.Fifo) (by decide)
  · exact LTS.exists_of_exec (Executor.recorded fun _ : Fin 2 => ⟨0⟩) (fun _ _ => True)
      [.pushWake 0, .releaseWake 0, .pushWake 1, .releaseWake 1, .wait, .remove, .poll]
      (fun p => p.2.2 = ⟨[0, 1], [1]⟩ ∧ ¬ p.2.2.Fifo) (by decide)
  · exact LTS.exists_of_exec Pool.recorded (fun _ _ => True)
      [.push 0, .release 0, .push 1, .release 1, .take (), .remove ()]
      (fun p => p.2 = ⟨[0, 1], [1]⟩ ∧ ¬ p.2.Fifo) (by decide)

end BunnyDs
