import BunnyDs.Err
import BunnyDs.LTS.Log
import Mathlib.Logic.Function.Iterate

/-!
# One file future and its worker

A `Read`, `Write` or `Flush` future submits one operation to `ASYNC_FS_POOL` and then reads its
outcome from two cells: the result code (`state`), and the byte count (`result`, `u32::MAX` until
there is one) or, for `Flush`, the flag `done`.  The worker writes the code first and the count
second; a poll reads the count first and the code second.  Every load and store is a step here.

What concerns one future is one record, `Fut`.  An operation is named by the future that submits
it, and the stores of its worker go to the cells in the record: the addresses in the `AsyncFsMsg`
are those of the future's own cells as long as it stays where it was when it was first polled
(`BunnyDs.Fs.Moves`).  The worker that executes the operation keeps its place in the record
(`Stage`), with its local `res`.

* `FileFutures.Reports` says what a future promises.
* `FileFutures.stateResolve_cells` : a reported outcome survives the way through the two cells.
* `FileFutures.FutInv` is the protocol between a future and its worker; every access of a poll
  (`futInv_access`) and every step of the worker (`futInv_dequeue`, `futInv_execute`,
  `futInv_store`, `futInv_wake`) keeps it, and it gives `Reports` (`FutInv.reports`).

The futures and workers of a whole run are in `BunnyDs.Fs.FuturesRun`.
-/

namespace BunnyDs

namespace FileFutures

/-! ### Operations -/

/-- Where the cells of a future lie: `state` and `bytes_read` / `bytes_written`, or `res` and
`done`. -/
structure Place where
  state : UInt32
  result : UInt32
  deriving DecidableEq

/-- `FileIoOperation`: `state` and `result` are the addresses of two cells of the future, and
`dataPtr` is that of the caller's buffer.  A slice has at most `isize::MAX` bytes. -/
structure FileIoOperation where
  file : UInt32
  task : TaskToken
  state : UInt32
  result : UInt32
  offset : UInt32
  len : ℕ
  dataPtr : UInt32
  len_lt : len < 2 ^ 31

/-- `FileControlOperation`, with the addresses of the cells `res` and `done` of a `Flush`. -/
structure FileControlOperation where
  file : UInt32
  task : TaskToken
  state : UInt32
  done : UInt32

/-- `AsyncFsMsg`, as the three futures build it. -/
inductive AsyncFsMsg where
  | write (op : FileIoOperation)
  | read (op : FileIoOperation)
  | flush (op : FileControlOperation)

/-- The task that is woken when the operation is done. -/
def AsyncFsMsg.task : AsyncFsMsg → TaskToken
  | .write op | .read op => op.task
  | .flush op => op.task

/-- The most bytes the operation can report; a flush reports none. -/
def AsyncFsMsg.maxCount : AsyncFsMsg → ℕ
  | .write op | .read op => op.len
  | .flush _ => 0

theorem AsyncFsMsg.maxCount_lt (m : AsyncFsMsg) : m.maxCount < 2 ^ 31 := by
  cases m with
  | write op => exact op.len_lt
  | read op => exact op.len_lt
  | flush _ => exact Nat.two_pow_pos 31

/-- What the file service answers: the IPC request fails, or a result code and a count. -/
inductive FileReply where
  | ipc (error : BunnyError)
  | reply (resCode : Int32) (bytes : UInt32)

/-- `FileHandle::write`, `read` and `flush`; the `Ok(())` of a flush is `ok 0`. -/
def fileResult (C : Ctru) (m : AsyncFsMsg) : FileReply → BunnyResult ℕ
  | .ipc error => .error error
  | .reply resCode bytes =>
    if C.dsFails resCode then .error (.ctru (.os resCode))
    else
      match m with
      | .write _ | .read _ => .ok bytes.toNat
      | .flush _ => .ok 0

/-! ### The cells -/

/-- The cells of a future: `state` and `bytes_read` / `bytes_written`, or `res` and `done`. -/
structure Cells where
  state : Int32
  result : UInt32
  done : Bool
  deriving DecidableEq

/-- The cells of a new future. -/
def Cells.new : Cells := ⟨0, u32Max, false⟩

/-- The first store of `resolve`, to `state`; errors other than `Os` are a `todo!`. -/
def storeState (res : BunnyResult ℕ) (c : Cells) : Option Cells :=
  match res with
  | .ok _ => some { c with state := 0 }
  | .error (.ctru (.os osErr)) => some { c with state := osErr }
  | .error _ => none

/-- The second store of `FileIoOperationView::resolve` and `FileIoOperationViewMut::resolve`. -/
def storeCount (res : BunnyResult ℕ) (c : Cells) : Cells :=
  match res with
  | .ok v => { c with result := UInt32.ofNat v }
  | .error _ => { c with result := 0 }

/-- The second store of `FileControlOpView::resolve`. -/
def storeDone (c : Cells) : Cells := { c with done := true }

/-- The second store of `resolve`. -/
def storeResult (m : AsyncFsMsg) (res : BunnyResult ℕ) (c : Cells) : Cells :=
  match m with
  | .write _ | .read _ => storeCount res c
  | .flush _ => storeDone c

/-- `state_resolve`, on the value loaded from `state`. -/
def stateResolve (C : Ctru) (state : Int32) (res : ℕ) : BunnyResult ℕ :=
  if C.failed state then .error (.ctru (.os state)) else .ok res

/-! ### One future and its worker -/

/-- Where an operation is, and with which local `res` its worker is there. -/
inductive Stage where
  /-- Not submitted. -/
  | unsent
  /-- In the queue. -/
  | queued
  /-- Removed by a worker, before the file operation. -/
  | held
  /-- The file operation returned, before the first store of `resolve`. -/
  | executed (res : BunnyResult ℕ)
  /-- Before the second store of `resolve`. -/
  | stored (res : BunnyResult ℕ)
  /-- Resolved, before `executor.wake`. -/
  | resolved (res : BunnyResult ℕ)
  /-- The worker has issued its wake. -/
  | finished (res : BunnyResult ℕ)
  /-- The worker has panicked in `resolve`. -/
  | panicked

/-- The next access of a poll. -/
inductive PollPc where
  /-- Not being polled. -/
  | idle
  /-- The load of the count, or the test of `registered` and the load of `done`. -/
  | load
  /-- `ASYNC_FS_POOL.add`: the push. -/
  | push
  /-- `ASYNC_FS_POOL.add`: the release. -/
  | release
  /-- `self.registered = true`. -/
  | register
  /-- `state_resolve` with this count: the load of `state`. -/
  | resolve (bytes : ℕ)
  deriving DecidableEq

/-- Events in the life of one future. -/
inductive Event where
  /-- Its operation is pushed. -/
  | submitted
  /-- Its file operation returned. -/
  | executed (res : BunnyResult ℕ)
  /-- The second store of `resolve`: the result is visible. -/
  | visible
  /-- Its worker added this token to `WAKE_QUEUE`. -/
  | woke (task : TaskToken)
  /-- A poll returned `Pending` (`none`) or `Ready`. -/
  | polled (res : Option (BunnyResult ℕ))
  deriving DecidableEq

/-- The event is one of the worker's. -/
def Event.byWorker : Event → Bool
  | .executed _ | .visible | .woke _ => true
  | .submitted | .polled _ => false

/-- A future, with the progress of its operation and its history. -/
structure Fut where
  cells : Cells
  registered : Bool
  pc : PollPc
  stage : Stage
  log : List Event

namespace Fut

/-- `Read::new`, `Write::new` and `Flush::new`. -/
def new : Fut := ⟨.new, false, .idle, .unsent, []⟩

/-- The poll returns `Pending`. -/
def pending (f : Fut) : Fut := { f with pc := .idle, log := .polled none :: f.log }

/-- `poll` of `Read` and of `Write` after the load of the count. -/
def ioPoll (f : Fut) : Fut :=
  -- nothing submitted yet
  if f.cells.result = u32Max ∧ f.registered = false then { f with pc := .push }
  -- resolved
  else if f.registered = true ∧ f.cells.result ≠ u32Max then
    { f with pc := .resolve f.cells.result.toNat }
  else f.pending

/-- `Read::poll`; the count is `bytes_read`. -/
def readPoll (f : Fut) : Fut := f.ioPoll

/-- `Write::poll`; the count is `bytes_written`. -/
def writePoll (f : Fut) : Fut := f.ioPoll

/-- `Flush::poll` up to the load of `done`. -/
def flushPoll (f : Fut) : Fut :=
  if f.registered = false then { f with pc := .push }
  else if f.cells.done = true then { f with pc := .resolve 0 }
  else f.pending

/-- The next access of a poll. -/
def access (C : Ctru) (m : AsyncFsMsg) (f : Fut) : Fut :=
  match f.pc with
  | .idle => f
  | .load =>
    match m with
    | .write _ => f.writePoll
    | .read _ => f.readPoll
    | .flush _ => f.flushPoll
  | .push => { f with pc := .release, stage := .queued, log := .submitted :: f.log }
  | .release => { f with pc := .register }
  | .register => pending { f with registered := true }
  | .resolve bytes =>
    { f with pc := .idle, log := .polled (some (stateResolve C f.cells.state bytes)) :: f.log }

/-- A worker removes the operation. -/
def dequeue (f : Fut) : Fut := { f with stage := .held }

/-- The file operation returns. -/
def execute (res : BunnyResult ℕ) (f : Fut) : Fut :=
  { f with stage := .executed res, log := .executed res :: f.log }

/-- The next store of `resolve`. -/
def store (m : AsyncFsMsg) (f : Fut) : Fut :=
  match f.stage with
  | .executed res =>
    match storeState res f.cells with
    | some cells => { f with cells := cells, stage := .stored res }
    | none => { f with stage := .panicked }
  | .stored res =>
    { f with cells := storeResult m res f.cells, stage := .resolved res, log := .visible :: f.log }
  | _ => f

/-- `self.executor.wake(op.task)`. -/
def wake (m : AsyncFsMsg) (f : Fut) : Fut :=
  match f.stage with
  | .resolved res => { f with stage := .finished res, log := .woke m.task :: f.log }
  | _ => f

/-- A whole poll: it makes at most four accesses. -/
def poll (C : Ctru) (m : AsyncFsMsg) (f : Fut) : Fut := (access C m)^[4] { f with pc := .load }

/-- The work of a worker on the operation, with the outcome `res`. -/
def serve (m : AsyncFsMsg) (res : BunnyResult ℕ) (f : Fut) : Fut :=
  (((f.dequeue.execute res).store m).store m).wake m

end Fut

/-- Before the file operation. -/
def Stage.isHeld : Stage → Bool
  | .held => true
  | _ => false

/-- Before a store of `resolve`. -/
def Stage.isStoring : Stage → Bool
  | .executed _ | .stored _ => true
  | _ => false

/-- Before the wake. -/
def Stage.isResolved : Stage → Bool
  | .resolved _ => true
  | _ => false

/-- **What is assumed of the file service**: a request fails only with a result code that is
classified as a failure, and a count never exceeds the buffer. -/
def Answers (C : Ctru) (m : AsyncFsMsg) : FileReply → Prop
  | .ipc (.ctru (.os code)) => C.failed code = true
  | .ipc _ => False
  | .reply _ bytes =>
    match m with
    | .write op | .read op => bytes.toNat ≤ op.len
    | .flush _ => True

/-! ### What a future promises -/

/-- **A future reports exactly its own operation's outcome.** -/
structure Reports (C : Ctru) (m : AsyncFsMsg) (f : Fut) : Prop where
  /-- It submits at most one operation, however often it is polled. -/
  submits_once : f.log.count .submitted ≤ 1
  /-- Its first poll submits it. -/
  submitted : ∀ res, .polled res ∈ f.log → .submitted ∈ f.log
  /-- Every `Ready` value is what the file operation returned, and comes after it. -/
  ready_own : ∀ res, .polled (some res) ∈ f.log →
    Log.Before (.executed res) (.polled (some res)) f.log
  /-- The file operation returned one outcome. -/
  one_outcome : ∀ res res', .executed res ∈ f.log → .executed res' ∈ f.log → res = res'
  /-- Once the worker is done, the task was woken after the result became visible. -/
  woken : ∀ res, f.stage = .finished res → Log.Before .visible (.woke m.task) f.log
  /-- A poll that the wake leads to returns the outcome. -/
  late_ready : ∀ res, f.stage = .finished res → f.registered = true → f.pc = .load →
    ((f.access C m).access C m).log = .polled (some res) :: f.log

/-! ### The way of an outcome through the cells -/

/-- Outcomes a file operation can have, under what is assumed of the service. -/
def Reported (C : Ctru) (m : AsyncFsMsg) : BunnyResult ℕ → Prop
  | .ok n => n ≤ m.maxCount
  | .error (.ctru (.os code)) => C.failed code = true
  | .error _ => False

/-- The value of `state` that stands for an outcome. -/
def stateCode : BunnyResult ℕ → Int32
  | .error (.ctru (.os osErr)) => osErr
  | _ => 0

/-- The count a poll finds for an outcome. -/
def loadedCount (m : AsyncFsMsg) (res : BunnyResult ℕ) : ℕ :=
  match m with
  | .write _ | .read _ => (storeCount res .new).result.toNat
  | .flush _ => 0

section Outcome

variable {C : Ctru} {m : AsyncFsMsg} {res : BunnyResult ℕ}

theorem reported_fileResult {reply : FileReply} (h : Answers C m reply) :
    Reported C m (fileResult C m reply) := by
  cases reply with
  | ipc error =>
    cases error with
    | ctru error =>
      cases error with
      | os code => exact h
      | other _ => exact h
    | libc _ => exact h
    | other _ => exact h
  | reply resCode bytes =>
    simp only [fileResult]
    split_ifs with hf
    · exact C.failed_of_dsFails resCode hf
    · cases m with
      | write op => exact h
      | read op => exact h
      | flush op => exact Nat.le_refl 0

theorem storeState_eq (h : Reported C m res) (c : Cells) :
    storeState res c = some { c with state := stateCode res } := by
  rcases res with error | n
  · rcases error with (code | _) | _ | _ <;> first | rfl | exact h.elim
  · rfl

/-- A count that fits a buffer survives the cast to `u32`. -/
theorem toNat_ofNat_count {n : ℕ} (h : n ≤ m.maxCount) : (UInt32.ofNat n).toNat = n := by
  have hn : n < 2 ^ 31 := Nat.lt_of_le_of_lt h m.maxCount_lt
  exact UInt32.toNat_ofNat_of_lt' (Nat.lt_trans hn (by decide))

/-- The count of an outcome is never `u32::MAX`. -/
theorem storeCount_ne (h : Reported C m res) (c : Cells) : (storeCount res c).result ≠ u32Max := by
  rcases res with error | n
  · exact (by decide : (0 : UInt32) ≠ u32Max)
  · have hn : n < 2 ^ 31 := Nat.lt_of_le_of_lt h m.maxCount_lt
    intro he
    have he : (UInt32.ofNat n).toNat = u32Max.toNat := congrArg UInt32.toNat he
    rw [toNat_ofNat_count h] at he
    have : u32Max.toNat = 4294967295 := rfl
    omega

/-- **An outcome survives the way through the two cells.** -/
theorem stateResolve_cells (h : Reported C m res) :
    stateResolve C (stateCode res) (loadedCount m res) = res := by
  rcases res with error | n
  · rcases error with (code | _) | _ | _ <;> try exact h.elim
    exact if_pos h
  · have hcount : loadedCount m (.ok n) = n := by
      cases m with
      | flush _ => exact (Nat.le_zero.1 h).symm
      | _ => exact toNat_ofNat_count h
    have hzero : C.failed 0 = false := C.zero_success
    change stateResolve C 0 _ = _
    rw [hcount, stateResolve, hzero]
    rfl

end Outcome

/-! ### The protocol between a future and its worker -/

/-- The operation was submitted. -/
def Stage.sent : Stage → Bool
  | .unsent => false
  | _ => true

/-- The outcome, once the file operation has returned. -/
def Stage.res? : Stage → Option (BunnyResult ℕ)
  | .executed res | .stored res | .resolved res | .finished res => some res
  | _ => none

/-- The outcome, once it is visible. -/
def Stage.visible? : Stage → Option (BunnyResult ℕ)
  | .resolved res | .finished res => some res
  | _ => none

/-- What the cells hold at each stage. -/
def Stage.cells (m : AsyncFsMsg) : Stage → Cells
  | .stored res => { Cells.new with state := stateCode res }
  | .resolved res | .finished res => storeResult m res { Cells.new with state := stateCode res }
  | _ => .new

/-- What is known at each place of a poll. -/
def PcInv (m : AsyncFsMsg) (f : Fut) : Prop :=
  match f.pc with
  | .idle | .load => f.registered = f.stage.sent
  | .push => f.registered = false ∧ f.stage = .unsent
  | .release | .register => f.registered = false ∧ f.stage.sent = true
  | .resolve bytes => f.registered = true ∧
      ∃ res, f.stage.visible? = some res ∧ bytes = loadedCount m res

/-- What the history says at each stage. -/
structure LogInv (m : AsyncFsMsg) (f : Fut) : Prop where
  submitted : f.log.count .submitted = f.stage.sent.toNat
  polled : ∀ res, .polled res ∈ f.log → f.stage.sent = true
  executed : ∀ res, .executed res ∈ f.log ↔ f.stage.res? = some res
  visible : ∀ res, f.stage.visible? = some res → .visible ∈ f.log
  finished : ∀ res, f.stage = .finished res → Log.Before .visible (.woke m.task) f.log
  ready : ∀ res, .polled (some res) ∈ f.log →
    Log.Before (.executed res) (.polled (some res)) f.log

/-- **The protocol between a future and its worker.** -/
structure FutInv (C : Ctru) (m : AsyncFsMsg) (f : Fut) : Prop where
  cells : f.cells = f.stage.cells m
  reported : ∀ res, f.stage.res? = some res → Reported C m res
  pc : PcInv m f
  log : LogInv m f

section Local

variable {C : Ctru} {m : AsyncFsMsg} {f : Fut}

theorem Stage.res?_of_visible? {st : Stage} {res : BunnyResult ℕ} (h : st.visible? = some res) :
    st.res? = some res := by
  cases st <;> first | exact h | cases h

theorem Stage.sent_of_visible? {st : Stage} {res : BunnyResult ℕ} (h : st.visible? = some res) :
    st.sent = true := by
  cases st <;> first | rfl | cases h

theorem futInv_new : FutInv C m .new := by
  refine ⟨rfl, by simp [Fut.new, Stage.res?], rfl, ?_⟩
  refine ⟨rfl, ?_, ?_, ?_, ?_, ?_⟩ <;> simp [Fut.new, Stage.res?, Stage.visible?]

theorem Stage.eq_held {st : Stage} (h : st.isHeld = true) : st = .held := by
  cases st <;> first | rfl | cases h

theorem Stage.exists_of_isResolved {st : Stage} (h : st.isResolved = true) :
    ∃ res, st = .resolved res := by
  cases st <;> first | exact ⟨_, rfl⟩ | cases h

theorem Stage.eq_unsent {st : Stage} (h : st.sent = false) : st = .unsent := by
  cases st <;> first | rfl | cases h

/-- A poll moves on. -/
theorem futInv_pc {p : PollPc} (h : FutInv C m f) (hpc : PcInv m { f with pc := p }) :
    FutInv C m { f with pc := p } :=
  ⟨h.cells, h.reported, hpc, h.log.1, h.log.2, h.log.3, h.log.4, h.log.5, h.log.6⟩

theorem futInv_poll (h : FutInv C m f) (hpc : f.pc = .idle) :
    FutInv C m { f with pc := .load } := by
  have := h.pc
  rw [PcInv, hpc] at this
  exact futInv_pc (p := .load) h this

/-- A poll returns; a `Ready` value is what the file operation returned. -/
theorem LogInv.polled_cons {f' : Fut} {res : Option (BunnyResult ℕ)} (h : LogInv m f)
    (hstage : f'.stage = f.stage) (hlog : f'.log = .polled res :: f.log)
    (hsent : f.stage.sent = true) (hres : ∀ r, res = some r → f.stage.res? = some r) :
    LogInv m f' := by
  obtain ⟨cells, registered, pc, stage, log⟩ := f'
  obtain rfl : stage = f.stage := hstage
  obtain rfl : log = .polled res :: f.log := hlog
  refine ⟨by simpa using h.submitted, fun _ _ => hsent, by simpa using h.executed,
    by simpa using h.visible, fun r hr => (h.finished r hr).cons, fun r hr => ?_⟩
  by_cases he : res = some r
  · exact Log.before_cons.2 (.inr ⟨by rw [he], (h.executed r).2 (hres r he)⟩)
  · exact (h.ready r (by simpa [Ne.symm he] using hr)).cons

/-- A poll returns `Pending`. -/
theorem futInv_pending (h : FutInv C m f) (hreg : f.registered = f.stage.sent)
    (hsent : f.stage.sent = true) : FutInv C m f.pending :=
  ⟨h.cells, h.reported, hreg, h.log.polled_cons rfl rfl hsent fun _ he => by cases he⟩

/-- The worker has written `state` for good when the outcome is visible. -/
theorem FutInv.state_eq (h : FutInv C m f) {res : BunnyResult ℕ}
    (hv : f.stage.visible? = some res) : f.cells.state = stateCode res := by
  rw [h.cells]
  cases hst : f.stage <;> rw [hst] at hv <;> cases hv <;> cases m <;> cases res <;> rfl

/-- A count other than `u32::MAX` is that of a visible outcome. -/
theorem FutInv.visible_of_result (h : FutInv C m f) (hr : f.cells.result ≠ u32Max) :
    ∃ res, f.stage.visible? = some res ∧ f.cells.result.toNat = loadedCount m res := by
  rw [h.cells] at hr ⊢
  cases hst : f.stage <;> rw [hst] at hr <;> try exact absurd rfl hr
  all_goals
    rename_i res
    refine ⟨res, rfl, ?_⟩
    cases m with
    | flush _ => exact absurd rfl hr
    | _ => cases res <;> rfl

/-- The flag is set for a visible outcome only. -/
theorem FutInv.visible_of_done (h : FutInv C m f) (hd : f.cells.done = true) :
    ∃ res, f.stage.visible? = some res := by
  rw [h.cells] at hd
  cases hst : f.stage <;> rw [hst] at hd <;> first | exact ⟨_, rfl⟩ | cases hd

theorem futInv_ioPoll (h : FutInv C m f) (hpc : f.pc = .load) : FutInv C m f.ioPoll := by
  have hreg := h.pc
  rw [PcInv, hpc] at hreg
  unfold Fut.ioPoll
  by_cases hr : f.registered = true
  · have hsent : f.stage.sent = true := hreg ▸ hr
    by_cases hmax : f.cells.result = u32Max
    · rw [if_neg (by simp [hr]), if_neg (by simp [hmax])]
      exact futInv_pending h hreg hsent
    · rw [if_neg (by simp [hr]), if_pos ⟨hr, hmax⟩]
      exact futInv_pc (p := .resolve _) h ⟨hr, h.visible_of_result hmax⟩
  · -- an unregistered future has submitted nothing, so the count is still `u32::MAX`
    have hr : f.registered = false := by simpa using hr
    have hst : f.stage = .unsent := Stage.eq_unsent (hreg ▸ hr)
    have hmax : f.cells.result = u32Max := by rw [h.cells, hst]; rfl
    rw [if_pos ⟨hmax, hr⟩]
    exact futInv_pc (p := .push) h ⟨hr, hst⟩

theorem futInv_flushPoll {op : FileControlOperation} (h : FutInv C (.flush op) f)
    (hpc : f.pc = .load) : FutInv C (.flush op) f.flushPoll := by
  have hreg := h.pc
  rw [PcInv, hpc] at hreg
  unfold Fut.flushPoll
  split_ifs with hr hd
  · exact futInv_pc (p := .push) h ⟨hr, Stage.eq_unsent (hreg ▸ hr)⟩
  · obtain ⟨res, hres⟩ := h.visible_of_done hd
    exact futInv_pc (p := .resolve 0) h ⟨by simpa using hr, res, hres, rfl⟩
  · exact futInv_pending h hreg (by rw [← hreg]; simpa using hr)

/-- The push of the future's operation. -/
theorem futInv_push (h : FutInv C m f) (hpc : f.pc = .push) :
    FutInv C m { f with pc := .release, stage := .queued, log := .submitted :: f.log } := by
  have hp := h.pc
  rw [PcInv, hpc] at hp
  obtain ⟨hreg, hst⟩ := hp
  have hl := h.log
  have hc := h.cells
  rw [hst] at hc
  refine ⟨hc, by simp [Stage.res?], ⟨hreg, rfl⟩, ?_, fun _ _ => rfl, ?_, by simp [Stage.visible?],
    by simp, ?_⟩
  · simp [hl.submitted, hst, Stage.sent]
  · have := hl.executed
    rw [hst] at this
    simpa [Stage.res?] using this
  · intro res hres
    exact (hl.ready res (by simpa using hres)).cons

/-- The poll returns `Ready`, with the outcome of the operation. -/
theorem futInv_ready (h : FutInv C m f) {bytes : ℕ} (hpc : f.pc = .resolve bytes) :
    FutInv C m (f.access C m) := by
  have hp := h.pc
  rw [PcInv, hpc] at hp
  obtain ⟨hreg, res, hv, rfl⟩ := hp
  have hres := Stage.res?_of_visible? hv
  have hsent := Stage.sent_of_visible? hv
  have hval : stateResolve C f.cells.state (loadedCount m res) = res := by
    rw [h.state_eq hv, stateResolve_cells (h.reported res hres)]
  have hstep : f.access C m = { f with pc := .idle, log := .polled (some res) :: f.log } := by
    simp [Fut.access, hpc, hval]
  rw [hstep]
  refine ⟨h.cells, h.reported, hreg.trans hsent.symm, h.log.polled_cons rfl rfl hsent ?_⟩
  rintro r he
  obtain rfl := Option.some.inj he
  exact hres

/-- Every access of a poll keeps the protocol. -/
theorem futInv_access (h : FutInv C m f) : FutInv C m (f.access C m) := by
  have hp := h.pc
  cases hpc : f.pc with
  | idle => simpa only [Fut.access, hpc] using h
  | load =>
    simp only [Fut.access, hpc]
    cases m with
    | write op => exact futInv_ioPoll h hpc
    | read op => exact futInv_ioPoll h hpc
    | flush op => exact futInv_flushPoll h hpc
  | push => simpa only [Fut.access, hpc] using futInv_push h hpc
  | release =>
    rw [PcInv, hpc] at hp
    simpa only [Fut.access, hpc] using futInv_pc (p := .register) h hp
  | register =>
    rw [PcInv, hpc] at hp
    simp only [Fut.access, hpc]
    have hidle : FutInv C m { f with pc := .idle, registered := true } :=
      ⟨h.cells, h.reported, hp.2.symm, h.log.1, h.log.2, h.log.3, h.log.4, h.log.5, h.log.6⟩
    change FutInv C m (Fut.pending { f with pc := .idle, registered := true })
    exact futInv_pending hidle hp.2.symm hp.2
  | resolve bytes => exact futInv_ready h hpc

/-- The worker moves on with the operation; what a poll knows stays true. -/
theorem PcInv.of_stage {st : Stage} (h : PcInv m f) (hsent : f.stage.sent = true)
    (hsent' : st.sent = true) (hv : ∀ res, f.stage.visible? = some res → st.visible? = some res)
    {c : Cells} {log : List Event} : PcInv m { f with cells := c, stage := st, log := log } := by
  unfold PcInv at h ⊢
  cases hpc : f.pc <;> simp only [hpc] at h ⊢
  · rw [h, hsent, hsent']
  · rw [h, hsent, hsent']
  · rw [h.2] at hsent
    cases hsent
  · exact ⟨h.1, hsent'⟩
  · exact ⟨h.1, hsent'⟩
  · obtain ⟨hreg, res, hres, hb⟩ := h
    exact ⟨hreg, res, hv res hres, hb⟩

/-- **A step of the worker**: it moves the operation from a stage to a later one, and logs `es`. -/
theorem futInv_worker {c : Cells} {st : Stage} (es : List Event) (h : FutInv C m f)
    (hsent : f.stage.sent = true) (hsent' : st.sent = true) (hcells : c = st.cells m)
    (hreported : ∀ res, st.res? = some res → Reported C m res)
    (hstays : ∀ res, f.stage.visible? = some res → st.visible? = some res)
    (hes : ∀ e ∈ es, e.byWorker = true)
    (hexec : ∀ res, .executed res ∈ es ++ f.log ↔ st.res? = some res)
    (hvisible : ∀ res, st.visible? = some res → .visible ∈ es ++ f.log)
    (hfinished : ∀ res, st = .finished res → Log.Before .visible (.woke m.task) (es ++ f.log)) :
    FutInv C m { f with cells := c, stage := st, log := es ++ f.log } := by
  refine ⟨hcells, hreported, h.pc.of_stage hsent hsent' hstays, ?_, fun _ _ => hsent', hexec,
    hvisible, hfinished, fun res hres => ?_⟩
  · have hnone : es.count .submitted = 0 := List.count_eq_zero.2 fun hm => by cases hes _ hm
    rw [List.count_append, hnone, Nat.zero_add, h.log.submitted, hsent, hsent']
  · refine (h.log.ready res ?_).append es
    exact (List.mem_append.1 hres).resolve_left fun hm => by cases hes _ hm

/-- A worker takes the queued operation. -/
theorem futInv_dequeue (h : FutInv C m f) (hst : f.stage = .queued) : FutInv C m f.dequeue := by
  have hexec := h.log.executed
  have hc := h.cells
  rw [hst] at hexec hc
  refine futInv_worker [] h (by rw [hst]; rfl) rfl hc ?_ ?_ ?_ hexec ?_ ?_
  · simp [Stage.res?]
  · simp [hst, Stage.visible?]
  · simp
  · simp [Stage.visible?]
  · simp

/-- The file operation returns an outcome that can be reported. -/
theorem futInv_execute (h : FutInv C m f) (hst : f.stage = .held) {res : BunnyResult ℕ}
    (hres : Reported C m res) : FutInv C m (f.execute res) := by
  have hexec := h.log.executed
  have hc := h.cells
  rw [hst] at hexec hc
  refine futInv_worker [.executed res] h (by rw [hst]; rfl) rfl hc ?_ ?_ ?_ ?_ ?_ ?_
  · intro r hr
    obtain rfl : res = r := Option.some.inj hr
    exact hres
  · simp [hst, Stage.visible?]
  · simp [Event.byWorker]
  · intro r
    have := hexec r
    simp only [Stage.res?, reduceCtorEq, iff_false] at this
    simp [Stage.res?, this, eq_comm]
  · simp [Stage.visible?]
  · simp

/-- The first store of `resolve`, to `state`. -/
theorem futInv_storeState (h : FutInv C m f) {res : BunnyResult ℕ} (hst : f.stage = .executed res) :
    FutInv C m (f.store m) := by
  have hexec := h.log.executed
  have hc := h.cells
  have hreported := h.reported
  have hres := h.reported res (by rw [hst]; rfl)
  rw [hst] at hexec hc hreported
  have hstep : f.store m =
      { f with cells := { Cells.new with state := stateCode res }, stage := .stored res } := by
    simp only [Fut.store, hst, storeState_eq hres, hc]
    rfl
  rw [hstep]
  refine futInv_worker [] h (by rw [hst]; rfl) rfl rfl hreported ?_ ?_ hexec ?_ ?_
  · simp [hst, Stage.visible?]
  · simp
  · simp [Stage.visible?]
  · simp

/-- The second store of `resolve`: the result is visible. -/
theorem futInv_storeResult (h : FutInv C m f) {res : BunnyResult ℕ} (hst : f.stage = .stored res) :
    FutInv C m (f.store m) := by
  have hexec := h.log.executed
  have hc := h.cells
  have hreported := h.reported
  rw [hst] at hexec hc hreported
  have hstep : f.store m = { f with
      cells := storeResult m res f.cells, stage := .resolved res, log := .visible :: f.log } := by
    simp only [Fut.store, hst]
  rw [hstep]
  refine futInv_worker [.visible] h (by rw [hst]; rfl) rfl ?_ hreported ?_ ?_ ?_ ?_ ?_
  · rw [hc]
    rfl
  · simp [hst, Stage.visible?]
  · simp [Event.byWorker]
  · simpa [Stage.res?] using hexec
  · simp
  · simp

/-- The two stores of `resolve`: the code first, the result second. -/
theorem futInv_store (h : FutInv C m f) (hst : f.stage.isStoring = true) :
    FutInv C m (f.store m) := by
  cases hs : f.stage <;> rw [hs] at hst <;> try cases hst
  · exact futInv_storeState h hs
  · exact futInv_storeResult h hs

/-- The wake comes after the result became visible. -/
theorem futInv_wake (h : FutInv C m f) (hst : f.stage.isResolved = true) :
    FutInv C m (f.wake m) := by
  obtain ⟨res, hs⟩ := Stage.exists_of_isResolved hst
  have hexec := h.log.executed
  have hc := h.cells
  have hreported := h.reported
  have hvisible := h.log.visible res (by rw [hs]; rfl)
  rw [hs] at hexec hc hreported
  have hstep : f.wake m = { f with stage := .finished res, log := .woke m.task :: f.log } := by
    simp only [Fut.wake, hs]
  rw [hstep]
  refine futInv_worker [.woke m.task] h (by rw [hs]; rfl) rfl hc hreported ?_ ?_ ?_ ?_ ?_
  · simp [hs, Stage.visible?]
  · simp [Event.byWorker]
  · simpa [Stage.res?] using hexec
  · exact fun _ _ => List.mem_cons_of_mem _ hvisible
  · exact fun _ _ => Log.before_cons.2 (.inr ⟨rfl, hvisible⟩)

/-- A poll that starts when the outcome is visible goes on to `state_resolve`. -/
theorem FutInv.access_load (h : FutInv C m f) {res : BunnyResult ℕ}
    (hv : f.stage.visible? = some res) (hreg : f.registered = true) (hpc : f.pc = .load) :
    f.access C m = { f with pc := .resolve (loadedCount m res) } := by
  have hres := h.reported res (Stage.res?_of_visible? hv)
  have hcells : f.cells = storeResult m res { Cells.new with state := stateCode res } := by
    rw [h.cells]
    cases hst : f.stage <;> rw [hst] at hv <;> cases hv <;> rfl
  have hio : f.cells = storeCount res { Cells.new with state := stateCode res } →
      f.ioPoll = { f with pc := .resolve (storeCount res .new).result.toNat } := fun hc => by
    have hne : f.cells.result ≠ u32Max := by rw [hc]; exact storeCount_ne hres _
    have heq : f.cells.result = (storeCount res .new).result := by rw [hc]; cases res <;> rfl
    rw [Fut.ioPoll, if_neg (by simp [hreg]), if_pos ⟨hreg, hne⟩, heq]
  simp only [Fut.access, hpc]
  cases m with
  | write op => exact hio hcells
  | read op => exact hio hcells
  | flush op =>
    have hdone : f.cells.done = true := by rw [hcells]; rfl
    simp only [Fut.flushPoll, hreg, hdone]
    rfl

/-- A registered future has submitted its operation, and its `add` has returned. -/
theorem FutInv.sent_of_registered (h : FutInv C m f) (hreg : f.registered = true) :
    f.stage.sent = true ∧ f.pc ≠ .release := by
  have hp := h.pc
  unfold PcInv at hp
  cases hpc : f.pc with
  | idle | load =>
    rw [hpc] at hp
    exact ⟨hp ▸ hreg, by simp⟩
  | push | release | register =>
    rw [hpc] at hp
    exact absurd (hp.1.symm.trans hreg) (by simp)
  | resolve bytes =>
    rw [hpc] at hp
    obtain ⟨-, res, hv, -⟩ := hp
    exact ⟨Stage.sent_of_visible? hv, by simp⟩

/-- Only the push of the operation moves it. -/
theorem access_stage (hpc : f.pc ≠ .push) : (f.access C m).stage = f.stage := by
  cases hp : f.pc with
  | load =>
    simp only [Fut.access, hp]
    cases m <;> simp only [Fut.writePoll, Fut.readPoll, Fut.ioPoll, Fut.flushPoll] <;>
      split_ifs <;> rfl
  | push => exact absurd hp hpc
  | _ => simp only [Fut.access, hp, Fut.pending]

theorem access_pc (hpc : f.pc ≠ .push) : (f.access C m).pc ≠ .release := by
  cases hp : f.pc with
  | load =>
    simp only [Fut.access, hp]
    cases m <;> simp only [Fut.writePoll, Fut.readPoll, Fut.ioPoll, Fut.flushPoll] <;>
      split_ifs <;> simp [Fut.pending]
  | push => exact absurd hp hpc
  | _ => simp [Fut.access, hp, Fut.pending]

theorem store_pc : (f.store m).pc = f.pc := by
  unfold Fut.store
  split
  · split <;> rfl
  · rfl
  · rfl

theorem FutInv.reports (h : FutInv C m f) : Reports C m f where
  submits_once := by
    rw [h.log.submitted]
    exact Bool.toNat_le _
  submitted res hres := by
    have hone := h.log.submitted
    rw [h.log.polled res hres] at hone
    exact List.count_pos_iff.1 (by rw [hone]; exact Nat.one_pos)
  ready_own := h.log.ready
  one_outcome res res' hr hr' := by
    rw [h.log.executed] at hr hr'
    exact Option.some.inj (hr.symm.trans hr')
  woken := h.log.finished
  late_ready res hst hreg hpc := by
    have hv : f.stage.visible? = some res := by rw [hst]; rfl
    have hres := h.reported res (Stage.res?_of_visible? hv)
    rw [h.access_load hv hreg hpc]
    simp only [Fut.access, h.state_eq hv, stateResolve_cells hres]

end Local

/-! ### Whole polls -/

section Poll

variable {C : Ctru} {m : AsyncFsMsg} {f : Fut}

/-- The first poll submits the operation. -/
theorem Fut.poll_of_unregistered (hc : f.cells = .new) (hreg : f.registered = false) :
    f.poll C m =
      { f with
        registered := true, pc := .idle, stage := .queued
        log := .polled none :: .submitted :: f.log } := by
  cases m <;> simp [poll, Function.iterate_succ, access, readPoll, writePoll, ioPoll, flushPoll,
    pending, hc, hreg, Cells.new]

/-- A later poll finds nothing before the worker is done. -/
theorem Fut.poll_of_registered (hc : f.cells = .new) (hreg : f.registered = true) :
    f.poll C m = { f with pc := .idle, log := .polled none :: f.log } := by
  cases m <;> simp [poll, Function.iterate_succ, access, readPoll, writePoll, ioPoll, flushPoll,
    pending, hc, hreg, Cells.new]

/-- What the worker leaves, if it does not panic. -/
theorem Fut.serve_eq {res : BunnyResult ℕ} {c : Cells} (h : storeState res f.cells = some c) :
    f.serve m res = { f with
      cells := storeResult m res c, stage := .finished res
      log := .woke m.task :: .visible :: .executed res :: f.log } := by
  simp [serve, dequeue, execute, store, wake, h]

end Poll

end FileFutures

end BunnyDs
