import BunnyDs.Net.Interests

/-!
# Receiving on a TCP stream

`Recv` asks the service for bytes in its `poll`, and nowhere else.  A poll that is pending was told
`EAGAIN`, and leaves nothing behind but a registration (`BunnyDs.Net.Interests`); so a `Recv` may be
dropped while it is pending, and another one goes on where the stream is.

The reply to a `RecvFrom` has three words and the bytes that the service has written into the
buffer.  `recvfrom` checks the first two words and returns the third one, `data_rxed`, without
comparing it with anything; `TcpSocket::recv` and `Recv::poll` pass it on.

`Recv.system` is any number of futures on one socket, each with a buffer of its own; a reply may be
anything.

* `Recv.Faithful` is what the code needs of a reply: `data_rxed` is the number of bytes that were
  written, and a command that fails has written none.
* `Recv.received_iff` : **no byte of the stream is lost, doubled or reordered, whatever futures are
  dropped**, as long as the replies are faithful, and no longer.
-/

namespace BunnyDs

section TwoStage

variable {α : Type*} {C : Ctru} {res posix : Int32} {val : α}

theorem twoStage_of_success (hres : C.dsFails res = false) (hposix : 0 ≤ posix.toInt) :
    twoStage C res posix val = .lift (.ok val) := by
  rw [twoStage, Ctru.dsTry_of_success hres, Run.lift_ok_andThen, netTry_of_nonneg hposix,
    Run.lift_ok_andThen]

theorem twoStage_ne_ok (h : ¬ (C.dsFails res = false ∧ 0 ≤ posix.toInt)) (val' : α) :
    (twoStage C res posix val).outcome ≠ .ok val' := by
  unfold twoStage
  by_cases hres : C.dsFails res = true
  · simp [Ctru.dsTry_of_fails hres, Run.lift, Run.andThen]
  · have hres : C.dsFails res = false := by simpa using hres
    have hneg : posix.toInt < 0 := by
      by_contra hge
      exact h ⟨hres, by omega⟩
    rw [Ctru.dsTry_of_success hres, Run.lift_ok_andThen]
    by_cases h76 : -76 ≤ posix.toInt
    · obtain ⟨errno, -, herr⟩ := netTry_of_known h76 hneg
      simp [herr, Run.lift, Run.andThen]
    · simp [netTry_of_unknown (by omega : posix.toInt < -76), Run.lift, Run.andThen]

end TwoStage

/-- `TcpSocket::recv`, with the reply to its `RecvFrom`. -/
def TcpSocket.recv (C : Ctru) (socket : TcpSocket) (reply : Except BunnyError SocketReply)
    (rdBuf : List UInt8) : Outcome ℕ :=
  ((SocketService.recvfrom C (fun _ => reply) socket.handle rdBuf).andThen fun bytesRead =>
    .lift (.ok bytesRead.toNat)).outcome

namespace Recv

/-! ### The futures -/

/-- Where a future is. -/
inductive Pc where
  /-- It was not polled yet, or it is pending. -/
  | idle
  | ready (res : BunnyResult ℕ)
  | panicked
  /-- It was dropped while it was idle. -/
  | dropped
  deriving DecidableEq

/-- `Recv`. -/
structure Fut where
  data : List UInt8
  pc : Pc
  deriving DecidableEq

/-- What a poll leads to. -/
def Pc.ofPolled : AsyncTcpSocket.Polled ℕ → Pc
  | .ready res => .ready res
  | .pending _ _ => .idle

/-- `Recv::poll`, with what `recv` did. -/
def Pc.ofRecv (task : TaskToken) : Outcome ℕ → Pc
  | .ok res => .ofPolled (AsyncTcpSocket.recvPoll task (.ok res))
  | .err e => .ofPolled (AsyncTcpSocket.recvPoll task (.error e))
  | .panic | .ub => .panicked

/-- The bytes that the service has written when it replies; none if the request itself fails. -/
def written : Except BunnyError SocketReply → List UInt8
  | .ok (.recvFrom _ _ _ output) => output
  | _ => []

/-- The bytes that a call of `recv` takes from the stream: there is no request if the assertion of
`recvfrom` fails. -/
def taken (data : List UInt8) (reply : Except BunnyError SocketReply) : List UInt8 :=
  if data.length < 0x2000 then written reply else []

/-- A poll of a future, with the bytes that are then in its buffer. -/
def Fut.poll (C : Ctru) (socket : TcpSocket) (task : TaskToken)
    (reply : Except BunnyError SocketReply) (fut : Fut) : Fut where
  data := taken fut.data reply ++ fut.data.drop (taken fut.data reply).length
  pc := .ofRecv task (socket.recv C reply fut.data)

/-- How many bytes the future says it has received. -/
def Fut.count (fut : Fut) : ℕ :=
  match fut.pc with
  | .ready (.ok n) => n
  | _ => 0

/-- The futures, the stream as far as the service was asked for it, and what the application was
told: the bytes in the order in which the futures were ready, and how many they are. -/
structure State (ι : Type*) where
  futs : ι → Fut
  stream : List UInt8
  received : List UInt8
  count : ℕ

/-- One step of one future. -/
inductive Label (ι : Type*) where
  /-- It is polled, and its request gets this reply. -/
  | poll (i : ι) (reply : Except BunnyError SocketReply)
  | drop (i : ι)

variable {ι : Type*}

/-- The step can be taken; the service writes no more than the buffer can hold. -/
def Enabled (s : State ι) : Label ι → Prop
  | .poll i reply => (s.futs i).pc = .idle ∧ (written reply).length ≤ (s.futs i).data.length
  | .drop i => (s.futs i).pc = .idle

variable [DecidableEq ι]

/-- The effect of a step. -/
def fire (C : Ctru) (socket : TcpSocket) (tok : ι → TaskToken) (s : State ι) : Label ι → State ι
  | .poll i reply =>
    let fut := (s.futs i).poll C socket (tok i) reply
    { futs := Function.update s.futs i fut
      stream := s.stream ++ taken (s.futs i).data reply
      received := s.received ++ fut.data.take fut.count
      count := s.count + fut.count }
  | .drop i => { s with futs := Function.update s.futs i ⟨(s.futs i).data, .dropped⟩ }

/-- Any number of `Recv`s on a socket, the future `i` with the buffer `data i`. -/
def system (C : Ctru) (socket : TcpSocket) (tok : ι → TaskToken) (data : ι → List UInt8) :
    LTS (State ι) (Label ι) where
  init := ⟨fun i => ⟨data i, .idle⟩, [], [], 0⟩
  Enabled := Enabled
  fire := fire C socket tok

instance (C : Ctru) (socket : TcpSocket) (tok : ι → TaskToken) (data : ι → List UInt8)
    (s : State ι) (l : Label ι) : Decidable ((system C socket tok data).Enabled s l) :=
  match l with
  | .poll i reply => inferInstanceAs (Decidable
      ((s.futs i).pc = .idle ∧ (written reply).length ≤ (s.futs i).data.length))
  | .drop i => inferInstanceAs (Decidable ((s.futs i).pc = .idle))

/-! ### The law and the condition -/

/-- The future has its part of the stream if it is ready: the bytes stand in its buffer, and the
rest of the buffer is as it was.  The buffer of any other future is as it was. -/
def Fut.Holds (stream buf : List UInt8) (fut : Fut) : Prop :=
  match fut.pc with
  | .ready (.ok n) => ∃ before bytes after, stream = before ++ bytes ++ after ∧ bytes.length = n ∧
      fut.data = bytes ++ buf.drop n
  | _ => fut.data = buf

omit [DecidableEq ι] in
/-- **The application has the stream**: the bytes, their number, and each future its part of
them. -/
structure Exact (data : ι → List UInt8) (s : State ι) : Prop where
  received : s.received = s.stream
  count : s.count = s.stream.length
  parts : ∀ i, (s.futs i).Holds s.stream (data i)

/-- **A reply that tells how many bytes were written**; a command that fails has written none. -/
def Faithful (C : Ctru) (data : List UInt8) : Except BunnyError SocketReply → Prop
  | .ok (.recvFrom res posix dataRxed output) =>
    data.length < 0x2000 →
      if C.dsFails res = false ∧ 0 ≤ posix.toInt then dataRxed.toNat = output.length
      else output = []
  | _ => True

omit [DecidableEq ι] in
/-- The reply of the step is faithful. -/
def Truthful (C : Ctru) (s : State ι) : Label ι → Prop
  | .poll i reply => Faithful C (s.futs i).data reply
  | .drop _ => True

instance (C : Ctru) (data : List UInt8) (reply : Except BunnyError SocketReply) :
    Decidable (Faithful C data reply) :=
  match reply with
  | .ok (.recvFrom res posix dataRxed output) => inferInstanceAs (Decidable (data.length < 0x2000 →
      if C.dsFails res = false ∧ 0 ≤ posix.toInt then dataRxed.toNat = output.length
      else output = []))
  | .ok (.socket ..) | .ok (.listen ..) | .ok (.accept ..) | .ok (.bind ..) | .ok (.connect ..)
  | .ok (.sendTo ..) | .ok (.close ..) | .ok (.shutdown ..) | .ok (.fcntl ..) | .ok (.poll ..)
  | .error _ => inferInstanceAs (Decidable True)

omit [DecidableEq ι] in
instance (C : Ctru) (s : State ι) (l : Label ι) : Decidable (Truthful C s l) :=
  match l with
  | .poll i reply => inferInstanceAs (Decidable (Faithful C (s.futs i).data reply))
  | .drop _ => inferInstanceAs (Decidable True)

/-! ### One poll -/

section Poll

variable {C : Ctru} {socket : TcpSocket} {task : TaskToken} {data : List UInt8}
  {reply : Except BunnyError SocketReply}

/-- `recv` returns `data_rxed` if the other two words are fine. -/
theorem recv_eq {res posix : Int32} {rxed : UInt32} {output : List UInt8}
    (hlen : data.length < 0x2000) :
    socket.recv C (.ok (.recvFrom res posix rxed output)) data =
      ((twoStage C res posix rxed).andThen fun n => .lift (.ok n.toNat)).outcome := by
  simp [TcpSocket.recv, SocketService.recvfrom, ask, hlen]

/-- The assertion of `recvfrom` fails. -/
theorem recv_of_long (hlen : ¬ data.length < 0x2000) (n : ℕ) :
    socket.recv C reply data ≠ .ok n := by
  simp [TcpSocket.recv, SocketService.recvfrom, hlen, Run.lift, Run.andThen]

/-- Any other reply than that to a `RecvFrom` is an error or a panic, and brings no bytes. -/
theorem recv_of_other
    (hreply : ∀ res posix rxed output, reply ≠ .ok (.recvFrom res posix rxed output)) :
    (∀ n, socket.recv C reply data ≠ .ok n) ∧ written reply = [] ∧ Faithful C data reply := by
  rcases reply with e | reply
  · refine ⟨fun n => ?_, rfl, trivial⟩
    unfold TcpSocket.recv SocketService.recvfrom ask
    split_ifs <;> simp [Run.lift, Run.andThen]
  · cases reply with
    | recvFrom res posix rxed output => exact absurd rfl (hreply res posix rxed output)
    | _ =>
      refine ⟨fun n => ?_, rfl, trivial⟩
      unfold TcpSocket.recv SocketService.recvfrom ask
      split_ifs <;> simp [Run.lift, Run.andThen]

/-- **What `recv` makes of a reply**: it says a number of bytes, which is theirs exactly if the
reply is faithful; or it does not, and then a faithful reply has brought none. -/
theorem recv_cases (C : Ctru) (socket : TcpSocket) (data : List UInt8)
    (reply : Except BunnyError SocketReply) :
    (∃ n, socket.recv C reply data = .ok n ∧
      (Faithful C data reply ↔ n = (taken data reply).length)) ∨
    (∀ n, socket.recv C reply data ≠ .ok n) ∧ (Faithful C data reply ↔ taken data reply = []) := by
  by_cases hreply : ∃ res posix rxed output, reply = .ok (.recvFrom res posix rxed output)
  · obtain ⟨res, posix, rxed, output, rfl⟩ := hreply
    by_cases hlen : data.length < 0x2000
    · by_cases hok : C.dsFails res = false ∧ 0 ≤ posix.toInt
      · refine .inl ⟨rxed.toNat, ?_, ?_⟩
        · rw [recv_eq hlen, twoStage_of_success hok.1 hok.2]
          rfl
        · simp [Faithful, taken, written, hlen, hok]
      · refine .inr ⟨fun n => ?_, ?_⟩
        · rw [recv_eq hlen]
          cases hout : (twoStage C res posix rxed).outcome with
          | ok val => exact absurd hout (twoStage_ne_ok hok val)
          | _ => simp [Run.andThen, hout]
        · simp only [Faithful, taken, written, hlen, hok, if_true, if_false, forall_true_left]
    · exact .inr ⟨recv_of_long hlen, by simp [Faithful, taken, hlen]⟩
  · have hother : (∀ n, socket.recv C reply data ≠ .ok n) ∧ written reply = [] ∧
        Faithful C data reply :=
      recv_of_other fun res posix rxed output h => hreply ⟨res, posix, rxed, output, h⟩
    obtain ⟨hne, hwritten, hfaithful⟩ := hother
    exact .inr ⟨hne, by simp [taken, hwritten, hfaithful]⟩

theorem ofRecv_ne {out : Outcome ℕ} (h : ∀ n, out ≠ .ok n) (n : ℕ) :
    Pc.ofRecv task out ≠ .ready (.ok n) := by
  cases out with
  | ok m => exact absurd rfl (h m)
  | err e =>
    simp only [Pc.ofRecv, AsyncTcpSocket.recvPoll, AsyncTcpSocket.pollWith]
    split <;> simp_all [Pc.ofPolled]
  | panic => exact Pc.noConfusion
  | ub => exact Pc.noConfusion

theorem count_of_ne {fut : Fut} (h : ∀ n, fut.pc ≠ .ready (.ok n)) : fut.count = 0 := by
  unfold Fut.count
  split
  · rename_i n hpc
    exact absurd hpc (h n)
  · rfl

theorem holds_of_ne {stream buf : List UInt8} {fut : Fut} (h : ∀ n, fut.pc ≠ .ready (.ok n)) :
    fut.Holds stream buf ↔ fut.data = buf := by
  unfold Fut.Holds
  split
  · rename_i n hpc
    exact absurd hpc (h n)
  · exact Iff.rfl

/-- A future keeps its part when the stream goes on. -/
theorem Fut.Holds.append {stream buf : List UInt8} {fut : Fut} (h : fut.Holds stream buf)
    (bytes' : List UInt8) : fut.Holds (stream ++ bytes') buf := by
  unfold Fut.Holds at h ⊢
  split
  · rename_i n hpc
    simp only [hpc] at h
    obtain ⟨before, bytes, after, hstream, hlen, hdata⟩ := h
    exact ⟨before, bytes, after ++ bytes', by rw [hstream, List.append_assoc _ after], hlen, hdata⟩
  · rename_i hne
    exact (holds_of_ne hne).1 h

end Poll

/-! ### Runs -/

section Runs

variable {C : Ctru} {socket : TcpSocket} {tok : ι → TaskToken} {data : ι → List UInt8}
  {s : State ι} {i : ι} {reply : Except BunnyError SocketReply}

omit [DecidableEq ι] in
theorem Exact.data_eq (h : Exact data s) (hidle : (s.futs i).pc = .idle) :
    (s.futs i).data = data i :=
  (holds_of_ne (by simp [hidle])).1 (h.parts i)

/-- The service has given `bytes`, and the future `i` is where they should be. -/
theorem Exact.update (h : Exact data s) {fut : Fut} {bytes : List UInt8}
    (hfut : fut.Holds (s.stream ++ bytes) (data i)) :
    Exact data ⟨Function.update s.futs i fut, s.stream ++ bytes, s.received ++ bytes,
      s.count + bytes.length⟩ := by
  refine ⟨by rw [h.received], by rw [h.count, List.length_append], fun j => ?_⟩
  by_cases hji : j = i
  · subst hji
    simpa using hfut
  · simpa [Function.update_of_ne hji] using (h.parts j).append bytes

/-- The future `i` is ready, and says how many bytes there are. -/
theorem exact_of_ok (h : Exact data s) (hidle : (s.futs i).pc = .idle)
    (hok : socket.recv C reply (s.futs i).data = .ok (taken (s.futs i).data reply).length) :
    Exact data (fire C socket tok s (.poll i reply)) := by
  have hpc : ((s.futs i).poll C socket (tok i) reply).pc =
      .ready (.ok (taken (s.futs i).data reply).length) := by
    simp only [Fut.poll, hok]
    rfl
  have hcount : ((s.futs i).poll C socket (tok i) reply).count =
      (taken (s.futs i).data reply).length := by
    simp only [Fut.count, hpc]
  have htake : ((s.futs i).poll C socket (tok i) reply).data.take
      (taken (s.futs i).data reply).length = taken (s.futs i).data reply := by
    simp [Fut.poll]
  have hfut : ((s.futs i).poll C socket (tok i) reply).Holds
      (s.stream ++ taken (s.futs i).data reply) (data i) := by
    simp only [Fut.Holds, hpc]
    exact ⟨s.stream, _, [], by simp, rfl, by simp [Fut.poll, h.data_eq hidle]⟩
  simpa only [fire, hcount, htake] using h.update hfut

/-- The future `i` gets no bytes, and none were written. -/
theorem exact_of_none (h : Exact data s) (hidle : (s.futs i).pc = .idle)
    (hne : ∀ n, socket.recv C reply (s.futs i).data ≠ .ok n)
    (hnil : taken (s.futs i).data reply = []) :
    Exact data (fire C socket tok s (.poll i reply)) := by
  have hpc : ∀ n, ((s.futs i).poll C socket (tok i) reply).pc ≠ .ready (.ok n) := ofRecv_ne hne
  have hfut : ((s.futs i).poll C socket (tok i) reply).Holds (s.stream ++ []) (data i) := by
    rw [holds_of_ne hpc, ← h.data_eq hidle]
    simp [Fut.poll, hnil]
  simpa [fire, count_of_ne hpc, hnil] using h.update hfut

/-- **One poll keeps the law exactly if its reply is faithful.** -/
theorem exact_poll_iff (h : Exact data s) (hidle : (s.futs i).pc = .idle) :
    Exact data (fire C socket tok s (.poll i reply)) ↔ Faithful C (s.futs i).data reply := by
  rcases recv_cases C socket (s.futs i).data reply with ⟨n, hn, hiff⟩ | ⟨hne, hiff⟩
  · rw [hiff]
    refine ⟨fun hexact => ?_, fun hlen => exact_of_ok h hidle (by rw [hn, hlen])⟩
    -- the counts tell a reply that says too many or too few
    have hcount : ((s.futs i).poll C socket (tok i) reply).count = n := by
      simp only [Fut.count, Fut.poll, hn]
      rfl
    have htotal := hexact.count
    simp only [fire, hcount, List.length_append, h.count] at htotal
    omega
  · rw [hiff]
    refine ⟨fun hexact => ?_, exact_of_none h hidle hne⟩
    have hcount : ((s.futs i).poll C socket (tok i) reply).count = 0 :=
      count_of_ne (ofRecv_ne hne)
    have hreceived := hexact.received
    simpa [fire, hcount, h.received] using hreceived

/-- A future that is dropped while it is pending leaves the stream as it is. -/
theorem exact_drop (h : Exact data s) (hidle : (s.futs i).pc = .idle) :
    Exact data (fire C socket tok s (.drop i)) := by
  have hfut : Fut.Holds (s.stream ++ []) (data i) ⟨(s.futs i).data, .dropped⟩ := h.data_eq hidle
  simpa [fire] using h.update hfut

theorem exact_fire_iff (h : Exact data s) {l : Label ι} (hen : Enabled s l) :
    Exact data (fire C socket tok s l) ↔ Truthful C s l := by
  cases l with
  | poll i reply => exact exact_poll_iff h hen.1
  | drop i => exact iff_of_true (exact_drop h hen) trivial

/-- **The application gets the stream as it is, whatever futures are dropped while they are
pending**: after every run with faithful replies, and after the next step exactly if its reply is
faithful, too. -/
theorem received_iff (h : (system C socket tok data).ReachableBy (Truthful C) s) :
    Exact data s ∧ ∀ l, (system C socket tok data).Enabled s l →
      (Exact data ((system C socket tok data).fire s l) ↔ Truthful C s l) := by
  have hexact : Exact data s := by
    refine h.invariant ⟨rfl, rfl, fun i => rfl⟩ fun s l _ hs hen hok => ?_
    exact (exact_fire_iff hs hen).2 hok
  exact ⟨hexact, fun l hen => exact_fire_iff hexact hen⟩

/-- The first future is told `EAGAIN` and dropped.  The second one gets three bytes into a buffer of
four; a reply to the third one that counts a byte too many would break the law. -/
theorem received_iff_cancelled : ∃ s : State (Fin 3),
    (system .libctru TcpSocket.localSocket (fun _ => ⟨1⟩) fun _ => [0, 0, 0, 0]).ReachableBy
      (Truthful .libctru) s ∧
    (s.received = [7, 8, 9] ∧ s.futs 0 = ⟨[0, 0, 0, 0], .dropped⟩ ∧
      s.futs 1 = ⟨[7, 8, 9, 0], .ready (.ok 3)⟩) ∧
    Exact (fun _ => [0, 0, 0, 0]) s ∧
    ¬ Exact (fun _ => [0, 0, 0, 0]) (fire .libctru TcpSocket.localSocket (fun _ => ⟨1⟩) s
      (.poll 2 (.ok (.recvFrom 0 1 2 [10])))) := by
  obtain ⟨s, hs, hend, htwo⟩ := LTS.exists_of_exec
    (system .libctru TcpSocket.localSocket (fun _ => ⟨1⟩) fun _ : Fin 3 => [0, 0, 0, 0])
    (Truthful .libctru)
    [.poll 0 (.ok (.recvFrom 0 (-6) 0 [])), .drop 0, .poll 1 (.ok (.recvFrom 0 3 3 [7, 8, 9]))]
    (fun s => (s.received = [7, 8, 9] ∧ s.futs 0 = ⟨[0, 0, 0, 0], .dropped⟩ ∧
      s.futs 1 = ⟨[7, 8, 9, 0], .ready (.ok 3)⟩) ∧ s.futs 2 = ⟨[0, 0, 0, 0], .idle⟩)
    (by decide +kernel)
  obtain ⟨hexact, hstep⟩ := received_iff hs
  refine ⟨s, hs, hend, hexact, fun hbad => ?_⟩
  have hen : Enabled s (.poll 2 (.ok (.recvFrom 0 1 2 [10]))) := by
    refine ⟨by rw [htwo], ?_⟩
    rw [htwo]
    decide
  have hfaithful : Faithful .libctru (s.futs 2).data (.ok (.recvFrom 0 1 2 [10])) :=
    (hstep (.poll 2 (.ok (.recvFrom 0 1 2 [10]))) hen).1 hbad
  rw [htwo] at hfaithful
  exact absurd hfaithful (by decide)

end Runs

end Recv

end BunnyDs
