import BunnyDs.Net.SockAddr

/-!
# The socket service

Every operation of `SocketService` sends one command to `soc:U` and checks the two words of the
reply: the result code with `ds_try!`, the POSIX return value with `net_try`.  Each operation is
translated below, over an arbitrary `request`; `SocketOp` collects them so that what the checks
are for can be said once (`Checked`).

Three things go wrong: `create_socket` never looks at its descriptor (`create_socket_ok_on_error`),
`accept` skips the first stage and makes the second one only for the result code 0, and a POSIX
value outside of `ERROR_MAP` panics.  `checked_iff` says for every operation and every reply
whether it is handled as it should.
-/

namespace BunnyDs

/-- `SocketHandle`: dropping it closes the descriptor. -/
structure SocketHandle where
  fd : UInt32
  deriving DecidableEq

/-- `PollFd`. -/
structure PollFd where
  fd : UInt32
  pollIn : UInt32
  pollOut : UInt32
  deriving DecidableEq

/-! ### Commands and replies -/

/-- `SocketMessage`; the process handle is the same in all of them. -/
inductive SocketMessage where
  | socket (domain ty protocol : Int32)
  | listen (socket maxConns : UInt32)
  | accept (socket maxAddrlen : UInt32)
  | bind (socket socketLen : UInt32) (addr : Vector UInt8 8)
  | connect (socket socketLen : UInt32) (addr : Vector UInt8 8)
  | recvFrom (socket len flags addrLen : UInt32)
  | sendTo (socket len flags addrLen : UInt32) (data : List UInt8) (addr : Vector UInt8 8)
  | close (socket : UInt32)
  | shutdown (socket : UInt32) (how : Int32)
  | poll (fdsLen : UInt32) (timeout : Int32) (fdsIn : List PollFd)
  | fcntl (socket : UInt32) (cmd : Int32) (arg : UInt32)

/-- `SocketReply`, with the buffers the service has filled in. -/
inductive SocketReply where
  | socket (res : Int32) (desc : UInt32)
  | listen (resCode posixCode : Int32)
  | accept (resCode posixCode : Int32) (outputAddr : Vector UInt8 0x1C)
  | bind (resCode posixCode : Int32)
  | connect (resCode posixCode : Int32)
  | recvFrom (resCode posixCode : Int32) (dataRxed : UInt32) (output : List UInt8)
  | sendTo (resCode posixCode : Int32)
  | close (resCode posixCode : Int32)
  | shutdown (resCode posixCode : Int32)
  | fcntl (resCode posixCode : Int32)
  | poll (resCode posixCode : Int32) (fdsOut : List PollFd)

/-- The command id of a message. -/
def SocketMessage.id : SocketMessage → ℕ
  | .socket .. => 0x2
  | .listen .. => 0x3
  | .accept .. => 0x4
  | .bind .. => 0x5
  | .connect .. => 0x6
  | .recvFrom .. => 0x8
  | .sendTo .. => 0xA
  | .close .. => 0xB
  | .shutdown .. => 0xC
  | .fcntl .. => 0x13
  | .poll .. => 0x14

/-- The command id of a reply. -/
def SocketReply.id : SocketReply → ℕ
  | .socket .. => 0x2
  | .listen .. => 0x3
  | .accept .. => 0x4
  | .bind .. => 0x5
  | .connect .. => 0x6
  | .recvFrom .. => 0x8
  | .sendTo .. => 0xA
  | .close .. => 0xB
  | .shutdown .. => 0xC
  | .fcntl .. => 0x13
  | .poll .. => 0x14

/-- The result code of a reply. -/
def SocketReply.res : SocketReply → Int32
  | .socket res _ | .listen res _ | .accept res _ _ | .bind res _ | .connect res _
  | .recvFrom res _ _ _ | .sendTo res _ | .close res _ | .shutdown res _ | .fcntl res _
  | .poll res _ _ => res

/-- The POSIX word of a reply, read as `i32`; for `Socket` it is the descriptor. -/
def SocketReply.posix : SocketReply → Int32
  | .socket _ desc => desc.toInt32
  | .listen _ posix | .accept _ posix _ | .bind _ posix | .connect _ posix
  | .recvFrom _ posix _ _ | .sendTo _ posix | .close _ posix | .shutdown _ posix | .fcntl _ posix
  | .poll _ posix _ => posix

/-! ### Runs of an operation -/

/-- How an operation ends, and the `SocketHandle`s it has built. -/
structure Run (α : Type*) where
  outcome : Outcome α
  built : List SocketHandle
  deriving DecidableEq

namespace Run

variable {α β : Type*}

/-- A step that builds no handle. -/
def lift (o : Outcome α) : Run α := ⟨o, []⟩

/-- `SocketHandle(fd)`. -/
def build (fd : UInt32) : Run SocketHandle := ⟨.ok ⟨fd⟩, [⟨fd⟩]⟩

/-- The `?` operator, and what follows it. -/
def andThen (r : Run α) (f : α → Run β) : Run β :=
  match r.outcome with
  | .ok val => ⟨(f val).outcome, r.built ++ (f val).built⟩
  | .err error => ⟨.err error, r.built⟩
  | .panic => ⟨.panic, r.built⟩
  | .ub => ⟨.ub, r.built⟩

@[simp] theorem lift_ok_andThen (val : α) (f : α → Run β) :
    (lift (.ok val)).andThen f = f val := rfl
@[simp] theorem lift_err_andThen (error : BunnyError) (f : α → Run β) :
    (lift (.err error)).andThen f = lift (.err error) := rfl
@[simp] theorem lift_panic_andThen (f : α → Run β) :
    (lift (.panic : Outcome α)).andThen f = lift .panic := rfl

/-- A handle that was built stays built, whatever follows. -/
theorem andThen_built_ne_nil {r : Run α} {f : α → Run β} (h : r.built ≠ []) :
    (r.andThen f).built ≠ [] := by
  unfold andThen
  split <;> simp [h]

end Run

/-- `IPCClientSession::request` on the session of the service. -/
abbrev Request := SocketMessage → Except BunnyError SocketReply

/-- `self.inner.request(&message)?`. -/
def ask (request : Request) (message : SocketMessage) : Run SocketReply :=
  match request message with
  | .ok reply => .lift (.ok reply)
  | .error error => .lift (.err error)

/-- `ds_try!(res_code); net_try(posix_code)?;` and the return value. -/
def twoStage {α : Type*} (C : Ctru) (resCode posixCode : Int32) (val : α) : Run α :=
  (Run.lift (C.dsTry resCode)).andThen fun _ =>
    (Run.lift (netTry posixCode)).andThen fun _ => .lift (.ok val)

/-! ### The operations -/

namespace SocketService

variable (C : Ctru) (request : Request)

/-- `SocketService::create_socket`. -/
def createSocket : Run SocketHandle :=
  (ask request (.socket 2 1 0)).andThen fun
    | .socket res desc => (Run.lift (C.dsTry res)).andThen fun _ => .build desc
    | _ => .lift .panic

/-- `SocketService::connect`. -/
def connect (socket : SocketHandle) (addr : SocketAddrV4) : Run Unit :=
  (ask request (.connect socket.fd 8 (sockaddrAsBytes addr))).andThen fun
    | .connect resCode posixCode => twoStage C resCode posixCode ()
    | _ => .lift .panic

/-- `SocketService::bind`. -/
def bind (socket : SocketHandle) (addr : SocketAddrV4) : Run Unit :=
  (ask request (.bind socket.fd 8 (sockaddrAsBytes addr))).andThen fun
    | .bind resCode posixCode => twoStage C resCode posixCode ()
    | _ => .lift .panic

/-- `SocketService::listen`. -/
def listen (socket : SocketHandle) : Run Unit :=
  (ask request (.listen socket.fd 8)).andThen fun
    | .listen resCode posixCode => twoStage C resCode posixCode ()
    | _ => .lift .panic

/-- `Option::unwrap`. -/
def unwrap {α : Type*} : Option α → Outcome α
  | some val => .ok val
  | none => .panic

/-- The pair `accept` returns: the handle is built before the address is read. -/
def acceptedSocket (posixCode : Int32) (tmpaddr : Vector UInt8 0x1C) :
    Run (SocketHandle × SocketAddrV4) :=
  (Run.build posixCode.toUInt32).andThen fun fd =>
    (Run.lift (readSockaddr tmpaddr)).andThen fun addr =>
      (Run.lift (unwrap addr.asSocketIpv4)).andThen fun addr => .lift (.ok (fd, addr))

/-- `SocketService::accept`: the result code is only compared with 0. -/
def accept (socket : SocketHandle) : Run (SocketHandle × SocketAddrV4) :=
  (ask request (.accept socket.fd 0x1C)).andThen fun
    | .accept resCode posixCode tmpaddr =>
      (Run.lift (if resCode = 0 then netTry posixCode else .ok ())).andThen fun _ =>
        acceptedSocket posixCode tmpaddr
    | _ => .lift .panic

/-- `SocketService::send_to`. -/
def sendTo (socket : SocketHandle) (addr : SocketAddrV4) (data : List UInt8) : Run Unit :=
  if data.length < 0x2000 then
    (ask request
        (.sendTo socket.fd (.ofNat data.length) 0 8 data (sockaddrAsBytes addr))).andThen fun
      | .sendTo resCode posixCode => twoStage C resCode posixCode ()
      | _ => .lift .panic
  else .lift .panic

/-- `SocketService::recvfrom`; the address it returns is all zeros. -/
def recvfrom (socket : SocketHandle) (data : List UInt8) : Run UInt32 :=
  if data.length < 0x2000 then
    (ask request (.recvFrom socket.fd (.ofNat data.length) 0 0x1C)).andThen fun
      | .recvFrom resCode posixCode dataRxed _ => twoStage C resCode posixCode dataRxed
      | _ => .lift .panic
  else .lift .panic

/-- `SocketService::poll`: what is left in `out`. -/
def poll (pollFds out : List PollFd) (timeout : Int32) : Run (List PollFd) :=
  if pollFds.length = out.length then
    (ask request (.poll (.ofNat pollFds.length) timeout pollFds)).andThen fun
      | .poll resCode posixCode fdsOut => twoStage C resCode posixCode fdsOut
      | _ => .lift .panic
  else .lift .panic

/-- `SocketService::set_nonblock`. -/
def setNonblock (socket : SocketHandle) : Run Unit :=
  (ask request (.fcntl socket.fd 0x4 0x4)).andThen fun
    | .fcntl resCode posixCode => twoStage C resCode posixCode ()
    | _ => .lift .panic

/-- `SocketService::close`. -/
def close (socket : SocketHandle) : Run Unit :=
  (ask request (.close socket.fd)).andThen fun
    | .close resCode posixCode => twoStage C resCode posixCode ()
    | _ => .lift .panic

/-- `SocketService::shutdown`. -/
def shutdown (socket : SocketHandle) (read write : Bool) : Run Unit :=
  let how := if read && write then 2 else if write && !read then 1 else 0
  (ask request (.shutdown socket.fd how)).andThen fun
    | .shutdown resCode posixCode => twoStage C resCode posixCode ()
    | _ => .lift .panic

end SocketService

/-- A call of one of the operations. -/
inductive SocketOp where
  | createSocket
  | connect (socket : SocketHandle) (addr : SocketAddrV4)
  | bind (socket : SocketHandle) (addr : SocketAddrV4)
  | listen (socket : SocketHandle)
  | accept (socket : SocketHandle)
  | sendTo (socket : SocketHandle) (addr : SocketAddrV4) (data : List UInt8)
  | recvfrom (socket : SocketHandle) (data : List UInt8)
  | poll (pollFds out : List PollFd) (timeout : Int32)
  | setNonblock (socket : SocketHandle)
  | close (socket : SocketHandle)
  | shutdown (socket : SocketHandle) (read write : Bool)

namespace SocketOp

/-- The run of an operation, without its value. -/
def run (C : Ctru) (request : Request) : SocketOp → Run Unit
  | .createSocket => (SocketService.createSocket C request).andThen fun _ => .lift (.ok ())
  | .connect socket addr => SocketService.connect C request socket addr
  | .bind socket addr => SocketService.bind C request socket addr
  | .listen socket => SocketService.listen C request socket
  | .accept socket => (SocketService.accept request socket).andThen fun _ => .lift (.ok ())
  | .sendTo socket addr data => SocketService.sendTo C request socket addr data
  | .recvfrom socket data =>
    (SocketService.recvfrom C request socket data).andThen fun _ => .lift (.ok ())
  | .poll pollFds out timeout =>
    (SocketService.poll C request pollFds out timeout).andThen fun _ => .lift (.ok ())
  | .setNonblock socket => SocketService.setNonblock C request socket
  | .close socket => SocketService.close C request socket
  | .shutdown socket read write => SocketService.shutdown C request socket read write

/-- The command an operation sends. -/
def id : SocketOp → ℕ
  | .createSocket => 0x2
  | .listen _ => 0x3
  | .accept _ => 0x4
  | .bind _ _ => 0x5
  | .connect _ _ => 0x6
  | .recvfrom _ _ => 0x8
  | .sendTo _ _ _ => 0xA
  | .close _ => 0xB
  | .shutdown _ _ _ => 0xC
  | .setNonblock _ => 0x13
  | .poll _ _ _ => 0x14

/-- The assertions on the arguments. -/
def ArgsOk : SocketOp → Prop
  | .sendTo _ _ data | .recvfrom _ data => data.length < 0x2000
  | .poll pollFds out _ => pollFds.length = out.length
  | _ => True

/-- **The replies an operation handles as it should.**  Most operations need a POSIX word that is
in `ERROR_MAP` if it is negative; `create_socket` needs a descriptor that is not negative;
`accept` needs a success, and looks at a negative word only for the result code 0. -/
def Sound (C : Ctru) (op : SocketOp) (res posix : Int32) : Prop :=
  match op with
  | .createSocket => C.dsFails res = true ∨ 0 ≤ posix.toInt
  | .accept _ => C.dsFails res = false ∧ (0 ≤ posix.toInt ∨ res = 0 ∧ -76 ≤ posix.toInt)
  | op => op.ArgsOk ∧ (C.dsFails res = true ∨ -76 ≤ posix.toInt)

end SocketOp

/-! ### What the checks are for -/

/-- **Errors are not mistaken for success**: the operation returns `Ok` exactly if the result code
is a success and the POSIX word is not negative; otherwise it returns `Err` with the OS code or an
errno, and has built no handle. -/
def Checked {α : Type*} (C : Ctru) (res posix : Int32) (r : Run α) : Prop :=
  if C.dsFails res = false ∧ 0 ≤ posix.toInt then ∃ val, r.outcome = .ok val
  else (r.outcome = .err (.ctru (.os res)) ∨ ∃ errno, r.outcome = .err (.libc errno)) ∧
    r.built = []

section Checked

variable {α β : Type*} {C : Ctru} {res posix : Int32}

theorem not_checked_panic {built : List SocketHandle} :
    ¬ Checked C res posix (⟨.panic, built⟩ : Run α) := by
  unfold Checked
  split_ifs <;> simp

/-- A handle is only built on success. -/
theorem not_checked_of_built {r : Run α} (hbad : ¬ (C.dsFails res = false ∧ 0 ≤ posix.toInt))
    (hbuilt : r.built ≠ []) : ¬ Checked C res posix r := by
  unfold Checked
  rw [if_neg hbad]
  exact fun h => hbuilt h.2

/-- Both stages of the check: the only word they do not cope with is one outside of
`ERROR_MAP`. -/
theorem checked_twoStage (val : α) :
    Checked C res posix (twoStage C res posix val) ↔
      C.dsFails res = true ∨ -76 ≤ posix.toInt := by
  unfold twoStage
  by_cases hres : C.dsFails res = true
  · rw [Ctru.dsTry_of_fails hres, Run.lift_err_andThen, Checked, if_neg (by simp [hres])]
    simp [Run.lift, hres]
  · have hres : C.dsFails res = false := by simpa using hres
    rw [Ctru.dsTry_of_success hres, Run.lift_ok_andThen]
    by_cases h0 : 0 ≤ posix.toInt
    · rw [netTry_of_nonneg h0, Run.lift_ok_andThen, Checked, if_pos ⟨hres, h0⟩]
      exact ⟨fun _ => .inr (by omega), fun _ => ⟨val, rfl⟩⟩
    · by_cases h76 : -76 ≤ posix.toInt
      · obtain ⟨errno, -, herr⟩ := netTry_of_known h76 (by omega)
        rw [herr, Run.lift_err_andThen, Checked, if_neg (fun h => h0 h.2)]
        exact ⟨fun _ => .inr h76, fun _ => ⟨.inr ⟨errno, rfl⟩, rfl⟩⟩
      · rw [netTry_of_unknown (by omega), Run.lift_panic_andThen]
        exact iff_of_false not_checked_panic (by simp [hres, h76])

/-- The same for an operation that asserts `P` of its arguments first. -/
theorem checked_twoStage_args {P : Prop} (hargs : P) :
    Checked C res posix (twoStage C res posix ()) ↔
      P ∧ (C.dsFails res = true ∨ -76 ≤ posix.toInt) :=
  (checked_twoStage ()).trans (and_iff_right hargs).symm

theorem twoStage_andThen (val : α) (val' : β) :
    ((twoStage C res posix val).andThen fun _ => .lift (.ok val')) =
      twoStage C res posix val' := by
  unfold twoStage Run.andThen Run.lift
  cases C.dsTry res <;> cases netTry posix <;> rfl

theorem ask_eq {request : Request} {message : SocketMessage} {reply : SocketReply} {n : ℕ}
    (hreq : ∀ m : SocketMessage, m.id = n → request m = .ok reply) (hid : message.id = n) :
    ask request message = .lift (.ok reply) := by
  simp only [ask, hreq message hid]

theorem checked_createSocket {request : Request} {desc : UInt32}
    (hreq : ∀ m : SocketMessage, m.id = 0x2 → request m = .ok (.socket res desc)) :
    Checked C res desc.toInt32 (SocketOp.run C request .createSocket) ↔
      SocketOp.Sound C .createSocket res desc.toInt32 := by
  have hcreate : SocketService.createSocket C request =
      (Run.lift (C.dsTry res)).andThen fun _ => .build desc := by
    rw [SocketService.createSocket, ask_eq hreq (by rfl)]
    rfl
  rw [SocketOp.run, hcreate]
  by_cases hres : C.dsFails res = true
  · rw [Ctru.dsTry_of_fails hres, Checked, if_neg (by simp [hres])]
    simp [SocketOp.Sound, Run.lift, Run.andThen, hres]
  · have hres : C.dsFails res = false := by simpa using hres
    rw [Ctru.dsTry_of_success hres, Run.lift_ok_andThen]
    -- the handle is built whatever the descriptor is
    by_cases h0 : 0 ≤ desc.toInt32.toInt
    · rw [Checked, if_pos ⟨hres, h0⟩]
      exact iff_of_true ⟨(), rfl⟩ (.inr h0)
    · refine iff_of_false (not_checked_of_built (fun h => h0 h.2) ?_) ?_
      · exact Run.andThen_built_ne_nil (by simp [Run.build])
      · simp [SocketOp.Sound, hres, h0]

theorem acceptedSocket_built {tmpaddr : Vector UInt8 0x1C} :
    (SocketService.acceptedSocket posix tmpaddr).built ≠ [] :=
  Run.andThen_built_ne_nil (by simp [Run.build])

theorem acceptedSocket_eq {tmpaddr : Vector UInt8 0x1C} (h : WellFormedAddr tmpaddr) :
    SocketService.acceptedSocket posix tmpaddr =
      ⟨.ok (⟨posix.toUInt32⟩, (ServiceAddr.ofBuffer tmpaddr h).toV4), [⟨posix.toUInt32⟩]⟩ := by
  obtain ⟨addr, hread, hv4⟩ := readSockaddr_eq_ofBuffer h
  simp [SocketService.acceptedSocket, hread, hv4, SocketService.unwrap, Run.build, Run.lift,
    Run.andThen]

theorem acceptedSocket_ok {tmpaddr : Vector UInt8 0x1C} (h : WellFormedAddr tmpaddr) (val : β) :
    ((SocketService.acceptedSocket posix tmpaddr).andThen fun _ => .lift (.ok val)).outcome =
      .ok val := by
  rw [acceptedSocket_eq h]
  rfl

theorem accept_eq {request : Request} {socket : SocketHandle} {tmpaddr : Vector UInt8 0x1C}
    (hreq : ∀ m : SocketMessage, m.id = 0x4 → request m = .ok (.accept res posix tmpaddr)) :
    SocketService.accept request socket =
      (Run.lift (if res = 0 then netTry posix else .ok ())).andThen fun _ =>
        SocketService.acceptedSocket posix tmpaddr := by
  rw [SocketService.accept, ask_eq hreq (by rfl)]
  rfl

theorem checked_accept {request : Request} {socket : SocketHandle} {tmpaddr : Vector UInt8 0x1C}
    (hreq : ∀ m : SocketMessage, m.id = 0x4 → request m = .ok (.accept res posix tmpaddr))
    (haddr : C.dsFails res = false → 0 ≤ posix.toInt → WellFormedAddr tmpaddr) :
    Checked C res posix (SocketOp.run C request (.accept socket)) ↔
      SocketOp.Sound C (.accept socket) res posix := by
  rw [SocketOp.run, accept_eq hreq]
  simp only [SocketOp.Sound]
  by_cases hgood : C.dsFails res = false ∧ 0 ≤ posix.toInt
  · have hnet : (if res = 0 then netTry posix else .ok ()) = .ok () := by
      rw [netTry_of_nonneg hgood.2, ite_self]
    rw [hnet, Run.lift_ok_andThen, Checked, if_pos hgood]
    exact iff_of_true ⟨(), acceptedSocket_ok (haddr hgood.1 hgood.2) ()⟩ ⟨hgood.1, .inl hgood.2⟩
  · by_cases hzero : res = 0
    · subst hzero
      have hneg : posix.toInt < 0 := by
        by_contra h
        exact hgood ⟨C.dsFails_zero, by omega⟩
      rw [if_pos rfl]
      by_cases h76 : -76 ≤ posix.toInt
      · obtain ⟨errno, -, herr⟩ := netTry_of_known h76 hneg
        rw [herr, Run.lift_err_andThen, Run.lift_err_andThen, Checked, if_neg hgood]
        exact iff_of_true ⟨.inr ⟨errno, rfl⟩, rfl⟩ ⟨C.dsFails_zero, .inr ⟨rfl, h76⟩⟩
      · rw [netTry_of_unknown (by omega), Run.lift_panic_andThen, Run.lift_panic_andThen]
        exact iff_of_false not_checked_panic (by omega)
    · -- neither stage is made: a handle is built for a failed call
      rw [if_neg hzero, Run.lift_ok_andThen]
      refine iff_of_false (not_checked_of_built hgood ?_) ?_
      · exact Run.andThen_built_ne_nil acceptedSocket_built
      · rintro ⟨hres, h0 | ⟨h0, -⟩⟩
        · exact hgood ⟨hres, h0⟩
        · exact hzero h0

end Checked

/-- A successful `accept` fills in a well-formed address. -/
def SocketReply.AddrOk (C : Ctru) : SocketReply → Prop
  | .accept res posix tmpaddr => C.dsFails res = false → 0 ≤ posix.toInt → WellFormedAddr tmpaddr
  | _ => True

/-- **Which replies are handled as they should**, for every operation and every reply to its
command. -/
theorem checked_iff {C : Ctru} {request : Request} (op : SocketOp) (reply : SocketReply)
    (hid : reply.id = op.id) (hreq : ∀ m : SocketMessage, m.id = op.id → request m = .ok reply)
    (haddr : reply.AddrOk C) :
    Checked C reply.res reply.posix (op.run C request) ↔ op.Sound C reply.res reply.posix := by
  cases op with
  | createSocket =>
    cases reply <;> try cases hid
    exact checked_createSocket hreq
  | accept socket =>
    cases reply <;> try cases hid
    exact checked_accept hreq haddr
  | sendTo socket addr data =>
    cases reply <;> try cases hid
    rw [SocketOp.run, SocketService.sendTo, ask_eq hreq (by rfl)]
    split_ifs with hlen
    · exact checked_twoStage_args hlen
    · exact iff_of_false not_checked_panic fun h => hlen h.1
  | recvfrom socket data =>
    cases reply <;> try cases hid
    rw [SocketOp.run, SocketService.recvfrom, ask_eq hreq (by rfl)]
    split_ifs with hlen
    · simp only [Run.lift_ok_andThen, twoStage_andThen]
      exact checked_twoStage_args hlen
    · exact iff_of_false not_checked_panic fun h => hlen h.1
  | poll pollFds out timeout =>
    cases reply <;> try cases hid
    rw [SocketOp.run, SocketService.poll, ask_eq hreq (by rfl)]
    split_ifs with hlen
    · simp only [Run.lift_ok_andThen, twoStage_andThen]
      exact checked_twoStage_args hlen
    · exact iff_of_false not_checked_panic fun h => hlen h.1
  | _ =>
    cases reply <;> try cases hid
    simp only [SocketOp.run, SocketService.connect, SocketService.bind, SocketService.listen,
      SocketService.setNonblock, SocketService.close, SocketService.shutdown]
    rw [ask_eq hreq (by rfl)]
    exact checked_twoStage_args trivial

/-- A connection with the descriptor 5 from `127.0.0.1:80`. -/
def acceptedReply : SocketReply :=
  .accept 0 5 (Vector.ofFn fun i => [8, 2, 0, 80, 127, 0, 0, 1].getD i.val 0)

theorem checked_iff_accept :
    Checked .libctru acceptedReply.res acceptedReply.posix
      ((SocketOp.accept ⟨3⟩).run .libctru fun _ => .ok acceptedReply) :=
  (checked_iff (.accept ⟨3⟩) acceptedReply rfl (fun _ _ => rfl)
    fun _ _ => ⟨by decide, by decide⟩).2 ⟨by decide, .inl (by decide)⟩

/-- The `Socket` command fails: `soc:U` reports -23 in place of a descriptor. -/
def failedReply : SocketReply := .socket 0 0xFFFFFFE9

/-- **A failed command becomes a live handle**: `create_socket` returns
`Ok(SocketHandle(0xFFFFFFE9))`. -/
theorem create_socket_ok_on_error : failedReply.posix = -23 ∧
    ¬ Checked .libctru failedReply.res failedReply.posix
      (SocketOp.createSocket.run .libctru fun _ => .ok failedReply) := by
  refine ⟨by decide, ?_⟩
  unfold Checked
  rw [if_neg (by decide)]
  rintro ⟨-, hbuilt⟩
  exact absurd hbuilt (by decide)

end BunnyDs
