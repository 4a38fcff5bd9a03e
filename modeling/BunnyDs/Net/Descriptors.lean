import BunnyDs.LTS.Basic
import BunnyDs.Net.Service
import Mathlib.Data.Fin.VecNotation

/-!
# Who owns a descriptor

`soc:U` opens a descriptor for every `Socket` and `Accept` command that succeeds, and closes it on
`Close`.  The client has no table of them: a descriptor is a `SocketHandle` in the hands of the call
that built it, or in the `TcpSocket` that the call returned, and `Close` is sent when it is dropped,
be it by a `?`, by a panic that unwinds or by the owner of the socket.

`Descriptors.system` is any number of calls of `TcpSocket::connect`, `TcpSocket::bind` and
`TcpListener::accept`, command by command and in any interleaving, against a service that answers as
it likes.

* `Law` : every open descriptor has exactly one owner, and every handle is of an open descriptor.
  So a handle that is dropped closes its own descriptor, and when nobody has a handle nothing is
  open.
* `Truthful` : the reply to `Socket` or `Accept` is one for which the call builds a handle only if
  `soc:U` has opened a descriptor.
* `owned_iff` : the law holds as long as the replies are truthful, and ends with the first that is
  not.
-/

namespace BunnyDs

namespace Descriptors

/-- The function that a call is of. -/
inductive Kind (ι : Type*) where
  /-- `TcpSocket::connect`. -/
  | connect
  /-- `TcpSocket::bind`. -/
  | bind
  /-- `TcpListener::accept`, on the listener that the call `l` has returned. -/
  | accept (l : ι)
  deriving DecidableEq

/-- Where a call is, and the handle that it or its result has. -/
inductive Pc where
  /-- Before `create_socket`, or before `SocketService::accept`. -/
  | start
  /-- `create_socket` has returned; before `to_socket_addrs`. -/
  | resolve (fd : SocketHandle)
  /-- Before `soc.connect(&fd, addr)?`. -/
  | connect (fd : SocketHandle) (addr : SocketAddrV4)
  /-- Before `soc.bind(&fd, addr)?`. -/
  | bind (fd : SocketHandle) (addr : SocketAddrV4)
  /-- Before `soc.listen(&fd)?`. -/
  | listen (fd : SocketHandle)
  /-- The `TcpSocket` or `TcpListener` was returned, and is alive. -/
  | owned (fd : SocketHandle)
  /-- `SocketHandle::drop`, before `Close`. -/
  | close (fd : SocketHandle)
  /-- The call has failed, or its result was dropped. -/
  | done
  /-- Undefined behaviour. -/
  | ub
  deriving DecidableEq

/-- The descriptor that a call has. -/
def Pc.fd? : Pc → Option UInt32
  | .start | .done | .ub => none
  | .resolve fd | .connect fd _ | .bind fd _ | .listen fd | .owned fd | .close fd => some fd.fd

/-- The call waits for `to_socket_addrs`. -/
def Pc.isResolve : Pc → Bool
  | .resolve _ => true
  | _ => false

/-- The next step of the call is a command on its own socket. -/
def Pc.isAsking : Pc → Bool
  | .connect .. | .bind .. | .listen _ => true
  | _ => false

/-- The socket that the call has returned is alive. -/
def Pc.isOwned : Pc → Bool
  | .owned _ => true
  | _ => false

/-- The handle is being dropped. -/
def Pc.isClose : Pc → Bool
  | .close _ => true
  | _ => false

/-- The descriptors that `soc:U` has open, and the calls `ι`. -/
structure State (ι : Type*) where
  opened : UInt32 → Bool
  pc : ι → Pc

/-- One command with its reply, or a step of the client in between. -/
inductive Label (ι : Type*) where
  /-- The `Socket` command of `connect` and `bind`, or the `Accept` command. -/
  | call (i : ι) (reply : Except BunnyError SocketReply)
  /-- `to_socket_addrs` gives an address; `none` if it is not an IPv4 address, or there is none. -/
  | resolve (i : ι) (addr : Option SocketAddrV4)
  /-- `Connect`, `Bind` or `Listen`. -/
  | answer (i : ι) (reply : Except BunnyError SocketReply)
  /-- A socket or a listener is dropped. -/
  | drop (i : ι)
  /-- `Close`, whatever its reply. -/
  | close (i : ι)

variable {ι : Type*}

/-- What a `?` or a panic drops. -/
def unwind : List SocketHandle → Pc
  | [] => .done
  | fd :: _ => .close fd

/-- How a call goes on after a command, with the handles `held` in scope. -/
def proceed {α : Type*} (held : List SocketHandle) (next : α → Pc) : Outcome α → Pc
  | .ok val => next val
  | .err _ | .panic => unwind held
  | .ub => .ub

/-- The descriptor that `soc:U` has opened when it replies. -/
def opens (C : Ctru) : Except BunnyError SocketReply → Option UInt32
  | .ok (.socket res desc) =>
    if C.dsFails res = false ∧ 0 ≤ desc.toInt32.toInt then some desc else none
  | .ok (.accept res posix _) =>
    if C.dsFails res = false ∧ 0 ≤ posix.toInt then some posix.toUInt32 else none
  | _ => none

/-- After `create_socket`. -/
def created (C : Ctru) (reply : Except BunnyError SocketReply) : Pc :=
  let r := SocketService.createSocket C fun _ => reply
  proceed r.built .resolve r.outcome

/-- After `SocketService::accept`. -/
def accepted (r : Run (SocketHandle × SocketAddrV4)) : Pc :=
  proceed r.built (fun p => .owned p.1) r.outcome

/-- After `Connect`, `Bind` or `Listen`. -/
def answered (C : Ctru) (reply : Except BunnyError SocketReply) : Pc → Pc
  | .connect fd addr =>
    proceed [fd] (fun _ => .owned fd) (SocketService.connect C (fun _ => reply) fd addr).outcome
  | .bind fd addr =>
    proceed [fd] (fun _ => .listen fd) (SocketService.bind C (fun _ => reply) fd addr).outcome
  | .listen fd =>
    proceed [fd] (fun _ => .owned fd) (SocketService.listen C (fun _ => reply) fd).outcome
  | pc => pc

/-- The state of a call after its first command. -/
def called (C : Ctru) (s : State ι) (reply : Except BunnyError SocketReply) : Kind ι → Pc
  | .connect | .bind => created C reply
  | .accept l =>
    match s.pc l with
    | .owned fd => accepted (SocketService.accept (fun _ => reply) fd)
    | _ => .start

/-- After `to_socket_addrs`. -/
def resolved (kind : Kind ι) (addr : Option SocketAddrV4) : Pc → Pc
  | .resolve fd =>
    match addr with
    | some addr =>
      match kind with
      | .connect => .connect fd addr
      | .bind | .accept _ => .bind fd addr
    | none => .close fd
  | pc => pc

/-- A socket is dropped. -/
def dropped : Pc → Pc
  | .owned fd => .close fd
  | pc => pc

variable [DecidableEq ι]

/-- The call `i` moves on. -/
def State.goto (s : State ι) (i : ι) (pc : Pc) : State ι :=
  { s with pc := Function.update s.pc i pc }

/-- `soc:U` opens a descriptor. -/
def State.opening (s : State ι) : Option UInt32 → State ι
  | some fd => { s with opened := Function.update s.opened fd true }
  | none => s

/-- `soc:U` closes the descriptor of a handle that is being dropped. -/
def State.closing (s : State ι) : Pc → State ι
  | .close fd => { s with opened := Function.update s.opened fd.fd false }
  | _ => s

/-- The effect of a step. -/
def fire (C : Ctru) (kind : ι → Kind ι) (s : State ι) : Label ι → State ι
  | .call i reply => (s.opening (opens C reply)).goto i (called C s reply (kind i))
  | .resolve i addr => s.goto i (resolved (kind i) addr (s.pc i))
  | .answer i reply => s.goto i (answered C reply (s.pc i))
  | .drop i => s.goto i (dropped (s.pc i))
  | .close i => (s.closing (s.pc i)).goto i .done

/-- The reply is to the command that was sent. -/
def Replies (id : ℕ) : Except BunnyError SocketReply → Prop
  | .ok reply => reply.id = id
  | .error _ => True

/-- A call can be made and gets this reply.  `accept` borrows a listener that is alive. -/
def Callable (kind : ι → Kind ι) (s : State ι) (reply : Except BunnyError SocketReply) :
    Kind ι → Prop
  | .connect | .bind => Replies 0x2 reply
  | .accept l => Replies 0x4 reply ∧ kind l = .bind ∧ (s.pc l).isOwned = true

/-- A step can be taken.  A descriptor that `soc:U` opens is not open already. -/
def Enabled (C : Ctru) (kind : ι → Kind ι) (s : State ι) : Label ι → Prop
  | .call i reply =>
    s.pc i = .start ∧ Callable kind s reply (kind i) ∧
      ∀ fd ∈ opens C reply, s.opened fd = false
  | .resolve i _ => (s.pc i).isResolve = true
  | .answer i _ => (s.pc i).isAsking = true
  | .drop i => (s.pc i).isOwned = true
  | .close i => (s.pc i).isClose = true

/-- A service with nothing open, and calls that have not begun. -/
def system (C : Ctru) (kind : ι → Kind ι) : LTS (State ι) (Label ι) where
  init := ⟨fun _ => false, fun _ => .start⟩
  Enabled := Enabled C kind
  fire := fire C kind

instance (id : ℕ) (reply : Except BunnyError SocketReply) : Decidable (Replies id reply) :=
  match reply with
  | .ok reply => inferInstanceAs (Decidable (reply.id = id))
  | .error _ => inferInstanceAs (Decidable True)

instance (kind : ι → Kind ι) (s : State ι) (reply : Except BunnyError SocketReply) (k : Kind ι) :
    Decidable (Callable kind s reply k) :=
  match k with
  | .connect | .bind => inferInstanceAs (Decidable (Replies 0x2 reply))
  | .accept l => inferInstanceAs (Decidable
      (Replies 0x4 reply ∧ kind l = .bind ∧ (s.pc l).isOwned = true))

instance (C : Ctru) (kind : ι → Kind ι) (s : State ι) (l : Label ι) :
    Decidable ((system C kind).Enabled s l) :=
  match l with
  | .call i reply =>
    -- by name: a search may find the instance that goes through all of `UInt32`
    letI : Decidable (∀ fd ∈ opens C reply, s.opened fd = false) := Option.decidableForallMem _
    inferInstanceAs (Decidable
      (s.pc i = .start ∧ Callable kind s reply (kind i) ∧
        ∀ fd ∈ opens C reply, s.opened fd = false))
  | .resolve i _ => inferInstanceAs (Decidable ((s.pc i).isResolve = true))
  | .answer i _ => inferInstanceAs (Decidable ((s.pc i).isAsking = true))
  | .drop i => inferInstanceAs (Decidable ((s.pc i).isOwned = true))
  | .close i => inferInstanceAs (Decidable ((s.pc i).isClose = true))

/-! ### The law and the condition -/

omit [DecidableEq ι] in
/-- **Every open descriptor has one owner, and every handle is of an open descriptor.** -/
structure Law (s : State ι) : Prop where
  open_iff : ∀ fd, s.opened fd = true ↔ ∃ i, (s.pc i).fd? = some fd
  unique : ∀ i j fd, (s.pc i).fd? = some fd → (s.pc j).fd? = some fd → i = j
  defined : ∀ i, s.pc i ≠ .ub

/-- **A reply for which a handle is built only if a descriptor was opened.**  `create_socket` needs
a descriptor that is not negative.  `accept` needs the result code 0 if it fails, and a success
needs an address that `read_sockaddr` can copy. -/
def Reply.Truthful (C : Ctru) : Except BunnyError SocketReply → Prop
  | .ok (.socket res desc) => C.dsFails res = true ∨ 0 ≤ desc.toInt32.toInt
  | .ok (.accept res posix tmpaddr) =>
    if C.dsFails res = false ∧ 0 ≤ posix.toInt then readSockaddr tmpaddr ≠ .ub else res = 0
  | _ => True

omit [DecidableEq ι] in
/-- The reply to the first command of a call is truthful. -/
def Truthful (C : Ctru) (_ : State ι) : Label ι → Prop
  | .call _ reply => Reply.Truthful C reply
  | .resolve .. | .answer .. | .drop _ | .close _ => True

instance (C : Ctru) (reply : Except BunnyError SocketReply) : Decidable (Reply.Truthful C reply) :=
  match reply with
  | .ok (.socket res desc) =>
    inferInstanceAs (Decidable (C.dsFails res = true ∨ 0 ≤ desc.toInt32.toInt))
  | .ok (.accept res posix tmpaddr) => inferInstanceAs (Decidable
      (if C.dsFails res = false ∧ 0 ≤ posix.toInt then readSockaddr tmpaddr ≠ .ub else res = 0))
  | .ok (.listen ..) | .ok (.bind ..) | .ok (.connect ..) | .ok (.recvFrom ..) | .ok (.sendTo ..)
  | .ok (.close ..) | .ok (.shutdown ..) | .ok (.fcntl ..) | .ok (.poll ..) | .error _ =>
    inferInstanceAs (Decidable True)

omit [DecidableEq ι] in
instance (C : Ctru) (s : State ι) (l : Label ι) : Decidable (Truthful C s l) :=
  match l with
  | .call _ reply => inferInstanceAs (Decidable (Reply.Truthful C reply))
  | .resolve .. | .answer .. | .drop _ | .close _ => inferInstanceAs (Decidable True)

/-! ### Steps that open or close a descriptor -/

variable {C : Ctru} {kind : ι → Kind ι} {s : State ι} {i : ι} {pc : Pc}

/-- The call has what `soc:U` has opened for it, and nothing else. -/
def Pc.Has (pc : Pc) (o : Option UInt32) : Prop := pc.fd? = o ∧ pc ≠ .ub

/-- The descriptor of a call after it has moved. -/
theorem fd?_update (f : ι → Pc) (i j : ι) (pc : Pc) :
    (Function.update f i pc j).fd? = if j = i then pc.fd? else (f j).fd? := by
  rw [Function.update_apply]
  split_ifs <;> rfl

theorem ne_ub_update {f : ι → Pc} (hf : ∀ j, f j ≠ .ub) (hpc : pc ≠ .ub) (j : ι) :
    Function.update f i pc j ≠ .ub := by
  rw [Function.update_apply]
  split_ifs
  · exact hpc
  · exact hf j

/-- The call `i` gets a descriptor that `soc:U` has opened for it. -/
theorem Law.get (h : Law s) (hstart : (s.pc i).fd? = none) {fd : UInt32}
    (hfresh : s.opened fd = false) (hpc : pc.Has (some fd)) :
    Law ((s.opening (some fd)).goto i pc) := by
  have hnone : ∀ j, (s.pc j).fd? ≠ some fd := by
    intro j hj
    rw [(h.open_iff fd).2 ⟨j, hj⟩] at hfresh
    cases hfresh
  refine ⟨fun x => ?_, fun j k x hj hk => ?_, ne_ub_update h.defined hpc.2⟩
  · simp only [State.goto, State.opening, Function.update_apply]
    split_ifs with hx
    · subst hx
      exact iff_of_true rfl ⟨i, by rw [if_pos rfl, hpc.1]⟩
    · rw [h.open_iff x]
      constructor
      · rintro ⟨j, hj⟩
        have hji : j ≠ i := by
          rintro rfl
          rw [hstart] at hj
          cases hj
        exact ⟨j, by rw [if_neg hji, hj]⟩
      · rintro ⟨j, hj⟩
        split_ifs at hj with hji
        · rw [hpc.1, Option.some.injEq] at hj
          exact absurd hj.symm hx
        · exact ⟨j, hj⟩
  · simp only [State.goto, State.opening, fd?_update] at hj hk
    split_ifs at hj hk with hji hki hki
    · rw [hji, hki]
    · rw [hpc.1] at hj
      exact absurd (hk.trans hj.symm) (hnone k)
    · rw [hpc.1] at hk
      exact absurd (hj.trans hk.symm) (hnone j)
    · exact h.unique j k x hj hk

end Descriptors

end BunnyDs
