import BunnyDs.Kernel.Channel
import BunnyDs.LTS.Basic
import BunnyDs.LTS.Log
import BunnyDs.Net.Stream
import Mathlib.Data.Fin.VecNotation

/-!
# Socket interests

A `Recv` or `SendFuture` whose call would block adds its task and its kind to the socket's
`interests_queue`.  One worker thread for each socket drains the queue into a list for each kind,
polls the socket for the kinds it holds, and wakes the tasks of the kinds that are ready.  It
consumes a count of the queue's semaphore only when it holds nothing.

* `AsyncTcpSocket.recvPoll`, `AsyncTcpSocket.sendPoll` : what a poll registers; the second one
  agrees with the `SendFuture` of `BunnyDs.Net.Stream` (`AsyncTcpSocket.sendPoll_eq_none_iff`).
* `AsyncTcpSocket.system` : any number of polls of such futures and the worker loop of
  `AsyncTcpSocket::run`, with any results of the socket polls.
* `AsyncTcpSocket.Conserved` : where a registration can be, and when it is woken.
* `AsyncTcpSocket.interests_conserved` : that is so in every reachable state.
-/

namespace BunnyDs

/-! ### Poll flags -/

/-- `PollFlags`. -/
structure PollFlags where
  bits : UInt32
  deriving DecidableEq

namespace PollFlags

def pollin : PollFlags := ⟨0x01⟩
def pollout : PollFlags := ⟨0x08⟩

/-- The union of two sets of flags. -/
def or (f g : PollFlags) : PollFlags := ⟨f.bits ||| g.bits⟩

/-- All flags of `g` are in `f`. -/
def contains (f g : PollFlags) : Bool := f.bits &&& g.bits == g.bits

end PollFlags

/-- `PollInterest`. -/
inductive PollInterest where
  | read
  | write
  deriving DecidableEq

/-- The flag that tells that an interest can be served. -/
def PollInterest.flag : PollInterest → PollFlags
  | .read => .pollin
  | .write => .pollout

namespace AsyncTcpSocket

/-! ### The futures -/

/-- A poll of a future on the socket: ready with a result, or pending with what it registers. -/
inductive Polled (α : Type*) where
  | ready (res : BunnyResult α)
  | pending (task : TaskToken) (interest : PollInterest)

/-- The match on the result of `recv` or `send`. -/
def pollWith {α : Type*} (task : TaskToken) (interest : PollInterest) :
    BunnyResult α → Polled α
  | .ok res => .ready (.ok res)
  | .error (.libc .eagain) => .pending task interest
  | .error e => .ready (.error e)

/-- `Recv::poll`, with what `recv` returned. -/
def recvPoll (task : TaskToken) (res : BunnyResult ℕ) : Polled ℕ := pollWith task .read res

/-- `SendFuture::poll`, with what `send` returned. -/
def sendPoll (task : TaskToken) (res : BunnyResult Unit) : Polled Unit := pollWith task .write res

/-- A poll registers exactly if the call would block. -/
theorem pollWith_eq_pending_iff {α : Type*} {task : TaskToken} {interest : PollInterest}
    {res : BunnyResult α} :
    pollWith task interest res = .pending task interest ↔ res = .error (.libc .eagain) := by
  unfold pollWith
  split <;> simp_all

/-- The `SendFuture::poll` of `BunnyDs.Net.Stream`, which leaves the registration out, is pending
exactly if this one registers. -/
theorem sendPoll_eq_none_iff {C : Ctru} {answers : ℕ → SendAnswer C} {socket : TcpSocket}
    {data : List UInt8} {w : Wire} {task : TaskToken} {res : BunnyResult Unit}
    (h : (socket.send answers data w).1 = match res with | .ok v => .ok v | .error e => .err e) :
    (socket.sendPoll answers data w).1 = none ↔ sendPoll task res = .pending task .write := by
  rw [sendPoll, pollWith_eq_pending_iff, TcpSocket.sendPoll]
  split
  · rename_i w' hsend
    rw [hsend] at h
    cases res with
    | ok v => cases h
    | error e =>
      obtain rfl := Outcome.err.inj h
      simp
  · rename_i o w' hne hsend
    refine iff_of_false (by simp) ?_
    rintro rfl
    rw [hsend] at h
    exact hne h

/-! ### The worker -/

/-- The arguments of `socket.poll`. -/
structure PollRequest where
  flags : PollFlags
  timeout : Int32
  deriving DecidableEq

/-- `tunables::net::SOCKET_POLL_TIMEOUT`. -/
def socketPollTimeout : Int32 := 100

/-- What the worker polls for. -/
def pollRequest (hasWrite : Bool) : PollRequest where
  flags := if hasWrite then .or .pollin .pollout else .pollin
  timeout := if hasWrite then -1 else socketPollTimeout

/-- Where the worker is in its loop. -/
inductive Phase where
  /-- At the top of the loop. -/
  | top
  /-- In `interests_queue.wait`. -/
  | waiting
  /-- Before `interests_queue.vals.lock()`. -/
  | locking
  /-- In the `for` loop over `drain(..)`, with the lock. -/
  | draining
  /-- Before `socket.poll`. -/
  | requesting
  /-- In the `n`-th call of `socket.poll`. -/
  | polling (n : ℕ) (req : PollRequest)
  /-- After the poll, at the wakes of one kind. -/
  | waking (interest : PollInterest) (out : PollFlags)
  /-- The thread has panicked, because a poll failed. -/
  | exited
  deriving DecidableEq

/-- Events of the worker.  The registrations `R` are named apart, whatever task they are for. -/
inductive Event (R : Type*) where
  /-- The registration is moved to the list of its kind. -/
  | moved (r : R)
  /-- The `n`-th call of `socket.poll` starts. -/
  | pollStart (n : ℕ) (req : PollRequest)
  /-- It returns `Ok(out)`. -/
  | pollEnd (n : ℕ) (out : PollFlags)
  /-- `executor.wake` of its task. -/
  | woke (r : R)
  deriving DecidableEq

/-- The socket's queue, and the worker with its two lists. -/
structure State (R : Type*) where
  queue : Channel R
  /-- `read_interests` and `write_interests`. -/
  interests : PollInterest → List R
  phase : Phase
  /-- How often `socket.poll` was called. -/
  polls : ℕ
  log : List (Event R)

/-- One step of a future or of the worker. -/
inductive Label (R : Type*) where
  /-- `Recv::poll` with this result of `recv`; on `EAGAIN` the first half of `add`. -/
  | recv (r : R) (res : BunnyResult ℕ)
  /-- `SendFuture::poll` with this result of `send`; on `EAGAIN` the first half of `add`. -/
  | send (r : R) (res : BunnyResult Unit)
  /-- The second half of `add`. -/
  | release (r : R)
  /-- The next step of the worker. -/
  | worker
  /-- `socket.poll` returns. -/
  | answer (res : BunnyResult PollFlags)

variable {R : Type*} [DecidableEq R]

/-- The first half of `add`, if the poll registers something. -/
def State.register {α : Type*} (s : State R) (r : R) : Polled α → State R
  | .ready _ => s
  | .pending _ _ => { s with queue := s.queue.push r }

/-- The next phase after the wakes of one kind: writes come first. -/
def Phase.afterWakes (out : PollFlags) : PollInterest → Phase
  | .write => .waking .read out
  | .read => .top

omit [DecidableEq R] in
/-- The next step of the worker. -/
def State.work (reg : R → TaskToken × PollInterest) (s : State R) : State R :=
  match s.phase with
  | .top =>
    if s.interests .read = [] ∧ s.interests .write = [] then { s with phase := .waiting }
    else { s with phase := .locking }
  | .waiting => { s with queue := s.queue.wait, phase := .locking }
  | .locking => { s with phase := .draining }
  | .draining =>
    match s.queue.queue.front? with
    | some r =>
      { s with
        queue := s.queue.popFront
        interests := Function.update s.interests (reg r).2 (s.interests (reg r).2 ++ [r])
        log := .moved r :: s.log }
    | none => { s with phase := .requesting }
  | .requesting =>
    let req := pollRequest !(s.interests .write).isEmpty
    { s with
      phase := .polling s.polls req, polls := s.polls + 1
      log := .pollStart s.polls req :: s.log }
  | .waking interest out =>
    match out.contains interest.flag, s.interests interest with
    | true, r :: rs =>
      { s with interests := Function.update s.interests interest rs, log := .woke r :: s.log }
    | _, _ => { s with phase := .afterWakes out interest }
  | .polling _ _ | .exited => s

/-- The effect of a step. -/
def fire (reg : R → TaskToken × PollInterest) (s : State R) : Label R → State R
  | .recv r res => s.register r (recvPoll (reg r).1 res)
  | .send r res => s.register r (sendPoll (reg r).1 res)
  | .release r => { s with queue := s.queue.release r }
  | .worker => s.work reg
  | .answer res =>
    match s.phase, res with
    | .polling n _, .ok out =>
      { s with phase := .waking .write out, log := .pollEnd n out :: s.log }
    -- `unwrap`
    | _, _ => { s with phase := .exited }

omit [DecidableEq R] in
/-- The worker can make its next step. -/
def State.CanWork (s : State R) : Prop :=
  match s.phase with
  | .waiting => 0 < s.queue.queue.sem.count
  | .polling _ _ | .exited => False
  | _ => True

/-- The worker is in `socket.poll`. -/
def Phase.isPolling : Phase → Bool
  | .polling _ _ => true
  | _ => false

/-- A poll does not need the lock, or can have it. -/
def State.CanRegister {α : Type*} (s : State R) : Polled α → Prop
  | .ready _ => True
  | .pending _ _ => s.phase ≠ .draining

/-- A step can be taken. -/
def Enabled (reg : R → TaskToken × PollInterest) (s : State R) : Label R → Prop
  | .recv r res => s.queue.adds r = .idle ∧ (reg r).2 = .read ∧
      s.CanRegister (recvPoll (reg r).1 res)
  | .send r res => s.queue.adds r = .idle ∧ (reg r).2 = .write ∧
      s.CanRegister (sendPoll (reg r).1 res)
  | .release r => s.queue.adds r = .pushed
  | .worker => s.CanWork
  | .answer _ => s.phase.isPolling = true

instance (s : State R) : Decidable s.CanWork := by
  unfold State.CanWork
  cases s.phase <;> dsimp only <;> infer_instance

instance {α : Type*} (s : State R) (p : Polled α) : Decidable (s.CanRegister p) :=
  match p with
  | .ready _ => inferInstanceAs (Decidable True)
  | .pending _ _ => inferInstanceAs (Decidable (s.phase ≠ .draining))

/-- Futures that make the registrations `reg`, and the worker. -/
def system (reg : R → TaskToken × PollInterest) : LTS (State R) (Label R) where
  init := ⟨.new, fun _ => [], .top, 0, []⟩
  Enabled := Enabled reg
  fire := fire reg

instance (reg : R → TaskToken × PollInterest) (s : State R) (l : Label R) :
    Decidable ((system reg).Enabled s l) :=
  match l with
  | .recv r res => inferInstanceAs (Decidable (s.queue.adds r = .idle ∧ (reg r).2 = .read ∧
      s.CanRegister (recvPoll (reg r).1 res)))
  | .send r res => inferInstanceAs (Decidable (s.queue.adds r = .idle ∧ (reg r).2 = .write ∧
      s.CanRegister (sendPoll (reg r).1 res)))
  | .release r => inferInstanceAs (Decidable (s.queue.adds r = .pushed))
  | .worker => inferInstanceAs (Decidable s.CanWork)
  | .answer _ => inferInstanceAs (Decidable (s.phase.isPolling = true))

/-! ### What is conserved -/

/-- How often the registration is in the queue, in the list of its kind, and among the wakes. -/
def State.places (reg : R → TaskToken × PollInterest) (s : State R) (r : R) : ℕ :=
  s.queue.queue.vals.count r + (s.interests (reg r).2).count r + s.log.count (.woke r)

omit [DecidableEq R] in
/-- A poll that asked for the kind of `r` started after `r` was moved, and its result has the flag
of the kind of `r`; `es` comes after it. -/
def PolledFor (reg : R → TaskToken × PollInterest) (es log : List (Event R)) (r : R) : Prop :=
  ∃ (n : ℕ) (req : PollRequest) (out : PollFlags), req.flags.contains (reg r).2.flag = true ∧
    out.contains (reg r).2.flag = true ∧
    (es ++ [Event.pollEnd n out, .pollStart n req, .moved r]).Sublist log

/-- The result of a socket poll, if the event is its return. -/
def Event.result? : Event R → Option PollFlags
  | .pollEnd _ out => some out
  | _ => none

omit [DecidableEq R] in
/-- The result of the last socket poll. -/
def State.lastResult (s : State R) : Option PollFlags := s.log.findSome? Event.result?

/-- The wakes of a kind are done, and nothing was drained since. -/
def Phase.pastWakes (k : PollInterest) : Phase → Bool
  | .top | .waiting | .locking => true
  | .waking .read _ => k = .write
  | _ => false

/-- **Interests are conserved.** -/
structure Conserved (reg : R → TaskToken × PollInterest) (s : State R) : Prop where
  /-- A registration is in the queue, in the list of its kind or woken: in one of them, once. -/
  one_place : ∀ r, s.queue.adds r ≠ .idle → s.places reg r = 1
  /-- What was not registered is nowhere. -/
  nowhere : ∀ r, s.queue.adds r = .idle → s.places reg r = 0
  /-- A list holds its own kind only. -/
  own_list : ∀ k, ∀ r ∈ s.interests k, (reg r).2 = k
  /-- A wake comes after a poll that started after the move, and found the kind ready. -/
  woken : ∀ r, .woke r ∈ s.log → PolledFor reg [.woke r] s.log r
  /-- The wakes of a kind that the poll found ready leave nothing in its list. -/
  emptied : ∀ k out, s.phase.pastWakes k = true → s.lastResult = some out →
    out.contains k.flag = true → s.interests k = []
  /-- `POLLOUT` is requested whenever a write interest is held. -/
  requested : ∀ n req, s.phase = .polling n req → s.interests .write ≠ [] →
    req.flags.contains .pollout = true
  /-- The worker sleeps only if it holds nothing and no registration is complete. -/
  asleep : s.phase = .waiting → s.queue.queue.sem.count = 0 →
    (∀ k, s.interests k = []) ∧ ∀ r ∈ s.queue.queue.vals, s.queue.adds r ≠ .returned

/-! ### The invariant of the worker -/

omit [DecidableEq R] in
/-- What the worker knows of what it holds. -/
def PhaseInv (reg : R → TaskToken × PollInterest) (s : State R) : Prop :=
  match s.phase with
  | .waiting => ∀ k, s.interests k = []
  | .polling n req => ∀ k, ∀ r ∈ s.interests k, req.flags.contains k.flag = true ∧
      [Event.pollStart n req, .moved r].Sublist s.log
  | .waking _ out => ∀ k, ∀ r ∈ s.interests k, out.contains k.flag = true → PolledFor reg [] s.log r
  | _ => True

/-- The worker has not taken a count since it last emptied the queue. -/
def Phase.settled : Phase → Bool
  | .locking | .draining => false
  | _ => true

/-- How often a registration is somewhere. -/
def expected : AddPhase → ℕ
  | .idle => 0
  | .pushed | .returned => 1

structure Inv (reg : R → TaskToken × PollInterest) (s : State R) : Prop where
  places : ∀ r, s.places reg r = expected (s.queue.adds r)
  own_list : ∀ k, ∀ r ∈ s.interests k, (reg r).2 = k
  moved : ∀ k, ∀ r ∈ s.interests k, .moved r ∈ s.log
  woken : ∀ r, .woke r ∈ s.log → PolledFor reg [.woke r] s.log r
  phase : PhaseInv reg s
  awake : s.phase.settled = true → s.queue.Awake

omit [DecidableEq R] in
/-- What the wakes leave in the lists. -/
structure Emptied (s : State R) : Prop where
  last : ∀ k out, s.phase = .waking k out → s.lastResult = some out
  empty : ∀ k out, s.phase.pastWakes k = true → s.lastResult = some out →
    out.contains k.flag = true → s.interests k = []

section Steps

variable {reg : R → TaskToken × PollInterest} {s : State R}

theorem Inv.nowhere (h : Inv reg s) {r : R} (hr : s.queue.adds r = .idle) :
    s.places reg r = 0 := by
  rw [h.places, hr, expected]

theorem Inv.asleep (h : Inv reg s) (hphase : s.phase = .waiting)
    (hcount : s.queue.queue.sem.count = 0) :
    (∀ k, s.interests k = []) ∧ ∀ r ∈ s.queue.queue.vals, s.queue.adds r ≠ .returned := by
  have hp := h.phase
  rw [PhaseInv, hphase] at hp
  refine ⟨hp, fun r hr hret => ?_⟩
  have := h.awake (by rw [hphase]; rfl) r hr hret
  omega

theorem Inv.conserved (h : Inv reg s) (he : Emptied s) : Conserved reg s where
  one_place r hr := by
    rw [h.places]
    cases ha : s.queue.adds r <;> first | rfl | exact absurd ha hr
  nowhere _ := h.nowhere
  own_list := h.own_list
  woken := h.woken
  emptied := he.empty
  requested n req hphase hne := by
    have hp := h.phase
    rw [PhaseInv, hphase] at hp
    obtain ⟨r, hr⟩ := List.exists_mem_of_ne_nil _ hne
    exact (hp .write r hr).1
  asleep := h.asleep

theorem inv_init : Inv reg (system reg).init where
  places _ := rfl
  own_list _ _ h := absurd h List.not_mem_nil
  moved _ _ h := absurd h List.not_mem_nil
  woken _ h := absurd h List.not_mem_nil
  phase := trivial
  awake _ := Channel.awake_new

omit [DecidableEq R] in
theorem PolledFor.cons {es log : List (Event R)} {r : R} (h : PolledFor reg es log r)
    (e : Event R) : PolledFor reg es (e :: log) r := by
  obtain ⟨n, req, out, hreq, hout, hsub⟩ := h
  exact ⟨n, req, out, hreq, hout, hsub.cons e⟩

/-- A registration is pushed. -/
theorem inv_push (h : Inv reg s) {r : R} (hidle : s.queue.adds r = .idle) :
    Inv reg { s with queue := s.queue.push r } := by
  refine ⟨fun r' => ?_, h.own_list, h.moved, h.woken, h.phase, fun hs => (h.awake hs).push hidle⟩
  have hr' := h.places r'
  simp only [State.places, Channel.push_queue hidle, Channel.push_adds hidle,
    SyncQueue.pushBack_vals, List.count_append] at hr' ⊢
  by_cases he : r' = r
  · subst he
    rw [hidle, expected] at hr'
    simp only [Function.update_self, expected, List.count_singleton_self]
    omega
  · rw [Function.update_of_ne he, ← hr']
    simp [Ne.symm he]

/-- The semaphore is released for a registration. -/
theorem inv_release (h : Inv reg s) {r : R} (hpushed : s.queue.adds r = .pushed) :
    Inv reg { s with queue := s.queue.release r } := by
  refine ⟨fun r' => ?_, h.own_list, h.moved, h.woken, h.phase,
    fun _ => Channel.awake_release _ _⟩
  have hr' := h.places r'
  simp only [State.places, Channel.release_queue, Channel.release_adds,
    SyncQueue.release_vals] at hr' ⊢
  rw [hr']
  by_cases he : r' = r
  · rw [he, hpushed, Function.update_self, expected, expected]
  · rw [Function.update_of_ne he]

/-- The worker moves on in its loop. -/
theorem inv_phase (h : Inv reg s) {p : Phase} (hp : PhaseInv reg { s with phase := p })
    (ha : p.settled = true → s.queue.Awake) : Inv reg { s with phase := p } :=
  ⟨h.places, h.own_list, h.moved, h.woken, hp, ha⟩

/-- The registration at the front is moved to the list of its kind. -/
theorem inv_move (h : Inv reg s) (hphase : s.phase = .draining) {r : R}
    (hfront : s.queue.queue.front? = some r) :
    Inv reg { s with
      queue := s.queue.popFront
      interests := Function.update s.interests (reg r).2 (s.interests (reg r).2 ++ [r])
      log := .moved r :: s.log } := by
  have hvals := SyncQueue.vals_eq_of_front? hfront
  have hmem : ∀ k, ∀ r' ∈ Function.update s.interests (reg r).2 (s.interests (reg r).2 ++ [r]) k,
      r' ∈ s.interests k ∨ r' = r ∧ k = (reg r).2 := by
    intro k r' hr'
    by_cases hk : k = (reg r).2
    · subst hk
      simpa using hr'
    · rw [Function.update_of_ne hk] at hr'
      exact .inl hr'
  refine ⟨fun r' => ?_, fun k r' hr' => ?_, fun k r' hr' => ?_, fun r' hr' => ?_, ?_, ?_⟩
  · have hr' := h.places r'
    simp only [State.places, Channel.popFront_queue, Channel.popFront_adds] at hr' ⊢
    rw [← hr', hvals]
    by_cases he : r' = r
    · subst he
      simp
      omega
    · by_cases hk : (reg r').2 = (reg r).2
      · simp [hk, Ne.symm he]
      · simp [Function.update_of_ne hk, Ne.symm he]
  · rcases hmem k r' hr' with hr' | ⟨rfl, rfl⟩
    · exact h.own_list k r' hr'
    · rfl
  · rcases hmem k r' hr' with hr' | ⟨rfl, rfl⟩
    · exact List.mem_cons_of_mem _ (h.moved k r' hr')
    · exact List.mem_cons_self
  · exact (h.woken r' (by simpa using hr')).cons _
  · simp only [PhaseInv, hphase]
  · simp [hphase, Phase.settled]

omit [DecidableEq R] in
/-- The worker asks for every kind it holds. -/
theorem contains_pollRequest {k : PollInterest} (h : s.interests k ≠ []) :
    (pollRequest !(s.interests .write).isEmpty).flags.contains k.flag = true := by
  cases k with
  | write =>
    have hwrite : (s.interests .write).isEmpty = false := by simpa using h
    rw [hwrite]
    decide
  | read => cases (s.interests .write).isEmpty <;> decide

/-- A socket poll starts: everything that is held was moved before. -/
theorem inv_request (h : Inv reg s) (hphase : s.phase = .requesting) :
    let req := pollRequest !(s.interests .write).isEmpty
    Inv reg { s with
      phase := .polling s.polls req, polls := s.polls + 1
      log := .pollStart s.polls req :: s.log } := by
  refine ⟨fun r => ?_, h.own_list, fun k r hr => List.mem_cons_of_mem _ (h.moved k r hr),
    fun r hr => (h.woken r (by simpa using hr)).cons _, fun k r hr => ⟨?_, ?_⟩,
    fun _ => h.awake (by rw [hphase]; rfl)⟩
  · simpa [State.places] using h.places r
  · exact contains_pollRequest (List.ne_nil_of_mem hr)
  · exact (List.singleton_sublist.2 (h.moved k r hr)).cons_cons _

/-- A socket poll returns. -/
theorem inv_answer (h : Inv reg s) {n : ℕ} {req : PollRequest} (hphase : s.phase = .polling n req)
    (out : PollFlags) :
    Inv reg { s with phase := .waking .write out, log := .pollEnd n out :: s.log } := by
  have hp := h.phase
  rw [PhaseInv, hphase] at hp
  refine ⟨fun r => ?_, h.own_list, fun k r hr => List.mem_cons_of_mem _ (h.moved k r hr),
    fun r hr => (h.woken r (by simpa using hr)).cons _, fun k r hr hout => ?_,
    fun _ => h.awake (by rw [hphase]; rfl)⟩
  · simpa [State.places] using h.places r
  · obtain ⟨hreq, hsub⟩ := hp k r hr
    have hk := h.own_list k r hr
    exact ⟨n, req, out, by rwa [hk], by rwa [hk], hsub.cons_cons _⟩

/-- The worker wakes the first task of a list whose flag is in the result. -/
theorem inv_wake (h : Inv reg s) {k : PollInterest} {out : PollFlags}
    (hphase : s.phase = .waking k out) (hout : out.contains k.flag = true) {r : R} {rs : List R}
    (hlist : s.interests k = r :: rs) :
    Inv reg { s with interests := Function.update s.interests k rs, log := .woke r :: s.log } := by
  have hkind : (reg r).2 = k := h.own_list k r (by rw [hlist]; simp)
  have hp := h.phase
  rw [PhaseInv, hphase] at hp
  have hmem : ∀ k', ∀ r' ∈ Function.update s.interests k rs k', r' ∈ s.interests k' := by
    intro k' r' hr'
    by_cases he : k' = k
    · subst he
      rw [Function.update_self] at hr'
      rw [hlist]
      exact List.mem_cons_of_mem _ hr'
    · rwa [Function.update_of_ne he] at hr'
  have hserved : PolledFor reg [.woke r] (.woke r :: s.log) r := by
    obtain ⟨n, req, out', hreq, hout', hsub⟩ := hp k r (by rw [hlist]; simp) hout
    exact ⟨n, req, out', hreq, hout', hsub.cons_cons _⟩
  refine ⟨fun r' => ?_, fun k' r' hr' => h.own_list k' r' (hmem k' r' hr'),
    fun k' r' hr' => List.mem_cons_of_mem _ (h.moved k' r' (hmem k' r' hr')), fun r' hr' => ?_, ?_,
    fun _ => h.awake (by rw [hphase]; rfl)⟩
  · have hr' := h.places r'
    simp only [State.places] at hr' ⊢
    rw [← hr']
    by_cases he : r' = r
    · subst he
      simp only [hkind, hlist, Function.update_self, List.count_cons_self]
      omega
    · by_cases hk : (reg r').2 = k
      · simp [hk, hlist, Ne.symm he]
      · simp [Function.update_of_ne hk, Ne.symm he]
  · rcases List.mem_cons.1 hr' with he | hr'
    · rw [Event.woke.inj he]
      exact hserved
    · exact (h.woken r' hr').cons _
  · simp only [PhaseInv, hphase]
    exact fun k' r' hr' ho => (hp k' r' (hmem k' r' hr') ho).cons _

/-- The next step of the worker. -/
theorem inv_work (h : Inv reg s) : Inv reg (s.work reg) := by
  have ha := h.awake
  have hp := h.phase
  unfold State.work
  rw [PhaseInv] at hp
  cases hphase : s.phase with
  | top =>
    rw [hphase] at ha
    dsimp only
    split_ifs with hempty
    · refine inv_phase h (fun k => ?_) fun _ => ha rfl
      cases k with
      | read => exact hempty.1
      | write => exact hempty.2
    · exact inv_phase h trivial fun hs => by cases hs
  | waiting =>
    exact ⟨h.places, h.own_list, h.moved, h.woken, trivial, fun hs => by cases hs⟩
  | locking => exact inv_phase h trivial fun hs => by cases hs
  | draining =>
    dsimp only
    cases hfront : s.queue.queue.front? with
    | some r =>
      have := inv_move h hphase hfront
      rwa [hphase] at this
    | none =>
      exact inv_phase h trivial fun _ => Channel.awake_of_nil (SyncQueue.front?_eq_none.1 hfront)
  | requesting => exact inv_request h hphase
  | polling n req => exact h
  | waking k out =>
    rw [hphase] at ha hp
    have hnext : Inv reg { s with phase := .afterWakes out k } := by
      cases k with
      | write => exact inv_phase h hp fun _ => ha rfl
      | read => exact inv_phase h trivial fun _ => ha rfl
    dsimp only
    cases hout : out.contains k.flag with
    | false => exact hnext
    | true =>
      cases hlist : s.interests k with
      | nil => exact hnext
      | cons r rs =>
        have := inv_wake h hphase hout hlist
        rwa [hphase] at this
  | exited => exact h

theorem inv_register {α : Type*} (h : Inv reg s) {r : R} (hidle : s.queue.adds r = .idle)
    (p : Polled α) : Inv reg (s.register r p) := by
  cases p with
  | ready res => exact h
  | pending task interest => exact inv_push h hidle

theorem inv_step {l : Label R} (h : Inv reg s) (hen : Enabled reg s l) :
    Inv reg (fire reg s l) := by
  cases l with
  | recv r res => exact inv_register h hen.1 _
  | send r res => exact inv_register h hen.1 _
  | release r => exact inv_release h hen
  | worker => exact inv_work h
  | answer res =>
    have hexit : Inv reg { s with phase := .exited } := by
      refine inv_phase h trivial fun _ => h.awake ?_
      have hen : s.phase.isPolling = true := hen
      cases hphase : s.phase <;> rw [hphase] at hen <;> first | rfl | cases hen
    simp only [fire]
    cases hphase : s.phase with
    | polling n req =>
      cases res with
      | ok out => exact inv_answer h hphase out
      | error e => exact hexit
    | _ => exact hexit

theorem inv_reachable (h : (system reg).Reachable s) : Inv reg s :=
  h.invariant inv_init fun _ _ _ hi hen _ => inv_step hi hen

/-! ### The lists after the wakes -/

section Emptied

omit [DecidableEq R]

/-- The worker moves on, and the wakes are done just for those kinds for which they were. -/
theorem Emptied.move (h : Emptied s) {p : Phase} (hp : ∀ k out, p ≠ .waking k out)
    (hpast : ∀ k, p.pastWakes k = true → s.phase.pastWakes k = true) :
    Emptied { s with phase := p } :=
  ⟨fun k out hk => absurd hk (hp k out), fun k out hk => h.empty k out (hpast k hk)⟩

/-- There is nothing to say before the wakes. -/
theorem Emptied.before {s : State R} (hp : ∀ k out, s.phase ≠ .waking k out)
    (hpast : ∀ k, s.phase.pastWakes k = false) : Emptied s :=
  ⟨fun k out hk => absurd hk (hp k out), fun k out hk => absurd hk (by simp [hpast])⟩

/-- The wakes of a kind: either its list gets shorter, or nothing of it is left to wake. -/
theorem emptied_waking (h : Emptied s) {k : PollInterest} {out : PollFlags}
    (hphase : s.phase = .waking k out) : Emptied (s.work reg) := by
  have hlast := h.last k out hphase
  have hdone : (out.contains k.flag = true → s.interests k = []) →
      Emptied { s with phase := .afterWakes out k } := by
    intro hk
    refine ⟨fun k' out' hw => ?_, fun k' out' hpast hres hout => ?_⟩
    · cases k with
      | write =>
        obtain ⟨-, rfl⟩ := Phase.waking.inj hw
        exact hlast
      | read => cases hw
    · obtain rfl : out = out' := Option.some.inj (hlast.symm.trans hres)
      by_cases hkk : k' = k
      · subst hkk
        exact hk hout
      · refine h.empty k' out ?_ hlast hout
        cases k <;> cases k' <;> simp_all [Phase.afterWakes, Phase.pastWakes]
  unfold State.work
  simp only [hphase]
  cases hout : out.contains k.flag with
  | false => exact hdone (by simp [hout])
  | true =>
    cases hlist : s.interests k with
    | nil => exact hdone fun _ => hlist
    | cons r rs =>
      dsimp only
      refine ⟨fun k' out' hw => h.last k' out' (hphase.trans hw), fun k' out' hpast hres hc => ?_⟩
      have hkk : k' ≠ k := by
        rintro rfl
        cases k' <;> simp [Phase.pastWakes] at hpast
      exact (Function.update_of_ne hkk ..).trans (h.empty k' out' (hphase ▸ hpast) hres hc)

theorem emptied_work (h : Emptied s) : Emptied (s.work reg) := by
  cases hphase : s.phase with
  | waking k out => exact emptied_waking h hphase
  | top =>
    unfold State.work
    simp only [hphase]
    split_ifs <;> exact h.move (by simp) fun k _ => by simp [hphase, Phase.pastWakes]
  | waiting =>
    have hnext := h.move (p := .locking) (by simp) fun k _ => by simp [hphase, Phase.pastWakes]
    unfold State.work
    simp only [hphase]
    exact ⟨hnext.last, hnext.empty⟩
  | locking | requesting =>
    unfold State.work
    simp only [hphase]
    exact .before (by simp) (by simp [Phase.pastWakes])
  | draining =>
    unfold State.work
    simp only [hphase]
    split <;> exact .before (by simp) (by simp [Phase.pastWakes])
  | polling n req | exited =>
    unfold State.work
    simpa only [hphase] using h

end Emptied

theorem emptied_step {l : Label R} (h : Emptied s) : Emptied (fire reg s l) := by
  have hregister : ∀ {α : Type} (r : R) (p : Polled α), Emptied (s.register r p) := by
    rintro α r (res | ⟨task, interest⟩)
    · exact h
    · exact ⟨h.last, h.empty⟩
  cases l with
  | recv r res => exact hregister r _
  | send r res => exact hregister r _
  | release r => exact ⟨h.last, h.empty⟩
  | worker => exact emptied_work h
  | answer res =>
    simp only [fire]
    split
    · refine ⟨fun k out hw => ?_, fun k out hpast => by cases hpast⟩
      obtain ⟨-, rfl⟩ := Phase.waking.inj hw
      rfl
    · exact .before (by simp) (by simp [Phase.pastWakes])

/-- **Socket interests are conserved.**  For any number of polls that register interests, any
interleaving with the worker and any results of its socket polls, in every reachable state: each
registration is in exactly one place, it is woken once and only after a socket poll that started
after it was moved and whose result has the flag of its kind, after the wakes of a kind that a poll
found ready nothing of it is held, `POLLOUT` is requested while a write interest is held, and the
worker sleeps at a count of zero only if it holds nothing and no registration in the queue is
complete. -/
theorem interests_conserved (h : (system reg).Reachable s) : Conserved reg s := by
  have hemptied : Emptied s :=
    h.invariant ⟨by simp [system], by simp [system, State.lastResult]⟩
      fun _ _ _ hi _ _ => emptied_step hi
  exact (inv_reachable h).conserved hemptied

end Steps

/-- Task 1 waits to read, task 2 to write. -/
def readAndWrite : Fin 2 → TaskToken × PollInterest := ![(⟨1⟩, .read), (⟨2⟩, .write)]

/-- The write is registered while the worker polls for the read; the read is woken, and the next
poll asks for both kinds. -/
theorem interests_conserved_two : ∃ s, (system readAndWrite).Reachable s ∧
    .woke 0 ∈ s.log ∧ s.phase = .polling 1 ⟨⟨0x09⟩, -1⟩ ∧ Conserved readAndWrite s := by
  obtain ⟨s, hs, hwoke, hphase⟩ :=
    LTS.exists_of_exec (system readAndWrite) (fun _ _ => True)
      [.recv 0 (.error (.libc .eagain)), .release 0, .worker, .worker, .worker, .worker, .worker,
        .worker, .send 1 (.error (.libc .eagain)), .release 1, .answer (.ok .pollin), .worker,
        .worker, .worker, .worker, .worker, .worker, .worker, .worker, .worker]
      (fun s => .woke 0 ∈ s.log ∧ s.phase = .polling 1 ⟨⟨0x09⟩, -1⟩) (by decide)
  exact ⟨s, hs, hwoke, hphase, interests_conserved hs⟩

end AsyncTcpSocket

end BunnyDs
