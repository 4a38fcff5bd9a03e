import BunnyDs.LTS.Leaves
import BunnyDs.Net.Interests
import Mathlib.Data.Finset.Insert
import Mathlib.Data.Fintype.Defs

/-!
# Socket futures as leaves

`AsyncTcpSocket.system` knows the futures of a socket by their registrations only.  Here `Recv`s and
`SendFuture`s are polled any number of times, each pending poll with a registration of its own, and
the socket is ready for each kind of call or is not: a call would block exactly if the socket is not
ready for it, and `socket.poll` returns the requested kinds that are ready.

* `SocketFutures.system` : the futures of one socket, its worker, and a socket that becomes ready
  and stops being ready at any time.
* `SocketFutures.contract` : when the worker has nothing to do, a future whose latest poll was
  pending waits for a socket that is not ready.
-/

namespace BunnyDs

instance : Fintype PollInterest := ⟨{.read, .write}, fun k => by cases k <;> simp⟩

namespace AsyncTcpSocket

variable {R : Type*}

/-- The poll registers. -/
def Polled.isPending {α : Type*} : Polled α → Bool
  | .ready _ => false
  | .pending _ _ => true

/-- The registration whose task the worker wakes next. -/
def State.wakes? (s : State R) : Option R :=
  match s.phase with
  | .waking interest out =>
    if out.contains interest.flag then (s.interests interest).head? else none
  | _ => none

variable {reg : R → TaskToken × PollInterest} {s : State R}

theorem work_adds : (s.work reg).queue.adds = s.queue.adds := by
  unfold State.work
  split
  · split_ifs <;> rfl
  · rfl
  · rfl
  · split <;> rfl
  · rfl
  · split <;> rfl
  · rfl
  · rfl

/-- The worker logs the wakes it makes. -/
theorem woke_mem_work {r : R} :
    .woke r ∈ (s.work reg).log ↔ s.wakes? = some r ∨ .woke r ∈ s.log := by
  unfold State.work State.wakes?
  cases hphase : s.phase with
  | top =>
    dsimp only
    split_ifs <;> simp
  | draining =>
    dsimp only
    split <;> simp
  | waking interest out =>
    dsimp only
    cases out.contains interest.flag with
    | false => simp
    | true =>
      cases s.interests interest with
      | nil => simp
      | cons r' rs => simp [eq_comm]
  | _ => simp

/-- What the worker wakes next is in a list. -/
theorem mem_of_wakes? {r : R} (h : s.wakes? = some r) : ∃ k, r ∈ s.interests k := by
  unfold State.wakes? at h
  split at h
  · split_ifs at h
    exact ⟨_, List.mem_of_mem_head? h⟩
  · cases h

variable [DecidableEq R]

/-- What the worker wakes next was not woken before. -/
theorem Inv.not_woken (h : Inv reg s) {r : R} (hr : s.wakes? = some r) : .woke r ∉ s.log := by
  obtain ⟨k, hk⟩ := mem_of_wakes? hr
  have hplaces := h.places r
  rw [State.places, h.own_list k r hk] at hplaces
  have hlist : 0 < (s.interests k).count r := List.count_pos_iff.2 hk
  have hle : expected (s.queue.adds r) ≤ 1 := by cases s.queue.adds r <;> simp [expected]
  intro hm
  have hwoke : 0 < s.log.count (.woke r) := List.count_pos_iff.2 hm
  omega

/-- A registration that is complete and was not woken is in the queue or in the list of its kind. -/
theorem Inv.held (h : Inv reg s) {r : R} (hr : s.queue.adds r = .returned)
    (hno : .woke r ∉ s.log) : r ∈ s.queue.queue.vals ∨ r ∈ s.interests (reg r).2 := by
  have hplaces := h.places r
  rw [State.places, hr, List.count_eq_zero.2 hno] at hplaces
  by_contra hne
  obtain ⟨hq, hl⟩ := not_or.1 hne
  rw [List.count_eq_zero.2 hq, List.count_eq_zero.2 hl] at hplaces
  cases hplaces

/-- Where the worker can be if no socket poll fails: it polls with one of its two requests. -/
def Regular (s : State R) : Prop :=
  match s.phase with
  | .polling _ req => ∃ hasWrite, req = pollRequest hasWrite
  | .exited => False
  | _ => True

omit [DecidableEq R] in
theorem regular_work (h : Regular s) : Regular (s.work reg) := by
  unfold State.work
  cases hphase : s.phase with
  | top =>
    dsimp only
    split_ifs <;> trivial
  | draining =>
    dsimp only
    split
    · simp only [Regular]
    · trivial
  | requesting => exact ⟨_, rfl⟩
  | waking interest out =>
    dsimp only
    split
    · simp only [Regular]
    · cases interest <;> trivial
  | waiting | locking => trivial
  | polling n req => exact h
  | exited => exact h

end AsyncTcpSocket

namespace SocketFutures

open AsyncTcpSocket (Polled recvPoll sendPoll)

variable {κ : Type*}

/-- Where a future is. -/
inductive Pc where
  /-- Between polls. -/
  | idle
  /-- Its call would have blocked: before the first half of `add`. -/
  | blocked
  /-- Before the second half of `add`. -/
  | adding
  /-- A poll was ready. -/
  | ready
  deriving DecidableEq

/-- A future, and how many of its polls were pending. -/
structure Fut where
  pc : Pc
  pendings : ℕ

/-- The socket with its worker and its futures.  Registration `(k, n)` is that of the `n`-th pending
poll of `k`. -/
structure State (κ : Type*) where
  base : AsyncTcpSocket.State (κ × ℕ)
  futs : κ → Fut
  /-- A call of this kind would not block. -/
  ready : PollInterest → Bool

/-- One step of one party. -/
inductive Label (κ : Type*) where
  /-- `Recv::poll` begins, with this result of `recv`. -/
  | recv (k : κ) (res : BunnyResult ℕ)
  /-- `SendFuture::poll` begins, with this result of `send`. -/
  | send (k : κ) (res : BunnyResult Unit)
  /-- The first half of `add`. -/
  | push (k : κ)
  /-- The second half of `add`; the poll is pending. -/
  | release (k : κ)
  /-- The next step of the worker. -/
  | worker
  /-- `socket.poll` returns. -/
  | answer (res : BunnyResult PollFlags)
  /-- The socket becomes ready, or stops being ready. -/
  | turn (interest : PollInterest) (isReady : Bool)

/-- Where a future is after its call. -/
def Pc.ofPolled {α : Type*} (p : Polled α) : Pc := if p.isPending then .blocked else .ready

variable [DecidableEq κ]

def State.update (s : State κ) (k : κ) (f : Fut) : State κ :=
  { s with futs := Function.update s.futs k f }

/-- The `add` of the poll under way, as a step of `AsyncTcpSocket.system`. -/
def register (r : κ × ℕ) : PollInterest → AsyncTcpSocket.Label (κ × ℕ)
  | .read => .recv r (.error (.libc .eagain))
  | .write => .send r (.error (.libc .eagain))

/-- The registrations of the futures `reg`. -/
def regs (reg : κ → TaskToken × PollInterest) (r : κ × ℕ) : TaskToken × PollInterest := reg r.1

variable (reg : κ → TaskToken × PollInterest)

/-- The effect of a step. -/
def fire (s : State κ) : Label κ → State κ
  | .recv k res => s.update k { s.futs k with pc := .ofPolled (recvPoll (reg k).1 res) }
  | .send k res => s.update k { s.futs k with pc := .ofPolled (sendPoll (reg k).1 res) }
  | .push k =>
    { s.update k { s.futs k with pc := .adding } with
      base := AsyncTcpSocket.fire (regs reg) s.base (register (k, (s.futs k).pendings) (reg k).2) }
  | .release k =>
    { s.update k ⟨.idle, (s.futs k).pendings + 1⟩ with
      base := AsyncTcpSocket.fire (regs reg) s.base (.release (k, (s.futs k).pendings)) }
  | .worker => { s with base := AsyncTcpSocket.fire (regs reg) s.base .worker }
  | .answer res => { s with base := AsyncTcpSocket.fire (regs reg) s.base (.answer res) }
  | .turn interest isReady => { s with ready := Function.update s.ready interest isReady }

omit [DecidableEq κ] in
/-- `socket.poll` may return this: the requested kinds that are ready, and none of them only after a
timeout. -/
def Answers (s : State κ) (res : BunnyResult PollFlags) : Prop :=
  match s.base.phase, res with
  | .polling _ req, .ok out =>
    (∀ k : PollInterest, out.contains k.flag = (req.flags.contains k.flag && s.ready k)) ∧
      (req.timeout = -1 → ∃ k : PollInterest, out.contains k.flag = true)
  | .polling _ _, .error _ => True
  | _, _ => False

/-- A step can be taken. -/
def Enabled (s : State κ) : Label κ → Prop
  | .recv k res => (s.futs k).pc = .idle ∧ (reg k).2 = .read ∧
      (recvPoll (reg k).1 res).isPending = !s.ready .read
  | .send k res => (s.futs k).pc = .idle ∧ (reg k).2 = .write ∧
      (sendPoll (reg k).1 res).isPending = !s.ready .write
  | .push k => (s.futs k).pc = .blocked ∧ s.base.phase ≠ .draining
  | .release k => (s.futs k).pc = .adding
  | .worker => s.base.CanWork
  | .answer res => Answers s res
  | .turn _ _ => True

/-- The futures `reg` of one socket, with their tasks and kinds. -/
def system : LTS (State κ) (Label κ) where
  init := ⟨(AsyncTcpSocket.system (regs reg)).init, fun _ => ⟨.idle, 0⟩, fun _ => false⟩
  Enabled := Enabled reg
  fire := fire reg

instance (s : State κ) (res : BunnyResult PollFlags) : Decidable (Answers s res) := by
  unfold Answers
  cases s.base.phase <;> cases res <;> dsimp only <;> infer_instance

instance (s : State κ) (l : Label κ) : Decidable ((system reg).Enabled s l) :=
  match l with
  | .recv k res => inferInstanceAs (Decidable ((s.futs k).pc = .idle ∧ (reg k).2 = .read ∧
      (recvPoll (reg k).1 res).isPending = !s.ready .read))
  | .send k res => inferInstanceAs (Decidable ((s.futs k).pc = .idle ∧ (reg k).2 = .write ∧
      (sendPoll (reg k).1 res).isPending = !s.ready .write))
  | .push k => inferInstanceAs (Decidable ((s.futs k).pc = .blocked ∧ s.base.phase ≠ .draining))
  | .release k => inferInstanceAs (Decidable ((s.futs k).pc = .adding))
  | .worker => inferInstanceAs (Decidable s.base.CanWork)
  | .answer res => inferInstanceAs (Decidable (Answers s res))
  | .turn _ _ => inferInstanceAs (Decidable True)

/-- No socket poll fails. -/
def PollsOk (_ : State κ) : Label κ → Prop
  | .answer res => res.isOk = true
  | _ => True

instance (s : State κ) (l : Label κ) : Decidable (PollsOk s l) :=
  match l with
  | .answer res => inferInstanceAs (Decidable (res.isOk = true))
  | .recv _ _ | .send _ _ | .push _ | .release _ | .worker | .turn _ _ =>
    inferInstanceAs (Decidable True)

/-- The status of a future. -/
def Pc.status : Pc → PollStatus
  | .idle => .idle
  | .blocked | .adding => .polling
  | .ready => .ready

/-- The worker has nothing to do: it sleeps at a count of zero, or it is inside a socket poll none
of whose kinds is ready and, if that poll times out, the next one is the same. -/
def Quiet (s : State κ) : Prop :=
  match s.base.phase with
  | .waiting => s.base.queue.queue.sem.count = 0
  | .polling _ req => (∀ k : PollInterest, req.flags.contains k.flag = true → s.ready k = false) ∧
      (req.timeout = -1 ∨ s.base.queue.queue.vals = [])
  | .exited => True
  | _ => False

/-- The futures of one socket.  A wake call is for a registration. -/
def leaves : Leaves κ (κ × ℕ) TaskToken (State κ) (Label κ) where
  sys := system reg
  ok := PollsOk
  access
    | .recv k _ | .send k _ | .push k | .release k => some k
    | .worker | .answer _ | .turn _ _ => none
  starts
    | .recv k _ | .send k _ => some k
    | .push _ | .release _ | .worker | .answer _ | .turn _ _ => none
  wake s
    | .worker => s.base.wakes?.map fun r => (r, (regs reg r).1)
    | .recv _ _ | .send _ _ | .push _ | .release _ | .answer _ | .turn _ _ => none
  leaf := Prod.fst
  task k := (reg k).1
  status s k := (s.futs k).pc.status
  Fired s k := s.ready (reg k).2 = true
  Quiet := Quiet

instance decidableEnabled (s : State κ) (l : Label κ) : Decidable ((leaves reg).sys.Enabled s l) :=
  inferInstanceAs (Decidable ((system reg).Enabled s l))

instance decidableOk (s : State κ) (l : Label κ) : Decidable ((leaves reg).ok s l) :=
  inferInstanceAs (Decidable (PollsOk s l))

instance decidableQuiet (s : State κ) : Decidable ((leaves reg).Quiet s) := by
  change Decidable (Quiet s)
  unfold Quiet
  cases s.base.phase <;> dsimp only <;> infer_instance

/-! ### The registrations of a future -/

/-- Where the `n`-th registration of a future is. -/
def Fut.addPhase (f : Fut) (n : ℕ) : AddPhase :=
  if n < f.pendings then .returned
  else if n = f.pendings ∧ f.pc = .adding then .pushed
  else .idle

omit [DecidableEq κ] in
/-- The futures and the queue of the socket agree. -/
def Added (s : State κ) : Prop := ∀ k n, s.base.queue.adds (k, n) = (s.futs k).addPhase n

variable {reg} {s : State κ} {t : Track κ (κ × ℕ)}

/-- A future is somewhere else, and its registrations are where they were. -/
theorem addPhase_of_pc {f : Fut} {pc : Pc} (h : f.pc ≠ .adding) (h' : pc ≠ .adding) (n : ℕ) :
    ({ f with pc := pc } : Fut).addPhase n = f.addPhase n := by
  simp [Fut.addPhase, h, h']

theorem Pc.ofPolled_ne {α : Type*} (p : Polled α) : Pc.ofPolled p ≠ .adding := by
  unfold Pc.ofPolled
  split_ifs <;> exact Pc.noConfusion

/-- What an `add` that begins does to the socket. -/
theorem fire_register {n : ℕ} {k : κ} :
    AsyncTcpSocket.fire (regs reg) s.base (register (k, n) (reg k).2) =
      { s.base with queue := s.base.queue.push (k, n) } := by
  cases (reg k).2 <;> rfl

/-- A step of one future. -/
theorem Added.update (h : Added s) {k : κ} {f : Fut} {a : κ × ℕ → AddPhase}
    (hself : ∀ n, a (k, n) = f.addPhase n)
    (hother : ∀ j n, j ≠ k → a (j, n) = s.base.queue.adds (j, n)) (j : κ) (n : ℕ) :
    a (j, n) = (Function.update s.futs k f j).addPhase n := by
  by_cases hj : j = k
  · subst hj
    rw [Function.update_self, hself]
  · rw [Function.update_of_ne hj, hother j n hj, h]

/-- A call of a future that was idle. -/
theorem Added.call (h : Added s) {k : κ} (hidle : (s.futs k).pc = .idle) {α : Type*}
    (p : Polled α) : Added (s.update k { s.futs k with pc := .ofPolled p }) := by
  refine h.update (fun n => ?_) fun _ _ _ => rfl
  rw [addPhase_of_pc (by simp [hidle]) (Pc.ofPolled_ne p)]
  exact h k n

omit [DecidableEq κ] in
/-- The registration of the poll under way was not made before. -/
theorem Added.idle (h : Added s) {k : κ} (hpc : (s.futs k).pc = .blocked) :
    s.base.queue.adds (k, (s.futs k).pendings) = .idle := by
  rw [h]
  simp [Fut.addPhase, hpc]

omit [DecidableEq κ] in
theorem Added.pushed (h : Added s) {k : κ} (hpc : (s.futs k).pc = .adding) :
    s.base.queue.adds (k, (s.futs k).pendings) = .pushed := by
  rw [h]
  simp [Fut.addPhase, hpc]

/-- An `add` moves on: the registration of the poll under way, and no other one. -/
theorem Added.add (h : Added s) {k : κ} {f : Fut} {a : AddPhase}
    (hself : f.addPhase (s.futs k).pendings = a)
    (hother : ∀ n, n ≠ (s.futs k).pendings → f.addPhase n = (s.futs k).addPhase n) (j : κ) (n : ℕ) :
    Function.update s.base.queue.adds (k, (s.futs k).pendings) a (j, n) =
      (Function.update s.futs k f j).addPhase n := by
  refine h.update (a := Function.update s.base.queue.adds _ a) (fun n => ?_) (fun j n hj => ?_) j n
  · by_cases hn : n = (s.futs k).pendings
    · rw [hn, Function.update_self, hself]
    · rw [Function.update_of_ne (by simp [hn]), h, hother n hn]
  · rw [Function.update_of_ne (by simp [hj])]

theorem added_step {l : Label κ} (h : Added s) (hen : Enabled reg s l) :
    Added (fire reg s l) := by
  cases l with
  | recv k res => exact h.call hen.1 _
  | send k res => exact h.call hen.1 _
  | push k =>
    intro j n
    simp only [fire, fire_register, Channel.push_adds (h.idle hen.1)]
    refine h.add (by simp [Fut.addPhase]) (fun n hn => ?_) j n
    simp [Fut.addPhase, hn]
  | release k =>
    intro j n
    simp only [fire, AsyncTcpSocket.fire, Channel.release_adds]
    refine h.add (by simp [Fut.addPhase]) (fun n hn => ?_) j n
    have hlt : n < (s.futs k).pendings + 1 ↔ n < (s.futs k).pendings := by omega
    simp [Fut.addPhase, hn, hlt]
  | worker =>
    intro j n
    change (s.base.work (regs reg)).queue.adds (j, n) = _
    rw [AsyncTcpSocket.work_adds]
    exact h j n
  | answer res =>
    intro j n
    have hadds : (AsyncTcpSocket.fire (regs reg) s.base (.answer res)).queue = s.base.queue := by
      simp only [AsyncTcpSocket.fire]
      split <;> rfl
    change (AsyncTcpSocket.fire (regs reg) s.base (.answer res)).queue.adds (j, n) = _
    rw [hadds]
    exact h j n
  | turn interest isReady => exact h

theorem added_reachable {ok : State κ → Label κ → Prop} (h : (system reg).ReachableBy ok s) :
    Added s :=
  h.invariant (fun _ _ => by simp [system, AsyncTcpSocket.system, Fut.addPhase])
    fun _ _ _ hi hen _ => added_step hi hen

omit [DecidableEq κ] in
/-- Only a worker in a socket poll is answered. -/
theorem Answers.isPolling {res : BunnyResult PollFlags} (h : Answers s res) :
    s.base.phase.isPolling = true := by
  unfold Answers at h
  split at h
  · rename_i hphase
    rw [hphase]
    rfl
  · rename_i hphase
    rw [hphase]
    rfl
  · exact h.elim

/-- **The futures of a socket register with its worker** as `AsyncTcpSocket.system` allows. -/
theorem simulation : LTS.Simulation (system reg) PollsOk (AsyncTcpSocket.system (regs reg))
    (fun _ _ => True) State.base := by
  refine ⟨rfl, fun s l hs hen _ => ?_⟩
  have hadded := added_reachable hs
  cases l with
  | recv k res => exact .inl rfl
  | send k res => exact .inl rfl
  | push k =>
    refine .inr ⟨register (k, (s.futs k).pendings) (reg k).2, ?_, trivial, rfl⟩
    have hen : (s.futs k).pc = .blocked ∧ s.base.phase ≠ .draining := hen
    cases hkind : (reg k).2 with
    | read => exact ⟨hadded.idle hen.1, hkind, hen.2⟩
    | write => exact ⟨hadded.idle hen.1, hkind, hen.2⟩
  | release k => exact .inr ⟨.release (k, (s.futs k).pendings), hadded.pushed hen, trivial, rfl⟩
  | worker => exact .inr ⟨.worker, hen, trivial, rfl⟩
  | answer res => exact .inr ⟨.answer res, Answers.isPolling hen, trivial, rfl⟩
  | turn interest isReady => exact .inl rfl

theorem inv_base (h : (system reg).ReachableBy PollsOk s) :
    AsyncTcpSocket.Inv (regs reg) s.base :=
  AsyncTcpSocket.inv_reachable (simulation.reachableBy h)

theorem regular_step {l : Label κ} (h : AsyncTcpSocket.Regular s.base) (hen : Enabled reg s l)
    (hok : PollsOk s l) : AsyncTcpSocket.Regular (fire reg s l).base := by
  cases l with
  | recv k res => exact h
  | send k res => exact h
  | push k =>
    simp only [fire, fire_register]
    exact h
  | release k => exact h
  | worker => exact AsyncTcpSocket.regular_work h
  | answer res =>
    have hpoll := Answers.isPolling hen
    cases hphase : s.base.phase with
    | polling n req =>
      cases res with
      | ok out => simp [fire, AsyncTcpSocket.fire, hphase, AsyncTcpSocket.Regular]
      | error e => cases hok
    | _ => simp [hphase, AsyncTcpSocket.Phase.isPolling] at hpoll
  | turn interest isReady => exact h

theorem regular_reachable (h : (system reg).ReachableBy PollsOk s) :
    AsyncTcpSocket.Regular s.base :=
  h.invariant trivial fun _ _ _ hi hen hok => regular_step hi hen hok

/-! ### The track -/

/-- The registration of the latest poll of a future that is complete or being made. -/
def Fut.Latest (f : Fut) (n : ℕ) : Prop :=
  match f.pc with
  | .idle => n + 1 = f.pendings
  | .adding => n = f.pendings
  | .blocked | .ready => False

omit [DecidableEq κ] in
/-- What the track says about one future: a pending poll has registered; and a future whose latest
registration was woken counts as woken since its latest poll began. -/
structure FutTracked (log : List (AsyncTcpSocket.Event (κ × ℕ))) (k : κ) (f : Fut)
    (begun woken : Bool) : Prop where
  pending : begun = true → f.pc = .idle → 0 < f.pendings
  woken : ∀ n, f.Latest n → .woke (k, n) ∈ log → woken = true

omit [DecidableEq κ] in
/-- The track of all futures; the wake calls are the worker's. -/
structure Tracked (s : State κ) (t : Track κ (κ × ℕ)) : Prop where
  futs : ∀ k, FutTracked s.base.log k (s.futs k) (t.begun k) (t.woken k)
  made : ∀ r, t.made r = true → .woke r ∈ s.base.log

omit [DecidableEq κ] in
/-- A step that is no poll and no wake. -/
theorem Tracked.move {s' : State κ} (h : Tracked s t)
    (hlog : ∀ r, .woke r ∈ s'.base.log ↔ .woke r ∈ s.base.log) (hfuts : s'.futs = s.futs) :
    Tracked s' t := by
  refine ⟨fun k => ?_, fun r hr => (hlog r).2 (h.made r hr)⟩
  rw [hfuts]
  exact ⟨(h.futs k).pending, fun n hl hm => (h.futs k).woken n hl ((hlog _).1 hm)⟩

/-- A step of one future that is no call. -/
theorem Tracked.update (h : Tracked s t) {base : AsyncTcpSocket.State (κ × ℕ)} {k : κ} {f : Fut}
    (hlog : base.log = s.base.log) (hf : FutTracked s.base.log k f (t.begun k) (t.woken k)) :
    Tracked { s.update k f with base := base } t := by
  refine ⟨?_, fun r hr => ?_⟩
  · simp only [hlog]
    exact (Function.forall_update_iff s.futs fun j f =>
      FutTracked s.base.log j f (t.begun j) (t.woken j)).2 ⟨hf, fun j _ => h.futs j⟩
  · simp only [hlog]
    exact h.made r hr

/-- A call: the earlier registrations of the future do not count any more. -/
theorem Tracked.call (h : Tracked s t) {k : κ} {α : Type*} (p : Polled α) :
    Tracked (s.update k { s.futs k with pc := .ofPolled p }) (t.start (some k)) := by
  refine ⟨fun j => ?_, h.made⟩
  by_cases hj : j = k
  · subst hj
    simp only [State.update, Function.update_self, Pc.ofPolled]
    split_ifs
    · exact ⟨by simp, fun n hl => hl.elim⟩
    · exact ⟨by simp, fun n hl => hl.elim⟩
  · simpa [State.update, Track.start, Function.update_of_ne hj] using h.futs j

theorem tracked_step {l : Label κ} (h : Tracked s t) (hs : (leaves reg).Run s t)
    (hen : Enabled reg s l) : Tracked (fire reg s l) ((leaves reg).note s l t) := by
  have hinv := inv_base hs.reachableBy
  have hadded := added_reachable hs.reachableBy
  cases l with
  | recv k res =>
    rw [Leaves.note_of_starts (k := k) rfl rfl]
    exact h.call _
  | send k res =>
    rw [Leaves.note_of_starts (k := k) rfl rfl]
    exact h.call _
  | push k =>
    rw [Leaves.note_of_none rfl rfl]
    simp only [fire, fire_register]
    refine h.update rfl ⟨by simp, fun n hn hm => ?_⟩
    -- a registration that is being made was not woken
    obtain rfl : n = (s.futs k).pendings := hn
    have hplaces := hinv.nowhere (hadded.idle hen.1)
    have hwoke : 0 < s.base.log.count (.woke (k, (s.futs k).pendings)) := List.count_pos_iff.2 hm
    rw [AsyncTcpSocket.State.places] at hplaces
    omega
  | release k =>
    rw [Leaves.note_of_none rfl rfl]
    have hpc : (s.futs k).pc = .adding := hen
    refine h.update rfl ⟨fun _ _ => Nat.succ_pos _, fun n hn hm => (h.futs k).woken n ?_ hm⟩
    rw [Fut.Latest, hpc]
    exact Nat.succ.inj hn
  | worker =>
    have hlog : ∀ r, .woke r ∈ (s.base.work (regs reg)).log ↔
        s.base.wakes? = some r ∨ .woke r ∈ s.base.log := fun r => AsyncTcpSocket.woke_mem_work
    cases hw : s.base.wakes? with
    | none =>
      rw [Leaves.note_of_none rfl (by simp [leaves, hw])]
      refine h.move (fun r => (hlog r).trans ?_) rfl
      simp [hw]
    | some r =>
      have hcall : (leaves reg).wake s .worker = some (r, (reg r.1).1) := by
        simp [leaves, hw, regs]
      refine ⟨fun k => ⟨fun hb => ?_, fun n hn hm => ?_⟩, fun r' hr' => (hlog r').2 ?_⟩
      · exact (h.futs k).pending (((Leaves.note_begun k).1 hb).resolve_left (by simp [leaves]))
      · by_cases hk : r.1 = k
        · subst hk
          exact Leaves.note_woken_wake hcall
        · have hold : .woke (k, n) ∈ s.base.log := by
            refine ((hlog _).1 hm).resolve_left fun he => hk ?_
            rw [Option.some.inj (hw.symm.trans he)]
          refine (Leaves.note_woken fun w x hwx => ?_).2
            ⟨by simp [leaves], (h.futs k).woken n hn hold⟩
          obtain ⟨rfl, -⟩ := Prod.mk.inj (Option.some.inj (hcall.symm.trans hwx))
          exact hk
      · rcases (Leaves.note_made r').1 hr' with ⟨x, hx⟩ | hm
        · obtain ⟨rfl, -⟩ := Prod.mk.inj (Option.some.inj (hcall.symm.trans hx))
          exact .inl hw
        · exact .inr (h.made r' hm)
  | answer res =>
    rw [Leaves.note_of_none rfl rfl]
    refine h.move (fun r => ?_) rfl
    simp only [fire, AsyncTcpSocket.fire]
    split <;> simp
  | turn interest isReady =>
    rw [Leaves.note_of_none rfl rfl]
    exact h.move (fun _ => .rfl) rfl

theorem tracked_run (h : (leaves reg).Run s t) : Tracked s t := by
  refine h.invariant ⟨fun k => ?_, ?_⟩ fun s t l hs hi hen _ => tracked_step hi hs hen
  · exact ⟨by simp [Track.new], fun n hn => by simp [leaves, system, Fut.Latest] at hn⟩
  · simp [Track.new]

/-- A quiet worker holds no registration of a kind the socket is ready for. -/
theorem not_held (hinv : AsyncTcpSocket.Inv (regs reg) s.base)
    (hreg : AsyncTcpSocket.Regular s.base) (hq : Quiet s) {r : κ × ℕ}
    (hret : s.base.queue.adds r = .returned) (hready : s.ready (reg r.1).2 = true)
    (hheld : r ∈ s.base.queue.queue.vals ∨ r ∈ s.base.interests (reg r.1).2) : False := by
  have hphase := hinv.phase
  rw [Quiet] at hq
  rw [AsyncTcpSocket.Regular] at hreg
  rw [AsyncTcpSocket.PhaseInv] at hphase
  cases hp : s.base.phase with
  | waiting =>
    rw [hp] at hq
    obtain ⟨hempty, hqueue⟩ := hinv.asleep hp hq
    rcases hheld with hr | hr
    · exact hqueue r hr hret
    · simp [hempty] at hr
  | polling n req =>
    rw [hp] at hq hreg hphase
    obtain ⟨hnot, hlast⟩ := hq
    have hasked : req.flags.contains (reg r.1).2.flag = true := by
      rcases hheld with hr | hr
      · -- a poll without a timeout asks for both kinds
        obtain ⟨hasWrite, rfl⟩ := hreg
        have htimeout := hlast.resolve_right (List.ne_nil_of_mem hr)
        cases hasWrite with
        | false => simp [AsyncTcpSocket.pollRequest] at htimeout; cases htimeout
        | true => cases (reg r.1).2 <;> decide
      · exact (hphase _ r hr).1
    rw [hnot _ hasked] at hready
    cases hready
  | exited =>
    rw [hp] at hreg
    exact hreg
  | _ =>
    rw [hp] at hq
    exact hq

/-- **Socket futures may be awaited.**  When the worker has nothing to do, a future whose latest
poll was pending has been woken since that poll began, if the socket is ready for its kind of call.
-/
theorem contract (reg : κ → TaskToken × PollInterest) : (leaves reg).Contract where
  access_of_starts l k hk := by
    cases l <;> simp_all [leaves]
  frame s t l k _ _ _ hne := by
    have hupdate : ∀ {j : κ} {f : Fut}, j ≠ k →
        (Function.update s.futs j f k).pc.status = (s.futs k).pc.status := by
      intro j f hj
      rw [Function.update_of_ne hj.symm]
    cases l with
    | recv j res | send j res | push j | release j => exact hupdate fun hj => hne (congrArg some hj)
    | worker | answer res | turn interest isReady => rfl
  token s t l r x _ _ _ hw := by
    cases l with
    | worker =>
      obtain ⟨r', -, he⟩ := Option.map_eq_some_iff.1 hw
      obtain ⟨rfl, rfl⟩ := Prod.mk.inj he
      rfl
    | _ => cases hw
  once s t l r x h _ _ hw := by
    cases l with
    | worker =>
      obtain ⟨r', hr', he⟩ := Option.map_eq_some_iff.1 hw
      obtain ⟨rfl, -⟩ := Prod.mk.inj he
      rw [Bool.eq_false_iff]
      intro hm
      exact (inv_base h.reachableBy).not_woken hr' ((tracked_run h).made _ hm)
    | _ => cases hw
  answered s t k h hq hb hst hf := by
    have hinv := inv_base h.reachableBy
    have ht := (tracked_run h).futs k
    have hidle : (s.futs k).pc = .idle := by
      cases hpc : (s.futs k).pc <;> simp_all [leaves, Pc.status]
    obtain ⟨n, hn⟩ := Nat.exists_eq_add_one.2 (ht.pending hb hidle)
    have hret : s.base.queue.adds (k, n) = .returned := by
      rw [added_reachable h.reachableBy k n]
      simp [Fut.addPhase, hn]
    have hlatest : (s.futs k).Latest n := by
      rw [Fut.Latest, hidle]
      exact hn.symm
    by_contra hno
    have hnot : .woke (k, n) ∉ s.base.log := fun hm => hno (ht.woken n hlatest hm)
    exact not_held hinv (regular_reachable h.reachableBy) hq hret hf (hinv.held hret hnot)

end SocketFutures

end BunnyDs
