import BunnyDs.LTS.Basic
import BunnyDs.LTS.Log
import BunnyDs.Reactor.Handler
import Mathlib.Algebra.Ring.Int.Defs
import Mathlib.Algebra.Ring.Nat

/-!
# Sleeping tasks and the reactor

The first poll of a `Sleep` reads the clock, creates a kernel timer, arms it with the time that is
left, and asks the reactor to wait for it: a request to another thread, on which the poll blocks.
When the timer is signalled, the reactor wakes the task, and the poll that follows finds that the
deadline has passed.  Here every one of these accesses is a step, the clock may advance between any
two of them, and any number of sleeps share the one reactor.

What concerns one sleep is one record, `Sleep`, with its kernel timer.  Assumed of `IPCServer::run`:
its loop waits for the next request or for one of the additional handles, and hands it to the
handler.  Assumed of the kernel: timers are one-shot (a wait that returns resets them), a negative
time is refused, and every handle is distinct.

* `Reactor.View` is what of a state concerns one sleep, and `Reactor.SleepInv` the protocol between
  the sleep, its timer and the reactor; every access of a poll (`sleepInv_read`, `sleepInv_arm`,
  ...) and every step of the kernel and of the reactor (`sleepInv_expire`, `sleepInv_receive`,
  `sleepInv_signal`, `sleepInv_wake`) keeps it.

Whole runs are in `BunnyDs.Reactor.SleepRun`.
-/

namespace BunnyDs

namespace Reactor

variable {κ : Type*}

/-- What a 64-bit signed word holds after `x` was stored in it. -/
def i64 (x : ℤ) : ℤ := x.bmod (2 ^ 64)

theorem i64_eq_self {x : ℕ} (h : x < 2 ^ 63) : i64 x = x := by
  unfold i64
  exact Int.bmod_eq_of_le (by omega) (by omega)

/-! ### The system -/

/-- A one-shot kernel timer. -/
inductive Timer where
  /-- Not created. -/
  | absent
  /-- Created, not running. -/
  | stopped
  /-- Running out at this time. -/
  | armed (expiry : ℕ)
  /-- Signalled; it ran out at this time. -/
  | signalled (expiry : ℕ)
  /-- A wait for it has returned. -/
  | spent (expiry : ℕ)
  deriving DecidableEq

/-- When the timer runs out, or ran out. -/
def Timer.expiry? : Timer → Option ℕ
  | .armed e | .signalled e | .spent e => some e
  | .absent | .stopped => none

/-- The timer is due at the time `now`, and not signalled yet. -/
def Timer.due (now : ℕ) : Timer → Bool
  | .armed e => e ≤ now
  | _ => false

/-- The kernel signals the timer. -/
def Timer.expire : Timer → Timer
  | .armed e => .signalled e
  | t => t

/-- The timer is signalled. -/
def Timer.isSignalled : Timer → Bool
  | .signalled _ => true
  | _ => false

/-- A wait for the timer has returned. -/
def Timer.isSpent : Timer → Bool
  | .spent _ => true
  | _ => false

/-- A wait for the timer returns, and resets it. -/
def Timer.reset : Timer → Timer
  | .signalled e => .spent e
  | t => t

/-- `svcSetTimer(timer, ns as i64, 0)` at the time `now`; a negative time is refused. -/
def setTimer (now left : ℕ) : Timer :=
  if 0 ≤ i64 left then .armed (now + (i64 left).toNat) else .stopped

/-- The next access of a poll. -/
inductive PollPc where
  /-- Not being polled. -/
  | idle
  /-- `Instant::now()`. -/
  | read
  /-- `svcCreateTimer`; the clock was read at `cur`. -/
  | create (cur : ℕ)
  /-- `svcSetTimer`. -/
  | arm (cur : ℕ)
  /-- `REACTOR_PORT.get().unwrap()` and the request. -/
  | request
  /-- Waiting for the reply. -/
  | blocked
  /-- `self.timer = Some(timer)`. -/
  | store
  /-- A poll returned `Ready`. -/
  | ready
  /-- `unwrap` has panicked. -/
  | panicked
  deriving DecidableEq

/-- The poll can go on by itself. -/
def PollPc.active : PollPc → Bool
  | .read | .create _ | .arm _ | .request | .store => true
  | .idle | .blocked | .ready | .panicked => false

/-- Events in the life of one sleep, with the time. -/
inductive Event where
  /-- `sleep` was called. -/
  | called (now : ℕ)
  /-- The timer was armed; the poll had read the clock at `cur`. -/
  | armed (cur now : ℕ)
  /-- The reactor added this token to `WAKE_QUEUE`. -/
  | woke (task : TaskToken) (now : ℕ)
  /-- A poll returned `Ready`. -/
  | ready (now : ℕ)
  deriving DecidableEq

/-- The event is a wake. -/
def Event.isWoke : Event → Bool
  | .woke _ _ => true
  | _ => false

/-- `futures::Sleep`, the poll under way, the timer in the kernel, and what happened.  There is no
deadline before `sleep` is called. -/
structure Sleep where
  deadline : Option ℕ
  timer : Option OSHandle
  pc : PollPc
  kernel : Timer
  log : List Event

/-- Where the reactor thread is. -/
inductive Phase (κ : Type*) where
  /-- Before `REACTOR_PORT.set`. -/
  | starting
  /-- In the wait of `server.run`. -/
  | waiting
  /-- The request of this sleep was handled, before the reply. -/
  | replying (k : κ)
  /-- In the loop of `handle_additional_oshandle`, with these tokens left to wake. -/
  | waking (handle : OSHandle) (tokens : List TaskToken)
  /-- The handler has panicked. -/
  | panicked
  deriving DecidableEq

/-- The loop over the tokens goes on, or is done. -/
def wakeNext (handle : OSHandle) : List TaskToken → Phase κ
  | [] => .waiting
  | tokens => .waking handle tokens

/-- The clock, the sleeps and the reactor. -/
structure State (κ : Type*) where
  now : ℕ
  sleeps : κ → Sleep
  server : Server
  phase : Phase κ

/-- The sleeps of a run: the task that polls each, the handle of its timer on the side of the
server, and the time it is asked for. -/
structure Config (κ : Type*) where
  task : κ → TaskToken
  handle : κ → OSHandle
  handle_injective : Function.Injective handle
  time : κ → ℕ

/-- One step of one party. -/
inductive Label (κ : Type*) where
  /-- The clock advances. -/
  | tick
  /-- `sleep(time)` is called. -/
  | sleep (k : κ)
  /-- The sleep is polled. -/
  | poll (k : κ)
  /-- The next access of its poll. -/
  | access (k : κ)
  /-- The kernel signals its timer. -/
  | expire (k : κ)
  /-- The reactor thread sets `REACTOR_PORT` and enters its loop. -/
  | start
  /-- It receives the request of the sleep and handles it. -/
  | receive (k : κ)
  /-- It replies. -/
  | reply
  /-- Its wait returns with the handle of the sleep's timer. -/
  | signal (k : κ)
  /-- It wakes the next task that waits for that handle. -/
  | wake (k : κ)

variable [DecidableEq κ]

/-- One sleep makes a step. -/
def State.update (s : State κ) (k : κ) (step : Sleep → Sleep) : State κ :=
  { s with sleeps := Function.update s.sleeps k (step (s.sleeps k)) }

/-- `Sleep::poll` after `Instant::now()`. -/
def readClock (now : ℕ) (f : Sleep) : Sleep :=
  match f.deadline with
  | none => f
  | some deadline =>
    if deadline ≤ now then { f with pc := .ready, log := .ready now :: f.log }
    else if f.timer.isNone then { f with pc := .create now }
    else { f with pc := .idle }

/-- `svcSetTimer(timer, (self.deadline - cur).as_nanos() as i64, 0)`. -/
def armTimer (now cur : ℕ) (f : Sleep) : Sleep :=
  { f with
    kernel := setTimer now (f.deadline.getD 0 - cur)
    pc := .request
    log := .armed cur now :: f.log }

/-- The next access of a poll of `k`. -/
def access (c : Config κ) (s : State κ) (k : κ) : Sleep → Sleep := fun f =>
  match f.pc with
  | .read => readClock s.now f
  | .create cur => { f with kernel := .stopped, pc := .arm cur }
  | .arm cur => armTimer s.now cur f
  -- the port is set by the reactor thread itself
  | .request => { f with pc := if s.phase = .starting then .panicked else .blocked }
  | .store => { f with timer := some (c.handle k), pc := .idle }
  | .idle | .blocked | .ready | .panicked => f

/-- The effect of a step. -/
def fire (c : Config κ) (s : State κ) : Label κ → State κ
  | .tick => { s with now := s.now + 1 }
  | .sleep k => s.update k fun f =>
      { f with deadline := some (s.now + c.time k), log := .called s.now :: f.log }
  | .poll k => s.update k fun f => { f with pc := .read }
  | .access k => s.update k (access c s k)
  | .expire k => s.update k fun f => { f with kernel := f.kernel.expire }
  | .start => { s with phase := .waiting }
  | .receive k =>
    match s.server.handleRequest (.addHandle (c.task k) (c.handle k)) with
    | some server => { s with server := server, phase := .replying k }
    | none => { s with phase := .panicked }
  | .reply =>
    match s.phase with
    | .replying k => { s.update k fun f => { f with pc := .store } with phase := .waiting }
    | _ => s
  | .signal k =>
    let s := s.update k fun f => { f with kernel := f.kernel.reset }
    match s.server.handleAdditionalOshandle (c.handle k) with
    | some (tokens, server) => { s with server := server, phase := wakeNext (c.handle k) tokens }
    | none => { s with phase := .panicked }
  | .wake k =>
    match s.phase with
    | .waking handle (task :: tokens) =>
      { s.update k fun f => { f with log := .woke task s.now :: f.log } with
        phase := wakeNext handle tokens }
    | _ => s

/-- The reactor wakes the tasks that wait for this handle. -/
def Phase.wakes (handle : OSHandle) : Phase κ → Bool
  | .waking h (_ :: _) => h = handle
  | _ => false

/-- The reactor is about to reply. -/
def Phase.isReplying : Phase κ → Bool
  | .replying _ => true
  | _ => false

/-- A step can be taken. -/
def Enabled (c : Config κ) (s : State κ) : Label κ → Prop
  | .tick => True
  | .sleep k => (s.sleeps k).deadline = none
  | .poll k => (s.sleeps k).pc = .idle ∧ (s.sleeps k).deadline ≠ none
  | .access k => (s.sleeps k).pc.active = true
  | .expire k => (s.sleeps k).kernel.due s.now = true
  | .start => s.phase = .starting
  | .receive k => s.phase = .waiting ∧ (s.sleeps k).pc = .blocked
  | .reply => s.phase.isReplying = true
  | .signal k => s.phase = .waiting ∧ (s.sleeps k).kernel.isSignalled = true ∧
      c.handle k ∈ s.server.handles
  | .wake k => s.phase.wakes (c.handle k) = true

instance (c : Config κ) (s : State κ) (l : Label κ) : Decidable (Enabled c s l) :=
  match l with
  | .tick => inferInstanceAs (Decidable True)
  | .sleep k => inferInstanceAs (Decidable ((s.sleeps k).deadline = none))
  | .poll k => inferInstanceAs (Decidable ((s.sleeps k).pc = .idle ∧ (s.sleeps k).deadline ≠ none))
  | .access k => inferInstanceAs (Decidable ((s.sleeps k).pc.active = true))
  | .expire k => inferInstanceAs (Decidable ((s.sleeps k).kernel.due s.now = true))
  | .start => inferInstanceAs (Decidable (s.phase = .starting))
  | .receive k => inferInstanceAs (Decidable (s.phase = .waiting ∧ (s.sleeps k).pc = .blocked))
  | .reply => inferInstanceAs (Decidable (s.phase.isReplying = true))
  | .signal k => inferInstanceAs (Decidable (s.phase = .waiting ∧
      (s.sleeps k).kernel.isSignalled = true ∧ c.handle k ∈ s.server.handles))
  | .wake k => inferInstanceAs (Decidable (s.phase.wakes (c.handle k) = true))

/-- The sleeps before they are called, and the reactor before its thread has run. -/
def system (c : Config κ) : LTS (State κ) (Label κ) where
  init := ⟨0, fun _ => ⟨none, none, .idle, .absent, []⟩, .new, .starting⟩
  Enabled := Enabled c
  fire := fire c

instance (c : Config κ) (s : State κ) (l : Label κ) : Decidable ((system c).Enabled s l) :=
  inferInstanceAs (Decidable (Enabled c s l))

/-! ### The protocol of one sleep -/

/-- What of a state concerns one sleep. -/
structure View where
  now : ℕ
  sleep : Sleep
  /-- The server waits for the timer. -/
  listed : Bool
  /-- The tokens to wake for it. -/
  tokens : Option (List TaskToken)
  /-- The reactor is about to reply to its request. -/
  replying : Bool
  /-- The reactor is about to wake its task. -/
  waking : Bool

/-- The view of the sleep `k`. -/
def State.view (c : Config κ) (s : State κ) (k : κ) : View where
  now := s.now
  sleep := s.sleeps k
  listed := decide (c.handle k ∈ s.server.handles)
  tokens := s.server.waitTokens (c.handle k)
  replying := decide (s.phase = .replying k)
  waking := decide (s.phase = .waking (c.handle k) [c.task k])

/-- The clock was read at `cur`, before the deadline. -/
def View.ReadAt (v : View) (time cur : ℕ) : Prop :=
  ∃ d, v.sleep.deadline = some d ∧ cur < d ∧ cur ≤ v.now ∧ d ≤ cur + time

/-- What is known at each place of a poll. -/
def PcInv (time : ℕ) (v : View) : Prop :=
  match v.sleep.pc with
  | .idle | .read | .ready =>
    v.sleep.timer = none ∧ v.sleep.kernel = .absent ∧ v.listed = false ∨
      v.sleep.timer ≠ none ∧ v.sleep.kernel.expiry?.isSome = true ∧ v.listed = true
  | .create cur => v.sleep.timer = none ∧ v.sleep.kernel = .absent ∧ v.listed = false ∧
      v.ReadAt time cur
  | .arm cur => v.sleep.timer = none ∧ v.sleep.kernel = .stopped ∧ v.listed = false ∧
      v.ReadAt time cur
  | .request | .panicked => v.sleep.timer = none ∧ v.sleep.kernel.expiry?.isSome = true ∧
      v.listed = false
  | .blocked => v.sleep.timer = none ∧ v.sleep.kernel.expiry?.isSome = true ∧
      v.listed = v.replying
  | .store => v.sleep.timer = none ∧ v.sleep.kernel.expiry?.isSome = true ∧ v.listed = true

/-- **The protocol between a sleep, its timer and the reactor.** -/
structure SleepInv (task : TaskToken) (time : ℕ) (v : View) : Prop where
  uncalled : v.sleep.deadline = none → v.sleep.pc = .idle ∧ v.sleep.timer = none
  called : ∀ d, v.sleep.deadline = some d →
    ∃ n, .called n ∈ v.sleep.log ∧ d = n + time ∧ n ≤ v.now
  pc : PcInv time v
  replying : v.replying = true → v.sleep.pc = .blocked
  /-- The timer runs out after the deadline, by as much as it was armed after the clock was read. -/
  armed : ∀ e, v.sleep.kernel.expiry? = some e → ∃ d cur n, v.sleep.deadline = some d ∧
    .armed cur n ∈ v.sleep.log ∧ cur < d ∧ cur ≤ n ∧ e + cur = d + n
  past : ∀ e, v.sleep.kernel = .signalled e ∨ v.sleep.kernel = .spent e → e ≤ v.now
  /-- The reactor waits for timers it was asked for. -/
  spent : v.sleep.kernel.isSpent = true → v.listed = true
  tokens : v.tokens =
    if v.listed = true ∧ v.sleep.kernel.isSpent = false then some [task] else none
  /-- A spent timer has been answered, or is being answered, by one wake. -/
  answered : v.sleep.log.countP Event.isWoke + v.waking.toNat = v.sleep.kernel.isSpent.toNat
  woke : ∀ t n, .woke t n ∈ v.sleep.log → t = task ∧
    ∃ e, v.sleep.kernel.expiry? = some e ∧ e ≤ n
  ready : ∀ n, .ready n ∈ v.sleep.log → ∃ d, v.sleep.deadline = some d ∧ d ≤ n

section Local

variable {task : TaskToken} {time : ℕ} {v : View}

/-- The clock advances. -/
theorem sleepInv_tick (h : SleepInv task time v) :
    SleepInv task time { v with now := v.now + 1 } := by
  refine { h with called := fun d hd => ?_, pc := ?_, past := fun e he => ?_ }
  · obtain ⟨n, hn, hdn, hle⟩ := h.called d hd
    exact ⟨n, hn, hdn, Nat.le_succ_of_le hle⟩
  · have hread : ∀ cur, v.ReadAt time cur → View.ReadAt { v with now := v.now + 1 } time cur := by
      rintro cur ⟨d, hd, hlt, hle, hbound⟩
      exact ⟨d, hd, hlt, Nat.le_succ_of_le hle, hbound⟩
    have hp := h.pc
    unfold PcInv at hp ⊢
    cases hpc : v.sleep.pc with
    | create cur | arm cur =>
      rw [hpc] at hp
      exact ⟨hp.1, hp.2.1, hp.2.2.1, hread cur hp.2.2.2⟩
    | _ =>
      rw [hpc] at hp
      exact hp
  · exact Nat.le_succ_of_le (h.past e he)

/-- `sleep` is called: nothing was done for this sleep before. -/
theorem sleepInv_call (h : SleepInv task time v) (hnone : v.sleep.deadline = none) :
    SleepInv task time { v with sleep := { v.sleep with
      deadline := some (v.now + time), log := .called v.now :: v.sleep.log } } := by
  obtain ⟨hidle, htimer⟩ := h.uncalled hnone
  have hp := h.pc
  rw [PcInv, hidle] at hp
  have hfresh := hp.resolve_right fun hr => hr.1 htimer
  have hready : ∀ n, .ready n ∉ v.sleep.log := by
    intro n hn
    obtain ⟨d, hd, -⟩ := h.ready n hn
    simp [hnone] at hd
  refine ⟨by simp, fun d hd => ⟨v.now, List.mem_cons_self .., ?_, Nat.le_refl _⟩, ?_, h.replying,
    fun e he => ?_, h.past, h.spent, h.tokens, ?_, fun t n hm => ?_, fun n hm => ?_⟩
  · exact (Option.some.inj hd).symm
  · simp only [PcInv, hidle]
    exact .inl hfresh
  · simp only [hfresh.2.1, Timer.expiry?, reduceCtorEq] at he
  · simpa [Event.isWoke] using h.answered
  · exact h.woke t n (by simpa using hm)
  · exact absurd (by simpa using hm) (hready n)

/-- A poll moves on, and touches nothing else. -/
theorem SleepInv.move {pc : PollPc} (h : SleepInv task time v) (hcalled : v.sleep.deadline ≠ none)
    (hpc : PcInv time { v with sleep := { v.sleep with pc := pc } })
    (hreply : v.replying = true → pc = .blocked) :
    SleepInv task time { v with sleep := { v.sleep with pc := pc } } :=
  { h with uncalled := fun hn => absurd hn hcalled, pc := hpc, replying := hreply }

theorem sleepInv_poll (h : SleepInv task time v) (hidle : v.sleep.pc = .idle)
    (hcalled : v.sleep.deadline ≠ none) :
    SleepInv task time { v with sleep := { v.sleep with pc := .read } } := by
  refine h.move hcalled ?_ fun hr => ?_
  · have hp := h.pc
    rwa [PcInv, hidle] at hp
  · rw [h.replying hr] at hidle
    cases hidle

/-- The reactor is not replying to a poll that does not wait for it. -/
theorem SleepInv.not_replying (h : SleepInv task time v) (hpc : v.sleep.pc ≠ .blocked) :
    v.replying = false := by
  rw [Bool.eq_false_iff]
  exact fun hr => hpc (h.replying hr)

/-- `Instant::now()`: the sleep is over, or its timer is still to be made, or it is waited for. -/
theorem sleepInv_read (h : SleepInv task time v) (hpc : v.sleep.pc = .read) :
    SleepInv task time { v with sleep := readClock v.now v.sleep } := by
  have hrep := h.not_replying (by simp [hpc])
  have hp := h.pc
  rw [PcInv, hpc] at hp
  have hcalled : v.sleep.deadline ≠ none := by
    intro hn
    rw [(h.uncalled hn).1] at hpc
    cases hpc
  obtain ⟨d, hd⟩ := Option.ne_none_iff_exists'.1 hcalled
  by_cases hle : d ≤ v.now
  · have hstep : readClock v.now v.sleep =
        { v.sleep with pc := .ready, log := .ready v.now :: v.sleep.log } := by
      simp [readClock, hd, hle]
    rw [hstep]
    refine ⟨fun hn => absurd hn hcalled, fun d' hd' => ?_, hp, by simp [hrep], fun e he => ?_,
      h.past, h.spent, h.tokens, ?_, fun t n hm => h.woke t n (by simpa using hm), fun n hm => ?_⟩
    · obtain ⟨n, hn, hrest⟩ := h.called d' hd'
      exact ⟨n, List.mem_cons_of_mem _ hn, hrest⟩
    · obtain ⟨d', cur, n, hd', ha, hrest⟩ := h.armed e he
      exact ⟨d', cur, n, hd', List.mem_cons_of_mem _ ha, hrest⟩
    · simpa [Event.isWoke] using h.answered
    · rcases List.mem_cons.1 hm with he | hm
      · rw [Event.ready.inj he]
        exact ⟨d, hd, hle⟩
      · exact h.ready n hm
  · cases htimer : v.sleep.timer with
    | none =>
      have hstep : readClock v.now v.sleep = { v.sleep with pc := .create v.now } := by
        simp [readClock, hd, hle, htimer]
      have hfresh := hp.resolve_right fun hr => hr.1 htimer
      obtain ⟨n, -, hdn, hn⟩ := h.called d hd
      rw [hstep]
      exact h.move hcalled
        ⟨hfresh.1, hfresh.2.1, hfresh.2.2, d, hd, by omega, Nat.le_refl _, by omega⟩
        (by simp [hrep])
    | some t =>
      have hstep : readClock v.now v.sleep = { v.sleep with pc := .idle } := by
        simp [readClock, hd, hle, htimer]
      rw [hstep]
      exact h.move hcalled hp (by simp [hrep])

/-- `svcSetTimer`: the timer runs out as much after the deadline as it was armed after the clock
was read. -/
theorem sleepInv_arm {cur : ℕ} (h : SleepInv task time v) (hpc : v.sleep.pc = .arm cur)
    (htime : time < 2 ^ 63) :
    SleepInv task time { v with sleep := armTimer v.now cur v.sleep } := by
  have hrep := h.not_replying (by simp [hpc])
  have hp := h.pc
  rw [PcInv, hpc] at hp
  obtain ⟨htimer, hkernel, hlisted, d, hd, hlt, hle, hbound⟩ := hp
  have hset : setTimer v.now (d - cur) = .armed (v.now + (d - cur)) := by
    simp [setTimer, i64_eq_self (show d - cur < 2 ^ 63 by omega)]
  have hstep : armTimer v.now cur v.sleep = { v.sleep with
      kernel := .armed (v.now + (d - cur)), pc := .request
      log := .armed cur v.now :: v.sleep.log } := by
    simp [armTimer, hd, hset]
  rw [hstep]
  have hwoke : ∀ t n, .woke t n ∉ v.sleep.log := by
    intro t n hm
    obtain ⟨-, e, he, -⟩ := h.woke t n hm
    simp [hkernel, Timer.expiry?] at he
  refine ⟨fun hn => ?_, fun d' hd' => ?_, ⟨htimer, rfl, hlisted⟩, by simp [hrep], fun e he => ?_,
    by simp, by simp [Timer.isSpent], ?_, ?_, fun t n hm => ?_,
    fun n hm => h.ready n (by simpa using hm)⟩
  · simp [hd] at hn
  · obtain ⟨n, hn, hrest⟩ := h.called d' hd'
    exact ⟨n, List.mem_cons_of_mem _ hn, hrest⟩
  · obtain rfl : v.now + (d - cur) = e := Option.some.inj he
    exact ⟨d, cur, v.now, hd, List.mem_cons_self .., hlt, hle, by omega⟩
  · have := h.tokens
    simpa [hlisted] using this
  · have := h.answered
    rw [hkernel] at this
    simpa [Event.isWoke, Timer.isSpent] using this
  · exact absurd (by simpa using hm) (hwoke t n)

/-- `svcCreateTimer`. -/
theorem sleepInv_create {cur : ℕ} (h : SleepInv task time v) (hpc : v.sleep.pc = .create cur) :
    SleepInv task time
      { v with sleep := { v.sleep with kernel := .stopped, pc := .arm cur } } := by
  have hrep := h.not_replying (by simp [hpc])
  have hp := h.pc
  rw [PcInv, hpc] at hp
  obtain ⟨htimer, hkernel, hlisted, hread⟩ := hp
  have htokens := h.tokens
  have hansw := h.answered
  rw [hkernel] at htokens hansw
  refine ⟨fun hn => ?_, h.called, ⟨htimer, rfl, hlisted, hread⟩, by simp [hrep],
    by simp [Timer.expiry?], by simp, by simp [Timer.isSpent], htokens, hansw, fun t n hm => ?_,
    h.ready⟩
  · obtain ⟨d, hd, -⟩ := hread
    exact absurd (hn.symm.trans hd) (by simp)
  · obtain ⟨-, e, he, -⟩ := h.woke t n hm
    simp [hkernel, Timer.expiry?] at he

/-- The request is sent, or there is no port to send it to. -/
theorem sleepInv_request {pc : PollPc} (h : SleepInv task time v) (hpc : v.sleep.pc = .request)
    (hnew : pc = .blocked ∨ pc = .panicked) :
    SleepInv task time { v with sleep := { v.sleep with pc := pc } } := by
  have hrep := h.not_replying (by simp [hpc])
  have hcalled : v.sleep.deadline ≠ none := by
    intro hn
    rw [(h.uncalled hn).1] at hpc
    cases hpc
  have hp := h.pc
  rw [PcInv, hpc] at hp
  refine h.move hcalled ?_ (by simp [hrep])
  rcases hnew with rfl | rfl
  · exact ⟨hp.1, hp.2.1, hp.2.2.trans hrep.symm⟩
  · exact hp

/-- `self.timer = Some(timer)`. -/
theorem sleepInv_store (h : SleepInv task time v) (hpc : v.sleep.pc = .store) (handle : OSHandle) :
    SleepInv task time
      { v with sleep := { v.sleep with timer := some handle, pc := .idle } } := by
  have hrep := h.not_replying (by simp [hpc])
  have hp := h.pc
  rw [PcInv, hpc] at hp
  refine { h with uncalled := fun hn => ?_, pc := .inr ⟨by simp, hp.2⟩, replying := by simp [hrep] }
  rw [(h.uncalled hn).1] at hpc
  cases hpc

/-- The kernel signals the timer. -/
theorem sleepInv_expire (h : SleepInv task time v) (hdue : v.sleep.kernel.due v.now = true) :
    SleepInv task time
      { v with sleep := { v.sleep with kernel := v.sleep.kernel.expire } } := by
  cases hk : v.sleep.kernel with
  | armed e =>
    have hle : e ≤ v.now := by simpa [hk, Timer.due] using hdue
    have hp := h.pc
    have harmed := h.armed
    have htokens := h.tokens
    have hansw := h.answered
    have hwoke := h.woke
    rw [hk] at harmed htokens hansw hwoke
    refine ⟨h.uncalled, h.called, ?_, h.replying, harmed, ?_, by simp [Timer.expire, Timer.isSpent],
      htokens, hansw, hwoke, h.ready⟩
    · unfold PcInv at hp ⊢
      cases hpc : v.sleep.pc <;> rw [hpc] at hp <;> simp_all [Timer.expire, Timer.expiry?]
    · rintro e' (he | he)
      · exact (Timer.signalled.inj he) ▸ hle
      · cases he
  | _ => simp [hk, Timer.due] at hdue

/-- The request is handled: the server waits for the timer. -/
theorem sleepInv_receive (h : SleepInv task time v) (hpc : v.sleep.pc = .blocked)
    (hrep : v.replying = false) :
    SleepInv task time { v with
      listed := true, tokens := some (v.tokens.getD [] ++ [task]), replying := true } := by
  have hp := h.pc
  rw [PcInv, hpc] at hp
  have hlisted : v.listed = false := hp.2.2.trans hrep
  have hspent : v.sleep.kernel.isSpent = false := by
    rw [Bool.eq_false_iff]
    exact fun hs => Bool.false_ne_true (hlisted.symm.trans (h.spent hs))
  refine { h with pc := ?_, replying := fun _ => hpc, spent := fun _ => rfl, tokens := ?_ }
  · simpa [PcInv, hpc] using ⟨hp.1, hp.2.1⟩
  · have := h.tokens
    simp [hlisted] at this
    simp [this, hspent]

/-- The poll goes on after the reply. -/
theorem sleepInv_reply (h : SleepInv task time v) (hrep : v.replying = true) :
    SleepInv task time
      { v with sleep := { v.sleep with pc := .store }, replying := false } := by
  have hpc := h.replying hrep
  have hp := h.pc
  rw [PcInv, hpc] at hp
  refine { h with uncalled := fun hn => ?_, pc := ?_, replying := by simp }
  · rw [(h.uncalled hn).1] at hpc
    cases hpc
  · exact ⟨hp.1, hp.2.1, hp.2.2.trans hrep⟩

/-- A listed timer that is signalled has its task's token in the map. -/
theorem SleepInv.tokens_eq (h : SleepInv task time v)
    (hsig : v.sleep.kernel.isSignalled = true) (hlisted : v.listed = true) :
    v.tokens = some [task] := by
  have hspent : v.sleep.kernel.isSpent = false := by
    cases hk : v.sleep.kernel <;> simp_all [Timer.isSignalled, Timer.isSpent]
  rw [h.tokens, if_pos ⟨hlisted, hspent⟩]

/-- The reactor's wait returns with the timer: its token is taken out of the map. -/
theorem sleepInv_signal (h : SleepInv task time v) (hsig : v.sleep.kernel.isSignalled = true)
    (hlisted : v.listed = true) (hwaking : v.waking = false) :
    SleepInv task time { v with
      sleep := { v.sleep with kernel := v.sleep.kernel.reset }, tokens := none,
      waking := true } := by
  cases hk : v.sleep.kernel with
  | signalled e =>
    have hp := h.pc
    have harmed := h.armed
    have hansw := h.answered
    have hwoke := h.woke
    rw [hk] at harmed hansw hwoke
    refine ⟨h.uncalled, h.called, ?_, h.replying, harmed, ?_, fun _ => hlisted, ?_, ?_, hwoke,
      h.ready⟩
    · unfold PcInv at hp ⊢
      cases hpc : v.sleep.pc <;> rw [hpc] at hp <;> simp_all [Timer.reset, Timer.expiry?]
    · rintro e' (he | he)
      · cases he
      · exact (Timer.spent.inj he) ▸ h.past e (.inl hk)
    · simp [Timer.reset, Timer.isSpent]
    · simpa [hwaking, Timer.isSpent, Timer.reset] using hansw
  | _ => simp [hk, Timer.isSignalled] at hsig

/-- The reactor wakes the task. -/
theorem sleepInv_wake (h : SleepInv task time v) (hwaking : v.waking = true) :
    SleepInv task time { v with
      sleep := { v.sleep with log := .woke task v.now :: v.sleep.log }, waking := false } := by
  have hansw := h.answered
  rw [hwaking] at hansw
  -- the timer of a task that is being woken is spent
  obtain ⟨e, hk⟩ : ∃ e, v.sleep.kernel = .spent e := by
    cases hk : v.sleep.kernel <;> simp [hk, Timer.isSpent] at hansw
    exact ⟨_, rfl⟩
  refine ⟨h.uncalled, fun d hd => ?_, h.pc, h.replying, fun e he => ?_, h.past, h.spent, h.tokens,
    ?_, fun t n hm => ?_, fun n hm => h.ready n (by simpa using hm)⟩
  · obtain ⟨n, hn, hrest⟩ := h.called d hd
    exact ⟨n, List.mem_cons_of_mem _ hn, hrest⟩
  · obtain ⟨d, cur, n, hd, ha, hrest⟩ := h.armed e he
    exact ⟨d, cur, n, hd, List.mem_cons_of_mem _ ha, hrest⟩
  · rw [List.countP_cons_of_pos rfl]
    exact hansw
  · rcases List.mem_cons.1 hm with he | hm
    · obtain ⟨rfl, rfl⟩ := Event.woke.inj he
      exact ⟨rfl, e, by rw [hk]; rfl, h.past e (.inr hk)⟩
    · exact h.woke t n hm

end Local

end Reactor

end BunnyDs
