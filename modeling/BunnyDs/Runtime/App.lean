import BunnyDs.Runtime.Channels
import BunnyDs.Runtime.Files
import BunnyDs.Runtime.Sockets
import BunnyDs.Runtime.System
import BunnyDs.Runtime.Timers
import Mathlib.Data.Fintype.Card

/-!
# A whole application

Everything a task of this runtime can await, side by side: the receivers of any number of oneshot
channels, any number of file operations on the worker pool, any number of sleeps on the reactor, and
any number of futures on each of any number of sockets.  Each of them keeps `Leaves.Contract`, so
together they do, and `Runtime.Inv.at_rest` applies.

* `Runtime.App` : the tasks of an application and what they await.
* `Runtime.App.Regular` : what is assumed of a run: that the tasks have tokens of their own, that
  the file service answers as assumed and the file workers keep pace, that the reactor has started
  when a sleep needs it, and that no `poll` of a socket fails.
* `Runtime.App.waits_for_outside` : **when the runtime has come to rest, every task that was spawned
  has ended or waits for something outside of it**: for a sender that nobody has used, for a timer
  that has not run out, or for a socket that is not ready.  No task waits for a file operation.
-/

namespace BunnyDs

namespace Runtime

/-- The parts of the runtime that wake tasks: one for each channel and each socket. -/
inductive Part (Ch So : Type) where
  | channel (ch : Ch)
  | files
  | sleeps
  | socket (so : So)
  deriving DecidableEq

namespace Part

variable {Ch So : Type}

/-- The leaves of a part. -/
def Leaf (ι Sl Sf : Type) : Part Ch So → Type
  | .channel _ => Unit
  | .files => ι
  | .sleeps => Sl
  | .socket _ => Sf

/-- Its wake calls. -/
def Call (ι Sl Sf : Type) : Part Ch So → Type
  | .channel _ => Oneshot.Call
  | .files => ι
  | .sleeps => Sl
  | .socket _ => Sf × ℕ

/-- Its states. -/
def State (T : Ch → Type) (ι κ Sl Sf : Type) : Part Ch So → Type
  | .channel ch => Oneshot.State (T ch)
  | .files => FileFutures.State ι κ
  | .sleeps => Reactor.State Sl
  | .socket _ => SocketFutures.State Sf

/-- Its steps. -/
def Label (T : Ch → Type) (ι κ Sl Sf : Type) : Part Ch So → Type
  | .channel ch => Oneshot.Label (T ch)
  | .files => FileFutures.Label ι κ
  | .sleeps => Reactor.Label Sl
  | .socket _ => SocketFutures.Label Sf

variable {ι Sl Sf : Type} [DecidableEq ι] [DecidableEq Sl] [DecidableEq Sf]

instance (p : Part Ch So) : DecidableEq (p.Leaf ι Sl Sf) :=
  match p with
  | .channel _ => inferInstanceAs (DecidableEq Unit)
  | .files => inferInstanceAs (DecidableEq ι)
  | .sleeps => inferInstanceAs (DecidableEq Sl)
  | .socket _ => inferInstanceAs (DecidableEq Sf)

instance (p : Part Ch So) : DecidableEq (p.Call ι Sl Sf) :=
  match p with
  | .channel _ => inferInstanceAs (DecidableEq Oneshot.Call)
  | .files => inferInstanceAs (DecidableEq ι)
  | .sleeps => inferInstanceAs (DecidableEq Sl)
  | .socket _ => inferInstanceAs (DecidableEq (Sf × ℕ))

end Part

/-- What an application awaits: the channels `Ch`, the file operations `ι`, the sleeps `Sl`, and on
each of the sockets `So` the futures `Sf`. -/
structure Services (Ch ι Sl So Sf : Type) where
  /-- The task that awaits the receiver of a channel. -/
  rx : Ch → TaskToken
  ctru : Ctru
  msg : ι → FileFutures.AsyncFsMsg
  sleeps : Reactor.Config Sl
  time_lt : ∀ k, sleeps.time k < 2 ^ 63
  /-- The task and the kind of a future of a socket. -/
  reg : So → Sf → TaskToken × PollInterest

namespace Services

variable {Ch ι κ Sl So Sf : Type} {T : Ch → Type}
variable [DecidableEq ι] [DecidableEq κ] [DecidableEq Sl] [DecidableEq Sf]

/-- The task that awaits a leaf. -/
def task (v : Services Ch ι Sl So Sf) : (Σ p : Part Ch So, p.Leaf ι Sl Sf) → TaskToken
  | ⟨.channel ch, _⟩ => v.rx ch
  | ⟨.files, i⟩ => (v.msg i).task
  | ⟨.sleeps, k⟩ => v.sleeps.task k
  | ⟨.socket so, k⟩ => (v.reg so k).1

/-- The leaves of one part; the channels carry values of `T`, and `κ` are the file workers. -/
def part (T : Ch → Type) (κ : Type) [DecidableEq κ] (v : Services Ch ι Sl So Sf) :
    ∀ p : Part Ch So, Leaves (p.Leaf ι Sl Sf) (p.Call ι Sl Sf) TaskToken
      (p.State T ι κ Sl Sf) (p.Label T ι κ Sl Sf)
  | .channel ch => Oneshot.leaves (T ch) (v.rx ch)
  | .files => FileFutures.leaves κ v.ctru v.msg
  | .sleeps => Reactor.leaves v.sleeps
  | .socket so => SocketFutures.leaves (v.reg so)

theorem part_contract [Fintype κ] (v : Services Ch ι Sl So Sf) (p : Part Ch So) :
    (v.part T κ p).Contract := by
  cases p with
  | channel ch => exact Oneshot.contract (T ch) (v.rx ch)
  | files => exact FileFutures.contract v.ctru v.msg
  | sleeps => exact Reactor.contract v.time_lt
  | socket so => exact SocketFutures.contract (v.reg so)

/-- What a task can be left waiting for. -/
inductive WaitsFor (v : Services Ch ι Sl So Sf) (s : ∀ p : Part Ch So, p.State T ι κ Sl Sf) :
    (Σ p : Part Ch So, p.Leaf ι Sl Sf) → Prop
  /-- A sender that was neither used nor dropped. -/
  | sender (ch : Ch) : (s (.channel ch) : Oneshot.State (T ch)).tx = .idle →
      WaitsFor v s ⟨.channel ch, ()⟩
  /-- A timer that has not run out. -/
  | timer (k : Sl) (e : ℕ) : ((s .sleeps : Reactor.State Sl).sleeps k).kernel.expiry? = some e →
      (s .sleeps : Reactor.State Sl).now < e → WaitsFor v s ⟨.sleeps, k⟩
  /-- A socket that is not ready. -/
  | socket (so : So) (k : Sf) :
      (s (.socket so) : SocketFutures.State Sf).ready (v.reg so k).2 = false →
      WaitsFor v s ⟨.socket so, k⟩

variable [DecidableEq Ch] [DecidableEq So]

/-- Everything that can be awaited. -/
def leaves (T : Ch → Type) (κ : Type) [DecidableEq κ] (v : Services Ch ι Sl So Sf) :
    Leaves (Σ p : Part Ch So, p.Leaf ι Sl Sf) (Σ p : Part Ch So, p.Call ι Sl Sf) TaskToken
      (∀ p : Part Ch So, p.State T ι κ Sl Sf) (Σ p : Part Ch So, p.Label T ι κ Sl Sf) :=
  .pi (v.part T κ)

theorem leaves_task (v : Services Ch ι Sl So Sf) (k : Σ p : Part Ch So, p.Leaf ι Sl Sf) :
    (v.leaves T κ).task k = v.task k := by
  obtain ⟨p, k⟩ := k
  cases p <;> rfl

/-- A pending leaf whose event has not happened waits for the outside. -/
theorem waitsFor_of_not_fired {v : Services Ch ι Sl So Sf}
    {s : ∀ p : Part Ch So, p.State T ι κ Sl Sf}
    {t : Track (Σ p : Part Ch So, p.Leaf ι Sl Sf) (Σ p : Part Ch So, p.Call ι Sl Sf)}
    (h : (v.leaves T κ).Run s t) (hq : (v.leaves T κ).Quiet s)
    {k : Σ p : Part Ch So, p.Leaf ι Sl Sf} (hbegun : t.begun k = true)
    (hidle : (v.leaves T κ).status s k = .idle) (hnot : ¬ (v.leaves T κ).Fired s k) :
    v.WaitsFor s k := by
  obtain ⟨p, k⟩ := k
  have hrun := Leaves.Run.part h p
  have hq := hq p
  cases p with
  | channel ch =>
    have hi : Oneshot.Inv (v.rx ch) (s (.channel ch) : Oneshot.State (T ch)) :=
      Oneshot.inv_reachable hrun.reachableBy
    refine .sender ch ?_
    rw [hi.at_rest hq]
    exact if_neg hnot
  | files => exact absurd trivial hnot
  | sleeps =>
    have hi : Reactor.Inv v.sleeps (s .sleeps) := Reactor.inv_run v.time_lt hrun
    obtain ⟨-, -, e, he⟩ := (Reactor.tracked_run v.time_lt hrun).listed hi hbegun hidle
    exact .timer k e he (Nat.lt_of_not_le fun hle => hnot ⟨e, he, hle⟩)
  | socket so => exact .socket so k (Bool.eq_false_iff.2 hnot)

end Services

/-- An application: its tasks `F`, what they await, and the calls `X` that wake tasks besides. -/
structure App (F X Ch ι Sl So Sf : Type) extends Services Ch ι Sl So Sf where
  tok : F → TaskToken
  tok_injective : Function.Injective tok
  /-- The first leaf of a task. -/
  start : F → Option (Σ p : Part Ch So, p.Leaf ι Sl Sf)
  start_own : ∀ fut k, start fut = some k → toServices.task k = tok fut
  ext : X → TaskToken

namespace App

variable {F X Ch ι κ Sl So Sf : Type} {T : Ch → Type}
variable [DecidableEq F] [DecidableEq X] [DecidableEq Ch] [DecidableEq ι] [DecidableEq κ]
  [DecidableEq Sl] [DecidableEq So] [DecidableEq Sf] [Fintype κ]

/-- The application on the runtime. -/
def program (T : Ch → Type) (κ : Type) [DecidableEq κ] [Fintype κ] (a : App F X Ch ι Sl So Sf) :
    Program F (Σ p : Part Ch So, p.Leaf ι Sl Sf) (Σ p : Part Ch So, p.Call ι Sl Sf) X
      (∀ p : Part Ch So, p.State T ι κ Sl Sf) (Σ p : Part Ch So, p.Label T ι κ Sl Sf) where
  leaves := a.leaves T κ
  contract := .pi a.part_contract
  tok := a.tok
  tok_injective := a.tok_injective
  start := a.start
  start_own fut k h := (a.leaves_task k).trans (a.start_own fut k h)
  ext := a.ext

/-- **What is assumed of a run of an application.** -/
def Regular (a : App F X Ch ι Sl So Sf)
    (s : Runtime.State F (Σ p : Part Ch So, p.Leaf ι Sl Sf) (Σ p : Part Ch So, p.Call ι Sl Sf) X
      (∀ p : Part Ch So, p.State T ι κ Sl Sf)) :
    Runtime.Label F (Σ p : Part Ch So, p.Leaf ι Sl Sf) (Σ p : Part Ch So, p.Call ι Sl Sf) X
      (Σ p : Part Ch So, p.Label T ι κ Sl Sf) → Prop
  -- every task has a token of its own
  | .exec l => Executor.Numbered a.tok s.exec l
  -- the file service answers as assumed, and the counts of the pool keep pace with its queue
  | .leaf ⟨.files, l⟩ => FileFutures.AssumedOn a.ctru a.msg Pool.Paced (s.leaves .files) l
  -- the reactor has started when a sleep needs it
  | .leaf ⟨.sleeps, l⟩ => Reactor.Started (s.leaves .sleeps) l
  -- no worker of a socket panics at a `poll` that fails
  | .leaf ⟨.socket so, l⟩ => SocketFutures.PollsOk (s.leaves (.socket so)) l
  | .leaf ⟨.channel _, _⟩ | .advance _ _ => True

omit [DecidableEq F] [DecidableEq X] in
theorem Regular.program {a : App F X Ch ι Sl So Sf}
    {s : Runtime.State F (Σ p : Part Ch So, p.Leaf ι Sl Sf) (Σ p : Part Ch So, p.Call ι Sl Sf) X
      (∀ p : Part Ch So, p.State T ι κ Sl Sf)}
    {l : Runtime.Label F (Σ p : Part Ch So, p.Leaf ι Sl Sf) (Σ p : Part Ch So, p.Call ι Sl Sf) X
      (Σ p : Part Ch So, p.Label T ι κ Sl Sf)} (h : a.Regular s l) :
    Runtime.Regular (a.program T κ) s l := by
  cases l with
  | exec l => exact h
  | advance fut next => exact h
  | leaf l =>
    obtain ⟨p, l⟩ := l
    cases p <;> exact h

/-- **A runtime at rest waits for the outside world only.**  In any run of any application that
keeps to `Regular`, of its tasks, the executor, the file workers, the reactor and the socket
workers: when all of them have come to rest, a task that was spawned was ready at its end, or awaits
a channel whose sender nobody has used, a timer that has not run out, or a socket that is not ready
for its call. -/
theorem waits_for_outside (a : App F X Ch ι Sl So Sf)
    {s : Runtime.State F (Σ p : Part Ch So, p.Leaf ι Sl Sf) (Σ p : Part Ch So, p.Call ι Sl Sf) X
      (∀ p : Part Ch So, p.State T ι κ Sl Sf)}
    (h : (system (a.program T κ)).ReachableBy a.Regular s) (hrest : AtRest (a.program T κ) s)
    {fut : F} (hspawned : s.exec.taskQueue.adds fut = .returned) :
    s.current fut = none ∧ .polled fut true ∈ s.exec.log ∨
      ∃ k, s.current fut = some k ∧ a.WaitsFor s.leaves k := by
  have hi := inv_reachable (h.mono fun _ _ hok => hok.program)
  refine (hi.at_rest hrest hspawned).imp_right ?_
  rintro ⟨k, hk, hbegun, hidle, hnot⟩
  exact ⟨k, hk, Services.waitsFor_of_not_fired hi.leaves hrest.quiet hbegun hidle hnot⟩

instance [∀ ch, DecidableEq (T ch)] (a : App F X Ch ι Sl So Sf)
    (s : ∀ p : Part Ch So, p.State T ι κ Sl Sf) (l : Σ p : Part Ch So, p.Label T ι κ Sl Sf) :
    Decidable ((a.program T κ).leaves.sys.Enabled s l) :=
  match l with
  | ⟨.channel ch, l⟩ => Oneshot.decidableEnabled (a.rx ch) (s (.channel ch)) l
  | ⟨.files, l⟩ => FileFutures.decidableEnabled a.ctru a.msg (s .files) l
  | ⟨.sleeps, l⟩ => Reactor.decidableEnabled a.sleeps (s .sleeps) l
  | ⟨.socket so, l⟩ => SocketFutures.decidableEnabled (a.reg so) (s (.socket so)) l

instance (a : App F X Ch ι Sl So Sf)
    (s : Runtime.State F (Σ p : Part Ch So, p.Leaf ι Sl Sf) (Σ p : Part Ch So, p.Call ι Sl Sf) X
      (∀ p : Part Ch So, p.State T ι κ Sl Sf))
    (l : Runtime.Label F (Σ p : Part Ch So, p.Leaf ι Sl Sf) (Σ p : Part Ch So, p.Call ι Sl Sf) X
      (Σ p : Part Ch So, p.Label T ι κ Sl Sf)) : Decidable (a.Regular s l) :=
  match l with
  | .exec l => inferInstanceAs (Decidable (Executor.Numbered a.tok s.exec l))
  | .leaf ⟨.files, l⟩ => FileFutures.decidableOk a.ctru a.msg (s.leaves .files) l
  | .leaf ⟨.sleeps, l⟩ => Reactor.decidableOk a.sleeps (s.leaves .sleeps) l
  | .leaf ⟨.socket so, l⟩ => SocketFutures.decidableOk (a.reg so) (s.leaves (.socket so)) l
  | .leaf ⟨.channel _, _⟩ | .advance _ _ => inferInstanceAs (Decidable True)

instance [Fintype Ch] [Fintype Sl] [Fintype So] (a : App F X Ch ι Sl So Sf)
    (s : ∀ p : Part Ch So, p.State T ι κ Sl Sf) : Decidable ((a.program T κ).leaves.Quiet s) :=
  have (ch : Ch) := Oneshot.decidableQuiet (a.rx ch) (s (.channel ch))
  have := FileFutures.decidableQuiet a.ctru a.msg (s .files)
  have := Reactor.decidableQuiet a.sleeps (s .sleeps)
  have (so : So) := SocketFutures.decidableQuiet (a.reg so) (s (.socket so))
  decidable_of_iff ((∀ ch, (Oneshot.leaves (T ch) (a.rx ch)).Quiet (s (.channel ch))) ∧
      (FileFutures.leaves κ a.ctru a.msg).Quiet (s .files) ∧
      (Reactor.leaves a.sleeps).Quiet (s .sleeps) ∧
      ∀ so, (SocketFutures.leaves (a.reg so)).Quiet (s (.socket so))) (by
    refine ⟨fun h p => ?_, fun h => ⟨fun ch => h (.channel ch), h .files, h .sleeps,
      fun so => h (.socket so)⟩⟩
    cases p with
    | channel ch => exact h.1 ch
    | files => exact h.2.1
    | sleeps => exact h.2.2.1
    | socket so => exact h.2.2.2 so)

/-- Two tasks: the first one flushes a file and then reads from a socket, the second one awaits a
channel. -/
def twoTasks : App (Fin 2) Empty Unit (Fin 1) (Fin 1) Unit (Fin 1) where
  rx _ := ⟨1⟩
  ctru := .libctru
  msg _ := .flush ⟨7, ⟨0⟩, 0x120, 0x124⟩
  sleeps := ⟨fun _ => ⟨0⟩, fun _ => 40, fun _ _ _ => Subsingleton.elim _ _, fun _ => 3⟩
  time_lt := by decide
  reg _ _ := (⟨0⟩, .read)
  tok fut := ⟨UInt32.ofNat fut⟩
  tok_injective := by
    intro i j
    revert i j
    decide
  start := ![some ⟨.files, (0 : Fin 1)⟩, some ⟨.channel (), ()⟩]
  start_own := by
    refine Fin.forall_fin_two.2 ⟨?_, ?_⟩ <;> intro k hk <;> obtain rfl := Option.some.inj hk <;> rfl
  ext := Empty.elim

/-- The states of the runtime with these tasks, one file worker, and a channel of truth values. -/
abbrev TwoTasksState := Runtime.State (Fin 2)
  (Σ p : Part Unit Unit, p.Leaf (Fin 1) (Fin 1) (Fin 1))
  (Σ p : Part Unit Unit, p.Call (Fin 1) (Fin 1) (Fin 1)) Empty
  (∀ p : Part Unit Unit, p.State (fun _ => Bool) (Fin 1) (Fin 1) (Fin 1) (Fin 1))

/-- Both tasks are spawned and polled, the file worker and the sender wake them, the second task
ends and the first one goes on to the socket, whose worker polls it. -/
def twoTasksRun : List (Runtime.Label (Fin 2) (Σ p : Part Unit Unit, p.Leaf (Fin 1) (Fin 1) (Fin 1))
    (Σ p : Part Unit Unit, p.Call (Fin 1) (Fin 1) (Fin 1)) Empty
    (Σ p : Part Unit Unit, p.Label (fun _ => Bool) (Fin 1) (Fin 1) (Fin 1) (Fin 1))) :=
  let file (l : FileFutures.Label (Fin 1) (Fin 1)) := .leaf ⟨.files, l⟩
  let chan (l : Oneshot.Label Bool) := .leaf ⟨.channel (), l⟩
  let sock (l : SocketFutures.Label (Fin 1)) := .leaf ⟨.socket (), l⟩
  let release (p : Part Unit Unit) (w : p.Call (Fin 1) (Fin 1) (Fin 1)) :=
    .exec (.releaseWake (.inl ⟨p, w⟩))
  [.leaf ⟨.sleeps, Reactor.Label.start⟩,
    .exec (.pushTask 0), .exec (.releaseTask 0), .exec .wait, .exec .remove, .exec .poll,
    file (.poll 0), file (.access 0), file (.access 0), file (.access 0), file (.access 0),
    .exec (.finish false), .exec .remove,
    .exec (.pushTask 1), .exec (.releaseTask 1), .exec .wait, .exec .remove, .exec .poll,
    chan .poll, chan .rx, chan .rx, .exec (.finish false), .exec .remove,
    file (.take 0), file (.remove 0), file (.execute 0 (.reply 0 0)), file (.store 0),
    file (.store 0), file (.wake 0), release .files (0 : Fin 1),
    chan (.send true), chan .tx, chan .tx, chan .tx, chan .tx, chan .tx,
    release (.channel ()) Oneshot.Call.send, chan .tx, chan .tx, chan .tx, chan .tx,
    release (.channel ()) Oneshot.Call.drop,
    .exec .wait, .exec .remove, .exec .poll, chan .poll, chan .rx, chan .rx, chan .rx,
    .advance 1 none, .exec (.finish true), .exec .remove, .exec .poll, .exec .remove, .exec .poll,
    file (.poll 0), file (.access 0), file (.access 0), .advance 0 (some ⟨.socket (), (0 : Fin 1)⟩),
    sock (.recv 0 (.error (.libc .eagain))), sock (.push 0), sock (.release 0),
    .exec (.finish false), .exec .remove, .exec .wait, .exec .remove, .exec .wait, .exec .remove,
    sock .worker, sock .worker, sock .worker, sock .worker, sock .worker, sock .worker]

/-- The first task is left with a socket that is not ready, and the second one has ended. -/
theorem waits_for_outside_two : ∃ s : TwoTasksState,
    (system (twoTasks.program (fun _ => Bool) (Fin 1))).ReachableBy twoTasks.Regular s ∧
    AtRest (twoTasks.program (fun _ => Bool) (Fin 1)) s ∧
    s.current 0 = some ⟨.socket (), (0 : Fin 1)⟩ ∧
    ∀ fut, s.current fut = none ∧ .polled fut true ∈ s.exec.log ∨
      ∃ k, s.current fut = some k ∧ twoTasks.WaitsFor s.leaves k := by
  obtain ⟨s, hs, hspawned, hrest, hcurrent⟩ :=
    LTS.exists_of_exec (system (twoTasks.program (fun _ => Bool) (Fin 1))) twoTasks.Regular
      twoTasksRun
      (fun s : TwoTasksState => (∀ fut, s.exec.taskQueue.adds fut = .returned) ∧
        AtRest (twoTasks.program (fun _ => Bool) (Fin 1)) s ∧
        s.current 0 = some ⟨.socket (), (0 : Fin 1)⟩) (by decide +kernel)
  exact ⟨s, hs, hrest, hcurrent, fun fut => waits_for_outside twoTasks hs hrest (hspawned fut)⟩

end App

end Runtime

end BunnyDs
