import BunnyDs.LTS.OnceCells

/-!
# Starting the runtime

`RuntimeConfiguration::run` sets the global `OnceLock`s of the library and starts its threads, which
read them; so does everything that an application calls later.  All reads are `get().unwrap()`.
The main thread sets every global before it starts whoever reads it, with two exceptions:
`REACTOR_PORT` is set by the reactor's own thread, and `SOCKET_SERVICES` is set only if the
configuration asks for it.  All globals but one are set with `get_or_init`, or with a `set` whose
result is ignored; `init_pool` unwraps the result of `ASYNC_FS_POOL.set`, and an application may
call it, and `init_sdmc`, again.

`Startup.code` is what each activity does to the globals: the main thread, the executor, the
reactor, the file workers, and the tasks and threads of any application.  What the main thread does
when `run` has returned is one of these.  The calls into the system are taken to succeed.  Not
covered is what an application does before `run`, in the main thread or in threads that it starts.

* `Startup.checked` : each activity, alone, passes the check of `OnceCells`.
* `Startup.run_safe` : **in every interleaving, a panic on a global is that of an activity of the
  application which sleeps before the reactor has set `REACTOR_PORT`, which uses sockets that were
  not enabled, or which starts the file pool again**.
-/

namespace BunnyDs

namespace Startup

/-- The globals. -/
inductive Global where
  /-- `EXECUTOR_PORT`. -/
  | executorPort
  /-- `TASK_QUEUE`. -/
  | taskQueue
  /-- `WAKE_QUEUE`. -/
  | wakeQueue
  /-- `REACTOR_PORT`. -/
  | reactorPort
  /-- `SOCKET_SERVICES`. -/
  | socketServices
  /-- `FS_SESSION`. -/
  | fsSession
  /-- `ASYNC_FS_POOL`. -/
  | asyncFsPool
  /-- `SDMC_ARCHIVE_HANDLE`. -/
  | sdmcArchiveHandle
  deriving DecidableEq

/-- `RuntimeConfiguration`. -/
structure RuntimeConfiguration where
  fsWorkers : ℕ
  enableSoc : Bool

/-- Who runs: the threads of the library, and the tasks and threads `τ` of the application. -/
inductive Activity (n : ℕ) (τ : Type*) where
  | main
  | executor
  | reactor
  | worker (id : Fin n)
  | task (t : τ)
  deriving DecidableEq

/-- What a task or a thread of the application may call, by the globals that the call reads or
sets.  A second `RuntimeConfiguration::run` is a sequence of these calls. -/
inductive Api (τ : Type*) where
  /-- `spawn`, `spawn_and_block` and `Runtime::block_on`. -/
  | spawn (t : τ)
  /-- A thread is started: by `spawn_blocking`, by `AsyncTcpSocket::connect` or
  `AsyncTcpListener::accept`, as the worker of a socket, or by a `run_thread`. -/
  | thread (t : τ)
  /-- A waker, `OneshotSender::send` and `drop`, `DsLock::unlock`, `NotificationSender::notify`,
  `ExecutorSession::wake`, or the end of a task that is joined. -/
  | wake
  /-- The first poll of a `Sleep` before its deadline. -/
  | sleep
  /-- `fs::open`. -/
  | openFile
  /-- The first poll of a file operation. -/
  | fileOp
  /-- A function of `TcpSocket` or `TcpListener`, or the drop of a socket. -/
  | socket
  /-- The futures of `AsyncTcpSocket::connect` and `AsyncTcpListener::accept`, when they are
  ready. -/
  | connected
  /-- `Executor::new`. -/
  | executorNew
  /-- A turn of `Executor::run`. -/
  | executorTurn
  /-- `Reactor::run`, before its loop. -/
  | reactorRun
  /-- `net::init`. -/
  | netInit
  /-- `init_pool`, whose workers are the threads `ws`. -/
  | initPool (ws : List τ)
  /-- `init_sdmc`, whose workers are the threads `ws`. -/
  | initSdmc (ws : List τ)
  deriving DecidableEq

/-- The call starts the file pool. -/
def Api.startsPool {τ : Type*} : Api τ → Bool
  | .initPool _ | .initSdmc _ => true
  | _ => false

/-- The calls that a task or a thread makes in a run, first once and then again and again. -/
structure Calls (τ : Type*) where
  once : List (Api τ)
  loop : List (Api τ)

variable {τ : Type*} {n : ℕ}

/-- All calls of a task. -/
def Calls.all (c : Calls τ) : List (Api τ) := c.once ++ c.loop

/-- `Executor::new`. -/
def executorNew : List (OnceCells.Act Global (Activity n τ)) :=
  [.init .executorPort, .init .taskQueue, .init .wakeQueue]

/-- A turn of `ExecutorHandler::run`: it drains one of the queues, which one is up to the
semaphores. -/
def executorTurn : List (OnceCells.Act Global (Activity n τ)) :=
  [.need .wakeQueue, .need .taskQueue]

/-- `Reactor::run`, before its loop. -/
def reactorRun : List (OnceCells.Act Global (Activity n τ)) := [.init .reactorPort]

/-- `net::init`: nothing is done if `SOCKET_SERVICES` is set. -/
def netInit : List (OnceCells.Act Global (Activity n τ)) := [.init .socketServices]

/-- `init_pool`, with its workers. -/
def initPool (ws : List (Activity n τ)) : List (OnceCells.Act Global (Activity n τ)) :=
  [.set .asyncFsPool, .need .executorPort] ++ ws.map .start

/-- `init_sdmc`. -/
def initSdmc (ws : List (Activity n τ)) : List (OnceCells.Act Global (Activity n τ)) :=
  [.init .fsSession] ++ initPool ws ++ [.init .sdmcArchiveHandle]

/-- The actions of a call. -/
def Api.acts : Api τ → List (OnceCells.Act Global (Activity n τ))
  | .spawn t => [.need .taskQueue, .start (.task t)]
  | .thread t => [.start (.task t)]
  | .wake => [.need .wakeQueue]
  | .sleep => [.need .reactorPort]
  | .openFile => [.need .fsSession, .need .sdmcArchiveHandle]
  | .fileOp => [.need .asyncFsPool]
  | .socket => [.need .socketServices]
  | .connected => [.need .executorPort]
  | .executorNew => Startup.executorNew
  | .executorTurn => Startup.executorTurn
  | .reactorRun => Startup.reactorRun
  | .netInit => Startup.netInit
  | .initPool ws => Startup.initPool (ws.map .task)
  | .initSdmc ws => Startup.initSdmc (ws.map .task)

/-- `RuntimeConfiguration::run`. -/
def run (cfg : RuntimeConfiguration) : List (OnceCells.Act Global (Activity cfg.fsWorkers τ)) :=
  executorNew ++ [.start .executor, .start .reactor] ++ (if cfg.enableSoc then netInit else []) ++
    initSdmc ((List.finRange cfg.fsWorkers).map .worker)

/-- What each activity does to the globals.  When `run` has returned, the main thread goes on as the
activity `first` of the application. -/
def code (cfg : RuntimeConfiguration) (app : τ → Calls τ) (first : τ) :
    Activity cfg.fsWorkers τ → OnceCells.Code Global (Activity cfg.fsWorkers τ)
  | .main => ⟨run cfg ++ [.start (.task first)], []⟩
  | .executor => ⟨[], executorTurn⟩
  -- after `Reactor::run`, `handle_additional_oshandle`
  | .reactor => ⟨reactorRun, [.need .wakeQueue]⟩
  -- `IoWorker::run`
  | .worker _ => ⟨[.need .asyncFsPool], [.need .wakeQueue]⟩
  | .task t => ⟨(app t).once.flatMap Api.acts, (app t).loop.flatMap Api.acts⟩

/-- The runtime with an application whose first activity is `first`.  A task that panics takes the
executor with it; here the others go on, which only adds runs. -/
def system [DecidableEq τ] (cfg : RuntimeConfiguration) (app : τ → Calls τ) (first : τ) :
    LTS (OnceCells.State Global (Activity cfg.fsWorkers τ)) (Activity cfg.fsWorkers τ) :=
  OnceCells.system (code cfg app first) .main

instance [DecidableEq τ] (cfg : RuntimeConfiguration) (app : τ → Calls τ) (first : τ)
    (s : OnceCells.State Global (Activity cfg.fsWorkers τ)) (a : Activity cfg.fsWorkers τ) :
    Decidable ((system cfg app first).Enabled s a) :=
  inferInstanceAs (Decidable ((OnceCells.system (code cfg app first) .main).Enabled s a))

/-! ### What each activity counts on -/

/-- What each activity counts on when it starts. -/
def known (cfg : RuntimeConfiguration) : Activity cfg.fsWorkers τ → Global → Bool
  | .main, _ => false
  | .executor, c | .reactor, c => c ∈ [.executorPort, .taskQueue, .wakeQueue]
  | .worker _, c => c ∈ [.executorPort, .taskQueue, .wakeQueue, .asyncFsPool]
  | .task _, .reactorPort => false
  | .task _, .socketServices => cfg.enableSoc
  | .task _, _ => true

/-- Who may find a global missing: a task that sleeps, and one that uses sockets which were not
enabled. -/
def excused [DecidableEq τ] (cfg : RuntimeConfiguration) (app : τ → Calls τ) :
    Activity cfg.fsWorkers τ → Global → Bool
  | .task t, .reactorPort => .sleep ∈ (app t).all
  | .task t, .socketServices => !cfg.enableSoc && decide (.socket ∈ (app t).all)
  | _, _ => false

/-! ### The check -/

/-- The threads of a pool are started when all that they count on is set. -/
theorem checks_starts {cfg : RuntimeConfiguration} {excused k : Global → Bool} {ω : Type*}
    {l : List (OnceCells.Act Global (Activity cfg.fsWorkers τ))}
    (f : ω → Activity cfg.fsWorkers τ) (ws : List ω)
    (hk : ∀ w c, known cfg (f w) c = true → k c = true)
    (hl : OnceCells.Checks (known cfg) excused k l) :
    OnceCells.Checks (known cfg) excused k ((ws.map f).map .start ++ l) := by
  refine OnceCells.Checks.starts (fun b hb c hc => ?_) hl
  obtain ⟨w, -, rfl⟩ := List.mem_map.1 hb
  exact hk w c hc

/-- The main thread sets each global before it starts whoever counts on it. -/
theorem checks_main (cfg : RuntimeConfiguration) (excused : Global → Bool) (first : τ) :
    OnceCells.Checks (known cfg) excused (fun _ => false)
      (run cfg ++ [.start (.task first)]) := by
  cases hsoc : cfg.enableSoc <;>
    simp only [run, hsoc, executorNew, netInit, initSdmc, initPool, List.cons_append,
      List.nil_append, List.append_assoc, OnceCells.Checks, if_true, Bool.false_eq_true, if_false]
  all_goals
    refine ⟨fun c hc => ?_, fun c hc => ?_, .inl rfl,
      checks_starts _ _ (fun w c hc => ?_) ⟨fun c hc => ?_, trivial⟩⟩
    -- the executor, the reactor and the workers
    iterate 3 (cases c <;> first | rfl | cases hc)
    · cases c <;> simp_all [known]

/-- All tasks count on the same globals. -/
theorem known_task {cfg : RuntimeConfiguration} (t t' : τ) :
    known cfg (.task t) = known cfg (.task t') := by
  funext c
  cases c <;> rfl

section Check

variable [DecidableEq τ] {cfg : RuntimeConfiguration} {app : τ → Calls τ} {first t : τ}

/-- A task finds what its calls read, or it is excused. -/
theorem checks_call {call : Api τ} (h : call ∈ (app t).all) :
    OnceCells.Checks (known cfg) (excused cfg app (.task t)) (known cfg (.task t)) call.acts := by
  cases call with
  | spawn t' => exact ⟨.inl rfl, fun c hc => known_task t' t ▸ hc, trivial⟩
  | thread t' => exact ⟨fun c hc => known_task t' t ▸ hc, trivial⟩
  | wake => exact ⟨.inl rfl, trivial⟩
  | sleep => exact ⟨.inr (by simpa [excused] using h), trivial⟩
  | openFile => exact ⟨.inl rfl, .inl rfl, trivial⟩
  | fileOp => exact ⟨.inl rfl, trivial⟩
  | socket =>
    refine ⟨?_, trivial⟩
    cases hsoc : cfg.enableSoc with
    | true => exact .inl hsoc
    | false => exact .inr (by simpa [excused, hsoc] using h)
  | connected => exact ⟨.inl rfl, trivial⟩
  | executorNew => trivial
  | executorTurn => exact ⟨.inl rfl, .inl rfl, trivial⟩
  | reactorRun => trivial
  | netInit => trivial
  | initPool ws =>
    refine ⟨.inl rfl, ?_⟩
    rw [← List.append_nil (List.map ..)]
    exact checks_starts _ ws
      (fun w c hc => OnceCells.le_update (known_task w t ▸ hc) .asyncFsPool) trivial
  | initSdmc ws =>
    refine ⟨.inl rfl, checks_starts _ ws (fun w c hc => ?_) trivial⟩
    exact OnceCells.le_update (OnceCells.le_update (known_task w t ▸ hc) .fsSession) .asyncFsPool

theorem checks_calls {calls : List (Api τ)} (h : ∀ call ∈ calls, call ∈ (app t).all) :
    OnceCells.Checks (known cfg) (excused cfg app (.task t)) (known cfg (.task t))
      (calls.flatMap Api.acts) := by
  induction calls with
  | nil => trivial
  | cons call calls ih =>
    have hrest := ih fun c hc => h c (List.mem_cons_of_mem _ hc)
    rw [List.flatMap_cons]
    exact (checks_call (h call List.mem_cons_self)).append
      (hrest.mono fun c => OnceCells.le_after _)

/-- **Every activity of the runtime passes the check**, whatever the application does. -/
theorem checked (cfg : RuntimeConfiguration) (app : τ → Calls τ) (first : τ) :
    OnceCells.Checked (code cfg app first) .main (known cfg) (excused cfg app) := by
  refine ⟨fun c => rfl, fun a => ?_, fun a => ?_⟩
  · cases a with
    | main => exact checks_main cfg _ first
    | executor => trivial
    | reactor => trivial
    | worker id => exact ⟨.inl rfl, trivial⟩
    | task t => exact checks_calls fun c hc => List.mem_append_left _ hc
  · cases a with
    | main => trivial
    | executor => exact ⟨.inl rfl, .inl rfl, trivial⟩
    | reactor => exact ⟨.inl rfl, trivial⟩
    | worker id => exact ⟨.inl rfl, trivial⟩
    | task t =>
      exact (checks_calls fun c hc => List.mem_append_right _ hc).mono fun c =>
        OnceCells.le_after _

end Check

/-! ### Which global may be set twice -/

theorem countP_starts {α : Type*} (c : Global) (bs : List α) :
    (bs.map OnceCells.Act.start).countP (OnceCells.Act.writes c) = 0 := by
  simp [List.countP_eq_zero, OnceCells.Act.writes]

/-- **The main thread is the first that sets the file pool**, and it does so once. -/
theorem first_pool (cfg : RuntimeConfiguration) (app : τ → Calls τ) (first : τ) :
    OnceCells.First (code cfg app first) (known cfg) .main .asyncFsPool := by
  refine ⟨?_, rfl, fun b hb act hact hw => ?_⟩
  · simp only [code, run, executorNew, netInit, initSdmc, initPool, List.countP_append,
      countP_starts]
    cases cfg.enableSoc <;> simp [OnceCells.Act.writes]
  · cases b with
    | main => exact absurd rfl hb
    | executor | reactor =>
      simp only [OnceCells.Code.acts, code, executorTurn, reactorRun, List.cons_append,
        List.nil_append, List.mem_cons, List.not_mem_nil, or_false] at hact
      rcases hact with rfl | rfl <;> cases hw
    | worker id => rfl
    | task t => rfl

/-- Only `init_pool` and `init_sdmc` may find a global set, and it is the pool. -/
theorem set_mem_acts {call : Api τ} {c : Global} (h : .set c ∈ call.acts (n := n)) :
    c = .asyncFsPool ∧ call.startsPool = true := by
  cases call <;>
    simp_all [Api.acts, executorNew, executorTurn, reactorRun, netInit, initPool, initSdmc,
      Api.startsPool]

theorem set_mem_run {cfg : RuntimeConfiguration} {c : Global}
    (h : .set c ∈ run (τ := τ) cfg) : c = .asyncFsPool := by
  cases hsoc : cfg.enableSoc <;> simp_all [run, executorNew, netInit, initPool, initSdmc]

/-- Who may find a global set: the main thread, and a task that starts the pool again. -/
theorem set_mem_code {cfg : RuntimeConfiguration} {app : τ → Calls τ} {first : τ} {c : Global}
    {a : Activity cfg.fsWorkers τ} (h : .set c ∈ (code cfg app first a).acts) :
    c = .asyncFsPool ∧ (a = .main ∨ ∃ t, a = .task t ∧ ∃ call ∈ (app t).all, call.startsPool) := by
  cases a with
  | main =>
    have hrun : .set c ∈ run (τ := τ) cfg := by simpa [OnceCells.Code.acts, code] using h
    exact ⟨set_mem_run hrun, .inl rfl⟩
  | executor | reactor | worker id =>
    simp [OnceCells.Code.acts, code, executorTurn, reactorRun] at h
  | task t =>
    rw [OnceCells.Code.acts, code, ← List.flatMap_append] at h
    obtain ⟨call, hcall, hset⟩ := List.mem_flatMap.1 h
    obtain ⟨hc, hpool⟩ := set_mem_acts hset
    exact ⟨hc, .inr ⟨t, rfl, call, hcall, hpool⟩⟩

/-! ### Starting is safe -/

/-- **Every global is set before it is read, and none is set twice**, in every run of every
application; except that a task may sleep too early, use sockets that were not enabled, or start the
file pool again. -/
theorem run_safe [DecidableEq τ] {cfg : RuntimeConfiguration} {app : τ → Calls τ} {first : τ}
    {s : OnceCells.State Global (Activity cfg.fsWorkers τ)}
    (h : (system cfg app first).Reachable s) {a : Activity cfg.fsWorkers τ}
    {p : OnceCells.Panic Global} (hp : s.panic a = some p) :
    ∃ t, a = .task t ∧
      (p = .missing .reactorPort ∧ .sleep ∈ (app t).all ∨
        p = .missing .socketServices ∧ cfg.enableSoc = false ∧ .socket ∈ (app t).all ∨
        p = .twice .asyncFsPool ∧ ∃ call ∈ (app t).all, call.startsPool) := by
  cases p with
  | twice c =>
    obtain ⟨rfl, rfl | ⟨t, rfl, hcall⟩⟩ := set_mem_code (OnceCells.mem_of_twice h hp)
    · exact absurd hp
        (OnceCells.not_twice (checked cfg app first) (first_pool cfg app first) h)
    · exact ⟨t, rfl, .inr (.inr ⟨rfl, hcall⟩)⟩
  | missing c =>
    have hexcused := OnceCells.excused_of_missing (checked cfg app first) h hp
    cases a with
    | task t =>
      cases c with
      | reactorPort => exact ⟨t, rfl, .inl ⟨rfl, by simpa [excused] using hexcused⟩⟩
      | socketServices => exact ⟨t, rfl, .inr (.inl ⟨rfl, by simpa [excused] using hexcused⟩)⟩
      | _ => cases hexcused
    | _ => cases hexcused

/-- The main thread spawns a task; the task opens a file, starts a thread, and sleeps.  The thread
calls `init_sdmc` with one worker more. -/
def earlySleep : Fin 4 → Calls (Fin 4)
  | 0 => ⟨[.spawn 1], []⟩
  | 1 => ⟨[.openFile, .thread 2, .sleep], []⟩
  | 2 => ⟨[.initSdmc [3]], []⟩
  | 3 => ⟨[.fileOp], [.wake]⟩

/-- The reactor was started but has not run yet: the sleep panics.  The pool was started: the thread
panics, too. -/
theorem run_safe_early : ∃ s : OnceCells.State Global (Activity 1 (Fin 4)),
    (system ⟨1, false⟩ earlySleep 0).Reachable s ∧
    (s.panic (.task 1) = some (.missing .reactorPort) ∧
      s.panic (.task 2) = some (.twice .asyncFsPool)) ∧
    .sleep ∈ (earlySleep 1).all ∧ ∃ call ∈ (earlySleep 2).all, call.startsPool := by
  obtain ⟨s, hs, hsleep, hpool⟩ := LTS.exists_of_exec (system ⟨1, false⟩ earlySleep 0)
    (fun _ _ => True)
    (List.replicate 11 .main ++ List.replicate 2 (.task 0) ++ List.replicate 4 (.task 1) ++
      List.replicate 2 (.task 2))
    (fun s => s.panic (.task 1) = some (.missing .reactorPort) ∧
      s.panic (.task 2) = some (.twice .asyncFsPool))
    (by decide +kernel)
  refine ⟨s, hs, ⟨hsleep, hpool⟩, ?_, ?_⟩
  · obtain ⟨t, ht, ⟨-, hmem⟩ | ⟨hp, -⟩ | ⟨hp, -⟩⟩ := run_safe hs hsleep
    · obtain rfl := Activity.task.inj ht
      exact hmem
    all_goals cases hp
  · obtain ⟨t, ht, ⟨hp, -⟩ | ⟨hp, -⟩ | ⟨-, hmem⟩⟩ := run_safe hs hpool
    · cases hp
    · cases hp
    · obtain rfl := Activity.task.inj ht
      exact hmem

end Startup

end BunnyDs
