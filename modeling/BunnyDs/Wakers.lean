import BunnyDs.Fs.Futures
import BunnyDs.Sync.Cancellation
import BunnyDs.Sync.Notification
import BunnyDs.Sync.Oneshot

/-!
# Whom a leaf future wakes

A future may be polled by one task and then awaited by another, so the waker that counts is the
one of the most recent poll.  The leaf futures of the crate keep the token of their **first** poll:
`OneshotReceiver` in a write-once cell, `NotificationWaiter` in a word that is only written while
it is `NOTIFICATION_UNINIT`, `LockFut` in the list of waiters, and the file futures inside the
operation they submit.

`Leaf` is the part that these have in common: polls by any tasks, and the event waited for with the
tokens it adds to `WAKE_QUEUE`.  A `LockFut` shares its lock with other users, so its polls are
looked at in every run of calls on one mutex.  `wakes_latest_iff` says for each kind of future when
the event wakes the latest poller; `wakes_first` is a run in which it wakes somebody else.
-/

namespace BunnyDs

/-- The event woke the task of the most recent poll, and nobody else. -/
def WakesLatest (tokens : List TaskToken) (latest : TaskToken) : Prop :=
  tokens ≠ [] ∧ ∀ token ∈ tokens, token = latest

instance (tokens : List TaskToken) (latest : TaskToken) : Decidable (WakesLatest tokens latest) :=
  inferInstanceAs (Decidable (tokens ≠ [] ∧ ∀ token ∈ tokens, token = latest))

theorem wakesLatest_singleton {token latest : TaskToken} :
    WakesLatest [token] latest ↔ token = latest := by
  simp [WakesLatest]

/-- At most one token is kept, and some tokens are not woken. -/
theorem wakesLatest_filter {kept : Option TaskToken} {woken : TaskToken → Bool}
    {latest : TaskToken} :
    WakesLatest (kept.filter woken).toList latest ↔ kept = some latest ∧ woken latest = true := by
  cases kept with
  | none => simp [WakesLatest]
  | some token =>
    by_cases hw : woken token = true
    · have hsome : ((some token).filter woken).toList = [token] := by simp [Option.filter, hw]
      rw [hsome, wakesLatest_singleton, Option.some.injEq]
      exact ⟨fun he => ⟨he, he ▸ hw⟩, And.left⟩
    · have hnone : ((some token).filter woken).toList = [] := by simp [Option.filter, hw]
      rw [hnone]
      refine iff_of_false (fun h => h.1 rfl) ?_
      rintro ⟨he, hlatest⟩
      exact hw (Option.some.inj he ▸ hlatest)

/-! ### Leaf futures -/

/-- A future that waits for one event: `poll` by a task, which gives `none` unless it is
`Pending`, and the tokens that the event adds to `WAKE_QUEUE`. -/
structure Leaf (σ : Type*) where
  init : σ
  poll : TaskToken → σ → Option σ
  event : σ → List TaskToken

namespace Leaf

variable {σ : Type*} {L : Leaf σ}

/-- Pending polls by the tasks `ts`, in this order. -/
def polls (L : Leaf σ) (ts : List TaskToken) : Option σ :=
  ts.foldlM (fun s t => L.poll t s) L.init

theorem polls_concat (ts : List TaskToken) (t : TaskToken) :
    L.polls (ts ++ [t]) = (L.polls ts).bind (L.poll t) := by
  simp only [polls, List.foldlM_append, List.foldlM_cons, List.foldlM_nil, bind_pure]
  rfl

/-- What holds of a new future, and is kept by pending polls, holds after any number of them. -/
theorem polls_induction {I : List TaskToken → σ → Prop} (h₀ : I [] L.init)
    (hstep : ∀ ts t s s', I ts s → L.poll t s = some s' → I (ts ++ [t]) s') {ts : List TaskToken}
    {s : σ} (h : L.polls ts = some s) : I ts s := by
  induction ts using List.reverseRecOn generalizing s with
  | nil => exact (Option.some.inj h) ▸ h₀
  | append_singleton ts t ih =>
    rw [polls_concat] at h
    obtain ⟨s', hs', hp⟩ := Option.bind_eq_some_iff.1 h
    exact hstep ts t s' s (ih hs') hp

end Leaf

/-! ### `OneshotReceiver` -/

namespace Oneshot

variable {T : Type*}

/-- The token that was woken, if the event is a wake. -/
def Event.woken? : Event → Option TaskToken
  | .woke task => some task
  | .polled _ => none

/-- One whole poll by the task `t`, if it is pending. -/
def pollBy (t : TaskToken) (s : State T) : Option (State T) :=
  let s' := rxStep t (rxStep t (fire t s .poll))
  if s'.rx.polling then none else some s'

/-- The receiver, whose sender sends `v` and is dropped, or is only dropped. -/
def leaf (v : Option T) : Leaf (State T) where
  init := (system T ⟨0⟩).init
  poll := pollBy
  event s :=
    let s' := match v with
      | some v => fire ⟨0⟩ s (.send v)
      | none => fire ⟨0⟩ s .drop
    (txStep^[9] s').log.filterMap Event.woken?

/-- The write-once cell holds the token of the first poll. -/
theorem polls_leaf {v : Option T} {ts : List TaskToken} {s : State T}
    (h : (leaf v).polls ts = some s) :
    s.tx = .idle ∧ s.rx = .idle ∧ s.state = false ∧ s.rxTask = ts.head? ∧
      s.log.filterMap Event.woken? = [] := by
  refine Leaf.polls_induction (I := fun ts s => s.tx = .idle ∧ s.rx = .idle ∧ s.state = false ∧
    s.rxTask = ts.head? ∧ s.log.filterMap Event.woken? = []) ?_ ?_ h
  · exact ⟨rfl, rfl, rfl, rfl, rfl⟩
  · rintro ts t s s' ⟨htx, hrx, hst, htask, hlog⟩ hp
    simp only [leaf, pollBy, fire, rxStep, hst] at hp
    simp only [Bool.false_eq_true, if_false, Receiver.polling, Option.some.injEq] at hp
    subst hp
    refine ⟨htx, rfl, rfl, ?_, by simpa [Event.woken?] using hlog⟩
    simp [htask, List.head?_append]

/-- A whole `send`, and the drop after it, wake the stored token twice. -/
theorem log_send {s : State T} {v : T} {t : TaskToken} (hst : s.state = false)
    (htask : s.rxTask = some t) :
    (txStep^[9] (fire ⟨0⟩ s (.send v))).log = .woke t :: .woke t :: s.log := by
  obtain ⟨value, state, rxTask, tx, rx, sent, returned, log⟩ := s
  subst hst htask
  rfl

/-- A drop wakes it once. -/
theorem log_drop {s : State T} {t : TaskToken} (htask : s.rxTask = some t) :
    (txStep^[9] (fire ⟨0⟩ s .drop)).log = .woke t :: s.log := by
  obtain ⟨value, state, rxTask, tx, rx, sent, returned, log⟩ := s
  subst htask
  rfl

/-- The sender wakes the first poller: once if it sends, and once more when it is dropped. -/
theorem event_leaf {v : Option T} {t : TaskToken} {ts : List TaskToken} {s : State T}
    (h : (leaf v).polls (t :: ts) = some s) :
    (leaf v).event s = (v.map fun _ => t).toList ++ [t] := by
  obtain ⟨-, -, hst, htask, hlog⟩ := polls_leaf h
  rw [List.head?_cons] at htask
  cases v with
  | some v =>
    simp only [leaf, log_send hst htask, List.filterMap_cons, Event.woken?, hlog]
    rfl
  | none =>
    simp only [leaf, log_drop htask, List.filterMap_cons, Event.woken?, hlog]
    rfl

end Oneshot

/-! ### `NotificationWaiter` -/

namespace Notification

/-- The token that was woken, if the event is a wake. -/
def Event.woken? : Event → Option TaskToken
  | .woke task => some task
  | .polled _ _ => none

/-- One whole poll by the task `t`, if it is pending. -/
def pollBy (t : TaskToken) (s : State) : Option State :=
  let s' := rxStep t (rxStep t (fire t s .poll))
  match s'.log with
  | .polled _ false :: _ => some s'
  | _ => none

/-- The waiter, with its `notify`. -/
def leaf : Leaf State where
  init := (system ⟨0⟩).init
  poll := pollBy
  event s := (txStep^[3] (fire ⟨0⟩ s .notify)).log.filterMap Event.woken?

/-- The first of the tokens that the word can tell from `NOTIFICATION_UNINIT`. -/
def kept (ts : List TaskToken) : Option TaskToken := ts.find? (·.id ≠ uninit)

theorem kept_concat (ts : List TaskToken) (t : TaskToken) :
    kept (ts ++ [t]) = (kept ts).or (if t.id = uninit then none else some t) := by
  by_cases h : t.id = uninit <;> simp [kept, List.find?_append, h]

theorem id_of_kept {ts : List TaskToken} {t : TaskToken} (h : kept ts = some t) :
    t.id ≠ uninit := by
  simpa [kept] using List.find?_some h

/-- The word holds the token it has kept. -/
theorem polls_leaf {ts : List TaskToken} {s : State} (h : leaf.polls ts = some s) :
    s.tx = .idle ∧ s.rx = .idle ∧ s.word = ((kept ts).map TaskToken.id).getD uninit ∧
      s.log.filterMap Event.woken? = [] := by
  refine Leaf.polls_induction (I := fun ts s => s.tx = .idle ∧ s.rx = .idle ∧
    s.word = ((kept ts).map TaskToken.id).getD uninit ∧ s.log.filterMap Event.woken? = []) ?_ ?_ h
  · exact ⟨rfl, rfl, rfl, rfl⟩
  · rintro ts t s s' ⟨htx, hrx, hword, hlog⟩ hp
    simp only [leaf, pollBy, fire, rxStep] at hp
    rw [kept_concat]
    by_cases hr : s.word = ready
    · simp [hr] at hp
    · by_cases hu : s.word = uninit
      · -- the word is free: the token goes in, whatever it is
        have hk : kept ts = none := by
          cases hk : kept ts with
          | none => rfl
          | some x =>
            rw [hk, hu] at hword
            exact absurd hword.symm (id_of_kept hk)
        simp only [hu, if_true, if_false, show uninit ≠ ready by decide,
          Option.some.injEq] at hp
        subst hp
        refine ⟨htx, rfl, ?_, by simpa [Event.woken?] using hlog⟩
        by_cases ht : t.id = uninit <;> simp [hk, ht]
      · have hk : ∃ x, kept ts = some x := by
          cases hk : kept ts with
          | none => exact absurd (by simpa [hk] using hword) hu
          | some x => exact ⟨x, rfl⟩
        obtain ⟨x, hk⟩ := hk
        simp only [hr, hu, if_false, Option.some.injEq] at hp
        subst hp
        exact ⟨htx, rfl, by simpa [hk] using hword, by simpa [Event.woken?] using hlog⟩

/-- `notify` wakes the task whose token was kept, unless that token reads as
`NOTIFICATION_READY`. -/
theorem event_leaf {ts : List TaskToken} {s : State} (h : leaf.polls ts = some s) :
    leaf.event s = ((kept ts).filter (·.id ≠ ready)).toList := by
  obtain ⟨htx, hrx, hword, hlog⟩ := polls_leaf h
  cases hk : kept ts with
  | none =>
    rw [hk] at hword
    have hword : s.word = uninit := hword
    simp [leaf, fire, Function.iterate_succ, txStep, hword, hlog]
  | some x =>
    rw [hk] at hword
    have hword : s.word = x.id := hword
    have hu := id_of_kept hk
    by_cases hr : x.id = ready
    · simp [leaf, fire, Function.iterate_succ, txStep, hword, hr, hlog]
    · simp [leaf, fire, Function.iterate_succ, txStep, hword, hr, hu, Event.woken?, hlog,
        Option.filter]

end Notification

/-! ### File futures -/

namespace FileFutures

/-- The token that was woken, if the event is a wake. -/
def Event.woken? : Event → Option TaskToken
  | .woke task => some task
  | _ => none

/-- A `Read`, `Write` or `Flush` future, with what it will submit. -/
inductive FileOp where
  | read (file state result offset : UInt32) (len : ℕ) (dataPtr : UInt32) (len_lt : len < 2 ^ 31)
  | write (file state result offset : UInt32) (len : ℕ) (dataPtr : UInt32) (len_lt : len < 2 ^ 31)
  | flush (file state done : UInt32)

/-- The operation that is submitted by a poll of the task `t`. -/
def FileOp.msg (t : TaskToken) : FileOp → AsyncFsMsg
  | .read file state result offset len dataPtr len_lt =>
    .read ⟨file, t, state, result, offset, len, dataPtr, len_lt⟩
  | .write file state result offset len dataPtr len_lt =>
    .write ⟨file, t, state, result, offset, len, dataPtr, len_lt⟩
  | .flush file state done => .flush ⟨file, t, state, done⟩

theorem FileOp.msg_task (t : TaskToken) (op : FileOp) : (op.msg t).task = t := by
  cases op <;> rfl

/-- One whole poll by the task `t`, if it is pending; next to the future is the operation it has
submitted. -/
def pollBy (C : Ctru) (op : FileOp) (t : TaskToken) (p : Fut × Option AsyncFsMsg) :
    Option (Fut × Option AsyncFsMsg) :=
  let f := p.1.poll C (op.msg t)
  match f.log with
  | .polled none :: _ => some (f, p.2.or (some (op.msg t)))
  | _ => none

/-- The future, with a worker that completes its operation with the outcome `res`. -/
def leaf (C : Ctru) (op : FileOp) (res : BunnyResult ℕ) : Leaf (Fut × Option AsyncFsMsg) where
  init := (.new, none)
  poll := pollBy C op
  event p :=
    match p.2 with
    | some m => (p.1.serve m res).log.filterMap Event.woken?
    | none => []

/-- The operation that was submitted carries the token of the first poll. -/
theorem polls_leaf {C : Ctru} {op : FileOp} {res : BunnyResult ℕ} {ts : List TaskToken}
    {p : Fut × Option AsyncFsMsg} (h : (leaf C op res).polls ts = some p) :
    p.1.cells = .new ∧ p.1.registered = p.2.isSome ∧ p.2 = ts.head?.map op.msg ∧
      p.1.log.filterMap Event.woken? = [] := by
  refine Leaf.polls_induction (I := fun ts p => p.1.cells = .new ∧ p.1.registered = p.2.isSome ∧
    p.2 = ts.head?.map (FileOp.msg · op) ∧ p.1.log.filterMap Event.woken? = []) ?_ ?_ h
  · exact ⟨rfl, rfl, rfl, rfl⟩
  · rintro ts t ⟨f, sub⟩ p' ⟨hc, hreg, hsub, hlog⟩ hp
    simp only at hc hreg hsub hlog
    cases ts with
    | nil =>
      simp only [List.head?_nil, Option.map_none] at hsub
      subst hsub
      simp only [leaf, pollBy, Fut.poll_of_unregistered hc hreg, Option.some.injEq] at hp
      subst hp
      exact ⟨hc, rfl, rfl, by simpa [Event.woken?] using hlog⟩
    | cons t₀ ts =>
      simp only [List.head?_cons, Option.map_some] at hsub
      subst hsub
      simp only [leaf, pollBy, Fut.poll_of_registered hc hreg, Option.some.injEq] at hp
      subst hp
      exact ⟨hc, hreg, rfl, by simpa [Event.woken?] using hlog⟩

/-- The worker wakes the first poller. -/
theorem event_leaf {C : Ctru} {op : FileOp} {res : BunnyResult ℕ}
    (hres : (storeState res .new).isSome = true) {t : TaskToken} {ts : List TaskToken}
    {p : Fut × Option AsyncFsMsg} (h : (leaf C op res).polls (t :: ts) = some p) :
    (leaf C op res).event p = [t] := by
  obtain ⟨hc, -, hsub, hlog⟩ := polls_leaf h
  obtain ⟨cells, hcells⟩ := Option.isSome_iff_exists.1 hres
  rw [List.head?_cons, Option.map_some] at hsub
  rw [← hc] at hcells
  simp only [leaf, hsub, Fut.serve_eq hcells, List.filterMap_cons, hlog, Event.woken?,
    FileOp.msg_task]

end FileFutures

/-! ### `LockFut` -/

namespace DSMutex

variable {ι : Type*}

/-- The users of a mutex, with who registered each entry of the list of waiters, and with the
tokens of the first and of the latest poll of each user. -/
structure Pollers (ι : Type*) where
  users : Users ι
  owners : List ι
  first : ι → Option TaskToken
  latest : ι → Option TaskToken

/-- A new mutex. -/
def Pollers.new : Pollers ι := ⟨.new, [], fun _ => none, fun _ => none⟩

variable [DecidableEq ι]

/-- The next method that `i` calls; a lock attempt is polled by the task `t`. -/
def pollBy (p : Pollers ι) (i : ι) (t : TaskToken) : Pollers ι :=
  let users := call (fun _ => .task t) p.users i
  match p.users.stage i with
  | .fresh =>
    { users := users
      owners := if users.stage i = .waiting then p.owners ++ [i] else p.owners
      first := Function.update p.first i (some t)
      latest := Function.update p.latest i (some t) }
  | .waiting => { p with users := users, latest := Function.update p.latest i (some t) }
  | .holding =>
    { p with users := users, owners := if p.users.lock.arb < 0 then p.owners.tail else p.owners }
  | .released => p

/-- Calls of the users, each with the task that makes it. -/
def pollsBy (p : Pollers ι) (is : List (ι × TaskToken)) : Pollers ι :=
  is.foldl (fun p i => pollBy p i.1 i.2) p

/-- The tokens that the `unlock` of `i` adds to `WAKE_QUEUE`: a thread is signalled instead. -/
def unlockWakes (p : Pollers ι) (i : ι) : List TaskToken :=
  ((wakeOf p.users i).filter (· ≠ ⟨u32Max⟩)).toList

section

variable {p : Pollers ι}

omit [DecidableEq ι] in
/-- Every entry of the list of waiters is the token of its owner's first poll. -/
structure FirstKept (p : Pollers ι) : Prop where
  waiters : p.users.lock.waiters.map some = p.owners.map p.first
  polled : ∀ i ∈ p.owners, p.users.stage i ≠ .fresh

theorem firstKept_pollBy (h : FirstKept p) (i : ι) (t : TaskToken) : FirstKept (pollBy p i t) := by
  have hpolled : ∀ j ∈ p.owners, (call (fun _ => Kind.task t) p.users i).stage j ≠ .fresh :=
    fun j hj => call_stage_ne_fresh (h.polled j hj) i
  unfold pollBy
  cases hs : p.users.stage i with
  | fresh =>
    -- a user that has not been polled owns no entry yet
    have hi : ∀ j ∈ p.owners, Function.update p.first i (some t) j = p.first j := by
      intro j hj
      refine Function.update_of_ne ?_ _ _
      rintro rfl
      exact h.polled _ hj hs
    by_cases hpos : 0 < p.users.lock.arb
    · have hcall : call (fun _ => Kind.task t) p.users i =
          ⟨{ p.users.lock with arb := i32 (-p.users.lock.arb) },
            Function.update p.users.stage i .holding⟩ := by
        simp [call, hs, DsLock.tryLockAndRegister, hpos]
      refine ⟨?_, fun j hj => hpolled j ?_⟩
      · simpa [hcall, List.map_congr_left hi] using h.waiters
      · simpa [hcall] using hj
    · have hcall : call (fun _ => Kind.task t) p.users i =
          ⟨⟨i32 (p.users.lock.arb - 1), p.users.lock.waiters ++ [t]⟩,
            Function.update p.users.stage i .waiting⟩ := by
        simp [call, hs, DsLock.tryLockAndRegister, hpos, Kind.token]
      refine ⟨?_, fun j hj => ?_⟩
      · simp [hcall, List.map_congr_left hi, h.waiters]
      · have hj : j ∈ p.owners ∨ j = i := by simpa [hcall] using hj
        rcases hj with hj | rfl
        · exact hpolled j hj
        · simp [hcall]
  | waiting =>
    refine ⟨?_, hpolled⟩
    simp only [call, hs, DsLock.tryLockReleaseWaiter]
    split_ifs <;> exact h.waiters
  | holding =>
    simp only [call, hs, DsLock.unlock] at hpolled ⊢
    split_ifs at hpolled ⊢
    · refine ⟨?_, fun j hj => hpolled j (List.mem_of_mem_tail hj)⟩
      change p.users.lock.waiters.tail.map some = p.owners.tail.map p.first
      rw [List.map_tail, h.waiters, List.map_tail]
    · exact ⟨h.waiters, hpolled⟩
  | released => exact h

theorem firstKept_pollsBy (is : List (ι × TaskToken)) :
    FirstKept (pollsBy (.new : Pollers ι) is) := by
  induction is using List.reverseRecOn with
  | nil => exact ⟨rfl, by simp [pollsBy, Pollers.new]⟩
  | append_singleton is i ih =>
    rw [pollsBy, List.foldl_append]
    exact firstKept_pollBy ih i.1 i.2

omit [DecidableEq ι] in
/-- The `unlock` that pops the registration of `c` wakes the first poller of `c`; the marker of a
thread wakes none. -/
theorem unlockWakes_eq (h : FirstKept p) {i c : ι} (hi : p.users.stage i = .holding)
    (harb : p.users.lock.arb < 0) (hc : p.owners.head? = some c) {first : TaskToken}
    (hfirst : p.first c = some first) :
    unlockWakes p i = ((some first).filter (· ≠ ⟨u32Max⟩)).toList := by
  have hhead : p.users.lock.waiters.head? = some first := by
    have := congrArg List.head? h.waiters
    simpa [List.head?_map, hc, hfirst] using this
  have hwake : wakeOf p.users i = some first := by
    simp [wakeOf, hi, DsLock.unlock, harb, hhead]
  rw [unlockWakes, hwake]

end

end DSMutex

/-! ### All leaf futures -/

/-- **When a leaf future wakes its latest poller.**  After pending polls by the task `t` and then
by the tasks `ts`, the event wakes the latest of them exactly if it is also the one whose token the
future has kept: the first one; for a notification the first one with a token other than
`NOTIFICATION_UNINIT`, if it is not `NOTIFICATION_READY` either; for a lock attempt the first one,
if its token is not the marker of a thread. -/
theorem wakes_latest_iff {T ι : Type*} [DecidableEq ι] :
    (∀ (v : Option T) t ts s, (Oneshot.leaf v).polls (t :: ts) = some s →
      (WakesLatest ((Oneshot.leaf v).event s) ((t :: ts).getLast (List.cons_ne_nil t ts)) ↔
        t = (t :: ts).getLast (List.cons_ne_nil t ts))) ∧
    (∀ t ts s, Notification.leaf.polls (t :: ts) = some s →
      (WakesLatest (Notification.leaf.event s) ((t :: ts).getLast (List.cons_ne_nil t ts)) ↔
        Notification.kept (t :: ts) = some ((t :: ts).getLast (List.cons_ne_nil t ts)) ∧
        ((t :: ts).getLast (List.cons_ne_nil t ts)).id ≠ Notification.ready)) ∧
    (∀ is : List (ι × TaskToken), ∀ i c first latest,
      (DSMutex.pollsBy .new is).users.stage i = .holding →
      (DSMutex.pollsBy .new is).users.lock.arb < 0 →
      (DSMutex.pollsBy .new is).owners.head? = some c →
      (DSMutex.pollsBy .new is).first c = some first →
      (DSMutex.pollsBy .new is).latest c = some latest →
      (WakesLatest (DSMutex.unlockWakes (DSMutex.pollsBy .new is) i) latest ↔
        first = latest ∧ first ≠ ⟨u32Max⟩)) ∧
    ∀ (C : Ctru) (op : FileFutures.FileOp) res,
      (FileFutures.storeState res .new).isSome = true → ∀ t ts p,
      (FileFutures.leaf C op res).polls (t :: ts) = some p →
      (WakesLatest ((FileFutures.leaf C op res).event p)
          ((t :: ts).getLast (List.cons_ne_nil t ts)) ↔
        t = (t :: ts).getLast (List.cons_ne_nil t ts)) := by
  refine ⟨fun v t ts s h => ?_, fun t ts s h => ?_, fun is i c first latest hi harb hc hf _ => ?_,
    fun C op res hres t ts p h => ?_⟩
  · rw [Oneshot.event_leaf h]
    cases v <;> simp [WakesLatest]
  · rw [Notification.event_leaf h, wakesLatest_filter, decide_eq_true_iff]
  · rw [DSMutex.unlockWakes_eq (DSMutex.firstKept_pollsBy is) hi harb hc hf, wakesLatest_filter,
      decide_eq_true_iff, Option.some.injEq]
    exact and_congr_right fun he => by rw [he]
  · rw [FileFutures.event_leaf hres h, wakesLatest_singleton]

/-- Futures that stay with the task 1 wake it. -/
theorem wakes_latest_iff_same :
    (∃ s, (Oneshot.leaf (some 7)).polls [⟨1⟩, ⟨1⟩] = some s ∧
      WakesLatest ((Oneshot.leaf (some 7)).event s) ⟨1⟩) ∧
    (∃ s, Notification.leaf.polls [⟨1⟩, ⟨1⟩] = some s ∧
      WakesLatest (Notification.leaf.event s) ⟨1⟩) ∧
    WakesLatest (DSMutex.unlockWakes
      (DSMutex.pollsBy .new [((0 : Fin 2), ⟨9⟩), (1, ⟨1⟩), (1, ⟨1⟩)]) 0) ⟨1⟩ ∧
    ∃ p, (FileFutures.leaf .libctru (.flush 3 0x120 0x124) (.ok 0)).polls [⟨1⟩, ⟨1⟩] = some p ∧
      WakesLatest ((FileFutures.leaf .libctru (.flush 3 0x120 0x124) (.ok 0)).event p) ⟨1⟩ := by
  obtain ⟨honeshot, hnotification, hlock, hfile⟩ := wakes_latest_iff (T := ℕ) (ι := Fin 2)
  refine ⟨⟨_, rfl, (honeshot (some 7) ⟨1⟩ [⟨1⟩] _ rfl).2 rfl⟩,
    ⟨_, rfl, (hnotification ⟨1⟩ [⟨1⟩] _ rfl).2 (by decide)⟩,
    (hlock _ 0 1 ⟨1⟩ ⟨1⟩ (by decide) (by decide) (by decide) (by decide) (by decide)).2 (by decide),
    ⟨_, rfl, (hfile .libctru (.flush 3 0x120 0x124) (.ok 0) rfl ⟨1⟩ [⟨1⟩] _ rfl).2 rfl⟩⟩

/-- **The first poller is woken.**  Each of the futures is polled by the task 1, then moved to the
task 2 and polled there; the event wakes the task 1 only. -/
theorem wakes_first :
    (∃ s, (Oneshot.leaf (some 7)).polls [⟨1⟩, ⟨2⟩] = some s ∧
      (Oneshot.leaf (some 7)).event s = [⟨1⟩, ⟨1⟩] ∧
      ¬ WakesLatest ((Oneshot.leaf (some 7)).event s) ⟨2⟩) ∧
    (∃ s, Notification.leaf.polls [⟨1⟩, ⟨2⟩] = some s ∧ Notification.leaf.event s = [⟨1⟩] ∧
      ¬ WakesLatest (Notification.leaf.event s) ⟨2⟩) ∧
    ((DSMutex.pollsBy .new [((0 : Fin 2), ⟨9⟩), (1, ⟨1⟩), (1, ⟨2⟩)]).latest 1 = some ⟨2⟩ ∧
      DSMutex.unlockWakes
        (DSMutex.pollsBy .new [((0 : Fin 2), ⟨9⟩), (1, ⟨1⟩), (1, ⟨2⟩)]) 0 = [⟨1⟩] ∧
      ¬ WakesLatest (DSMutex.unlockWakes
        (DSMutex.pollsBy .new [((0 : Fin 2), ⟨9⟩), (1, ⟨1⟩), (1, ⟨2⟩)]) 0) ⟨2⟩) ∧
    ∃ p, (FileFutures.leaf .libctru (.flush 3 0x120 0x124) (.ok 0)).polls [⟨1⟩, ⟨2⟩] = some p ∧
      (FileFutures.leaf .libctru (.flush 3 0x120 0x124) (.ok 0)).event p = [⟨1⟩] ∧
      ¬ WakesLatest ((FileFutures.leaf .libctru (.flush 3 0x120 0x124) (.ok 0)).event p) ⟨2⟩ := by
  refine ⟨⟨_, rfl, by decide, by decide⟩, ⟨_, rfl, by decide, by decide⟩, by decide,
    ⟨_, rfl, by decide, by decide⟩⟩

end BunnyDs
