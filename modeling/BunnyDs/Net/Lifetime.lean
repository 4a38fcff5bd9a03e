import BunnyDs.Net.Interests
import Mathlib.Data.Fintype.Card

/-!
# The life of a connection

The descriptor of a connection is closed by `SocketHandle::drop`, when the last `Arc<TcpSocket>`
goes.  Every `AsyncTcpSocket` clone has one, and the worker thread that `connect` and `accept`
start has one; futures borrow a clone.  The worker gives its share up only when it panics: a worker
that sleeps in `interests_queue.wait` keeps the descriptor open when every clone is gone.

* `Arc.Shares` : a strong count that is right, and what it says about the destructor.
* `AsyncTcpSocket.Lifetime.system` : clones, futures and their drops around the worker of
  `BunnyDs.Net.Interests`.
* `AsyncTcpSocket.Lifetime.closes_eq` : the descriptor has been closed once if no clone is left and
  the worker has exited, and not at all otherwise.
* `AsyncTcpSocket.Lifetime.closed_when_done` : what has to hold at the drop of the last clone, and
  of the worker after it, for a finished connection to be closed.
-/

namespace BunnyDs

/-! ### Reference counts -/

/-- The strong count of an `Arc`, and how often its value was dropped. -/
structure Arc where
  strong : ℕ
  drops : ℕ
  deriving DecidableEq

namespace Arc

/-- `Arc::new`. -/
def new : Arc := ⟨1, 0⟩

/-- `Arc::clone`. -/
def clone (a : Arc) : Arc := { a with strong := a.strong + 1 }

/-- The drop of a share. -/
def drop (a : Arc) : Arc :=
  if a.strong = 1 then ⟨0, a.drops + 1⟩ else { a with strong := a.strong - 1 }

/-- There are `n` shares, and the value was dropped when there were none left. -/
def Shares (a : Arc) (n : ℕ) : Prop := a.strong = n ∧ a.drops = if n = 0 then 1 else 0

variable {a : Arc} {n : ℕ}

theorem shares_new : new.Shares 1 := ⟨rfl, rfl⟩

theorem Shares.clone (h : a.Shares n) (hn : n ≠ 0) : a.clone.Shares (n + 1) := by
  refine ⟨congrArg (· + 1) h.1, ?_⟩
  rw [if_neg (Nat.succ_ne_zero n)]
  exact h.2.trans (if_neg hn)

theorem Shares.drop (h : a.Shares (n + 1)) : a.drop.Shares n := by
  obtain ⟨hstrong, hdrops⟩ := h
  have hdrops : a.drops = 0 := hdrops
  unfold Arc.drop Shares
  cases n with
  | zero => simp [hstrong, hdrops]
  | succ n => simp [hstrong, hdrops]

end Arc

namespace AsyncTcpSocket

namespace Lifetime

/-! ### The system -/

/-- A socket, its clones `K` and the futures `F` on them. -/
structure State (R K F : Type*) where
  net : AsyncTcpSocket.State R
  clones : Finset K
  /-- The clone that a future borrows. -/
  futures : F → Option K
  /-- The `Arc<TcpSocket>`; its value is dropped by `SocketHandle::drop`, which sends `Close`. -/
  inner : Arc

/-- One step of a task or of the worker. -/
inductive Label (R K F : Type*) where
  /-- `AsyncTcpSocket::clone`. -/
  | clone (c c' : K)
  /-- A clone is dropped. -/
  | dropClone (c : K)
  /-- `recv` or `send` on a clone. -/
  | create (f : F) (c : K)
  /-- A future is dropped, ready or not. -/
  | dropFuture (f : F)
  /-- A step of a poll or of the worker. -/
  | net (l : AsyncTcpSocket.Label R)

variable {R K F : Type*}

/-- The registration whose poll makes the step. -/
def polled? : AsyncTcpSocket.Label R → Option R
  | .recv r _ | .send r _ | .release r => some r
  | .worker | .answer _ => none

variable [DecidableEq R] [DecidableEq K] [DecidableEq F]

/-- The share of a worker that has just exited is dropped. -/
def dropOnExit (before after : Phase) (inner : Arc) : Arc :=
  if after = .exited ∧ before ≠ .exited then inner.drop else inner

/-- The effect of a step. -/
def fire (reg : R → TaskToken × PollInterest) (s : State R K F) : Label R K F → State R K F
  | .clone _ c' => { s with clones := insert c' s.clones, inner := s.inner.clone }
  | .dropClone c => { s with clones := s.clones.erase c, inner := s.inner.drop }
  | .create f c => { s with futures := Function.update s.futures f (some c) }
  | .dropFuture f => { s with futures := Function.update s.futures f none }
  | .net l =>
    let net := AsyncTcpSocket.fire reg s.net l
    { s with net := net, inner := dropOnExit s.net.phase net.phase s.inner }

/-- A step can be taken: a clone is not dropped while a future borrows it, and a future is not
dropped during its poll.  `fut` tells which future makes a registration. -/
def Enabled (reg : R → TaskToken × PollInterest) (fut : R → F) (s : State R K F) :
    Label R K F → Prop
  | .clone c c' => c ∈ s.clones ∧ c' ∉ s.clones
  | .dropClone c => c ∈ s.clones ∧ ∀ f, s.futures f ≠ some c
  | .create f c => s.futures f = none ∧ c ∈ s.clones
  | .dropFuture f => s.futures f ≠ none ∧ ∀ r, fut r = f → s.net.queue.adds r ≠ .pushed
  | .net l => AsyncTcpSocket.Enabled reg s.net l ∧ ∀ r ∈ polled? l, s.futures (fut r) ≠ none

/-- A connection that `connect` or `accept` returned as the clone `c₀`, with its worker. -/
def system (reg : R → TaskToken × PollInterest) (fut : R → F) (c₀ : K) :
    LTS (State R K F) (Label R K F) where
  init := ⟨(AsyncTcpSocket.system reg).init, {c₀}, fun _ => none, Arc.new.clone⟩
  Enabled := Enabled reg fut
  fire := fire reg

/-- Nobody uses the socket any more. -/
def State.Unused (s : State R K F) : Prop := s.clones = ∅ ∧ ∀ f, s.futures f = none

/-- The worker is blocked in `interests_queue.wait`. -/
def State.Blocked (s : State R K F) : Prop :=
  s.net.phase = .waiting ∧ s.net.queue.queue.sem.count = 0

/-- **A finished connection is closed.** -/
structure Law (s : State R K F) : Prop where
  /-- `Close` is sent at most once. -/
  once : s.inner.drops ≤ 1
  /-- `Close` is not sent while a clone or a future exists. -/
  unused : s.inner.drops ≠ 0 → s.Unused
  /-- When the last user is gone and the worker has no step left, it has been sent. -/
  closed : s.Unused → s.net.phase = .exited ∨ s.Blocked → s.inner.drops = 1

/-- **The worker does not outlive its users asleep**: the last clone is not dropped while it is
blocked, and without a clone it does not go back to a wait at a count of zero. -/
def Reclaims (s : State R K F) : Label R K F → Prop
  | .dropClone c => s.clones = {c} → ¬ s.Blocked
  | .net .worker => s.clones = ∅ → s.net.phase = .top →
      s.net.interests .read = [] ∧ s.net.interests .write = [] → 0 < s.net.queue.queue.sem.count
  | _ => True

/-! ### Shares -/

/-- The worker's share. -/
def share : Phase → ℕ
  | .exited => 0
  | _ => 1

theorem share_of_ne {p : Phase} (h : p ≠ .exited) : share p = 1 := by
  cases p <;> first | rfl | exact absurd rfl h

/-- The strong count is that of the clones and the worker, and futures borrow clones that exist. -/
structure Inv (s : State R K F) : Prop where
  shares : s.inner.Shares (s.clones.card + share s.net.phase)
  borrowed : ∀ f c, s.futures f = some c → c ∈ s.clones

section Steps

variable {reg : R → TaskToken × PollInterest} {fut : R → F} {c₀ : K} {s : State R K F}

/-- An exited worker stays so. -/
theorem exited_of_fire {n : AsyncTcpSocket.State R} {l : AsyncTcpSocket.Label R}
    (hen : AsyncTcpSocket.Enabled reg n l) (h : n.phase = .exited) :
    (AsyncTcpSocket.fire reg n l).phase = .exited := by
  cases l with
  | recv r res =>
    simp only [AsyncTcpSocket.fire]
    cases recvPoll (reg r).1 res <;> exact h
  | send r res =>
    simp only [AsyncTcpSocket.fire]
    cases sendPoll (reg r).1 res <;> exact h
  | release r => exact h
  | worker =>
    simp only [AsyncTcpSocket.Enabled, AsyncTcpSocket.State.CanWork, h] at hen
  | answer res =>
    simp only [AsyncTcpSocket.Enabled, h, Phase.isPolling] at hen
    cases hen

theorem shares_dropOnExit {before after : Phase} {inner : Arc} {n : ℕ}
    (h : inner.Shares (n + share before)) (hexit : before = .exited → after = .exited) :
    (dropOnExit before after inner).Shares (n + share after) := by
  unfold dropOnExit
  by_cases hb : before = .exited
  · rw [if_neg (by simp [hb]), hexit hb, ← hb]
    exact h
  · rw [share_of_ne hb] at h
    by_cases ha : after = .exited
    · rw [if_pos ⟨ha, hb⟩, ha]
      exact h.drop
    · rw [if_neg (by simp [ha]), share_of_ne ha]
      exact h

theorem inv_init : Inv (system reg fut c₀).init where
  shares := by
    simp only [system, Finset.card_singleton]
    exact Arc.shares_new.clone Nat.one_ne_zero
  borrowed _ _ h := by cases h

theorem inv_step {l : Label R K F} (h : Inv s) (hen : Enabled reg fut s l) :
    Inv (fire reg s l) := by
  have hshares := h.shares
  cases l with
  | clone c c' =>
    refine ⟨?_, fun f c hf => Finset.mem_insert_of_mem (h.borrowed f c hf)⟩
    have hpos : s.clones.card ≠ 0 := Finset.card_ne_zero_of_mem hen.1
    simp only [fire, Finset.card_insert_of_notMem hen.2]
    rw [Nat.add_right_comm]
    exact hshares.clone (by omega)
  | dropClone c =>
    refine ⟨?_, fun f c' hf => ?_⟩
    · rw [← Finset.card_erase_add_one hen.1, Nat.add_right_comm] at hshares
      exact hshares.drop
    · refine Finset.mem_erase.2 ⟨?_, h.borrowed f c' hf⟩
      rintro rfl
      exact hen.2 f hf
  | create f c =>
    refine ⟨hshares, fun f' c' hf => ?_⟩
    by_cases he : f' = f
    · subst he
      simp only [fire, Function.update_self, Option.some.injEq] at hf
      exact hf ▸ hen.2
    · simp only [fire, Function.update_of_ne he] at hf
      exact h.borrowed f' c' hf
  | dropFuture f =>
    refine ⟨hshares, fun f' c' hf => ?_⟩
    by_cases he : f' = f
    · subst he
      simp [fire] at hf
    · simp only [fire, Function.update_of_ne he] at hf
      exact h.borrowed f' c' hf
  | net l => exact ⟨shares_dropOnExit hshares (exited_of_fire hen.1), h.borrowed⟩

theorem inv_reachable (h : (system reg fut c₀).Reachable s) : Inv s :=
  h.invariant inv_init fun _ _ _ hi hen _ => inv_step hi hen

omit [DecidableEq R] [DecidableEq K] [DecidableEq F] in
/-- Without a clone there is no future. -/
theorem Inv.unused (h : Inv s) (hc : s.clones = ∅) : s.Unused := by
  refine ⟨hc, fun f => ?_⟩
  cases hf : s.futures f with
  | none => rfl
  | some c =>
    have := h.borrowed f c hf
    rw [hc] at this
    exact absurd this (Finset.notMem_empty c)

/-- **When the descriptor is closed**: once, when no clone is left and the worker has exited. -/
theorem closes_eq (h : (system reg fut c₀).Reachable s) :
    s.inner.drops = if s.clones = ∅ ∧ s.net.phase = .exited then 1 else 0 := by
  have hi := inv_reachable h
  rw [hi.shares.2]
  by_cases hc : s.clones = ∅
  · by_cases he : s.net.phase = .exited
    · simp [hc, he, share]
    · simp [hc, he, share_of_ne he]
  · have : s.clones.card ≠ 0 := fun h0 => hc (Finset.card_eq_zero.1 h0)
    rw [if_neg (by omega), if_neg (by simp [hc])]

omit [DecidableEq R] in
/-- The worker goes to sleep only from the top of its loop, with nothing in its lists. -/
theorem top_of_waiting {n : AsyncTcpSocket.State R} (h : (n.work reg).phase = .waiting) :
    n.phase = .top ∧ (n.interests .read = [] ∧ n.interests .write = []) ∧
      (n.work reg).queue = n.queue := by
  unfold AsyncTcpSocket.State.work at h ⊢
  cases hphase : n.phase with
  | top =>
    simp only [hphase] at h ⊢
    split_ifs at h ⊢ with hempty
    exact ⟨trivial, hempty, rfl⟩
  | waiting | locking | requesting | polling _ _ | exited => simp [hphase] at h
  | draining =>
    simp only [hphase] at h
    cases hfront : n.queue.queue.front? <;> simp only [hfront] at h <;> cases h
  | waking k out =>
    simp only [hphase] at h
    split at h
    · cases h
    · cases k <;> cases h

/-- Without a clone the worker is not blocked, if it is so at every step. -/
theorem awake_step {l : Label R K F} (hi : Inv s) (h : s.clones = ∅ → ¬ s.Blocked)
    (hen : Enabled reg fut s l) (hok : Reclaims s l) :
    (fire reg s l).clones = ∅ → ¬ (fire reg s l).Blocked := by
  intro hc
  cases l with
  | clone c c' => exact absurd hc (Finset.insert_ne_empty c' s.clones)
  | dropClone c =>
    have hc : s.clones.erase c = ∅ := hc
    have hlast := Finset.insert_erase hen.1
    rw [hc] at hlast
    exact hok hlast.symm
  | create f c => exact h hc
  | dropFuture f => exact h hc
  | net l =>
    have hc : s.clones = ∅ := hc
    -- no poll is left, so the step is the worker's
    have hnone : ∀ r, polled? l ≠ some r := fun r hr => hen.2 r hr ((hi.unused hc).2 (fut r))
    cases l with
    | recv r res | send r res | release r => exact absurd rfl (hnone r)
    | worker =>
      rintro ⟨hphase, hcount⟩
      obtain ⟨htop, hempty, hqueue⟩ := top_of_waiting hphase
      have hpos := hok hc htop hempty
      have hcount : (s.net.work reg).queue.queue.sem.count = 0 := hcount
      rw [hqueue] at hcount
      omega
    | answer res =>
      rintro ⟨hphase, -⟩
      simp only [fire, AsyncTcpSocket.fire] at hphase
      split at hphase <;> cases hphase

/-- **A finished connection is closed.**  In every run in which the worker does not outlive its
users asleep, `Close` is sent at most once and never while a clone or a future exists, and it has
been sent when no clone and no future is left and the worker has no step to take. -/
theorem closed_when_done (h : (system reg fut c₀).ReachableBy Reclaims s) : Law s := by
  have hcloses := closes_eq h.reachable
  have hi := inv_reachable h.reachable
  have hawake : s.clones = ∅ → ¬ s.Blocked :=
    h.invariant (I := fun s => s.clones = ∅ → ¬ s.Blocked)
      (fun hc => absurd hc (Finset.singleton_ne_empty c₀))
      fun _ _ hs hI hen hok => awake_step (inv_reachable hs.reachable) hI hen hok
  refine ⟨?_, fun hne => ?_, fun hunused hdone => ?_⟩
  · rw [hcloses]
    split_ifs <;> omega
  · refine hi.unused ?_
    by_contra hc
    exact hne (hcloses.trans (if_neg fun h => hc h.1))
  · rcases hdone with he | hb
    · rw [hcloses, if_pos ⟨hunused.1, he⟩]
    · exact absurd hb (hawake hunused.1)

end Steps

/-! ### Runs -/

section Decidable

variable [Fintype R] [Fintype F]

instance (reg : R → TaskToken × PollInterest) (fut : R → F) (c₀ : K) (s : State R K F)
    (l : Label R K F) : Decidable ((system reg fut c₀).Enabled s l) :=
  match l with
  | .clone c c' => inferInstanceAs (Decidable (c ∈ s.clones ∧ c' ∉ s.clones))
  | .dropClone c => inferInstanceAs (Decidable (c ∈ s.clones ∧ ∀ f, s.futures f ≠ some c))
  | .create f c => inferInstanceAs (Decidable (s.futures f = none ∧ c ∈ s.clones))
  | .dropFuture f => inferInstanceAs (Decidable
      (s.futures f ≠ none ∧ ∀ r, fut r = f → s.net.queue.adds r ≠ .pushed))
  | .net l => inferInstanceAs (Decidable ((AsyncTcpSocket.system reg).Enabled s.net l ∧
      ∀ r ∈ polled? l, s.futures (fut r) ≠ none))

instance (s : State R K F) : Decidable s.Blocked :=
  inferInstanceAs (Decidable (_ ∧ _))

instance (s : State R K F) (l : Label R K F) : Decidable (Reclaims s l) :=
  match l with
  | .dropClone c => inferInstanceAs (Decidable (s.clones = {c} → ¬ s.Blocked))
  | .net .worker => inferInstanceAs (Decidable (s.clones = ∅ → s.net.phase = .top →
      s.net.interests .read = [] ∧ s.net.interests .write = [] → 0 < s.net.queue.queue.sem.count))
  | .clone _ _ | .create _ _ | .dropFuture _ | .net (.recv _ _) | .net (.send _ _)
  | .net (.release _) | .net (.answer _) => inferInstanceAs (Decidable True)

end Decidable

/-- A read is cancelled while the worker polls for it, the clones are dropped, and the poll
fails. -/
theorem closed_when_done_two : ∃ s : State (Fin 2) (Fin 2) (Fin 2),
    (system readAndWrite id 0).ReachableBy Reclaims s ∧
    s.Unused ∧ s.net.phase = .exited ∧ s.inner.drops = 1 ∧ Law s := by
  obtain ⟨s, hs, hc, hphase, hdrops⟩ :=
    LTS.exists_of_exec (system readAndWrite id (0 : Fin 2)) Reclaims
      [.clone 0 1, .create 0 1, .net (.recv 0 (.error (.libc .eagain))), .net (.release 0),
        .net .worker, .net .worker, .net .worker, .net .worker, .net .worker, .net .worker,
        .dropFuture 0, .dropClone 0, .dropClone 1, .net (.answer (.error (.libc .einval)))]
      (fun s : State (Fin 2) (Fin 2) (Fin 2) => s.clones = ∅ ∧ s.net.phase = .exited ∧
        s.inner.drops = 1) (by decide)
  have hlaw := closed_when_done hs
  exact ⟨s, hs, hlaw.unused (by rw [hdrops]; decide), hphase, hdrops, hlaw⟩

/-- **A finished connection stays open.**  The worker has gone to sleep when the only clone is
dropped: nobody is left to wake it, and it never gives its share up. -/
theorem stays_open : ∃ s : State (Fin 2) (Fin 2) (Fin 2),
    (system readAndWrite id 0).Reachable s ∧
    s.Unused ∧ s.Blocked ∧ s.inner.drops = 0 ∧ ¬ Law s := by
  obtain ⟨s, hs, hc, hblocked, hdrops⟩ :=
    LTS.exists_of_exec (system readAndWrite id (0 : Fin 2)) (fun _ _ => True)
      [.net .worker, .dropClone 0]
      (fun s : State (Fin 2) (Fin 2) (Fin 2) => s.clones = ∅ ∧ s.Blocked ∧ s.inner.drops = 0)
      (by decide)
  have hunused := (inv_reachable hs).unused hc
  refine ⟨s, hs, hunused, hblocked, hdrops, fun h => ?_⟩
  have := h.closed hunused (.inr hblocked)
  omega

end Lifetime

end AsyncTcpSocket

end BunnyDs
