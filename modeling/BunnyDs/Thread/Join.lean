import BunnyDs.LTS.Basic

/-!
# Threads and their join handles

`CtruThreadBuilder::spawn_thread` boxes the closure, hands it to `threadCreate`, and returns a
`RawJoin` with the thread and one of the two references to a *packet*, a cell without a lock in
which the thread leaves its result.  `RawJoin::join` waits for the thread, frees it and takes the
result out of the packet; dropping a `RawJoin` detaches the thread.

Every access is a step.  Assumed of libctru: `threadCreate` may fail; `threadJoin` returns when the
thread has finished; `threadFree` frees a thread that has finished; `threadDetach` frees a thread
that has finished and leaves any other one to be freed when it finishes.  A thread that is used
after it was freed is `Native.wild`.

* `CtruThread.Shape` : where owner, thread, libctru's record and packet can be together.
* `CtruThread.threads_sound` : **a join returns what the closure did, and everything is freed
  exactly once**, whether the thread is joined or dropped, and whether the closure returns or
  panics.
-/

namespace BunnyDs

namespace CtruThread

variable {P T : Type*}

/-- `ThreadResult`: what the closure returned, or the payload of its panic. -/
abbrev ThreadResult (P T : Type*) := Except P T

/-- libctru's record of a thread. -/
inductive Native where
  /-- `threadCreate` was not called, or has failed. -/
  | absent
  | running
  | finished
  /-- Detached, and still running. -/
  | detached
  | freed
  /-- It was used after it was freed. -/
  | wild
  deriving DecidableEq

/-- The thread finishes. -/
def Native.exit : Native → Native
  | .running => .finished
  | .detached => .freed
  | _ => .wild

/-- `threadFree`. -/
def Native.free : Native → Native
  | .running => .running
  | .finished => .freed
  | _ => .wild

/-- `threadDetach`. -/
def Native.detach : Native → Native
  | .running => .detached
  | .finished => .freed
  | _ => .wild

/-- What the owner of the `RawJoin` does next. -/
inductive Owner (P T : Type*) where
  /-- `RawThread::new`: `threadCreate`. -/
  | create
  /-- `threadCreate` has failed: unwinding drops the box with the closure. -/
  | dropClosure
  /-- Unwinding drops `my_packet`. -/
  | dropUnused
  /-- `spawn_thread` has panicked. -/
  | panicked
  /-- `spawn_thread` has returned. -/
  | holding
  /-- `RawThread::join`: `threadJoin`. -/
  | joinWait
  /-- `RawThread::join`: `threadFree`. -/
  | joinFree
  /-- `RawJoin::join`: `(*self.packet.0.get()).take().unwrap()`. -/
  | joinTake
  /-- `RawJoin::join`: `self` is dropped, and with it the packet. -/
  | joinDrop (res : ThreadResult P T)
  /-- `join` has returned. -/
  | joined (res : ThreadResult P T)
  /-- `unwrap` has panicked. -/
  | unwrapped
  /-- `RawJoin` is dropped, `native` first: `threadDetach`. -/
  | detach
  /-- Then `packet`. -/
  | dropPacket
  /-- The `RawJoin` is gone. -/
  | dropped
  deriving DecidableEq

/-- What the thread does next. -/
inductive Pc (P T : Type*) where
  /-- Not created. -/
  | absent
  /-- In `catch_unwind(f)`. -/
  | running
  /-- `*their_packet.0.get() = Some(try_result)`. -/
  | store (res : ThreadResult P T)
  /-- The closure is dropped, and with it `their_packet`. -/
  | drop
  /-- The thread function returns. -/
  | exit
  | gone
  deriving DecidableEq

/-- The owner, the thread, and what they share. -/
structure State (P T : Type*) where
  owner : Owner P T
  thread : Pc P T
  native : Native
  /-- The content of the packet. -/
  packet : Option (ThreadResult P T)
  /-- The references to it. -/
  myPacket : Bool
  theirPacket : Bool
  /-- What the closure did. -/
  result : Option (ThreadResult P T)
  /-- How often the closure was dropped. -/
  closures : ℕ
  /-- The packets that were dropped, with what they held. -/
  packets : List (Option (ThreadResult P T))

/-- One step of one party. -/
inductive Label (P T : Type*) where
  /-- `threadCreate` returns. -/
  | create (succeeds : Bool)
  /-- `RawJoin::join` is called. -/
  | join
  /-- The `RawJoin` is dropped. -/
  | drop
  /-- The next access of the owner. -/
  | owner
  /-- The closure returns or panics. -/
  | finish (res : ThreadResult P T)
  /-- The next access of the thread. -/
  | thread

/-- `my_packet` is dropped. -/
def State.dropMine (s : State P T) : State P T :=
  { s with
    myPacket := false
    packets := if s.theirPacket then s.packets else s.packet :: s.packets }

/-- The closure is dropped, and `their_packet` with it. -/
def State.dropTheirs (s : State P T) : State P T :=
  { s with
    theirPacket := false
    closures := s.closures + 1
    packets := if s.myPacket then s.packets else s.packet :: s.packets }

/-- The next access of the owner. -/
def ownerStep (s : State P T) : State P T :=
  match s.owner with
  | .dropClosure => { s.dropTheirs with owner := .dropUnused }
  | .dropUnused => { s.dropMine with owner := .panicked }
  | .joinWait => { s with owner := .joinFree }
  | .joinFree => { s with native := s.native.free, owner := .joinTake }
  | .joinTake =>
    match s.packet with
    | some res => { s with packet := none, owner := .joinDrop res }
    | none => { s with owner := .unwrapped }
  | .joinDrop res => { s.dropMine with owner := .joined res }
  | .detach => { s with native := s.native.detach, owner := .dropPacket }
  | .dropPacket => { s.dropMine with owner := .dropped }
  | .create | .panicked | .holding | .joined _ | .unwrapped | .dropped => s

/-- The next access of the thread. -/
def threadStep (s : State P T) : State P T :=
  match s.thread with
  | .store res => { s with packet := some res, thread := .drop }
  | .drop => { s.dropTheirs with thread := .exit }
  | .exit => { s with native := s.native.exit, thread := .gone }
  | .absent | .running | .gone => s

/-- The effect of a step. -/
def fire (s : State P T) : Label P T → State P T
  | .create true => { s with native := .running, owner := .holding, thread := .running }
  | .create false => { s with owner := .dropClosure }
  | .join => { s with owner := .joinWait }
  | .drop => { s with owner := .detach }
  | .owner => ownerStep s
  | .finish res => { s with thread := .store res, result := some res }
  | .thread => threadStep s

/-- The owner can go on: `threadJoin` waits for the thread. -/
def State.CanOwn (s : State P T) : Prop :=
  match s.owner with
  | .joinWait => s.native = .finished
  | .dropClosure | .dropUnused | .joinFree | .joinTake | .joinDrop _ | .detach | .dropPacket => True
  | .create | .panicked | .holding | .joined _ | .unwrapped | .dropped => False

/-- The thread is at an access. -/
def Pc.active : Pc P T → Bool
  | .store _ | .drop | .exit => true
  | .absent | .running | .gone => false

/-- A step can be taken. -/
def Enabled (s : State P T) : Label P T → Prop
  | .create _ => s.owner = .create
  | .join | .drop => s.owner = .holding
  | .owner => s.CanOwn
  | .finish _ => s.thread = .running
  | .thread => s.thread.active = true

/-- A call of `spawn_thread`. -/
def system (P T : Type*) : LTS (State P T) (Label P T) where
  init := ⟨.create, .absent, .absent, none, true, true, none, 0, []⟩
  Enabled := Enabled
  fire := fire

instance [DecidableEq P] [DecidableEq T] (s : State P T) (l : Label P T) :
    Decidable ((system P T).Enabled s l) := by
  cases l with
  | owner =>
    change Decidable s.CanOwn
    unfold State.CanOwn
    cases s.owner <;> dsimp only <;> infer_instance
  | create b => exact inferInstanceAs (Decidable (s.owner = .create))
  | join => exact inferInstanceAs (Decidable (s.owner = .holding))
  | drop => exact inferInstanceAs (Decidable (s.owner = .holding))
  | finish res => exact inferInstanceAs (Decidable (s.thread = .running))
  | thread => exact inferInstanceAs (Decidable (s.thread.active = true))

/-! ### The invariant -/

/-- How far the owner is with the thread. -/
inductive Stage where
  /-- There is no thread. -/
  | none
  /-- The owner can still join or detach it. -/
  | owned
  /-- It has finished, and is about to be freed by the owner. -/
  | waited
  /-- It was freed by the owner. -/
  | freed
  /-- It was detached. -/
  | detached

def Owner.stage : Owner P T → Stage
  | .create | .dropClosure | .dropUnused | .panicked => .none
  | .holding | .joinWait | .detach => .owned
  | .joinFree => .waited
  | .joinTake | .joinDrop _ | .joined _ | .unwrapped => .freed
  | .dropPacket | .dropped => .detached

/-- The record of the thread, from what the two parties have done. -/
def Stage.native (gone : Bool) : Stage → Native
  | .none => .absent
  | .owned => if gone then .finished else .running
  | .waited => .finished
  | .freed => .freed
  | .detached => if gone then .freed else .detached

/-- The thread has dropped its closure. -/
def Pc.past : Pc P T → Bool
  | .exit | .gone => true
  | .absent | .running | .store _ | .drop => false

/-- The owner has dropped the closure, because there is no thread. -/
def Owner.unwound : Owner P T → Bool
  | .dropUnused | .panicked => true
  | _ => false

/-- The owner has dropped its reference. -/
def Owner.isDone : Owner P T → Bool
  | .panicked | .joined _ | .dropped => true
  | _ => false

/-- The result the owner has taken out of the packet. -/
def Owner.taken : Owner P T → Option (ThreadResult P T)
  | .joinDrop res | .joined res => some res
  | _ => none

/-- The thread has finished. -/
def Pc.isGone : Pc P T → Bool
  | .gone => true
  | _ => false

/-- There is a thread exactly if it was created, and it has finished when its owner has waited. -/
def StageInv (s : State P T) : Prop :=
  match s.owner.stage with
  | .none => s.thread = .absent
  | .owned | .detached => s.thread ≠ .absent
  | .waited | .freed => s.thread = .gone

/-- What the closure did, and where its result is. -/
def ResultInv (s : State P T) : Prop :=
  match s.thread with
  | .absent | .running => s.result = none ∧ s.packet = none
  | .store res => s.result = some res ∧ s.packet = none
  | .drop | .exit | .gone => ∃ res, s.result = some res ∧
      (s.owner.taken = none ∧ s.packet = some res ∨ s.owner.taken = some res ∧ s.packet = none)

/-- **Where owner, thread, record and packet can be together.** -/
structure Shape (s : State P T) : Prop where
  stage : StageInv s
  native : s.native = s.owner.stage.native s.thread.isGone
  mine : s.myPacket = !s.owner.isDone
  theirs : s.theirPacket = !(s.thread.past || s.owner.unwound)
  closures : s.closures = (s.thread.past || s.owner.unwound).toNat
  packets : s.packets = if s.myPacket || s.theirPacket then [] else [s.packet]
  result : ResultInv s
  no_unwrap : s.owner ≠ .unwrapped

theorem shape_init : Shape (system P T).init :=
  ⟨rfl, rfl, rfl, rfl, rfl, rfl, ⟨rfl, rfl⟩, fun h => by cases h⟩

section Steps

variable {s : State P T}

/-- The owner goes on, and drops nothing. -/
theorem Shape.goto (h : Shape s) {o : Owner P T} {n : Native}
    (hstage : StageInv { s with owner := o, native := n })
    (hnative : n = o.stage.native s.thread.isGone) (hdone : o.isDone = s.owner.isDone)
    (hunwound : o.unwound = s.owner.unwound) (htaken : o.taken = s.owner.taken)
    (hno : o ≠ .unwrapped) : Shape { s with owner := o, native := n } := by
  refine ⟨hstage, hnative, ?_, ?_, ?_, h.packets, ?_, hno⟩
  · rw [h.mine, hdone]
  · rw [h.theirs, hunwound]
  · rw [h.closures, hunwound]
  · have hr := h.result
    simp only [ResultInv, htaken] at hr ⊢
    exact hr

/-- The owner drops its reference to the packet. -/
theorem Shape.dropMine (h : Shape s) {o : Owner P T} (hstage : o.stage = s.owner.stage)
    (hbefore : s.owner.isDone = false) (hafter : o.isDone = true)
    (hunwound : o.unwound = s.owner.unwound) (htaken : o.taken = s.owner.taken)
    (hno : o ≠ .unwrapped) : Shape { s.dropMine with owner := o } := by
  have hmine : s.myPacket = true := by rw [h.mine, hbefore]; rfl
  refine ⟨?_, ?_, ?_, ?_, ?_, ?_, ?_, hno⟩
  · have hs := h.stage
    simp only [StageInv, hstage, State.dropMine] at hs ⊢
    exact hs
  · simp only [State.dropMine, hstage]
    exact h.native
  · simp [State.dropMine, hafter]
  · simp only [State.dropMine, hunwound]
    exact h.theirs
  · simp only [State.dropMine, hunwound]
    exact h.closures
  · have hp := h.packets
    rw [hmine] at hp
    simp only [State.dropMine, Bool.false_or, hp, Bool.true_or, if_true]
  · have hr := h.result
    simp only [ResultInv, htaken, State.dropMine] at hr ⊢
    exact hr

/-- The closure is dropped, by the thread or because there is none. -/
theorem Shape.dropTheirs (h : Shape s) (hnot : (s.thread.past || s.owner.unwound) = false) :
    s.dropTheirs.closures = 1 ∧
      s.dropTheirs.packets = if s.myPacket then [] else [s.packet] := by
  have htheirs : s.theirPacket = true := by rw [h.theirs, hnot]; rfl
  have hp := h.packets
  have hc := h.closures
  rw [htheirs, Bool.or_true, if_pos rfl] at hp
  rw [hnot] at hc
  simp [State.dropTheirs, hp, hc]

/-- The owner takes the result. -/
theorem shape_take (h : Shape s) (howner : s.owner = .joinTake) :
    ∃ res, s.packet = some res ∧ Shape { s with packet := none, owner := .joinDrop res } := by
  have hs := h.stage
  have hr := h.result
  simp only [StageInv, howner, Owner.stage] at hs
  simp only [ResultInv, hs, howner, Owner.taken] at hr
  obtain ⟨res, hres, ⟨-, hpacket⟩ | ⟨hno, -⟩⟩ := hr
  · refine ⟨res, hpacket, hs, ?_, ?_, ?_, ?_, ?_, ?_, by simp⟩
    · rw [h.native, howner]
      rfl
    · rw [h.mine, howner]
      rfl
    · rw [h.theirs, howner]
      rfl
    · rw [h.closures, howner]
      rfl
    · have hmine : s.myPacket = true := by rw [h.mine, howner]; rfl
      have hp := h.packets
      simp only [hmine, Bool.true_or, if_true] at hp ⊢
      exact hp
    · simp [ResultInv, hs, hres, Owner.taken]
  · cases hno

theorem shape_owner (h : Shape s) (hen : s.CanOwn) : Shape (ownerStep s) := by
  have hs := h.stage
  have hn := h.native
  unfold State.CanOwn at hen
  unfold StageInv at hs
  cases howner : s.owner with
  | create | panicked | holding | joined res | unwrapped | dropped =>
    rw [howner] at hen
    exact hen.elim
  | dropClosure =>
    rw [howner] at hs hn
    have hthread : s.thread = .absent := hs
    have hnot : (s.thread.past || s.owner.unwound) = false := by rw [hthread, howner]; rfl
    obtain ⟨hclosures, hpackets⟩ := h.dropTheirs hnot
    have hmine : s.myPacket = true := by rw [h.mine, howner]; rfl
    have hr := h.result
    simp only [ResultInv, hthread] at hr
    simp only [ownerStep, howner]
    refine ⟨hthread, ?_, ?_, ?_, ?_, ?_, ?_, by simp⟩
    · simpa [State.dropTheirs, Owner.stage, Stage.native] using hn
    · simpa [State.dropTheirs, Owner.isDone] using hmine
    · simp [State.dropTheirs, Owner.unwound]
    · rw [hclosures]
      simp [Owner.unwound]
    · rw [hpackets]
      simp [State.dropTheirs, hmine]
    · simpa [ResultInv, State.dropTheirs, hthread] using hr
  | dropUnused =>
    simp only [ownerStep, howner]
    exact h.dropMine (by rw [howner]; rfl) (by rw [howner]; rfl) rfl (by rw [howner]; rfl)
      (by rw [howner]; rfl) (by simp)
  | joinWait =>
    rw [howner] at hen hn
    -- the thread has finished, or `threadJoin` would not have returned
    have hgone : s.thread.isGone = true := by
      rw [show s.native = .finished from hen] at hn
      cases hg : s.thread.isGone with
      | true => rfl
      | false => rw [hg] at hn; cases hn
    simp only [ownerStep, howner]
    refine h.goto ?_ ?_ (by rw [howner]; rfl) (by rw [howner]; rfl) (by rw [howner]; rfl) (by simp)
    · change s.thread = .gone
      cases hthread : s.thread <;> simp_all [Pc.isGone]
    · exact hen
  | joinFree =>
    rw [howner] at hs hn
    have hfinished : s.native = .finished := hn
    simp only [ownerStep, howner, hfinished]
    exact h.goto hs rfl (by rw [howner]; rfl) (by rw [howner]; rfl) (by rw [howner]; rfl) (by simp)
  | joinTake =>
    obtain ⟨res, hpacket, hshape⟩ := shape_take h howner
    simp only [ownerStep, howner, hpacket]
    exact hshape
  | joinDrop res =>
    simp only [ownerStep, howner]
    exact h.dropMine (by rw [howner]; rfl) (by rw [howner]; rfl) rfl (by rw [howner]; rfl)
      (by rw [howner]; rfl) (by simp)
  | detach =>
    rw [howner] at hs hn
    simp only [ownerStep, howner]
    refine h.goto hs ?_ (by rw [howner]; rfl) (by rw [howner]; rfl) (by rw [howner]; rfl) (by simp)
    rw [hn]
    cases s.thread.isGone <;> rfl
  | dropPacket =>
    simp only [ownerStep, howner]
    exact h.dropMine (by rw [howner]; rfl) (by rw [howner]; rfl) rfl (by rw [howner]; rfl)
      (by rw [howner]; rfl) (by simp)

/-- While the thread runs, its owner holds it or has detached it. -/
theorem Shape.stage_of_alive (h : Shape s) (hpast : s.thread ≠ .absent) (hgone : s.thread ≠ .gone) :
    s.owner.stage = .owned ∨ s.owner.stage = .detached := by
  have hs := h.stage
  unfold StageInv at hs
  cases hst : s.owner.stage <;> simp_all

/-- The owner has not taken a result that the thread has not left. -/
theorem Owner.taken_of_stage {o : Owner P T} (h : o.stage = .owned ∨ o.stage = .detached) :
    o.taken = none ∧ o.unwound = false := by
  cases o <;> simp_all [stage, taken, unwound]

/-- The thread goes on, and neither drops anything nor finishes. -/
theorem Shape.run (h : Shape s) {pc : Pc P T} {packet result : Option (ThreadResult P T)}
    (hrun : s.thread = .running ∨ ∃ res, s.thread = .store res)
    (hpc : pc ≠ .absent ∧ pc.isGone = false ∧ pc.past = false)
    (hresult : ResultInv { s with thread := pc, packet := packet, result := result }) :
    Shape { s with thread := pc, packet := packet, result := result } := by
  have halive : s.thread ≠ .absent ∧ s.thread ≠ .gone ∧ s.thread.isGone = false ∧
      s.thread.past = false := by
    rcases hrun with hrun | ⟨res, hrun⟩ <;> simp [hrun, Pc.isGone, Pc.past]
  obtain ⟨habsent, hgone, hnot, hpast⟩ := halive
  have hst := h.stage_of_alive habsent hgone
  have hunwound := (Owner.taken_of_stage hst).2
  have htheirs : s.theirPacket = true := by rw [h.theirs, hpast, hunwound]; rfl
  refine ⟨?_, ?_, h.mine, ?_, ?_, ?_, hresult, h.no_unwrap⟩
  · rcases hst with hst | hst <;> simpa [StageInv, hst] using hpc.1
  · rw [h.native, hnot, hpc.2.1]
  · rw [h.theirs, hpast, hpc.2.2]
  · rw [h.closures, hpast, hpc.2.2]
  · have hp := h.packets
    simp only [htheirs, Bool.or_true, if_true] at hp ⊢
    exact hp

theorem shape_thread (h : Shape s) (hact : s.thread.active = true) : Shape (threadStep s) := by
  have hr := h.result
  unfold ResultInv at hr
  cases hthread : s.thread with
  | absent | running | gone => simp [hthread, Pc.active] at hact
  | store res =>
    rw [hthread] at hr
    have hst := h.stage_of_alive (by simp [hthread]) (by simp [hthread])
    simp only [threadStep, hthread]
    refine h.run (.inr ⟨res, hthread⟩) (by simp [Pc.isGone, Pc.past]) ?_
    exact ⟨res, hr.1, .inl ⟨(Owner.taken_of_stage hst).1, rfl⟩⟩
  | drop =>
    rw [hthread] at hr
    have hst := h.stage_of_alive (by simp [hthread]) (by simp [hthread])
    have hunwound := (Owner.taken_of_stage hst).2
    obtain ⟨hclosures, hpackets⟩ := h.dropTheirs (by rw [hthread, hunwound]; rfl)
    simp only [threadStep, hthread]
    refine ⟨?_, ?_, h.mine, ?_, ?_, ?_, hr, h.no_unwrap⟩
    · rcases hst with hst | hst <;> simp [StageInv, State.dropTheirs, hst]
    · change s.native = _
      rw [h.native, hthread]
      rfl
    · simp [State.dropTheirs, Pc.past]
    · rw [hclosures]
      simp [Pc.past]
    · rw [hpackets]
      simp [State.dropTheirs]
  | exit =>
    rw [hthread] at hr
    have hst := h.stage_of_alive (by simp [hthread]) (by simp [hthread])
    simp only [threadStep, hthread]
    refine ⟨?_, ?_, h.mine, ?_, ?_, h.packets, hr, h.no_unwrap⟩
    · rcases hst with hst | hst <;> simp [StageInv, hst]
    · rw [h.native, hthread]
      rcases hst with hst | hst <;> rw [hst] <;> rfl
    · rw [h.theirs, hthread]
      rfl
    · rw [h.closures, hthread]
      rfl

theorem shape_step {l : Label P T} (h : Shape s) (hen : Enabled s l) : Shape (fire s l) := by
  cases l with
  | create succeeds =>
    have howner : s.owner = .create := hen
    have hs := h.stage
    have hn := h.native
    rw [StageInv, howner] at hs
    rw [howner] at hn
    have hthread : s.thread = .absent := hs
    have hr := h.result
    simp only [ResultInv, hthread] at hr
    cases succeeds with
    | false =>
      simp only [fire]
      exact h.goto hs hn (by rw [howner]; rfl) (by rw [howner]; rfl) (by rw [howner]; rfl) (by simp)
    | true =>
      refine ⟨by simp [fire, StageInv, Owner.stage], rfl, ?_, ?_, ?_, h.packets, hr, by simp [fire]⟩
      · exact h.mine.trans (by rw [howner]; rfl)
      · exact h.theirs.trans (by rw [howner, hthread]; rfl)
      · exact h.closures.trans (by rw [howner, hthread]; rfl)
  | join =>
    have howner : s.owner = .holding := hen
    have hs := h.stage
    have hn := h.native
    rw [StageInv, howner] at hs
    rw [howner] at hn
    simp only [fire]
    exact h.goto hs hn (by rw [howner]; rfl) (by rw [howner]; rfl) (by rw [howner]; rfl) (by simp)
  | drop =>
    have howner : s.owner = .holding := hen
    have hs := h.stage
    have hn := h.native
    rw [StageInv, howner] at hs
    rw [howner] at hn
    simp only [fire]
    exact h.goto hs hn (by rw [howner]; rfl) (by rw [howner]; rfl) (by rw [howner]; rfl) (by simp)
  | owner => exact shape_owner h hen
  | finish res =>
    have hthread : s.thread = .running := hen
    have hr := h.result
    rw [ResultInv, hthread] at hr
    exact h.run (.inl hthread) (by simp [Pc.isGone, Pc.past]) ⟨rfl, hr.2⟩
  | thread => exact shape_thread h hen

theorem shape_reachable (h : (system P T).Reachable s) : Shape s :=
  h.invariant shape_init fun _ _ _ hi hen _ => shape_step hi hen

end Steps

/-! ### What a thread promises -/

/-- **What a thread promises.** -/
structure Sound (s : State P T) : Prop where
  /-- A join returns what the closure returned, or the payload of its panic. -/
  joined : ∀ res, s.owner = .joined res → s.result = some res
  /-- The packet is full when a join takes the result: the `unwrap` does not panic. -/
  no_unwrap : s.owner ≠ .unwrapped
  /-- The record of the thread is never used after it was freed. -/
  never_wild : s.native ≠ .wild
  /-- The thread does not write the packet while the owner reads it, or afterwards. -/
  no_race : s.owner = .joinTake → s.thread = .gone
  /-- If there is no thread the closure does not run. -/
  not_run : s.owner = .panicked → s.result = none
  /-- When owner and thread are gone, the record is freed, the closure was dropped once, the packet
  was dropped once, and the result was returned or dropped with the packet, not both. -/
  settled : s.owner.isDone = true → s.thread = .absent ∨ s.thread = .gone →
    (s.native = .absent ∨ s.native = .freed) ∧ s.closures = 1 ∧
      ∃ left, s.packets = [left] ∧ s.owner.taken.or left = s.result ∧
        (s.owner.taken = none ∨ left = none)

/-- When the owner has dropped its reference, its thread was never there or is dropped as well. -/
theorem Shape.settled {s : State P T} (h : Shape s) (hdone : s.owner.isDone = true)
    (hthread : s.thread = .absent ∨ s.thread = .gone) :
    (s.native = .absent ∨ s.native = .freed) ∧ (s.thread.past || s.owner.unwound) = true ∧
      s.owner.taken.or s.packet = s.result ∧ (s.owner.taken = none ∨ s.packet = none) := by
  have hs := h.stage
  have hn := h.native
  have hr := h.result
  unfold StageInv at hs
  unfold ResultInv at hr
  cases howner : s.owner <;> rw [howner] at hdone <;> try cases hdone
  case panicked =>
    rw [howner] at hs hn
    rw [show s.thread = .absent from hs] at hr
    exact ⟨.inl hn, by simp [Owner.unwound], by simp [hr, Owner.taken], .inl rfl⟩
  case joined res =>
    rw [howner] at hs hn
    rw [show s.thread = .gone from hs, howner] at hr
    obtain ⟨res', hres, ⟨hno, -⟩ | ⟨heq, hpacket⟩⟩ := hr
    · cases hno
    · exact ⟨.inr hn, by simp [show s.thread = .gone from hs, Pc.past],
        by rw [hpacket, Option.or_none, heq, hres], .inr hpacket⟩
  case dropped =>
    rw [howner] at hs hn
    have hgone : s.thread = .gone := hthread.resolve_left hs
    rw [hgone] at hn hr
    rw [howner] at hr
    obtain ⟨res', hres, ⟨-, hpacket⟩ | ⟨hno, -⟩⟩ := hr
    · exact ⟨.inr hn, by simp [hgone, Pc.past], by simp [hres, hpacket, Owner.taken], .inl rfl⟩
    · cases hno

theorem Shape.sound {s : State P T} (h : Shape s) : Sound s := by
  have hstage := h.stage
  have hresult := h.result
  refine ⟨fun res ho => ?_, h.no_unwrap, ?_, fun ho => ?_, fun ho => ?_, fun hdone hthread => ?_⟩
  · rw [StageInv, ho] at hstage
    rw [ResultInv, show s.thread = .gone from hstage, ho] at hresult
    obtain ⟨res', hres, ⟨hno, -⟩ | ⟨heq, -⟩⟩ := hresult
    · cases hno
    · rw [hres, ← heq]
      rfl
  · rw [h.native]
    cases s.owner.stage <;> cases s.thread.isGone <;> simp [Stage.native]
  · rw [StageInv, ho] at hstage
    exact hstage
  · rw [StageInv, ho] at hstage
    rw [ResultInv, show s.thread = .absent from hstage] at hresult
    exact hresult.1
  · obtain ⟨hnative, hdropped, hmoved, hone⟩ := h.settled hdone hthread
    have hpackets := h.packets
    rw [h.mine, h.theirs, hdone, hdropped] at hpackets
    exact ⟨hnative, by rw [h.closures, hdropped]; rfl, s.packet, hpackets, hmoved, hone⟩

/-- **Threads are joined and freed soundly.**  In every run of a call of `spawn_thread`, whether or
not `threadCreate` succeeds, whether the closure returns or panics, and whether and when the
`RawJoin` is joined or dropped. -/
theorem threads_sound {s : State P T} (h : (system P T).Reachable s) : Sound s :=
  (shape_reachable h).sound

/-- The closure panics while its owner waits for it, and the join returns the payload. -/
theorem threads_sound_panic : ∃ s : State String ℕ, (system String ℕ).Reachable s ∧
    s.owner = .joined (.error "overflow") ∧ s.native = .freed ∧ Sound s := by
  obtain ⟨s, hs, howner, hnative⟩ :=
    LTS.exists_of_exec (system String ℕ) (fun _ _ => True)
      [.create true, .join, .finish (.error "overflow"), .thread, .thread, .thread, .owner, .owner,
        .owner, .owner]
      (fun s => s.owner = .joined (.error "overflow") ∧ s.native = .freed) (by decide)
  exact ⟨s, hs, howner, hnative, threads_sound hs⟩

end CtruThread

end BunnyDs
