import BunnyDs.Kernel.Basic
import Mathlib.Logic.Function.Basic

/-!
# The reactor's handler

`ReactorHandler` maps a kernel handle to the tokens of the tasks that wait for it.  A request
`AddHandle(task, handle)` appends a token; when the handle is signalled its tokens are taken out of
the map and woken, in the order in which they were added.  `PopHandle` is a `todo!`.

`Reactor.run_eq` compares the handler with what it is for: at a signal, the tokens added for that
handle since its previous signal are woken, and nothing else; the `unwrap` fails exactly at a signal
nobody has asked for.
-/

namespace BunnyDs

namespace Reactor

/-- `ctru_sys::Handle`. -/
abbrev OSHandle := UInt32

/-- `ReactorCmd`. -/
inductive ReactorCmd where
  | addHandle (task : TaskToken) (handle : OSHandle)
  | popHandle
  deriving DecidableEq

/-- `ReactorHandler`, and the additional handles of the `IPCServer` it runs in. -/
structure Server where
  waitTokens : OSHandle → Option (List TaskToken)
  handles : List OSHandle

namespace Server

/-- The server made by `Reactor::run`. -/
def new : Server := ⟨fun _ => none, []⟩

/-- `handle_request`; `none` is a panic, and the reply is always `ReactorReply::Ok`. -/
def handleRequest (s : Server) : ReactorCmd → Option Server
  | .addHandle task handle => some
    { waitTokens :=
        Function.update s.waitTokens handle (some ((s.waitTokens handle).getD [] ++ [task]))
      handles := s.handles ++ [handle] }
  | .popHandle => none

/-- `handle_additional_oshandle`: the tokens to wake, and the map without them; `none` is the
panic of `unwrap`. -/
def handleAdditionalOshandle (s : Server) (handle : OSHandle) : Option (List TaskToken × Server) :=
  (s.waitTokens handle).map fun tokens =>
    (tokens, { s with waitTokens := Function.update s.waitTokens handle none })

end Server

/-! ### A sequence of requests and signals -/

/-- What the server's loop hands to the handler. -/
inductive Input where
  | request (cmd : ReactorCmd)
  | signal (handle : OSHandle)
  deriving DecidableEq

/-- One call of the handler, with the tokens it wakes. -/
def step (s : Server) : Input → Option (List TaskToken × Server)
  | .request cmd => (s.handleRequest cmd).map fun s' => ([], s')
  | .signal handle => s.handleAdditionalOshandle handle

/-- The handler on a sequence of inputs, with all tokens it wakes. -/
def run (s : Server) : List Input → Option (List TaskToken × Server)
  | [] => some ([], s)
  | i :: is =>
    (step s i).bind fun (out, s') => (run s' is).map fun (rest, s'') => (out ++ rest, s'')

/-- The tokens asked for `handle` since its latest signal; the inputs are newest first. -/
def pending (handle : OSHandle) : List Input → List TaskToken
  | [] => []
  | .request (.addHandle task h) :: is =>
    if h = handle then pending handle is ++ [task] else pending handle is
  | .request .popHandle :: is => pending handle is
  | .signal h :: is => if h = handle then [] else pending handle is

/-- What one input should lead to, given the inputs before it: the tokens woken, or a panic. -/
def answer (past : List Input) : Input → Option (List TaskToken)
  | .request (.addHandle _ _) => some []
  | .request .popHandle => none
  | .signal handle => if pending handle past = [] then none else some (pending handle past)

/-- What a sequence of inputs should lead to. -/
def answers (past : List Input) : List Input → Option (List TaskToken)
  | [] => some []
  | i :: is => (answer past i).bind fun out => (answers (i :: past) is).map fun rest => out ++ rest

/-- The map holds what is pending, and no empty entries. -/
def Represents (s : Server) (past : List Input) : Prop :=
  ∀ handle, s.waitTokens handle =
    if pending handle past = [] then none else some (pending handle past)

theorem represents_new : Represents .new [] := fun _ => rfl

theorem represents_addHandle {s : Server} {past : List Input} (h : Represents s past)
    (task : TaskToken) (handle : OSHandle) :
    ∃ s', s.handleRequest (.addHandle task handle) = some s' ∧
      Represents s' (.request (.addHandle task handle) :: past) := by
  refine ⟨_, rfl, fun x => ?_⟩
  by_cases hx : x = handle
  · subst hx
    -- `or_default` starts from the empty list, which is what is pending without an entry
    have hget : (s.waitTokens x).getD [] = pending x past := by
      rw [h x]
      split_ifs with hp
      · exact hp.symm
      · rfl
    simp [pending, hget]
  · simp [Function.update_of_ne hx, h x, pending, Ne.symm hx]

theorem represents_signal {s : Server} {past : List Input} (h : Represents s past)
    (handle : OSHandle) :
    (s.handleAdditionalOshandle handle).map Prod.fst = answer past (.signal handle) ∧
      ∀ out s', s.handleAdditionalOshandle handle = some (out, s') →
        Represents s' (.signal handle :: past) := by
  constructor
  · simp only [Server.handleAdditionalOshandle, answer, h handle]
    split_ifs <;> rfl
  · intro out s' hs x
    obtain ⟨tokens, -, he⟩ := Option.map_eq_some_iff.1 hs
    obtain ⟨-, rfl⟩ := Prod.mk.inj he
    by_cases hx : x = handle
    · simp [hx, pending]
    · simp [Function.update_of_ne hx, h x, pending, Ne.symm hx]

/-- One call of the handler. -/
theorem represents_step {s : Server} {past : List Input} (h : Represents s past) (i : Input) :
    (step s i).map Prod.fst = answer past i ∧
      ∀ out s', step s i = some (out, s') → Represents s' (i :: past) := by
  cases i with
  | signal handle => exact represents_signal h handle
  | request cmd =>
    cases cmd with
    | popHandle => exact ⟨rfl, fun _ _ hs => by cases hs⟩
    | addHandle task handle =>
      obtain ⟨s', hs, hr⟩ := represents_addHandle h task handle
      refine ⟨by simp [step, hs, answer], fun out s'' hs'' => ?_⟩
      simp only [step, hs, Option.map_some, Option.some.injEq, Prod.mk.injEq] at hs''
      exact hs''.2 ▸ hr

theorem run_eq_of_represents {s : Server} {past : List Input} (h : Represents s past)
    (is : List Input) : (run s is).map Prod.fst = answers past is := by
  induction is generalizing s past with
  | nil => rfl
  | cons i is ih =>
    obtain ⟨hout, hnext⟩ := represents_step h i
    simp only [run, answers, ← hout]
    cases hs : step s i with
    | none => rfl
    | some p =>
      obtain ⟨out, s'⟩ := p
      simp only [Option.bind_some, Option.map_some, ← ih (hnext out s' hs), Option.map_map]
      rfl

/-- **The handler wakes whoever asked, once, in the order of asking.**  For every sequence of
requests and signals: a signal wakes exactly the tokens added for its handle since the handle's
previous signal, in the order in which they were added; the handler panics exactly at a signal that
nobody has asked for since the previous one, and at a `PopHandle`. -/
theorem run_eq (is : List Input) : (run .new is).map Prod.fst = answers [] is :=
  run_eq_of_represents represents_new is

end Reactor

end BunnyDs
