import PinballBoard.Link.Connection

/-!
# Dialogues

A task on a connection makes one call after the other, and what it calls next depends on how the
calls before have ended. `Dialogue` is such a task written down: a tree whose nodes are calls and
whose branches are the ways in which a call can end. The tree is inductive, so every dialogue comes
to its end after finitely many calls, and a property of all its runs is proved by induction.

Between two calls other tasks run, and they may look at what the task has achieved so far; a task
that is given up leaves that behind. So each node carries the state that is visible while its call
is under way.
-/

namespace PinballBoard

/-- A task with a visible state in `σ` and a result in `α`. -/
inductive Dialogue (σ α : Type) where
  /-- The task has come to its end. -/
  | done (state : σ) (result : α)
  /-- The task makes a call and goes on as the call ends. -/
  | ask (state : σ) (call : Call) (next : Outcome → Dialogue σ α)

namespace Dialogue

variable {σ τ α β : Type}

/-- What is visible of the task. -/
def state : Dialogue σ α → σ
  | done state _ => state
  | ask state _ _ => state

/-- The task under another view of its state. -/
def view (f : σ → τ) : Dialogue σ α → Dialogue τ α
  | done state result => done (f state) result
  | ask state call next => ask (f state) call fun outcome ↦ (next outcome).view f

/-- The task, and then what follows from its result. -/
def andThen : Dialogue σ α → (σ → α → Dialogue σ β) → Dialogue σ β
  | done state result, k => k state result
  | ask state call next, k => ask state call fun outcome ↦ (next outcome).andThen k

/-- A task of a single call. -/
def single (call : Call) (read : Outcome → α) : Dialogue Unit α :=
  ask () call fun outcome ↦ done () (read outcome)

end Dialogue

end PinballBoard
