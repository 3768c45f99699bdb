import SpecTree.Tree.Error

/-!
# Edits

An operation that changes a part of a tree. It may fail, and then the part is as the
operation has left it, which need not be as it was.
-/

namespace SpecTree

/-- An operation on a part of type `σ` that answers with an `α` or fails. -/
abbrev Edit (σ α : Type) := EStateM TreeError σ α

namespace Edit

variable {σ τ α : Type}

/-- Look at the part, and fail if the look does. -/
def inspect (look : σ → Except TreeError α) : Edit σ α := fun s =>
  match look s with
  | .ok a => .ok a s
  | .error e => .error e s

/-- Replace the part, or leave it as it is if that fails. -/
def replace (change : σ → Except TreeError σ) : Edit σ Unit := fun s =>
  match change s with
  | .ok s' => .ok () s'
  | .error e => .error e s

/-- Edit a smaller part, and put back what becomes of it, also if the edit fails. -/
def zoom (view : σ → Except TreeError τ) (store : τ → σ → σ) (act : Edit τ α) : Edit σ α :=
  fun s =>
    match view s with
    | .error e => .error e s
    | .ok t =>
      match act t with
      | .ok a t' => .ok a (store t' s)
      | .error e t' => .error e (store t' s)

/-- The part after an edit, whether it failed or not. -/
def stateAfter (act : Edit σ α) (s : σ) : σ :=
  match act s with
  | .ok _ s' => s'
  | .error _ s' => s'

/-- The answer of an edit. -/
def answer (act : Edit σ α) (s : σ) : Except TreeError α :=
  match act s with
  | .ok a _ => .ok a
  | .error e _ => .error e

end Edit

end SpecTree
