import Criteria.Value.Written

/-!
# Stacks

A stack gives back first what was put on it last. Taking from an empty stack, or looking at its top,
is a fault.
-/

namespace Criteria

/-- A stack; its items are listed from the top down. -/
structure Stack (α : Type) where
  items : List α

/-- What cannot be done with an empty stack. -/
inductive StackFault
  | pop
  | peek
  deriving DecidableEq

/-- The words for what cannot be done with an empty stack. -/
def StackFault.message : StackFault → String
  | .pop => "pop from empty stack"
  | .peek => "peek at empty stack"

namespace Stack

variable {α : Type}

/-- The stack without items. -/
def empty : Stack α := ⟨[]⟩

/-- Put an item on top. -/
def push (s : Stack α) (item : α) : Stack α := ⟨item :: s.items⟩

/-- Take the item on top. -/
def pop (s : Stack α) : Except StackFault (α × Stack α) :=
  match s.items with
  | [] => .error .pop
  | item :: rest => .ok (item, ⟨rest⟩)

/-- The item on top. -/
def peek (s : Stack α) : Except StackFault α :=
  match s.items with
  | [] => .error .peek
  | item :: _ => .ok item

/-- Whether there are no items. -/
def isEmpty (s : Stack α) : Bool := s.items.isEmpty

/-- The number of items. -/
def size (s : Stack α) : Nat := s.items.length

@[simp] theorem pop_push (s : Stack α) (item : α) : (s.push item).pop = .ok (item, s) := rfl

@[simp] theorem peek_push (s : Stack α) (item : α) : (s.push item).peek = .ok item := rfl

@[simp] theorem size_push (s : Stack α) (item : α) : (s.push item).size = s.size + 1 := rfl

/-- The written form of a stack of values, from the bottom up, if all of them have one. -/
def written? (s : Stack Value) : Option String :=
  (Value.writtenItems? .standard s.items.reverse).map fun parts =>
    "Stack(" ++ enclosed "[" "]" parts ++ ")"

end Stack

end Criteria
