import Flux.Lib.Scan

/-!
# First-in first-out queues

The specification of a queue over any type: its content in order, oldest first.
Elements are appended at the back and taken, or only dropped, from the front, by number or
through the first one with a given property.
-/

namespace Flux.Lib.Fifo

variable {α : Type*}

inductive Op (α : Type*)
  | push (xs : List α)
  | pushSelf
  | pop (n : Nat)
  | drop (n : Nat)
  | popThrough (p : α → Bool)
  | clear

def step (q : List α) : Op α → List α × List α
  | .push xs => (q ++ xs, [])
  | .pushSelf => (q ++ q, [])
  | .pop n => (q.drop n, q.take n)
  | .drop n => (q.drop n, [])
  | .popThrough p =>
      match splitThrough p q with
      | none => (q, [])
      | some (l, r) => (r, l)
  | .clear => ([], [])

end Flux.Lib.Fifo
