import SealedFields.Circuit.Basic

/-!
The order in which a circuit's gates run. Every gate waits for the gates it reads from. Of those that wait
for none, the first in the list is next, so a list that is in order already keeps its order. Wiring that
no order satisfies is refused.
-/

namespace SealedFields

/-- Indices that are put in order, each needing some others: on how many each one still waits, and which
ones wait for none and are not taken yet. -/
structure Countdown where
  waiting : List Nat
  ready : List Nat

namespace Countdown

/-- At first each of the indices below `count` waits for all that it needs, a repeated need being one. -/
def start (needs : Nat → List Nat) (count : Nat) : Countdown :=
  let waiting := (List.range count).map fun i => (needs i).eraseDups.length
  { waiting, ready := (List.range count).filter fun i => waiting.getD i 0 = 0 }

/-- Index `i` waits for one less, and is ready with the last one. -/
def release (q : Countdown) (i : Nat) : Countdown :=
  let left := q.waiting.getD i 0 - 1
  { waiting := q.waiting.set i left, ready := if left = 0 then i :: q.ready else q.ready }

def dependents (needs : Nat → List Nat) (count i : Nat) : List Nat :=
  (List.range count).filter fun j => (needs j).contains i

/-- Index `i` is taken, and whatever needs it waits for one less. -/
def take (needs : Nat → List Nat) (count : Nat) (q : Countdown) (i : Nat) : Countdown :=
  (dependents needs count i).foldl release { q with ready := q.ready.erase i }

/-- The indices that wait, in ascending order. -/
def stuck (q : Countdown) : List Nat :=
  (List.range q.waiting.length).filter fun i => 0 < q.waiting.getD i 0

/-- Takes the least ready index as long as there is one. Answers the order taken, and the indices that
still wait in the end. -/
def drain (needs : Nat → List Nat) (count : Nat) : (steps : Nat) → Countdown → List Nat × List Nat
  | 0, q => ([], q.stuck)
  | steps + 1, q =>
    match q.ready.min? with
    | none => ([], q.stuck)
    | some i =>
      let (order, stuck) := drain needs count steps (q.take needs count i)
      (i :: order, stuck)

end Countdown

namespace Circuit

/-- The output of the first gate that produces a wire which is bound already. -/
def rebound? (bound : List Text) : List Gate → Option Text
  | [] => none
  | g :: gates => if bound.contains g.output then some g.output else rebound? (g.output :: bound) gates

def unboundInputs (c : Circuit) : List Text :=
  ((c.gates.flatMap Gate.inputs).filter (!c.binds ·)).eraseDups

def unboundOutputs (c : Circuit) : List Text := c.outputs.filter (!c.binds ·)

def order (c : Circuit) : Except FieldError (List Nat) :=
  match rebound? c.inputs c.gates with
  | some wire => .error (.circuitDependency "wire is produced more than once" [wire])
  | none =>
    if !c.unboundInputs.isEmpty then
      .error (.circuitDependency "gate input references an unbound wire" c.unboundInputs)
    else if !c.unboundOutputs.isEmpty then
      .error (.circuitDependency "circuit output is never bound" c.unboundOutputs)
    else
      let count := c.gates.length
      let (order, stuck) := Countdown.drain c.sources count count (Countdown.start c.sources count)
      if order.length = count then .ok order
      else .error (.circuitDependency "circuit wiring contains a cycle"
        (stuck.filterMap fun i => (c.gates[i]?).map Gate.output))

end Circuit

end SealedFields
