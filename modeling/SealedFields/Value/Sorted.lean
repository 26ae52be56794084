import SealedFields.Value.Basic

/-!
Values with their dictionaries in key order, so that equal records have equal texts.
-/

namespace SealedFields.Value

def sortEntries (es : Entries) : Entries := es.mergeSort fun a b => !Text.precedes b.1 a.1

mutual

def sorted : Value → Value
  | .list items => .list (sortedItems items)
  | .dict entries => .dict (sortEntries (sortedEntries entries))
  | v => v

def sortedItems : List Value → List Value
  | [] => []
  | v :: vs => sorted v :: sortedItems vs

def sortedEntries : List (Text × Value) → List (Text × Value)
  | [] => []
  | (k, v) :: es => (k, sorted v) :: sortedEntries es

end

end SealedFields.Value
