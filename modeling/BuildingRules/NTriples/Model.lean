import BuildingRules.NTriples.Line

/-!
# Models

A model is a text with at most one triple a line. It is read line by line into a graph; the first
line that is faulty ends the reading and is the one that is blamed, counted from one.
-/

set_option autoImplicit false

namespace BuildingRules.NTriples

/-- One more character at the start of the first line; a line break starts a line of its own. -/
def addToLines (character : Char) (lines : List (List Char)) : List (List Char) :=
  if character == '\n' then [] :: lines
  else
    match lines with
    | [] => [[character]]
    | line :: rest => (character :: line) :: rest

def lines (text : List Char) : List (List Char) := text.foldr addToLines [[]]

def addLines (graph : Graph) (number : Nat) : List (List Char) → Except Error Graph
  | [] => .ok graph
  | line :: rest =>
    match addLine graph line with
    | .ok larger => addLines larger (number + 1) rest
    | .error fault => .error (.of (.graphSyntax number fault.message))

def model (text : String) : Except Error Graph := addLines .empty 1 (lines text.toList)

end BuildingRules.NTriples
