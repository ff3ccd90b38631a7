import BuildingRules.NameSupply

/-!
# Using a supply of names

A supply is used by reserving names and by asking for new ones, in any order. What came of each use
is written down. Asking can also be told attempt by attempt: each tries the next number and uses it
up, whether or not its name is taken.
-/

set_option autoImplicit false

namespace BuildingRules.NameSupply

inductive Use
  | reserve (name : String)
  | fresh (base : String)
  deriving DecidableEq, Repr

/-- What came of a use. -/
inductive Event
  | reserved (name : String)
  | handedOut (name : String)
  deriving DecidableEq, Repr

def Event.name : Event → String
  | .reserved name => name
  | .handedOut name => name

def Event.handedOut? : Event → Option String
  | .reserved _ => none
  | .handedOut name => some name

def Use.perform (supply : NameSupply) : Use → Event × NameSupply
  | .reserve name => (.reserved name, supply.reserve name)
  | .fresh base => (.handedOut (supply.fresh base).1, (supply.fresh base).2)

/-- What came of uses that are made one after the other, and the supply that they lead to. -/
def performAll (supply : NameSupply) : List Use → List Event × NameSupply
  | [] => ([], supply)
  | use :: rest =>
    let (event, next) := use.perform supply
    let (events, last) := performAll next rest
    (event :: events, last)

/-- What came of the uses of a new supply. -/
def history (mark : String) (uses : List Use) : List Event := (performAll (new mark) uses).1

def handedOut (mark : String) (uses : List Use) : List String :=
  (history mark uses).filterMap Event.handedOut?

/-- A supply that was used. -/
def after (mark : String) (uses : List Use) : NameSupply := (performAll (new mark) uses).2

/-! ## Attempts -/

/-- The name of the next number, if it is new. The number is used up, and the name is taken. -/
def attempt (supply : NameSupply) (base : String) : Option String × NameSupply :=
  let name := supply.candidate base supply.next
  let later := { supply with next := supply.next + 1, taken := supply.taken.insert name }
  if supply.taken.contains name then (none, later) else (some name, later)

/-- A number of attempts is made, of which the last one gives a name. -/
inductive Attempts (base : String) : NameSupply → Nat → String × NameSupply → Prop
  | last {supply later : NameSupply} {name : String} :
      supply.attempt base = (some name, later) → Attempts base supply 1 (name, later)
  | again {supply later : NameSupply} {count : Nat} {outcome : String × NameSupply} :
      supply.attempt base = (none, later) → Attempts base later count outcome →
      Attempts base supply (count + 1) outcome

end BuildingRules.NameSupply
