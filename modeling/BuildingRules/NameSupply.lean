import Std.Data.ExtTreeSet

/-!
# Fresh names

A supply hands out names made of a base, a mark and a number. It never hands out a name that was
reserved or handed out before: it takes the least number, from its counter on, that gives a new
name. The search ends because only finitely many names are taken and different numbers give
different names.
-/

set_option autoImplicit false

namespace BuildingRules

/-- The mark, the next number to try, and the names that are taken. -/
structure NameSupply where
  mark : String
  next : Nat
  taken : Std.ExtTreeSet String compare

namespace NameSupply

def queryMark : String := "__G__"

def new (mark : String) : NameSupply := ⟨mark, 0, ∅⟩

def reserve (supply : NameSupply) (name : String) : NameSupply :=
  { supply with taken := supply.taken.insert name }

def candidate (supply : NameSupply) (base : String) (number : Nat) : String :=
  base ++ supply.mark ++ Nat.repr number

/-- The first number from `number` on, among the next `count`, whose name is not taken; the
number after them if all are. -/
def firstFree (supply : NameSupply) (base : String) : (count number : Nat) → Nat
  | 0, number => number
  | count + 1, number =>
    if supply.taken.contains (supply.candidate base number) then
      supply.firstFree base count (number + 1)
    else number

/-- A new name, and the supply that has handed it out. As many numbers are tried as there are
taken names; one more cannot be taken. -/
def fresh (supply : NameSupply) (base : String) : String × NameSupply :=
  let number := supply.firstFree base supply.taken.size supply.next
  let name := supply.candidate base number
  (name, { supply with next := number + 1, taken := supply.taken.insert name })

def afterLast (mark : List Char) : List Char → Option (List Char)
  | [] => if mark.isEmpty then some [] else none
  | character :: rest =>
    match afterLast mark rest with
    | some found => some found
    | none =>
      if mark.isPrefixOf (character :: rest) then some ((character :: rest).drop mark.length)
      else none

/-- Whether a name looks handed out by this supply: digits follow the last occurrence of its
mark. -/
def recognises (supply : NameSupply) (name : String) : Bool :=
  match afterLast supply.mark.toList name.toList with
  | some number => !number.isEmpty && number.all Char.isDigit
  | none => false

end NameSupply

end BuildingRules
