import BuildingRules.Graph
import BuildingRules.Settings
import Std.Data.ExtTreeMap

/-!
# Finding the authoring shape

From a failed shape the walk goes outwards, each time to the least of the enclosing shapes, until
no shape encloses the one it is at. It is cut off after a number of steps or when it comes back to
a shape it has met. A walk that succeeds is remembered, with every shape it has met, and shortens
later walks.
-/

set_option autoImplicit false

namespace BuildingRules

def least? (terms : List Term) : Option Term := (Std.ExtTreeSet.ofList terms compare).min?

abbrev Origins := Std.ExtTreeMap Term Term compare

inductive Ending
  | known (origin : Term)
  | outermost
  | cutOff
  deriving DecidableEq, Repr

/-- A walk: where it ends and how, the shapes it has met before, the last one first, and the shapes
of which it was asked what encloses them, in order. -/
structure Walk where
  last : Term
  before : List Term
  asked : List Term
  ending : Ending
  deriving DecidableEq, Repr

namespace Walk

def steps (walk : Walk) : Nat := walk.before.length

def met (walk : Walk) : List Term := walk.last :: walk.before

/-- What encloses a shape, and what was asked until now. -/
def ask (enclosing : Term → List Term) (shape : Term) (asked : List Term) : List Term × List Term :=
  (enclosing shape, asked ++ [shape])

/-- The walk on from `current`, after the shapes of `before` and with `remaining` steps to go. -/
def run (enclosing : Term → List Term) (origins : Origins) :
    (remaining : Nat) → (current : Term) → (before asked : List Term) → Walk
  | remaining, current, before, asked =>
    match origins[current]? with
    | some origin => ⟨current, before, asked, .known origin⟩
    | none =>
      let (around, asked) := ask enclosing current asked
      match least? around with
      | none => ⟨current, before, asked, .outermost⟩
      | some next =>
        match remaining with
        | 0 => ⟨current, before, asked, .cutOff⟩
        | remaining + 1 =>
          if (current :: before).contains next then ⟨current, before, asked, .cutOff⟩
          else run enclosing origins remaining next (current :: before) asked

end Walk

/-- A shape without an authoring shape: where the walk was cut off, and the error that says so. -/
structure Unresolved where
  lastKnown : Term
  error : Error
  deriving DecidableEq, Repr

def Unresolved.ofWalk (walk : Walk) : Unresolved :=
  ⟨walk.last, .of (.resolutionLoop walk.last.display walk.steps)⟩

/-- What is remembered of earlier walks: the origins they found, how often one was known and how
often not, and the shapes of which it was asked what encloses them. -/
structure Resolver where
  maxDepth : Nat
  origins : Origins
  hits : Nat
  misses : Nat
  asked : List Term

namespace Resolver

def new (maxDepth : Nat) : Resolver := ⟨maxDepth, ∅, 0, 0, []⟩

/-- How often it was asked what encloses a shape. -/
def lookups (resolver : Resolver) : Nat := resolver.asked.length

def isKnown (resolver : Resolver) (shape : Term) : Bool := resolver.origins.contains shape

def knownCount (resolver : Resolver) : Nat := resolver.origins.size

def remember (resolver : Resolver) (shapes : List Term) (origin : Term) : Resolver :=
  { resolver with
    origins := shapes.foldl (fun origins shape => origins.insert shape origin) resolver.origins }

def resolve (enclosing : Term → List Term) (resolver : Resolver) (shape : Term) :
    Except Unresolved Term × Resolver :=
  match resolver.origins[shape]? with
  | some origin => (.ok origin, { resolver with hits := resolver.hits + 1 })
  | none =>
    let walk := Walk.run enclosing resolver.origins resolver.maxDepth shape [] []
    let walked :=
      { resolver with misses := resolver.misses + 1, asked := resolver.asked ++ walk.asked }
    match walk.ending with
    | .known origin => (.ok origin, walked.remember walk.met origin)
    | .outermost => (.ok walk.last, walked.remember walk.met walk.last)
    | .cutOff => (.error (.ofWalk walk), walked)

def debug (resolver : Resolver) : String :=
  "ResolutionSession \x7b config: ResolverConfig \x7b max_depth: " ++ Nat.repr resolver.maxDepth
    ++ " \x7d, cached: " ++ Nat.repr resolver.knownCount ++ ", hits: " ++ Nat.repr resolver.hits
    ++ ", misses: " ++ Nat.repr resolver.misses ++ ", .. \x7d"

end Resolver

end BuildingRules
