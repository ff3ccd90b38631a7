import BuildingRules.Pattern.Places
import BuildingRules.Query.Compile

/-!
# The calls of compiling

Compiling with a record of its calls: whenever a node is taken up, the node is written down with the
path that its errors would tell.
-/

set_option autoImplicit false

namespace BuildingRules

namespace Pattern

/-- The nodes taken up so far, and what has come out. -/
structure Recorded (Result : Type) where
  calls : List Spot
  outcome : Except Error Result

namespace Recorded

variable {Value Result : Type}

/-- A step that takes up no node. -/
def step (outcome : Except Error Result) : Recorded Result := ⟨[], outcome⟩

/-- A node is taken up, and then looked at by itself. -/
def enter (spot : Spot) (outcome : Except Error Result) : Recorded Result := ⟨[spot], outcome⟩

/-- After an error nothing more is taken up. -/
def andThen (first : Recorded Value) (next : Value → Recorded Result) : Recorded Result :=
  match first.outcome with
  | .ok value => ⟨first.calls ++ (next value).calls, (next value).outcome⟩
  | .error error => ⟨first.calls, .error error⟩

instance : Monad Recorded where
  pure result := step (.ok result)
  bind := andThen

end Recorded

mutual

def recordedClauses (aim : Aim) (path hook : String) (names : NameSupply) :
    Pattern → Recorded (List Clause × NameSupply)
  | .leaf className => do
    let resolved ← .enter ⟨path, .leaf className⟩
      (Identifier.resolveClass aim.space path className)
    pure (leafClauses aim hook resolved, names)
  | .constraint className child => do
    let resolved ← .enter ⟨path, .constraint className child⟩
      (Identifier.resolveClass aim.space path className)
    let (rest, names) ← child.recordedClauses aim (Path.key path className) hook names
    pure (.hasType hook resolved :: rest, names)
  | .related relation quantifier child => do
    let (object, names) ← .enter ⟨path, .related relation quantifier child⟩
      (.ok (farEnd aim names child))
    let below := Path.key path (relation.name ++ quantifier.mark)
    let (rest, names) ← child.recordedClauses aim below object names
    pure (.edge hook (aim.space.iri relation.name) quantifier object :: rest, names)
  | .choice branches => do
    Recorded.enter ⟨path, .choice branches⟩
      (if branches.isEmpty then .error (Fault.choiceEmpty.error path) else .ok ())
    let (groups, names) ← recordedBranches aim path hook 0 names branches
    pure ([.union groups], names)
  | .all parts => do
    Recorded.enter ⟨path, .all parts⟩
      (if parts.isEmpty then .error (Fault.noParts.error path) else .ok ())
    recordedParts aim path hook names parts

def recordedBranches (aim : Aim) (path hook : String) (index : Nat) (names : NameSupply) :
    List Pattern → Recorded (List (List Clause) × NameSupply)
  | [] => pure ([], names)
  | branch :: rest => do
    let (group, names) ← branch.recordedClauses aim (branchPath path index) hook names
    let (groups, names) ← recordedBranches aim path hook (index + 1) names rest
    pure (group :: groups, names)

def recordedParts (aim : Aim) (path hook : String) (names : NameSupply) :
    List Pattern → Recorded (List Clause × NameSupply)
  | [] => pure ([], names)
  | part :: rest => do
    let (first, names) ← part.recordedClauses aim path hook names
    let (others, names) ← recordedParts aim path hook names rest
    pure (first ++ others, names)

end

end Pattern

namespace Query

def recordedCompile (space : Namespace) (className target : String) (pattern : Pattern) :
    Pattern.Recorded Query := do
  Pattern.Recorded.step (if target == root then .error (.of (.reservedVariable target)) else .ok ())
  Pattern.Recorded.step (Identifier.checkVariable "definitions" target)
  let className ← .step (Identifier.resolveClass space "applicability" className)
  let (clauses, _) ←
    pattern.recordedClauses ⟨space, target⟩ (Path.definition target) root (names target)
  pure ⟨className, target, .hasType root className :: clauses⟩

end Query

end BuildingRules
