import BuildingRules.Identifier
import BuildingRules.NameSupply
import BuildingRules.Pattern.Fault
import BuildingRules.Query

/-!
# From patterns to queries

The clauses of a pattern say of a node, held by a variable called the hook, that the pattern finds
the target from it. Relations that do not lead to the target itself lead to a fresh variable.
-/

set_option autoImplicit false

namespace BuildingRules

namespace Pattern

/-- What stays the same throughout a pattern: where names live, and the variable to be found. -/
structure Aim where
  space : Namespace
  target : String
  deriving Repr

def freshBase : String := "node"

/-- What a relation leads to: the target if a bare class follows, otherwise a fresh variable. -/
def farEnd (aim : Aim) (names : NameSupply) (child : Pattern) : String × NameSupply :=
  if child.isLeaf then (aim.target, names) else names.fresh freshBase

/-- A bare class says that the target is of that class, and unless the hook is the target already,
that it is a point of the hook. -/
def leafClauses (aim : Aim) (hook : String) (className : Iri) : List Clause :=
  if hook == aim.target then [.hasType aim.target className]
  else
    [.edge hook (aim.space.iri Relation.hasPoint.name) .one aim.target,
      .hasType aim.target className]

def branchPath (path : String) (index : Nat) : String := Path.item (Path.key path "choice") index

mutual

def clauses (aim : Aim) (path hook : String) (names : NameSupply) :
    Pattern → Except Error (List Clause × NameSupply)
  | .leaf className => do
    let className ← Identifier.resolveClass aim.space path className
    .ok (leafClauses aim hook className, names)
  | .constraint className child => do
    let resolved ← Identifier.resolveClass aim.space path className
    let (rest, names) ← child.clauses aim (Path.key path className) hook names
    .ok (.hasType hook resolved :: rest, names)
  | .related relation quantifier child => do
    let (object, names) := farEnd aim names child
    let below := Path.key path (relation.name ++ quantifier.mark)
    let (rest, names) ← child.clauses aim below object names
    .ok (.edge hook (aim.space.iri relation.name) quantifier object :: rest, names)
  | .choice branches => do
    if branches.isEmpty then .error (Fault.choiceEmpty.error path)
    let (groups, names) ← groupsOfBranches aim path hook 0 names branches
    .ok ([.union groups], names)
  | .all parts => do
    if parts.isEmpty then .error (Fault.noParts.error path)
    clausesOfParts aim path hook names parts

def groupsOfBranches (aim : Aim) (path hook : String) (index : Nat) (names : NameSupply) :
    List Pattern → Except Error (List (List Clause) × NameSupply)
  | [] => .ok ([], names)
  | branch :: rest => do
    let (group, names) ← branch.clauses aim (branchPath path index) hook names
    let (groups, names) ← groupsOfBranches aim path hook (index + 1) names rest
    .ok (group :: groups, names)

def clausesOfParts (aim : Aim) (path hook : String) (names : NameSupply) :
    List Pattern → Except Error (List Clause × NameSupply)
  | [] => .ok ([], names)
  | part :: rest => do
    let (first, names) ← part.clauses aim path hook names
    let (others, names) ← clausesOfParts aim path hook names rest
    .ok (first ++ others, names)

end

end Pattern

namespace Query

/-- The names that compiled queries draw on: all but the two that are asked for. -/
def names (target : String) : NameSupply :=
  ((NameSupply.new NameSupply.queryMark).reserve root).reserve target

def compile (space : Namespace) (className target : String) (pattern : Pattern) :
    Except Error Query := do
  if target == root then .error (.of (.reservedVariable target))
  Identifier.checkVariable "definitions" target
  let className ← Identifier.resolveClass space "applicability" className
  let (clauses, _) ←
    pattern.clauses ⟨space, target⟩ (Path.definition target) root (names target)
  .ok ⟨className, target, .hasType root className :: clauses⟩

end Query

end BuildingRules
