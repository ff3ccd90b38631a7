import BuildingRules.Rule

/-!
# Building rules and rule books step by step

A rule is built by naming classes and defining variables, a rule book by inserting rules and by
putting rules in the place of others, in any order. An insertion that is refused leaves the book as
it was.
-/

set_option autoImplicit false

namespace BuildingRules

namespace Rule

inductive Addition
  | appliesTo (className : String)
  | define (variableName : String) (pattern : Pattern)
  deriving Repr, BEq

namespace Addition

def className? : Addition → Option String
  | .appliesTo className => some className
  | .define .. => none

def definition? : Addition → Option Definition
  | .appliesTo _ => none
  | .define variableName pattern => some ⟨variableName, pattern⟩

end Addition

def add (rule : Rule) : Addition → Rule
  | .appliesTo className => rule.appliesTo className
  | .define variableName pattern => rule.define variableName pattern

/-- A name for a rule, and what is added to the rule one after the other. -/
structure Recipe where
  name : String
  additions : List Addition
  deriving Repr, BEq

namespace Recipe

def rule (recipe : Recipe) : Rule := recipe.additions.foldl add (new recipe.name)

/-- The classes in the order in which they are named, with repetitions. -/
def classNames (recipe : Recipe) : List String := recipe.additions.filterMap Addition.className?

/-- The definitions in the order in which they are made, with those of one variable. -/
def definitions (recipe : Recipe) : List Definition :=
  recipe.additions.filterMap Addition.definition?

end Recipe

end Rule

namespace RuleBook

inductive Change
  | insert (recipe : Rule.Recipe)
  | withRule (recipe : Rule.Recipe)
  deriving Repr, BEq

namespace Change

def recipe : Change → Rule.Recipe
  | .insert recipe => recipe
  | .withRule recipe => recipe

/-- What a change of a book is answered, and the book after it. -/
def perform (book : RuleBook) : Change → Except Error Unit × RuleBook
  | .insert recipe =>
    match book.insert recipe.rule with
    | .ok larger => (.ok (), larger)
    | .error error => (.error error, book)
  | .withRule recipe => (.ok (), book.withRule recipe.rule)

/-- The answers to changes that are made one after the other, each with its rule, and the book that
they lead to. -/
def performAll (book : RuleBook) :
    List Change → List (Rule × Except Error Unit) × RuleBook
  | [] => ([], book)
  | change :: rest =>
    let (answer, next) := change.perform book
    let (answers, last) := performAll next rest
    ((change.recipe.rule, answer) :: answers, last)

end Change

/-- The rules whose changes were answered without an error. -/
def acceptedIn (answers : List (Rule × Except Error Unit)) : List Rule :=
  answers.filterMap fun answered => answered.2.toOption.map fun _ => answered.1

/-- The book that changes build up from nothing. -/
def built (changes : List Change) : RuleBook := (Change.performAll empty changes).2

/-- The rules that were accepted in the course of it. -/
def accepted (changes : List Change) : List Rule :=
  acceptedIn (Change.performAll empty changes).1

end RuleBook

end BuildingRules
