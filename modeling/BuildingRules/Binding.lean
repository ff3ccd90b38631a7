import BuildingRules.Query.Solutions

/-!
# Bindings

A binding holds what has been found for one piece of equipment: values by variable. The rows of a
store are merged into it one after the other, and what comes later wins. Two whole bindings are
merged by uniting the values of the later one with those of the earlier one. Which value stays where
both have one is up to the union; with `Row.unite`, which is used, it is that of the larger map.
-/

set_option autoImplicit false

namespace BuildingRules

/-- Both maps together, with the values of the first one where both have one. -/
def Row.over (first second : Row) : Row := second ∪ first

@[simp]
theorem Row.getElem?_over (first second : Row) (name : String) :
    (first.over second)[name]? = first[name]?.or second[name]? :=
  Std.ExtTreeMap.getElem?_union

/-- Both maps together. Where both have a value, that of the larger map stays, and of two maps of
one size that of the first. -/
def Row.unite (first second : Row) : Row :=
  if second.size ≤ first.size then first.over second else second.over first

@[ext]
structure Binding where
  values : Row

namespace Binding

def empty : Binding := ⟨∅⟩

def get? (binding : Binding) (name : String) : Option Term := binding.values[name]?

def root? (binding : Binding) : Option Term := binding.get? Query.root

def set (binding : Binding) (name : String) (value : Term) : Binding :=
  ⟨binding.values.insert name value⟩

theorem ext_get? {left right : Binding} (same : ∀ name, left.get? name = right.get? name) :
    left = right :=
  Binding.ext (Std.ExtTreeMap.ext_getElem? same)

@[simp]
theorem get?_set (binding : Binding) (name other : String) (value : Term) :
    (binding.set name value).get? other = if name = other then some value else binding.get? other := by
  simp [get?, set, Std.ExtTreeMap.getElem?_insert]

def contains (binding : Binding) (name : String) : Bool := binding.values.contains name

def size (binding : Binding) : Nat := binding.values.size

def isEmpty (binding : Binding) : Bool := binding.values.isEmpty

def toList (binding : Binding) : List (String × Term) := binding.values.toList

def mergeRow (binding : Binding) (row : Row) : Binding :=
  row.toList.foldl (fun merged entry => merged.set entry.1 entry.2) binding

def ofRow (row : Row) : Binding := empty.mergeRow row

/-- Both bindings together, their values united with those of the later one first. -/
def mergeBy (unite : Row → Row → Row) (earlier later : Binding) : Binding :=
  ⟨unite later.values earlier.values⟩

def merge (earlier later : Binding) : Binding := earlier.mergeBy Row.unite later

theorem get?_merge (earlier later : Binding) (name : String) :
    (earlier.merge later).get? name =
      if earlier.size ≤ later.size then (later.get? name).or (earlier.get? name)
      else (earlier.get? name).or (later.get? name) := by
  unfold merge mergeBy Row.unite size
  split <;> simp [get?]

def ofList (entries : List (String × Term)) : Binding :=
  entries.foldl (fun binding entry => binding.set entry.1 entry.2) empty

def display (binding : Binding) : String :=
  "\x7b" ++ ", ".intercalate
    (binding.toList.map fun entry => "?" ++ entry.1 ++ ": " ++ entry.2.display) ++ "\x7d"

end Binding

end BuildingRules
