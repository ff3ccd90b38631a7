import BuildingRules.Term

/-!
# Namespaces and fixed vocabulary

A namespace turns local names into IRIs. The fixed IRIs are those of types, of lists and of the
composition of shapes.
-/

set_option autoImplicit false

namespace BuildingRules

structure Namespace where
  base : String
  deriving DecidableEq, Repr

namespace Namespace

def brick : Namespace := ⟨"https://brickschema.org/schema/Brick#"⟩

def iri (space : Namespace) (localName : String) : Iri := ⟨space.base ++ localName⟩

def contains (space : Namespace) (iri : Iri) : Bool :=
  space.base.toList.isPrefixOf iri.text.toList

def debug (space : Namespace) : String := "Namespace(<" ++ space.base ++ ">)"

end Namespace

namespace Vocabulary

def rdfType : Iri := ⟨"http://www.w3.org/1999/02/22-rdf-syntax-ns#type"⟩

def rdfFirst : Iri := ⟨"http://www.w3.org/1999/02/22-rdf-syntax-ns#first"⟩

def rdfRest : Iri := ⟨"http://www.w3.org/1999/02/22-rdf-syntax-ns#rest"⟩

def shProperty : Iri := ⟨"http://www.w3.org/ns/shacl#property"⟩

def shNode : Iri := ⟨"http://www.w3.org/ns/shacl#node"⟩

def shOr : Iri := ⟨"http://www.w3.org/ns/shacl#or"⟩

def shAnd : Iri := ⟨"http://www.w3.org/ns/shacl#and"⟩

def shXone : Iri := ⟨"http://www.w3.org/ns/shacl#xone"⟩

end Vocabulary

end BuildingRules
