import PlanArchive.Keyed
import PlanArchive.Naming.Known

/-!
# Values

What is written to and read from documents and logs: nothing, a text, an object with named fields
and unnamed entries, or a plan. A plan is an ordered tree of elements.
-/

namespace PlanArchive

mutual

inductive Value
  | null
  | text (text : String)
  | object (typeId : String) (fields : List (String × Value)) (entries : List Value)
  | plan (branches : List Branch)

/-- An element of a plan and the plan below it. -/
inductive Branch
  | mk (element : Value) (children : List Branch)

end

abbrev Plan := List Branch

namespace Value

/-- The type that chooses tag and coder; null has none. -/
def typeId? : Value → Option String
  | .null => none
  | .text _ => some Naming.textType
  | .object typeId _ _ => some typeId
  | .plan _ => some Naming.treeType

def text? : Value → Option String
  | .text s => some s
  | _ => none

def isNull : Value → Bool
  | .null => true
  | _ => false

def isObject : Value → Bool
  | .object .. => true
  | _ => false

def isPlan : Value → Bool
  | .plan _ => true
  | _ => false

/-- The text in a field, if the field is there and holds one. -/
def fieldText? (fields : List (String × Value)) (name : String) : Option String :=
  (Keyed.find? name fields).bind text?

end Value

namespace Branch

def element : Branch → Value
  | .mk element _ => element

def children : Branch → Plan
  | .mk _ children => children

end Branch

mutual

/-- The number of elements of a plan, at every depth. -/
def Plan.count : Plan → Nat
  | [] => 0
  | b :: rest => Branch.count b + Plan.count rest

def Branch.count : Branch → Nat
  | .mk _ children => 1 + Plan.count children

end

mutual

def Value.same : Value → Value → Bool
  | .null, .null => true
  | .text s, .text t => s == t
  | .object a fs es, .object b gs ds => a == b && sameFields fs gs && sameValues es ds
  | .plan p, .plan q => samePlans p q
  | _, _ => false

def Value.sameFields : List (String × Value) → List (String × Value) → Bool
  | [], [] => true
  | (n, v) :: fs, (m, w) :: gs => n == m && v.same w && sameFields fs gs
  | _, _ => false

def Value.sameValues : List Value → List Value → Bool
  | [], [] => true
  | v :: vs, w :: ws => v.same w && sameValues vs ws
  | _, _ => false

def Value.samePlans : List Branch → List Branch → Bool
  | [], [] => true
  | .mk v below :: p, .mk w under :: q => v.same w && samePlans below under && samePlans p q
  | _, _ => false

end

instance : BEq Value := ⟨Value.same⟩

end PlanArchive
