import PatternGrammar.Json.Double
import PatternGrammar.Text.Dictionary

/-!
# JSON values

Objects list their members in the bytewise order of the keys, each key once, so two values are equal
exactly when they are the same tree. Whole numbers are kept apart from the others.
-/

namespace PatternGrammar

inductive Json where
  | null
  | bool (value : Bool)
  | int (value : Int)
  | double (value : Double)
  | string (text : Text)
  | array (items : List Json)
  | object (members : List (Text × Json))
  deriving Repr

namespace Json

/-- The object of these members; of members with one key the last wins. -/
def ofMembers (members : List (Text × Json)) : Json := .object (Dictionary.ofList members)

/-- The member of an object under a key. -/
def get? (key : Text) : Json → Option Json
  | .object members => Dictionary.get? key members
  | _ => none

mutual
/-- Equality of trees. -/
def beq : Json → Json → Bool
  | .null, .null => true
  | .bool a, .bool b => a == b
  | .int a, .int b => a == b
  | .double a, .double b => a == b
  | .string a, .string b => a == b
  | .array a, .array b => beqItems a b
  | .object a, .object b => beqMembers a b
  | _, _ => false

def beqItems : List Json → List Json → Bool
  | [], [] => true
  | a :: as, b :: bs => beq a b && beqItems as bs
  | _, _ => false

def beqMembers : List (Text × Json) → List (Text × Json) → Bool
  | [], [] => true
  | (k, a) :: as, (l, b) :: bs => k == l && beq a b && beqMembers as bs
  | _, _ => false
end

instance : BEq Json := ⟨beq⟩

end Json

end PatternGrammar
