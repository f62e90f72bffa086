import SymbolGraph.Json.Value

/-! JSON values before it is settled what is written of them. A member that says what its absence would
say as well may be left out. -/
namespace SymbolGraph
namespace Json

inductive Draft
  /-- A value that is written as it is. -/
  | plain (v : Json)
  | array (items : List Draft)
  | object (members : List (String × Bool × Draft))
  deriving Inhabited

namespace Draft

/-- A member with its key, and whether it may be left out. -/
abbrev Member := String × Bool × Draft

section Values

variable {A : Type}

def text (s : String) : Draft := .plain (.text s)

def bool (b : Bool) : Draft := .plain (.bool b)

def nat (n : Nat) : Draft := .plain (.nat n)

def option (write : A → Draft) : Option A → Draft
  | none => .plain .null
  | some a => write a

def list (write : A → Draft) (l : List A) : Draft := .array (l.map write)

namespace Member

def required (name : String) (d : Draft) : Member := (name,false,d)

def defaulted [DecidableEq A] (name : String) (write : A → Draft) (standard value : A) : Member :=
  (name,value = standard,write value)

def missable (name : String) (write : A → Draft) (value : Option A) : Member :=
  (name,value.isNone,option write value)

def listed (name : String) (write : A → Draft) (l : List A) : Member := (name,l.isEmpty,list write l)

end Member

end Values

mutual
/-- The value with all of its members. -/
def toJson : Draft → Json
  | .plain v => v
  | .array ds => .array (itemsToJson ds)
  | .object ms => .object (membersToJson ms)
def itemsToJson : List Draft → List Json
  | [] => []
  | d :: ds => d.toJson :: itemsToJson ds
def membersToJson : List Member → List (String × Json)
  | [] => []
  | (k,_,d) :: ms => (k,d.toJson) :: membersToJson ms
end

end Draft
end Json
end SymbolGraph
