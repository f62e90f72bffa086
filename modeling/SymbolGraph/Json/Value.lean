import SymbolGraph.Json.Doc

/-! JSON values as they are written, the tokens that spell them, and their tree.
Members are written in the order given; a key may be written twice. -/
namespace SymbolGraph

inductive Json
  | null
  | bool (b : Bool)
  | int (n : Int)
  | text (s : String)
  | array (items : List Json)
  | object (members : List (String × Json))
  deriving Inhabited, Repr

namespace Json

def nat (n : Nat) : Json := .int n

def option {A : Type} (write : A → Json) : Option A → Json
  | none => .null
  | some a => write a

def list {A : Type} (write : A → Json) (l : List A) : Json := .array (l.map write)

def Number.ofInt (n : Int) : Number := ⟨n < 0,Nat.toDigits 10 n.natAbs,none,none⟩

mutual
def toTokens : Json → List Token
  | .null => [.null]
  | .bool b => [.bool b]
  | .int n => [.number (.ofInt n)]
  | .text s => [.text s]
  | .array items => .openArray :: itemTokens items ++ [.closeArray]
  | .object members => .openObject :: memberTokens members ++ [.closeObject]
def itemTokens : List Json → List Token
  | [] => []
  | [v] => v.toTokens
  | v :: vs => v.toTokens ++ .comma :: itemTokens vs
def memberTokens : List (String × Json) → List Token
  | [] => []
  | [(k,v)] => .text k :: .colon :: v.toTokens
  | (k,v) :: ms => .text k :: .colon :: v.toTokens ++ .comma :: memberTokens ms
end

mutual
/-- The tree that is read back from the written value. -/
def toDoc : Json → Doc
  | .null => .null
  | .bool b => .bool b
  | .int n => .number (.ofInt n)
  | .text s => .text s
  | .array items => .array (itemDocs items) .closed
  | .object members => .object (memberDocs members) .closed
def itemDocs : List Json → List Doc
  | [] => []
  | v :: vs => v.toDoc :: itemDocs vs
def memberDocs : List (String × Json) → List (Option String × Doc)
  | [] => []
  | (k,v) :: ms => (some k,v.toDoc) :: memberDocs ms
end

/-- A number as it is written. -/
def Number.spell (n : Number) : String :=
  String.ofList ((if n.negative then ['-'] else []) ++ n.whole
    ++ (match n.fraction with | none => [] | some digits => '.' :: digits)
    ++ (match n.exponent with | none => [] | some e => 'e' :: (toString e).toList))

def Token.spell : Token → String
  | .openArray => "["
  | .closeArray => "]"
  | .openObject => "\x7b"
  | .closeObject => "\x7d"
  | .colon => ":"
  | .comma => ","
  | .null => "null"
  | .bool b => if b then "true" else "false"
  | .number n => n.spell
  | .text s => quote (s.getD "")
  | .broken _ => ""

def render (v : Json) : String := String.join (v.toTokens.map Token.spell)

mutual
/-- One item or member a line, two blanks deeper than the brackets around it. -/
def prettyAt (indent : String) : Json → String
  | .array [] => "[]"
  | .object [] => "\x7b\x7d"
  | .array (v :: vs) => "[\n" ++ prettyItems (indent ++ "  ") (v :: vs) ++ "\n" ++ indent ++ "]"
  | .object (m :: ms) => "\x7b\n" ++ prettyMembers (indent ++ "  ") (m :: ms) ++ "\n" ++ indent ++ "\x7d"
  | .null => "null"
  | .bool b => if b then "true" else "false"
  | .int n => (Number.ofInt n).spell
  | .text s => quote s
def prettyItems (indent : String) : List Json → String
  | [] => ""
  | [v] => indent ++ prettyAt indent v
  | v :: vs => indent ++ prettyAt indent v ++ ",\n" ++ prettyItems indent vs
def prettyMembers (indent : String) : List (String × Json) → String
  | [] => ""
  | [(k,v)] => indent ++ quote k ++ ": " ++ prettyAt indent v
  | (k,v) :: ms => indent ++ quote k ++ ": " ++ prettyAt indent v ++ ",\n" ++ prettyMembers indent ms
end

def pretty (v : Json) : String := prettyAt "" v

end Json
end SymbolGraph
