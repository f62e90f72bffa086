import SymbolGraph.Json.Decode
import SymbolGraph.Json.Draft

/-! The closed sets of words that describe nodes: kinds, modifiers and variances. -/
namespace SymbolGraph

open Json

/-- The table by which the words of an enumeration are read. -/
def wordTable {A : Type} (all : List A) (word : A → String) : List (String × A) :=
  all.map fun a => (word a,a)

inductive NodeKind
  | file | classLike | function | property | typeAlias | typeParameter | valueParameter
  | typeReference | annotationEntry
  deriving DecidableEq, Repr

namespace NodeKind

def all : List NodeKind :=
  [.file,.classLike,.function,.property,.typeAlias,.typeParameter,.valueParameter,.typeReference,
    .annotationEntry]

def word : NodeKind → String
  | .file => "file"
  | .classLike => "class"
  | .function => "function"
  | .property => "property"
  | .typeAlias => "type_alias"
  | .typeParameter => "type_parameter"
  | .valueParameter => "value_parameter"
  | .typeReference => "type_reference"
  | .annotationEntry => "annotation"

/-- The name of the kind where it labels a view of a symbol. -/
def label : NodeKind → String
  | .file => "File"
  | .classLike => "Class"
  | .function => "Function"
  | .property => "Property"
  | .typeAlias => "TypeAlias"
  | .typeParameter => "TypeParameter"
  | .valueParameter => "ValueParameter"
  | .typeReference => "TypeReference"
  | .annotationEntry => "Annotation"

def isDeclaration : NodeKind → Bool
  | .classLike | .function | .property | .typeAlias | .typeParameter => true
  | .file | .valueParameter | .typeReference | .annotationEntry => false

theorem mem_all (k : NodeKind) : k ∈ all := by cases k <;> decide

def decoder : Decoder NodeKind := .word (wordTable all word)

end NodeKind

inductive ClassKind
  | plain | interface | enumClass | enumEntry | object | annotationClass
  deriving DecidableEq, Repr, Inhabited

namespace ClassKind

def all : List ClassKind := [.plain,.interface,.enumClass,.enumEntry,.object,.annotationClass]

def word : ClassKind → String
  | .plain => "class"
  | .interface => "interface"
  | .enumClass => "enum_class"
  | .enumEntry => "enum_entry"
  | .object => "object"
  | .annotationClass => "annotation_class"

theorem mem_all (k : ClassKind) : k ∈ all := by cases k <;> decide

def decoder : Decoder ClassKind := .word (wordTable all word)

end ClassKind

/-- What a function is by its place and its form. -/
inductive FunctionKind
  | topLevel | member | anonymous | lambda
  deriving DecidableEq, Repr

namespace FunctionKind

def all : List FunctionKind := [.topLevel,.member,.anonymous,.lambda]

def word : FunctionKind → String
  | .topLevel => "top_level"
  | .member => "member"
  | .anonymous => "anonymous"
  | .lambda => "lambda"

theorem mem_all (k : FunctionKind) : k ∈ all := by cases k <;> decide

def decoder : Decoder FunctionKind := .word (wordTable all word)

end FunctionKind

inductive Variance
  | invariant | input | output | star
  deriving DecidableEq, Repr, Inhabited

namespace Variance

def all : List Variance := [.invariant,.input,.output,.star]

def word : Variance → String
  | .invariant => "invariant"
  | .input => "in"
  | .output => "out"
  | .star => "star"

/-- What stands before a type argument of this variance. -/
def label : Variance → String
  | .invariant | .star => ""
  | .input => "in "
  | .output => "out "

theorem mem_all (v : Variance) : v ∈ all := by cases v <;> decide

def decoder : Decoder Variance := .word (wordTable all word)

end Variance

inductive Modifier
  | publicAccess | privateAccess | protectedAccess | internalAccess
  | abstracted | opened | final | sealed | overriding
  | data | inner | companion | inlined | suspending | operator | infixCall | tailrec | external
  | lateinit | const | expect | actual
  | vararg | crossinline | noinline | reified
  | static | defaulted | native | synchronized | transient | volatile | strictfp
  deriving DecidableEq, Repr

namespace Modifier

/-- All modifiers, in the order in which a set of them is written. -/
def all : List Modifier :=
  [.publicAccess,.privateAccess,.protectedAccess,.internalAccess,
    .abstracted,.opened,.final,.sealed,.overriding,
    .data,.inner,.companion,.inlined,.suspending,.operator,.infixCall,.tailrec,.external,
    .lateinit,.const,.expect,.actual,
    .vararg,.crossinline,.noinline,.reified,
    .static,.defaulted,.native,.synchronized,.transient,.volatile,.strictfp]

def word : Modifier → String
  | .publicAccess => "public"
  | .privateAccess => "private"
  | .protectedAccess => "protected"
  | .internalAccess => "internal"
  | .abstracted => "abstract"
  | .opened => "open"
  | .final => "final"
  | .sealed => "sealed"
  | .overriding => "override"
  | .data => "data"
  | .inner => "inner"
  | .companion => "companion"
  | .inlined => "inline"
  | .suspending => "suspend"
  | .operator => "operator"
  | .infixCall => "infix"
  | .tailrec => "tailrec"
  | .external => "external"
  | .lateinit => "lateinit"
  | .const => "const"
  | .expect => "expect"
  | .actual => "actual"
  | .vararg => "vararg"
  | .crossinline => "crossinline"
  | .noinline => "noinline"
  | .reified => "reified"
  | .static => "static"
  | .defaulted => "default"
  | .native => "native"
  | .synchronized => "synchronized"
  | .transient => "transient"
  | .volatile => "volatile"
  | .strictfp => "strictfp"

theorem mem_all (m : Modifier) : m ∈ all := by cases m <;> decide

def decoder : Decoder Modifier := .word (wordTable all word)

end Modifier

/-- A set of modifiers, listed in the order of `Modifier.all`. -/
structure Modifiers where
  toList : List Modifier
  sublist : toList.Sublist Modifier.all
  deriving DecidableEq

namespace Modifiers

def ofList (l : List Modifier) : Modifiers :=
  ⟨Modifier.all.filter l.contains,List.filter_sublist⟩

def empty : Modifiers := ⟨[],by simp⟩

instance : Inhabited Modifiers := ⟨empty⟩

def contains (s : Modifiers) (m : Modifier) : Bool := s.toList.contains m

def insert (s : Modifiers) (m : Modifier) : Modifiers := ofList (m :: s.toList)

@[simp] theorem contains_ofList (l : List Modifier) (m : Modifier) :
    (ofList l).contains m = l.contains m := by
  apply Bool.eq_iff_iff.mpr
  simp [ofList,contains,Modifier.mem_all]

@[simp] theorem contains_empty (m : Modifier) : empty.contains m = false := rfl

@[simp] theorem contains_insert (s : Modifiers) (m n : Modifier) :
    (s.insert m).contains n = (n == m || s.contains n) := by
  rw [insert,contains_ofList,List.contains_cons]; rfl

def toJson (s : Modifiers) : Json := .list (fun m => .text m.word) s.toList

def draft (s : Modifiers) : Draft.Member := .defaulted "modifiers" (fun s => .plain s.toJson) .empty s

def decoder : Decoder Modifiers := .map ofList (.list Modifier.decoder)

def field : Fields Modifiers := .defaulted "modifiers" decoder .empty

end Modifiers
end SymbolGraph
