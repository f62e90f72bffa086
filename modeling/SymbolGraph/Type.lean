import SymbolGraph.Key
import SymbolGraph.Kind

/-! What a semantic oracle says about a program: types, descriptors of declarations, and how two
functions of one name get along. -/
namespace SymbolGraph

open Json

mutual
/-- A type built from a class, a type alias or a type parameter. -/
structure ResolvedType where
  declaration : NodeKey
  arguments : List TypeArgument
  nullable : Bool
/-- An argument of a type. A star projection has no type. -/
structure TypeArgument where
  variance : Variance
  type : Option ResolvedType
end

deriving instance Inhabited for TypeArgument, ResolvedType

mutual
def ResolvedType.decEq : (t u : ResolvedType) → Decidable (t = u)
  | ⟨d,as,n⟩, ⟨d',as',n'⟩ =>
    if h : d = d' ∧ n = n' then
      match TypeArgument.decEqList as as' with
      | isTrue h' => isTrue (by simp [h,h'])
      | isFalse h' => isFalse fun e => h' (ResolvedType.mk.inj e).2.1
    else isFalse fun e => h ⟨(ResolvedType.mk.inj e).1,(ResolvedType.mk.inj e).2.2⟩
def ResolvedType.decEqOption : (t u : Option ResolvedType) → Decidable (t = u)
  | none, none => isTrue rfl
  | none, some _ | some _, none => isFalse nofun
  | some t, some u =>
    match ResolvedType.decEq t u with
    | isTrue h => isTrue (congrArg some h)
    | isFalse h => isFalse fun e => h (Option.some.inj e)
def TypeArgument.decEq : (a b : TypeArgument) → Decidable (a = b)
  | ⟨v,t⟩, ⟨v',t'⟩ =>
    if h : v = v' then
      match ResolvedType.decEqOption t t' with
      | isTrue h' => isTrue (by simp [h,h'])
      | isFalse h' => isFalse fun e => h' (TypeArgument.mk.inj e).2
    else isFalse fun e => h (TypeArgument.mk.inj e).1
def TypeArgument.decEqList : (as bs : List TypeArgument) → Decidable (as = bs)
  | [], [] => isTrue rfl
  | [], _ :: _ | _ :: _, [] => isFalse nofun
  | a :: as, b :: bs =>
    match TypeArgument.decEq a b, TypeArgument.decEqList as bs with
    | isTrue h, isTrue h' => isTrue (by simp [h,h'])
    | isFalse h, _ => isFalse fun e => h (List.cons.inj e).1
    | _, isFalse h => isFalse fun e => h (List.cons.inj e).2
end

instance : DecidableEq ResolvedType := ResolvedType.decEq
instance : DecidableEq TypeArgument := TypeArgument.decEq

namespace ResolvedType

/-- The type of a declaration without arguments. -/
def simple (declaration : NodeKey) : ResolvedType := ⟨declaration,[],false⟩

def withNullable (t : ResolvedType) (nullable : Bool) : ResolvedType := { t with nullable := nullable }

@[simp] theorem withNullable_nullable (t : ResolvedType) (b : Bool) :
    (t.withNullable b).nullable = b := rfl
@[simp] theorem withNullable_withNullable (t : ResolvedType) (b c : Bool) :
    (t.withNullable b).withNullable c = t.withNullable c := rfl
@[simp] theorem withNullable_self (t : ResolvedType) : t.withNullable t.nullable = t := by cases t; rfl

end ResolvedType

/-- What an oracle knows of a declaration. -/
structure Descriptor where
  declaration : NodeKey
  name : String
  parameters : List ResolvedType
  /-- The result of a function, or the value of a property or parameter, if it is known. -/
  returnType : Option ResolvedType
  /-- The declarations that this one overrides directly. -/
  overridden : List NodeKey
  deriving DecidableEq

/-- Whether a function may override another one. -/
inductive Compatibility
  | overridable | conflict | incompatible
  deriving DecidableEq, Repr, Inhabited

namespace Compatibility

def all : List Compatibility := [.overridable,.conflict,.incompatible]

def word : Compatibility → String
  | .overridable => "overridable"
  | .conflict => "conflict"
  | .incompatible => "incompatible"

theorem mem_all (c : Compatibility) : c ∈ all := by cases c <;> decide

def decoder : Decoder Compatibility := .word (wordTable all word)

end Compatibility

/-! ### JSON -/

mutual
def ResolvedType.toJson : ResolvedType → Json
  | ⟨declaration,arguments,nullable⟩ =>
    .object [("declaration",declaration.toJson),("arguments",.array (typeArgumentsToJson arguments)),
      ("nullable",.bool nullable)]
def resolvedOptionToJson : Option ResolvedType → Json
  | none => .null
  | some t => t.toJson
def TypeArgument.toJson : TypeArgument → Json
  | ⟨variance,type⟩ => .object [("variance",.text variance.word),("ty",resolvedOptionToJson type)]
def typeArgumentsToJson : List TypeArgument → List Json
  | [] => []
  | a :: as => a.toJson :: typeArgumentsToJson as
end

/-- Reads a type in which no more than `room` types enclose one another. -/
def ResolvedType.decoderIn : Nat → Decoder ResolvedType
  | 0 => fun _ _ => .error .malformed
  | room+1 =>
    let argument := Fields.decoder (TypeArgument.mk <$> .required "variance" Variance.decoder
      <*> .optional "ty" (decoderIn room))
    Fields.decoder (mk <$> .required "declaration" NodeKey.decoder <*> .listed "arguments" argument
      <*> .defaulted "nullable" .bool false)

def ResolvedType.decoder : Decoder ResolvedType := fun m => decoderIn (m.room + 1) m

namespace Descriptor

def toJson (d : Descriptor) : Json :=
  .object [("declaration",d.declaration.toJson),("name",.text d.name),
    ("parameters",.list ResolvedType.toJson d.parameters),
    ("return_type",.option ResolvedType.toJson d.returnType),
    ("overridden",.list NodeKey.toJson d.overridden)]

def decoder : Decoder Descriptor :=
  Fields.decoder (mk <$> .required "declaration" NodeKey.decoder <*> .required "name" .text
    <*> .required "parameters" (.list ResolvedType.decoder) <*> .optional "return_type" ResolvedType.decoder
    <*> .required "overridden" (.list NodeKey.decoder))

end Descriptor
end SymbolGraph
