import SymbolGraph.Json.Doc

/-! Readers of typed values. A reader answers with the value or with the fault that comes first in the
text. Where a value has to be taken in whole before its form is known, as an object is whose tag may
come last, it is read a second time as a buffered value, which has no faults of its own left. -/
namespace SymbolGraph
namespace Json

/-- Whether the value has been taken in before, and how many arrays and objects may still be opened. -/
structure Mode where
  buffered : Bool
  room : Nat

namespace Mode

/-- The mode inside an array or object. A buffered value has had its depth checked. -/
def enter (m : Mode) : Except Fault Mode :=
  if m.buffered then .ok { m with room := m.room - 1 }
  else if m.room = 0 then .error .malformed
  else .ok { m with room := m.room - 1 }

/-- At most 127 arrays and objects may be open at once. -/
def whole : Mode := ⟨false,127⟩

def fault? (f : Option Fault) : Except Fault Unit :=
  match f with
  | none => .ok ()
  | some f => .error f

end Mode

abbrev Decoder (A : Type) := Mode → Doc → Except Fault A

namespace Decoder

variable {A B : Type}

def map (f : A → B) (dec : Decoder A) : Decoder B := fun m d => (dec m d).map f

/-- Reads a text that holds one value. -/
def decode (dec : Decoder A) (s : String) : Except Fault A := do
  let (d,more) := Doc.ofString s
  let a ← dec .whole d
  if more then .error .malformed else .ok a

def text : Decoder String := fun _ d =>
  match d with
  | .text (some s) => .ok s
  | d => .error d.refusal

def bool : Decoder Bool := fun _ d =>
  match d with
  | .bool b => .ok b
  | d => .error d.refusal

/-- A natural number below `bound`. A fraction or an exponent makes it another kind of number. -/
def natBelow (bound : Nat) : Decoder Nat := fun _ d =>
  match d with
  | .number n =>
    match n.nat? with
    | some k => if k < bound then .ok k else .error (Doc.refusal d)
    | none => .error (Doc.refusal d)
  | d => .error d.refusal

def word16 : Decoder Nat := natBelow 0x10000

def word32 : Decoder Nat := natBelow 0x100000000

def word64 : Decoder Nat := natBelow Number.bound64

def nullable (dec : Decoder A) : Decoder (Option A) := fun m d =>
  match d with
  | .null => .ok none
  | .broken b => if b.start = .null then .error b.read else (dec m (.broken b)).map some
  | d => (dec m d).map some

def list (dec : Decoder A) : Decoder (List A) := fun m d =>
  match d with
  | .array items close => do
    let m ← m.enter
    let as ← items.mapM (dec m)
    Mode.fault? close.readFault?
    return as
  | d => .error d.refusal

/-- The pairs of an object whose keys are free, in the order written. -/
def pairs (dec : Decoder A) : Decoder (List (String × A)) := fun m d =>
  match d with
  | .object members close => do
    let m ← m.enter
    let ps ← members.mapM fun (k,d) =>
      match k with
      | none => .error .malformed
      | some k => (dec m d).map (k,·)
    Mode.fault? close.readFault?
    return ps
  | d => .error d.refusal

end Decoder

/-! ### Structures -/

/-- The members of an object. Problems are placed by the member at which they are met: the end of the
object comes after its last member, a missing field after the end. -/
abbrev Verdict (A : Type) := Except (Nat × Fault) A

namespace Verdict

variable {A B : Type}

/-- Of two problems the one met first counts. -/
def ap (f : Verdict (A → B)) (a : Verdict A) : Verdict B :=
  match f, a with
  | .ok f, .ok a => .ok (f a)
  | .error e, .ok _ => .error e
  | .ok _, .error e => .error e
  | .error e, .error e' => .error (if e'.1 < e.1 then e' else e)

end Verdict

/-- The fields of a structure, read from an object by name or from an array by position. -/
structure Fields (A : Type) where
  names : List String
  ofMembers : Mode → List (Nat × Member) → Nat → Verdict A
  ofItems : Mode → List Doc → Close → Except Fault (A × List Doc)

namespace Fields

variable {A B : Type}

def pure (a : A) : Fields A where
  names := []
  ofMembers _ _ _ := .ok a
  ofItems _ items _ := .ok (a,items)

def ap (f : Fields (A → B)) (a : Fields A) : Fields B where
  names := f.names ++ a.names
  ofMembers m ms count := Verdict.ap (f.ofMembers m ms count) (a.ofMembers m ms count)
  ofItems m items close := do
    let (g,items) ← f.ofItems m items close
    let (x,items) ← a.ofItems m items close
    return (g x,items)

instance : Functor Fields where
  map f a := ap (pure f) a

instance : Seq Fields where
  seq f a := ap f (a ())

def member? (name : String) (ms : List (Nat × Member)) : Option (Nat × Doc) :=
  (ms.find? fun (_,k,_) => k = some name).map fun (i,_,d) => (i,d)

/-- A field with its reader, and what stands for it in an object, and in an array, that lacks it. -/
def field (name : String) (dec : Decoder A) (absent short : Option A) : Fields A where
  names := [name]
  ofMembers m ms count :=
    match member? name ms, absent with
    | some (i,d), _ => (dec m d).mapError (i,·)
    | none, some a => .ok a
    | none, none => .error (count + 1,.mismatched)
  ofItems m items close :=
    match items, close.readFault?, short with
    | d :: items, _, _ => (dec m d).map (·,items)
    | [], some f, _ => .error f
    | [], none, some a => .ok (a,[])
    | [], none, none => .error .mismatched

def required (name : String) (dec : Decoder A) : Fields A := field name dec none none

/-- A field that may be null or be left out of an object, but not out of an array. -/
def optional (name : String) (dec : Decoder A) : Fields (Option A) :=
  field name (Decoder.nullable dec) (some none) none

def defaulted (name : String) (dec : Decoder A) (value : A) : Fields A :=
  field name dec (some value) (some value)

/-- A list that may be left out. -/
def listed (name : String) (dec : Decoder A) : Fields (List A) := defaulted name (.list dec) []

/-- A value that may be null, and be left out anywhere. -/
def missable (name : String) (dec : Decoder A) : Fields (Option A) := defaulted name (.nullable dec) none

/-- The first problem with the members as such: a key that cannot be read, a field given twice, an
unknown member that cannot be skipped, an object that does not end. -/
def frameFault? (names seen : List String) (close : Close) : List (Nat × Member) → Nat → Verdict Unit
  | [], count => (Mode.fault? close.readFault?).mapError (count,·)
  | (i,none,_) :: _, _ => .error (i,.malformed)
  | (i,some k,d) :: ms, count =>
    if names.contains k then
      if seen.contains k then .error (i,.mismatched) else frameFault? names (k :: seen) close ms count
    else
      match d.skipFault? with
      | some f => .error (i,f)
      | none => frameFault? names seen close ms count

/-- What is left of an array after the last field. -/
def restFault? (buffered : Bool) (items : List Doc) (close : Close) : Option Fault :=
  match items, close with
  | [], .closed => none
  | [], .ended => some .unfinished
  | _, _ => some (if buffered then .mismatched else .malformed)

def decoder (fs : Fields A) : Decoder A := fun m d =>
  match d with
  | .object members close => do
    let m ← m.enter
    let ms := members.mapIdx fun i e => (i,e)
    let frame := frameFault? fs.names [] close ms members.length
    let read := (fs.ofMembers m ms members.length).map fun a (_ : Unit) => a
    (Verdict.ap read frame).mapError (·.2)
  | .array items close => do
    let m ← m.enter
    let (a,rest) ← fs.ofItems m items close
    Mode.fault? (restFault? m.buffered rest close)
    return a
  | d => .error d.refusal

end Fields

/-! ### Enumerations and tagged objects -/

namespace Decoder

variable {A : Type}

/-- Reads the empty value of a word that is written as the key of an object. -/
def emptyValue (m : Mode) (d : Doc) : Except Fault Unit :=
  match d with
  | .null => .ok ()
  | .object [] _ => if m.buffered then .ok () else .error .mismatched
  | d => .error d.refusal

/-- What follows the one member of an object that stands for an alternative. A comma is wrong there,
whatever comes behind it. -/
def soleFault? (buffered : Bool) (rest : List Member) (close : Close) : Option Fault :=
  match rest, close with
  | [], .closed => none
  | [], .ended => some .unfinished
  | _, _ => some (if buffered then .mismatched else .malformed)

/-- One of several alternatives: a word, or an object whose only key is the word, with nothing or the
alternative's fields behind it. -/
def alternative (words : List (String × A)) (records : List (String × Decoder A)) : Decoder A :=
  fun m d =>
    match d with
    | .text (some s) =>
      match words.lookup s with
      | some a => .ok a
      | none => .error .mismatched
    | .text none => .error .malformed
    | .object members close => do
      let m ← m.enter
      match members with
      | [] => .error (if m.buffered then .mismatched else close.readFault?.getD .malformed)
      | (none,_) :: _ => .error .malformed
      | (some k,d) :: rest =>
        if m.buffered && !rest.isEmpty then .error .mismatched
        let a ← match words.lookup k, records.lookup k with
          | some a, _ => (emptyValue m d).map fun _ => a
          | none, some dec => dec m d
          | none, none => .error .mismatched
        Mode.fault? (soleFault? m.buffered rest close)
        return a
    | .broken b => .error b.wordFault
    | _ => .error (if m.buffered then .mismatched else .malformed)

def word (words : List (String × A)) : Decoder A := alternative words []

/-- Reads a tag. A tag that has been taken in may also be the number of its alternative. -/
def tagValue (records : List (String × Decoder A)) (m : Mode) (d : Doc) : Except Fault (Decoder A) :=
  match d with
  | .text (some s) =>
    match records.lookup s with
    | some dec => .ok dec
    | none => .error .mismatched
  | .number n =>
    match (if m.buffered then n.nat?.bind fun i => records[i]? else none) with
    | some (_,dec) => .ok dec
    | none => .error (Doc.refusal d)
  | d => .error d.refusal

/-- Takes in the members of a tagged object: its tag, if it has been met, and the other members. -/
def tagMembers (tag : String) (records : List (String × Decoder A)) (m : Mode) (close : Close) :
    Option (Decoder A) → List Member → List Member → Except Fault (Decoder A × List Member)
  | found, taken, [] => do
    Mode.fault? close.readFault?
    match found with
    | some dec => return (dec,taken.reverse)
    | none => .error .mismatched
  | _, _, (none,_) :: _ => .error .malformed
  | found, taken, (some k,d) :: ms =>
    if k = tag then
      match found with
      | some _ => .error .mismatched
      | none => do
        let dec ← tagValue records m d
        tagMembers tag records m close (some dec) taken ms
    else do
      if !m.buffered then Mode.fault? (d.readFault? m.room)
      tagMembers tag records m close found ((some k,d) :: taken) ms

/-- An object whose alternative is told by the member `tag`. It is taken in whole before the other
members are read. An array gives the tag first. -/
def tagged (tag : String) (records : List (String × Decoder A)) : Decoder A := fun m d =>
  match d with
  | .object members close => do
    let inner ← m.enter
    let (dec,rest) ← tagMembers tag records inner close none [] members
    dec { m with buffered := true } (.object rest .closed)
  | .array items close => do
    let inner ← m.enter
    match items with
    | [] => .error (close.readFault?.getD .mismatched)
    | d :: rest =>
      let dec ← tagValue records inner d
      if !m.buffered then Mode.fault? (Doc.readItems? inner.room rest <|> close.readFault?)
      dec { m with buffered := true } (.array rest .closed)
  | d => .error d.refusal

/-- An alternative without fields. An object that stands for it may hold anything, an array nothing. -/
def fieldless (a : A) : Decoder A := fun _ d =>
  match d with
  | .array (_ :: _) _ => .error .mismatched
  | _ => .ok a

end Decoder
end Json
end SymbolGraph
