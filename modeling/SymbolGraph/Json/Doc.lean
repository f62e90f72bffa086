import SymbolGraph.Json.Token

/-! The tree of a JSON text, kept as far as the text goes.
Arrays and objects record how they end, and the value at which the text breaks off is a leaf, so that
a reader that walks the tree in the order of the text meets the first problem first. -/
namespace SymbolGraph
namespace Json

/-- How an array or an object ends: with its bracket, with the text, with the text behind a comma of an
object, at a token that fits neither a comma nor a bracket, or at a key that cannot be completed. -/
inductive Close
  | closed | ended | endedAtComma | junk
  | key (b : Breach)
  deriving DecidableEq, Repr

namespace Close

def readFault? : Close → Option Fault
  | .closed => none
  | .ended | .endedAtComma => some .unfinished
  | .junk => some .malformed
  | .key b => some b.read

def skipFault? : Close → Option Fault
  | .closed => none
  | .ended | .endedAtComma => some .unfinished
  | .junk => some .malformed
  | .key b => some b.skipped

end Close

inductive Doc
  | null
  | bool (b : Bool)
  | number (n : Number)
  | text (s : Option String)
  | array (items : List Doc) (close : Close)
  | object (members : List (Option String × Doc)) (close : Close)
  | broken (b : Breach)
  deriving Inhabited

/-- A key is missing where half of a surrogate pair stands in it. -/
abbrev Member := Option String × Doc

/-! ### From tokens to the tree -/

/-- An array or an object that waits for a value, with what it holds before it, last first. -/
inductive Frame
  | array (items : List Doc)
  | member (members : List Member) (key : Option String)

/-- What has been built, and what the next token may be: a value; a value or the end of an array; a
comma or the end of an array; a key or the end of an object; a key; a colon; a comma or the end of an
object; nothing, as the value is complete. -/
inductive Builder
  | value (frames : List Frame)
  | firstItem (frames : List Frame)
  | afterItem (items : List Doc) (frames : List Frame)
  | firstKey (frames : List Frame)
  | key (members : List Member) (frames : List Frame)
  | colon (members : List Member) (key : Option String) (frames : List Frame)
  | afterMember (members : List Member) (frames : List Frame)
  | done (d : Doc) (more : Bool)

namespace Builder

/-- Puts a complete value where it belongs. -/
def complete (d : Doc) : List Frame → Builder
  | [] => .done d false
  | .array items :: s => .afterItem (d :: items) s
  | .member members k :: s => .afterMember ((k,d) :: members) s

/-- Closes every open frame around the value after which nothing can be read. -/
def unwind (d : Doc) : List Frame → Doc
  | [] => d
  | .array items :: s => unwind (.array (d :: items).reverse .junk) s
  | .member members k :: s => unwind (.object ((k,d) :: members).reverse .junk) s

def stop (d : Doc) (s : List Frame) : Builder := .done (unwind d s) false

def stepValue (s : List Frame) : Token → Builder
  | .openArray => .firstItem s
  | .openObject => .firstKey s
  | .null => complete .null s
  | .bool b => complete (.bool b) s
  | .number n => complete (.number n) s
  | .text t => complete (.text t) s
  | .broken b => stop (.broken b) s
  | .closeArray | .closeObject | .colon | .comma => stop (.broken .junk) s

def stepKey (members : List Member) (s : List Frame) : Token → Builder
  | .text k => .colon members k s
  | .broken b => stop (.object members.reverse (if b.start = .quote then .key b else .junk)) s
  | _ => stop (.object members.reverse .junk) s

def step : Builder → Token → Builder
  | .value s, t => stepValue s t
  | .firstItem s, .closeArray => complete (.array [] .closed) s
  | .firstItem s, t => stepValue (.array [] :: s) t
  | .afterItem items s, .comma => .value (.array items :: s)
  | .afterItem items s, .closeArray => complete (.array items.reverse .closed) s
  | .afterItem items s, _ => stop (.array items.reverse .junk) s
  | .firstKey s, .closeObject => complete (.object [] .closed) s
  | .firstKey s, t => stepKey [] s t
  | .key members s, t => stepKey members s t
  | .colon members k s, .colon => .value (.member members k :: s)
  | .colon members k s, _ => stop (.broken .junk) (.member members k :: s)
  | .afterMember members s, .comma => .key members s
  | .afterMember members s, .closeObject => complete (.object members.reverse .closed) s
  | .afterMember members s, _ => stop (.object members.reverse .junk) s
  | .done d _, _ => .done d true

/-- The tree when the text ends here, and whether more follows its value. -/
def finish : Builder → Doc × Bool
  | .value s => (unwind (.broken .ended) s,false)
  | .firstItem s => (unwind (.array [] .ended) s,false)
  | .afterItem items s => (unwind (.array items.reverse .ended) s,false)
  | .firstKey s => (unwind (.object [] .ended) s,false)
  | .key members s => (unwind (.object members.reverse .endedAtComma) s,false)
  | .afterMember members s => (unwind (.object members.reverse .ended) s,false)
  | .colon members k s => (unwind (.broken .ended) (.member members k :: s),false)
  | .done d more => (d,more)

end Builder

namespace Doc

/-- The tree of a text, and whether anything but blanks follows its value. -/
def ofString (s : String) : Doc × Bool :=
  ((tokens s.toList).foldl Builder.step (.value [])).finish

/-! ### Faults in the order of the text -/

/-- What a reader finds wrong who wants a value of another form. A bracket is told at once; a scalar is
read to its end first. -/
def refusal : Doc → Fault
  | .broken b => b.read
  | .text none => .malformed
  | .number n => if n.tooLarge then .malformed else .mismatched
  | .null | .bool _ | .text (some _) | .array .. | .object .. => .mismatched

mutual
/-- The first fault met by a reader that skips the value. -/
def skipFault? : Doc → Option Fault
  | .broken b => some b.skipped
  | .array items close => skipItems? items <|> close.skipFault?
  | .object members close => skipMembers? members <|> close.skipFault?
  | .null | .bool _ | .number _ | .text _ => none
def skipItems? : List Doc → Option Fault
  | [] => none
  | d :: ds => d.skipFault? <|> skipItems? ds
def skipMembers? : List (Option String × Doc) → Option Fault
  | [] => none
  | (_,d) :: ms => d.skipFault? <|> skipMembers? ms
end

mutual
/-- The first fault met by a reader that takes in the whole value, in which at most `room` arrays and
objects may be open at once. -/
def readFault? (room : Nat) : Doc → Option Fault
  | .broken b => some b.read
  | .text s => if s.isNone then some .malformed else none
  | .number n => if n.tooLarge then some .malformed else none
  | .array items close =>
    if room = 0 then some .malformed else readItems? (room - 1) items <|> close.readFault?
  | .object members close =>
    if room = 0 then some .malformed else readMembers? (room - 1) members <|> close.readFault?
  | .null | .bool _ => none
def readItems? (room : Nat) : List Doc → Option Fault
  | [] => none
  | d :: ds => d.readFault? room <|> readItems? room ds
def readMembers? (room : Nat) : List (Option String × Doc) → Option Fault
  | [] => none
  | (k,d) :: ms => (if k.isNone then some .malformed else none) <|> d.readFault? room <|> readMembers? room ms
end

end Doc
end Json
end SymbolGraph
