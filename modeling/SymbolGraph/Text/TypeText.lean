import SymbolGraph.Kind
import SymbolGraph.Text.CharacterClass

/-! Types as they are written in sources: a variance word, a name, a bracket with arguments, and a mark
for null, with blanks between them. What stands in the bracket is not looked at, but it stays on one
line. -/
namespace SymbolGraph

open Text

structure TypeText where
  variance : Variance
  name : String
  nullable : Bool
  deriving DecidableEq, Repr

namespace TypeText

/-- The characters that begin a segment of a name. -/
def isNameStart (c : Char) : Bool := ('a' ≤ c && c ≤ 'z') || ('A' ≤ c && c ≤ 'Z') || c == '_' || c == '$'

def isNamePart (c : Char) : Bool := isWord c || c == '$'

/-- The longest beginning that is a path of segments, and what follows it. A dot belongs to the path
only if a segment begins behind it. -/
def splitPath (fresh : Bool) : List Char → List Char × List Char
  | [] => ([],[])
  | c :: r =>
    if (if fresh then isNameStart c else isNamePart c) then
      let (path,rest) := splitPath false r
      (c :: path,rest)
    else if !fresh && c == '.' && r.head?.any isNameStart then
      let (path,rest) := splitPath true r
      (c :: path,rest)
    else ([],c :: r)

def splitName : List Char → Option (List Char × List Char)
  | '*' :: r => some (['*'],r)
  | cs =>
    match splitPath true cs with
    | ([],_) => none
    | (name,rest) => some (name,rest)

def trimStart (cs : List Char) : List Char := cs.dropWhile isSpace

def trimEnd (cs : List Char) : List Char := (cs.reverse.dropWhile isSpace).reverse

/-- Splits off the mark at the end, with the blanks around it. -/
def splitMark (cs : List Char) : Bool × List Char :=
  match (trimEnd cs).reverse with
  | '?' :: r => (true,trimEnd r.reverse)
  | _ => (false,trimEnd cs)

/-- Arguments in their bracket, which may be missing. -/
def isBracket : List Char → Bool
  | [] => true
  | cs => cs.head? == some '<' && cs.getLast? == some '>' && 1 < cs.length && !cs.contains '\n'

/-- A type text behind its variance word. -/
def parseName (variance : Variance) (cs : List Char) : Option TypeText := do
  let (name,rest) ← splitName cs
  let (nullable,bracket) := splitMark (trimStart rest)
  if isBracket bracket then some ⟨if name = ['*'] then .star else variance,String.ofList name,nullable⟩
  else none

/-- The variance word at the beginning, with the blanks behind it. -/
def splitVariance (cs : List Char) : Option (Variance × List Char) :=
  match cs with
  | 'i' :: 'n' :: c :: r => if isSpace c then some (.input,trimStart r) else none
  | 'o' :: 'u' :: 't' :: c :: r => if isSpace c then some (.output,trimStart r) else none
  | _ => none

/-- A word that could be a variance is one where a name follows it, and a name of its own elsewhere. -/
def parse? (s : String) : Option TypeText :=
  let cs := trimStart s.toList
  ((splitVariance cs).bind fun (variance,rest) => parseName variance rest) <|> parseName .invariant cs

end TypeText
end SymbolGraph
