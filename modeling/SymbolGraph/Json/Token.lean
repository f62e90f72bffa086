/-! The tokens of a JSON text, and the scanner that finds them.
A scan never fails: the place where the text stops being JSON is itself a token, which says what a
reader of a value finds wrong there and what a reader that skips the value finds wrong. -/
namespace SymbolGraph
namespace Json

/-- Why a text is refused: it ends before its value does, it is no JSON, or it is JSON that says
something other than what is wanted. -/
inductive Fault
  | unfinished | malformed | mismatched
  deriving DecidableEq, Repr

/-- How a broken token begins. -/
inductive Start
  | nothing | quote | null | other
  deriving DecidableEq, Repr

/-- A token that cannot be completed. The two faults differ where skipping asks for less than
reading: a lone surrogate may be skipped, and a number cut short is skipped by its characters alone. -/
structure Breach where
  read : Fault
  skipped : Fault
  start : Start
  deriving DecidableEq, Repr

namespace Breach

/-- Where a value should begin, the text is over. -/
def ended : Breach := ⟨.unfinished,.unfinished,.nothing⟩

/-- No value begins with what stands here. -/
def junk : Breach := ⟨.malformed,.malformed,.other⟩

/-- What a reader of an enumeration's word finds wrong. It wants a quote or a brace, and looks no
further at anything else. -/
def wordFault (b : Breach) : Fault :=
  match b.start with
  | .nothing | .quote => b.read
  | .null | .other => .malformed

end Breach

/-- A number as written: its digits before the point, after it, and its exponent. -/
structure Number where
  negative : Bool
  whole : List Char
  fraction : Option (List Char)
  exponent : Option Int
  deriving DecidableEq, Repr

namespace Number

/-- The first number that takes more than 64 bits. -/
def bound64 : Nat := 0x10000000000000000

def digitValue (c : Char) : Nat := c.toNat - '0'.toNat

def decimal (digits : List Char) : Nat :=
  digits.foldl (fun n c => n * 10 + digitValue c) 0

/-- The value of a number that is written as a natural number. -/
def nat? (n : Number) : Option Nat :=
  match n.negative, n.fraction, n.exponent with
  | false, none, none => some (decimal n.whole)
  | _, _, _ => none

/-- The value of a number that is written as an integer. -/
def int? (n : Number) : Option Int :=
  match n.fraction, n.exponent with
  | none, none => some (if n.negative then -(decimal n.whole : Int) else decimal n.whole)
  | _, _ => none

/-- The leading digits that fit 64 bits, and how many digits are left after them. -/
def leading (significand : Nat) : List Char → Nat × Nat
  | [] => (significand,0)
  | c :: r =>
    let next := significand * 10 + digitValue c
    if next < bound64 then leading next r else (significand,(c :: r).length)

/-- No double is as large as this number. The significand and the power of ten are rounded on their
own, and it is their rounded product that must be finite. -/
def tooLarge (n : Number) : Bool :=
  if n.fraction.isNone && n.exponent.isNone && decide (decimal n.whole < bound64) then false
  else
    let (significand,dropped) := leading 0 n.whole
    let digits := n.fraction.getD []
    let (significand,ignored) := leading significand digits
    let power : Int := dropped - (digits.length - ignored : Nat) + n.exponent.getD 0
    if power < 0 || significand == 0 then false
    else if 308 < power then true
    else ((UInt64.ofNat significand).toFloat * Float.ofScientific 1 false power.toNat).isInf

end Number

inductive Token
  | openArray | closeArray | openObject | closeObject | colon | comma | null
  | bool (b : Bool)
  | number (n : Number)
  /-- A text without its quotes; nothing if it holds half of a surrogate pair. -/
  | text (s : Option String)
  | broken (b : Breach)
  deriving DecidableEq, Repr

def isBlank (c : Char) : Bool := c == ' ' || c == '\n' || c == '\t' || c == '\x0d'

def isDigit (c : Char) : Bool := '0' ≤ c && c ≤ '9'

/-! ### Texts -/

def hexValue? (c : Char) : Option Nat :=
  if '0' ≤ c && c ≤ '9' then some (c.toNat - '0'.toNat)
  else if 'a' ≤ c && c ≤ 'f' then some (c.toNat - 'a'.toNat + 10)
  else if 'A' ≤ c && c ≤ 'F' then some (c.toNat - 'A'.toNat + 10)
  else none

def hexUnit? (a b c d : Char) : Option Nat := do
  let a ← hexValue? a
  let b ← hexValue? b
  let c ← hexValue? c
  let d ← hexValue? d
  return ((a * 16 + b) * 16 + c) * 16 + d

def isHighSurrogate (n : Nat) : Bool := 0xD800 ≤ n && n < 0xDC00

def isLowSurrogate (n : Nat) : Bool := 0xDC00 ≤ n && n < 0xE000

def combineSurrogates (high low : Nat) : Char :=
  Char.ofNat (0x10000 + (high - 0xD800) * 0x400 + (low - 0xDC00))

def escaped? (c : Char) : Option Char :=
  if c = '"' then some '"' else if c = '\\' then some '\\' else if c = '/' then some '/'
  else if c = 'b' then some '\x08' else if c = 'f' then some '\x0c' else if c = 'n' then some '\n'
  else if c = 'r' then some '\x0d' else if c = 't' then some '\t' else none

/-- Fewer than four bytes are left, so that a unit of four hexadecimal digits cannot be. -/
def shortOfUnit (cs : List Char) : Bool := (cs.take 4).foldl (fun n c => n + c.utf8Size) 0 < 4

/-- What is known of a text so far: its characters, last first, a high surrogate that waits for its
partner, and whether some surrogate went without one. -/
structure Reading where
  chars : List Char
  high : Option Nat
  lone : Bool

namespace Reading

def start : Reading := ⟨[],none,false⟩

def push (t : Reading) (c : Char) : Reading := ⟨c :: t.chars,none,t.lone || t.high.isSome⟩

/-- Takes in the unit of one numeric escape. -/
def pushUnit (t : Reading) (n : Nat) : Reading :=
  if isHighSurrogate n then ⟨t.chars,some n,t.lone || t.high.isSome⟩
  else if isLowSurrogate n then
    match t.high with
    | some high => ⟨combineSurrogates high n :: t.chars,none,t.lone⟩
    | none => ⟨t.chars,none,true⟩
  else t.push (Char.ofNat n)

def finish (t : Reading) : Option String :=
  if t.lone || t.high.isSome then none else some (String.ofList t.chars.reverse)

/-- The text goes wrong. A reader may have found a lone surrogate before that. -/
def breach (t : Reading) (fault : Fault) : Breach := ⟨if t.lone then .malformed else fault,fault,.quote⟩

end Reading

/-- Scans a text from behind its opening quote. -/
def scanText (t : Reading) : List Char → Except Breach (Option String × List Char)
  | [] => .error (t.breach .unfinished)
  | c :: r =>
    if c = '"' then .ok (t.finish,r)
    else if c = '\\' then
      match r with
      | [] => .error (t.breach .unfinished)
      | e :: r =>
        if e = 'u' then
          match r with
          | a :: b :: c :: d :: r =>
            match hexUnit? a b c d with
            | some n => scanText (t.pushUnit n) r
            | none => .error (t.breach .malformed)
          | r => .error (t.breach (if shortOfUnit r then .unfinished else .malformed))
        else
          match escaped? e with
          | some c => scanText (t.push c) r
          | none => .error (t.breach .malformed)
    else if c.toNat < 0x20 then .error (t.breach .malformed)
    else scanText (t.push c) r

theorem length_of_scanText {t : Reading} {cs : List Char} {s : Option String} {r : List Char}
    (h : scanText t cs = .ok (s,r)) : r.length < cs.length := by
  fun_induction scanText t cs <;> simp_all <;> omega

/-! ### Numbers and words -/

/-- A number is cut short: a reader sees the end of the text, a reader that skips only sees that a
digit is missing. -/
def cutNumber (rest : List Char) : Breach :=
  if rest.isEmpty then ⟨.unfinished,.malformed,.other⟩ else .junk

/-- The sign of an exponent: whether it is a minus, and what follows it. -/
def scanSign : List Char → Bool × List Char
  | c :: r => if c = '-' then (true,r) else if c = '+' then (false,r) else (false,c :: r)
  | [] => (false,[])

def scanExponent (n : Number) : List Char → Except Breach (Number × List Char)
  | c :: r =>
    if c = 'e' ∨ c = 'E' then
      let (negative,r) := scanSign r
      let digits := r.takeWhile isDigit
      let rest := r.dropWhile isDigit
      if digits.isEmpty then .error (cutNumber rest)
      else
        let value : Int := Number.decimal digits
        .ok ({ n with exponent := some (if negative then -value else value) },rest)
    else .ok (n,c :: r)
  | [] => .ok (n,[])

def scanFraction (n : Number) : List Char → Except Breach (Number × List Char)
  | c :: r =>
    if c = '.' then
      let digits := r.takeWhile isDigit
      let rest := r.dropWhile isDigit
      if digits.isEmpty then .error (cutNumber rest)
      else scanExponent { n with fraction := some digits } rest
    else scanExponent n (c :: r)
  | [] => .ok (n,[])

/-- Scans a number from behind its sign. A zero stands alone before the point. -/
def scanNumber (negative : Bool) (cs : List Char) : Except Breach (Number × List Char) :=
  let digits := cs.takeWhile isDigit
  let rest := cs.dropWhile isDigit
  if digits.isEmpty then .error (cutNumber rest)
  else if digits.head? = some '0' ∧ 1 < digits.length then .error .junk
  else scanFraction ⟨negative,digits,none,none⟩ rest

/-- Scans the rest of a fixed word. -/
def scanWord (start : Start) : List Char → List Char → Except Breach (Unit × List Char)
  | [], cs => .ok ((),cs)
  | _ :: _, [] => .error ⟨.unfinished,.unfinished,start⟩
  | w :: ws, c :: cs => if w = c then scanWord start ws cs else .error ⟨.malformed,.malformed,start⟩

theorem length_dropWhile_le {A : Type} (p : A → Bool) (l : List A) :
    (l.dropWhile p).length ≤ l.length := (List.dropWhile_sublist p).length_le

theorem length_scanSign_le (cs : List Char) : (scanSign cs).2.length ≤ cs.length := by
  cases cs with
  | nil => simp [scanSign]
  | cons c r =>
    simp only [scanSign]
    split
    · simp
    · split <;> simp

theorem length_of_scanExponent {n m : Number} {cs r : List Char}
    (h : scanExponent n cs = .ok (m,r)) : r.length ≤ cs.length := by
  cases cs with
  | nil => simp_all [scanExponent]
  | cons c cs =>
    have sign := length_scanSign_le cs
    have drop := length_dropWhile_le isDigit (scanSign cs).2
    simp only [scanExponent] at h
    repeat' split at h
    all_goals simp_all
    all_goals omega

theorem length_of_scanFraction {n m : Number} {cs r : List Char}
    (h : scanFraction n cs = .ok (m,r)) : r.length ≤ cs.length := by
  cases cs with
  | nil => simp_all [scanFraction]
  | cons c cs =>
    have drop := length_dropWhile_le isDigit cs
    simp only [scanFraction] at h
    repeat' split at h
    · cases h
    · have := length_of_scanExponent h; simp; omega
    · exact length_of_scanExponent h

theorem length_of_scanNumber {negative : Bool} {n : Number} {cs r : List Char}
    (h : scanNumber negative cs = .ok (n,r)) : r.length < cs.length := by
  have parts := congrArg List.length (List.takeWhile_append_dropWhile (p := isDigit) (l := cs))
  simp only [scanNumber] at h
  repeat' split at h
  · cases h
  · cases h
  · rename_i digits _
    have := length_of_scanFraction h
    have : 0 < (cs.takeWhile isDigit).length := by
      rw [List.length_pos_iff]; simpa using digits
    simp only [List.length_append] at parts
    omega

theorem length_of_scanWord {start : Start} {ws cs r : List Char}
    (h : scanWord start ws cs = .ok ((),r)) : r.length ≤ cs.length := by
  fun_induction scanWord start ws cs <;> grind

/-! ### The scanner -/

/-- The tokens that are one character. -/
def punctuation? (c : Char) : Option Token :=
  if c = '[' then some .openArray else if c = ']' then some .closeArray
  else if c = '\x7b' then some .openObject else if c = '\x7d' then some .closeObject
  else if c = ':' then some .colon else if c = ',' then some .comma else none

/-- A fixed word, given by the character it begins with: how a reader knows it, its further
characters and its token. -/
def word? (c : Char) : Option (Start × List Char × Token) :=
  if c = 'n' then some (.null,['u','l','l'],.null)
  else if c = 't' then some (.other,['r','u','e'],.bool true)
  else if c = 'f' then some (.other,['a','l','s','e'],.bool false)
  else none

/-- The token that begins with `c`, and what follows it. -/
def scanToken (c : Char) (r : List Char) : Except Breach (Token × List Char) :=
  match punctuation? c, word? c with
  | some t, _ => .ok (t,r)
  | none, some (start,word,t) => (scanWord start word r).map fun (_,r) => (t,r)
  | none, none =>
    if c = '"' then (scanText .start r).map fun (s,r) => (.text s,r)
    else if c = '-' then (scanNumber true r).map fun (n,r) => (.number n,r)
    else if isDigit c then (scanNumber false (c :: r)).map fun (n,r) => (.number n,r)
    else .error .junk

theorem length_of_map_ok {A : Type} {x : Except Breach (A × List Char)} {f : A → Token}
    {t : Token} {r cs : List Char} (hx : ∀ a s, x = .ok (a,s) → s.length ≤ cs.length)
    (h : (x.map fun (a,s) => (f a,s)) = .ok (t,r)) : r.length ≤ cs.length := by
  cases x with
  | error => cases h
  | ok p => injection h with h; injection h with _ h; exact h ▸ hx p.1 p.2 rfl

theorem length_of_scanToken {c : Char} {cs r : List Char} {t : Token}
    (h : scanToken c cs = .ok (t,r)) : r.length ≤ cs.length := by
  unfold scanToken at h
  split at h
  · injection h with h; injection h with _ h; exact Nat.le_of_eq (congrArg List.length h.symm)
  · rename_i t' _ _
    exact length_of_map_ok (f := fun _ => t') (fun _ _ h => length_of_scanWord h) h
  · split at h
    · exact length_of_map_ok (fun _ _ h => Nat.le_of_lt (length_of_scanText h)) h
    split at h
    · exact length_of_map_ok (fun _ _ h => Nat.le_of_lt (length_of_scanNumber h)) h
    split at h
    · exact length_of_map_ok (fun _ _ h => Nat.le_of_lt_succ (@length_of_scanNumber false _ (c :: cs) _ h)) h
    cases h

/-- The tokens of a text, up to the first that is broken. -/
def tokens : List Char → List Token
  | [] => []
  | c :: r =>
    if isBlank c then tokens r
    else
      match h : scanToken c r with
      | .ok (t,rest) =>
        have := length_of_scanToken h
        t :: tokens rest
      | .error b => [.broken b]
  termination_by cs => cs.length

/-! ### Writing -/

def hexDigit (n : Nat) : Char := Nat.digitChar n

/-- A character as it stands in a quoted text. -/
def escape (c : Char) : List Char :=
  if c = '"' then ['\\','"'] else if c = '\\' then ['\\','\\']
  else if c = '\x08' then ['\\','b'] else if c = '\x0c' then ['\\','f'] else if c = '\n' then ['\\','n']
  else if c = '\x0d' then ['\\','r'] else if c = '\t' then ['\\','t']
  else if c.toNat < 0x20 then ['\\','u','0','0',hexDigit (c.toNat / 16),hexDigit (c.toNat % 16)]
  else [c]

def quote (s : String) : String := String.ofList ('"' :: s.toList.flatMap escape ++ ['"'])

end Json
end SymbolGraph
