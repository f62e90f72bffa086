import Mathlib.Data.List.Basic
import SymbolGraph.Json.Value

/-! A written value is read back as its tree. -/
namespace SymbolGraph
namespace Json

/-! ### Texts -/

theorem scanText_end (t : Reading) (rest : List Char) :
    scanText t ('"' :: rest) = .ok (t.finish,rest) := by
  rw [scanText.eq_def]; simp

theorem scanText_plain (t : Reading) {c : Char} (rest : List Char) (quote : c ≠ '"') (slash : c ≠ '\\')
    (control : ¬c.toNat < 0x20) : scanText t (c :: rest) = scanText (t.push c) rest := by
  rw [scanText.eq_def]; simp [quote,slash,control]

theorem scanText_short (t : Reading) {c e : Char} (rest : List Char) (h : escaped? e = some c)
    (unit : e ≠ 'u') : scanText t ('\\' :: e :: rest) = scanText (t.push c) rest := by
  rw [scanText.eq_def]; simp [unit,h]

theorem scanText_unit (t : Reading) {a b c d : Char} {n : Nat} (rest : List Char)
    (h : hexUnit? a b c d = some n) :
    scanText t ('\\' :: 'u' :: a :: b :: c :: d :: rest) = scanText (t.pushUnit n) rest := by
  rw [scanText.eq_def]; simp [h]

theorem hexUnit?_control : ∀ n < 0x20, hexUnit? '0' '0' (hexDigit (n / 16)) (hexDigit (n % 16)) = some n := by
  decide

/-- An escaped character is taken in as itself. -/
theorem scanText_escape (c : Char) (t : Reading) (rest : List Char) :
    scanText t (escape c ++ rest) = scanText (t.push c) rest := by
  rw [escape]
  iterate 7
    split
    · subst_vars; exact scanText_short t rest (by decide) (by decide)
  split
  · next control =>
    have unit : t.pushUnit c.toNat = t.push c := by
      have high : isHighSurrogate c.toNat = false := by simp [isHighSurrogate]; omega
      have low : isLowSurrogate c.toNat = false := by simp [isLowSurrogate]; omega
      simp [Reading.pushUnit,high,low,Char.ofNat_toNat]
    rw [← unit]
    exact scanText_unit t rest (hexUnit?_control _ control)
  · next quote slash _ _ _ _ _ control => exact scanText_plain t rest quote slash control

theorem scanText_escaped (cs chars rest : List Char) :
    scanText ⟨chars,none,false⟩ (cs.flatMap escape ++ '"' :: rest) =
      .ok (some (String.ofList (chars.reverse ++ cs)),rest) := by
  induction cs generalizing chars with
  | nil => simp [scanText_end,Reading.finish]
  | cons c cs ih =>
    rw [List.flatMap_cons,List.append_assoc,scanText_escape]
    simpa [Reading.push] using ih (c :: chars)

theorem scanToken_quote (s : String) (rest : List Char) :
    scanToken '"' (s.toList.flatMap escape ++ '"' :: rest) = .ok (.text s,rest) := by
  have h := scanText_escaped s.toList [] rest
  simp [scanToken,punctuation?,word?,Reading.start,h,Except.map]

/-! ### Numbers -/

/-- A number may end before this text. -/
def Stops (rest : List Char) : Prop := ∀ c ∈ rest.head?, isDigit c = false ∧ c ≠ '.' ∧ c ≠ 'e' ∧ c ≠ 'E'

theorem scanFraction_of_stops (n : Number) {rest : List Char} (h : Stops rest) :
    scanFraction n rest = .ok (n,rest) := by
  cases rest with
  | nil => rfl
  | cons c r =>
    obtain ⟨-,hp,he,hE⟩ := h c rfl
    simp [scanFraction,scanExponent,hp,he,hE]

theorem isDigit_of_mem_toDigits {c : Char} {n : Nat} (h : c ∈ Nat.toDigits 10 n) : isDigit c := by
  have := Nat.isDigit_of_mem_toDigits (by decide) (by decide) h
  simpa [Char.isDigit,isDigit,Char.le_def] using this

theorem digitChar_ne_zero : ∀ n < 10, n ≠ 0 → n.digitChar ≠ '0' := by decide

/-- Only zero begins with a zero. -/
theorem head?_toDigits {n : Nat} (h : n ≠ 0) : (Nat.toDigits 10 n).head? ≠ some '0' := by
  induction n using Nat.strongRecOn with
  | ind n ih =>
    by_cases small : n < 10
    · rw [Nat.toDigits_of_lt_base small]
      exact fun e => digitChar_ne_zero n small h (Option.some.inj e)
    · rw [Nat.toDigits_of_base_le (by decide) (Nat.le_of_not_lt small),
        List.head?_append_of_ne_nil _ Nat.toDigits_ne_nil]
      exact ih (n / 10) (Nat.div_lt_self (by omega) (by decide)) (by omega)

theorem scanNumber_toDigits (negative : Bool) (n : Nat) {rest : List Char} (h : Stops rest) :
    scanNumber negative (Nat.toDigits 10 n ++ rest) =
      .ok (⟨negative,Nat.toDigits 10 n,none,none⟩,rest) := by
  have digits : ∀ c ∈ Nat.toDigits 10 n, isDigit c := fun c hc => isDigit_of_mem_toDigits hc
  have stop : rest.takeWhile isDigit = [] ∧ rest.dropWhile isDigit = rest := by
    cases rest with
    | nil => simp
    | cons c r => simp [(h c rfl).1]
  have lone : ¬((Nat.toDigits 10 n).head? = some '0' ∧ 1 < (Nat.toDigits 10 n).length) := by
    rintro ⟨zero,long⟩
    obtain rfl : n = 0 := Decidable.byContradiction fun h => head?_toDigits h zero
    simp at long
  simp only [scanNumber,List.takeWhile_append_of_pos digits,List.dropWhile_append_of_pos digits,stop,
    List.append_nil,List.isEmpty_iff,Nat.toDigits_ne_nil,if_neg lone,scanFraction_of_stops _ h,if_false]

theorem isDigit_of_head {n : Nat} {c : Char} {cs : List Char} (h : Nat.toDigits 10 n = c :: cs) :
    isDigit c := isDigit_of_mem_toDigits (n := n) (by simp [h])

theorem ne_of_isDigit {c d : Char} (h : isDigit c) (hd : isDigit d = false) : c ≠ d := by
  rintro rfl
  rw [h] at hd
  cases hd

/-- No other token begins with a digit. -/
theorem scanToken_digit {c : Char} (h : isDigit c) (rest : List Char) :
    scanToken c rest = (scanNumber false (c :: rest)).map fun (n,r) => (.number n,r) := by
  have other {d : Char} (hd : isDigit d = false) : (c = d) = False := eq_false (ne_of_isDigit h hd)
  simp [scanToken,punctuation?,word?,h,other (d := '[') rfl,other (d := ']') rfl,other (d := '\x7b') rfl,
    other (d := '\x7d') rfl,other (d := ':') rfl,other (d := ',') rfl,other (d := 'n') rfl,
    other (d := 't') rfl,other (d := 'f') rfl,other (d := '"') rfl,other (d := '-') rfl]

/-! ### Tokens -/

/-- The characters of written tokens. -/
def spelled (ts : List Token) : List Char := ts.flatMap fun t => t.spell.toList

theorem tokens_cons {c : Char} {r rest : List Char} {t : Token} (blank : isBlank c = false)
    (h : scanToken c r = .ok (t,rest)) : tokens (c :: r) = t :: tokens rest := by
  rw [tokens,if_neg (by simp [blank])]
  split
  · next h' => rw [h] at h'; cases h'; rfl
  · next h' => rw [h] at h'; cases h'

theorem isBlank_of_isDigit {c : Char} (h : isDigit c) : isBlank c = false := by
  have other {d : Char} (hd : isDigit d = false) : c ≠ d := ne_of_isDigit h hd
  simp [isBlank,other (d := ' ') rfl,other (d := '\n') rfl,other (d := '\t') rfl,other (d := '\x0d') rfl]

theorem tokens_text (s : String) (rest : List Char) :
    tokens ((Token.text s).spell.toList ++ rest) = .text s :: tokens rest := by
  have spell : (Token.text s).spell.toList ++ rest = '"' :: (s.toList.flatMap escape ++ '"' :: rest) := by
    simp [Token.spell,quote]
  rw [spell]
  exact tokens_cons rfl (scanToken_quote s rest)

theorem tokens_int (n : Int) {rest : List Char} (h : Stops rest) :
    tokens ((Token.number (.ofInt n)).spell.toList ++ rest) = .number (.ofInt n) :: tokens rest := by
  have spell : (Token.number (.ofInt n)).spell.toList ++ rest =
      (if n < 0 then ['-'] else []) ++ (Nat.toDigits 10 n.natAbs ++ rest) := by
    simp [Token.spell,Number.spell,Number.ofInt]
  rw [spell]
  have scanned := scanNumber_toDigits (decide (n < 0)) n.natAbs h
  by_cases negative : n < 0
  · rw [decide_eq_true negative] at scanned
    rw [if_pos negative]
    refine tokens_cons rfl ?_
    simp [scanToken,punctuation?,word?,scanned,negative,Except.map,Number.ofInt]
  · rw [if_neg negative,List.nil_append]
    cases digits : Nat.toDigits 10 n.natAbs with
    | nil => exact absurd digits Nat.toDigits_ne_nil
    | cons d ds =>
      have digit := isDigit_of_head digits
      refine tokens_cons (r := ds ++ rest) (isBlank_of_isDigit digit) ?_
      rw [digits,decide_eq_false negative,List.cons_append] at scanned
      rw [scanToken_digit digit,scanned]
      simp [negative,Except.map,Number.ofInt,digits]

theorem stops_cons {c : Char} (rest : List Char)
    (h : isDigit c = false ∧ c ≠ '.' ∧ c ≠ 'e' ∧ c ≠ 'E') : Stops (c :: rest) := by
  rintro d ⟨⟩
  exact h

@[simp] theorem spelled_nil : spelled [] = [] := rfl

theorem spelled_cons (t : Token) (ts : List Token) : spelled (t :: ts) = t.spell.toList ++ spelled ts := by
  simp [spelled]

theorem spelled_append (ts us : List Token) : spelled (ts ++ us) = spelled ts ++ spelled us := by
  simp [spelled]

/-- A key is followed by a colon. -/
theorem tokens_key (k : String) (rest : List Char) :
    tokens ((Token.text k).spell.toList ++ ':' :: rest) = .text k :: .colon :: tokens rest := by
  rw [tokens_text,tokens_cons (c := ':') (t := .colon) rfl rfl]

mutual
theorem tokens_value : ∀ (v : Json) (rest : List Char), Stops rest →
    tokens (spelled v.toTokens ++ rest) = v.toTokens ++ tokens rest
  | .null, rest, _ => tokens_cons rfl rfl
  | .bool true, rest, _ => tokens_cons rfl rfl
  | .bool false, rest, _ => tokens_cons rfl rfl
  | .int n, rest, h => by simpa [toTokens,spelled] using tokens_int n h
  | .text s, rest, _ => by simpa [toTokens,spelled] using tokens_text s rest
  | .array vs, rest, _ => by
    have close : tokens (']' :: rest) = .closeArray :: tokens rest := tokens_cons rfl rfl
    have items := tokens_items vs (']' :: rest) (stops_cons rest (by decide))
    have opened : tokens ('[' :: (spelled (itemTokens vs) ++ ']' :: rest)) = .openArray ::
      tokens (spelled (itemTokens vs) ++ ']' :: rest) := tokens_cons rfl rfl
    simpa [toTokens,spelled_cons,spelled_append,items,close,Token.spell] using opened
  | .object ms, rest, _ => by
    have close : tokens ('\x7d' :: rest) = .closeObject :: tokens rest := tokens_cons rfl rfl
    have items := tokens_members ms ('\x7d' :: rest) (stops_cons rest (by decide))
    have opened : tokens ('\x7b' :: (spelled (memberTokens ms) ++ '\x7d' :: rest)) = .openObject ::
      tokens (spelled (memberTokens ms) ++ '\x7d' :: rest) := tokens_cons rfl rfl
    simpa [toTokens,spelled_cons,spelled_append,items,close,Token.spell] using opened
theorem tokens_items : ∀ (vs : List Json) (rest : List Char), Stops rest →
    tokens (spelled (itemTokens vs) ++ rest) = itemTokens vs ++ tokens rest
  | [], rest, _ => rfl
  | [v], rest, h => tokens_value v rest h
  | v :: w :: vs, rest, h => by
    have first := tokens_value v (',' :: (spelled (itemTokens (w :: vs)) ++ rest))
      (stops_cons _ (by decide))
    have comma : tokens (',' :: (spelled (itemTokens (w :: vs)) ++ rest)) = .comma ::
      tokens (spelled (itemTokens (w :: vs)) ++ rest) := tokens_cons rfl rfl
    simpa [itemTokens,spelled_cons,spelled_append,comma,tokens_items (w :: vs) rest h,Token.spell] using first
theorem tokens_members : ∀ (ms : List (String × Json)) (rest : List Char), Stops rest →
    tokens (spelled (memberTokens ms) ++ rest) = memberTokens ms ++ tokens rest
  | [], rest, _ => rfl
  | [(k,v)], rest, h => by
    simpa [memberTokens,spelled_cons,tokens_value v rest h,Token.spell] using
      tokens_key k (spelled v.toTokens ++ rest)
  | (k,v) :: m :: ms, rest, h => by
    have key := tokens_key k (spelled v.toTokens ++ ',' :: (spelled (memberTokens (m :: ms)) ++ rest))
    have first := tokens_value v (',' :: (spelled (memberTokens (m :: ms)) ++ rest))
      (stops_cons _ (by decide))
    have comma : tokens (',' :: (spelled (memberTokens (m :: ms)) ++ rest)) = .comma ::
      tokens (spelled (memberTokens (m :: ms)) ++ rest) := tokens_cons rfl rfl
    simpa [memberTokens,spelled_cons,spelled_append,first,comma,tokens_members (m :: ms) rest h,Token.spell]
      using key
end

theorem tokens_render (v : Json) : tokens v.render.toList = v.toTokens := by
  have all := tokens_value v [] nofun
  have chars : v.render.toList = spelled v.toTokens := by
    simp [render,spelled,String.toList_join,List.flatMap_map]
  rw [List.append_nil,tokens.eq_def [],List.append_nil] at all
  rw [chars,all]

/-! ### Trees -/

namespace Builder

/-- No value begins with the end of an array. -/
theorem toTokens_head (v : Json) : ∃ t ts, v.toTokens = t :: ts ∧ t ≠ .closeArray := by
  cases v <;> simp [toTokens]

/-- An array may begin with any value. -/
theorem step_firstItem {t : Token} (frames : List Frame) (h : t ≠ .closeArray) :
    step (.firstItem frames) t = step (.value (.array [] :: frames)) t := by
  cases t <;> first | exact absurd rfl h | rfl

theorem foldl_firstItem (v : Json) (vs : List Json) (frames : List Frame) :
    (itemTokens (v :: vs)).foldl step (.firstItem frames) =
      (itemTokens (v :: vs)).foldl step (.value (.array [] :: frames)) := by
  obtain ⟨t,ts,e,ne⟩ := toTokens_head v
  cases vs <;> simp only [itemTokens,e,List.cons_append,List.foldl_cons,step_firstItem frames ne]

theorem foldl_firstKey (m : String × Json) (ms : List (String × Json)) (frames : List Frame) :
    (memberTokens (m :: ms)).foldl step (.firstKey frames) =
      (memberTokens (m :: ms)).foldl step (.key [] frames) := by
  cases ms <;> rfl

mutual
theorem foldl_value : ∀ (v : Json) (frames : List Frame),
    v.toTokens.foldl step (.value frames) = complete v.toDoc frames
  | .null, _ | .bool _, _ | .int _, _ | .text _, _ => rfl
  | .array [], _ => rfl
  | .array (v :: vs), frames => by
    have items := foldl_items (v :: vs) nofun [] frames
    have opened : step (.value frames) .openArray = .firstItem frames := rfl
    rw [toTokens,List.cons_append,List.foldl_cons,opened,List.foldl_append,foldl_firstItem,items]
    simp [step,toDoc]
  | .object [], _ => rfl
  | .object (m :: ms), frames => by
    have members := foldl_members (m :: ms) nofun [] frames
    have opened : step (.value frames) .openObject = .firstKey frames := rfl
    rw [toTokens,List.cons_append,List.foldl_cons,opened,List.foldl_append,foldl_firstKey,members]
    simp [step,toDoc]
theorem foldl_items : ∀ (vs : List Json), vs ≠ [] → ∀ (items : List Doc) (frames : List Frame),
    (itemTokens vs).foldl step (.value (.array items :: frames)) =
      .afterItem ((itemDocs vs).reverse ++ items) frames
  | [v], _, items, frames => by
    simpa [itemTokens,itemDocs,complete] using foldl_value v (.array items :: frames)
  | v :: w :: vs, _, items, frames => by
    simpa [itemTokens,itemDocs,complete,foldl_value v,step] using
      foldl_items (w :: vs) nofun (v.toDoc :: items) frames
theorem foldl_members : ∀ (ms : List (String × Json)), ms ≠ [] → ∀ (members : List Member)
    (frames : List Frame), (memberTokens ms).foldl step (.key members frames) =
      .afterMember ((memberDocs ms).reverse ++ members) frames
  | [(k,v)], _, members, frames => by
    simpa [memberTokens,memberDocs,complete,step,stepKey] using foldl_value v (.member members k :: frames)
  | (k,v) :: m :: ms, _, members, frames => by
    simpa [memberTokens,memberDocs,complete,foldl_value v,step,stepKey] using
      foldl_members (m :: ms) nofun ((some k,v.toDoc) :: members) frames
end

end Builder

theorem ofString_render (v : Json) : Doc.ofString v.render = (v.toDoc,false) := by
  rw [Doc.ofString,tokens_render,Builder.foldl_value]
  rfl

end Json
end SymbolGraph
