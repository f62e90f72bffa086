import Mathlib.Data.List.TakeWhile
import SymbolGraph.Text.TypeText

/-! Type texts are those that split into a variance word, a name, a bracket and a mark, with blanks between them. A text
may split in several ways, but all of them tell the same, and this is what is read. -/
namespace SymbolGraph

namespace Text

/-- The characters with the property White_Space, by number. -/
def spaces : List Nat :=
  [0x9,0xa,0xb,0xc,0xd,0x20,0x85,0xa0,0x1680,0x2000,0x2001,0x2002,0x2003,0x2004,0x2005,0x2006,0x2007,0x2008,0x2009,
    0x200a,0x2028,0x2029,0x202f,0x205f,0x3000]

theorem toNat_mem_spaces {c : Char} (h : isSpace c = true) : c.toNat ∈ spaces := by
  simp only [isSpace,Bool.or_eq_true,Bool.and_eq_true,decide_eq_true_eq,beq_iff_eq] at h
  simp only [spaces,List.mem_cons,List.not_mem_nil,or_false]
  omega

theorem forall_isSpace {P : Char → Prop} (h : ∀ n ∈ spaces, P (Char.ofNat n)) {c : Char} (hc : isSpace c = true) :
    P c := by
  have own := h _ (toNat_mem_spaces hc)
  rwa [Char.ofNat_toNat] at own

end Text

namespace TypeText

open Text

/-- Nothing but blanks. -/
def Blank (cs : List Char) : Prop := ∀ c ∈ cs, isSpace c = true

/-- Identifiers with dots between them. -/
inductive IsPath : List Char → Prop
  | segment {c : Char} {r : List Char} (start : isNameStart c = true) (parts : ∀ d ∈ r, isNamePart d = true) :
    IsPath (c :: r)
  | dotted {c : Char} {r path : List Char} (start : isNameStart c = true) (parts : ∀ d ∈ r, isNamePart d = true)
    (rest : IsPath path) : IsPath (c :: r ++ '.' :: path)

def IsName (cs : List Char) : Prop := cs = ['*'] ∨ IsPath cs

/-- A bracket on one line. -/
def IsBracket (cs : List Char) : Prop := ∃ inner, cs = '<' :: inner ++ ['>'] ∧ '\n' ∉ inner

def mark (nullable : Bool) : List Char := if nullable then ['?'] else []

/-- A name, a bracket and a mark, the latter two if they are there, each with blanks behind it. -/
structure Body where
  name : List Char
  gap : List Char
  bracket : List Char
  gap' : List Char
  nullable : Bool
  trail : List Char
  named : IsName name
  bracketed : bracket = [] ∨ IsBracket bracket
  blank : Blank gap ∧ Blank gap' ∧ Blank trail

def Body.ending (b : Body) : List Char := b.gap ++ (b.bracket ++ (b.gap' ++ (mark b.nullable ++ b.trail)))

def Body.text (b : Body) : List Char := b.name ++ b.ending

def Body.type (b : Body) (variance : Variance) : TypeText :=
  ⟨if b.name = ['*'] then .star else variance,String.ofList b.name,b.nullable⟩

def keyword : Variance → List Char
  | .input => ['i','n']
  | .output => ['o','u','t']
  | .invariant | .star => []

/-- A text in its parts. -/
structure Split extends Body where
  lead : List Char
  variance : Variance
  apart : List Char
  /-- There are blanks behind a variance word, and nothing if there is none. -/
  worded : variance = .invariant ∧ apart = [] ∨ (variance = .input ∨ variance = .output) ∧ apart ≠ [] ∧ Blank apart
  led : Blank lead

def Split.text (p : Split) : List Char := p.lead ++ (keyword p.variance ++ (p.apart ++ p.toBody.text))

def Split.type (p : Split) : TypeText := p.toBody.type p.variance

/-! ### Characters -/

theorem not_isNamePart_of_isSpace {c : Char} (h : isSpace c = true) : isNamePart c = false ∧ c ≠ '.' :=
  forall_isSpace (P := fun c => isNamePart c = false ∧ c ≠ '.') (by decide +kernel) h

theorem not_isSpace_of_isNameStart {c : Char} (h : isNameStart c = true) : isSpace c = false := by
  cases space : isSpace c with
  | false => rfl
  | true =>
    have none := forall_isSpace (P := fun c => isNameStart c = false) (by decide +kernel) space
    cases none.symm.trans h

/-! ### Blanks -/

variable {cs l r : List Char} {v : Variance} {b : Bool}

theorem trimStart_append (hl : Blank l) (hr : ∀ c ∈ r.head?, isSpace c = false) : trimStart (l ++ r) = r := by
  rw [trimStart,List.dropWhile_append_of_pos hl]
  cases r with
  | nil => rfl
  | cons c r => rw [List.dropWhile_cons_of_neg (by rw [hr c rfl]; exact Bool.false_ne_true)]

theorem trimStart_eq (cs : List Char) :
    ∃ l, Blank l ∧ cs = l ++ trimStart cs ∧ ∀ c ∈ (trimStart cs).head?, isSpace c = false := by
  refine ⟨cs.takeWhile isSpace,fun c hc => ?_,List.takeWhile_append_dropWhile.symm,fun c hc => ?_⟩
  · exact List.mem_takeWhile_imp hc
  · have stopped := List.head?_dropWhile_not isSpace cs
    rw [trimStart] at hc
    rw [hc] at stopped
    simpa using stopped

theorem trimEnd_append (hr : Blank r) (hl : ∀ c ∈ l.getLast?, isSpace c = false) : trimEnd (l ++ r) = l := by
  have turned : trimStart (r.reverse ++ l.reverse) = l.reverse :=
    trimStart_append (fun c hc => hr c (List.mem_reverse.mp hc)) (by rwa [List.head?_reverse])
  rw [trimEnd,List.reverse_append]
  exact (congrArg List.reverse turned).trans l.reverse_reverse

theorem trimEnd_eq (cs : List Char) : ∃ r, Blank r ∧ cs = trimEnd cs ++ r := by
  obtain ⟨l,blank,e,-⟩ := trimStart_eq cs.reverse
  have turned := congrArg List.reverse e
  rw [List.reverse_reverse,List.reverse_append] at turned
  exact ⟨l.reverse,fun c hc => blank c (List.mem_reverse.mp hc),turned⟩

/-! ### Names -/

/-- A path does not go on with these characters. -/
def Stops (cs : List Char) : Prop := ∀ c ∈ cs.head?, isNamePart c = false ∧ c ≠ '.'

theorem Stops.append (hl : Stops l) (hr : Stops r) : Stops (l ++ r) := by
  cases l with
  | nil => exact hr
  | cons c l => exact hl

theorem Blank.stops (h : Blank cs) : Stops cs := fun c hc => not_isNamePart_of_isSpace (h c (List.mem_of_head? hc))

section Paths

variable {c : Char} {parts path rest name : List Char}

theorem splitPath_start (h : isNameStart c = true) :
    splitPath true (c :: r) = (c :: (splitPath false r).1,(splitPath false r).2) := by
  rw [splitPath,if_pos rfl,if_pos h]

theorem splitPath_part (h : isNamePart c = true) :
    splitPath false (c :: r) = (c :: (splitPath false r).1,(splitPath false r).2) := by
  rw [splitPath,if_neg Bool.false_ne_true,if_pos h]

theorem splitPath_parts (h : ∀ d ∈ parts, isNamePart d = true) :
    splitPath false (parts ++ r) = (parts ++ (splitPath false r).1,(splitPath false r).2) := by
  induction parts with
  | nil => rfl
  | cons d parts ih =>
    obtain ⟨own,rest⟩ := List.forall_mem_cons.mp h
    rw [List.cons_append,splitPath_part own,ih rest,List.cons_append]

theorem splitPath_dot (h : r.head?.any isNameStart = true) :
    splitPath false ('.' :: r) = ('.' :: (splitPath true r).1,(splitPath true r).2) := by
  have dot : isNamePart '.' = false := by decide
  rw [splitPath,if_neg Bool.false_ne_true,dot,if_neg Bool.false_ne_true,if_pos (by simp [h])]

theorem splitPath_stop (h : Stops rest) : splitPath false rest = ([],rest) := by
  cases rest with
  | nil => rfl
  | cons c rest =>
    obtain ⟨part,dot⟩ := h c rfl
    rw [splitPath,if_neg Bool.false_ne_true,part,if_neg Bool.false_ne_true,if_neg (by simp [dot])]

theorem IsPath.exists_start (h : IsPath path) : ∃ c r, path = c :: r ∧ isNameStart c = true := by
  cases h with
  | segment start => exact ⟨_,_,rfl,start⟩
  | dotted start => exact ⟨_,_,rfl,start⟩

/-- The longest path is split off. -/
theorem IsPath.splitPath_eq (h : IsPath path) (stop : Stops rest) : splitPath true (path ++ rest) = (path,rest) := by
  induction h with
  | segment start inner =>
    rw [List.cons_append,splitPath_start start,splitPath_parts inner,splitPath_stop stop,List.append_nil]
  | @dotted c parts path start inner below ih =>
    have starts : (path ++ rest).head?.any isNameStart = true := by
      obtain ⟨d,r,rfl,start⟩ := below.exists_start
      exact start
    rw [List.cons_append,List.cons_append,List.append_assoc,List.cons_append,splitPath_start start,
      splitPath_parts inner,splitPath_dot starts,ih]

theorem splitPath_append (fresh : Bool) (cs : List Char) : (splitPath fresh cs).1 ++ (splitPath fresh cs).2 = cs := by
  induction cs generalizing fresh with
  | nil => rfl
  | cons c r ih =>
    rw [splitPath]
    by_cases inside : (if fresh then isNameStart c else isNamePart c) = true
    · rw [if_pos inside]
      exact congrArg (c :: ·) (ih false)
    · rw [if_neg inside]
      split
      · exact congrArg (c :: ·) (ih true)
      · rfl

/-- What is split off is a path, or goes on with the segment in front of it. -/
theorem isPath_splitPath (cs : List Char) :
    (cs.head?.any isNameStart = true → IsPath (splitPath true cs).1) ∧
      ∀ c parts, isNameStart c = true → (∀ d ∈ parts, isNamePart d = true) →
        IsPath (c :: parts ++ (splitPath false cs).1) := by
  induction cs with
  | nil => exact ⟨nofun,fun c parts start inner => by rw [splitPath,List.append_nil]; exact .segment start inner⟩
  | cons e cs ih =>
    refine ⟨fun start => ?_,fun c parts start inner => ?_⟩
    · rw [splitPath_start start]
      exact ih.2 e [] start (List.forall_mem_nil _)
    · by_cases part : isNamePart e = true
      · have longer := ih.2 c (parts ++ [e]) start
          (List.forall_mem_append.mpr ⟨inner,List.forall_mem_singleton.mpr part⟩)
        rw [splitPath_part part]
        rwa [List.cons_append,List.append_assoc] at longer
      · by_cases dot : e = '.' ∧ cs.head?.any isNameStart = true
        · obtain ⟨rfl,starts⟩ := dot
          rw [splitPath_dot starts]
          exact .dotted start inner (ih.1 starts)
        · rw [splitPath,if_neg Bool.false_ne_true,if_neg part,if_neg (by simpa using dot),List.append_nil]
          exact .segment start inner

theorem splitName_start (h : isNameStart c = true) : splitName (c :: cs) = some (splitPath true (c :: cs)) := by
  have star : c ≠ '*' := by
    rintro rfl
    exact absurd h (by decide)
  rw [splitName,splitPath_start h]
  intro _ first
  exact star (List.cons.inj first).1

theorem splitName_eq (h : IsName name) (stop : Stops rest) : splitName (name ++ rest) = some (name,rest) := by
  rcases h with rfl | path
  · rfl
  · obtain ⟨c,r,rfl,start⟩ := path.exists_start
    rw [List.cons_append,splitName_start start]
    exact congrArg some (path.splitPath_eq stop)

/-- Nothing is split off where no name begins. -/
theorem splitName_eq_none (h : ∀ c ∈ cs.head?, isNameStart c = false ∧ c ≠ '*') : splitName cs = none := by
  cases cs with
  | nil => rfl
  | cons c cs =>
    obtain ⟨start,star⟩ := h c rfl
    have split : splitPath true (c :: cs) = ([],c :: cs) := by
      rw [splitPath,if_pos rfl,start,if_neg Bool.false_ne_true]
      rfl
    rw [splitName,split]
    intro _ first
    exact star (List.cons.inj first).1

theorem exists_of_splitName (h : splitName cs = some (name,rest)) : IsName name ∧ cs = name ++ rest := by
  by_cases fails : ∀ c ∈ cs.head?, isNameStart c = false ∧ c ≠ '*'
  · rw [splitName_eq_none fails] at h
    cases h
  · obtain ⟨c,hc,first⟩ : ∃ c ∈ cs.head?, isNameStart c = true ∨ c = '*' := by
      simpa only [not_forall,exists_prop,not_and_or,Bool.not_eq_false,not_not] using fails
    clear fails
    obtain ⟨cs,rfl⟩ := List.head?_eq_some_iff.mp hc
    rcases first with start | rfl
    · have path := (isPath_splitPath (c :: cs)).1 start
      have whole := splitPath_append true (c :: cs)
      rw [splitName_start start] at h
      rw [Option.some.inj h] at path whole
      exact ⟨.inr path,whole.symm⟩
    · obtain ⟨rfl,rfl⟩ := Prod.mk.inj (Option.some.inj h)
      exact ⟨.inl rfl,rfl⟩

end Paths

/-! ### Brackets and marks -/

section Endings

variable {bracket gap trail : List Char} {n : Bool}

theorem isBracket_eq_true : isBracket cs = true ↔ cs = [] ∨ IsBracket cs := by
  cases cs with
  | nil => simp [isBracket]
  | cons c cs =>
    simp only [isBracket,Bool.and_eq_true,beq_iff_eq,List.head?_cons,Option.some.injEq,List.getLast?_eq_some_iff,
      decide_eq_true_eq,Bool.not_eq_true',List.contains_eq_mem,decide_eq_false_iff_not,reduceCtorEq,false_or]
    constructor
    · rintro ⟨⟨⟨rfl,inner,e⟩,long⟩,line⟩
      cases inner with
      | nil =>
        rw [e] at long
        exact absurd long (by decide)
      | cons d inner =>
        obtain ⟨rfl,rfl⟩ := List.cons.inj e
        exact ⟨inner,rfl,fun mem => line (by simp [mem])⟩
    · rintro ⟨inner,e,line⟩
      obtain ⟨rfl,rfl⟩ := List.cons.inj e
      exact ⟨⟨⟨rfl,'<' :: inner,rfl⟩,by simp⟩,by simpa using line⟩

theorem head_of_bracket (h : bracket = [] ∨ IsBracket bracket) : ∀ c ∈ bracket.head?, c = '<' := by
  rcases h with rfl | ⟨inner,rfl,-⟩
  · nofun
  · rintro _ ⟨⟩
    rfl

theorem getLast_of_bracket (h : bracket = [] ∨ IsBracket bracket) : ∀ c ∈ bracket.getLast?, c = '>' := by
  rcases h with rfl | ⟨inner,rfl,-⟩
  · nofun
  · intro c hc
    rw [List.getLast?_concat] at hc
    exact (Option.some.inj hc).symm

theorem splitMark_eq (h : bracket = [] ∨ IsBracket bracket) (blank : Blank gap) (blank' : Blank trail) :
    splitMark (bracket ++ (gap ++ (mark n ++ trail))) = (n,bracket) := by
  have closed : ∀ c ∈ bracket.getLast?, isSpace c = false := by
    intro c hc
    rw [getLast_of_bracket h c hc]
    rfl
  cases n with
  | true =>
    have trimmed : trimEnd (bracket ++ gap ++ ['?'] ++ trail) = bracket ++ gap ++ ['?'] :=
      trimEnd_append blank' (by rw [List.getLast?_concat]; rintro _ ⟨⟩; rfl)
    have parts : bracket ++ (gap ++ (mark true ++ trail)) = bracket ++ gap ++ ['?'] ++ trail := by simp [mark]
    rw [splitMark,parts,trimmed,List.reverse_concat]
    simp only [List.reverse_reverse]
    rw [trimEnd_append blank closed]
  | false =>
    have trimmed : trimEnd (bracket ++ (gap ++ trail)) = bracket :=
      trimEnd_append (List.forall_mem_append.mpr ⟨blank,blank'⟩) closed
    have parts : bracket ++ (gap ++ (mark false ++ trail)) = bracket ++ (gap ++ trail) := by simp [mark]
    rw [splitMark,parts,trimmed]
    split
    · next r e =>
      have last : bracket.getLast? = some '?' := by rw [← List.head?_reverse,e]; rfl
      cases getLast_of_bracket h _ last
    · rfl

theorem exists_of_splitMark (h : splitMark cs = (n,bracket)) :
    ∃ gap trail, Blank gap ∧ Blank trail ∧ cs = bracket ++ (gap ++ (mark n ++ trail)) := by
  obtain ⟨trail,blank,e⟩ := trimEnd_eq cs
  rw [splitMark] at h
  split at h
  · next r turned =>
    obtain ⟨rfl,rfl⟩ := Prod.mk.inj h
    obtain ⟨gap,blank',e'⟩ := trimEnd_eq r.reverse
    refine ⟨gap,trail,blank',blank,?_⟩
    have marked : trimEnd cs = r.reverse ++ ['?'] := by
      rw [← List.reverse_reverse (trimEnd cs),turned,List.reverse_cons]
    rw [← List.append_assoc,← e',← List.append_assoc]
    rw [marked] at e
    exact e
  · obtain ⟨rfl,rfl⟩ := Prod.mk.inj h
    exact ⟨[],trail,List.forall_mem_nil _,blank,e⟩

end Endings

/-! ### Behind the variance word -/

theorem stops_mark (n : Bool) : Stops (mark n) := by
  cases n with
  | false => nofun
  | true =>
    rintro _ ⟨⟩
    decide

namespace Body

theorem stops (b : Body) : Stops b.ending := by
  have bracket : Stops b.bracket := by
    intro c hc
    rw [head_of_bracket b.bracketed c hc]
    decide
  exact b.blank.1.stops.append (bracket.append (b.blank.2.1.stops.append
    ((stops_mark _).append b.blank.2.2.stops)))

theorem splitName_text (b : Body) : splitName b.text = some (b.name,b.ending) := splitName_eq b.named b.stops

/-- Behind the blanks there is the bracket, else the mark, else nothing. -/
theorem exists_trimStart_ending (b : Body) :
    (∃ gap trail, Blank gap ∧ Blank trail ∧ trimStart b.ending = b.bracket ++ (gap ++ (mark b.nullable ++ trail))) ∧
      ∀ c ∈ (trimStart b.ending).head?, c = '<' ∨ c = '?' := by
  obtain ⟨name,gap,bracket,gap',nullable,trail,named,bracketed,blank,blank',blank''⟩ := b
  rcases bracketed with rfl | ⟨inner,rfl,line⟩
  · have before : Blank (gap ++ gap') := List.forall_mem_append.mpr ⟨blank,blank'⟩
    cases nullable with
    | false =>
      have e : trimStart (gap ++ ([] ++ (gap' ++ (mark false ++ trail)))) = [] := by
        have blanks := trimStart_append (r := []) (List.forall_mem_append.mpr ⟨before,blank''⟩) nofun
        simpa [mark] using blanks
      rw [ending,e]
      exact ⟨⟨[],[],List.forall_mem_nil _,List.forall_mem_nil _,rfl⟩,nofun⟩
    | true =>
      have e : trimStart (gap ++ ([] ++ (gap' ++ (mark true ++ trail)))) = mark true ++ trail := by
        have marked := trimStart_append (r := mark true ++ trail) before (by rintro _ ⟨⟩; rfl)
        simpa using marked
      rw [ending,e]
      exact ⟨⟨[],trail,List.forall_mem_nil _,blank'',rfl⟩,by rintro _ ⟨⟩; exact .inr rfl⟩
  · rw [ending,trimStart_append blank (by rintro _ ⟨⟩; rfl)]
    exact ⟨⟨gap',trail,blank',blank'',rfl⟩,by rintro _ ⟨⟩; exact .inl rfl⟩

theorem parseName_text (b : Body) (v : Variance) : parseName v b.text = some (b.type v) := by
  obtain ⟨⟨gap,trail,blank,blank',e⟩,-⟩ := b.exists_trimStart_ending
  rw [parseName,b.splitName_text,Option.bind_eq_bind,Option.bind_some]
  simp only [e]
  rw [splitMark_eq b.bracketed blank blank']
  exact if_pos (isBracket_eq_true.mpr b.bracketed)

/-- Bodies of the same text have the same name and the same mark. -/
theorem name_eq_of_text_eq {b b' : Body} (h : b.text = b'.text) : b.name = b'.name ∧ b.nullable = b'.nullable := by
  have same : b.type .invariant = b'.type .invariant := by
    have parsed := b.parseName_text .invariant
    rw [h,b'.parseName_text] at parsed
    exact (Option.some.inj parsed).symm
  exact ⟨String.ofList_injective (congrArg TypeText.name same),congrArg TypeText.nullable same⟩

end Body

theorem exists_body {t : TypeText} (h : parseName v cs = some t) : ∃ b : Body, b.text = cs ∧ b.type v = t := by
  obtain ⟨⟨name,rest⟩,split,found⟩ := Option.bind_eq_some_iff.mp h
  obtain ⟨named,rfl⟩ := exists_of_splitName split
  obtain ⟨gap,blank,e,-⟩ := trimStart_eq rest
  rcases marked : splitMark (trimStart rest) with ⟨nullable,bracket⟩
  obtain ⟨gap',trail,blank',blank'',e'⟩ := exists_of_splitMark marked
  simp only [marked,Option.ite_none_right_eq_some,Option.some.injEq] at found
  refine ⟨⟨name,gap,bracket,gap',nullable,trail,named,isBracket_eq_true.mp found.1,blank,blank',blank''⟩,?_,found.2⟩
  rw [Body.text,Body.ending,← e',← e]

/-! ### Variance words -/

theorem splitVariance_keyword (word : v = .input ∨ v = .output) (long : l ≠ []) (blank : Blank l)
    (hr : ∀ c ∈ r.head?, isSpace c = false) : splitVariance (keyword v ++ (l ++ r)) = some (v,r) := by
  cases l with
  | nil => exact absurd rfl long
  | cons c l =>
    obtain ⟨own,rest⟩ := List.forall_mem_cons.mp blank
    have trimmed : trimStart (l ++ r) = r := trimStart_append rest hr
    rcases word with rfl | rfl
    · exact (if_pos own).trans (congrArg (fun r => some (Variance.input,r)) trimmed)
    · exact (if_pos own).trans (congrArg (fun r => some (Variance.output,r)) trimmed)

theorem exists_of_spaced {w : Variance} {c : Char}
    (h : (if isSpace c then some (w,trimStart cs) else none) = some (v,r)) :
    w = v ∧ (∀ d ∈ r.head?, isSpace d = false) ∧ ∃ l, l ≠ [] ∧ Blank l ∧ c :: cs = l ++ r := by
  obtain ⟨space,h⟩ := Option.ite_none_right_eq_some.mp h
  obtain ⟨rfl,rfl⟩ := Prod.mk.inj (Option.some.inj h)
  obtain ⟨l,blank,e,first⟩ := trimStart_eq cs
  exact ⟨rfl,first,c :: l,List.cons_ne_nil _ _,List.forall_mem_cons.mpr ⟨space,blank⟩,congrArg (c :: ·) e⟩

theorem exists_of_splitVariance (h : splitVariance cs = some (v,r)) :
    (v = .input ∨ v = .output) ∧ (∀ c ∈ r.head?, isSpace c = false) ∧
      ∃ l, l ≠ [] ∧ Blank l ∧ cs = keyword v ++ (l ++ r) := by
  rw [splitVariance.eq_def] at h
  split at h
  · obtain ⟨rfl,first,l,long,blank,e⟩ := exists_of_spaced h
    exact ⟨.inl rfl,first,l,long,blank,congrArg ('i' :: 'n' :: ·) e⟩
  · obtain ⟨rfl,first,l,long,blank,e⟩ := exists_of_spaced h
    exact ⟨.inr rfl,first,l,long,blank,congrArg ('o' :: 'u' :: 't' :: ·) e⟩
  · cases h

/-- Variance words could be names. -/
theorem isPath_keyword (word : v = .input ∨ v = .output) : IsPath (keyword v) := by
  rcases word with rfl | rfl
  · exact .segment (by decide) (List.forall_mem_singleton.mpr (by decide))
  · exact .segment (by decide) (List.forall_mem_cons.mpr ⟨by decide,List.forall_mem_singleton.mpr (by decide)⟩)

/-- A body that begins with a variance word is named so, and no name follows. -/
theorem Body.splitName_eq_none {b : Body} (h : splitVariance b.text = some (v,r)) : splitName r = none := by
  obtain ⟨word,first,l,long,blank,e⟩ := exists_of_splitVariance h
  have stop : Stops (l ++ r) := by
    cases l with
    | nil => exact absurd rfl long
    | cons c l =>
      rintro _ ⟨⟩
      exact blank.stops c rfl
  -- The longest name at the beginning is the variance word, as blanks follow. So no name begins behind them.
  have ending : b.ending = l ++ r := by
    have split := b.splitName_text
    rw [e,splitName_eq (.inr (isPath_keyword word)) stop] at split
    exact (Prod.mk.inj (Option.some.inj split)).2.symm
  have behind := b.exists_trimStart_ending.2
  rw [ending,trimStart_append blank first] at behind
  refine TypeText.splitName_eq_none fun c hc => ?_
  rcases behind c hc with rfl | rfl
  · decide
  · decide

/-! ### Whole texts -/

theorem IsName.head_not_isSpace (h : IsName cs) : ∃ c r, cs = c :: r ∧ isSpace c = false := by
  rcases h with rfl | path
  · exact ⟨_,_,rfl,rfl⟩
  · obtain ⟨c,r,e,start⟩ := path.exists_start
    exact ⟨c,r,e,not_isSpace_of_isNameStart start⟩

namespace Split

theorem head_body (p : Split) : ∀ c ∈ p.toBody.text.head?, isSpace c = false := by
  obtain ⟨c,r,e,first⟩ := p.named.head_not_isSpace
  rw [Body.text,e]
  rintro _ ⟨⟩
  exact first

theorem trimStart_text (p : Split) : trimStart p.text = keyword p.variance ++ (p.apart ++ p.toBody.text) := by
  refine trimStart_append p.led ?_
  rcases p.worded with ⟨plain,none⟩ | ⟨word | word,-⟩
  · rw [plain,none]
    exact p.head_body
  · rw [word]
    rintro _ ⟨⟩
    rfl
  · rw [word]
    rintro _ ⟨⟩
    rfl

/-- The variance word is seen where there is one, and nowhere else does a name follow what looks like one. -/
theorem splitVariance_text (p : Split) :
    p.variance = .invariant ∧ trimStart p.text = p.toBody.text ∧
        (∀ v r, splitVariance (trimStart p.text) = some (v,r) → splitName r = none) ∨
      p.variance ≠ .invariant ∧ splitVariance (trimStart p.text) = some (p.variance,p.toBody.text) := by
  rcases p.worded with ⟨plain,none⟩ | ⟨word,long,blank⟩
  · have e : trimStart p.text = p.toBody.text := by rw [p.trimStart_text,plain,none]; rfl
    exact .inl ⟨plain,e,fun v r split => Body.splitName_eq_none (e ▸ split)⟩
  · refine .inr ⟨?_,?_⟩
    · rcases word with word | word
      · rw [word]; decide
      · rw [word]; decide
    · rw [p.trimStart_text]
      exact splitVariance_keyword word long blank p.head_body

theorem parse?_text (p : Split) : parse? (String.ofList p.text) = some p.type := by
  rw [parse?,String.toList_ofList]
  show (((splitVariance (trimStart p.text)).bind fun found => parseName found.1 found.2) <|>
    parseName .invariant (trimStart p.text)) = some p.type
  rcases p.splitVariance_text with ⟨plain,e,only⟩ | ⟨-,split⟩
  · have none : ((splitVariance (trimStart p.text)).bind fun found => parseName found.1 found.2) = none := by
      refine Option.bind_eq_none_iff.mpr fun found split => Option.bind_eq_none_iff.mpr fun _ named => ?_
      cases (only found.1 found.2 split).symm.trans named
    rw [none,e,p.parseName_text,type,plain]
    rfl
  · rw [split,Option.bind_some,p.parseName_text]
    rfl

/-- What two splits of one text tell is the same. -/
theorem eq_of_text_eq {p q : Split} (h : p.text = q.text) :
    p.variance = q.variance ∧ p.name = q.name ∧ p.nullable = q.nullable := by
  have left := p.splitVariance_text
  have right := q.splitVariance_text
  rw [h] at left
  -- A text cannot be split both with a variance word and without one: the name of the one split would not be seen.
  rcases left with ⟨plain,e,only⟩ | ⟨-,split⟩
  · rcases right with ⟨plain',e',-⟩ | ⟨-,split'⟩
    · exact ⟨plain.trans plain'.symm,Body.name_eq_of_text_eq (e.symm.trans e')⟩
    · have none := only _ _ split'
      rw [q.splitName_text] at none
      cases none
  · rcases right with ⟨-,-,only⟩ | ⟨-,split'⟩
    · have none := only _ _ split
      rw [p.splitName_text] at none
      cases none
    · obtain ⟨variance,body⟩ := Prod.mk.inj (Option.some.inj (split.symm.trans split'))
      exact ⟨variance,Body.name_eq_of_text_eq body⟩

end Split

theorem exists_split {s : String} {t : TypeText} (h : parse? s = some t) :
    ∃ p : Split, String.ofList p.text = s ∧ p.type = t := by
  obtain ⟨lead,led,e,-⟩ := trimStart_eq s.toList
  have whole {cs : List Char} (same : cs = trimStart s.toList) : String.ofList (lead ++ cs) = s := by
    rw [same,← e,String.ofList_toList]
  rw [parse?] at h
  rcases Option.or_eq_some_iff.mp (Option.orElse_eq_or.symm.trans h) with worded | ⟨-,plain⟩
  · obtain ⟨⟨v,r⟩,split,parsed⟩ := Option.bind_eq_some_iff.mp worded
    obtain ⟨word,-,apart,long,blank,e'⟩ := exists_of_splitVariance split
    obtain ⟨b,rfl,rfl⟩ := exists_body parsed
    exact ⟨⟨b,lead,v,apart,.inr ⟨word,long,blank⟩,led⟩,whole e'.symm,rfl⟩
  · obtain ⟨b,same,rfl⟩ := exists_body plain
    exact ⟨⟨b,lead,.invariant,[],.inl ⟨rfl,rfl⟩,led⟩,whole same,rfl⟩

theorem IsPath.ne_star {path : List Char} (h : IsPath path) : path ≠ ['*'] := by
  obtain ⟨c,r,rfl,start⟩ := h.exists_start
  intro e
  rw [(List.cons.inj e).1] at start
  exact absurd start (by decide)

/-- The split of a path with a variance word, a bracket and a mark, and no more blanks than needed. -/
def Split.ofPath (variance : Variance) {path bracket : List Char} (nullable : Bool) (star : variance ≠ .star)
    (named : IsPath path) (bracketed : bracket = [] ∨ IsBracket bracket) : Split where
  name := path
  gap := []
  bracket := bracket
  gap' := []
  nullable := nullable
  trail := []
  named := .inr named
  bracketed := bracketed
  blank := ⟨List.forall_mem_nil _,List.forall_mem_nil _,List.forall_mem_nil _⟩
  lead := []
  variance := variance
  apart := if variance = .invariant then [] else [' ']
  worded := by
    cases variance with
    | invariant => exact .inl ⟨rfl,rfl⟩
    | input => exact .inr ⟨.inl rfl,List.cons_ne_nil _ _,List.forall_mem_singleton.mpr (by decide)⟩
    | output => exact .inr ⟨.inr rfl,List.cons_ne_nil _ _,List.forall_mem_singleton.mpr (by decide)⟩
    | star => exact absurd rfl star
  led := List.forall_mem_nil _

theorem toList_label (variance : Variance) :
    variance.label.toList = keyword variance ++ if variance = .invariant ∨ variance = .star then [] else [' '] := by
  cases variance <;> decide

theorem parse?_path (variance : Variance) {path bracket : List Char} (nullable : Bool) (star : variance ≠ .star)
    (named : IsPath path) (bracketed : bracket = [] ∨ IsBracket bracket) :
    parse? (variance.label ++ String.ofList (path ++ bracket ++ mark nullable)) =
      some ⟨variance,String.ofList path,nullable⟩ := by
  let p := Split.ofPath variance nullable star named bracketed
  have text : variance.label ++ String.ofList (path ++ bracket ++ mark nullable) = String.ofList p.text := by
    rw [← String.toList_inj]
    simp [p,Split.ofPath,Split.text,Body.text,Body.ending,toList_label,star]
  have type : p.type = ⟨variance,String.ofList path,nullable⟩ := by
    simp only [p,Split.type,Body.type,Split.ofPath,if_neg named.ne_star]
  rw [text,p.parse?_text,type]

/-- A type text is read just where it splits into its parts, and then as any such split tells, since all of them tell
the same. Above all, a path comes back from what is written with it, even if it looks like a variance word. -/
theorem parse_unambiguous :
    (∀ s t, parse? s = some t ↔ ∃ p : Split, String.ofList p.text = s ∧ p.type = t) ∧
      (∀ p q : Split, p.text = q.text → p.variance = q.variance ∧ p.name = q.name ∧ p.nullable = q.nullable) ∧
        ∀ (variance : Variance) (path bracket : List Char) (nullable : Bool), variance ≠ .star → IsPath path →
          bracket = [] ∨ IsBracket bracket →
            parse? (variance.label ++ String.ofList (path ++ bracket ++ mark nullable)) =
              some ⟨variance,String.ofList path,nullable⟩ := by
  refine ⟨fun s t => ⟨exists_split,?_⟩,fun p q => Split.eq_of_text_eq,?_⟩
  · rintro ⟨p,rfl,rfl⟩
    exact p.parse?_text
  · intro variance path bracket nullable star named bracketed
    exact parse?_path variance nullable star named bracketed

/-- A variance word, a path and a mark, with letters and blanks beyond ASCII. -/
def Split.wide : Split where
  name := 'n' :: ['a','ï','v','e'] ++ '.' :: ['g','r','ö','ß','e']
  gap := ['\u2003']
  bracket := ['<','Ω','>']
  gap' := []
  nullable := true
  trail := ['\u3000']
  named := .inr (.dotted (by decide) (List.all_eq_true.mp (by decide +kernel))
    (.segment (by decide) (List.all_eq_true.mp (by decide +kernel))))
  bracketed := .inr ⟨['Ω'],rfl,by decide⟩
  blank := ⟨List.forall_mem_singleton.mpr (by decide),List.forall_mem_nil _,List.forall_mem_singleton.mpr (by decide)⟩
  lead := ['\u0085']
  variance := .input
  apart := ['\u00a0']
  worded := .inr ⟨.inl rfl,List.cons_ne_nil _ _,List.forall_mem_singleton.mpr (by decide)⟩
  led := List.forall_mem_singleton.mpr (by decide)

/-- What looks like a variance word is a name behind another one, and a mark in the bracket is not the type's. Letters
and blanks need not be of ASCII. -/
theorem parse_unambiguous_in :
    parse? "out in<in T?>" = some ⟨.output,"in",false⟩ ∧ parse? "in<out T>?" = some ⟨.invariant,"in",true⟩ ∧
    parse? "\u0085in\u00a0naïve.größe\u2003<Ω>?\u3000" = some ⟨.input,"naïve.größe",true⟩ := by
  have path : IsPath ['i','n'] := isPath_keyword (.inl rfl)
  have worded := parse_unambiguous.2.2 .output ['i','n'] "<in T?>".toList false (by decide) path
    (.inr ⟨"in T?".toList,by decide,by decide⟩)
  have plain := parse_unambiguous.2.2 .invariant ['i','n'] "<out T>".toList true (by decide) path
    (.inr ⟨"out T".toList,by decide,by decide⟩)
  have wide := (parse_unambiguous.1 "\u0085in\u00a0naïve.größe\u2003<Ω>?\u3000" ⟨.input,"naïve.größe",true⟩).mpr
    ⟨Split.wide,by decide,by decide⟩
  exact ⟨worded,plain,wide⟩

end TypeText
end SymbolGraph
