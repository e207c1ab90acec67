import Mathlib.Data.List.TakeWhile
import DistroSeed.Verification.Kconfig.Parser

/-! Printed expressions, read again: `eval_string` of what `expr_str` prints. -/

namespace DistroSeed

namespace Kconfig

open Outcome

/-! ## Characters -/

theorem isSpace_of_isAsciiSpace {c : Char} (h : isAsciiSpace c) : isSpace c := by
  simp only [isAsciiSpace, List.mem_cons, List.not_mem_nil, or_false, decide_eq_true_eq] at h
  rcases h with rfl | rfl | rfl | rfl | rfl | rfl <;> decide

theorem range_of_isAlphanum {c : Char} (h : c.isAlphanum) : 48 ≤ c.toNat ∧ c.toNat ≤ 122 := by
  change ((decide (c.val ≥ 65 ∧ c.val ≤ 90) || (c.val ≥ 97 && c.val ≤ 122)) ||
    (c.val ≥ 48 && c.val ≤ 57)) = true at h
  simp only [Bool.or_eq_true, Bool.and_eq_true, decide_eq_true_eq, ge_iff_le,
    UInt32.le_iff_toNat_le] at h
  change ((65 ≤ c.toNat ∧ c.toNat ≤ 90) ∨ (97 ≤ c.toNat ∧ c.toNat ≤ 122)) ∨
    (48 ≤ c.toNat ∧ c.toNat ≤ 57) at h
  omega

theorem isSpace_eq_false_of_isIdChar {c : Char} (h : isIdChar c) : isSpace c = false := by
  simp only [isIdChar, Bool.or_eq_true, decide_eq_true_eq, List.mem_cons, List.not_mem_nil,
    or_false] at h
  rcases h with h | rfl | rfl | rfl | rfl | rfl
  · have hrange := range_of_isAlphanum h
    simp only [isSpace, List.mem_cons, List.not_mem_nil, or_false, Bool.or_eq_false_iff,
      Bool.and_eq_false_iff, decide_eq_false_iff_not]
    omega
  all_goals decide

/-! ## Quoted strings -/

theorem expandStr_of_notMem {quote : Char} {rest : List Char} (h : '\\' ∉ rest) :
    expandStr quote rest =
      if quote ∈ rest then
        some (rest.takeWhile (· ≠ quote), (rest.dropWhile (· ≠ quote)).tail)
      else none := by
  induction rest with
  | nil => rfl
  | cons c rest ih =>
      have hc : c ≠ '\\' := fun heq => h (heq ▸ List.mem_cons_self)
      rw [expandStr.eq_def]
      by_cases hquote : c = quote
      · simp [hquote]
      · have hquote' : ¬ quote = c := fun heq => hquote heq.symm
        simp only [if_neg hquote, if_neg hc, ih fun hmem => h (List.mem_cons_of_mem c hmem)]
        by_cases hmem : quote ∈ rest <;> simp [hmem, hquote, hquote']

/-- The short cut for lines without a backslash finds the same string. -/
theorem quotedString_eq (before : List Char) (quote : Char) (rest : List Char) :
    quotedString before quote rest = expandStr quote rest := by
  rw [quotedString]
  by_cases hline : '\\' ∈ before ++ quote :: rest
  · rw [if_neg (not_not_intro hline)]
  · have h : '\\' ∉ rest := fun h => hline (List.mem_append_right _ (List.mem_cons_of_mem _ h))
    rw [if_pos hline, expandStr_of_notMem h]

theorem expandStr_eq_readUntil (quote : Char) (text : List Char) :
    expandStr quote text = escaping.readUntil quote text := by
  fun_induction expandStr quote text with
  | case1 => rfl
  | case2 rest => rw [Escaping.readUntil_stop]
  | case3 hquote => simp [Escaping.readUntil, Escaping.readFrom, escaping, hquote]
  | case4 d rest hquote ih =>
      rw [ih, Escaping.readUntil, Escaping.readUntil, Escaping.readFrom, if_neg hquote]
      rfl
  | case5 c rest hquote hmark ih =>
      rw [ih, Escaping.readUntil, Escaping.readUntil, Escaping.readFrom, if_neg hquote]
      exact (if_neg hmark).symm

theorem expandStr_escape (val rest : List Char) :
    expandStr '"' (escaping.escape val ++ '"' :: rest) = some (val, rest) := by
  rw [expandStr_eq_readUntil]
  exact Escaping.readUntil_escape (by decide) (fun _ => rfl) rest

/-- A string consists of characters of the line, and what follows it is shorter. -/
theorem expandStr_spec {quote : Char} {rest val rest' : List Char}
    (h : expandStr quote rest = some (val, rest')) :
    (∀ c ∈ val, c ∈ rest) ∧ rest' <:+ rest ∧ rest'.length < rest.length := by
  fun_induction expandStr quote rest generalizing val rest' with
  | case1 => cases h
  | case2 rest =>
      obtain ⟨rfl, rfl⟩ := Prod.mk.inj (Option.some.inj h)
      exact ⟨by simp, List.suffix_cons _ _, by simp⟩
  | case3 => cases h
  | case4 d rest hquote ih =>
      rcases Option.map_eq_some_iff.mp h with ⟨⟨val', rest''⟩, hread, heq⟩
      obtain ⟨rfl, rfl⟩ := Prod.mk.inj heq
      rcases ih hread with ⟨hmem, hsuffix, hlength⟩
      refine ⟨?_, hsuffix.trans ((List.suffix_cons _ _).trans (List.suffix_cons _ _)), ?_⟩
      · intro c hc
        rcases List.mem_cons.mp hc with rfl | hc
        · simp
        · simp [hmem c hc]
      · simp only [List.length_cons]
        omega
  | case5 c rest hquote hmark ih =>
      rcases Option.map_eq_some_iff.mp h with ⟨⟨val', rest''⟩, hread, heq⟩
      obtain ⟨rfl, rfl⟩ := Prod.mk.inj heq
      rcases ih hread with ⟨hmem, hsuffix, hlength⟩
      refine ⟨?_, hsuffix.trans (List.suffix_cons _ _), ?_⟩
      · intro c' hc'
        rcases List.mem_cons.mp hc' with rfl | hc'
        · simp
        · simp [hmem c' hc']
      · simp only [List.length_cons]
        omega

/-! ## Symbols that can be printed -/

/-- The name of a symbol that is no constant. -/
structure IsSymbolName (name : List Char) : Prop where
  ne_nil : name ≠ []
  idChars : ∀ c ∈ name, isIdChar c
  notKeyword : isKeyword name = false

structure Sym.Printable (s : Sym) : Prop where
  noMacro : '$' ∉ s.name
  constant : isTristateName s.name → s.isConstant
  name : s.isConstant = false → IsSymbolName s.name

theorem isSymbolName_of_isTristateName {name : List Char} (h : isTristateName name) :
    IsSymbolName name := by
  simp only [isTristateName, List.mem_cons, List.not_mem_nil, or_false, decide_eq_true_eq] at h
  rcases h with rfl | rfl | rfl <;> exact ⟨by decide, List.all_eq_true.mp rfl, by decide⟩

/-! ## Tokens of a printed line -/

/-- The main loop makes the tokens of the text, whatever stands in front of it. -/
def LexesTo (text : List Char) (tokens : List Token) : Prop :=
  ∀ fuel before token, Token.isStringLex token = false → text.length ≤ fuel →
    tokenizeRest fuel before token text = returned tokens

theorem lexesTo_nil : LexesTo [] [] := by
  intro fuel before token _ _
  cases fuel <;> rfl

theorem LexesTo.cons {text rest : List Char} {token : Token} {tokens : List Token}
    (h : LexesTo rest tokens) (htoken : token.isStringLex = false) (hlength : rest.length < text.length)
    (hnext : ∀ before token', Token.isStringLex token' = false →
      ∃ before', nextToken before token' text = returned (some ⟨token, before', rest⟩)) :
    LexesTo text (token :: tokens) := by
  intro fuel before token' htoken' hfuel
  rcases hnext before token' htoken' with ⟨before', hnext⟩
  cases text with
  | nil => simp at hlength
  | cons c text =>
      cases fuel with
      | zero => simp at hfuel
      | succ fuel =>
          have hle : rest.length ≤ fuel := by
            rw [List.length_cons] at hlength hfuel
            omega
          rw [tokenizeRest, hnext, returned_bind]
          simp only [h fuel before' token htoken hle, returned_bind, pure_eq]

/-- What stands behind a printed symbol: the end, a parenthesis, or a single space. -/
def Separated (rest : List Char) : Prop :=
  rest = [] ∨ (∃ r, rest = ')' :: r) ∨ ∃ c r, rest = ' ' :: c :: r ∧ isSpace c = false

theorem Separated.takeWhile_isIdChar {rest : List Char} (h : Separated rest) :
    rest.takeWhile isIdChar = [] := by
  rcases h with rfl | ⟨r, rfl⟩ | ⟨c, r, rfl, _⟩
  · rfl
  · rfl
  · rfl

theorem Separated.dropWhile_isAsciiSpace {rest : List Char} (h : Separated rest) :
    rest.dropWhile isAsciiSpace = rest.dropWhile isSpace := by
  rcases h with rfl | ⟨r, rfl⟩ | ⟨c, r, rfl, hc⟩
  · rfl
  · rfl
  · have hascii : isAsciiSpace c = false := by
      by_contra hascii
      have hspace := isSpace_of_isAsciiSpace (Bool.of_not_eq_false hascii)
      rw [hc] at hspace
      cases hspace
    rw [List.dropWhile_cons_of_pos (by decide : isAsciiSpace ' '),
      List.dropWhile_cons_of_neg (by simp [hascii]),
      List.dropWhile_cons_of_pos (by decide : isSpace ' '), List.dropWhile_cons_of_neg (by simp [hc])]

theorem length_dropWhile_le {p : Char → Bool} (l : List Char) : (l.dropWhile p).length ≤ l.length :=
  (List.dropWhile_suffix p).length_le

theorem nextToken_word {name rest : List Char} (hname : IsSymbolName name) (hrest : Separated rest)
    (before : List Char) {token : Token} (htoken : token.isStringLex = false) :
    ∃ before', nextToken before token (name ++ rest) =
      returned (some ⟨.sym ⟨name, isTristateName name⟩, before', rest.dropWhile isSpace⟩) := by
  have htake : (name ++ rest).takeWhile isIdChar = name := by
    rw [List.takeWhile_append_of_pos hname.idChars, hrest.takeWhile_isIdChar, List.append_nil]
  have hword : wordToken token name = .sym ⟨name, isTristateName name⟩ := by
    simp [wordToken, hname.notKeyword, htoken]
  refine ⟨before ++ name ++ rest.takeWhile isAsciiSpace, ?_⟩
  simp only [nextToken, htake, if_pos hname.ne_nil, List.drop_left, Lexed.skip, hword,
    hrest.dropWhile_isAsciiSpace]

theorem nextToken_quoted (val rest before : List Char) {token : Token}
    (htoken : token.isStringLex = false) :
    ∃ before', nextToken before token ('"' :: escaping.escape val ++ '"' :: rest) =
      returned (some ⟨.sym ⟨val, true⟩, before', rest.dropWhile isSpace⟩) := by
  refine ⟨before ++ '"' :: val ++ ['"'] ++ rest.takeWhile isSpace, ?_⟩
  rw [nextToken.eq_def]
  simp only [List.cons_append, quotedString_eq, expandStr_escape, htoken]
  rfl

theorem nextToken_operator {text : List Char} {token : Token} {n : ℕ}
    (h : operator text = some (token, n)) (hid : ∀ c ∈ text.head?, isIdChar c = false ∧ c ≠ '"' ∧ c ≠ '\'')
    (before : List Char) (token' : Token) :
    ∃ before', nextToken before token' text =
      returned (some ⟨token, before', (text.drop n).dropWhile isSpace⟩) := by
  cases text with
  | nil => cases h
  | cons c rest =>
      rcases hid c rfl with ⟨hid, hquote, hquote'⟩
      refine ⟨before ++ (c :: rest).take n ++ ((c :: rest).drop n).takeWhile isSpace, ?_⟩
      rw [nextToken.eq_def]
      simp only [List.takeWhile_cons_of_neg (Bool.eq_false_iff.mp hid), ne_eq, not_true_eq_false,
        if_false, hquote, hquote', or_self, h]
      rfl

/-- Printed text that makes certain tokens in front of everything that is separated from it. -/
def Lexes (chars : List Char) (tokens : List Token) : Prop :=
  ∀ rest ts, Separated rest → LexesTo (rest.dropWhile isSpace) ts → LexesTo (chars ++ rest) (tokens ++ ts)

theorem lexes_symStr {s : Sym} (hs : s.Printable) : Lexes (symStr s) [.sym s] := by
  obtain ⟨name, isConstant⟩ := s
  intro rest ts hrest hts
  have hle := length_dropWhile_le (p := isSpace) rest
  rw [symStr]
  split_ifs with hquoted
  · obtain rfl : isConstant = true := by
      rw [Bool.and_eq_true] at hquoted
      exact hquoted.1
    refine hts.cons rfl ?_ fun before token htoken => ?_
    · simp only [List.cons_append, List.length_cons, List.length_append]
      omega
    · have heq : ('"' :: escaping.escape name ++ ['"']) ++ rest =
          '"' :: escaping.escape name ++ '"' :: rest := by simp
      rw [heq]
      exact nextToken_quoted name rest before htoken
  · have hname : IsSymbolName name ∧ isTristateName name = isConstant := by
      cases hc : isConstant with
      | true =>
          have htristate : isTristateName name := by
            simpa [hc] using hquoted
          exact ⟨isSymbolName_of_isTristateName htristate, htristate⟩
      | false =>
          refine ⟨hs.name hc, ?_⟩
          by_contra htristate
          have hconstant := hs.constant (Bool.of_not_eq_false htristate)
          rw [hc] at hconstant
          cases hconstant
    obtain ⟨hname, rfl⟩ := hname
    refine hts.cons rfl ?_ fun before token htoken => nextToken_word hname hrest before htoken
    have hpos : 0 < name.length := List.length_pos_iff.mpr hname.ne_nil
    show _ < (name ++ rest).length
    rw [List.length_append]
    omega

/-- A text that does not begin with a space. -/
def StartsBare (chars : List Char) : Prop := ∃ c r, chars = c :: r ∧ isSpace c = false

theorem StartsBare.dropWhile_isSpace {chars : List Char} (h : StartsBare chars) (rest : List Char) :
    (chars ++ rest).dropWhile isSpace = chars ++ rest := by
  rcases h with ⟨c, r, rfl, hc⟩
  rw [List.cons_append, List.dropWhile_cons_of_neg (by simp [hc])]

theorem symStr_eq_cons {s : Sym} (hs : s.Printable) :
    ∃ c r, symStr s = c :: r ∧ (isIdChar c ∨ c = '"') := by
  have hword : IsSymbolName s.name → ∃ c r, s.name = c :: r ∧ (isIdChar c ∨ c = '"') := by
    intro hname
    cases h : s.name with
    | nil => exact absurd h hname.ne_nil
    | cons c r => exact ⟨c, r, rfl, Or.inl (hname.idChars c (by simp [h]))⟩
  rw [symStr]
  split_ifs with hquoted
  · exact ⟨'"', _, rfl, Or.inr rfl⟩
  · cases hc : s.isConstant with
    | true => exact hword (isSymbolName_of_isTristateName (by simpa [hc] using hquoted))
    | false => exact hword (hs.name hc)

theorem startsBare_symStr {s : Sym} (hs : s.Printable) : StartsBare (symStr s) := by
  rcases symStr_eq_cons hs with ⟨c, r, heq, hc | rfl⟩
  · exact ⟨c, r, heq, isSpace_eq_false_of_isIdChar hc⟩
  · exact ⟨'"', r, heq, by decide⟩

/-- The operators, and the parentheses. -/
structure IsOperator (op : List Char) (token : Token) : Prop where
  startsBare : StartsBare op
  notWord : ∀ c ∈ op.head?, isIdChar c = false ∧ c ≠ '"' ∧ c ≠ '\''
  notString : token.isStringLex = false

theorem IsOperator.length_pos {op : List Char} {token : Token} (h : IsOperator op token) :
    0 < op.length := by
  rcases h.startsBare with ⟨c, r, rfl, _⟩
  simp

theorem isOperator_cons {c : Char} {op : List Char} {token : Token} (hstart : StartsBare (c :: op))
    (hword : isIdChar c = false ∧ c ≠ '"' ∧ c ≠ '\'') (htoken : token.isStringLex = false) :
    IsOperator (c :: op) token := by
  refine ⟨hstart, ?_, htoken⟩
  rintro _ ⟨⟩
  exact hword

theorem isOperator_and : IsOperator ['&', '&'] .and :=
  isOperator_cons ⟨'&', ['&'], rfl, by decide⟩ (by decide) rfl

theorem isOperator_or : IsOperator ['|', '|'] .or :=
  isOperator_cons ⟨'|', ['|'], rfl, by decide⟩ (by decide) rfl

theorem isOperator_not : IsOperator ['!'] .not :=
  isOperator_cons ⟨'!', [], rfl, by decide⟩ (by decide) rfl

theorem isOperator_openParen : IsOperator ['('] .openParen :=
  isOperator_cons ⟨'(', [], rfl, by decide⟩ (by decide) rfl

theorem isOperator_closeParen : IsOperator [')'] .closeParen :=
  isOperator_cons ⟨')', [], rfl, by decide⟩ (by decide) rfl

theorem isOperator_rel (op : Rel) : IsOperator op.toStr (.rel op) := by
  cases op <;> exact isOperator_cons ⟨_, _, rfl, by decide⟩ (by decide) rfl

/-- An operator in front of a text. -/
theorem LexesTo.operator {op rest chars : List Char} {token : Token} {tokens : List Token}
    (h : LexesTo chars tokens) (hop : IsOperator op token)
    (hread : Kconfig.operator (op ++ rest) = some (token, op.length))
    (hrest : rest.dropWhile isSpace = chars) : LexesTo (op ++ rest) (token :: tokens) := by
  subst hrest
  have hle := length_dropWhile_le (p := isSpace) rest
  have hpos := hop.length_pos
  refine h.cons hop.notString (by rw [List.length_append]; omega) fun before token' _ => ?_
  have hnext := nextToken_operator hread ?_ before token'
  · rwa [List.drop_left] at hnext
  · cases op with
    | nil => simp at hpos
    | cons c r => exact hop.notWord

theorem dropWhile_isSpace_cons (text : List Char) :
    (' ' :: text).dropWhile isSpace = text.dropWhile isSpace :=
  List.dropWhile_cons_of_pos (by decide)

/-- A binary operator between spaces. -/
theorem Lexes.binary {left right op : List Char} {ltokens rtokens : List Token} {token : Token}
    (hleft : Lexes left ltokens) (hright : Lexes right rtokens) (hbare : StartsBare right)
    (hop : IsOperator op token)
    (hread : ∀ r, Kconfig.operator (op ++ ' ' :: r) = some (token, op.length)) :
    Lexes (left ++ ' ' :: op ++ ' ' :: right) (ltokens ++ token :: rtokens) := by
  intro rest ts hrest hts
  have hmore : LexesTo (right ++ rest) (rtokens ++ ts) := hright rest ts hrest hts
  have hskip : (' ' :: (right ++ rest)).dropWhile isSpace = right ++ rest := by
    rw [dropWhile_isSpace_cons, hbare.dropWhile_isSpace]
  have hopText : LexesTo (op ++ ' ' :: (right ++ rest)) (token :: (rtokens ++ ts)) :=
    hmore.operator hop (hread _) hskip
  have hseparated : Separated (' ' :: op ++ ' ' :: (right ++ rest)) := by
    rcases hop.startsBare with ⟨c, r, rfl, hc⟩
    exact Or.inr (Or.inr ⟨c, r ++ ' ' :: (right ++ rest), rfl, hc⟩)
  have hall := hleft _ (token :: (rtokens ++ ts)) hseparated ?_
  · simpa using hall
  · rw [List.cons_append, dropWhile_isSpace_cons, hop.startsBare.dropWhile_isSpace]
    exact hopText

theorem Lexes.parens {chars : List Char} {tokens : List Token} (h : Lexes chars tokens)
    (hbare : StartsBare chars) :
    Lexes ('(' :: chars ++ [')']) (.openParen :: tokens ++ [.closeParen]) := by
  intro rest ts hrest hts
  have hclose : LexesTo (')' :: rest) (.closeParen :: ts) :=
    hts.operator isOperator_closeParen rfl rfl
  have hinner := h (')' :: rest) _ (Or.inr (Or.inl ⟨rest, rfl⟩)) hclose
  have hopen := hinner.operator isOperator_openParen rfl (hbare.dropWhile_isSpace _)
  simpa using hopen

theorem lexes_parenthesize {chars : List Char} {tokens : List Token} (h : Lexes chars tokens)
    (hbare : StartsBare chars) (isType : Bool) :
    Lexes (parenthesize isType chars) (parenthesizeTokens isType tokens) ∧
      StartsBare (parenthesize isType chars) := by
  cases isType with
  | true => exact ⟨h.parens hbare, '(', _, rfl, by decide⟩
  | false => exact ⟨h, hbare⟩

theorem StartsBare.append {chars : List Char} (h : StartsBare chars) (rest : List Char) :
    StartsBare (chars ++ rest) := by
  rcases h with ⟨c, r, rfl, hc⟩
  exact ⟨c, r ++ rest, rfl, hc⟩

theorem exprStr_not (operand : Expr) : (∃ s, operand = .sym s) ∨
    exprStr (.not operand) = '!' :: ('(' :: exprStr operand ++ [')']) ∧
      exprTokens (.not operand) = .not :: (.openParen :: exprTokens operand ++ [Token.closeParen]) := by
  cases operand with
  | sym s => exact Or.inl ⟨s, rfl⟩
  | _ => exact Or.inr ⟨rfl, rfl⟩

theorem lexes_not_sym {s : Sym} (hs : s.Printable) :
    Lexes (exprStr (.not (.sym s))) (exprTokens (.not (.sym s))) := by
  intro rest ts hrest hts
  have hinner : LexesTo (symStr s ++ rest) (.sym s :: ts) := lexes_symStr hs rest ts hrest hts
  have hread : Kconfig.operator (['!'] ++ (symStr s ++ rest)) = some (.not, 1) := by
    rcases symStr_eq_cons hs with ⟨c, r, heq, hc⟩
    have hne : c ≠ '=' := by
      rintro rfl
      rcases hc with hc | hc
      · exact absurd hc (by decide)
      · exact absurd hc (by decide)
    simp [heq, Kconfig.operator, hne]
  have hnot : LexesTo (['!'] ++ (symStr s ++ rest)) (.not :: .sym s :: ts) :=
    hinner.operator isOperator_not hread ((startsBare_symStr hs).dropWhile_isSpace _)
  exact hnot

/-- A printed expression makes the printed tokens. -/
theorem lexes_exprStr {e : Expr} (h : ∀ s ∈ e.syms, s.Printable) :
    Lexes (exprStr e) (exprTokens e) ∧ StartsBare (exprStr e) := by
  induction e with
  | sym s =>
      have hs : s.Printable := h s (by simp [Expr.syms])
      exact ⟨lexes_symStr hs, startsBare_symStr hs⟩
  | and left right ihl ihr =>
      rcases ihl fun s hs => h s (List.mem_append_left _ hs) with ⟨hleft, hbareLeft⟩
      rcases ihr fun s hs => h s (List.mem_append_right _ hs) with ⟨hright, hbareRight⟩
      rcases lexes_parenthesize hleft hbareLeft left.isOr with ⟨hleft, hbareLeft⟩
      rcases lexes_parenthesize hright hbareRight right.isOr with ⟨hright, hbareRight⟩
      have hall := hleft.binary hright hbareRight isOperator_and fun _ => rfl
      refine ⟨?_, (hbareLeft.append _).append _⟩
      simpa [exprStr, exprTokens] using hall
  | or left right ihl ihr =>
      rcases ihl fun s hs => h s (List.mem_append_left _ hs) with ⟨hleft, hbareLeft⟩
      rcases ihr fun s hs => h s (List.mem_append_right _ hs) with ⟨hright, hbareRight⟩
      rcases lexes_parenthesize hleft hbareLeft left.isAnd with ⟨hleft, hbareLeft⟩
      rcases lexes_parenthesize hright hbareRight right.isAnd with ⟨hright, hbareRight⟩
      have hall := hleft.binary hright hbareRight isOperator_or fun _ => rfl
      refine ⟨?_, (hbareLeft.append _).append _⟩
      simpa [exprStr, exprTokens] using hall
  | not operand ih =>
      rcases exprStr_not operand with ⟨s, rfl⟩ | ⟨hstr, htokens⟩
      · exact ⟨lexes_not_sym (h s (by simp [Expr.syms])), '!', _, rfl, by decide⟩
      · rcases ih h with ⟨hoperand, hbare⟩
        rw [hstr, htokens]
        refine ⟨?_, '!', _, rfl, by decide⟩
        intro rest ts hrest hts
        have hinner := hoperand.parens hbare rest ts hrest hts
        have hnot : LexesTo (['!'] ++ ('(' :: exprStr operand ++ [')'] ++ rest))
            (.not :: (.openParen :: exprTokens operand ++ [.closeParen] ++ ts)) :=
          hinner.operator isOperator_not rfl rfl
        exact hnot
  | rel op left right =>
      have hleft : left.Printable := h left (by simp [Expr.syms])
      have hright : right.Printable := h right (by simp [Expr.syms])
      have hall := (lexes_symStr hleft).binary (lexes_symStr hright) (startsBare_symStr hright)
        (isOperator_rel op) (by cases op <;> exact fun _ => rfl)
      refine ⟨by simpa [exprStr, exprTokens] using hall, ?_⟩
      rw [exprStr, List.append_assoc]
      exact (startsBare_symStr hleft).append _

/-! ## Lines -/

theorem tokenize_if (text : List Char) : tokenize ("if ".toList ++ text) =
    if '$' ∉ text then do
      let tokens ← tokenizeRest (text.length + 3) ("if".toList ++ (' ' :: text).takeWhile isAsciiSpace)
        (.keyword "if".toList) (text.dropWhile isAsciiSpace)
      pure (.keyword "if".toList :: tokens)
    else .raised .notModelled := by
  have hline : "if ".toList ++ text = 'i' :: 'f' :: ' ' :: text := rfl
  have hdrop : ('i' :: 'f' :: ' ' :: text).dropWhile isAsciiSpace = 'i' :: 'f' :: ' ' :: text := rfl
  have hword : ('i' :: 'f' :: ' ' :: text).takeWhile isCommandChar = ['i', 'f'] := rfl
  have hlead : ('i' :: 'f' :: ' ' :: text).takeWhile isAsciiSpace = [] := rfl
  have hkeyword : isKeyword ['i', 'f'] := by decide
  have hwarned : '$' ∉ 'i' :: 'f' :: ' ' :: text ↔ '$' ∉ text := by simp
  rw [hline, tokenize]
  simp only [hdrop, hword, hlead, hkeyword, hwarned, and_true]
  rfl

theorem notMem_symStr {s : Sym} (hs : s.Printable) : '$' ∉ symStr s := by
  rw [symStr]
  split_ifs
  · intro h
    simp only [List.cons_append, List.mem_cons, List.mem_append, List.not_mem_nil, or_false] at h
    rcases h with h | h | h
    · cases h
    · rcases Escaping.mem_escape h with h | h | ⟨d, hd, hcode⟩
      · exact hs.noMacro h
      · cases h
      · have hd' : d = '$' := Option.some.inj (escaping.decode_code d '$' hcode).symm
        exact hs.noMacro (hd' ▸ hd)
    · cases h
  · exact hs.noMacro

theorem notMem_parenthesize {text : List Char} (h : '$' ∉ text) (isType : Bool) :
    '$' ∉ parenthesize isType text := by
  cases isType <;> simp [parenthesize, h]

theorem notMem_exprStr {e : Expr} (h : ∀ s ∈ e.syms, s.Printable) : '$' ∉ exprStr e := by
  induction e with
  | sym s => exact notMem_symStr (h s (by simp [Expr.syms]))
  | and left right ihl ihr | or left right ihl ihr =>
      have hleft := notMem_parenthesize (ihl fun s hs => h s (List.mem_append_left _ hs))
      have hright := notMem_parenthesize (ihr fun s hs => h s (List.mem_append_right _ hs))
      simp [exprStr, hleft, hright]
  | not operand ih =>
      rcases exprStr_not operand with ⟨s, rfl⟩ | ⟨hstr, _⟩
      · simp [exprStr, notMem_symStr (h s (by simp [Expr.syms]))]
      · simp [hstr, ih h]
  | rel op left right =>
      have hleft := notMem_symStr (h left (by simp [Expr.syms]))
      have hright := notMem_symStr (h right (by simp [Expr.syms]))
      have hop : '$' ∉ op.toStr := by cases op <;> decide
      simp [exprStr, hleft, hright, hop]

/-- The line of `eval_string` for a printed expression. -/
theorem tokenize_exprStr {e : Expr} (h : ∀ s ∈ e.syms, s.Printable) :
    tokenize ("if ".toList ++ exprStr e) = returned (.keyword "if".toList :: exprTokens e) := by
  rcases lexes_exprStr h with ⟨hlexes, hbare⟩
  have hline : LexesTo (exprStr e) (exprTokens e) := by
    have hall := hlexes [] [] (Or.inl rfl) lexesTo_nil
    simpa using hall
  have hskip : (exprStr e).dropWhile isAsciiSpace = exprStr e := by
    rcases hbare with ⟨c, r, heq, hc⟩
    have hascii : ¬ isAsciiSpace c := by
      intro hascii
      have hspace := isSpace_of_isAsciiSpace hascii
      rw [hc] at hspace
      cases hspace
    rw [heq, List.dropWhile_cons_of_neg hascii]
  rw [tokenize_if, if_pos (notMem_exprStr h), hskip, hline _ _ _ (by decide) (by omega)]
  rfl

/-! ## What a line can make -/

/-- A token made of a line, and what is left of the line. -/
structure TakenFrom (rest : List Char) (lexed : Lexed) : Prop where
  printable : '$' ∉ rest → ∀ s, lexed.token = .sym s → s.Printable
  suffix : lexed.rest <:+ rest
  shorter : lexed.rest.length < rest.length

theorem takenFrom_skip {rest after before : List Char} {token : Token} (isSkipped : Char → Bool)
    (hprintable : '$' ∉ rest → ∀ s, token = .sym s → s.Printable) (hsuffix : after <:+ rest)
    (hlength : after.length < rest.length) :
    TakenFrom rest (.skip isSkipped token before after) := by
  have hle := length_dropWhile_le (p := isSkipped) after
  refine ⟨hprintable, (List.dropWhile_suffix _).trans hsuffix, ?_⟩
  exact lt_of_le_of_lt hle hlength

theorem printable_wordToken {token : Token} {name : List Char} {s : Sym} (hne : name ≠ [])
    (hid : ∀ c ∈ name, isIdChar c) (hwarned : '$' ∉ name) (h : wordToken token name = .sym s) :
    s.Printable := by
  rw [wordToken] at h
  split_ifs at h with hkeyword hstring
  obtain rfl := Token.sym.inj h
  exact ⟨hwarned, fun h => h, fun _ => ⟨hne, hid, by simpa using hkeyword⟩⟩

theorem operator_spec {text : List Char} {token : Token} {n : ℕ}
    (h : operator text = some (token, n)) : 0 < n ∧ text ≠ [] ∧ ∀ s, token ≠ .sym s := by
  unfold operator at h
  split at h <;> cases h <;> exact ⟨by decide, by simp, by simp⟩

theorem takenFrom_quoted {before after : List Char} {token : Token} {c : Char} {read : List Char × List Char}
    (h : expandStr c after = some read) :
    TakenFrom (c :: after) (.skip isSpace
      (if token.isStringLex then .str read.1 else .sym ⟨read.1, true⟩) before read.2) := by
  rcases expandStr_spec h with ⟨hmem, hsuffix, hlength⟩
  refine takenFrom_skip isSpace (fun hwarned s hs => ?_) (hsuffix.trans (List.suffix_cons _ _))
    (by rw [List.length_cons]; omega)
  by_cases hstring : token.isStringLex
  · rw [if_pos hstring] at hs
    cases hs
  · rw [if_neg hstring] at hs
    obtain rfl := Token.sym.inj hs
    refine ⟨fun hval => hwarned (List.mem_cons_of_mem _ (hmem _ hval)), fun _ => rfl, ?_⟩
    intro hconstant
    cases hconstant

theorem takenFrom_nextToken {before rest : List Char} {token : Token} {lexed : Lexed}
    (h : nextToken before token rest = returned (some lexed)) : TakenFrom rest lexed := by
  rw [nextToken.eq_def] at h
  by_cases hname : rest.takeWhile isIdChar ≠ []
  · simp only [if_pos hname] at h
    obtain rfl := Option.some.inj (returned.inj h)
    refine takenFrom_skip isAsciiSpace (fun hwarned s hs => ?_) (List.drop_suffix _ _) ?_
    · refine printable_wordToken hname (fun c hc => ?_) (fun hmem => hwarned ?_) hs
      · exact List.mem_takeWhile_imp hc
      · exact (List.takeWhile_prefix _).subset hmem
    · have hpos := List.length_pos_iff.mpr hname
      have hle := (List.takeWhile_prefix isIdChar (l := rest)).length_le
      rw [List.length_drop]
      omega
  · simp only [if_neg hname] at h
    cases rest with
    | nil => cases h
    | cons c after =>
        simp only at h
        by_cases hquote : c = '"' ∨ c = '\''
        · rw [if_pos hquote, quotedString_eq] at h
          cases hread : expandStr c after with
          | none => simp [hread] at h
          | some read =>
              rw [hread] at h
              obtain rfl := Option.some.inj (returned.inj h)
              exact takenFrom_quoted hread
        · rw [if_neg hquote] at h
          cases hop : operator (c :: after) with
          | none =>
              rw [hop] at h
              by_cases hcomment : c = '#' <;> simp [hcomment] at h
          | some read =>
              rw [hop] at h
              obtain ⟨token', n⟩ := read
              obtain rfl := Option.some.inj (returned.inj h)
              rcases operator_spec hop with ⟨hpos, _, hsym⟩
              refine takenFrom_skip isSpace (fun _ s hs => absurd hs (hsym s)) (List.drop_suffix _ _) ?_
              rw [List.length_drop, List.length_cons]
              omega

theorem nextToken_ended (before : List Char) (token : Token) (rest : List Char) :
    (nextToken before token rest).Ended := by
  rw [nextToken.eq_def]
  by_cases hname : rest.takeWhile isIdChar ≠ []
  · simp [hname, Ended]
  · simp only [if_neg hname]
    cases rest with
    | nil => simp [Ended]
    | cons c after =>
        by_cases hquote : c = '"' ∨ c = '\''
        · cases hread : quotedString before c after <;> simp [hquote, hread, Ended]
        · cases hop : operator (c :: after) with
          | none => by_cases hcomment : c = '#' <;> simp [hquote, hcomment, Ended]
          | some read => simp [hquote, Ended]

/-- The tokens of a line without macros can be printed. -/
theorem printable_of_tokenizeRest {fuel : ℕ} {before rest : List Char} {token : Token}
    {tokens : List Token} (h : tokenizeRest fuel before token rest = returned tokens)
    (hwarned : '$' ∉ rest) : ∀ s, .sym s ∈ tokens → s.Printable := by
  induction fuel generalizing before token rest tokens with
  | zero =>
      cases rest with
      | nil =>
          obtain rfl := returned.inj h
          simp
      | cons c rest => cases h
  | succ fuel ih =>
      cases rest with
      | nil =>
          obtain rfl := returned.inj h
          simp
      | cons c rest =>
          rw [tokenizeRest] at h
          rcases bind_eq_returned.mp h with ⟨next, hnext, h⟩
          cases next with
          | none =>
              obtain rfl := returned.inj h
              simp
          | some lexed =>
              rcases bind_eq_returned.mp h with ⟨tokens', htokens, h⟩
              obtain rfl := returned.inj h
              have htaken := takenFrom_nextToken hnext
              intro s hs
              rcases List.mem_cons.mp hs with hs | hs
              · exact htaken.printable hwarned s hs.symm
              · exact ih htokens (fun hmem => hwarned (htaken.suffix.subset hmem)) s hs

/-- The length of a line is enough fuel. -/
theorem tokenizeRest_ended {fuel : ℕ} {before rest : List Char} {token : Token}
    (h : rest.length ≤ fuel) : (tokenizeRest fuel before token rest).Ended := by
  induction fuel generalizing before token rest with
  | zero =>
      obtain rfl := List.length_eq_zero_iff.mp (Nat.le_zero.mp h)
      simp [tokenizeRest, Ended]
  | succ fuel ih =>
      cases rest with
      | nil => simp [tokenizeRest, Ended]
      | cons c rest =>
          rw [tokenizeRest]
          refine bind_ended.mpr ⟨nextToken_ended _ _ _, ?_⟩
          intro next hnext
          cases next with
          | none => simp [Ended]
          | some lexed =>
              have hshorter := (takenFrom_nextToken hnext).shorter
              refine bind_ended.mpr ⟨ih (by omega), fun _ _ => by simp [Ended]⟩

/-! ## Whole expressions -/

variable {modules : Sym}

/-- `eval_string` never runs out of fuel. -/
theorem parseString_ended (text : List Char) : (parseString modules true text).Ended := by
  rw [parseString, tokenize_if]
  refine bind_ended.mpr ⟨?_, fun tokens _ => expectExprAndEol_ended _⟩
  by_cases hwarned : '$' ∉ text
  · rw [if_pos hwarned]
    refine bind_ended.mpr ⟨tokenizeRest_ended ?_, fun _ _ => by simp [Ended]⟩
    have hle := length_dropWhile_le (p := isAsciiSpace) text
    omega
  · rw [if_neg hwarned]
    simp [Ended]

/-- An expression that was read is one of symbols that can be printed, with every plain `m`
rewritten. -/
theorem exists_of_parseString {text : List Char} {e : Expr}
    (h : parseString modules true text = returned e) :
    ∃ e₀ : Expr, e = e₀.withModules modules ∧ ∀ s ∈ e₀.syms, s.Printable := by
  rw [parseString, tokenize_if] at h
  rcases bind_eq_returned.mp h with ⟨line, hline, h⟩
  split_ifs at hline with hwarned
  rcases bind_eq_returned.mp hline with ⟨tokens, htokens, hline⟩
  obtain rfl := returned.inj hline
  rcases readOff_of_expectExprAndEol h with ⟨e₀, he₀, hsyms⟩
  refine ⟨e₀, he₀, fun s hs => ?_⟩
  have hrest : '$' ∉ text.dropWhile isAsciiSpace :=
    fun hmem => hwarned ((List.dropWhile_suffix _).subset hmem)
  exact printable_of_tokenizeRest htokens hrest s (hsyms s hs)

theorem printable_m : Sym.m.Printable := ⟨by decide, fun _ => rfl, fun h => by cases h⟩

theorem printable_syms_withModules (hmodules : modules.Printable) {e : Expr}
    (h : ∀ s ∈ e.syms, s.Printable) : ∀ s ∈ (e.withModules modules).syms, s.Printable := by
  induction e with
  | sym s =>
      by_cases hs : s = Sym.m
      · simp [Expr.withModules, Expr.syms, hs, printable_m, hmodules]
      · simpa [Expr.withModules, hs] using h
  | and left right ihl ihr | or left right ihl ihr =>
      intro s hs
      rcases List.mem_append.mp hs with hs | hs
      · exact ihl (fun s hs => h s (List.mem_append_left _ hs)) s hs
      · exact ihr (fun s hs => h s (List.mem_append_right _ hs)) s hs
  | not operand ih => exact ih h
  | rel op left right => exact h

theorem printable_modules : Sym.modules.Printable :=
  ⟨by decide, by decide, fun _ => ⟨by decide, List.all_eq_true.mp rfl, by decide⟩⟩

/-- A printed expression is worth as much as the expression, with `m` rewritten. -/
theorem evalString_exprStr {e : Expr} (h : ∀ s ∈ e.syms, s.Printable) (values : Sym → SymbolValue) :
    evalString values (exprStr e) = returned (exprValue values (e.withModules Sym.modules)) := by
  have hreads : ∃ a, expectExprAndEol Sym.modules true (exprTokens e) = returned a ∧
      denote a = denote (e.withModules Sym.modules) := expectExprAndEol_exprTokens e
  rcases hreads with ⟨a, ha, hvalue⟩
  have hparse : parseString Sym.modules true (exprStr e) = returned a := by
    rw [parseString, tokenize_exprStr h]
    exact ha
  rw [evalString, hparse]
  exact congrArg returned (congrFun hvalue values)

/-- Whatever `eval_string` reads, `expr_str` prints as a text that `eval_string` reads again, and
in every configuration both are worth the same. -/
theorem evalString_exprStr_of_parseString {text : List Char} {e : Expr}
    (h : parseString Sym.modules true text = returned e) (values : Sym → SymbolValue) :
    evalString values (exprStr e) = evalString values text := by
  rcases exists_of_parseString h with ⟨e₀, rfl, hsyms⟩
  rw [evalString_exprStr (printable_syms_withModules printable_modules hsyms), evalString, h]
  exact congrArg returned (congrFun (denote_withModules_withModules (by decide) e₀) values)

/-- An expression with nested operators, a quoted text with a quote in it, and a plain `m`. -/
def sampleText : List Char := "(NET && USB) && !DEBUG || LABEL = \"5\\\"\" || m".toList

def sampleExpr : Expr :=
  .or (.and (.and (.sym ⟨"NET".toList, false⟩) (.sym ⟨"USB".toList, false⟩))
      (.not (.sym ⟨"DEBUG".toList, false⟩)))
    (.or (.rel .equal ⟨"LABEL".toList, false⟩ ⟨"5\"".toList, true⟩)
      (.and (.sym Sym.m) (.sym Sym.modules)))

/-- All symbols are `y`. -/
def allYes (s : Sym) : SymbolValue := ⟨.tristate, s.name, .y⟩

theorem evalString_exprStr_of_parseString_sampleText :
    evalString allYes (exprStr sampleExpr) = evalString allYes sampleText :=
  evalString_exprStr_of_parseString (by decide +kernel) allYes

end Kconfig

end DistroSeed
