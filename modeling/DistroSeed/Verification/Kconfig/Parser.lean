import DistroSeed.Library.Infix
import DistroSeed.Model.KconfigExpr

/-! What the parser of Kconfig expressions makes of the tokens that `expr_str` prints. -/

namespace DistroSeed

namespace Kconfig

open Infix Outcome

/-! ## Values -/

theorem Tristate.n_le (v : Tristate) : n ≤ v := by cases v <;> decide

theorem Tristate.le_y (v : Tristate) : v ≤ y := by cases v <;> decide

/-- The short cut for `n` changes nothing. -/
theorem exprValue_and (values : Sym → SymbolValue) (left right : Expr) :
    exprValue values (.and left right) = min (exprValue values left) (exprValue values right) := by
  rw [exprValue]
  split_ifs with h
  · rw [h, min_eq_left (Tristate.n_le _)]
  · rfl

/-- The short cut for `y` changes nothing. -/
theorem exprValue_or (values : Sym → SymbolValue) (left right : Expr) :
    exprValue values (.or left right) = max (exprValue values left) (exprValue values right) := by
  rw [exprValue]
  split_ifs with h
  · rw [h, max_eq_left (Tristate.le_y _)]
  · rfl

/-- What an expression is worth, as a function of the symbols' values. -/
def denote (e : Expr) (values : Sym → SymbolValue) : Tristate := exprValue values e

def meet (f g : (Sym → SymbolValue) → Tristate) (values : Sym → SymbolValue) : Tristate :=
  min (f values) (g values)

def join (f g : (Sym → SymbolValue) → Tristate) (values : Sym → SymbolValue) : Tristate :=
  max (f values) (g values)

theorem denote_and (left right : Expr) : denote (.and left right) = meet (denote left) (denote right) :=
  funext fun values => exprValue_and values left right

theorem denote_or (left right : Expr) : denote (.or left right) = join (denote left) (denote right) :=
  funext fun values => exprValue_or values left right

theorem meet_assoc (f g h : (Sym → SymbolValue) → Tristate) :
    meet (meet f g) h = meet f (meet g h) := funext fun _ => min_assoc _ _ _

theorem join_assoc (f g h : (Sym → SymbolValue) → Tristate) :
    join (join f g) h = join f (join g h) := funext fun _ => max_assoc _ _ _

/-- The expression with every plain `m` rewritten to `m && MODULES`. -/
def Expr.withModules (modules : Sym) : Expr → Expr
  | sym s => if s = Sym.m then and (sym Sym.m) (sym modules) else sym s
  | and left right => and (left.withModules modules) (right.withModules modules)
  | or left right => or (left.withModules modules) (right.withModules modules)
  | not operand => not (operand.withModules modules)
  | rel op left right => rel op left right

/-- To rewrite `m` twice is worth as much as to rewrite it once. -/
theorem denote_withModules_withModules {modules : Sym} (hmodules : modules ≠ Sym.m) (e : Expr) :
    denote ((e.withModules modules).withModules modules) = denote (e.withModules modules) := by
  induction e with
  | sym s =>
      by_cases hs : s = Sym.m
      · simp only [Expr.withModules, if_pos hs, if_true, if_neg hmodules]
        rw [denote_and, denote_and, meet_assoc]
        exact congrArg _ (funext fun values => min_self _)
      · simp only [Expr.withModules, if_neg hs]
  | and left right ihl ihr =>
      simp only [Expr.withModules, denote_and, ihl, ihr]
  | or left right ihl ihr =>
      simp only [Expr.withModules, denote_or, ihl, ihr]
  | not operand ih =>
      funext values
      simp only [Expr.withModules, denote, exprValue]
      exact congrArg _ (congrFun ih values)
  | rel op left right => rfl

/-! ## Printed tokens -/

def parenthesizeTokens (isType : Bool) (tokens : List Token) : List Token :=
  if isType then .openParen :: tokens ++ [.closeParen] else tokens

/-- The tokens of `expr_str`. -/
def exprTokens : Expr → List Token
  | .sym s => [.sym s]
  | .and left right =>
      parenthesizeTokens left.isOr (exprTokens left) ++
        .and :: parenthesizeTokens right.isOr (exprTokens right)
  | .or left right =>
      parenthesizeTokens left.isAnd (exprTokens left) ++
        .or :: parenthesizeTokens right.isAnd (exprTokens right)
  | .not (.sym s) => [.not, .sym s]
  | .not operand => .not :: .openParen :: exprTokens operand ++ [.closeParen]
  | .rel op left right => [.sym left, .rel op, .sym right]

/-! ## The three levels of the grammar -/

variable {modules : Sym}

theorem level_parseExpr :
    Level (parseExpr modules true) (parseAndExpr modules true) .or .or where
  last := by
    intro fuel tokens a rest h hrest
    rw [parseExpr, h]
    cases rest with
    | nil => rfl
    | cons token rest => cases token <;> first | rfl | exact absurd rfl hrest
  next := by
    intro fuel tokens a b more rest h hmore
    rw [parseExpr, h]
    simp only [returned_bind, hmore, pure_eq]

theorem level_parseAndExpr :
    Level (parseAndExpr modules true) (parseFactor modules true) .and .and where
  last := by
    intro fuel tokens a rest h hrest
    rw [parseAndExpr, h]
    cases rest with
    | nil => rfl
    | cons token rest => cases token <;> first | rfl | exact absurd rfl hrest
  next := by
    intro fuel tokens a b more rest h hmore
    rw [parseAndExpr, h]
    simp only [returned_bind, hmore, pure_eq]

/-- What may stand behind a factor. -/
def BehindFactor (rest : List Token) : Prop := ∀ op, rest.head? ≠ some (.rel op)

/-- What may stand behind an operand of `||`. -/
def BehindAnd (rest : List Token) : Prop := BehindFactor rest ∧ rest.head? ≠ some .and

/-- What may stand behind a whole expression. -/
def BehindExpr (rest : List Token) : Prop := BehindAnd rest ∧ rest.head? ≠ some .or

section Readings

variable (modules) (tokens : List Token) (v : (Sym → SymbolValue) → Tristate)

/-- The parser reads the tokens as one factor of the value `v`. -/
def FactorReads : Prop :=
  ∀ rest, BehindFactor rest → ∃ a, denote a = v ∧
    Reads (parseFactor modules true) (3 * tokens.length) (tokens ++ rest) a rest

abbrev AndChain : Prop :=
  Chain (parseAndExpr modules true) .and meet denote BehindFactor tokens v (3 * tokens.length + 1)

abbrev OrChain : Prop :=
  Chain (parseExpr modules true) .or join denote BehindAnd tokens v (3 * tokens.length + 2)

def ExprReads : Prop :=
  ∀ rest, BehindExpr rest → ∃ a, denote a = v ∧
    Reads (parseExpr modules true) (3 * tokens.length + 2) (tokens ++ rest) a rest

end Readings

variable {tokens : List Token} {v : (Sym → SymbolValue) → Tristate}

theorem FactorReads.andChain (h : FactorReads modules tokens v) : AndChain modules tokens v :=
  level_parseAndExpr.chain denote_and (fun more => by simp [BehindFactor]) h

/-- Operands of `&&`, read as one operand of `||`. -/
theorem andReads_of_andChain (h : AndChain modules tokens v) (rest : List Token)
    (hrest : BehindAnd rest) : ∃ a, denote a = v ∧
      Reads (parseAndExpr modules true) (3 * tokens.length + 1) (tokens ++ rest) a rest :=
  h.last rest hrest.1 hrest.2

theorem orChain_of_andChain (h : AndChain modules tokens v) : OrChain modules tokens v :=
  level_parseExpr.chain denote_or (fun more => by simp [BehindAnd, BehindFactor])
    (andReads_of_andChain h)

theorem exprReads_of_orChain (h : OrChain modules tokens v) : ExprReads modules tokens v :=
  fun rest hrest => h.last rest hrest.1 hrest.2

theorem behindExpr_closeParen (rest : List Token) : BehindExpr (.closeParen :: rest) := by
  simp [BehindExpr, BehindAnd, BehindFactor]

theorem behindExpr_nil : BehindExpr [] := by simp [BehindExpr, BehindAnd, BehindFactor]

/-! ## Factors -/

theorem factorReads_sym (s : Sym) :
    FactorReads modules [.sym s] (denote ((Expr.sym s).withModules modules)) := by
  intro rest hrest
  refine ⟨_, rfl, ?_⟩
  intro fuel hfuel
  cases fuel with
  | zero => simp at hfuel
  | succ fuel =>
      have hsym : (if true && s = Sym.m then Expr.and (.sym Sym.m) (.sym modules) else .sym s) =
          (Expr.sym s).withModules modules := by simp [Expr.withModules]
      cases rest with
      | nil => exact congrArg (fun e => returned (e, [])) hsym
      | cons token rest =>
          cases token with
          | rel op => exact absurd rfl (hrest op)
          | _ => exact congrArg (fun e => returned (e, _)) hsym

theorem factorReads_rel (op : Rel) (left right : Sym) :
    FactorReads modules [.sym left, .rel op, .sym right] (denote (.rel op left right)) := by
  intro rest _
  refine ⟨_, rfl, ?_⟩
  intro fuel hfuel
  cases fuel with
  | zero => simp at hfuel
  | succ fuel => rfl

theorem FactorReads.not (h : FactorReads modules tokens v) :
    FactorReads modules (.not :: tokens) fun values => (v values).not := by
  intro rest hrest
  rcases h rest hrest with ⟨a, rfl, hreads⟩
  refine ⟨.not a, rfl, ?_⟩
  intro fuel hfuel
  cases fuel with
  | zero => simp at hfuel
  | succ fuel =>
      have hle : 3 * tokens.length ≤ fuel := by
        rw [List.length_cons] at hfuel
        omega
      rw [List.cons_append, parseFactor, hreads fuel hle]
      rfl

theorem ExprReads.parenthesize (h : ExprReads modules tokens v) :
    FactorReads modules (.openParen :: tokens ++ [.closeParen]) v := by
  intro rest _
  rcases h (.closeParen :: rest) (behindExpr_closeParen rest) with ⟨a, ha, hreads⟩
  refine ⟨a, ha, ?_⟩
  intro fuel hfuel
  have hlength : (Token.openParen :: tokens ++ [Token.closeParen]).length = tokens.length + 2 := by simp
  rw [hlength] at hfuel
  cases fuel with
  | zero => omega
  | succ fuel =>
      rw [List.cons_append, List.cons_append, List.append_assoc, List.singleton_append, parseFactor,
        hreads fuel (by omega)]
      rfl

/-! ## Expressions -/

/-- The printed tokens on their own and as an operand of each operator. -/
structure Reading (modules : Sym) (e : Expr) : Prop where
  expr : ExprReads modules (exprTokens e) (denote (e.withModules modules))
  andOperand : AndChain modules (parenthesizeTokens e.isOr (exprTokens e))
    (denote (e.withModules modules))
  orOperand : OrChain modules (parenthesizeTokens e.isAnd (exprTokens e))
    (denote (e.withModules modules))

/-- A factor needs no parentheses. -/
theorem FactorReads.reading {e : Expr} (hand : e.isAnd = false) (hor : e.isOr = false)
    (h : FactorReads modules (exprTokens e) (denote (e.withModules modules))) :
    Reading modules e where
  expr := exprReads_of_orChain (orChain_of_andChain h.andChain)
  andOperand := by
    rw [hor]
    exact h.andChain
  orOperand := by
    rw [hand]
    exact orChain_of_andChain h.andChain

theorem reading_and {left right : Expr} (hleft : Reading modules left)
    (hright : Reading modules right) : Reading modules (.and left right) := by
  have hchain : AndChain modules (exprTokens (.and left right))
      (denote ((Expr.and left right).withModules modules)) := by
    rw [exprTokens, Expr.withModules, denote_and]
    refine (hleft.andOperand.append meet_assoc hright.andOperand).mono ?_
    rw [List.length_append, List.length_cons]
    omega
  have hexpr : ExprReads modules _ _ := exprReads_of_orChain (orChain_of_andChain hchain)
  exact ⟨hexpr, hchain, orChain_of_andChain hexpr.parenthesize.andChain⟩

theorem reading_or {left right : Expr} (hleft : Reading modules left)
    (hright : Reading modules right) : Reading modules (.or left right) := by
  have hchain : OrChain modules (exprTokens (.or left right))
      (denote ((Expr.or left right).withModules modules)) := by
    rw [exprTokens, Expr.withModules, denote_or]
    refine (hleft.orOperand.append join_assoc hright.orOperand).mono ?_
    rw [List.length_append, List.length_cons]
    omega
  have hexpr : ExprReads modules _ _ := exprReads_of_orChain hchain
  exact ⟨hexpr, hexpr.parenthesize.andChain, hchain⟩

theorem exprTokens_not (operand : Expr) : exprTokens (.not operand) = .not :: exprTokens operand ∧
    (∃ s, operand = .sym s) ∨
    exprTokens (.not operand) = .not :: (.openParen :: exprTokens operand ++ [Token.closeParen]) := by
  cases operand with
  | sym s => exact Or.inl ⟨rfl, s, rfl⟩
  | _ => exact Or.inr rfl

theorem reading_not {operand : Expr} (h : Reading modules operand) :
    Reading modules (.not operand) := by
  refine FactorReads.reading rfl rfl ?_
  rcases exprTokens_not operand with ⟨htokens, s, rfl⟩ | htokens
  · exact (factorReads_sym s).not
  · rw [htokens]
    exact h.expr.parenthesize.not

/-- Printed expressions are read as expressions of the same value. -/
theorem reading (e : Expr) : Reading modules e := by
  induction e with
  | sym s => exact FactorReads.reading rfl rfl (factorReads_sym s)
  | and left right ihl ihr => exact reading_and ihl ihr
  | or left right ihl ihr => exact reading_or ihl ihr
  | not operand ih => exact reading_not ih
  | rel op left right => exact FactorReads.reading rfl rfl (factorReads_rel op left right)

theorem expectExprAndEol_exprTokens (e : Expr) :
    ∃ a, expectExprAndEol modules true (exprTokens e) = returned a ∧
      denote a = denote (e.withModules modules) := by
  rcases (reading e).expr [] behindExpr_nil with ⟨a, ha, hreads⟩
  refine ⟨a, ?_, ha⟩
  rw [List.append_nil] at hreads
  rw [expectExprAndEol, hreads _ (by omega)]
  rfl

/-! ## Any tokens -/

/-- The symbols of an expression. -/
def Expr.syms : Expr → List Sym
  | sym s => [s]
  | and left right | or left right => left.syms ++ right.syms
  | not operand => operand.syms
  | rel _ left right => [left, right]

/-- An expression read off the tokens, with `m` rewritten, and a proper rest of the tokens. -/
structure ReadOff (modules : Sym) (tokens : List Token) (read : Expr × List Token) : Prop where
  rewritten : ∃ e : Expr, read.1 = e.withModules modules ∧ ∀ s ∈ e.syms, Token.sym s ∈ tokens
  suffix : read.2 <:+ tokens
  shorter : read.2.length < tokens.length

theorem ReadOff.cons {tokens : List Token} {read : Expr × List Token} {e : Expr} {token : Token}
    {rest : List Token} (h : ReadOff modules tokens read)
    (he : ∀ e₀ : Expr, read.1 = e₀.withModules modules →
      ∃ e₁ : Expr, e = e₁.withModules modules ∧ e₁.syms = e₀.syms)
    (hrest : rest <:+ read.2) : ReadOff modules (token :: tokens) (e, rest) := by
  rcases h.rewritten with ⟨e₀, he₀, hsyms⟩
  rcases he e₀ he₀ with ⟨e₁, he₁, heq⟩
  refine ⟨⟨e₁, he₁, ?_⟩, (hrest.trans h.suffix).trans (List.suffix_cons _ _), ?_⟩
  · intro s hs
    rw [heq] at hs
    exact List.mem_cons_of_mem _ (hsyms s hs)
  · have hread := h.shorter
    have hle := hrest.length_le
    show rest.length < _
    rw [List.length_cons]
    omega

/-- Two operands with an operator between them. -/
theorem ReadOff.append {tokens more rest : List Token} {left right : Expr} {op : Token}
    {mk : Expr → Expr → Expr}
    (hmk : ∀ a b, (mk a b).withModules modules = mk (a.withModules modules) (b.withModules modules))
    (hsyms : ∀ a b, (mk a b).syms = a.syms ++ b.syms) (h : ReadOff modules tokens (left, op :: more))
    (hmore : ReadOff modules more (right, rest)) : ReadOff modules tokens (mk left right, rest) := by
  rcases h.rewritten with ⟨a, rfl, ha⟩
  rcases hmore.rewritten with ⟨b, rfl, hb⟩
  have hsuffix : more <:+ tokens := (List.suffix_cons op more).trans h.suffix
  refine ⟨⟨mk a b, (hmk a b).symm, ?_⟩, hmore.suffix.trans hsuffix, ?_⟩
  · intro s hs
    rw [hsyms] at hs
    rcases List.mem_append.mp hs with hs | hs
    · exact ha s hs
    · exact hsuffix.subset (hb s hs)
  · exact lt_of_lt_of_le hmore.shorter hsuffix.length_le

theorem readOff_sym {fuel : ℕ} {s : Sym} {rest : List Token} {read : Expr × List Token}
    (h : parseFactor modules true (fuel + 1) (.sym s :: rest) = returned read) :
    ReadOff modules (.sym s :: rest) read := by
  have hsym : parseFactor modules true (fuel + 1) (.sym s :: rest) =
      returned ((Expr.sym s).withModules modules, rest) →
        ReadOff modules (.sym s :: rest) read := by
    intro heq
    obtain rfl := returned.inj (heq.symm.trans h)
    exact ⟨⟨.sym s, rfl, by simp [Expr.syms]⟩, List.suffix_cons _ _, by simp⟩
  cases rest with
  | nil => exact hsym (by simp [parseFactor, Expr.withModules])
  | cons token rest =>
      cases token with
      | rel op =>
          cases rest with
          | nil => cases h
          | cons token' rest =>
              cases token' with
              | sym s' =>
                  obtain rfl := returned.inj h
                  refine ⟨⟨.rel op s s', rfl, by simp [Expr.syms]⟩, ?_, ?_⟩
                  · exact (List.suffix_append [Token.sym s, .rel op, .sym s'] rest)
                  · simp only [List.length_cons]
                    omega
              | _ => cases h
      | _ => exact hsym (by simp [parseFactor, Expr.withModules])

/-- What the three parsers read, by induction on the fuel. -/
theorem readOff (fuel : ℕ) (tokens : List Token) (read : Expr × List Token) :
    (parseExpr modules true fuel tokens = returned read → ReadOff modules tokens read) ∧
      (parseAndExpr modules true fuel tokens = returned read → ReadOff modules tokens read) ∧
      (parseFactor modules true fuel tokens = returned read → ReadOff modules tokens read) := by
  induction fuel generalizing tokens read with
  | zero => refine ⟨?_, ?_, ?_⟩ <;> · intro h; cases h
  | succ fuel ih =>
      refine ⟨?_, ?_, ?_⟩
      · intro h
        rw [parseExpr] at h
        rcases bind_eq_returned.mp h with ⟨⟨left, rest⟩, hleft, h⟩
        have hread := (ih tokens _).2.1 hleft
        dsimp only at h
        split at h
        · rcases bind_eq_returned.mp h with ⟨⟨right, rest'⟩, hright, h⟩
          obtain rfl := returned.inj h
          exact hread.append (fun _ _ => rfl) (fun _ _ => rfl) ((ih _ _).1 hright)
        · obtain rfl := returned.inj h
          exact hread
      · intro h
        rw [parseAndExpr] at h
        rcases bind_eq_returned.mp h with ⟨⟨left, rest⟩, hleft, h⟩
        have hread := (ih tokens _).2.2 hleft
        dsimp only at h
        split at h
        · rcases bind_eq_returned.mp h with ⟨⟨right, rest'⟩, hright, h⟩
          obtain rfl := returned.inj h
          exact hread.append (fun _ _ => rfl) (fun _ _ => rfl) ((ih _ _).2.1 hright)
        · obtain rfl := returned.inj h
          exact hread
      · intro h
        cases tokens with
        | nil => cases h
        | cons token rest =>
            cases token with
            | sym s => exact readOff_sym h
            | not =>
                rw [parseFactor] at h
                rcases bind_eq_returned.mp h with ⟨⟨operand, rest'⟩, hoperand, h⟩
                obtain rfl := returned.inj h
                refine ((ih _ _).2.2 hoperand).cons ?_ (List.suffix_refl _)
                rintro e₀ rfl
                exact ⟨.not e₀, rfl, rfl⟩
            | openParen =>
                rw [parseFactor] at h
                rcases bind_eq_returned.mp h with ⟨⟨expr, rest'⟩, hexpr, h⟩
                dsimp only at h
                split at h
                · obtain rfl := returned.inj h
                  refine ((ih _ _).1 hexpr).cons ?_ (List.suffix_cons _ _)
                  rintro e₀ rfl
                  exact ⟨e₀, rfl, rfl⟩
                · cases h
            | _ => cases h

theorem parseFactor_sym_ended (fuel : ℕ) (s : Sym) (rest : List Token) :
    (parseFactor modules true (fuel + 1) (.sym s :: rest)).Ended := by
  cases rest with
  | nil => simp [parseFactor, Ended]
  | cons token rest =>
      cases token with
      | rel op =>
          cases rest with
          | nil => simp [parseFactor, Ended]
          | cons token' rest => cases token' <;> simp [parseFactor, Ended]
      | _ => simp [parseFactor, Ended]

/-- The fuel that `expectExprAndEol` starts with suffices. -/
theorem parse_ended (fuel : ℕ) (tokens : List Token) :
    (3 * tokens.length + 3 ≤ fuel → (parseExpr modules true fuel tokens).Ended) ∧
      (3 * tokens.length + 2 ≤ fuel → (parseAndExpr modules true fuel tokens).Ended) ∧
      (3 * tokens.length + 1 ≤ fuel → (parseFactor modules true fuel tokens).Ended) := by
  induction fuel generalizing tokens with
  | zero => refine ⟨?_, ?_, ?_⟩ <;> · intro h; omega
  | succ fuel ih =>
      refine ⟨?_, ?_, ?_⟩
      · intro hfuel
        rw [parseExpr]
        refine bind_ended.mpr ⟨(ih tokens).2.1 (by omega), ?_⟩
        rintro ⟨left, rest⟩ hleft
        have hshorter : rest.length < tokens.length := ((readOff fuel tokens _).2.1 hleft).shorter
        dsimp only
        split
        · rename_i more
          rw [List.length_cons] at hshorter
          exact bind_ended.mpr ⟨(ih more).1 (by omega), fun _ _ => by simp [Ended]⟩
        · simp [Ended]
      · intro hfuel
        rw [parseAndExpr]
        refine bind_ended.mpr ⟨(ih tokens).2.2 (by omega), ?_⟩
        rintro ⟨left, rest⟩ hleft
        have hshorter : rest.length < tokens.length := ((readOff fuel tokens _).2.2 hleft).shorter
        dsimp only
        split
        · rename_i more
          rw [List.length_cons] at hshorter
          exact bind_ended.mpr ⟨(ih more).2.1 (by omega), fun _ _ => by simp [Ended]⟩
        · simp [Ended]
      · intro hfuel
        cases tokens with
        | nil => simp [parseFactor, Ended]
        | cons token rest =>
            rw [List.length_cons] at hfuel
            cases token with
            | sym s => exact parseFactor_sym_ended fuel s rest
            | not =>
                rw [parseFactor]
                exact bind_ended.mpr ⟨(ih rest).2.2 (by omega), fun _ _ => by simp [Ended]⟩
            | openParen =>
                rw [parseFactor]
                refine bind_ended.mpr ⟨(ih rest).1 (by omega), ?_⟩
                rintro ⟨expr, rest'⟩ _
                dsimp only
                split <;> simp [Ended]
            | _ => simp [parseFactor, Ended]

theorem expectExprAndEol_ended (tokens : List Token) :
    (expectExprAndEol modules true tokens).Ended := by
  refine bind_ended.mpr ⟨(parse_ended _ tokens).1 le_rfl, ?_⟩
  rintro ⟨expr, rest⟩ _
  dsimp only
  split_ifs <;> simp [Ended]

theorem readOff_of_expectExprAndEol {tokens : List Token} {e : Expr}
    (h : expectExprAndEol modules true tokens = returned e) :
    ∃ e₀ : Expr, e = e₀.withModules modules ∧ ∀ s ∈ e₀.syms, Token.sym s ∈ tokens := by
  rcases bind_eq_returned.mp h with ⟨⟨expr, rest⟩, hexpr, h⟩
  dsimp only at h
  split_ifs at h
  obtain rfl := returned.inj h
  exact ((readOff _ tokens _).1 hexpr).rewritten

end Kconfig

end DistroSeed
