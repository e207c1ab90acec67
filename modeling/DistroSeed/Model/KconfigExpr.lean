import Mathlib.Order.Lattice
import DistroSeed.Library.Escapes
import DistroSeed.Library.Outcome

/-! The expressions of Kconfig: how `eval_string` of `kconfiglib.py` reads them, what they are
worth, and how `expr_str` prints them. -/

namespace DistroSeed

namespace Kconfig

/-- `n`, `m` and `y`, which count as 0, 1 and 2. -/
inductive Tristate where
  | n
  | m
  | y
deriving DecidableEq, Repr

namespace Tristate

def toNat : Tristate → ℕ
  | n => 0
  | m => 1
  | y => 2

theorem toNat_injective : Function.Injective toNat := by
  intro a b h
  cases a <;> cases b <;> first | rfl | cases h

instance : LinearOrder Tristate := LinearOrder.lift' toNat toNat_injective

/-- `2 - value`. -/
def not : Tristate → Tristate
  | n => y
  | m => m
  | y => n

/-- `2*(condition)`. -/
def ofBool (condition : Bool) : Tristate := if condition then y else n

end Tristate

/-- The types of symbols; a symbol that is only mentioned has the type `unknown`. -/
inductive SymbolType where
  | unknown
  | bool
  | tristate
  | string
  | int
  | hex
deriving DecidableEq, Repr

/-- `_BOOL_TRISTATE`. -/
def SymbolType.isBoolTristate (type : SymbolType) : Bool := type = .bool || type = .tristate

/-- A symbol in an expression; text in quotes is a constant symbol, and so are `n`, `m` and `y`. -/
structure Sym where
  name : List Char
  isConstant : Bool
deriving DecidableEq, Repr

/-- `STR_TO_TRI`. -/
def isTristateName (name : List Char) : Bool := name ∈ [['n'], ['m'], ['y']]

def Sym.m : Sym := ⟨['m'], true⟩

/-- `Kconfig.modules`. -/
def Sym.modules : Sym := ⟨"MODULES".toList, false⟩

/-- What an expression reads of a symbol. -/
structure SymbolValue where
  origType : SymbolType
  strValue : List Char
  triValue : Tristate
deriving DecidableEq, Repr

/-- The operators of `_RELATIONS`. -/
inductive Rel where
  | equal
  | unequal
  | less
  | lessEqual
  | greater
  | greaterEqual
deriving DecidableEq, Repr

/-- `REL_TO_STR`. -/
def Rel.toStr : Rel → List Char
  | equal => ['=']
  | unequal => ['!', '=']
  | less => ['<']
  | lessEqual => ['<', '=']
  | greater => ['>']
  | greaterEqual => ['>', '=']

inductive Expr where
  | sym (s : Sym)
  | and (left right : Expr)
  | or (left right : Expr)
  | not (operand : Expr)
  | rel (op : Rel) (left right : Sym)
deriving DecidableEq, Repr

/-! ## Values -/

/-- `str.isspace` of one character. -/
def isSpace (c : Char) : Bool :=
  c.toNat ∈ [0x20, 0x85, 0xA0, 0x1680, 0x2028, 0x2029, 0x202F, 0x205F, 0x3000] ||
    (0x09 ≤ c.toNat && c.toNat ≤ 0x0D) || (0x1C ≤ c.toNat && c.toNat ≤ 0x1F) ||
    (0x2000 ≤ c.toNat && c.toNat ≤ 0x200A)

def strip (text : List Char) : List Char :=
  ((text.dropWhile isSpace).reverse.dropWhile isSpace).reverse

def digitValue (c : Char) : Option ℕ :=
  if '0' ≤ c ∧ c ≤ '9' then some (c.toNat - '0'.toNat)
  else if 'a' ≤ c ∧ c ≤ 'z' then some (c.toNat - 'a'.toNat + 10)
  else if 'A' ≤ c ∧ c ≤ 'Z' then some (c.toNat - 'A'.toNat + 10)
  else none

/-- Digits with single underscores between them; `afterDigit` is whether an underscore or the end
may follow. -/
def readDigits (base : ℕ) : ℕ → (afterDigit : Bool) → List Char → Option ℕ
  | value, afterDigit, [] => if afterDigit then some value else none
  | value, afterDigit, c :: rest =>
      if c = '_' then
        if afterDigit then readDigits base value false rest else none
      else
        match digitValue c with
        | some d => if d < base then readDigits base (base * value + d) true rest else none
        | none => none

/-- The base of `0x`, `0o` and `0b`. -/
def prefixBase (c : Char) : Option ℕ :=
  if c ∈ ['x', 'X'] then some 16
  else if c ∈ ['o', 'O'] then some 8
  else if c ∈ ['b', 'B'] then some 2
  else none

/-- `int` of a text without a sign. -/
def unsignedInt (base : ℕ) (text : List Char) : Option ℕ :=
  match text with
  | '0' :: rest =>
      match rest.head?.bind prefixBase with
      | some b =>
          if base = 0 ∨ base = b then
            -- an underscore may follow the prefix
            match rest.tail with
            | '_' :: digits => readDigits b 0 false digits
            | digits => readDigits b 0 false digits
          else readDigits base 0 false text
      | none =>
          -- in base 0 a number that starts with a zero has to be zero
          if base = 0 then (readDigits 10 0 false text).filter (· = 0)
          else readDigits base 0 false text
  | _ => readDigits (if base = 0 then 10 else base) 0 false text

/-- `int(text, base)`, or nothing for a `ValueError`. -/
def pyInt (base : ℕ) (text : List Char) : Option ℤ :=
  match strip text with
  | '-' :: rest => (unsignedInt base rest).map fun value => -(value : ℤ)
  | '+' :: rest => (unsignedInt base rest).map fun value => (value : ℤ)
  | rest => (unsignedInt base rest).map fun value => (value : ℤ)

/-- `_TYPE_TO_BASE`. -/
def SymbolType.base : SymbolType → ℕ
  | hex => 16
  | int => 10
  | unknown | string | bool | tristate => 0

/-- `_strcmp`. -/
def strcmp (s₁ s₂ : List Char) : ℤ := if s₁ < s₂ then -1 else if s₂ < s₁ then 1 else 0

/-- `_sym_to_num`. -/
def symToNum (v : SymbolValue) : Option ℤ :=
  if v.origType.isBoolTristate then some v.triValue.toNat else pyInt v.origType.base v.strValue

def compareSyms (v₁ v₂ : SymbolValue) : ℤ :=
  if v₁.origType = .string ∧ v₂.origType = .string then strcmp v₁.strValue v₂.strValue
  else
    match symToNum v₁, symToNum v₂ with
    | some n₁, some n₂ => n₁ - n₂
    | _, _ => strcmp v₁.strValue v₂.strValue

def Rel.holds (op : Rel) (comp : ℤ) : Bool :=
  match op with
  | equal => comp = 0
  | unequal => comp ≠ 0
  | less => comp < 0
  | lessEqual => comp ≤ 0
  | greater => comp > 0
  | greaterEqual => comp ≥ 0

/-- `expr_value`. -/
def exprValue (values : Sym → SymbolValue) : Expr → Tristate
  | .sym s => (values s).triValue
  | .and left right =>
      let v₁ := exprValue values left
      if v₁ = .n then .n else min v₁ (exprValue values right)
  | .or left right =>
      let v₁ := exprValue values left
      if v₁ = .y then .y else max v₁ (exprValue values right)
  | .not operand => (exprValue values operand).not
  | .rel op left right => .ofBool (op.holds (compareSyms (values left) (values right)))

/-! ## Printing -/

/-- `escape` and `unescape`: a backslash in front of quotes and backslashes. -/
def escaping : Escaping Char where
  mark := '\\'
  code c := if c = '\\' ∨ c = '"' then some c else none
  decode d := some d
  decode_code := by
    intro c d h
    split_ifs at h
    exact congrArg some (Option.some.inj h).symm
  isSome_code_mark := rfl

/-- `standard_sc_expr_str`. -/
def symStr (s : Sym) : List Char :=
  if s.isConstant && !isTristateName s.name then '"' :: escaping.escape s.name ++ ['"'] else s.name

/-- `_parenthesize`, with the type test as an argument. -/
def parenthesize (isType : Bool) (text : List Char) : List Char :=
  if isType then '(' :: text ++ [')'] else text

def Expr.isAnd : Expr → Bool
  | and _ _ => true
  | _ => false

def Expr.isOr : Expr → Bool
  | or _ _ => true
  | _ => false

/-- `expr_str`. -/
def exprStr : Expr → List Char
  | .sym s => symStr s
  | .and left right =>
      parenthesize left.isOr (exprStr left) ++ " && ".toList ++
        parenthesize right.isOr (exprStr right)
  | .or left right =>
      parenthesize left.isAnd (exprStr left) ++ " || ".toList ++
        parenthesize right.isAnd (exprStr right)
  | .not (.sym s) => '!' :: symStr s
  | .not operand => "!(".toList ++ exprStr operand ++ [')']
  | .rel op left right => symStr left ++ ' ' :: op.toStr ++ ' ' :: symStr right

/-! ## Tokens -/

/-- What `_parse_error` is called with; `notModelled` stands for what the preprocessor does: lines
with a `$`, and lines that start with no keyword. -/
inductive KconfigError where
  | unknownTokens
  | unterminatedString
  | malformedExpression
  | expectedSymbol
  | extraTokens
  | notModelled
deriving DecidableEq, Repr

def KconfigError.text : KconfigError → String
  | unknownTokens => "unknown tokens in line"
  | unterminatedString => "unterminated string"
  | malformedExpression => "malformed expression"
  | expectedSymbol => "expected symbol"
  | extraTokens => "extra tokens at end of line"
  | notModelled => ""

/-- The tokens of expressions. In an expression the parser takes every keyword for an error, and
every text that is no symbol. -/
inductive Token where
  | keyword (word : List Char)
  | str (text : List Char)
  | sym (s : Sym)
  | and
  | or
  | not
  | openParen
  | closeParen
  | rel (op : Rel)
deriving DecidableEq, Repr

/-- `_get_keyword`. -/
def keywords : List String := ["---help---", "allnoconfig_y", "bool", "boolean", "choice", "comment",
  "config", "def_bool", "def_hex", "def_int", "def_string", "def_tristate", "default",
  "defconfig_list", "depends", "endchoice", "endif", "endmenu", "env", "grsource", "gsource", "help",
  "hex", "if", "imply", "int", "mainmenu", "menu", "menuconfig", "modules", "on", "option", "optional",
  "orsource", "osource", "prompt", "range", "rsource", "select", "source", "string", "tristate",
  "visible"]

def isKeyword (word : List Char) : Bool := String.ofList word ∈ keywords

/-- The keywords of `_STRING_LEX`. -/
def stringLex : List String := ["bool", "boolean", "choice", "comment", "hex", "int", "mainmenu",
  "menu", "grsource", "gsource", "orsource", "osource", "prompt", "rsource", "source", "string",
  "tristate"]

def Token.isStringLex : Token → Bool
  | keyword word => String.ofList word ∈ stringLex
  | _ => false

/-- `\s` of the regular expressions. -/
def isAsciiSpace (c : Char) : Bool := c ∈ [' ', '\t', '\n', '\r', '\x0c', '\x0b']

/-- The characters of `_command_match`. -/
def isCommandChar (c : Char) : Bool := c.isAlphanum || c ∈ ['_', '$', '-']

/-- The characters of `_id_keyword_match`. -/
def isIdChar (c : Char) : Bool := c.isAlphanum || c ∈ ['_', '$', '/', '.', '-']

/-- A token, the line in front of what is still to be read, and the rest of the line. -/
structure Lexed where
  token : Token
  before : List Char
  rest : List Char
deriving DecidableEq, Repr

/-- A word in the main loop; `token` is the token in front of it. -/
def wordToken (token : Token) (name : List Char) : Token :=
  if isKeyword name then .keyword name
  else if !token.isStringLex then .sym ⟨name, isTristateName name⟩
  else .str name

/-- `_expand_str` without macros: the string up to its quote, and the rest of the line. -/
def expandStr (quote : Char) : List Char → Option (List Char × List Char)
  | [] => none
  | c :: rest =>
      if c = quote then some ([], rest)
      else if c = '\\' then
        match rest with
        | [] => none
        | d :: rest => (expandStr quote rest).map fun read => (d :: read.1, read.2)
      else (expandStr quote rest).map fun read => (c :: read.1, read.2)

/-- The string behind a quote: without a backslash anywhere in the line it ends at the next
quote. -/
def quotedString (before : List Char) (quote : Char) (rest : List Char) :
    Option (List Char × List Char) :=
  if '\\' ∉ before ++ quote :: rest then
    if quote ∈ rest then
      some (rest.takeWhile (· ≠ quote), (rest.dropWhile (· ≠ quote)).tail)
    else none
  else expandStr quote rest

/-- The token that an operator is at the start of the line's rest, with its length. -/
def operator : List Char → Option (Token × ℕ)
  | '&' :: '&' :: _ => some (.and, 2)
  | '|' :: '|' :: _ => some (.or, 2)
  | '=' :: _ => some (.rel .equal, 1)
  | '!' :: '=' :: _ => some (.rel .unequal, 2)
  | '!' :: _ => some (.not, 1)
  | '(' :: _ => some (.openParen, 1)
  | ')' :: _ => some (.closeParen, 1)
  | '<' :: '=' :: _ => some (.rel .lessEqual, 2)
  | '<' :: _ => some (.rel .less, 1)
  | '>' :: '=' :: _ => some (.rel .greaterEqual, 2)
  | '>' :: _ => some (.rel .greater, 1)
  | _ => none

/-- `Lexed` with the whitespace behind the token skipped. -/
def Lexed.skip (isSkipped : Char → Bool) (token : Token) (before rest : List Char) : Lexed where
  token := token
  before := before ++ rest.takeWhile isSkipped
  rest := rest.dropWhile isSkipped

/-- One turn of the main loop of `_tokenize`; a comment ends it. -/
def nextToken (before : List Char) (token : Token) (rest : List Char) :
    Outcome KconfigError (Option Lexed) :=
  let name := rest.takeWhile isIdChar
  if name ≠ [] then
    .returned (some (.skip isAsciiSpace (wordToken token name) (before ++ name)
      (rest.drop name.length)))
  else
    match rest with
    | [] => .returned none
    | c :: after =>
        if c = '"' ∨ c = '\'' then
          match quotedString before c after with
          | none => .raised .unterminatedString
          | some (val, after) =>
              .returned (some (.skip isSpace
                (if token.isStringLex then .str val else .sym ⟨val, true⟩)
                (before ++ c :: val ++ [c]) after))
        else
          match operator rest with
          | some (token, n) =>
              .returned (some (.skip isSpace token (before ++ rest.take n) (rest.drop n)))
          | none => if c = '#' then .returned none else .raised .unknownTokens

/-- The main loop of `_tokenize`. -/
def tokenizeRest : ℕ → (before : List Char) → Token → (rest : List Char) →
    Outcome KconfigError (List Token)
  | _, _, _, [] => .returned []
  | 0, _, _, _ :: _ => .running
  | fuel + 1, before, token, c :: rest => do
      match ← nextToken before token (c :: rest) with
      | none => pure []
      | some lexed => do
          let tokens ← tokenizeRest fuel lexed.before lexed.token lexed.rest
          pure (lexed.token :: tokens)

/-- `_tokenize`. -/
def tokenize (line : List Char) : Outcome KconfigError (List Token) :=
  let text := line.dropWhile isAsciiSpace
  let word := text.takeWhile isCommandChar
  let lexed := Lexed.skip isAsciiSpace (.keyword word) (line.takeWhile isAsciiSpace ++ word)
    (text.drop word.length)
  if '$' ∉ line ∧ isKeyword word then do
    let tokens ← tokenizeRest line.length lexed.before lexed.token lexed.rest
    pure (lexed.token :: tokens)
  else .raised .notModelled

/-! ## Parsing -/

section Parser

variable (modules : Sym) (transformM : Bool)

mutual

/-- `_parse_expr`. -/
def parseExpr : ℕ → List Token → Outcome KconfigError (Expr × List Token)
  | 0, _ => .running
  | fuel + 1, tokens => do
      let (andExpr, rest) ← parseAndExpr fuel tokens
      match rest with
      | .or :: rest => do
          let (right, rest) ← parseExpr fuel rest
          pure (.or andExpr right, rest)
      | rest => pure (andExpr, rest)

/-- `_parse_and_expr`. -/
def parseAndExpr : ℕ → List Token → Outcome KconfigError (Expr × List Token)
  | 0, _ => .running
  | fuel + 1, tokens => do
      let (factor, rest) ← parseFactor fuel tokens
      match rest with
      | .and :: rest => do
          let (right, rest) ← parseAndExpr fuel rest
          pure (.and factor right, rest)
      | rest => pure (factor, rest)

/-- `_parse_factor`. -/
def parseFactor : ℕ → List Token → Outcome KconfigError (Expr × List Token)
  | 0, _ => .running
  | _ + 1, .sym s :: .rel op :: rest =>
      match rest with
      | .sym s' :: rest => pure (.rel op s s', rest)
      | _ => .raised .expectedSymbol
  | _ + 1, .sym s :: rest =>
      pure (if transformM && s = Sym.m then .and (.sym Sym.m) (.sym modules) else .sym s, rest)
  | fuel + 1, .not :: rest => do
      let (operand, rest) ← parseFactor fuel rest
      pure (.not operand, rest)
  | fuel + 1, .openParen :: rest => do
      let (expr, rest) ← parseExpr fuel rest
      match rest with
      | .closeParen :: rest => pure (expr, rest)
      | _ => .raised .malformedExpression
  | _ + 1, _ => .raised .malformedExpression

end

/-- `_expect_expr_and_eol`. -/
def expectExprAndEol (tokens : List Token) : Outcome KconfigError Expr := do
  let (expr, rest) ← parseExpr modules transformM (3 * tokens.length + 3) tokens
  if rest = [] then pure expr else .raised .extraTokens

/-- The first half of `eval_string`. -/
def parseString (text : List Char) : Outcome KconfigError Expr := do
  let tokens ← tokenize ("if ".toList ++ text)
  expectExprAndEol modules transformM tokens.tail

end Parser

/-- `eval_string`, which rewrites `m` to `m && MODULES`. -/
def evalString (values : Sym → SymbolValue) (text : List Char) : Outcome KconfigError Tristate := do
  let expr ← parseString Sym.modules true text
  pure (exprValue values expr)

end Kconfig

end DistroSeed
