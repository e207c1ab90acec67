import Mathlib.Logic.Function.Basic
import DistroSeed.Library.Equations
import DistroSeed.Model.KconfigExpr

/-! The symbols and choices of a loaded `Kconfig` and the values that `kconfiglib.py` computes for
them. What the values read of each other goes through a table of values; the recursion that fills
the table stands at the end. -/

namespace DistroSeed

namespace Kconfig

/-- `TRI_TO_STR`. -/
def Tristate.toStr : Tristate → List Char
  | n => ['n']
  | m => ['m']
  | y => ['y']

/-- `STR_TO_TRI`. -/
def Tristate.ofStr (text : List Char) : Option Tristate :=
  if text = ['n'] then some n else if text = ['m'] then some m
  else if text = ['y'] then some y else none

/-- A `Choice`, with the prompt conditions of its nodes; in expressions `sym` stands for it, under a
name like `<choice>` that no symbol has. -/
structure Choice where
  sym : Sym
  origType : SymbolType
  isOptional : Bool
  prompts : List Expr
  defaults : List (List Char × Expr)
  syms : List (List Char)
deriving DecidableEq, Repr

/-- A defined `Symbol`, with the prompt conditions of its nodes. -/
structure Symbol where
  name : List Char
  origType : SymbolType
  prompts : List Expr
  defaults : List (Expr × Expr)
  ranges : List (Sym × Sym × Expr)
  directDep : Expr
  revDep : Expr
  weakRevDep : Expr
  choice : Option Choice
  envVar : Option (List Char)
deriving DecidableEq, Repr

def Symbol.sym (s : Symbol) : Sym := ⟨s.name, false⟩

/-- The items of menu nodes with what else the node of the item holds. -/
inductive MenuItem where
  | symbol (name : List Char)
  | choice
  | menu (visibility : Expr)
  | comment
deriving DecidableEq, Repr

/-- A `MenuNode` with its first child and its next sibling. -/
inductive MenuNode where
  | absent
  | node (item : MenuItem) (prompt : List Char) (dep : Expr) (list next : MenuNode)
deriving DecidableEq, Repr

/-- The names of the symbols that have a node. -/
def MenuNode.names : MenuNode → List (List Char)
  | absent => []
  | node (.symbol name) _ _ list next => name :: (list.names ++ next.names)
  | node _ _ _ list next => list.names ++ next.names

/-- What a `Kconfig` holds of its files: `symbols` is `unique_defined_syms`, `choices` is
`unique_choices`, `menu` is the first node below `top_node`, and `defconfigList` is the name of the
`defconfig_list` symbol. The names are those that `_tokenize` reads. -/
structure KconfigFiles where
  symbols : List Symbol
  choices : List Choice
  menu : MenuNode
  defconfigList : Option (List Char)
  names_nodup : (symbols.map (·.name)).Nodup
  name_ne_nil : ∀ s ∈ symbols, s.name ≠ []
  name_isIdChar : ∀ s ∈ symbols, s.name.all isIdChar
  choices_nodup : (choices.map (·.sym)).Nodup
  choice_sym : ∀ c ∈ choices, c.sym.isConstant = false ∧ c.sym.name.all isIdChar = false
  mem_choice : ∀ s ∈ symbols, ∀ c ∈ s.choice, c ∈ choices ∧ s.name ∈ c.syms
  choice_of_mem_syms : ∀ c ∈ choices, ∀ name ∈ c.syms,
    ∃ s ∈ symbols, s.name = name ∧ s.choice = some c
  mem_menu : ∀ s ∈ symbols, s.name ∈ menu.names

/-- `syms.get`, of a defined symbol. -/
def KconfigFiles.symbol? (K : KconfigFiles) (name : List Char) : Option Symbol :=
  K.symbols.find? (·.name = name)

/-- The `user_value` of a symbol. -/
inductive UserValue where
  | tri (value : Tristate)
  | str (text : List Char)
deriving DecidableEq, Repr

/-- The values that `set_value` takes for a symbol or a choice of the type. -/
def SymbolType.accepts : SymbolType → UserValue → Bool
  | bool, .tri value => value ≠ .m
  | tristate, .tri _ => true
  | string, .str _ => true
  | int, .str text => (pyInt 10 text).isSome
  | hex, .str text => (pyInt 16 text).any (0 ≤ ·)
  | _, _ => false

/-- The user values of symbols, and the `user_value` and `user_selection` of choices. -/
structure UserValues where
  value : List Char → Option UserValue
  mode : Sym → Option Tristate
  selection : Sym → Option (List Char)

/-! ## The value of one symbol -/

section Values

variable (K : KconfigFiles) (U : UserValues) (V : Sym → SymbolValue)

/-- `Symbol.type` and `Choice.type`; a choice has no mode above it. -/
def typeIn (origType : SymbolType) (mode : Option Tristate) : SymbolType :=
  if origType = .tristate ∧ (mode = some .y ∨ (V Sym.modules).triValue = .n) then .bool else origType

/-- The `tri_value` of the choice that a symbol is in. -/
def Symbol.mode (s : Symbol) : Option Tristate := s.choice.map fun c => (V c.sym).triValue

/-- The first loop of `_visibility`. -/
def promptValue (prompts : List Expr) : Tristate :=
  prompts.foldl (fun vis cond => max vis (exprValue V cond)) .n

/-- The last branch of `_visibility`: `m` counts as `y` for what is no tristate. -/
def promote (type : SymbolType) (vis : Tristate) : Tristate :=
  if vis = .m ∧ type ≠ .tristate then .y else vis

/-- `_visibility` of a choice. -/
def Choice.visibility (c : Choice) : Tristate :=
  promote (typeIn V c.origType none) (promptValue V c.prompts)

/-- `_visibility` of a symbol. -/
def Symbol.visibility (s : Symbol) : Tristate :=
  let vis := promptValue V s.prompts
  if s.choice.any (·.origType = .tristate) ∧ s.origType ≠ .tristate ∧ s.mode V ≠ some .y then .n
  else if s.origType = .tristate ∧ vis = .m ∧ s.mode V = some .y then .n
  else promote (typeIn V s.origType (s.mode V)) vis

/-- Whether the symbol of the name is visible. -/
def KconfigFiles.visible (name : List Char) : Bool :=
  (K.symbol? name).any fun s => s.visibility V ≠ .n

/-- `Choice.tri_value`. -/
def Choice.triValue (c : Choice) : Tristate :=
  let val := if c.isOptional then .n else .m
  let val := match U.mode c.sym with
    | some mode => max val mode
    | none => val
  let val := min val (c.visibility V)
  if val = .m ∧ typeIn V c.origType none = .bool then .y else val

/-- `_selection_from_defaults`. -/
def KconfigFiles.selectionFromDefaults (c : Choice) : Option (List Char) :=
  match c.defaults.find? fun default => exprValue V default.2 ≠ .n && K.visible V default.1 with
  | some default => some default.1
  | none => c.syms.find? (K.visible V)

/-- `_selection`. -/
def KconfigFiles.selection (c : Choice) : Option (List Char) :=
  if (V c.sym).triValue ≠ .y then none
  else
    match (U.selection c.sym).filter (K.visible V) with
    | some name => some name
    | none => K.selectionFromDefaults V c

/-- The defaults and implies in `Symbol.tri_value`, with `_write_to_conf`. -/
def Symbol.defaultTri (s : Symbol) : Tristate × Bool :=
  let val := match s.defaults.find? fun default => exprValue V default.2 ≠ .n with
    | some default => min (exprValue V default.1) (exprValue V default.2)
    | none => .n
  let depVal := exprValue V s.weakRevDep
  if depVal ≠ .n ∧ exprValue V s.directDep ≠ .n then (max depVal val, true)
  else (val, val ≠ .n)

/-- The user value or what `defaultTri` gives in its place. -/
def Symbol.baseTri (s : Symbol) : Tristate × Bool :=
  let vis := s.visibility V
  match U.value s.name with
  | some (.tri value) => if vis ≠ .n then (min value vis, true) else s.defaultTri V
  | _ => ((s.defaultTri V).1, vis ≠ .n || (s.defaultTri V).2)

/-- `Symbol.tri_value` of a bool or tristate symbol outside choices, with `_write_to_conf`. -/
def Symbol.plainTri (s : Symbol) : Tristate × Bool :=
  let base := s.baseTri U V
  let depVal := exprValue V s.revDep
  let val := if depVal ≠ .n then max depVal base.1 else base.1
  (if val = .m ∧ (typeIn V s.origType none = .bool ∨ exprValue V s.weakRevDep = .y) then .y else val,
    base.2 || depVal ≠ .n)

/-- `Symbol.tri_value` of a bool or tristate symbol in a choice, with `_write_to_conf`. -/
def KconfigFiles.choiceTri (s : Symbol) (c : Choice) : Tristate × Bool :=
  let vis := s.visibility V
  if vis = .y then (if K.selection U V c = some s.name then .y else .n, true)
  else if vis ≠ .n ∧ U.value s.name ≠ none ∧ U.value s.name ≠ some (.tri .n) then (.m, true)
  else (.n, vis ≠ .n)

/-- `Symbol.tri_value` of a bool or tristate symbol, with `_write_to_conf`. -/
def KconfigFiles.triValue (s : Symbol) : Tristate × Bool :=
  match s.choice with
  | none => s.plainTri U V
  | some c => K.choiceTri U V s c

/-- The first default whose condition holds; it is a symbol, or the files are refused. -/
def Symbol.defaultStr (s : Symbol) : Option (List Char) :=
  (s.defaults.find? fun default => exprValue V default.2 ≠ .n).map fun default =>
    match default.1 with
    | .sym value => (V value).strValue
    | _ => []

/-- `str_value` of a string symbol, with `_write_to_conf`. -/
def Symbol.stringValue (s : Symbol) : List Char × Bool :=
  let vis := s.visibility V
  match U.value s.name with
  | some (.str value) =>
      if vis ≠ .n then (value, true) else ((s.defaultStr V).getD [], (s.defaultStr V).isSome)
  | _ => ((s.defaultStr V).getD [], vis ≠ .n || (s.defaultStr V).isSome)

/-- `int` of a text, or 0 where it is no number. -/
def toNumber (base : ℕ) (text : List Char) : ℤ := (pyInt base text).getD 0

/-- The range in effect. -/
def Symbol.activeRange (s : Symbol) : Option (ℤ × ℤ) :=
  (s.ranges.find? fun range => exprValue V range.2.2 ≠ .n).map fun range =>
    (toNumber s.origType.base (V range.1).strValue, toNumber s.origType.base (V range.2.1).strValue)

/-- `str` or `hex` of a number. -/
def numberText (type : SymbolType) (value : ℤ) : List Char :=
  (if value < 0 then ['-'] else []) ++
    (if type = .int then Nat.toDigits 10 value.natAbs else '0' :: 'x' :: Nat.toDigits 16 value.natAbs)

/-- The defaults in `str_value` of an int or hex symbol, moved into the range. -/
def Symbol.defaultNumber (s : Symbol) : List Char :=
  let val := (s.defaultStr V).getD []
  let valNum := toNumber s.origType.base val
  match s.activeRange V with
  | some (low, high) =>
      if valNum < low then numberText s.origType low
      else if high < valNum then numberText s.origType high
      else val
  | none => val

/-- Whether a user value lies in the range in effect. -/
def Symbol.inRange (s : Symbol) (value : List Char) : Bool :=
  (s.activeRange V).all fun range =>
    range.1 ≤ toNumber s.origType.base value && toNumber s.origType.base value ≤ range.2

/-- `str_value` of an int or hex symbol, with `_write_to_conf`. -/
def Symbol.numberValue (s : Symbol) : List Char × Bool :=
  let vis := s.visibility V
  match U.value s.name with
  | some (.str value) =>
      if vis ≠ .n ∧ value ≠ [] ∧ s.inRange V value then (value, true)
      else (s.defaultNumber V, vis ≠ .n || (s.defaultStr V).isSome)
  | _ => (s.defaultNumber V, vis ≠ .n || (s.defaultStr V).isSome)

/-- Whether the symbol has `option env` or `option defconfig_list`. -/
def KconfigFiles.isAuto (s : Symbol) : Bool :=
  s.envVar.isSome || K.defconfigList = some s.name

/-- The last branch of `str_value`. -/
def KconfigFiles.unlessAuto (s : Symbol) (value : List Char × Bool) : List Char × Bool :=
  (value.1, value.2 && !K.isAuto s)

/-- `Symbol.str_value`, with `_write_to_conf`. -/
def KconfigFiles.strValue (s : Symbol) : List Char × Bool :=
  match s.origType with
  | .bool | .tristate => ((K.triValue U V s).1.toStr, (K.triValue U V s).2)
  | .unknown => (s.name, false)
  | .int | .hex => K.unlessAuto s (s.numberValue U V)
  | .string => K.unlessAuto s (s.stringValue U V)

/-- What expressions read of a defined symbol. -/
def KconfigFiles.symbolValue (s : Symbol) : SymbolValue where
  origType := s.origType
  strValue := (K.strValue U V s).1
  triValue := if s.origType.isBoolTristate then (K.triValue U V s).1 else .n

/-- What expressions read of a choice. -/
def Choice.value (c : Choice) : SymbolValue where
  origType := c.origType
  strValue := (c.triValue U V).toStr
  triValue := c.triValue U V

end Values

/-! ## All values -/

/-- What expressions read of a symbol that is not defined, or of quoted text. -/
def undefinedValue (s : Sym) : SymbolValue := ⟨.unknown, s.name, .n⟩

/-- What expressions read of a constant symbol. -/
def constantValue (s : Sym) : SymbolValue :=
  match Tristate.ofStr s.name with
  | some value => ⟨.tristate, s.name, value⟩
  | none => undefinedValue s

/-- The value of a symbol from the values that it reads. -/
def KconfigFiles.step (K : KconfigFiles) (U : UserValues) (V : Sym → SymbolValue) (s : Sym) :
    SymbolValue :=
  if s.isConstant then constantValue s
  else
    match K.symbol? s.name, K.choices.find? (·.sym = s) with
    | some symbol, _ => K.symbolValue U V symbol
    | none, some c => c.value U V
    | none, none => undefinedValue s

/-- The values, computed down to a depth of the recursion. -/
def KconfigFiles.values (K : KconfigFiles) (U : UserValues) (depth : ℕ) : Sym → SymbolValue :=
  Equations.evaluate (K.step U) undefinedValue depth

/-! ## Dependencies -/

/-- `expr_items`. -/
def exprItems : Expr → List Sym
  | .sym s => [s]
  | .and left right => exprItems left ++ exprItems right
  | .or left right => exprItems left ++ exprItems right
  | .not operand => exprItems operand
  | .rel _ left right => [left, right]

/-- What `type` reads. -/
def SymbolType.reads (origType : SymbolType) : List Sym :=
  if origType = .tristate then [Sym.modules] else []

def Choice.reads (c : Choice) : List Sym := c.origType.reads ++ c.prompts.flatMap exprItems

/-- What `_visibility` reads. -/
def Symbol.visibilityReads (s : Symbol) : List Sym :=
  s.choice.toList.map (·.sym) ++ s.origType.reads ++ s.prompts.flatMap exprItems

/-- What `_selection` reads: every symbol of the choice and every default has to be visible. -/
def KconfigFiles.selectionReads (K : KconfigFiles) (c : Choice) : List Sym :=
  c.sym :: (c.defaults.flatMap fun default => exprItems default.2) ++
    ((c.defaults.map Prod.fst ++ c.syms).filterMap K.symbol?).flatMap Symbol.visibilityReads

/-- The dependencies of `_build_dep`, and what the choice of the symbol depends on. -/
def KconfigFiles.symbolReads (K : KconfigFiles) (s : Symbol) : List Sym :=
  s.visibilityReads ++
    (s.defaults.flatMap fun default => exprItems default.1 ++ exprItems default.2) ++
    (s.ranges.flatMap fun range => range.1 :: range.2.1 :: exprItems range.2.2) ++
    exprItems s.directDep ++ exprItems s.revDep ++ exprItems s.weakRevDep ++
    s.choice.toList.flatMap K.selectionReads

def KconfigFiles.reads (K : KconfigFiles) (s : Sym) : List Sym :=
  if s.isConstant then []
  else
    match K.symbol? s.name, K.choices.find? (·.sym = s) with
    | some symbol, _ => K.symbolReads symbol
    | none, some c => c.reads
    | none, none => []

end Kconfig

end DistroSeed
