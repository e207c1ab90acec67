import DistroSeed.Library.Lines
import DistroSeed.Model.KconfigValues

/-! The `.config` file of `kconfiglib.py`: how `write_config` writes it and how `load_config` reads
it. -/

namespace DistroSeed

namespace Kconfig

/-! ## Writing -/

section Writing

variable (K : KconfigFiles) (U : UserValues) (V : Sym → SymbolValue)

/-- `config_prefix`. -/
def configPrefix : List Char := "CONFIG_".toList

/-- A line that sets a symbol. -/
def setLine (name val : List Char) : List Char := configPrefix ++ name ++ '=' :: val ++ ['\n']

def unsetLine (name : List Char) : List Char :=
  "# ".toList ++ configPrefix ++ name ++ " is not set\n".toList

/-- `config_string`. -/
def KconfigFiles.configString (s : Symbol) : List Char :=
  let val := (K.strValue U V s).1
  if (K.strValue U V s).2 = false then []
  else
    match s.origType with
    | .bool | .tristate => if val ≠ ['n'] then setLine s.name val else unsetLine s.name
    | .int | .hex => setLine s.name val
    | .string | .unknown => setLine s.name ('"' :: escaping.escape val ++ ['"'])

/-- The chunks written so far, the symbols visited, and whether the last chunk is the comment at the
end of a menu. -/
structure Writing where
  chunks : List (List Char)
  visited : List (List Char)
  afterEndComment : Bool

/-- The comment in front of a menu or of a comment's place. -/
def titleChunk (prompt : List Char) : List Char :=
  "\n#\n# ".toList ++ prompt ++ "\n#\n".toList

def endChunk (prompt : List Char) : List Char := "# end of ".toList ++ prompt ++ ['\n']

/-- Whether a menu or a comment is shown. -/
def isShown (item : MenuItem) (dep : Expr) : Bool :=
  exprValue V dep ≠ .n &&
    match item with
    | .menu visibility => exprValue V visibility ≠ .n
    | .comment => true
    | .symbol _ | .choice => false

/-- The output for a node. -/
def KconfigFiles.enterNode (item : MenuItem) (prompt : List Char) (dep : Expr) (w : Writing) : Writing :=
  match item with
  | .symbol name =>
      if w.visited.contains name then w
      else
        let w := { w with visited := w.visited ++ [name] }
        let confString := ((K.symbol? name).map (K.configString U V)).getD []
        if confString = [] then w
        else
          { w with
            chunks := w.chunks ++ (if w.afterEndComment then [['\n']] else []) ++ [confString]
            afterEndComment := false }
  | item =>
      if isShown V item dep then
        { w with chunks := w.chunks ++ [titleChunk prompt], afterEndComment := false }
      else w

/-- The comment behind the children of a menu. -/
def leaveNode (item : MenuItem) (prompt : List Char) (dep : Expr) (w : Writing) : Writing :=
  match item with
  | .menu _ =>
      if isShown V item dep then
        { w with chunks := w.chunks ++ [endChunk prompt], afterEndComment := true }
      else w
  | .symbol _ | .choice | .comment => w

/-- The tree walk of `_config_contents`, from a node to the last one behind it. -/
def KconfigFiles.writeNode : MenuNode → Writing → Writing
  | .absent, w => w
  | .node item prompt dep list next, w =>
      let w := K.enterNode U V item prompt dep w
      let w := if list = .absent then w else leaveNode V item prompt dep (writeNode list w)
      writeNode next w

/-- `_config_contents`. -/
def KconfigFiles.configContents (header : List Char) : List Char :=
  (K.writeNode U V K.menu ⟨[header], [], false⟩).chunks.flatten

end Writing

/-! ## Loading -/

/-- `rstrip`. -/
def rstrip (text : List Char) : List Char := (text.reverse.dropWhile isSpace).reverse

/-- `_set_match`: the name and the value of a line that sets a symbol. -/
def setMatch (line : List Char) : Option (List Char × List Char) :=
  if configPrefix.isPrefixOf line then
    let rest := line.drop configPrefix.length
    let name := rest.takeWhile (· ≠ '=')
    match rest.drop name.length with
    | _ :: val => if name ≠ [] then some (name, val) else none
    | [] => none
  else none

/-- `_unset_match`: the name in a line that says that a symbol is not set. -/
def unsetMatch (line : List Char) : Option (List Char) :=
  let start := "# ".toList ++ configPrefix
  if start.isPrefixOf line then
    let rest := line.drop start.length
    let name := rest.takeWhile (· ≠ ' ')
    if name ≠ [] ∧ " is not set".toList.isPrefixOf (rest.drop name.length) then some name else none
  else none

/-- The characters behind a quote up to the quote that ends them. -/
def quoted : List Char → Option (List Char)
  | [] => none
  | '"' :: _ => some []
  | ['\\'] => none
  | '\\' :: c :: rest => (quoted rest).map fun text => '\\' :: c :: text
  | c :: rest => (quoted rest).map (c :: ·)

/-- `_conf_string_match`. -/
def confStringMatch (val : List Char) : Option (List Char) :=
  match val with
  | '"' :: rest => quoted rest
  | _ => none

/-- `unescape`. -/
def unescape : List Char → List Char
  | [] => []
  | '\\' :: c :: rest => c :: unescape rest
  | c :: rest => c :: unescape rest

/-- The user values during a load, and the symbols and choices whose `_was_set` is true. -/
structure Loading where
  user : UserValues
  symWasSet : List (List Char)
  choiceWasSet : List Sym

/-- `Choice.set_value`. -/
def Choice.setValue (c : Choice) (value : List Char) (l : Loading) : Loading :=
  match Tristate.ofStr value with
  | none => l
  | some mode =>
      if l.user.mode c.sym = some mode then { l with choiceWasSet := c.sym :: l.choiceWasSet }
      else if c.origType.accepts (.tri mode) then
        { l with
          user := { l.user with mode := Function.update l.user.mode c.sym (some mode) }
          choiceWasSet := c.sym :: l.choiceWasSet }
      else l

/-- What `Symbol.set_value` takes a text for. -/
def Symbol.userValue (s : Symbol) (value : List Char) : UserValue :=
  if s.origType.isBoolTristate then ((Tristate.ofStr value).map .tri).getD (.str value)
  else .str value

/-- `Symbol.set_value`. -/
def Symbol.setValue (s : Symbol) (value : List Char) (l : Loading) : Loading :=
  let value := s.userValue value
  if l.user.value s.name = some value ∧ s.choice = none then
    { l with symWasSet := s.name :: l.symWasSet }
  else if s.origType.accepts value then
    let user := { l.user with value := Function.update l.user.value s.name (some value) }
    match s.choice with
    | some c =>
        if value = .tri .y then
          { user := { user with selection := Function.update user.selection c.sym (some s.name) }
            symWasSet := s.name :: l.symWasSet
            choiceWasSet := c.sym :: l.choiceWasSet }
        else { l with user := user, symWasSet := s.name :: l.symWasSet }
    | none => { l with user := user, symWasSet := s.name :: l.symWasSet }
  else l

/-- The value that the line gives a bool or tristate symbol: its first character counts. -/
def SymbolType.readTristate (type : SymbolType) (val : List Char) : Option (List Char) :=
  match val with
  | 'y' :: _ => some ['y']
  | 'n' :: _ => some ['n']
  | 'm' :: _ => if type = .tristate then some ['m'] else none
  | _ => none

/-- A line `CONFIG_NAME=VALUE`. -/
def Symbol.assign (s : Symbol) (val : List Char) (l : Loading) : Loading :=
  if s.origType.isBoolTristate then
    match s.origType.readTristate val with
    | none => l
    | some val =>
        match s.choice with
        | some c => s.setValue val (if val ≠ ['n'] then c.setValue val l else l)
        | none => s.setValue val l
  else if s.origType = .string then
    match confStringMatch val with
    | none => l
    | some val => s.setValue (unescape val) l
  else s.setValue val l

/-- A line `# CONFIG_NAME is not set`. -/
def Symbol.unassign (s : Symbol) (l : Loading) : Loading :=
  if s.origType.isBoolTristate then s.setValue ['n'] l else l

section Loading

variable (K : KconfigFiles)

/-- One turn of the loop of `_load_config`. -/
def KconfigFiles.loadLine (l : Loading) (line : List Char) : Loading :=
  let line := rstrip line
  match setMatch line, unsetMatch line with
  | some (name, val), _ =>
      match K.symbol? name with
      | some s => s.assign val l
      | none => l
  | none, some name =>
      match K.symbol? name with
      | some s => s.unassign l
      | none => l
  | none, none => l

/-- The characters that end a line of a file. -/
def isLineBreak (c : Char) : Bool := c = '\n' || c = '\r'

/-- The lines of a file. -/
def fileLines (text : List Char) : List (List Char) :=
  (Lines.split isLineBreak '\r' '\n' text).map Prod.fst

/-- The lines of `_load_config`. -/
def KconfigFiles.loadText (text : List Char) (l : Loading) : Loading :=
  (fileLines text).foldl K.loadLine l

/-- The end of `_load_config`: what the file does not set is unset. -/
def KconfigFiles.unsetRest (l : Loading) : UserValues where
  value name :=
    if (K.symbol? name).isSome && !l.symWasSet.contains name then none else l.user.value name
  mode c := if c ∈ K.choices.map (·.sym) ∧ c ∉ l.choiceWasSet then none else l.user.mode c
  selection c := if c ∈ K.choices.map (·.sym) ∧ c ∉ l.choiceWasSet then none else l.user.selection c

/-- `_load_config` with `replace`. -/
def KconfigFiles.loadConfig (U : UserValues) (text : List Char) : UserValues :=
  K.unsetRest (K.loadText text ⟨U, [], []⟩)

end Loading

end Kconfig

end DistroSeed
