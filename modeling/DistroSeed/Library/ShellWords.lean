import Mathlib.Data.Bool.AllAny
import Mathlib.Data.List.Basic
import Mathlib.Data.List.Forall2

/-! The words of shell commands, with quotes removed. Text that does more than name words is not
read: expansions, patterns, comments and operators. -/

namespace ShellWords

/-- The characters of a word, each with whether it was quoted. -/
abbrev Word := List (Char × Bool)

def Word.text (w : Word) : List Char := w.map Prod.fst

/-! ## Reading one character at a time -/

/-- What the next character is part of. -/
inductive Mode where
  | plain
  | escaped
  | single
  | double
  | doubleEscaped
  | dollar
  | ansi
  | ansiEscaped
  | octal (digits : List ℕ)
deriving DecidableEq, Repr

structure Reader where
  mode : Mode
  word : Option Word
  words : List Word
  commands : List (List Word)
deriving DecidableEq, Repr

/-- Characters that, unquoted, start a pattern or an expansion or belong to an operator. -/
def special : List Char := ";&|<>()*?[]!^\x7b\x7d`".toList

/-- What a backslash and this character stand for between `$'` and `'`. -/
def ansiEscape (c : Char) : Option Char :=
  if c = 'a' then some '\x07'
  else if c = 'b' then some '\x08'
  else if c = 'E' || c = 'e' then some '\x1b'
  else if c = 'f' then some '\x0c'
  else if c = 'n' then some '\n'
  else if c = 'r' then some '\r'
  else if c = 't' then some '\t'
  else if c = 'v' then some '\x0b'
  else if c = '\\' || c = '\'' || c = '"' || c = '?' then some c
  else none

def octalDigit (c : Char) : Option ℕ :=
  if '0' ≤ c && c ≤ '7' then some (c.toNat - '0'.toNat) else none

namespace Reader

def start : Reader := ⟨.plain, none, [], []⟩

def push (r : Reader) (mode : Mode) (c : Char) (quoted : Bool) : Reader :=
  { r with mode := mode, word := some (r.word.getD [] ++ [(c, quoted)]) }

/-- A quote begins a word, also if nothing is quoted. -/
def openQuote (r : Reader) (mode : Mode) : Reader :=
  { r with mode := mode, word := some (r.word.getD []) }

def endWord (r : Reader) : Reader := { r with word := none, words := r.words ++ r.word.toList }

def endCommand (r : Reader) : Reader :=
  let words := r.words ++ r.word.toList
  { r with
    word := none
    words := []
    commands := if words = [] then r.commands else r.commands ++ [words] }

/-- Where an unquoted tilde names a home directory: at the start of a word and behind an equals
sign or a colon. -/
def startsTilde (r : Reader) : Bool :=
  match r.word.bind List.getLast? with
  | none => true
  | some (c, _) => c = '=' || c = ':'

def stepPlain (r : Reader) (c : Char) : Option Reader :=
  if c = '\n' then some r.endCommand
  else if c = ' ' || c = '\t' then some r.endWord
  else if c = '\'' then some (r.openQuote .single)
  else if c = '"' then some (r.openQuote .double)
  else if c = '\\' then some { r with mode := .escaped }
  else if c = '$' then some { r with mode := .dollar }
  else if c ∈ special then none
  else if c = '#' && r.word.isNone then none
  else if c = '~' && r.startsTilde then none
  else some (r.push .plain c false)

/-- The end of an octal number, of three digits. -/
def stepOctal (r : Reader) (digits : List ℕ) (c : Char) : Option Reader :=
  match digits, octalDigit c with
  | [x], some y => some { r with mode := .octal [x, y] }
  | [x, y], some z =>
      let code := (64 * x + 8 * y + z) % 256
      if code = 0 then none else some (r.push .ansi (Char.ofNat code) true)
  | _, _ => none

/-- One character; a text with a null character is not read. -/
def step (r : Reader) (c : Char) : Option Reader :=
  if c = '\x00' then none
  else
    match r.mode with
    | .plain => r.stepPlain c
    | .escaped => if c = '\n' then some { r with mode := .plain } else some (r.push .plain c true)
    | .single => if c = '\'' then some { r with mode := .plain } else some (r.push .single c true)
    | .double =>
        if c = '"' then some { r with mode := .plain }
        else if c = '\\' then some { r with mode := .doubleEscaped }
        else if c ∈ "$`".toList then none
        else some (r.push .double c true)
    | .doubleEscaped =>
        if c = '\n' then some { r with mode := .double }
        else if c ∈ "$`\"\\".toList then some (r.push .double c true)
        else some ((r.push .double '\\' true).push .double c true)
    | .dollar => if c = '\'' then some (r.openQuote .ansi) else none
    | .ansi =>
        if c = '\'' then some { r with mode := .plain }
        else if c = '\\' then some { r with mode := .ansiEscaped }
        else some (r.push .ansi c true)
    | .ansiEscaped =>
        match ansiEscape c, octalDigit c with
        | some d, _ => some (r.push .ansi d true)
        | none, some x => some { r with mode := .octal [x] }
        | none, none => none
    | .octal digits => r.stepOctal digits c

def run (r : Reader) (text : List Char) : Option Reader := text.foldlM step r

/-- The commands, if the text does not end within quotes. -/
def finish (r : Reader) : Option (List (List Word)) :=
  if r.mode = .plain then some r.endCommand.commands else none

end Reader

/-- The commands of a text. -/
def read (text : List Char) : Option (List (List Word)) := (Reader.start.run text).bind Reader.finish

/-! ## Commands that set variables -/

def isNameChar (c : Char) : Bool := c.isAlphanum || c = '_'

/-- A name that a variable can have. -/
def isName : List Char → Bool
  | [] => false
  | c :: rest => (c.isAlpha || c = '_') && rest.all isNameChar

/-- The name and the value of an argument `NAME=VALUE`. -/
def declaration? (text : List Char) : Option (List Char × List Char) :=
  match text.dropWhile (· ≠ '=') with
  | _ :: value =>
      let name := text.takeWhile (· ≠ '=')
      if isName name then some (name, value) else none
  | [] => none

/-- An assignment is a declaration of which nothing is quoted up to the equals sign. -/
def assignment? (w : Word) : Option (List Char × List Char) :=
  match w.dropWhile (·.1 ≠ '=') with
  | (_, false) :: value =>
      let name := w.takeWhile (·.1 ≠ '=')
      if isName (Word.text name) && name.all (!·.2) then some (Word.text name, Word.text value)
      else none
  | _ => none

/-- The variable that a command sets, if that is all it does. -/
def setting? : List Word → Option (List Char × List Char)
  | [w] => assignment? w
  | [w, arg] => if w.text = "export".toList then declaration? arg.text else none
  | _ => none

/-- The variables that a text sets, if it runs nothing else. -/
def settings (text : List Char) : Option (List (List Char × List Char)) := do
  let commands ← read text
  commands.mapM setting?

/-! ## Reading what was quoted -/

/-- Characters that mean nothing but themselves, wherever they stand. -/
def IsLiteral (c : Char) : Prop :=
  c ∉ ['\x00', '\n', '\t', ' ', '\'', '"', '\\', '$', '#', '~'] ∧ c ∉ special

instance (c : Char) : Decidable (IsLiteral c) := inferInstanceAs (Decidable (_ ∧ _))

namespace Reader

variable {words : List Word} {commands : List (List Word)} {word : Option Word} {w : Word}

@[simp] theorem run_nil (r : Reader) : r.run [] = some r := rfl

theorem run_cons (r : Reader) (c : Char) (text : List Char) :
    r.run (c :: text) = (r.step c).bind (·.run text) := rfl

theorem run_append (r : Reader) (text text' : List Char) :
    r.run (text ++ text') = (r.run text).bind (·.run text') := List.foldlM_append

theorem step_literal {c : Char} (h : IsLiteral c) :
    step ⟨.plain, word, words, commands⟩ c =
      some ⟨.plain, some (word.getD [] ++ [(c, false)]), words, commands⟩ := by
  obtain ⟨hplain, hspecial⟩ := h
  simp only [List.mem_cons, not_or] at hplain
  obtain ⟨hnul, hnewline, htab, hblank, hsingle, hdouble, hbackslash, hdollar, hhash, htilde, _⟩ :=
    hplain
  simp [step, stepPlain, push, hnul, hnewline, htab, hblank, hsingle, hdouble, hbackslash, hdollar,
    hhash, htilde, hspecial]

theorem run_literal {text : List Char} (h : ∀ c ∈ text, IsLiteral c) :
    run ⟨.plain, some w, words, commands⟩ text =
      some ⟨.plain, some (w ++ text.map (·, false)), words, commands⟩ := by
  induction text generalizing w with
  | nil => simp
  | cons c text ih =>
      rw [run_cons, step_literal (h c (by simp)), Option.bind_some,
        ih fun d hd => h d (List.mem_cons_of_mem c hd)]
      simp

/-- A word that starts with literal characters. -/
theorem run_literal_cons {c : Char} {text : List Char} (h : ∀ d ∈ c :: text, IsLiteral d) :
    run ⟨.plain, none, words, commands⟩ (c :: text) =
      some ⟨.plain, some ((c :: text).map (·, false)), words, commands⟩ := by
  rw [run_cons, step_literal (h c (by simp)), Option.bind_some,
    run_literal fun d hd => h d (List.mem_cons_of_mem c hd)]
  rfl

theorem step_newline : step ⟨.plain, some w, words, commands⟩ '\n' =
    some ⟨.plain, none, [], commands ++ [words ++ [w]]⟩ := by
  simp [step, stepPlain, endCommand]

theorem finish_word : finish ⟨.plain, some w, words, commands⟩ =
    some (commands ++ [words ++ [w]]) := by
  simp [finish, endCommand]

/-! ### Single quotes -/

/-- Single quotes around a text; a single quote in it stands between double quotes. -/
def singleQuote (text : List Char) : List Char :=
  '\'' :: text.flatMap (fun c => if c = '\'' then "'\"'\"'".toList else [c]) ++ ['\'']

theorem run_single {text : List Char} (h : '\x00' ∉ text) :
    run ⟨.single, some w, words, commands⟩
        (text.flatMap fun c => if c = '\'' then "'\"'\"'".toList else [c]) =
      some ⟨.single, some (w ++ text.map (·, true)), words, commands⟩ := by
  induction text generalizing w with
  | nil => simp
  | cons c text ih =>
      simp only [List.mem_cons, not_or] at h
      rw [List.flatMap_cons, run_append]
      by_cases hquote : c = '\''
      · have hpiece : run ⟨.single, some w, words, commands⟩ "'\"'\"'".toList =
            some ⟨.single, some (w ++ [('\'', true)]), words, commands⟩ := rfl
        rw [if_pos hquote, hpiece, Option.bind_some, ih h.2, hquote]
        simp
      · have hpiece : run ⟨.single, some w, words, commands⟩ [c] =
            some ⟨.single, some (w ++ [(c, true)]), words, commands⟩ := by
          simp [run, step, push, hquote, Ne.symm h.1]
        rw [if_neg hquote, hpiece, Option.bind_some, ih h.2]
        simp

/-- What is single-quoted is read as it is. -/
theorem run_singleQuote {text : List Char} (h : '\x00' ∉ text) :
    run ⟨.plain, some w, words, commands⟩ (singleQuote text) =
      some ⟨.plain, some (w ++ text.map (·, true)), words, commands⟩ := by
  have hopen : step ⟨.plain, some w, words, commands⟩ '\'' =
      some ⟨.single, some w, words, commands⟩ := by
    simp [step, stepPlain, openQuote]
  have hclose : run ⟨.single, some (w ++ text.map (·, true)), words, commands⟩ ['\''] =
      some ⟨.plain, some (w ++ text.map (·, true)), words, commands⟩ := by
    simp [run, step]
  rw [singleQuote, List.cons_append, run_cons, hopen, Option.bind_some, run_append, run_single h,
    Option.bind_some, hclose]

/-! ### Lines of commands -/

/-- The line names the words of one command, wherever it stands. -/
def Names (line : List Char) (command : List Word) : Prop :=
  ∃ words w, command = words ++ [w] ∧ ∀ commands,
    run ⟨.plain, none, [], commands⟩ line = some ⟨.plain, some w, words, commands⟩

theorem run_lines {lines : List (List Char)} {names : List (List Word)}
    (h : List.Forall₂ Names lines names) (commands : List (List Word)) :
    run ⟨.plain, none, [], commands⟩ (lines.flatMap (· ++ ['\n'])) =
      some ⟨.plain, none, [], commands ++ names⟩ := by
  induction h generalizing commands with
  | nil => simp
  | cons hline _ ih =>
      obtain ⟨words, w, rfl, hrun⟩ := hline
      rw [List.flatMap_cons, run_append, run_append, hrun, Option.bind_some, run_cons, step_newline,
        Option.bind_some, run_nil, Option.bind_some, ih]
      simp

theorem read_lines {lines : List (List Char)} {names : List (List Word)}
    (h : List.Forall₂ Names lines names) :
    read (lines.flatMap (· ++ ['\n'])) = some names := by
  rw [read, start, run_lines h]
  simp [finish, endCommand]

theorem intercalate_append_newline (line : List Char) (lines : List (List Char)) :
    ['\n'].intercalate (line :: lines) ++ ['\n'] = (line :: lines).flatMap (· ++ ['\n']) := by
  induction lines generalizing line with
  | nil => simp
  | cons next lines ih =>
      rw [List.intercalate_cons_cons, List.append_assoc, ih]
      simp

theorem run_intercalate {line : List Char} {lines : List (List Char)} {names : List (List Word)}
    (h : List.Forall₂ Names (line :: lines) names) :
    ∃ done words w, names = done ++ [words ++ [w]] ∧ ∀ commands,
      run ⟨.plain, none, [], commands⟩ (['\n'].intercalate (line :: lines)) =
        some ⟨.plain, some w, words, commands ++ done⟩ := by
  induction lines generalizing line names with
  | nil =>
      obtain _ | ⟨⟨words, w, rfl, hrun⟩, hnil⟩ := h
      cases hnil
      exact ⟨[], words, w, rfl, by simpa using hrun⟩
  | cons next lines ih =>
      obtain _ | ⟨⟨first, last, rfl, hrun⟩, hrest⟩ := h
      obtain ⟨done, words, w, rfl, hlast⟩ := ih hrest
      refine ⟨(first ++ [last]) :: done, words, w, rfl, fun commands => ?_⟩
      rw [List.intercalate_cons_cons, run_append, run_append, hrun, Option.bind_some, run_cons,
        step_newline, Option.bind_some, run_nil, Option.bind_some, hlast]
      simp

/-- The last line need not be ended. -/
theorem read_intercalate {lines : List (List Char)} {names : List (List Word)}
    (h : List.Forall₂ Names lines names) : read (['\n'].intercalate lines) = some names := by
  cases lines with
  | nil =>
      cases h
      rfl
  | cons line lines =>
      obtain ⟨done, words, w, rfl, hrun⟩ := run_intercalate h
      rw [read, start, hrun, Option.bind_some, finish_word, List.nil_append]

end Reader

/-! ## Names -/

theorem isLiteral_of_isNameChar {c : Char} (h : isNameChar c) : IsLiteral c := by
  have hplain : ∀ d ∈ ['\x00', '\n', '\t', ' ', '\'', '"', '\\', '$', '#', '~'],
      ¬ isNameChar d := List.all_iff_forall_prop.mp (by decide)
  have hspecial : ∀ d ∈ special, ¬ isNameChar d :=
    List.all_iff_forall_prop.mp (by decide)
  exact ⟨fun hmem => hplain c hmem h, fun hmem => hspecial c hmem h⟩

theorem isLiteral_equals : IsLiteral '=' := by decide

theorem isNameChar_of_isName {name : List Char} (h : isName name) : ∀ c ∈ name, isNameChar c := by
  cases name with
  | nil => simp
  | cons d rest =>
      obtain ⟨hd, hrest⟩ : (d.isAlpha ∨ d = '_') ∧ ∀ c ∈ rest, isNameChar c := by
        simpa [isName] using h
      intro c hc
      rcases List.mem_cons.mp hc with rfl | hc
      · rcases hd with hd | hd <;> simp [isNameChar, Char.isAlphanum, hd]
      · exact hrest c hc

theorem not_equals_of_isName {name : List Char} (h : isName name) : ∀ c ∈ name, c ≠ '=' := by
  intro c hc heq
  have := isNameChar_of_isName h c hc
  rw [heq] at this
  exact absurd this (by decide)

/-- The first equals sign ends the name. -/
theorem declaration?_eq {name value : List Char} (h : isName name) :
    declaration? (name ++ '=' :: value) = some (name, value) := by
  have hname : ∀ c ∈ name, decide (c ≠ '=') = true := by
    intro c hc
    exact decide_eq_true (not_equals_of_isName h c hc)
  rw [declaration?, List.dropWhile_append_of_pos hname, List.takeWhile_append_of_pos hname]
  simp [h]

/-- An assignment whose value may be quoted. -/
theorem assignment?_eq {name : List Char} {value : Word} (h : isName name) :
    assignment? (name.map (·, false) ++ ('=', false) :: value) = some (name, Word.text value) := by
  have hname : ∀ c ∈ name.map (·, false), decide (c.1 ≠ '=') = true := by
    intro c hc
    obtain ⟨d, hd, rfl⟩ := List.mem_map.mp hc
    exact decide_eq_true (not_equals_of_isName h d hd)
  rw [assignment?, List.dropWhile_append_of_pos hname, List.takeWhile_append_of_pos hname]
  simp [Word.text, h, Function.comp_def]

/-- The settings of a text whose commands are all known. -/
theorem settings_of_read {α : Type*} {text : List Char} {items : List α} {command : α → List Word}
    {value : α → List Char × List Char} (hread : read text = some (items.map command))
    (h : ∀ item ∈ items, setting? (command item) = some (value item)) :
    settings text = some (items.map value) := by
  rw [settings, hread]
  change (items.map command).mapM setting? = some (items.map value)
  clear hread
  induction items with
  | nil => rfl
  | cons item items ih =>
      rw [List.map_cons, List.mapM_cons, h item (by simp), ih fun a ha => h a (by simp [ha])]
      rfl

end ShellWords
