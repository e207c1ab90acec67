import DistroSeed.Library.ByteText
import DistroSeed.Library.ShellWords

/-! Quoting for the shell, with `shlex.quote` and with `printf %q`. The shell reads both back. -/

namespace ShellWords

open ByteText

/-- The first text is read as the second one, where it stands behind the equals sign of an
assignment. -/
def ReadsAs (quoted text : List Char) : Prop :=
  ∃ marks : Word, marks.text = text ∧ ∀ (w : Word) (words : List Word) (commands : List (List Word)),
    w.getLast? = some ('=', false) →
    Reader.run ⟨.plain, some w, words, commands⟩ quoted =
      some ⟨.plain, some (w ++ marks), words, commands⟩

/-! ## `shlex.quote` -/

def isShlexSafe (c : Char) : Bool := c.isAlphanum || c ∈ "_@%+=:,./-".toList

/-- `shlex.quote`. -/
def shlexQuote (text : List Char) : List Char :=
  if text = [] then "''".toList
  else if text.all isShlexSafe then text
  else Reader.singleQuote text

/-! ## `printf %q` -/

/-- Which bytes of a text the shell takes for parts of printable characters; a newline is none in
any locale. -/
structure ShellLocale where
  prints : List Char → ℕ → Bool
  newline : ∀ text i, text[i]? = some '\n' → prints text i = false

/-- Characters that have a name between `$'` and `'`, and what stands behind the backslash. -/
def ansiNames : List (Char × Char) := [('\x1b', 'E'), ('\x07', 'a'), ('\x0b', 'v'), ('\x08', 'b'),
  ('\x0c', 'f'), ('\n', 'n'), ('\r', 'r'), ('\t', 't'), ('\\', '\\'), ('\'', '\'')]

def octalChar (digit : ℕ) : Char := Char.ofNat (digit + '0'.toNat)

/-- The three octal digits of a byte. -/
def octal (c : Char) : List Char :=
  [octalChar (c.toNat / 64 % 8), octalChar (c.toNat / 8 % 8), octalChar (c.toNat % 8)]

/-- One byte in `ansic_quote`. -/
def ansiPiece (c : Char) (prints : Bool) : List Char :=
  match ansiNames.lookup c with
  | some name => ['\\', name]
  | none => if prints then [c] else '\\' :: octal c

/-- Characters that always get a backslash. -/
def backslashed : List Char := " \t\n!\"$&'()*,;<>?[\\]^`\x7b|\x7d".toList

/-- Whether `sh_backslash_quote` puts a backslash in front of a character, by the one before. -/
def needsBackslash (previous : Option Char) (c : Char) : Bool :=
  c ∈ backslashed || (c = '#' && previous = none) ||
    (c = '~' && (previous = none || previous = some ':' || previous = some '='))

/-- The characters with whether they get a backslash. -/
def backslashMarks : Option Char → List Char → Word
  | _, [] => []
  | previous, c :: rest => (c, needsBackslash previous c) :: backslashMarks (some c) rest

/-- `printf %q`. -/
def printfQ (locale : ShellLocale) (text : List Char) : List Char :=
  if text = [] then "''".toList
  else if text.zipIdx.all fun byte => locale.prints text byte.2 then
    (backslashMarks none text).flatMap fun mark => if mark.2 then ['\\', mark.1] else [mark.1]
  else
    "$'".toList ++ text.zipIdx.flatMap (fun byte => ansiPiece byte.1 (locale.prints text byte.2)) ++
      ['\'']

/-! ## Reading them -/

variable {w : Word} {words : List Word} {commands : List (List Word)}

theorem readsAs_nil : ReadsAs "''".toList [] := by
  refine ⟨[], rfl, fun w words commands _ => ?_⟩
  simp [Reader.run, Reader.step, Reader.stepPlain, Reader.openQuote]

theorem isLiteral_of_isShlexSafe {c : Char} (h : isShlexSafe c) : IsLiteral c := by
  have hplain : ∀ d ∈ ['\x00', '\n', '\t', ' ', '\'', '"', '\\', '$', '#', '~'],
      ¬ isShlexSafe d := List.all_iff_forall_prop.mp (by decide)
  have hspecial : ∀ d ∈ special, ¬ isShlexSafe d :=
    List.all_iff_forall_prop.mp (by decide)
  exact ⟨fun hmem => hplain c hmem h, fun hmem => hspecial c hmem h⟩

theorem readsAs_shlexQuote {text : List Char} (h : '\x00' ∉ text) :
    ReadsAs (shlexQuote text) text := by
  rw [shlexQuote]
  split_ifs with hnil hsafe
  · rw [hnil]
    exact readsAs_nil
  · have hliteral : ∀ c ∈ text, IsLiteral c := fun c hc =>
      isLiteral_of_isShlexSafe (List.all_eq_true.mp hsafe c hc)
    refine ⟨text.map (·, false), by simp [Word.text, Function.comp_def], fun w words commands _ => ?_⟩
    exact Reader.run_literal hliteral
  · refine ⟨text.map (·, true), by simp [Word.text, Function.comp_def], fun w words commands _ => ?_⟩
    exact Reader.run_singleQuote h

theorem toNat_lt_of_isShlexSafe {c : Char} (h : isShlexSafe c) : c.toNat < 128 := by
  have hlisted : ∀ d ∈ "_@%+=:,./-".toList, d.toNat < 128 :=
    List.all_iff_forall_prop.mp (by decide)
  rcases Bool.or_eq_true_iff.mp h with halnum | hmem
  · have hle : ∀ last : Char, last.toNat < 128 → c.val ≤ last.val → c.toNat < 128 :=
      fun last hlast hc => Nat.lt_of_le_of_lt (UInt32.le_iff_toNat_le.mp hc) hlast
    rcases Bool.or_eq_true_iff.mp halnum with halpha | hdigit
    · rcases Bool.or_eq_true_iff.mp halpha with hupper | hlower
      · exact hle 'Z' (by decide) (of_decide_eq_true hupper).2
      · exact hle 'z' (by decide) (of_decide_eq_true (Bool.and_eq_true_iff.mp hlower).2)
    · exact hle '9' (by decide) (of_decide_eq_true (Bool.and_eq_true_iff.mp hdigit).2)
  · exact hlisted c (of_decide_eq_true hmem)

/-- It does not matter whether the characters are quoted or their bytes. -/
theorem encode_shlexQuote (text : List Char) : encode (shlexQuote text) = shlexQuote (encode text) := by
  have hnil : encode text = [] ↔ text = [] := by
    rw [encode, List.flatMap_eq_nil_iff]
    constructor
    · intro h
      rw [List.eq_nil_iff_forall_not_mem]
      exact fun c hc => encodeChar_ne_nil c (h c hc)
    · rintro rfl
      simp
  have hsafe := all_encode (fun _ => toNat_lt_of_isShlexSafe) text
  have hpiece := encode_flatMap (f := fun c => if c = '\'' then "'\"'\"'".toList else [c])
    (by
      intro c hc d hd
      split_ifs at hd
      · revert d
        exact List.all_iff_forall_prop.mp (by decide)
      · rwa [List.mem_singleton.mp hd])
    (by
      intro c hc
      rw [if_neg]
      rintro rfl
      exact hc (by decide)) text
  have hquote : encodeChar '\'' = ['\''] := encodeChar_ascii (by decide)
  by_cases h : text = []
  · subst h
    exact encode_ascii (List.all_iff_forall_prop.mp (by decide))
  · rw [shlexQuote, shlexQuote, if_neg h, if_neg (fun heq => h (hnil.mp heq)), hsafe]
    split_ifs
    · rfl
    · rw [Reader.singleQuote, Reader.singleQuote, encode_append, encode_cons, hpiece, hquote,
        encode_cons, hquote]
      rfl

/-! ### Backslashes -/

theorem text_backslashMarks (previous : Option Char) (text : List Char) :
    (backslashMarks previous text).text = text := by
  induction text generalizing previous with
  | nil => rfl
  | cons c text ih =>
      change c :: (backslashMarks (some c) text).text = c :: text
      rw [ih]

/-- Without a backslash, a character behind others means itself. -/
theorem step_unmarked {c : Char} {previous : Option Char} (hnull : c ≠ '\x00')
    (hmark : needsBackslash previous c = false)
    (hprevious : ∀ p, previous = some p → w.getLast?.map Prod.fst = some p) :
    Reader.step ⟨.plain, some w, words, commands⟩ c =
      some ⟨.plain, some (w ++ [(c, false)]), words, commands⟩ := by
  obtain ⟨⟨hc, _⟩, htilde⟩ : (c ∉ backslashed ∧ (c = '#' → previous ≠ none)) ∧
      (c = '~' → (previous ≠ none ∧ previous ≠ some ':') ∧ previous ≠ some '=') := by
    simpa [needsBackslash] using hmark
  have hplain : ∀ d ∈ ['\n', ' ', '\t', '\'', '"', '\\', '$'], c ≠ d := by
    have hall : ∀ d ∈ ['\n', ' ', '\t', '\'', '"', '\\', '$'], d ∈ backslashed :=
      List.all_iff_forall_prop.mp (by decide)
    intro d hd heq
    exact hc (heq ▸ hall d hd)
  have hspecial : c ∉ special := by
    have hall : ∀ d ∈ special, d ∈ backslashed := List.all_iff_forall_prop.mp (by decide)
    exact fun hmem => hc (hall c hmem)
  have hstart : c = '~' → Reader.startsTilde ⟨.plain, some w, words, commands⟩ = false := by
    intro heq
    obtain ⟨⟨hsome, hcolon⟩, hequals⟩ := htilde heq
    obtain ⟨p, rfl⟩ := Option.ne_none_iff_exists'.mp hsome
    obtain ⟨mark, hlast, rfl⟩ := Option.map_eq_some_iff.mp (hprevious p rfl)
    simp only [ne_eq, Option.some.injEq] at hcolon hequals
    simp [Reader.startsTilde, hlast, hcolon, hequals]
  simp only [List.mem_cons, List.not_mem_nil, or_false, forall_eq_or_imp, forall_eq] at hplain
  simp only [Reader.step, Reader.stepPlain, hplain, hnull, hspecial]
  simpa [Reader.push] using hstart

theorem run_backslashMarks {text : List Char} (h : '\x00' ∉ text) (hnewline : '\n' ∉ text)
    {previous : Option Char}
    (hprevious : ∀ p, previous = some p → w.getLast?.map Prod.fst = some p) :
    Reader.run ⟨.plain, some w, words, commands⟩
        ((backslashMarks previous text).flatMap fun mark =>
          if mark.2 then ['\\', mark.1] else [mark.1]) =
      some ⟨.plain, some (w ++ backslashMarks previous text), words, commands⟩ := by
  induction text generalizing w previous with
  | nil => simp [backslashMarks]
  | cons c text ih =>
      simp only [List.mem_cons, not_or] at h hnewline
      have hrest (mark : Bool) :
          Reader.run ⟨.plain, some (w ++ [(c, mark)]), words, commands⟩
              ((backslashMarks (some c) text).flatMap fun mark =>
                if mark.2 then ['\\', mark.1] else [mark.1]) =
            some ⟨.plain, some (w ++ [(c, mark)] ++ backslashMarks (some c) text), words, commands⟩ :=
        ih h.2 hnewline.2 (by simp)
      rw [backslashMarks, List.flatMap_cons, Reader.run_append]
      cases hmark : needsBackslash previous c with
      | true =>
          have hpiece : Reader.run ⟨.plain, some w, words, commands⟩ ['\\', c] =
              some ⟨.plain, some (w ++ [(c, true)]), words, commands⟩ := by
            simp [Reader.run, Reader.step, Reader.stepPlain, Reader.push, Ne.symm h.1,
              Ne.symm hnewline.1]
          simp only [if_true, hpiece, Option.bind_some, hrest true]
          simp
      | false =>
          have hpiece : Reader.run ⟨.plain, some w, words, commands⟩ [c] =
              some ⟨.plain, some (w ++ [(c, false)]), words, commands⟩ := by
            rw [Reader.run_cons, step_unmarked (Ne.symm h.1) hmark hprevious]
            rfl
          simp only [Bool.false_eq_true, if_false, hpiece, Option.bind_some, hrest false]
          simp

/-! ### Names and octal digits -/

theorem ansiEscape_of_lookup {c name : Char} (h : ansiNames.lookup c = some name) :
    ansiEscape name = some c := by
  have hall : ∀ pair ∈ ansiNames, ansiEscape pair.2 = some pair.1 := by decide
  obtain ⟨before, after, hnames, _⟩ := List.lookup_eq_some_iff.mp h
  exact hall (c, name) (by simp [hnames])

theorem octalChar_spec : ∀ digit < 8, ansiEscape (octalChar digit) = none ∧
    octalDigit (octalChar digit) = some digit ∧ octalChar digit ≠ '\x00' := by decide

theorem octal_value {n : ℕ} (h : n < 256) :
    (64 * (n / 64 % 8) + 8 * (n / 8 % 8) + n % 8) % 256 = n := by omega

/-- What is written for one byte is read as that byte. -/
theorem run_ansiPiece {c : Char} (hnull : c ≠ '\x00') (hbyte : IsByte c) (prints : Bool) :
    Reader.run ⟨.ansi, some w, words, commands⟩ (ansiPiece c prints) =
      some ⟨.ansi, some (w ++ [(c, true)]), words, commands⟩ := by
  unfold ansiPiece
  split
  · rename_i name hname
    have hescape := ansiEscape_of_lookup hname
    have hnameNull : name ≠ '\x00' := by
      rintro rfl
      cases hescape
    simp [Reader.run, Reader.step, Reader.push, hescape, hnameNull]
  · rename_i hname
    split_ifs
    · have hnames : ∀ d ∈ ['\'', '\\'], (ansiNames.lookup d).isSome :=
        List.all_iff_forall_prop.mp (by decide)
      have hplain : ∀ d ∈ ['\'', '\\'], c ≠ d := by
        intro d hd heq
        have hsome := hnames d hd
        rw [← heq, hname] at hsome
        cases hsome
      simp only [List.mem_cons, List.not_mem_nil, or_false, forall_eq_or_imp, forall_eq] at hplain
      simp [Reader.run, Reader.step, Reader.push, hnull, hplain]
    · obtain ⟨hescape, hx, hxnull⟩ := octalChar_spec (c.toNat / 64 % 8) (by omega)
      obtain ⟨_, hy, hynull⟩ := octalChar_spec (c.toNat / 8 % 8) (by omega)
      obtain ⟨_, hz, hznull⟩ := octalChar_spec (c.toNat % 8) (by omega)
      have hcode : c.toNat ≠ 0 := fun hzero => hnull (Char.toNat_inj.mp hzero)
      have hvalue := octal_value hbyte
      simp [Reader.run, octal, Reader.step, Reader.push, Reader.stepOctal, hescape, hx, hy, hz,
        hxnull, hynull, hznull, hvalue, hcode, Char.ofNat_toNat]

theorem run_ansi {bytes : List (Char × ℕ)} {prints : ℕ → Bool}
    (hnull : ∀ byte ∈ bytes, byte.1 ≠ '\x00') (hbyte : ∀ byte ∈ bytes, IsByte byte.1) :
    Reader.run ⟨.ansi, some w, words, commands⟩
        (bytes.flatMap fun byte => ansiPiece byte.1 (prints byte.2)) =
      some ⟨.ansi, some (w ++ bytes.map fun byte => (byte.1, true)), words, commands⟩ := by
  induction bytes generalizing w with
  | nil => simp
  | cons byte bytes ih =>
      rw [List.flatMap_cons, Reader.run_append,
        run_ansiPiece (hnull byte (by simp)) (hbyte byte (by simp)), Option.bind_some,
        ih (fun b hb => hnull b (by simp [hb])) fun b hb => hbyte b (by simp [hb])]
      simp

theorem readsAs_printfQ (locale : ShellLocale) {text : List Char} (hnull : '\x00' ∉ text)
    (hbyte : ∀ c ∈ text, IsByte c) : ReadsAs (printfQ locale text) text := by
  rw [printfQ]
  split_ifs with hnil hprints
  · rw [hnil]
    exact readsAs_nil
  · have hnewline : '\n' ∉ text := by
      intro hmem
      obtain ⟨i, hi⟩ := List.mem_iff_getElem?.mp hmem
      have htrue := List.all_eq_true.mp hprints ('\n', i) (List.mem_zipIdx_iff_getElem?.mpr hi)
      rw [locale.newline text i hi] at htrue
      cases htrue
    refine ⟨backslashMarks none text, text_backslashMarks none text, fun w words commands _ => ?_⟩
    exact run_backslashMarks hnull hnewline (by simp)
  · have htext : ∀ byte ∈ text.zipIdx, byte.1 ∈ text := fun byte hbyte =>
      List.fst_mem_of_mem_zipIdx hbyte
    have hmap : text.zipIdx.map (fun byte => (byte.1, true)) = text.map (·, true) := by
      rw [← List.zipIdx_map_fst 0 text, List.map_map]
      simp [Function.comp_def]
    refine ⟨text.map (·, true), by simp [Word.text, Function.comp_def], fun w words commands _ => ?_⟩
    have hopen : Reader.run ⟨.plain, some w, words, commands⟩ "$'".toList =
        some ⟨.ansi, some w, words, commands⟩ := rfl
    have hclose : Reader.run ⟨.ansi, some (w ++ text.map (·, true)), words, commands⟩ ['\''] =
        some ⟨.plain, some (w ++ text.map (·, true)), words, commands⟩ := by
      simp [Reader.run, Reader.step]
    rw [Reader.run_append, Reader.run_append, hopen, Option.bind_some,
      run_ansi (fun byte hmem heq => hnull (heq ▸ htext byte hmem))
        (fun byte hmem => hbyte byte.1 (htext byte hmem)), Option.bind_some, hmap, hclose]

/-! ## Assignments -/

/-- An assignment of a quoted value, as a line of its own. -/
theorem names_assignment {name quoted text : List Char} (hname : isName name)
    (h : ReadsAs quoted text) :
    ∃ command, Reader.Names (name ++ '=' :: quoted) command ∧ setting? command = some (name, text) := by
  obtain ⟨marks, rfl, hrun⟩ := h
  have hliteral : ∀ c ∈ name ++ ['='], IsLiteral c := by
    intro c hc
    rcases List.mem_append.mp hc with hc | hc
    · exact isLiteral_of_isNameChar (isNameChar_of_isName hname c hc)
    · rw [List.mem_singleton.mp hc]
      exact isLiteral_equals
  obtain ⟨c, rest, hrest⟩ := List.exists_cons_of_ne_nil (l := name ++ ['=']) (by simp)
  have hword : (c :: rest).map (·, false) = name.map (·, false) ++ [('=', false)] := by
    rw [← hrest, List.map_append]
    rfl
  rw [hrest] at hliteral
  refine ⟨[name.map (·, false) ++ ('=', false) :: marks],
    ⟨[], name.map (·, false) ++ ('=', false) :: marks, rfl, fun commands => ?_⟩, ?_⟩
  · rw [← List.singleton_append, ← List.append_assoc, hrest, Reader.run_append,
      Reader.run_literal_cons hliteral, Option.bind_some, hword, hrun _ _ _ (by simp),
      List.append_assoc]
    rfl
  · exact assignment?_eq hname

/-- Lines that each set a variable. -/
theorem settings_lines {lines : List (List Char)} {values : List (List Char × List Char)}
    (h : List.Forall₂ (fun line value =>
      ∃ command, Reader.Names line command ∧ setting? command = some value) lines values) :
    settings (lines.flatMap (· ++ ['\n'])) = some values := by
  obtain ⟨commands, hnames, hvalues⟩ : ∃ commands, List.Forall₂ Reader.Names lines commands ∧
      commands.mapM setting? = some values := by
    induction h with
    | nil => exact ⟨[], .nil, rfl⟩
    | cons hline _ ih =>
        obtain ⟨command, hname, hvalue⟩ := hline
        obtain ⟨commands, hnames, hvalues⟩ := ih
        refine ⟨command :: commands, .cons hname hnames, ?_⟩
        rw [List.mapM_cons, hvalue, hvalues]
        rfl
  rw [settings, Reader.read_lines hnames]
  exact hvalues

end ShellWords
