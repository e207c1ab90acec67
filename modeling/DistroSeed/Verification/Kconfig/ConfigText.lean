import DistroSeed.Model.KconfigFile
import DistroSeed.Verification.Kconfig.Restored

/-! The lines that `write_config` writes, as `load_config` reads them. -/

namespace DistroSeed

namespace Kconfig

/-! ## Lines -/

/-- The text is empty or ends with a line feed. -/
def EndsLine (text : List Char) : Prop := text = [] ∨ text.getLast? = some '\n'

theorem endsLine_append {x y : List Char} (hx : EndsLine x) (hy : EndsLine y) :
    EndsLine (x ++ y) := by
  rcases hy with rfl | hy
  · rwa [List.append_nil]
  · right
    rw [List.getLast?_append, hy]
    rfl

theorem endsLine_line (line : List Char) : EndsLine (line ++ ['\n']) :=
  Or.inr List.getLast?_concat

theorem fileLines_append {x : List Char} (hx : EndsLine x) (y : List Char) :
    fileLines (x ++ y) = fileLines x ++ fileLines y := by
  have hends : Lines.EndsLine isLineBreak x := by
    rcases hx with rfl | hx
    · exact Or.inl rfl
    · exact Or.inr ⟨'\n', hx, rfl⟩
  have hcut : '\r' ∈ x.getLast? → '\n' ∉ y.head? := by
    intro hcr
    rcases hx with rfl | hx
    · cases hcr
    · rw [hx] at hcr
      cases hcr
  rw [fileLines, fileLines, fileLines, Lines.split_append hends hcut, List.map_append]

theorem fileLines_line {line : List Char} (hline : ∀ c ∈ line, ¬ isLineBreak c) :
    fileLines (line ++ ['\n']) = [line] := by
  rw [fileLines, Lines.split_line hline (c := '\n') rfl]
  rfl

section Loading

variable {K : KconfigFiles}

theorem KconfigFiles.loadText_append {x : List Char} (hx : EndsLine x) (y : List Char)
    (l : Loading) : K.loadText (x ++ y) l = K.loadText y (K.loadText x l) := by
  rw [KconfigFiles.loadText, fileLines_append hx, List.foldl_append]
  rfl

theorem KconfigFiles.loadText_line {line : List Char} (hline : ∀ c ∈ line, ¬ isLineBreak c)
    (l : Loading) : K.loadText (line ++ ['\n']) l = K.loadLine l line := by
  rw [KconfigFiles.loadText, fileLines_line hline]
  rfl

end Loading

/-! ## Matching -/

/-- `rstrip` stops at a character that is no space. -/
theorem rstrip_append {x : List Char} {c : Char} (hx : c ∈ x.getLast?) (hc : ¬ isSpace c)
    (y : List Char) : rstrip (x ++ y) = x ++ rstrip y := by
  rcases List.getLast?_eq_some_iff.mp hx with ⟨front, rfl⟩
  have hstop : (c :: front.reverse).dropWhile isSpace = c :: front.reverse :=
    List.dropWhile_cons_of_neg hc
  unfold rstrip
  rw [List.reverse_append, List.dropWhile_append]
  split_ifs with hempty
  · rw [List.reverse_append, List.reverse_singleton, List.singleton_append, hstop,
      List.isEmpty_iff.mp hempty]
    simp
  · rw [List.reverse_append, List.reverse_reverse]

theorem rstrip_of_getLast {x : List Char} {c : Char} (hx : c ∈ x.getLast?) (hc : ¬ isSpace c) :
    rstrip x = x := by
  have h := rstrip_append hx hc []
  have hnil : rstrip [] = [] := rfl
  rwa [hnil, List.append_nil] at h

theorem setMatch_line {name : List Char} (val : List Char) (hne : name ≠ []) (hname : '=' ∉ name) :
    setMatch (configPrefix ++ name ++ '=' :: val) = some (name, val) := by
  have htake : (name ++ '=' :: val).takeWhile (· ≠ '=') = name := by
    rw [List.takeWhile_append_of_pos fun c hc => by
      simpa using fun heq : c = '=' => hname (heq ▸ hc)]
    simp
  have hprefix : configPrefix.isPrefixOf (configPrefix ++ name ++ '=' :: val) := by
    rw [List.append_assoc]
    exact List.isPrefixOf_iff_prefix.mpr (List.prefix_append _ _)
  rw [setMatch, if_pos hprefix, List.append_assoc, List.drop_left]
  dsimp only
  rw [htake, List.drop_left]
  exact if_pos hne

theorem unsetMatch_line {name : List Char} (hne : name ≠ []) (hname : ' ' ∉ name) :
    unsetMatch ("# ".toList ++ configPrefix ++ name ++ " is not set".toList) = some name := by
  have htake : (name ++ " is not set".toList).takeWhile (· ≠ ' ') = name := by
    rw [List.takeWhile_append_of_pos fun c hc => by
      simpa using fun heq : c = ' ' => hname (heq ▸ hc)]
    simp
  have hprefix : ("# ".toList ++ configPrefix).isPrefixOf
      ("# ".toList ++ configPrefix ++ name ++ " is not set".toList) := by
    rw [List.append_assoc _ name]
    exact List.isPrefixOf_iff_prefix.mpr (List.prefix_append _ _)
  rw [unsetMatch, if_pos hprefix, List.append_assoc _ name, List.drop_left]
  dsimp only
  rw [htake, List.drop_left]
  exact if_pos ⟨hne, List.isPrefixOf_iff_prefix.mpr List.prefix_rfl⟩

theorem setMatch_comment (text : List Char) : setMatch ('#' :: text) = none := rfl

/-! ## Strings -/

theorem quoted_escape (val rest : List Char) :
    quoted (escaping.escape val ++ '"' :: rest) = some (escaping.escape val) := by
  induction val with
  | nil => rfl
  | cons c val ih =>
      by_cases hc : c = '\\' ∨ c = '"'
      · rw [Escaping.escape_cons_of_some (e := escaping) (if_pos hc)]
        change (quoted (escaping.escape val ++ '"' :: rest)).map _ = _
        rw [ih]
        rfl
      · rw [Escaping.escape_cons_of_none (e := escaping) (if_neg hc), List.cons_append]
        rw [not_or] at hc
        rw [quoted, ih]
        · rfl
        · exact fun heq => hc.2 heq
        · intro hslash
          exact absurd hslash hc.1
        · intro d after hslash
          exact absurd hslash hc.1

theorem unescape_escape (val : List Char) : unescape (escaping.escape val) = val := by
  induction val with
  | nil => rfl
  | cons c val ih =>
      by_cases hc : c = '\\' ∨ c = '"'
      · rw [Escaping.escape_cons_of_some (e := escaping) (if_pos hc)]
        exact congrArg (c :: ·) ih
      · rw [Escaping.escape_cons_of_none (e := escaping) (if_neg hc), unescape, ih]
        intro d after hslash
        exact absurd (Or.inl hslash) hc

/-! ## What is loaded -/

/-- What the line of a symbol does when it is loaded. -/
def Symbol.restore (s : Symbol) (val : List Char) (l : Loading) : Loading :=
  match s.choice with
  | some c =>
      s.setValue val (if s.origType.isBoolTristate ∧ val ≠ ['n'] then c.setValue val l else l)
  | none => s.setValue val l

section Symbols

variable {K : KconfigFiles} {U : UserValues} {V : Sym → SymbolValue} {s : Symbol}

theorem notMem_name (hs : s ∈ K.symbols) {c : Char} (hc : isIdChar c = false) : c ∉ s.name := by
  intro hmem
  have hid := List.all_eq_true.mp (K.name_isIdChar s hs) c hmem
  rw [hc] at hid
  cases hid

theorem not_break_of_mem_name (hs : s ∈ K.symbols) {c : Char} (hmem : c ∈ s.name) :
    ¬ isLineBreak c := by
  intro hbreak
  rcases Bool.or_eq_true_iff.mp hbreak with hc | hc
  · exact notMem_name hs (c := '\n') rfl (of_decide_eq_true hc ▸ hmem)
  · exact notMem_name hs (c := '\r') rfl (of_decide_eq_true hc ▸ hmem)

theorem not_break_of_mem_prefix {c : Char} (hmem : c ∈ configPrefix) : ¬ isLineBreak c := by
  have hall : configPrefix.all fun c => !isLineBreak c := rfl
  simpa using List.all_eq_true.mp hall c hmem

/-- A line that sets a symbol. -/
theorem KconfigFiles.loadText_setLine (hs : s ∈ K.symbols) {val : List Char}
    (hline : ∀ c ∈ val, ¬ isLineBreak c) (hlast : ∀ c ∈ val.getLast?, ¬ isSpace c)
    (l : Loading) : K.loadText (setLine s.name val) l = s.assign val l := by
  have hbreak : ∀ c ∈ configPrefix ++ s.name ++ '=' :: val, ¬ isLineBreak c := by
    intro c hc
    rcases List.mem_append.mp hc with hc | hc
    · rcases List.mem_append.mp hc with hc | hc
      · exact not_break_of_mem_prefix hc
      · exact not_break_of_mem_name hs hc
    · rcases List.mem_cons.mp hc with rfl | hc
      · decide
      · exact hline c hc
  have hrstrip : rstrip (configPrefix ++ s.name ++ '=' :: val) =
      configPrefix ++ s.name ++ '=' :: val := by
    cases hval : val.getLast? with
    | none =>
        rw [List.getLast?_eq_none_iff.mp hval]
        exact rstrip_of_getLast (c := '=') (by simp) (by decide)
    | some c =>
        refine rstrip_of_getLast (c := c) ?_ (hlast c hval)
        rw [List.getLast?_append, List.getLast?_cons, hval]
        rfl
  have hset := setMatch_line val (K.name_ne_nil s hs) (notMem_name hs (c := '=') rfl)
  rw [setLine, KconfigFiles.loadText_line hbreak, KconfigFiles.loadLine, hrstrip, hset]
  simp only [KconfigFiles.symbol?_name hs]

/-- A line that says that a symbol is not set. -/
theorem KconfigFiles.loadText_unsetLine (hs : s ∈ K.symbols) (l : Loading) :
    K.loadText (unsetLine s.name) l = s.unassign l := by
  have hbreak : ∀ c ∈ "# ".toList ++ configPrefix ++ s.name ++ " is not set".toList,
      ¬ isLineBreak c := by
    intro c hc
    rcases List.mem_append.mp hc with hc | hc
    · rcases List.mem_append.mp hc with hc | hc
      · have hall : ("# ".toList ++ configPrefix).all fun c => !isLineBreak c := rfl
        simpa using List.all_eq_true.mp hall c hc
      · exact not_break_of_mem_name hs hc
    · have hall : " is not set".toList.all fun c => !isLineBreak c := rfl
      simpa using List.all_eq_true.mp hall c hc
  have hlast : 't' ∈ ("# ".toList ++ configPrefix ++ s.name ++ " is not set".toList).getLast? := by
    rw [List.getLast?_append]
    rfl
  have hrstrip := rstrip_of_getLast hlast (by decide)
  have hset : setMatch ("# ".toList ++ configPrefix ++ s.name ++ " is not set".toList) = none := rfl
  have hunset := unsetMatch_line (K.name_ne_nil s hs) (notMem_name hs (c := ' ') rfl)
  have hline : unsetLine s.name =
      ("# ".toList ++ configPrefix ++ s.name ++ " is not set".toList) ++ ['\n'] := by
    simp [unsetLine]
  rw [hline, KconfigFiles.loadText_line hbreak, KconfigFiles.loadLine, hrstrip, hset, hunset]
  simp only [KconfigFiles.symbol?_name hs]

/-- The texts that are written fit on a line, and numbers do not end in a space. -/
def KconfigFiles.Printable (K : KconfigFiles) (U : UserValues) (V : Sym → SymbolValue) : Prop :=
  ∀ s ∈ K.symbols, (K.strValue U V s).2 = true →
    (K.strValue U V s).1.all (!isLineBreak ·) ∧
      (s.origType ≠ .string → (K.strValue U V s).1.getLast?.all (!isSpace ·))

theorem not_break_of_mem_escape {val : List Char} (hval : ∀ c ∈ val, ¬ isLineBreak c) {c : Char}
    (hc : c ∈ '"' :: escaping.escape val ++ ['"']) : ¬ isLineBreak c := by
  have hquote : ¬ isLineBreak '"' := by decide
  rw [List.cons_append, List.mem_cons, List.mem_append, List.mem_singleton] at hc
  rcases hc with rfl | hc | rfl
  · exact hquote
  · rcases Escaping.mem_escape hc with hc | rfl | ⟨d, hd, hcode⟩
    · exact hval c hc
    · decide
    · have hdc : d = c := by
        simp only [escaping] at hcode
        split_ifs at hcode
        exact Option.some.inj hcode
      exact hdc ▸ hval d hd
  · exact hquote

theorem Symbol.restore_of_not_isBoolTristate (htype : ¬ s.origType.isBoolTristate)
    (val : List Char) (l : Loading) : s.restore val l = s.setValue val l := by
  cases hchoice : s.choice with
  | none => simp only [Symbol.restore, hchoice]
  | some c =>
      have hnot : ¬ (s.origType.isBoolTristate ∧ val ≠ ['n']) := fun h => htype h.1
      simp only [Symbol.restore, hchoice, if_neg hnot]

theorem Symbol.unassign_eq_restore (htype : s.origType.isBoolTristate) (l : Loading) :
    s.unassign l = s.restore ['n'] l := by
  rw [Symbol.unassign, if_pos htype]
  cases hchoice : s.choice with
  | none => simp only [Symbol.restore, hchoice]
  | some c => simp only [Symbol.restore, hchoice, ne_eq, not_true_eq_false, and_false, if_false]

theorem Symbol.assign_y (htype : s.origType.isBoolTristate) (l : Loading) :
    s.assign ['y'] l = s.restore ['y'] l := by
  have hne : (['y'] : List Char) ≠ ['n'] := by decide
  rw [Symbol.assign, if_pos htype]
  cases hchoice : s.choice with
  | none => simp only [Symbol.restore, SymbolType.readTristate, hchoice]
  | some c =>
      simp only [Symbol.restore, SymbolType.readTristate, hchoice, if_pos hne,
        if_pos (And.intro htype hne)]

theorem Symbol.assign_number (htype : ¬ s.origType.isBoolTristate) (hstring : s.origType ≠ .string)
    (val : List Char) (l : Loading) : s.assign val l = s.restore val l := by
  rw [Symbol.assign, if_neg htype, if_neg hstring, Symbol.restore_of_not_isBoolTristate htype]

/-- What stands between quotes is read back as the string that was escaped. -/
theorem Symbol.assign_quoted (hstring : s.origType = .string) (val : List Char) (l : Loading) :
    s.assign ('"' :: escaping.escape val ++ ['"']) l = s.restore val l := by
  have htype : ¬ s.origType.isBoolTristate := by
    rw [hstring]
    decide
  have hmatch : confStringMatch ('"' :: escaping.escape val ++ ['"']) =
      some (escaping.escape val) := quoted_escape _ []
  rw [Symbol.assign, if_neg htype, if_pos hstring, hmatch,
    Symbol.restore_of_not_isBoolTristate htype]
  simp only [unescape_escape]

/-- The line of a symbol, loaded again. -/
theorem KconfigFiles.loadText_configString (hs : s ∈ K.symbols) (hprintable : K.Printable U V)
    (hbool : s.origType.isBoolTristate → (K.triValue U V s).1 ≠ .m)
    (hwritten : (K.strValue U V s).2 = true) (l : Loading) :
    K.loadText (K.configString U V s) l = s.restore (K.strValue U V s).1 l := by
  have hline : ∀ c ∈ (K.strValue U V s).1, ¬ isLineBreak c := by
    simpa using (hprintable s hs hwritten).1
  have hlast : s.origType ≠ .string → ∀ c ∈ (K.strValue U V s).1.getLast?, ¬ isSpace c := by
    intro hstring
    simpa [Option.all_eq_true] using (hprintable s hs hwritten).2 hstring
  have hassign := KconfigFiles.loadText_setLine hs hline
  cases horig : s.origType with
  | bool | tristate =>
      have htype : s.origType.isBoolTristate := by
        rw [horig]
        rfl
      have htri : (K.strValue U V s).1 = (K.triValue U V s).1.toStr := by
        rw [KconfigFiles.strValue_eq_toStr htype]
      have hstring : K.configString U V s =
          if (K.strValue U V s).1 ≠ ['n'] then setLine s.name (K.strValue U V s).1
          else unsetLine s.name := by
        simp only [KconfigFiles.configString, hwritten, horig, Bool.true_eq_false, if_false]
      rw [hstring, htri]
      rw [htri] at hassign hlast
      cases hval : (K.triValue U V s).1 with
      | n =>
          have hnot : ¬ Tristate.n.toStr ≠ ['n'] := not_not_intro rfl
          rw [if_neg hnot, KconfigFiles.loadText_unsetLine hs]
          exact Symbol.unassign_eq_restore htype l
      | m => exact absurd hval (hbool htype)
      | y =>
          rw [hval] at hassign hlast
          have hne : Tristate.y.toStr ≠ ['n'] := by decide
          rw [if_pos hne, hassign (hlast (by rw [horig]; decide))]
          exact Symbol.assign_y htype l
  | int | hex =>
      have htype : ¬ s.origType.isBoolTristate := by
        rw [horig]
        decide
      have hnumber : s.origType ≠ .string := by
        rw [horig]
        decide
      have hstring : K.configString U V s = setLine s.name (K.strValue U V s).1 := by
        simp only [KconfigFiles.configString, hwritten, horig, Bool.true_eq_false, if_false]
      rw [hstring, hassign (hlast hnumber), Symbol.assign_number htype hnumber]
  | string =>
      have hquote : ∀ c ∈ ('"' :: escaping.escape (K.strValue U V s).1 ++ ['"']).getLast?,
          ¬ isSpace c := by
        intro c hc
        rw [List.getLast?_concat] at hc
        cases hc
        decide
      have hstring : K.configString U V s =
          setLine s.name ('"' :: escaping.escape (K.strValue U V s).1 ++ ['"']) := by
        simp only [KconfigFiles.configString, hwritten, horig, Bool.true_eq_false, if_false]
      have hbreak : ∀ c ∈ '"' :: escaping.escape (K.strValue U V s).1 ++ ['"'],
          ¬ isLineBreak c := fun c hc => not_break_of_mem_escape hline hc
      rw [hstring, KconfigFiles.loadText_setLine hs hbreak hquote, Symbol.assign_quoted horig]
  | unknown =>
      simp [KconfigFiles.strValue, horig] at hwritten

end Symbols

/-! ## The tree walk -/

/-- The prompts of the menus and comments. -/
def MenuNode.titles : MenuNode → List (List Char)
  | absent => []
  | node (.menu _) prompt _ list next => prompt :: (list.titles ++ next.titles)
  | node .comment prompt _ list next => prompt :: (list.titles ++ next.titles)
  | node (.symbol _) _ _ list next => list.titles ++ next.titles
  | node .choice _ _ list next => list.titles ++ next.titles

/-- A title fits on a line, which does not read as a line of a symbol that is not set. -/
def IsTitle (title : List Char) : Prop :=
  title.all (!isLineBreak ·) ∧ unsetMatch (rstrip ("# ".toList ++ title)) = none

section Walk

variable {K : KconfigFiles}

theorem KconfigFiles.loadLine_comment (text : List Char)
    (hunset : unsetMatch (rstrip ('#' :: text)) = none) (l : Loading) :
    K.loadLine l ('#' :: text) = l := by
  have hset : setMatch (rstrip ('#' :: text)) = none := by
    rw [← List.singleton_append, rstrip_append (c := '#') rfl (by decide)]
    exact setMatch_comment _
  rw [KconfigFiles.loadLine, hset, hunset]

theorem KconfigFiles.loadText_titleChunk {title : List Char} (h : IsTitle title) (l : Loading) :
    K.loadText (titleChunk title) l = l := by
  rcases h with ⟨htitle, hunset⟩
  have hline : ∀ c ∈ title, ¬ isLineBreak c := by simpa using htitle
  have hbreak : ∀ c ∈ '#' :: ' ' :: title, ¬ isLineBreak c := by
    intro c hc
    rcases List.mem_cons.mp hc with rfl | hc
    · decide
    · rcases List.mem_cons.mp hc with rfl | hc
      · decide
      · exact hline c hc
  have hempty : ∀ l, K.loadText ['\n'] l = l := fun l => rfl
  have hmark : ∀ l, K.loadText (['#'] ++ ['\n']) l = l := by
    intro l
    rw [KconfigFiles.loadText_line (List.forall_mem_singleton.mpr (by decide))]
    exact KconfigFiles.loadLine_comment [] rfl l
  have htitle : K.loadText (('#' :: ' ' :: title) ++ ['\n']) l = l := by
    rw [KconfigFiles.loadText_line hbreak]
    exact KconfigFiles.loadLine_comment (' ' :: title) hunset l
  have hchunk : titleChunk title =
      ['\n'] ++ ((['#'] ++ ['\n']) ++ ((('#' :: ' ' :: title) ++ ['\n']) ++ (['#'] ++ ['\n']))) := by
    simp [titleChunk]
  rw [hchunk, KconfigFiles.loadText_append (Or.inr rfl), hempty,
    KconfigFiles.loadText_append (endsLine_line _), hmark,
    KconfigFiles.loadText_append (endsLine_line _), htitle, hmark]

theorem KconfigFiles.loadText_endChunk {title : List Char} (h : IsTitle title) (l : Loading) :
    K.loadText (endChunk title) l = l := by
  have hline : ∀ c ∈ title, ¬ isLineBreak c := by simpa using h.1
  have hbreak : ∀ c ∈ '#' :: (" end of ".toList ++ title), ¬ isLineBreak c := by
    intro c hc
    rcases List.mem_cons.mp hc with rfl | hc
    · decide
    · rcases List.mem_append.mp hc with hc | hc
      · have hall : " end of ".toList.all fun c => !isLineBreak c := rfl
        simpa using List.all_eq_true.mp hall c hc
      · exact hline c hc
  have hunset : unsetMatch (rstrip ('#' :: (" end of ".toList ++ title))) = none := by
    have hcut : '#' :: (" end of ".toList ++ title) = ['#', ' ', 'e'] ++ ("nd of ".toList ++ title) := by
      simp
    have hlast : 'e' ∈ ['#', ' ', 'e'].getLast? := rfl
    rw [hcut, rstrip_append hlast (by decide)]
    simp [unsetMatch, configPrefix]
  have hchunk : endChunk title = ('#' :: (" end of ".toList ++ title)) ++ ['\n'] := by
    unfold endChunk
    rfl
  rw [hchunk, KconfigFiles.loadText_line hbreak]
  exact KconfigFiles.loadLine_comment (" end of ".toList ++ title) hunset l

theorem endsLine_titleChunk (title : List Char) : EndsLine (titleChunk title) := by
  right
  rw [titleChunk, List.getLast?_append]
  rfl

variable (K) (U : UserValues) (V : Sym → SymbolValue)

/-- What the output for the symbol of a name does when it is loaded. -/
def KconfigFiles.restoreNamed (l : Loading) (name : List Char) : Loading :=
  match K.symbol? name with
  | some s => if (K.strValue U V s).2 then s.restore (K.strValue U V s).1 l else l
  | none => l

/-- The text written so far loads the symbols visited so far. -/
structure Writing.Loads (w : Writing) : Prop where
  endsLine : EndsLine w.chunks.flatten
  loads : ∀ l, K.loadText w.chunks.flatten l = w.visited.foldl (K.restoreNamed U V) l
  nodup : w.visited.Nodup

variable {K U V} {w : Writing}

theorem Writing.Loads.addComment (h : w.Loads K U V) {chunk : List Char} (hends : EndsLine chunk)
    (hloads : ∀ l, K.loadText chunk l = l) (after : Bool) :
    Writing.Loads K U V { w with chunks := w.chunks ++ [chunk], afterEndComment := after } where
  endsLine := by
    rw [List.flatten_append, List.flatten_singleton]
    exact endsLine_append h.endsLine hends
  loads l := by
    rw [List.flatten_append, List.flatten_singleton, KconfigFiles.loadText_append h.endsLine,
      hloads, h.loads]
  nodup := h.nodup

theorem Writing.Loads.addSymbol (h : w.Loads K U V) {name : List Char} (hname : name ∉ w.visited)
    (text : List Char) (hends : EndsLine text)
    (hloads : ∀ l, K.loadText text l = K.restoreNamed U V l name) {chunks : List (List Char)}
    (after : Bool) (hchunks : chunks.flatten = w.chunks.flatten ++ text) :
    Writing.Loads K U V ⟨chunks, w.visited ++ [name], after⟩ where
  endsLine := by
    rw [hchunks]
    exact endsLine_append h.endsLine hends
  loads l := by
    rw [hchunks, KconfigFiles.loadText_append h.endsLine, hloads, h.loads, List.foldl_append]
    rfl
  nodup := by
    refine List.nodup_append.mpr ⟨h.nodup, List.nodup_singleton name, ?_⟩
    intro a ha b hb hab
    rw [List.mem_singleton] at hb
    exact hname (hb ▸ hab ▸ ha)

theorem KconfigFiles.endsLine_configString (s : Symbol) : EndsLine (K.configString U V s) := by
  have hset : ∀ val, EndsLine (setLine s.name val) := fun val => endsLine_line _
  have hunset : EndsLine (unsetLine s.name) := by
    right
    rw [unsetLine, List.getLast?_append]
    rfl
  unfold KconfigFiles.configString
  split_ifs
  · exact Or.inl rfl
  · cases s.origType with
    | bool | tristate =>
        dsimp only
        split_ifs
        · exact hset _
        · exact hunset
    | unknown | string | int | hex => exact hset _

theorem KconfigFiles.enterTitle_loads (h : w.Loads K U V) {item : MenuItem} {prompt : List Char}
    (hitem : ∀ name, item ≠ .symbol name) (htitle : item ≠ .choice → IsTitle prompt) (dep : Expr) :
    (K.enterNode U V item prompt dep w).Loads K U V := by
  have hnode : K.enterNode U V item prompt dep w =
      if isShown V item dep then
        { w with chunks := w.chunks ++ [titleChunk prompt], afterEndComment := false }
      else w := by
    cases item with
    | symbol name => exact absurd rfl (hitem name)
    | choice | menu | comment => rfl
  rw [hnode]
  split_ifs with hshown
  · have hchoice : item ≠ .choice := by
      rintro rfl
      simp [isShown] at hshown
    exact h.addComment (endsLine_titleChunk prompt)
      (KconfigFiles.loadText_titleChunk (htitle hchoice)) _
  · exact h

theorem leaveNode_loads (h : w.Loads K U V) {item : MenuItem} {prompt : List Char}
    (htitle : ∀ visibility, item = .menu visibility → IsTitle prompt) (dep : Expr) :
    (leaveNode V item prompt dep w).Loads K U V := by
  cases item with
  | menu visibility =>
      change Writing.Loads K U V (if _ then _ else w)
      split_ifs
      · exact h.addComment (endsLine_line _)
          (KconfigFiles.loadText_endChunk (htitle visibility rfl)) _
      · exact h
  | symbol | choice | comment => exact h

variable (hprintable : K.Printable U V)
  (hbool : ∀ s ∈ K.symbols, s.origType.isBoolTristate → (K.triValue U V s).1 ≠ .m)

include hprintable hbool

theorem KconfigFiles.loadText_symbol (name : List Char) (l : Loading) :
    K.loadText (((K.symbol? name).map (K.configString U V)).getD []) l =
      K.restoreNamed U V l name := by
  unfold KconfigFiles.restoreNamed
  cases hsymbol : K.symbol? name with
  | none => rfl
  | some s =>
      have hs := (KconfigFiles.mem_of_symbol? hsymbol).1
      by_cases hwritten : (K.strValue U V s).2 = true
      · exact (KconfigFiles.loadText_configString hs hprintable (hbool s hs) hwritten l).trans
          (if_pos hwritten).symm
      · have hempty : K.configString U V s = [] := by
          rw [KconfigFiles.configString, if_pos (by simpa using hwritten)]
        rw [Option.map_some, Option.getD_some, hempty]
        exact (if_neg hwritten).symm

theorem KconfigFiles.enterSymbol_loads (h : w.Loads K U V) (name prompt : List Char) (dep : Expr) :
    (K.enterNode U V (.symbol name) prompt dep w).Loads K U V := by
  change Writing.Loads K U V (if w.visited.contains name then w else _)
  have hloads := KconfigFiles.loadText_symbol hprintable hbool name
  have hends : EndsLine (((K.symbol? name).map (K.configString U V)).getD []) := by
    cases K.symbol? name with
    | none => exact Or.inl rfl
    | some s => exact KconfigFiles.endsLine_configString s
  have hnew : ¬ w.visited.contains name → name ∉ w.visited := fun hnot hmem =>
    hnot (List.contains_iff_mem.mpr hmem)
  split_ifs with hvisited hempty
  · exact h
  · rw [hempty] at hloads
    exact h.addSymbol (hnew hvisited) [] (Or.inl rfl) hloads _ (List.append_nil _).symm
  · refine h.addSymbol (hnew hvisited) (['\n'] ++ ((K.symbol? name).map (K.configString U V)).getD [])
      (endsLine_append (Or.inr rfl) hends) ?_ _ (by simp)
    intro l
    rw [KconfigFiles.loadText_append (Or.inr rfl)]
    exact hloads l
  · exact h.addSymbol (hnew hvisited) (((K.symbol? name).map (K.configString U V)).getD []) hends
      hloads _ (by simp)

/-- The text that the walk writes loads the symbols that it visits. -/
theorem KconfigFiles.writeNode_loads (node : MenuNode)
    (htitles : ∀ title ∈ node.titles, IsTitle title) (h : w.Loads K U V) :
    (K.writeNode U V node w).Loads K U V := by
  induction node generalizing w with
  | absent => exact h
  | node item prompt dep list next ihList ihNext =>
      have htitle : (∀ name, item ≠ .symbol name) → item ≠ .choice → IsTitle prompt := by
        intro hsymbol hchoice
        cases item with
        | symbol name => exact absurd rfl (hsymbol name)
        | choice => exact absurd rfl hchoice
        | menu | comment => exact htitles prompt List.mem_cons_self
      have hlist : ∀ title ∈ list.titles, IsTitle title := fun title h => htitles title (by
        cases item <;> simp [MenuNode.titles, h])
      have hnext : ∀ title ∈ next.titles, IsTitle title := fun title h => htitles title (by
        cases item <;> simp [MenuNode.titles, h])
      have henter : (K.enterNode U V item prompt dep w).Loads K U V := by
        cases item with
        | symbol name => exact KconfigFiles.enterSymbol_loads hprintable hbool h name prompt dep
        | choice | menu | comment =>
            exact KconfigFiles.enterTitle_loads h (fun name => by simp) (htitle (by simp)) dep
      rw [KconfigFiles.writeNode]
      apply ihNext hnext
      split_ifs
      · exact henter
      · exact leaveNode_loads (ihList hlist henter)
          (fun visibility hitem => htitle (by simp [hitem]) (by simp [hitem])) dep

end Walk

section Contents

variable {K : KconfigFiles} {U : UserValues} {V : Sym → SymbolValue} {w : Writing}

theorem KconfigFiles.visited_enterNode (item : MenuItem) (prompt : List Char) (dep : Expr) :
    (K.enterNode U V item prompt dep w).visited =
      match item with
      | .symbol name => if name ∈ w.visited then w.visited else w.visited ++ [name]
      | _ => w.visited := by
  cases item with
  | symbol name =>
      simp only [KconfigFiles.enterNode, List.contains_iff_mem]
      split_ifs <;> rfl
  | choice | menu | comment =>
      simp only [KconfigFiles.enterNode]
      split_ifs <;> rfl

theorem visited_leaveNode (item : MenuItem) (prompt : List Char) (dep : Expr) :
    (leaveNode V item prompt dep w).visited = w.visited := by
  cases item with
  | menu =>
      simp only [leaveNode]
      split_ifs <;> rfl
  | symbol | choice | comment => rfl

/-- The walk comes to every symbol that has a node. -/
theorem KconfigFiles.mem_visited_writeNode {node : MenuNode} {name : List Char}
    (h : name ∈ w.visited ∨ name ∈ node.names) : name ∈ (K.writeNode U V node w).visited := by
  induction node generalizing w with
  | absent => simpa [MenuNode.names, KconfigFiles.writeNode] using h
  | node item prompt dep list next ihList ihNext =>
      rw [KconfigFiles.writeNode]
      apply ihNext
      by_cases hnext : name ∈ next.names
      · exact Or.inr hnext
      · left
        have henter : name ∈ (K.enterNode U V item prompt dep w).visited ∨ name ∈ list.names := by
          rw [KconfigFiles.visited_enterNode]
          cases item with
          | symbol name' =>
              simp only [MenuNode.names, List.mem_cons, List.mem_append, hnext, or_false] at h
              rcases h with h | rfl | h
              · left
                dsimp only
                split_ifs <;> simp [h]
              · left
                dsimp only
                split_ifs with hvisited
                · exact hvisited
                · simp
              · exact Or.inr h
          | choice | menu | comment =>
              simpa only [MenuNode.names, List.mem_append, hnext, or_false] using h
        split_ifs with hlist
        · rw [hlist] at henter
          simpa [MenuNode.names] using henter
        · rw [visited_leaveNode]
          exact ihList henter

/-- The header ends a line, and none of its lines concerns a symbol. -/
def IsHeader (header : List Char) : Prop :=
  EndsLine header ∧
    ∀ line ∈ fileLines header, setMatch (rstrip line) = none ∧ unsetMatch (rstrip line) = none

theorem KconfigFiles.loadText_header {header : List Char} (h : IsHeader header) (l : Loading) :
    K.loadText header l = l := by
  have hlines : ∀ lines : List (List Char),
      (∀ line ∈ lines, setMatch (rstrip line) = none ∧ unsetMatch (rstrip line) = none) →
        lines.foldl K.loadLine l = l := by
    intro lines hnone
    induction lines with
    | nil => rfl
    | cons line lines ih =>
        rcases hnone line List.mem_cons_self with ⟨hset, hunset⟩
        have hline : K.loadLine l line = l := by rw [KconfigFiles.loadLine, hset, hunset]
        rw [List.foldl_cons, hline]
        exact ih fun line hmem => hnone line (List.mem_cons_of_mem _ hmem)
  exact hlines _ h.2

/-- Loading the written text restores every symbol once. -/
theorem KconfigFiles.loadText_configContents (hprintable : K.Printable U V)
    (hbool : ∀ s ∈ K.symbols, s.origType.isBoolTristate → (K.triValue U V s).1 ≠ .m)
    (htitles : ∀ title ∈ K.menu.titles, IsTitle title) {header : List Char}
    (hheader : IsHeader header) :
    ∃ names : List (List Char), names.Nodup ∧ (∀ s ∈ K.symbols, s.name ∈ names) ∧
      ∀ l, K.loadText (K.configContents U V header) l = names.foldl (K.restoreNamed U V) l := by
  have hstart : Writing.Loads K U V ⟨[header], [], false⟩ :=
    { endsLine := by
        rw [List.flatten_singleton]
        exact hheader.1
      loads := fun l => by
        rw [List.flatten_singleton]
        exact KconfigFiles.loadText_header hheader l
      nodup := List.nodup_nil }
  have hend := KconfigFiles.writeNode_loads hprintable hbool K.menu htitles hstart
  exact ⟨_, hend.nodup,
    fun s hs => KconfigFiles.mem_visited_writeNode (Or.inr (K.mem_menu s hs)), hend.loads⟩

end Contents

end Kconfig

end DistroSeed
