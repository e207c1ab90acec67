import DistroSeed.Model.Environment

/-! The environment that reaches the VM as shell text: the shell sets the variables of `vm_env` to
their values and runs nothing else, if the text can be encoded. -/

namespace DistroSeed

open KeySort ShellWords PyText

/-! ## One variable -/

/-- The shell can read the variable: its name is one, and its value has no null character. -/
def Readable (item : String × List ℕ) : Prop := isName item.1.toList ∧ 0 ∉ item.2

instance (item : String × List ℕ) : Decidable (Readable item) :=
  inferInstanceAs (Decidable (_ ∧ _))

/-- A line of `_env_exports` for a value without lone surrogates. -/
def exportText (item : String × String) : String :=
  "export " ++ item.1 ++ "=" ++ String.ofList (Reader.singleQuote item.2.toList)

/-- The words of the command in such a line. -/
def exportCommand (item : String × String) : List Word :=
  ["export".toList.map (·, false),
    (item.1.toList ++ ['=']).map (·, false) ++ item.2.toList.map (·, true)]

theorem escapeQuotes_codePoints (value : List Char) :
    escapeQuotes (value.map Char.toNat) =
      (value.flatMap fun c => if c = '\'' then "'\"'\"'".toList else [c]).map Char.toNat := by
  rw [escapeQuotes, List.flatMap_map, List.map_flatMap]
  apply List.flatMap_congr
  intro c _
  rw [apply_ite (List.map Char.toNat)]
  simp only [Char.toNat_inj]
  rfl

theorem exportLine_codePoints (name value : String) :
    exportLine (name, codePoints value) = codePoints (exportText (name, value)) := by
  have hquotes : escapeQuotes (codePoints value) = _ := escapeQuotes_codePoints value.toList
  simp only [exportLine, exportText, codePoints_append]
  rw [hquotes]
  simp [codePoints, Reader.singleQuote]

theorem names_exportText {name value : String} (hname : isName name.toList)
    (hvalue : '\x00' ∉ value.toList) :
    Reader.Names (exportText (name, value)).toList (exportCommand (name, value)) := by
  refine ⟨["export".toList.map (·, false)], _, rfl, fun commands => ?_⟩
  have hliteral : ∀ c ∈ name.toList ++ ['='], IsLiteral c := by
    intro c hc
    rcases List.mem_append.mp hc with hc | hc
    · exact isLiteral_of_isNameChar (isNameChar_of_isName hname c hc)
    · rw [List.mem_singleton.mp hc]
      exact isLiteral_equals
  have htext : (exportText (name, value)).toList =
      "export ".toList ++ ((name.toList ++ ['=']) ++ Reader.singleQuote value.toList) := by
    simp [exportText]
  have hexport : Reader.run ⟨.plain, none, [], commands⟩ "export ".toList =
      some ⟨.plain, none, ["export".toList.map (·, false)], commands⟩ := rfl
  obtain ⟨c, rest, hrest⟩ := List.exists_cons_of_ne_nil (l := name.toList ++ ['=']) (by simp)
  rw [hrest] at hliteral htext
  rw [htext, Reader.run_append, hexport, Option.bind_some, Reader.run_append,
    Reader.run_literal_cons hliteral, Option.bind_some, Reader.run_singleQuote hvalue, hrest]

theorem setting?_exportCommand {name value : String} (hname : isName name.toList) :
    setting? (exportCommand (name, value)) = some (name.toList, value.toList) := by
  have htext : Word.text ((name.toList ++ ['=']).map (·, false) ++ value.toList.map (·, true)) =
      name.toList ++ '=' :: value.toList := by
    simp [Word.text, Function.comp_def]
  have hexport : Word.text ("export".toList.map (·, false)) = "export".toList := rfl
  rw [exportCommand, setting?, if_pos hexport, htext, declaration?_eq hname]

/-! ## All variables -/

/-- Variables whose names the shell knows and whose values it can hold. -/
def ReadableTexts (items : List (String × String)) : Prop :=
  ∀ item ∈ items, isName item.1.toList ∧ '\x00' ∉ item.2.toList

section Texts

variable {items : List (String × String)}

theorem forall₂_names (h : ReadableTexts items) :
    List.Forall₂ Reader.Names (items.map fun item => (exportText item).toList)
      (items.map exportCommand) := by
  rw [List.forall₂_map_left_iff, List.forall₂_map_right_iff, List.forall₂_same]
  exact fun item hitem => names_exportText (h item hitem).1 (h item hitem).2

theorem read_exportTexts (h : ReadableTexts items) :
    read ("\n".intercalate (items.map exportText)).toList = some (items.map exportCommand) := by
  rw [String.toList_intercalate, List.map_map]
  exact Reader.read_intercalate (forall₂_names h)

theorem settings_exportTexts (h : ReadableTexts items) :
    settings ("\n".intercalate (items.map exportText)).toList =
      some (items.map fun item => (item.1.toList, item.2.toList)) :=
  settings_of_read (read_exportTexts h) fun item hitem => setting?_exportCommand (h item hitem).1

/-- What follows on the next line starts a command of its own. -/
theorem run_exportTexts (h : ReadableTexts items) (script : String) :
    Reader.start.run ("\n".intercalate (items.map exportText) ++ "\n" ++ script).toList =
      Reader.run ⟨.plain, none, [], items.map exportCommand⟩ script.toList := by
  have hnames := forall₂_names h
  have hnewline : "\n".toList = ['\n'] := rfl
  rw [String.toList_append, String.toList_append, String.toList_intercalate, List.map_map, hnewline,
    Reader.run_append]
  cases items with
  | nil => rfl
  | cons item items =>
      have hrun := Reader.run_lines hnames []
      rw [List.map_cons, ← Reader.intercalate_append_newline, List.nil_append] at hrun
      exact congrArg (·.bind (Reader.run · script.toList)) hrun

end Texts

/-! ## Values that can be encoded -/

@[simp] theorem encodes_escapeQuotes (value : List ℕ) : encodes (escapeQuotes value) = encodes value := by
  induction value with
  | nil => rfl
  | cons c value ih =>
      have hchar : encodes (if c = '\''.toNat then codePoints "'\"'\"'" else [c]) = encodes [c] := by
        split
        next hquote =>
          subst hquote
          decide
        next => rfl
      have hcons : c :: value = [c] ++ value := rfl
      rw [hcons, encodes_append, ← ih, ← hchar, escapeQuotes, List.flatMap_append,
        List.flatMap_singleton, encodes_append, escapeQuotes]

/-- The text can be encoded exactly if every value can. -/
theorem encodes_envExports_iff {env : PyEnv} :
    encodes (envExports env) ↔ ∀ item ∈ env.items, encodes item.2 := by
  rw [envExports, encodes_intercalate (encodes_codePoints "\n"), List.forall_mem_map]
  simp [mem_sortedBy, exportLine]

/-- The value as a text, where it is one. -/
def textItem (item : String × List ℕ) : String × String := (item.1, (toText? item.2).getD "")

theorem codePoints_textItem {item : String × List ℕ} (h : encodes item.2) :
    codePoints (textItem item).2 = item.2 := by
  obtain ⟨text, htext⟩ := exists_toText?_iff.mpr h
  rw [textItem, htext, Option.getD_some, ← toText?_eq_some_iff.mp htext]

theorem envExports_eq {env : PyEnv} (h : ∀ item ∈ env.items, encodes item.2) :
    envExports env = codePoints ("\n".intercalate
      (((sortedBy Prod.fst env.items).map textItem).map exportText)) := by
  rw [codePoints_intercalate, envExports, List.map_map, List.map_map]
  congr 1
  apply List.map_congr_left
  intro item hitem
  have hvalue := codePoints_textItem (h item (mem_sortedBy.mp hitem))
  have hline := exportLine_codePoints item.1 (textItem item).2
  rwa [hvalue] at hline

theorem readableTexts_of_readable {items : List (String × List ℕ)} (h : ∀ item ∈ items, Readable item)
    (hencodes : ∀ item ∈ items, encodes item.2) : ReadableTexts (items.map textItem) := by
  intro text htext
  obtain ⟨item, hitem, rfl⟩ := List.mem_map.mp htext
  refine ⟨(h item hitem).1, fun hnull => (h item hitem).2 ?_⟩
  rw [← codePoints_textItem (hencodes item hitem)]
  exact List.mem_map_of_mem hnull

/-- The texts of all variables, written to another environment, are those of the dictionary. -/
theorem lookup_update_textItems {env : PyEnv} (h : ∀ item ∈ env.items, encodes item.2) (before : Env)
    (name : String) :
    ((before.update ((sortedBy Prod.fst env.items).map textItem)).lookup name).map codePoints =
      (env.lookup name).or ((before.lookup name).map codePoints) := by
  rcases Dict.lookup_update_cases before ((sortedBy Prod.fst env.items).map textItem) name with
    ⟨_, hpair, rfl, hlookup⟩ | ⟨hnone, hlookup⟩
  · obtain ⟨item, hitem, rfl⟩ := List.mem_map.mp hpair
    have hmem := mem_sortedBy.mp hitem
    have hvalue : env.lookup item.1 = some item.2 := Dict.mem_items.mp hmem
    rw [hlookup, Option.map_some, codePoints_textItem (h item hmem), textItem, hvalue, Option.some_or]
  · rw [hlookup]
    cases hvalue : env.lookup name with
    | none => rw [Option.none_or]
    | some value =>
        have hmem : (name, value) ∈ sortedBy Prod.fst env.items :=
          mem_sortedBy.mpr (Dict.mem_items.mpr hvalue)
        exact absurd rfl (hnone _ (List.mem_map_of_mem hmem))

/-! ## `vm_env` -/

/-- The task's own variables come first, then the fixed ones, then those of the host. -/
theorem lookup_vmEnv {υ : Type*} (literal : String → υ) (environ extra : Dict String υ)
    (name : String) :
    (vmEnv literal environ extra).lookup name = (extra.lookup name).or
      ((((Dict.update ∅ vmPaths).lookup name).map literal).or
        (if isExportedName name then environ.lookup name else none)) := by
  rw [vmEnv, Dict.lookup_update_of_perm _ (List.Perm.refl _),
    Dict.lookup_update_or _ (vmPaths.map fun item => (item.1, literal item.2)),
    Dict.lookup_update_or _ (environ.items.filter fun item => isExportedName item.1),
    Dict.lookup_update_filter_items, Dict.lookup_update_map]
  cases (Dict.update ∅ vmPaths).lookup name with
  | some path => rfl
  | none => rw [Option.map_none, Option.none_or, Option.none_or, Option.or_none]

theorem lookup_vmPaths_eq_none_iff {name : String} :
    (Dict.update ∅ vmPaths).lookup name = none ↔ name ∉ vmPaths.map Prod.fst := by
  constructor
  · intro hnone hmem
    obtain ⟨pair, hpair, hname⟩ := List.mem_map.mp hmem
    obtain ⟨_, _, _, hlookup⟩ := Dict.exists_lookup_update ∅ ⟨pair, hpair, hname⟩
    rw [hlookup] at hnone
    cases hnone
  · intro hnot
    rw [Dict.lookup_update_of_notMem fun pair hpair hname =>
      hnot (List.mem_map.mpr ⟨pair, hpair, hname⟩), AList.lookup_empty]

/-- All variables can be read if those of the task can and those that are taken from the host. -/
theorem readable_vmEnv {environ extra : PyEnv}
    (henviron : ∀ item ∈ environ.items, isExportedName item.1 → Readable item)
    (hextra : ∀ item ∈ extra.items, Readable item) :
    ∀ item ∈ (vmEnv codePoints environ extra).items, Readable item := by
  have hpaths : ∀ item ∈ vmPaths.map fun item => (item.1, codePoints item.2), Readable item := by
    decide
  intro item hitem
  rcases Dict.mem_items_update hitem with hitem | hitem
  · exact hextra item hitem
  rcases Dict.mem_items_update hitem with hitem | hitem
  · exact hpaths item hitem
  rcases Dict.mem_items_update hitem with hitem | hitem
  · obtain ⟨hmem, hname⟩ := List.mem_filter.mp hitem
    exact henviron item hmem hname
  rcases Dict.mem_items_update hitem with hitem | hitem
  · exact hpaths item hitem
  · cases hitem

/-- No value of the task has a lone surrogate, and none of the host that `vm_env` takes. -/
def ValuesEncode (environ extra : PyEnv) : Prop :=
  (∀ item ∈ extra.items, encodes item.2) ∧
    ∀ item ∈ environ.items, isExportedName item.1 → item.1 ∉ vmPaths.map Prod.fst →
      extra.lookup item.1 = none → encodes item.2

instance (environ extra : PyEnv) : Decidable (ValuesEncode environ extra) :=
  inferInstanceAs (Decidable (_ ∧ _))

theorem encodes_vmEnv_iff {environ extra : PyEnv} :
    (∀ item ∈ (vmEnv codePoints environ extra).items, encodes item.2) ↔
      ValuesEncode environ extra := by
  constructor
  · intro hall
    have hlookup : ∀ name value, (vmEnv codePoints environ extra).lookup name = some value →
        encodes value := fun name value h => hall (name, value) (Dict.mem_items.mpr h)
    constructor
    · intro item hitem
      apply hlookup item.1
      rw [lookup_vmEnv, Dict.mem_items.mp hitem, Option.some_or]
    · intro item hitem hexported hpath hnone
      apply hlookup item.1
      rw [lookup_vmEnv, hnone, lookup_vmPaths_eq_none_iff.mpr hpath, if_pos hexported,
        Dict.mem_items.mp hitem]
      rfl
  · intro hencode item hitem
    obtain ⟨hextra, henviron⟩ := hencode
    have hvalue := Dict.mem_items.mp hitem
    rw [lookup_vmEnv] at hvalue
    cases hown : extra.lookup item.1 with
    | some value =>
        rw [hown, Option.some_or] at hvalue
        obtain rfl := Option.some.inj hvalue
        exact hextra item (Dict.mem_items.mpr hown)
    | none =>
        rw [hown, Option.none_or] at hvalue
        cases hpath : (Dict.update ∅ vmPaths).lookup item.1 with
        | some path =>
            rw [hpath, Option.map_some, Option.some_or] at hvalue
            rw [← Option.some.inj hvalue]
            exact encodes_codePoints path
        | none =>
            rw [hpath, Option.map_none, Option.none_or] at hvalue
            split at hvalue
            next hexported =>
              exact henviron item (Dict.mem_items.mpr hvalue) hexported
                (lookup_vmPaths_eq_none_iff.mp hpath) hown
            next => cases hvalue

/-- The text can be encoded, and the shell that executes it sets the variables of `vm_env` to their
values, leaves all others as they were and runs nothing else, also where a script follows on the
next line. -/
def SetsVmEnv (environ extra : PyEnv) (before : Env) : Prop :=
  ∃ text commands after, toText? (envExports (vmEnv codePoints environ extra)) = some text ∧
    read text.toList = some commands ∧ shellSets text before = some after ∧
    (∀ name, (after.lookup name).map codePoints =
      ((vmEnv codePoints environ extra).lookup name).or ((before.lookup name).map codePoints)) ∧
    ∀ script, Reader.start.run (text ++ "\n" ++ script).toList =
      Reader.run ⟨.plain, none, [], commands⟩ script.toList

/-- The variables reach the VM as they are exactly if no value that is sent has a lone surrogate. -/
theorem envExports_sets_vmEnv_iff {environ extra : PyEnv}
    (henviron : ∀ item ∈ environ.items, isExportedName item.1 → Readable item)
    (hextra : ∀ item ∈ extra.items, Readable item) (before : Env) :
    SetsVmEnv environ extra before ↔ ValuesEncode environ extra := by
  rw [← encodes_vmEnv_iff]
  constructor
  · rintro ⟨text, _, _, htext, _⟩
    exact encodes_envExports_iff.mp (exists_toText?_iff.mp ⟨text, htext⟩)
  · intro hencodes
    have hreadable : ReadableTexts
        ((sortedBy Prod.fst (vmEnv codePoints environ extra).items).map textItem) :=
      readableTexts_of_readable
        (fun item hitem => readable_vmEnv henviron hextra item (mem_sortedBy.mp hitem))
        fun item hitem => hencodes item (mem_sortedBy.mp hitem)
    refine ⟨_, _, _, ?_, read_exportTexts hreadable, ?_, lookup_update_textItems hencodes before,
      run_exportTexts hreadable⟩
    · rw [envExports_eq hencodes, toText?_codePoints]
    · rw [shellSets, settings_exportTexts hreadable, Option.map_some, List.map_map]
      simp [Function.comp_def]

/-- Of the host, a variable with an unreadable name that is not exported and one with quotes, a
dollar sign, a backslash and a newline. -/
def quotedEnviron : PyEnv := Dict.update ∅
  [("BASH_FUNC_ls%%", codePoints "() \x7b :; \x7d"),
    ("DS_NOTE", codePoints "it's \"$5\"\n\\; exit 1")]

def scriptExtra : PyEnv := Dict.update ∅ [("DS_TASK_CMD", codePoints "/src/tasks/core/build.sh")]

theorem envExports_sets_vmEnv_iff_quoted : SetsVmEnv quotedEnviron scriptExtra ∅ :=
  (envExports_sets_vmEnv_iff (by decide) (by decide) ∅).mpr (by decide)

/-- A value in Latin-1: its last byte is no UTF-8. -/
def latinEnviron : PyEnv := Dict.update ∅ [("DS_NOTE", codePoints "caf" ++ [0xDCE9])]

/-- The text for the VM cannot be encoded. -/
theorem not_setsVmEnv_latinEnviron :
    (∀ item ∈ latinEnviron.items, Readable item) ∧
      encode? (envExports (vmEnv codePoints latinEnviron ∅)) = none ∧
      ¬ SetsVmEnv latinEnviron ∅ ∅ := by
  have hnone : toText? (envExports (vmEnv codePoints latinEnviron ∅)) = none := by decide +kernel
  refine ⟨by decide, by rw [encode?, hnone]; rfl, ?_⟩
  rintro ⟨text, _, _, htext, _⟩
  rw [hnone] at htext
  cases htext

end DistroSeed
