import Mathlib.Data.Bool.AllAny
import DistroSeed.Model.FwEnvConfig

/-! Which config `select_fw_env_config` links. -/

namespace DistroSeed

open Tokens

/-! ## Words that are no patterns -/

theorem not_isIfs_of_isCompatibleChar {c : Char} (h : isCompatibleChar c) : ¬ isIfs c := by
  have hifs : ∀ d ∈ [' ', '\t', '\n'], ¬ isCompatibleChar d :=
    List.all_iff_forall_prop.mp (by decide)
  intro hc
  refine hifs c ?_ h
  simpa [isIfs, or_assoc] using hc

theorem not_isPattern_of_isCompatibleChar {c : Char} (h : isCompatibleChar c) : ¬ isPattern c := by
  have hpattern : ∀ d ∈ ['*', '?', '[', '\\'], ¬ isCompatibleChar d :=
    List.all_iff_forall_prop.mp (by decide)
  intro hc
  refine hpattern c ?_ h
  simpa [isPattern, or_assoc] using hc

namespace ConfigDir

variable {dir : ConfigDir} {compatible : List CompatibleString}

theorem expandWord_of_not_isPattern {word : String} (h : ∀ c ∈ word.toList, ¬ isPattern c) :
    dir.expandWord word = [word] := by
  have hany : ¬ word.toList.any isPattern := by
    rw [List.any_eq_true]
    rintro ⟨c, hc, hpattern⟩
    exact h c hc hpattern
  rw [expandWord, if_neg hany]

/-- A text of one word is expanded as that word. -/
theorem expand_of_not_isIfs {text : String} (hne : text ≠ "") (h : ∀ c ∈ text.toList, ¬ isIfs c) :
    dir.expand text = dir.expandWord text := by
  have hlist : text.toList ≠ [] := fun hnil => hne (String.toList_eq_nil_iff.mp hnil)
  rw [expand, words_of_forall h, flush_of_ne_nil hlist]
  simp

theorem words_compatibleText (compatible : List CompatibleString) :
    words isIfs (compatibleText compatible).toList = compatible.map fun c => c.text.toList := by
  rw [compatibleText, String.toList_join]
  induction compatible with
  | nil => rfl
  | cons c compatible ih =>
      have hword : ∀ d ∈ c.text.toList, ¬ isIfs d := fun d hd =>
        not_isIfs_of_isCompatibleChar (c.isCompatibleChar_of_mem d hd)
      have hne : c.text.toList ≠ [] := fun hnil => c.ne_empty (String.toList_eq_nil_iff.mp hnil)
      have hblank : " ".toList = [' '] := rfl
      rw [List.map_cons, List.flatMap_cons, String.toList_append, hblank, List.append_assoc,
        List.singleton_append, words_append_cons (by decide), ih, words_of_forall hword,
        flush_of_ne_nil hne]
      rfl

/-- The outer loop goes through the compatible strings. -/
theorem expand_compatibleText (compatible : List CompatibleString) :
    dir.expand (compatibleText compatible) = compatible.map (·.text) := by
  rw [expand, words_compatibleText, List.map_map]
  induction compatible with
  | nil => rfl
  | cons c compatible ih =>
      have hpattern : ∀ d ∈ c.text.toList, ¬ isPattern d := fun d hd =>
        not_isPattern_of_isCompatibleChar (c.isCompatibleChar_of_mem d hd)
      rw [List.map_cons, List.flatMap_cons, ih]
      simp [expandWord_of_not_isPattern hpattern]

/-! ## The candidates -/

/-- The paths that the pattern of a compatible string matches. -/
def listed (dir : ConfigDir) (c : CompatibleString) : List String :=
  (dir.entries.filter (matchesMachine (secondField c.text))).map envConfigPath

/-- The existing files among them. -/
def matching (dir : ConfigDir) (c : CompatibleString) : List String :=
  (dir.listed c).filter dir.present

/-- The pattern of a compatible string. -/
def pattern (c : CompatibleString) : String := envConfigPath (secondField c.text ++ "*.config")

theorem isCompatibleChar_of_mem_secondField (c : CompatibleString) :
    ∀ d ∈ (secondField c.text).toList, isCompatibleChar d := by
  intro d hd
  refine c.isCompatibleChar_of_mem d ?_
  rw [secondField] at hd
  split at hd
  · rename_i first second rest hsplit
    rw [String.toList_ofList] at hd
    have hsecond : second ∈ c.text.toList.splitOn ',' := by simp [hsplit]
    exact mem_of_mem_splitOn hsecond hd
  · exact hd

/-- The inner loop goes through the listed paths, or else through the pattern itself. -/
theorem expand_pattern (c : CompatibleString) :
    dir.expand (pattern c) =
      if dir.listed c = [] then [pattern c] else dir.listed c := by
  have hmachine := isCompatibleChar_of_mem_secondField c
  have htext : (pattern c).toList =
      envConfigDir.toList ++ "/".toList ++ ((secondField c.text).toList ++ "*.config".toList) := by
    simp [pattern, envConfigPath]
  have hifs : ∀ d ∈ (pattern c).toList, ¬ isIfs d := by
    have hdir : ∀ d ∈ envConfigDir.toList ++ "/".toList, ¬ isIfs d :=
      List.all_iff_forall_prop.mp (by decide)
    have hsuffix : ∀ d ∈ "*.config".toList, ¬ isIfs d :=
      List.all_iff_forall_prop.mp (by decide)
    intro d hd
    rw [htext] at hd
    rcases List.mem_append.mp hd with hd | hd
    · exact hdir d hd
    rcases List.mem_append.mp hd with hd | hd
    · exact not_isIfs_of_isCompatibleChar (hmachine d hd)
    · exact hsuffix d hd
  have hpattern : (pattern c).toList.any isPattern := by
    rw [List.any_eq_true]
    exact ⟨'*', by simp [htext], by decide⟩
  have hne : pattern c ≠ "" := by
    intro heq
    rw [heq] at hpattern
    cases hpattern
  rw [expand_of_not_isIfs hne hifs, expandWord, if_pos hpattern, pattern,
    dir.glob_machine _ hmachine, ← listed]
  split
  · rename_i hnil
    rw [if_pos hnil]
  · rename_i hne
    rw [if_neg hne]

/-- A file with the name of a pattern would match it. -/
theorem matchesMachine_pattern (machine : String) :
    matchesMachine machine (machine ++ "*.config") := by
  have hsuffix : ".config".toList <:+ (machine ++ "*.config").toList := by
    rw [String.toList_append]
    exact List.IsSuffix.trans (by decide) (List.suffix_append _ _)
  have hlength : machine.length + ".config".length ≤ (machine ++ "*.config").length := by
    rw [String.length_append]
    exact Nat.add_le_add_left (by decide) _
  have hdot : (machine ++ "*.config").toList.head? ≠ some '.' ∨ machine ≠ "" := by
    by_cases hmachine : machine = ""
    · exact Or.inl (by rw [hmachine]; decide)
    · exact Or.inr hmachine
  simp only [matchesMachine, Bool.and_eq_true, decide_eq_true_eq, Bool.or_eq_true,
    List.isPrefixOf_iff_prefix, List.isSuffixOf_iff_suffix]
  exact ⟨⟨⟨by simp, hsuffix⟩, hlength⟩, hdot⟩

/-- A pattern that matches nothing is not the path of a file. -/
theorem not_present_pattern {c : CompatibleString} (h : dir.listed c = []) :
    ¬ dir.present (pattern c) := by
  intro hpresent
  have hmem := dir.mem_entries_of_present _ (isCompatibleChar_of_mem_secondField c) hpresent
  have hlisted : pattern c ∈ dir.listed c :=
    List.mem_map_of_mem (List.mem_filter.mpr ⟨hmem, matchesMachine_pattern _⟩)
  rw [h] at hlisted
  cases hlisted

/-- The existing ones among the paths that are tried are the candidates. -/
theorem filter_present_expand (c : CompatibleString) :
    (dir.expand (pattern c)).filter dir.present = dir.matching c := by
  rw [expand_pattern, matching]
  split_ifs with hnil
  · rw [hnil, List.filter_cons_of_neg (not_present_pattern hnil)]
  · rfl

/-! ## The loops -/

/-- What every turn of the inner loop does first. -/
def setDefault (dir : ConfigDir) (s : Search) (path : String) : Search :=
  if s.default = "" then { s with default := dir.realpath path } else s

theorem setDefault_found (dir : ConfigDir) (s : Search) (path : String) :
    (dir.setDefault s path).found = s.found := by
  rw [setDefault]
  split_ifs <;> rfl

theorem tryPaths_cons (dir : ConfigDir) (s : Search) (path : String) (paths : List String) :
    dir.tryPaths s (path :: paths) =
      if dir.fwPrintenv path then
        { dir.setDefault s path with found := true, configPath := dir.realpath path }
      else dir.tryPaths (dir.setDefault s path) paths := rfl

theorem tryPaths_append {s : Search} (hs : s.found = false) (paths paths' : List String) :
    dir.tryPaths s (paths ++ paths') =
      if (dir.tryPaths s paths).found then dir.tryPaths s paths
      else dir.tryPaths (dir.tryPaths s paths) paths' := by
  induction paths generalizing s with
  | nil => simp [tryPaths, hs]
  | cons path paths ih =>
      rw [List.cons_append, tryPaths_cons, tryPaths_cons]
      by_cases hworks : dir.fwPrintenv path
      · simp [hworks]
      · rw [if_neg hworks, if_neg hworks]
        exact ih ((dir.setDefault_found s path).trans hs)

/-- As long as nothing is found, the two loops are one. -/
theorem tryMachines_eq {s : Search} (hs : s.found = false) (compatible : List CompatibleString) :
    dir.tryMachines s (compatible.map (·.text)) =
      dir.tryPaths s (compatible.flatMap fun c => dir.expand (pattern c)) := by
  induction compatible generalizing s with
  | nil => rfl
  | cons c compatible ih =>
      rw [List.map_cons, List.flatMap_cons, tryPaths_append hs, tryMachines]
      change (if (dir.tryPaths s (dir.expand (pattern c))).found then
        dir.tryPaths s (dir.expand (pattern c)) else _) = _
      split_ifs with hfound
      · rfl
      · exact ih (s := dir.tryPaths s (dir.expand (pattern c))) (by simpa using hfound)

theorem tryPaths_of_find?_eq_some {s : Search} {paths : List String} {path : String}
    (h : paths.find? dir.fwPrintenv = some path) :
    (dir.tryPaths s paths).found = true ∧
      (dir.tryPaths s paths).configPath = dir.realpath path := by
  induction paths generalizing s with
  | nil => cases h
  | cons first paths ih =>
      rw [tryPaths_cons]
      by_cases hworks : dir.fwPrintenv first
      · rw [List.find?_cons_of_pos hworks] at h
        obtain rfl := Option.some.inj h
        simp [hworks]
      · rw [List.find?_cons_of_neg hworks] at h
        rw [if_neg hworks]
        exact ih h

/-- If nothing works, the default is the first path that `realpath` resolves. -/
theorem tryPaths_of_find?_eq_none {s : Search} {paths : List String}
    (h : paths.find? dir.fwPrintenv = none) :
    dir.tryPaths s paths =
      { s with
        default :=
          if s.default = "" then ((paths.map dir.realpath).find? (· ≠ "")).getD ""
          else s.default } := by
  induction paths generalizing s with
  | nil =>
      by_cases hdefault : s.default = ""
      · simp [tryPaths, ← hdefault]
      · simp [tryPaths, hdefault]
  | cons first paths ih =>
      have hworks : ¬ dir.fwPrintenv first := by
        intro hworks
        rw [List.find?_cons_of_pos hworks] at h
        cases h
      rw [List.find?_cons_of_neg hworks] at h
      rw [tryPaths_cons, if_neg hworks, ih h, setDefault]
      by_cases hdefault : s.default = ""
      · by_cases hfirst : dir.realpath first = ""
        · simp [hdefault, hfirst]
        · simp [hdefault, hfirst]
      · simp [hdefault]

/-! ## What is selected -/

/-- The existing candidates, in the order of the compatible strings and then of the names. -/
def candidates (dir : ConfigDir) (compatible : List CompatibleString) : List String :=
  compatible.flatMap dir.matching

/-- The first candidate on which `fw_printenv` succeeds, or else the first one. -/
def chosen (dir : ConfigDir) (compatible : List CompatibleString) : Option String :=
  (((dir.candidates compatible).find? dir.fwPrintenv).or (dir.candidates compatible).head?).map
    dir.realpath

/-- A link to the chosen candidate, or else the explanatory file and a failure. -/
def expected (dir : ConfigDir) (compatible : List CompatibleString) : Selection :=
  match dir.chosen compatible with
  | some path => ⟨some path, none, 0⟩
  | none => ⟨none, some (explanation (compatibleText compatible)), 1⟩

/-- What is chosen is there. -/
theorem present_of_mem_chosen {path : String} (h : path ∈ dir.chosen compatible) :
    dir.present path := by
  obtain ⟨candidate, hcandidate, rfl⟩ := Option.map_eq_some_iff.mp h
  have hmem : candidate ∈ dir.candidates compatible := by
    rcases Option.or_eq_some_iff.mp hcandidate with hworks | ⟨_, hfirst⟩
    · exact List.mem_of_find?_eq_some hworks
    · exact List.mem_of_head? hfirst
  obtain ⟨c, _, hmatching⟩ := List.mem_flatMap.mp hmem
  exact dir.present_realpath _ (List.mem_filter.mp hmatching).2

/-- The paths that the loops go through. -/
def tried (dir : ConfigDir) (compatible : List CompatibleString) : List String :=
  compatible.flatMap fun c => dir.expand (pattern c)

/-- The ones before the first candidate: links that point to nothing, and patterns that match
nothing. -/
def missing (dir : ConfigDir) (compatible : List CompatibleString) : List String :=
  (dir.tried compatible).takeWhile fun path => !dir.present path

theorem filter_present_tried (dir : ConfigDir) (compatible : List CompatibleString) :
    (dir.tried compatible).filter dir.present = dir.candidates compatible := by
  rw [tried, candidates, List.filter_flatMap]
  simp only [filter_present_expand]

/-- What is missing does not work. -/
theorem find?_tried (dir : ConfigDir) (compatible : List CompatibleString) :
    (dir.tried compatible).find? dir.fwPrintenv =
      (dir.candidates compatible).find? dir.fwPrintenv := by
  rw [← filter_present_tried, List.find?_filter]
  congr 1
  funext path
  by_cases hpresent : dir.present path
  · simp [hpresent]
  · simp [hpresent, dir.fwPrintenv_of_not_present path hpresent]

theorem linkConfig_eq_iff {configPath path : String} :
    dir.linkConfig configPath = ⟨some path, none, 0⟩ ↔ dir.expand configPath = [path] := by
  rw [linkConfig, Selection.mk.injEq]
  constructor
  · rintro ⟨hlink, _⟩
    split at hlink
    · rename_i linked hexpand
      rw [hexpand, Option.some.inj hlink]
    · cases hlink
  · intro h
    simp [h]

/-- A link is what is expected if and only if its path is expanded as the chosen one. -/
theorem linkConfig_eq_expected_iff {configPath : String} :
    dir.linkConfig configPath = dir.expected compatible ↔
      ∃ path ∈ dir.chosen compatible, dir.expand configPath = [path] := by
  rw [expected]
  cases hchosen : dir.chosen compatible with
  | none => simp [linkConfig]
  | some path => simp [linkConfig_eq_iff]

/-- The script if a candidate works. -/
theorem selectFwEnvConfig_of_works {path : String}
    (h : (dir.candidates compatible).find? dir.fwPrintenv = some path) :
    dir.selectFwEnvConfig compatible = dir.linkConfig (dir.realpath path) := by
  obtain ⟨hfound, hpath⟩ := tryPaths_of_find?_eq_some (s := ⟨false, "", ""⟩)
    ((dir.find?_tried compatible).trans h)
  rw [tried, ← tryMachines_eq rfl] at hfound hpath
  rw [selectFwEnvConfig, expand_compatibleText]
  simp only [hfound, hpath, if_true]

/-- The script if no candidate works. -/
theorem selectFwEnvConfig_of_not_works
    (h : (dir.candidates compatible).find? dir.fwPrintenv = none) :
    dir.selectFwEnvConfig compatible =
      match ((dir.tried compatible).map dir.realpath).find? (· ≠ "") with
      | some default => dir.linkConfig default
      | none => ⟨none, some (explanation (compatibleText compatible)), 1⟩ := by
  have hsearch := tryPaths_of_find?_eq_none (s := ⟨false, "", ""⟩)
    ((dir.find?_tried compatible).trans h)
  rw [tried, ← tryMachines_eq rfl, ← tried, if_pos rfl] at hsearch
  rw [selectFwEnvConfig, expand_compatibleText, hsearch]
  cases hdefault : ((dir.tried compatible).map dir.realpath).find? (· ≠ "") with
  | none => rfl
  | some default =>
      have hne : default ≠ "" := by simpa using List.find?_some hdefault
      exact if_pos hne

/-- If a missing path is resolved, it is the default. -/
theorem find?_realpath_of_missing {path : String}
    (h : (dir.missing compatible).find? (dir.realpath · ≠ "") = some path) :
    ((dir.tried compatible).map dir.realpath).find? (· ≠ "") = some (dir.realpath path) := by
  have hsplit := List.takeWhile_append_dropWhile (p := fun path => !dir.present path)
    (l := dir.tried compatible)
  rw [← hsplit, List.find?_map, List.find?_append]
  change Option.map _ (((dir.missing compatible).find? (dir.realpath · ≠ "")).or _) = _
  rw [h]
  rfl

/-- If no missing path is resolved, the first candidate is the default. -/
theorem find?_realpath_of_not_missing (h : ∀ path ∈ dir.missing compatible, dir.realpath path = "") :
    ((dir.tried compatible).map dir.realpath).find? (· ≠ "") =
      (dir.candidates compatible).head?.map dir.realpath := by
  rw [← filter_present_tried]
  rw [missing] at h
  revert h
  induction dir.tried compatible with
  | nil => exact fun _ => rfl
  | cons path paths ih =>
      intro h
      by_cases hpresent : dir.present path
      · simp [hpresent, dir.realpath_ne_empty path hpresent]
      · have hpath : (path :: paths).takeWhile (fun path => !dir.present path) =
            path :: paths.takeWhile fun path => !dir.present path := by
          simp [hpresent]
        rw [hpath, List.forall_mem_cons] at h
        rw [List.map_cons, List.find?_cons_of_neg (by simp [h.1]),
          List.filter_cons_of_neg hpresent]
        exact ih h.2

/-- The script if no candidate works and a missing path is resolved. -/
theorem selectFwEnvConfig_of_resolved {path : String}
    (h : (dir.candidates compatible).find? dir.fwPrintenv = none)
    (hmissing : (dir.missing compatible).find? (dir.realpath · ≠ "") = some path) :
    dir.selectFwEnvConfig compatible = dir.linkConfig (dir.realpath path) := by
  rw [selectFwEnvConfig_of_not_works h, find?_realpath_of_missing hmissing]

/-- The script if no candidate works and no missing path is resolved. -/
theorem selectFwEnvConfig_of_not_resolved
    (h : (dir.candidates compatible).find? dir.fwPrintenv = none)
    (hmissing : ∀ path ∈ dir.missing compatible, dir.realpath path = "") :
    dir.selectFwEnvConfig compatible = dir.expected compatible ↔
      ∀ path ∈ dir.chosen compatible, dir.expand path = [path] := by
  have hchosen : dir.chosen compatible = (dir.candidates compatible).head?.map dir.realpath := by
    rw [chosen, h, Option.none_or]
  rw [selectFwEnvConfig_of_not_works h, find?_realpath_of_not_missing hmissing, ← hchosen]
  cases hpath : dir.chosen compatible with
  | none => simp [expected, hpath]
  | some path =>
      change dir.linkConfig path = _ ↔ _
      rw [linkConfig_eq_expected_iff, hpath]
      simp

/-- The script selects the config that it is meant to select if and only if a candidate works or
`realpath` resolves nothing that is missing before the first candidate, and the path that is linked
is one word to the shell, or else the resolved path that is linked instead happens to be a pattern
that only the chosen candidate matches. -/
theorem selectFwEnvConfig_iff (dir : ConfigDir) (compatible : List CompatibleString) :
    dir.selectFwEnvConfig compatible = dir.expected compatible ↔
      if (∃ path ∈ dir.candidates compatible, dir.fwPrintenv path) ∨
          ∀ path ∈ dir.missing compatible, dir.realpath path = "" then
        ∀ path ∈ dir.chosen compatible, dir.expand path = [path]
      else
        ∃ path ∈ (dir.missing compatible).find? (dir.realpath · ≠ ""),
          ∃ candidate ∈ dir.chosen compatible, dir.expand (dir.realpath path) = [candidate] := by
  cases hfind : (dir.candidates compatible).find? dir.fwPrintenv with
  | some path =>
      have hchosen : dir.chosen compatible = some (dir.realpath path) := by
        rw [chosen, hfind]
        rfl
      have hworks : ∃ path ∈ dir.candidates compatible, dir.fwPrintenv path :=
        ⟨path, List.mem_of_find?_eq_some hfind, List.find?_some hfind⟩
      rw [selectFwEnvConfig_of_works hfind, linkConfig_eq_expected_iff, if_pos (Or.inl hworks),
        hchosen]
      simp
  | none =>
      have hworks : ¬ ∃ path ∈ dir.candidates compatible, dir.fwPrintenv path := by
        rintro ⟨path, hpath, hprintenv⟩
        exact List.find?_eq_none.mp hfind path hpath hprintenv
      cases hmissing : (dir.missing compatible).find? (dir.realpath · ≠ "") with
      | none =>
          have hall : ∀ path ∈ dir.missing compatible, dir.realpath path = "" := by
            simpa using hmissing
          rw [if_pos (Or.inr hall)]
          exact selectFwEnvConfig_of_not_resolved hfind hall
      | some path =>
          have hresolved : ¬ ∀ path ∈ dir.missing compatible, dir.realpath path = "" := by
            intro hall
            have hne := List.find?_some hmissing
            simp [hall path (List.mem_of_find?_eq_some hmissing)] at hne
          rw [selectFwEnvConfig_of_resolved hfind hmissing, linkConfig_eq_expected_iff,
            if_neg (not_or_intro hworks hresolved)]
          simp

/-! ## A board without a config -/

/-- What is between the directory and the suffix of a pattern. -/
def machineOf (word : String) : String :=
  String.ofList ((word.toList.drop (envConfigPath "").length).take
    (word.length - (envConfigPath "").length - "*.config".length))

theorem machineOf_pattern (machine : String) :
    machineOf (envConfigPath (machine ++ "*.config")) = machine := by
  have hpath : envConfigPath (machine ++ "*.config") = envConfigPath "" ++ (machine ++ "*.config") := by
    simp [envConfigPath]
  rw [machineOf, hpath, String.length_append, String.length_append, String.toList_append,
    ← String.length_toList (s := envConfigPath ""), List.drop_left, String.toList_append,
    Nat.add_sub_cancel_left, Nat.add_sub_cancel, ← String.length_toList (s := machine),
    List.take_left, String.ofList_toList]

/-- A directory of plain files and of links, of which some point to nothing. -/
def ofFiles (entries dangling works : List String) : ConfigDir where
  entries := entries
  present path := path ∈ (entries.filter (· ∉ dangling)).map envConfigPath
  realpath := id
  fwPrintenv path :=
    path ∈ (entries.filter fun name => name ∉ dangling ∧ name ∈ works).map envConfigPath
  glob word := (entries.filter (matchesMachine (machineOf word))).map envConfigPath
  mem_entries_of_present machine _ h := by
    obtain ⟨name, hname, hpath⟩ := List.mem_map.mp (of_decide_eq_true h)
    have heq : name = machine ++ "*.config" := by simpa [envConfigPath] using hpath
    rw [← heq]
    exact (List.mem_filter.mp hname).1
  present_realpath _ h := h
  realpath_ne_empty path h := by
    obtain ⟨name, _, rfl⟩ := List.mem_map.mp (of_decide_eq_true h)
    simp [envConfigPath, envConfigDir]
  fwPrintenv_of_not_present path h := by
    rw [decide_eq_false_iff_not]
    intro hworks
    obtain ⟨name, hname, rfl⟩ := List.mem_map.mp hworks
    refine h (decide_eq_true (List.mem_map_of_mem ?_))
    simp only [List.mem_filter, decide_eq_true_eq] at hname ⊢
    exact ⟨hname.1, hname.2.1⟩
  glob_machine machine _ := by rw [machineOf_pattern]

/-- The compatible string of a board without a config of its own. -/
def ts9999 : CompatibleString where
  text := "technologic,ts9999"
  ne_empty := by decide
  head_ne_dash := by decide
  isCompatibleChar_of_mem := List.all_iff_forall_prop.mp (by decide)

/-- There is no candidate, and yet the pattern is linked and the script succeeds. -/
theorem selectFwEnvConfig_links_pattern :
    (ofFiles ["imx93.config", "ts4900.config"] [] []).expected [ts9999] =
        ⟨none, some (explanation "technologic,ts9999 "), 1⟩ ∧
      (ofFiles ["imx93.config", "ts4900.config"] [] []).selectFwEnvConfig [ts9999] =
        ⟨some "/usr/share/uboot-env-configs/ts9999*.config", none, 0⟩ := by
  decide

/-- A link that points to nothing comes before the candidate. -/
example :
    (ofFiles ["ts9999-0.config", "ts9999-1.config"] ["ts9999-0.config"] []).expected [ts9999] =
        ⟨some "/usr/share/uboot-env-configs/ts9999-1.config", none, 0⟩ ∧
      (ofFiles ["ts9999-0.config", "ts9999-1.config"] ["ts9999-0.config"] []).selectFwEnvConfig
          [ts9999] =
        ⟨some "/usr/share/uboot-env-configs/ts9999-0.config", none, 0⟩ := by
  decide

end ConfigDir

end DistroSeed
