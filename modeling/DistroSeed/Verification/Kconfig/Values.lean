import Mathlib.Data.List.Find
import DistroSeed.Model.KconfigValues

/-! A symbol has its value from the values that it reads. -/

namespace DistroSeed

namespace Kconfig

/-- The two tables of values do not differ at the items. -/
def AgreeOn (V V' : Sym → SymbolValue) (items : List Sym) : Prop := ∀ s ∈ items, V s = V' s

/-- What `set_value` leaves in symbols and choices. -/
structure UserValues.Valid (U : UserValues) (K : KconfigFiles) : Prop where
  value : ∀ s ∈ K.symbols, ∀ value ∈ U.value s.name, s.origType.accepts value
  mode : ∀ c ∈ K.choices, ∀ mode ∈ U.mode c.sym, c.origType.accepts (.tri mode)
  selection : ∀ c ∈ K.choices, ∀ name ∈ U.selection c.sym,
    ∃ s ∈ K.symbols, s.name = name ∧ s.choice = some c ∧ s.origType.isBoolTristate

/-- The user values of a new `Kconfig`. -/
def UserValues.unset : UserValues := ⟨fun _ => none, fun _ => none, fun _ => none⟩

theorem UserValues.unset_valid (K : KconfigFiles) : UserValues.unset.Valid K where
  value _ _ _ hvalue := by cases hvalue
  mode _ _ _ hmode := by cases hmode
  selection _ _ _ hname := by cases hname

variable {K : KconfigFiles} {U : UserValues} {V V' : Sym → SymbolValue} {a b : List Sym}

theorem AgreeOn.left (h : AgreeOn V V' (a ++ b)) : AgreeOn V V' a :=
  fun s hs => h s (List.mem_append_left b hs)

theorem AgreeOn.right (h : AgreeOn V V' (a ++ b)) : AgreeOn V V' b :=
  fun s hs => h s (List.mem_append_right a hs)

theorem AgreeOn.mono (h : AgreeOn V V' b) (hsubset : a ⊆ b) : AgreeOn V V' a :=
  fun s hs => h s (hsubset hs)

theorem AgreeOn.of_flatMap {α : Type} {f : α → List Sym} {xs : List α}
    (h : AgreeOn V V' (xs.flatMap f)) {x : α} (hx : x ∈ xs) : AgreeOn V V' (f x) :=
  fun s hs => h s (List.mem_flatMap.mpr ⟨x, hx, hs⟩)

theorem exprValue_congr {e : Expr} (h : AgreeOn V V' (exprItems e)) :
    exprValue V e = exprValue V' e := by
  induction e with
  | sym s => rw [exprValue, exprValue, h s List.mem_cons_self]
  | and left right ihLeft ihRight =>
      rw [exprValue, exprValue, ihLeft h.left, ihRight h.right]
  | or left right ihLeft ihRight =>
      rw [exprValue, exprValue, ihLeft h.left, ihRight h.right]
  | not operand ih => rw [exprValue, exprValue, ih h]
  | rel op left right =>
      rw [exprValue, exprValue, h left List.mem_cons_self, h right (by simp [exprItems])]

theorem promptValue_congr {prompts : List Expr}
    (h : AgreeOn V V' (prompts.flatMap exprItems)) :
    promptValue V prompts = promptValue V' prompts := by
  apply List.foldl_ext
  intro vis cond hcond
  rw [exprValue_congr (h.of_flatMap hcond)]

theorem typeIn_congr {origType : SymbolType} (h : AgreeOn V V' origType.reads)
    (mode : Option Tristate) : typeIn V origType mode = typeIn V' origType mode := by
  unfold typeIn
  by_cases htype : origType = .tristate
  · rw [h Sym.modules (by simp [SymbolType.reads, htype])]
  · simp [htype]

theorem Choice.visibility_congr {c : Choice} (h : AgreeOn V V' c.reads) :
    c.visibility V = c.visibility V' := by
  rw [Choice.visibility, Choice.visibility, typeIn_congr h.left, promptValue_congr h.right]

theorem Symbol.mode_congr {s : Symbol} (h : AgreeOn V V' s.visibilityReads) :
    s.mode V = s.mode V' := by
  unfold Symbol.mode
  cases hchoice : s.choice with
  | none => rfl
  | some c =>
      rw [Option.map_some, Option.map_some, h c.sym (by simp [Symbol.visibilityReads, hchoice])]

theorem Symbol.visibility_congr {s : Symbol} (h : AgreeOn V V' s.visibilityReads) :
    s.visibility V = s.visibility V' := by
  simp only [Symbol.visibility, Symbol.mode_congr h, promptValue_congr h.right,
    typeIn_congr h.left.right]

theorem KconfigFiles.visible_congr {name : List Char}
    (h : ∀ s ∈ K.symbol? name, AgreeOn V V' s.visibilityReads) :
    K.visible V name = K.visible V' name := by
  unfold KconfigFiles.visible
  cases hsymbol : K.symbol? name with
  | none => rfl
  | some s => rw [Option.any_some, Option.any_some, Symbol.visibility_congr (h s hsymbol)]

/-! ## Choices -/

theorem Choice.triValue_congr {c : Choice} (h : AgreeOn V V' c.reads) :
    c.triValue U V = c.triValue U V' := by
  simp only [Choice.triValue, Choice.visibility_congr h, typeIn_congr h.left]

theorem KconfigFiles.visible_congr_of_selectionReads {c : Choice}
    (h : AgreeOn V V' (K.selectionReads c)) {name : List Char}
    (hname : name ∈ c.defaults.map Prod.fst ++ c.syms) : K.visible V name = K.visible V' name := by
  apply KconfigFiles.visible_congr
  intro s hs
  exact h.right.of_flatMap (List.mem_filterMap.mpr ⟨name, hname, hs⟩)

theorem KconfigFiles.selectionFromDefaults_congr {c : Choice}
    (h : AgreeOn V V' (K.selectionReads c)) :
    K.selectionFromDefaults V c = K.selectionFromDefaults V' c := by
  have hdefaults : AgreeOn V V' (c.defaults.flatMap fun default => exprItems default.2) :=
    h.left.mono (List.subset_cons_self _ _)
  have hdefault : (c.defaults.find? fun default =>
        exprValue V default.2 ≠ .n && K.visible V default.1) =
      c.defaults.find? fun default => exprValue V' default.2 ≠ .n && K.visible V' default.1 := by
    apply List.find?_congr
    intro default hmem
    rw [exprValue_congr (hdefaults.of_flatMap hmem),
      KconfigFiles.visible_congr_of_selectionReads h
        (List.mem_append_left _ (List.mem_map_of_mem hmem))]
  have hsyms : c.syms.find? (K.visible V) = c.syms.find? (K.visible V') :=
    List.find?_congr fun name hname =>
      KconfigFiles.visible_congr_of_selectionReads h (List.mem_append_right _ hname)
  rw [KconfigFiles.selectionFromDefaults, KconfigFiles.selectionFromDefaults, hdefault, hsyms]

/-- The user selection counts only where it is a symbol of the choice. -/
theorem KconfigFiles.selection_congr {c : Choice} (h : AgreeOn V V' (K.selectionReads c))
    (hselection : ∀ name ∈ U.selection c.sym, name ∈ c.syms) :
    K.selection U V c = K.selection U V' c := by
  have hfilter : (U.selection c.sym).filter (K.visible V) =
      (U.selection c.sym).filter (K.visible V') := by
    cases hname : U.selection c.sym with
    | none => rfl
    | some name =>
        have hmem := List.mem_append_right (c.defaults.map Prod.fst) (hselection name hname)
        simp only [Option.filter, KconfigFiles.visible_congr_of_selectionReads h hmem]
  rw [KconfigFiles.selection, KconfigFiles.selection, h.left c.sym List.mem_cons_self, hfilter,
    KconfigFiles.selectionFromDefaults_congr h]

/-! ## Symbols -/

section Symbols

variable {s : Symbol}

theorem find?_default_congr
    (h : AgreeOn V V' (s.defaults.flatMap fun default =>
      exprItems default.1 ++ exprItems default.2)) :
    (s.defaults.find? fun default => exprValue V default.2 ≠ .n) =
      s.defaults.find? fun default => exprValue V' default.2 ≠ .n := by
  apply List.find?_congr
  intro default hdefault
  rw [exprValue_congr (h.of_flatMap hdefault).right]

theorem Symbol.defaultStr_congr
    (h : AgreeOn V V' (s.defaults.flatMap fun default =>
      exprItems default.1 ++ exprItems default.2)) :
    s.defaultStr V = s.defaultStr V' := by
  unfold Symbol.defaultStr
  rw [find?_default_congr h]
  cases hfind : s.defaults.find? fun default => exprValue V' default.2 ≠ .n with
  | none => rfl
  | some default =>
      have hitems := (h.of_flatMap (List.mem_of_find?_eq_some hfind)).left
      cases hvalue : default.1 with
      | sym value =>
          rw [hvalue] at hitems
          simp [hvalue, hitems value List.mem_cons_self]
      | and | or | not | rel => simp [hvalue]

theorem Symbol.activeRange_congr
    (h : AgreeOn V V' (s.ranges.flatMap fun range =>
      range.1 :: range.2.1 :: exprItems range.2.2)) :
    s.activeRange V = s.activeRange V' := by
  have hfind : (s.ranges.find? fun range => exprValue V range.2.2 ≠ .n) =
      s.ranges.find? fun range => exprValue V' range.2.2 ≠ .n := by
    apply List.find?_congr
    intro range hrange
    rw [exprValue_congr ((h.of_flatMap hrange).mono fun s hs => by simp [hs])]
  unfold Symbol.activeRange
  rw [hfind]
  cases hrange : s.ranges.find? fun range => exprValue V' range.2.2 ≠ .n with
  | none => rfl
  | some range =>
      have hitems := h.of_flatMap (List.mem_of_find?_eq_some hrange)
      rw [Option.map_some, Option.map_some, hitems range.1 (by simp),
        hitems range.2.1 (by simp)]

variable (h : AgreeOn V V' (K.symbolReads s))

include h

theorem Symbol.visibility_congr_of_reads : s.visibility V = s.visibility V' :=
  Symbol.visibility_congr h.left.left.left.left.left.left

theorem Symbol.defaultTri_congr : s.defaultTri V = s.defaultTri V' := by
  have hdefaults := h.left.left.left.left.left.right
  unfold Symbol.defaultTri
  rw [find?_default_congr hdefaults, exprValue_congr h.left.right,
    exprValue_congr h.left.left.left.right]
  cases hfind : s.defaults.find? fun default => exprValue V' default.2 ≠ .n with
  | none => rfl
  | some default =>
      have hitems := hdefaults.of_flatMap (List.mem_of_find?_eq_some hfind)
      simp only [exprValue_congr hitems.left, exprValue_congr hitems.right]

theorem Symbol.baseTri_congr : s.baseTri U V = s.baseTri U V' := by
  unfold Symbol.baseTri
  rw [Symbol.visibility_congr_of_reads h, Symbol.defaultTri_congr h]

theorem Symbol.plainTri_congr : s.plainTri U V = s.plainTri U V' := by
  have htype : AgreeOn V V' s.origType.reads := h.left.left.left.left.left.left.left.right
  unfold Symbol.plainTri
  rw [Symbol.baseTri_congr h, exprValue_congr h.left.left.right, exprValue_congr h.left.right,
    typeIn_congr htype]

theorem Symbol.stringValue_congr : s.stringValue U V = s.stringValue U V' := by
  simp only [Symbol.stringValue, Symbol.visibility_congr_of_reads h,
    Symbol.defaultStr_congr h.left.left.left.left.left.right]

theorem Symbol.numberValue_congr : s.numberValue U V = s.numberValue U V' := by
  have hrange := Symbol.activeRange_congr h.left.left.left.left.right
  have hdefault := Symbol.defaultStr_congr h.left.left.left.left.left.right
  have hinRange : s.inRange V = s.inRange V' := by
    funext value
    rw [Symbol.inRange, Symbol.inRange, hrange]
  have hnumber : s.defaultNumber V = s.defaultNumber V' := by
    rw [Symbol.defaultNumber, Symbol.defaultNumber, hdefault, hrange]
  unfold Symbol.numberValue
  rw [hinRange, hnumber, hdefault, Symbol.visibility_congr_of_reads h]

theorem KconfigFiles.triValue_congr (hs : s ∈ K.symbols) (hU : U.Valid K) :
    K.triValue U V s = K.triValue U V' s := by
  unfold KconfigFiles.triValue
  cases hchoice : s.choice with
  | none => exact Symbol.plainTri_congr h
  | some c =>
      have hreads : AgreeOn V V' (K.selectionReads c) :=
        h.right.of_flatMap (by simp [hchoice])
      have hselection : ∀ name ∈ U.selection c.sym, name ∈ c.syms := by
        intro name hname
        rcases hU.selection c (K.mem_choice s hs c hchoice).1 name hname with ⟨s', hs', rfl, hc, _⟩
        exact (K.mem_choice s' hs' c hc).2
      change K.choiceTri U V s c = K.choiceTri U V' s c
      unfold KconfigFiles.choiceTri
      rw [Symbol.visibility_congr_of_reads h, KconfigFiles.selection_congr hreads hselection]

theorem KconfigFiles.symbolValue_congr (hs : s ∈ K.symbols) (hU : U.Valid K) :
    K.symbolValue U V s = K.symbolValue U V' s := by
  simp only [KconfigFiles.symbolValue, KconfigFiles.strValue,
    KconfigFiles.triValue_congr h hs hU, Symbol.stringValue_congr h, Symbol.numberValue_congr h]

end Symbols

theorem KconfigFiles.mem_of_symbol? {name : List Char} {s : Symbol}
    (h : K.symbol? name = some s) : s ∈ K.symbols ∧ s.name = name :=
  ⟨List.mem_of_find?_eq_some h, by simpa using List.find?_some h⟩

/-- The step looks only at what `reads` lists. -/
theorem KconfigFiles.readsOnly_step (hU : U.Valid K) : Equations.ReadsOnly (K.step U) K.reads := by
  intro V V' s h
  unfold KconfigFiles.step
  unfold KconfigFiles.reads at h
  by_cases hconstant : s.isConstant = true
  · rw [if_pos hconstant, if_pos hconstant]
  · rw [if_neg hconstant, if_neg hconstant]
    rw [if_neg hconstant] at h
    cases hsymbol : K.symbol? s.name with
    | some symbol =>
        rw [hsymbol] at h
        exact KconfigFiles.symbolValue_congr h (KconfigFiles.mem_of_symbol? hsymbol).1 hU
    | none =>
        rw [hsymbol] at h
        cases hchoice : K.choices.find? (·.sym = s) with
        | none => rfl
        | some c =>
            rw [hchoice] at h
            simp only [Choice.value, Choice.triValue_congr h]

end Kconfig

end DistroSeed
