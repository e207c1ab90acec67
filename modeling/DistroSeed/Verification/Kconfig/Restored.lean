import Mathlib.Data.List.Nodup
import DistroSeed.Model.KconfigFile
import DistroSeed.Verification.Kconfig.Values

/-! Where `MODULES` is n, the values do not change when the user values are replaced by what is
written out of the values themselves. -/

namespace DistroSeed

namespace Kconfig

/-! ## Without modules -/

section NoModules

variable {K : KconfigFiles} {U U' : UserValues} {V : Sym → SymbolValue}

theorem typeIn_ne_tristate (hmodules : (V Sym.modules).triValue = .n) (origType : SymbolType)
    (mode : Option Tristate) : typeIn V origType mode ≠ .tristate := by
  unfold typeIn
  split_ifs with h
  · decide
  · intro htype
    exact h ⟨htype, Or.inr hmodules⟩

theorem typeIn_eq_bool (hmodules : (V Sym.modules).triValue = .n) {origType : SymbolType}
    (htype : origType.isBoolTristate) (mode : Option Tristate) :
    typeIn V origType mode = .bool := by
  cases origType with
  | bool => rfl
  | tristate => exact if_pos ⟨rfl, Or.inr hmodules⟩
  | unknown | string | int | hex => cases htype

theorem promote_ne_m {type : SymbolType} (h : type ≠ .tristate) (vis : Tristate) :
    promote type vis ≠ .m := by
  unfold promote
  split_ifs with hvis
  · decide
  · intro hm
    exact hvis ⟨hm, h⟩

theorem Choice.visibility_ne_m (hmodules : (V Sym.modules).triValue = .n) (c : Choice) :
    c.visibility V ≠ .m := promote_ne_m (typeIn_ne_tristate hmodules _ _) _

theorem Symbol.visibility_ne_m (hmodules : (V Sym.modules).triValue = .n) (s : Symbol) :
    s.visibility V ≠ .m := by
  simp only [Symbol.visibility]
  split_ifs
  · decide
  · decide
  · exact promote_ne_m (typeIn_ne_tristate hmodules _ _) _

theorem Tristate.eq_y {t : Tristate} (hn : t ≠ .n) (hm : t ≠ .m) : t = .y := by
  cases t with
  | n => exact absurd rfl hn
  | m => exact absurd rfl hm
  | y => rfl

/-- What `tri_value` of a symbol outside choices makes of its base value. -/
def raised (dep base : Tristate) : Tristate :=
  let val := if dep ≠ .n then max dep base else base
  if val = .m then .y else val

theorem raised_ne_m (dep base : Tristate) : raised dep base ≠ .m := by
  cases dep <;> cases base <;> decide

/-- The value raised again stays where it is. -/
theorem raised_raised (dep base : Tristate) : raised dep (raised dep base) = raised dep base := by
  cases dep <;> cases base <;> rfl

variable {s : Symbol}

theorem Symbol.plainTri_eq (hmodules : (V Sym.modules).triValue = .n)
    (htype : s.origType.isBoolTristate) :
    s.plainTri U V = (raised (exprValue V s.revDep) (s.baseTri U V).1,
      (s.baseTri U V).2 || exprValue V s.revDep ≠ .n) := by
  simp only [Symbol.plainTri, raised, typeIn_eq_bool hmodules htype, true_or, and_true]

theorem KconfigFiles.choiceTri_eq (hmodules : (V Sym.modules).triValue = .n) (c : Choice) :
    K.choiceTri U V s c =
      (if s.visibility V ≠ .n ∧ K.selection U V c = some s.name then Tristate.y else Tristate.n,
        decide (s.visibility V ≠ .n)) := by
  unfold KconfigFiles.choiceTri
  by_cases hvis : s.visibility V = .n
  · simp [hvis]
  · rw [Tristate.eq_y hvis (s.visibility_ne_m hmodules)]
    simp

theorem KconfigFiles.triValue_ne_m (hmodules : (V Sym.modules).triValue = .n)
    (htype : s.origType.isBoolTristate) : (K.triValue U V s).1 ≠ .m := by
  unfold KconfigFiles.triValue
  cases hchoice : s.choice with
  | none =>
      change (s.plainTri U V).1 ≠ .m
      rw [Symbol.plainTri_eq hmodules htype]
      exact raised_ne_m _ _
  | some c =>
      change (K.choiceTri U V s c).1 ≠ .m
      rw [KconfigFiles.choiceTri_eq hmodules c]
      change (if _ then Tristate.y else Tristate.n) ≠ .m
      split_ifs <;> decide

end NoModules

/-! ## Restored user values -/

/-- What loading makes of a value that was written. -/
def Symbol.restoredValue (s : Symbol) (written : List Char × Bool) : Option UserValue :=
  if written.2 then (some (s.userValue written.1)).filter s.origType.accepts else none

/-- The user values are those that the values of a configuration give when they are loaded. -/
structure UserValues.Restores (K : KconfigFiles) (U : UserValues) (V : Sym → SymbolValue)
    (U' : UserValues) : Prop where
  value : ∀ s ∈ K.symbols, U'.value s.name = s.restoredValue (K.strValue U V s)
  chosen : ∀ s ∈ K.symbols, ∀ c ∈ s.choice, (V s.sym).triValue = .y →
    U'.selection c.sym = some s.name ∧
      (c.origType.accepts (.tri .y) → U'.mode c.sym = some .y)
  notChosen : ∀ c ∈ K.choices, (∀ s ∈ K.symbols, s.choice = some c → (V s.sym).triValue ≠ .y) →
    U'.selection c.sym = none ∧ U'.mode c.sym = none

/-! ## Symbols outside choices -/

theorem SymbolType.accepts_tri {type : SymbolType} (htype : type.isBoolTristate) {t : Tristate}
    (hm : t ≠ .m) : type.accepts (.tri t) := by
  cases type with
  | bool => simpa [SymbolType.accepts] using hm
  | tristate => rfl
  | unknown | string | int | hex => cases htype

section Symbols

variable {U U' : UserValues} {V : Sym → SymbolValue} {s : Symbol}

theorem Symbol.restoredValue_toStr (htype : s.origType.isBoolTristate) {t : Tristate}
    (hm : t ≠ .m) : s.restoredValue (t.toStr, true) = some (.tri t) := by
  have huser : s.userValue t.toStr = .tri t := by
    cases t <;> simp [Symbol.userValue, htype, Tristate.ofStr, Tristate.toStr]
  simp [Symbol.restoredValue, huser, SymbolType.accepts_tri htype hm]

theorem Symbol.baseTri_of_invisible (hvis : s.visibility V = .n) :
    s.baseTri U V = s.defaultTri V := by
  unfold Symbol.baseTri
  rw [hvis]
  cases hvalue : U.value s.name with
  | none => simp
  | some value => cases value <;> simp

theorem Symbol.baseTri_written (hvis : s.visibility V ≠ .n) : (s.baseTri U V).2 = true := by
  unfold Symbol.baseTri
  cases hvalue : U.value s.name with
  | none => simp [hvis]
  | some value => cases value <;> simp [hvis]

theorem Symbol.baseTri_of_tri (hmodules : (V Sym.modules).triValue = .n)
    (hvis : s.visibility V ≠ .n) {t : Tristate} (hvalue : U.value s.name = some (.tri t)) :
    s.baseTri U V = (t, true) := by
  unfold Symbol.baseTri
  rw [hvalue, Tristate.eq_y hvis (s.visibility_ne_m hmodules)]
  cases t <;> rfl

theorem Symbol.plainTri_restored (hmodules : (V Sym.modules).triValue = .n)
    (htype : s.origType.isBoolTristate)
    (hvalue : U'.value s.name =
      s.restoredValue ((s.plainTri U V).1.toStr, (s.plainTri U V).2)) :
    s.plainTri U' V = s.plainTri U V := by
  by_cases hvis : s.visibility V = .n
  · rw [Symbol.plainTri_eq hmodules htype, Symbol.plainTri_eq hmodules htype,
      Symbol.baseTri_of_invisible hvis, Symbol.baseTri_of_invisible hvis]
  · have hplain : s.plainTri U V = (raised (exprValue V s.revDep) (s.baseTri U V).1, true) := by
      rw [Symbol.plainTri_eq hmodules htype, Symbol.baseTri_written hvis, Bool.true_or]
    rw [hplain, Symbol.restoredValue_toStr htype (raised_ne_m _ _)] at hvalue
    rw [hplain, Symbol.plainTri_eq hmodules htype, Symbol.baseTri_of_tri hmodules hvis hvalue,
      raised_raised, Bool.true_or]

theorem Symbol.stringValue_of_invisible (hvis : s.visibility V = .n) :
    s.stringValue U V = ((s.defaultStr V).getD [], (s.defaultStr V).isSome) := by
  unfold Symbol.stringValue
  rw [hvis]
  cases huser : U.value s.name with
  | none => simp
  | some value => cases value <;> simp

theorem Symbol.stringValue_restored (htype : s.origType = .string)
    (hvalue : U'.value s.name = s.restoredValue (s.stringValue U V)) :
    s.stringValue U' V = s.stringValue U V := by
  by_cases hvis : s.visibility V = .n
  · rw [Symbol.stringValue_of_invisible hvis, Symbol.stringValue_of_invisible hvis]
  · have hwritten : (s.stringValue U V).2 = true := by
      unfold Symbol.stringValue
      cases huser : U.value s.name with
      | none => simp [hvis]
      | some value => cases value <;> simp [hvis]
    have hstr : U'.value s.name = some (.str (s.stringValue U V).1) := by
      rw [hvalue, Symbol.restoredValue, if_pos hwritten]
      simp [Symbol.userValue, htype, SymbolType.isBoolTristate, SymbolType.accepts, Option.filter]
    calc s.stringValue U' V = ((s.stringValue U V).1, true) := by
          rw [Symbol.stringValue, hstr]
          exact if_pos hvis
      _ = s.stringValue U V := by rw [← hwritten]

/-- A visible int or hex symbol has its user value or its default. -/
theorem Symbol.numberValue_cases (hvis : s.visibility V ≠ .n) :
    (∃ value, U.value s.name = some (.str value) ∧ (value ≠ [] ∧ s.inRange V value) ∧
      s.numberValue U V = (value, true)) ∨ s.numberValue U V = (s.defaultNumber V, true) := by
  unfold Symbol.numberValue
  cases huser : U.value s.name with
  | none => exact Or.inr (by simp [hvis])
  | some value =>
      cases value with
      | tri value => exact Or.inr (by simp [hvis])
      | str value =>
          by_cases hvalue : value ≠ [] ∧ s.inRange V value
          · exact Or.inl ⟨value, rfl, hvalue, if_pos ⟨hvis, hvalue⟩⟩
          · have hunused : ¬ (s.visibility V ≠ .n ∧ value ≠ [] ∧ s.inRange V value) :=
              fun h => hvalue h.2
            exact Or.inr ((if_neg hunused).trans (by simp [hvis]))

theorem Symbol.numberValue_of_invisible (hvis : s.visibility V = .n) :
    s.numberValue U V = (s.defaultNumber V, (s.defaultStr V).isSome) := by
  unfold Symbol.numberValue
  rw [hvis]
  cases huser : U.value s.name with
  | none => simp
  | some value => cases value <;> simp

theorem Symbol.numberValue_restored (htype : s.origType = .int ∨ s.origType = .hex)
    (hvalid : ∀ value ∈ U.value s.name, s.origType.accepts value)
    (hvalue : U'.value s.name = s.restoredValue (s.numberValue U V)) :
    s.numberValue U' V = s.numberValue U V := by
  have huserValue : ∀ value, s.userValue value = .str value := by
    intro value
    rcases htype with htype | htype <;> simp [Symbol.userValue, htype, SymbolType.isBoolTristate]
  by_cases hvis : s.visibility V = .n
  · rw [Symbol.numberValue_of_invisible hvis, Symbol.numberValue_of_invisible hvis]
  · have hrestored : ∀ value, s.restoredValue (value, true) =
        (some (UserValue.str value)).filter s.origType.accepts := by
      intro value
      rw [Symbol.restoredValue, if_pos rfl, huserValue]
    rcases Symbol.numberValue_cases (U := U) hvis with ⟨value, huser, hused, heq⟩ | heq
    · rw [heq, hrestored, Option.filter_some, if_pos (hvalid _ huser)] at hvalue
      rw [heq, Symbol.numberValue, hvalue]
      exact if_pos ⟨hvis, hused⟩
    · rw [heq, hrestored, Option.filter_some] at hvalue
      rw [heq]
      -- the default is taken as the user value or, where it is refused or out of range, once more
      rcases Symbol.numberValue_cases (U := U') hvis with ⟨value, huser, _, heq'⟩ | heq'
      · rw [hvalue] at huser
        split_ifs at huser with haccepts
        rw [heq', ← UserValue.str.inj (Option.some.inj huser)]
      · exact heq'

end Symbols

/-! ## Symbols that are never written -/

/-- No symbol that is never written shows a user value. -/
def KconfigFiles.AutoUnset (K : KconfigFiles) (U : UserValues) (V : Sym → SymbolValue) : Prop :=
  ∀ s ∈ K.symbols, K.isAuto s →
    s.origType.isBoolTristate ∨ U.value s.name = none ∨ s.visibility V = .n

section Auto

variable {K : KconfigFiles} {U U' : UserValues} {s : Symbol}

/-- The value `value` of a symbol is restored, whether it is written or not. -/
theorem KconfigFiles.unlessAuto_restored (V : Sym → SymbolValue)
    (value : UserValues → List Char × Bool)
    (hcongr : U'.value s.name = U.value s.name → value U' = value U)
    (hinvisible : s.visibility V = .n → value U' = value U)
    (hrestored : U'.value s.name = s.restoredValue (value U) → value U' = value U)
    (hunset : K.isAuto s → U.value s.name = none ∨ s.visibility V = .n)
    (hvalue : U'.value s.name = s.restoredValue (K.unlessAuto s (value U))) :
    K.unlessAuto s (value U') = K.unlessAuto s (value U) := by
  by_cases hauto : K.isAuto s
  · rcases hunset hauto with hnone | hvis
    · have hlost : U'.value s.name = none := by
        rw [hvalue]
        simp [KconfigFiles.unlessAuto, hauto, Symbol.restoredValue]
      rw [hcongr (hlost.trans hnone.symm)]
    · rw [hinvisible hvis]
  · have hsame : K.unlessAuto s (value U) = value U := by
      simp [KconfigFiles.unlessAuto, hauto]
    rw [hsame] at hvalue
    rw [hrestored hvalue]

end Auto

/-! ## The equations -/

section Equations

variable {K : KconfigFiles} {U U' : UserValues} {V : Sym → SymbolValue}

theorem KconfigFiles.symbol?_name {s : Symbol} (hs : s ∈ K.symbols) : K.symbol? s.name = some s := by
  cases hsymbol : K.symbol? s.name with
  | none => simpa using List.find?_eq_none.mp hsymbol s hs
  | some s' =>
      rcases KconfigFiles.mem_of_symbol? hsymbol with ⟨hs', hname⟩
      rw [List.inj_on_of_nodup_map K.names_nodup hs' hs hname]

theorem KconfigFiles.strValue_eq_toStr {s : Symbol} (htype : s.origType.isBoolTristate) :
    K.strValue U V s = ((K.triValue U V s).1.toStr, (K.triValue U V s).2) := by
  cases horig : s.origType with
  | bool | tristate => simp only [KconfigFiles.strValue, horig]
  | unknown | string | int | hex => simp [horig, SymbolType.isBoolTristate] at htype

theorem KconfigFiles.step_sym {s : Symbol} (hs : s ∈ K.symbols) :
    K.step U V s.sym = K.symbolValue U V s := by
  have hsymbol : K.symbol? s.sym.name = some s := KconfigFiles.symbol?_name hs
  rw [KconfigFiles.step, hsymbol]
  rfl

theorem KconfigFiles.step_choice {c : Choice} (hc : c ∈ K.choices) :
    K.step U V c.sym = c.value U V := by
  rcases K.choice_sym c hc with ⟨hconstant, hname⟩
  have hsymbol : K.symbol? c.sym.name = none := by
    cases hsymbol : K.symbol? c.sym.name with
    | none => rfl
    | some s =>
        rcases KconfigFiles.mem_of_symbol? hsymbol with ⟨hs, heq⟩
        rw [← heq, K.name_isIdChar s hs] at hname
        cases hname
  have hchoice : K.choices.find? (·.sym = c.sym) = some c := by
    cases hchoice : K.choices.find? (·.sym = c.sym) with
    | none => simpa using List.find?_eq_none.mp hchoice c hc
    | some c' =>
        have hsym : c'.sym = c.sym := by simpa using List.find?_some hchoice
        rw [List.inj_on_of_nodup_map K.choices_nodup (List.mem_of_find?_eq_some hchoice) hc hsym]
  rw [KconfigFiles.step, hsymbol, hchoice, hconstant]
  rfl

/-- The equation of a symbol looks at the user values only for symbols and choices. -/
theorem KconfigFiles.step_congr (hsymbols : ∀ s ∈ K.symbols,
      K.symbolValue U V s = K.symbolValue U' V s)
    (hchoices : ∀ c ∈ K.choices, c.value U V = c.value U' V) : K.step U V = K.step U' V := by
  funext s
  unfold KconfigFiles.step
  split_ifs
  · rfl
  · cases hsymbol : K.symbol? s.name with
    | some symbol => exact hsymbols symbol (KconfigFiles.mem_of_symbol? hsymbol).1
    | none =>
        cases hchoice : K.choices.find? (·.sym = s) with
        | some c => exact hchoices c (List.mem_of_find?_eq_some hchoice)
        | none => rfl

end Equations

/-! ## Choices -/

section Choices

variable {K : KconfigFiles} {U U' : UserValues} {V : Sym → SymbolValue} {c : Choice} {s : Symbol}

theorem UserValues.Valid.mode_eq_none (hU : U.Valid K) (hc : c ∈ K.choices)
    (htype : ¬ c.origType.isBoolTristate) : U.mode c.sym = none := by
  cases hmode : U.mode c.sym with
  | none => rfl
  | some mode =>
      have haccepts := hU.mode c hc mode hmode
      cases horig : c.origType with
      | bool | tristate => exact absurd (by rw [horig]; rfl) htype
      | unknown | string | int | hex => simp [horig, SymbolType.accepts] at haccepts

/-- A choice is in y mode or in n mode. -/
theorem Choice.triValue_eq (hmodules : (V Sym.modules).triValue = .n)
    (htype : c.origType.isBoolTristate) :
    c.triValue U V =
      if c.visibility V ≠ .n ∧ (c.isOptional → ∃ mode ∈ U.mode c.sym, mode ≠ .n) then .y
      else .n := by
  by_cases hvis : c.visibility V = .n
  · have hmin : ∀ val : Tristate, min val .n = .n := by
      intro val
      cases val <;> rfl
    simp [Choice.triValue, hvis, hmin]
  · have hmin : ∀ val : Tristate, min val .y = val := by
      intro val
      cases val <;> rfl
    simp only [Choice.triValue, Tristate.eq_y hvis (c.visibility_ne_m hmodules), hmin,
      typeIn_eq_bool hmodules htype]
    cases hmode : U.mode c.sym with
    | none => cases c.isOptional <;> simp
    | some mode =>
        simp only [Option.mem_def, Option.some.injEq, exists_eq_left']
        cases c.isOptional <;> cases mode <;> decide

variable (hmodules : (V Sym.modules).triValue = .n) (hsolves : Equations.Solves (K.step U) V)

include hsolves

theorem KconfigFiles.value_sym (hs : s ∈ K.symbols) : V s.sym = K.symbolValue U V s :=
  (hsolves s.sym).trans (KconfigFiles.step_sym hs)

theorem KconfigFiles.value_choice (hc : c ∈ K.choices) : V c.sym = c.value U V :=
  (hsolves c.sym).trans (KconfigFiles.step_choice hc)

include hmodules

/-- The symbol of a choice that is y. -/
theorem KconfigFiles.choiceSymbol_eq_y_iff (hs : s ∈ K.symbols) (hc : s.choice = some c) :
    (V s.sym).triValue = .y ↔
      s.origType.isBoolTristate ∧ s.visibility V ≠ .n ∧ K.selection U V c = some s.name := by
  rw [KconfigFiles.value_sym hsolves hs]
  by_cases htype : s.origType.isBoolTristate
  · have htri : (K.triValue U V s).1 =
        if s.visibility V ≠ .n ∧ K.selection U V c = some s.name then .y else .n := by
      unfold KconfigFiles.triValue
      rw [hc]
      change (K.choiceTri U V s c).1 = _
      rw [KconfigFiles.choiceTri_eq hmodules c]
    simp [KconfigFiles.symbolValue, htype, htri]
  · simp [KconfigFiles.symbolValue, htype]

theorem KconfigFiles.choice_eq_y (hs : s ∈ K.symbols) (hc : s.choice = some c)
    (hy : (V s.sym).triValue = .y) : (V c.sym).triValue = .y := by
  have hselection :=
    ((KconfigFiles.choiceSymbol_eq_y_iff hmodules hsolves hs hc).mp hy).2.2
  by_contra hne
  simp [KconfigFiles.selection, hne] at hselection

variable (hU : U.Valid K) (hrestores : U.Restores K V U')

include hU hrestores

theorem KconfigFiles.selection_restored (hc : c ∈ K.choices) :
    K.selection U' V c = K.selection U V c := by
  by_cases hmode : (V c.sym).triValue = .y
  · by_cases hchosen : ∃ s ∈ K.symbols, s.choice = some c ∧ (V s.sym).triValue = .y
    · -- the symbol that is y was selected and visible, and it is the user selection now
      rcases hchosen with ⟨s, hs, hsc, hy⟩
      rcases (KconfigFiles.choiceSymbol_eq_y_iff hmodules hsolves hs hsc).mp hy with
        ⟨_, hvis, hselection⟩
      have hvisible : K.visible V s.name := by
        simp [KconfigFiles.visible, KconfigFiles.symbol?_name hs, hvis]
      rw [hselection, KconfigFiles.selection, if_neg (not_not.mpr hmode),
        (hrestores.chosen s hs c hsc hy).1, Option.filter_some, if_pos hvisible]
    · -- a visible user selection would be y, so the defaults count in both cases
      have hnone : (U.selection c.sym).filter (K.visible V) = none := by
        cases hname : U.selection c.sym with
        | none => rfl
        | some name =>
            rw [Option.filter_some]
            refine if_neg fun hvisible => hchosen ?_
            rcases hU.selection c hc name hname with ⟨s, hs, rfl, hsc, htype⟩
            have hvis : s.visibility V ≠ .n := by
              simpa [KconfigFiles.visible, KconfigFiles.symbol?_name hs] using hvisible
            have hselection : K.selection U V c = some s.name := by
              rw [KconfigFiles.selection, if_neg (not_not.mpr hmode), hname, Option.filter_some,
                if_pos hvisible]
            exact ⟨s, hs, hsc, (KconfigFiles.choiceSymbol_eq_y_iff hmodules hsolves hs hsc).mpr
              ⟨htype, hvis, hselection⟩⟩
      have hrestored : U'.selection c.sym = none :=
        (hrestores.notChosen c hc fun s hs hsc hy => hchosen ⟨s, hs, hsc, hy⟩).1
      rw [KconfigFiles.selection, KconfigFiles.selection, hnone, hrestored]
      rfl
  · rw [KconfigFiles.selection, KconfigFiles.selection, if_pos hmode, if_pos hmode]

/-- The mode of a choice follows from its symbols, unless it is optional and shows none of them. -/
theorem Choice.value_restored (hU' : U'.Valid K) (hc : c ∈ K.choices)
    (hoptional : c.isOptional → (V c.sym).triValue = .y →
      ∃ s ∈ K.symbols, s.choice = some c ∧ (V s.sym).triValue = .y) :
    c.value U' V = c.value U V := by
  have hvalue := KconfigFiles.value_choice hsolves hc
  have htri : c.triValue U' V = c.triValue U V := by
    by_cases htype : c.origType.isBoolTristate
    · have hmode : (V c.sym).triValue = c.triValue U V := by rw [hvalue, Choice.value]
      by_cases hchosen : ∃ s ∈ K.symbols, s.choice = some c ∧ (V s.sym).triValue = .y
      · rcases hchosen with ⟨s, hs, hsc, hy⟩
        have hcy := KconfigFiles.choice_eq_y hmodules hsolves hs hsc hy
        have hvis : c.visibility V ≠ .n := by
          rw [hmode, Choice.triValue_eq hmodules htype] at hcy
          split_ifs at hcy with h
          exact h.1
        have hrestored :=
          (hrestores.chosen s hs c hsc hy).2 (SymbolType.accepts_tri htype (by decide))
        rw [← hmode, hcy, Choice.triValue_eq hmodules htype]
        exact if_pos ⟨hvis, fun _ => ⟨.y, hrestored, by decide⟩⟩
      · have hrestored : U'.mode c.sym = none :=
          (hrestores.notChosen c hc fun s hs hsc hy => hchosen ⟨s, hs, hsc, hy⟩).2
        by_cases hopt : c.isOptional
        · have hne : c.triValue U V ≠ .y := fun hy => hchosen (hoptional hopt (hmode.trans hy))
          rw [Choice.triValue_eq hmodules htype] at hne ⊢
          rw [Choice.triValue_eq hmodules htype, if_neg fun h => hne (if_pos h), if_neg]
          rintro ⟨_, hexists⟩
          rcases hexists hopt with ⟨mode, hmem, _⟩
          rw [hrestored] at hmem
          cases hmem
        · simp [Choice.triValue_eq hmodules htype, hopt]
    · rw [Choice.triValue, Choice.triValue, hU.mode_eq_none hc htype, hU'.mode_eq_none hc htype]
  rw [Choice.value, Choice.value, htri]

end Choices

/-! ## The whole configuration -/

section Whole

variable {K : KconfigFiles} {U U' : UserValues} {V : Sym → SymbolValue}
  (hmodules : (V Sym.modules).triValue = .n) (hsolves : Equations.Solves (K.step U) V)
  (hU : U.Valid K) (hrestores : U.Restores K V U')

include hmodules hsolves hU hrestores

theorem KconfigFiles.triValue_restored {s : Symbol} (hs : s ∈ K.symbols)
    (htype : s.origType.isBoolTristate) : K.triValue U' V s = K.triValue U V s := by
  have hvalue := hrestores.value s hs
  rw [KconfigFiles.strValue_eq_toStr htype] at hvalue
  unfold KconfigFiles.triValue at hvalue ⊢
  cases hchoice : s.choice with
  | none =>
      rw [hchoice] at hvalue
      exact Symbol.plainTri_restored hmodules htype hvalue
  | some c =>
      have hselection := KconfigFiles.selection_restored hmodules hsolves hU hrestores
        (K.mem_choice s hs c hchoice).1
      change K.choiceTri U' V s c = K.choiceTri U V s c
      rw [KconfigFiles.choiceTri_eq hmodules, KconfigFiles.choiceTri_eq hmodules, hselection]

/-- The text of a symbol and whether it is written stay the same. -/
theorem KconfigFiles.strValue_restored (hauto : K.AutoUnset U V) {s : Symbol} (hs : s ∈ K.symbols) :
    K.strValue U' V s = K.strValue U V s := by
  have hvalue := hrestores.value s hs
  have htri := KconfigFiles.triValue_restored hmodules hsolves hU hrestores hs
  have hunset : ¬ s.origType.isBoolTristate → K.isAuto s →
      U.value s.name = none ∨ s.visibility V = .n :=
    fun htype h => (hauto s hs h).resolve_left htype
  have hnumber : s.origType = .int ∨ s.origType = .hex →
      U'.value s.name = s.restoredValue (K.unlessAuto s (s.numberValue U V)) →
      K.unlessAuto s (s.numberValue U' V) = K.unlessAuto s (s.numberValue U V) := by
    intro htype
    refine KconfigFiles.unlessAuto_restored V (fun user => s.numberValue user V) ?_ ?_ ?_ ?_
    · intro h
      simp only [Symbol.numberValue, h]
    · intro hvis
      exact (Symbol.numberValue_of_invisible hvis).trans (Symbol.numberValue_of_invisible hvis).symm
    · exact Symbol.numberValue_restored htype (hU.value s hs)
    · apply hunset
      rcases htype with htype | htype <;> simp [htype, SymbolType.isBoolTristate]
  unfold KconfigFiles.strValue at hvalue ⊢
  cases horig : s.origType with
  | bool | tristate => rw [htri (by rw [horig]; rfl)]
  | unknown => rfl
  | string =>
      rw [horig] at hvalue
      refine KconfigFiles.unlessAuto_restored V (fun user => s.stringValue user V)
        ?_ ?_ (Symbol.stringValue_restored horig) ?_ hvalue
      · intro h
        simp only [Symbol.stringValue, h]
      · intro hvis
        exact (Symbol.stringValue_of_invisible hvis).trans
          (Symbol.stringValue_of_invisible hvis).symm
      · exact hunset (by simp [horig, SymbolType.isBoolTristate])
  | int =>
      rw [horig] at hvalue
      exact hnumber (Or.inl horig) hvalue
  | hex =>
      rw [horig] at hvalue
      exact hnumber (Or.inr horig) hvalue

/-- The values solve the equations under the restored user values too. -/
theorem KconfigFiles.solves_restored (hauto : K.AutoUnset U V) (hU' : U'.Valid K)
    (hoptional : ∀ c ∈ K.choices, c.isOptional → (V c.sym).triValue = .y →
      ∃ s ∈ K.symbols, s.choice = some c ∧ (V s.sym).triValue = .y) :
    Equations.Solves (K.step U') V := by
  have hstep : K.step U' V = K.step U V := by
    apply KconfigFiles.step_congr
    · intro s hs
      rw [KconfigFiles.symbolValue, KconfigFiles.symbolValue,
        KconfigFiles.strValue_restored hmodules hsolves hU hrestores hauto hs]
      by_cases htype : s.origType.isBoolTristate
      · rw [KconfigFiles.triValue_restored hmodules hsolves hU hrestores hs htype]
      · rw [if_neg htype, if_neg htype]
    · intro c hc
      exact Choice.value_restored hmodules hsolves hU hrestores hU' hc (hoptional c hc)
  intro s
  rw [hstep]
  exact hsolves s

end Whole

end Kconfig

end DistroSeed
