import DistroSeed.Library.Folds
import DistroSeed.Verification.Kconfig.ConfigText

/-! A configuration that is written and loaded again has the values that it had. -/

namespace DistroSeed

namespace Kconfig

/-- What a load has done to the symbol of a name. -/
def Loading.symbolView (name : List Char) (l : Loading) : Option UserValue × Bool :=
  (l.user.value name, l.symWasSet.contains name)

/-- What a load has done to a choice. -/
def Loading.choiceView (c : Sym) (l : Loading) : Option Tristate × Option (List Char) × Bool :=
  (l.user.mode c, l.user.selection c, c ∈ l.choiceWasSet)

/-! ## Setting a value -/

section SetValue

variable {K : KconfigFiles} {l : Loading} {s : Symbol} {c : Choice} {value : List Char}

/-- The choice whose selection a symbol becomes with a value. -/
def Symbol.picks (s : Symbol) (value : UserValue) : Option Choice :=
  if value = .tri .y then s.choice else none

/-- The user values when a value is accepted. -/
def Symbol.store (s : Symbol) (value : UserValue) (user : UserValues) : UserValues where
  value := Function.update user.value s.name (some value)
  mode := user.mode
  selection := match s.picks value with
    | some c => Function.update user.selection c.sym (some s.name)
    | none => user.selection

/-- What `set_value` can do: the value is there already, or it is stored, or it is refused. -/
theorem Symbol.setValue_cases (s : Symbol) (value : List Char) (l : Loading) :
    (l.user.value s.name = some (s.userValue value) ∧ s.choice = none ∧
        s.setValue value l = { l with symWasSet := s.name :: l.symWasSet }) ∨
      (s.origType.accepts (s.userValue value) ∧
        s.setValue value l = ⟨s.store (s.userValue value) l.user, s.name :: l.symWasSet,
          ((s.picks (s.userValue value)).toList.map (·.sym)) ++ l.choiceWasSet⟩) ∨
      (¬ s.origType.accepts (s.userValue value) ∧ s.setValue value l = l) := by
  unfold Symbol.setValue
  dsimp only
  by_cases hsame : l.user.value s.name = some (s.userValue value) ∧ s.choice = none
  · exact Or.inl ⟨hsame.1, hsame.2, if_pos hsame⟩
  · rw [if_neg hsame]
    by_cases haccepts : s.origType.accepts (s.userValue value)
    · right
      left
      rw [if_pos haccepts]
      refine ⟨haccepts, ?_⟩
      unfold Symbol.store Symbol.picks
      by_cases hy : s.userValue value = .tri .y
      · rw [if_pos hy]
        cases s.choice with
        | none => rfl
        | some c => exact if_pos hy
      · rw [if_neg hy]
        cases s.choice with
        | none => rfl
        | some c => exact if_neg hy
    · exact Or.inr (Or.inr ⟨haccepts, if_neg haccepts⟩)

theorem Symbol.symbolView_setValue_of_ne {name : List Char} (h : name ≠ s.name) :
    (s.setValue value l).symbolView name = l.symbolView name := by
  rcases s.setValue_cases value l with ⟨_, _, heq⟩ | ⟨_, heq⟩ | ⟨_, heq⟩
  · simp [heq, Loading.symbolView, h]
  · simp [heq, Loading.symbolView, Symbol.store, h]
  · rw [heq]

/-- An accepted value is the user value then. -/
theorem Symbol.symbolView_setValue (h : s.origType.accepts (s.userValue value)) :
    (s.setValue value l).symbolView s.name = (some (s.userValue value), true) := by
  rcases s.setValue_cases value l with ⟨hsame, _, heq⟩ | ⟨_, heq⟩ | ⟨hrefused, _⟩
  · simp [heq, Loading.symbolView, hsame]
  · simp [heq, Loading.symbolView, Symbol.store]
  · exact absurd h hrefused

/-- A value that is refused changes nothing. -/
theorem Symbol.setValue_of_refused (hvalid : l.user.Valid K) (hs : s ∈ K.symbols)
    (h : ¬ s.origType.accepts (s.userValue value)) : s.setValue value l = l := by
  rcases s.setValue_cases value l with ⟨hsame, _, _⟩ | ⟨haccepts, _⟩ | ⟨_, heq⟩
  · exact absurd (hvalid.value s hs _ hsame) h
  · exact absurd haccepts h
  · exact heq

theorem Symbol.choiceView_setValue_of_ne {x : Sym}
    (h : ∀ c ∈ s.picks (s.userValue value), c.sym ≠ x) :
    (s.setValue value l).choiceView x = l.choiceView x := by
  rcases s.setValue_cases value l with ⟨_, _, heq⟩ | ⟨_, heq⟩ | ⟨_, heq⟩
  · rw [heq]
    rfl
  · rw [heq]
    cases hpicks : s.picks (s.userValue value) with
    | none => simp [Loading.choiceView, Symbol.store, hpicks]
    | some c => simp [Loading.choiceView, Symbol.store, hpicks, Ne.symm (h c hpicks)]
  · rw [heq]

/-- A symbol of a choice that is set to y is the selection of the choice then. -/
theorem Symbol.choiceView_setValue (hpicks : s.picks (s.userValue value) = some c)
    (h : s.origType.accepts (s.userValue value)) :
    (s.setValue value l).choiceView c.sym = (l.user.mode c.sym, some s.name, true) := by
  rcases s.setValue_cases value l with ⟨_, hnone, _⟩ | ⟨_, heq⟩ | ⟨hrefused, _⟩
  · simp [Symbol.picks, hnone] at hpicks
  · simp [heq, Loading.choiceView, Symbol.store, hpicks]
  · exact absurd h hrefused

theorem Choice.symbolView_setValue (name : List Char) :
    (c.setValue value l).symbolView name = l.symbolView name := by
  unfold Choice.setValue
  cases Tristate.ofStr value with
  | none => rfl
  | some mode =>
      dsimp only
      split_ifs <;> rfl

theorem Choice.choiceView_setValue_of_ne {x : Sym} (h : c.sym ≠ x) :
    (c.setValue value l).choiceView x = l.choiceView x := by
  unfold Choice.setValue
  cases Tristate.ofStr value with
  | none => rfl
  | some mode =>
      dsimp only
      split_ifs <;> simp [Loading.choiceView, Ne.symm h]

theorem Choice.mode_setValue {mode : Tristate} (hvalue : Tristate.ofStr value = some mode)
    (h : c.origType.accepts (.tri mode)) : (c.setValue value l).user.mode c.sym = some mode := by
  unfold Choice.setValue
  rw [hvalue]
  dsimp only
  split_ifs with hsame
  · exact hsame
  · simp

end SetValue

/-! ## User values stay valid -/

section Valid

variable {K : KconfigFiles} {l : Loading} {s : Symbol} {c : Choice}

theorem Choice.setValue_valid (hvalid : l.user.Valid K) (hc : c ∈ K.choices) (value : List Char) :
    (c.setValue value l).user.Valid K := by
  unfold Choice.setValue
  cases Tristate.ofStr value with
  | none => exact hvalid
  | some mode =>
      dsimp only
      split_ifs with hsame haccepts
      · exact hvalid
      · refine ⟨hvalid.value, ?_, hvalid.selection⟩
        intro c' hc' mode' hmode'
        by_cases heq : c'.sym = c.sym
        · have hmode : mode = mode' := by simpa [heq] using hmode'
          rwa [List.inj_on_of_nodup_map K.choices_nodup hc' hc heq, ← hmode]
        · exact hvalid.mode c' hc' mode' (by simpa [heq] using hmode')
      · exact hvalid

theorem Symbol.store_valid (hvalid : l.user.Valid K) (hs : s ∈ K.symbols) {value : UserValue}
    (haccepts : s.origType.accepts value) : (s.store value l.user).Valid K where
  value s' hs' v hv := by
    by_cases heq : s'.name = s.name
    · have hval : value = v := by simpa [Symbol.store, heq] using hv
      rwa [List.inj_on_of_nodup_map K.names_nodup hs' hs heq, ← hval]
    · exact hvalid.value s' hs' v (by simpa [Symbol.store, heq] using hv)
  mode := hvalid.mode
  selection c' hc' name hname := by
    cases hpicks : s.picks value with
    | none => exact hvalid.selection c' hc' name (by simpa [Symbol.store, hpicks] using hname)
    | some c =>
        by_cases heq : c'.sym = c.sym
        · have hnames : s.name = name := by simpa [Symbol.store, hpicks, heq] using hname
          unfold Symbol.picks at hpicks
          split_ifs at hpicks with hy
          have hcc' := List.inj_on_of_nodup_map K.choices_nodup hc'
            (K.mem_choice s hs c hpicks).1 heq
          refine ⟨s, hs, hnames, by rw [hpicks, hcc'], ?_⟩
          rw [hy] at haccepts
          cases horig : s.origType with
          | bool | tristate => rfl
          | unknown | string | int | hex => simp [horig, SymbolType.accepts] at haccepts
        · exact hvalid.selection c' hc' name (by simpa [Symbol.store, hpicks, heq] using hname)

theorem Symbol.setValue_valid (hvalid : l.user.Valid K) (hs : s ∈ K.symbols) (value : List Char) :
    (s.setValue value l).user.Valid K := by
  rcases s.setValue_cases value l with ⟨_, _, heq⟩ | ⟨haccepts, heq⟩ | ⟨_, heq⟩
  · rw [heq]
    exact hvalid
  · rw [heq]
    exact Symbol.store_valid hvalid hs haccepts
  · rw [heq]
    exact hvalid

theorem Symbol.restore_valid (hvalid : l.user.Valid K) (hs : s ∈ K.symbols) (val : List Char) :
    (s.restore val l).user.Valid K := by
  unfold Symbol.restore
  cases hchoice : s.choice with
  | none => exact Symbol.setValue_valid hvalid hs val
  | some c =>
      dsimp only
      split_ifs
      · exact Symbol.setValue_valid
          (Choice.setValue_valid hvalid (K.mem_choice s hs c hchoice).1 val) hs val
      · exact Symbol.setValue_valid hvalid hs val

theorem Symbol.assign_valid (hvalid : l.user.Valid K) (hs : s ∈ K.symbols) (val : List Char) :
    (s.assign val l).user.Valid K := by
  unfold Symbol.assign
  by_cases htype : s.origType.isBoolTristate
  · rw [if_pos htype]
    cases s.origType.readTristate val with
    | none => exact hvalid
    | some val =>
        cases hchoice : s.choice with
        | none => exact Symbol.setValue_valid hvalid hs val
        | some c =>
            dsimp only
            split_ifs
            · exact Symbol.setValue_valid
                (Choice.setValue_valid hvalid (K.mem_choice s hs c hchoice).1 val) hs val
            · exact Symbol.setValue_valid hvalid hs val
  · rw [if_neg htype]
    by_cases hstring : s.origType = .string
    · rw [if_pos hstring]
      cases confStringMatch val with
      | none => exact hvalid
      | some val => exact Symbol.setValue_valid hvalid hs _
    · rw [if_neg hstring]
      exact Symbol.setValue_valid hvalid hs val

theorem Symbol.unassign_valid (hvalid : l.user.Valid K) (hs : s ∈ K.symbols) :
    (s.unassign l).user.Valid K := by
  unfold Symbol.unassign
  split_ifs
  · exact Symbol.setValue_valid hvalid hs _
  · exact hvalid

theorem KconfigFiles.loadLine_valid (hvalid : l.user.Valid K) (line : List Char) :
    (K.loadLine l line).user.Valid K := by
  simp only [KconfigFiles.loadLine]
  split
  · split
    · rename_i s hsymbol
      exact Symbol.assign_valid hvalid (KconfigFiles.mem_of_symbol? hsymbol).1 _
    · exact hvalid
  · split
    · rename_i s hsymbol
      exact Symbol.unassign_valid hvalid (KconfigFiles.mem_of_symbol? hsymbol).1
    · exact hvalid
  · exact hvalid

theorem KconfigFiles.unsetRest_valid (hvalid : l.user.Valid K) : (K.unsetRest l).Valid K where
  value s hs value hvalue := by
    simp only [KconfigFiles.unsetRest, Option.mem_def] at hvalue
    split_ifs at hvalue
    exact hvalid.value s hs value hvalue
  mode c hc mode hmode := by
    simp only [KconfigFiles.unsetRest, Option.mem_def] at hmode
    split_ifs at hmode
    exact hvalid.mode c hc mode hmode
  selection c hc name hname := by
    simp only [KconfigFiles.unsetRest, Option.mem_def] at hname
    split_ifs at hname
    exact hvalid.selection c hc name hname

/-- Whatever the file is, a load leaves valid user values. -/
theorem KconfigFiles.loadConfig_valid {U : UserValues} (hU : U.Valid K) (text : List Char) :
    (K.loadConfig U text).Valid K := by
  apply KconfigFiles.unsetRest_valid
  exact Folds.foldl_inv (fun l : Loading => l.user.Valid K)
    (fun line _ l hl => KconfigFiles.loadLine_valid hl line) hU

end Valid

/-! ## Restoring the symbols -/

section Restore

variable {K : KconfigFiles} {l : Loading} {s : Symbol} {c : Choice} {val : List Char}

theorem Symbol.symbolView_restore_of_ne {name : List Char} (h : name ≠ s.name) :
    (s.restore val l).symbolView name = l.symbolView name := by
  unfold Symbol.restore
  cases s.choice with
  | none => exact Symbol.symbolView_setValue_of_ne h
  | some c =>
      dsimp only
      rw [Symbol.symbolView_setValue_of_ne h]
      split_ifs
      · exact Choice.symbolView_setValue name
      · rfl

/-- The user value of the symbol, if its text is accepted. -/
theorem Symbol.symbolView_restore (hvalid : l.user.Valid K) (hs : s ∈ K.symbols) :
    (s.restore val l).symbolView s.name =
      if s.origType.accepts (s.userValue val) then (some (s.userValue val), true)
      else l.symbolView s.name := by
  split_ifs with haccepts
  · unfold Symbol.restore
    cases s.choice with
    | none => exact Symbol.symbolView_setValue haccepts
    | some c => exact Symbol.symbolView_setValue haccepts
  · unfold Symbol.restore
    cases hchoice : s.choice with
    | none =>
        dsimp only
        rw [Symbol.setValue_of_refused hvalid hs haccepts]
    | some c =>
        dsimp only
        split_ifs
        · rw [Symbol.setValue_of_refused
            (Choice.setValue_valid hvalid (K.mem_choice s hs c hchoice).1 val) hs haccepts]
          exact Choice.symbolView_setValue _
        · rw [Symbol.setValue_of_refused hvalid hs haccepts]

/-- The value of a bool or tristate symbol is n or y. -/
def Symbol.IsRestorable (s : Symbol) (val : List Char) : Prop :=
  s.origType.isBoolTristate → val = ['n'] ∨ val = ['y']

theorem Symbol.picks_eq_some_iff (hval : s.IsRestorable val) :
    s.picks (s.userValue val) = some c ↔
      s.choice = some c ∧ s.origType.isBoolTristate ∧ val ≠ ['n'] := by
  unfold Symbol.picks Symbol.userValue
  by_cases htype : s.origType.isBoolTristate
  · rw [if_pos htype]
    rcases hval htype with rfl | rfl <;> simp [Tristate.ofStr, htype]
  · simp [htype]

theorem Symbol.choiceView_restore_of_ne {x : Sym} (hval : s.IsRestorable val)
    (h : ∀ c ∈ s.picks (s.userValue val), c.sym ≠ x) :
    (s.restore val l).choiceView x = l.choiceView x := by
  unfold Symbol.restore
  cases hchoice : s.choice with
  | none => exact Symbol.choiceView_setValue_of_ne h
  | some c =>
      dsimp only
      rw [Symbol.choiceView_setValue_of_ne h]
      split_ifs with hset
      · exact Choice.choiceView_setValue_of_ne
          (h c ((Symbol.picks_eq_some_iff hval).mpr ⟨hchoice, hset⟩))
      · rfl

/-- A symbol of a choice that is y is selected, and the mode of the choice is y. -/
theorem Symbol.choiceView_restore (hval : s.IsRestorable val)
    (hpicks : s.picks (s.userValue val) = some c) :
    (s.restore val l).user.selection c.sym = some s.name ∧
      c.sym ∈ (s.restore val l).choiceWasSet ∧
      (c.origType.accepts (.tri .y) → (s.restore val l).user.mode c.sym = some .y) := by
  rcases (Symbol.picks_eq_some_iff hval).mp hpicks with ⟨hchoice, htype, hne⟩
  have hy : val = ['y'] := (hval htype).resolve_left hne
  have huser : s.userValue val = .tri .y := by
    rw [Symbol.userValue, if_pos htype, hy]
    rfl
  have haccepts : s.origType.accepts (s.userValue val) := by
    rw [huser]
    exact SymbolType.accepts_tri htype (by decide)
  have hrestore : s.restore val l = s.setValue val (c.setValue val l) := by
    rw [Symbol.restore, hchoice]
    exact congrArg (s.setValue val) (if_pos ⟨htype, hne⟩)
  have hview := Symbol.choiceView_setValue (l := c.setValue val l) hpicks haccepts
  rw [← hrestore] at hview
  simp only [Loading.choiceView, Prod.mk.injEq, decide_eq_true_eq] at hview
  refine ⟨hview.2.1, hview.2.2, fun hmode => ?_⟩
  rw [hview.1]
  exact Choice.mode_setValue (by rw [hy]; rfl) hmode

end Restore

/-! ## Loading what was written -/

section Run

variable {K : KconfigFiles} {U : UserValues} {V : Sym → SymbolValue} {s : Symbol} {c : Choice}

theorem KconfigFiles.restoreNamed_valid {l : Loading} (hvalid : l.user.Valid K)
    (name : List Char) : (K.restoreNamed U V l name).user.Valid K := by
  unfold KconfigFiles.restoreNamed
  cases hsymbol : K.symbol? name with
  | none => exact hvalid
  | some s =>
      dsimp only
      split_ifs
      · exact Symbol.restore_valid hvalid (KconfigFiles.mem_of_symbol? hsymbol).1 _
      · exact hvalid

/-- Every symbol is restored where its own line is loaded. -/
theorem KconfigFiles.symbolView_run {U₀ : UserValues} {names : List (List Char)}
    (hnodup : names.Nodup) (hU₀ : U₀.Valid K)
    (hs : s ∈ K.symbols) (hmem : s.name ∈ names) :
    (names.foldl (K.restoreNamed U V) ⟨U₀, [], []⟩).symbolView s.name =
      if (K.strValue U V s).2 ∧ s.origType.accepts (s.userValue (K.strValue U V s).1) then
        (some (s.userValue (K.strValue U V s).1), true)
      else (U₀.value s.name, false) := by
  have hframe : ∀ name ∈ names, name ≠ s.name → ∀ l : Loading, l.user.Valid K →
      (K.restoreNamed U V l name).symbolView s.name = l.symbolView s.name := by
    intro name _ hne l _
    unfold KconfigFiles.restoreNamed
    cases hsymbol : K.symbol? name with
    | none => rfl
    | some s' =>
        have hname : s.name ≠ s'.name := by
          rw [(KconfigFiles.mem_of_symbol? hsymbol).2]
          exact Ne.symm hne
        dsimp only
        split_ifs
        · exact Symbol.symbolView_restore_of_ne hname
        · rfl
  rcases Folds.foldl_frame_but (fun l : Loading => l.user.Valid K) (Loading.symbolView s.name)
    hnodup hmem (fun name _ l hl => KconfigFiles.restoreNamed_valid hl name) hframe
    (b := (⟨U₀, [], []⟩ : Loading)) hU₀ with ⟨l, hl, hview, hrun⟩
  have hstart : Loading.symbolView s.name ⟨U₀, [], []⟩ = (U₀.value s.name, false) := by
    simp [Loading.symbolView]
  rw [hrun, KconfigFiles.restoreNamed, KconfigFiles.symbol?_name hs]
  dsimp only
  by_cases hwritten : (K.strValue U V s).2 = true
  · rw [if_pos hwritten, Symbol.symbolView_restore hl hs, hview, hstart]
    simp [hwritten]
  · rw [if_neg hwritten, hview, hstart, if_neg fun h => hwritten h.1]

variable (hmodules : (V Sym.modules).triValue = .n)

include hmodules

theorem KconfigFiles.isRestorable (s : Symbol) : s.IsRestorable (K.strValue U V s).1 := by
  intro htype
  rw [KconfigFiles.strValue_eq_toStr htype]
  have hne := KconfigFiles.triValue_ne_m (U := U) (K := K) hmodules htype
  cases htri : (K.triValue U V s).1 with
  | n => exact Or.inl rfl
  | m => exact absurd htri hne
  | y => exact Or.inr rfl

variable (hsolves : Equations.Solves (K.step U) V)

include hsolves

/-- The text of a symbol picks its choice if the symbol is y. -/
theorem KconfigFiles.picks_iff (hs : s ∈ K.symbols) :
    s.picks (s.userValue (K.strValue U V s).1) = some c ↔
      s.choice = some c ∧ (V s.sym).triValue = .y := by
  rw [Symbol.picks_eq_some_iff (KconfigFiles.isRestorable hmodules s),
    KconfigFiles.value_sym hsolves hs]
  by_cases htype : s.origType.isBoolTristate
  · have hne := KconfigFiles.triValue_ne_m (U := U) (K := K) hmodules htype
    rw [KconfigFiles.strValue_eq_toStr htype]
    cases htri : (K.triValue U V s).1 with
    | n => simp [KconfigFiles.symbolValue, htype, htri, Tristate.toStr]
    | m => exact absurd htri hne
    | y => simp [KconfigFiles.symbolValue, htype, htri, Tristate.toStr]
  · simp [KconfigFiles.symbolValue, htype]

/-- Only the lines of its symbols that are y touch a choice. -/
theorem KconfigFiles.choiceView_restoreNamed (hc : c ∈ K.choices) {name : List Char}
    (h : ∀ s ∈ K.symbols, s.name = name → s.choice = some c → (V s.sym).triValue ≠ .y)
    (l : Loading) : (K.restoreNamed U V l name).choiceView c.sym = l.choiceView c.sym := by
  unfold KconfigFiles.restoreNamed
  cases hsymbol : K.symbol? name with
  | none => rfl
  | some s =>
      rcases KconfigFiles.mem_of_symbol? hsymbol with ⟨hs, hname⟩
      dsimp only
      split_ifs
      · apply Symbol.choiceView_restore_of_ne (KconfigFiles.isRestorable hmodules s)
        intro c' hpicks heq
        rcases (KconfigFiles.picks_iff hmodules hsolves hs).mp hpicks with ⟨hchoice, hy⟩
        have hcc' := List.inj_on_of_nodup_map K.choices_nodup
          (K.mem_choice s hs c' hchoice).1 hc heq
        exact h s hs hname (hchoice.trans (congrArg some hcc')) hy
      · rfl

variable {U₀ : UserValues} {names : List (List Char)} (hU₀ : U₀.Valid K)

include hU₀

/-- A choice that no symbol of is y is as it was before the load. -/
theorem KconfigFiles.choiceView_run (hc : c ∈ K.choices)
    (hnone : ∀ s ∈ K.symbols, s.choice = some c → (V s.sym).triValue ≠ .y) :
    (names.foldl (K.restoreNamed U V) ⟨U₀, [], []⟩).choiceView c.sym =
      Loading.choiceView c.sym ⟨U₀, [], []⟩ :=
  Folds.foldl_frame (fun l : Loading => l.user.Valid K) (Loading.choiceView c.sym)
    (fun name _ _ hl => KconfigFiles.restoreNamed_valid hl name)
    (fun _ _ l _ => KconfigFiles.choiceView_restoreNamed hmodules hsolves hc
      (fun s hs _ hchoice => hnone s hs hchoice) l) hU₀

variable (hnodup : names.Nodup)

include hnodup

/-- A symbol of a choice that is y is the only one of them, so its line decides about the choice. -/
theorem KconfigFiles.choice_run (hs : s ∈ K.symbols) (hmem : s.name ∈ names)
    (hchoice : s.choice = some c) (hy : (V s.sym).triValue = .y) :
    (names.foldl (K.restoreNamed U V) ⟨U₀, [], []⟩).user.selection c.sym = some s.name ∧
      c.sym ∈ (names.foldl (K.restoreNamed U V) ⟨U₀, [], []⟩).choiceWasSet ∧
      (c.origType.accepts (.tri .y) →
        (names.foldl (K.restoreNamed U V) ⟨U₀, [], []⟩).user.mode c.sym = some .y) := by
  have hc := (K.mem_choice s hs c hchoice).1
  rcases (KconfigFiles.choiceSymbol_eq_y_iff hmodules hsolves hs hchoice).mp hy with
    ⟨htype, hvis, hselection⟩
  have hframe : ∀ name ∈ names, name ≠ s.name → ∀ l : Loading, l.user.Valid K →
      (K.restoreNamed U V l name).choiceView c.sym = l.choiceView c.sym := by
    intro name _ hne l _
    apply KconfigFiles.choiceView_restoreNamed hmodules hsolves hc
    intro s' hs' hname hchoice' hy'
    have hselection' :=
      ((KconfigFiles.choiceSymbol_eq_y_iff hmodules hsolves hs' hchoice').mp hy').2.2
    rw [hselection, Option.some.injEq] at hselection'
    exact hne (hname.symm.trans hselection'.symm)
  rcases Folds.foldl_frame_but (fun l : Loading => l.user.Valid K) (Loading.choiceView c.sym)
    hnodup hmem (fun name _ l hl => KconfigFiles.restoreNamed_valid hl name) hframe
    (b := (⟨U₀, [], []⟩ : Loading)) hU₀ with ⟨l, _, _, hrun⟩
  have hwritten : (K.strValue U V s).2 = true := by
    rw [KconfigFiles.strValue_eq_toStr htype, KconfigFiles.triValue, hchoice]
    change (K.choiceTri U V s c).2 = true
    rw [KconfigFiles.choiceTri_eq hmodules]
    simpa using hvis
  have hstep : K.restoreNamed U V l s.name = s.restore (K.strValue U V s).1 l := by
    rw [KconfigFiles.restoreNamed, KconfigFiles.symbol?_name hs]
    exact if_pos hwritten
  rcases Symbol.choiceView_restore (l := l) (KconfigFiles.isRestorable hmodules s)
    ((KconfigFiles.picks_iff hmodules hsolves hs).mpr ⟨hchoice, hy⟩) with
    ⟨hselected, hset, hmode⟩
  rw [hstep] at hrun
  simp only [Loading.choiceView, Prod.mk.injEq, hset, decide_true, decide_eq_true_eq] at hrun
  rw [hrun.1, hrun.2.1]
  exact ⟨hselected, hrun.2.2, hmode⟩

/-- The user values after the load are those of the values that were written. -/
theorem KconfigFiles.restores_run (hall : ∀ s ∈ K.symbols, s.name ∈ names) :
    U.Restores K V (K.unsetRest (names.foldl (K.restoreNamed U V) ⟨U₀, [], []⟩)) where
  value s hs := by
    have hview := KconfigFiles.symbolView_run (U := U) (V := V) hnodup hU₀ hs (hall s hs)
    simp only [Loading.symbolView] at hview
    simp only [Symbol.restoredValue, KconfigFiles.unsetRest, KconfigFiles.symbol?_name hs,
      Option.isSome_some, Bool.true_and]
    by_cases hwritten : (K.strValue U V s).2 = true
    · by_cases haccepts : s.origType.accepts (s.userValue (K.strValue U V s).1)
      · rw [if_pos ⟨hwritten, haccepts⟩, Prod.mk.injEq] at hview
        rw [hview.1, hview.2, if_pos hwritten, Option.filter_some, if_pos haccepts]
        rfl
      · rw [if_neg fun h => haccepts h.2, Prod.mk.injEq] at hview
        rw [hview.2, if_pos hwritten, Option.filter_some, if_neg haccepts]
        rfl
    · rw [if_neg fun h => hwritten h.1, Prod.mk.injEq] at hview
      rw [hview.2, if_neg hwritten]
      rfl
  chosen s hs c hchoice hy := by
    rcases KconfigFiles.choice_run hmodules hsolves hU₀ hnodup hs (hall s hs) hchoice hy with
      ⟨hselected, hset, hmode⟩
    simp only [KconfigFiles.unsetRest, hset, not_true_eq_false, and_false, if_false]
    exact ⟨hselected, hmode⟩
  notChosen c hc hnone := by
    have hrun : (names.foldl (K.restoreNamed U V) ⟨U₀, [], []⟩).choiceView c.sym =
        Loading.choiceView c.sym ⟨U₀, [], []⟩ :=
      KconfigFiles.choiceView_run hmodules hsolves hU₀ hc hnone
    simp only [Loading.choiceView, Prod.mk.injEq, List.not_mem_nil, decide_false,
      decide_eq_false_iff_not] at hrun
    have hmem : c.sym ∈ K.choices.map (·.sym) := List.mem_map_of_mem hc
    simp only [KconfigFiles.unsetRest, hmem, hrun.2.2, not_false_eq_true, and_self, if_true]

end Run

/-! ## Save and load -/

section SaveLoad

variable {K : KconfigFiles} {U U' : UserValues} {V : Sym → SymbolValue}

/-- The file depends on the user values only through the texts of the symbols. -/
theorem KconfigFiles.configContents_congr
    (h : ∀ s ∈ K.symbols, K.strValue U' V s = K.strValue U V s) (header : List Char) :
    K.configContents U' V header = K.configContents U V header := by
  have hsymbol : ∀ name,
      (K.symbol? name).map (K.configString U' V) = (K.symbol? name).map (K.configString U V) := by
    intro name
    cases hsymbol : K.symbol? name with
    | none => rfl
    | some s =>
        have hs := (KconfigFiles.mem_of_symbol? hsymbol).1
        rw [Option.map_some, Option.map_some, KconfigFiles.configString,
          KconfigFiles.configString, h s hs]
  have henter : ∀ item prompt dep w,
      K.enterNode U' V item prompt dep w = K.enterNode U V item prompt dep w := by
    intro item prompt dep w
    cases item with
    | symbol name => simp only [KconfigFiles.enterNode, hsymbol]
    | choice | menu | comment => rfl
  have hwrite : ∀ node w, K.writeNode U' V node w = K.writeNode U V node w := by
    intro node
    induction node with
    | absent => exact fun w => rfl
    | node item prompt dep list next ihList ihNext =>
        intro w
        simp only [KconfigFiles.writeNode, henter, ihList, ihNext]
  rw [KconfigFiles.configContents, KconfigFiles.configContents, hwrite]

theorem modules_eq_n (hundefined : K.symbol? Sym.modules.name = none)
    (hsolves : Equations.Solves (K.step U) V) : (V Sym.modules).triValue = .n := by
  have hchoice : K.choices.find? (·.sym = Sym.modules) = none := by
    apply List.find?_eq_none.mpr
    intro c hc heq
    have hname := (K.choice_sym c hc).2
    rw [of_decide_eq_true heq] at hname
    revert hname
    decide
  rw [hsolves, KconfigFiles.step, hundefined, hchoice]
  rfl

/-- The rank is to be checked for the symbols and choices only. -/
theorem KconfigFiles.ranked_of_forall {rank : Sym → ℕ}
    (hsymbols : ∀ s ∈ K.symbols, ∀ read ∈ K.symbolReads s, rank read < rank s.sym)
    (hchoices : ∀ c ∈ K.choices, ∀ read ∈ c.reads, rank read < rank c.sym) :
    Equations.Ranked K.reads rank := by
  intro s read hread
  unfold KconfigFiles.reads at hread
  split_ifs at hread with hconstant
  · cases hread
  · cases hsymbol : K.symbol? s.name with
    | some symbol =>
        rw [hsymbol] at hread
        rcases KconfigFiles.mem_of_symbol? hsymbol with ⟨hs, hname⟩
        have hsym : symbol.sym = s := by
          rw [Symbol.sym, hname, ← Bool.eq_false_of_not_eq_true hconstant]
        exact hsym ▸ hsymbols symbol hs read hread
    | none =>
        rw [hsymbol] at hread
        cases hchoice : K.choices.find? (·.sym = s) with
        | some c =>
            rw [hchoice] at hread
            have hsym : c.sym = s := by simpa using List.find?_some hchoice
            exact hsym ▸ hchoices c (List.mem_of_find?_eq_some hchoice) read hread
        | none =>
            rw [hchoice] at hread
            cases hread

/-- An optional choice between `A` and `B`. -/
def boardChoice : Choice where
  sym := ⟨"<choice>".toList, false⟩
  origType := .bool
  isOptional := true
  prompts := [.sym ⟨['y'], true⟩]
  defaults := [(['A'], .sym ⟨['y'], true⟩)]
  syms := [['A'], ['B']]

/-- A menu with the choice, a number that depends on `B` and a string, and behind it a symbol with
`option env`. -/
def boardFiles : KconfigFiles where
  symbols := [
    { name := ['A'], origType := .bool, prompts := [.sym boardChoice.sym], defaults := []
      ranges := [], directDep := .sym boardChoice.sym, revDep := .sym ⟨['n'], true⟩
      weakRevDep := .sym ⟨['n'], true⟩, choice := some boardChoice, envVar := none },
    { name := ['B'], origType := .bool, prompts := [.sym boardChoice.sym], defaults := []
      ranges := [], directDep := .sym boardChoice.sym, revDep := .sym ⟨['n'], true⟩
      weakRevDep := .sym ⟨['n'], true⟩, choice := some boardChoice, envVar := none },
    { name := ['S'], origType := .int, prompts := [.sym ⟨['B'], false⟩]
      defaults := [(.sym ⟨['4'], true⟩, .sym ⟨['B'], false⟩)]
      ranges := [(⟨['1'], true⟩, ⟨['9'], true⟩, .sym ⟨['B'], false⟩)]
      directDep := .sym ⟨['B'], false⟩, revDep := .sym ⟨['n'], true⟩
      weakRevDep := .sym ⟨['n'], true⟩, choice := none, envVar := none },
    { name := ['T'], origType := .string, prompts := [.sym ⟨['y'], true⟩], defaults := []
      ranges := [], directDep := .sym ⟨['y'], true⟩, revDep := .sym ⟨['n'], true⟩
      weakRevDep := .sym ⟨['n'], true⟩, choice := none, envVar := none },
    { name := ['E'], origType := .string, prompts := [.sym ⟨['y'], true⟩]
      defaults := [(.sym ⟨['e'], true⟩, .sym ⟨['y'], true⟩)], ranges := []
      directDep := .sym ⟨['y'], true⟩, revDep := .sym ⟨['n'], true⟩
      weakRevDep := .sym ⟨['n'], true⟩, choice := none, envVar := some ['E'] }]
  choices := [boardChoice]
  menu := .node (.menu (.sym ⟨['y'], true⟩)) ['M'] (.sym ⟨['y'], true⟩)
    (.node .choice ['C'] (.sym ⟨['y'], true⟩)
      (.node (.symbol ['A']) ['A'] (.sym boardChoice.sym) .absent
        (.node (.symbol ['B']) ['B'] (.sym boardChoice.sym) .absent .absent))
      (.node (.symbol ['S']) ['S'] (.sym ⟨['B'], false⟩) .absent .absent))
    (.node (.symbol ['T']) ['T'] (.sym ⟨['y'], true⟩) .absent
      (.node (.symbol ['E']) ['E'] (.sym ⟨['y'], true⟩) .absent .absent))
  defconfigList := none
  names_nodup := by decide
  name_ne_nil := by decide
  name_isIdChar := by decide
  choices_nodup := by decide
  choice_sym := by decide
  mem_choice := by decide
  choice_of_mem_syms := by decide
  mem_menu := by decide

/-- `B` is selected, the number is out of its range, and the string holds a quote. -/
def boardUser : UserValues where
  value name :=
    if name = ['B'] then some (.tri .y)
    else if name = ['S'] then some (.str ['1', '2'])
    else if name = ['T'] then some (.str ['"', '\\'])
    else none
  mode c := if c = boardChoice.sym then some .y else none
  selection c := if c = boardChoice.sym then some ['B'] else none

/-- The choice comes before the symbols, and the number behind `B`. -/
def boardRank (s : Sym) : ℕ :=
  if s = ⟨['S'], false⟩ then 3
  else if s ∈ [⟨['A'], false⟩, ⟨['B'], false⟩, ⟨['T'], false⟩, ⟨['E'], false⟩] then 2
  else if s = boardChoice.sym then 1
  else 0

end SaveLoad

end Kconfig

end DistroSeed
