import Mathlib.Data.Int.Notation
import DistroSeed.Library.Outcome

/-! Values as `yaml.safe_load` makes them of a document, and what Python does to them. -/

namespace Yaml

/-- A parsed value. A float is given by its `repr`, and so are dates and times. A list may have a
number: an alias is the same list as the anchor, and has the same number; a list without a number
is met only once. -/
inductive Value where
  | null
  | bool (b : Bool)
  | int (n : ℤ)
  | float (repr : String)
  | str (s : String)
  | bytes (b : List UInt8)
  | time (repr : String)
  | list (object : Option ℕ) (items : List Value)
  | set (items : List Value)
  | dict (entries : List (Value × Value))

/-- What Python raises. -/
inductive PyError where
  | keyError (key : String)
  | typeError
  | attributeError (name : String)
  | valueError (text : String)
  | osError
deriving DecidableEq, Repr

namespace Value

/-- Equality with a string. -/
def isStr (v : Value) (text : String) : Bool :=
  match v with
  | str s => s = text
  | _ => false

/-- `bool(v)`. -/
def truthy : Value → Bool
  | null => false
  | bool b => b
  | int n => n ≠ 0
  | float repr => repr ≠ "0.0" && repr ≠ "-0.0"
  | str s => s ≠ ""
  | bytes b => !b.isEmpty
  | time _ => true
  | list _ items => !items.isEmpty
  | set items => !items.isEmpty
  | dict entries => !entries.isEmpty

/-- Whether `hash(v)` is defined, as `in` needs it for a set. -/
def hashable : Value → Bool
  | list .. | set _ | dict _ => false
  | null | bool _ | int _ | float _ | str _ | bytes _ | time _ => true

/-- The entries of a mapping; other values have none. -/
def entries : Value → List (Value × Value)
  | dict entries => entries
  | _ => []

/-- `v in names`, for a set of strings. -/
def inSet (v : Value) (names : List String) : Outcome PyError Bool :=
  if v.hashable then .returned (names.any v.isStr) else .raised .typeError

end Value

/-- `entries.get(key)`. -/
def get? (entries : List (Value × Value)) (key : String) : Option Value :=
  (entries.find? fun entry => entry.1.isStr key).map Prod.snd

/-- `entries[key]`. -/
def getItem (entries : List (Value × Value)) (key : String) : Outcome PyError Value :=
  match get? entries key with
  | some v => .returned v
  | none => .raised (.keyError key)

variable {v : Value} {names : List String} {entries : List (Value × Value)} {key : String}

theorem Value.isStr_iff {text : String} : v.isStr text ↔ v = .str text := by
  cases v <;> simp [Value.isStr]

theorem Value.inSet_eq_true_iff :
    v.inSet names = .returned true ↔ ∃ name ∈ names, v = .str name := by
  rw [Value.inSet]
  constructor
  · intro h
    split_ifs at h
    obtain ⟨name, hname, hstr⟩ := List.any_eq_true.mp (Outcome.returned.inj h)
    exact ⟨name, hname, Value.isStr_iff.mp hstr⟩
  · rintro ⟨name, hname, rfl⟩
    have hany : names.any (Value.str name).isStr := by
      rw [List.any_eq_true]
      exact ⟨name, hname, Value.isStr_iff.mpr rfl⟩
    rw [hany]
    rfl

theorem getItem_eq_returned_iff :
    getItem entries key = .returned v ↔ get? entries key = some v := by
  rw [getItem]
  cases get? entries key <;> simp

end Yaml
