import Mathlib.Tactic.Common

/-! The three-valued logic of SQL.  A comparison with NULL is unknown, `AND` and `NOT` are Kleene's,
and a `WHERE` takes a row only when its condition is true, so an unknown condition is refused as a
false one is. -/

namespace TradingAgents.ProofKit

/-- A truth value of SQL: `none` is unknown. -/
abbrev Ternary := Option Bool

namespace Ternary

def not : Ternary → Ternary
  | some b => some (!b)
  | none => none

def and : Ternary → Ternary → Ternary
  | some false, _ => some false
  | _, some false => some false
  | some true, some true => some true
  | _, _ => none

def or : Ternary → Ternary → Ternary
  | some true, _ => some true
  | _, some true => some true
  | some false, some false => some false
  | _, _ => none

/-- Whether a `WHERE` with this condition takes the row. -/
def taken (t : Ternary) : Bool := t == some true

/-- Equality of two texts, unknown when one is NULL. -/
def textEq : Option String → Option String → Ternary
  | some a, some b => some (decide (a = b))
  | _, _ => none

theorem taken_iff {t : Ternary} : t.taken = true ↔ t = some true := by simp [taken]

theorem and_eq_true {a b : Ternary} : a.and b = some true ↔ a = some true ∧ b = some true := by
  rcases a with _ | _ | _ <;> rcases b with _ | _ | _ <;> simp [and]

theorem and_eq_false {a b : Ternary} :
    a.and b = some false ↔ a = some false ∨ b = some false := by
  rcases a with _ | _ | _ <;> rcases b with _ | _ | _ <;> simp [and]

theorem or_eq_true {a b : Ternary} : a.or b = some true ↔ a = some true ∨ b = some true := by
  rcases a with _ | _ | _ <;> rcases b with _ | _ | _ <;> simp [or]

theorem not_eq_true {a : Ternary} : a.not = some true ↔ a = some false := by
  rcases a with _ | _ | _ <;> simp [not]

end Ternary

end TradingAgents.ProofKit
