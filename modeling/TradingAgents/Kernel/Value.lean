import Mathlib.Data.Rat.Defs
import TradingAgents.ProofKit.Dict

/-! Property values of the graph store.  A property is a JSON-like Python value; `δ` is the type of
the payloads that are stored whole: the validated documents of the agents (an order intent set, a
candidate set), and a float that is not a number where a store is to hold one.  Freezing turns every
sequence into a tuple, so a list and a tuple are one constructor here. -/

namespace TradingAgents.Kernel

open ProofKit

/-- The payloads that equal themselves: all of them, unless a type of payloads says otherwise of its
floats that are no numbers. -/
class SelfEqual (δ : Type) where
  equalsItself : δ → Bool

instance (priority := low) SelfEqual.all (δ : Type) : SelfEqual δ := ⟨fun _ => true⟩

/-- A property value. -/
inductive Value (δ : Type) where
  | null
  | bool (b : Bool)
  | int (n : Int)
  | num (q : ℚ)
  | str (s : String)
  | list (xs : List (Value δ))
  | doc (d : δ)

namespace Value

variable {δ : Type}

mutual

/-- The value with every number, truth values included, as one numeric type: Python compares
`True`, `1` and `1.0` as equal. -/
def canon : Value δ → Value δ
  | bool b => num (if b then 1 else 0)
  | int n => num n
  | list xs => list (canonList xs)
  | null => null
  | num q => num q
  | str s => str s
  | doc d => doc d

def canonList : List (Value δ) → List (Value δ)
  | [] => []
  | x :: xs => canon x :: canonList xs

end

/-- Python's truth value of a property. -/
def truthy : Value δ → Bool
  | null => false
  | bool b => b
  | int n => decide (n ≠ 0)
  | num q => decide (q ≠ 0)
  | str s => decide (s ≠ "")
  | list xs => !xs.isEmpty
  | doc _ => true

/-- The string a property holds, if it is a string. -/
def str? : Value δ → Option String
  | str s => some s
  | _ => none

/-- The integer a property holds, if it is an integer. -/
def int? : Value δ → Option Int
  | int n => some n
  | _ => none

@[simp] theorem str?_eq_some {v : Value δ} {s : String} : v.str? = some s ↔ v = str s := by
  cases v <;> simp [str?]

@[simp] theorem int?_eq_some {v : Value δ} {n : Int} : v.int? = some n ↔ v = int n := by
  cases v <;> simp [int?]

/-! ### Equality -/

@[simp] theorem canon_eq_str {v : Value δ} {s : String} : v.canon = str s ↔ v = str s := by
  cases v <;> simp [canon]

@[simp] theorem canon_eq_doc {v : Value δ} {d : δ} : v.canon = doc d ↔ v = doc d := by
  cases v <;> simp [canon]

section Equality

variable [DecidableEq δ]

mutual

/-- Whether two values are the same value of the same type. -/
def same : Value δ → Value δ → Bool
  | null, null => true
  | bool a, bool b => a == b
  | int a, int b => a == b
  | num a, num b => a == b
  | str a, str b => decide (a = b)
  | list xs, list ys => sameList xs ys
  | doc a, doc b => decide (a = b)
  | _, _ => false

def sameList : List (Value δ) → List (Value δ) → Bool
  | [], [] => true
  | x :: xs, y :: ys => same x y && sameList xs ys
  | _, _ => false

end

mutual

theorem same_iff : (a b : Value δ) → (same a b = true ↔ a = b)
  | null, b => by cases b <;> simp [same]
  | bool _, b => by cases b <;> simp [same]
  | int _, b => by cases b <;> simp [same]
  | num _, b => by cases b <;> simp [same]
  | str _, b => by cases b <;> simp [same]
  | doc _, b => by cases b <;> simp [same]
  | list xs, b => by
    cases b with
    | list ys => simp [same, sameList_iff xs ys]
    | _ => simp [same]

theorem sameList_iff : (xs ys : List (Value δ)) → (sameList xs ys = true ↔ xs = ys)
  | [], ys => by cases ys <;> simp [sameList]
  | x :: xs, ys => by
    cases ys with
    | nil => simp [sameList]
    | cons y ys => simp [sameList, same_iff x y, sameList_iff xs ys]

end

instance : DecidableEq (Value δ) := fun a b => decidable_of_iff (same a b = true) (same_iff a b)

/-- Whether two values are one object or equal: the comparison that Python makes inside a tuple. -/
def alike (a b : Value δ) : Bool := decide (a.canon = b.canon)

theorem alike_iff {a b : Value δ} : a.alike b = true ↔ a.canon = b.canon := decide_eq_true_iff

@[simp] theorem alike_self (a : Value δ) : a.alike a = true := by simp [alike]

theorem alike_str (v : Value δ) (s : String) : v.alike (str s) = decide (v = str s) := by
  simp [alike, canon]

variable [SelfEqual δ]

/-- Whether a value equals itself.  A tuple does, even one that holds a float that is no number. -/
def equalsItself : Value δ → Bool
  | doc d => SelfEqual.equalsItself d
  | null | bool _ | int _ | num _ | str _ | list _ => true

/-- Python's `==` on frozen values. -/
def pyEq (a b : Value δ) : Bool := a.alike b && a.equalsItself

theorem pyEq_iff {a b : Value δ} :
    a.pyEq b = true ↔ a.alike b = true ∧ a.equalsItself = true := by
  rw [pyEq, Bool.and_eq_true]

@[simp] theorem pyEq_self (a : Value δ) : pyEq a a = a.equalsItself := by simp [pyEq]

omit [DecidableEq δ] [SelfEqual δ] in
/-- Where every payload equals itself, every value does. -/
@[simp] theorem equalsItself_all (a : Value δ) : @equalsItself δ (.all δ) a = true := by
  cases a <;> rfl

theorem pyEq_str (v : Value δ) (s : String) : pyEq v (str s) = decide (v = str s) := by
  rw [pyEq, alike_str]
  by_cases h : v = str s
  · rw [h, decide_eq_true rfl]
    rfl
  · rw [decide_eq_false h, Bool.false_and]

end Equality

end Value

/-- The properties of a node. -/
abbrev Props (δ : Type) := Dict String (Value δ)

/-- A property as Python's `props.get(name)` gives it: an absent one reads as `None`. -/
def Props.get {δ : Type} (p : Props δ) (name : String) : Value δ := (p.get? name).getD .null

@[simp] theorem Props.get_set {δ : Type} (p : Props δ) (k name : String) (v : Value δ) :
    Props.get (p.set k v) name = if name = k then v else Props.get p name := by
  simp only [Props.get, Dict.get?_set]
  split <;> rfl

@[simp] theorem Props.get_empty {δ : Type} (name : String) :
    Props.get (.empty : Props δ) name = .null := rfl

end TradingAgents.Kernel
