import Mathlib.Data.List.DropRight
import Mathlib.Tactic.Common

/-! Text with the white space taken off at both ends, as Python's `str.strip` takes it off. -/

namespace TradingAgents.ProofKit.PyText

/-- The characters that Python's `str.isspace` knows. -/
def isSpace (c : Char) : Bool :=
  let n := c.toNat
  decide (9 ≤ n ∧ n ≤ 13) || decide (28 ≤ n ∧ n ≤ 32) || decide (n = 0x85) || decide (n = 0xa0) ||
    decide (n = 0x1680) || decide (0x2000 ≤ n ∧ n ≤ 0x200a) || decide (n = 0x2028) ||
    decide (n = 0x2029) || decide (n = 0x202f) || decide (n = 0x205f) || decide (n = 0x3000)

def stripChars (l : List Char) : List Char := (l.dropWhile isSpace).rdropWhile isSpace

def strip (s : String) : String := .ofList (stripChars s.toList)

/-- The first character left is no white space. -/
theorem dropWhile_stripChars (l : List Char) :
    (stripChars l).dropWhile isSpace = stripChars l := by
  unfold stripChars
  cases h : (l.dropWhile isSpace).rdropWhile isSpace with
  | nil => rfl
  | cons c rest =>
    obtain ⟨tail, htail⟩ := List.rdropWhile_prefix (l := l.dropWhile isSpace) isSpace
    rw [h] at htail
    have hc : isSpace c = false := by
      have hhead := List.head?_dropWhile_not isSpace l
      rw [← htail] at hhead
      simpa using hhead
    rw [List.dropWhile_cons, if_neg (by simp [hc])]

theorem stripChars_stripChars (l : List Char) : stripChars (stripChars l) = stripChars l := by
  show ((stripChars l).dropWhile isSpace).rdropWhile isSpace = stripChars l
  rw [dropWhile_stripChars]
  exact List.rdropWhile_idempotent isSpace _

@[simp] theorem strip_strip (s : String) : strip (strip s) = strip s := by
  simp [strip, stripChars_stripChars]

@[simp] theorem strip_empty : strip "" = "" := rfl

end TradingAgents.ProofKit.PyText
