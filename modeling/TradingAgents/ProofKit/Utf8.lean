import Mathlib

/-! Texts as UTF-8 bytes.  A byte-wise comparison orders texts as their characters do. -/

namespace TradingAgents.ProofKit.Utf8

def bytesOf (l : List Char) : List UInt8 := l.flatMap String.utf8EncodeChar

/-- The bytes of a text. -/
def bytes (s : String) : List UInt8 := bytesOf s.toList

theorem ofNat_lt {a b : Nat} (h : a < b) (hb : b < 256) : UInt8.ofNat a < UInt8.ofNat b := by
  rw [UInt8.lt_iff_toNat_lt, UInt8.toNat_ofNat', UInt8.toNat_ofNat']
  omega

/-- Two heads in order, and the tails if the heads are equal. -/
theorem cons_lt {a b : Nat} {x y : List UInt8} (hb : b < 256) (hle : a ≤ b)
    (h : a = b → x < y) : UInt8.ofNat a :: x < UInt8.ofNat b :: y := by
  rw [List.cons_lt_cons_iff]
  rcases Nat.lt_or_eq_of_le hle with hlt | rfl
  · exact .inl (ofNat_lt hlt hb)
  · exact .inr ⟨rfl, h rfl⟩

/-- The bytes of a smaller character are smaller, whatever follows. -/
theorem encode_lt {c d : Char} (h : c < d) (p q : List UInt8) :
    String.utf8EncodeChar c ++ p < String.utf8EncodeChar d ++ q := by
  have hlt : c.val.toNat < d.val.toNat := h
  have hd : d.val.toNat < 1114112 := by
    rcases d.valid with hv | ⟨-, hv⟩
    · exact Nat.lt_trans hv (by decide)
    · exact hv
  unfold String.utf8EncodeChar
  dsimp only
  generalize c.val.toNat = m at *
  generalize d.val.toNat = n at *
  -- the first byte tells the length, and equal lengths differ in some place of base 64
  split_ifs <;> simp only [List.cons_append, List.nil_append] <;> first
    | exact cons_lt (by omega) (by omega) fun h => absurd h (by omega)
    | exact cons_lt (by omega) (by omega) fun h => cons_lt (by omega) (by omega) fun h' =>
        absurd h' (by omega)
    | exact cons_lt (by omega) (by omega) fun h => cons_lt (by omega) (by omega) fun h' =>
        cons_lt (by omega) (by omega) fun h'' => absurd h'' (by omega)
    | exact cons_lt (by omega) (by omega) fun h => cons_lt (by omega) (by omega) fun h' =>
        cons_lt (by omega) (by omega) fun h'' => cons_lt (by omega) (by omega) fun h₃ =>
          absurd h₃ (by omega)

theorem bytesOf_lt {l k : List Char} (h : l < k) : bytesOf l < bytesOf k := by
  induction l generalizing k with
  | nil =>
    cases k with
    | nil => exact absurd h (lt_irrefl _)
    | cons d k =>
      have hne : bytesOf (d :: k) ≠ [] := by
        intro hnil
        have hlen := congrArg List.length hnil
        simp only [bytesOf, List.flatMap_cons, List.length_append, String.length_utf8EncodeChar,
          List.length_nil] at hlen
        have := Char.utf8Size_pos d
        omega
      obtain ⟨b, rest, hb⟩ := List.exists_cons_of_ne_nil hne
      rw [hb]
      exact List.nil_lt_cons b rest
  | cons c l ih =>
    cases k with
    | nil => exact absurd h (List.not_lt_nil _)
    | cons d k =>
      rcases List.cons_lt_cons_iff.mp h with hlt | ⟨rfl, hrest⟩
      · exact encode_lt hlt _ _
      · exact List.append_left_lt (ih hrest)

/-- A byte-wise comparison is the comparison of the characters. -/
theorem bytes_le_iff {s t : String} : bytes s ≤ bytes t ↔ s ≤ t := by
  rw [String.le_iff_toList_le]
  rcases lt_trichotomy s.toList t.toList with hlt | heq | hlt
  · exact iff_of_true (List.lt_asymm (bytesOf_lt hlt)) (le_of_lt hlt)
  · refine iff_of_true ?_ (le_of_eq heq)
    unfold bytes
    rw [heq]
    exact List.lt_irrefl _
  · exact iff_of_false (fun hle => hle (bytesOf_lt hlt)) (not_le.mpr hlt)

end TradingAgents.ProofKit.Utf8
