import Mathlib.Data.Finset.Basic
import Mathlib.Tactic.Common

/-! Edits of a set, each of which takes keys out and puts keys in.  A run of edits is undone from
the last to the first and then redone; both directions absorb what is already so, and the set comes
back when the last edit of each key agrees with it. -/

namespace TradingAgents.ProofKit

structure Edit (α : Type) where
  removed : Finset α
  added : Finset α

namespace Edit

variable {α : Type} [DecidableEq α]

def redo (e : Edit α) (s : Finset α) : Finset α := s \ e.removed ∪ e.added

def undo (e : Edit α) (s : Finset α) : Finset α := s \ e.added ∪ e.removed

def redoAll (es : List (Edit α)) (s : Finset α) : Finset α := es.foldl (fun s e => e.redo s) s

/-- The edits undone, the last one first. -/
def undoAll (es : List (Edit α)) (s : Finset α) : Finset α := es.foldr undo s

def Touches (e : Edit α) (x : α) : Prop := x ∈ e.removed ∨ x ∈ e.added

instance (e : Edit α) (x : α) : Decidable (e.Touches x) :=
  inferInstanceAs (Decidable (x ∈ e.removed ∨ x ∈ e.added))

/-- The last edit that takes the key out or puts it in. -/
def lastTouch (es : List (Edit α)) (x : α) : Option (Edit α) :=
  es.reverse.find? fun e => decide (e.Touches x)

/-- The keys that an edit put in are there when it is undone. -/
def Reconciled : List (Edit α) → Finset α → Prop
  | [], _ => True
  | e :: es, s => Reconciled es s ∧ e.added ⊆ undoAll es s

variable {e : Edit α} {es : List (Edit α)} {s : Finset α} {x : α}

theorem lastTouch_cons : lastTouch (e :: es) x =
    (lastTouch es x).or (if e.Touches x then some e else none) := by
  rw [lastTouch, List.reverse_cons, List.find?_append, lastTouch]
  congr 1
  by_cases h : e.Touches x
  · simp [h]
  · simp [h]

theorem mem_redo : x ∈ e.redo s ↔ if e.Touches x then x ∈ e.added else x ∈ s := by
  unfold redo Touches
  by_cases hadded : x ∈ e.added
  · simp [hadded]
  · by_cases hremoved : x ∈ e.removed
    · simp [hadded, hremoved]
    · simp [hadded, hremoved]

theorem mem_undo_of_not_touches (h : ¬ e.Touches x) : x ∈ e.undo s ↔ x ∈ s := by
  obtain ⟨hremoved, hadded⟩ := not_or.mp h
  simp [undo, hremoved, hadded]

/-- After the edits a key is in the set if its last edit put it in, or it was there untouched. -/
theorem mem_redoAll :
    x ∈ redoAll es s ↔ (lastTouch es x).elim (x ∈ s) fun e => x ∈ e.added := by
  induction es generalizing s with
  | nil => rfl
  | cons e es ih =>
    rw [redoAll, List.foldl_cons, ← redoAll, ih, lastTouch_cons]
    cases lastTouch es x with
    | some e' => rfl
    | none =>
      rw [Option.none_or, Option.elim_none, mem_redo]
      by_cases h : e.Touches x
      · rw [if_pos h, if_pos h, Option.elim_some]
      · rw [if_neg h, if_neg h, Option.elim_none]

theorem mem_undoAll_of_untouched (h : lastTouch es x = none) : x ∈ undoAll es s ↔ x ∈ s := by
  induction es with
  | nil => rfl
  | cons e es ih =>
    rw [lastTouch_cons, Option.or_eq_none_iff] at h
    obtain ⟨hlater, hthis⟩ := h
    have hnot : ¬ e.Touches x := by
      intro htouch
      rw [if_pos htouch] at hthis
      cases hthis
    rw [undoAll, List.foldr_cons, mem_undo_of_not_touches hnot]
    exact ih hlater

/-- The edits undone and redone give the set back where each key's last edit agrees with it. -/
theorem redoAll_undoAll_eq_iff : redoAll es (undoAll es s) = s ↔
    ∀ x e, lastTouch es x = some e → (x ∈ e.added ↔ x ∈ s) := by
  constructor
  · intro heq x e hlast
    have hmem : x ∈ redoAll es (undoAll es s) ↔
        (lastTouch es x).elim (x ∈ undoAll es s) fun e => x ∈ e.added := mem_redoAll
    rw [heq, hlast] at hmem
    exact hmem.symm
  · intro h
    ext x
    rw [mem_redoAll]
    cases hlast : lastTouch es x with
    | none => exact mem_undoAll_of_untouched hlast
    | some e => exact h x e hlast

/-- A key that its last edit put in is in a reconciled set. -/
theorem Reconciled.mem (h : Reconciled es s) (hlast : lastTouch es x = some e)
    (hadded : x ∈ e.added) : x ∈ s := by
  induction es with
  | nil => cases hlast
  | cons e' es ih =>
    obtain ⟨hlater, hthis⟩ := h
    rw [lastTouch_cons] at hlast
    cases hes : lastTouch es x with
    | some e'' =>
      rw [hes, Option.some_or] at hlast
      exact ih hlater (hes.trans hlast)
    | none =>
      rw [hes, Option.none_or] at hlast
      obtain ⟨-, heq⟩ := Option.ite_none_right_eq_some.mp hlast
      rw [Option.some.injEq] at heq
      rw [heq] at hthis
      exact (mem_undoAll_of_untouched hes).mp (hthis hadded)

/-- A reconciled set comes back where no key that its last edit took out is in it. -/
theorem Reconciled.redoAll_undoAll_eq_iff (h : Reconciled es s) : redoAll es (undoAll es s) = s ↔
    ∀ x e, lastTouch es x = some e → x ∉ e.added → x ∉ s := by
  rw [Edit.redoAll_undoAll_eq_iff]
  constructor
  · intro hagree x e hlast hadded hmem
    exact hadded ((hagree x e hlast).mpr hmem)
  · intro hgone x e hlast
    exact ⟨h.mem hlast, fun hmem => by_contra fun hadded => hgone x e hlast hadded hmem⟩

theorem redoAll_append {es' : List (Edit α)} :
    redoAll (es ++ es') s = redoAll es' (redoAll es s) := List.foldl_append

theorem undoAll_append {es' : List (Edit α)} :
    undoAll (es ++ es') s = undoAll es (undoAll es' s) := List.foldr_append

theorem Reconciled.append {es' : List (Edit α)} :
    Reconciled (es ++ es') s ↔ Reconciled es (undoAll es' s) ∧ Reconciled es' s := by
  induction es with
  | nil => simp [Reconciled]
  | cons e es ih =>
    rw [List.cons_append, Reconciled, ih, Reconciled, undoAll_append]
    tauto

/-- A key of a set that edits have made is a key of the first set or of an edit. -/
theorem mem_redoAll_subset {named : α → Prop} (hs : ∀ x ∈ s, named x)
    (hes : ∀ e ∈ es, ∀ x ∈ e.added, named x) (hx : x ∈ redoAll es s) : named x := by
  induction es generalizing s with
  | nil => exact hs x hx
  | cons e es ih =>
    refine ih (s := e.redo s) (fun y hy => ?_)
      (fun e' he' => hes e' (List.mem_cons_of_mem e he')) hx
    rcases Finset.mem_union.mp hy with hy | hy
    · exact hs y (Finset.mem_sdiff.mp hy).1
    · exact hes e List.mem_cons_self y hy

theorem mem_undoAll_subset {named : α → Prop} (hs : ∀ x ∈ s, named x)
    (hes : ∀ e ∈ es, ∀ x ∈ e.removed, named x) (hx : x ∈ undoAll es s) : named x := by
  induction es generalizing x with
  | nil => exact hs x hx
  | cons e es ih =>
    rw [undoAll, List.foldr_cons, undo, Finset.mem_union, Finset.mem_sdiff] at hx
    rcases hx with ⟨hx, -⟩ | hx
    · exact ih (fun e' he' => hes e' (List.mem_cons_of_mem e he')) hx
    · exact hes e List.mem_cons_self x hx

end Edit

end TradingAgents.ProofKit
