import TradingAgents.Kernel.GraphFacts
import TradingAgents.ProofKit.Text
import TradingAgents.ProofKit.ThreeValued

/-! The upsert of the PostgreSQL backend, with SQL's three-valued logic, next to the append-only law
of the in-memory backend.  The two agree except where the status that would excuse a change is NULL
on one side: SQL's `NOT (…)` is then unknown, the conflicting row is not counted, and the upsert
accepts a change of the exempt properties that the in-memory store refuses. -/

namespace TradingAgents.Kernel

open ProofKit

/-- The JSON values that the two backends are compared on. -/
inductive Json where
  | null
  | int (n : Int)
  | str (s : String)
  | list (xs : List Json)

namespace Json

mutual

/-- The property value that a JSON value decodes to. -/
def toValue {δ : Type} : Json → Value δ
  | null => .null
  | int n => .int n
  | str s => .str s
  | list xs => .list (toValueList xs)

def toValueList {δ : Type} : List Json → List (Value δ)
  | [] => []
  | x :: xs => x.toValue :: toValueList xs

end

mutual

theorem canon_toValue_inj {δ : Type} :
    (a b : Json) → ((a.toValue : Value δ).canon = (b.toValue : Value δ).canon ↔ a = b)
  | null, b => by cases b <;> simp [toValue, Value.canon]
  | int _, b => by cases b <;> simp [toValue, Value.canon]
  | str _, b => by cases b <;> simp [toValue, Value.canon]
  | list xs, b => by
    cases b with
    | list ys => simp [toValue, Value.canon, canon_toValueList_inj xs ys]
    | _ => simp [toValue, Value.canon]

theorem canon_toValueList_inj {δ : Type} : (xs ys : List Json) →
    (Value.canonList (toValueList xs : List (Value δ)) = Value.canonList (toValueList ys) ↔
      xs = ys)
  | [], ys => by cases ys <;> simp [toValueList, Value.canonList]
  | x :: xs, ys => by
    cases ys with
    | nil => simp [toValueList, Value.canonList]
    | cons y ys =>
      simp [toValueList, Value.canonList, canon_toValue_inj x y, canon_toValueList_inj xs ys]

end

instance : DecidableEq Json := fun a b =>
  decidable_of_iff ((a.toValue : Value Empty) = b.toValue)
    ⟨fun h => (canon_toValue_inj a b).mp (congrArg Value.canon h), fun h => h ▸ rfl⟩

theorem pyEq_toValue {δ : Type} [DecidableEq δ] (a b : Json) :
    (a.toValue : Value δ).pyEq b.toValue = decide (a = b) := by
  have hself : (a.toValue : Value δ).equalsItself = true := by cases a <;> rfl
  rw [Value.pyEq, hself, Bool.and_true]
  simp only [Value.alike, canon_toValue_inj]

/-! ### The text of a JSON value -/

/-- A character inside a JSON string: quotes, backslashes and control characters are escaped. -/
def escapeChar (c : Char) : String :=
  let backslash := Char.ofNat 92
  match c.toNat with
  | 8 => String.ofList [backslash, 'b']
  | 9 => String.ofList [backslash, 't']
  | 10 => String.ofList [backslash, 'n']
  | 12 => String.ofList [backslash, 'f']
  | 13 => String.ofList [backslash, 'r']
  | 34 => String.ofList [backslash, c]
  | 92 => String.ofList [backslash, backslash]
  | n =>
    if n < 32 then
      String.ofList ([backslash, 'u', '0', '0'] ++ [Nat.digitChar (n / 16), Nat.digitChar (n % 16)])
    else String.singleton c

def quote (s : String) : String :=
  String.singleton (Char.ofNat 34) ++ String.join (s.toList.map escapeChar) ++
    String.singleton (Char.ofNat 34)

mutual

/-- The text of a JSON value inside a larger one. -/
def render : Json → String
  | null => "null"
  | int n => toString n
  | str s => quote s
  | list xs => "[" ++ renderList xs ++ "]"

def renderList : List Json → String
  | [] => ""
  | [x] => x.render
  | x :: y :: xs => x.render ++ ", " ++ renderList (y :: xs)

end

/-- The `->>` operator on a value: a JSON null is SQL's NULL and a string comes without quotes. -/
def text : Json → Option String
  | null => none
  | int n => some (toString n)
  | str s => some s
  | list xs => some ("[" ++ renderList xs ++ "]")

/-- Only a string has a text that starts with a letter. -/
theorem text_eq_some {v : Json} {s : String} {c : Char} (hs : s.toList.head? = some c)
    (hdigit : c.isDigit = false) (hminus : c ≠ '-') (hbracket : c ≠ '[') :
    v.text = some s ↔ v = str s := by
  have hmem : Text.Holds c s := List.mem_of_mem_head? hs
  cases v with
  | null => simp [text]
  | str t => simp [text]
  | int n =>
    simp only [text, Option.some.injEq, reduceCtorEq, iff_false]
    rintro rfl
    exact Text.not_holds_int hdigit hminus hmem
  | list xs =>
    simp only [text, Option.some.injEq, reduceCtorEq, iff_false]
    rintro rfl
    simp only [String.toList_append] at hs
    exact hbracket (by simpa using hs.symm)

end Json

/-- The properties of a row of the `nodes` table. -/
abbrev JsonProps := Dict String Json

/-- The properties that a row decodes to. -/
def JsonProps.toProps {δ : Type} (p : JsonProps) : Props δ := p.mapValues Json.toValue

/-- The `->>` operator on an object: an absent key is NULL. -/
def JsonProps.text (p : JsonProps) (name : String) : Option String := (p.get? name).bind Json.text

namespace GraphPostgres

/-- The condition of the `EXISTS` subquery for one incoming property. -/
def rowConflicts (existing incoming : JsonProps) (name : String) (value : Json) : Ternary :=
  let present : Ternary := some (decide (name ∈ existing.keys))
  let differs : Ternary := (existing.get? name).map fun current => decide (current ≠ value)
  let partialThen := Ternary.textEq (existing.text "broker_status") (some "partial")
  let filledNow := Ternary.textEq (incoming.text "broker_status") (some "filled")
  let exempt : Ternary := some (decide (name ∈ Graph.partialCompletionProps))
  (present.and differs).and ((partialThen.and filledNow).and exempt).not

/-- The `WHERE` of the upsert: equal schema versions and no conflicting property. -/
def mergeCondition (existing incoming : JsonProps) (existingVersion version : Int) : Ternary :=
  Ternary.and (some (decide (existingVersion = version)))
    (Ternary.not (some (incoming.entries.any fun p =>
      (rowConflicts existing incoming p.1 p.2).taken)))

/-- The upsert on an existing row: the properties it stores, or no row. -/
def mergeNode (existing incoming : JsonProps) (existingVersion version : Int) :
    Option JsonProps :=
  if (mergeCondition existing incoming existingVersion version).taken then
    some (existing.update incoming)
  else none

/-- The two sides hold different values under `name`. -/
def Differs (existing incoming : JsonProps) (name : String) : Prop :=
  ∃ v w, existing.get? name = some v ∧ incoming.get? name = some w ∧ v ≠ w

/-- A row without a broker status, or with a null one. -/
def StatusMissing (p : JsonProps) : Prop :=
  p.get? "broker_status" = none ∨ p.get? "broker_status" = some .null

/-- SQL does not know whether the merge completes a partial fill. -/
def CompletionUnknown (existing incoming : JsonProps) : Prop :=
  (StatusMissing existing ∧
      (StatusMissing incoming ∨ incoming.get? "broker_status" = some (.str "filled"))) ∨
    (existing.get? "broker_status" = some (.str "partial") ∧ StatusMissing incoming)

/-- The merge changes exempt properties only, at least one, and SQL does not know whether it
completes a partial fill. -/
structure NullEscape (existing incoming : JsonProps) : Prop where
  changes : ∃ name, Differs existing incoming name
  exempt : ∀ name, Differs existing incoming name → name ∈ Graph.partialCompletionProps
  unknown : CompletionUnknown existing incoming

/-- The upsert and the in-memory law accept the same merge and store the same properties. -/
def AgreesWithMemory (δ : Type) [DecidableEq δ] (existing incoming : JsonProps) (version : Int) :
    Prop :=
  ((mergeNode existing incoming version version).isSome ↔
      ∃ merged, Graph.appendProps (δ := δ) existing.toProps incoming.toProps = .ok merged) ∧
    ∀ stored merged, mergeNode existing incoming version version = some stored →
      Graph.appendProps (δ := δ) existing.toProps incoming.toProps = .ok merged →
        Dict.Same stored.toProps merged

/-! ### What each side counts as a conflict -/

theorem text_eq_none {p : JsonProps} : p.text "broker_status" = none ↔ StatusMissing p := by
  unfold JsonProps.text StatusMissing
  cases h : p.get? "broker_status" with
  | none => simp
  | some v => cases v <;> simp [Json.text]

theorem text_eq_some {p : JsonProps} {s : String} {c : Char} (hs : s.toList.head? = some c)
    (hdigit : c.isDigit = false) (hminus : c ≠ '-') (hbracket : c ≠ '[') :
    p.text "broker_status" = some s ↔ p.get? "broker_status" = some (.str s) := by
  unfold JsonProps.text
  cases h : p.get? "broker_status" with
  | none => simp
  | some v => simp [Json.text_eq_some hs hdigit hminus hbracket]

theorem text_eq_partial {p : JsonProps} :
    p.text "broker_status" = some "partial" ↔ p.get? "broker_status" = some (.str "partial") :=
  text_eq_some (by decide : _ = some 'p') (by decide) (by decide) (by decide)

theorem text_eq_filled {p : JsonProps} :
    p.text "broker_status" = some "filled" ↔ p.get? "broker_status" = some (.str "filled") :=
  text_eq_some (by decide : _ = some 'f') (by decide) (by decide) (by decide)

/-- SQL excuses a difference unless it knows that the difference is not exempt. -/
def Excused (existing incoming : JsonProps) (name : String) : Prop :=
  name ∈ Graph.partialCompletionProps ∧
    (StatusMissing existing ∨ existing.get? "broker_status" = some (.str "partial")) ∧
    (StatusMissing incoming ∨ incoming.get? "broker_status" = some (.str "filled"))

theorem textEq_ne_false {a : Option String} {s : String} :
    Ternary.textEq a (some s) ≠ some false ↔ a = none ∨ a = some s := by
  cases a with
  | none => simp [Ternary.textEq]
  | some t => simp [Ternary.textEq]

theorem rowConflicts_taken {existing incoming : JsonProps} {name : String} {w : Json}
    (hw : incoming.get? name = some w) :
    (rowConflicts existing incoming name w).taken = true ↔
      Differs existing incoming name ∧ ¬ Excused existing incoming name := by
  have hpresent : (Ternary.and (some (decide (name ∈ existing.keys)))
      ((existing.get? name).map fun current => decide (current ≠ w))) = some true ↔
      Differs existing incoming name := by
    rw [Ternary.and_eq_true, Differs]
    cases he : existing.get? name with
    | none => simp
    | some v => simp [hw, Dict.mem_keys_iff, he]
  have hexcused : Ternary.and (Ternary.and
      (Ternary.textEq (existing.text "broker_status") (some "partial"))
      (Ternary.textEq (incoming.text "broker_status") (some "filled")))
      (some (decide (name ∈ Graph.partialCompletionProps))) = some false ↔
      ¬ Excused existing incoming name := by
    rw [Ternary.and_eq_false, Ternary.and_eq_false, Excused, ← text_eq_none, ← text_eq_none,
      ← text_eq_partial, ← text_eq_filled, ← textEq_ne_false, ← textEq_ne_false]
    simp only [Option.some.injEq, decide_eq_false_iff_not, ne_eq]
    tauto
  simp only [rowConflicts, Ternary.taken_iff]
  rw [Ternary.and_eq_true, Ternary.not_eq_true, hpresent, hexcused]

theorem isSome_mergeNode {existing incoming : JsonProps} {version : Int} :
    (mergeNode existing incoming version version).isSome ↔
      ∀ name, Differs existing incoming name → Excused existing incoming name := by
  have hcond : (mergeCondition existing incoming version version).taken = true ↔
      ∀ p ∈ incoming.entries, (rowConflicts existing incoming p.1 p.2).taken = false := by
    rw [Ternary.taken_iff, mergeCondition, Ternary.and_eq_true, Ternary.not_eq_true]
    simp
  unfold mergeNode
  split
  · rename_i h
    have hall := hcond.mp h
    simp only [Option.isSome_some, true_iff]
    rintro name ⟨v, w, hv, hw, hne⟩
    by_contra hexc
    have htaken := (rowConflicts_taken hw).mpr ⟨⟨v, w, hv, hw, hne⟩, hexc⟩
    have hfree := hall (name, w) (Dict.mem_entries_iff.mpr hw)
    rw [htaken] at hfree
    cases hfree
  · rename_i h
    simp only [Option.isSome_none, Bool.false_eq_true, false_iff]
    intro hall
    refine h (hcond.mpr fun p hp => ?_)
    have hget := Dict.mem_entries_iff.mp (show (p.1, p.2) ∈ incoming.entries from hp)
    by_contra hne
    have htaken := (rowConflicts_taken hget).mp (by simpa using hne)
    exact htaken.2 (hall p.1 htaken.1)

section Memory

variable {δ : Type} [DecidableEq δ]

omit [DecidableEq δ] in
theorem get_toProps_eq_str {p : JsonProps} {name s : String} :
    Props.get (p.toProps : Props δ) name = .str s ↔ p.get? name = some (.str s) := by
  simp only [Props.get, JsonProps.toProps, Dict.get?_mapValues]
  cases h : p.get? name with
  | none => simp
  | some v => cases v <;> simp [Json.toValue]

theorem isPartialCompletion_toProps {existing incoming : JsonProps} {name : String} :
    Graph.isPartialCompletion (δ := δ) existing.toProps incoming.toProps name = true ↔
      name ∈ Graph.partialCompletionProps ∧
        existing.get? "broker_status" = some (.str "partial") ∧
        incoming.get? "broker_status" = some (.str "filled") := by
  simp only [Graph.isPartialCompletion, Bool.and_eq_true, decide_eq_true_eq, Value.pyEq_str,
    get_toProps_eq_str, and_assoc]

theorem conflicts_toProps {existing incoming : JsonProps} {name : String} :
    Graph.Conflicts (δ := δ) existing.toProps incoming.toProps name ↔
      Differs existing incoming name ∧
        ¬ Graph.isPartialCompletion (δ := δ) existing.toProps incoming.toProps name = true := by
  simp only [Graph.Conflicts, Differs, JsonProps.toProps, Dict.get?_mapValues,
    Option.map_eq_some_iff,
    Bool.not_eq_true]
  constructor
  · rintro ⟨-, -, ⟨v, hv, rfl⟩, ⟨w, hw, rfl⟩, hne, hp⟩
    rw [Json.pyEq_toValue, decide_eq_false_iff_not] at hne
    exact ⟨⟨v, w, hv, hw, hne⟩, hp⟩
  · rintro ⟨⟨v, w, hv, hw, hne⟩, hp⟩
    refine ⟨_, _, ⟨v, hv, rfl⟩, ⟨w, hw, rfl⟩, ?_, hp⟩
    rw [Json.pyEq_toValue, decide_eq_false_iff_not]
    exact hne

theorem appendProps_accepts {existing incoming : JsonProps} :
    (∃ merged, Graph.appendProps (δ := δ) existing.toProps incoming.toProps = .ok merged) ↔
      ∀ name, Differs existing incoming name → name ∈ Graph.partialCompletionProps ∧
        existing.get? "broker_status" = some (.str "partial") ∧
        incoming.get? "broker_status" = some (.str "filled") := by
  simp only [Graph.appendProps_ok_iff, exists_and_left, exists_eq, and_true]
  refine forall_congr' fun name => ?_
  rw [conflicts_toProps, isPartialCompletion_toProps, not_and, not_not]

omit [DecidableEq δ] in
theorem same_update {existing incoming : JsonProps} :
    Dict.Same (JsonProps.toProps (existing.update incoming))
      ((existing.toProps : Props δ).update incoming.toProps) := by
  intro name
  simp only [JsonProps.toProps, Dict.get?_mapValues, Dict.get?_update]
  cases incoming.get? name <;> rfl

/-- When both backends accept a merge they store the same properties. -/
theorem mergeNode_same {existing incoming stored : JsonProps} {merged : Props δ} {version : Int}
    (h : mergeNode existing incoming version version = some stored)
    (hm : Graph.appendProps existing.toProps incoming.toProps = .ok merged) :
    Dict.Same stored.toProps merged := by
  unfold mergeNode at h
  split at h
  · cases h
    rw [(Graph.appendProps_ok_iff.mp hm).2]
    exact same_update
  · cases h

variable (δ)

theorem agreesWithMemory_iff (existing incoming : JsonProps) (version : Int) :
    AgreesWithMemory δ existing incoming version ↔ ¬ NullEscape existing incoming := by
  have hsame : AgreesWithMemory δ existing incoming version ↔
      ((mergeNode existing incoming version version).isSome ↔
        ∃ merged, Graph.appendProps (δ := δ) existing.toProps incoming.toProps = .ok merged) :=
    and_iff_left fun _ _ => mergeNode_same
  rw [hsame, isSome_mergeNode, appendProps_accepts]
  constructor
  · rintro hiff ⟨⟨name, hd⟩, hexempt, hunknown⟩
    have hexcused : ∀ n, Differs existing incoming n → Excused existing incoming n := by
      intro n hn
      refine ⟨hexempt n hn, ?_⟩
      rcases hunknown with ⟨he, hi⟩ | ⟨he, hi⟩
      · exact ⟨.inl he, hi⟩
      · exact ⟨.inr he, .inl hi⟩
    have hknown := (hiff.mp hexcused name hd).2
    rcases hunknown with ⟨he, -⟩ | ⟨-, hi⟩
    · rcases he with he | he <;> simp [hknown.1] at he
    · rcases hi with hi | hi <;> simp [hknown.2] at hi
  · intro hescape
    constructor
    · intro hexcused name hd
      obtain ⟨hexempt, he, hi⟩ := hexcused name hd
      have hknown : ¬ CompletionUnknown existing incoming := fun hu =>
        hescape ⟨⟨name, hd⟩, fun n hn => (hexcused n hn).1, hu⟩
      unfold CompletionUnknown at hknown
      refine ⟨hexempt, ?_⟩
      tauto
    · intro hmem name hd
      obtain ⟨hexempt, he, hi⟩ := hmem name hd
      exact ⟨hexempt, .inr he, .inr hi⟩

/-- A row whose broker status is missing takes a new price from a fill report, which the in-memory
store refuses. -/
theorem upsert_accepts_refused_price :
    ¬ AgreesWithMemory Empty (Dict.ofList [("broker_price_cents", .int 100)])
      (Dict.ofList [("broker_status", .str "filled"), ("broker_price_cents", .int 200)]) 1 := by
  intro h
  have hsql : (mergeNode (Dict.ofList [("broker_price_cents", .int 100)])
      (Dict.ofList [("broker_status", .str "filled"), ("broker_price_cents", .int 200)])
      1 1).isSome = true := by decide
  obtain ⟨merged, hm⟩ := h.1.mp hsql
  have hrefused : Graph.appendProps (δ := Empty)
      (JsonProps.toProps (Dict.ofList [("broker_price_cents", .int 100)]))
      (JsonProps.toProps
        (Dict.ofList [("broker_status", .str "filled"), ("broker_price_cents", .int 200)])) =
      .error (.overwritten "broker_price_cents") := by rfl
  rw [hrefused] at hm
  cases hm

end Memory

end GraphPostgres

end TradingAgents.Kernel
