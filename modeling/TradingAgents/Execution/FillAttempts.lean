import Mathlib.Data.List.Sort
import TradingAgents.Contracts.AttemptKeys
import TradingAgents.Contracts.Documents

/-! Fill attempt chains: a broker idempotency key owns the Fill nodes of its attempts, the first one
under the key itself and the later ones under numbered keys. -/

namespace TradingAgents.Execution

open Kernel ProofKit

def fillLabel : String := "Fill"

/-- The graph key and properties of one append-safe Fill attempt. -/
structure FillAttempt where
  key : String
  ordinal : Nat
  props : Props Document

def fillAttemptKey (brokerKey : String) (ordinal : Nat) : String := attemptKey brokerKey ordinal

def withAttemptProps (props : Props Document) (brokerKey : String) (ordinal : Nat) :
    Props Document :=
  (props.set "broker_idempotency_key" (.str brokerKey)).set "attempt_ordinal" (.int ordinal)

/-- Whether no new property contradicts an existing one. -/
def propsCompatible (existing newProps : Props Document) : Bool :=
  newProps.entries.all fun p =>
    match existing.get? p.1 with
    | none => true
    | some current => current.pyEq p.2

/-- Whether a Fill attempt may stand under the key of this ordinal. -/
def attemptFits (g : PipelineGraph) (brokerKey : String) (props : Props Document)
    (forceNew : Bool) (ordinal : Nat) : Bool :=
  match g.getNode fillLabel (fillAttemptKey brokerKey ordinal) with
  | none => true
  | some current =>
    !forceNew && propsCompatible current.props (withAttemptProps props brokerKey ordinal)

/-- An existing compatible attempt, or the first free ordinal.  The loop over the ordinals ends at
the latest after one more than there are Fill nodes. -/
def selectFillAttempt (g : PipelineGraph) (brokerKey : String) (props : Props Document)
    (forceNew : Bool := false) : FillAttempt :=
  let ordinal := firstOrdinal (g.listNodes fillLabel).length
    (attemptFits g brokerKey props forceNew)
  ⟨fillAttemptKey brokerKey ordinal, ordinal, withAttemptProps props brokerKey ordinal⟩

/-- A key without the base, when it starts with it. -/
def removePrefix (key base : String) : List Char :=
  if base.toList.isPrefixOf key.toList then key.toList.drop base.toList.length else key.toList

/-- The ordinal that a key's numbered suffix over a base gives. -/
def suffixOrdinal (base key : String) : Option Nat :=
  match removePrefix key base with
  | '#' :: digits =>
    if digits ≠ [] ∧ digits.all Char.isDigit then some (Nat.ofDigitChars 10 digits 0) else none
  | _ => none

/-- A Fill node's attempt ordinal, from its properties or its key's suffix. -/
def attemptOrdinal (n : PipelineNode) (brokerKey : String) : Int :=
  match n.get "attempt_ordinal" with
  | .int i => i
  | .bool b => if b then 1 else 0
  | _ => (suffixOrdinal brokerKey n.key).getD 0

def belongsToChain (brokerKey : String) (n : PipelineNode) : Bool :=
  (n.get "broker_idempotency_key").pyEq (.str brokerKey) || decide (n.key = brokerKey) ||
    (suffixOrdinal brokerKey n.key).isSome

/-- The Fill nodes of one broker key, ordered by attempt. -/
def fillAttemptChain (g : PipelineGraph) (brokerKey : String) : List PipelineNode :=
  ((g.listNodes fillLabel).filter (belongsToChain brokerKey)).insertionSort
    fun a b => attemptOrdinal a brokerKey ≤ attemptOrdinal b brokerKey

def latestFillAttempt (g : PipelineGraph) (brokerKey : String) : Option PipelineNode :=
  (fillAttemptChain g brokerKey).getLast?

/-- The broker key that owns a Fill node. -/
def brokerIdempotencyKey (n : PipelineNode) : String :=
  match n.get "broker_idempotency_key" with
  | .str s => if s = "" then untilSeparator n.key else s
  | _ => untilSeparator n.key
where
  /-- The part of a key before its first separator. -/
  untilSeparator (key : String) : String := String.ofList (key.toList.takeWhile (· ≠ '#'))

/-! ### The selected attempt -/

theorem exists_attemptFits (g : PipelineGraph) (brokerKey : String) (props : Props Document)
    (forceNew : Bool) :
    ∃ n ≤ (g.listNodes fillLabel).length, attemptFits g brokerKey props forceNew n = true := by
  obtain ⟨n, hn, hfree⟩ := exists_free_attempt brokerKey ((g.listNodes fillLabel).map Node.key)
  refine ⟨n, by simpa using hn, ?_⟩
  rw [attemptFits, fillAttemptKey, Graph.getNode_eq_none_of_notMem hfree]

/-- The selected attempt is the first one that fits. -/
theorem selectFillAttempt_spec (g : PipelineGraph) (brokerKey : String) (props : Props Document)
    (forceNew : Bool) :
    let attempt := selectFillAttempt g brokerKey props forceNew
    attempt.key = fillAttemptKey brokerKey attempt.ordinal ∧
      attempt.props = withAttemptProps props brokerKey attempt.ordinal ∧
      attemptFits g brokerKey props forceNew attempt.ordinal = true ∧
      ∀ m < attempt.ordinal, attemptFits g brokerKey props forceNew m = false := by
  obtain ⟨hfits, hmin⟩ := firstOrdinal_spec (exists_attemptFits g brokerKey props forceNew)
  exact ⟨rfl, rfl, hfits, hmin⟩

theorem propsCompatible_iff {existing newProps : Props Document} :
    propsCompatible existing newProps = true ↔
      ∀ name v w, existing.get? name = some v → newProps.get? name = some w → v.pyEq w = true := by
  simp only [propsCompatible, List.all_eq_true]
  constructor
  · intro h name v w hv hw
    have := h (name, w) (Dict.mem_entries_iff.mpr hw)
    simpa [hv] using this
  · intro h p hp
    have hw := Dict.mem_entries_iff.mp (show (p.1, p.2) ∈ newProps.entries from hp)
    cases hv : existing.get? p.1 with
    | none => rfl
    | some v => exact h p.1 v p.2 hv hw

/-- Compatible properties merge. -/
theorem appendProps_of_compatible {existing newProps : Props Document}
    (h : propsCompatible existing newProps = true) :
    Graph.appendProps existing newProps = .ok (existing.update newProps) := by
  rw [Graph.appendProps_ok_iff]
  refine ⟨fun name hc => ?_, rfl⟩
  obtain ⟨v, w, hv, hw, hne, -⟩ := hc
  rw [propsCompatible_iff.mp h name v w hv hw] at hne
  cases hne

/-! ### Writes of Fills -/

/-- Nothing but Fill nodes changes, and these keep their properties and their broker status. -/
structure FillsGrow (g g' : PipelineGraph) : Prop where
  others : ∀ label key, label ≠ fillLabel → g'.getNode label key = g.getNode label key
  fills : ∀ key node, g.getNode fillLabel key = some node →
    ∃ after, g'.getNode fillLabel key = some after ∧ Graph.NodeGrows node after ∧
      after.props.get? "broker_status" = node.props.get? "broker_status"

/-- A merge into a Fill that names no broker status. -/
theorem mergeFill_grows {g g' : PipelineGraph} {key : String} {props : Props Document}
    {node : PipelineNode} (hprops : props.get? "broker_status" = none)
    (h : g.mergeNode fillLabel key props = .ok (g', node)) : FillsGrow g g' := by
  have hget := Graph.mergeNode_get? h "broker_status"
  have hgrows : ∀ current, g.getNode fillLabel key = some current → Graph.NodeGrows current node :=
    fun current hc => Graph.mergeNode_grows h hc
  obtain ⟨rfl, hl, hk, -⟩ := Graph.mergeNode_ok h
  refine ⟨fun label k hne => ?_, fun k current hc => ?_⟩
  · rw [Graph.getNode_put, if_neg]
    rintro ⟨rfl, -⟩
    exact hne hl
  · by_cases hkey : k = key
    · subst hkey
      refine ⟨node, by rw [Graph.getNode_put, if_pos ⟨hl.symm, hk.symm⟩], hgrows current hc, ?_⟩
      rw [hget, hprops, hc]
      rfl
    · refine ⟨current, ?_, .refl current, rfl⟩
      rw [Graph.getNode_put, if_neg, hc]
      rintro ⟨-, rfl⟩
      exact hkey hk

end TradingAgents.Execution
