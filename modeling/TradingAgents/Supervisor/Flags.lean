import TradingAgents.Contracts.Documents
import TradingAgents.ProofKit.Fallible

/-! The human-review flags of the supervisor: a flag is raised once for its subject and severity,
and a human's answer is the resolution that stands under the flag's key. -/

namespace TradingAgents.Supervisor

open Kernel ProofKit

def flagLabel : String := "Flag"

def flagResolutionLabel : String := "FlagResolution"

inductive Severity where
  | info
  | warn
  | critical
deriving DecidableEq, Repr

def Severity.value : Severity → String
  | info => "info"
  | warn => "warn"
  | critical => "critical"

def flagKey (subjectRef : String) (severity : Severity) : String :=
  "flag:" ++ subjectRef ++ ":" ++ severity.value

def resolutionKey (subjectRef : String) (severity : Severity) : String :=
  "resolution:" ++ flagKey subjectRef severity

def flagProps (subjectRef : String) (severity : Severity) (reason now status : String) :
    Props Document :=
  .ofList [
    ("subject_ref", .str subjectRef),
    ("severity", .str severity.value),
    ("reason", .str reason),
    ("status", .str status),
    ("created_at", .str now)]

/-- Write one idempotent human-review flag node. -/
def writeFlag (g : PipelineGraph) (subjectRef : String) (severity : Severity) (reason now : String)
    (status : String := "pending") : Except HandlerError PipelineGraph :=
  match g.getNode flagLabel (flagKey subjectRef severity) with
  | some _ => pure g
  | none => do
    let (g, _) ← liftGraph (g.mergeNode flagLabel (flagKey subjectRef severity)
      (flagProps subjectRef severity reason now status))
    pure g

/-- Append the resolution of a flag that stands. -/
def resolveFlag (g : PipelineGraph) (subjectRef : String) (severity : Severity) (now : String) :
    Except HandlerError PipelineGraph :=
  match g.getNode flagLabel (flagKey subjectRef severity) with
  | none => pure g
  | some flag =>
    match g.getNode flagResolutionLabel (resolutionKey subjectRef severity) with
    | some _ => pure g
    | none => do
      let (g, resolution) ← liftGraph (g.mergeNode flagResolutionLabel
        (resolutionKey subjectRef severity) (.ofList [
          ("subject_ref", .str subjectRef),
          ("severity", .str severity.value),
          ("resolved_at", .str now)]))
      liftGraph (g.addEdge resolution.nodeKey flag.nodeKey "RESOLVES")

section Writes

variable {g g' : PipelineGraph} {subjectRef reason now status : String} {severity : Severity}

/-- A raised flag stands, and no other node changed. -/
structure FlagRaised (g g' : PipelineGraph) (subjectRef : String) (severity : Severity) : Prop where
  stands : (g'.getNode flagLabel (flagKey subjectRef severity)).isSome = true
  others : ∀ label key, label ≠ flagLabel ∨ key ≠ flagKey subjectRef severity →
    g'.getNode label key = g.getNode label key
  lists : ∀ label, label ≠ flagLabel → g'.listNodes label = g.listNodes label

theorem writeFlag_ok (h : writeFlag g subjectRef severity reason now status = .ok g') :
    FlagRaised g g' subjectRef severity := by
  unfold writeFlag at h
  split at h
  · rename_i flag hflag
    cases h
    exact ⟨by rw [hflag]; rfl, fun _ _ _ => rfl, fun _ _ => rfl⟩
  · obtain ⟨⟨g₁, node⟩, hm, hret⟩ := Fallible.bind_eq_ok.mp h
    cases hret
    rw [liftGraph_eq_ok] at hm
    obtain ⟨rfl, hlabel, hkey, -⟩ := Graph.mergeNode_ok hm
    refine ⟨?_, fun label key hne => ?_, fun label hne => ?_⟩
    · rw [Graph.getNode_put, if_pos ⟨hlabel.symm, hkey.symm⟩]
      rfl
    · rw [Graph.getNode_put, if_neg]
      rintro ⟨rfl, rfl⟩
      exact hne.elim (fun hl => hl hlabel) fun hk => hk hkey
    · exact Graph.listNodes_put_of_ne fun hl => hne (hl.symm.trans hlabel)

/-- A flag that stands is not written again, and a new one is written in full. -/
theorem writeFlag_get (h : writeFlag g subjectRef severity reason now status = .ok g') :
    g'.getNode flagLabel (flagKey subjectRef severity) =
      some ((g.getNode flagLabel (flagKey subjectRef severity)).getD ⟨flagLabel,
        flagKey subjectRef severity, flagProps subjectRef severity reason now status, 1⟩) := by
  unfold writeFlag at h
  split at h
  · rename_i flag hflag
    cases h
    rw [hflag]
    rfl
  · rename_i hfree
    obtain ⟨⟨g₁, node⟩, hm, hret⟩ := Fallible.bind_eq_ok.mp h
    cases hret
    rw [liftGraph_eq_ok] at hm
    obtain ⟨rfl, hlabel, hkey, hversion, ⟨-, hprops⟩ | ⟨current, hcurrent, -⟩⟩ :=
      Graph.mergeNode_ok hm
    · have hnode : node = ⟨flagLabel, flagKey subjectRef severity,
          flagProps subjectRef severity reason now status, 1⟩ := by
        cases node
        simp_all
      rw [Graph.getNode_put, if_pos ⟨hlabel.symm, hkey.symm⟩, hfree, hnode]
      rfl
    · rw [hfree] at hcurrent
      cases hcurrent

/-- A resolution is written only where its flag stands, and no other node changes. -/
structure FlagAnswered (g g' : PipelineGraph) (subjectRef : String) (severity : Severity) :
    Prop where
  flagged : g'.getNode flagResolutionLabel (resolutionKey subjectRef severity) =
      g.getNode flagResolutionLabel (resolutionKey subjectRef severity) ∨
    (g.getNode flagLabel (flagKey subjectRef severity)).isSome = true
  others : ∀ label key, label ≠ flagResolutionLabel ∨ key ≠ resolutionKey subjectRef severity →
    g'.getNode label key = g.getNode label key
  lists : ∀ label, label ≠ flagResolutionLabel → g'.listNodes label = g.listNodes label
  kept : ∀ label key, (g.getNode label key).isSome = true → (g'.getNode label key).isSome = true

theorem FlagAnswered.refl (g : PipelineGraph) (subjectRef : String) (severity : Severity) :
    FlagAnswered g g subjectRef severity :=
  ⟨.inl rfl, fun _ _ _ => rfl, fun _ _ => rfl, fun _ _ h => h⟩

theorem resolveFlag_ok (h : resolveFlag g subjectRef severity now = .ok g') :
    FlagAnswered g g' subjectRef severity := by
  unfold resolveFlag at h
  split at h
  · cases h
    exact .refl g subjectRef severity
  rename_i flag hflag
  split at h
  · cases h
    exact .refl g subjectRef severity
  obtain ⟨⟨g₁, node⟩, hm, hedge⟩ := Fallible.bind_eq_ok.mp h
  rw [liftGraph_eq_ok] at hm hedge
  obtain ⟨hnodes, -⟩ := Graph.addEdge_ok hedge
  obtain ⟨rfl, hlabel, hkey, -⟩ := Graph.mergeNode_ok hm
  have hget := Graph.getNode_of_nodes_eq hnodes
  refine ⟨.inr (by rw [hflag]; rfl), fun label key hne => ?_, fun label hne => ?_,
    fun label key hsome => ?_⟩
  · rw [hget, Graph.getNode_put, if_neg]
    rintro ⟨rfl, rfl⟩
    exact hne.elim (fun hl => hl hlabel) fun hk => hk hkey
  · rw [Graph.listNodes_of_nodes_eq hnodes]
    exact Graph.listNodes_put_of_ne fun hl => hne (hl.symm.trans hlabel)
  · rw [hget, Graph.getNode_put]
    split
    · rfl
    · exact hsome

end Writes

end TradingAgents.Supervisor
