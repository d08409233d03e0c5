import Mathlib.Data.List.Sort
import Mathlib.Data.String.Basic
import TradingAgents.Contracts.Documents
import TradingAgents.Kernel.Writes
import TradingAgents.ProofKit.Text

/-! Position divergences and their flags: what a snapshot finds between the graph and the broker,
which flags of an identity are open, and the writes that one pass over a snapshot makes. -/

namespace TradingAgents.Execution

open Kernel ProofKit

/-! ### Divergences -/

inductive DivergenceKind where
  | missingGraphPosition
  | extraGraphPosition
  | qtyMismatch
deriving DecidableEq

def DivergenceKind.text : DivergenceKind → String
  | missingGraphPosition => "missing_graph_position"
  | extraGraphPosition => "extra_graph_position"
  | qtyMismatch => "qty_mismatch"

/-- One disagreement between the graph and the broker. -/
structure Divergence where
  kind : DivergenceKind
  ticker : String
  detail : String

/-- A divergence stands for its kind and ticker across snapshots. -/
def Divergence.identity (d : Divergence) : String × String := (d.kind.text, d.ticker)

def Divergence.text (d : Divergence) : String :=
  d.kind.text ++ " " ++ d.ticker ++ " " ++ d.detail

def sortedTexts (l : List String) : List String := l.insertionSort (· ≤ ·)

/-- What the graph and the broker disagree about, by ticker. -/
def positionDivergences (graphQty brokerQty : Dict String Int) : List Divergence :=
  let missing := sortedTexts (brokerQty.keys.filter fun t => decide (t ∉ graphQty.keys))
  let extra := sortedTexts (graphQty.keys.filter fun t => decide (t ∉ brokerQty.keys))
  let shared := sortedTexts (brokerQty.keys.filter fun t => decide (t ∈ graphQty.keys))
  let qty (quantities : Dict String Int) (t : String) := (quantities.get? t).getD 0
  (missing.map fun t =>
    ⟨.missingGraphPosition, t, "broker_qty=" ++ toString (qty brokerQty t)⟩) ++
  (extra.map fun t => ⟨.extraGraphPosition, t, "graph_qty=" ++ toString (qty graphQty t)⟩) ++
  ((shared.filter fun t => decide (qty graphQty t ≠ qty brokerQty t)).map fun t =>
    ⟨.qtyMismatch, t, "graph_qty=" ++ toString (qty graphQty t) ++ " broker_qty=" ++
      toString (qty brokerQty t)⟩)

/-! ### Episodes -/

def divergencePrefix : String := "broker-position-divergence:"

def legacyPrefix : String := divergencePrefix ++ "broker-position-snapshot:"

def startsWith (s pre : String) : Bool := pre.toList.isPrefixOf s.toList

def propText (n : PipelineNode) (name default : String) : String :=
  ((n.props.get? name).bind Value.str?).getD default

/-- The subject and severity on which readers join a flag with its resolution. -/
def flagJoin (n : PipelineNode) : String × String :=
  (propText n "subject_ref" "", propText n "severity" "critical")

/-- The first two fields of a subject after the family's prefix. -/
def subjectIdentity (subjectRef : String) : String × String :=
  let fields := if startsWith subjectRef divergencePrefix then
    subjectRef.toList.drop divergencePrefix.length else subjectRef.toList
  let rest := (fields.dropWhile (· ≠ ':')).drop 1
  (String.ofList (fields.takeWhile (· ≠ ':')), String.ofList (rest.takeWhile (· ≠ ':')))

/-- The open flags of one identity, by severity. -/
abbrev Episode := Dict String PipelineNode

/-- A flag of the family, in the form that runs write. -/
def inFamily (subjectRef : String) : Bool :=
  startsWith subjectRef divergencePrefix && !startsWith subjectRef legacyPrefix

def openEpisodes (flags resolutions : List PipelineNode) : Dict (String × String) Episode :=
  let resolved := resolutions.map flagJoin
  flags.foldl (fun episodes flag =>
    let (subjectRef, severity) := flagJoin flag
    if inFamily subjectRef = true ∧ (subjectRef, severity) ∉ resolved then
      let identity := subjectIdentity subjectRef
      episodes.set identity (((episodes.get? identity).getD .empty).set severity flag)
    else episodes) .empty

/-! ### One pass -/

def divergenceFlagLabel : String := "Flag"

def divergenceResolutionLabel : String := "FlagResolution"

/-- The subject of one episode of a divergence; `episode` is the key of the snapshot that first saw
it. -/
def subjectRefFor (d : Divergence) (episode : String) : String :=
  divergencePrefix ++ d.kind.text ++ ":" ++ d.ticker ++ ":" ++ episode

def divergenceFlagKey (subjectRef severity : String) : String :=
  "flag:" ++ subjectRef ++ ":" ++ severity

/-- A write of a pass, when the clock reads the given text. -/
abbrev TimedWrite := String → Write Document

/-- A pass in progress: the writes it has decided on, and the flag keys that are spent. -/
structure FlagPass where
  writes : List TimedWrite
  written : List String

def flagReason (snapshotKey severity : String) (d : Divergence) : String :=
  (if severity = "warn" then "Broker position divergence at run start (" ++ snapshotKey ++ ")"
    else "Divergence survived a full run without adoption (" ++ snapshotKey ++ ")") ++
    ":\n- " ++ d.text

/-- Write a flag unless its key is spent; whether it was written comes first. -/
def FlagPass.writeFlag (p : FlagPass) (subjectRef severity snapshotKey : String) (d : Divergence) :
    Bool × FlagPass :=
  let key := divergenceFlagKey subjectRef severity
  if key ∈ p.written then (false, p)
  else
    let flag : TimedWrite := fun now => .merge divergenceFlagLabel key (.ofList [
      ("subject_ref", .str subjectRef),
      ("severity", .str severity),
      ("reason", .str (flagReason snapshotKey severity d)),
      ("status", .str "pending"),
      ("created_at", .str now)])
    (true, ⟨p.writes ++ [flag], key :: p.written⟩)

/-- Append the resolution of an open flag. -/
def FlagPass.close (p : FlagPass) (flag : PipelineNode) (snapshotKey reason : String) : FlagPass :=
  let (subjectRef, severity) := flagJoin flag
  let key := "resolution:" ++ divergenceFlagKey subjectRef severity
  let resolution : TimedWrite := fun now => .merge divergenceResolutionLabel key (.ofList [
    ("subject_ref", .str subjectRef),
    ("severity", .str severity),
    ("resolved_at", .str now),
    ("resolved_by", .str "run-start-reconciliation"),
    ("resolution_reason", .str reason),
    ("resolving_snapshot_key", .str snapshotKey)])
  let edge : TimedWrite := fun _ =>
    .link ⟨(divergenceResolutionLabel, key), flag.nodeKey, "RESOLVES"⟩
  { p with writes := p.writes ++ [resolution, edge] }

def FlagPass.escalate (p : FlagPass) (snapshotKey : String) (d : Divergence)
    (warn : PipelineNode) : Bool × FlagPass :=
  let subjectRef := propText warn "subject_ref" ""
  if subjectRef = subjectRefFor d snapshotKey then (false, p)
  else p.writeFlag subjectRef "critical" snapshotKey d

def FlagPass.advance (p : FlagPass) (snapshotKey : String) (d : Divergence) (episode : Episode) :
    FlagPass :=
  match episode.get? "warn", episode.get? "critical" with
  | none, none => (p.writeFlag (subjectRefFor d snapshotKey) "warn" snapshotKey d).2
  | none, some _ => p
  | some warn, none =>
    let (escalated, p) := p.escalate snapshotKey d warn
    if escalated then p.close warn snapshotKey "superseded by critical" else p
  | some warn, some _ => p.close warn snapshotKey "superseded by critical"

/-- The loop over the divergences of a snapshot: the pass, and the episodes that are left. -/
def advanceAll (snapshotKey : String) : List Divergence →
    FlagPass × Dict (String × String) Episode → FlagPass × Dict (String × String) Episode
  | [], state => state
  | d :: rest, (p, episodes) =>
    let episode := (episodes.get? d.identity).getD .empty
    advanceAll snapshotKey rest (p.advance snapshotKey d episode, episodes.erase d.identity)

def closeAll (p : FlagPass) (flags : List PipelineNode) (snapshotKey : String) : FlagPass :=
  flags.foldl (fun p flag => p.close flag snapshotKey "divergence no longer present") p

/-- The writes of one pass over a snapshot. -/
def recordDivergences (g : PipelineGraph) (snapshotKey : String) (divergences : List Divergence) :
    List TimedWrite :=
  let flags := g.listNodes divergenceFlagLabel
  let episodes := openEpisodes flags (g.listNodes divergenceResolutionLabel)
  let (p, left) := advanceAll snapshotKey divergences (⟨[], flags.map Node.key⟩, episodes)
  let leftFlags := left.entries.flatMap fun e => e.2.entries.map Prod.snd
  (closeAll p leftFlags snapshotKey).writes

end TradingAgents.Execution
