import TradingAgents.Contracts.RunPosture
import TradingAgents.Kernel.Listing
import TradingAgents.Orchestration.FillOutcomes
import TradingAgents.ProofKit.Effects
import TradingAgents.ProofKit.Moment
import TradingAgents.ProofKit.Text

/-! The answers to a held run.  An answer is an append-only fact under its run, its source and an
ordinal; the effective answer of a run is the first of the earliest in the order in which the store
lists them. -/

namespace TradingAgents.Orchestration

open Kernel ProofKit

def runHoldAnswerLabel : String := "RunHoldAnswer"

inductive Answer where
  | runNow
  | skipToday
deriving DecidableEq, Repr

def Answer.value : Answer → String
  | runNow => "run_now"
  | skipToday => "skip_today"

/-- The answer that a property holds, if it is a legal one. -/
def Answer.ofValue (v : Value Document) : Option Answer :=
  [Answer.runNow, .skipToday].find? fun a => v = .str a.value

inductive AnswerSource where
  | telegram
  | dashboard
deriving DecidableEq, Repr

def AnswerSource.value : AnswerSource → String
  | telegram => "telegram"
  | dashboard => "dashboard"

/-! ### The desk -/

/-- What the dispatcher has asked Telegram to do. -/
inductive Sent where
  | holdNotice (runId : String) (failures : List String) (actBy : String)
  | degradedNotice (runId : String) (failures : List String)
  | ackButton (callbackQueryId text : String)
  | confirm (upToUpdateId : Int)
deriving DecidableEq, Repr

/-- The graph, what was sent, and the messages of the faults. -/
structure Desk where
  graph : PipelineGraph
  sent : List Sent
  faults : List String

inductive DispatchError where
  | graph (e : GraphError)
  | calendarWindowExceeded (message : String)
  | valueError (message : String)
deriving DecidableEq, Repr

/-- A program of the dispatcher: what it wrote before it raised stays. -/
abbrev Dispatch (α : Type) := EStateM DispatchError Desk α

def graphMerge (label key : String) (props : Props Document) : Dispatch PipelineNode := do
  let d ← get
  match d.graph.mergeNode label key props with
  | .ok (g, n) =>
    set { d with graph := g }
    pure n
  | .error e => throw (.graph e)

/-! ### Answer facts -/

/-- The arguments of a recording. -/
structure AnswerFact where
  runId : String
  asOf : Day
  answer : Answer
  source : AnswerSource
  answeredAt : Moment
  updateId : Int

def AnswerFact.props (fact : AnswerFact) : Props Document := .ofList [
  ("run_id", .str fact.runId),
  ("as_of", .str fact.asOf.isoformat),
  ("answer", .str fact.answer.value),
  ("source", .str fact.source.value),
  ("answered_at", .str fact.answeredAt.isoformat),
  ("update_id", .int fact.updateId)]

def answerKey (runId : String) (source : AnswerSource) (ordinal : Nat) : String :=
  "answer:" ++ runId ++ ":" ++ source.value ++ ":" ++ toString ordinal

def isAnswerFrom (runId : String) (source : AnswerSource) (n : PipelineNode) : Bool :=
  decide (n.get "run_id" = .str runId) && decide (n.get "source" = .str source.value)

/-- Append one answer unless a Telegram update was already recorded. -/
def recordAnswer (b : Backend) (fact : AnswerFact) : Dispatch Bool := do
  let d ← get
  let answers := b.listNodes d.graph runHoldAnswerLabel
  if decide (fact.updateId ≠ 0) &&
      answers.any fun n => (n.get "update_id").pyEq (.int fact.updateId) then
    pure false
  else
    let ordinal := 1 + answers.countP (isAnswerFrom fact.runId fact.source)
    let _ ← graphMerge runHoldAnswerLabel (answerKey fact.runId fact.source ordinal) fact.props
    pure true

/-- `str(props.get("answered_at", ""))`. -/
def answeredAt (n : PipelineNode) : String :=
  match n.props.get? "answered_at" with
  | some v => valueText v
  | none => ""

def isAnswerTo (runId : String) (n : PipelineNode) : Bool :=
  decide (n.get "run_id" = .str runId) && (Answer.ofValue (n.get "answer")).isSome

/-- The fact of the effective answer. -/
def effectiveFact (b : Backend) (g : PipelineGraph) (runId : String) : Option PipelineNode :=
  b.first (isAnswerTo runId) answeredAt g runHoldAnswerLabel

/-- The earliest valid answer for one scheduled run. -/
def effectiveAnswer (b : Backend) (g : PipelineGraph) (runId : String) : Option Answer :=
  (effectiveFact b g runId).bind fun n => Answer.ofValue (n.get "answer")

/-! ### Keys -/

theorem AnswerSource.value_colon (source : AnswerSource) : ¬ Text.Holds ':' source.value := by
  cases source <;> decide

theorem AnswerSource.value_injective {s t : AnswerSource} (h : s.value = t.value) : s = t := by
  revert h
  cases s <;> cases t <;> decide

@[simp] theorem Answer.ofValue_value (a : Answer) : Answer.ofValue (.str a.value) = some a := by
  cases a <;> decide

theorem answerKey_injective {runId runId' : String} {source source' : AnswerSource} {n n' : Nat}
    (h : answerKey runId source n = answerKey runId' source' n') :
    runId = runId' ∧ source = source' ∧ n = n' := by
  obtain ⟨hleft, hn⟩ := Text.split_right (c := ':') (Text.not_holds_nat (by decide))
    (Text.not_holds_nat (by decide)) h
  obtain ⟨hrun, hsource⟩ := Text.split_right (c := ':') source.value_colon source'.value_colon hleft
  exact ⟨(String.append_right_inj _).mp hrun, AnswerSource.value_injective hsource,
    Text.repr_injective hn⟩

/-- The keys of a run differ behind a common beginning. -/
theorem answerKey_lt {runId : String} {source source' : AnswerSource} {n n' : Nat}
    (h : source.value.toList ++ ':' :: (toString n).toList <
      source'.value.toList ++ ':' :: (toString n').toList) :
    answerKey runId source n < answerKey runId source' n' := by
  have hcolon : (":" : String).toList = [':'] := String.toList_singleton ':'
  have hsplit : ∀ (s : AnswerSource) (k : Nat), (answerKey runId s k).toList =
      ("answer:" ++ runId ++ ":").toList ++ (s.value.toList ++ ':' :: (toString k).toList) := by
    intro s k
    unfold answerKey
    simp only [String.toList_append, hcolon, List.append_assoc, List.cons_append, List.nil_append]
  rw [String.lt_iff_toList_lt, hsplit, hsplit]
  exact List.append_left_lt h

/-- An answer on the dashboard is listed before one in Telegram. -/
theorem dashboard_lt_telegram (runId : String) (n n' : Nat) :
    answerKey runId .dashboard n < answerKey runId .telegram n' := by
  apply answerKey_lt
  have hd : AnswerSource.dashboard.value.toList = 'd' :: "ashboard".toList := rfl
  have ht : AnswerSource.telegram.value.toList = 't' :: "elegram".toList := rfl
  rw [hd, ht, List.cons_append, List.cons_append, List.cons_lt_cons_iff]
  exact .inl (by decide)

/-- The first answer of a source is listed before its others. -/
theorem first_lt_later (runId : String) (source : AnswerSource) {n : Nat} (h : 2 ≤ n) :
    answerKey runId source 1 < answerKey runId source n := by
  apply answerKey_lt
  apply List.append_left_lt
  exact List.cons_lt_cons_iff.mpr (.inr ⟨rfl, Text.one_lt_repr h⟩)

/-! ### A recording -/

/-- A merge writes what the store gives back, or leaves the desk as it was. -/
theorem graphMerge_ends (label key : String) (props : Props Document) (d : Desk) :
    Ends (graphMerge label key props) d
      (fun n t => ∃ g, d.graph.mergeNode label key props = .ok (g, n) ∧ t = { d with graph := g })
      (fun t => t = d) := by
  refine Ends.bind (Ends.get (Q := fun a t => a = d ∧ t = d) ⟨rfl, rfl⟩) ?_
  rintro _ _ ⟨rfl, rfl⟩
  cases hm : Graph.mergeNode _ label key props with
  | ok r => exact ⟨r.1, rfl, rfl⟩
  | error e => exact Ends.throw rfl

/-- The facts of a run's answers. -/
def answersOf (g : PipelineGraph) (runId : String) : List PipelineNode :=
  (g.listNodes runHoldAnswerLabel).filter fun n => n.get "run_id" = .str runId

def fromSource (source : AnswerSource) (n : PipelineNode) : Bool :=
  decide (n.get "source" = .str source.value)

/-- The key that a recording writes to. -/
def nextKey (g : PipelineGraph) (runId : String) (source : AnswerSource) : String :=
  answerKey runId source (1 + (answersOf g runId).countP (fromSource source))

/-- A recording leaves the desk as it was or writes the fact under its key. -/
theorem recordAnswer_ends (b : Backend) (fact : AnswerFact) (d : Desk) :
    Ends (recordAnswer b fact) d
      (fun _ t => t = d ∨ ∃ g n, d.graph.mergeNode runHoldAnswerLabel
        (nextKey d.graph fact.runId fact.source) fact.props = .ok (g, n) ∧
          t = { d with graph := g })
      (fun t => t = d) := by
  refine Ends.bind (Ends.get (Q := fun a t => a = d ∧ t = d) ⟨rfl, rfl⟩) ?_
  rintro _ _ ⟨rfl, rfl⟩
  dsimp only
  split
  · exact Ends.pure (.inl rfl)
  · rename_i a _
    have hcount : (b.listNodes a.graph runHoldAnswerLabel).countP
        (isAnswerFrom fact.runId fact.source) =
        (answersOf a.graph fact.runId).countP (fromSource fact.source) := by
      rw [(b.perm_listNodes a.graph runHoldAnswerLabel).countP_eq, answersOf, List.countP_filter]
      refine List.countP_congr fun n _ => ?_
      simp only [isAnswerFrom, fromSource, Bool.and_comm]
    rw [hcount]
    refine Ends.bind (graphMerge_ends _ _ _ a) ?_
    rintro n t ⟨g, hm, ht⟩
    exact Ends.pure (.inr ⟨g, n, hm, ht⟩)

/-- An answer of a run as a recording has written it by `clock`. -/
structure Recorded (runId : String) (clock : Moment) (g : PipelineGraph) (n : PipelineNode)
    (source : AnswerSource) (ordinal : Nat) : Prop where
  key : n.key = answerKey runId source ordinal
  source_eq : n.get "source" = .str source.value
  counted : 1 ≤ ordinal ∧ ordinal ≤ (answersOf g runId).countP (fromSource source)
  legal : (Answer.ofValue (n.get "answer")).isSome
  stamp : ∃ t ≤ clock, answeredAt n = t.isoformat

/-- The invariant of a run's answers. -/
structure AnswersKept (runId : String) (clock : Moment) (g : PipelineGraph) : Prop where
  recorded : ∀ n ∈ answersOf g runId, ∃ source ordinal, Recorded runId clock g n source ordinal
  named : ∀ source ordinal n, g.getNode runHoldAnswerLabel (answerKey runId source ordinal) =
    some n → n.get "run_id" = .str runId
  first : ∀ n ∈ answersOf g runId, ∀ source, fromSource source n = true →
    ∃ f ∈ answersOf g runId, f.key = answerKey runId source 1 ∧ answeredAt f ≤ answeredAt n

section Recording

variable {b : Backend} {runId : String} {clock now : Moment} {g g' : PipelineGraph}
  {n : PipelineNode} {fact : AnswerFact}

theorem mem_answersOf : n ∈ answersOf g runId ↔
    (n.label = runHoldAnswerLabel ∧ g.getNode runHoldAnswerLabel n.key = some n) ∧
      n.get "run_id" = .str runId := by
  rw [answersOf, List.mem_filter, Graph.mem_listNodes, decide_eq_true_eq]

theorem AnswersKept.mono (h : AnswersKept runId clock g) (hle : clock ≤ now)
    (hlist : answersOf g' runId = answersOf g runId)
    (hnamed : ∀ source ordinal n, g'.getNode runHoldAnswerLabel (answerKey runId source ordinal) =
      some n → n.get "run_id" = .str runId) : AnswersKept runId now g' where
  recorded := by
    intro n hn
    rw [hlist] at hn
    obtain ⟨source, ordinal, hkey, hsource, hcounted, hlegal, t, ht, hstamp⟩ := h.recorded n hn
    exact ⟨source, ordinal, hkey, hsource, by rw [hlist]; exact hcounted, hlegal, t,
      Moment.le_trans ht hle, hstamp⟩
  named := hnamed
  first := by
    rw [hlist]
    exact h.first

/-- The next key of a run is free. -/
theorem AnswersKept.next_free (h : AnswersKept runId clock g) (source : AnswerSource) :
    g.getNode runHoldAnswerLabel (nextKey g runId source) = none := by
  by_contra hne
  obtain ⟨n, hn⟩ := Option.ne_none_iff_exists'.mp hne
  obtain ⟨hlabel, hkey⟩ := Graph.getNode_nodeKey hn
  have hmem : n ∈ answersOf g runId :=
    mem_answersOf.mpr ⟨⟨hlabel, by rw [hkey]; exact hn⟩, h.named _ _ n hn⟩
  obtain ⟨source', ordinal, hrec⟩ := h.recorded n hmem
  obtain ⟨-, rfl, rfl⟩ := answerKey_injective (hrec.key.symm.trans hkey)
  have := hrec.counted.2
  omega

theorem AnswerFact.get_runId (fact : AnswerFact) :
    fact.props.get? "run_id" = some (.str fact.runId) := by
  rfl

/-- A recording for another run leaves the answers of a run as they are. -/
theorem answersOf_merge_of_ne (h : AnswersKept runId clock g) (hne : fact.runId ≠ runId)
    {source : AnswerSource} {ordinal : Nat}
    (hm : g.mergeNode runHoldAnswerLabel (answerKey fact.runId source ordinal) fact.props =
      .ok (g', n)) : answersOf g' runId = answersOf g runId := by
  obtain ⟨rfl, hlabel, hkey, -⟩ := Graph.mergeNode_ok hm
  have hrun : n.props.get? "run_id" = some (.str fact.runId) := by
    rw [Graph.mergeNode_get? hm, fact.get_runId]
    rfl
  simp only [answersOf, Graph.listNodes, List.filter_filter]
  apply Dict.filter_values_set
  · rw [Bool.and_eq_false_iff]
    left
    rw [decide_eq_false_iff_not, get_eq_str, hrun, Option.some.injEq, Value.str.injEq]
    exact hne
  · intro m hget
    obtain ⟨hmlabel, hmkey⟩ := Graph.getNode_nodeKey hget
    rw [Bool.and_eq_false_iff]
    left
    rw [decide_eq_false_iff_not]
    intro hmrun
    have hmem : m ∈ answersOf g runId :=
      mem_answersOf.mpr ⟨⟨hmlabel.trans hlabel, by rw [hmkey, ← hlabel]; exact hget⟩, hmrun⟩
    obtain ⟨source', ordinal', hrec⟩ := h.recorded m hmem
    exact hne (answerKey_injective (hkey.symm.trans (hmkey.symm.trans hrec.key))).1

/-- A recording for a run adds its fact behind the others. -/
theorem AnswersKept.answersOf_merge (h : AnswersKept fact.runId clock g)
    (hm : g.mergeNode runHoldAnswerLabel (nextKey g fact.runId fact.source) fact.props =
      .ok (g', n)) :
    n.label = runHoldAnswerLabel ∧ n.key = nextKey g fact.runId fact.source ∧
      n.props = fact.props ∧ answersOf g' fact.runId = answersOf g fact.runId ++ [n] := by
  have hfree := h.next_free fact.source
  rw [Graph.mergeNode_fresh _ hfree] at hm
  cases hm
  refine ⟨rfl, rfl, rfl, ?_⟩
  have hself : (⟨runHoldAnswerLabel, nextKey g fact.runId fact.source, fact.props, 1⟩ :
      PipelineNode).get "run_id" = .str fact.runId := get_eq_str.mpr fact.get_runId
  rw [answersOf, Graph.listNodes_put_fresh hfree, List.filter_append, answersOf,
    List.filter_singleton, hself]
  simp

/-- The fact that a recording adds. -/
theorem answeredAt_of_props (h : n.props = fact.props) :
    answeredAt n = fact.answeredAt.isoformat ∧ n.get "answer" = .str fact.answer.value ∧
      n.get "source" = .str fact.source.value ∧ n.get "run_id" = .str fact.runId := by
  refine ⟨?_, ?_, ?_, ?_⟩
  · rw [answeredAt, h]
    rfl
  all_goals
    rw [get_eq_str, h]
    rfl

/-- A recording keeps the invariant of every run's answers. -/
theorem AnswersKept.record (h : AnswersKept runId clock g) (hle : clock ≤ fact.answeredAt)
    (hm : g.mergeNode runHoldAnswerLabel (nextKey g fact.runId fact.source) fact.props =
      .ok (g', n)) : AnswersKept runId fact.answeredAt g' := by
  obtain ⟨hg', hlabel, hkey, -⟩ := Graph.mergeNode_ok hm
  by_cases hrun : fact.runId = runId
  · subst hrun
    obtain ⟨-, -, hprops, hlist⟩ := h.answersOf_merge hm
    obtain ⟨hstamp, hanswer, hsource, hrunId⟩ := answeredAt_of_props hprops
    have hnew : Recorded fact.runId fact.answeredAt g' n fact.source
        (1 + (answersOf g fact.runId).countP (fromSource fact.source)) := by
      refine ⟨hkey, hsource, ⟨by omega, ?_⟩, by rw [hanswer, Answer.ofValue_value]; rfl,
        fact.answeredAt, Moment.le_refl _, hstamp⟩
      rw [hlist, List.countP_append, List.countP_singleton, fromSource, hsource]
      simp only [decide_true, if_true]
      omega
    have hold : ∀ m ∈ answersOf g fact.runId,
        ∃ source ordinal, Recorded fact.runId fact.answeredAt g' m source ordinal := by
      intro m hmem
      obtain ⟨source, ordinal, hkey, hsource, hcounted, hlegal, t, ht, hstamp⟩ := h.recorded m hmem
      refine ⟨source, ordinal, hkey, hsource, ⟨hcounted.1, ?_⟩, hlegal, t, Moment.le_trans ht hle,
        hstamp⟩
      rw [hlist, List.countP_append]
      omega
    refine ⟨?_, ?_, ?_⟩
    · rw [hlist]
      intro m hmem
      rcases List.mem_append.mp hmem with hmem | hmem
      · exact hold m hmem
      · rw [List.mem_singleton.mp hmem]
        exact ⟨_, _, hnew⟩
    · intro source ordinal m hget
      rw [hg', Graph.getNode_put] at hget
      split at hget
      · cases hget
        exact hrunId
      · exact h.named source ordinal m hget
    · rw [hlist]
      intro m hmem source hfrom
      rcases List.mem_append.mp hmem with hmem | hmem
      · obtain ⟨f, hf, hfkey, hle⟩ := h.first m hmem source hfrom
        exact ⟨f, List.mem_append_left _ hf, hfkey, hle⟩
      · have heq : m = n := List.mem_singleton.mp hmem
        subst heq
        have hsrc : fact.source = source := by
          rw [fromSource, hsource, decide_eq_true_eq, Value.str.injEq] at hfrom
          exact AnswerSource.value_injective hfrom
        subst hsrc
        rcases Nat.eq_zero_or_pos ((answersOf g fact.runId).countP (fromSource fact.source)) with
          hzero | hpos
        · refine ⟨m, List.mem_append_right _ (List.mem_singleton_self m), ?_, le_rfl⟩
          rw [hkey, nextKey, hzero]
        · obtain ⟨p, hp, hpfrom⟩ := List.countP_pos_iff.mp hpos
          obtain ⟨f, hf, hfkey, -⟩ := h.first p hp _ hpfrom
          refine ⟨f, List.mem_append_left _ hf, hfkey, ?_⟩
          obtain ⟨_, _, hrec⟩ := hold f hf
          obtain ⟨t, ht, hft⟩ := hrec.stamp
          rw [hft, hstamp]
          exact Moment.isoformat_le ht
  · have hlist := answersOf_merge_of_ne h hrun hm
    refine h.mono hle hlist fun source ordinal m hget => ?_
    rw [hg', Graph.getNode_put, if_neg] at hget
    · exact h.named source ordinal m hget
    · rintro ⟨-, hkey'⟩
      exact hrun (answerKey_injective (hkey'.trans hkey)).1.symm

/-! ### The effective answer -/

theorem filter_isAnswerTo (g : PipelineGraph) (runId : String) :
    (g.listNodes runHoldAnswerLabel).filter (isAnswerTo runId) =
      (answersOf g runId).filter fun n => (Answer.ofValue (n.get "answer")).isSome := by
  rw [answersOf, List.filter_filter]
  refine List.filter_congr fun n _ => ?_
  rw [isAnswerTo, Bool.and_comm]

/-- The effective answer depends on the answers of its run only. -/
theorem mem_answersOf_effective (h : effectiveFact b g runId = some n) :
    n ∈ answersOf g runId ∧ (Answer.ofValue (n.get "answer")).isSome := by
  have hmem := Backend.mem_first h
  rw [filter_isAnswerTo, List.mem_filter] at hmem
  exact hmem

/-- The case in which a recording takes precedence over the effective answer: an answer on the
dashboard in the second of the effective Telegram answer, on the store that lists by key. -/
def Overtakes (b : Backend) (g : PipelineGraph) (fact : AnswerFact) : Prop :=
  b = .postgres ∧ fact.source = .dashboard ∧ ∃ m, effectiveFact b g fact.runId = some m ∧
    fromSource .telegram m = true ∧ answeredAt m = fact.answeredAt.isoformat ∧
    m.get "answer" ≠ .str fact.answer.value

instance : Decidable (Overtakes b g fact) :=
  decidable_of_iff (b = .postgres ∧ fact.source = .dashboard ∧
    ∃ m ∈ effectiveFact b g fact.runId, fromSource .telegram m = true ∧
      answeredAt m = fact.answeredAt.isoformat ∧ m.get "answer" ≠ .str fact.answer.value) Iff.rfl

/-- The effective answer on the store that lists by key is the first of its source. -/
theorem AnswersKept.effective_key_le (h : AnswersKept runId clock g)
    (hfact : effectiveFact .postgres g runId = some n) {source : AnswerSource}
    (hsource : fromSource source n = true) : n.key ≤ answerKey runId source 1 := by
  obtain ⟨f, hf, hkey, hle⟩ := h.first n (mem_answersOf_effective hfact).1 source hsource
  obtain ⟨_, _, hrec⟩ := h.recorded f hf
  have hmem : f ∈ (g.listNodes runHoldAnswerLabel).filter (isAnswerTo runId) := by
    rw [filter_isAnswerTo]
    exact List.mem_filter.mpr ⟨hf, hrec.legal⟩
  rw [← hkey]
  rcases Backend.first_least hfact hmem with hlt | ⟨-, hk⟩
  · exact absurd hlt (not_lt.mpr hle)
  · exact hk

/-- A recording leaves the effective answer of every run as it is, unless it overtakes it. -/
theorem AnswersKept.effective_record (h : AnswersKept runId clock g)
    (hle : clock ≤ fact.answeredAt)
    (hm : g.mergeNode runHoldAnswerLabel (nextKey g fact.runId fact.source) fact.props =
      .ok (g', n)) (hno : fact.runId = runId → ¬ Overtakes b g fact) {a : Answer}
    (ha : effectiveAnswer b g runId = some a) : effectiveAnswer b g' runId = some a := by
  obtain ⟨m, hfact, hanswer⟩ := Option.bind_eq_some_iff.mp ha
  obtain ⟨hmem, -⟩ := mem_answersOf_effective hfact
  suffices hfact' : effectiveFact b g' runId = some m ∨ ∃ x, effectiveFact b g' runId = some x ∧
      Answer.ofValue (x.get "answer") = some a by
    rcases hfact' with h' | ⟨x, h', hx⟩
    · rw [effectiveAnswer, h']
      exact hanswer
    · rw [effectiveAnswer, h']
      exact hx
  by_cases hrun : fact.runId = runId
  · subst hrun
    obtain ⟨-, hkey, hprops, hlist⟩ := h.answersOf_merge hm
    obtain ⟨hstamp, hanswer', hsource, -⟩ := answeredAt_of_props hprops
    obtain ⟨source, ordinal, hrec⟩ := h.recorded m hmem
    have hlater : answeredAt m ≤ answeredAt n := by
      obtain ⟨t, ht, hmt⟩ := hrec.stamp
      rw [hmt, hstamp]
      exact Moment.isoformat_le (Moment.le_trans ht hle)
    have hadd : (g'.listNodes runHoldAnswerLabel).filter (isAnswerTo fact.runId) =
        (g.listNodes runHoldAnswerLabel).filter (isAnswerTo fact.runId) ++ [n] := by
      rw [filter_isAnswerTo, filter_isAnswerTo, hlist, List.filter_append, List.filter_singleton,
        hanswer', Answer.ofValue_value]
      rfl
    rcases Backend.first_append hfact hadd (by simpa using hlater) with h' | ⟨hb, x, hx,
      h', heq, hk⟩
    · exact .inl h'
    · have hxn : x = n := List.mem_singleton.mp hx
      subst hxn
      right
      refine ⟨x, h', ?_⟩
      -- the two facts are of one second, and the new one is listed before the effective one
      have hfrom : fromSource source m = true := by
        rw [fromSource, hrec.source_eq, decide_eq_true_eq]
      have hpos : 0 < (answersOf g fact.runId).countP (fromSource source) :=
        List.countP_pos_iff.mpr ⟨m, hmem, hfrom⟩
      subst hb
      rw [hkey] at hk
      rcases Decidable.em (fact.source = source) with hsame | hother
      · have hlt := first_lt_later fact.runId source (n := 1 + (answersOf g fact.runId).countP
          (fromSource source)) (by omega)
        rw [nextKey, hsame] at hk
        exact absurd (hk.trans (h.effective_key_le hfact hfrom)) (not_le.mpr hlt)
      · match hnew : fact.source, source with
        | .telegram, .telegram => exact absurd hnew hother
        | .dashboard, .dashboard => exact absurd hnew hother
        | .telegram, .dashboard =>
          rw [nextKey, hnew, hrec.key] at hk
          exact absurd hk (not_le.mpr (dashboard_lt_telegram _ _ _))
        | .dashboard, .telegram =>
          by_contra hchanged
          apply hno rfl
          refine ⟨rfl, hnew, m, hfact, hfrom, heq.trans hstamp, fun hsame => hchanged ?_⟩
          rw [hanswer', ← hsame]
          exact hanswer
  · left
    have hlist := answersOf_merge_of_ne h hrun hm
    have hadd : (g'.listNodes runHoldAnswerLabel).filter (isAnswerTo runId) =
        (g.listNodes runHoldAnswerLabel).filter (isAnswerTo runId) ++ [] := by
      rw [filter_isAnswerTo, filter_isAnswerTo, hlist, List.append_nil]
    rcases Backend.first_append hfact hadd (by simp) with h' | ⟨-, x, hx, -⟩
    · exact h'
    · cases hx

end Recording

end TradingAgents.Orchestration
