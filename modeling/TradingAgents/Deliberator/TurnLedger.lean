import Mathlib
import TradingAgents.ProofKit.FreshOrdinal
import TradingAgents.ProofKit.Runs
import TradingAgents.ProofKit.Text

/-! The ledger rows around the manager's verdicts.  The order reviews of a run share one client for
each candidate, and a completion's usage and stop reason travel through fields of that client.  A
step of a review is the reset of the usage field, the vendor's answer, the store of one field, the
read of one field back, the choice of a row's key, or the write of the row. -/

namespace TradingAgents.Deliberator

open ProofKit

/-! ### Tokens -/

/-- One completion's token counts, normalised across vendors. -/
structure LLMUsage where
  tokensIn : Nat
  tokensOut : Nat
  cacheReadTokens : Nat
  cacheWriteTokens : Nat
deriving DecidableEq, Repr

inductive TokenSource where
  | vendor
  | estimated
deriving DecidableEq, Repr

structure TokenCounts where
  usage : LLMUsage
  source : TokenSource
deriving DecidableEq, Repr

/-- The words of a text between blanks. -/
def wordCount (text : List Char) (inWord : Bool) : Nat :=
  match text with
  | [] => 0
  | c :: rest =>
    if c ∈ [' ', '\t', '\n', '\r'] then wordCount rest false
    else (if inWord then 0 else 1) + wordCount rest true

def roughTokens (value : String) : Nat :=
  if value = "" then 0 else max 1 (wordCount value.toList false)

/-- Prefer the vendor's counts; fall back to a stamped word estimate. -/
def tokenCounts (usage : Option LLMUsage) (prompt response : String) : TokenCounts :=
  match usage with
  | some u => ⟨u, .vendor⟩
  | none => ⟨⟨roughTokens prompt, roughTokens response, 0, 0⟩, .estimated⟩

/-! ### Completions -/

/-- A vendor's response: its usage block, its stop reason and its text. -/
structure VendorResponse where
  inputTokens : Nat
  outputTokens : Nat
  cacheReadInputTokens : Nat
  cacheCreationInputTokens : Nat
  stopReason : String
  text : String
deriving DecidableEq, Repr

def stopReasonUnknown : String := "unknown"

def orUnknown (reason : String) : String := if reason = "" then stopReasonUnknown else reason

/-- The usage of a response, none when nothing countable was reported. -/
def VendorResponse.usage (r : VendorResponse) : Option LLMUsage :=
  if r.inputTokens = 0 ∧ r.outputTokens = 0 ∧ r.cacheReadInputTokens = 0 ∧
      r.cacheCreationInputTokens = 0 then none
  else some ⟨r.inputTokens, r.outputTokens, r.cacheReadInputTokens, r.cacheCreationInputTokens⟩

/-- A completion that raises its stop reason in place of a text. -/
def VendorResponse.stopped (r : VendorResponse) : Bool :=
  decide (orUnknown r.stopReason ∈ ["max_tokens", "refusal"])

/-- What a request ends in: a response, or an error with its HTTP status if it has one. -/
inductive VendorReply where
  | response (r : VendorResponse)
  | error (status : Option Nat)

/-- `http_<status>` for an error answer. -/
def refusalOf : Option Nat → Option String
  | some status => if 400 ≤ status ∧ status < 600 then some ("http_" ++ toString status) else none
  | none => none

/-! ### Reviews -/

structure RoleCandidate where
  label : String
  model : String

/-- One order's verdict request. -/
structure VerdictCall where
  correlationId : String
  prompt : String
  systemPrompt : String

/-- What the reviews of a run share and never change. -/
structure ReviewDesk where
  callingAgent : String
  candidates : List RoleCandidate
  calls : List VerdictCall
  concurrency : Nat
  digestText : String → String
  /-- The keys of the ledger's rows before the run. -/
  ledgerKeys : List String

structure LLMCallRow where
  key : String
  callingAgent : String
  correlationId : String
  model : String
  promptHash : String
  systemPromptHash : String
  responseHash : String
  counts : TokenCounts
  stopReason : String
  passedOver : List String
  /-- The response that the row stands for; not in the source. -/
  own : Option VendorResponse
deriving DecidableEq

/-- What an attempt knows when it writes its row. -/
structure Capture where
  response : String
  stopReason : String
  usage : Option LLMUsage
  own : Option VendorResponse
  refused : Option String
deriving DecidableEq

/-- Where a review is; an attempt has its candidate and the candidates passed over. -/
inductive ReviewPc where
  | waiting
  | trying (candidate : Nat) (passedOver : List String)
  | requesting (candidate : Nat) (passedOver : List String)
  | received (candidate : Nat) (passedOver : List String) (r : VendorResponse)
  | usageStored (candidate : Nat) (passedOver : List String) (r : VendorResponse)
  | completed (candidate : Nat) (passedOver : List String) (r : VendorResponse)
  | stopCaptured (candidate : Nat) (passedOver : List String) (r : VendorResponse)
      (stopReason : String)
  | captured (candidate : Nat) (passedOver : List String) (c : Capture)
  | keyed (candidate : Nat) (passedOver : List String) (c : Capture) (key : String)
  | done
deriving DecidableEq

/-- The fields of a client, and which review wrote each of them last. -/
structure ClientFields where
  lastUsage : Option LLMUsage
  lastStopReason : String
  usageBy : Option Nat
  stopBy : Option Nat

/-- The reviews, the clients, the candidate in use, the rows, and the responses received. -/
structure ReviewState where
  pcs : List ReviewPc
  clients : Nat → ClientFields
  current : Nat
  rows : List LLMCallRow
  responses : List VendorResponse

inductive ReviewError where
  | notEnabled
deriving DecidableEq, Repr

def ReviewPc.active : ReviewPc → Bool
  | waiting => false
  | done => false
  | _ => true

namespace ReviewState

def goto (s : ReviewState) (t : Nat) (pc : ReviewPc) : ReviewState :=
  { s with pcs := s.pcs.set t pc }

def setClient (s : ReviewState) (c : Nat) (fields : ClientFields) : ReviewState :=
  { s with clients := Function.update s.clients c fields }

end ReviewState

variable (desk : ReviewDesk)

/-- The key of the `n`-th row for a request. -/
def rowKey (first : String) (n : Nat) : String :=
  if n = 0 then first else first ++ ":repeat-" ++ toString n

/-- The keys of the ledger's rows. -/
def ReviewState.takenKeys (s : ReviewState) : List String :=
  desk.ledgerKeys ++ s.rows.map LLMCallRow.key

/-- The first free ledger key of a request. -/
def freeKey (taken : List String) (first : String) : String :=
  rowKey first (firstOrdinal taken.length fun n => decide (rowKey first n ∉ taken))

theorem rowKey_injective (first : String) : Function.Injective (rowKey first) := by
  have hlonger : ∀ n : Nat, first ≠ first ++ ":repeat-" ++ toString n := by
    intro n h
    have hlength := congrArg (fun s : String => s.toList.length) h
    simp only [String.toList_append, List.length_append] at hlength
    have hsep : ":repeat-".toList.length = 8 := by decide
    omega
  intro m n h
  unfold rowKey at h
  split at h
  · split at h
    · omega
    · exact absurd h (hlonger n)
  · split at h
    · exact absurd h.symm (hlonger m)
    · rw [← String.toList_inj, String.toList_append, String.toList_append, String.toList_append,
        String.toList_append, List.append_cancel_left_eq, String.toList_inj] at h
      exact Text.repr_injective h

/-- The key of a new row is not in use. -/
theorem freeKey_notMem (taken : List String) (first : String) : freeKey taken first ∉ taken := by
  obtain ⟨n, hn, hfree⟩ := exists_fresh (rowKey first) (rowKey_injective first) taken
  have hspec := firstOrdinal_spec (p := fun n => decide (rowKey first n ∉ taken))
    ⟨n, hn, decide_eq_true hfree⟩
  exact of_decide_eq_true hspec.1

def captureOf (r : VendorResponse) (stopReason : String) (usage : Option LLMUsage) : Capture where
  response := if r.stopped then "" else r.text
  stopReason := orUnknown stopReason
  usage := usage
  own := some r
  refused := none

def callRow (call : VerdictCall) (model : String) (passedOver : List String) (c : Capture)
    (key : String) : LLMCallRow where
  key := key
  callingAgent := desk.callingAgent
  correlationId := call.correlationId
  model := model
  promptHash := desk.digestText call.prompt
  systemPromptHash := desk.digestText call.systemPrompt
  responseHash := desk.digestText c.response
  counts := tokenCounts c.usage call.prompt c.response
  stopReason := orUnknown c.stopReason
  passedOver := passedOver
  own := c.own

/-- Where a review goes when its row is written: a refused request is sent to the candidate in use,
or the next one; everything else ends the review. -/
def afterRow (s : ReviewState) (t candidate : Nat) (passedOver : List String) (c : Capture) :
    ReviewState :=
  match c.refused, desk.candidates[candidate]? with
  | some reason, some refused =>
    if candidate + 1 < desk.candidates.length then
      let current := max s.current (candidate + 1)
      { s with current }.goto t (.trying current (passedOver ++ [refused.label ++ ": " ++ reason]))
    else s.goto t .done
  | _, _ => s.goto t .done

/-- The next step of review `t`; `reply` is what the vendor answers, should the step be a request.
-/
def reviewStep (s : ReviewState) (t : Nat) (reply : VendorReply) :
    Except ReviewError ReviewState :=
  match s.pcs[t]?, desk.calls[t]? with
  | some pc, some call =>
    match pc with
    | .waiting =>
      if (s.pcs.filter ReviewPc.active).length < max 1 (min desk.concurrency desk.calls.length) then
        .ok (s.goto t (.trying s.current []))
      else .error .notEnabled
    | .trying candidate passedOver =>
      .ok ((s.setClient candidate
        { s.clients candidate with lastUsage := none, usageBy := some t }).goto t
          (.requesting candidate passedOver))
    | .requesting candidate passedOver =>
      match reply with
      | .response r =>
        .ok ({ s with responses := s.responses ++ [r] }.goto t (.received candidate passedOver r))
      | .error status =>
        .ok (s.goto t (.captured candidate passedOver
          ⟨"", stopReasonUnknown, none, none, refusalOf status⟩))
    | .received candidate passedOver r =>
      .ok ((s.setClient candidate
        { s.clients candidate with lastUsage := r.usage, usageBy := some t }).goto t
          (.usageStored candidate passedOver r))
    | .usageStored candidate passedOver r =>
      .ok ((s.setClient candidate { s.clients candidate with
        lastStopReason := orUnknown r.stopReason, stopBy := some t }).goto t
          (.completed candidate passedOver r))
    | .completed candidate passedOver r =>
      -- a stopped completion raises its own stop reason
      let stopReason := if r.stopped then orUnknown r.stopReason
        else orUnknown (s.clients candidate).lastStopReason
      .ok (s.goto t (.stopCaptured candidate passedOver r stopReason))
    | .stopCaptured candidate passedOver r stopReason =>
      .ok (s.goto t (.captured candidate passedOver
        (captureOf r stopReason (s.clients candidate).lastUsage)))
    | .captured candidate passedOver c =>
      let first := "llmcall:" ++ desk.callingAgent ++ ":" ++ call.correlationId
      .ok (s.goto t (.keyed candidate passedOver c (freeKey (s.takenKeys desk) first)))
    | .keyed candidate passedOver c key =>
      let model := (desk.candidates[candidate]?.map RoleCandidate.model).getD ""
      -- a key that has been taken since refuses the row, and the review raises
      if key ∈ s.takenKeys desk then .ok (s.goto t .done)
      else .ok (afterRow desk { s with rows := s.rows ++ [callRow desk call model passedOver c key] }
        t candidate passedOver c)
    | .done => .error .notEnabled
  | _, _ => .error .notEnabled

/-! ### What the rows say -/

def ReviewPc.inFlight : ReviewPc → Option VendorResponse
  | received _ _ r => some r
  | usageStored _ _ r => some r
  | completed _ _ r => some r
  | stopCaptured _ _ r _ => some r
  | captured _ _ c => c.own
  | keyed _ _ c _ => c.own
  | _ => none

/-- A captured completion carries its own usage and stop reason. -/
structure Capture.Own (c : Capture) : Prop where
  response : ∀ r, c.own = some r → c.usage = r.usage ∧ c.stopReason = orUnknown r.stopReason
  none : c.own = none → c.usage = none

/-- A row carries the usage and the stop reason of its own completion, and is marked as the vendor's
when the vendor reported usage for it. -/
structure LLMCallRow.Own (row : LLMCallRow) : Prop where
  stopReason : ∀ r, row.own = some r → row.stopReason = orUnknown r.stopReason
  vendor : ∀ u, row.own.bind VendorResponse.usage = some u → row.counts = ⟨u, .vendor⟩
  estimated : row.own.bind VendorResponse.usage = none → row.counts.source = .estimated

/-- What the fields of the clients say about the completion of a review that wrote them last. -/
def PcKept (clients : Nat → ClientFields) (t : Nat) : ReviewPc → Prop
  | .usageStored c _ r => (clients c).usageBy = some t → (clients c).lastUsage = r.usage
  | .completed c _ r => ((clients c).usageBy = some t → (clients c).lastUsage = r.usage) ∧
    ((clients c).stopBy = some t → (clients c).lastStopReason = orUnknown r.stopReason)
  | .stopCaptured c _ r stopReason =>
    ((clients c).usageBy = some t → (clients c).lastUsage = r.usage) ∧
      stopReason = orUnknown r.stopReason
  | .captured _ _ c => c.Own
  | .keyed _ _ c _ => c.Own
  | _ => True

/-- The invariant of the reviews. -/
structure LedgerKept (s : ReviewState) : Prop where
  pcs : ∀ t pc, s.pcs[t]? = some pc → PcKept s.clients t pc
  rows : ∀ row ∈ s.rows, row.Own
  keys : (s.rows.map LLMCallRow.key).Nodup
  fresh : ∀ row ∈ s.rows, row.key ∉ desk.ledgerKeys
  accounted : s.responses.Perm
    (s.rows.filterMap LLMCallRow.own ++ s.pcs.filterMap ReviewPc.inFlight)

/-- A review reads back a field that no other review has written since, and its key is still free
when its row is written. -/
def ReadsOwn (s : ReviewState) (t : Nat) : Prop :=
  match s.pcs[t]? with
  | some (.completed c _ r) => r.stopped = false → (s.clients c).stopBy = some t
  | some (.stopCaptured c _ _ _) => (s.clients c).usageBy = some t
  | some (.keyed _ _ _ key) => key ∉ s.takenKeys desk
  | _ => True

/-- Review `t` may have written fields of the clients. -/
structure WrittenBy (t : Nat) (clients clients' : Nat → ClientFields) : Prop where
  usage : ∀ c, (clients' c).usageBy = some t ∨
    (clients' c).usageBy = (clients c).usageBy ∧ (clients' c).lastUsage = (clients c).lastUsage
  stop : ∀ c, (clients' c).stopBy = some t ∨ (clients' c).stopBy = (clients c).stopBy ∧
    (clients' c).lastStopReason = (clients c).lastStopReason

section

variable {desk} {s s' : ReviewState} {t : Nat} {old new : ReviewPc}
  {clients clients' : Nat → ClientFields}

theorem WrittenBy.refl (t : Nat) (clients : Nat → ClientFields) : WrittenBy t clients clients :=
  ⟨fun _ => .inr ⟨rfl, rfl⟩, fun _ => .inr ⟨rfl, rfl⟩⟩

theorem WrittenBy.usage_update (t c : Nat) (usage : Option LLMUsage) :
    WrittenBy t clients (Function.update clients c
      { clients c with lastUsage := usage, usageBy := some t }) := by
  refine ⟨fun c' => ?_, fun c' => ?_⟩ <;> rcases Decidable.em (c' = c) with rfl | hne
  · rw [Function.update_self]
    exact .inl rfl
  · rw [Function.update_of_ne hne]
    exact .inr ⟨rfl, rfl⟩
  · rw [Function.update_self]
    exact .inr ⟨rfl, rfl⟩
  · rw [Function.update_of_ne hne]
    exact .inr ⟨rfl, rfl⟩

theorem WrittenBy.stop_update (t c : Nat) (stopReason : String) :
    WrittenBy t clients (Function.update clients c
      { clients c with lastStopReason := stopReason, stopBy := some t }) := by
  refine ⟨fun c' => ?_, fun c' => ?_⟩ <;> rcases Decidable.em (c' = c) with rfl | hne
  · rw [Function.update_self]
    exact .inr ⟨rfl, rfl⟩
  · rw [Function.update_of_ne hne]
    exact .inr ⟨rfl, rfl⟩
  · rw [Function.update_self]
    exact .inl rfl
  · rw [Function.update_of_ne hne]
    exact .inr ⟨rfl, rfl⟩

/-- What a review knows of the clients survives what another one writes. -/
theorem PcKept.other {t' : Nat} {pc : ReviewPc} (h : PcKept clients t' pc) (hne : t' ≠ t)
    (hw : WrittenBy t clients clients') : PcKept clients' t' pc := by
  have husage : ∀ {c : Nat} {r : VendorResponse},
      ((clients c).usageBy = some t' → (clients c).lastUsage = r.usage) →
        (clients' c).usageBy = some t' → (clients' c).lastUsage = r.usage := by
    intro c r hold hby
    rcases hw.usage c with hmine | ⟨hby', hlast⟩
    · exact absurd (Option.some.inj (hby.symm.trans hmine)) hne
    · rw [hlast]
      exact hold (hby'.symm.trans hby)
  cases pc with
  | usageStored c _ r => exact husage h
  | completed c _ r =>
    refine ⟨husage h.1, fun hby => ?_⟩
    rcases hw.stop c with hmine | ⟨hby', hlast⟩
    · exact absurd (Option.some.inj (hby.symm.trans hmine)) hne
    · rw [hlast]
      exact h.2 (hby'.symm.trans hby)
  | stopCaptured c _ r stopReason => exact ⟨husage h.1, h.2⟩
  | captured _ _ c => exact h
  | keyed _ _ c _ => exact h
  | waiting => trivial
  | trying _ _ => trivial
  | requesting _ _ => trivial
  | received _ _ r => trivial
  | done => trivial

theorem pcs_set (h : LedgerKept desk s) (hw : WrittenBy t s.clients clients')
    (hnew : PcKept clients' t new) (t' : Nat) (pc : ReviewPc)
    (hget : (s.pcs.set t new)[t']? = some pc) : PcKept clients' t' pc := by
  rcases Decidable.em (t' = t) with rfl | hne
  · rw [List.getElem?_set_self'] at hget
    obtain ⟨_, -, rfl⟩ := Option.map_eq_some_iff.mp hget
    exact hnew
  · rw [List.getElem?_set_ne (Ne.symm hne)] at hget
    exact (h.pcs t' pc hget).other hne hw

theorem filterMap_cons_toList {α β : Type} (f : α → Option β) (a : α) (rest : List α) :
    (a :: rest).filterMap f = (f a).toList ++ rest.filterMap f := by
  rw [List.filterMap_cons]
  cases f a <;> rfl

/-- What is in flight after one review has moved. -/
theorem inFlight_set {pcs : List ReviewPc} (hget : pcs[t]? = some old) (new : ReviewPc) :
    (pcs.filterMap ReviewPc.inFlight).Perm
        (old.inFlight.toList ++ (pcs.eraseIdx t).filterMap ReviewPc.inFlight) ∧
      ((pcs.set t new).filterMap ReviewPc.inFlight).Perm
        (new.inFlight.toList ++ (pcs.eraseIdx t).filterMap ReviewPc.inFlight) := by
  obtain ⟨hlt, rfl⟩ := List.getElem?_eq_some_iff.mp hget
  constructor
  · rw [← filterMap_cons_toList]
    exact (List.getElem_cons_eraseIdx_perm hlt).symm.filterMap _
  · rw [← filterMap_cons_toList]
    exact (List.set_perm_cons_eraseIdx hlt new).filterMap _

/-- The invariant survives a move of one review that accounts for its responses. -/
theorem LedgerKept.move (h : LedgerKept desk s) (hget : s.pcs[t]? = some old)
    (hpcs : s'.pcs = s.pcs.set t new) (hw : WrittenBy t s.clients s'.clients)
    (hnew : PcKept s'.clients t new) (hrows : ∀ row ∈ s'.rows, row.Own)
    (hkeys : (s'.rows.map LLMCallRow.key).Nodup)
    (hfresh : ∀ row ∈ s'.rows, row.key ∉ desk.ledgerKeys)
    (hresponses : ∀ rest,
      s.responses.Perm (s.rows.filterMap LLMCallRow.own ++ (old.inFlight.toList ++ rest)) →
        s'.responses.Perm (s'.rows.filterMap LLMCallRow.own ++ (new.inFlight.toList ++ rest))) :
    LedgerKept desk s' := by
  obtain ⟨hbefore, hafter⟩ := inFlight_set hget new
  refine ⟨fun t' pc hpc => pcs_set h hw hnew t' pc (hpcs ▸ hpc), hrows, hkeys, hfresh, ?_⟩
  rw [hpcs]
  exact (hresponses _ (h.accounted.trans (hbefore.append_left _))).trans
    (hafter.symm.append_left _)

/-- A move that writes no row and receives no response. -/
theorem LedgerKept.quiet (h : LedgerKept desk s) (hget : s.pcs[t]? = some old)
    (hw : WrittenBy t s.clients clients') (hnew : PcKept clients' t new)
    (hflight : new.inFlight = old.inFlight) :
    LedgerKept desk ({ s with clients := clients' }.goto t new) :=
  h.move hget rfl hw hnew h.rows h.keys h.fresh fun _ hold => by rwa [hflight]

theorem orUnknown_orUnknown (reason : String) : orUnknown (orUnknown reason) =
    orUnknown reason := by
  unfold orUnknown
  split
  · rfl
  · rfl

theorem Capture.Own.callRow {c : Capture} (h : c.Own) (call : VerdictCall) (model : String)
    (passedOver : List String) (key : String) :
    (callRow desk call model passedOver c key).Own := by
  have husage : c.usage = c.own.bind VendorResponse.usage := by
    cases hown : c.own with
    | none => exact h.none hown
    | some r => exact (h.response r hown).1
  refine ⟨fun r hown => ?_, fun u hu => ?_, fun hu => ?_⟩
  · have hstop := (h.response r hown).2
    change orUnknown c.stopReason = _
    rw [hstop, orUnknown_orUnknown]
  · change tokenCounts c.usage _ _ = _
    rw [husage.trans hu]
    rfl
  · change (tokenCounts c.usage _ _).source = _
    rw [husage.trans hu]
    rfl

/-- A row under a key of its own, written for what its review had in flight. -/
theorem LedgerKept.row (h : LedgerKept desk s) {c : Capture} (hget : s.pcs[t]? = some old)
    (hflight : old.inFlight = c.own) (hown : c.Own) {key : String}
    (hfree : key ∉ s.takenKeys desk) (call : VerdictCall) (model : String)
    (passedOver : List String) (current : Nat) (hnone : new.inFlight = none)
    (hnew : PcKept s.clients t new) :
    LedgerKept desk ({ s with
      rows := s.rows ++ [callRow desk call model passedOver c key], current := current }.goto
        t new) := by
  have hmem : ∀ row ∈ s.rows ++ [callRow desk call model passedOver c key],
      row ∈ s.rows ∨ row = callRow desk call model passedOver c key := fun row hrow =>
    (List.mem_append.mp hrow).imp_right List.mem_singleton.mp
  refine h.move hget rfl (.refl t _) hnew (fun row hrow => ?_) ?_ (fun row hrow => ?_)
    fun rest hold => ?_
  · rcases hmem row hrow with hin | rfl
    · exact h.rows row hin
    · exact hown.callRow call model passedOver key
  · change ((s.rows ++ [_]).map LLMCallRow.key).Nodup
    rw [List.map_append]
    exact h.keys.append (List.nodup_singleton _) fun k hk hlast =>
      hfree (List.mem_append_right _ ((List.mem_singleton.mp hlast : k = key) ▸ hk))
  · rcases hmem row hrow with hin | rfl
    · exact h.fresh row hin
    · exact fun hold => hfree (List.mem_append_left _ hold)
  · have hrow : [callRow desk call model passedOver c key].filterMap LLMCallRow.own =
        c.own.toList := by
      rw [filterMap_cons_toList]
      exact List.append_nil _
    change s.responses.Perm
      ((s.rows ++ [_]).filterMap LLMCallRow.own ++ (new.inFlight.toList ++ rest))
    rw [List.filterMap_append, hrow, hnone, List.append_assoc]
    rw [hflight] at hold
    exact hold

theorem LedgerKept.afterRow (h : LedgerKept desk s) {candidate : Nat} {passedOver : List String}
    {c : Capture} {key : String} (hget : s.pcs[t]? = some (.keyed candidate passedOver c key))
    (hfree : key ∉ s.takenKeys desk) (call : VerdictCall) (model : String) :
    LedgerKept desk (afterRow desk
      { s with rows := s.rows ++ [callRow desk call model passedOver c key] } t candidate
        passedOver c) := by
  have hown : c.Own := h.pcs t _ hget
  unfold Deliberator.afterRow
  split
  · split
    · exact h.row hget rfl hown hfree call model passedOver _ rfl trivial
    · exact h.row hget rfl hown hfree call model passedOver s.current rfl trivial
  · exact h.row hget rfl hown hfree call model passedOver s.current rfl trivial

/-- Every step that reads back its own review's fields keeps the invariant. -/
theorem LedgerKept.step (h : LedgerKept desk s) {reply : VendorReply}
    (howns : ReadsOwn desk s t) (hstep : reviewStep desk s t reply = .ok s') :
      LedgerKept desk s' := by
  unfold reviewStep at hstep
  split at hstep
  case h_2 => cases hstep
  rename_i pc call hget hcall
  unfold ReadsOwn at howns
  rw [hget] at howns
  have hpc := h.pcs t pc hget
  cases pc with
  | waiting =>
    dsimp only at hstep
    split at hstep
    · cases hstep
      exact h.quiet hget (.refl t _) trivial rfl
    · cases hstep
  | trying candidate passedOver =>
    cases hstep
    exact h.quiet hget (.usage_update t candidate none) trivial rfl
  | requesting candidate passedOver =>
    cases reply with
    | response r =>
      cases hstep
      refine h.move hget rfl (.refl t _) trivial h.rows h.keys h.fresh fun rest hold => ?_
      change (s.responses ++ [r]).Perm (_ ++ (r :: rest))
      exact (hold.append_right [r]).trans
        ((List.append_assoc _ _ _).symm ▸
          (List.perm_append_singleton r rest).append_left _)
    | error status =>
      cases hstep
      exact h.quiet hget (.refl t _) ⟨fun _ hr => (by cases hr), fun _ => rfl⟩ rfl
  | received candidate passedOver r =>
    cases hstep
    refine h.quiet hget (.usage_update t candidate r.usage) (fun _ => ?_) rfl
    rw [Function.update_self]
  | usageStored candidate passedOver r =>
    cases hstep
    refine h.quiet hget (.stop_update t candidate _) ⟨?_, fun _ => ?_⟩ rfl
    · rw [Function.update_self]
      exact hpc
    · rw [Function.update_self]
  | completed candidate passedOver r =>
    cases hstep
    refine h.quiet hget (.refl t _) ⟨hpc.1, ?_⟩ rfl
    split
    · rfl
    · rename_i hstopped
      rw [hpc.2 (howns (Bool.eq_false_iff.mpr hstopped)), orUnknown_orUnknown]
  | stopCaptured candidate passedOver r stopReason =>
    cases hstep
    refine h.quiet hget (.refl t _) ⟨fun r' hr => ?_, fun hr => by cases hr⟩ rfl
    cases hr
    refine ⟨hpc.1 howns, ?_⟩
    change orUnknown stopReason = _
    rw [hpc.2, orUnknown_orUnknown]
  | captured candidate passedOver c =>
    cases hstep
    exact h.quiet hget (.refl t _) hpc rfl
  | keyed candidate passedOver c key =>
    dsimp only at hstep
    rw [if_neg howns] at hstep
    cases hstep
    exact h.afterRow hget howns call _
  | done => cases hstep

end

end TradingAgents.Deliberator
