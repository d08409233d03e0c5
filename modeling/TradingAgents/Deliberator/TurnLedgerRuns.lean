import TradingAgents.Deliberator.TurnLedger

/-! Runs of the order reviews.  A run whose reviews read back their own fields and write their rows
under free keys leaves one row for each completion, with that completion's usage and stop reason,
and the tokens of the rows are the tokens that the vendors reported. -/

namespace TradingAgents.Deliberator

open ProofKit

variable {desk : ReviewDesk} {s s' : ReviewState}

/-- No review has begun: the clients may have served other runs. -/
structure ReviewState.Fresh (desk : ReviewDesk) (s : ReviewState) : Prop where
  pcs : s.pcs = List.replicate desk.calls.length .waiting
  rows : s.rows = []
  responses : s.responses = []

def ReviewState.Finished (s : ReviewState) : Prop :=
  ∀ pc ∈ s.pcs, pc = .done

/-- The total of one token count over rows. -/
def rowTokens (count : LLMUsage → Nat) (rows : List LLMCallRow) : Nat :=
  (rows.map fun row => count row.counts.usage).sum

/-- The total of one token count that the vendors reported. -/
def reportedTokens (count : LLMUsage → Nat) (responses : List VendorResponse) : Nat :=
  ((responses.filterMap VendorResponse.usage).map count).sum

def vendorRows (rows : List LLMCallRow) : List LLMCallRow :=
  rows.filter fun row => row.counts.source = .vendor

/-- What the rows of a run tell: each its own completion, and together all completions. -/
structure LedgerTells (s : ReviewState) : Prop where
  own : ∀ row ∈ s.rows, row.Own
  keys : (s.rows.map LLMCallRow.key).Nodup
  completions : s.Finished → s.responses.Perm (s.rows.filterMap LLMCallRow.own)
  reported : s.Finished → ∀ count,
    rowTokens count (vendorRows s.rows) = reportedTokens count s.responses
  totals : s.Finished → (∀ row ∈ s.rows, row.own.bind VendorResponse.usage ≠ none) → ∀ count,
    rowTokens count s.rows = reportedTokens count s.responses

theorem ReviewState.Fresh.kept (h : s.Fresh desk) : LedgerKept desk s := by
  refine ⟨fun t pc hpc => ?_, ?_, ?_, ?_, ?_⟩
  · rw [h.pcs] at hpc
    rw [List.eq_of_mem_replicate (List.mem_of_getElem? hpc)]
    trivial
  · rw [h.rows]
    exact fun row hrow => absurd hrow List.not_mem_nil
  · rw [h.rows]
    exact List.nodup_nil
  · rw [h.rows]
    exact fun row hrow => absurd hrow List.not_mem_nil
  · rw [h.pcs, h.rows, h.responses, List.filterMap_replicate_of_none rfl]
    exact List.Perm.refl _

/-- The vendor's rows count the usages that the vendors reported for them. -/
theorem vendorRows_usage {rows : List LLMCallRow} (h : ∀ row ∈ rows, row.Own) :
    (vendorRows rows).map (fun row => row.counts.usage) =
      (rows.filterMap LLMCallRow.own).filterMap VendorResponse.usage := by
  rw [List.filterMap_filterMap]
  induction rows with
  | nil => rfl
  | cons row rest ih =>
    have htail := ih fun r hr => h r (List.mem_cons_of_mem row hr)
    have hrow := h row List.mem_cons_self
    rw [filterMap_cons_toList, ← htail]
    cases hu : row.own.bind VendorResponse.usage with
    | some u =>
      have hcounts := hrow.vendor u hu
      rw [vendorRows, List.filter_cons_of_pos (by rw [hcounts]; rfl), List.map_cons, hcounts]
      rfl
    | none =>
      have hsource := hrow.estimated hu
      rw [vendorRows, List.filter_cons_of_neg (by rw [hsource]; decide)]
      rfl

theorem vendorRows_of_reported {rows : List LLMCallRow} (h : ∀ row ∈ rows, row.Own)
    (hall : ∀ row ∈ rows, row.own.bind VendorResponse.usage ≠ none) : vendorRows rows = rows := by
  refine List.filter_eq_self.mpr fun row hrow => decide_eq_true ?_
  obtain ⟨u, hu⟩ := Option.ne_none_iff_exists'.mp (hall row hrow)
  rw [(h row hrow).vendor u hu]

theorem LedgerKept.completions (h : LedgerKept desk s) (hfinished : s.Finished) :
    s.responses.Perm (s.rows.filterMap LLMCallRow.own) := by
  have hnone : s.pcs.filterMap ReviewPc.inFlight = [] :=
    List.filterMap_eq_nil_iff.mpr fun pc hpc => by rw [hfinished pc hpc]; rfl
  have hperm := h.accounted
  rwa [hnone, List.append_nil] at hperm

theorem LedgerKept.reported (h : LedgerKept desk s) (hfinished : s.Finished)
    (count : LLMUsage → Nat) :
    rowTokens count (vendorRows s.rows) = reportedTokens count s.responses := by
  have husages := ((h.completions hfinished).filterMap VendorResponse.usage).map count
  calc rowTokens count (vendorRows s.rows)
      = (((vendorRows s.rows).map fun row => row.counts.usage).map count).sum := by
        rw [List.map_map]
        rfl
    _ = (((s.rows.filterMap LLMCallRow.own).filterMap VendorResponse.usage).map count).sum := by
        rw [vendorRows_usage h.rows]
    _ = reportedTokens count s.responses := husages.sum_eq.symm

theorem LedgerKept.tells (h : LedgerKept desk s) : LedgerTells s where
  own := h.rows
  keys := h.keys
  completions := h.completions
  reported := h.reported
  totals := fun hfinished hall count => by
    rw [← h.reported hfinished, vendorRows_of_reported h.rows hall]

/-- For any interleaving in which every review reads back fields that no other review has written
since, and finds its key still free. -/
theorem readsOwn_ledgerTells (h : Reach (fun s (i : Nat × VendorReply) =>
      reviewStep desk s i.1 i.2) (fun s i => ReadsOwn desk s i.1) (ReviewState.Fresh desk) s) :
    LedgerTells s := by
  have hkept : LedgerKept desk s := h.invariant (fun _ => ReviewState.Fresh.kept)
    fun _ _ _ hkept howns hstep => LedgerKept.step hkept howns hstep
  exact hkept.tells

instance (desk : ReviewDesk) (s : ReviewState) (t : Nat) : Decidable (ReadsOwn desk s t) :=
  match h : s.pcs[t]? with
  | some (.completed c _ r) =>
    decidable_of_iff (r.stopped = false → (s.clients c).stopBy = some t) (by simp [ReadsOwn, h])
  | some (.stopCaptured c _ _ _) =>
    decidable_of_iff ((s.clients c).usageBy = some t) (by simp [ReadsOwn, h])
  | some (.keyed _ _ _ key) =>
    decidable_of_iff (key ∉ s.takenKeys desk) (by simp [ReadsOwn, h])
  | some .waiting | some (.trying _ _) | some (.requesting _ _) | some (.received _ _ _)
  | some (.usageStored _ _ _) | some (.captured _ _ _) | some .done | none =>
    isTrue (by simp [ReadsOwn, h])

/-! ### Two reviews on one client -/

def twoReviews : ReviewDesk where
  callingAgent := "deliberator"
  candidates := [⟨"anthropic:a", "a"⟩]
  calls := [⟨"order-1", "buy one?", "judge"⟩, ⟨"order-2", "buy two?", "judge"⟩]
  concurrency := 2
  digestText := id
  ledgerKeys := []

def reviewsWaiting : ReviewState where
  pcs := [.waiting, .waiting]
  clients := fun _ => ⟨none, stopReasonUnknown, none, none⟩
  current := 0
  rows := []
  responses := []

theorem reviewsWaiting_fresh : reviewsWaiting.Fresh twoReviews := ⟨rfl, rfl, rfl⟩

def firstResponse : VendorReply := .response ⟨10, 1, 0, 0, "end_turn", "UPHOLD"⟩

def secondResponse : VendorReply := .response ⟨20, 2, 0, 0, "end_turn", "VETO"⟩

/-- One review after the other. -/
def reviewsInTurn : List (Nat × VendorReply) :=
  List.replicate 9 (0, firstResponse) ++ List.replicate 9 (1, secondResponse)

theorem reviewsInTurn_ledgerTells : ∃ s : ReviewState, s.Finished ∧ LedgerTells s := by
  have hrun : Fallible.check (fun s : ReviewState => decide (s.pcs = [.done, .done]))
      (reviewsInTurn.foldlM (fun s i => if ReadsOwn twoReviews s i.1 then
        reviewStep twoReviews s i.1 i.2 else .error .notEnabled) reviewsWaiting) = true := by
    decide +kernel
  obtain ⟨s, hs, hdone⟩ := Fallible.check_eq_true.mp hrun
  refine ⟨s, fun pc hpc => ?_,
    readsOwn_ledgerTells (Reach.of_checked (.start reviewsWaiting_fresh) hs)⟩
  rw [of_decide_eq_true hdone] at hpc
  simpa using hpc

/-- The second review's response is stored before the first one reads its usage back. -/
def reviewsOverlapping : List (Nat × VendorReply) :=
  List.replicate 6 (0, firstResponse) ++ List.replicate 4 (1, secondResponse) ++
    List.replicate 3 (0, firstResponse)

theorem usage_of_other_review : ¬ ∀ (desk : ReviewDesk) (s : ReviewState),
    Reach (fun s (i : Nat × VendorReply) => reviewStep desk s i.1 i.2) (fun _ _ => True)
      (ReviewState.Fresh desk) s → LedgerTells s := by
  intro hall
  have hrun : Fallible.check (fun s : ReviewState => decide (∃ row ∈ s.rows,
      row.own.bind VendorResponse.usage = some ⟨10, 1, 0, 0⟩ ∧
        row.counts = ⟨⟨20, 2, 0, 0⟩, .vendor⟩))
      (reviewsOverlapping.foldlM (fun s i => reviewStep twoReviews s i.1 i.2) reviewsWaiting) =
        true := by
    decide +kernel
  obtain ⟨s, hs, hrow⟩ := Fallible.check_eq_true.mp hrun
  obtain ⟨row, hmem, husage, hcounts⟩ := of_decide_eq_true hrow
  have htells := hall twoReviews s (Reach.of_foldlM (.start reviewsWaiting_fresh) hs)
  have hown := ((htells.own row hmem).vendor _ husage).symm.trans hcounts
  cases hown

end TradingAgents.Deliberator
