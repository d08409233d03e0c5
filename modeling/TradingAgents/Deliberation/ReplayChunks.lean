import TradingAgents.Deliberation.ReplayRounds
import TradingAgents.ProofKit.GreedyChunks
import TradingAgents.ProofKit.Utf8

/-! A round on the wire: it is split into batches small enough to be uploaded, each batch is
created, and the answers of all of them are put together. -/

namespace TradingAgents.Deliberation

open ProofKit

def defaultChunkBytes : Int := 12000000

def maxChunkRequests : Int := 1000

/-- The wire cost of a request, near enough for splitting. -/
def requestBytes (request : BatchRequest) : Nat :=
  (Utf8.bytes request.system).length + (Utf8.bytes request.user).length

/-- The chunks so far, the one that grows, and its bytes. -/
structure Chunking where
  chunks : List (List BatchRequest) := []
  current : List BatchRequest := []
  size : Nat := 0

def chunkNext (maxBytes maxRequests : Int) (chunking : Chunking) (request : BatchRequest) :
    Chunking :=
  let cost := requestBytes request
  if chunking.current ≠ [] ∧ ((chunking.size : Int) + cost > maxBytes ∨
      (chunking.current.length : Int) ≥ maxRequests) then
    ⟨chunking.chunks ++ [chunking.current], [request], cost⟩
  else { chunking with
    current := chunking.current ++ [request], size := chunking.size + cost }

/-- Split a round into chunks that can be submitted. -/
def chunkByBytes (requests : List BatchRequest) (maxBytes maxRequests : Int) :
    List (List BatchRequest) :=
  let chunking := requests.foldl (chunkNext maxBytes maxRequests) {}
  if chunking.current = [] then chunking.chunks else chunking.chunks ++ [chunking.current]

/-! ### The chunks -/

def chunkSize (chunk : List BatchRequest) : Nat := (chunk.map requestBytes).sum

/-- A chunk within the limits; a single request is submitted whatever its size. -/
def Fits (maxBytes maxRequests : Int) (chunk : List BatchRequest) : Prop :=
  chunk.length ≤ 1 ∨ (chunkSize chunk : Int) ≤ maxBytes ∧ (chunk.length : Int) ≤ maxRequests

instance (maxBytes maxRequests : Int) : DecidablePred (Fits maxBytes maxRequests) := fun _ =>
  inferInstanceAs (Decidable (_ ∨ _))

section

variable {maxBytes maxRequests : Int} {requests : List BatchRequest}

theorem chunkSize_append (chunk chunk' : List BatchRequest) :
    chunkSize (chunk ++ chunk') = chunkSize chunk + chunkSize chunk' := by
  simp [chunkSize]

theorem chunkSize_sublist {chunk chunk' : List BatchRequest} (h : chunk'.Sublist chunk) :
    chunkSize chunk' ≤ chunkSize chunk := by
  induction h with
  | slnil => exact Nat.le_refl _
  | cons request _ ih =>
    show _ ≤ requestBytes request + chunkSize _
    omega
  | cons_cons request _ ih =>
    show requestBytes request + chunkSize _ ≤ requestBytes request + chunkSize _
    omega

theorem Fits.part {chunk chunk' : List BatchRequest} (hpart : chunk'.Sublist chunk)
    (h : Fits maxBytes maxRequests chunk) : Fits maxBytes maxRequests chunk' := by
  have hlength := hpart.length_le
  have hsize := chunkSize_sublist hpart
  unfold Fits at *
  omega

/-- A chunk is closed where it would no longer fit. -/
theorem fits_concat_iff {chunk : List BatchRequest} {request : BatchRequest} :
    Fits maxBytes maxRequests (chunk ++ [request]) ↔
      ¬(chunk ≠ [] ∧ ((chunkSize chunk : Int) + requestBytes request > maxBytes ∨
        (chunk.length : Int) ≥ maxRequests)) := by
  have hlast : chunkSize [request] = requestBytes request := by simp [chunkSize]
  unfold Fits
  rw [chunkSize_append, hlast, List.length_append, List.length_singleton,
    ← List.length_pos_iff_ne_nil]
  omega

/-- The splitting is the greedy one. -/
theorem chunkByBytes_eq : chunkByBytes requests maxBytes maxRequests =
    GreedyChunks.cut (Fits maxBytes maxRequests) [] requests := by
  suffices ∀ (chunking : Chunking), chunking.size = chunkSize chunking.current →
      (let chunking' := requests.foldl (chunkNext maxBytes maxRequests) chunking
        if chunking'.current = [] then chunking'.chunks
        else chunking'.chunks ++ [chunking'.current]) =
      chunking.chunks ++ GreedyChunks.cut (Fits maxBytes maxRequests) chunking.current requests from
    this {} rfl
  induction requests with
  | nil =>
    intro chunking _
    show (if chunking.current = [] then _ else _) = chunking.chunks ++ if _ then _ else _
    split <;> simp
  | cons request requests ih =>
    intro chunking hsize
    rw [List.foldl_cons]
    by_cases hfits : Fits maxBytes maxRequests (chunking.current ++ [request])
    · have hnext : chunkNext maxBytes maxRequests chunking request = { chunking with
          current := chunking.current ++ [request]
          size := chunking.size + requestBytes request } := by
        rw [fits_concat_iff, ← hsize] at hfits
        exact if_neg hfits
      rw [hnext, ih _ (by rw [chunkSize_append, ← hsize]; simp [chunkSize]),
        GreedyChunks.cut_join hfits]
    · have hnext : chunkNext maxBytes maxRequests chunking request =
          ⟨chunking.chunks ++ [chunking.current], [request], requestBytes request⟩ := by
        rw [fits_concat_iff, not_not, ← hsize] at hfits
        exact if_pos hfits
      rw [hnext, ih _ (by simp [chunkSize]), GreedyChunks.cut_next hfits, List.append_assoc]
      rfl

theorem flatten_chunkByBytes : (chunkByBytes requests maxBytes maxRequests).flatten = requests := by
  rw [chunkByBytes_eq, GreedyChunks.flatten_cut]
  rfl

/-- A round is submitted whole and in order, in chunks that are not empty and keep within the limits
unless one request alone is too large, and no split of it into such chunks has fewer of them. -/
theorem chunkByBytes_optimal (requests : List BatchRequest) (maxBytes maxRequests : Int) :
    (chunkByBytes requests maxBytes maxRequests).flatten = requests ∧
    (∀ chunk ∈ chunkByBytes requests maxBytes maxRequests,
      chunk ≠ [] ∧ Fits maxBytes maxRequests chunk) ∧
    ∀ chunks : List (List BatchRequest), chunks.flatten = requests →
      (∀ chunk ∈ chunks, Fits maxBytes maxRequests chunk) →
      (chunkByBytes requests maxBytes maxRequests).length ≤ chunks.length := by
  have hsingle : ∀ request, Fits maxBytes maxRequests [request] := fun _ => .inl (Nat.le_refl _)
  refine ⟨flatten_chunkByBytes, fun chunk hchunk => ?_, ?_⟩
  · rw [chunkByBytes_eq] at hchunk
    exact (GreedyChunks.cut_fits hsingle (fun h => absurd rfl h) chunk hchunk).symm
  · rintro chunks rfl hfits
    rw [chunkByBytes_eq]
    exact GreedyChunks.length_cut_le (fun _ _ => Fits.part) hfits

end

/-! ### The batches -/

def createAttempts : Nat := 4

/-- The provider of batches: the id of a batch that it accepts at an attempt of a chunk of a round,
and the answers of a batch that has ended; nothing where it raises. -/
structure BatchApi where
  create : (round index attempt : Nat) → List BatchRequest → Option String
  results : String → Option (List BatchResult)

section

variable (api : BatchApi)

/-- Create the batch of a chunk, at the first attempt that succeeds. -/
def createBatch (round index : Nat) (chunk : List BatchRequest) : Option String :=
  (List.range createAttempts).findSome? fun n => api.create round index (n + 1) chunk

/-- Submit a round: every chunk is created before any is waited for. -/
def submit (round : Nat) (requests : List BatchRequest) : Option (List BatchResult) := do
  let chunks := chunkByBytes requests defaultChunkBytes maxChunkRequests
  let ids ← (chunks.zipIdx 1).mapM fun entry => createBatch api round entry.2 entry.1
  let found ← ids.mapM api.results
  return found.flatten

/-- The results answer the requests and nothing else. -/
def Answering (answer : BatchRequest → Option BatchResult) (requests : List BatchRequest)
    (results : List BatchResult) : Prop :=
  (∀ request ∈ requests, (answersById results).get? request.customId = answer request) ∧
  ∀ result ∈ results, result.customId ∈ requests.map BatchRequest.customId

/-- A provider whose batches answer the requests that they were created from. -/
def BatchApi.Answers (answer : BatchRequest → Option BatchResult) : Prop :=
  ∀ round index attempt chunk id results, (chunk.map BatchRequest.customId).Nodup →
    api.create round index attempt chunk = some id → api.results id = some results →
    Answering answer chunk results

end

section

variable {api : BatchApi} {answer : BatchRequest → Option BatchResult} {round : Nat}
  {requests : List BatchRequest} {results results' : List BatchResult} {id : String}

/-- An answer stands unless a later one replaces it. -/
theorem answersById_append : (answersById (results ++ results')).get? id =
    ((answersById results').get? id).or ((answersById results).get? id) := by
  induction results' using List.reverseRecOn with
  | nil => simp [answersById, Dict.ofList]
  | append_singleton results' result ih =>
    have hlast : ∀ front, (answersById (front ++ [result])).get? id =
        if id = result.customId then some result else (answersById front).get? id := by
      intro front
      rw [answersById, List.map_append, Dict.ofList, Dict.setAll_append]
      exact Dict.get?_set _ _ _ _
    rw [← List.append_assoc, hlast, hlast, ih]
    split
    · rfl
    · rfl

theorem answersById_none (h : ∀ result ∈ results, result.customId ≠ id) :
    (answersById results).get? id = none := by
  rw [answersById, Dict.ofList, Dict.get?_setAll_of_notMem, Dict.get?_empty]
  intro hid
  rw [List.map_map] at hid
  obtain ⟨result, hresult, rfl⟩ := List.mem_map.mp hid
  exact h result hresult rfl

/-- Two batches of different requests answer the requests of both. -/
theorem Answering.append {requests' : List BatchRequest}
    (hnodup : ((requests ++ requests').map BatchRequest.customId).Nodup)
    (h : Answering answer requests results) (h' : Answering answer requests' results') :
    Answering answer (requests ++ requests') (results ++ results') := by
  rw [List.map_append, List.nodup_append'] at hnodup
  obtain ⟨-, -, hapart⟩ := hnodup
  refine ⟨fun request hrequest => ?_, fun result hresult => ?_⟩
  · rw [answersById_append]
    rcases List.mem_append.mp hrequest with hfirst | hsecond
    · have hnone : (answersById results').get? request.customId = none := by
        refine answersById_none fun result hresult hid => ?_
        have hother := h'.2 result hresult
        rw [hid] at hother
        exact hapart (List.mem_map_of_mem hfirst) hother
      rw [hnone, h.1 request hfirst, Option.none_or]
    · have hnone : (answersById results).get? request.customId = none := by
        refine answersById_none fun result hresult hid => ?_
        have hother := h.2 result hresult
        rw [hid] at hother
        exact hapart hother (List.mem_map_of_mem hsecond)
      rw [hnone, h'.1 request hsecond, Option.or_none]
  · rw [List.map_append, List.mem_append]
    rcases List.mem_append.mp hresult with hfirst | hsecond
    · exact .inl (h.2 result hfirst)
    · exact .inr (h'.2 result hsecond)

theorem createBatch_some {index : Nat} {chunk : List BatchRequest}
    (h : createBatch api round index chunk = some id) :
    ∃ attempt, api.create round index attempt chunk = some id := by
  obtain ⟨n, -, hn⟩ := List.exists_of_findSome?_eq_some h
  exact ⟨n + 1, hn⟩

/-- The batches of some chunks answer the requests of all. -/
theorem answering_chunks (hapi : api.Answers answer) {chunks : List (List BatchRequest)}
    {first : Nat} (hnodup : (chunks.flatten.map BatchRequest.customId).Nodup) {ids : List String}
    {found : List (List BatchResult)}
    (hids : ((chunks.zipIdx first).mapM fun entry => createBatch api round entry.2 entry.1) =
      some ids)
    (hfound : ids.mapM api.results = some found) :
    Answering answer chunks.flatten found.flatten := by
  induction chunks generalizing first ids found with
  | nil =>
    cases hids
    cases hfound
    exact ⟨fun _ h => absurd h List.not_mem_nil, fun _ h => absurd h List.not_mem_nil⟩
  | cons chunk chunks ih =>
    rw [List.zipIdx_cons, List.mapM_cons] at hids
    obtain ⟨id, hid, hids⟩ := Option.bind_eq_some_iff.mp hids
    obtain ⟨others, hothers, hids⟩ := Option.bind_eq_some_iff.mp hids
    cases hids
    rw [List.mapM_cons] at hfound
    obtain ⟨results, hresults, hfound⟩ := Option.bind_eq_some_iff.mp hfound
    obtain ⟨rest, hrest, hfound⟩ := Option.bind_eq_some_iff.mp hfound
    cases hfound
    rw [List.flatten_cons] at hnodup ⊢
    rw [List.flatten_cons]
    have hsplit := hnodup
    rw [List.map_append, List.nodup_append'] at hsplit
    obtain ⟨attempt, hcreate⟩ := createBatch_some hid
    exact .append hnodup (hapi _ _ _ _ _ _ hsplit.1 hcreate hresults) (ih hsplit.2.1 hothers hrest)

/-- The split into batches is not seen in the answers of a round. -/
theorem submit_answering (hapi : api.Answers answer)
    (hnodup : (requests.map BatchRequest.customId).Nodup)
    (h : submit api round requests = some results) : Answering answer requests results := by
  obtain ⟨ids, hids, h⟩ := Option.bind_eq_some_iff.mp h
  obtain ⟨found, hfound, h⟩ := Option.bind_eq_some_iff.mp h
  cases h
  have hanswers := answering_chunks hapi (by rwa [flatten_chunkByBytes]) hids hfound
  rwa [flatten_chunkByBytes] at hanswers

/-- A request of seven million bytes and a few. -/
def longRequest (customId : String) : BatchRequest :=
  ⟨customId, "claude-opus-5", 2000, "high", .ofList (List.replicate 7000000 'a'), "Order 7"⟩

theorem requestBytes_long (customId : String) : requestBytes (longRequest customId) = 7000007 := by
  have hsystem : ∀ n, (Utf8.bytesOf (List.replicate n 'a')).length = n := by
    intro n
    induction n with
    | zero => rfl
    | succ n ih => rw [List.replicate_succ, Utf8.bytesOf, List.flatMap_cons, List.length_append,
        ← Utf8.bytesOf, ih, Nat.add_comm]; rfl
  have huser : (Utf8.bytes "Order 7").length = 7 := by decide +kernel
  show (Utf8.bytes (String.ofList _)).length + (Utf8.bytes "Order 7").length = _
  rw [huser, Utf8.bytes, String.toList_ofList, hsystem]

/-- A provider that creates batches of one request, at the second attempt. -/
def fussyApi : BatchApi where
  create _ _ attempt
    | [request] => if attempt = 2 then some request.customId else none
    | _ => none
  results id := some [⟨id, "succeeded", "It holds."⟩]

theorem fussyApi_answers :
    fussyApi.Answers fun request => some ⟨request.customId, "succeeded", "It holds."⟩ := by
  intro round index attempt chunk id results _ hcreate hresults
  cases hresults
  match chunk, hcreate with
  | [request], hcreate =>
    change (if attempt = 2 then some request.customId else none) = some id at hcreate
    split at hcreate
    · cases hcreate
      refine ⟨fun r hr => ?_, fun result hresult => ?_⟩
      · rw [List.mem_singleton.mp hr]
        simp [answersById, Dict.ofList]
      · rw [List.mem_singleton.mp hresult]
        exact List.mem_cons_self
    · cases hcreate

/-- Two requests that are too long for one batch, each of which is created at the second attempt. -/
theorem submit_answering_twoBatches :
    let requests := [longRequest "d-0", longRequest "d-1"]
    chunkByBytes requests defaultChunkBytes maxChunkRequests =
        [[longRequest "d-0"], [longRequest "d-1"]] ∧
      submit fussyApi 1 requests =
        some [⟨"d-0", "succeeded", "It holds."⟩, ⟨"d-1", "succeeded", "It holds."⟩] ∧
      Answering (fun request => some ⟨request.customId, "succeeded", "It holds."⟩) requests
        [⟨"d-0", "succeeded", "It holds."⟩, ⟨"d-1", "succeeded", "It holds."⟩] := by
  intro requests
  have hchunks : chunkByBytes requests defaultChunkBytes maxChunkRequests =
      [[longRequest "d-0"], [longRequest "d-1"]] := by
    simp [requests, chunkByBytes, chunkNext, requestBytes_long, defaultChunkBytes]
  have hsubmit : submit fussyApi 1 requests =
      some [⟨"d-0", "succeeded", "It holds."⟩, ⟨"d-1", "succeeded", "It holds."⟩] := by
    rw [submit, hchunks]
    rfl
  exact ⟨hchunks, hsubmit, submit_answering fussyApi_answers (by decide) hsubmit⟩

end

end TradingAgents.Deliberation
