import Mathlib
import TradingAgents.Kernel.Listing
import TradingAgents.ProofKit.Instant

/-! The live incidents of the health surface: the unresolved faults of the day of the latest graph
run.  The day is the first ten letters of a stamp, so it is a date in the offset that the stamp was
written in. -/

namespace TradingAgents.Kernel

open ProofKit

/-- `str` of a property. -/
structure PropText (δ : Type) where
  text : Value δ → String
  text_str : ∀ s, text (.str s) = s

def incidentSeverities : List String := ["error", "critical"]

def resolvedStatus : String := "resolved"

def defaultSeverity : String := "error"

section

variable {δ : Type} [DecidableEq δ] (t : PropText δ) (b : Backend) (g : Graph δ)

/-- `occurred_at or created_at`. -/
def Node.stamp (n : Node δ) : Value δ :=
  if (n.get "occurred_at").truthy then n.get "occurred_at" else n.get "created_at"

def nodeDay (n : Node δ) : String :=
  if n.stamp.truthy then .ofList ((t.text n.stamp).toList.take 10) else ""

def latestDay (nodes : List (Node δ)) : String := (nodes.map (nodeDay t)).max?.getD ""

/-- The day of the latest snapshot, or of the latest fault where no snapshot has a day. -/
def latestGraphRunDay (faults : List (Node δ)) : String :=
  let snapshotDay := latestDay t (b.listNodes g "BrokerPositionSnapshot")
  if snapshotDay ≠ "" then snapshotDay else latestDay t faults

def resolvedFaultKeys : List String :=
  (b.listNodes g "FaultResolution").filterMap fun n => (n.props.get? "fault_key").map t.text

def inScope (n : Node δ) (scopeDay : String) : Bool :=
  decide (scopeDay = "") || decide (nodeDay t n = "") || decide (nodeDay t n = scopeDay)

def severityOf (n : Node δ) : String :=
  match n.props.get? "severity" with
  | some v => t.text v
  | none => defaultSeverity

def isLiveIncident (n : Node δ) (resolved : List String) (scopeDay : String) : Bool :=
  if (n.get "status").pyEq (.str resolvedStatus) || decide (n.key ∈ resolved) then false
  else decide (severityOf t n ∈ incidentSeverities) && inScope t n scopeDay

/-- The unresolved errors of the latest graph-run day. -/
def liveFaultIncidents : List (Node δ) :=
  let faults := b.listNodes g "Fault"
  let resolved := resolvedFaultKeys t b g
  let scopeDay := latestGraphRunDay t b g faults
  faults.filter fun n => isLiveIncident t n resolved scopeDay

end

/-! ### What the surface is for -/

section

variable {δ : Type} [DecidableEq δ] (t : PropText δ) (b : Backend) (g : Graph δ)
  (moment : Node δ → AwareMoment)

/-- The node's stamp is the ISO text of a reading, in whatever offset: it begins with the date. -/
def Written (n : Node δ) (a : AwareMoment) : Prop :=
  ∃ s, n.stamp = .str s ∧ a.clock.date.isoformat.toList <+: s.toList

/-- The faults and the snapshots are stamped with their readings. -/
def Stamped : Prop :=
  ∀ n, n ∈ g.listNodes "Fault" ∨ n ∈ g.listNodes "BrokerPositionSnapshot" → Written n (moment n)

/-- What the graph runs are dated by: the snapshots, or the faults where there is no snapshot. -/
def runLabel : String :=
  if (g.listNodes "BrokerPositionSnapshot").isEmpty then "Fault" else "BrokerPositionSnapshot"

/-- The last instant of the graph runs. -/
def LatestRun (instant : Int) : Prop :=
  IsGreatest {i | ∃ n ∈ g.listNodes (runLabel g), (moment n).micros = i} instant

def utcDayStart (instant : Int) : Int := instant - instant % dayMicros

/-- The date that the reading shows, as the number of its day. -/
def writtenDate (n : Node δ) : Nat := (moment n).clock.date.toOrdinal

/-- No later date than this one is written on the graph runs, and one of them shows it. -/
def LatestDate (date : Nat) : Prop :=
  IsGreatest {d | ∃ n ∈ g.listNodes (runLabel g), writtenDate moment n = d} date

def Unresolved (n : Node δ) : Prop :=
  n.get "status" ≠ .str resolvedStatus ∧
    ∀ r ∈ g.listNodes "FaultResolution", ∀ v, r.props.get? "fault_key" = some v → t.text v ≠ n.key

/-- An unresolved fault that counts. -/
def Pending (n : Node δ) : Prop :=
  n ∈ g.listNodes "Fault" ∧ Unresolved t g n ∧ severityOf t n ∈ incidentSeverities

/-- The surface of a graph, and of that graph with one more snapshot. -/
structure ShowsIncidents (g' : Graph δ) (s : Node δ) : Prop where
  shown : ∀ instant, LatestRun g moment instant → ∀ n, Pending t g n →
    utcDayStart instant ≤ (moment n).micros → n ∈ liveFaultIncidents t b g
  unresolved : ∀ n ∈ liveFaultIncidents t b g, Unresolved t g n
  resolution : ∀ key props v g'' r, g.getNode "FaultResolution" key = none →
    props.get? "fault_key" = some v → g.mergeNode "FaultResolution" key props = .ok (g'', r) →
    liveFaultIncidents t b g'' =
      (liveFaultIncidents t b g).filter fun n => decide (n.key ≠ t.text v)
  kept : ∀ n ∈ liveFaultIncidents t b g, (moment s).micros < (moment n).micros →
    n ∈ liveFaultIncidents t b g'

/-- Each pending fault since the start of the latest run's day in UTC shows the latest date. -/
def ShowsLatestDate : Prop :=
  ∀ instant, LatestRun g moment instant → ∀ n, Pending t g n →
    utcDayStart instant ≤ (moment n).micros → LatestDate g moment (writtenDate moment n)

/-- The snapshot shows no later date than a pending fault of the latest date that came after it, and
the same date where it is the first one. -/
def DatedBefore (s : Node δ) : Prop :=
  ∀ n, Pending t g n → LatestDate g moment (writtenDate moment n) →
    (moment s).micros < (moment n).micros →
    writtenDate moment s ≤ writtenDate moment n ∧
      (g.listNodes "BrokerPositionSnapshot" = [] → writtenDate moment s = writtenDate moment n)

end

/-! ### Days -/

section

variable {δ : Type} {t : PropText δ} {n m : Node δ} {a a' : AwareMoment} {nodes : List (Node δ)}
  {moment : Node δ → AwareMoment}

theorem Written.nodeDay (h : Written n a) : nodeDay t n = a.clock.date.isoformat := by
  obtain ⟨s, hstamp, hprefix⟩ := h
  have htake := List.prefix_iff_eq_take.mp hprefix
  rw [Day.length_isoformat] at htake
  have hs : s ≠ "" := by
    rintro rfl
    have hlength := a.clock.date.length_isoformat
    rw [htake] at hlength
    cases hlength
  have htruthy : n.stamp.truthy = true := by
    rw [hstamp]
    exact decide_eq_true hs
  rw [Kernel.nodeDay, if_pos htruthy, hstamp, t.text_str, ← htake, String.ofList_toList]

theorem Written.nodeDay_ne (h : Written n a) : Kernel.nodeDay t n ≠ "" := by
  intro hempty
  have hlength := a.clock.date.length_isoformat
  rw [← h.nodeDay (t := t), hempty] at hlength
  cases hlength

theorem Written.nodeDay_le_iff (h : Written n a) (h' : Written m a') :
    Kernel.nodeDay t n ≤ Kernel.nodeDay t m ↔ a.clock.date.toOrdinal ≤ a'.clock.date.toOrdinal := by
  rw [h.nodeDay, h'.nodeDay]
  exact Day.isoformat_le_iff

theorem Written.nodeDay_eq_iff (h : Written n a) (h' : Written m a') :
    Kernel.nodeDay t n = Kernel.nodeDay t m ↔ a.clock.date.toOrdinal = a'.clock.date.toOrdinal := by
  rw [le_antisymm_iff, h.nodeDay_le_iff h', h'.nodeDay_le_iff h, ← le_antisymm_iff]

/-- A node stamped with the ISO text of a reading, as the writers stamp it. -/
theorem written_of_isoformat (h : n.get "occurred_at" = .str a.isoformat ∨
    n.get "occurred_at" = .null ∧ n.get "created_at" = .str a.isoformat) : Written n a := by
  refine ⟨a.isoformat, ?_, a.date_prefix_isoformat⟩
  have hne : a.isoformat ≠ "" := by
    intro hempty
    have hlength := a.date_prefix_isoformat.length_le
    rw [Day.length_isoformat, hempty] at hlength
    revert hlength
    decide
  have htruthy : (Value.str a.isoformat : Value δ).truthy = true := decide_eq_true hne
  rcases h with hoccurred | ⟨hoccurred, hcreated⟩
  · rw [Node.stamp, hoccurred, if_pos htruthy]
  · rw [Node.stamp, hoccurred, if_neg (by simp [Value.truthy]), hcreated]

/-- The latest day of stamped nodes is the day of one of them that no other is after. -/
theorem latestDay_mem (hnodes : nodes ≠ []) :
    (∃ m ∈ nodes, Kernel.nodeDay t m = latestDay t nodes) ∧
      ∀ m ∈ nodes, Kernel.nodeDay t m ≤ latestDay t nodes := by
  have hmap : nodes.map (Kernel.nodeDay t) ≠ [] := by simpa using hnodes
  obtain ⟨day, hday⟩ := Option.ne_none_iff_exists'.mp (mt List.max?_eq_none_iff.mp hmap)
  have hlatest : latestDay t nodes = day := by rw [latestDay, hday, Option.getD_some]
  obtain ⟨hmem, hle⟩ := List.max?_eq_some_iff.mp hday
  rw [hlatest]
  exact ⟨List.mem_map.mp hmem, fun m hm => hle _ (List.mem_map_of_mem hm)⟩

theorem latestDay_eq_iff (hwritten : ∀ m ∈ nodes, Written m (moment m)) (hn : Written n (moment n))
    (hnodes : nodes ≠ []) : Kernel.nodeDay t n = latestDay t nodes ↔
      IsGreatest {d | ∃ m ∈ nodes, writtenDate moment m = d} (writtenDate moment n) := by
  obtain ⟨⟨m, hm, hday⟩, hle⟩ := latestDay_mem (t := t) hnodes
  constructor
  · intro heq
    refine ⟨⟨m, hm, ?_⟩, ?_⟩
    · exact ((hwritten m hm).nodeDay_eq_iff hn).mp (hday.trans heq.symm)
    · rintro d ⟨m', hm', rfl⟩
      rw [writtenDate, writtenDate, ← (hwritten m' hm').nodeDay_le_iff hn (t := t), heq]
      exact hle m' hm'
  · rintro ⟨⟨m', hm', hdate⟩, hgreatest⟩
    apply le_antisymm
    · rw [← ((hwritten m' hm').nodeDay_eq_iff hn).mpr hdate]
      exact hle m' hm'
    · rw [← hday, (hwritten m hm).nodeDay_le_iff hn]
      exact hgreatest ⟨m, hm, rfl⟩

end

/-! ### The incidents of a graph -/

section

variable {δ : Type} {t : PropText δ} {b : Backend} {g : Graph δ} {n : Node δ}
  {moment : Node δ → AwareMoment}

theorem mem_resolvedFaultKeys {key : String} : key ∈ resolvedFaultKeys t b g ↔
    ∃ r ∈ g.listNodes "FaultResolution", ∃ v, r.props.get? "fault_key" = some v ∧
      t.text v = key := by
  simp only [resolvedFaultKeys, List.mem_filterMap, Backend.mem_listNodes, Option.map_eq_some_iff]

theorem listNodes_eq_nil_iff {label : String} :
    b.listNodes g label = [] ↔ g.listNodes label = [] := by
  rw [← List.length_eq_zero_iff, (b.perm_listNodes g label).length_eq, List.length_eq_zero_iff]

theorem Stamped.written (hg : Stamped g moment) (hn : n ∈ g.listNodes (runLabel g)) :
    Written n (moment n) := by
  unfold runLabel at hn
  split at hn
  · exact hg n (.inl hn)
  · exact hg n (.inr hn)

/-- The day that the incidents are taken from is the latest of the graph runs. -/
theorem latestGraphRunDay_eq (hg : Stamped g moment) :
    latestGraphRunDay t b g (b.listNodes g "Fault") = latestDay t (b.listNodes g (runLabel g)) := by
  unfold latestGraphRunDay runLabel
  by_cases hnone : g.listNodes "BrokerPositionSnapshot" = []
  · have hlisted := listNodes_eq_nil_iff (b := b).mpr hnone
    simp [hnone, hlisted, latestDay]
  · have hlisted := mt (listNodes_eq_nil_iff (b := b)).mp hnone
    obtain ⟨⟨m, hm, hday⟩, -⟩ := latestDay_mem (t := t) hlisted
    have hwritten := hg m (.inr (Backend.mem_listNodes.mp hm))
    have hne := hwritten.nodeDay_ne (t := t)
    rw [hday] at hne
    simp [hnone, hne]

theorem inScope_iff (hg : Stamped g moment) (hn : n ∈ g.listNodes "Fault") :
    inScope t n (latestGraphRunDay t b g (b.listNodes g "Fault")) = true ↔
      LatestDate g moment (writtenDate moment n) := by
  have hwritten := hg n (.inl hn)
  have hruns : b.listNodes g (runLabel g) ≠ [] := by
    rw [ne_eq, listNodes_eq_nil_iff, runLabel]
    split
    · exact List.ne_nil_of_mem hn
    · rename_i hsnapshot
      simpa using hsnapshot
  have hrun : ∀ m ∈ b.listNodes g (runLabel g), Written m (moment m) := fun m hm =>
    hg.written (Backend.mem_listNodes.mp hm)
  obtain ⟨⟨m, hm, hday⟩, -⟩ := latestDay_mem (t := t) hruns
  have hne := (hrun m hm).nodeDay_ne (t := t)
  rw [hday] at hne
  have hiff := latestDay_eq_iff (t := t) hrun hwritten hruns
  simp only [Backend.mem_listNodes] at hiff
  rw [latestGraphRunDay_eq hg, inScope]
  simp only [hne, hwritten.nodeDay_ne, decide_false, Bool.false_or, decide_eq_true_eq]
  exact hiff

variable [DecidableEq δ]

theorem isLiveIncident_iff {scopeDay : String} :
    isLiveIncident t n (resolvedFaultKeys t b g) scopeDay = true ↔
      Unresolved t g n ∧ severityOf t n ∈ incidentSeverities ∧ inScope t n scopeDay = true := by
  have hunresolved : Unresolved t g n ↔ ¬ (((n.get "status").pyEq (.str resolvedStatus) ||
      decide (n.key ∈ resolvedFaultKeys t b g)) = true) := by
    rw [Bool.or_eq_true, not_or, Value.pyEq_str, decide_eq_true_eq, decide_eq_true_eq,
      mem_resolvedFaultKeys, Unresolved]
    push Not
    rfl
  rw [hunresolved, isLiveIncident]
  split
  · simp [*]
  · simp [*]

/-- An incident is a pending fault that shows the latest date. -/
theorem mem_liveFaultIncidents (hg : Stamped g moment) : n ∈ liveFaultIncidents t b g ↔
    Pending t g n ∧ LatestDate g moment (writtenDate moment n) := by
  simp only [liveFaultIncidents, List.mem_filter, Backend.mem_listNodes, isLiveIncident_iff,
    Pending, and_assoc]
  exact and_congr_right fun hn => by rw [inScope_iff hg hn]

/-! ### Writes -/

variable {g' : Graph δ} {s r : Node δ} {key : String} {props : Props δ} {v : Value δ}

/-- A new node of a label stands behind the others of the label, and apart from those of another. -/
theorem listNodes_merge {label : String} (hfresh : g.getNode label key = none)
    (h : g.mergeNode label key props = .ok (g', r)) :
    g'.listNodes label = g.listNodes label ++ [r] ∧ r.props = props ∧
      ∀ label', label' ≠ label → b.listNodes g' label' = b.listNodes g label' ∧
        g'.listNodes label' = g.listNodes label' := by
  rw [Graph.mergeNode_fresh props hfresh, Except.ok.injEq, Prod.mk.injEq] at h
  obtain ⟨rfl, rfl⟩ := h
  exact ⟨Graph.listNodes_put_fresh hfresh, rfl, fun label' hne =>
    ⟨Backend.listNodes_put_of_ne hne.symm, Graph.listNodes_put_of_ne hne.symm⟩⟩

/-- A recorded resolution takes out the fault it names. -/
theorem liveFaultIncidents_resolve (hfresh : g.getNode "FaultResolution" key = none)
    (hv : props.get? "fault_key" = some v)
    (h : g.mergeNode "FaultResolution" key props = .ok (g', r)) :
    liveFaultIncidents t b g' =
      (liveFaultIncidents t b g).filter fun n => decide (n.key ≠ t.text v) := by
  obtain ⟨hlisted, hprops, hothers⟩ := listNodes_merge (b := b) hfresh h
  have hunresolved : ∀ n : Node δ, Unresolved t g' n ↔ n.key ≠ t.text v ∧ Unresolved t g n := by
    intro n
    simp only [Unresolved, hlisted, List.mem_append, List.mem_singleton, or_imp, forall_and,
      forall_eq, hprops, hv, Option.some.injEq, forall_eq']
    constructor
    · rintro ⟨hstatus, hold, hnew⟩
      exact ⟨hnew.symm, hstatus, hold⟩
    · rintro ⟨hnew, hstatus, hold⟩
      exact ⟨hstatus, hold, hnew.symm⟩
  have hfaults := (hothers "Fault" (by decide)).1
  have hsnapshots := (hothers "BrokerPositionSnapshot" (by decide)).1
  simp only [liveFaultIncidents, latestGraphRunDay, hfaults, hsnapshots, List.filter_filter]
  refine List.filter_congr fun n _ => ?_
  rw [Bool.eq_iff_iff, Bool.and_eq_true, decide_eq_true_eq, isLiveIncident_iff, isLiveIncident_iff,
    hunresolved, and_assoc]

/-- The latest date is still the latest after a snapshot of no later date, and of the same date
where it is the first one. -/
theorem latestDate_record (hfresh : g.getNode "BrokerPositionSnapshot" key = none)
    (h : g.mergeNode "BrokerPositionSnapshot" key props = .ok (g', s)) {date : Nat}
    (hdate : LatestDate g moment date) : LatestDate g' moment date ↔
      writtenDate moment s ≤ date ∧
        (g.listNodes "BrokerPositionSnapshot" = [] → writtenDate moment s = date) := by
  obtain ⟨hlisted, -, -⟩ := listNodes_merge (b := .memory) hfresh h
  have hlabel : runLabel g' = "BrokerPositionSnapshot" := by simp [runLabel, hlisted]
  by_cases hnone : g.listNodes "BrokerPositionSnapshot" = []
  · rw [LatestDate, hlabel, hlisted, hnone, List.nil_append]
    constructor
    · rintro ⟨⟨m, hm, rfl⟩, -⟩
      rw [List.mem_singleton.mp hm]
      exact ⟨le_rfl, fun _ => rfl⟩
    · rintro ⟨-, heq⟩
      refine ⟨⟨s, List.mem_singleton_self s, heq rfl⟩, ?_⟩
      rintro d ⟨m, hm, rfl⟩
      rw [List.mem_singleton.mp hm]
      exact (heq rfl).le
  · have hlabelOld : runLabel g = "BrokerPositionSnapshot" := by simp [runLabel, hnone]
    rw [LatestDate, hlabelOld] at hdate
    rw [LatestDate, hlabel, hlisted]
    obtain ⟨⟨m, hm, hmdate⟩, hgreatest⟩ := hdate
    constructor
    · rintro ⟨-, hle⟩
      exact ⟨hle ⟨s, by simp, rfl⟩, fun hempty => absurd hempty hnone⟩
    · rintro ⟨hle, -⟩
      refine ⟨⟨m, List.mem_append_left _ hm, hmdate⟩, ?_⟩
      rintro d ⟨m', hm', rfl⟩
      rcases List.mem_append.mp hm' with hold | hnew
      · exact hgreatest ⟨m', hold, rfl⟩
      · rw [List.mem_singleton.mp hnew]
        exact hle

theorem pending_record (hfresh : g.getNode "BrokerPositionSnapshot" key = none)
    (h : g.mergeNode "BrokerPositionSnapshot" key props = .ok (g', s)) :
    Pending t g' n ↔ Pending t g n := by
  obtain ⟨-, -, hothers⟩ := listNodes_merge (b := .memory) hfresh h
  rw [Pending, Pending, Unresolved, Unresolved, (hothers "Fault" (by decide)).2,
    (hothers "FaultResolution" (by decide)).2]

theorem Stamped.record (hg : Stamped g moment)
    (hfresh : g.getNode "BrokerPositionSnapshot" key = none)
    (h : g.mergeNode "BrokerPositionSnapshot" key props = .ok (g', s))
    (hs : Written s (moment s)) : Stamped g' moment := by
  obtain ⟨hlisted, -, hothers⟩ := listNodes_merge (b := .memory) hfresh h
  intro n hn
  rw [(hothers "Fault" (by decide)).2, hlisted, List.mem_append, List.mem_singleton] at hn
  rcases hn with hfault | hold | rfl
  · exact hg n (.inl hfault)
  · exact hg n (.inr hold)
  · exact hs

/-- The surface shows each pending fault since the start of the latest run's day, no resolved one,
loses to a resolution the fault it names and to a snapshot none that came after it, just where each
such fault shows the latest date and the snapshot is dated before it. -/
theorem showsIncidents_iff (hg : Stamped g moment)
    (hfresh : g.getNode "BrokerPositionSnapshot" key = none)
    (h : g.mergeNode "BrokerPositionSnapshot" key props = .ok (g', s))
    (hs : Written s (moment s)) :
    ShowsIncidents t b g moment g' s ↔
      ShowsLatestDate t g moment ∧ DatedBefore t g moment s := by
  have hg' := hg.record hfresh h hs
  constructor
  · intro hshows
    refine ⟨fun instant hrun n hn hsince => ?_, fun n hn hdate hlater => ?_⟩
    · exact ((mem_liveFaultIncidents hg).mp (hshows.shown instant hrun n hn hsince)).2
    · have hkept := hshows.kept n ((mem_liveFaultIncidents hg).mpr ⟨hn, hdate⟩) hlater
      exact (latestDate_record hfresh h hdate).mp ((mem_liveFaultIncidents hg').mp hkept).2
  · rintro ⟨hshown, hkept⟩
    refine ⟨fun instant hrun n hn hsince => ?_, fun n hn => ?_, ?_, fun n hn hlater => ?_⟩
    · exact (mem_liveFaultIncidents hg).mpr ⟨hn, hshown instant hrun n hn hsince⟩
    · exact ((mem_liveFaultIncidents hg).mp hn).1.2.1
    · exact fun _ _ _ _ _ hnew hv hwrite => liveFaultIncidents_resolve hnew hv hwrite
    · obtain ⟨hpending, hdate⟩ := (mem_liveFaultIncidents hg).mp hn
      exact (mem_liveFaultIncidents hg').mpr ⟨(pending_record hfresh h).mpr hpending,
        (latestDate_record hfresh h hdate).mpr (hkept n hpending hdate hlater)⟩

end

/-! ### Stamps in UTC -/

section

variable {δ : Type} {t : PropText δ} {g : Graph δ} {n m s : Node δ}
  {moment : Node δ → AwareMoment}

/-- The date of a stamp in UTC is the day of its instant. -/
theorem utcDayStart_le_iff (hn : (moment n).offset = 0) (hm : (moment m).offset = 0) :
    utcDayStart (moment m).micros ≤ (moment n).micros ↔
      writtenDate moment m ≤ writtenDate moment n := by
  have hmicros : ∀ {n}, (moment n).offset = 0 → (moment n).micros =
      ((writtenDate moment n : Int) - 1) * dayMicros + (moment n).clock.timeMicros := by
    intro n hn
    rw [AwareMoment.micros, hn, Int.sub_zero, Moment.micros_eq]
    rfl
  have htime := (moment n).clock.timeMicros_lt
  have htime' := (moment m).clock.timeMicros_lt
  rw [utcDayStart, hmicros hn, hmicros hm]
  unfold dayMicros at *
  omega

theorem writtenDate_le_of_micros (hn : (moment n).offset = 0) (hm : (moment m).offset = 0)
    (h : (moment m).micros ≤ (moment n).micros) : writtenDate moment m ≤ writtenDate moment n := by
  refine (utcDayStart_le_iff hn hm).mp (le_trans ?_ h)
  have hpos : (0 : Int) ≤ (moment m).micros % dayMicros := Int.emod_nonneg _ (by decide)
  unfold utcDayStart
  omega

variable (moment) in
theorem exists_latestRun (hn : n ∈ g.listNodes (runLabel g)) :
    ∃ m ∈ g.listNodes (runLabel g), LatestRun g moment (moment m).micros := by
  cases hm : (g.listNodes (runLabel g)).argmax fun n => (moment n).micros with
  | none =>
    rw [List.argmax_eq_none.mp hm] at hn
    cases hn
  | some m =>
    refine ⟨m, List.argmax_mem hm, ⟨m, List.argmax_mem hm, rfl⟩, ?_⟩
    rintro _ ⟨n', hn', rfl⟩
    exact List.le_of_mem_argmax (f := fun n => (moment n).micros) hn' hm

/-- With stamps in UTC what is lost is the pending faults after the day of the last run. -/
theorem showsLatestDate_iff_of_utc (hutc : ∀ n, n ∈ g.listNodes "Fault" ∨
      n ∈ g.listNodes (runLabel g) → (moment n).offset = 0) :
    ShowsLatestDate t g moment ↔ ∀ n, Pending t g n →
      ∃ m ∈ g.listNodes (runLabel g), writtenDate moment n ≤ writtenDate moment m := by
  constructor
  · intro hshows n hn
    obtain ⟨m₀, hm₀⟩ : ∃ m, m ∈ g.listNodes (runLabel g) := by
      refine List.exists_mem_of_ne_nil _ ?_
      unfold runLabel
      split
      · exact List.ne_nil_of_mem hn.1
      · rename_i hsnapshot
        simpa using hsnapshot
    obtain ⟨m, hm, hlatest⟩ := exists_latestRun moment hm₀
    rcases le_total (writtenDate moment m) (writtenDate moment n) with hle | hle
    · have hsince := (utcDayStart_le_iff (hutc n (.inl hn.1)) (hutc m (.inr hm))).mpr hle
      obtain ⟨⟨m', hm', hdate⟩, -⟩ := hshows _ hlatest n hn hsince
      exact ⟨m', hm', hdate.ge⟩
    · exact ⟨m, hm, hle⟩
  · rintro hall instant ⟨⟨m, hm, rfl⟩, hgreatest⟩ n hn hsince
    have hmax : ∀ m' ∈ g.listNodes (runLabel g), writtenDate moment m' ≤ writtenDate moment m :=
      fun m' hm' => writtenDate_le_of_micros (hutc m (.inr hm)) (hutc m' (.inr hm'))
        (hgreatest ⟨m', hm', rfl⟩)
    have hle := (utcDayStart_le_iff (hutc n (.inl hn.1)) (hutc m (.inr hm))).mp hsince
    obtain ⟨m', hm', hle'⟩ := hall n hn
    have heq := le_antisymm hle (hle'.trans (hmax m' hm'))
    rw [← heq]
    exact ⟨⟨m, hm, rfl⟩, by rintro _ ⟨m', hm', rfl⟩; exact hmax m' hm'⟩

end

/-! ### A fault on the next day -/

/-- August 18 and 19. -/
def incidentDay (n : Fin 2) : Day :=
  .ofFields 2026 8 (n.val + 18) (by revert n; decide)

def plainText : PropText Unit where
  text v := v.str?.getD ""
  text_str _ := rfl

/-- Four in the morning of August 18. -/
def snapshotMoment : AwareMoment := .ofUtc (.ofClock (incidentDay 0) 4 0 0 0)

def faultMoment (n : Fin 2) : AwareMoment := .ofUtc (.ofClock (incidentDay n) 4 22 0 0)

def errorFault (n : Fin 2) : Node Unit where
  label := "Fault"
  key := "fault:current-error"
  props := .ofList [("severity", .str "error"), ("occurred_at", .str (faultMoment n).isoformat)]

def brokerSnapshot (key : String) : Node Unit where
  label := "BrokerPositionSnapshot"
  key := key
  props := .ofList [("created_at", .str snapshotMoment.isoformat)]

def incidentMoment (n : Fin 2) (node : Node Unit) : AwareMoment :=
  if node.label = "Fault" then faultMoment n else snapshotMoment

/-- A snapshot and an error, on its day or on the next. -/
def incidentGraph (n : Fin 2) : Graph Unit :=
  (Graph.empty.put (errorFault n)).put (brokerSnapshot "broker-position-snapshot:1")

theorem faults_incidentGraph (n : Fin 2) :
    (incidentGraph n).listNodes "Fault" = [errorFault n] := rfl

theorem snapshots_incidentGraph (n : Fin 2) :
    (incidentGraph n).listNodes "BrokerPositionSnapshot" =
      [brokerSnapshot "broker-position-snapshot:1"] := rfl

theorem incidentGraph_stamped (n : Fin 2) : Stamped (incidentGraph n) (incidentMoment n) := by
  intro node hnode
  rw [faults_incidentGraph, snapshots_incidentGraph, List.mem_singleton,
    List.mem_singleton] at hnode
  rcases hnode with rfl | rfl
  · exact written_of_isoformat (.inl rfl)
  · exact written_of_isoformat (.inr ⟨rfl, rfl⟩)

theorem snapshot_recorded (n : Fin 2) :
    (incidentGraph n).mergeNode "BrokerPositionSnapshot" "broker-position-snapshot:2"
        (brokerSnapshot "broker-position-snapshot:2").props =
      .ok ((incidentGraph n).put (brokerSnapshot "broker-position-snapshot:2"),
        brokerSnapshot "broker-position-snapshot:2") :=
  Graph.mergeNode_fresh _ rfl

theorem pending_incidentGraph (n : Fin 2) :
    Pending plainText (incidentGraph n) (errorFault n) := by
  refine ⟨List.mem_singleton_self _, ⟨?_, ?_⟩, ?_⟩
  · intro hstatus
    cases hstatus
  · intro r hr
    cases hr
  · exact List.mem_cons_self

/-- An error on the day of the snapshots. -/
theorem showsIncidents_iff_sameDay :
    ShowsIncidents plainText .memory (incidentGraph 0) (incidentMoment 0)
      ((incidentGraph 0).put (brokerSnapshot "broker-position-snapshot:2"))
      (brokerSnapshot "broker-position-snapshot:2") := by
  have hdate : ∀ node, writtenDate (incidentMoment 0) node = (incidentDay 0).toOrdinal := by
    intro node
    unfold writtenDate incidentMoment
    split
    · rfl
    · rfl
  refine (showsIncidents_iff (incidentGraph_stamped 0) rfl (snapshot_recorded 0)
    (written_of_isoformat (.inr ⟨rfl, rfl⟩))).mpr ⟨fun _ _ n _ _ => ?_, fun n _ _ _ => ?_⟩
  · refine ⟨⟨brokerSnapshot "broker-position-snapshot:1", List.mem_singleton_self _, ?_⟩, ?_⟩
    · rw [hdate, hdate]
    · rintro _ ⟨m, -, rfl⟩
      rw [hdate, hdate]
  · rw [hdate, hdate]
    exact ⟨le_rfl, fun _ => rfl⟩

/-- An error on the day after the last snapshot is not shown. -/
theorem nextDay_error_dropped :
    Stamped (incidentGraph 1) (incidentMoment 1) ∧
      ¬ ShowsIncidents plainText .memory (incidentGraph 1) (incidentMoment 1)
        ((incidentGraph 1).put (brokerSnapshot "broker-position-snapshot:2"))
        (brokerSnapshot "broker-position-snapshot:2") := by
  refine ⟨incidentGraph_stamped 1, fun hshows => ?_⟩
  have hlatest : LatestRun (incidentGraph 1) (incidentMoment 1) snapshotMoment.micros := by
    refine ⟨⟨brokerSnapshot "broker-position-snapshot:1", List.mem_singleton_self _, rfl⟩, ?_⟩
    rintro _ ⟨m, hm, rfl⟩
    rw [List.mem_singleton.mp hm]
    exact le_rfl
  have hsince : utcDayStart snapshotMoment.micros ≤ (faultMoment 1).micros := by decide +kernel
  have hshown := hshows.shown _ hlatest _ (pending_incidentGraph 1) hsince
  have hnone : liveFaultIncidents plainText .memory (incidentGraph 1) = [] := by decide +kernel
  rw [hnone] at hshown
  cases hshown

end TradingAgents.Kernel
