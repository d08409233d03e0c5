import Mathlib
import TradingAgents.Replay.Ledger

/-! Marks, forced exits and rebases of the replay's positions over the cached bars of their lines.
-/

namespace TradingAgents.Replay

open ProofKit Execution

/-- A reviewed price move of a line. -/
structure KnownMove where
  line : String
  date : Date
  kind : String
deriving DecidableEq

/-- A line's membership of the index from its first day to its last. -/
structure Episode where
  line : String
  first : Date
  last : Date
deriving DecidableEq

/-- The bars of each line, in the order of their dates. -/
abbrev LineBars := String → List BarRow

/-! ### Bars of a line -/

/-- The insertion point of a day between two positions of a list, by halving. -/
def bisectLeftIn (dates : List Date) (day : Date) (lo hi : Nat) : Nat :=
  if h : lo < hi then
    let mid := (lo + hi) / 2
    if dates.getD mid 0 < day then bisectLeftIn dates day (mid + 1) hi
    else bisectLeftIn dates day lo mid
  else lo
termination_by hi - lo

def bisectLeft (dates : List Date) (day : Date) : Nat := bisectLeftIn dates day 0 dates.length

/-- The position of the bar of a day. -/
def indexOf (rows : List BarRow) (session : Date) : Option Nat :=
  let index := bisectLeft (rows.map BarRow.date) session
  if (rows.map BarRow.date)[index]? = some session then some index else none

/-- The last bar before the first one that is later than the session. -/
def latestOnOrBefore (rows : List BarRow) (session : Date) : Option BarRow :=
  (rows.takeWhile fun row => decide (row.date ≤ session)).getLast?

def hasFutureBar (rows : List BarRow) (session : Date) : Bool :=
  rows.any fun row => decide (session < row.date)

/-- The session's close over the close before it, with the bar before the rest of the bars. -/
def sameLineRatioAfter (session : Date) : Option BarRow → List BarRow → Option ℚ
  | _, [] => none
  | prior, row :: rows =>
    match prior.filter fun p => decide (row.date = session ∧ p.close ≠ 0) with
    | some p => some (row.close / p.close)
    | none => if session ≤ row.date then none else sameLineRatioAfter session (some row) rows

def sameLineRatio (rows : List BarRow) (session : Date) : Option ℚ :=
  sameLineRatioAfter session none rows

def closeCents (row : BarRow) : Int := roundHalfEven (row.close * 100)

def positionValueCents (position : ReplayPosition) (closeCents : Int) : Int :=
  position.quantity * positionPriceCents position closeCents

/-! ### Marks -/

structure MarkResult where
  equityCents : Int
  longCents : Int
  gapMarks : Nat
deriving DecidableEq

/-- The value of a position at its line's latest close, nothing where there is none. -/
def markCents (lineBars : LineBars) (session : Date) (item : String × ReplayPosition) : Int :=
  match latestOnOrBefore (lineBars item.1) session with
  | none => 0
  | some latest => positionValueCents item.2 (closeCents latest)

/-- Whether the mark is carried over a gap: no bar today, but one to come. -/
def isGapMark (lineBars : LineBars) (session : Date) (item : String × ReplayPosition) : Bool :=
  match latestOnOrBefore (lineBars item.1) session with
  | none => false
  | some latest => decide (latest.date ≠ session) && hasFutureBar (lineBars item.1) session

/-- Mark held positions at today's close or a carried last close. -/
def markPositions (cashCents : Int) (positions : Dict String ReplayPosition) (lineBars : LineBars)
    (session : Date) : MarkResult :=
  let longCents := (positions.entries.map (markCents lineBars session)).sum
  ⟨cashCents + longCents, longCents, positions.entries.countP (isGapMark lineBars session)⟩

/-! ### Ended lines -/

/-- The exit reason when today is the line's last bar in its episode. -/
def endedToday (rows : List BarRow) (session : Date) (spans : List Episode) (cacheEnd : Date) :
    Option String :=
  match indexOf rows session with
  | none => none
  | some index =>
    match spans.find? fun span => decide (span.first ≤ session ∧ session ≤ span.last) with
    | none => some "membership_end"
    | some episode =>
      -- still a member when the cache ends: the bars stop with the cache
      if cacheEnd ≤ episode.last then none
      else if ((rows.map BarRow.date)[index + 1]?).any fun day => decide (day ≤ episode.last) then
        none
      else if session = episode.last then some "membership_end"
      else some "data_end"

/-- The last day of any episode. -/
def cacheEnd (episodes : List Episode) (session : Date) : Date :=
  ((episodes.map Episode.last).max?).getD session

section Exits

variable (isoformat : Date → String)

def exitEnded (session : Date) (lineBars : LineBars) (episodes : List Episode) (b : Book)
    (item : String × ReplayPosition) : Book :=
  let rows := lineBars item.1
  let spans := episodes.filter fun span => decide (span.line = item.1)
  match endedToday rows session spans (cacheEnd episodes session) with
  | none => b
  | some reason =>
    match rows[(indexOf rows session).getD 0]? with
    | none => b
    | some today =>
      b.sell item.1 ⟨isoformat session, item.1, .sell, item.2.quantity,
        positionPriceCents item.2 (closeCents today), reason⟩

/-- Sell a held line at today's close when its episode has no later bar. -/
def exitEndedPositions (session : Date) (lineBars : LineBars) (episodes : List Episode)
    (b : Book) : Book :=
  b.positions.entries.foldl (exitEnded isoformat session lineBars episodes) b

end Exits

/-! ### Adjustment days -/

/-- A book and the lines rebased in it. -/
structure Rebased where
  book : Book
  lines : List String := []

/-- The lines with a listed adjustment error today. -/
def knownToday (session : Date) (knownMoves : List KnownMove) : List String :=
  ((knownMoves.filter fun move =>
    decide (move.date = session ∧ move.kind = "adjustment-error")).map KnownMove.line).dedup

def rebaseLine (session : Date) (lineBars : LineBars) (r : Rebased) (line : String) : Rebased :=
  match sameLineRatio (lineBars line) session, r.book.positions.get? line with
  | some ratio, some position =>
    ⟨r.book.revise line (applyAdjustmentRebase position ratio), r.lines ++ [line]⟩
  | _, _ => r

/-- Rebase held lines on listed adjustment-error dates. -/
def applyAdjustmentRebases (session : Date) (lineBars : LineBars) (knownMoves : List KnownMove)
    (b : Book) : Rebased :=
  let held := (knownToday session knownMoves).filter fun line => decide (line ∈ b.positions.keys)
  (held.insertionSort (· ≤ ·)).foldl (rebaseLine session lineBars) { book := b }

/-! ### What they do to the book -/

theorem exitEndedPositions_reduces {start : Int} {isoformat : Date → String} {session : Date}
    {lineBars : LineBars} {episodes : List Episode} {b : Book} (hb : BookInv start b) :
    Reduces b (exitEndedPositions isoformat session lineBars episodes b) := by
  refine Reduces.foldl_positions (fun b line p hp hline => ?_) hb
  simp only [exitEnded]
  split
  · exact .refl b line
  · split
    · exact .refl b line
    · exact .sell hp rfl rfl

theorem applyAdjustmentRebases_reduces {session : Date} {lineBars : LineBars}
    {knownMoves : List KnownMove} {b : Book} :
    Reduces b (applyAdjustmentRebases session lineBars knownMoves b).book := by
  simp only [applyAdjustmentRebases]
  suffices hall : ∀ (lines : List String) (r : Rebased),
      Reduces r.book (lines.foldl (rebaseLine session lineBars) r).book from hall _ { book := b }
  intro lines
  induction lines with
  | nil => exact fun r => .refl r.book
  | cons line lines ih =>
    intro r
    have hline : Reduces r.book (rebaseLine session lineBars r line).book := by
      unfold rebaseLine
      split
      · rename_i ratio position _ hposition
        exact .revise hposition (by simp) (by simp) (by simp)
      · exact .refl r.book
    exact hline.trans (ih _)

end TradingAgents.Replay
