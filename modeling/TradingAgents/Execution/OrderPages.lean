import Mathlib.Data.List.Basic
import Mathlib.Tactic.Linarith
import TradingAgents.Execution.Orders

/-! The listing of a broker's orders a page at a time.  Each page ends strictly before the oldest
order of the last one, so an order that shares its submission time with that order and did not fit
on the page is on no page. -/

namespace TradingAgents.Execution

open ProofKit

/-- One order as the broker answers it, with the fields that are read. -/
structure AlpacaOrder where
  id : String
  clientOrderId : String
  submittedAt : String
  status : String
  symbol : String := ""
  side : Side := .buy
  qty : Int := 0
  price : Money := ⟨0, "USD"⟩
  filledQty : Option Int := none
  orderType : Option String := none
deriving DecidableEq

/-- The orders a broker holds, the newest first; which of them a listing by status names, and the
time that a time stamp means. -/
structure OrderBook where
  orders : List AlpacaOrder
  named : String → AlpacaOrder → Bool
  instant : String → Int
  ids : (orders.map AlpacaOrder.id).Nodup
  newestFirst : orders.Pairwise fun a b => instant b.submittedAt ≤ instant a.submittedAt

/-- Alpaca's largest page. -/
def pageLimit : Nat := 500

namespace OrderBook

def time (b : OrderBook) (order : AlpacaOrder) : Int := b.instant order.submittedAt

/-- The orders that a listing asks for. -/
def window (b : OrderBook) (status : String) (after : Option String) : List AlpacaOrder :=
  b.orders.filter fun order => b.named status order &&
    match after with
    | none => true
    | some after => decide (b.instant after < b.time order)

/-- The answer to one request: the newest orders before the cursor, at most the page size. -/
def page (b : OrderBook) (status : String) (after «until» : Option String) : List AlpacaOrder :=
  ((b.window status after).filter fun order =>
    match «until» with
    | none => true
    | some «until» => decide (b.time order < b.instant «until»)).take pageLimit

end OrderBook

/-- The least of some texts. -/
def leastText : List String → Option String
  | [] => none
  | s :: rest =>
    match leastText rest with
    | none => some s
    | some t => some (if t < s then t else s)

/-- The loop of a listing, for at most `fuel` pages. -/
def listPages (request : Option String → List AlpacaOrder) :
    Nat → Dict String AlpacaOrder → Option String → Option (List AlpacaOrder)
  | 0, _, _ => none
  | fuel + 1, orders, cursor =>
    let page := request cursor
    let fresh := page.filter fun order => decide (orders.get? order.id = none)
    let orders := orders.setAll (fresh.map fun order => (order.id, order))
    if page.length < pageLimit ∨ fresh = [] then some (orders.entries.map Prod.snd)
    else listPages request fuel orders (leastText (page.map AlpacaOrder.submittedAt))

/-- Every order one listing names, newest first, read a page at a time. -/
def listOrders (b : OrderBook) (status : String) (after : Option String) (fuel : Nat) :
    Option (List AlpacaOrder) :=
  listPages (b.page status after) fuel .empty none

/-- A listing that has ended does not depend on the pages it might still have read. -/
theorem listPages_mono {request : Option String → List AlpacaOrder} {fuel fuel' : Nat}
    {orders : Dict String AlpacaOrder} {cursor : Option String} {result : List AlpacaOrder}
    (hle : fuel ≤ fuel') (h : listPages request fuel orders cursor = some result) :
    listPages request fuel' orders cursor = some result := by
  induction fuel generalizing fuel' orders cursor with
  | zero => cases h
  | succ fuel ih =>
    obtain ⟨more, rfl⟩ : ∃ more, fuel' = more + 1 := ⟨fuel' - 1, by omega⟩
    rw [listPages] at h ⊢
    split
    · rename_i hstop
      rwa [if_pos hstop] at h
    · rename_i hturn
      rw [if_neg hturn] at h
      exact ih (by omega) h

/-! ### The cursor -/

theorem leastText_mem {texts : List String} {t : String} (h : leastText texts = some t) :
    t ∈ texts := by
  induction texts generalizing t with
  | nil => cases h
  | cons s rest ih =>
    rw [leastText] at h
    cases hrest : leastText rest with
    | none =>
      rw [hrest] at h
      cases h
      exact List.mem_cons_self
    | some u =>
      rw [hrest] at h
      cases h
      split
      · exact List.mem_cons_of_mem s (ih hrest)
      · exact List.mem_cons_self

theorem leastText_isSome {texts : List String} (h : texts ≠ []) : ∃ t, leastText texts =
    some t := by
  cases texts with
  | nil => exact absurd rfl h
  | cons s rest =>
    rw [leastText]
    cases leastText rest with
    | none => exact ⟨s, rfl⟩
    | some t => exact ⟨_, rfl⟩

namespace OrderBook

variable {b : OrderBook}

/-- What is left of some orders before a cursor. -/
def before (b : OrderBook) (cursor : String) (orders : List AlpacaOrder) : List AlpacaOrder :=
  orders.filter fun order => decide (b.time order < b.instant cursor)

/-- The pages of a listing meet: no page is full and followed by an order of the time of its
cursor. -/
inductive PagesMeet (b : OrderBook) : List AlpacaOrder → Prop
  | short {orders : List AlpacaOrder} : orders.length < pageLimit → PagesMeet b orders
  | turn {orders : List AlpacaOrder} {cursor : String} :
      pageLimit ≤ orders.length →
      leastText ((orders.take pageLimit).map AlpacaOrder.submittedAt) = some cursor →
      (∀ order ∈ orders.drop pageLimit, b.time order ≠ b.instant cursor) →
      PagesMeet b (b.before cursor orders) → PagesMeet b orders

/-! ### Sorted orders -/

def Newest (b : OrderBook) (orders : List AlpacaOrder) : Prop :=
  orders.Pairwise fun a a' => b.time a' ≤ b.time a

theorem Newest.sublist {orders part : List AlpacaOrder} (h : b.Newest orders)
    (hsub : part.Sublist orders) : b.Newest part := List.Pairwise.sublist hsub h

theorem window_newest (b : OrderBook) (status : String) (after : Option String) :
    b.Newest (b.window status after) := List.Pairwise.sublist List.filter_sublist b.newestFirst

theorem window_ids (b : OrderBook) (status : String) (after : Option String) :
    ((b.window status after).map AlpacaOrder.id).Nodup :=
  (List.filter_sublist.map _).nodup b.ids

/-- What is before a time is the end of the orders. -/
theorem Newest.split {orders : List AlpacaOrder} (h : b.Newest orders) (cursor : String) :
    ∃ done, orders = done ++ b.before cursor orders := by
  induction orders with
  | nil => exact ⟨[], rfl⟩
  | cons a orders ih =>
    obtain ⟨ha, htail⟩ := List.pairwise_cons.mp h
    by_cases hbefore : b.time a < b.instant cursor
    · refine ⟨[], ?_⟩
      rw [List.nil_append, before, List.filter_eq_self.mpr]
      intro o ho
      rcases List.mem_cons.mp ho with rfl | ho
      · exact decide_eq_true hbefore
      · exact decide_eq_true ((ha o ho).trans_lt hbefore)
    · obtain ⟨done, hdone⟩ := ih htail
      refine ⟨a :: done, ?_⟩
      rw [before, List.filter_cons_of_neg (by simpa using hbefore), List.cons_append]
      exact congrArg (List.cons a) hdone

/-! ### The run -/

/-- The orders of the window that a cursor leaves to ask for. -/
def rest (b : OrderBook) (window : List AlpacaOrder) : Option String → List AlpacaOrder
  | none => window
  | some cursor => b.before cursor window

theorem page_eq (b : OrderBook) (status : String) (after cursor : Option String) :
    b.page status after cursor = (b.rest (b.window status after) cursor).take pageLimit := by
  cases cursor with
  | none => simp [page, rest]
  | some cursor => rfl

/-- A cursor out of what is left leaves less. -/
theorem rest_cursor {window : List AlpacaOrder} {cursor : Option String} {next : String}
    (h : leastText (((b.rest window cursor).take pageLimit).map AlpacaOrder.submittedAt) =
      some next) :
    b.before next window = b.before next (b.rest window cursor) ∧
      (b.before next (b.rest window cursor)).length < (b.rest window cursor).length := by
  obtain ⟨order, horder, hnext⟩ := List.mem_map.mp (leastText_mem h)
  have hmem := List.mem_of_mem_take horder
  have hlost : order ∉ b.before next (b.rest window cursor) := by
    intro hin
    have hlt := of_decide_eq_true (List.mem_filter.mp hin).2
    rw [time, hnext] at hlt
    exact lt_irrefl _ hlt
  refine ⟨?_, ?_⟩
  · cases cursor with
    | none => rfl
    | some cursor =>
      have hbefore := of_decide_eq_true (List.mem_filter.mp hmem).2
      rw [time, hnext] at hbefore
      rw [rest, before, before, before, List.filter_filter]
      refine List.filter_congr fun o _ => ?_
      by_cases hlt : b.time o < b.instant next
      · simp [hlt, hlt.trans hbefore]
      · simp [hlt]
  · refine lt_of_le_of_ne (List.length_filter_le _ _) fun heq => hlost ?_
    rw [before, List.length_filter_eq_length_iff] at heq
    exact List.mem_filter.mpr ⟨hmem, heq order hmem⟩

theorem mem_entries_setAll {d : Dict String AlpacaOrder} {page : List AlpacaOrder}
    {order : AlpacaOrder}
    (h : order ∈ (d.setAll (page.map fun o => (o.id, o))).entries.map Prod.snd) :
    order ∈ d.entries.map Prod.snd ∨ order ∈ page := by
  obtain ⟨p, hp, rfl⟩ := List.mem_map.mp h
  rcases d.mem_of_get?_setAll (Dict.mem_entries_iff.mp hp) with hold | hnew
  · exact .inl (List.mem_map.mpr ⟨_, Dict.mem_entries_iff.mpr hold, rfl⟩)
  · obtain ⟨o, ho, heq⟩ := List.mem_map.mp hnew
    exact .inr ((Prod.mk.inj heq).2 ▸ ho)

/-- A listing ends; it returns what it had and what the cursor left. -/
theorem listPages_ends (status : String) (after : Option String) {cursor : Option String}
    {fuel : Nat} (seen : Dict String AlpacaOrder)
    (hfuel : (b.rest (b.window status after) cursor).length < fuel) :
    ∃ result, listPages (b.page status after) fuel seen cursor = some result ∧
      ∀ order ∈ result, order ∈ seen.entries.map Prod.snd ∨
        order ∈ b.rest (b.window status after) cursor := by
  induction fuel generalizing cursor seen with
  | zero => omega
  | succ fuel ih =>
    have hpage : ∀ o, o ∈ (b.page status after cursor).filter
        (fun order => decide (seen.get? order.id = none)) →
        o ∈ b.rest (b.window status after) cursor := by
      intro o ho
      rw [page_eq] at ho
      exact List.mem_of_mem_take (List.mem_filter.mp ho).1
    rw [listPages]
    split
    · refine ⟨_, rfl, fun order horder => ?_⟩
      exact (mem_entries_setAll horder).imp_right (hpage order)
    · rename_i hturn
      rw [not_or, not_lt] at hturn
      have hnonempty : (b.page status after cursor).map AlpacaOrder.submittedAt ≠ [] := by
        intro hnil
        rw [List.map_eq_nil_iff] at hnil
        rw [hnil] at hturn
        exact absurd hturn.1 (by decide)
      obtain ⟨next, hnext⟩ := leastText_isSome hnonempty
      rw [hnext]
      rw [page_eq] at hnext
      obtain ⟨hrest, hless⟩ := rest_cursor hnext
      have hrest' : b.rest (b.window status after) (some next) =
          b.before next (b.rest (b.window status after) cursor) := hrest
      obtain ⟨result, hresult, hmem⟩ := @ih (some next)
        (seen.setAll (((b.page status after cursor).filter
          fun order => decide (seen.get? order.id = none)).map fun order => (order.id, order)))
        (by rw [hrest']; omega)
      refine ⟨result, hresult, fun order horder => ?_⟩
      rcases hmem order horder with hseen | hleft
      · exact (mem_entries_setAll hseen).imp_right (hpage order)
      · rw [hrest'] at hleft
        exact .inr (List.mem_filter.mp hleft).1

/-- The listing has taken the first orders of the window; those that the cursor leaves are the last
few of these and then all others. -/
structure Listed (b : OrderBook) (window : List AlpacaOrder) (cursor : Option String)
    (seen : Dict String AlpacaOrder) (taken left : List AlpacaOrder) : Prop where
  split : window = taken ++ left
  entries : seen.entries = taken.map fun order => (order.id, order)
  overlap : ∃ done again, taken = done ++ again ∧ b.rest window cursor = again ++ left ∧
    again.length < pageLimit

variable {window taken left : List AlpacaOrder} {cursor : Option String}
  {seen : Dict String AlpacaOrder}

/-- The fresh orders of a page are the next ones. -/
theorem Listed.fresh (h : b.Listed window cursor seen taken left)
    (hids : (window.map AlpacaOrder.id).Nodup) :
    ∃ done again, taken = done ++ again ∧ b.rest window cursor = again ++ left ∧
      again.length < pageLimit ∧
      ((b.rest window cursor).take pageLimit).filter
        (fun order => decide (seen.get? order.id = none)) =
          left.take (pageLimit - again.length) := by
  obtain ⟨done, again, htaken, hrest, hshort⟩ := h.overlap
  refine ⟨done, again, htaken, hrest, hshort, ?_⟩
  rw [h.split, List.map_append, List.nodup_append] at hids
  obtain ⟨-, -, hdisjoint⟩ := hids
  have hkeys : ∀ id, seen.get? id = none ↔ id ∉ taken.map AlpacaOrder.id := by
    intro id
    rw [← Dict.notMem_keys_iff, Dict.keys, h.entries, List.map_map]
    rfl
  rw [hrest, List.take_append, List.take_of_length_le hshort.le, List.filter_append]
  have hagain : again.filter (fun order => decide (seen.get? order.id = none)) = [] := by
    rw [List.filter_eq_nil_iff]
    intro o ho
    rw [decide_eq_true_eq, hkeys, not_not, htaken]
    exact List.mem_map_of_mem (List.mem_append_right done ho)
  have hnew : ∀ o ∈ left.take (pageLimit - again.length),
      decide (seen.get? o.id = none) = true := by
    intro o ho
    rw [decide_eq_true_eq, hkeys]
    intro hold
    exact hdisjoint _ hold _ (List.mem_map_of_mem (List.mem_of_mem_take ho)) rfl
  rw [hagain, List.nil_append, List.filter_eq_self.mpr hnew]

/-- The orders after a page. -/
theorem Listed.after (h : b.Listed window cursor seen taken left)
    (hids : (window.map AlpacaOrder.id).Nodup) :
    ∃ fresh, ((b.rest window cursor).take pageLimit).filter
        (fun order => decide (seen.get? order.id = none)) = fresh ∧
      left = fresh ++ (b.rest window cursor).drop pageLimit ∧
      (seen.setAll (fresh.map fun order => (order.id, order))).entries =
        (taken ++ fresh).map (fun order => (order.id, order)) ∧
      ∃ done, taken ++ fresh = done ++ (b.rest window cursor).take pageLimit := by
  obtain ⟨done, again, htaken, hrest, hshort, hfresh⟩ := h.fresh hids
  refine ⟨_, hfresh, ?_, ?_, done, ?_⟩
  · rw [hrest, List.drop_append, List.drop_of_length_le hshort.le, List.nil_append,
      List.take_append_drop]
  · rw [h.split, List.map_append, List.nodup_append] at hids
    obtain ⟨-, hleft, hdisjoint⟩ := hids
    have hkeys : ∀ id, id ∈ seen.keys ↔ id ∈ taken.map AlpacaOrder.id := by
      intro id
      rw [Dict.keys, h.entries, List.map_map]
      rfl
    rw [Dict.entries_setAll, h.entries, List.map_append]
    · rw [List.map_map]
      exact ((List.take_sublist _ left).map _).nodup hleft
    · intro p hp hold
      obtain ⟨o, ho, rfl⟩ := List.mem_map.mp hp
      exact hdisjoint _ ((hkeys _).mp hold) _ (List.mem_map_of_mem (List.mem_of_mem_take ho)) rfl
  · rw [htaken, hrest, List.take_append, List.take_of_length_le hshort.le, List.append_assoc]

/-- A page that is not followed by an order of its cursor's time. -/
theorem Listed.turn (h : b.Listed window cursor seen taken left) (hnewest : b.Newest window)
    (hids : (window.map AlpacaOrder.id).Nodup) {next : String} {fresh : List AlpacaOrder}
    (hnext : leastText (((b.rest window cursor).take pageLimit).map AlpacaOrder.submittedAt) =
      some next)
    (hmeet : ∀ order ∈ (b.rest window cursor).drop pageLimit, b.time order ≠ b.instant next)
    (hfresh : ((b.rest window cursor).take pageLimit).filter
      (fun order => decide (seen.get? order.id = none)) = fresh) :
    b.Listed window (some next) (seen.setAll (fresh.map fun order => (order.id, order)))
      (taken ++ fresh) ((b.rest window cursor).drop pageLimit) := by
  obtain ⟨fresh', hfresh', hleft, hentries, done, hdone⟩ := h.after hids
  obtain rfl : fresh' = fresh := hfresh'.symm.trans hfresh
  obtain ⟨order, horder, htime⟩ := List.mem_map.mp (leastText_mem hnext)
  have hsorted : b.Newest (b.rest window cursor) := by
    cases cursor with
    | none => exact hnewest
    | some cursor => exact hnewest.sublist List.filter_sublist
  have hpage : b.Newest ((b.rest window cursor).take pageLimit) :=
    hsorted.sublist (List.take_sublist _ _)
  have hcursor : b.time order = b.instant next := by rw [time, htime]
  -- what follows the page is older than its cursor
  have hlater : ∀ o ∈ (b.rest window cursor).drop pageLimit, b.time o < b.instant next := by
    intro o ho
    have hle : b.time o ≤ b.time order := by
      have hpair := hsorted
      rw [Newest, ← List.take_append_drop pageLimit (b.rest window cursor),
        List.pairwise_append] at hpair
      exact hpair.2.2 order horder o ho
    rw [hcursor] at hle
    exact lt_of_le_of_ne hle (hmeet o ho)
  obtain ⟨passed, hpassed⟩ := hpage.split next
  refine ⟨?_, hentries, done ++ passed,
    b.before next ((b.rest window cursor).take pageLimit), ?_, ?_, ?_⟩
  · calc window
        _ = taken ++ left := h.split
        _ = taken ++ (fresh' ++ (b.rest window cursor).drop pageLimit) :=
            congrArg (taken ++ ·) hleft
        _ = _ := (List.append_assoc _ _ _).symm
  · rw [hdone, List.append_assoc, ← hpassed]
  · refine (rest_cursor hnext).1.trans ?_
    have hold : b.before next ((b.rest window cursor).drop pageLimit) =
        (b.rest window cursor).drop pageLimit :=
      List.filter_eq_self.mpr fun o ho => decide_eq_true (hlater o ho)
    calc b.before next (b.rest window cursor)
        _ = b.before next ((b.rest window cursor).take pageLimit ++
              (b.rest window cursor).drop pageLimit) :=
            congrArg (b.before next) (List.take_append_drop _ _).symm
        _ = b.before next ((b.rest window cursor).take pageLimit) ++
              b.before next ((b.rest window cursor).drop pageLimit) := List.filter_append ..
        _ = _ := by rw [hold]
  · refine lt_of_lt_of_le ?_ (List.length_take_le pageLimit (b.rest window cursor))
    refine lt_of_le_of_ne (List.length_filter_le _ _) fun heq => ?_
    rw [before, List.length_filter_eq_length_iff] at heq
    have hlt := of_decide_eq_true (heq order horder)
    rw [hcursor] at hlt
    exact lt_irrefl _ hlt

/-- From where a listing stands, it returns the window if the pages that are left meet, and loses an
order if they do not. -/
theorem Listed.run {status : String} {after cursor : Option String} {fuel : Nat}
    {seen : Dict String AlpacaOrder} {taken left : List AlpacaOrder}
    (h : b.Listed (b.window status after) cursor seen taken left)
    (hfuel : (b.rest (b.window status after) cursor).length < fuel) :
    ∃ result, listPages (b.page status after) fuel seen cursor = some result ∧
      (b.PagesMeet (b.rest (b.window status after) cursor) → result = b.window status after) ∧
      (¬ b.PagesMeet (b.rest (b.window status after) cursor) →
        ∃ order ∈ b.window status after, order ∉ result) := by
  have hids := b.window_ids status after
  induction fuel generalizing cursor seen taken left with
  | zero => omega
  | succ fuel ih =>
    obtain ⟨fresh, hfresh, hleft, hentries, -⟩ := h.after hids
    obtain ⟨done, again, htaken, hrest, hshort, hfresh'⟩ := h.fresh hids
    have hcode : (b.page status after cursor).filter
        (fun order => decide (seen.get? order.id = none)) = fresh := by rw [page_eq, hfresh]
    rw [listPages, hcode]
    split
    · rename_i hstop
      -- a page that is short, or that adds nothing, is the last
      have hlast : (b.rest (b.window status after) cursor).length < pageLimit := by
        rcases hstop with hlength | hnone
        · rw [page_eq, List.length_take] at hlength
          omega
        · have htake : left.take (pageLimit - again.length) = [] :=
            hfresh'.symm.trans (hfresh.trans hnone)
          have hnil : left = [] := by
            rcases List.take_eq_nil_iff.mp htake with hzero | hnil
            · omega
            · exact hnil
          rw [hrest, hnil, List.append_nil]
          exact hshort
      have hdrop : (b.rest (b.window status after) cursor).drop pageLimit = [] :=
        List.drop_of_length_le hlast.le
      refine ⟨_, rfl, fun _ => ?_, fun hnot => absurd (.short hlast) hnot⟩
      rw [hentries, List.map_map, h.split, hleft, hdrop, List.append_nil]
      exact List.map_id _
    · rename_i hturn
      rw [not_or, not_lt, page_eq, List.length_take] at hturn
      have hfull : pageLimit ≤ (b.rest (b.window status after) cursor).length := by omega
      have hnonempty : ((b.rest (b.window status after) cursor).take pageLimit).map
          AlpacaOrder.submittedAt ≠ [] := by
        intro hnil
        rw [List.map_eq_nil_iff, List.take_eq_nil_iff] at hnil
        have hpos : 0 < pageLimit := by decide
        rcases hnil with hzero | hnil
        · omega
        · rw [hnil, List.length_nil] at hfull
          omega
      obtain ⟨next, hnext⟩ := leastText_isSome hnonempty
      obtain ⟨hbefore, hless⟩ := rest_cursor hnext
      have hrest' : b.rest (b.window status after) (some next) =
          b.before next (b.rest (b.window status after) cursor) := hbefore
      have hfuel' : (b.rest (b.window status after) (some next)).length < fuel := by
        rw [hrest']
        omega
      rw [page_eq, hnext]
      by_cases hmeet : ∀ order ∈ (b.rest (b.window status after) cursor).drop pageLimit,
          b.time order ≠ b.instant next
      · obtain ⟨result, hresult, hall, hlost⟩ :=
          ih (h.turn (b.window_newest status after) hids hnext hmeet hfresh) hfuel'
        refine ⟨result, hresult, fun hpages => ?_, fun hpages => hlost fun hmore => ?_⟩
        · cases hpages with
          | short hlength => omega
          | turn _ hcursor _ hmore =>
            rw [hcursor] at hnext
            cases hnext
            exact hall (hrest' ▸ hmore)
        · exact hpages (.turn hfull hnext hmeet (hrest' ▸ hmore))
      · push Not at hmeet
        obtain ⟨order, horder, htied⟩ := hmeet
        obtain ⟨result, hresult, hmem⟩ := b.listPages_ends status after
          (seen.setAll (fresh.map fun order => (order.id, order))) hfuel'
        refine ⟨result, hresult, fun hpages => ?_, fun _ => ⟨order, ?_, fun hin => ?_⟩⟩
        · cases hpages with
          | short hlength => omega
          | turn _ hcursor hapart _ =>
            rw [hcursor] at hnext
            cases hnext
            exact absurd htied (hapart order horder)
        · rw [h.split, hleft]
          exact List.mem_append_right _ (List.mem_append_right _ horder)
        · rcases hmem order hin with hseen | hafter
          · rw [hentries, List.map_map] at hseen
            have htaken' : order ∈ taken ++ fresh := by simpa using hseen
            have hnodup : (b.window status after).Nodup := List.Nodup.of_map _ hids
            rw [h.split, hleft, ← List.append_assoc, List.nodup_append] at hnodup
            exact hnodup.2.2 order htaken' order horder rfl
          · rw [hrest'] at hafter
            have hlt := of_decide_eq_true (List.mem_filter.mp hafter).2
            rw [htied] at hlt
            exact lt_irrefl _ hlt

theorem listed_start (b : OrderBook) (window : List AlpacaOrder) :
    b.Listed window none .empty [] window :=
  ⟨rfl, rfl, [], [], rfl, rfl, by decide⟩

/-- A listing ends with as many pages as there are orders and one more at most.  It returns every
order of its window once exactly if the pages meet. -/
theorem listOrders_complete_iff (b : OrderBook) (status : String) (after : Option String) :
    ∃ orders, (∀ fuel, (b.window status after).length < fuel →
        listOrders b status after fuel = some orders) ∧
      (orders.Perm (b.window status after) ↔ b.PagesMeet (b.window status after)) := by
  obtain ⟨orders, horders, hall, hlost⟩ :=
    (b.listed_start (b.window status after)).run (Nat.lt_succ_self _)
  refine ⟨orders, fun fuel hfuel => listPages_mono hfuel horders, fun hperm => ?_, fun hmeet => ?_⟩
  · by_contra hnot
    obtain ⟨order, horder, hmissing⟩ := hlost hnot
    exact hmissing (hperm.mem_iff.mpr horder)
  · rw [hall hmeet]

/-- One order of several that were submitted at one time. -/
def tiedOrder (i : Nat) : AlpacaOrder where
  id := String.ofList (List.replicate i 'x')
  clientOrderId := String.ofList (List.replicate i 'x')
  submittedAt := "2026-08-03T14:30:00Z"
  status := "new"

@[irreducible] def tiedOrders : List AlpacaOrder := (List.range 501).map tiedOrder

theorem tiedOrders_length : tiedOrders.length = 501 := by
  rw [tiedOrders, List.length_map, List.length_range]

theorem tiedOrders_ids : (tiedOrders.map AlpacaOrder.id).Nodup := by
  rw [tiedOrders, List.map_map]
  refine List.Nodup.map (fun i j hij => ?_) List.nodup_range
  have hlists : List.replicate i 'x' = List.replicate j 'x' := String.ofList_injective hij
  have hlengths := congrArg List.length hlists
  rwa [List.length_replicate, List.length_replicate] at hlengths

theorem tiedOrders_newestFirst : tiedOrders.Pairwise fun _ _ => (0 : Int) ≤ 0 :=
  List.pairwise_of_forall fun _ _ => le_rfl

/-- One order more than a page holds, all of one submission time. -/
def tiedBook : OrderBook where
  orders := tiedOrders
  named _ _ := true
  instant _ := 0
  ids := tiedOrders_ids
  newestFirst := tiedOrders_newestFirst

/-- The last order of the time at which a page ends is on no page. -/
theorem tied_order_lost : ¬ ∀ (b : OrderBook) (status : String) (after : Option String),
    ∃ fuel orders, listOrders b status after fuel = some orders ∧
      orders.Perm (b.window status after) := by
  intro hall
  obtain ⟨fuel, orders, horders, hperm⟩ := hall tiedBook "all" none
  have hwindow : tiedBook.window "all" none = tiedBook.orders := by
    rw [window, List.filter_eq_self]
    intro order _
    rfl
  have hlength : (tiedBook.window "all" none).length = 501 := by
    rw [hwindow]
    exact tiedOrders_length
  have hnot : ¬ tiedBook.PagesMeet (tiedBook.window "all" none) := by
    intro hmeet
    cases hmeet with
    | short hshort =>
      rw [hlength] at hshort
      exact absurd hshort (by decide)
    | turn _ _ hapart _ =>
      have hdrop : ((tiedBook.window "all" none).drop pageLimit) ≠ [] := by
        intro hnil
        have hlong := congrArg List.length hnil
        rw [List.length_drop, hlength] at hlong
        exact absurd hlong (by decide)
      obtain ⟨order, horder⟩ := List.exists_mem_of_ne_nil _ hdrop
      exact hapart order horder rfl
  obtain ⟨result, hresult, -, hlost⟩ :=
    (tiedBook.listed_start (tiedBook.window "all" none)).run (Nat.lt_succ_self _)
  obtain ⟨order, horder, hmissing⟩ := hlost hnot
  have hsame : orders = result := Option.some.inj
    ((listPages_mono (le_max_left _ _) horders).symm.trans
      (listPages_mono (le_max_right _ _) hresult))
  exact hmissing (hsame ▸ hperm.mem_iff.mpr horder)

end OrderBook

end TradingAgents.Execution
