import Mathlib.Data.List.Nodup
import Mathlib.Tactic.Common

/-! Dictionaries in insertion order.  Assignment to a key that is present replaces its value in
place, and assignment to a new key appends it, so the keys keep the order in which they came and
no key stands twice.  The lookup of each operation is a simp lemma: a later proof never opens the
list of entries unless the order matters to it. -/

namespace TradingAgents.ProofKit

/-- A dictionary: its entries in insertion order, with no key twice. -/
structure Dict (κ ν : Type) where
  entries : List (κ × ν)
  nodup : (entries.map Prod.fst).Nodup

namespace Dict

variable {κ ν : Type}

@[ext] theorem ext {d e : Dict κ ν} (h : d.entries = e.entries) : d = e := by
  cases d; cases e; simp_all

instance [DecidableEq κ] [DecidableEq ν] : DecidableEq (Dict κ ν) := fun d e =>
  decidable_of_iff (d.entries = e.entries) ⟨ext, fun h => h ▸ rfl⟩

def empty : Dict κ ν := ⟨[], by simp⟩

def keys (d : Dict κ ν) : List κ := d.entries.map Prod.fst

variable [DecidableEq κ]

def get? (d : Dict κ ν) (k : κ) : Option ν := d.entries.lookup k

/-- The entries after the assignment of `v` to `k`. -/
def setEntries (k : κ) (v : ν) : List (κ × ν) → List (κ × ν)
  | [] => [(k, v)]
  | (k', v') :: rest => if k' = k then (k', v) :: rest else (k', v') :: setEntries k v rest

theorem setEntries_keys (k : κ) (v : ν) (l : List (κ × ν)) :
    (setEntries k v l).map Prod.fst =
      if k ∈ l.map Prod.fst then l.map Prod.fst else l.map Prod.fst ++ [k] := by
  induction l with
  | nil => simp [setEntries]
  | cons p rest ih =>
    obtain ⟨k', v'⟩ := p
    by_cases h : k' = k
    · simp [setEntries, h]
    · have h' : ¬ k = k' := fun e => h e.symm
      simp only [setEntries, h, if_false, List.map_cons, ih, List.mem_cons, h', false_or]
      split <;> simp

def set (d : Dict κ ν) (k : κ) (v : ν) : Dict κ ν where
  entries := setEntries k v d.entries
  nodup := by
    rw [setEntries_keys]
    split
    · exact d.nodup
    · rename_i h
      exact List.nodup_append.mpr ⟨d.nodup, by simp, fun a ha b hb => by
        rintro rfl
        rw [List.mem_singleton] at hb
        exact h (hb ▸ ha)⟩

/-- The assignments of a list, first to last. -/
def setAll (d : Dict κ ν) : List (κ × ν) → Dict κ ν
  | [] => d
  | p :: rest => (d.set p.1 p.2).setAll rest

/-- The dictionary of a literal list of entries. -/
def ofList (l : List (κ × ν)) : Dict κ ν := empty.setAll l

/-- `d` without an entry for `k`. -/
def erase (d : Dict κ ν) (k : κ) : Dict κ ν where
  entries := d.entries.filter fun p => decide (p.1 ≠ k)
  nodup := (List.filter_sublist.map _).nodup d.nodup

/-- `d` without an entry for any key of a list. -/
def eraseAll (d : Dict κ ν) (ks : List κ) : Dict κ ν := ks.foldl erase d

/-- `d` with every entry of `e` assigned. -/
def update (d e : Dict κ ν) : Dict κ ν := d.setAll e.entries

/-! ### Lookups -/

@[simp] theorem get?_empty (k : κ) : (empty : Dict κ ν).get? k = none := rfl

theorem lookup_cons (k : κ) (p : κ × ν) (l : List (κ × ν)) :
    (p :: l).lookup k = if k = p.1 then some p.2 else l.lookup k := by
  rw [List.lookup_cons]
  by_cases h : k = p.1 <;> simp [h, beq_eq_false_iff_ne.mpr]

theorem lookup_setEntries (k k' : κ) (v : ν) (l : List (κ × ν)) :
    (setEntries k v l).lookup k' = if k' = k then some v else l.lookup k' := by
  induction l with
  | nil => simp [setEntries, lookup_cons]
  | cons p rest ih =>
    by_cases h : p.1 = k
    · subst h
      by_cases h' : k' = p.1 <;> simp [setEntries, lookup_cons, h']
    · simp only [setEntries, h, if_false, lookup_cons, ih]
      by_cases h' : k' = p.1 <;> simp [h', h]

@[simp] theorem get?_set (d : Dict κ ν) (k k' : κ) (v : ν) :
    (d.set k v).get? k' = if k' = k then some v else d.get? k' :=
  lookup_setEntries k k' v d.entries

theorem get?_set_self (d : Dict κ ν) (k : κ) (v : ν) : (d.set k v).get? k = some v := by simp

theorem get?_set_ne (d : Dict κ ν) {k k' : κ} (v : ν) (h : k' ≠ k) :
    (d.set k v).get? k' = d.get? k' := by simp [h]

@[simp] theorem get?_erase (d : Dict κ ν) (k k' : κ) :
    (d.erase k).get? k' = if k' = k then none else d.get? k' := by
  obtain ⟨l, hl⟩ := d
  simp only [erase, get?]
  clear hl
  induction l with
  | nil => simp
  | cons p l ih =>
    by_cases hp : p.1 = k
    · rw [List.filter_cons_of_neg (by simp [hp]), ih, lookup_cons, hp]
      by_cases hk : k' = k <;> simp [hk]
    · rw [List.filter_cons_of_pos (by simp [hp]), lookup_cons, ih, lookup_cons]
      by_cases hk : k' = k
      · subst hk
        simp [Ne.symm hp]
      · simp [hk]

@[simp] theorem get?_eraseAll (d : Dict κ ν) (ks : List κ) (k : κ) :
    (d.eraseAll ks).get? k = if k ∈ ks then none else d.get? k := by
  unfold eraseAll
  induction ks generalizing d with
  | nil => simp
  | cons k' ks ih =>
    rw [List.foldl_cons, ih, get?_erase]
    by_cases hk : k = k' <;> simp [hk]

@[simp] theorem setAll_nil (d : Dict κ ν) : d.setAll [] = d := rfl

@[simp] theorem setAll_cons (d : Dict κ ν) (p : κ × ν) (l : List (κ × ν)) :
    d.setAll (p :: l) = (d.set p.1 p.2).setAll l := rfl

theorem setAll_append (d : Dict κ ν) (l l' : List (κ × ν)) :
    d.setAll (l ++ l') = (d.setAll l).setAll l' := by
  induction l generalizing d with
  | nil => rfl
  | cons p l ih => exact ih _

theorem get?_setAll_of_notMem (d : Dict κ ν) {l : List (κ × ν)} {k : κ}
    (h : k ∉ l.map Prod.fst) : (d.setAll l).get? k = d.get? k := by
  induction l generalizing d with
  | nil => rfl
  | cons p l ih =>
    simp only [List.map_cons, List.mem_cons, not_or] at h
    rw [setAll_cons, ih _ h.2, get?_set_ne _ _ h.1]

/-- What stands after a list of assignments stood before or was assigned. -/
theorem mem_of_get?_setAll (d : Dict κ ν) {l : List (κ × ν)} {k : κ} {v : ν}
    (h : (d.setAll l).get? k = some v) : d.get? k = some v ∨ (k, v) ∈ l := by
  induction l generalizing d with
  | nil => exact .inl h
  | cons p l ih =>
    rcases ih _ h with hset | hmem
    · rw [get?_set] at hset
      split at hset
      · rename_i hk
        exact .inr (List.mem_cons.mpr (.inl (Prod.ext hk (Option.some.inj hset).symm)))
      · exact .inl hset
    · exact .inr (List.mem_cons_of_mem p hmem)

theorem mem_of_get?_ofList {l : List (κ × ν)} {k : κ} {v : ν}
    (h : (ofList l).get? k = some v) : (k, v) ∈ l :=
  (mem_of_get?_setAll empty h).resolve_left (by simp)

/-- An assigned key stands. -/
theorem isSome_get?_setAll (d : Dict κ ν) {l : List (κ × ν)} {k : κ} (h : k ∈ l.map Prod.fst) :
    ((d.setAll l).get? k).isSome := by
  induction l generalizing d with
  | nil => cases h
  | cons p l ih =>
    by_cases hk : k ∈ l.map Prod.fst
    · exact ih _ hk
    · have hp : k = p.1 := (List.mem_cons.mp h).resolve_right hk
      rw [setAll_cons, get?_setAll_of_notMem _ hk, hp, get?_set_self]
      rfl

theorem get?_setAll (d : Dict κ ν) {l : List (κ × ν)} (hl : (l.map Prod.fst).Nodup) (k : κ) :
    (d.setAll l).get? k = (l.lookup k).or (d.get? k) := by
  induction l generalizing d with
  | nil => simp
  | cons p l ih =>
    simp only [List.map_cons, List.nodup_cons] at hl
    rw [setAll_cons, ih _ hl.2, lookup_cons, get?_set]
    by_cases h : k = p.1
    · subst h
      have : l.lookup p.1 = none := by
        rw [List.lookup_eq_none_iff]
        intro q hq
        have : q.1 ≠ p.1 := fun e => hl.1 (e ▸ List.mem_map_of_mem hq)
        simp [this.symm]
      simp [this]
    · simp [h]

theorem get?_setAll_map (d : Dict κ ν) (f : κ → ν) (l : List κ) (k : κ) :
    (d.setAll (l.map fun k => (k, f k))).get? k = if k ∈ l then some (f k) else d.get? k := by
  induction l generalizing d with
  | nil => simp
  | cons k' l ih =>
    rw [List.map_cons, setAll_cons, ih, get?_set]
    by_cases hl : k ∈ l
    · simp [hl]
    · by_cases hk : k = k'
      · simp [hk]
      · simp [hl, hk]

/-- A dictionary that assigns each key of a list its value under `f`. -/
theorem get?_ofList_map (f : κ → ν) (l : List κ) (k : κ) :
    (ofList (l.map fun k => (k, f k))).get? k = if k ∈ l then some (f k) else none := by
  rw [ofList, get?_setAll_map, get?_empty]

/-- After an update the new entries stand, and the old ones where there is no new one. -/
@[simp] theorem get?_update (d e : Dict κ ν) (k : κ) :
    (d.update e).get? k = (e.get? k).or (d.get? k) :=
  get?_setAll d e.nodup k

/-- An assignment of the value that stands changes nothing. -/
theorem set_of_get? {d : Dict κ ν} {k : κ} {v : ν} (h : d.get? k = some v) : d.set k v = d := by
  obtain ⟨l, hl⟩ := d
  apply ext
  simp only [get?, set] at h ⊢
  clear hl
  induction l with
  | nil => cases h
  | cons p l ih =>
    rw [lookup_cons] at h
    by_cases hk : k = p.1
    · rw [if_pos hk] at h
      simp [setEntries, hk, ← Option.some.inj h]
    · rw [if_neg hk] at h
      simp [setEntries, Ne.symm hk, ih h]

/-- Assignments of values that stand change nothing. -/
theorem setAll_of_get? {d : Dict κ ν} {l : List (κ × ν)} (h : ∀ p ∈ l, d.get? p.1 = some p.2) :
    d.setAll l = d := by
  induction l with
  | nil => rfl
  | cons p l ih =>
    rw [setAll_cons, set_of_get? (h p List.mem_cons_self)]
    exact ih fun q hq => h q (List.mem_cons_of_mem _ hq)

/-! ### Keys and entries -/

theorem keys_set (d : Dict κ ν) (k : κ) (v : ν) :
    (d.set k v).keys = if k ∈ d.keys then d.keys else d.keys ++ [k] :=
  setEntries_keys k v d.entries

theorem mem_keys_iff {d : Dict κ ν} {k : κ} : k ∈ d.keys ↔ (d.get? k).isSome := by
  obtain ⟨l, hl⟩ := d
  simp only [keys, get?]
  clear hl
  induction l with
  | nil => simp
  | cons p l ih =>
    rw [lookup_cons, List.map_cons, List.mem_cons, ih]
    by_cases h : k = p.1 <;> simp only [h, true_or, false_or, if_true, if_false, Option.isSome_some]

theorem notMem_keys_iff {d : Dict κ ν} {k : κ} : k ∉ d.keys ↔ d.get? k = none := by
  rw [mem_keys_iff]; simp

@[simp] theorem mem_keys_set {d : Dict κ ν} {k k' : κ} {v : ν} :
    k' ∈ (d.set k v).keys ↔ k' = k ∨ k' ∈ d.keys := by
  rw [mem_keys_iff, mem_keys_iff, get?_set]
  by_cases h : k' = k <;> simp [h]

theorem mem_entries_iff {d : Dict κ ν} {k : κ} {v : ν} :
    (k, v) ∈ d.entries ↔ d.get? k = some v := by
  obtain ⟨l, hl⟩ := d
  simp only [get?]
  induction l with
  | nil => simp
  | cons p l ih =>
    simp only [List.map_cons, List.nodup_cons] at hl
    rw [lookup_cons, List.mem_cons, ih hl.2]
    by_cases h : k = p.1
    · have hnone : l.lookup k ≠ some v := fun hs => by
        have := List.mem_map_of_mem (f := Prod.fst) ((ih hl.2).mpr hs)
        exact hl.1 (h ▸ this)
      simp [h, h ▸ hnone, Prod.ext_iff, eq_comm]
    · have : (k, v) ≠ p := fun e => h (congrArg Prod.fst e)
      simp [h, this]

/-- An update once made changes nothing when it is made again. -/
theorem update_update_self (d e : Dict κ ν) : (d.update e).update e = d.update e := by
  apply setAll_of_get?
  intro p hp
  have hget : e.get? p.1 = some p.2 := mem_entries_iff.mp hp
  rw [get?_update, hget]
  rfl

/-- The entries after an assignment to a new key. -/
theorem entries_set_of_notMem {d : Dict κ ν} {k : κ} (v : ν) (h : k ∉ d.keys) :
    (d.set k v).entries = d.entries ++ [(k, v)] := by
  obtain ⟨l, hl⟩ := d
  simp only [set, keys] at h ⊢
  clear hl
  induction l with
  | nil => rfl
  | cons p l ih =>
    simp only [List.map_cons, List.mem_cons, not_or] at h
    simp [setEntries, Ne.symm h.1, ih h.2]

/-- Assignments of distinct new keys come after the entries. -/
theorem entries_setAll {d : Dict κ ν} {l : List (κ × ν)} (hl : (l.map Prod.fst).Nodup)
    (hnew : ∀ p ∈ l, p.1 ∉ d.keys) : (d.setAll l).entries = d.entries ++ l := by
  induction l generalizing d with
  | nil => simp
  | cons p l ih =>
    obtain ⟨hp, hl⟩ := List.nodup_cons.mp hl
    have hfirst := entries_set_of_notMem p.2 (hnew p List.mem_cons_self)
    rw [setAll_cons, ih hl, hfirst, List.append_assoc]
    · rfl
    · intro q hq hin
      rw [mem_keys_set] at hin
      rcases hin with heq | hold
      · exact hp (heq ▸ List.mem_map_of_mem hq)
      · exact hnew q (List.mem_cons_of_mem p hq) hold

/-- The entries of a dictionary of distinct keys. -/
theorem entries_ofList {l : List (κ × ν)} (hl : (l.map Prod.fst).Nodup) :
    (ofList l).entries = l := by
  rw [ofList, entries_setAll hl fun p _ => by rw [notMem_keys_iff, get?_empty]]
  rfl

/-- What only one entry of a dictionary contributes to. -/
theorem flatMap_entries {β : Type} {d : Dict κ ν} {k : κ} {v : ν}
    {f : κ × ν → List β} (h : d.get? k = some v) (hothers : ∀ p ∈ d.entries, p.1 ≠ k → f p = []) :
    d.entries.flatMap f = f (k, v) := by
  obtain ⟨before, after, hsplit⟩ := List.append_of_mem (Dict.mem_entries_iff.mpr h)
  have hnodup := d.nodup
  rw [hsplit, List.map_append, List.map_cons, List.nodup_append] at hnodup
  have hbefore : before.flatMap f = [] := List.flatMap_eq_nil_iff.mpr fun p hp =>
    hothers p (hsplit ▸ List.mem_append_left _ hp)
      (hnodup.2.2 p.1 (List.mem_map_of_mem hp) k List.mem_cons_self)
  have hafter : after.flatMap f = [] := List.flatMap_eq_nil_iff.mpr fun p hp =>
    hothers p (hsplit ▸ List.mem_append_right _ (List.mem_cons_of_mem _ hp)) fun hk =>
      (List.nodup_cons.mp hnodup.2.1).1 (List.mem_map.mpr ⟨p, hp, hk⟩)
  rw [hsplit, List.flatMap_append, List.flatMap_cons, hbefore, hafter, List.append_nil,
    List.nil_append]

/-- An assignment over values that a filter leaves out changes nothing for the filter. -/
theorem filter_values_set {d : Dict κ ν} {k : κ} {v : ν} {p : ν → Bool} (hv : p v = false)
    (hold : ∀ w, d.get? k = some w → p w = false) :
    ((d.set k v).entries.map Prod.snd).filter p = (d.entries.map Prod.snd).filter p := by
  obtain ⟨l, hl⟩ := d
  simp only [set, get?] at hold ⊢
  clear hl
  induction l with
  | nil => simp [setEntries, hv]
  | cons q l ih =>
    obtain ⟨k', w⟩ := q
    by_cases hk : k' = k
    · subst hk
      have hw : p w = false := hold w (by simp)
      simp [setEntries, hv, hw]
    · have hrest := ih fun w hw => hold w (by rw [lookup_cons, if_neg (Ne.symm hk)]; exact hw)
      simp only [setEntries, if_neg hk, List.map_cons, List.filter_cons, hrest]

/-! ### Mapped values -/

/-- The dictionary with `f` applied to every value. -/
def mapValues {ν' : Type} (f : ν → ν') (d : Dict κ ν) : Dict κ ν' where
  entries := d.entries.map fun p => (p.1, f p.2)
  nodup := by simpa [Function.comp_def] using d.nodup

@[simp] theorem get?_mapValues {ν' : Type} (f : ν → ν') (d : Dict κ ν) (k : κ) :
    (d.mapValues f).get? k = (d.get? k).map f := by
  obtain ⟨l, hl⟩ := d
  simp only [mapValues, get?]
  clear hl
  induction l with
  | nil => rfl
  | cons p l ih =>
    rw [List.map_cons, lookup_cons, lookup_cons, ih]
    split <;> rfl

/-- Two dictionaries with the same value under every key: the equality of dictionaries that does
not look at the order. -/
def Same (d e : Dict κ ν) : Prop := ∀ k, d.get? k = e.get? k

end Dict

end TradingAgents.ProofKit
