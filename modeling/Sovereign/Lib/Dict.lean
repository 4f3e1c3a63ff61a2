import Mathlib.Data.List.Nodup
import Mathlib.Tactic.Common

set_option autoImplicit true

/-- A mapping that remembers the order in which its keys were first set. -/
structure Dict (κ ν : Type) where
  entries : List (κ × ν)
  nodup : (entries.map Prod.fst).Nodup
deriving DecidableEq

namespace Dict

def empty : Dict κ ν := ⟨[], List.nodup_nil⟩

instance : EmptyCollection (Dict κ ν) := ⟨empty⟩
instance : Inhabited (Dict κ ν) := ⟨empty⟩

@[simp] theorem entries_empty : (∅ : Dict κ ν).entries = [] := rfl

@[ext] theorem ext {d e : Dict κ ν} (h : d.entries = e.entries) : d = e := by
  cases d
  cases e
  cases h
  rfl

def keys (d : Dict κ ν) : List κ := d.entries.map Prod.fst

@[simp] theorem keys_empty : (∅ : Dict κ ν).keys = [] := rfl

variable [DecidableEq κ]

/-- An existing key keeps its place; a new one goes to the end. -/
def setEntry (k : κ) (v : ν) : List (κ × ν) → List (κ × ν)
  | [] => [(k, v)]
  | e :: rest => if e.1 = k then (k, v) :: rest else e :: setEntry k v rest

theorem keys_setEntry (k : κ) (v : ν) (l : List (κ × ν)) :
    (setEntry k v l).map Prod.fst =
      if k ∈ l.map Prod.fst then l.map Prod.fst else l.map Prod.fst ++ [k] := by
  induction l with
  | nil => rfl
  | cons e rest ih =>
    simp only [setEntry]
    by_cases he : e.1 = k
    · simp [he]
    · have hk : ¬ k = e.1 := fun h => he h.symm
      simp only [he, ↓reduceIte, List.map_cons, ih, List.mem_cons, hk, false_or]
      split <;> rfl

theorem nodup_setEntry {l : List (κ × ν)} (h : (l.map Prod.fst).Nodup) (k : κ) (v : ν) :
    ((setEntry k v l).map Prod.fst).Nodup := by
  rw [keys_setEntry]
  split
  · exact h
  · next hk => exact List.nodup_append.2 ⟨h, List.nodup_singleton k, by simp; grind⟩

def set (d : Dict κ ν) (k : κ) (v : ν) : Dict κ ν :=
  ⟨setEntry k v d.entries, nodup_setEntry d.nodup k v⟩

def get? (d : Dict κ ν) (k : κ) : Option ν := d.entries.lookup k

def contains (d : Dict κ ν) (k : κ) : Bool := (d.get? k).isSome

/-- `dict.setdefault`, without its result. -/
def setDefault (d : Dict κ ν) (k : κ) (v : ν) : Dict κ ν :=
  if d.contains k then d else d.set k v

/-- `dict.update` from the pairs of another mapping, in their order. -/
def update (d : Dict κ ν) (l : List (κ × ν)) : Dict κ ν :=
  l.foldl (fun d e => d.set e.1 e.2) d

/-- Change the value of a key that is there. -/
def modify (d : Dict κ ν) (k : κ) (f : ν → ν) : Dict κ ν :=
  match d.get? k with
  | none => d
  | some v => d.set k (f v)

/-- The entries that pass a test of their values. -/
def filter (d : Dict κ ν) (p : ν → Bool) : Dict κ ν :=
  ⟨d.entries.filter fun e => p e.2, d.nodup.sublist (List.filter_sublist.map _)⟩

/-- `dict.pop`, without its result. -/
def erase (d : Dict κ ν) (k : κ) : Dict κ ν :=
  ⟨d.entries.filter fun e => !decide (e.1 = k), d.nodup.sublist (List.filter_sublist.map _)⟩

theorem lookup_cons_ite (e : κ × ν) (l : List (κ × ν)) (k : κ) :
    (e :: l).lookup k = if k = e.1 then some e.2 else l.lookup k := by
  obtain ⟨k', v⟩ := e
  rw [List.lookup_cons]
  by_cases hk : k = k'
  · simp [hk]
  · simp [hk, beq_eq_false_iff_ne.2 hk]

theorem lookup_setEntry (k k' : κ) (v : ν) (l : List (κ × ν)) :
    (setEntry k v l).lookup k' = if k' = k then some v else l.lookup k' := by
  induction l with
  | nil => simp only [setEntry, lookup_cons_ite, List.lookup_nil]
  | cons e rest ih => grind [setEntry]

@[simp] theorem get?_set (d : Dict κ ν) (k k' : κ) (v : ν) :
    (d.set k v).get? k' = if k' = k then some v else d.get? k' :=
  lookup_setEntry _ _ _ _

theorem get?_set_self (d : Dict κ ν) (k : κ) (v : ν) : (d.set k v).get? k = some v := by
  rw [get?_set, if_pos rfl]

theorem get?_set_of_ne (d : Dict κ ν) {k k' : κ} (h : k' ≠ k) (v : ν) :
    (d.set k v).get? k' = d.get? k' := by
  rw [get?_set, if_neg h]

@[simp] theorem get?_empty (k : κ) : (∅ : Dict κ ν).get? k = none := rfl

theorem mem_keys {d : Dict κ ν} {k : κ} : k ∈ d.keys ↔ d.contains k = true := by
  obtain ⟨l, hl⟩ := d
  simp only [keys, contains, get?]
  clear hl
  induction l with
  | nil => simp
  | cons e rest ih => grind

theorem keys_set (d : Dict κ ν) (k : κ) (v : ν) :
    (d.set k v).keys = if k ∈ d.keys then d.keys else d.keys ++ [k] :=
  keys_setEntry _ _ _

theorem mem_keys_set {d : Dict κ ν} : k' ∈ (d.set k v).keys ↔ k' = k ∨ k' ∈ d.keys := by
  rw [keys_set]
  split <;> grind

theorem get?_eq_some {d : Dict κ ν} : d.get? k = some v ↔ (k, v) ∈ d.entries := by
  obtain ⟨l, hl⟩ := d
  simp only [get?]
  induction l with
  | nil => simp
  | cons e rest ih =>
    simp only [List.map_cons, List.nodup_cons] at hl
    have hr := ih hl.2
    have hm : (k, v) ∈ rest → k ∈ rest.map Prod.fst := fun h => List.mem_map_of_mem h
    grind

theorem get?_modify (d : Dict κ ν) (k k' : κ) (f : ν → ν) :
    (d.modify k f).get? k' = if k' = k then (d.get? k).map f else d.get? k' := by
  rw [modify]
  cases h : d.get? k with
  | none =>
    by_cases hk : k' = k
    · simp [hk, h]
    · simp [hk]
  | some v => rw [get?_set, Option.map_some]

theorem keys_modify (d : Dict κ ν) (k : κ) (f : ν → ν) : (d.modify k f).keys = d.keys := by
  rw [modify]
  split
  · rfl
  · next v h => rw [keys_set, if_pos (mem_keys.2 (by rw [contains, h]; rfl))]

theorem get?_filter (d : Dict κ ν) (p : ν → Bool) (k : κ) :
    (d.filter p).get? k = (d.get? k).filter p := by
  refine Option.ext fun v => ?_
  rw [get?_eq_some, filter, List.mem_filter, ← get?_eq_some, Option.filter_eq_some_iff]

theorem get?_erase (d : Dict κ ν) (k k' : κ) :
    (d.erase k).get? k' = if k' = k then none else d.get? k' := by
  refine Option.ext fun v => ?_
  rw [get?_eq_some, erase, List.mem_filter, ← get?_eq_some]
  by_cases hk : k' = k
  · simp [hk]
  · simp [hk]

theorem erase_setEntry (k : κ) (v : ν) (l : List (κ × ν)) :
    (setEntry k v l).filter (fun e => !decide (e.1 = k)) = l.filter fun e => !decide (e.1 = k) := by
  induction l with
  | nil => simp [setEntry]
  | cons e l ih =>
    rw [setEntry]
    split
    · next he => simp [he]
    · rw [List.filter_cons, List.filter_cons, ih]

@[simp] theorem erase_set (d : Dict κ ν) (k : κ) (v : ν) : (d.set k v).erase k = d.erase k :=
  ext (erase_setEntry k v d.entries)

theorem erase_eq_self {d : Dict κ ν} {k : κ} : d.erase k = d ↔ d.contains k = false := by
  constructor
  · intro h
    rw [contains, ← h, get?_erase, if_pos rfl]
    rfl
  · intro h
    apply ext
    apply List.filter_eq_self.2
    intro e he
    rw [Bool.not_eq_true', decide_eq_false_iff_not]
    rintro rfl
    rw [contains, get?_eq_some.2 he] at h
    cases h

theorem contains_erase_of_not {d : Dict κ ν} {k' : κ} (h : d.contains k' = false) (k : κ) :
    (d.erase k).contains k' = false := by
  rw [contains, get?_erase]
  split
  · rfl
  · exact h

/-- Later pairs win over earlier ones, and all of them over what was there. -/
theorem get?_update (d : Dict κ ν) (l : List (κ × ν)) (k : κ) :
    (d.update l).get? k = ((l.reverse.lookup k).or (d.get? k)) := by
  induction l generalizing d with
  | nil => rfl
  | cons e l ih =>
    have hcons : d.update (e :: l) = (d.set e.1 e.2).update l := rfl
    rw [hcons, ih, get?_set, List.reverse_cons, List.lookup_append]
    cases l.reverse.lookup k with
    | some v => rfl
    | none =>
      rw [Option.none_or, lookup_cons_ite, List.lookup_nil]
      by_cases hk : k = e.1 <;> simp [hk]

/-- What was not there before came with one of the pairs. -/
theorem mem_of_get?_update {l : List (κ × ν)} (h : ((∅ : Dict κ ν).update l).get? k = some v) :
    (k, v) ∈ l := by
  rw [get?_update, get?_empty, Option.or_none, List.lookup_eq_some_iff] at h
  obtain ⟨before, after, hl, -⟩ := h
  rw [← List.mem_reverse, hl]
  exact List.mem_append_right _ List.mem_cons_self

theorem lookup_reverse {l : List (κ × ν)} (h : (l.map Prod.fst).Nodup) (k : κ) :
    l.reverse.lookup k = l.lookup k := by
  induction l with
  | nil => rfl
  | cons e l ih =>
    rw [List.map_cons, List.nodup_cons] at h
    rw [List.reverse_cons, List.lookup_append, ih h.2]
    by_cases hk : k = e.1
    · subst hk
      have hn : l.lookup e.1 = none := by
        rw [List.lookup_eq_none_iff]
        intro p hp
        exact bne_iff_ne.2 fun he => h.1 (he ▸ List.mem_map_of_mem hp)
      simp [hn, lookup_cons_ite]
    · simp [lookup_cons_ite, hk]

/-- The value of the first pair with this key. -/
def assoc (l : List (κ × ν)) (k : κ) : Option ν := l.lookup k

@[simp] theorem assoc_nil (k : κ) : assoc ([] : List (κ × ν)) k = none := rfl

theorem assoc_cons (e : κ × ν) (l : List (κ × ν)) (k : κ) :
    assoc (e :: l) k = if k = e.1 then some e.2 else assoc l k :=
  lookup_cons_ite e l k

/-- The second of two pairs is looked for first. -/
theorem assoc_second {a b : κ} (h : a ≠ b) (v v' : ν) (l : List (κ × ν)) (k : κ) :
    assoc ((a, v) :: (b, v') :: l) k = if k = b then some v' else assoc ((a, v) :: l) k := by
  rw [assoc_cons, assoc_cons, assoc_cons]
  by_cases hk : k = b
  · have hne : ¬ k = a := fun ha => h (ha.symm.trans hk)
    rw [if_neg hne, if_pos hk, if_pos hk]
  · rw [if_neg hk, if_neg hk]

theorem assoc_append (l l' : List (κ × ν)) (k : κ) :
    assoc (l ++ l') k = (assoc l k).or (assoc l' k) :=
  List.lookup_append

theorem assoc_eq_none {l : List (κ × ν)} (h : k ∉ l.map Prod.fst) : assoc l k = none := by
  rw [assoc, List.lookup_eq_none_iff]
  intro e he
  exact bne_iff_ne.2 fun hk => h (hk ▸ List.mem_map_of_mem he)

theorem get?_update_nodup (d : Dict κ ν) {l : List (κ × ν)} (h : (l.map Prod.fst).Nodup) (k : κ) :
    (d.update l).get? k = (assoc l k).or (d.get? k) := by
  rw [get?_update, lookup_reverse h, assoc]

/-- A mapping made from distinct keys and a function of them. -/
theorem get?_update_graph {keys : List κ} (h : keys.Nodup) (f : κ → ν) (k : κ) :
    ((∅ : Dict κ ν).update (keys.map fun k => (k, f k))).get? k = if k ∈ keys then some (f k)
    else none := by
  have hfst : ((keys.map fun k => (k, f k)).map Prod.fst).Nodup := by
    rw [List.map_map]
    exact (List.map_id _).symm ▸ h
  rw [get?_update, lookup_reverse hfst, get?_empty, Option.or_none]
  clear h hfst
  induction keys with
  | nil => rfl
  | cons k' keys ih =>
    rw [List.map_cons, lookup_cons_ite, ih]
    by_cases hk : k = k'
    · subst hk
      rw [if_pos rfl, if_pos List.mem_cons_self]
    · rw [if_neg hk]
      simp only [List.mem_cons, hk, false_or]

@[simp] theorem get?_update_entries (d e : Dict κ ν) (k : κ) :
    (d.update e.entries).get? k = (e.get? k).or (d.get? k) := by
  rw [get?_update, lookup_reverse e.nodup]
  rfl

theorem get?_setDefault (d : Dict κ ν) (k : κ) (v : ν) (k' : κ) :
    (d.setDefault k v).get? k' = (d.get? k').or (if k' = k then some v else none) := by
  rw [setDefault]
  split
  · next hc =>
    by_cases hk : k' = k
    · subst hk
      obtain ⟨w, hw⟩ := Option.isSome_iff_exists.1 hc
      rw [hw]
      rfl
    · simp [hk]
  · next hc =>
    rw [get?_set]
    by_cases hk : k' = k
    · subst hk
      have hn : d.get? k' = none := by simpa [contains] using hc
      simp [hn]
    · simp [hk]

theorem setEntry_fresh {l : List (κ × ν)} (h : k ∉ l.map Prod.fst) (v : ν) :
    setEntry k v l = l ++ [(k, v)] := by
  induction l with
  | nil => rfl
  | cons e l ih =>
    rw [List.map_cons, List.mem_cons, not_or] at h
    rw [setEntry, if_neg (Ne.symm h.1), ih h.2]
    rfl

/-- Pairs with keys of their own are kept in their order. -/
theorem entries_update {d : Dict κ ν} {l : List (κ × ν)}
    (h : (d.entries ++ l |>.map Prod.fst).Nodup) : (d.update l).entries = d.entries ++ l := by
  induction l generalizing d with
  | nil => exact (List.append_nil _).symm
  | cons e l ih =>
    have hset : (d.set e.1 e.2).entries = d.entries ++ [e] := by
      refine setEntry_fresh (fun hmem => ?_) e.2
      rw [List.map_append, List.map_cons] at h
      exact (List.nodup_append.1 h).2.2 _ hmem _ List.mem_cons_self rfl
    have hrest : ((d.set e.1 e.2).entries ++ l |>.map Prod.fst).Nodup := by
      rw [hset, List.append_assoc]
      exact h
    have hupdate : d.update (e :: l) = (d.set e.1 e.2).update l := rfl
    rw [hupdate, ih hrest, hset, List.append_assoc]
    rfl

theorem mem_keys_update {d : Dict κ ν} {l : List (κ × ν)} {k : κ} :
    k ∈ (d.update l).keys ↔ k ∈ d.keys ∨ k ∈ l.map Prod.fst := by
  induction l generalizing d with
  | nil => simp [update]
  | cons e l ih =>
    have hcons : d.update (e :: l) = (d.set e.1 e.2).update l := rfl
    rw [hcons, ih, mem_keys_set, List.map_cons, List.mem_cons]
    grind

theorem mem_entries_iff {d : Dict κ ν} {e : κ × ν} : e ∈ d.entries ↔ d.get? e.1 = some e.2 :=
  get?_eq_some.symm

omit [DecidableEq κ] in
theorem keys_nodup_map (f : ν → ν') (d : Dict κ ν) :
    ((d.entries.map fun e => (e.1, f e.2)).map Prod.fst).Nodup := by
  rw [List.map_map]
  exact d.nodup

/-- The same keys in the same order, with other values. -/
def map (f : ν → ν') (d : Dict κ ν) : Dict κ ν' :=
  ⟨d.entries.map fun e => (e.1, f e.2), keys_nodup_map f d⟩

theorem get?_map (f : ν → ν') (d : Dict κ ν) (k : κ) : (d.map f).get? k = (d.get? k).map f := by
  obtain ⟨l, hl⟩ := d
  simp only [map, get?]
  clear hl
  induction l with
  | nil => rfl
  | cons e l ih =>
    rw [List.map_cons, lookup_cons_ite, lookup_cons_ite, ih]
    split
    · rfl
    · rfl

/-- At most one entry has a given key. -/
theorem entries_inj {d : Dict κ ν} {e f : κ × ν} (he : e ∈ d.entries) (hf : f ∈ d.entries)
    (hk : e.1 = f.1) : e = f := by
  rw [mem_entries_iff] at he hf
  rw [hk, hf] at he
  exact Prod.ext hk (Option.some.inj he).symm

/-- The same keys in the same order, with values that may depend on them. -/
def mapEntries (f : κ → ν → ν') (d : Dict κ ν) : Dict κ ν' where
  entries := d.entries.map fun e => (e.1, f e.1 e.2)
  nodup := by
    rw [List.map_map]
    exact d.nodup

theorem get?_mapEntries (f : κ → ν → ν') (d : Dict κ ν) (k : κ) :
    (d.mapEntries f).get? k = (d.get? k).map (f k) := by
  obtain ⟨l, hl⟩ := d
  simp only [mapEntries, get?]
  clear hl
  induction l with
  | nil => rfl
  | cons e l ih =>
    rw [List.map_cons, lookup_cons_ite, lookup_cons_ite, ih]
    by_cases hk : k = e.1
    · rw [if_pos hk, if_pos hk, hk]
      rfl
    · rw [if_neg hk, if_neg hk]

omit [DecidableEq κ] in
theorem keys_mapEntries (f : κ → ν → ν') (d : Dict κ ν) : (d.mapEntries f).keys = d.keys := by
  rw [keys, mapEntries, List.map_map]
  rfl

/-- The entries that pass a test. -/
def filterEntries (p : κ → ν → Bool) (d : Dict κ ν) : Dict κ ν :=
  ⟨d.entries.filter fun e => p e.1 e.2, d.nodup.sublist (List.filter_sublist.map _)⟩

theorem get?_filterEntries (p : κ → ν → Bool) (d : Dict κ ν) (k : κ) :
    (d.filterEntries p).get? k = (d.get? k).filter (p k) := by
  refine Option.ext fun v => ?_
  rw [get?_eq_some, filterEntries, List.mem_filter, ← get?_eq_some, Option.filter_eq_some_iff]

omit [DecidableEq κ] in
theorem keys_filterEntries (p : κ → ν → Bool) (d : Dict κ ν) :
    ∀ k ∈ (d.filterEntries p).keys, k ∈ d.keys :=
  fun _ hk => (List.filter_sublist.map Prod.fst).subset hk

/-- The entry of a key. -/
theorem filter_key (d : Dict κ ν) (k : κ) :
    (d.entries.filter fun e => decide (e.1 = k)) = ((d.get? k).map fun v => (k, v)).toList := by
  obtain ⟨l, hl⟩ := d
  simp only [get?]
  induction l with
  | nil => rfl
  | cons e l ih =>
    rw [List.map_cons, List.nodup_cons] at hl
    rw [List.filter_cons, lookup_cons_ite]
    by_cases hk : e.1 = k
    · have hnone : l.lookup k = none := by
        rw [List.lookup_eq_none_iff]
        intro p hp
        exact bne_iff_ne.2 fun he => hl.1 (hk.trans he ▸ List.mem_map_of_mem hp)
      rw [if_pos (decide_eq_true hk), if_pos hk.symm, ih hl.2, hnone, ← hk]
      rfl
    · rw [if_neg (by simpa using hk), if_neg (Ne.symm hk)]
      exact ih hl.2

section Recovery

variable {items : List α} {key : α → κ} {value : α → ν}

/-- With distinct keys there is one item at most under each key. -/
theorem filter_key_nodup (h : (items.map key).Nodup) (k : κ) :
    (items.filter fun x => decide (key x = k)) =
      (items.find? fun x => decide (key x = k)).toList := by
  induction items with
  | nil => rfl
  | cons x items ih =>
    rw [List.map_cons, List.nodup_cons] at h
    by_cases hk : key x = k
    · have hrest : (items.filter fun x => decide (key x = k)) = [] := by
        rw [List.filter_eq_nil_iff]
        intro y hy hyk
        exact h.1 (hk.trans (of_decide_eq_true hyk).symm ▸ List.mem_map_of_mem hy)
      rw [List.filter_cons, List.find?_cons, decide_eq_true hk, if_pos rfl, hrest]
      rfl
    · rw [List.filter_cons, List.find?_cons, decide_eq_false hk, if_neg Bool.false_ne_true, ih h.2]

theorem find_key_nodup (h : (items.map key).Nodup) (hx : x ∈ items) :
    (items.find? fun y => decide (key y = key x)) = some x := by
  have hmem : x ∈ items.filter fun y => decide (key y = key x) :=
    List.mem_filter.2 ⟨hx, decide_eq_true rfl⟩
  rw [filter_key_nodup h, Option.mem_toList] at hmem
  exact hmem

theorem assoc_map (k : κ) :
    assoc (items.map fun x => (key x, value x)) k =
      (items.find? fun x => decide (key x = k)).map value := by
  induction items with
  | nil => rfl
  | cons x items ih =>
    rw [List.map_cons, assoc_cons]
    by_cases hk : k = key x
    · rw [if_pos hk, List.find?_cons, decide_eq_true hk.symm]
      rfl
    · rw [if_neg hk, List.find?_cons, decide_eq_false (Ne.symm hk), ih]

/-- The items can be recovered from a mapping that is made of them just if their keys are distinct
and each of them can be recovered from its value. -/
theorem recovered_iff (items : List α) (key : α → κ) (value : α → ν) (back : ν → β)
    (original : α → β) :
    (∀ k, ((((∅ : Dict κ ν).update (items.map fun x => (key x, value x))).get? k).map
        back).toList = (items.filter fun x => decide (key x = k)).map original) ↔
      (items.map key).Nodup ∧ ∀ x ∈ items, back (value x) = original x := by
  have hget (h : (items.map key).Nodup) (k : κ) :
      ((∅ : Dict κ ν).update (items.map fun x => (key x, value x))).get? k =
        (items.find? fun x => decide (key x = k)).map value := by
    have hkeys : ((items.map fun x => (key x, value x)).map Prod.fst).Nodup := by
      rw [List.map_map]
      exact h
    rw [get?_update_nodup _ hkeys, get?_empty, Option.or_none, assoc_map]
  constructor
  · intro h
    have hnodup : (items.map key).Nodup := by
      rw [List.nodup_iff_count_le_one]
      intro k
      have hlength := congrArg List.length (h k)
      rw [List.length_map] at hlength
      have hcount : (items.map key).count k =
          (items.filter fun x => decide (key x = k)).length := by
        rw [List.count, List.countP_map, List.countP_eq_length_filter]
        rfl
      rw [hcount, ← hlength]
      exact Option.length_toList_le
    refine ⟨hnodup, fun x hx => ?_⟩
    have hk := h (key x)
    rw [hget hnodup, filter_key_nodup hnodup] at hk
    cases hfind : items.find? fun y => decide (key y = key x) with
    | none => exact absurd (decide_eq_true rfl) (List.find?_eq_none.1 hfind x hx)
    | some y =>
      have hy := List.mem_of_find?_eq_some hfind
      have hkey : key y = key x := of_decide_eq_true
        (List.find?_some (p := fun y => decide (key y = key x)) hfind)
      rw [List.inj_on_of_nodup_map hnodup hy hx hkey] at hfind
      rw [hfind] at hk
      exact (List.cons.inj hk).1
  · rintro ⟨hnodup, hback⟩ k
    rw [hget hnodup, filter_key_nodup hnodup]
    cases hfind : items.find? fun x => decide (key x = k) with
    | none => rfl
    | some x => exact congrArg (fun b => [b]) (hback x (List.mem_of_find?_eq_some hfind))

end Recovery

end Dict
