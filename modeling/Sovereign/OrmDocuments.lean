import Sovereign.Coercion
import Sovereign.OrmTable

namespace Sovereign
set_option autoImplicit true

theorem DataValue.induction {motive : DataValue κ φ → Prop} (none : motive .none)
    (bool : ∀ b, motive (.bool b)) (int : ∀ n, motive (.int n)) (float : ∀ x, motive (.float x))
    (str : ∀ s, motive (.str s)) (bytes : ∀ b, motive (.bytes b))
    (container : ∀ kind items, (∀ w ∈ items, motive w) → motive (.container kind items))
    (dict : ∀ entries, (∀ e ∈ entries, motive e.1 ∧ motive e.2) → motive (.dict entries))
    (object : ∀ cls fields, (∀ e ∈ fields, motive e.2) → motive (.object cls fields))
    (v : DataValue κ φ) : motive v := by
  have recurse (w : DataValue κ φ) (hlt : sizeOf w < sizeOf v) : motive w :=
    DataValue.induction none bool int float str bytes container dict object w
  cases v with
  | none => exact none
  | bool b => exact bool b
  | int n => exact int n
  | float x => exact float x
  | str s => exact str s
  | bytes b => exact bytes b
  | container kind items =>
    refine container kind items fun w hw => recurse w ?_
    have hlt := List.sizeOf_lt_of_mem hw
    rw [DataValue.container.sizeOf_spec]
    omega
  | dict entries =>
    exact dict entries fun e he =>
      ⟨recurse e.1 (DataValue.sizeOf_entry he).1, recurse e.2 (DataValue.sizeOf_entry he).2⟩
  | object cls fields =>
    refine object cls fields fun e he => recurse e.2 ?_
    have hlt := List.sizeOf_lt_of_mem he
    obtain ⟨name, w⟩ := e
    rw [Prod.mk.sizeOf_spec] at hlt
    rw [DataValue.object.sizeOf_spec]
    change sizeOf w < _
    omega
termination_by sizeOf v
decreasing_by exact hlt

namespace DataValue

theorem lastKeysItems_eq (items : List (DataValue κ φ)) :
    lastKeysItems items = items.map lastKeys := by
  induction items with
  | nil => rfl
  | cons v vs ih => rw [lastKeysItems, ih, List.map_cons]

theorem lastKeysEntries_eq (entries : List (DataValue κ φ × DataValue κ φ)) :
    lastKeysEntries entries = entries.map fun e => (e.1, lastKeys e.2) := by
  induction entries with
  | nil => rfl
  | cons e es ih => rw [lastKeysEntries, ih, List.map_cons]

end DataValue

namespace OrmRuntime

variable {R : OrmRuntime κ φ}

theorem asdictItems_ok {items as : List (DataValue κ φ)} :
    R.asdictItems items = .ok as ↔ List.Forall₂ (fun v a => R.asdict v = .ok a) items as := by
  rw [← Traverse.except_iff]
  refine iff_of_eq (congrArg (· = _) ?_)
  induction items with
  | nil => rfl
  | cons v vs ih =>
    rw [asdictItems, ih, List.mapM_cons]

theorem toJsonItems_ok {items ds : List (DataValue κ φ)} :
    R.toJsonItems items = .ok ds ↔ List.Forall₂ (fun v d => R.toJson v = .ok d) items ds := by
  rw [← Traverse.except_iff]
  refine iff_of_eq (congrArg (· = _) ?_)
  induction items with
  | nil => rfl
  | cons v vs ih => rw [toJsonItems, ih, List.mapM_cons]

theorem asdictFields_ok {fields as : ObjectFields κ φ} :
    R.asdictFields fields = .ok as ↔
      List.Forall₂ (fun e a => a.1 = e.1 ∧ R.asdict e.2 = .ok a.2) fields as := by
  induction fields generalizing as with
  | nil =>
    rw [List.forall₂_nil_left_iff, asdictFields]
    exact ⟨fun h => (Except.ok.inj h).symm, fun h => congrArg Except.ok h.symm⟩
  | cons e fields ih =>
    obtain ⟨name, v⟩ := e
    rw [asdictFields, List.forall₂_cons_left_iff, except_bind_eq_ok]
    constructor
    · intro h
      obtain ⟨w, hw, h⟩ := h
      obtain ⟨ws, hws, h⟩ := except_bind_eq_ok.1 h
      cases h
      exact ⟨(name, w), ws, ⟨rfl, hw⟩, ih.1 hws, rfl⟩
    · intro h
      obtain ⟨a, ws, ⟨hname, hw⟩, hws, rfl⟩ := h
      obtain ⟨name', w⟩ := a
      cases hname
      exact ⟨w, hw, except_bind_eq_ok.2 ⟨ws, ih.2 hws, rfl⟩⟩

theorem asdictEntries_ok {entries as : List (DataValue κ φ × DataValue κ φ)} :
    R.asdictEntries entries = .ok as ↔
      List.Forall₂ (fun e a => R.asdict e.1 = .ok a.1 ∧ R.hashable a.1 = true ∧
        R.asdict e.2 = .ok a.2) entries as := by
  induction entries generalizing as with
  | nil =>
    rw [List.forall₂_nil_left_iff, asdictEntries]
    exact ⟨fun h => (Except.ok.inj h).symm, fun h => congrArg Except.ok h.symm⟩
  | cons e es ih =>
    obtain ⟨k, v⟩ := e
    rw [asdictEntries, List.forall₂_cons_left_iff, except_bind_eq_ok]
    constructor
    · intro h
      obtain ⟨k', hk, h⟩ := h
      obtain ⟨v', hv, h⟩ := except_bind_eq_ok.1 h
      split at h
      · next hhash =>
        obtain ⟨es', hes, h⟩ := except_bind_eq_ok.1 h
        cases h
        exact ⟨(k', v'), es', ⟨hk, hhash, hv⟩, ih.1 hes, rfl⟩
      · cases h
    · intro h
      obtain ⟨a, es', ⟨hk, hhash, hv⟩, hes, rfl⟩ := h
      refine ⟨a.1, hk, except_bind_eq_ok.2 ⟨a.2, hv, ?_⟩⟩
      rw [if_pos hhash]
      exact except_bind_eq_ok.2 ⟨es', ih.2 hes, rfl⟩

theorem toJsonEntries_ok {entries ds : List (DataValue κ φ × DataValue κ φ)} :
    R.toJsonEntries entries = .ok ds ↔
      List.Forall₂ (fun e d => (∃ text, R.keyText e.1 = .ok text ∧ d.1 = .str text) ∧
        R.toJson e.2 = .ok d.2) entries ds := by
  induction entries generalizing ds with
  | nil =>
    rw [List.forall₂_nil_left_iff, toJsonEntries]
    exact ⟨fun h => (Except.ok.inj h).symm, fun h => congrArg Except.ok h.symm⟩
  | cons e es ih =>
    obtain ⟨k, v⟩ := e
    rw [toJsonEntries, List.forall₂_cons_left_iff, except_bind_eq_ok]
    constructor
    · intro h
      obtain ⟨text, htext, h⟩ := h
      obtain ⟨v', hv, h⟩ := except_bind_eq_ok.1 h
      obtain ⟨es', hes, h⟩ := except_bind_eq_ok.1 h
      cases h
      exact ⟨(.str text, v'), es', ⟨⟨text, htext, rfl⟩, hv⟩, ih.1 hes, rfl⟩
    · intro h
      obtain ⟨d, es', ⟨⟨text, htext, hd⟩, hv⟩, hes, rfl⟩ := h
      obtain ⟨k', v'⟩ := d
      cases hd
      exact ⟨text, htext, except_bind_eq_ok.2 ⟨v', hv, except_bind_eq_ok.2 ⟨es', ih.2 hes, rfl⟩⟩⟩

theorem equalItems_iff {vs ws : List (DataValue κ φ)} :
    R.EqualItems vs ws ↔ List.Forall₂ R.Equal vs ws := by
  induction vs generalizing ws with
  | nil => rw [EqualItems, List.forall₂_nil_left_iff]
  | cons v vs ih =>
    rw [EqualItems, List.forall₂_cons_left_iff]
    simp only [ih]
    constructor
    · intro h
      obtain ⟨w, ws', rfl, hw, hws⟩ := h
      exact ⟨w, ws', hw, hws, rfl⟩
    · intro h
      obtain ⟨w, ws', hw, hws, rfl⟩ := h
      exact ⟨w, ws', rfl, hw, hws⟩

theorem equalFields_iff {fs gs : ObjectFields κ φ} :
    R.EqualFields fs gs ↔ List.Forall₂ (fun f g => g.1 = f.1 ∧ R.Equal f.2 g.2) fs gs := by
  induction fs generalizing gs with
  | nil => rw [EqualFields, List.forall₂_nil_left_iff]
  | cons f fs ih =>
    obtain ⟨name, v⟩ := f
    rw [EqualFields, List.forall₂_cons_left_iff]
    simp only [ih]
    constructor
    · intro h
      obtain ⟨w, gs', rfl, hw, hgs⟩ := h
      exact ⟨(name, w), gs', ⟨rfl, hw⟩, hgs, rfl⟩
    · intro h
      obtain ⟨g, gs', ⟨hname, hw⟩, hgs, rfl⟩ := h
      obtain ⟨name', w⟩ := g
      cases hname
      exact ⟨w, gs', rfl, hw, hgs⟩

theorem equalEntries_iff {es es' : List (DataValue κ φ × DataValue κ φ)} :
    R.EqualEntries es es' ↔ ∀ e ∈ es, ∃ e' ∈ es', R.Equal e.1 e'.1 ∧ R.Equal e.2 e'.2 := by
  induction es with
  | nil =>
    rw [EqualEntries]
    exact ⟨fun _ _ h => absurd h List.not_mem_nil, fun _ => trivial⟩
  | cons e es ih => rw [EqualEntries, ih, List.forall_mem_cons]

/-- A value that a document gives back: its ints have at most 4300 digits, its floats are not NaN,
its sequences are lists, and its dicts have strings for keys. -/
inductive Storable (R : OrmRuntime κ φ) : DataValue κ φ → Prop where
  | none : Storable R .none
  | bool : Storable R (.bool b)
  | int (h : (Nat.toDigits 10 n.natAbs).length ≤ maxStrDigits) : Storable R (.int n)
  | float (h : R.isNaN x = false) : Storable R (.float x)
  | str : Storable R (.str s)
  | list (h : ∀ v ∈ items, Storable R v) : Storable R (.container .list items)
  | dict {entries : List (DataValue κ φ × DataValue κ φ)} (hkeys : ∀ e ∈ entries, ∃ s, e.1 = .str s)
      (hnodup : (entries.map Prod.fst).Nodup) (h : ∀ e ∈ entries, Storable R e.2) :
      Storable R (.dict entries)

theorem pairwise_keys {keys : List (DataValue κ φ)} (h : ∀ k ∈ keys, ∃ s, k = .str s) :
    (keys.Pairwise fun k l => Interpreter.plainSame k l = false) ↔ keys.Nodup := by
  refine List.Pairwise.iff_of_mem fun {k l} hk hl => ?_
  obtain ⟨s, rfl⟩ := h k hk
  obtain ⟨t, rfl⟩ := h l hl
  rw [Interpreter.plainSame, decide_eq_false_iff_not]
  exact not_congr ⟨fun h => congrArg _ h, fun h => DataValue.str.inj h⟩

theorem forall_keys {entries : List (DataValue κ φ × DataValue κ φ)}
    (h : ∀ e ∈ entries, ∃ s, e.1 = .str s) : ∀ k ∈ entries.map Prod.fst, ∃ s, k = .str s :=
  List.forall_mem_map.2 h

namespace Storable

variable {v : DataValue κ φ}

theorem asdict (h : R.Storable v) : R.asdict v = .ok v := by
  induction h with
  | list _ ih =>
    rw [OrmRuntime.asdict, asdictItems_ok.2 (List.forall₂_same.2 ih)]
    rfl
  | dict hkeys _ _ ih =>
    rw [OrmRuntime.asdict, asdictEntries_ok.2]
    · rfl
    · refine List.forall₂_same.2 fun e he => ?_
      obtain ⟨s, hs⟩ := hkeys e he
      rw [hs]
      exact ⟨by rw [OrmRuntime.asdict] <;> simp, rfl, ih e he⟩
  | _ => rw [OrmRuntime.asdict] <;> simp

theorem toJson (h : R.Storable v) : R.toJson v = .ok v := by
  induction h with
  | int h =>
    rw [OrmRuntime.toJson, intText, if_pos h]
    rfl
  | list _ ih =>
    rw [OrmRuntime.toJson, toJsonItems_ok.2 (List.forall₂_same.2 ih)]
    rfl
  | dict hkeys _ _ ih =>
    rw [OrmRuntime.toJson, toJsonEntries_ok.2]
    · rfl
    · refine List.forall₂_same.2 fun e he => ?_
      obtain ⟨s, hs⟩ := hkeys e he
      rw [hs]
      exact ⟨⟨s, rfl, rfl⟩, ih e he⟩
  | _ => rw [OrmRuntime.toJson]

theorem lastKeys (h : R.Storable v) : v.lastKeys = v := by
  induction h with
  | list _ ih =>
    rw [DataValue.lastKeys, DataValue.lastKeysItems_eq, List.map_congr_left ih, List.map_id']
  | @dict entries hkeys hnodup _ ih =>
    have hmap : (entries.map fun e => (e.1, e.2.lastKeys)) = entries := by
      refine (List.map_congr_left (g := id) fun e he => ?_).trans (List.map_id entries)
      exact Prod.ext rfl (ih e he)
    rw [DataValue.lastKeys, DataValue.lastKeysEntries_eq, hmap, dictOf_of_pairwise]
    exact (pairwise_keys (forall_keys hkeys)).2 hnodup
  | _ => rw [DataValue.lastKeys] <;> simp

theorem equal (h : R.Storable v) : R.Equal v v := by
  induction h with
  | none => rw [Equal]
  | str => rw [Equal]
  | bool =>
    rw [Equal]
    exact ⟨_, rfl, rfl⟩
  | int =>
    rw [Equal]
    exact ⟨_, rfl, rfl⟩
  | float h =>
    rw [Equal]
    exact ⟨_, rfl, h, rfl⟩
  | list _ ih =>
    rw [Equal]
    exact ⟨_, _, rfl, rfl, rfl, equalItems_iff.2 (List.forall₂_same.2 ih)⟩
  | dict hkeys _ _ ih =>
    rw [Equal]
    refine ⟨_, rfl, rfl, equalEntries_iff.2 fun e he => ⟨e, he, ?_, ih e he⟩⟩
    obtain ⟨s, hs⟩ := hkeys e he
    rw [hs, Equal]

end Storable

/-- What the document for a value in an object gives back. -/
def Reads (R : OrmRuntime κ φ) (v w : DataValue κ φ) : Prop :=
  ∃ a d, R.asdict v = .ok a ∧ R.toJson a = .ok d ∧ w = d.lastKeys

section Parts

variable {v w : DataValue κ φ} {items : List (DataValue κ φ)}

theorem Storable.reads (h : R.Storable v) : R.Reads v v :=
  ⟨v, v, h.asdict, h.toJson, h.lastKeys.symm⟩

theorem reads_items {as ds : List (DataValue κ φ)}
    (hasdict : List.Forall₂ (fun v a => R.asdict v = .ok a) items as)
    (hjson : List.Forall₂ (fun a d => R.toJson a = .ok d) as ds) :
    List.Forall₂ R.Reads items (ds.map DataValue.lastKeys) := by
  induction hasdict generalizing ds with
  | nil =>
    cases hjson
    exact .nil
  | cons ha _ ih =>
    cases hjson with
    | cons hd hrest => exact .cons ⟨_, _, ha, hd, rfl⟩ (ih hrest)

theorem reads_sequence (hkind : kind.isSet = false) (h : R.Reads (.container kind items) w) :
    ∃ ws, w = .container .list ws ∧ List.Forall₂ R.Reads items ws := by
  obtain ⟨a, d, ha, hd, rfl⟩ := h
  have hsequence : ∃ as, R.asdictItems items = .ok as ∧ a = .container kind as := by
    cases kind with
    | list =>
      rw [asdict] at ha
      obtain ⟨as, has, rfl⟩ := except_map_eq_ok.1 ha
      exact ⟨as, has, rfl⟩
    | tuple =>
      rw [asdict] at ha
      obtain ⟨as, has, rfl⟩ := except_map_eq_ok.1 ha
      exact ⟨as, has, rfl⟩
    | set => cases hkind
    | frozenset => cases hkind
  obtain ⟨as, has, rfl⟩ := hsequence
  have hdocument : ∃ ds, R.toJsonItems as = .ok ds ∧ d = .container .list ds := by
    cases kind with
    | list =>
      rw [toJson] at hd
      obtain ⟨ds, hds, rfl⟩ := except_map_eq_ok.1 hd
      exact ⟨ds, hds, rfl⟩
    | tuple =>
      rw [toJson] at hd
      obtain ⟨ds, hds, rfl⟩ := except_map_eq_ok.1 hd
      exact ⟨ds, hds, rfl⟩
    | set => cases hkind
    | frozenset => cases hkind
  obtain ⟨ds, hds, rfl⟩ := hdocument
  rw [DataValue.lastKeys, DataValue.lastKeysItems_eq]
  exact ⟨_, rfl, reads_items (asdictItems_ok.1 has) (toJsonItems_ok.1 hds)⟩

theorem not_reads_set (hkind : kind.isSet = true) : ¬ R.Reads (.container kind items) w := by
  intro h
  obtain ⟨a, d, ha, hd, _⟩ := h
  cases kind with
  | list => cases hkind
  | tuple => cases hkind
  | set =>
    cases ha
    cases hd
  | frozenset =>
    cases ha
    cases hd

theorem reads_dict {entries : List (DataValue κ φ × DataValue κ φ)}
    (h : R.Reads (.dict entries) w) :
    ∃ es, w = .dict (dictOf Interpreter.plainSame es) ∧
      List.Forall₂ (fun e e' => (∃ k text, R.asdict e.1 = .ok k ∧ R.keyText k = .ok text ∧
        e'.1 = .str text) ∧ R.Reads e.2 e'.2) entries es := by
  obtain ⟨a, d, ha, hd, rfl⟩ := h
  rw [asdict] at ha
  obtain ⟨as, has, rfl⟩ := except_map_eq_ok.1 ha
  rw [toJson] at hd
  obtain ⟨ds, hds, rfl⟩ := except_map_eq_ok.1 hd
  rw [DataValue.lastKeys, DataValue.lastKeysEntries_eq]
  refine ⟨_, rfl, ?_⟩
  have hasdict := asdictEntries_ok.1 has
  have hjson := toJsonEntries_ok.1 hds
  clear has hds ha hd
  induction hasdict generalizing ds with
  | nil =>
    cases hjson
    exact .nil
  | cons ha _ ih =>
    cases hjson with
    | cons hd hrest =>
      obtain ⟨⟨text, htext, hkey⟩, hvalue⟩ := hd
      exact .cons ⟨⟨_, text, ha.1, htext, hkey⟩, _, _, ha.2.2, hvalue, rfl⟩ (ih _ hrest)

theorem reads_object {fields : ObjectFields κ φ} (h : R.Reads (.object cls fields) w) :
    ∃ es, w = .dict (dictOf Interpreter.plainSame es) ∧
      List.Forall₂ (fun e e' => e'.1 = .str e.1 ∧ R.Reads e.2 e'.2) fields es := by
  obtain ⟨a, d, ha, hd, rfl⟩ := h
  rw [asdict] at ha
  obtain ⟨as, has, rfl⟩ := except_map_eq_ok.1 ha
  rw [toJson] at hd
  obtain ⟨ds, hds, rfl⟩ := except_map_eq_ok.1 hd
  rw [DataValue.lastKeys, DataValue.lastKeysEntries_eq]
  refine ⟨_, rfl, ?_⟩
  have hasdict := asdictFields_ok.1 has
  have hjson := List.forall₂_map_left_iff.1 (toJsonEntries_ok.1 hds)
  clear has hds ha hd
  induction hasdict generalizing ds with
  | nil =>
    cases hjson
    exact .nil
  | cons ha _ ih =>
    cases hjson with
    | cons hd hrest =>
      obtain ⟨⟨text, htext, hkey⟩, hvalue⟩ := hd
      cases htext
      rw [ha.1] at hkey
      exact .cons ⟨hkey, _, _, ha.2, hvalue, rfl⟩ (ih _ hrest)

theorem equal_str {k : DataValue κ φ} (h : R.Equal k (.str s)) : k = .str s := by
  cases k with
  | str t =>
    rw [Equal] at h
    exact h.symm
  | bool =>
    rw [Equal] at h
    obtain ⟨y, hy, _⟩ := h
    cases hy
  | int =>
    rw [Equal] at h
    obtain ⟨y, hy, _⟩ := h
    cases hy
  | float =>
    rw [Equal] at h
    obtain ⟨y, hy, _⟩ := h
    cases hy
  | none =>
    rw [Equal] at h
    cases h
  | bytes =>
    rw [Equal] at h
    cases h
  | container =>
    rw [Equal] at h
    obtain ⟨_, _, h, _⟩ := h
    cases h
  | dict =>
    rw [Equal] at h
    obtain ⟨_, h, _⟩ := h
    cases h
  | object =>
    rw [Equal] at h
    obtain ⟨_, h, _⟩ := h
    cases h

/-- A value that its document gives back can be stored. -/
theorem storable_of_reads : ∀ {w : DataValue κ φ}, R.Reads v w → R.Equal v w → R.Storable v := by
  induction v using DataValue.induction with
  | none => exact fun _ _ => .none
  | bool b => exact fun _ _ => .bool
  | str s => exact fun _ _ => .str
  | int n =>
    intro w hreads _
    obtain ⟨a, d, ha, hd, _⟩ := hreads
    rw [asdict] at ha
    · cases ha
      obtain ⟨text, htext, _⟩ := except_map_eq_ok.1 hd
      rw [intText] at htext
      split at htext
      · next hdigits => exact .int hdigits
      · cases htext
    all_goals simp
  | float x =>
    intro w hreads hequal
    obtain ⟨a, d, ha, hd, rfl⟩ := hreads
    cases ha
    cases hd
    rw [Equal] at hequal
    obtain ⟨y, hy, hsame⟩ := hequal
    cases hy
    exact .float hsame.1
  | bytes b =>
    intro w hreads _
    obtain ⟨a, d, ha, hd, _⟩ := hreads
    cases ha
    cases hd
  | container kind items ih =>
    intro w hreads hequal
    cases hkind : kind.isSet with
    | true => exact absurd hreads (not_reads_set hkind)
    | false =>
      obtain ⟨ws, rfl, hitems⟩ := reads_sequence hkind hreads
      rw [Equal, hkind] at hequal
      obtain ⟨kind', items', hw, _, rfl, hequal⟩ := hequal
      cases hw
      refine .list fun v hv => ?_
      have hboth := List.Forall₂.mp (fun _ _ h h' => And.intro h h') hitems
        (equalItems_iff.1 hequal)
      obtain ⟨w, _, hw⟩ := Traverse.partner hboth hv
      exact ih v hv hw.1 hw.2
  | dict entries ih =>
    intro w hreads hequal
    obtain ⟨es, rfl, hentries⟩ := reads_dict hreads
    rw [Equal] at hequal
    obtain ⟨_, hes, hlength, hequal⟩ := hequal
    cases hes
    have hpairwise : (es.map Prod.fst).Pairwise fun k l => Interpreter.plainSame k l = false := by
      refine pairwise_of_dictOf ?_
      rw [← hlength, hentries.length_eq]
    rw [dictOf_of_pairwise hpairwise, equalEntries_iff] at hequal
    have hstr : ∀ e' ∈ es, ∃ s, e'.1 = .str s := by
      intro e' he'
      obtain ⟨e, _, hpart⟩ := Traverse.partner hentries.flip he'
      obtain ⟨⟨_, text, _, _, hkey⟩, _⟩ := hpart
      exact ⟨text, hkey⟩
    have hnodup := (pairwise_keys (forall_keys hstr)).1 hpairwise
    -- the entry that has the same key is the one that was made of this one
    have hpartner : ∀ e ∈ entries, ∃ s e', e.1 = .str s ∧ e' ∈ es ∧ e'.1 = .str s ∧
        R.Reads e.2 e'.2 ∧ R.Equal e.2 e'.2 := by
      intro e he
      obtain ⟨e', he', hkey, hvalue⟩ := hequal e he
      obtain ⟨s, hs⟩ := hstr e' he'
      rw [hs] at hkey
      have hk := equal_str hkey
      obtain ⟨e'', he'', ⟨k, text, ha, htext, hkey''⟩, hreads⟩ := Traverse.partner hentries he
      rw [hk] at ha
      cases ha
      cases htext
      have heq : e'' = e' := List.inj_on_of_nodup_map hnodup he'' he' (hkey''.trans hs.symm)
      subst heq
      exact ⟨s, e'', hk, he', hs, hreads, hvalue⟩
    refine .dict (fun e he => ?_) ?_ fun e he => ?_
    · obtain ⟨s, _, hk, _⟩ := hpartner e he
      exact ⟨s, hk⟩
    · have hkeys : entries.map Prod.fst = es.map Prod.fst := by
        rw [← List.forall₂_eq_eq_eq, List.forall₂_map_left_iff, List.forall₂_map_right_iff]
        have hparts := (List.forall₂_and_left _ _).2 ⟨fun e he => hpartner e he, hentries⟩
        refine hparts.imp fun e e' h => ?_
        obtain ⟨⟨s, _, hk, _⟩, ⟨k, text, ha, htext, hkey⟩, _⟩ := h
        rw [hk] at ha
        cases ha
        cases htext
        exact hk.trans hkey.symm
      rw [hkeys]
      exact hnodup
    · obtain ⟨s, e', _, _, _, hreads, hvalue⟩ := hpartner e he
      exact (ih e he).2 hreads hvalue
  | object cls fields _ =>
    intro w hreads hequal
    obtain ⟨es, rfl, _⟩ := reads_object hreads
    rw [Equal] at hequal
    obtain ⟨_, h, _⟩ := hequal
    cases h

end Parts

end OrmRuntime

end Sovereign
