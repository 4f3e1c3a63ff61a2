import Sovereign.OrmKeys

namespace Sovereign
set_option autoImplicit true

namespace OrmModel

variable {R : OrmRuntime κ φ} {M : OrmModel R} {obj : ObjectFields κ φ} {db : TableState φ}

/-- There is a row to be had for the key: it is to be made up and there is room for it, or it is an
integer that no row has. -/
def FreeKey (db : TableState φ) (key : DataValue κ φ) : Prop :=
  (key = .none ∧ ∀ t, db = some t → t.sequence < Sqlite.maxRowid) ∨
    ∃ n, key = .int n ∧ Fits64 n ∧ ∀ t, db = some t → t.rows.contains n = false

theorem FreeKey.bound (h : FreeKey db key) : ∃ b, R.bound key = .ok b := by
  obtain ⟨rfl, _⟩ | ⟨n, rfl, hfits, _⟩ := h
  · exact ⟨_, OrmRuntime.bound_none⟩
  · exact ⟨_, bound_int hfits⟩

variable [DecidableEq φ]

/-- The rowid for a free key, which is the key that the object has afterwards. -/
theorem FreeKey.rowid (h : FreeKey db (M.keyOf obj)) (hobj : M.IsInstance obj)
    {t : Sqlite.Relation φ} (ht : t.kind = .rowid)
    (hdb : db = some t ∨ db = none ∧ t.rows = ∅ ∧ t.sequence = 0) :
    ∃ rowid, t.rowidFor R.conv.toConversions (R.conv.store .integer
        (R.boundValue (M.keyOf obj))) = .ok rowid ∧ Fits64 rowid ∧
      M.keyOf (M.withRowid obj rowid) = .int rowid := by
  rw [Sqlite.Relation.rowidFor, ht]
  obtain ⟨hnone, hroom⟩ | ⟨n, hn, hfits, hfree⟩ := h
  · have hle : t.next ≤ Sqlite.maxRowid := by
      have hlt : t.sequence < Sqlite.maxRowid := by
        obtain rfl | ⟨_, _, hzero⟩ := hdb
        · exact hroom t rfl
        · rw [hzero, Sqlite.maxRowid]
          decide
      rw [Sqlite.Relation.next, ht]
      exact hlt
    refine ⟨t.next, ?_, next_fits ht hle, keyOf_withRowid hobj hnone _⟩
    rw [hnone, OrmRuntime.boundValue_of_bound OrmRuntime.bound_none]
    exact Sqlite.Relation.nextRowid_ok.2 ⟨hle, rfl⟩
  · have hnot : t.rows.contains n = false := by
      obtain rfl | ⟨_, hrows, _⟩ := hdb
      · exact hfree t rfl
      · rw [hrows]
        rfl
    refine ⟨n, ?_, hfits, ?_⟩
    · rw [hn, OrmRuntime.boundValue_of_bound (bound_int hfits)]
      change (if t.rows.contains n then _ else _) = _
      rw [hnot]
      rfl
    · rw [withRowid_keyed (by rw [hn]; intro h; cases h), hn]

/-- An object whose fields have parts is inserted and found again just if there is SQL for its
table and every field keeps all of its value: a list or dict of things that JSON has, whose dicts
have strings for keys, a tuple or a dataclass of such things, or `None`. -/
theorem insert_structured_iff (R : OrmRuntime κ φ) (M : OrmModel R) (db : TableState φ)
    (obj : ObjectFields κ φ) (hready : M.Ready db) (hobj : M.IsInstance obj)
    (hkey : (M.hint M.primaryKey).Scalar .int) (hfree : FreeKey db (M.keyOf obj))
    (hother : ∃ e ∈ obj, e.1 ≠ M.primaryKey)
    (hfields : ∀ e ∈ obj, e.1 ≠ M.primaryKey → R.Structured e.2 ∧ R.ReadsBack e.2) :
    (∃ obj' db', M.insert obj db = (.ok obj', db') ∧ M.FoundAgain obj' db') ↔
      M.Creatable ∧ ∀ e ∈ obj, e.1 ≠ M.primaryKey → R.Lossless (M.hint e.1) e.2 := by
  have haffinity : M.affinityOf M.primaryKey = .integer := affinityOf_scalar hkey
  have hkind {t : Sqlite.Relation φ} (ht : M.Made t) : t.kind = .rowid := by
    rw [ht.kind_eq hobj, if_pos haffinity]
  have hlossless (e : Str × DataValue κ φ) (he : e ∈ obj) (hname : e.1 ≠ M.primaryKey) :
      M.Recovers e ↔ R.Lossless (M.hint e.1) e.2 := by
    obtain ⟨hstructured, hback⟩ := hfields e he hname
    exact OrmRuntime.recover_iff hstructured hback
  constructor
  · intro h
    obtain ⟨obj', db', hinsert, hfound⟩ := h
    obtain ⟨t, rowid, hcreate, hbound, _, hrowid, rfl, rfl⟩ :=
      (insert_iff hready hobj).1 hinsert
    obtain ⟨_, ht', ht, hdb⟩ := createTable_result hready hcreate
    cases ht'
    obtain ⟨rowid', hrowid', hfits, hkeyOf⟩ := hfree.rowid hobj (hkind ht) hdb
    rw [haffinity] at hrowid
    cases hrowid.symm.trans hrowid'
    have hbind : R.encode (M.keyOf (M.withRowid obj rowid)) >>= R.bind = .ok (.integer rowid) := by
      rw [hkeyOf]
      exact bind_int hfits
    have hrecovers := ((inserted_rowid_iff ht hobj (hkind ht) hbound hbind).1 hfound).2
    refine ⟨⟨_, ht.creates⟩, fun e he hname => ?_⟩
    exact (hlossless e he hname).1 (hrecovers e he hname)
  · intro h
    obtain ⟨hcreatable, hkept⟩ := h
    obtain ⟨db₁, hcreate⟩ := createTable_ok hready hcreatable
    obtain ⟨t, rfl, ht, hdb⟩ := createTable_result hready hcreate
    obtain ⟨rowid, hrowid, hfits, hkeyOf⟩ := hfree.rowid hobj (hkind ht) hdb
    have hbind : R.encode (M.keyOf (M.withRowid obj rowid)) >>= R.bind = .ok (.integer rowid) := by
      rw [hkeyOf]
      exact bind_int hfits
    have hbound : ∀ e ∈ obj, ∃ b, R.bound e.2 = .ok b := by
      intro e he
      by_cases hname : e.1 = M.primaryKey
      · rw [hobj.eq_key he hname]
        exact hfree.bound
      · obtain ⟨w, hw, _⟩ := (hlossless e he hname).2 (hkept e he hname)
        obtain ⟨b, hb, _⟩ := except_bind_eq_ok.1 hw
        exact ⟨b, hb⟩
    have hcolumns : obj.filter M.inserts ≠ [] := by
      obtain ⟨e, he, hname⟩ := hother
      refine List.ne_nil_of_mem (List.mem_filter.2 ⟨he, ?_⟩)
      rw [inserts, decide_eq_false hname]
      rfl
    refine ⟨_, _, (insert_iff hready hobj).2 ⟨t, rowid, hcreate, hbound, hcolumns, ?_, rfl, rfl⟩,
      ?_⟩
    · rw [haffinity]
      exact hrowid
    · refine (inserted_rowid_iff ht hobj (hkind ht) hbound hbind).2 ⟨?_, fun e he hname => ?_⟩
      · refine ⟨.int rowid, ?_, by rw [hkeyOf]; exact equal_int R rowid⟩
        rw [hkey.decode R (by intro h; cases h)]
        rfl
      · exact (hlossless e he hname).2 (hkept e he hname)

end OrmModel

/-- A model with a field of the annotation. -/
def taggedFields (hint : TypeHint Unit) : List (DataField Unit ℚ) :=
  [{ name := "id".toList, hint := .union [.int, .plain .none], default := some .none },
    { name := "tags".toList, hint }]

/-- An application with this model, where one document is read. -/
def taggedRuntime (hint : TypeHint Unit) : OrmRuntime Unit ℚ :=
  .ofFields (fun _ => taggedFields hint) (fun _ => "Tagged".toList)
    (fun v => if v.isStr "[1]".toList then .ok (.container .list [.int 1]) else .error .valueError)
    (fun _ => (by decide : ["id".toList, "tags".toList].Nodup))

def taggedModel (hint : TypeHint Unit) : OrmModel (taggedRuntime hint) where
  cls := ()
  tableName := "tagged".toList
  primaryKey := "id".toList
  key_mem := List.mem_cons_self

theorem taggedModel_key (hint : TypeHint Unit) :
    ((taggedModel hint).hint (taggedModel hint).primaryKey).Scalar .int :=
  .optional rfl rfl

theorem taggedModel_ready (hint : TypeHint Unit) : (taggedModel hint).Ready none :=
  fun _ h => by cases h

def taggedObject (tags : DataValue Unit ℚ) : ObjectFields Unit ℚ :=
  [("id".toList, .none), ("tags".toList, tags)]

theorem taggedObject_tags {tags : DataValue Unit ℚ} (he : e ∈ taggedObject tags)
    (hname : e.1 ≠ "id".toList) : e = ("tags".toList, tags) := by
  obtain rfl | he := List.mem_cons.1 he
  · exact absurd rfl hname
  · exact List.mem_singleton.1 he

namespace OrmModel

theorem insert_structured_iff_list :
    ∃ obj' db', (taggedModel (.container .list .int)).insert
        (taggedObject (.container .list [.int 1])) none = (.ok obj', db') ∧
      (taggedModel (.container .list .int)).FoundAgain obj' db' := by
  have hstorable : (taggedRuntime (.container .list .int)).Storable
      (.container .list [.int 1]) := .list fun v hv => by
    rw [List.mem_singleton.1 hv]
    exact .int (by decide)
  have hback : (taggedRuntime (.container .list .int)).ReadsBack (.container .list [.int 1]) := by
    intro a d ha hd
    cases hstorable.asdict.symm.trans ha
    cases hstorable.toJson.symm.trans hd
    rw [hstorable.lastKeys]
    rfl
  have hcolumns : (taggedModel (.container .list .int)).columns =
      .ok [⟨"id".toList, .integer⟩, ⟨"tags".toList, .text⟩] := by
    rw [columns, Traverse.except_iff]
    refine .cons ?_ (.cons ?_ .nil)
    · have htype := (taggedModel_key (.container .list .int)).sqliteType
      exact congrArg (Except.map fun a => (⟨"id".toList, a⟩ : Sqlite.Column)) htype
    · rw [TypeHint.sqliteType]
      rfl
  refine (insert_structured_iff (taggedRuntime (.container .list .int))
    (taggedModel (.container .list .int)) none (taggedObject (.container .list [.int 1]))
    (taggedModel_ready _) rfl (taggedModel_key _) (.inl ⟨rfl, fun _ h => by cases h⟩)
    ⟨_, List.mem_cons_of_mem _ List.mem_cons_self, by decide⟩
    fun e he hname => ?_).2 ⟨⟨_, hcolumns, by decide, by decide⟩, fun e he hname => ?_⟩
  · rw [taggedObject_tags he hname]
    exact ⟨fun h => (by cases h), hback⟩
  · rw [taggedObject_tags he hname]
    exact .document rfl rfl hstorable

/-- A set is written as no document. -/
theorem insert_set_fails :
    ¬ ∃ obj' db', (taggedModel (.container .set .int)).insert
        (taggedObject (.container .set [.int 1])) none = (.ok obj', db') ∧
      (taggedModel (.container .set .int)).FoundAgain obj' db' := by
  intro h
  obtain ⟨obj', db', hinsert, _⟩ := h
  have hobj : (taggedModel (.container .set .int)).IsInstance
    (taggedObject (.container .set [.int 1])) := rfl
  obtain ⟨t, rowid, _, hbound, _⟩ := (insert_iff (taggedModel_ready _) hobj).1 hinsert
  obtain ⟨b, hb⟩ := hbound _ (List.mem_cons_of_mem _ List.mem_cons_self)
  cases hb

end OrmModel

end Sovereign
