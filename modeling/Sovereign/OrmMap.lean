import Sovereign.OrmRows

namespace Sovereign
set_option autoImplicit true

/-- A map from keys to the values of the fields, and the keys that it ever had. -/
structure MapState (φ : Type) where
  entries : Int → Option (List (PyValue φ))
  used : Int → Prop

/-- The operations on one model. -/
inductive Op (φ : Type) where
  | insert (obj : Instance φ)
  | save (obj : Instance φ)
  | delete (obj : Instance φ)
  | get (key : PyValue φ)
  | all

inductive OpResult (φ : Type) where
  | object (obj : Instance φ)
  | count (n : Nat)
  | found (obj : Option (Instance φ))
  | objects (l : List (Instance φ))
  | failed (e : Exc)

namespace MapState

def empty : MapState φ := ⟨fun _ => none, fun _ => False⟩

def put (m : MapState φ) (n : Int) (values : List (PyValue φ)) : MapState φ :=
  ⟨fun n' => if n' = n then some values else m.entries n', fun n' => n' = n ∨ m.used n'⟩

theorem put_entries (m : MapState φ) (n : Int) (values : List (PyValue φ)) (n' : Int) :
    (m.put n values).entries n' = if n' = n then some values else m.entries n' := rfl

def remove (m : MapState φ) (n : Int) : MapState φ :=
  ⟨fun n' => if n' = n then none else m.entries n', m.used⟩

theorem remove_entries (m : MapState φ) (n n' : Int) :
    (m.remove n).entries n' = if n' = n then none else m.entries n' := rfl

/-- The entry of a key, as an object. -/
def object (m : MapState φ) (n : Int) : Option (Instance φ) :=
  (m.entries n).map fun values => ⟨.int n, values⟩

/-- What an operation does to the map, and its result. -/
inductive Step : MapState φ → Op φ → OpResult φ → MapState φ → Prop where
  | insertFresh (values : List (PyValue φ)) (hn : ¬ m.used n) :
      Step m (.insert ⟨.none, values⟩) (.object ⟨.int n, values⟩) (m.put n values)
  | insertNew (values : List (PyValue φ)) (hn : m.entries n = none) :
      Step m (.insert ⟨.int n, values⟩) (.object ⟨.int n, values⟩) (m.put n values)
  | insertTaken (values : List (PyValue φ)) (hn : (m.entries n).isSome) :
      Step m (.insert ⟨.int n, values⟩) (.failed (.builtin .integrityError)) m
  | saveFresh (values : List (PyValue φ)) (hn : ¬ m.used n) :
      Step m (.save ⟨.none, values⟩) (.object ⟨.int n, values⟩) (m.put n values)
  | save (n : Int) (values : List (PyValue φ)) :
      Step m (.save ⟨.int n, values⟩) (.object ⟨.int n, values⟩) (m.put n values)
  | delete (n : Int) (values : List (PyValue φ)) :
      Step m (.delete ⟨.int n, values⟩) (.count (if (m.entries n).isSome then 1 else 0))
        (m.remove n)
  | deleteNone (values : List (PyValue φ)) : Step m (.delete ⟨.none, values⟩) (.count 0) m
  | get (n : Int) : Step m (.get (.int n)) (.found (m.object n)) m
  | getNone : Step m (.get .none) (.found none) m
  | all {l : List (Instance φ)} (hnodup : l.Nodup)
      (hl : ∀ obj, obj ∈ l ↔ ∃ n, m.object n = some obj) :
      Step m .all (.objects l) m

/-- One operation after another. -/
inductive Run : MapState φ → List (Op φ) → List (OpResult φ) → MapState φ → Prop where
  | nil : Run m [] [] m
  | cons (hstep : Step m op r m') (hrun : Run m' ops rs m'') : Run m (op :: ops) (r :: rs) m''

end MapState

/-- A key: `None`, or an integer of 64 bits other than the largest. -/
def PyValue.IsKey : PyValue φ → Prop
  | .none => True
  | .int n => -9223372036854775808 ≤ n ∧ n < Sqlite.maxRowid
  | _ => False

instance : (v : PyValue φ) → Decidable v.IsKey
  | .none => isTrue trivial
  | .int _ => inferInstanceAs (Decidable (_ ∧ _))
  | .float _ | .bool _ | .str _ | .bytes _ => isFalse not_false

/-- Objects have a key, and values of the types of their fields. -/
def Op.Valid (M : Model φ) : Op φ → Prop
  | .insert obj | .save obj | .delete obj => obj.id.IsKey ∧ M.Typed obj.values
  | .get key => key.IsKey
  | .all => True

/-- The key of an object that is returned is not the largest. -/
def OpResult.InRange : OpResult φ → Prop
  | .object obj => obj.id.IsKey
  | _ => True

section Operations

variable [DecidableEq φ] (conv : Sqlite.Conversions φ) (cast : Cast φ) (M : Model φ)

def Op.act : Op φ → Act (Database φ) (OpResult φ)
  | .insert obj => .object <$> SQLiteORM.insert conv M obj
  | .save obj => .object <$> SQLiteORM.save conv M obj
  | .delete obj => .count <$> SQLiteORM.delete conv M obj
  | .get key => .found <$> SQLiteORM.get conv cast M key
  | .all => .objects <$> SQLiteORM.all conv cast M

/-- The operation, for a caller who goes on after an exception. -/
def Op.perform (op : Op φ) (db : Database φ) : OpResult φ × Database φ :=
  match op.act conv cast M db with
  | (.ok r, db') => (r, db')
  | (.error e, db') => (.failed e, db')

def Op.performAll : List (Op φ) → Database φ → List (OpResult φ) × Database φ
  | [], db => ([], db)
  | op :: ops, db =>
    let (r, db') := op.perform conv cast M db
    let (rs, db'') := performAll ops db'
    (r :: rs, db'')

end Operations

/-- The table holds the map. -/
structure Holds (M : Model φ) (t : Sqlite.Table φ) (m : MapState φ) : Prop where
  key : t.key = idField
  columns : t.columns = M.columns
  rows : ∀ n, t.rows.get? n = (m.entries n).map (List.map cell)
  typed : ∀ n values, m.entries n = some values → M.Typed values
  used : ∀ n, m.used n → n ≤ t.sequence
  room : t.sequence < Sqlite.maxRowid

/-- The database has the table of the model, which holds the map. -/
def Implements (M : Model φ) (db : Database φ) (m : MapState φ) : Prop :=
  ∃ t, db.tables.get? (Sqlite.fold M.tableName) = some t ∧ Holds M t m

section Tables

variable {M : Model φ} {t : Sqlite.Table φ} {m : MapState φ} {values : List (PyValue φ)}
variable {given : List (Str × Sqlite.Value φ)} {conv : Sqlite.Conversions φ}

theorem Holds.contains (h : Holds M t m) (n : Int) :
    t.rows.contains n = (m.entries n).isSome := by
  rw [Dict.contains, h.rows, Option.isSome_map]

theorem Holds.has_given (h : Holds M t m) (values : List (PyValue φ)) :
    ∀ e ∈ M.given values, t.has e.1 = true := by
  intro e he
  obtain ⟨f, hf, hname⟩ := mem_fields_of_mem_zip he
  rw [← hname]
  refine Sqlite.Table.has_column (c := ⟨f.name, sqliteType f.type⟩) ?_
  rw [h.columns]
  exact List.mem_map_of_mem hf

theorem Holds.has_key (h : Holds M t m) : t.has idField = true := by
  rw [← h.key]
  exact t.has_key

/-- All the fields are assigned, whatever the row was before. -/
theorem Holds.assign (h : Holds M t m)
    (hgiven : List.Forall₂ (fun f v => f.type.Accepts v ∧
      Sqlite.named given f.name = some (cell v)) M.fields values)
    {old : List (Sqlite.Value φ)} (hold : old.length = M.fields.length) :
    t.assign conv given old = values.map cell := by
  rw [Sqlite.Table.assign, h.columns]
  exact assign_named conv hgiven hold

theorem Holds.put (h : Holds M t m) (hv : M.Typed values) {t' : Sqlite.Table φ} {n : Int}
    (hkey : t'.key = t.key) (hcolumns : t'.columns = t.columns)
    (hrows : ∀ n', t'.rows.get? n' = if n' = n then some (values.map cell) else t.rows.get? n')
    (hsequence : t.sequence ≤ t'.sequence) (hn : n ≤ t'.sequence)
    (hroom : t'.sequence < Sqlite.maxRowid) : Holds M t' (m.put n values) where
  key := hkey.trans h.key
  columns := hcolumns.trans h.columns
  rows n' := by
    rw [hrows, h.rows, MapState.put_entries]
    split <;> rfl
  typed n' values' h' := by
    rw [MapState.put_entries] at h'
    split at h'
    · cases h'
      exact hv
    · exact h.typed n' values' h'
  used n' h' := by
    rcases h' with rfl | h'
    · exact hn
    · exact (h.used n' h').trans hsequence
  room := hroom

/-- An `INSERT` of all the fields. -/
theorem Holds.insert (h : Holds M t m) (hv : M.Typed values)
    (hhas : ∀ e ∈ given, t.has e.1 = true)
    (hgiven : List.Forall₂ (fun f v => f.type.Accepts v ∧
      Sqlite.named given f.name = some (cell v)) M.fields values)
    (hrowid : t.rowidFor conv (Sqlite.named given idField) = .ok n) :
    ∃ t', t.insert conv given = .ok (t', n) ∧
      (n < Sqlite.maxRowid → Holds M t' (m.put n values)) := by
  rw [← h.key] at hrowid
  obtain ⟨t', hinsert, hkey, hcolumns, hsequence, hrows⟩ := Sqlite.Table.insert_ok hhas hrowid
  refine ⟨t', hinsert, fun hn => h.put hv hkey hcolumns (fun n' => ?_) ?_ ?_ ?_⟩
  · rw [hrows, Dict.get?_set, h.assign hgiven]
    rw [List.length_map, h.columns, Model.columns, List.length_map]
  · exact hsequence ▸ Int.le_max_left _ _
  · exact hsequence ▸ Int.le_max_right _ _
  · exact hsequence ▸ Int.max_lt.2 ⟨h.room, hn⟩

/-- The same map in a table that differs in nothing that is asked of it. -/
theorem Holds.congr (h : Holds M t m) {t' : Sqlite.Table φ} (hkey : t'.key = t.key)
    (hcolumns : t'.columns = t.columns) (hsequence : t'.sequence = t.sequence)
    (hrows : ∀ n, t'.rows.get? n = t.rows.get? n) : Holds M t' m where
  key := hkey.trans h.key
  columns := hcolumns.trans h.columns
  rows n := (hrows n).trans (h.rows n)
  typed := h.typed
  used := hsequence ▸ h.used
  room := hsequence ▸ h.room

theorem Holds.remove (h : Holds M t m) {t' : Sqlite.Table φ} {n : Int} (hkey : t'.key = t.key)
    (hcolumns : t'.columns = t.columns) (hsequence : t'.sequence = t.sequence)
    (hrows : ∀ n', t'.rows.get? n' = if n' = n then none else t.rows.get? n') :
    Holds M t' (m.remove n) where
  key := hkey.trans h.key
  columns := hcolumns.trans h.columns
  rows n' := by
    rw [hrows, h.rows, MapState.remove_entries]
    split <;> rfl
  typed n' values h' := by
    rw [MapState.remove_entries] at h'
    split at h'
    · cases h'
    · exact h.typed n' values h'
  used := hsequence ▸ h.used
  room := hsequence ▸ h.room

variable [DecidableEq φ] (conv)

/-- An `UPDATE` of all the fields of a row that is there. -/
theorem Holds.update (h : Holds M t m) (hd : M.Distinct) (hv : M.Typed values) {n : Int}
    (hn : (m.entries n).isSome) :
    ∃ t', t.update conv (M.given values) [(idField, .integer n)] = .ok (t', 1) ∧
      Holds M t' (m.put n values) := by
  obtain ⟨t', hupdate, hkey, hcolumns, hsequence, hrows⟩ :=
    t.update_key conv (h.has_given values) n
  rw [h.key, h.contains, if_pos hn] at hupdate
  have hused : n ≤ t.sequence := t.known n (Dict.mem_keys.2 ((h.contains n).trans hn))
  refine ⟨t', hupdate, h.put hv hkey hcolumns (fun n' => ?_) hsequence.ge
    (hsequence ▸ hused) (hsequence ▸ h.room)⟩
  obtain ⟨old, hold⟩ := Option.isSome_iff_exists.1 hn
  rw [hrows, h.rows n, hold, Option.map_some, Option.map_some, h.assign (hd.given_named hv)]
  rw [List.length_map]
  exact (h.typed n old hold).length_eq.symm

/-- An `UPDATE` of a row that is not there. -/
theorem Holds.update_absent (h : Holds M t m) {n : Int} (hn : m.entries n = none)
    (values : List (PyValue φ)) :
    ∃ t', t.update conv (M.given values) [(idField, .integer n)] = .ok (t', 0) ∧
      Holds M t' m := by
  obtain ⟨t', hupdate, hkey, hcolumns, hsequence, hrows⟩ :=
    t.update_key conv (h.has_given values) n
  rw [h.key, h.contains, if_neg (by simp [hn])] at hupdate
  refine ⟨t', hupdate, h.congr hkey hcolumns hsequence fun n' => ?_⟩
  rw [hrows, h.rows n, hn]
  split
  · next heq =>
    rw [heq, h.rows n, hn]
    rfl
  · rfl

end Tables

section Runs

variable {conv : Sqlite.Conversions φ} {cast : Cast φ} {M : Model φ}
variable {db : Database φ} {m : MapState φ} {values : List (PyValue φ)} {n : Int}

theorem createTable_present {t : Sqlite.Table φ}
    (h : db.tables.get? (Sqlite.fold M.tableName) = some t) :
    SQLiteORM.createTable M db = (.ok (), db) := by
  rw [SQLiteORM.createTable, h]

theorem execute_ok {t t' : Sqlite.Table φ} {params : π} {a : α}
    {statement : π → Sqlite.Table φ → Except Sqlite.Error (Sqlite.Table φ × α)}
    (h : db.tables.get? (Sqlite.fold M.tableName) = some t)
    (hs : statement params t = .ok (t', a)) :
    execute M (.ok params) statement db =
      (.ok a, ⟨db.tables.set (Sqlite.fold M.tableName) t'⟩) := by
  rw [execute, h]
  simp only [hs]

theorem execute_error {t : Sqlite.Table φ} {params : π} {e : Sqlite.Error}
    {statement : π → Sqlite.Table φ → Except Sqlite.Error (Sqlite.Table φ × α)}
    (h : db.tables.get? (Sqlite.fold M.tableName) = some t)
    (hs : statement params t = .error e) :
    execute M (.ok params) statement db = (.error (sqliteError e), db) := by
  rw [execute, h]
  simp only [hs]

theorem Implements.set (db : Database φ) {t : Sqlite.Table φ} (h : Holds M t m) :
    Implements M ⟨db.tables.set (Sqlite.fold M.tableName) t⟩ m :=
  ⟨t, Dict.get?_set_self _ _ _, h⟩

theorem fits_of_isKey (hn : PyValue.IsKey (.int n : PyValue φ)) : Fits64 n :=
  ⟨hn.1, Int.le_of_lt hn.2⟩

theorem Holds.has_keyed {t : Sqlite.Table φ} (h : Holds M t m) :
    ∀ e ∈ (idField, .integer n) :: M.given values, t.has e.1 = true := by
  rw [List.forall_mem_cons]
  exact ⟨h.has_key, h.has_given values⟩

theorem Holds.rowidFor {t : Sqlite.Table φ} (h : Holds M t m) (conv : Sqlite.Conversions φ)
    (n : Int) (values : List (PyValue φ)) :
    t.rowidFor conv (Sqlite.named ((idField, .integer n) :: M.given values) idField) =
      if (m.entries n).isSome then .error .constraint else .ok n := by
  rw [Sqlite.named, List.find?_cons_of_pos (by simp), ← h.contains]
  rfl

theorem Holds.ofRow {t : Sqlite.Table φ} (ht : Holds M t m) (hd : M.Distinct)
    (hn : m.entries n = some values) :
    SQLiteORM.ofRow cast M (t.cells n (values.map cell)) = .ok ⟨.int n, values⟩ :=
  ofRow_cells cast hd (ht.typed n values hn) ht.key ht.columns n

/-- The object in a row. -/
def MapState.objectOf (m : MapState φ) (row : Int × List (Sqlite.Value φ)) : Instance φ :=
  ⟨.int row.1, (m.entries row.1).getD []⟩

theorem Holds.mem_rows {t : Sqlite.Table φ} (ht : Holds M t m)
    {row : Int × List (Sqlite.Value φ)} (hrow : row ∈ t.rows.entries) :
    ∃ values, m.entries row.1 = some values ∧ row.2 = values.map cell ∧
      m.objectOf row = ⟨.int row.1, values⟩ := by
  have hentry := Dict.mem_entries_iff.1 hrow
  rw [ht.rows] at hentry
  obtain ⟨values, hvalues, hcells⟩ := Option.map_eq_some_iff.1 hentry
  exact ⟨values, hvalues, hcells.symm, by rw [MapState.objectOf, hvalues, Option.getD_some]⟩

theorem Holds.empty {t : Sqlite.Table φ} (h : Sqlite.Table.create idField M.columns = .ok t) :
    Holds M t .empty := by
  obtain ⟨-, hkey, hcolumns, hsequence, hrows⟩ := Sqlite.Table.create_ok h
  refine ⟨hkey, hcolumns, fun n => ?_, fun n values hn => ?_, fun n hn => hn.elim, ?_⟩
  · rw [hrows]
    rfl
  · cases hn
  · rw [hsequence]
    decide

/-- A new table holds nothing, and its columns can be told apart. -/
theorem createTable_absent (h : db.tables.get? (Sqlite.fold M.tableName) = none)
    (hcreate : (SQLiteORM.createTable M db).1 = .ok ()) :
    M.Distinct ∧ Implements M (SQLiteORM.createTable M db).2 .empty := by
  rw [SQLiteORM.createTable, h] at hcreate ⊢
  cases ht : (Sqlite.Table.create idField M.columns : Except Sqlite.Error (Sqlite.Table φ)) with
  | error e =>
    rw [ht] at hcreate
    cases hcreate
  | ok t => exact ⟨(Sqlite.Table.create_ok ht).1, .set db (.empty ht)⟩

variable [DecidableEq φ] (conv) (cast)

/-- `insert` of an object without a key. -/
theorem insert_fresh (h : Implements M db m) (hd : M.Distinct) (hv : M.Typed values) :
    ∃ n db', SQLiteORM.insert conv M ⟨.none, values⟩ db = (.ok ⟨.int n, values⟩, db') ∧
      ¬ m.used n ∧ (n < Sqlite.maxRowid → Implements M db' (m.put n values)) := by
  obtain ⟨t, hget, ht⟩ := h
  obtain ⟨n, hn⟩ : ∃ n, t.nextRowid = .ok n := by
    rw [Sqlite.Table.nextRowid, if_neg ht.room.ne]
    exact ⟨_, rfl⟩
  have hrowid : t.rowidFor conv (Sqlite.named (M.given values) idField) = .ok n := by
    rw [hd.named_id]
    exact hn
  obtain ⟨t', hinsert, ht'⟩ := ht.insert hv (ht.has_given values) (hd.given_named hv) hrowid
  refine ⟨n, ⟨db.tables.set (Sqlite.fold M.tableName) t'⟩, ?_, fun hused => ?_,
    fun hroom => .set db (ht' hroom)⟩
  · rw [SQLiteORM.insert, Act.bind_ok _ (createTable_present hget), hd.asdict_fresh,
      bindParams_given hv, Act.bind_ok _ (execute_ok hget hinsert)]
    rfl
  · exact Int.not_lt.2 (ht.used n hused) (Sqlite.Table.nextRowid_fresh hn)

/-- `insert` under a key that has no entry. -/
theorem insert_new (h : Implements M db m) (hd : M.Distinct) (hv : M.Typed values)
    (hkey : PyValue.IsKey (.int n : PyValue φ)) (hn : m.entries n = none) :
    ∃ db', SQLiteORM.insert conv M ⟨.int n, values⟩ db = (.ok ⟨.int n, values⟩, db') ∧
      Implements M db' (m.put n values) := by
  obtain ⟨t, hget, ht⟩ := h
  have hrowid := ht.rowidFor conv n values
  rw [if_neg (by simp [hn])] at hrowid
  obtain ⟨t', hinsert, ht'⟩ := ht.insert hv ht.has_keyed (hd.keyed_named hv _) hrowid
  refine ⟨⟨db.tables.set (Sqlite.fold M.tableName) t'⟩, ?_, .set db (ht' hkey.2)⟩
  rw [SQLiteORM.insert, Act.bind_ok _ (createTable_present hget), hd.asdict_keyed,
    bindParams_cons (fits_of_isKey hkey) (bindParams_given hv),
    Act.bind_ok _ (execute_ok hget hinsert)]
  rfl

/-- `insert` under a key that has an entry. -/
theorem insert_taken (h : Implements M db m) (hd : M.Distinct) (hv : M.Typed values)
    (hkey : PyValue.IsKey (.int n : PyValue φ)) (hn : (m.entries n).isSome) :
    SQLiteORM.insert conv M ⟨.int n, values⟩ db = (.error (.builtin .integrityError), db) := by
  obtain ⟨t, hget, ht⟩ := h
  have hrowid := ht.rowidFor conv n values
  rw [if_pos hn, ← ht.key] at hrowid
  have hinsert := Sqlite.Table.insert_error (ht.key ▸ ht.has_keyed) hrowid
  rw [ht.key] at hinsert
  rw [SQLiteORM.insert, Act.bind_ok _ (createTable_present hget), hd.asdict_keyed,
    bindParams_cons (fits_of_isKey hkey) (bindParams_given hv),
    Act.bind_error _ (execute_error hget hinsert)]
  rfl

/-- `save` of an object with a key updates its row, and inserts it when there is none. -/
theorem save_updated {t t' : Sqlite.Table φ} {rowcount : Nat}
    (hget : db.tables.get? (Sqlite.fold M.tableName) = some t) (hd : M.Distinct)
    (hv : M.Typed values) (hn : Fits64 n)
    (hupdate : t.update conv (M.given values) [(idField, .integer n)] = .ok (t', rowcount)) :
    SQLiteORM.save conv M ⟨.int n, values⟩ db =
      (do
        if rowcount = 0 then
          let _ ← SQLiteORM.insert conv M ⟨.int n, values⟩
        return ⟨.int n, values⟩ : Act (Database φ) (Instance φ))
      ⟨db.tables.set (Sqlite.fold M.tableName) t'⟩ := by
  rw [SQLiteORM.save, if_neg (by simp), Act.bind_ok _ (createTable_present hget),
    hd.asdict_fields, bindParams_given hv, bindValue_int hn]
  exact Act.bind_ok _ (execute_ok hget hupdate)

theorem save_keyed (h : Implements M db m) (hd : M.Distinct) (hv : M.Typed values)
    (hkey : PyValue.IsKey (.int n : PyValue φ)) :
    ∃ db', SQLiteORM.save conv M ⟨.int n, values⟩ db = (.ok ⟨.int n, values⟩, db') ∧
      Implements M db' (m.put n values) := by
  obtain ⟨t, hget, ht⟩ := h
  have hfits : Fits64 n := fits_of_isKey hkey
  cases hn : m.entries n with
  | some old =>
    have hsome : (m.entries n).isSome := Option.isSome_iff_exists.2 ⟨old, hn⟩
    obtain ⟨t', hupdate, ht'⟩ := ht.update conv hd hv hsome
    exact ⟨_, save_updated conv hget hd hv hfits hupdate, .set db ht'⟩
  | none =>
    obtain ⟨t', hupdate, ht'⟩ := ht.update_absent conv hn values
    obtain ⟨db', hinsert, hdb'⟩ := insert_new conv (.set db ht') hd hv hkey hn
    refine ⟨db', ?_, hdb'⟩
    rw [save_updated conv hget hd hv hfits hupdate, if_pos rfl, Act.bind_ok _ hinsert]
    rfl

theorem delete_keyed (values : List (PyValue φ)) (h : Implements M db m)
    (hkey : PyValue.IsKey (.int n : PyValue φ)) :
    ∃ db', SQLiteORM.delete conv M ⟨.int n, values⟩ db =
        (.ok (if (m.entries n).isSome then 1 else 0), db') ∧ Implements M db' (m.remove n) := by
  obtain ⟨t, hget, ht⟩ := h
  obtain ⟨t', hdelete, hkey', hcolumns, hsequence, hrows⟩ := t.delete_key conv n
  rw [ht.key, ht.contains] at hdelete
  refine ⟨⟨db.tables.set (Sqlite.fold M.tableName) t'⟩, ?_,
    .set db (ht.remove hkey' hcolumns hsequence hrows)⟩
  rw [SQLiteORM.delete, bindValue_int (fits_of_isKey hkey), execute_ok hget hdelete]

theorem delete_none (values : List (PyValue φ)) (h : Implements M db m) :
    ∃ db', SQLiteORM.delete conv M ⟨.none, values⟩ db = (.ok 0, db') ∧ Implements M db' m := by
  obtain ⟨t, hget, ht⟩ := h
  obtain ⟨t', hdelete, hkey', hcolumns, hsequence, hrows⟩ := t.delete_null conv
  rw [ht.key] at hdelete
  refine ⟨⟨db.tables.set (Sqlite.fold M.tableName) t'⟩, ?_,
    .set db (ht.congr hkey' hcolumns hsequence hrows)⟩
  rw [SQLiteORM.delete, bindValue, execute_ok hget hdelete]

/-- A query leaves the table as it is. -/
theorem select_run {t : Sqlite.Table φ} (ht : Holds M t m)
    (h : db.tables.get? (Sqlite.fold M.tableName) = some t)
    {cond : List (Str × PyValue φ)} {params : List (Str × Sqlite.Value φ)}
    (hparams : bindParams (cond.map fun e => (e.1, encode e.2)) = .ok params)
    (hlimit : bindLimit limit = .ok limit)
    {rows : List (List (Str × Sqlite.Value φ))} (hrows : t.select conv params limit = .ok rows)
    {objects : List (Instance φ)} (hobjects : rows.mapM (SQLiteORM.ofRow cast M) = .ok objects) :
    ∃ db', SQLiteORM.select_ conv cast M cond limit db = (.ok objects, db') ∧
      Implements M db' m := by
  have hstatement : (do
      let rows ← t.select conv params limit
      return (t, rows) : Except Sqlite.Error _) = .ok (t, rows) := by
    rw [hrows]
    rfl
  refine ⟨⟨db.tables.set (Sqlite.fold M.tableName) t⟩, ?_, .set db ht⟩
  rw [SQLiteORM.select_, hparams, hlimit, ← hobjects]
  exact Act.bind_ok _ (execute_ok h hstatement)

theorem get_keyed (h : Implements M db m) (hd : M.Distinct)
    (hkey : PyValue.IsKey (.int n : PyValue φ)) :
    ∃ db', SQLiteORM.get conv cast M (.int n) db = (.ok (m.object n), db') ∧
      Implements M db' m := by
  obtain ⟨t, hget, ht⟩ := h
  have hparams : bindParams ([(idField, .int n)].map fun e => (e.1, encode e.2)) =
      .ok [(idField, (.integer n : Sqlite.Value φ))] :=
    bindParams_cons (fits_of_isKey hkey) rfl
  have hrows := t.select_key conv n
  rw [ht.key, ht.rows] at hrows
  have hobjects : ((((m.entries n).map (List.map cell)).map (t.cells n)).toList).mapM
      (SQLiteORM.ofRow cast M) = .ok (m.object n).toList := by
    rw [MapState.object, Traverse.except_iff]
    cases hn : m.entries n with
    | none => exact .nil
    | some values => exact .cons (ht.ofRow hd hn) .nil
  obtain ⟨db', hselect, hdb'⟩ := select_run conv cast ht hget hparams rfl hrows hobjects
  refine ⟨db', ?_, hdb'⟩
  rw [SQLiteORM.get, Act.bind_ok _ (createTable_present hget), Act.bind_ok _ hselect]
  cases m.object n <;> rfl

theorem get_none (h : Implements M db m) :
    ∃ db', SQLiteORM.get conv cast M .none db = (.ok none, db') ∧ Implements M db' m := by
  obtain ⟨t, hget, ht⟩ := h
  have hparams : bindParams ([(idField, .none)].map fun e => (e.1, encode e.2)) =
      .ok [(idField, (.null : Sqlite.Value φ))] := rfl
  have hrows := t.select_null conv (some 1)
  rw [ht.key] at hrows
  have hobjects : [].mapM (SQLiteORM.ofRow cast M) = .ok [] := rfl
  obtain ⟨db', hselect, hdb'⟩ := select_run conv cast ht hget hparams rfl hrows hobjects
  refine ⟨db', ?_, hdb'⟩
  rw [SQLiteORM.get, Act.bind_ok _ (createTable_present hget), Act.bind_ok _ hselect]
  rfl

/-- `all` gives the objects of the entries. -/
theorem all_objects (h : Implements M db m) (hd : M.Distinct) :
    ∃ l db', SQLiteORM.all conv cast M db = (.ok l, db') ∧ l.Nodup ∧
      (∀ obj, obj ∈ l ↔ ∃ n, m.object n = some obj) ∧ Implements M db' m := by
  obtain ⟨t, hget, ht⟩ := h
  have hobjects : (t.rows.entries.map fun row => t.cells row.1 row.2).mapM
      (SQLiteORM.ofRow cast M) = .ok (t.rows.entries.map m.objectOf) := by
    rw [List.mapM_map]
    refine Traverse.except_map fun row hrow => ?_
    obtain ⟨values, hvalues, hcells, hobject⟩ := ht.mem_rows hrow
    rw [hobject, Function.comp_apply, hcells]
    exact ht.ofRow hd hvalues
  have hparams : bindParams ([].map fun e : Str × PyValue φ => (e.1, encode e.2)) = .ok [] := rfl
  obtain ⟨db', hselect, hdb'⟩ :=
    select_run conv cast ht hget hparams rfl (t.select_all conv) hobjects
  refine ⟨t.rows.entries.map m.objectOf, db', ?_, ?_, fun obj => ?_, hdb'⟩
  · rw [SQLiteORM.all, Act.bind_ok _ (createTable_present hget), hselect]
  · refine List.Nodup.of_map Instance.id ?_
    have hids : (t.rows.entries.map m.objectOf).map Instance.id =
        t.rows.keys.map PyValue.int := by
      rw [Dict.keys, List.map_map, List.map_map]
      rfl
    rw [hids]
    exact t.rows.nodup.map fun a b hab => PyValue.int.inj hab
  · rw [List.mem_map]
    constructor
    · rintro ⟨row, hrow, rfl⟩
      obtain ⟨values, hvalues, -, hobject⟩ := ht.mem_rows hrow
      exact ⟨row.1, by rw [hobject, MapState.object, hvalues, Option.map_some]⟩
    · rintro ⟨n, hn⟩
      obtain ⟨values, hvalues, rfl⟩ := Option.map_eq_some_iff.1 hn
      refine ⟨(n, values.map cell), Dict.mem_entries_iff.2 ?_, ?_⟩
      · rw [ht.rows, hvalues, Option.map_some]
      · rw [MapState.objectOf, hvalues, Option.getD_some]

/-- One operation on the table is one on the map. -/
theorem perform_refines (h : Implements M db m) (hd : M.Distinct) {op : Op φ}
    (hvalid : op.Valid M) (hrange : (op.perform conv cast M db).1.InRange) :
    ∃ m', MapState.Step m op (op.perform conv cast M db).1 m' ∧
      Implements M (op.perform conv cast M db).2 m' := by
  cases op with
  | insert obj =>
    obtain ⟨id, values⟩ := obj
    obtain ⟨hkey, hv⟩ := hvalid
    cases id with
    | none =>
      obtain ⟨n, db', hrun, hfresh, hdb'⟩ := insert_fresh conv h hd hv
      rw [Op.perform, Op.act, Act.map_run, hrun] at hrange ⊢
      exact ⟨_, .insertFresh values hfresh, hdb' hrange.2⟩
    | int n =>
      by_cases hn : (m.entries n).isSome
      · rw [Op.perform, Op.act, Act.map_run, insert_taken conv h hd hv hkey hn]
        exact ⟨m, .insertTaken values hn, h⟩
      · rw [Bool.not_eq_true, Option.isSome_eq_false_iff, Option.isNone_iff_eq_none] at hn
        obtain ⟨db', hrun, hdb'⟩ := insert_new conv h hd hv hkey hn
        rw [Op.perform, Op.act, Act.map_run, hrun]
        exact ⟨_, .insertNew values hn, hdb'⟩
    | _ => exact hkey.elim
  | save obj =>
    obtain ⟨id, values⟩ := obj
    obtain ⟨hkey, hv⟩ := hvalid
    cases id with
    | none =>
      obtain ⟨n, db', hrun, hfresh, hdb'⟩ := insert_fresh conv h hd hv
      rw [Op.perform, Op.act, Act.map_run, SQLiteORM.save, if_pos rfl, hrun] at hrange ⊢
      exact ⟨_, .saveFresh values hfresh, hdb' hrange.2⟩
    | int n =>
      obtain ⟨db', hrun, hdb'⟩ := save_keyed conv h hd hv hkey
      rw [Op.perform, Op.act, Act.map_run, hrun]
      exact ⟨_, .save n values, hdb'⟩
    | _ => exact hkey.elim
  | delete obj =>
    obtain ⟨id, values⟩ := obj
    obtain ⟨hkey, -⟩ := hvalid
    cases id with
    | none =>
      obtain ⟨db', hrun, hdb'⟩ := delete_none conv values h
      rw [Op.perform, Op.act, Act.map_run, hrun]
      exact ⟨m, .deleteNone values, hdb'⟩
    | int n =>
      obtain ⟨db', hrun, hdb'⟩ := delete_keyed conv values h hkey
      rw [Op.perform, Op.act, Act.map_run, hrun]
      exact ⟨_, .delete n values, hdb'⟩
    | _ => exact hkey.elim
  | get key =>
    cases key with
    | none =>
      obtain ⟨db', hrun, hdb'⟩ := get_none conv cast h
      rw [Op.perform, Op.act, Act.map_run, hrun]
      exact ⟨m, .getNone, hdb'⟩
    | int n =>
      obtain ⟨db', hrun, hdb'⟩ := get_keyed conv cast h hd hvalid
      rw [Op.perform, Op.act, Act.map_run, hrun]
      exact ⟨m, .get n, hdb'⟩
    | _ => exact hvalid.elim
  | all =>
    obtain ⟨l, db', hrun, hnodup, hl, hdb'⟩ := all_objects conv cast h hd
    rw [Op.perform, Op.act, Act.map_run, hrun]
    exact ⟨m, .all hnodup hl, hdb'⟩

theorem performAll_refines (hd : M.Distinct) {ops : List (Op φ)}
    (hvalid : ∀ op ∈ ops, op.Valid M) (h : Implements M db m)
    (hrange : ∀ r ∈ (Op.performAll conv cast M ops db).1, r.InRange) :
    ∃ m', MapState.Run m ops (Op.performAll conv cast M ops db).1 m' ∧
      Implements M (Op.performAll conv cast M ops db).2 m' := by
  induction ops generalizing db m with
  | nil => exact ⟨m, .nil, h⟩
  | cons op ops ih =>
    rw [List.forall_mem_cons] at hvalid
    rw [Op.performAll, List.forall_mem_cons] at hrange
    obtain ⟨m', hstep, hm'⟩ := perform_refines conv cast h hd hvalid.1 hrange.1
    obtain ⟨m'', hrun, hm''⟩ := ih hvalid.2 hm' hrange.2
    exact ⟨m'', .cons hstep hrun, hm''⟩

end Runs

/-- After `create_table`, the table of a model behaves as a map from keys to values. -/
theorem SQLiteORM.refines_map [DecidableEq φ] (conv : Sqlite.Conversions φ) (cast : Cast φ)
    (M : Model φ) (db : Database φ) (hnew : db.tables.get? (Sqlite.fold M.tableName) = none)
    (hcreate : (SQLiteORM.createTable M db).1 = .ok ()) (ops : List (Op φ))
    (hvalid : ∀ op ∈ ops, op.Valid M)
    (hrange : ∀ r ∈ (Op.performAll conv cast M ops (SQLiteORM.createTable M db).2).1, r.InRange) :
    ∃ m, MapState.Run .empty ops
        (Op.performAll conv cast M ops (SQLiteORM.createTable M db).2).1 m ∧
      Implements M (Op.performAll conv cast M ops (SQLiteORM.createTable M db).2).2 m := by
  obtain ⟨hd, hempty⟩ := createTable_absent hnew hcreate
  exact performAll_refines conv cast hd hvalid hempty hrange

def noteModel : Model Int where
  tableName := "note".toList
  fields := [⟨"title".toList, { scalar := .str }, some (.str [])⟩,
    ⟨"done".toList, { scalar := .bool, optional := true }, some .none⟩]
  nonempty := List.cons_ne_nil _ _

def noteOps : List (Op Int) :=
  [.insert ⟨.none, [.str ['a'], .bool true]⟩, .save ⟨.int 7, [.str ['b'], .none]⟩,
    .insert ⟨.int 7, [.str ['c'], .none]⟩, .get (.int 1), .delete ⟨.int 1, [.str [], .none]⟩, .all]

theorem SQLiteORM.refines_map_note :
    ∃ m, MapState.Run .empty noteOps
        (Op.performAll ⟨fun _ v => v, fun n x => decide (n = x)⟩ (fun _ v => .ok v) noteModel
          noteOps (SQLiteORM.createTable noteModel ⟨∅⟩).2).1 m ∧
      Implements noteModel
        (Op.performAll ⟨fun _ v => v, fun n x => decide (n = x)⟩ (fun _ v => .ok v) noteModel
          noteOps (SQLiteORM.createTable noteModel ⟨∅⟩).2).2 m := by
  have htyped (title : Str) (done : PyValue Int)
      (hdone : FieldType.Accepts { scalar := .bool, optional := true } done) :
      noteModel.Typed [.str title, done] := .cons rfl (.cons hdone .nil)
  refine SQLiteORM.refines_map _ _ _ _ rfl rfl _ ?_ ?_
  · simp only [noteOps, List.forall_mem_cons, Op.Valid]
    exact ⟨⟨trivial, htyped _ _ rfl⟩, ⟨by decide, htyped _ _ rfl⟩, ⟨by decide, htyped _ _ rfl⟩,
      by decide, ⟨by decide, htyped _ _ rfl⟩, trivial, fun _ h => absurd h List.not_mem_nil⟩
  · have hresults : (Op.performAll ⟨fun _ v => v, fun n x => decide (n = x)⟩ (fun _ v => .ok v)
        noteModel noteOps (SQLiteORM.createTable noteModel ⟨∅⟩).2).1 =
        [.object ⟨.int 1, [.str ['a'], .bool true]⟩, .object ⟨.int 7, [.str ['b'], .none]⟩,
          .failed (.builtin .integrityError), .found (some ⟨.int 1, [.str ['a'], .bool true]⟩),
          .count 1, .objects [⟨.int 7, [.str ['b'], .none]⟩]] := rfl
    rw [hresults]
    simp only [List.forall_mem_cons, OpResult.InRange]
    exact ⟨by decide, by decide, trivial, trivial, trivial, trivial,
      fun _ h => absurd h List.not_mem_nil⟩

end Sovereign
