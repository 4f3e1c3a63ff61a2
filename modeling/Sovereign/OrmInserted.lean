import Sovereign.OrmStructured

namespace Sovereign
set_option autoImplicit true

theorem raising_ok {x : Except PyError α} {s s' : σ} :
    (raising x : Act σ α) s = (.ok a, s') ↔ x = .ok a ∧ s' = s := by
  cases x with
  | ok b =>
    constructor
    · intro h
      cases h
      exact ⟨rfl, rfl⟩
    · intro h
      obtain ⟨hb, rfl⟩ := h
      cases hb
      rfl
  | error e => exact ⟨fun h => (by cases h), fun h => (by cases h.1)⟩

theorem runStatement_ok {params : Except PyError π}
    {statement : π → Sqlite.Relation φ → Except Sqlite.Error (Sqlite.Relation φ × α)}
    {t : Sqlite.Relation φ} :
    runStatement params statement (some t) = (.ok a, db) ↔
      ∃ given t', params = .ok given ∧ statement given t = .ok (t', a) ∧ db = some t' := by
  cases params with
  | error e => exact ⟨fun h => (by cases h), fun h => (by obtain ⟨_, _, h, _⟩ := h; cases h)⟩
  | ok given =>
    rw [runStatement]
    cases hs : statement given t with
    | error e =>
      refine ⟨fun h => (by cases h), fun h => ?_⟩
      obtain ⟨_, _, hg, hs', _⟩ := h
      cases hg
      rw [hs] at hs'
      cases hs'
    | ok r =>
      constructor
      · intro h
        cases h
        exact ⟨given, _, rfl, hs, rfl⟩
      · intro h
        obtain ⟨_, _, hg, hs', rfl⟩ := h
        cases hg
        rw [hs] at hs'
        cases hs'
        rfl

namespace OrmRuntime

variable {R : OrmRuntime κ φ} {v : DataValue κ φ}

/-- What is bound for a value, where something is. -/
def boundValue (R : OrmRuntime κ φ) (v : DataValue κ φ) : Sqlite.Value φ :=
  match R.bound v with
  | .ok b => b
  | .error _ => .null

theorem boundValue_of_bound (h : R.bound v = .ok b) : R.boundValue v = b := by
  rw [boundValue, h]

theorem bound_none : R.bound (.none : DataValue κ φ) = .ok .null := rfl

theorem isNone_asdict (h : R.asdict v = .ok a) : a.isNone = v.isNone := by
  cases v with
  | none =>
    cases h
    rfl
  | container kind items =>
    cases kind with
    | list =>
      rw [asdict] at h
      obtain ⟨_, _, rfl⟩ := except_map_eq_ok.1 h
      rfl
    | tuple =>
      rw [asdict] at h
      obtain ⟨_, _, rfl⟩ := except_map_eq_ok.1 h
      rfl
    | _ =>
      cases h
      rfl
  | dict =>
    rw [asdict] at h
    obtain ⟨_, _, rfl⟩ := except_map_eq_ok.1 h
    rfl
  | object =>
    rw [asdict] at h
    obtain ⟨_, _, rfl⟩ := except_map_eq_ok.1 h
    rfl
  | _ =>
    cases h
    rfl

theorem asdictFields_exists {obj : ObjectFields κ φ} (h : ∀ e ∈ obj, ∃ b, R.bound e.2 = .ok b) :
    ∃ values, R.asdictFields obj = .ok values := by
  induction obj with
  | nil => exact ⟨[], by rw [asdictFields]⟩
  | cons e obj ih =>
    rw [List.forall_mem_cons] at h
    obtain ⟨⟨b, hb⟩, hrest⟩ := h
    obtain ⟨a, ha, _⟩ := except_bind_eq_ok.1 hb
    obtain ⟨values, hvalues⟩ := ih hrest
    exact ⟨(e.1, a) :: values,
      asdictFields_ok.2 (.cons ⟨rfl, ha⟩ (asdictFields_ok.1 hvalues))⟩

theorem bindParams_length {params : ObjectFields κ φ} {given : List (Str × Sqlite.Value φ)}
    (h : R.bindParams params = .ok given) : given.length = params.length :=
  (Traverse.except_iff.1 h).length_eq.symm

/-- What is bound for some of the fields of an object. The choice does not depend on the copy. -/
theorem bindParams_ok {obj values : ObjectFields κ φ} {given : List (Str × Sqlite.Value φ)}
    {p : Str × DataValue κ φ → Bool}
    (hp : ∀ name v a, R.asdict v = .ok a → p (name, a) = p (name, v))
    (hvalues : R.asdictFields obj = .ok values) :
    R.bindParams (values.filter p) = .ok given ↔
      (∀ e ∈ obj.filter p, ∃ b, R.bound e.2 = .ok b) ∧
        given = (obj.filter p).map fun e => (e.1, R.boundValue e.2) := by
  rw [bindParams, Traverse.except_iff]
  rw [asdictFields_ok] at hvalues
  induction hvalues generalizing given with
  | nil =>
    rw [List.filter_nil, List.forall₂_nil_left_iff]
    exact ⟨fun h => ⟨fun _ h => absurd h List.not_mem_nil, h⟩, fun h => h.2⟩
  | @cons e a obj values ha _ ih =>
    obtain ⟨name, v⟩ := e
    obtain ⟨name', copy⟩ := a
    obtain ⟨rfl, ha⟩ := ha
    have hbound : (do
        let v ← R.encode copy
        let b ← R.bind v
        return (name', b)) = (R.bound v).map fun b => (name', b) := by
      change R.asdict v = .ok copy at ha
      rw [bound, ha]
      change _ = (R.encode copy >>= R.bind).map _
      cases R.encode copy with
      | error => rfl
      | ok e =>
        change (R.bind e >>= _) = (R.bind e).map _
        cases R.bind e with
        | _ => rfl
    rw [List.filter_cons, List.filter_cons, hp name' v copy ha]
    split
    · next hpv =>
      rw [List.forall₂_cons_left_iff, List.forall_mem_cons, List.map_cons]
      constructor
      · intro h
        obtain ⟨g, gs, hg, hgs, rfl⟩ := h
        rw [hbound] at hg
        obtain ⟨b, hb, rfl⟩ := except_map_eq_ok.1 hg
        obtain ⟨hrest, rfl⟩ := ih.1 hgs
        exact ⟨⟨⟨b, hb⟩, hrest⟩, by rw [boundValue_of_bound hb]⟩
      · intro h
        obtain ⟨⟨⟨b, hb⟩, hrest⟩, rfl⟩ := h
        refine ⟨_, _, ?_, ih.2 ⟨hrest, rfl⟩, rfl⟩
        rw [hbound]
        rw [boundValue_of_bound hb, hb]
        rfl
    · exact ih

end OrmRuntime

namespace OrmModel

variable {R : OrmRuntime κ φ} (M : OrmModel R)

/-- The fields of an instance of the model. -/
def IsInstance (obj : ObjectFields κ φ) : Prop :=
  obj.map Prod.fst = (R.fields M.cls).map DataField.name

/-- The affinity of the column of a field. -/
def affinityOf (name : Str) : Sqlite.Affinity :=
  match (M.hint name).sqliteType with
  | .ok a => a
  | .error _ => .blob

/-- The columns of the table, as the model has them. -/
def Creates (columns : List Sqlite.Column) : Prop :=
  M.columns = .ok columns ∧
    (M.tableName :: columns.map Sqlite.Column.name).any R.reserved = false ∧
    (columns.map fun c => Sqlite.fold c.name).Nodup

/-- `CREATE TABLE` succeeds: every annotation has a type, no name is a keyword, and SQLite tells
the columns apart. -/
def Creatable : Prop := ∃ columns, M.Creates columns

/-- The table is one that `create_table` made. -/
structure Made (t : Sqlite.Relation φ) : Prop where
  creates : M.Creates t.columns
  key : t.key = M.primaryKey
  kind : t.kind = M.keyKind t.columns

/-- If there is a table, `create_table` made it. -/
def Ready (db : TableState φ) : Prop := ∀ t, db = some t → M.Made t

variable {M}

theorem Made.congr {t t' : Sqlite.Relation φ} (h : M.Made t) (hcolumns : t'.columns = t.columns)
    (hkey : t'.key = t.key) (hkind : t'.kind = t.kind) : M.Made t' where
  creates := hcolumns ▸ h.creates
  key := hkey.trans h.key
  kind := by rw [hkind, h.kind, hcolumns]

theorem createTable_made {t : Sqlite.Relation φ} (h : M.Made t) :
    M.createTable (some t) = (.ok (), some t) := by
  obtain ⟨hcolumns, hreserved, _⟩ := h.creates
  rw [createTable, hcolumns]
  dsimp only
  rw [hreserved]
  rfl

/-- The table that `create_table` leaves: the one that was there, or an empty one. -/
theorem createTable_result {db : TableState φ} (hready : M.Ready db)
    (h : M.createTable db = (.ok (), db')) :
    ∃ t, db' = some t ∧ M.Made t ∧ (db = some t ∨ db = none ∧ t.rows = ∅ ∧ t.sequence = 0) := by
  cases db with
  | some t =>
    rw [createTable_made (hready t rfl)] at h
    cases h
    exact ⟨t, rfl, hready t rfl, .inl rfl⟩
  | none =>
    rw [createTable] at h
    split at h
    · cases h
    · next columns hcolumns =>
      split at h
      · cases h
      · next hreserved =>
        dsimp only at h
        rw [Sqlite.Relation.create] at h
        split at h
        · cases h
        · next t hok =>
          split at hok
          · next hnodup =>
            cases hok
            cases h
            refine ⟨_, rfl, ⟨⟨hcolumns, ?_, hnodup⟩, rfl, rfl⟩, .inr ⟨rfl, rfl, rfl⟩⟩
            exact Bool.eq_false_iff.2 hreserved
          · cases hok

theorem createTable_ok {db : TableState φ} (hready : M.Ready db) (h : M.Creatable) :
    ∃ db', M.createTable db = (.ok (), db') := by
  cases db with
  | some t => exact ⟨_, createTable_made (hready t rfl)⟩
  | none =>
    obtain ⟨columns, hcolumns, hreserved, hnodup⟩ := h
    rw [createTable, hcolumns]
    dsimp only
    rw [hreserved, Sqlite.Relation.create, if_pos hnodup]
    exact ⟨_, rfl⟩

section Instances

variable {obj : ObjectFields κ φ} {t : Sqlite.Relation φ}

theorem hint_field (M : OrmModel R) {f : DataField κ φ} (hf : f ∈ R.fields M.cls) :
    M.hint f.name = f.hint := by
  rw [hint, Dict.find_key_nodup R.distinctNames hf]
  rfl

theorem IsInstance.nodup (hobj : M.IsInstance obj) : (obj.map Prod.fst).Nodup :=
  hobj ▸ R.distinctNames

/-- The columns are those of the fields of an instance. -/
theorem Made.shaped (h : M.Made t) (hobj : M.IsInstance obj) :
    t.Shaped obj Prod.fst fun e => M.affinityOf e.1 := by
  obtain ⟨hcolumns, _, hnodup⟩ := h.creates
  have hfields : t.columns =
      (R.fields M.cls).map fun f => ⟨f.name, M.affinityOf f.name⟩ := by
    rw [columns, Traverse.except_iff] at hcolumns
    have hpairs := (List.forall₂_and_left _ _).2 ⟨fun f hf => hf, hcolumns⟩
    symm
    rw [← List.forall₂_eq_eq_eq, List.forall₂_map_left_iff]
    refine hpairs.imp fun f c h => ?_
    obtain ⟨a, ha, rfl⟩ := except_map_eq_ok.1 h.2
    rw [affinityOf, M.hint_field h.1, ha]
  have hobject : t.columns = obj.map fun e => ⟨e.1, M.affinityOf e.1⟩ := by
    have hnames := congrArg (List.map fun n => (⟨n, M.affinityOf n⟩ : Sqlite.Column)) hobj
    rw [List.map_map, List.map_map] at hnames
    exact hfields.trans hnames.symm
  refine ⟨hobject, ?_⟩
  rw [hobject, List.map_map] at hnodup
  exact hnodup

/-- The entry of the key. -/
theorem IsInstance.key (hobj : M.IsInstance obj) : (M.primaryKey, M.keyOf obj) ∈ obj := by
  have hmem : M.primaryKey ∈ obj.map Prod.fst := by
    rw [hobj]
    exact M.key_mem
  obtain ⟨e, he, hname⟩ := List.mem_map.1 hmem
  rw [keyOf]
  cases hlookup : obj.lookup M.primaryKey with
  | none => exact absurd (List.lookup_eq_none_iff.1 hlookup e he) (by simp [hname])
  | some k =>
    obtain ⟨before, after, hsplit, _⟩ := List.lookup_eq_some_iff.1 hlookup
    rw [hsplit]
    exact List.mem_append_right _ List.mem_cons_self

theorem IsInstance.eq_key (hobj : M.IsInstance obj) (he : e ∈ obj) (hname : e.1 = M.primaryKey) :
    e = (M.primaryKey, M.keyOf obj) :=
  List.inj_on_of_nodup_map hobj.nodup he hobj.key hname

theorem keyOf_values {values : ObjectFields κ φ} (h : R.asdictFields obj = .ok values) :
    (M.keyOf values).isNone = (M.keyOf obj).isNone := by
  rw [OrmRuntime.asdictFields_ok] at h
  rw [keyOf, keyOf]
  induction h with
  | nil => rfl
  | @cons e a obj values ha _ ih =>
    obtain ⟨name, v⟩ := e
    obtain ⟨name', copy⟩ := a
    obtain ⟨rfl, ha⟩ := ha
    rw [List.lookup_cons, List.lookup_cons]
    cases M.primaryKey == name' with
    | true => exact OrmRuntime.isNone_asdict ha
    | false => exact ih

/-- The field goes into an `INSERT`: it is not a key that is missing. -/
def inserts (M : OrmModel R) (e : Str × DataValue κ φ) : Bool :=
  !(decide (e.1 = M.primaryKey) && e.2.isNone)

theorem inserts_copy {v a : DataValue κ φ} (name : Str) (h : R.asdict v = .ok a) :
    M.inserts (name, a) = M.inserts (name, v) := by
  rw [inserts, inserts, OrmRuntime.isNone_asdict h]

/-- An object whose key is the rowid, unless it has one. -/
def withRowid (M : OrmModel R) (obj : ObjectFields κ φ) (rowid : Int) : ObjectFields κ φ :=
  if (M.keyOf obj).isNone then M.setKeyOf obj (.int rowid) else obj

/-- The values of the row of an object. -/
def rowOf (M : OrmModel R) (obj : ObjectFields κ φ) : List (Sqlite.Value φ) :=
  obj.map fun e => R.conv.store (M.affinityOf e.1) (R.boundValue e.2)

theorem bindColumns_ok {fields : ObjectFields κ φ} {given : List (Str × Sqlite.Value φ)} :
    R.bindColumns fields = .ok given ↔ fields ≠ [] ∧ R.bindParams fields = .ok given := by
  rw [OrmRuntime.bindColumns]
  split
  · next h => exact ⟨fun h => (by cases h), fun h' => absurd (List.isEmpty_iff.1 h) h'.1⟩
  · next h => exact ⟨fun h' => ⟨fun hnil => h (List.isEmpty_iff.2 hnil), h'⟩, fun h' => h'.2⟩

/-- The object that is made of a row. -/
theorem ofRow_ok (ht : M.Made t) (hobj : M.IsInstance obj) {row : Int × List (Sqlite.Value φ)} :
    M.ofRow (t.cells row) = .ok found ↔
      ∃ fields, found = .object M.cls fields ∧
        List.Forall₂ (fun e e' => e'.1 = e.1 ∧
          R.decode (.fetch (t.value row e.1)) (M.hint e.1) = .ok e'.2) obj fields := by
  rw [ofRow, (ht.shaped hobj).cells, except_bind_eq_ok]
  simp only [Traverse.except_iff, List.forall₂_map_left_iff]
  constructor
  · intro h
    obtain ⟨data, hdata, hconstruct⟩ := h
    have hfields : ∃ fields : ObjectFields κ φ, data = fields.map (fun e => (.str e.1, e.2)) ∧
        List.Forall₂ (fun e e' => e'.1 = e.1 ∧
          R.decode (.fetch (t.value row e.1)) (M.hint e.1) = .ok e'.2) obj fields := by
      clear hconstruct hobj
      induction hdata with
      | nil => exact ⟨[], rfl, .nil⟩
      | @cons e d _ _ hd _ ih =>
        obtain ⟨fields, rfl, hfields⟩ := ih
        obtain ⟨w, hw, rfl⟩ := except_map_eq_ok.1 hd
        exact ⟨(e.1, w) :: fields, rfl, .cons ⟨rfl, hw⟩ hfields⟩
    obtain ⟨fields, rfl, hfields⟩ := hfields
    have hnames : fields.map Prod.fst = (R.fields M.cls).map DataField.name := by
      rw [← hobj, ← List.forall₂_eq_eq_eq, List.forall₂_map_left_iff, List.forall₂_map_right_iff]
      exact (hfields.imp fun _ _ h => h.1).flip
    rw [OrmRuntime.construct_fields hnames] at hconstruct
    cases hconstruct
    exact ⟨fields, rfl, hfields⟩
  · intro h
    obtain ⟨fields, rfl, hfields⟩ := h
    have hnames : fields.map Prod.fst = (R.fields M.cls).map DataField.name := by
      rw [← hobj, ← List.forall₂_eq_eq_eq, List.forall₂_map_left_iff, List.forall₂_map_right_iff]
      exact (hfields.imp fun _ _ h => h.1).flip
    refine ⟨fields.map fun e => (.str e.1, e.2), ?_, OrmRuntime.construct_fields hnames⟩
    rw [List.forall₂_map_right_iff]
    refine hfields.imp fun e e' h => ?_
    rw [decodeColumn, h.2, h.1]
    rfl

/-- An object is equal to the one of its row if all its fields come back. -/
theorem ofRow_equal (ht : M.Made t) (hobj : M.IsInstance obj)
    {row : Int × List (Sqlite.Value φ)} :
    (∃ found, M.ofRow (t.cells row) = .ok found ∧ R.Equal (.object M.cls obj) found) ↔
      ∀ e ∈ obj, ∃ w, R.decode (.fetch (t.value row e.1)) (M.hint e.1) = .ok w ∧
        R.Equal e.2 w := by
  simp only [ofRow_ok ht hobj]
  constructor
  · intro h e he
    obtain ⟨_, ⟨fields, rfl, hfields⟩, hequal⟩ := h
    rw [OrmRuntime.Equal] at hequal
    obtain ⟨_, heq, hequal⟩ := hequal
    cases heq
    have hboth := List.Forall₂.mp (fun _ _ h h' => And.intro h h') hfields
      (OrmRuntime.equalFields_iff.1 hequal)
    obtain ⟨e', _, ⟨_, hdecode⟩, _, hvalue⟩ := Traverse.partner hboth he
    exact ⟨e'.2, hdecode, hvalue⟩
  · intro h
    have hpairs : ∀ e ∈ obj, ∃ e' : Str × DataValue κ φ, e'.1 = e.1 ∧
        R.decode (.fetch (t.value row e.1)) (M.hint e.1) = .ok e'.2 ∧ R.Equal e.2 e'.2 := by
      intro e he
      obtain ⟨w, hw, hequal⟩ := h e he
      exact ⟨(e.1, w), rfl, hw, hequal⟩
    obtain ⟨fields, hfields⟩ := Traverse.exists_forall₂.2 hpairs
    refine ⟨_, ⟨fields, rfl, hfields.imp fun _ _ h => ⟨h.1, h.2.1⟩⟩, ?_⟩
    rw [OrmRuntime.Equal]
    exact ⟨fields, rfl, OrmRuntime.equalFields_iff.2 (hfields.imp fun _ _ h => ⟨h.1, h.2.2⟩)⟩

theorem IsInstance.withRowid (hobj : M.IsInstance obj) (rowid : Int) :
    M.IsInstance (M.withRowid obj rowid) := by
  rw [OrmModel.withRowid]
  split
  · rw [IsInstance, setKeyOf, List.map_map]
    rw [IsInstance] at hobj
    rw [← hobj]
    refine List.map_congr_left fun e _ => ?_
    change (if e.1 = M.primaryKey then (e.1, DataValue.int rowid) else e).1 = e.1
    split
    · rfl
    · rfl
  · exact hobj

theorem mem_withRowid {e : Str × DataValue κ φ} (he : e.1 ≠ M.primaryKey) :
    e ∈ M.withRowid obj rowid ↔ e ∈ obj := by
  rw [withRowid]
  split
  · rw [setKeyOf, List.mem_map]
    constructor
    · intro h
      obtain ⟨e', he', heq⟩ := h
      split at heq
      · next hkey =>
        rw [← heq] at he
        exact absurd hkey he
      · rwa [← heq]
    · intro h
      exact ⟨e, h, if_neg he⟩
  · exact Iff.rfl

variable [DecidableEq φ]

theorem insert_run {db db' : TableState φ} :
    M.insert obj db = (.ok obj', db') ↔
      ∃ db₁ values rowid, M.createTable db = (.ok (), db₁) ∧ R.asdictFields obj = .ok values ∧
        runStatement (R.bindColumns (values.filter M.inserts))
          (fun given t => t.insert R.conv.toConversions given) db₁ = (.ok rowid, db') ∧
        obj' = M.withRowid obj rowid := by
  rw [insert, Act.bind_eq_ok]
  constructor
  · intro h
    obtain ⟨⟨⟩, db₁, hcreate, h⟩ := h
    obtain ⟨values, db₂, hraise, hrest⟩ := Act.bind_eq_ok.1 h
    obtain ⟨hvalues, rfl⟩ := raising_ok.1 hraise
    obtain ⟨rowid, db₃, hrun, hresult⟩ := Act.bind_eq_ok.1 hrest
    cases hresult
    refine ⟨_, values, rowid, hcreate, hvalues, hrun, ?_⟩
    rw [withRowid, keyOf_values hvalues]
  · intro h
    obtain ⟨db₁, values, rowid, hcreate, hvalues, hrun, rfl⟩ := h
    refine ⟨(), db₁, hcreate, Act.bind_eq_ok.2 ⟨values, db₁, raising_ok.2 ⟨hvalues, rfl⟩, ?_⟩⟩
    refine Act.bind_eq_ok.2 ⟨rowid, db', hrun, ?_⟩
    rw [withRowid, ← keyOf_values hvalues]
    rfl

/-- An object is inserted if its values can be bound and there is a rowid for its key. -/
theorem insert_iff {db db' : TableState φ} (hready : M.Ready db) (hobj : M.IsInstance obj) :
    M.insert obj db = (.ok obj', db') ↔
      ∃ t rowid, M.createTable db = (.ok (), some t) ∧ (∀ e ∈ obj, ∃ b, R.bound e.2 = .ok b) ∧
        obj.filter M.inserts ≠ [] ∧
        t.rowidFor R.conv.toConversions (R.conv.store (M.affinityOf M.primaryKey)
          (R.boundValue (M.keyOf obj))) = .ok rowid ∧
        db' = some (t.put rowid (M.rowOf obj)) ∧ obj' = M.withRowid obj rowid := by
  have hnull : ∀ e ∈ obj, M.inserts e = false → R.boundValue e.2 = .null := by
    intro e _ he
    rw [inserts, Bool.not_eq_false', Bool.and_eq_true] at he
    rw [DataValue.isNone_iff.1 he.2]
    exact OrmRuntime.boundValue_of_bound OrmRuntime.bound_none
  have hrow {t : Sqlite.Relation φ} (ht : M.Made t) :
      t.newRow R.conv.toConversions ((obj.filter M.inserts).map fun e =>
        (e.1, R.boundValue e.2)) = M.rowOf obj :=
    (ht.shaped hobj).newRow M.inserts (fun e => R.boundValue e.2) hnull
  have hstored {t : Sqlite.Relation φ} (ht : M.Made t) :
      t.stored (M.rowOf obj) t.key =
        R.conv.store (M.affinityOf M.primaryKey) (R.boundValue (M.keyOf obj)) := by
    rw [ht.key]
    exact (ht.shaped hobj).stored hobj.key
      fun e => R.conv.store (M.affinityOf e.1) (R.boundValue e.2)
  rw [insert_run]
  constructor
  · intro h
    obtain ⟨db₁, values, rowid, hcreate, hvalues, hrun, hobj'⟩ := h
    obtain ⟨t, rfl, ht, _⟩ := createTable_result hready hcreate
    obtain ⟨given, t', hgiven, hinsert, hdb'⟩ := runStatement_ok.1 hrun
    obtain ⟨hne, hparams⟩ := bindColumns_ok.1 hgiven
    have hlength := OrmRuntime.bindParams_length hparams
    obtain ⟨hbound, rfl⟩ :=
      (OrmRuntime.bindParams_ok (fun name v a => M.inserts_copy name) hvalues).1 hparams
    obtain ⟨_, hrowid, rfl⟩ := Sqlite.Relation.insert_eq_ok.1 hinsert
    rw [hrow ht] at hrowid hdb'
    rw [hstored ht] at hrowid
    refine ⟨t, rowid, hcreate, fun e he => ?_, ?_, hrowid, hdb', hobj'⟩
    · by_cases hins : M.inserts e = true
      · exact hbound e (List.mem_filter.2 ⟨he, hins⟩)
      · rw [inserts, Bool.not_eq_true, Bool.not_eq_false', Bool.and_eq_true] at hins
        rw [DataValue.isNone_iff.1 hins.2]
        exact ⟨_, OrmRuntime.bound_none⟩
    · intro hnil
      rw [hnil] at hlength
      exact hne (List.eq_nil_of_length_eq_zero hlength.symm)
  · intro h
    obtain ⟨t, rowid, hcreate, hbound, hne, hrowid, rfl, rfl⟩ := h
    obtain ⟨_, ht', ht, _⟩ := createTable_result hready hcreate
    cases ht'
    obtain ⟨values, hvalues⟩ := OrmRuntime.asdictFields_exists hbound
    have hparams := (OrmRuntime.bindParams_ok (fun name v a => M.inserts_copy name) hvalues).2
      ⟨fun e he => hbound e (List.mem_of_mem_filter he), rfl⟩
    refine ⟨some t, values, rowid, hcreate, hvalues, runStatement_ok.2 ⟨_, _,
      bindColumns_ok.2 ⟨fun hnil => ?_, hparams⟩, Sqlite.Relation.insert_eq_ok.2 ⟨?_, ?_, rfl⟩, ?_⟩,
      rfl⟩
    · have hlength := OrmRuntime.bindParams_length hparams
      rw [hnil, List.length_map] at hlength
      exact hne (List.eq_nil_of_length_eq_zero hlength)
    · intro e he
      obtain ⟨e', he', rfl⟩ := List.mem_map.1 he
      exact (ht.shaped hobj).has (List.mem_of_mem_filter he')
    · rw [hrow ht, hstored ht]
      exact hrowid
    · rw [hrow ht]

theorem select_run {cond : ObjectFields κ φ} {limit : Option Int} {order : Option (Str × Bool)} :
    M.select_ cond limit order (some t) = (.ok objs, db) ↔
      ∃ given rows, R.bindParams cond = .ok given ∧ (∀ n ∈ limit, Fits64 n) ∧
        t.select R.conv given order limit = .ok rows ∧ rows.mapM M.ofRow = .ok objs ∧
        db = some t := by
  rw [select_, Act.bind_eq_ok]
  constructor
  · intro h
    obtain ⟨rows, db₁, hrun, hraise⟩ := h
    obtain ⟨hobjs, rfl⟩ := raising_ok.1 hraise
    obtain ⟨params, t', hparams, hselect, rfl⟩ := runStatement_ok.1 hrun
    obtain ⟨given, hgiven, hlimit⟩ := except_bind_eq_ok.1 hparams
    obtain ⟨limit', hlimit, hpair⟩ := except_bind_eq_ok.1 hlimit
    cases hpair
    obtain ⟨rows', hrows, hpair⟩ := except_bind_eq_ok.1 hselect
    cases hpair
    rw [OrmRuntime.bindLimit] at hlimit
    split at hlimit
    · next hfits =>
      cases hlimit
      exact ⟨given, rows, hgiven, hfits, hrows, hobjs, rfl⟩
    · cases hlimit
  · intro h
    obtain ⟨given, rows, hgiven, hfits, hrows, hobjs, rfl⟩ := h
    refine ⟨rows, some t, runStatement_ok.2 ⟨(given, limit), t, ?_, ?_, rfl⟩,
      raising_ok.2 ⟨hobjs, rfl⟩⟩
    · refine except_bind_eq_ok.2 ⟨given, hgiven, except_bind_eq_ok.2 ⟨limit, ?_, rfl⟩⟩
      rw [OrmRuntime.bindLimit, if_pos hfits]
    · exact except_bind_eq_ok.2 ⟨rows, hrows, rfl⟩

/-- `get` of a key that one row has. -/
theorem get_single (ht : M.Made t) (hobj : M.IsInstance obj) {key : DataValue κ φ}
    {value : Sqlite.Value φ} (hkey : R.encode key >>= R.bind = .ok value)
    (honly : ∀ row ∈ t.rows.entries,
      t.holds R.conv.toConversions [(M.primaryKey, value)] row = decide (row.1 = rowid))
    (hget : t.rows.get? rowid = some values) :
    M.get key (some t) = (.ok (some found), db) ↔
      M.ofRow (t.cells (rowid, values)) = .ok found ∧ db = some t := by
  have hparams : R.bindParams [(M.primaryKey, key)] = .ok [(M.primaryKey, value)] := by
    rw [OrmRuntime.bindParams, Traverse.except_iff]
    refine .cons ?_ .nil
    obtain ⟨e, he, hb⟩ := except_bind_eq_ok.1 hkey
    exact except_bind_eq_ok.2 ⟨e, he, except_bind_eq_ok.2 ⟨value, hb, rfl⟩⟩
  have hselect : t.select R.conv [(M.primaryKey, value)] none (some 1) =
      .ok [t.cells (rowid, values)] := by
    refine Sqlite.Relation.select_single (fun e he => ?_) honly hget
    rw [List.mem_singleton.1 he]
    exact (ht.shaped hobj).has hobj.key
  have hfits : ∀ n ∈ (some 1 : Option Int), Fits64 n := by decide
  rw [get, Act.bind_ok _ (createTable_made ht), Act.bind_eq_ok]
  constructor
  · intro h
    obtain ⟨objs, db₁, hrun, hresult⟩ := h
    obtain ⟨given, rows, hgiven, _, hrows, hobjs, rfl⟩ := select_run.1 hrun
    cases hparams.symm.trans hgiven
    cases hselect.symm.trans hrows
    rw [Traverse.except_iff] at hobjs
    cases hobjs with
    | cons hrow hnil =>
      cases hnil
      cases hresult
      exact ⟨hrow, rfl⟩
  · intro h
    obtain ⟨hrow, rfl⟩ := h
    refine ⟨[found], some t, select_run.2 ⟨_, _, hparams, hfits, hselect, ?_, rfl⟩, rfl⟩
    rw [Traverse.except_iff]
    exact .cons hrow .nil

/-- `get` with the key of the object returns an object that is equal to it. -/
def FoundAgain (M : OrmModel R) (obj : ObjectFields κ φ) (db : TableState φ) : Prop :=
  ∃ found db', M.get (M.keyOf obj) db = (.ok (some found), db') ∧ R.Equal (.object M.cls obj) found

/-- The value of a field comes back from its column. -/
def Recovers (M : OrmModel R) (e : Str × DataValue κ φ) : Prop :=
  ∃ w, R.recover (M.affinityOf e.1) (M.hint e.1) e.2 = .ok w ∧ R.Equal e.2 w

/-- What the row of an object that has been inserted gives back. -/
theorem inserted_iff (ht : M.Made t) (hobj : M.IsInstance obj)
    (hbound : ∀ e ∈ obj, ∃ b, R.bound e.2 = .ok b) {value : Sqlite.Value φ}
    (hkey : R.encode (M.keyOf (M.withRowid obj rowid)) >>= R.bind = .ok value)
    (honly : ∀ row ∈ (t.put rowid (M.rowOf obj)).rows.entries,
      (t.put rowid (M.rowOf obj)).holds R.conv.toConversions [(M.primaryKey, value)] row =
        decide (row.1 = rowid)) :
    M.FoundAgain (M.withRowid obj rowid) (some (t.put rowid (M.rowOf obj))) ↔
      (∃ w, R.decode (.fetch ((t.put rowid (M.rowOf obj)).value (rowid, M.rowOf obj)
          M.primaryKey)) (M.hint M.primaryKey) = .ok w ∧
        R.Equal (M.keyOf (M.withRowid obj rowid)) w) ∧
      ∀ e ∈ obj, e.1 ≠ M.primaryKey → M.Recovers e := by
  have ht' : M.Made (t.put rowid (M.rowOf obj)) := ht.congr rfl rfl rfl
  have hobj' := hobj.withRowid rowid
  have hget : (t.put rowid (M.rowOf obj)).rows.get? rowid = some (M.rowOf obj) :=
    Dict.get?_set_self _ _ _
  have hfield {e : Str × DataValue κ φ} (he : e ∈ obj) (hname : e.1 ≠ M.primaryKey) :
      (∃ w, R.decode (.fetch ((t.put rowid (M.rowOf obj)).value (rowid, M.rowOf obj) e.1))
        (M.hint e.1) = .ok w ∧ R.Equal e.2 w) ↔ M.Recovers e := by
    have hshaped := ht'.shaped hobj
    have hfold : Sqlite.fold e.1 ≠ Sqlite.fold M.primaryKey := by
      intro heq
      have hpair := List.inj_on_of_nodup_map hshaped.nodup he hobj.key heq
      exact hname (congrArg Prod.fst hpair)
    obtain ⟨b, hb⟩ := hbound e he
    have hvalue : (t.put rowid (M.rowOf obj)).value (rowid, M.rowOf obj) e.1 =
        R.conv.store (M.affinityOf e.1) b := by
      have h := hshaped.value he
        (fun e => R.conv.store (M.affinityOf e.1) (R.boundValue e.2)) rowid
      rw [if_neg fun h => hfold (ht'.key ▸ h.2), OrmRuntime.boundValue_of_bound hb] at h
      exact h
    rw [Recovers, OrmRuntime.recover, hb, hvalue]
    exact Iff.rfl
  have hfound : M.FoundAgain (M.withRowid obj rowid) (some (t.put rowid (M.rowOf obj))) ↔
      ∃ found, M.ofRow ((t.put rowid (M.rowOf obj)).cells (rowid, M.rowOf obj)) = .ok found ∧
        R.Equal (.object M.cls (M.withRowid obj rowid)) found := by
    simp only [FoundAgain, get_single ht' hobj' hkey honly hget]
    constructor
    · intro h
      obtain ⟨found, _, ⟨hrow, _⟩, hequal⟩ := h
      exact ⟨found, hrow, hequal⟩
    · intro h
      obtain ⟨found, hrow, hequal⟩ := h
      exact ⟨found, _, ⟨hrow, rfl⟩, hequal⟩
  rw [hfound, ofRow_equal ht' hobj']
  constructor
  · intro h
    refine ⟨h _ hobj'.key, fun e he hname => ?_⟩
    exact (hfield he hname).1 (h e ((mem_withRowid hname).2 he))
  · intro h e he
    by_cases hname : e.1 = M.primaryKey
    · rw [hobj'.eq_key he hname]
      exact h.1
    · have hmem := (mem_withRowid hname).1 he
      exact (hfield hmem hname).2 (h.2 e hmem hname)

end Instances

end OrmModel

end Sovereign
