import Sovereign.OrmQueries
import Sovereign.OrmSaved

namespace Sovereign
set_option autoImplicit true

/-- Whatever the action does, and whether or not it raises, the state keeps the property. -/
def Act.Keeps (P : σ → Prop) (x : Act σ α) : Prop := ∀ s, P s → P (x s).2

namespace Act.Keeps

variable {P : σ → Prop} {x : Act σ α}

theorem pure (a : α) : Keeps P (Pure.pure a : Act σ α) := fun _ h => h

theorem raising (x : Except PyError α) : Keeps P (Sovereign.raising x : Act σ α) := fun _ h => h

theorem bind {f : α → Act σ β} (hx : Keeps P x)
    (hf : ∀ a, (∃ s s', x s = (.ok a, s')) → Keeps P (f a)) : Keeps P (x >>= f) := by
  intro s hs
  have hkept := hx s hs
  cases hrun : x s with
  | mk result s' =>
    rw [hrun] at hkept
    cases result with
    | ok a =>
      rw [Act.bind_ok _ hrun]
      exact hf a ⟨s, s', hrun⟩ s' hkept
    | error e =>
      rw [Act.bind_error _ hrun]
      exact hkept

end Act.Keeps

/-- What holds of the table, where there is one. -/
def OnTable (P : Sqlite.Relation φ → Prop) (db : TableState φ) : Prop := ∀ t, db = some t → P t

theorem runStatement_keeps {P : Sqlite.Relation φ → Prop} {params : Except PyError π}
    {statement : π → Sqlite.Relation φ → Except Sqlite.Error (Sqlite.Relation φ × α)}
    (h : ∀ given t t' a, params = .ok given → statement given t = .ok (t', a) → P t → P t') :
    Act.Keeps (OnTable P) (runStatement params statement) := by
  intro db hdb
  cases db with
  | none => exact hdb
  | some t =>
    cases params with
    | error e => exact hdb
    | ok given =>
      rw [runStatement]
      cases hstatement : statement given t with
      | error e => exact hdb
      | ok result =>
        intro t' ht'
        cases ht'
        exact h given t result.1 result.2 rfl hstatement (hdb t rfl)

/-- A value of the type, or `None`. -/
inductive ScalarType.Admits : ScalarType → DataValue κ φ → Prop where
  | none : Admits s .none
  | int : Admits .int (.int n)
  | float : Admits .float (.float x)
  | bool : Admits .bool (.bool b)
  | str : Admits .str (.str text)
  | bytes : Admits .bytes (.bytes b)

namespace ScalarType

variable {R : OrmRuntime κ φ} {s : ScalarType}

/-- What a column of the type stores for a value of the type. -/
theorem Admits.cell {v : DataValue κ φ} {b : Sqlite.Value φ} (h : s.Admits v)
    (hb : R.bound v = .ok b) : s.Cell R (R.conv.store s.affinity b) := by
  cases h with
  | none =>
    cases hb
    cases s with
    | _ => exact .null
  | @int n =>
    change R.bind (.int n) = _ at hb
    rw [OrmRuntime.bind] at hb
    split at hb
    · cases hb
      exact .int
    · cases hb
  | @float x =>
    cases hb
    cases hnan : R.isNaN x with
    | true => exact .null
    | false => exact .float hnan
  | @bool b =>
    have hbound : R.bound (.bool b) = .ok (.integer (if b then 1 else 0)) := OrmModel.bind_bool R b
    cases hbound.symm.trans hb
    exact .bool b
  | str =>
    cases hb
    exact .str
  | bytes =>
    cases hb
    exact .bytes

/-- What is read from a column of the type is of the type. -/
theorem Cell.admits {c : Sqlite.Value φ} (h : s.Cell R c) :
    s.Admits (s.read c : DataValue κ φ) := by
  cases h with
  | null => exact .none
  | int => exact .int
  | bool b => exact .bool
  | float => exact .float
  | str => exact .str
  | bytes => exact .bytes

/-- Different values in a column are read as different values. -/
theorem Cell.read_injective {c c' : Sqlite.Value φ} (h : s.Cell R c) (h' : s.Cell R c')
    (heq : (s.read c : DataValue κ φ) = s.read c') : c = c' := by
  cases h with
  | null =>
    cases h' with
    | null => rfl
    | _ => cases heq
  | int =>
    cases h' with
    | int =>
      cases heq
      rfl
    | _ => cases heq
  | bool b =>
    cases h' with
    | bool b' =>
      cases b with
      | _ =>
        cases b' with
        | _ => first | rfl | cases heq
    | _ => cases heq
  | float =>
    cases h' with
    | float =>
      cases heq
      rfl
    | _ => cases heq
  | str =>
    cases h' with
    | str =>
      cases heq
      rfl
    | _ => cases heq
  | bytes =>
    cases h' with
    | bytes =>
      cases heq
      rfl
    | _ => cases heq

end ScalarType

namespace OrmModel

variable {R : OrmRuntime κ φ} (M : OrmModel R)

/-- An instance whose fields have values of their types, which are scalar or `Optional` of one. -/
structure Fitting (obj : ObjectFields κ φ) : Prop where
  isInstance : M.IsInstance obj
  admits : ∀ e ∈ obj, ∃ s, (M.hint e.1).Scalar s ∧ s.Admits e.2

/-- The values of the row of such an instance. -/
def FittingRow (values : List (Sqlite.Value φ)) : Prop :=
  ∃ obj F, M.IsInstance obj ∧ values = obj.map F ∧
    ∀ e ∈ obj, ∃ s, (M.hint e.1).Scalar s ∧ s.Cell R (F e)

/-- A table of rows of such instances, no two of which have one key. -/
structure Intact (t : Sqlite.Relation φ) : Prop where
  made : M.Made t
  rows : ∀ row ∈ t.rows.entries, M.FittingRow row.2
  keys : ∀ row ∈ t.rows.entries, ∀ row' ∈ t.rows.entries,
    t.value row M.primaryKey = t.value row' M.primaryKey →
    t.value row M.primaryKey ≠ .null → row.1 = row'.1

variable {M} {t : Sqlite.Relation φ} {obj changed : ObjectFields κ φ}

theorem Fitting.cell (h : M.Fitting obj) (he : e ∈ obj) (hb : ∃ b, R.bound e.2 = .ok b) :
    ∃ s, (M.hint e.1).Scalar s ∧
      s.Cell R (R.conv.store (M.affinityOf e.1) (R.boundValue e.2)) := by
  obtain ⟨s, hscalar, hadmits⟩ := h.admits e he
  obtain ⟨b, hb⟩ := hb
  refine ⟨s, hscalar, ?_⟩
  rw [affinityOf_scalar hscalar, OrmRuntime.boundValue_of_bound hb]
  exact hadmits.cell hb

theorem Fitting.row (h : M.Fitting obj) (hbound : ∀ e ∈ obj, ∃ b, R.bound e.2 = .ok b) :
    M.FittingRow (M.rowOf obj) :=
  ⟨obj, _, h.isInstance, rfl, fun e he => h.cell he (hbound e he)⟩

/-- A row has the same columns for every instance. -/
theorem Made.row_eq (ht : M.Made t) (hobj : M.IsInstance obj) (hchanged : M.IsInstance changed)
    (F : Str × DataValue κ φ → Sqlite.Value φ) :
    obj.map F = changed.map fun e => t.stored (obj.map F) e.1 := by
  have hlist : obj.map F = obj.map fun e => t.stored (obj.map F) e.1 :=
    List.map_congr_left fun e he => ((ht.shaped hobj).stored he F).symm
  have hsame := congrArg (List.map fun n => t.stored (obj.map F) n) (hobj.trans hchanged.symm)
  rw [List.map_map, List.map_map] at hsame
  exact hlist.trans hsame

/-- The value of a column of such a row. -/
theorem FittingRow.stored (ht : M.Made t) (h : M.FittingRow values)
    (hname : name ∈ (R.fields M.cls).map DataField.name) :
    ∃ s, (M.hint name).Scalar s ∧ s.Cell R (t.stored values name) := by
  obtain ⟨obj, F, hobj, rfl, hcells⟩ := h
  rw [← hobj] at hname
  obtain ⟨e, he, rfl⟩ := List.mem_map.1 hname
  obtain ⟨s, hscalar, hcell⟩ := hcells e he
  refine ⟨s, hscalar, ?_⟩
  rw [(ht.shaped hobj).stored he F]
  exact hcell

/-- An update of the columns other than the key. -/
theorem FittingRow.assign (ht : M.Made t) (h : M.FittingRow values) (hchanged : M.Fitting changed)
    (hbound : ∀ e ∈ changed.filter M.isOther, ∃ b, R.bound e.2 = .ok b) :
    M.FittingRow (t.assign R.conv.toConversions ((changed.filter M.isOther).map fun e =>
      (e.1, R.boundValue e.2)) values) ∧
    t.stored (t.assign R.conv.toConversions ((changed.filter M.isOther).map fun e =>
      (e.1, R.boundValue e.2)) values) M.primaryKey = t.stored values M.primaryKey := by
  have hcells : ∀ name ∈ (R.fields M.cls).map DataField.name,
      ∃ s, (M.hint name).Scalar s ∧ s.Cell R (t.stored values name) :=
    fun _ hname => FittingRow.stored ht h hname
  obtain ⟨obj, F, hobj, rfl, _⟩ := h
  have hinstance := hchanged.isInstance
  have hshaped := ht.shaped hinstance
  have hassign := hshaped.assign R.conv.toConversions M.isOther (fun e => R.boundValue e.2)
    fun e => t.stored (obj.map F) e.1
  rw [← ht.row_eq hobj hinstance F] at hassign
  rw [hassign]
  constructor
  · refine ⟨changed, _, hinstance, rfl, fun e he => ?_⟩
    split
    · next hother => exact hchanged.cell he (hbound e (List.mem_filter.2 ⟨he, hother⟩))
    · exact hcells e.1 (hinstance ▸ List.mem_map_of_mem he)
  · have hkey := hshaped.stored hinstance.key fun e =>
      if M.isOther e then R.conv.store (M.affinityOf e.1) (R.boundValue e.2)
      else t.stored (obj.map F) e.1
    have hnot : ¬ M.isOther (M.primaryKey, M.keyOf changed) = true :=
      fun h => of_decide_eq_true h rfl
    rw [if_neg hnot] at hkey
    exact hkey

theorem Intact.ready {db : TableState φ} (h : OnTable M.Intact db) : M.Ready db :=
  fun t ht => (h t ht).made

/-- A new table is empty. -/
theorem createTable_keeps : Act.Keeps (OnTable M.Intact) M.createTable := by
  intro db hdb t ht
  cases hcreate : M.createTable db with
  | mk result db' =>
    rw [hcreate] at ht
    cases result with
    | ok =>
      obtain ⟨t', rfl, hmade, hbefore⟩ := createTable_result (Intact.ready hdb) hcreate
      cases ht
      obtain rfl | ⟨_, hempty, _⟩ := hbefore
      · exact hdb t rfl
      · have hnone : t.rows.entries = [] := by
          rw [hempty]
          rfl
        refine ⟨hmade, ?_, ?_⟩
        · rw [hnone]
          exact fun _ h => absurd h List.not_mem_nil
        · rw [hnone]
          exact fun _ h => absurd h List.not_mem_nil
    | error e =>
      cases db with
      | some t' =>
        rw [createTable_made (hdb t' rfl).made] at hcreate
        cases hcreate
      | none =>
        rw [createTable] at hcreate
        split at hcreate
        · cases hcreate
          cases ht
        · split at hcreate
          · cases hcreate
            cases ht
          · dsimp only at hcreate
            split at hcreate
            · cases hcreate
              cases ht
            · cases hcreate

/-- A delete leaves rows as they are. -/
theorem Intact.filter {t' : Sqlite.Relation φ} (h : M.Intact t) (hcolumns : t'.columns = t.columns)
    (hkey : t'.key = t.key) (hkind : t'.kind = t.kind)
    (hrows : ∀ row ∈ t'.rows.entries, row ∈ t.rows.entries) : M.Intact t' := by
  have hvalue (row : Int × List (Sqlite.Value φ)) (name : Str) :
      t'.value row name = t.value row name := by
    rw [Sqlite.Relation.value, Sqlite.Relation.value, Sqlite.Relation.stored,
      Sqlite.Relation.stored, Sqlite.Relation.names, Sqlite.Relation.names, hcolumns, hkey, hkind]
  refine ⟨h.made.congr hcolumns hkey hkind, fun row hrow => h.rows row (hrows row hrow), ?_⟩
  intro row hrow row' hrow'
  rw [hvalue, hvalue]
  exact h.keys row (hrows row hrow) row' (hrows row' hrow')

variable [DecidableEq φ]

/-- The key of a new row is no other one's. -/
theorem Intact.put (h : M.Intact t) (hobj : M.Fitting obj)
    (hbound : ∀ e ∈ obj, ∃ b, R.bound e.2 = .ok b)
    (hrowid : t.rowidFor R.conv.toConversions (t.stored (M.rowOf obj) t.key) = .ok rowid) :
    M.Intact (t.put rowid (M.rowOf obj)) := by
  have hmem {row : Int × List (Sqlite.Value φ)}
      (hrow : row ∈ (t.put rowid (M.rowOf obj)).rows.entries) :
      row = (rowid, M.rowOf obj) ∨ row ∈ t.rows.entries := by
    have hget := Dict.mem_entries_iff.1 hrow
    change (t.rows.set rowid _).get? row.1 = _ at hget
    by_cases hid : row.1 = rowid
    · rw [hid, Dict.get?_set_self] at hget
      exact .inl (Prod.ext hid (Option.some.inj hget).symm)
    · rw [Dict.get?_set_of_ne _ hid] at hget
      exact .inr (Dict.mem_entries_iff.2 hget)
  have hfree (hkind : t.kind = .unique) : ∀ row ∈ t.rows.entries,
      t.stored row.2 M.primaryKey = t.stored (M.rowOf obj) M.primaryKey →
      t.stored row.2 M.primaryKey = .null := by
    intro row hrow heq
    rw [Sqlite.Relation.rowidFor, hkind] at hrowid
    dsimp only at hrowid
    split at hrowid
    · cases hrowid
    · next htaken =>
      have hnot := List.any_eq_false.1 (Bool.eq_false_iff.2 htaken) row hrow
      rw [h.made.key, heq] at hnot
      by_contra hnull
      rw [heq] at hnull
      exact hnot ((Sqlite.Conversions.equal_self _).2 hnull)
  refine ⟨h.made.congr rfl rfl rfl, ?_, ?_⟩
  · intro row hrow
    obtain rfl | hrow := hmem hrow
    · exact hobj.row hbound
    · exact h.rows row hrow
  · intro row hrow row' hrow' heq hne
    cases hkind : t.kind with
    | rowid =>
      have hvalue (row : Int × List (Sqlite.Value φ)) :
          (t.put rowid (M.rowOf obj)).value row M.primaryKey = .integer row.1 := by
        rw [Sqlite.Relation.value, if_pos ⟨hkind, by rw [← h.made.key]; rfl⟩]
      rw [hvalue, hvalue] at heq
      exact Sqlite.Value.integer.inj heq
    | unique =>
      have hvalue (row : Int × List (Sqlite.Value φ)) :
          (t.put rowid (M.rowOf obj)).value row M.primaryKey = t.stored row.2 M.primaryKey := by
        rw [Sqlite.Relation.value, if_neg fun h => (by cases hkind.symm.trans h.1)]
        rfl
      rw [hvalue] at heq hne
      rw [hvalue] at heq
      obtain rfl | hold := hmem hrow
      · obtain rfl | hold' := hmem hrow'
        · rfl
        · exact absurd (heq.trans (hfree hkind row' hold' heq.symm)) hne
      · obtain rfl | hold' := hmem hrow'
        · exact absurd (hfree hkind row hold heq) hne
        · have hold_value (row : Int × List (Sqlite.Value φ)) :
              t.value row M.primaryKey = t.stored row.2 M.primaryKey := by
            rw [Sqlite.Relation.value, if_neg fun h => (by cases hkind.symm.trans h.1)]
          exact h.keys row hold row' hold' (by rw [hold_value, hold_value, heq])
            (by rw [hold_value]; exact hne)

theorem insert_keeps (hobj : M.Fitting obj) : Act.Keeps (OnTable M.Intact) (M.insert obj) := by
  refine createTable_keeps.bind fun _ _ => (Act.Keeps.raising _).bind fun values hvalues => ?_
  obtain ⟨_, _, hraise⟩ := hvalues
  obtain ⟨hvalues, _⟩ := raising_ok.1 hraise
  refine (runStatement_keeps fun given t t' rowid hgiven hinsert ht => ?_).bind fun _ _ =>
    Act.Keeps.pure _
  have hparams := (bindColumns_ok.1 hgiven).2
  obtain ⟨hbound, rfl⟩ :=
    (OrmRuntime.bindParams_ok (fun name v a => M.inserts_copy name) hvalues).1 hparams
  have hnull : ∀ e ∈ obj, M.inserts e = false → e.2 = .none := by
    intro e _ he
    rw [inserts, Bool.not_eq_false', Bool.and_eq_true] at he
    exact DataValue.isNone_iff.1 he.2
  have hall : ∀ e ∈ obj, ∃ b, R.bound e.2 = .ok b := by
    intro e he
    by_cases hins : M.inserts e = true
    · exact hbound e (List.mem_filter.2 ⟨he, hins⟩)
    · rw [hnull e he (Bool.eq_false_iff.2 hins)]
      exact ⟨.null, OrmRuntime.bound_none⟩
  have hrow : t.newRow R.conv.toConversions ((obj.filter M.inserts).map fun e =>
      (e.1, R.boundValue e.2)) = M.rowOf obj := by
    apply (ht.made.shaped hobj.isInstance).newRow M.inserts (fun e => R.boundValue e.2)
    intro e he hins
    rw [hnull e he hins]
    exact OrmRuntime.boundValue_of_bound OrmRuntime.bound_none
  obtain ⟨_, hrowid, rfl⟩ := Sqlite.Relation.insert_eq_ok.1 hinsert
  rw [hrow] at hrowid ⊢
  exact ht.put hobj hall hrowid

/-- An update keeps the keys. -/
theorem Intact.update {t' : Sqlite.Relation φ} (h : M.Intact t) (hobj : M.Fitting obj)
    (hbound : ∀ e ∈ obj.filter M.isOther, ∃ b, R.bound e.2 = .ok b)
    {cond : List (Str × Sqlite.Value φ)} {rowcount : Nat}
    (hupdate : t.update R.conv.toConversions
      ((obj.filter M.isOther).map fun e => (e.1, R.boundValue e.2)) cond = .ok (t', rowcount)) :
    M.Intact t' := by
  rw [Sqlite.Relation.update] at hupdate
  split at hupdate
  · cases hupdate
    have hmem {p : Int × List (Sqlite.Value φ) → Prop}
        (hp : ∀ row ∈ t.rows.entries, ∀ values, M.FittingRow values →
          t.stored values M.primaryKey = t.stored row.2 M.primaryKey → p (row.1, values)) :
        ∀ row ∈ (t.rows.mapEntries fun id values =>
          if t.holds R.conv.toConversions cond (id, values) then
            t.assign R.conv.toConversions
              ((obj.filter M.isOther).map fun e => (e.1, R.boundValue e.2)) values
          else values).entries, p row := by
      intro row hrow
      obtain ⟨old, hold, rfl⟩ := List.mem_map.1 hrow
      have hfitting := h.rows old hold
      change p (old.1, if t.holds R.conv.toConversions cond old then
        t.assign R.conv.toConversions
          ((obj.filter M.isOther).map fun e => (e.1, R.boundValue e.2)) old.2 else old.2)
      split
      · obtain ⟨hassigned, hkey⟩ := hfitting.assign h.made hobj hbound
        exact hp old hold _ hassigned hkey
      · exact hp old hold _ hfitting rfl
    refine ⟨h.made.congr rfl rfl rfl, hmem fun _ _ _ hfitting _ => hfitting, ?_⟩
    apply hmem
    intro row hrow values _ hkey
    apply hmem
    intro row' hrow' values' _ hkey'
    have hvalue {row : Int × List (Sqlite.Value φ)} {values : List (Sqlite.Value φ)}
        (hkey : t.stored values M.primaryKey = t.stored row.2 M.primaryKey) :
        t.value (row.1, values) M.primaryKey = t.value row M.primaryKey := by
      rw [Sqlite.Relation.value, Sqlite.Relation.value]
      split
      · rfl
      · exact hkey
    intro heq hne
    change t.value _ _ = t.value _ _ at heq
    change t.value _ _ ≠ _ at hne
    rw [hvalue hkey, hvalue hkey'] at heq
    rw [hvalue hkey] at hne
    exact h.keys row hrow row' hrow' heq hne
  · cases hupdate

theorem save_keeps (hobj : M.Fitting obj) : Act.Keeps (OnTable M.Intact) (M.save obj) := by
  rw [save]
  split
  · exact insert_keeps hobj
  · refine createTable_keeps.bind fun _ _ => (Act.Keeps.raising _).bind fun fields hfields => ?_
    obtain ⟨_, _, hraise⟩ := hfields
    obtain ⟨hassignments, _⟩ := raising_ok.1 hraise
    obtain ⟨values, hvalues, rfl⟩ := assignments_ok.1 hassignments
    refine (runStatement_keeps fun params t t' rowcount hparams hupdate ht => ?_).bind fun _ _ => ?_
    · obtain ⟨given, hgiven, hkeyed⟩ := except_bind_eq_ok.1 hparams
      obtain ⟨value, _, hpair⟩ := except_bind_eq_ok.1 hkeyed
      cases hpair
      obtain ⟨hbound, rfl⟩ := (OrmRuntime.bindParams_ok (p := M.isOther) (fun _ _ _ _ => rfl)
        hvalues).1 (bindColumns_ok.1 hgiven).2
      exact ht.update hobj hbound hupdate
    · split
      · exact (insert_keeps hobj).bind fun _ _ => Act.Keeps.pure _
      · exact Act.Keeps.pure _

theorem delete_keeps (obj : ObjectFields κ φ) : Act.Keeps (OnTable M.Intact) (M.delete obj) := by
  apply runStatement_keeps
  intro key t t' rowcount _ hdelete ht
  rw [Sqlite.Relation.delete] at hdelete
  split at hdelete
  · cases hdelete
    exact ht.filter rfl rfl rfl fun row hrow => List.mem_of_mem_filter hrow
  · cases hdelete

end OrmModel

/-- A call that writes to the table of a model. -/
inductive OrmWrite (κ φ : Type) where
  | insert (obj : ObjectFields κ φ)
  | save (obj : ObjectFields κ φ)
  | delete (obj : ObjectFields κ φ)

def OrmWrite.obj : OrmWrite κ φ → ObjectFields κ φ
  | insert obj | save obj | delete obj => obj

namespace OrmModel

variable {R : OrmRuntime κ φ} (M : OrmModel R) [DecidableEq φ]

/-- The table after a call, whether or not it raises. -/
def perform (db : TableState φ) : OrmWrite κ φ → TableState φ
  | .insert obj => (M.insert obj db).2
  | .save obj => (M.save obj db).2
  | .delete obj => (M.delete obj db).2

/-- `query(model).all()` -/
def listing : Act (TableState φ) (List (DataValue κ φ)) := do
  M.createTable
  M.select_ [] none none

variable {M}

theorem perform_intact {db : TableState φ} (h : OnTable M.Intact db) {c : OrmWrite κ φ}
    (hc : M.Fitting c.obj) : OnTable M.Intact (M.perform db c) := by
  cases c with
  | insert obj => exact insert_keeps hc db h
  | save obj => exact save_keeps hc db h
  | delete obj => exact delete_keeps obj db h

theorem performed_intact {calls : List (OrmWrite κ φ)} (hcalls : ∀ c ∈ calls, M.Fitting c.obj) :
    OnTable M.Intact (calls.foldl M.perform none) := by
  induction calls using List.reverseRecOn with
  | nil => exact fun _ h => (by cases h)
  | append_singleton calls c ih =>
    rw [List.foldl_append]
    apply perform_intact
    · exact ih fun c' hc' => hcalls c' (List.mem_append_left _ hc')
    · exact hcalls c (List.mem_append_right _ List.mem_cons_self)

omit [DecidableEq φ] in
/-- The columns are typed, unless the key is a `bool`: then it is the rowid, which may be any
integer. -/
theorem Intact.typed {t : Sqlite.Relation φ} (h : M.Intact t)
    (hkey : ¬ (M.hint M.primaryKey).Scalar .bool) : M.Typed t := by
  intro row hrow f hf
  have hname := List.mem_map_of_mem (f := DataField.name) hf
  obtain ⟨s, hscalar, hcell⟩ := (h.rows row hrow).stored h.made hname
  refine ⟨s, M.hint_field hf ▸ hscalar, ?_⟩
  rw [Sqlite.Relation.value]
  split
  · next hrowid =>
    obtain ⟨obj, _, hobj, _⟩ := h.rows row hrow
    have hshaped := h.made.shaped hobj
    rw [← hobj] at hname
    obtain ⟨e, he, hfield⟩ := List.mem_map.1 hname
    rw [← hfield, h.made.key] at hrowid
    have hpair := List.inj_on_of_nodup_map hshaped.nodup he hobj.key hrowid.2
    have hprimary : f.name = M.primaryKey := hfield.symm.trans (congrArg Prod.fst hpair)
    rw [hprimary] at hscalar
    have hkind := h.made.kind_eq hobj
    rw [hrowid.1, affinityOf_scalar hscalar] at hkind
    cases s with
    | int => exact .int
    | bool => exact absurd hscalar hkey
    | _ => cases hkind
  · exact hcell

/-- The keys of the objects of two rows. -/
theorem Intact.keys_differ {t : Sqlite.Relation φ} (h : M.Intact t) (htyped : M.Typed t)
    (hrow : row ∈ t.rows.entries) (hrow' : row' ∈ t.rows.entries) (hne : row.1 ≠ row'.1) :
    (M.objectOf t row).attribute M.primaryKey = .none ∨
      (M.objectOf t row).attribute M.primaryKey ≠ (M.objectOf t row').attribute M.primaryKey := by
  obtain ⟨s, hscalar, hcell, hvalue⟩ := htyped.field hrow M.key_mem
  obtain ⟨s', hscalar', hcell', hvalue'⟩ := htyped.field hrow' M.key_mem
  cases hscalar.unique hscalar'
  rw [attribute_objectOf M.key_mem, attribute_objectOf M.key_mem, hvalue, hvalue']
  by_cases hnull : t.value row M.primaryKey = .null
  · rw [hnull]
    exact .inl rfl
  · refine .inr fun heq => ?_
    exact hne (h.keys row hrow row' hrow' (hcell.read_injective hcell' heq) hnull)

/-- Whatever has been inserted, saved and deleted, and whichever of these calls have raised: all
objects that are left can be read, their fields have values of their types, and no two of them have
one key. -/
theorem listing_intact (R : OrmRuntime κ φ) (M : OrmModel R) (hcreatable : M.Creatable)
    (hkey : ¬ (M.hint M.primaryKey).Scalar .bool) (calls : List (OrmWrite κ φ))
    (hcalls : ∀ c ∈ calls, M.Fitting c.obj) :
    ∃ objs t, M.listing (calls.foldl M.perform none) = (.ok objs, some t) ∧
      objs.length = t.rows.entries.length ∧
      (∀ o ∈ objs, ∃ obj, o = .object M.cls obj ∧ M.Fitting obj) ∧
      objs.Pairwise fun o o' => o.attribute M.primaryKey = .none ∨
        o.attribute M.primaryKey ≠ o'.attribute M.primaryKey := by
  have hintact := performed_intact hcalls
  obtain ⟨db, hcreate⟩ := createTable_ok (Intact.ready hintact) hcreatable
  obtain ⟨t, rfl, ht, _⟩ := createTable_result (Intact.ready hintact) hcreate
  have hkept := createTable_keeps (M := M) _ hintact
  rw [hcreate] at hkept
  have h := hkept t rfl
  have htyped := h.typed hkey
  have hselect : M.select_ [] none none (some t) =
      (.ok ((R.found t [] none).map (M.objectOf t)), some t) :=
    htyped.select ht (fun _ h => absurd h List.not_mem_nil) (fun _ h => (by cases h))
      fun _ h => (by cases h)
  have hperm : (R.found t [] none).Perm t.rows.entries := by
    have hall : R.found t [] none = t.scan := List.filter_eq_self.2 fun _ _ => rfl
    rw [hall]
    exact t.scan_perm
  refine ⟨(R.found t [] none).map (M.objectOf t), t, ?_, ?_, ?_, ?_⟩
  · rw [listing, Act.bind_ok _ hcreate]
    exact hselect
  · rw [List.length_map]
    exact hperm.length_eq
  · intro o ho
    obtain ⟨row, hrow, rfl⟩ := List.mem_map.1 ho
    refine ⟨_, rfl, ?_, ?_⟩
    · rw [IsInstance, List.map_map]
      rfl
    · intro e he
      obtain ⟨f, hf, rfl⟩ := List.mem_map.1 he
      obtain ⟨s, hscalar, hcell, hvalue⟩ :=
        htyped.field (hperm.subset hrow) (List.mem_map_of_mem (f := DataField.name) hf)
      refine ⟨s, hscalar, ?_⟩
      rw [hvalue]
      exact hcell.admits
  · rw [List.pairwise_map]
    have hnodup : (t.rows.entries.map Prod.fst).Nodup := t.rows.nodup
    have hrowids : ((R.found t [] none).map Prod.fst).Nodup :=
      (hperm.map Prod.fst).nodup_iff.2 hnodup
    rw [List.Nodup, List.pairwise_map] at hrowids
    refine hrowids.imp_of_mem fun hrow hrow' hne => ?_
    exact h.keys_differ htyped (hperm.subset hrow) (hperm.subset hrow') hne

/-- Two pages of one slug: the second one is not inserted, but saved. -/
def pageWrites : List (OrmWrite Unit ℚ) :=
  [.insert (pageObject (.str "start".toList)), .insert (pageObject (.str "start".toList)),
    .save (pageObject (.str "start".toList)), .insert (pageObject .none)]

theorem pageObject_fitting {slug : DataValue Unit ℚ} (h : ScalarType.str.Admits slug) :
    pageModel.Fitting (pageObject slug) := by
  refine ⟨pageObject_instance slug, fun e he => ?_⟩
  obtain rfl | he := List.mem_cons.1 he
  · exact ⟨.str, pageModel_key, h⟩
  · rw [List.mem_singleton.1 he]
    exact ⟨.str, .plain, .str⟩

theorem listing_intact_pages :
    ∃ objs t, pageModel.listing (pageWrites.foldl pageModel.perform none) = (.ok objs, some t) ∧
      objs.length = t.rows.entries.length ∧
      (∀ o ∈ objs, ∃ obj, o = .object pageModel.cls obj ∧ pageModel.Fitting obj) ∧
      objs.Pairwise fun o o' => o.attribute pageModel.primaryKey = .none ∨
        o.attribute pageModel.primaryKey ≠ o'.attribute pageModel.primaryKey := by
  refine listing_intact pageRuntime pageModel pageModel_creatable (fun h => ?_) pageWrites ?_
  · cases h.unique pageModel_key
  · intro c hc
    rw [pageWrites, List.mem_cons, List.mem_cons, List.mem_cons, List.mem_singleton] at hc
    obtain rfl | rfl | rfl | rfl := hc
    · exact pageObject_fitting .str
    · exact pageObject_fitting .str
    · exact pageObject_fitting .str
    · exact pageObject_fitting .none

end OrmModel

end Sovereign
