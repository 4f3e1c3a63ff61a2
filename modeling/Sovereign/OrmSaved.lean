import Sovereign.OrmKeys

namespace Sovereign
set_option autoImplicit true

namespace OrmModel

variable {R : OrmRuntime κ φ} {M : OrmModel R} {obj changed : ObjectFields κ φ}
  {t : Sqlite.Relation φ} {before after : TableState φ} {given : List (Str × Sqlite.Value φ)}

/-- The field is not the key. -/
def isOther (M : OrmModel R) (e : Str × DataValue κ φ) : Bool := decide (e.1 ≠ M.primaryKey)

/-- What `save` binds for the columns that it assigns to. -/
def assigned (M : OrmModel R) (obj : ObjectFields κ φ) :
    Except PyError (List (Str × Sqlite.Value φ)) := do
  let fields ← M.assignments obj
  R.bindColumns fields

theorem assignments_ok {fields : ObjectFields κ φ} :
    M.assignments obj = .ok fields ↔
      ∃ values, R.asdictFields obj = .ok values ∧ fields = values.filter M.isOther := by
  rw [assignments, except_bind_eq_ok]
  constructor
  · intro h
    obtain ⟨values, hvalues, h⟩ := h
    cases h
    exact ⟨values, hvalues, rfl⟩
  · intro h
    obtain ⟨values, hvalues, rfl⟩ := h
    exact ⟨values, hvalues, rfl⟩

theorem assigned_given (h : M.assigned obj = .ok given) :
    given = (obj.filter M.isOther).map fun e => (e.1, R.boundValue e.2) := by
  obtain ⟨fields, hfields, hgiven⟩ := except_bind_eq_ok.1 h
  obtain ⟨values, hvalues, rfl⟩ := assignments_ok.1 hfields
  have hparams := (bindColumns_ok.1 hgiven).2
  exact ((OrmRuntime.bindParams_ok (fun _ _ _ _ => rfl) hvalues).1 hparams).2

theorem assigned_of_bound (hbound : ∀ e ∈ obj, ∃ b, R.bound e.2 = .ok b)
    (hother : obj.filter M.isOther ≠ []) :
    M.assigned obj = .ok ((obj.filter M.isOther).map fun e => (e.1, R.boundValue e.2)) := by
  obtain ⟨values, hvalues⟩ := OrmRuntime.asdictFields_exists hbound
  have hparams := (OrmRuntime.bindParams_ok (p := M.isOther) (fun _ _ _ _ => rfl) hvalues).2
    ⟨fun e he => hbound e (List.mem_of_mem_filter he), rfl⟩
  refine except_bind_eq_ok.2
    ⟨_, assignments_ok.2 ⟨values, hvalues, rfl⟩, bindColumns_ok.2 ⟨?_, hparams⟩⟩
  intro hnil
  have hlength := OrmRuntime.bindParams_length hparams
  rw [hnil, List.length_map] at hlength
  exact hother (List.eq_nil_of_length_eq_zero hlength)

/-- What `save` assigns has columns in the table. -/
theorem assigned_has (ht : M.Made t) (hchanged : M.IsInstance changed)
    (h : M.assigned changed = .ok given) (value : Sqlite.Value φ) :
    ∀ e ∈ given ++ [(M.primaryKey, value)], t.has e.1 = true := by
  intro e he
  obtain he | he := List.mem_append.1 he
  · rw [assigned_given h] at he
    obtain ⟨e', he', rfl⟩ := List.mem_map.1 he
    exact (ht.shaped hchanged).has (List.mem_of_mem_filter he')
  · rw [List.mem_singleton.1 he]
    exact (ht.shaped hchanged).has hchanged.key

variable [DecidableEq φ]

/-- `save` of an object with these parameters is an `UPDATE`, and an `insert` where it finds no
row. -/
theorem save_run {db' : TableState φ} (hkey : M.keyOf changed ≠ .none) (ht : M.Made t) :
    M.save changed (some t) = (.ok res, db') ↔
      res = changed ∧ ∃ given value t₁ rowcount, M.assigned changed = .ok given ∧
        R.bind (M.keyOf changed) = .ok value ∧
        t.update R.conv.toConversions given [(M.primaryKey, value)] = .ok (t₁, rowcount) ∧
        (if rowcount = 0 then ∃ obj', M.insert changed (some t₁) = (.ok obj', db')
          else db' = some t₁) := by
  rw [save, if_neg fun h => hkey (DataValue.isNone_iff.1 h), Act.bind_ok _ (createTable_made ht),
    Act.bind_eq_ok]
  constructor
  · intro h
    obtain ⟨fields, db₁, hraise, hrest⟩ := h
    obtain ⟨hfields, rfl⟩ := raising_ok.1 hraise
    obtain ⟨rowcount, db₂, hrun, hlast⟩ := Act.bind_eq_ok.1 hrest
    obtain ⟨params, t₁, hparams, hupdate, rfl⟩ := runStatement_ok.1 hrun
    obtain ⟨given, hgiven, hkeyed⟩ := except_bind_eq_ok.1 hparams
    obtain ⟨value, hvalue, hpair⟩ := except_bind_eq_ok.1 hkeyed
    cases hpair
    have hassigned : M.assigned changed = .ok given := except_bind_eq_ok.2 ⟨fields, hfields, hgiven⟩
    split at hlast
    · next hzero =>
      obtain ⟨obj', db₃, hinsert, hlast⟩ := Act.bind_eq_ok.1 hlast
      cases hlast
      refine ⟨rfl, given, value, t₁, rowcount, hassigned, hvalue, hupdate, ?_⟩
      rw [if_pos hzero]
      exact ⟨obj', hinsert⟩
    · next hzero =>
      cases hlast
      refine ⟨rfl, given, value, t₁, rowcount, hassigned, hvalue, hupdate, ?_⟩
      rw [if_neg hzero]
  · intro h
    obtain ⟨rfl, given, value, t₁, rowcount, hassigned, hvalue, hupdate, hlast⟩ := h
    obtain ⟨fields, hfields, hgiven⟩ := except_bind_eq_ok.1 hassigned
    refine ⟨fields, some t, raising_ok.2 ⟨hfields, rfl⟩, Act.bind_eq_ok.2 ⟨rowcount, some t₁,
      runStatement_ok.2 ⟨(given, value), t₁, ?_, hupdate, rfl⟩, ?_⟩⟩
    · exact except_bind_eq_ok.2 ⟨given, hgiven, except_bind_eq_ok.2 ⟨value, hvalue, rfl⟩⟩
    · split
      · next hzero =>
        rw [if_pos hzero] at hlast
        obtain ⟨obj', hinsert⟩ := hlast
        exact Act.bind_eq_ok.2 ⟨obj', db', hinsert, rfl⟩
      · next hzero =>
        rw [if_neg hzero] at hlast
        rw [hlast]
        rfl

/-- Every `save` of the object with other fields assigns to the row that was not there before, and
to no other. -/
def SavesInPlace (M : OrmModel R) (before after : TableState φ) (obj : ObjectFields κ φ) : Prop :=
  ∀ changed given, M.IsInstance changed → M.keyOf changed = M.keyOf obj →
    M.assigned changed = .ok given →
    ∃ t t' rowid values, after = some t ∧
      (∀ t₀, before = some t₀ → t₀.rows.contains rowid = false) ∧
      t.rows.get? rowid = some values ∧ M.save changed after = (.ok changed, some t') ∧
      t'.rows.entries = t.rows.entries.map fun row =>
        if row.1 = rowid then (row.1, t.assign R.conv.toConversions given row.2) else row

theorem savesInPlace_of_only (ht : M.Made t) (hkey : M.keyOf obj ≠ .none)
    {value : Sqlite.Value φ} (hvalue : R.bind (M.keyOf obj) = .ok value)
    (honly : ∀ row ∈ t.rows.entries,
      t.holds R.conv.toConversions [(M.primaryKey, value)] row = decide (row.1 = rowid))
    (hget : t.rows.get? rowid = some values)
    (hnew : ∀ t₀, before = some t₀ → t₀.rows.contains rowid = false) :
    M.SavesInPlace before (some t) obj := by
  intro changed given hchanged hsame hassigned
  obtain ⟨t', hupdate, hentries⟩ :=
    Sqlite.Relation.update_single (assigned_has ht hchanged hassigned value) honly hget
  refine ⟨t, t', rowid, values, rfl, hnew, hget, ?_, hentries⟩
  rw [← hsame] at hkey hvalue
  exact (save_run hkey ht).2 ⟨rfl, given, value, t', 1, hassigned, hvalue, hupdate, rfl⟩

/-- No `WHERE` for the key finds a row whose key is null. -/
theorem holds_null (M : OrmModel R) (hkind : t.kind = .unique)
    {row : Int × List (Sqlite.Value φ)} (hnull : t.stored row.2 M.primaryKey = .null)
    (value : Sqlite.Value φ) :
    t.holds R.conv.toConversions [(M.primaryKey, value)] row = false := by
  have hread : t.value row M.primaryKey = .null := by
    rw [Sqlite.Relation.value, if_neg fun h => (by cases hkind.symm.trans h.1), hnull]
  rw [Sqlite.Relation.holds, List.all_cons, hread, Sqlite.Conversions.equal_null]
  rfl

/-- `save` does not reach a row whose key is null. -/
theorem save_null (ht : M.Made t) (hkind : t.kind = .unique) (hchanged : M.IsInstance changed)
    (hkey : M.keyOf changed ≠ .none) (hget : t.rows.get? rowid = some values)
    (hnull : t.stored values M.primaryKey = .null)
    (hsave : M.save changed (some t) = (.ok res, some t')) :
    t'.rows.get? rowid = some values := by
  obtain ⟨_, given, value, t₁, rowcount, hassigned, _, hupdate, hlast⟩ := (save_run hkey ht).1 hsave
  rw [Sqlite.Relation.update,
    if_pos (List.all_eq_true.2 (assigned_has ht hchanged hassigned value))] at hupdate
  have hget₁ : t₁.rows.get? rowid = some values := by
    cases hupdate
    rw [Dict.get?_mapEntries, hget, Option.map_some, holds_null M hkind hnull]
    rfl
  have ht₁ : M.Made t₁ := by
    cases hupdate
    exact ht.congr rfl rfl rfl
  split at hlast
  · obtain ⟨obj', hinsert⟩ := hlast
    have hready : M.Ready (some t₁) := fun t h => Option.some.inj h ▸ ht₁
    obtain ⟨t₂, rowid₂, hcreate, _, _, hrowid, hdb, _⟩ := (insert_iff hready hchanged).1 hinsert
    rw [createTable_made ht₁] at hcreate
    cases hcreate
    cases hdb
    have hfree := Sqlite.Relation.rowidFor_fresh hrowid
    refine (Dict.get?_set_of_ne _ (fun heq => ?_) _).trans hget₁
    rw [← heq, Dict.contains, hget₁] at hfree
    cases hfree
  · cases hlast
    exact hget₁

/-- Where the new row has a null for its key, `save` does not find it. -/
theorem not_savesInPlace (ht : M.Made t) (hobj : M.IsInstance obj) (hkind : t.kind = .unique)
    (hbefore : before = some t ∨ before = none ∧ t.rows = ∅)
    (hnull : R.conv.store (M.affinityOf M.primaryKey) (R.boundValue (M.keyOf obj)) = .null)
    (hkey : M.keyOf (M.withRowid obj rowid) ≠ .none)
    (hbound : ∃ b, R.bound (M.keyOf (M.withRowid obj rowid)) = .ok b)
    (hother : ∃ e ∈ obj, e.1 ≠ M.primaryKey) :
    ¬ M.SavesInPlace before (some (t.put rowid (M.rowOf obj))) (M.withRowid obj rowid) := by
  intro hsaves
  have hobj' := hobj.withRowid rowid
  have ht' : M.Made (t.put rowid (M.rowOf obj)) := ht.congr rfl rfl rfl
  obtain ⟨f, hf, hname⟩ := hother
  -- a blob that the row does not have in the column of this field
  obtain ⟨b, hb⟩ : ∃ b : Bytes, .blob b ≠ t.stored (M.rowOf obj) f.1 := by
    by_cases h : .blob [] = t.stored (M.rowOf obj) f.1
    · refine ⟨[0], fun h' => ?_⟩
      cases h.trans h'.symm
    · exact ⟨[], h⟩
  let changed : ObjectFields κ φ := (M.withRowid obj rowid).map fun e =>
    if e.1 = M.primaryKey then e else (e.1, .bytes b)
  have hnames : changed.map Prod.fst = (M.withRowid obj rowid).map Prod.fst := by
    rw [List.map_map]
    refine List.map_congr_left fun e _ => ?_
    change (if e.1 = M.primaryKey then e else (e.1, DataValue.bytes b)).1 = e.1
    split
    · rfl
    · rfl
  have hchanged : M.IsInstance changed := hnames.trans hobj'
  have hsame : M.keyOf changed = M.keyOf (M.withRowid obj rowid) := by
    have hmem : (M.primaryKey, M.keyOf (M.withRowid obj rowid)) ∈ changed :=
      List.mem_map.2 ⟨_, hobj'.key, if_pos rfl⟩
    exact (congrArg Prod.snd (hchanged.eq_key hmem rfl)).symm
  have hvalues : ∀ e ∈ changed, e.1 ≠ M.primaryKey → e.2 = .bytes b := by
    intro e he hne
    obtain ⟨e', _, rfl⟩ := List.mem_map.1 he
    split
    · next hkey =>
      rw [if_pos hkey] at hne
      exact absurd hkey hne
    · rfl
  have hmem : (f.1, .bytes b) ∈ changed :=
    List.mem_map.2 ⟨f, (mem_withRowid hname).2 hf, if_neg hname⟩
  have hassigned : M.assigned changed = .ok ((changed.filter M.isOther).map fun e =>
      (e.1, R.boundValue e.2)) := by
    refine assigned_of_bound (fun e he => ?_)
      (List.ne_nil_of_mem (List.mem_filter.2 ⟨hmem, decide_eq_true hname⟩))
    by_cases hne : e.1 = M.primaryKey
    · rw [hchanged.eq_key he hne, hsame]
      exact hbound
    · rw [hvalues e he hne]
      exact ⟨.blob b, rfl⟩
  obtain ⟨t₁, t', rowid', values, ht₁, hnew, hget, hsave, hentries⟩ :=
    hsaves changed _ hchanged hsame hassigned
  cases ht₁
  have hrowid : rowid' = rowid := by
    by_contra hne
    change (t.rows.set rowid _).get? rowid' = _ at hget
    rw [Dict.get?_set_of_ne _ hne] at hget
    obtain rfl | ⟨_, hempty⟩ := hbefore
    · have hnot := hnew t rfl
      rw [Dict.contains, hget] at hnot
      cases hnot
    · rw [hempty] at hget
      cases hget
  subst hrowid
  have hrow : (t.put rowid' (M.rowOf obj)).rows.get? rowid' = some (M.rowOf obj) :=
    Dict.get?_set_self _ _ _
  have hstored : (t.put rowid' (M.rowOf obj)).stored (M.rowOf obj) M.primaryKey = .null := by
    rw [← hnull]
    exact (ht'.shaped hobj).stored hobj.key
      fun e => R.conv.store (M.affinityOf e.1) (R.boundValue e.2)
  have hsame' : M.keyOf changed ≠ .none := hsame ▸ hkey
  have hkept := save_null ht' hkind hchanged hsame' hrow hstored hsave
  have hassign : (t.put rowid' (M.rowOf obj)).assign R.conv.toConversions
      ((changed.filter M.isOther).map fun e => (e.1, R.boundValue e.2)) (M.rowOf obj) =
        M.rowOf obj := by
    have hmem : (rowid', M.rowOf obj) ∈ (t.put rowid' (M.rowOf obj)).rows.entries :=
      Dict.mem_entries_iff.2 hrow
    have hmapped := List.mem_map_of_mem (f := fun row : Int × List (Sqlite.Value φ) =>
      if row.1 = rowid' then (row.1, (t.put rowid' (M.rowOf obj)).assign R.conv.toConversions
        ((changed.filter M.isOther).map fun e => (e.1, R.boundValue e.2)) row.2) else row) hmem
    rw [← hentries, if_pos rfl] at hmapped
    exact Option.some.inj ((Dict.mem_entries_iff.1 hmapped).symm.trans hkept)
  have holds : M.rowOf obj = changed.map fun e => t.stored (M.rowOf obj) e.1 := by
    have hlist : M.rowOf obj = obj.map fun e => t.stored (M.rowOf obj) e.1 :=
      List.map_congr_left fun e he => ((ht.shaped hobj).stored he
        fun e => R.conv.store (M.affinityOf e.1) (R.boundValue e.2)).symm
    have hsame : obj.map Prod.fst = changed.map Prod.fst := hobj.trans hchanged.symm
    have hmap := congrArg (List.map fun n => t.stored (M.rowOf obj) n) hsame
    rw [List.map_map, List.map_map] at hmap
    exact hlist.trans hmap
  have hlist := (ht'.shaped hchanged).assign R.conv.toConversions M.isOther
    (fun e => R.boundValue e.2) fun e => t.stored (M.rowOf obj) e.1
  rw [← holds] at hlist
  have hfield := List.map_inj_left.1 ((hlist.symm.trans hassign).trans holds) _ hmem
  have hisOther : M.isOther (f.1, .bytes b) = true := decide_eq_true hname
  rw [if_pos hisOther] at hfield
  refine hb (Eq.trans ?_ hfield)
  cases M.affinityOf f.1 with
  | _ => rfl

end OrmModel

end Sovereign
