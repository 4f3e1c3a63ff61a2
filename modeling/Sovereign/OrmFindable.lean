import Sovereign.OrmSaved

namespace Sovereign
set_option autoImplicit true

/-- The value is of the type. -/
inductive ScalarType.Holds : ScalarType → DataValue κ φ → Prop where
  | int : Holds .int (.int n)
  | float : Holds .float (.float x)
  | bool : Holds .bool (.bool b)
  | str : Holds .str (.str s)
  | bytes : Holds .bytes (.bytes b)

namespace OrmModel

variable {R : OrmRuntime κ φ} {M : OrmModel R} {obj : ObjectFields κ φ} {t : Sqlite.Relation φ}
  {before : TableState φ}

/-- The key of an object is found again: it is a value other than NaN, or the rowid that it becomes
is of its type. For a bool that is the rowid 1, which the first row gets. -/
def KeyKept (R : OrmRuntime κ φ) (before : TableState φ) : ScalarType → DataValue κ φ → Prop
  | .int, _ => True
  | .bool, .none => ∀ t, before = some t → t.sequence = 0
  | _, .none => False
  | _, .float x => R.isNaN x = false
  | _, _ => True

theorem equal_bool (R : OrmRuntime κ φ) (rowid : Int) (b : Bool) :
    R.Equal (.int rowid) (.bool b) ↔ rowid = if b then 1 else 0 := by
  rw [OrmRuntime.Equal]
  constructor
  · intro h
    obtain ⟨y, hy, hsame⟩ := h
    cases hy
    exact hsame
  · intro h
    exact ⟨_, rfl, h⟩

theorem fits_of_bound {n : Int} (h : ∃ b, R.bound (.int n) = .ok b) : Fits64 n := by
  obtain ⟨b, hb⟩ := h
  change R.bind (.int n) = _ at hb
  rw [OrmRuntime.bind] at hb
  split at hb
  · next hfits => exact hfits
  · cases hb

theorem bind_bool (R : OrmRuntime κ φ) (b : Bool) :
    (R.encode (.bool b) >>= R.bind) = .ok (.integer (if b then 1 else 0)) := by
  cases b with
  | true => exact bind_int (by decide)
  | false => exact bind_int (by decide)

theorem decode_bool (R : OrmRuntime κ φ) (b : Bool) :
    R.decodeAs (.int (if b then 1 else 0)) ScalarType.bool.hint = .ok (.bool b) := by
  cases b with
  | true => rfl
  | false => rfl

/-- A float that is not a number is bound as null. -/
theorem bind_float {x : φ} (h : R.isNaN x = true) :
    (R.encode (.float x) >>= R.bind) = .ok .null := by
  change R.bind (.float x) = _
  rw [OrmRuntime.bind, if_pos h]

/-- A scalar field comes back unless it is NaN. -/
theorem recovers_scalar {e : Str × DataValue κ φ} (hscalar : (M.hint e.1).Scalar s)
    (hholds : s.Holds e.2) (hbound : ∃ b, R.bound e.2 = .ok b) :
    M.Recovers e ↔ ∀ x, e.2 = .float x → R.isNaN x = false := by
  obtain ⟨name, v⟩ := e
  have hkept {b : Sqlite.Value φ} (hb : R.bound v = .ok b) (hnull : b ≠ .null)
      (hstore : R.conv.store s.affinity b = b) (hdecode : R.decodeAs (.fetch b) s.hint = .ok v)
      (hequal : R.Equal v v) : M.Recovers (name, v) := by
    refine ⟨v, ?_, hequal⟩
    have hfetch : (DataValue.fetch b : DataValue κ φ) ≠ .none := by
      cases b with
      | null => exact absurd rfl hnull
      | _ => intro h; cases h
    rw [OrmRuntime.recover, hb, affinityOf_scalar hscalar]
    change R.decode (.fetch (R.conv.store s.affinity b)) _ = _
    rw [hstore, hscalar.decode R hfetch, hdecode]
  cases hholds with
  | @int n =>
    have hrecovers := hkept (bound_int (fits_of_bound hbound)) (fun h => by cases h) rfl rfl
      (equal_int R n)
    exact ⟨fun _ _ h => (by cases h), fun _ => hrecovers⟩
  | @bool b =>
    have hrecovers := hkept (bind_bool R b) (fun h => by cases h) rfl (decode_bool R b)
      (OrmRuntime.Storable.equal .bool)
    exact ⟨fun _ _ h => (by cases h), fun _ => hrecovers⟩
  | @str text =>
    have hrecovers := hkept (b := .text text) rfl (fun h => by cases h) rfl rfl
      (OrmRuntime.Storable.equal .str)
    exact ⟨fun _ _ h => (by cases h), fun _ => hrecovers⟩
  | @bytes b =>
    have hrecovers := hkept (b := .blob b) rfl (fun h => by cases h) rfl rfl
      (by rw [OrmRuntime.Equal])
    exact ⟨fun _ _ h => (by cases h), fun _ => hrecovers⟩
  | @float x =>
    constructor
    · intro h y hy
      cases hy
      obtain ⟨w, _, hequal⟩ := h
      rw [OrmRuntime.Equal] at hequal
      obtain ⟨y, _, hsame⟩ := hequal
      cases y with
      | inl n => exact hsame.1
      | inr y => exact hsame.1
    · intro h
      have hnan := h x rfl
      have hreal : R.bound (.float x : DataValue κ φ) = .ok (.real x) := by
        change R.bind (.float x) = _
        rw [OrmRuntime.bind, hnan]
        rfl
      exact hkept hreal (fun h => by cases h) rfl rfl (OrmRuntime.Storable.equal (.float hnan))

/-- A rowid that SQLite makes up is the bool that is read from it only for the first row. -/
theorem made_up_bool {rowid : Int} (R : OrmRuntime κ φ)
    (hbefore : before = some t ∨ before = none ∧ t.rows = ∅ ∧ t.sequence = 0)
    (hnext : rowid = t.sequence + 1) :
    (∃ w, R.decodeAs (.int rowid) ScalarType.bool.hint = .ok w ∧ R.Equal (.int rowid) w) ↔
      KeyKept R before .bool .none := by
  have hpositive := t.positive
  have hzero : KeyKept R before .bool .none ↔ t.sequence = 0 := by
    constructor
    · intro h
      obtain rfl | ⟨_, _, hsequence⟩ := hbefore
      · exact h t rfl
      · exact hsequence
    · intro h t₀ h₀
      obtain rfl | ⟨hnone, _⟩ := hbefore
      · cases h₀
        exact h
      · cases hnone.symm.trans h₀
  rw [hzero]
  constructor
  · intro h
    obtain ⟨w, hw, hequal⟩ := h
    cases hw
    rw [equal_bool] at hequal
    split at hequal
    · omega
    · omega
  · intro h
    refine ⟨_, rfl, (equal_bool _ _ _).2 ?_⟩
    rw [hnext, h]
    rfl

variable [DecidableEq φ]

/-- A key that is the rowid is found, and its row is the one that is saved. -/
theorem rowid_key (ht : M.Made t) (hobj : M.IsInstance obj) (hkind : t.kind = .rowid)
    (hscalar : (M.hint M.primaryKey).Scalar s)
    (hbound : ∀ e ∈ obj, ∃ b, R.bound e.2 = .ok b)
    (hfresh : ∀ t₀, before = some t₀ → t₀.rows.contains rowid = false)
    (hnone : M.keyOf (M.withRowid obj rowid) ≠ .none)
    (hencode : R.encode (M.keyOf (M.withRowid obj rowid)) >>= R.bind = .ok (.integer rowid))
    (hbind : R.bind (M.keyOf (M.withRowid obj rowid)) = .ok (.integer rowid)) :
    (M.FoundAgain (M.withRowid obj rowid) (some (t.put rowid (M.rowOf obj))) ∧
        M.SavesInPlace before (some (t.put rowid (M.rowOf obj))) (M.withRowid obj rowid)) ↔
      (∃ w, R.decodeAs (.int rowid) s.hint = .ok w ∧
        R.Equal (M.keyOf (M.withRowid obj rowid)) w) ∧
      ∀ e ∈ obj, e.1 ≠ M.primaryKey → M.Recovers e := by
  have ht' : M.Made (t.put rowid (M.rowOf obj)) := ht.congr rfl rfl rfl
  have hsaves : M.SavesInPlace before (some (t.put rowid (M.rowOf obj)))
      (M.withRowid obj rowid) :=
    savesInPlace_of_only ht' hnone hbind (fun row _ => rowid_only ht' hobj hkind rowid row)
      (Dict.get?_set_self _ _ _) hfresh
  rw [inserted_rowid_iff ht hobj hkind hbound hencode, hscalar.decode R (by intro h; cases h)]
  exact ⟨fun h => h.1, fun h => ⟨h, hsaves⟩⟩

/-- A key in a column of its own is found, unless it is null there. -/
theorem unique_key (ht : M.Made t) (hobj : M.IsInstance obj) (hkind : t.kind = .unique)
    (hscalar : (M.hint M.primaryKey).Scalar s)
    (hbound : ∀ e ∈ obj, ∃ b, R.bound e.2 = .ok b)
    (hfresh : ∀ t₀, before = some t₀ → t₀.rows.contains rowid = false)
    {value : Sqlite.Value φ} (hkey : M.keyOf obj ≠ .none) (hnull : value ≠ .null)
    (hencode : R.encode (M.keyOf obj) >>= R.bind = .ok value)
    (hbind : R.bind (M.keyOf obj) = .ok value)
    (hstored : R.conv.store s.affinity (R.boundValue (M.keyOf obj)) = value)
    (hcompared : R.conv.compared s.affinity value = value)
    (hrowid : t.rowidFor R.conv.toConversions value = .ok rowid)
    (hdecode : R.decodeAs (.fetch value) s.hint = .ok (M.keyOf obj))
    (hequal : R.Equal (M.keyOf obj) (M.keyOf obj)) :
    (M.FoundAgain obj (some (t.put rowid (M.rowOf obj))) ∧
        M.SavesInPlace before (some (t.put rowid (M.rowOf obj))) obj) ↔
      ∀ e ∈ obj, e.1 ≠ M.primaryKey → M.Recovers e := by
  have ht' : M.Made (t.put rowid (M.rowOf obj)) := ht.congr rfl rfl rfl
  rw [← affinityOf_scalar hscalar] at hstored hcompared
  have honly := unique_only ht hobj hkind hnull hstored hcompared hrowid
  have hsaves : M.SavesInPlace before (some (t.put rowid (M.rowOf obj))) obj :=
    savesInPlace_of_only ht' hkey hbind honly (Dict.get?_set_self _ _ _) hfresh
  have hwith := withRowid_keyed hkey rowid
  have hfound := inserted_iff ht hobj hbound (hwith.symm ▸ hencode) honly
  have hvalue : (t.put rowid (M.rowOf obj)).value (rowid, M.rowOf obj) M.primaryKey = value := by
    rw [Sqlite.Relation.value, if_neg fun h => (by cases hkind.symm.trans h.1), ← hstored]
    exact (ht'.shaped hobj).stored hobj.key
      fun e => R.conv.store (M.affinityOf e.1) (R.boundValue e.2)
  have hfetch : (DataValue.fetch value : DataValue κ φ) ≠ .none := by
    cases value with
    | null => exact absurd rfl hnull
    | _ => intro h; cases h
  rw [hvalue, hscalar.decode R hfetch, hwith] at hfound
  rw [hfound]
  exact ⟨fun h => h.1.2, fun h => ⟨⟨⟨_, hdecode, hequal⟩, h⟩, hsaves⟩⟩

/-- `get` with the key binds it. -/
theorem FoundAgain.params (ht : M.Made t) (h : M.FoundAgain obj (some t)) :
    ∃ value, R.encode (M.keyOf obj) >>= R.bind = .ok value := by
  obtain ⟨found, db', hget, _⟩ := h
  rw [get, Act.bind_ok _ (createTable_made ht), Act.bind_eq_ok] at hget
  obtain ⟨objs, db₁, hrun, _⟩ := hget
  obtain ⟨given, rows, hgiven, _⟩ := select_run.1 hrun
  rw [OrmRuntime.bindParams, Traverse.except_iff, List.forall₂_cons_left_iff] at hgiven
  obtain ⟨_, _, hpair, _⟩ := hgiven
  obtain ⟨e, he, hpair⟩ := except_bind_eq_ok.1 hpair
  obtain ⟨b, hb, _⟩ := except_bind_eq_ok.1 hpair
  exact ⟨b, except_bind_eq_ok.2 ⟨e, he, hb⟩⟩

/-- Nothing is equal to null. -/
theorem holds_of_null (R : OrmRuntime κ φ) (t : Sqlite.Relation φ) (name : Str)
    (row : Int × List (Sqlite.Value φ)) :
    t.holds R.conv.toConversions [(name, .null)] row = false := by
  have hnull (a : Sqlite.Affinity) : R.conv.compared a .null = .null := by
    cases a with
    | _ => rfl
  have hfalse (v : Sqlite.Value φ) : R.conv.equal v .null = false := by
    cases v with
    | _ => rfl
  rw [Sqlite.Relation.holds, List.all_cons, hnull, hfalse]
  rfl

/-- `get` of a key that is bound as null finds nothing. -/
theorem not_foundAgain_null (ht : M.Made t)
    (hencode : R.encode (M.keyOf obj) >>= R.bind = .ok .null) : ¬ M.FoundAgain obj (some t) := by
  intro h
  obtain ⟨found, db', hget, _⟩ := h
  have hparams : R.bindParams [(M.primaryKey, M.keyOf obj)] = .ok [(M.primaryKey, .null)] := by
    rw [OrmRuntime.bindParams, Traverse.except_iff]
    refine .cons ?_ .nil
    obtain ⟨e, he, hb⟩ := except_bind_eq_ok.1 hencode
    exact except_bind_eq_ok.2 ⟨e, he, except_bind_eq_ok.2 ⟨.null, hb, rfl⟩⟩
  rw [get, Act.bind_ok _ (createTable_made ht), Act.bind_eq_ok] at hget
  obtain ⟨objs, db₁, hrun, hresult⟩ := hget
  obtain ⟨given, rows, hgiven, _, hrows, hobjs, rfl⟩ := select_run.1 hrun
  cases hparams.symm.trans hgiven
  have hnone : t.scan.filter (t.holds R.conv.toConversions [(M.primaryKey, .null)]) = [] := by
    apply List.filter_eq_nil_iff.2
    intro row _
    rw [holds_of_null R]
    exact Bool.false_ne_true
  rw [Sqlite.Relation.select] at hrows
  split at hrows
  · cases hrows
    rw [hnone] at hobjs
    cases hobjs
    cases hresult
  · cases hrows

section Inserted

variable {obj' : ObjectFields κ φ} {rowid : Int}

/-- An insert makes the table if there was none, and its row is a new one. -/
theorem insert_table (hready : M.Ready before)
    (hcreate : M.createTable before = (.ok (), some t)) {value : Sqlite.Value φ}
    (hrowid : t.rowidFor R.conv.toConversions value = .ok rowid) :
    M.Made t ∧ (before = some t ∨ before = none ∧ t.rows = ∅ ∧ t.sequence = 0) ∧
      ∀ t₀, before = some t₀ → t₀.rows.contains rowid = false := by
  obtain ⟨_, heq, ht, hbefore⟩ := createTable_result hready hcreate
  cases heq
  refine ⟨ht, hbefore, fun t₀ h₀ => ?_⟩
  obtain h | ⟨h, _⟩ := hbefore
  · cases h.symm.trans h₀
    exact Sqlite.Relation.rowidFor_fresh hrowid
  · cases h.symm.trans h₀

/-- The key of its row is a rowid that SQLite makes up. -/
theorem made_up_iff (ht : M.Made t) (hobj : M.IsInstance obj) (hkind : t.kind = .rowid)
    (hscalar : (M.hint M.primaryKey).Scalar s)
    (hbound : ∀ e ∈ obj, ∃ b, R.bound e.2 = .ok b)
    (hfresh : ∀ t₀, before = some t₀ → t₀.rows.contains rowid = false)
    (hnone : M.keyOf obj = .none)
    (hrowid : t.rowidFor R.conv.toConversions (R.conv.store s.affinity
      (R.boundValue (M.keyOf obj))) = .ok rowid) :
    rowid = t.sequence + 1 ∧
      ((M.FoundAgain (M.withRowid obj rowid) (some (t.put rowid (M.rowOf obj))) ∧
          M.SavesInPlace before (some (t.put rowid (M.rowOf obj))) (M.withRowid obj rowid)) ↔
        (∃ w, R.decodeAs (.int rowid) s.hint = .ok w ∧ R.Equal (.int rowid) w) ∧
        ∀ e ∈ obj, e.1 ≠ M.primaryKey → M.Recovers e) := by
  have hstore (a : Sqlite.Affinity) : R.conv.store a .null = .null := by
    cases a with
    | _ => rfl
  rw [hnone, OrmRuntime.boundValue_of_bound OrmRuntime.bound_none, hstore,
    Sqlite.Relation.rowidFor, hkind] at hrowid
  obtain ⟨hle, hnext⟩ := Sqlite.Relation.nextRowid_ok.1 hrowid
  have hfits := next_fits hkind hle
  rw [← hnext] at hfits
  have hkey := keyOf_withRowid hobj hnone rowid
  refine ⟨?_, ?_⟩
  · rw [hnext, Sqlite.Relation.next, hkind]
  · have hiff := rowid_key ht hobj hkind hscalar hbound hfresh (by rw [hkey]; intro h; cases h)
      (by rw [hkey]; exact bind_int hfits) (by rw [hkey]; exact bound_int (R := R) hfits)
    rw [hkey] at hiff
    exact hiff

/-- The rowid is the key that was given. -/
theorem given_rowid_iff (ht : M.Made t) (hobj : M.IsInstance obj) (hkind : t.kind = .rowid)
    (hscalar : (M.hint M.primaryKey).Scalar s)
    (hbound : ∀ e ∈ obj, ∃ b, R.bound e.2 = .ok b)
    (hfresh : ∀ t₀, before = some t₀ → t₀.rows.contains rowid = false)
    (hkey : M.keyOf obj ≠ .none) {n : Int} (hn : R.bound (M.keyOf obj) = .ok (.integer n))
    (hencode : R.encode (M.keyOf obj) >>= R.bind = .ok (.integer n))
    (hbind : R.bind (M.keyOf obj) = .ok (.integer n))
    (hdecode : R.decodeAs (.int n) s.hint = .ok (M.keyOf obj))
    (hequal : R.Equal (M.keyOf obj) (M.keyOf obj))
    (hrowid : t.rowidFor R.conv.toConversions (R.conv.store .integer
      (R.boundValue (M.keyOf obj))) = .ok rowid) :
    (M.FoundAgain (M.withRowid obj rowid) (some (t.put rowid (M.rowOf obj))) ∧
        M.SavesInPlace before (some (t.put rowid (M.rowOf obj))) (M.withRowid obj rowid)) ↔
      ∀ e ∈ obj, e.1 ≠ M.primaryKey → M.Recovers e := by
  have hid : rowid = n := by
    rw [OrmRuntime.boundValue_of_bound hn, Sqlite.Relation.rowidFor, hkind] at hrowid
    change (if t.rows.contains n then _ else _) = _ at hrowid
    split at hrowid
    · cases hrowid
    · cases hrowid
      rfl
  subst hid
  have hwith := withRowid_keyed hkey rowid
  have hkey' : M.keyOf (M.withRowid obj rowid) ≠ .none := by rwa [hwith]
  rw [rowid_key ht hobj hkind hscalar hbound hfresh hkey' (by rwa [hwith]) (by rwa [hwith]), hwith]
  exact ⟨fun h => h.2, fun h => ⟨⟨_, hdecode, hequal⟩, h⟩⟩

/-- A key that is left out and is not the rowid is null in its row. -/
theorem left_out (hready : M.Ready before) (hobj : M.IsInstance obj)
    (hcreate : M.createTable before = (.ok (), some t)) (hkind : t.kind = .unique)
    (hne : obj.filter M.inserts ≠ []) {value : Sqlite.Value φ}
    (hrowid : t.rowidFor R.conv.toConversions value = .ok rowid) (hnone : M.keyOf obj = .none) :
    ¬ (M.FoundAgain (M.withRowid obj rowid) (some (t.put rowid (M.rowOf obj))) ∧
      M.SavesInPlace before (some (t.put rowid (M.rowOf obj))) (M.withRowid obj rowid)) := by
  intro h
  obtain ⟨hfound, hsaves⟩ := h
  obtain ⟨ht, hbefore, _⟩ := insert_table hready hcreate hrowid
  have ht' : M.Made (t.put rowid (M.rowOf obj)) := ht.congr rfl rfl rfl
  have hkey := keyOf_withRowid hobj hnone rowid
  have hbound : ∃ b, R.bound (M.keyOf (M.withRowid obj rowid)) = .ok b := by
    obtain ⟨value, hvalue⟩ := hfound.params ht'
    rw [hkey] at hvalue ⊢
    exact ⟨value, hvalue⟩
  refine not_savesInPlace ht hobj hkind ?_ ?_ ?_ hbound ?_ hsaves
  · obtain h | ⟨h, hrows, _⟩ := hbefore
    · exact .inl h
    · exact .inr ⟨h, hrows⟩
  · rw [hnone, OrmRuntime.boundValue_of_bound OrmRuntime.bound_none]
    cases M.affinityOf M.primaryKey with
    | _ => rfl
  · rw [hkey]
    intro h
    cases h
  · obtain ⟨e, he⟩ := List.exists_mem_of_ne_nil _ hne
    obtain ⟨hmem, hins⟩ := List.mem_filter.1 he
    refine ⟨e, hmem, fun hname => ?_⟩
    rw [hobj.eq_key hmem hname, hnone, inserts, decide_eq_true rfl] at hins
    cases hins

end Inserted

end OrmModel

/-- A model with the key of its own. -/
def pageFields : List (DataField Unit ℚ) :=
  [{ name := "slug".toList, hint := .union [.str, .plain .none], default := some .none },
    { name := "title".toList, hint := .str }]

def pageRuntime : OrmRuntime Unit ℚ :=
  .ofFields (fun _ => pageFields) (fun _ => "Page".toList) (fun _ => .error .valueError)
    (fun _ => (by decide : ["slug".toList, "title".toList].Nodup))

def pageModel : OrmModel pageRuntime where
  cls := ()
  tableName := "page".toList
  primaryKey := "slug".toList
  key_mem := List.mem_cons_self

theorem pageModel_key : (pageModel.hint pageModel.primaryKey).Scalar .str := .optional rfl rfl

theorem pageModel_ready : pageModel.Ready none := fun _ h => by cases h

def pageObject (slug : DataValue Unit ℚ) : ObjectFields Unit ℚ :=
  [("slug".toList, slug), ("title".toList, .str "Start".toList)]

theorem pageObject_instance (slug : DataValue Unit ℚ) : pageModel.IsInstance (pageObject slug) :=
  rfl

theorem pageObject_inserts (slug : DataValue Unit ℚ) :
    (pageObject slug).filter pageModel.inserts ≠ [] :=
  List.ne_nil_of_mem (List.mem_filter.2 ⟨List.mem_cons_of_mem _ List.mem_cons_self, rfl⟩)

def pageColumns : List Sqlite.Column := [⟨"slug".toList, .text⟩, ⟨"title".toList, .text⟩]

theorem pageModel_creates : pageModel.Creates pageColumns := by
  refine ⟨?_, by decide, by decide⟩
  rw [OrmModel.columns, Traverse.except_iff]
  refine .cons ?_ (.cons ?_ .nil)
  · exact congrArg (Except.map fun a => (⟨"slug".toList, a⟩ : Sqlite.Column))
      pageModel_key.sqliteType
  · exact congrArg (Except.map fun a => (⟨"title".toList, a⟩ : Sqlite.Column))
      (TypeHint.Scalar.sqliteType_hint .str)

theorem pageModel_creatable : pageModel.Creatable := ⟨_, pageModel_creates⟩

/-- The first page is inserted. -/
theorem pageObject_inserted (slug : DataValue Unit ℚ) (hslug : ∃ b, pageRuntime.bound slug = .ok b) :
    ∃ t rowid, pageModel.createTable none = (.ok (), some t) ∧ t.kind = .unique ∧
      t.rowidFor pageRuntime.conv.toConversions (pageRuntime.conv.store
        (pageModel.affinityOf pageModel.primaryKey)
        (pageRuntime.boundValue (pageModel.keyOf (pageObject slug)))) = .ok rowid ∧
      pageModel.insert (pageObject slug) none =
        (.ok (pageModel.withRowid (pageObject slug) rowid),
          some (t.put rowid (pageModel.rowOf (pageObject slug)))) := by
  obtain ⟨db, hcreate⟩ := OrmModel.createTable_ok pageModel_ready pageModel_creatable
  obtain ⟨t, rfl, ht, hbefore⟩ := OrmModel.createTable_result pageModel_ready hcreate
  have hobj := pageObject_instance slug
  have hkind : t.kind = .unique := by
    rw [ht.kind_eq hobj, OrmModel.affinityOf_scalar pageModel_key]
    rfl
  obtain hbefore | ⟨_, hrows, _⟩ := hbefore
  · cases hbefore
  have hrowid (value : Sqlite.Value ℚ) :
      t.rowidFor pageRuntime.conv.toConversions value = .ok 1 := by
    have hnext : t.next = 1 := by
      rw [Sqlite.Relation.next, hkind, hrows]
      rfl
    have htaken : t.taken pageRuntime.conv.toConversions value = false := by
      rw [Sqlite.Relation.taken, hrows]
      rfl
    rw [Sqlite.Relation.rowidFor, hkind]
    dsimp only
    rw [htaken, Sqlite.Relation.nextRowid, hnext]
    rfl
  refine ⟨t, 1, hcreate, hkind, hrowid _, (OrmModel.insert_iff pageModel_ready hobj).2
    ⟨t, 1, hcreate, ?_, pageObject_inserts slug, hrowid _, rfl, rfl⟩⟩
  intro e he
  obtain rfl | he := List.mem_cons.1 he
  · exact hslug
  · rw [List.mem_singleton.1 he]
    exact ⟨_, rfl⟩

namespace OrmModel

end OrmModel

end Sovereign
