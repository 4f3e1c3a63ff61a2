import Sovereign.OrmInserted

namespace Sovereign
set_option autoImplicit true

def ScalarType.hint : ScalarType → TypeHint κ
  | int => .int
  | float => .float
  | bool => .bool
  | str => .str
  | bytes => .bytes

/-- The affinity of a column for the type. -/
def ScalarType.affinity (s : ScalarType) : Sqlite.Affinity := sqliteType { scalar := s }

/-- The annotation is this scalar type, or `Optional` of it. -/
inductive TypeHint.Scalar (s : ScalarType) : TypeHint κ → Prop where
  | plain : Scalar s s.hint
  | optional (hnone : members.any isNone = true) (h : candidates members = [s.hint]) :
      Scalar s (.union members)

namespace TypeHint.Scalar

variable {tp : TypeHint κ}

theorem stripped (h : tp.Scalar s) : tp.stripped = .ok s.hint := by
  cases h with
  | plain =>
    cases s with
    | _ => rfl
  | optional hnone h =>
    rw [TypeHint.stripped, TypeHint.args, if_pos hnone, h]

theorem sqliteType_hint (s : ScalarType) : (s.hint : TypeHint κ).sqliteType = .ok s.affinity := by
  cases s with
  | _ =>
    rw [TypeHint.sqliteType]
    rfl

theorem sqliteType (h : tp.Scalar s) : tp.sqliteType = .ok s.affinity := by
  cases h with
  | plain => exact sqliteType_hint s
  | @optional members hnone h =>
    have hargs : (union members).args.any isNone = true := hnone
    rw [TypeHint.sqliteType, dif_pos hargs]
    split
    · next hnil =>
      rw [TypeHint.args, h] at hnil
      cases hnil
    · next hcons =>
      rw [TypeHint.args, h] at hcons
      cases hcons
      exact sqliteType_hint s

/-- A column of the type is decoded by its type. -/
theorem decode (R : OrmRuntime κ φ) {v : DataValue κ φ} (h : tp.Scalar s) (hv : v ≠ .none) :
    R.decode v tp = R.decodeAs v s.hint := by
  rw [OrmRuntime.decode, if_neg fun hnone => hv (DataValue.isNone_iff.1 hnone), h.stripped]
  rfl

end TypeHint.Scalar

namespace OrmModel

variable {R : OrmRuntime κ φ} {M : OrmModel R} {obj : ObjectFields κ φ} {t : Sqlite.Relation φ}

theorem affinityOf_scalar (h : (M.hint name).Scalar s) : M.affinityOf name = s.affinity := by
  rw [affinityOf, h.sqliteType]

/-- The key is the rowid just if its column has integers. -/
theorem Made.kind_eq (ht : M.Made t) (hobj : M.IsInstance obj) :
    t.kind = if M.affinityOf M.primaryKey = .integer then .rowid else .unique := by
  have hshaped := ht.shaped hobj
  have hmem : (⟨M.primaryKey, .integer⟩ : Sqlite.Column) ∈ t.columns ↔
      M.affinityOf M.primaryKey = .integer := by
    rw [hshaped.columns, List.mem_map]
    constructor
    · intro h
      obtain ⟨e, _, heq⟩ := h
      injection heq with hname haffinity
      rw [← hname]
      exact haffinity
    · intro h
      exact ⟨_, hobj.key, by rw [h]⟩
  rw [ht.kind, keyKind]
  exact if_congr hmem rfl rfl

theorem keyOf_withRowid (hobj : M.IsInstance obj) (hkey : M.keyOf obj = .none) (rowid : Int) :
    M.keyOf (M.withRowid obj rowid) = .int rowid := by
  have hmem := (hobj.withRowid rowid).key
  have hwith : M.withRowid obj rowid = M.setKeyOf obj (.int rowid) := by
    rw [withRowid, hkey]
    rfl
  rw [hwith] at hmem ⊢
  generalize M.keyOf (M.setKeyOf obj (.int rowid)) = key at hmem
  obtain ⟨e, _, heq⟩ := List.mem_map.1 hmem
  split at heq
  · exact (congrArg Prod.snd heq).symm
  · next hne =>
    rw [heq] at hne
    exact absurd rfl hne

theorem withRowid_keyed (hkey : M.keyOf obj ≠ .none) (rowid : Int) :
    M.withRowid obj rowid = obj := by
  rw [withRowid, if_neg fun h => hkey (DataValue.isNone_iff.1 h)]

theorem bind_int {n : Int} (h : Fits64 n) :
    (R.encode (.int n) >>= R.bind) = .ok (.integer n) := by
  change R.bind (.int n) = _
  rw [OrmRuntime.bind, if_pos h]

theorem bound_int {n : Int} (h : Fits64 n) : R.bound (.int n) = .ok (.integer n) := by
  change R.bind (.int n) = _
  rw [OrmRuntime.bind, if_pos h]

theorem equal_int (R : OrmRuntime κ φ) (n : Int) : R.Equal (.int n) (.int n) := by
  rw [OrmRuntime.Equal]
  exact ⟨_, rfl, rfl⟩

/-- A rowid that SQLite makes up fits. -/
theorem next_fits (hkind : t.kind = .rowid) (h : t.next ≤ Sqlite.maxRowid) : Fits64 t.next := by
  have hnext : t.next = t.sequence + 1 := by
    rw [Sqlite.Relation.next, hkind]
  have hpositive := t.positive
  rw [Sqlite.maxRowid] at h
  constructor
  · omega
  · exact h

variable [DecidableEq φ]

/-- Where the key is the rowid, one row has it. -/
theorem rowid_only (ht : M.Made t) (hobj : M.IsInstance obj) (hkind : t.kind = .rowid)
    (rowid : Int) (row : Int × List (Sqlite.Value φ)) :
    t.holds R.conv.toConversions [(M.primaryKey, .integer rowid)] row =
      decide (row.1 = rowid) := by
  have haffinity : t.affinity M.primaryKey = .integer := by
    rw [(ht.shaped hobj).affinity hobj.key]
    have hkind' := ht.kind_eq hobj
    rw [hkind] at hkind'
    by_contra h
    rw [if_neg h] at hkind'
    cases hkind'
  have hvalue : t.value row M.primaryKey = .integer row.1 := by
    rw [Sqlite.Relation.value, if_pos ⟨hkind, by rw [ht.key]⟩]
  rw [Sqlite.Relation.holds, List.all_cons, List.all_nil, Bool.and_true, hvalue, haffinity]
  rfl

/-- What comes back where the key is the rowid. -/
theorem inserted_rowid_iff (ht : M.Made t) (hobj : M.IsInstance obj) (hkind : t.kind = .rowid)
    (hbound : ∀ e ∈ obj, ∃ b, R.bound e.2 = .ok b)
    (hkey : R.encode (M.keyOf (M.withRowid obj rowid)) >>= R.bind = .ok (.integer rowid)) :
    M.FoundAgain (M.withRowid obj rowid) (some (t.put rowid (M.rowOf obj))) ↔
      (∃ w, R.decode (.int rowid) (M.hint M.primaryKey) = .ok w ∧
        R.Equal (M.keyOf (M.withRowid obj rowid)) w) ∧
      ∀ e ∈ obj, e.1 ≠ M.primaryKey → M.Recovers e := by
  have ht' : M.Made (t.put rowid (M.rowOf obj)) := ht.congr rfl rfl rfl
  rw [inserted_iff ht hobj hbound hkey fun row _ => rowid_only ht' hobj hkind rowid row]
  have hvalue : (t.put rowid (M.rowOf obj)).value (rowid, M.rowOf obj) M.primaryKey =
      .integer rowid := by
    rw [Sqlite.Relation.value, if_pos ⟨hkind, by rw [ht'.key]⟩]
  rw [hvalue]
  exact Iff.rfl

/-- Where the key is another column, only the new row has its key. -/
theorem unique_only (ht : M.Made t) (hobj : M.IsInstance obj) (hkind : t.kind = .unique)
    {value : Sqlite.Value φ} (hnull : value ≠ .null)
    (hstored : R.conv.store (M.affinityOf M.primaryKey) (R.boundValue (M.keyOf obj)) = value)
    (hcompared : R.conv.compared (M.affinityOf M.primaryKey) value = value)
    (hrowid : t.rowidFor R.conv.toConversions value = .ok rowid) :
    ∀ row ∈ (t.put rowid (M.rowOf obj)).rows.entries,
      (t.put rowid (M.rowOf obj)).holds R.conv.toConversions [(M.primaryKey, value)] row =
        decide (row.1 = rowid) := by
  intro row hrow
  have ht' : M.Made (t.put rowid (M.rowOf obj)) := ht.congr rfl rfl rfl
  have hother : t.taken R.conv.toConversions value = false := by
    rw [Sqlite.Relation.rowidFor, hkind] at hrowid
    dsimp only at hrowid
    split at hrowid
    · cases hrowid
    · next h => exact Bool.eq_false_iff.2 h
  have hread : (t.put rowid (M.rowOf obj)).value row M.primaryKey =
      t.stored row.2 M.primaryKey := by
    rw [Sqlite.Relation.value, if_neg fun h => by cases hkind.symm.trans h.1]
    rfl
  rw [Sqlite.Relation.holds, List.all_cons, List.all_nil, Bool.and_true, hread,
    (ht'.shaped hobj).affinity hobj.key, hcompared]
  by_cases hid : row.1 = rowid
  · have hvalues : row.2 = M.rowOf obj := by
      have hget := Dict.mem_entries_iff.1 hrow
      have hset : (t.put rowid (M.rowOf obj)).rows.get? row.1 = some (M.rowOf obj) := by
        rw [hid]
        exact Dict.get?_set_self _ _ _
      exact Option.some.inj (hget.symm.trans hset)
    have hnew : t.stored (M.rowOf obj) M.primaryKey = value := by
      rw [← hstored]
      exact (ht.shaped hobj).stored hobj.key
        fun e => R.conv.store (M.affinityOf e.1) (R.boundValue e.2)
    rw [hvalues, hnew, (Sqlite.Conversions.equal_self _).2 hnull, decide_eq_true hid]
  · have hmem : row ∈ t.rows.entries := by
      have hget := Dict.mem_entries_iff.1 hrow
      change (t.rows.set rowid _).get? row.1 = _ at hget
      rw [Dict.get?_set_of_ne _ hid] at hget
      exact Dict.mem_entries_iff.2 hget
    have hnot := List.any_eq_false.1 hother row hmem
    rw [ht.key] at hnot
    rw [Bool.eq_false_iff.2 hnot, decide_eq_false hid]

end OrmModel

end Sovereign
