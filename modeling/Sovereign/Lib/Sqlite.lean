import Sovereign.Lib.Dict

set_option autoImplicit true

namespace Sqlite

/-- A value of one of the storage classes; `φ` is the type of the reals. -/
inductive Value (φ : Type) where
  | null
  | integer (n : Int)
  | real (x : φ)
  | text (s : List Char)
  | blob (b : List UInt8)
deriving DecidableEq

/-- The affinity of a column. -/
inductive Affinity where
  | integer
  | real
  | text
  | blob
deriving DecidableEq

/-- What depends on how numbers are written and compared: a value taken to another storage class,
and an integer compared with a real. -/
structure Conversions (φ : Type) where
  convert : Affinity → Value φ → Value φ
  equals : Int → φ → Bool

/-- Names are compared without regard to case. -/
def fold (name : List Char) : List Char := name.map Char.toLower

/-- The value that goes with a name. -/
def named (l : List (List Char × Value φ)) (name : List Char) : Option (Value φ) :=
  (l.find? fun e => decide (fold e.1 = fold name)).map Prod.snd

structure Column where
  name : List Char
  affinity : Affinity
deriving DecidableEq

/-- A table with an `INTEGER PRIMARY KEY AUTOINCREMENT`, which is its first column. The rows hold
the values of the other columns. -/
structure Table (φ : Type) where
  key : List Char
  columns : List Column
  rows : Dict Int (List (Value φ))
  /-- The entry in `sqlite_sequence`. -/
  sequence : Int
  known : ∀ id ∈ rows.keys, id ≤ sequence

inductive Error where
  | duplicateColumn
  | noColumn
  | constraint
  | mismatch
  | full
deriving DecidableEq

/-- The largest rowid, `2^63 - 1`. -/
def maxRowid : Int := 9223372036854775807

section Values

variable (conv : Conversions φ)

/-- What a column stores for a value. -/
def Conversions.store : Affinity → Value φ → Value φ
  | _, .null => .null
  | _, .blob b => .blob b
  | .blob, v => v
  | .integer, .integer n => .integer n
  | .real, .real x => .real x
  | .text, .text s => .text s
  | a, v => conv.convert a v

/-- What a value becomes that a column is compared with. -/
def Conversions.compared : Affinity → Value φ → Value φ
  | .text, .integer n => conv.convert .text (.integer n)
  | .text, .real x => conv.convert .text (.real x)
  | .integer, .text s => conv.convert .integer (.text s)
  | .real, .text s => conv.convert .integer (.text s)
  | _, v => v

variable [DecidableEq φ]

/-- `=`, where null is not true. -/
def Conversions.equal : Value φ → Value φ → Bool
  | .integer m, .integer n => decide (m = n)
  | .integer m, .real y => conv.equals m y
  | .real x, .integer n => conv.equals n x
  | .real x, .real y => decide (x = y)
  | .text s, .text t => decide (s = t)
  | .blob b, .blob c => decide (b = c)
  | _, _ => false

end Values

namespace Table

/-- `CREATE TABLE` -/
def create (key : List Char) (columns : List Column) : Except Error (Table φ) :=
  if (fold key :: columns.map fun c => fold c.name).Nodup then
    .ok ⟨key, columns, ∅, 0, fun _ h => absurd h List.not_mem_nil⟩
  else .error .duplicateColumn

variable (t : Table φ)

def names : List (List Char) := t.key :: t.columns.map Column.name

/-- The table has a column of this name. -/
def has (name : List Char) : Bool := t.names.any fun n => decide (fold n = fold name)

/-- A row as `SELECT *` gives it. -/
def cells (rowid : Int) (values : List (Value φ)) : List (List Char × Value φ) :=
  t.names.zip (.integer rowid :: values)

def affinity (name : List Char) : Affinity :=
  (((⟨t.key, .integer⟩ :: t.columns).find? fun c => decide (fold c.name = fold name)).map
    Column.affinity).getD .blob

/-- The rowid for a row that comes without one. It is larger than every rowid that there ever
was. -/
def nextRowid : Except Error Int :=
  if t.sequence = maxRowid then .error .full
  else .ok (max (t.sequence + 1) ((t.rows.keys.max?).elim 1 (· + 1)))

variable (conv : Conversions φ)

def rowidFor : Option (Value φ) → Except Error Int
  | none => t.nextRowid
  | some v =>
    match conv.store .integer v with
    | .null => t.nextRowid
    | .integer id => if t.rows.contains id then .error .constraint else .ok id
    | _ => .error .mismatch

/-- The values of a row after those that are given have been assigned. -/
def assign (given : List (List Char × Value φ)) (values : List (Value φ)) : List (Value φ) :=
  t.columns.zipWith (fun c v => ((named given c.name).map (conv.store c.affinity)).getD v) values

/-- `INSERT`; the result is the rowid. -/
def insert (given : List (List Char × Value φ)) : Except Error (Table φ × Int) :=
  if given.all fun e => t.has e.1 then
    match t.rowidFor conv (named given t.key) with
    | .error e => .error e
    | .ok rowid =>
      let values := t.assign conv given (t.columns.map fun _ => .null)
      .ok ({ t with
        rows := t.rows.set rowid values
        sequence := max t.sequence rowid
        known := fun id h => by
          rcases Dict.mem_keys_set.1 h with rfl | h
          · exact Int.le_max_right _ _
          · exact Int.le_trans (t.known id h) (Int.le_max_left _ _) }, rowid)
  else .error .noColumn

theorem create_ok {key : List Char} {columns : List Column} {t : Table φ}
    (h : create key columns = .ok t) :
    (fold key :: columns.map fun c => fold c.name).Nodup ∧ t.key = key ∧ t.columns = columns ∧
      t.sequence = 0 ∧ t.rows = ∅ := by
  rw [create] at h
  split at h
  · next hnodup =>
    cases h
    exact ⟨hnodup, rfl, rfl, rfl, rfl⟩
  · cases h

theorem has_key (t : Table φ) : t.has t.key = true :=
  List.any_eq_true.2 ⟨t.key, List.mem_cons_self, decide_eq_true rfl⟩

theorem has_column {t : Table φ} (h : c ∈ t.columns) : t.has c.name = true :=
  List.any_eq_true.2 ⟨c.name, List.mem_cons_of_mem _ (List.mem_map_of_mem h), decide_eq_true rfl⟩

theorem affinity_key (t : Table φ) : t.affinity t.key = .integer := by
  simp [affinity]

theorem named_key (t : Table φ) (rowid : Int) (values : List (Value φ)) :
    named (t.cells rowid values) t.key = some (.integer rowid) := by
  simp [named, cells, names]

theorem has_conditions (t : Table φ) (v : Value φ) :
    ([(t.key, v)].all fun e => t.has e.1) = true := by
  rw [List.all_cons, List.all_nil, Bool.and_true]
  exact t.has_key

/-- A rowid that is made up was never in use. -/
theorem nextRowid_fresh {t : Table φ} {rowid : Int} (h : t.nextRowid = .ok rowid) :
    t.sequence < rowid := by
  rw [nextRowid] at h
  split at h
  · cases h
  · cases h
    exact Int.lt_of_lt_of_le (Int.lt_succ _) (Int.le_max_left _ _)

theorem not_contains_of_lt {t : Table φ} {rowid : Int} (h : t.sequence < rowid) :
    t.rows.contains rowid = false := by
  rw [Bool.eq_false_iff]
  intro hc
  exact Int.not_lt.2 (t.known rowid (Dict.mem_keys.2 hc)) h

/-- An `INSERT` adds the row of its rowid. -/
theorem insert_ok {t : Table φ} {conv : Conversions φ} {given : List (List Char × Value φ)}
    (hgiven : ∀ e ∈ given, t.has e.1 = true)
    (hrowid : t.rowidFor conv (named given t.key) = .ok rowid) :
    ∃ t', t.insert conv given = .ok (t', rowid) ∧ t'.key = t.key ∧ t'.columns = t.columns ∧
      t'.sequence = max t.sequence rowid ∧
      t'.rows = t.rows.set rowid (t.assign conv given (t.columns.map fun _ => .null)) := by
  rw [insert, if_pos (List.all_eq_true.2 hgiven), hrowid]
  exact ⟨_, rfl, rfl, rfl, rfl, rfl⟩

/-- An `INSERT` without a rowid for its row changes nothing. -/
theorem insert_error {t : Table φ} {conv : Conversions φ} {given : List (List Char × Value φ)}
    (hgiven : ∀ e ∈ given, t.has e.1 = true)
    (hrowid : t.rowidFor conv (named given t.key) = .error e) :
    t.insert conv given = .error e := by
  rw [insert, if_pos (List.all_eq_true.2 hgiven), hrowid]

variable [DecidableEq φ]

/-- A `WHERE` that asks for the values of some columns. -/
def holds (cond : List (List Char × Value φ)) (rowid : Int) (values : List (Value φ)) : Bool :=
  cond.all fun e =>
    ((named (t.cells rowid values) e.1).map fun v =>
      conv.equal v (conv.compared (t.affinity e.1) e.2)).getD false

/-- The number of rows for which a condition holds. -/
def matching (cond : List (List Char × Value φ)) : Nat :=
  t.rows.entries.countP fun row => t.holds conv cond row.1 row.2

/-- `UPDATE` of columns other than the key; the result is the number of rows. -/
def update (given cond : List (List Char × Value φ)) : Except Error (Table φ × Nat) :=
  if (given ++ cond).all fun e => t.has e.1 then
    .ok ({ t with
      rows := t.rows.mapEntries fun rowid values =>
        if t.holds conv cond rowid values then t.assign conv given values else values
      known := fun id h => t.known id (by rwa [Dict.keys_mapEntries] at h) }, t.matching conv cond)
  else .error .noColumn

/-- `DELETE`; the result is the number of rows. -/
def delete (cond : List (List Char × Value φ)) : Except Error (Table φ × Nat) :=
  if cond.all fun e => t.has e.1 then
    .ok ({ t with
      rows := t.rows.filterEntries fun rowid values => !t.holds conv cond rowid values
      known := fun id h => t.known id (Dict.keys_filterEntries _ _ id h) }, t.matching conv cond)
  else .error .noColumn

/-- `LIMIT`, where a negative bound is none. -/
def limited (limit : Option Int) (l : List α) : List α :=
  match limit with
  | none => l
  | some n => if n < 0 then l else l.take n.toNat

theorem limited_nil (limit : Option Int) : limited limit ([] : List α) = [] := by
  cases limit with
  | none => rfl
  | some n => simp only [limited, List.take_nil, ite_self]

/-- `SELECT *` -/
def select (cond : List (List Char × Value φ)) (limit : Option Int) :
    Except Error (List (List (List Char × Value φ))) :=
  if cond.all fun e => t.has e.1 then
    .ok (limited limit ((t.rows.entries.filter fun row => t.holds conv cond row.1 row.2).map
      fun row => t.cells row.1 row.2))
  else .error .noColumn

section Keys

variable {t : Table φ} {conv : Conversions φ}

theorem holds_key (t : Table φ) (id rowid : Int) (values : List (Value φ)) :
    t.holds conv [(t.key, .integer id)] rowid values = decide (rowid = id) := by
  rw [holds, List.all_cons, List.all_nil, Bool.and_true, named_key, affinity_key]
  rfl

theorem not_holds_null (t : Table φ) (rowid : Int) (values : List (Value φ)) :
    t.holds conv [(t.key, .null)] rowid values = false := by
  rw [holds, List.all_cons, List.all_nil, Bool.and_true, named_key, affinity_key]
  rfl

theorem matching_key (t : Table φ) (conv : Conversions φ) (id : Int) :
    t.matching conv [(t.key, .integer id)] = if t.rows.contains id then 1 else 0 := by
  have hfilter : t.rows.entries.filter
      (fun row => t.holds conv [(t.key, .integer id)] row.1 row.2) =
        ((t.rows.get? id).map fun v => (id, v)).toList := by
    rw [← Dict.filter_key]
    exact List.filter_congr fun row _ => holds_key t id row.1 row.2
  rw [matching, List.countP_eq_length_filter, hfilter, Dict.contains]
  cases t.rows.get? id with
  | none => rfl
  | some v => rfl

theorem matching_null (t : Table φ) (conv : Conversions φ) :
    t.matching conv [(t.key, .null)] = 0 := by
  rw [matching, List.countP_eq_zero]
  intro row _
  rw [not_holds_null]
  exact Bool.false_ne_true

/-- An `UPDATE` of one key assigns to its row. -/
theorem update_key (t : Table φ) (conv : Conversions φ) {given : List (List Char × Value φ)}
    (hgiven : ∀ e ∈ given, t.has e.1 = true) (id : Int) :
    ∃ t', t.update conv given [(t.key, .integer id)] =
        .ok (t', if t.rows.contains id then 1 else 0) ∧
      t'.key = t.key ∧ t'.columns = t.columns ∧ t'.sequence = t.sequence ∧
      ∀ id', t'.rows.get? id' =
        if id' = id then (t.rows.get? id).map (t.assign conv given) else t.rows.get? id' := by
  have hall : ((given ++ [(t.key, Value.integer id)]).all fun e => t.has e.1) = true := by
    rw [List.all_append, t.has_conditions, Bool.and_true]
    exact List.all_eq_true.2 hgiven
  rw [update, if_pos hall, matching_key]
  refine ⟨_, rfl, rfl, rfl, rfl, fun id' => ?_⟩
  rw [Dict.get?_mapEntries]
  simp only [holds_key, decide_eq_true_eq]
  by_cases hid : id' = id
  · simp only [hid, ↓reduceIte]
  · simp only [hid, ↓reduceIte, Option.map_id']

/-- A `DELETE` of one key removes its row. -/
theorem delete_key (t : Table φ) (conv : Conversions φ) (id : Int) :
    ∃ t', t.delete conv [(t.key, .integer id)] = .ok (t', if t.rows.contains id then 1 else 0) ∧
      t'.key = t.key ∧ t'.columns = t.columns ∧ t'.sequence = t.sequence ∧
      ∀ id', t'.rows.get? id' = if id' = id then none else t.rows.get? id' := by
  rw [delete, if_pos (t.has_conditions _), matching_key]
  refine ⟨_, rfl, rfl, rfl, rfl, fun id' => ?_⟩
  rw [Dict.get?_filterEntries]
  simp only [holds_key]
  by_cases hid : id' = id
  · rw [if_pos hid, decide_eq_true hid]
    exact Option.filter_eq_none_iff.2 fun _ _ => Bool.false_ne_true
  · rw [if_neg hid, decide_eq_false hid]
    cases t.rows.get? id' with
    | none => rfl
    | some v => rfl

/-- No key is null. -/
theorem delete_null (t : Table φ) (conv : Conversions φ) :
    ∃ t', t.delete conv [(t.key, .null)] = .ok (t', 0) ∧ t'.key = t.key ∧
      t'.columns = t.columns ∧ t'.sequence = t.sequence ∧
      ∀ id', t'.rows.get? id' = t.rows.get? id' := by
  rw [delete, if_pos (t.has_conditions _), matching_null]
  refine ⟨_, rfl, rfl, rfl, rfl, fun id' => ?_⟩
  rw [Dict.get?_filterEntries]
  simp only [not_holds_null]
  cases t.rows.get? id' with
  | none => rfl
  | some v => rfl

/-- At most one row has a given key. -/
theorem select_key (t : Table φ) (conv : Conversions φ) (id : Int) :
    t.select conv [(t.key, .integer id)] (some 1) =
      .ok ((t.rows.get? id).map (t.cells id)).toList := by
  have hfilter : t.rows.entries.filter
      (fun row => t.holds conv [(t.key, .integer id)] row.1 row.2) =
        ((t.rows.get? id).map fun v => (id, v)).toList := by
    rw [← Dict.filter_key]
    exact List.filter_congr fun row _ => holds_key t id row.1 row.2
  rw [select, if_pos (t.has_conditions _), hfilter]
  cases t.rows.get? id with
  | none => rfl
  | some v => rfl

theorem select_null (t : Table φ) (conv : Conversions φ) (limit : Option Int) :
    t.select conv [(t.key, .null)] limit = .ok [] := by
  have hfilter : t.rows.entries.filter
      (fun row => t.holds conv [(t.key, .null)] row.1 row.2) = [] := by
    rw [List.filter_eq_nil_iff]
    intro row _
    rw [not_holds_null]
    exact Bool.false_ne_true
  rw [select, if_pos (t.has_conditions _), hfilter, List.map_nil, limited_nil]

theorem select_all (t : Table φ) (conv : Conversions φ) :
    t.select conv [] none = .ok (t.rows.entries.map fun row => t.cells row.1 row.2) := by
  rw [select, if_pos List.all_nil]
  exact congrArg (fun l => Except.ok (List.map _ l)) (List.filter_eq_self.2 fun _ _ => rfl)

end Keys

end Table

end Sqlite
