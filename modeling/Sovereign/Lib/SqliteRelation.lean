import Sovereign.Lib.Sqlite

set_option autoImplicit true

/-! # Tables with a primary key of any type -/

namespace Sqlite

/-- How the rows of a table are told apart. -/
inductive KeyKind where
  /-- an `INTEGER PRIMARY KEY AUTOINCREMENT`, which is the rowid -/
  | rowid
  /-- a `PRIMARY KEY` of another type, where null may occur again and again -/
  | unique
deriving DecidableEq

/-- A table with a primary key among its columns. The rows hold the values of all columns, but
where the key is the rowid it is not read from there. -/
structure Relation (φ : Type) where
  columns : List Column
  key : List Char
  kind : KeyKind
  rows : Dict Int (List (Value φ))
  /-- No rowid that there ever was is larger. -/
  sequence : Int
  known : ∀ id ∈ rows.keys, id ≤ sequence
  positive : 0 ≤ sequence

/-- How values of one storage class are ordered. -/
structure Comparisons (φ : Type) extends Conversions φ where
  reals : φ → φ → Ordering
  mixed : Int → φ → Ordering

/-- The order of texts and blobs: by their first difference. -/
def lexicographic (number : α → Nat) : List α → List α → Ordering
  | [], [] => .eq
  | [], _ :: _ => .lt
  | _ :: _, [] => .gt
  | a :: l, b :: l' => (compare (number a) (number b)).then (lexicographic number l l')

/-- The place of the storage classes in the order of values. -/
def Value.rank : Value φ → Nat
  | null => 0
  | integer _ => 1
  | real _ => 1
  | text _ => 2
  | blob _ => 3

/-- The order of `ORDER BY` -/
def Comparisons.order (conv : Comparisons φ) : Value φ → Value φ → Ordering
  | .integer m, .integer n => compare m n
  | .integer m, .real y => conv.mixed m y
  | .real x, .integer n => (conv.mixed n x).swap
  | .real x, .real y => conv.reals x y
  | .text s, .text t => lexicographic Char.toNat s t
  | .blob b, .blob c => lexicographic UInt8.toNat b c
  | a, b => compare a.rank b.rank

/-- Whether a row may come before another, by the values of one column. -/
def Comparisons.before (conv : Comparisons φ) (descending : Bool) (a b : Value φ) : Bool :=
  if descending then conv.order a b != .lt else conv.order a b != .gt

namespace Relation

theorem no_rows_known : ∀ id ∈ (∅ : Dict Int (List (Value φ))).keys, id ≤ 0 :=
  fun _ h => absurd h List.not_mem_nil

theorem no_rows_positive : (0 : Int) ≤ 0 := Int.le_refl 0

/-- `CREATE TABLE` -/
def create (columns : List Column) (key : List Char) (kind : KeyKind) :
    Except Error (Relation φ) :=
  if (columns.map fun c => fold c.name).Nodup then
    .ok ⟨columns, key, kind, ∅, 0, no_rows_known, no_rows_positive⟩
  else .error .duplicateColumn

variable (t : Relation φ)

def names : List (List Char) := t.columns.map Column.name

def has (name : List Char) : Bool := t.names.any fun n => decide (fold n = fold name)

def affinity (name : List Char) : Affinity :=
  ((t.columns.find? fun c => decide (fold c.name = fold name)).map Column.affinity).getD .blob

/-- What is stored in a column. -/
def stored (values : List (Value φ)) (name : List Char) : Value φ :=
  (named (t.names.zip values) name).getD .null

/-- The value of a column in a row. -/
def value (row : Int × List (Value φ)) (name : List Char) : Value φ :=
  if t.kind = .rowid ∧ fold name = fold t.key then .integer row.1 else t.stored row.2 name

/-- A row as `SELECT *` gives it. -/
def cells (row : Int × List (Value φ)) : List (List Char × Value φ) :=
  t.columns.map fun c => (c.name, t.value row c.name)

/-- The rowid for a row that comes without one. Without `AUTOINCREMENT`, those of deleted rows are
used again. -/
def next : Int :=
  match t.kind with
  | .rowid => t.sequence + 1
  | .unique => t.rows.keys.max?.elim 1 (· + 1)

def nextRowid : Except Error Int := if t.next ≤ maxRowid then .ok t.next else .error .full

variable (conv : Conversions φ)

/-- The values of a row after those that are given have been assigned. -/
def assign (given : List (List Char × Value φ)) (values : List (Value φ)) : List (Value φ) :=
  t.columns.zipWith (fun c v => ((named given c.name).map (conv.store c.affinity)).getD v) values

/-- The values of a new row. -/
def newRow (given : List (List Char × Value φ)) : List (Value φ) :=
  t.assign conv given (t.columns.map fun _ => .null)

def put (rowid : Int) (values : List (Value φ)) : Relation φ :=
  { t with
    rows := t.rows.set rowid values
    sequence := max t.sequence rowid
    known := fun id h => by
      rcases Dict.mem_keys_set.1 h with rfl | h
      · exact Int.le_max_right _ _
      · exact Int.le_trans (t.known id h) (Int.le_max_left _ _)
    positive := Int.le_trans t.positive (Int.le_max_left _ _) }

/-- The rowid that the key of a new row asks for. -/
def aliased (key : Value φ) : Except Error Int :=
  match key with
  | .null => t.nextRowid
  | .integer id => if t.rows.contains id then .error .constraint else .ok id
  | _ => .error .mismatch

variable [DecidableEq φ]

/-- Another row has this key. -/
def taken (key : Value φ) : Bool :=
  t.rows.entries.any fun row => conv.equal (t.stored row.2 t.key) key

/-- The rowid of a new row with this key. -/
def rowidFor (key : Value φ) : Except Error Int :=
  match t.kind with
  | .rowid => t.aliased key
  | .unique => if t.taken conv key then .error .constraint else t.nextRowid

/-- `INSERT`; the result is the rowid. -/
def insert (given : List (List Char × Value φ)) : Except Error (Relation φ × Int) :=
  if given.all fun e => t.has e.1 then do
    let rowid ← t.rowidFor conv (t.stored (t.newRow conv given) t.key)
    return (t.put rowid (t.newRow conv given), rowid)
  else .error .noColumn

/-- A `WHERE` that asks for the values of some columns. -/
def holds (cond : List (List Char × Value φ)) (row : Int × List (Value φ)) : Bool :=
  cond.all fun e => conv.equal (t.value row e.1) (conv.compared (t.affinity e.1) e.2)

/-- `UPDATE` of columns other than the key; the result is the number of rows. -/
def update (given cond : List (List Char × Value φ)) : Except Error (Relation φ × Nat) :=
  if (given ++ cond).all fun e => t.has e.1 then
    .ok ({ t with
      rows := t.rows.mapEntries fun id values =>
        if t.holds conv cond (id, values) then t.assign conv given values else values
      known := fun id h => t.known id (by rwa [Dict.keys_mapEntries] at h) },
      t.rows.entries.countP (t.holds conv cond))
  else .error .noColumn

/-- `DELETE`; the result is the number of rows. -/
def delete (cond : List (List Char × Value φ)) : Except Error (Relation φ × Nat) :=
  if cond.all fun e => t.has e.1 then
    .ok ({ t with
      rows := t.rows.filterEntries fun id values => !t.holds conv cond (id, values)
      known := fun id h => t.known id (Dict.keys_filterEntries _ _ id h) },
      t.rows.entries.countP (t.holds conv cond))
  else .error .noColumn

/-- The rows in the order of their rowids, as a scan comes to them. -/
def scan : List (Int × List (Value φ)) := t.rows.entries.mergeSort fun a b => decide (a.1 ≤ b.1)

/-- `ORDER BY`, where an order is a column and whether it is descending. -/
def sorted (conv : Comparisons φ) (order : Option (List Char × Bool))
    (rows : List (Int × List (Value φ))) : List (Int × List (Value φ)) :=
  match order with
  | none => rows
  | some (name, descending) =>
    rows.mergeSort fun a b => conv.before descending (t.value a name) (t.value b name)

/-- `SELECT *` -/
def select (conv : Comparisons φ) (cond : List (List Char × Value φ))
    (order : Option (List Char × Bool)) (limit : Option Int) :
    Except Error (List (List (List Char × Value φ))) :=
  if (cond.all fun e => t.has e.1) && (order.all fun o => t.has o.1) then
    .ok ((Table.limited limit
      (t.sorted conv order (t.scan.filter (t.holds conv.toConversions cond)))).map t.cells)
  else .error .noColumn

end Relation

/-- Equal keys are not null. -/
theorem Conversions.equal_null [DecidableEq φ] (conv : Conversions φ) (v : Value φ) :
    conv.equal .null v = false := by
  cases v with
  | _ => rfl

theorem Conversions.equal_self [DecidableEq φ] (conv : Conversions φ) {v : Value φ} :
    conv.equal v v = true ↔ v ≠ .null := by
  cases v with
  | null => exact ⟨fun h => absurd h Bool.false_ne_true, fun h => absurd rfl h⟩
  | integer n => exact ⟨fun _ h => (by cases h), fun _ => decide_eq_true rfl⟩
  | real x => exact ⟨fun _ h => (by cases h), fun _ => decide_eq_true rfl⟩
  | text s => exact ⟨fun _ h => (by cases h), fun _ => decide_eq_true rfl⟩
  | blob b => exact ⟨fun _ h => (by cases h), fun _ => decide_eq_true rfl⟩

namespace Relation

section Columns

variable {t : Relation φ} {conv : Conversions φ} {slots : List α} {name : α → List Char}
  {affinityOf : α → Affinity}

/-- The columns of the table are those of the slots. -/
structure Shaped (t : Relation φ) (slots : List α) (name : α → List Char)
    (affinityOf : α → Affinity) : Prop where
  columns : t.columns = slots.map fun s => ⟨name s, affinityOf s⟩
  nodup : (slots.map fun s => fold (name s)).Nodup

theorem named_map {slots : List α} (hnodup : (slots.map fun s => fold (name s)).Nodup)
    (hs : s ∈ slots) (g : α → Value φ) :
    named (slots.map fun s => (name s, g s)) (name s) = some (g s) := by
  have hfind : slots.find? (fun s' => decide (fold (name s') = fold (name s))) = some s :=
    Dict.find_key_nodup hnodup hs
  rw [named, List.find?_map, Option.map_map]
  exact congrArg (Option.map g) hfind

theorem named_absent {slots : List α} (hs : ∀ s' ∈ slots, fold (name s') ≠ fold (name s))
    (g : α → Value φ) : named (slots.map fun s => (name s, g s)) (name s) = none := by
  rw [named, List.find?_eq_none.2]
  · rfl
  · intro e he
    obtain ⟨s', hs', rfl⟩ := List.mem_map.1 he
    rw [decide_eq_true_iff]
    exact hs s' hs'

theorem Shaped.has (h : t.Shaped slots name affinityOf) (hs : s ∈ slots) :
    t.has (name s) = true := by
  rw [Relation.has, names, h.columns, List.map_map, List.any_map, List.any_eq_true]
  exact ⟨s, hs, decide_eq_true rfl⟩

theorem Shaped.affinity (h : t.Shaped slots name affinityOf) (hs : s ∈ slots) :
    t.affinity (name s) = affinityOf s := by
  rw [Relation.affinity, h.columns, List.find?_map, Option.map_map]
  have hfind : slots.find? (fun s' => decide (fold (name s') = fold (name s))) = some s :=
    Dict.find_key_nodup h.nodup hs
  exact congrArg (fun o => (Option.map affinityOf o).getD .blob) hfind

theorem Shaped.stored (h : t.Shaped slots name affinityOf) (hs : s ∈ slots) (g : α → Value φ) :
    t.stored (slots.map g) (name s) = g s := by
  have hzip : t.names.zip (slots.map g) = slots.map fun s => (name s, g s) := by
    rw [names, h.columns, List.map_map, List.zip_map']
    rfl
  rw [Relation.stored, hzip, named_map h.nodup hs, Option.getD_some]

theorem Shaped.value (h : t.Shaped slots name affinityOf) (hs : s ∈ slots) (g : α → Value φ)
    (id : Int) :
    t.value (id, slots.map g) (name s) =
      if t.kind = .rowid ∧ fold (name s) = fold t.key then .integer id else g s := by
  rw [Relation.value, h.stored hs]

theorem Shaped.cells (h : t.Shaped slots name affinityOf) (row : Int × List (Value φ)) :
    t.cells row = slots.map fun s => (name s, t.value row (name s)) := by
  rw [Relation.cells, h.columns, List.map_map]
  rfl

/-- Assigning some of the columns keeps the others. -/
theorem Shaped.assign (h : t.Shaped slots name affinityOf) (conv : Conversions φ) (p : α → Bool)
    (g old : α → Value φ) :
    t.assign conv ((slots.filter p).map fun s => (name s, g s)) (slots.map old) =
      slots.map fun s => if p s then conv.store (affinityOf s) (g s) else old s := by
  rw [Relation.assign, h.columns, List.zipWith_map, List.zipWith_self]
  refine List.map_congr_left fun s hs => ?_
  have hsub : (List.map (fun s => fold (name s)) (slots.filter p)).Nodup :=
    h.nodup.sublist (List.filter_sublist.map _)
  by_cases hp : p s = true
  · rw [if_pos hp, named_map hsub (List.mem_filter.2 ⟨hs, hp⟩)]
    rfl
  · rw [if_neg hp, named_absent]
    · rfl
    · intro s' hs' heq
      have hmem := (List.mem_filter.1 hs').1
      rw [List.inj_on_of_nodup_map h.nodup hmem hs heq] at hs'
      exact hp (List.mem_filter.1 hs').2

/-- The columns that are left out of an `INSERT` are null. -/
theorem Shaped.newRow (h : t.Shaped slots name affinityOf) (p : α → Bool) (g : α → Value φ)
    (hp : ∀ s ∈ slots, p s = false → g s = .null) :
    t.newRow conv ((slots.filter p).map fun s => (name s, g s)) =
      slots.map fun s => conv.store (affinityOf s) (g s) := by
  have hnulls : (t.columns.map fun _ => (.null : Value φ)) = slots.map fun _ => .null := by
    rw [h.columns, List.map_map]
    rfl
  rw [Relation.newRow, hnulls, h.assign]
  refine List.map_congr_left fun s hs => ?_
  split
  · rfl
  · next hps =>
    rw [hp s hs (Bool.eq_false_iff.2 hps)]
    cases affinityOf s with
    | _ => rfl

end Columns

section Statements

variable {t : Relation φ}

theorem next_fresh (t : Relation φ) : t.rows.contains t.next = false := by
  rw [Bool.eq_false_iff]
  intro hc
  have hmem := Dict.mem_keys.2 hc
  rw [next] at hmem
  split at hmem
  · have hle := t.known _ hmem
    exact Int.not_le.2 (Int.lt_succ t.sequence) hle
  · cases hmax : t.rows.keys.max? with
    | none =>
      rw [List.max?_eq_none_iff.1 hmax] at hmem
      cases hmem
    | some m =>
      rw [hmax] at hmem
      have hle := (List.max?_eq_some_iff.1 hmax).2 _ hmem
      exact Int.not_le.2 (Int.lt_succ m) hle

theorem nextRowid_ok : t.nextRowid = .ok rowid ↔ t.next ≤ maxRowid ∧ rowid = t.next := by
  rw [nextRowid]
  split
  · next hle => exact ⟨fun h => ⟨hle, (Except.ok.inj h).symm⟩, fun h => congrArg _ h.2.symm⟩
  · next hle => exact ⟨fun h => (by cases h), fun h => absurd h.1 hle⟩

theorem nextRowid_fresh (h : t.nextRowid = .ok rowid) : t.rows.contains rowid = false := by
  rw [(nextRowid_ok.1 h).2]
  exact t.next_fresh

/-- A condition that one row meets finds this row. -/
theorem scan_filter {p : Int × List (Value φ) → Bool} {rowid : Int}
    (h : ∀ row ∈ t.rows.entries, p row = decide (row.1 = rowid)) :
    t.scan.filter p = ((t.rows.get? rowid).map fun values => (rowid, values)).toList := by
  have hperm : (t.scan.filter p).Perm (t.rows.entries.filter p) :=
    (List.mergeSort_perm _ _).filter p
  have hfilter : t.rows.entries.filter p =
      ((t.rows.get? rowid).map fun values => (rowid, values)).toList := by
    rw [← Dict.filter_key]
    exact List.filter_congr fun row hrow => h row hrow
  rw [hfilter] at hperm
  cases hget : t.rows.get? rowid with
  | none =>
    rw [hget] at hperm
    exact hperm.eq_nil
  | some values =>
    rw [hget] at hperm
    exact List.perm_singleton.1 hperm

variable [DecidableEq φ] {conv : Conversions φ}

theorem rowidFor_fresh {key : Value φ} (h : t.rowidFor conv key = .ok rowid) :
    t.rows.contains rowid = false := by
  rw [rowidFor] at h
  split at h
  · cases key with
    | null => exact nextRowid_fresh h
    | integer n =>
      rw [aliased] at h
      split at h
      · cases h
      · next hfree =>
        cases h
        exact Bool.eq_false_iff.2 hfree
    | _ => cases h
  · split at h
    · cases h
    · exact nextRowid_fresh h

theorem insert_eq_ok {given : List (List Char × Value φ)} :
    t.insert conv given = .ok (t', rowid) ↔
      (∀ e ∈ given, t.has e.1 = true) ∧
      t.rowidFor conv (t.stored (t.newRow conv given) t.key) = .ok rowid ∧
      t' = t.put rowid (t.newRow conv given) := by
  rw [insert]
  split
  · next hgiven =>
    rw [List.all_eq_true] at hgiven
    cases hrowid : t.rowidFor conv (t.stored (t.newRow conv given) t.key) with
    | error e => exact ⟨fun h => (by cases h), fun h => (by cases h.2.1)⟩
    | ok id =>
      constructor
      · intro h
        cases h
        exact ⟨hgiven, rfl, rfl⟩
      · intro h
        obtain ⟨_, hid, rfl⟩ := h
        cases hid
        rfl
  · next hgiven =>
    refine ⟨fun h => (by cases h), fun h => ?_⟩
    exact absurd (List.all_eq_true.2 h.1) hgiven

theorem select_single {conv : Comparisons φ} {rowid : Int} {cond : List (List Char × Value φ)}
    (hcond : ∀ e ∈ cond, t.has e.1 = true)
    (h : ∀ row ∈ t.rows.entries, t.holds conv.toConversions cond row = decide (row.1 = rowid))
    (hget : t.rows.get? rowid = some values) :
    t.select conv cond none (some 1) = .ok [t.cells (rowid, values)] := by
  rw [select, List.all_eq_true.2 hcond, scan_filter h, hget]
  rfl

/-- An `UPDATE` whose condition one row meets assigns to this row. -/
theorem update_single {rowid : Int} {given cond : List (List Char × Value φ)}
    (hnames : ∀ e ∈ given ++ cond, t.has e.1 = true)
    (h : ∀ row ∈ t.rows.entries, t.holds conv cond row = decide (row.1 = rowid))
    (hget : t.rows.get? rowid = some values) :
    ∃ t', t.update conv given cond = .ok (t', 1) ∧
      t'.rows.entries = t.rows.entries.map fun row =>
        if row.1 = rowid then (row.1, t.assign conv given row.2) else row := by
  have hcount : t.rows.entries.countP (t.holds conv cond) = 1 := by
    have hfilter : t.rows.entries.filter (t.holds conv cond) =
        ((t.rows.get? rowid).map fun values => (rowid, values)).toList := by
      rw [← Dict.filter_key]
      exact List.filter_congr h
    rw [List.countP_eq_length_filter, hfilter, hget]
    rfl
  rw [update, if_pos (List.all_eq_true.2 hnames), hcount]
  refine ⟨_, rfl, List.map_congr_left fun row hrow => ?_⟩
  change (row.1, if t.holds conv cond row then t.assign conv given row.2 else row.2) = _
  rw [h row hrow]
  by_cases hid : row.1 = rowid
  · rw [if_pos hid, if_pos (decide_eq_true hid)]
  · rw [if_neg hid, if_neg (by simpa using hid)]

end Statements

end Relation

end Sqlite
