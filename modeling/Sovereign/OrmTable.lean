import Sovereign.OrmCodec

namespace Sovereign
set_option autoImplicit true

/-- A dataclass with `table_name` and `primary_key`, whose key is one of its fields. -/
structure OrmModel (R : OrmRuntime κ φ) where
  cls : κ
  tableName : Str
  primaryKey : Str
  key_mem : primaryKey ∈ (R.fields cls).map DataField.name

/-- The fields of an object. -/
abbrev ObjectFields (κ φ : Type) := List (Str × DataValue κ φ)

/-- The table of the model, once there is one. -/
abbrev TableState (φ : Type) := Option (Sqlite.Relation φ)

/-- An exception of the interpreter in a method of the ORM. -/
def raising (x : Except PyError α) : Act σ α := Act.lift (x.mapError .builtin)

/-- A statement about the table: it is prepared, then its parameters are bound. -/
def runStatement (params : Except PyError π)
    (statement : π → Sqlite.Relation φ → Except Sqlite.Error (Sqlite.Relation φ × α)) :
    Act (TableState φ) α := fun db =>
  match db with
  | none => (.error (.builtin .operationalError), db)
  | some t =>
    match params with
    | .error e => (.error (.builtin e), db)
    | .ok params =>
      match statement params t with
      | .error e => (.error (sqliteError e), db)
      | .ok (t', a) => (.ok a, some t')

/-- The values under their names, as they are bound to the parameters of a statement. -/
def OrmRuntime.bindParams (R : OrmRuntime κ φ) (params : ObjectFields κ φ) :
    Except PyError (List (Str × Sqlite.Value φ)) :=
  params.mapM fun e => do
    let v ← R.encode e.2
    let b ← R.bind v
    return (e.1, b)

/-- The values for the columns of an `INSERT` or an `UPDATE`, which has no SQL without columns. -/
def OrmRuntime.bindColumns (R : OrmRuntime κ φ) (fields : ObjectFields κ φ) :
    Except PyError (List (Str × Sqlite.Value φ)) :=
  if fields.isEmpty then .error .operationalError else R.bindParams fields

def OrmRuntime.bindLimit (limit : Option Int) : Except PyError (Option Int) :=
  if ∀ n ∈ limit, Fits64 n then .ok limit else .error .overflowError

/-- An application with these dataclasses, as `Interpreter.ofFields` has them. A text is compared
with the digits of an integer. -/
def OrmRuntime.ofFields (fields : κ → List (DataField κ ℚ)) (className : κ → Str)
    (loads : DataValue κ ℚ → Except PyError (DataValue κ ℚ))
    (hnames : ∀ cls, ((fields cls).map DataField.name).Nodup) : OrmRuntime κ ℚ where
  toInterpreter := Interpreter.ofFields fields className
  conv.convert
    | .text, .integer n => .text (decimal n)
    | _, v => v
  conv.equals := fun n x => decide ((n : ℚ) = x)
  conv.reals := fun x y => if x < y then .lt else if x = y then .eq else .gt
  conv.mixed := fun n y => if (n : ℚ) < y then .lt else if (n : ℚ) = y then .eq else .gt
  isNaN := fun _ => false
  nonzero := fun x => x ≠ 0
  floatText := fun x => decimal x.num
  loads
  isAlnum := Char.isAlphanum
  reserved := fun name => name = "order".toList
  distinctNames := hnames _
  keepsBracket := fun {_ affinity _} _ => by
    cases affinity with
    | _ => rfl

namespace OrmModel

variable {R : OrmRuntime κ φ} (M : OrmModel R)

/-- The columns in `CREATE TABLE`. -/
def columns : Except PyError (List Sqlite.Column) :=
  (R.fields M.cls).mapM fun f => f.hint.sqliteType.map fun a => ⟨f.name, a⟩

/-- An `INTEGER PRIMARY KEY AUTOINCREMENT`, or another `PRIMARY KEY`. -/
def keyKind (columns : List Sqlite.Column) : Sqlite.KeyKind :=
  if ⟨M.primaryKey, .integer⟩ ∈ columns then .rowid else .unique

/-- `create_table`: `CREATE TABLE IF NOT EXISTS`. -/
def createTable : Act (TableState φ) Unit := fun db =>
  match M.columns with
  | .error e => (.error (.builtin e), db)
  | .ok columns =>
    if (M.tableName :: columns.map Sqlite.Column.name).any R.reserved then
      (.error (.builtin .operationalError), db)
    else
      match db with
      | some _ => (.ok (), db)
      | none =>
        match Sqlite.Relation.create columns M.primaryKey (M.keyKind columns) with
        | .error e => (.error (sqliteError e), db)
        | .ok t => (.ok (), some t)

/-- `getattr(obj, pk)` -/
def keyOf (obj : ObjectFields κ φ) : DataValue κ φ := (obj.lookup M.primaryKey).getD .none

/-- `setattr(obj, pk, value)` -/
def setKeyOf (obj : ObjectFields κ φ) (value : DataValue κ φ) : ObjectFields κ φ :=
  obj.map fun e => if e.1 = M.primaryKey then (e.1, value) else e

variable [DecidableEq φ]

/-- `insert` -/
def insert (obj : ObjectFields κ φ) : Act (TableState φ) (ObjectFields κ φ) := do
  M.createTable
  let values ← raising (R.asdictFields obj)
  let fields := values.filter fun e => !(decide (e.1 = M.primaryKey) && e.2.isNone)
  let rowid ← runStatement (R.bindColumns fields) fun given t =>
    t.insert R.conv.toConversions given
  return if (M.keyOf values).isNone then M.setKeyOf obj (.int rowid) else obj

/-- The columns that `save` assigns to. -/
def assignments (obj : ObjectFields κ φ) : Except PyError (ObjectFields κ φ) := do
  let values ← R.asdictFields obj
  return values.filter fun e => decide (e.1 ≠ M.primaryKey)

/-- `save`: the key is bound as it is. -/
def save (obj : ObjectFields κ φ) : Act (TableState φ) (ObjectFields κ φ) :=
  if (M.keyOf obj).isNone then M.insert obj
  else do
    M.createTable
    let fields ← raising (M.assignments obj)
    let params := do
      let given ← R.bindColumns fields
      let key ← R.bind (M.keyOf obj)
      return (given, key)
    let rowcount ← runStatement params fun params t =>
      t.update R.conv.toConversions params.1 [(M.primaryKey, params.2)]
    if rowcount = 0 then
      let _ ← M.insert obj
    return obj

/-- `delete`: the key is bound as it is. -/
def delete (obj : ObjectFields κ φ) : Act (TableState φ) Nat :=
  runStatement (R.bind (M.keyOf obj)) fun key t =>
    t.delete R.conv.toConversions [(M.primaryKey, key)]

/-- `hints.get(name, Any)` -/
def hint (name : Str) : TypeHint κ :=
  (((R.fields M.cls).find? fun f => decide (f.name = name)).map DataField.hint).getD .any

/-- `_decode(row[k], hints.get(k, Any))`, under the name of the column. -/
def decodeColumn (e : Str × Sqlite.Value φ) : Except PyError (DataValue κ φ × DataValue κ φ) :=
  (R.decode (.fetch e.2) (M.hint e.1)).map fun v => (.str e.1, v)

/-- The object that is made of a row. -/
def ofRow (row : List (Str × Sqlite.Value φ)) : Except PyError (DataValue κ φ) := do
  let data ← row.mapM M.decodeColumn
  R.construct M.cls data

/-- `_select` -/
def select_ (cond : ObjectFields κ φ) (limit : Option Int) (order : Option (Str × Bool)) :
    Act (TableState φ) (List (DataValue κ φ)) := do
  let params := do
    let given ← R.bindParams cond
    let limit ← OrmRuntime.bindLimit limit
    return (given, limit)
  let rows ← runStatement params fun params t => do
    let rows ← t.select R.conv params.1 order params.2
    return (t, rows)
  raising (rows.mapM M.ofRow)

/-- `get`: the query for the key, and its first object. -/
def get (key : DataValue κ φ) : Act (TableState φ) (Option (DataValue κ φ)) := do
  M.createTable
  let rows ← M.select_ [(M.primaryKey, key)] (some 1) none
  return rows.head?

end OrmModel

end Sovereign
