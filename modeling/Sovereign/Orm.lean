import Sovereign.Router
import Sovereign.Lib.Sqlite

namespace Sovereign
set_option autoImplicit true

/-- The scalar types of a field. -/
inductive ScalarType where
  | int
  | float
  | bool
  | str
  | bytes
deriving DecidableEq

/-- A scalar type, or `Optional` of one. -/
structure FieldType where
  scalar : ScalarType
  optional : Bool := false
deriving DecidableEq

/-- A value of a field. A float other than NaN is a `φ`, whose equality is `==`. -/
inductive PyValue (φ : Type) where
  | none
  | int (n : Int)
  | float (x : φ)
  | bool (b : Bool)
  | str (s : Str)
  | bytes (b : Bytes)
deriving DecidableEq

/-- An integer that fits into 64 bits. -/
def Fits64 (n : Int) : Prop := -9223372036854775808 ≤ n ∧ n ≤ 9223372036854775807

instance : Decidable (Fits64 n) := inferInstanceAs (Decidable (_ ∧ _))

/-- A value of the type, where integers are within 64 bits. -/
def FieldType.Accepts (tp : FieldType) : PyValue φ → Prop
  | .none => tp.optional = true
  | .int n => tp.scalar = .int ∧ Fits64 n
  | .float _ => tp.scalar = .float
  | .bool _ => tp.scalar = .bool
  | .str _ => tp.scalar = .str
  | .bytes _ => tp.scalar = .bytes

structure ModelField (φ : Type) where
  name : Str
  type : FieldType
  default : Option (PyValue φ) := none

/-- A subclass of `Model`: its table and the fields that come after `id`. The names are plain SQL
identifiers. -/
structure Model (φ : Type) where
  tableName : Str
  fields : List (ModelField φ)
  nonempty : fields ≠ []

/-- An object of such a class. -/
structure Instance (φ : Type) where
  id : PyValue φ
  values : List (PyValue φ)
deriving DecidableEq

structure Database (φ : Type) where
  tables : Dict Str (Sqlite.Table φ)

/-- `_sqlite_type` -/
def sqliteType (tp : FieldType) : Sqlite.Affinity :=
  match tp.scalar with
  | .int | .bool => .integer
  | .float => .real
  | .bytes => .blob
  | .str => .text

/-- `_encode` -/
def encode : PyValue φ → PyValue φ
  | .bool b => .int (if b then 1 else 0)
  | value => value

/-- A value that is bound to a parameter of a statement. -/
def bindValue : PyValue φ → Except Exc (Sqlite.Value φ)
  | .none => .ok .null
  | .int n => if Fits64 n then .ok (.integer n) else .error (.builtin .overflowError)
  | .float x => .ok (.real x)
  | .bool b => .ok (.integer (if b then 1 else 0))
  | .str s => .ok (.text s)
  | .bytes b => .ok (.blob b)

/-- A value that is read from a row. -/
def fetchValue : Sqlite.Value φ → PyValue φ
  | .null => .none
  | .integer n => .int n
  | .real x => .float x
  | .text s => .str s
  | .blob b => .bytes b

/-- What the calls `bool(v)`, `int(v)` and `float(v)` make of a value of another type. -/
abbrev Cast (φ : Type) := ScalarType → PyValue φ → Except Exc (PyValue φ)

/-- `_decode`, for a column that is a field. -/
def decode (cast : Cast φ) (value : PyValue φ) (tp : FieldType) : Except Exc (PyValue φ) :=
  match tp.scalar, value with
  | _, .none => .ok .none
  | .bool, .int n => .ok (.bool (decide (n ≠ 0)))
  | .int, .int n => .ok (.int n)
  | .float, .float x => .ok (.float x)
  | .str, value => .ok value
  | .bytes, value => .ok value
  | scalar, value => cast scalar value

def idField : Str := "id".toList

namespace Model

variable (M : Model φ)

/-- `get_type_hints(model).get(name)` -/
def hint (name : Str) : Option FieldType :=
  if name = idField then some { scalar := .int, optional := true }
  else (M.fields.find? fun f => decide (f.name = name)).map ModelField.type

def fieldNames : List Str := M.fields.map ModelField.name

def columns : List Sqlite.Column := M.fields.map fun f => ⟨f.name, sqliteType f.type⟩

/-- `dataclasses.asdict(obj)` -/
def asdict (obj : Instance φ) : List (Str × PyValue φ) :=
  (idField, obj.id) :: M.fieldNames.zip obj.values

/-- The value that the constructor is given for a field. -/
def argument (data : List (Str × PyValue φ)) (f : ModelField φ) : Except Exc (PyValue φ) :=
  match (data.lookup f.name).or f.default with
  | some v => .ok v
  | none => .error (.builtin .typeError)

/-- `model(**data)` -/
def construct (data : List (Str × PyValue φ)) : Except Exc (Instance φ) :=
  if data.all fun e => decide (e.1 ∈ idField :: M.fieldNames) then do
    let values ← M.fields.mapM (argument data)
    return { id := (data.lookup idField).getD .none, values }
  else .error (.builtin .typeError)

end Model

/-- The exception for an error of SQLite. -/
def sqliteError : Sqlite.Error → Exc
  | .constraint | .mismatch => .builtin .integrityError
  | .duplicateColumn | .noColumn | .full => .builtin .operationalError

/-- The values under their names, as they are bound to the parameters of a statement. -/
def bindParams (params : List (Str × PyValue φ)) : Except Exc (List (Str × Sqlite.Value φ)) :=
  params.mapM fun e => do
    let v ← bindValue e.2
    return (e.1, v)

def bindLimit (limit : Option Int) : Except Exc (Option Int) :=
  if ∀ n ∈ limit, Fits64 n then .ok limit else .error (.builtin .overflowError)

/-- A statement about the table of a model: it is prepared, then its parameters are bound. -/
def execute (M : Model φ) (params : Except Exc π)
    (statement : π → Sqlite.Table φ → Except Sqlite.Error (Sqlite.Table φ × α)) :
    Act (Database φ) α := fun db =>
  match db.tables.get? (Sqlite.fold M.tableName) with
  | none => (.error (.builtin .operationalError), db)
  | some t =>
    match params with
    | .error e => (.error e, db)
    | .ok params =>
      match statement params t with
      | .error e => (.error (sqliteError e), db)
      | .ok (t', a) => (.ok a, ⟨db.tables.set (Sqlite.fold M.tableName) t'⟩)

namespace SQLiteORM

variable (conv : Sqlite.Conversions φ) (cast : Cast φ) (M : Model φ)

/-- `create_table`: `CREATE TABLE IF NOT EXISTS`. -/
def createTable : Act (Database φ) Unit := fun db =>
  match db.tables.get? (Sqlite.fold M.tableName) with
  | some _ => (.ok (), db)
  | none =>
    match Sqlite.Table.create idField M.columns with
    | .error e => (.error (sqliteError e), db)
    | .ok t => (.ok (), ⟨db.tables.set (Sqlite.fold M.tableName) t⟩)

variable [DecidableEq φ]

def insert (obj : Instance φ) : Act (Database φ) (Instance φ) := do
  createTable M
  let fields := (M.asdict obj).filter fun e => ¬ (e.1 = idField ∧ e.2 = .none)
  let params := bindParams (fields.map fun e => (e.1, encode e.2))
  let rowid ← execute M params fun given t => t.insert conv given
  return if obj.id = .none then { obj with id := .int rowid } else obj

def save (obj : Instance φ) : Act (Database φ) (Instance φ) := do
  if obj.id = .none then insert conv M obj
  else
    createTable M
    let fields := (M.asdict obj).filter fun e => e.1 ≠ idField
    let params := do
      let given ← bindParams (fields.map fun e => (e.1, encode e.2))
      let key ← bindValue obj.id
      return (given, key)
    let rowcount ← execute M params fun params t => t.update conv params.1 [(idField, params.2)]
    if rowcount = 0 then
      let _ ← insert conv M obj
    return obj

def delete (obj : Instance φ) : Act (Database φ) Nat :=
  execute M (bindValue obj.id) fun key t => t.delete conv [(idField, key)]

/-- `_decode(row[k], hints.get(k, Any))`, under the name of the column. -/
def decodeColumn (e : Str × Sqlite.Value φ) : Except Exc (Str × PyValue φ) :=
  match M.hint e.1 with
  | none => .ok (e.1, fetchValue e.2)
  | some tp => do
    let v ← decode cast (fetchValue e.2) tp
    return (e.1, v)

/-- The object that is made of a row. -/
def ofRow (row : List (Str × Sqlite.Value φ)) : Except Exc (Instance φ) := do
  let data ← row.mapM (decodeColumn cast M)
  M.construct data

/-- `_select`, without an order. -/
def select_ (cond : List (Str × PyValue φ)) (limit : Option Int) :
    Act (Database φ) (List (Instance φ)) := do
  let params := do
    let cond ← bindParams (cond.map fun e => (e.1, encode e.2))
    let limit ← bindLimit limit
    return (cond, limit)
  let rows ← execute M params fun params t => do
    let rows ← t.select conv params.1 params.2
    return (t, rows)
  fun db => (rows.mapM (ofRow cast M), db)

/-- `get`: the query for the key, and its first object. -/
def get (key : PyValue φ) : Act (Database φ) (Option (Instance φ)) := do
  createTable M
  let rows ← select_ conv cast M [(idField, key)] (some 1)
  return rows.head?

/-- `query(model).all()` -/
def all : Act (Database φ) (List (Instance φ)) := do
  createTable M
  select_ conv cast M [] none

end SQLiteORM

/-- What a column of its type holds for a value. -/
def cell : PyValue φ → Sqlite.Value φ
  | .none => .null
  | .int n => .integer n
  | .float x => .real x
  | .bool b => .integer (if b then 1 else 0)
  | .str s => .text s
  | .bytes b => .blob b

section Codec

variable {tp : FieldType} {v : PyValue φ}

theorem bindValue_int {n : Int} (h : Fits64 n) :
    bindValue (.int n : PyValue φ) = .ok (.integer n) := if_pos h

theorem bindValue_encode (h : tp.Accepts v) : bindValue (encode v) = .ok (cell v) := by
  cases v with
  | int n => exact bindValue_int h.2
  | bool b => cases b <;> rfl
  | none => rfl
  | float x => rfl
  | str s => rfl
  | bytes b => rfl

theorem store_cell (conv : Sqlite.Conversions φ) (h : tp.Accepts v) :
    conv.store (sqliteType tp) (cell v) = cell v := by
  cases v with
  | none => cases hs : sqliteType tp <;> rfl
  | int n => rw [sqliteType, h.1]; rfl
  | float x => rw [sqliteType, show tp.scalar = .float from h]; rfl
  | bool b => rw [sqliteType, show tp.scalar = .bool from h]; rfl
  | str s => rw [sqliteType, show tp.scalar = .str from h]; rfl
  | bytes b => rw [sqliteType, show tp.scalar = .bytes from h]; rfl

theorem decode_cell (cast : Cast φ) (h : tp.Accepts v) :
    decode cast (fetchValue (cell v)) tp = .ok v := by
  obtain ⟨scalar, optional⟩ := tp
  cases v with
  | none => rw [cell, fetchValue, decode]
  | int n =>
    obtain ⟨rfl, _⟩ := h
    rfl
  | float x => cases h; rfl
  | bool b =>
    cases h
    cases b <;> rfl
  | str s => cases h; rfl
  | bytes b => cases h; rfl

end Codec

end Sovereign
