import Sovereign.JsonText
import Sovereign.Orm
import Sovereign.Validation
import Sovereign.Lib.SqliteRelation

namespace Sovereign
set_option autoImplicit true

/-- What the ORM needs of the interpreter, of `json` and of SQLite. -/
structure OrmRuntime (κ φ : Type) extends Interpreter κ φ where
  conv : Sqlite.Comparisons φ
  isNaN : φ → Bool
  /-- `bool(x)` -/
  nonzero : φ → Bool
  /-- a float in a document -/
  floatText : φ → Str
  /-- `json.loads(value)` -/
  loads : DataValue κ φ → Except PyError (DataValue κ φ)
  /-- `c.isalnum()` -/
  isAlnum : Char → Bool
  /-- A keyword of SQL, which is no name of a table or a column. -/
  reserved : Str → Bool
  distinctNames : ((fields cls).map DataField.name).Nodup
  /-- A text that starts with a bracket is no number: it stays as it is in a column of any type. -/
  keepsBracket : c = '[' ∨ c = '\x7b' →
    conv.convert affinity (.text (c :: text)) = .text (c :: text)

namespace TypeHint

/-- `get_args(tp)`. The ellipsis in `tuple[T, ...]` goes as an annotation that says nothing. -/
def args : TypeHint κ → List (TypeHint κ)
  | union members => members
  | container .tuple item => [item, any]
  | container _ item => [item]
  | fixedTuple items => items
  | dict key value => [key, value]
  | _ => []

theorem sizeOf_candidates_args {tp m : TypeHint κ} (h : m ∈ candidates tp.args)
    (hnone : tp.args.any isNone = true) : sizeOf m < sizeOf tp := by
  have hmem := mem_of_candidates h
  cases tp with
  | union members => exact sizeOf_candidate h
  | container kind item =>
    cases kind with
    | tuple =>
      obtain rfl | hmem := List.mem_cons.1 hmem
      · exact sizeOf_item .tuple m
      · rw [List.mem_singleton.1 hmem, TypeHint.container.sizeOf_spec, TypeHint.any.sizeOf_spec,
          ContainerKind.tuple.sizeOf_spec]
        omega
    | _ =>
      rw [List.mem_singleton.1 hmem]
      exact sizeOf_item _ item
  | fixedTuple items =>
    have hlt : sizeOf m < sizeOf items := List.sizeOf_lt_of_mem hmem
    rw [TypeHint.fixedTuple.sizeOf_spec]
    omega
  | dict key value =>
    rw [TypeHint.dict.sizeOf_spec]
    obtain rfl | hmem := List.mem_cons.1 hmem
    · omega
    · rw [List.mem_singleton.1 hmem]
      omega
  | _ => cases hmem

/-- The annotation without `None`: `next(a for a in args if a is not NoneType)`. -/
def stripped (tp : TypeHint κ) : Except PyError (TypeHint κ) :=
  if tp.args.any isNone then
    match candidates tp.args with
    | [] => .error .stopIteration
    | a :: _ => .ok a
  else .ok tp

/-- `_sqlite_type` -/
def sqliteType (tp : TypeHint κ) : Except PyError Sqlite.Affinity :=
  if _hnone : tp.args.any isNone then
    match _h : candidates tp.args with
    | [] => .error .stopIteration
    | a :: _ => a.sqliteType
  else
    match tp with
    | int | bool => .ok .integer
    | float => .ok .real
    | bytes => .ok .blob
    | _ => .ok .text
termination_by sizeOf tp
decreasing_by exact sizeOf_candidates_args (_h ▸ List.mem_cons_self) _hnone

end TypeHint

namespace OrmRuntime

variable (R : OrmRuntime κ φ)

/-- A number as it is compared with others. -/
def number : DataValue κ φ → Option (Int ⊕ φ)
  | .bool b => some (.inl (if b then 1 else 0))
  | .int n => some (.inl n)
  | .float x => some (.inr x)
  | _ => none

def sameNumber : Int ⊕ φ → Int ⊕ φ → Prop
  | .inl m, .inl n => m = n
  | .inl m, .inr y => R.isNaN y = false ∧ R.conv.equals m y = true
  | .inr x, .inl n => R.isNaN x = false ∧ R.conv.equals n x = true
  | .inr x, .inr y => R.isNaN x = false ∧ x = y

mutual

/-- `v == w`. Objects are equal if they are of one class and have equal fields. -/
def Equal : DataValue κ φ → DataValue κ φ → Prop
  | .none, w => w = .none
  | .str s, w => w = .str s
  | .bytes b, w => w = .bytes b
  | .container kind items, w =>
    ∃ kind' items', w = .container kind' items' ∧ kind.isSet = kind'.isSet ∧
      if kind.isSet then items.length = items'.length ∧ EqualMembers items items'
      else kind = kind' ∧ EqualItems items items'
  | .dict entries, w =>
    ∃ entries', w = .dict entries' ∧ entries.length = entries'.length ∧
      EqualEntries entries entries'
  | .object cls fields, w => ∃ fields', w = .object cls fields' ∧ EqualFields fields fields'
  | .bool b, w => ∃ y, number w = some y ∧ R.sameNumber (.inl (if b then 1 else 0)) y
  | .int n, w => ∃ y, number w = some y ∧ R.sameNumber (.inl n) y
  | .float x, w => ∃ y, number w = some y ∧ R.sameNumber (.inr x) y

def EqualItems : List (DataValue κ φ) → List (DataValue κ φ) → Prop
  | [], ws => ws = []
  | v :: vs, ws => ∃ w ws', ws = w :: ws' ∧ Equal v w ∧ EqualItems vs ws'

def EqualMembers : List (DataValue κ φ) → List (DataValue κ φ) → Prop
  | [], _ => True
  | v :: vs, ws => (∃ w ∈ ws, Equal v w) ∧ EqualMembers vs ws

def EqualEntries : List (DataValue κ φ × DataValue κ φ) →
    List (DataValue κ φ × DataValue κ φ) → Prop
  | [], _ => True
  | (k, v) :: es, es' => (∃ e ∈ es', Equal k e.1 ∧ Equal v e.2) ∧ EqualEntries es es'

def EqualFields : List (Str × DataValue κ φ) → List (Str × DataValue κ φ) → Prop
  | [], gs => gs = []
  | (name, v) :: fs, gs => ∃ w gs', gs = (name, w) :: gs' ∧ Equal v w ∧ EqualFields fs gs'

end

mutual

/-- `dataclasses.asdict`, for a value in an object. The copy of a dict has its keys copied, too. -/
def asdict : DataValue κ φ → Except PyError (DataValue κ φ)
  | .container .list items => (asdictItems items).map (.container .list)
  | .container .tuple items => (asdictItems items).map (.container .tuple)
  | .dict entries => (asdictEntries entries).map .dict
  | .object _ fields => (asdictFields fields).map fun fields =>
    .dict (fields.map fun e => (.str e.1, e.2))
  | value => .ok value

def asdictItems : List (DataValue κ φ) → Except PyError (List (DataValue κ φ))
  | [] => .ok []
  | v :: vs => do
    let w ← asdict v
    let ws ← asdictItems vs
    return w :: ws

def asdictEntries : List (DataValue κ φ × DataValue κ φ) →
    Except PyError (List (DataValue κ φ × DataValue κ φ))
  | [] => .ok []
  | (k, v) :: es => do
    let k' ← asdict k
    let v' ← asdict v
    if R.hashable k' then
      let es' ← asdictEntries es
      return (k', v') :: es'
    else throw .typeError

/-- `dataclasses.asdict(obj)` -/
def asdictFields : List (Str × DataValue κ φ) → Except PyError (List (Str × DataValue κ φ))
  | [] => .ok []
  | (name, v) :: fields => do
    let w ← asdict v
    let ws ← asdictFields fields
    return (name, w) :: ws

end

/-- `int.__repr__(n)` -/
def intText (n : Int) : Except PyError Str :=
  if (Nat.toDigits 10 n.natAbs).length ≤ maxStrDigits then .ok (decimal n) else .error .valueError

/-- The key of a document that `json.dumps` makes of the key of a dict. -/
def keyText : DataValue κ φ → Except PyError Str
  | .none => .ok "null".toList
  | .bool b => .ok (if b then "true".toList else "false".toList)
  | .int n => intText n
  | .float x => .ok (R.floatText x)
  | .str s => .ok s
  | _ => .error .typeError

mutual

/-- The document that `json.dumps` writes. -/
def toJson : DataValue κ φ → Except PyError (DataValue κ φ)
  | .none => .ok .none
  | .bool b => .ok (.bool b)
  | .int n => (intText n).map fun _ => .int n
  | .float x => .ok (.float x)
  | .str s => .ok (.str s)
  | .container .list items => (toJsonItems items).map (.container .list)
  | .container .tuple items => (toJsonItems items).map (.container .list)
  | .dict entries => (toJsonEntries entries).map .dict
  | _ => .error .typeError

def toJsonItems : List (DataValue κ φ) → Except PyError (List (DataValue κ φ))
  | [] => .ok []
  | v :: vs => do
    let w ← toJson v
    let ws ← toJsonItems vs
    return w :: ws

def toJsonEntries : List (DataValue κ φ × DataValue κ φ) →
    Except PyError (List (DataValue κ φ × DataValue κ φ))
  | [] => .ok []
  | (k, v) :: es => do
    let text ← R.keyText k
    let v' ← toJson v
    let es' ← toJsonEntries es
    return (.str text, v') :: es'

end

mutual

/-- The text of a document, with the separators `","` and `":"`. -/
def documentText : DataValue κ φ → Str
  | .none => "null".toList
  | .bool b => if b then "true".toList else "false".toList
  | .int n => decimal n
  | .float x => R.floatText x
  | .str s => encodeBasestring s
  | .bytes _ => []
  | .container _ items => '[' :: (",".toList.intercalate (itemTexts items) ++ [']'])
  | .dict entries => '\x7b' :: (",".toList.intercalate (entryTexts entries) ++ ['\x7d'])
  | .object _ _ => []

def itemTexts : List (DataValue κ φ) → List Str
  | [] => []
  | v :: vs => documentText v :: itemTexts vs

def entryTexts : List (DataValue κ φ × DataValue κ φ) → List Str
  | [] => []
  | (k, v) :: es => (documentText k ++ ':' :: documentText v) :: entryTexts es

end

/-- `json.dumps(value, ensure_ascii=False, separators=(",", ":"))` -/
def dumps (value : DataValue κ φ) : Except PyError (DataValue κ φ) :=
  (R.toJson value).map fun document => .str (R.documentText document)

/-- `_encode` -/
def encode (value : DataValue κ φ) : Except PyError (DataValue κ φ) :=
  match value with
  | .object _ _ => do
    let data ← R.asdict value
    R.dumps data
  | .dict _ => R.dumps value
  | .container .frozenset _ => .ok value
  | .container _ _ => R.dumps value
  | .bool b => .ok (.int (if b then 1 else 0))
  | _ => .ok value

/-- A value that is bound to a parameter of a statement. -/
def bind (value : DataValue κ φ) : Except PyError (Sqlite.Value φ) :=
  match value with
  | .none => .ok .null
  | .bool b => .ok (.integer (if b then 1 else 0))
  | .int n => if Fits64 n then .ok (.integer n) else .error .overflowError
  | .float x => .ok (if R.isNaN x then .null else .real x)
  | .str s => .ok (.text s)
  | .bytes b => .ok (.blob b)
  | _ => .error .programmingError

/-- `bool(value)` -/
def truthy : DataValue κ φ → Bool
  | .none => false
  | .bool b => b
  | .int n => n ≠ 0
  | .float x => R.nonzero x
  | .str s => !s.isEmpty
  | .bytes b => !b.isEmpty
  | .container _ items => !items.isEmpty
  | .dict entries => !entries.isEmpty
  | .object _ _ => true

/-- `tuple(value)` -/
def iterate : DataValue κ φ → Except PyError (List (DataValue κ φ))
  | .str s => .ok (s.map fun c => .str [c])
  | .bytes b => .ok (b.map fun x => .int x.toNat)
  | .container _ items => .ok items
  | .dict entries => .ok (entries.map Prod.fst)
  | _ => .error .typeError

/-- `set(value)` -/
def makeSet (value : DataValue κ φ) : Except PyError (DataValue κ φ) := do
  let items ← iterate value
  if items.all R.hashable then return .container .set (setOf R.same items)
  else throw .typeError

/-- The value that the constructor of a dataclass gives a field. -/
def argument (data : List (DataValue κ φ × DataValue κ φ)) (f : DataField κ φ) :
    Except PyError (Str × DataValue κ φ) :=
  match (itemOf f.name data).or f.default with
  | some v => .ok (f.name, v)
  | none => .error .typeError

/-- `cls(**data)` -/
def construct (cls : κ) (data : List (DataValue κ φ × DataValue κ φ)) :
    Except PyError (DataValue κ φ) :=
  if data.all fun e => (R.fields cls).any fun f => e.1.isStr f.name then do
    let fields ← (R.fields cls).mapM (argument data)
    return .object cls fields
  else .error .typeError

/-- `_decode`, for a value that is not `None` and the annotation without `None`. -/
def decodeAs (value : DataValue κ φ) (tp : TypeHint κ) : Except PyError (DataValue κ φ) :=
  match tp with
  | .bool => .ok (.bool (R.truthy value))
  | .int => (R.toInt value).map .int
  | .float => (R.toFloat value).map .float
  | .model cls => do
    let data ← R.loads value
    match data with
    | .dict entries => R.construct cls entries
    | _ => throw .typeError
  | .container .tuple _ => do
    let data ← R.loads value
    let items ← iterate data
    return .container .tuple items
  | .fixedTuple _ => do
    let data ← R.loads value
    let items ← iterate data
    return .container .tuple items
  | .container .set _ => do
    let data ← R.loads value
    R.makeSet data
  | .container .list _ => R.loads value
  | .dict _ _ => R.loads value
  | _ => .ok value

/-- `_decode` -/
def decode (value : DataValue κ φ) (tp : TypeHint κ) : Except PyError (DataValue κ φ) :=
  if value.isNone then .ok .none
  else do
    let tp ← tp.stripped
    R.decodeAs value tp

end OrmRuntime

/-- A value that is read from a row. -/
def DataValue.fetch : Sqlite.Value φ → DataValue κ φ
  | .null => .none
  | .integer n => .int n
  | .real x => .float x
  | .text s => .str s
  | .blob b => .bytes b

mutual

/-- The document that `json.loads` reads: of the entries with one key it keeps the last value. -/
def DataValue.lastKeys : DataValue κ φ → DataValue κ φ
  | .container kind items => .container kind (lastKeysItems items)
  | .dict entries => .dict (dictOf Interpreter.plainSame (lastKeysEntries entries))
  | value => value

def DataValue.lastKeysItems : List (DataValue κ φ) → List (DataValue κ φ)
  | [] => []
  | v :: vs => lastKeys v :: lastKeysItems vs

def DataValue.lastKeysEntries : List (DataValue κ φ × DataValue κ φ) →
    List (DataValue κ φ × DataValue κ φ)
  | [] => []
  | (k, v) :: es => (k, lastKeys v) :: lastKeysEntries es

end

end Sovereign
