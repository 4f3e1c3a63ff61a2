import Sovereign.Jwt

namespace Sovereign
set_option autoImplicit true

/-- The built-in containers other than `dict`. -/
inductive ContainerKind where
  | list
  | tuple
  | set
  | frozenset
deriving DecidableEq

/-- A value of Python: `φ` are the floats and `κ` the classes of the application. A set has its
elements in the order of its iteration. -/
inductive DataValue (κ φ : Type) where
  | none
  | bool (b : Bool)
  | int (n : Int)
  | float (x : φ)
  | str (s : Str)
  | bytes (b : Bytes)
  | container (kind : ContainerKind) (items : List (DataValue κ φ))
  | dict (entries : List (DataValue κ φ × DataValue κ φ))
  | object (cls : κ) (fields : List (Str × DataValue κ φ))

/-- A class that is neither one of the scalar types nor a dataclass. -/
inductive PlainClass (κ : Type) where
  | none
  | container (kind : ContainerKind)
  | dict
  | other (cls : κ)
deriving DecidableEq

/-- An annotation, as `get_type_hints` resolves it. -/
inductive TypeHint (κ : Type) where
  | any
  | bool
  | int
  | float
  | str
  | bytes
  | plain (cls : PlainClass κ)
  | union (members : List (TypeHint κ))
  /-- `list[T]`, `set[T]`, `frozenset[T]` or `tuple[T, ...]` -/
  | container (kind : ContainerKind) (item : TypeHint κ)
  /-- `tuple[T, U]` -/
  | fixedTuple (items : List (TypeHint κ))
  | dict (key value : TypeHint κ)
  | model (cls : κ)

/-- A field of a dataclass. Its default is what the factory makes, where there is one. -/
structure DataField (κ φ : Type) where
  name : Str
  hint : TypeHint κ
  default : Option (DataValue κ φ) := none

/-- How the instances of a class are hashed. -/
inductive HashRule where
  | never
  | byFields
  | byIdentity
deriving DecidableEq

/-- The classes of the application, and what the interpreter makes of floats and of texts. -/
structure Interpreter (κ φ : Type) where
  fields : κ → List (DataField κ φ)
  /-- `cls.__name__` -/
  className : κ → Str
  /-- `isinstance(value, cls)` -/
  isInstance : DataValue κ φ → κ → Bool
  hashRule : κ → HashRule
  /-- `a == b`, between the elements of sets and between the keys of dicts -/
  same : DataValue κ φ → DataValue κ φ → Bool
  /-- `repr(value)` -/
  repr : DataValue κ φ → Except PyError Str
  /-- `unicodedata.decimal(c)` -/
  decimalDigit : Char → Option Nat
  /-- `int(x)`, which fails on NaN and on the infinities -/
  truncate : φ → Except PyError Int
  /-- `float(n)`; `none` is an `OverflowError` -/
  floatOfInt : Int → Option φ
  /-- `float(s)`; `none` is a `ValueError` -/
  floatOfStr : Str → Option φ
  /-- `x.is_integer()` -/
  isInteger : φ → Bool
  truncate_isInteger : isInteger x = true → ∃ n, truncate x = .ok n

namespace ContainerKind

/-- The container is a set, which has no element twice. -/
def isSet : ContainerKind → Bool
  | list | tuple => false
  | set | frozenset => true

def name : ContainerKind → String
  | list => "list"
  | tuple => "tuple"
  | set => "set"
  | frozenset => "frozenset"

end ContainerKind

namespace DataValue

def isNone : DataValue κ φ → Bool
  | none => true
  | _ => false

def isBool : DataValue κ φ → Bool
  | bool _ => true
  | _ => false

/-- The value is this string. -/
def isStr (s : Str) : DataValue κ φ → Bool
  | str s' => s' = s
  | _ => false

def strOf : DataValue κ φ → Option Str
  | str s => some s
  | _ => Option.none

theorem isStr_iff {v : DataValue κ φ} : v.isStr s = true ↔ v = str s := by
  cases v with
  | str s' =>
    rw [isStr, decide_eq_true_iff]
    exact ⟨fun h => congrArg str h, fun h => DataValue.str.inj h⟩
  | _ => exact ⟨fun h => (by cases h), fun h => (by cases h)⟩

theorem isNone_iff {v : DataValue κ φ} : v.isNone = true ↔ v = none := by
  cases v with
  | none => exact ⟨fun _ => rfl, fun _ => rfl⟩
  | _ => exact ⟨fun h => (by cases h), fun h => (by cases h)⟩

end DataValue

/-- `data[name]`, for the entries of a dict. -/
def itemOf (name : Str) (data : List (DataValue κ φ × β)) : Option β :=
  (data.find? fun e => e.1.isStr name).map Prod.snd

theorem itemOf_mem {data : List (DataValue κ φ × β)} (h : itemOf name data = some v) :
    (DataValue.str name, v) ∈ data := by
  obtain ⟨⟨k, w⟩, hfind, rfl⟩ := Option.map_eq_some_iff.1 h
  have hmem := List.mem_of_find?_eq_some hfind
  have hfound := List.find?_some hfind
  have hkey : k = .str name := DataValue.isStr_iff.1 hfound
  subst hkey
  exact hmem

theorem itemOf_map (f : β → γ) (data : List (DataValue κ φ × β)) :
    itemOf name (data.map fun e => (e.1, f e.2)) = (itemOf name data).map f := by
  rw [itemOf, itemOf, List.find?_map, Option.map_map, Option.map_map]
  rfl

/-- The annotation is `None`. -/
def TypeHint.isNone : TypeHint κ → Bool
  | plain .none => true
  | _ => false

/-- The members of a union other than `None`. -/
def TypeHint.candidates (members : List (TypeHint κ)) : List (TypeHint κ) :=
  members.filter fun m => !m.isNone

theorem TypeHint.mem_of_candidates {members : List (TypeHint κ)} (h : m ∈ candidates members) :
    m ∈ members :=
  List.mem_of_mem_filter h

namespace Interpreter

variable (R : Interpreter κ φ)

def plainName : PlainClass κ → Str
  | .none => "NoneType".toList
  | .container kind => kind.name.toList
  | .dict => "dict".toList
  | .other c => R.className c

/-- `isinstance(value, cls)` -/
def isInstanceOf (value : DataValue κ φ) : PlainClass κ → Bool
  | .none => value.isNone
  | .container kind =>
    match value with
    | .container kind' _ => kind' = kind
    | _ => false
  | .dict =>
    match value with
    | .dict _ => true
    | _ => false
  | .other c => R.isInstance value c

mutual

/-- `hash(value)` raises nothing. -/
def hashable : DataValue κ φ → Bool
  | .container .tuple items => allHashable items
  | .container .frozenset _ => true
  | .container _ _ => false
  | .dict _ => false
  | .object c fields =>
    match R.hashRule c with
    | .never => false
    | .byFields => fieldsHashable fields
    | .byIdentity => true
  | _ => true

def allHashable : List (DataValue κ φ) → Bool
  | [] => true
  | v :: vs => hashable v && allHashable vs

def fieldsHashable : List (Str × DataValue κ φ) → Bool
  | [] => true
  | (_, v) :: fields => hashable v && fieldsHashable fields

end

theorem allHashable_eq (items : List (DataValue κ φ)) :
    R.allHashable items = items.all R.hashable := by
  induction items with
  | nil => rfl
  | cons v vs ih => rw [allHashable, ih, List.all_cons]

theorem fieldsHashable_eq (fields : List (Str × DataValue κ φ)) :
    R.fieldsHashable fields = (fields.map Prod.snd).all R.hashable := by
  induction fields with
  | nil => rfl
  | cons p fields ih =>
    obtain ⟨name, v⟩ := p
    rw [fieldsHashable, ih, List.map_cons, List.all_cons]

/-- How `int` and `float` read a character of a text. -/
def asciiDigit (c : Char) : Char :=
  if c.toNat < 128 then c
  else if isSpace c then ' '
  else
    match R.decimalDigit c with
    | some d => Nat.digitChar d
    | none => '?'

/-- `int(value)`. The instances are of classes that do not define it. -/
def toInt : DataValue κ φ → Except PyError Int
  | .bool b => .ok (if b then 1 else 0)
  | .int n => .ok n
  | .float x => R.truncate x
  | .str s =>
    match Json.intOfStr (s.map R.asciiDigit) with
    | some n => .ok n
    | none => .error .valueError
  | .bytes b =>
    match if b.all (· < 128) then Json.intOfStr (decodeLatin1 b) else none with
    | some n => .ok n
    | none => .error .valueError
  | _ => .error .typeError

/-- `float(value)` -/
def toFloat : DataValue κ φ → Except PyError φ
  | .bool b =>
    match R.floatOfInt (if b then 1 else 0) with
    | some x => .ok x
    | none => .error .overflowError
  | .int n =>
    match R.floatOfInt n with
    | some x => .ok x
    | none => .error .overflowError
  | .float x => .ok x
  | .str s =>
    match R.floatOfStr (s.map R.asciiDigit) with
    | some x => .ok x
    | none => .error .valueError
  | .bytes b =>
    match if b.all (· < 128) then R.floatOfStr (decodeLatin1 b) else none with
    | some x => .ok x
    | none => .error .valueError
  | _ => .error .typeError

/-- `str(value)` -/
def toStr : DataValue κ φ → Except PyError Str
  | .none => .ok "None".toList
  | .bool b => .ok (if b then "True".toList else "False".toList)
  | .int n =>
    if (Nat.toDigits 10 n.natAbs).length ≤ maxStrDigits then .ok (decimal n) else .error .valueError
  | .str s => .ok s
  | value => R.repr value

/-- `a == b` for ints and strings -/
def plainSame : DataValue κ φ → DataValue κ φ → Bool
  | .int m, .int n => m = n
  | .str s, .str t => s = t
  | _, _ => false

/-- An application with these dataclasses and no other classes. Its floats are fractions, as they
are on small numbers. -/
def ofFields (fields : κ → List (DataField κ ℚ)) (className : κ → Str) : Interpreter κ ℚ where
  fields
  className
  isInstance := fun _ _ => false
  hashRule := fun _ => .never
  same := plainSame
  repr := fun _ => .error .valueError
  decimalDigit := fun _ => none
  truncate := fun x => .ok (x.num.tdiv x.den)
  floatOfInt := fun n => some n
  floatOfStr := fun _ => none
  isInteger := fun x => x.den = 1
  truncate_isInteger := fun {x} _ => ⟨x.num.tdiv x.den, rfl⟩

end Interpreter

end Sovereign
