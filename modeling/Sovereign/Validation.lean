import Sovereign.Lib.Traverse
import Sovereign.TypeHints

namespace Sovereign
set_option autoImplicit true

/-- How `coerce_value` ends without a value: with a `ValidationError`, or with an exception that
it lets through. -/
inductive CoerceError where
  | validation (message : Str)
  | raised (err : PyError)
deriving DecidableEq

abbrev Coerced (α : Type) := Except CoerceError α

/-- `ValidationError(f"{name}: expected {what}")` -/
def expected (name what : Str) : CoerceError :=
  .validation (name ++ ": expected ".toList ++ what)

/-- `except (TypeError, ValueError)` around a conversion -/
def expecting (name what : Str) : Except PyError α → Coerced α
  | .ok a => .ok a
  | .error err =>
    if err ∈ [.typeError, .valueError, .unicodeEncodeError] then .error (expected name what)
    else .error (.raised err)

/-- The texts that mean `True`. -/
def trueTexts : List Str := ["1".toList, "true".toList, "yes".toList, "on".toList]

/-- The texts that mean `False`. -/
def falseTexts : List Str := ["0".toList, "false".toList, "no".toList, "off".toList]

/-- `sorted(names)`: strings are ordered by the numbers of their characters. -/
def sortNames (names : List Str) : List Str :=
  names.mergeSort fun a b => !b.lex a fun c d => decide (c.toNat < d.toNat)

/-- `out[k] = v` -/
def setKey (same : α → α → Bool) (out : List (α × β)) (entry : α × β) : List (α × β) :=
  if out.any fun e => same e.1 entry.1 then
    out.map fun e => if same e.1 entry.1 then (e.1, entry.2) else e
  else out ++ [entry]

/-- The dict of the entries: a later key that is the same as an earlier one gives it its value. -/
def dictOf (same : α → α → Bool) (entries : List (α × β)) : List (α × β) :=
  entries.foldl (setKey same) []

/-- The elements of the set of the items. -/
def setOf (same : α → α → Bool) (items : List α) : List α :=
  (dictOf same (items.map fun v => (v, ()))).map Prod.fst

/-- What a union makes of what its members make of the value: the first result, unless another
exception than a `ValidationError` comes first. -/
def firstMatch (name : Str) : List Str → List (Coerced α) → Coerced α
  | errors, [] => .error (.validation (name ++ ": does not match any allowed type (".toList ++
      "; ".toList.intercalate errors ++ ")".toList))
  | _, .ok v :: _ => .ok v
  | errors, .error (.validation message) :: rest => firstMatch name (errors ++ [message]) rest
  | _, .error (.raised err) :: _ => .error (.raised err)

theorem setKey_mem {same : α → α → Bool} {out : List (α × β)} (h : e ∈ setKey same out entry) :
    (e.1 = entry.1 ∨ ∃ e' ∈ out, e'.1 = e.1) ∧ (e.2 = entry.2 ∨ ∃ e' ∈ out, e'.2 = e.2) := by
  rw [setKey] at h
  split at h
  · obtain ⟨e', hmem, rfl⟩ := List.mem_map.1 h
    split
    · exact ⟨.inr ⟨e', hmem, rfl⟩, .inl rfl⟩
    · exact ⟨.inr ⟨e', hmem, rfl⟩, .inr ⟨e', hmem, rfl⟩⟩
  · obtain hmem | hmem := List.mem_append.1 h
    · exact ⟨.inr ⟨e, hmem, rfl⟩, .inr ⟨e, hmem, rfl⟩⟩
    · rw [List.mem_singleton.1 hmem]
      exact ⟨.inl rfl, .inl rfl⟩

/-- Keys and values of the dict come from the entries, not always from one entry. -/
theorem dictOf_mem {same : α → α → Bool} {entries : List (α × β)} (h : e ∈ dictOf same entries) :
    (∃ e' ∈ entries, e'.1 = e.1) ∧ ∃ e' ∈ entries, e'.2 = e.2 := by
  induction entries using List.reverseRecOn generalizing e with
  | nil => cases h
  | append_singleton entries entry ih =>
    rw [dictOf, List.foldl_append] at h
    obtain ⟨hkey, hvalue⟩ := setKey_mem h
    constructor
    · obtain hkey | ⟨e', hmem, hkey⟩ := hkey
      · exact ⟨entry, List.mem_append_right _ (List.mem_singleton_self _), hkey.symm⟩
      · obtain ⟨e'', hmem', hkey'⟩ := (ih hmem).1
        exact ⟨e'', List.mem_append_left _ hmem', hkey'.trans hkey⟩
    · obtain hvalue | ⟨e', hmem, hvalue⟩ := hvalue
      · exact ⟨entry, List.mem_append_right _ (List.mem_singleton_self _), hvalue.symm⟩
      · obtain ⟨e'', hmem', hvalue'⟩ := (ih hmem).2
        exact ⟨e'', List.mem_append_left _ hmem', hvalue'.trans hvalue⟩

theorem setOf_mem {same : α → α → Bool} {items : List α} (h : v ∈ setOf same items) :
    v ∈ items := by
  obtain ⟨e, he, rfl⟩ := List.mem_map.1 h
  obtain ⟨e', he', hkey⟩ := (dictOf_mem he).1
  obtain ⟨w, hw, rfl⟩ := List.mem_map.1 he'
  exact hkey ▸ hw

theorem firstMatch_ok {errors : List Str} {attempts : List (Coerced α)} :
    firstMatch name errors attempts = .ok v ↔
      ∃ before after, attempts = before ++ .ok v :: after ∧
        ∀ a ∈ before, ∃ message, a = .error (.validation message) := by
  induction attempts generalizing errors with
  | nil =>
    refine ⟨fun h => (by cases h), fun ⟨before, after, h, _⟩ => ?_⟩
    cases before with
    | nil => cases h
    | cons => cases h
  | cons a rest ih =>
    constructor
    · intro h
      cases a with
      | ok w =>
        cases h
        exact ⟨[], rest, rfl, fun _ h => absurd h List.not_mem_nil⟩
      | error err =>
        cases err with
        | raised => cases h
        | validation message =>
          obtain ⟨before, after, rfl, hbefore⟩ := ih.1 h
          refine ⟨.error (.validation message) :: before, after, rfl, ?_⟩
          exact List.forall_mem_cons.2 ⟨⟨message, rfl⟩, hbefore⟩
    · intro ⟨before, after, h, hbefore⟩
      cases before with
      | nil =>
        obtain ⟨rfl, rfl⟩ := List.cons.inj h
        rfl
      | cons b before =>
        obtain ⟨rfl, rfl⟩ := List.cons.inj h
        obtain ⟨⟨message, rfl⟩, hrest⟩ := List.forall_mem_cons.1 hbefore
        exact ih.2 ⟨before, after, rfl, hrest⟩

/-- The values that a container is made from: a value that is no container stands for itself. -/
def DataValue.items : DataValue κ φ → List (DataValue κ φ)
  | .container _ items => items
  | value => [value]

theorem DataValue.sizeOf_items {v w : DataValue κ φ} (h : w ∈ v.items) : sizeOf w ≤ sizeOf v := by
  cases v with
  | container kind items =>
    have hlt : sizeOf w < sizeOf items := List.sizeOf_lt_of_mem h
    rw [DataValue.container.sizeOf_spec]
    omega
  | _ => exact (List.mem_singleton.1 h) ▸ Nat.le_refl _

theorem DataValue.sizeOf_entry {entries : List (DataValue κ φ × DataValue κ φ)} (h : e ∈ entries) :
    sizeOf e.1 < sizeOf (DataValue.dict entries) ∧
      sizeOf e.2 < sizeOf (DataValue.dict entries) := by
  obtain ⟨k, v⟩ := e
  have hlt := List.sizeOf_lt_of_mem h
  rw [Prod.mk.sizeOf_spec] at hlt
  rw [DataValue.dict.sizeOf_spec]
  constructor
  · change sizeOf k < _
    omega
  · change sizeOf v < _
    omega

def DataValue.isDict : DataValue κ φ → Bool
  | dict _ => true
  | _ => false

/-- `coerce_value` leaves the annotation to `_coerce_scalar`. -/
def TypeHint.isScalar : TypeHint κ → Bool
  | any | bool | int | float | str | bytes | plain _ => true
  | _ => false

/-- `coerce_value` takes only dicts for the annotation. -/
def TypeHint.isObject : TypeHint κ → Bool
  | dict _ _ | model _ => true
  | _ => false

/-- The type that `coerce_value` gives all items of a tuple. -/
def TypeHint.itemType (types : List (TypeHint κ)) : TypeHint κ := types.headD .any

theorem TypeHint.sizeOf_itemType (types : List (TypeHint κ)) :
    sizeOf (itemType types) < sizeOf (fixedTuple types) := by
  cases types with
  | nil =>
    rw [TypeHint.fixedTuple.sizeOf_spec, List.nil.sizeOf_spec]
    exact Nat.lt_succ_self 1
  | cons tp rest =>
    rw [TypeHint.fixedTuple.sizeOf_spec, List.cons.sizeOf_spec, itemType, List.headD_cons]
    omega

theorem TypeHint.sizeOf_candidate {members : List (TypeHint κ)} (h : m ∈ candidates members) :
    sizeOf m < sizeOf (union members) := by
  have hlt := List.sizeOf_lt_of_mem (mem_of_candidates h)
  rw [TypeHint.union.sizeOf_spec]
  omega

theorem TypeHint.sizeOf_item (kind : ContainerKind) (item : TypeHint κ) :
    sizeOf item < sizeOf (container kind item) := by
  rw [TypeHint.container.sizeOf_spec]
  omega

namespace Interpreter

variable (R : Interpreter κ φ)

/-- `_coerce_scalar` -/
def coerceScalar (value : DataValue κ φ) (tp : TypeHint κ) (name : Str) :
    Coerced (DataValue κ φ) :=
  match tp with
  | .bool =>
    match value with
    | .bool b => .ok (.bool b)
    | .str s =>
      if lower (strStrip s) ∈ trueTexts then .ok (.bool true)
      else if lower (strStrip s) ∈ falseTexts then .ok (.bool false)
      else .error (expected name "bool".toList)
    | _ => .error (expected name "bool".toList)
  | .int =>
    if value.isBool then .error (expected name "int".toList)
    else (expecting name "int".toList (R.toInt value)).map .int
  | .float =>
    if value.isBool then .error (expected name "float".toList)
    else (expecting name "float".toList (R.toFloat value)).map .float
  | .str => ((R.toStr value).mapError .raised).map .str
  | .bytes =>
    match value with
    | .bytes b => .ok (.bytes b)
    | .str s => .ok (.bytes (utf8 s))
    | _ => .error (expected name "bytes".toList)
  | .plain cls =>
    if R.isInstanceOf value cls then .ok value else .error (expected name (R.plainName cls))
  | _ => .ok value

/-- A container of the items. Only a set looks for unhashable ones. -/
def collect (kind : ContainerKind) (items : List (DataValue κ φ)) : Coerced (DataValue κ φ) :=
  if kind.isSet then
    if items.all R.hashable then .ok (.container kind (setOf R.same items))
    else .error (.raised .typeError)
  else .ok (.container kind items)

/-- `set(data) - allowed` -/
def unknown (cls : κ) (keys : List (DataValue κ φ)) : List (DataValue κ φ) :=
  keys.filter fun k => !(R.fields cls).any fun field => k.isStr field.name

/-- The check for unknown fields; names that are no strings cannot be joined. -/
def checkUnknown (cls : κ) (keys : List (DataValue κ φ)) : Coerced Unit :=
  if (R.unknown cls keys).isEmpty then .ok ()
  else
    match (R.unknown cls keys).mapM DataValue.strOf with
    | some names => .error (.validation ("unknown field(s): ".toList ++
        ", ".toList.intercalate (sortNames names)))
    | none => .error (.raised .typeError)

/-- The value of a field. The data has, for each of its keys, what `coerce_value` makes of the
value under it. -/
def fieldValue (data : List (DataValue κ φ × (TypeHint κ → Str → Coerced (DataValue κ φ))))
    (field : DataField κ φ) : Coerced (Str × DataValue κ φ) :=
  match itemOf field.name data with
  | some coerce => (coerce field.hint field.name).map fun v => (field.name, v)
  | none =>
    match field.default with
    | some v => .ok (field.name, v)
    | none => .error (.validation (field.name ++ ": field required".toList))

/-- `validate_model`, on data as above -/
def buildModel (cls : κ)
    (data : List (DataValue κ φ × (TypeHint κ → Str → Coerced (DataValue κ φ)))) :
    Coerced (DataValue κ φ) := do
  R.checkUnknown cls (data.map Prod.fst)
  let fields ← (R.fields cls).mapM (fieldValue data)
  return .object cls fields

/-- `coerce_value` -/
def coerceValue (value : DataValue κ φ) (tp : TypeHint κ) (name : Str) :
    Coerced (DataValue κ φ) :=
  match tp with
  | .union members =>
    if members.any TypeHint.isNone && value.isNone then .ok .none
    else
      firstMatch name []
        ((TypeHint.candidates members).attach.map fun sub => coerceValue value sub.1 name)
  | .container kind item => do
    let items ← value.items.attach.mapM fun v => coerceValue v.1 item (name ++ "[]".toList)
    R.collect kind items
  | .fixedTuple types => do
    let items ← value.items.attach.mapM fun v =>
      coerceValue v.1 (TypeHint.itemType types) (name ++ "[]".toList)
    R.collect .tuple items
  | .dict key val =>
    match value with
    | .dict entries => do
      let out ← entries.attach.mapM fun e => do
        let k ← coerceValue e.1.1 key (name ++ ".key".toList)
        let text ← (R.toStr e.1.1).mapError .raised
        let v ← coerceValue e.1.2 val (name ++ '.' :: text)
        if R.hashable k then return (k, v) else throw (.raised .typeError)
      return .dict (dictOf R.same out)
    | _ => .error (expected name "object".toList)
  | .model cls =>
    match value with
    | .dict entries =>
      R.buildModel cls
        (entries.attach.map fun e => (e.1.1, fun tp name => coerceValue e.1.2 tp name))
    | _ => .error (expected name "object".toList)
  | tp => R.coerceScalar value tp name
termination_by (sizeOf value, sizeOf tp)
decreasing_by
  · exact .right _ (TypeHint.sizeOf_candidate sub.2)
  · exact .right' _ (DataValue.sizeOf_items v.2) (TypeHint.sizeOf_item kind item)
  · exact .right' _ (DataValue.sizeOf_items v.2) (TypeHint.sizeOf_itemType types)
  · exact .left _ _ (DataValue.sizeOf_entry e.2).1
  · exact .left _ _ (DataValue.sizeOf_entry e.2).2
  · exact .left _ _ (DataValue.sizeOf_entry e.2).2

/-- `validate_model` -/
def validateModel (cls : κ) (data : List (DataValue κ φ × DataValue κ φ)) :
    Coerced (DataValue κ φ) :=
  R.buildModel cls (data.map fun e => (e.1, R.coerceValue e.2))

/-- What `coerce_value` makes of an entry of a dict. -/
def coerceEntry (key val : TypeHint κ) (name : Str) (e : DataValue κ φ × DataValue κ φ) :
    Coerced (DataValue κ φ × DataValue κ φ) := do
  let k ← R.coerceValue e.1 key (name ++ ".key".toList)
  let text ← (R.toStr e.1).mapError .raised
  let v ← R.coerceValue e.2 val (name ++ '.' :: text)
  if R.hashable k then return (k, v) else throw (.raised .typeError)

variable (value : DataValue κ φ) (name : Str)

theorem coerceValue_union (members : List (TypeHint κ)) :
    R.coerceValue value (.union members) name =
      if members.any TypeHint.isNone && value.isNone then .ok .none
      else firstMatch name []
        ((TypeHint.candidates members).map fun sub => R.coerceValue value sub name) := by
  rw [coerceValue, List.attach_map_val (f := fun sub => R.coerceValue value sub name)]

theorem coerceValue_container (kind : ContainerKind) (item : TypeHint κ) :
    R.coerceValue value (.container kind item) name =
      (value.items.mapM fun v => R.coerceValue v item (name ++ "[]".toList)) >>=
        R.collect kind := by
  rw [coerceValue, Traverse.mapM_attach fun v => R.coerceValue v item _]

theorem coerceValue_fixedTuple (types : List (TypeHint κ)) :
    R.coerceValue value (.fixedTuple types) name =
      R.coerceValue value (.container .tuple (TypeHint.itemType types)) name := by
  rw [coerceValue_container, coerceValue,
    Traverse.mapM_attach fun v => R.coerceValue v (TypeHint.itemType types) _]

theorem coerceValue_dict (entries : List (DataValue κ φ × DataValue κ φ)) (key val : TypeHint κ) :
    R.coerceValue (.dict entries) (.dict key val) name =
      (entries.mapM (R.coerceEntry key val name)).map fun out => .dict (dictOf R.same out) := by
  rw [coerceValue]
  exact congrArg (fun out => out >>= _) (Traverse.mapM_attach (R.coerceEntry key val name))

theorem coerceValue_model (entries : List (DataValue κ φ × DataValue κ φ)) (cls : κ) :
    R.coerceValue (.dict entries) (.model cls) name = R.validateModel cls entries := by
  rw [coerceValue]
  exact congrArg (R.buildModel cls)
    (List.attach_map_val (l := entries) (f := fun e => (e.1, R.coerceValue e.2)))

theorem coerceValue_scalar {tp : TypeHint κ} (h : tp.isScalar = true) :
    R.coerceValue value tp name = R.coerceScalar value tp name := by
  cases tp with
  | union | container | fixedTuple | dict | model => cases h
  | _ => rw [coerceValue] <;> simp

theorem coerceValue_noDict {tp : TypeHint κ} (h : tp.isObject = true)
    (hvalue : value.isDict = false) :
    R.coerceValue value tp name = .error (expected name "object".toList) := by
  cases tp with
  | dict key val =>
    cases value with
    | dict entries => cases hvalue
    | _ => rw [coerceValue]; simp
  | model cls =>
    cases value with
    | dict entries => cases hvalue
    | _ => rw [coerceValue]; simp
  | _ => cases h

theorem coerceEntry_ok {key val : TypeHint κ} {e out : DataValue κ φ × DataValue κ φ} :
    R.coerceEntry key val name e = .ok out ↔
      R.coerceValue e.1 key (name ++ ".key".toList) = .ok out.1 ∧
      (∃ text, R.toStr e.1 = .ok text ∧ R.coerceValue e.2 val (name ++ '.' :: text) = .ok out.2) ∧
      R.hashable out.1 = true := by
  constructor
  · intro h
    obtain ⟨k, hk, h⟩ := except_bind_eq_ok.1 h
    obtain ⟨text, htext, h⟩ := except_bind_eq_ok.1 h
    obtain ⟨v, hv, h⟩ := except_bind_eq_ok.1 h
    split at h
    · next hhash =>
      cases h
      exact ⟨hk, ⟨text, mapError_eq_ok.1 htext, hv⟩, hhash⟩
    · cases h
  · intro ⟨hk, ⟨text, htext, hv⟩, hhash⟩
    refine except_bind_eq_ok.2 ⟨out.1, hk, ?_⟩
    refine except_bind_eq_ok.2 ⟨text, mapError_eq_ok.2 htext, ?_⟩
    refine except_bind_eq_ok.2 ⟨out.2, hv, ?_⟩
    rw [if_pos hhash]
    rfl

theorem collect_ok {kind : ContainerKind} {items : List (DataValue κ φ)} :
    R.collect kind items = .ok r ↔
      (kind.isSet = true → items.all R.hashable = true) ∧
      r = .container kind (if kind.isSet then setOf R.same items else items) := by
  rw [collect]
  split
  · next hset =>
    split
    · next hhash =>
      exact ⟨fun h => ⟨fun _ => hhash, (Except.ok.inj h).symm⟩, fun h => congrArg _ h.2.symm⟩
    · next hhash => exact ⟨fun h => (by cases h), fun h => absurd (h.1 hset) hhash⟩
  · next hset =>
    refine ⟨fun h => ⟨fun h => absurd h hset, ?_⟩, fun h => congrArg _ h.2.symm⟩
    exact (Except.ok.inj h).symm

theorem checkUnknown_ok {cls : κ} {keys : List (DataValue κ φ)} :
    R.checkUnknown cls keys = .ok () ↔ ∀ k ∈ keys, ∃ f ∈ R.fields cls, k = .str f.name := by
  have hunknown : (R.unknown cls keys).isEmpty = true ↔
      ∀ k ∈ keys, ∃ f ∈ R.fields cls, k = .str f.name := by
    rw [List.isEmpty_iff, unknown, List.filter_eq_nil_iff]
    refine forall₂_congr fun k _ => ?_
    rw [Bool.not_eq_true', Bool.not_eq_false, List.any_eq_true]
    simp only [DataValue.isStr_iff]
  rw [checkUnknown, ← hunknown]
  split
  · next h => exact ⟨fun _ => h, fun _ => rfl⟩
  · next h =>
    refine ⟨fun h' => ?_, fun h' => absurd h' h⟩
    split at h'
    · cases h'
    · cases h'

theorem fieldValue_ok {data : List (DataValue κ φ × DataValue κ φ)} {field : DataField κ φ}
    {p : Str × DataValue κ φ} :
    fieldValue (data.map fun e => (e.1, R.coerceValue e.2)) field = .ok p ↔
      p.1 = field.name ∧
      (∀ v, itemOf field.name data = some v →
        R.coerceValue v field.hint field.name = .ok p.2) ∧
      (itemOf field.name data = none → field.default = some p.2) := by
  obtain ⟨pname, r⟩ := p
  rw [fieldValue, itemOf_map]
  cases itemOf field.name data with
  | some v =>
    rw [Option.map_some]
    constructor
    · intro h
      obtain ⟨r', hr, h⟩ := except_map_eq_ok.1 h
      cases h
      exact ⟨rfl, fun w hw => (Option.some.inj hw) ▸ hr, fun h => (by cases h)⟩
    · intro ⟨hname, hv, _⟩
      exact except_map_eq_ok.2 ⟨r, hv v rfl, congrArg (·, r) hname.symm⟩
  | none =>
    rw [Option.map_none]
    cases field.default with
    | some w =>
      constructor
      · intro h
        cases h
        exact ⟨rfl, fun _ h => (by cases h), fun _ => rfl⟩
      · intro ⟨hname, _, hw⟩
        rw [Option.some.inj (hw rfl)]
        exact congrArg (fun n => Except.ok (n, r)) hname.symm
    | none => exact ⟨fun h => (by cases h), fun ⟨_, _, h⟩ => (by cases h rfl)⟩

theorem validateModel_ok {cls : κ} {data : List (DataValue κ φ × DataValue κ φ)} :
    R.validateModel cls data = .ok r ↔
      (∀ e ∈ data, ∃ f ∈ R.fields cls, e.1 = .str f.name) ∧
      ∃ values, r = .object cls values ∧
        (R.fields cls).mapM (fieldValue (data.map fun e => (e.1, R.coerceValue e.2))) =
          .ok values := by
  have hkeys : (data.map fun e => (e.1, R.coerceValue e.2)).map Prod.fst = data.map Prod.fst := by
    rw [List.map_map]
    rfl
  rw [validateModel, buildModel, hkeys, except_bind_eq_ok]
  constructor
  · intro ⟨_, hunknown, h⟩
    obtain ⟨values, hvalues, h⟩ := except_bind_eq_ok.1 h
    rw [checkUnknown_ok, List.forall_mem_map] at hunknown
    exact ⟨hunknown, values, (Except.ok.inj h).symm, hvalues⟩
  · intro ⟨hunknown, values, hr, hvalues⟩
    refine ⟨(), R.checkUnknown_ok.2 (List.forall_mem_map.2 hunknown), ?_⟩
    exact except_bind_eq_ok.2 ⟨values, hvalues, congrArg _ hr.symm⟩

/-- A dict is accepted just if nothing is unknown, nothing is missing and every value converts. -/
theorem validateModel_isOk {cls : κ} {data : List (DataValue κ φ × DataValue κ φ)} :
    (∃ r, R.validateModel cls data = .ok r) ↔
      (∀ e ∈ data, ∃ field ∈ R.fields cls, e.1 = .str field.name) ∧
      (∀ field ∈ R.fields cls, field.default = none → ∃ v, itemOf field.name data = some v) ∧
      ∀ field ∈ R.fields cls, ∀ v, itemOf field.name data = some v →
        ∃ r, R.coerceValue v field.hint field.name = .ok r := by
  constructor
  · intro ⟨r, h⟩
    obtain ⟨hknown, values, _, hvalues⟩ := R.validateModel_ok.1 h
    refine ⟨hknown, fun field hf hdefault => ?_, fun field hf v hv => ?_⟩
    · obtain ⟨p, hp⟩ := Traverse.exists_ok.1 ⟨values, hvalues⟩ field hf
      obtain ⟨_, _, habsent⟩ := R.fieldValue_ok.1 hp
      by_contra hmissing
      rw [← Option.isSome_iff_exists, Option.not_isSome_iff_eq_none] at hmissing
      rw [habsent hmissing] at hdefault
      cases hdefault
    · obtain ⟨p, hp⟩ := Traverse.exists_ok.1 ⟨values, hvalues⟩ field hf
      exact ⟨p.2, (R.fieldValue_ok.1 hp).2.1 v hv⟩
  · intro ⟨hknown, hrequired, hpresent⟩
    have hfields : ∀ field ∈ R.fields cls, ∃ p,
        fieldValue (data.map fun e => (e.1, R.coerceValue e.2)) field = .ok p := by
      intro field hf
      cases hv : itemOf field.name data with
      | some v =>
        obtain ⟨r, hr⟩ := hpresent field hf v hv
        refine ⟨(field.name, r), R.fieldValue_ok.2 ⟨rfl, fun w hw => ?_, fun h => ?_⟩⟩
        · exact Option.some.inj (hv.symm.trans hw) ▸ hr
        · rw [hv] at h
          cases h
      | none =>
        cases hdefault : field.default with
        | none =>
          obtain ⟨v, hv'⟩ := hrequired field hf hdefault
          rw [hv] at hv'
          cases hv'
        | some w =>
          refine ⟨(field.name, w), R.fieldValue_ok.2 ⟨rfl, fun v hv' => ?_, fun _ => hdefault⟩⟩
          rw [hv] at hv'
          cases hv'
    obtain ⟨values, hvalues⟩ := Traverse.exists_ok.2 hfields
    exact ⟨.object cls values, R.validateModel_ok.2 ⟨hknown, values, rfl, hvalues⟩⟩

end Interpreter

/-- The induction that `coerce_value` goes by: to the members of a union for the same value, and
else to the parts of the value. -/
theorem coercion_induction {motive : DataValue κ φ → TypeHint κ → Prop}
    (scalar : ∀ v tp, tp.isScalar = true → motive v tp)
    (union : ∀ v members, (∀ m ∈ TypeHint.candidates members, motive v m) →
      motive v (.union members))
    (container : ∀ v kind item, (∀ w ∈ v.items, motive w item) → motive v (.container kind item))
    (fixedTuple : ∀ v types, (∀ w ∈ v.items, motive w (TypeHint.itemType types)) →
      motive v (.fixedTuple types))
    (dict : ∀ entries key val, (∀ e ∈ entries, motive e.1 key ∧ motive e.2 val) →
      motive (.dict entries) (.dict key val))
    (model : ∀ entries cls, (∀ e ∈ entries, ∀ tp, motive e.2 tp) →
      motive (.dict entries) (.model cls))
    (noDict : ∀ v tp, tp.isObject = true → v.isDict = false → motive v tp)
    (value : DataValue κ φ) (tp : TypeHint κ) : motive value tp := by
  have recurse (w : DataValue κ φ) (s : TypeHint κ)
      (hlt : Prod.Lex (· < ·) (· < ·) (sizeOf w, sizeOf s) (sizeOf value, sizeOf tp)) :
      motive w s :=
    coercion_induction scalar union container fixedTuple dict model noDict w s
  cases tp with
  | union members =>
    exact union value members fun m hm =>
      recurse value m (.right _ (TypeHint.sizeOf_candidate hm))
  | container kind item =>
    exact container value kind item fun w hw =>
      recurse w item (.right' _ (DataValue.sizeOf_items hw) (TypeHint.sizeOf_item kind item))
  | fixedTuple types =>
    exact fixedTuple value types fun w hw =>
      recurse w _ (.right' _ (DataValue.sizeOf_items hw) (TypeHint.sizeOf_itemType types))
  | dict key val =>
    cases value with
    | dict entries =>
      exact dict entries key val fun e he =>
        ⟨recurse _ _ (.left _ _ (DataValue.sizeOf_entry he).1),
          recurse _ _ (.left _ _ (DataValue.sizeOf_entry he).2)⟩
    | _ => exact noDict _ _ rfl rfl
  | model cls =>
    cases value with
    | dict entries =>
      exact model entries cls fun e he tp => recurse _ tp (.left _ _ (DataValue.sizeOf_entry he).2)
    | _ => exact noDict _ _ rfl rfl
  | _ => exact scalar _ _ rfl
termination_by (sizeOf value, sizeOf tp)
decreasing_by exact hlt

end Sovereign
