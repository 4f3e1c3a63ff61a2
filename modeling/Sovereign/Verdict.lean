import Sovereign.Validation

namespace Sovereign
set_option autoImplicit true

/-- How a value is turned down: with a `ValidationError`, or with another exception. -/
inductive Refusal where
  | refused
  | raised
deriving DecidableEq

/-- Whether a value is taken for an annotation, and if so whether what it becomes can be hashed. -/
abbrev Verdict := Except Refusal Bool

def CoerceError.refusal : CoerceError → Refusal
  | validation _ => .refused
  | raised _ => .raised

/-- The verdict on a conversion whose result can be hashed. -/
def judge : Except PyError α → Verdict
  | .ok _ => .ok true
  | .error err =>
    if err ∈ [.typeError, .valueError, .unicodeEncodeError] then .error .refused
    else .error .raised

/-- The first verdict in a union that is not a refusal. -/
def firstTaken : List Verdict → Verdict
  | [] => .error .refused
  | .error .refused :: rest => firstTaken rest
  | verdict :: _ => verdict

/-- A set takes only elements that can be hashed, and only a tuple is hashed by its items. -/
def containerVerdict (kind : ContainerKind) (items : List Bool) : Verdict :=
  match kind with
  | .list => .ok false
  | .tuple => .ok (items.all id)
  | .set => if items.all id then .ok false else .error .raised
  | .frozenset => if items.all id then .ok true else .error .raised

namespace Interpreter

variable (R : Interpreter κ φ)

def scalarVerdict (value : DataValue κ φ) (tp : TypeHint κ) : Verdict :=
  match tp with
  | .bool =>
    match value with
    | .bool _ => .ok true
    | .str s => if lower (strStrip s) ∈ trueTexts ++ falseTexts then .ok true else .error .refused
    | _ => .error .refused
  | .int => if value.isBool then .error .refused else judge (R.toInt value)
  | .float => if value.isBool then .error .refused else judge (R.toFloat value)
  | .str => ((R.toStr value).mapError fun _ => .raised).map fun _ => true
  | .bytes =>
    match value with
    | .bytes _ => .ok true
    | .str _ => .ok true
    | _ => .error .refused
  | .plain cls => if R.isInstanceOf value cls then .ok (R.hashable value) else .error .refused
  | _ => .ok (R.hashable value)

/-- Unknown names are refused, unless one of them is no string. -/
def unknownVerdict (cls : κ) (keys : List (DataValue κ φ)) : Except Refusal Unit :=
  if (R.unknown cls keys).isEmpty then .ok ()
  else if (R.unknown cls keys).all (fun k => k.strOf.isSome) then .error .refused
  else .error .raised

/-- The verdict on a field, given the verdicts on the values of the data. -/
def fieldVerdict (data : List (DataValue κ φ × (TypeHint κ → Verdict))) (field : DataField κ φ) :
    Verdict :=
  match itemOf field.name data with
  | some verdict => verdict field.hint
  | none =>
    match field.default with
    | some v => .ok (R.hashable v)
    | none => .error .refused

/-- The verdict on an instance, given those on its fields. -/
def instanceVerdict (cls : κ) (fields : List Bool) : Verdict :=
  match R.hashRule cls with
  | .never => .ok false
  | .byFields => .ok (fields.all id)
  | .byIdentity => .ok true

def modelVerdict (cls : κ) (data : List (DataValue κ φ × (TypeHint κ → Verdict))) : Verdict := do
  R.unknownVerdict cls (data.map Prod.fst)
  let fields ← (R.fields cls).mapM (R.fieldVerdict data)
  R.instanceVerdict cls fields

/-- What becomes of a value that is given for an annotation. -/
def verdict (value : DataValue κ φ) (tp : TypeHint κ) : Verdict :=
  match tp with
  | .union members =>
    if members.any TypeHint.isNone && value.isNone then .ok true
    else firstTaken ((TypeHint.candidates members).attach.map fun sub => verdict value sub.1)
  | .container kind item => do
    let items ← value.items.attach.mapM fun v => verdict v.1 item
    containerVerdict kind items
  | .fixedTuple types => do
    let items ← value.items.attach.mapM fun v => verdict v.1 (TypeHint.itemType types)
    containerVerdict .tuple items
  | .dict key val =>
    match value with
    | .dict entries => do
      let _ ← entries.attach.mapM fun e => do
        let k ← verdict e.1.1 key
        let _ ← (R.toStr e.1.1).mapError fun _ => Refusal.raised
        let _ ← verdict e.1.2 val
        if k then return () else throw .raised
      return false
    | _ => .error .refused
  | .model cls =>
    match value with
    | .dict entries =>
      R.modelVerdict cls (entries.attach.map fun e => (e.1.1, fun tp => verdict e.1.2 tp))
    | _ => .error .refused
  | tp => R.scalarVerdict value tp
termination_by (sizeOf value, sizeOf tp)
decreasing_by
  · exact .right _ (TypeHint.sizeOf_candidate sub.2)
  · exact .right' _ (DataValue.sizeOf_items v.2) (TypeHint.sizeOf_item kind item)
  · exact .right' _ (DataValue.sizeOf_items v.2) (TypeHint.sizeOf_itemType types)
  · exact .left _ _ (DataValue.sizeOf_entry e.2).1
  · exact .left _ _ (DataValue.sizeOf_entry e.2).2
  · exact .left _ _ (DataValue.sizeOf_entry e.2).2

/-- The verdict on an entry of a dict. -/
def entryVerdict (key val : TypeHint κ) (e : DataValue κ φ × DataValue κ φ) :
    Except Refusal Unit := do
  let k ← R.verdict e.1 key
  let _ ← (R.toStr e.1).mapError fun _ => Refusal.raised
  let _ ← R.verdict e.2 val
  if k then return () else throw .raised

variable (value : DataValue κ φ)

theorem verdict_union (members : List (TypeHint κ)) :
    R.verdict value (.union members) =
      if members.any TypeHint.isNone && value.isNone then .ok true
      else firstTaken ((TypeHint.candidates members).map fun sub => R.verdict value sub) := by
  rw [verdict, List.attach_map_val (f := fun sub => R.verdict value sub)]

theorem verdict_container (kind : ContainerKind) (item : TypeHint κ) :
    R.verdict value (.container kind item) =
      (value.items.mapM fun v => R.verdict v item) >>= containerVerdict kind := by
  rw [verdict, Traverse.mapM_attach fun v => R.verdict v item]

theorem verdict_fixedTuple (types : List (TypeHint κ)) :
    R.verdict value (.fixedTuple types) =
      R.verdict value (.container .tuple (TypeHint.itemType types)) := by
  rw [verdict_container, verdict,
    Traverse.mapM_attach fun v => R.verdict v (TypeHint.itemType types)]

theorem verdict_dict (entries : List (DataValue κ φ × DataValue κ φ)) (key val : TypeHint κ) :
    R.verdict (.dict entries) (.dict key val) =
      (entries.mapM (R.entryVerdict key val)).map fun _ => false := by
  rw [verdict]
  exact congrArg (fun out => out >>= _) (Traverse.mapM_attach (R.entryVerdict key val))

theorem verdict_model (entries : List (DataValue κ φ × DataValue κ φ)) (cls : κ) :
    R.verdict (.dict entries) (.model cls) =
      R.modelVerdict cls (entries.map fun e => (e.1, R.verdict e.2)) := by
  rw [verdict]
  exact congrArg (R.modelVerdict cls)
    (List.attach_map_val (l := entries) (f := fun e => (e.1, R.verdict e.2)))

theorem verdict_scalar {tp : TypeHint κ} (h : tp.isScalar = true) :
    R.verdict value tp = R.scalarVerdict value tp := by
  cases tp with
  | union | container | fixedTuple | dict | model => cases h
  | _ => rw [verdict] <;> simp

theorem verdict_noDict {tp : TypeHint κ} (h : tp.isObject = true)
    (hvalue : value.isDict = false) : R.verdict value tp = .error .refused := by
  cases tp with
  | dict key val =>
    cases value with
    | dict entries => cases hvalue
    | _ => rw [verdict]; simp
  | model cls =>
    cases value with
    | dict entries => cases hvalue
    | _ => rw [verdict]; simp
  | _ => cases h

/-! The verdict is what shows of a conversion from outside. -/

/-- The verdict that a result stands for. -/
def abstract (x : Coerced (DataValue κ φ)) : Verdict :=
  (x.mapError CoerceError.refusal).map R.hashable

theorem abstract_expecting (x : Except PyError α) (f : α → DataValue κ φ)
    (hf : ∀ a, R.hashable (f a) = true) :
    R.abstract ((expecting name what x).map f) = judge x := by
  cases x with
  | ok a => exact congrArg Except.ok (hf a)
  | error err =>
    rw [expecting, judge]
    split
    · rfl
    · rfl

theorem abstract_scalar (tp : TypeHint κ) :
    R.abstract (R.coerceScalar value tp name) = R.scalarVerdict value tp := by
  cases tp with
  | bool =>
    cases value with
    | str s =>
      rw [coerceScalar, scalarVerdict]
      by_cases htrue : lower (strStrip s) ∈ trueTexts
      · rw [if_pos htrue, if_pos (List.mem_append_left _ htrue)]
        rfl
      · rw [if_neg htrue]
        by_cases hfalse : lower (strStrip s) ∈ falseTexts
        · rw [if_pos hfalse, if_pos (List.mem_append_right _ hfalse)]
          rfl
        · rw [if_neg hfalse, if_neg fun h => (List.mem_append.1 h).elim htrue hfalse]
          rfl
    | _ => rfl
  | int =>
    rw [coerceScalar, scalarVerdict]
    split
    · rfl
    · exact R.abstract_expecting _ _ fun _ => rfl
  | float =>
    rw [coerceScalar, scalarVerdict]
    split
    · rfl
    · exact R.abstract_expecting _ _ fun _ => rfl
  | str =>
    rw [coerceScalar, scalarVerdict]
    cases R.toStr value with
    | ok s => rfl
    | error err => rfl
  | bytes => cases value <;> rfl
  | plain cls =>
    rw [coerceScalar, scalarVerdict]
    split
    · rfl
    · rfl
  | _ => rfl

theorem abstract_firstMatch (errors : List Str) (attempts : List (Coerced (DataValue κ φ))) :
    R.abstract (firstMatch name errors attempts) = firstTaken (attempts.map R.abstract) := by
  induction attempts generalizing errors with
  | nil => rfl
  | cons a rest ih =>
    cases a with
    | ok v => rfl
    | error err =>
      cases err with
      | validation message => exact ih _
      | raised err => rfl

theorem abstract_collect (kind : ContainerKind) (items : List (DataValue κ φ)) :
    R.abstract (R.collect kind items) = containerVerdict kind (items.map R.hashable) := by
  have hall : (items.map R.hashable).all id = items.all R.hashable := by
    rw [List.all_map]
    rfl
  cases kind with
  | list => rfl
  | tuple => exact congrArg Except.ok ((R.allHashable_eq items).trans hall.symm)
  | set =>
    rw [containerVerdict, hall, collect, if_pos (show ContainerKind.set.isSet = true from rfl)]
    split
    · rfl
    · rfl
  | frozenset =>
    rw [containerVerdict, hall, collect,
      if_pos (show ContainerKind.frozenset.isSet = true from rfl)]
    split
    · rfl
    · rfl

/-- A step after a traversal, seen from outside. -/
theorem abstract_bind (f : α → Coerced β) (k : β → γ) (step : List β → Coerced (DataValue κ φ))
    (step' : List γ → Verdict) (hstep : ∀ l, R.abstract (step l) = step' (l.map k)) (l : List α) :
    R.abstract (l.mapM f >>= step) =
      (l.mapM fun a => ((f a).mapError CoerceError.refusal).map k) >>= step' := by
  rw [← Traverse.except_bimap]
  cases l.mapM f with
  | ok items => exact hstep items
  | error err => rfl

theorem abstract_container (kind : ContainerKind) (item : TypeHint κ)
    (ih : ∀ w ∈ value.items, ∀ name,
      R.abstract (R.coerceValue w item name) = R.verdict w item) :
    R.abstract (R.coerceValue value (.container kind item) name) =
      R.verdict value (.container kind item) := by
  rw [coerceValue_container, verdict_container,
    R.abstract_bind _ _ _ _ (R.abstract_collect kind)]
  exact congrArg (· >>= _) (Traverse.except_congr fun w hw => ih w hw _)

theorem abstract_entry (key val : TypeHint κ) (e : DataValue κ φ × DataValue κ φ)
    (hkey : ∀ name, R.abstract (R.coerceValue e.1 key name) = R.verdict e.1 key)
    (hval : ∀ name, R.abstract (R.coerceValue e.2 val name) = R.verdict e.2 val) :
    ((R.coerceEntry key val name e).mapError CoerceError.refusal).map (fun _ => ()) =
      R.entryVerdict key val e := by
  rw [coerceEntry, entryVerdict, ← hkey (name ++ ".key".toList)]
  cases R.coerceValue e.1 key (name ++ ".key".toList) with
  | error err => rfl
  | ok k =>
    cases R.toStr e.1 with
    | error err => rfl
    | ok text =>
      change Except.map _ (Except.mapError _ (R.coerceValue e.2 val (name ++ '.' :: text) >>= _)) =
        R.verdict e.2 val >>= _
      rw [← hval (name ++ '.' :: text)]
      cases R.coerceValue e.2 val (name ++ '.' :: text) with
      | error err => rfl
      | ok v =>
        change Except.map _ (Except.mapError _ (if R.hashable k then _ else _)) =
          if R.hashable k then _ else _
        split
        · rfl
        · rfl

theorem abstract_field (data : List (DataValue κ φ × DataValue κ φ)) (field : DataField κ φ)
    (ih : ∀ e ∈ data, ∀ tp name, R.abstract (R.coerceValue e.2 tp name) = R.verdict e.2 tp) :
    ((fieldValue (data.map fun e => (e.1, R.coerceValue e.2)) field).mapError
        CoerceError.refusal).map (fun p => R.hashable p.2) =
      R.fieldVerdict (data.map fun e => (e.1, R.verdict e.2)) field := by
  rw [fieldValue, fieldVerdict, itemOf_map, itemOf_map]
  cases hv : itemOf field.name data with
  | some v =>
    rw [Option.map_some, Option.map_some]
    have hverdict := ih _ (itemOf_mem hv) field.hint field.name
    refine Eq.trans ?_ hverdict
    change Except.map _ (Except.mapError _ (Except.map _
      (R.coerceValue v field.hint field.name))) =
        R.abstract (R.coerceValue v field.hint field.name)
    cases R.coerceValue v field.hint field.name with
    | ok r => rfl
    | error err => rfl
  | none =>
    rw [Option.map_none, Option.map_none]
    cases field.default with
    | some w => rfl
    | none => rfl

theorem abstract_unknown (cls : κ) (keys : List (DataValue κ φ)) :
    (R.checkUnknown cls keys).mapError CoerceError.refusal = R.unknownVerdict cls keys := by
  rw [checkUnknown, unknownVerdict]
  split
  · rfl
  · have hnames : ((R.unknown cls keys).mapM DataValue.strOf).isSome =
        (R.unknown cls keys).all fun k => k.strOf.isSome := by
      induction R.unknown cls keys with
      | nil => rfl
      | cons k ks ih =>
        rw [List.mapM_cons, List.all_cons, ← ih]
        cases k.strOf with
        | none => rfl
        | some s =>
          cases ks.mapM DataValue.strOf with
          | none => rfl
          | some names => rfl
    rw [← hnames]
    cases (R.unknown cls keys).mapM DataValue.strOf with
    | none => rfl
    | some names => rfl

theorem abstract_model (cls : κ) (data : List (DataValue κ φ × DataValue κ φ))
    (ih : ∀ e ∈ data, ∀ tp name, R.abstract (R.coerceValue e.2 tp name) = R.verdict e.2 tp) :
    R.abstract (R.validateModel cls data) =
      R.modelVerdict cls (data.map fun e => (e.1, R.verdict e.2)) := by
  have hkeys {γ : Type} (f : DataValue κ φ → γ) :
      (data.map fun e => (e.1, f e.2)).map Prod.fst = data.map Prod.fst := by
    rw [List.map_map]
    rfl
  have hobject : ∀ fields : List (Str × DataValue κ φ),
      R.abstract (.ok (.object cls fields)) =
        R.instanceVerdict cls (fields.map fun p => R.hashable p.2) := by
    intro fields
    change Except.ok (R.hashable (.object cls fields)) = _
    rw [hashable, fieldsHashable_eq, instanceVerdict, List.all_map, List.all_map]
    cases R.hashRule cls <;> rfl
  rw [validateModel, buildModel, modelVerdict, hkeys, hkeys, ← abstract_unknown]
  cases R.checkUnknown cls (data.map Prod.fst) with
  | error err => rfl
  | ok u =>
    refine (R.abstract_bind _ _ _ _ hobject (R.fields cls)).trans ?_
    exact congrArg (· >>= _) (Traverse.except_congr fun field _ => R.abstract_field data field ih)

/-- The verdict says how `coerce_value` ends. -/
theorem abstract_coerceValue (value : DataValue κ φ) (tp : TypeHint κ) :
    ∀ name, R.abstract (R.coerceValue value tp name) = R.verdict value tp := by
  induction value, tp using coercion_induction with
  | scalar v tp h =>
    intro name
    rw [coerceValue_scalar _ _ _ h, verdict_scalar _ _ h, abstract_scalar]
  | union v members ih =>
    intro name
    rw [coerceValue_union, verdict_union]
    split
    · rfl
    · rw [abstract_firstMatch, List.map_map]
      exact congrArg firstTaken (List.map_congr_left fun m hm => ih m hm name)
  | container v kind item ih =>
    intro name
    exact R.abstract_container v kind item ih
  | fixedTuple v types ih =>
    intro name
    rw [coerceValue_fixedTuple, verdict_fixedTuple]
    exact R.abstract_container v _ _ ih
  | dict entries key val ih =>
    intro name
    rw [coerceValue_dict, verdict_dict]
    refine (R.abstract_bind (R.coerceEntry key val name) (fun _ => ())
      (fun out => .ok (.dict (dictOf R.same out))) (fun _ => .ok false)
      (fun _ => rfl) entries).trans ?_
    exact congrArg (· >>= _) (Traverse.except_congr fun e he =>
      R.abstract_entry key val e (ih e he).1 (ih e he).2)
  | model entries cls ih =>
    intro name
    rw [coerceValue_model, verdict_model]
    exact R.abstract_model cls entries ih
  | noDict v tp hobject hdict =>
    intro name
    rw [coerceValue_noDict _ _ _ hobject hdict, verdict_noDict _ _ hobject hdict]
    rfl

end Interpreter

end Sovereign
