import Sovereign.Lib.References
import Sovereign.OpenApi
import Sovereign.Validation

namespace Sovereign
set_option autoImplicit true

/-- The `type` of a schema without parts. -/
inductive SchemaType where
  | string
  | integer
  | number
  | boolean
deriving DecidableEq

/-- What `schema_for_type` writes. -/
inductive Schema where
  | empty
  | scalar (type : SchemaType)
  | array (items : Schema)
  /-- an `object` with `additionalProperties` -/
  | map (values : Schema)
  /-- an `object` with these properties and no others -/
  | model (properties : List (Str × Schema)) (required : List Str)
  | anyOf (members : List Schema)
  | nullable (schema : Schema)

/-- The schema of a union, from those of its members other than `None`. -/
def unionSchema (nullable : Bool) (schemas : List Schema) : Schema :=
  let out :=
    match schemas with
    | [] => .empty
    | [schema] => schema
    | _ => .anyOf schemas
  if nullable then .nullable out else out

/-- The properties and the required names of a schema. -/
def Schema.asModel : Schema → ModelSchema Schema
  | model properties required => { properties := (∅ : Dict Str Schema).update properties, required }
  | _ => { properties := ∅, required := [] }

/-- `none` is a `RecursionError`, one of the `RuntimeError`s. -/
def orRecursionError : Option α → Except Exc α
  | some a => .ok a
  | none => .error (.builtin .runtimeError)

theorem orRecursionError_ok {x : Option α} :
    (∃ a, orRecursionError x = .ok a) ↔ x.isSome = true := by
  cases x with
  | none => exact ⟨fun ⟨_, h⟩ => (by cases h), fun h => absurd h Bool.false_ne_true⟩
  | some a => exact ⟨fun _ => rfl, fun _ => ⟨a, rfl⟩⟩

/-- The dataclasses that `schema_for_type` comes to from an annotation. -/
def TypeHint.mentions : TypeHint κ → List κ
  | union members => (candidates members).attach.flatMap fun m => mentions m.1
  | container _ item => mentions item
  | fixedTuple types => mentions (itemType types)
  | dict _ val => mentions val
  | model cls => [cls]
  | _ => []
termination_by tp => sizeOf tp
decreasing_by
  · exact sizeOf_candidate m.2
  · exact sizeOf_item _ _
  · exact sizeOf_itemType types
  · rw [TypeHint.dict.sizeOf_spec]
    omega

theorem TypeHint.mentions_union (members : List (TypeHint κ)) :
    (union members).mentions = (candidates members).flatMap mentions := by
  rw [mentions]
  exact congrArg List.flatten (List.attach_map_val (f := mentions))

/-- The induction that `schema_for_type` goes by within one dataclass. -/
theorem hint_induction {motive : TypeHint κ → Prop}
    (scalar : ∀ tp, tp.isScalar = true → motive tp)
    (union : ∀ members, (∀ m ∈ TypeHint.candidates members, motive m) → motive (.union members))
    (container : ∀ kind item, motive item → motive (.container kind item))
    (fixedTuple : ∀ types, motive (TypeHint.itemType types) → motive (.fixedTuple types))
    (dict : ∀ key val, motive val → motive (.dict key val))
    (model : ∀ cls, motive (.model cls)) (tp : TypeHint κ) : motive tp := by
  have recurse (s : TypeHint κ) (hlt : sizeOf s < sizeOf tp) : motive s :=
    hint_induction scalar union container fixedTuple dict model s
  cases tp with
  | union members => exact union members fun m hm => recurse m (TypeHint.sizeOf_candidate hm)
  | container kind item =>
    exact container kind item (recurse item (TypeHint.sizeOf_item kind item))
  | fixedTuple types => exact fixedTuple types (recurse _ (TypeHint.sizeOf_itemType types))
  | dict key val =>
    refine dict key val (recurse val ?_)
    rw [TypeHint.dict.sizeOf_spec]
    omega
  | model cls => exact model cls
  | _ => exact scalar _ rfl
termination_by sizeOf tp
decreasing_by exact hlt

namespace Interpreter

variable (R : Interpreter κ φ)

/-- `required` -/
def requiredNames (cls : κ) : List Str :=
  ((R.fields cls).filter fun field => field.default.isNone).map DataField.name

/-- `schema_for_type`; `none` is a `RecursionError`. The limit is how many calls of
`schema_for_dataclass` the stack has room for. -/
def schemaForType (limit : Nat) (tp : TypeHint κ) : Option Schema :=
  match tp with
  | .any => some .empty
  | .bool => some (.scalar .boolean)
  | .int => some (.scalar .integer)
  | .float => some (.scalar .number)
  | .str => some (.scalar .string)
  | .bytes => some (.scalar .string)
  | .plain _ => some (.scalar .string)
  | .union members => do
    let schemas ← (TypeHint.candidates members).attach.mapM fun sub => schemaForType limit sub.1
    return unionSchema (members.any TypeHint.isNone) schemas
  | .container _ item => do
    let items ← schemaForType limit item
    return .array items
  | .fixedTuple types => do
    let items ← schemaForType limit (TypeHint.itemType types)
    return .array items
  | .dict _ val => do
    let values ← schemaForType limit val
    return .map values
  | .model cls =>
    match limit with
    | 0 => none
    | limit + 1 => do
      let schemas ← (R.fields cls).mapM fun field => schemaForType limit field.hint
      return .model (((R.fields cls).map DataField.name).zip schemas) (R.requiredNames cls)
termination_by (limit, sizeOf tp)
decreasing_by
  · exact .right _ (TypeHint.sizeOf_candidate sub.2)
  · exact .right _ (TypeHint.sizeOf_item _ item)
  · exact .right _ (TypeHint.sizeOf_itemType types)
  · exact .right _ (by rw [TypeHint.dict.sizeOf_spec]; omega)
  · exact .left _ _ (Nat.lt_succ_self limit)

/-- `schema_for_dataclass` -/
def schemaForDataclass (limit : Nat) (cls : κ) : Option Schema := R.schemaForType limit (.model cls)

/-- What `Router.openapi` has of the schemas. -/
def schemas (limit : Nat) : Schemas κ Schema where
  isDataclass := fun _ => true
  schemaForDataclass := fun cls =>
    orRecursionError ((R.schemaForDataclass limit cls).map Schema.asModel)
  string := .scalar .string

/-- The dataclasses in the annotations of the fields. -/
def references (cls : κ) : List κ := (R.fields cls).flatMap fun field => field.hint.mentions

theorem schemaForType_union (limit : Nat) (members : List (TypeHint κ)) :
    R.schemaForType limit (.union members) =
      ((TypeHint.candidates members).mapM (R.schemaForType limit)).map
        (unionSchema (members.any TypeHint.isNone)) := by
  rw [schemaForType, Traverse.mapM_attach]
  cases (TypeHint.candidates members).mapM (R.schemaForType limit) <;> rfl

theorem schemaForType_container (limit : Nat) (kind : ContainerKind) (item : TypeHint κ) :
    R.schemaForType limit (.container kind item) = (R.schemaForType limit item).map .array := by
  rw [schemaForType]
  cases R.schemaForType limit item <;> rfl

theorem schemaForType_fixedTuple (limit : Nat) (types : List (TypeHint κ)) :
    R.schemaForType limit (.fixedTuple types) =
      (R.schemaForType limit (TypeHint.itemType types)).map .array := by
  rw [schemaForType]
  cases R.schemaForType limit (TypeHint.itemType types) <;> rfl

theorem schemaForType_dict (limit : Nat) (key val : TypeHint κ) :
    R.schemaForType limit (.dict key val) = (R.schemaForType limit val).map .map := by
  rw [schemaForType]
  cases R.schemaForType limit val <;> rfl

theorem schemaForType_model (limit : Nat) (cls : κ) :
    R.schemaForType (limit + 1) (.model cls) =
      ((R.fields cls).mapM fun field => R.schemaForType limit field.hint).map fun schemas =>
        .model (((R.fields cls).map DataField.name).zip schemas) (R.requiredNames cls) := by
  rw [schemaForType]
  cases (R.fields cls).mapM fun field => R.schemaForType limit field.hint <;> rfl

theorem fields_isSome {limit : Nat}
    (ih : ∀ tp : TypeHint κ, (R.schemaForType limit tp).isSome = true ↔
      ∀ d ∈ tp.mentions, References.Within R.references limit d) (cls : κ) :
    ((R.fields cls).mapM fun field => R.schemaForType limit field.hint).isSome = true ↔
      References.Within R.references (limit + 1) cls := by
  rw [Traverse.option_isSome]
  constructor
  · intro h d hd
    obtain ⟨field, hfield, hmention⟩ := List.mem_flatMap.1 hd
    exact (ih field.hint).1 (h field hfield) d hmention
  · intro h field hfield
    exact (ih field.hint).2 fun d hd => h d (List.mem_flatMap.2 ⟨field, hfield, hd⟩)

theorem isSome_of_models {limit : Nat}
    (hmodel : ∀ cls, (R.schemaForType limit (.model cls)).isSome = true ↔
      References.Within R.references limit cls) (tp : TypeHint κ) :
    (R.schemaForType limit tp).isSome = true ↔
      ∀ d ∈ tp.mentions, References.Within R.references limit d := by
  induction tp using hint_induction with
  | scalar tp htp =>
    cases tp with
    | union | container | fixedTuple | dict | model => cases htp
    | _ => simp [schemaForType, TypeHint.mentions]
  | union members ih =>
    rw [schemaForType_union, Option.isSome_map, Traverse.option_isSome, TypeHint.mentions_union]
    constructor
    · intro h d hd
      obtain ⟨m, hm, hmention⟩ := List.mem_flatMap.1 hd
      exact (ih m hm).1 (h m hm) d hmention
    · intro h m hm
      exact (ih m hm).2 fun d hd => h d (List.mem_flatMap.2 ⟨m, hm, hd⟩)
  | container kind item ih =>
    rw [schemaForType_container, Option.isSome_map, ih, TypeHint.mentions]
  | fixedTuple types ih =>
    rw [schemaForType_fixedTuple, Option.isSome_map, ih, TypeHint.mentions]
  | dict key val ih => rw [schemaForType_dict, Option.isSome_map, ih, TypeHint.mentions]
  | model cls => rw [hmodel, TypeHint.mentions, List.forall_mem_singleton]

/-- The stack suffices just if it does for the dataclasses in the annotation. -/
theorem schemaForType_isSome (limit : Nat) (tp : TypeHint κ) :
    (R.schemaForType limit tp).isSome = true ↔
      ∀ d ∈ tp.mentions, References.Within R.references limit d := by
  induction limit generalizing tp with
  | zero =>
    refine R.isSome_of_models (fun cls => ?_) tp
    rw [schemaForType]
    exact ⟨fun h => absurd h Bool.false_ne_true, fun h => absurd h id⟩
  | succ limit ih =>
    refine R.isSome_of_models (fun cls => ?_) tp
    rw [schemaForType_model, Option.isSome_map]
    exact R.fields_isSome ih cls

theorem schemaForDataclass_isSome (limit : Nat) (cls : κ) :
    (R.schemaForDataclass limit cls).isSome = true ↔ References.Within R.references limit cls := by
  rw [schemaForDataclass, schemaForType_isSome, TypeHint.mentions, List.forall_mem_singleton]

/-- Every chain of references from the dataclass ends. -/
def ReferencesEnd (cls : κ) : Prop :=
  ∀ chain : Nat → κ, chain 0 = cls →
    ∃ n, ¬ References.Refers R.references (chain n) (chain (n + 1))

/-- In an application with finitely many dataclasses, none that is reached leads back to itself. -/
theorem referencesEnd_iff_finite [Finite κ] (cls : κ) :
    R.ReferencesEnd cls ↔
      ∀ d, Relation.ReflTransGen (References.Refers R.references) cls d →
        ¬ Relation.TransGen (References.Refers R.references) d d :=
  References.exists_within_iff.symm.trans References.exists_within_iff_finite

theorem schemas_ok (limit : Nat) (cls : κ) :
    (∃ schema, (R.schemas limit).schemaForDataclass cls = .ok schema) ↔
      References.Within R.references limit cls := by
  rw [← schemaForDataclass_isSome, ← Option.isSome_map, ← orRecursionError_ok]
  rfl

end Interpreter

theorem optionMapM_ok {f : α → Except Exc β} {o : Option α} :
    (∃ b, o.mapM f = .ok b) ↔ ∀ a, o = some a → ∃ b, f a = .ok b := by
  cases o with
  | none => exact ⟨fun _ a h => (by cases h), fun _ => ⟨none, rfl⟩⟩
  | some a =>
    constructor
    · intro ⟨b, h⟩ a' ha
      cases ha
      obtain ⟨b', hb, _⟩ := except_bind_eq_ok.1 h
      exact ⟨b', hb⟩
    · intro h
      obtain ⟨b, hb⟩ := h a rfl
      exact ⟨some b, except_bind_eq_ok.2 ⟨b, hb, rfl⟩⟩

/-- An operation needs the schemas of the models of its handler. -/
theorem operation_ok {schemas : Schemas μ ι} {route : TableRoute σ μ} :
    (∃ op, operation schemas route = .ok op) ↔
      (∀ m, route.handler.bodyModel = some m → ∃ s, schemas.schemaForDataclass m = .ok s) ∧
      ∀ m, route.handler.queryModel.filter schemas.isDataclass = some m →
        ∃ s, schemas.schemaForDataclass m = .ok s := by
  have hquery (m : μ) : (∃ params, (schemas.schemaForDataclass m >>= fun schema =>
      Except.ok (queryParameters schema)) = .ok params) ↔
        ∃ s, schemas.schemaForDataclass m = .ok s := by
    constructor
    · intro ⟨params, h⟩
      obtain ⟨s, hs, _⟩ := except_bind_eq_ok.1 h
      exact ⟨s, hs⟩
    · intro ⟨s, hs⟩
      exact ⟨queryParameters s, except_bind_eq_ok.2 ⟨s, hs, rfl⟩⟩
  refine Iff.trans ?_ (and_congr optionMapM_ok
    (optionMapM_ok.trans (forall₂_congr fun m _ => hquery m)))
  constructor
  · intro ⟨op, h⟩
    obtain ⟨body, hbody, h⟩ := except_bind_eq_ok.1 h
    obtain ⟨query, hq, _⟩ := except_bind_eq_ok.1 h
    exact ⟨⟨body, hbody⟩, query, hq⟩
  · intro ⟨⟨body, hbody⟩, query, hq⟩
    exact ⟨_, except_bind_eq_ok.2 ⟨body, hbody, except_bind_eq_ok.2 ⟨query, hq, rfl⟩⟩⟩

theorem openapi_ok {schemas : Schemas μ ι} {routes : List (TableRoute σ μ)} :
    (∃ doc, openapi schemas routes = .ok doc) ↔
      ∀ route ∈ routes, ∃ op, operation schemas route = .ok op := by
  induction routes using List.reverseRecOn with
  | nil => exact ⟨fun _ route h => absurd h List.not_mem_nil, fun _ => ⟨_, rfl⟩⟩
  | append_singleton routes route ih =>
    rw [List.forall_mem_append, List.forall_mem_singleton, ← ih]
    constructor
    · intro ⟨doc, h⟩
      obtain ⟨doc', op, hdoc, hop, _⟩ := openapi_append h
      exact ⟨⟨doc', hdoc⟩, op, hop⟩
    · intro ⟨⟨doc, hdoc⟩, op, hop⟩
      obtain ⟨paths, hpaths, _⟩ := except_bind_eq_ok.1 hdoc
      refine ⟨{ paths := setOperation paths (pathKey route.pattern) (lower route.method) op },
        except_bind_eq_ok.2 ⟨_, ?_, rfl⟩⟩
      rw [List.foldlM_append]
      refine except_bind_eq_ok.2 ⟨paths, hpaths, ?_⟩
      rw [List.foldlM_cons]
      exact except_bind_eq_ok.2 ⟨_, except_bind_eq_ok.2 ⟨op, hop, rfl⟩, rfl⟩

namespace Interpreter

variable (R : Interpreter κ φ)

/-- A stack of some depth suffices for the schema of a dataclass just if all chains of references
from it end, and for the OpenAPI document just if those from the registered models do. -/
theorem schemaForDataclass_terminates_iff (cls : κ) (routes : List (TableRoute σ κ)) :
    ((∃ limit, (R.schemaForDataclass limit cls).isSome = true) ↔ R.ReferencesEnd cls) ∧
    ((∃ limit doc, openapi (R.schemas limit) routes = .ok doc) ↔
      ∀ route ∈ routes, ∀ m, route.handler.bodyModel = some m ∨ route.handler.queryModel = some m →
        R.ReferencesEnd m) := by
  constructor
  · simp only [schemaForDataclass_isSome]
    exact References.exists_within_iff
  · have hfilter (m : Option κ) (limit : Nat) :
        m.filter (R.schemas limit).isDataclass = m := by
      cases m <;> rfl
    simp only [openapi_ok, operation_ok, hfilter, schemas_ok]
    constructor
    · intro ⟨limit, h⟩ route hroute m hm
      refine References.exists_within_iff.1 ⟨limit, ?_⟩
      exact hm.elim ((h route hroute).1 m) ((h route hroute).2 m)
    · intro h
      have hlimit : ∃ limit, ∀ m ∈ routes.flatMap fun route =>
          route.handler.bodyModel.toList ++ route.handler.queryModel.toList,
          References.Within R.references limit m := by
        refine References.within_all fun m hm => References.exists_within_iff.2 ?_
        obtain ⟨route, hroute, hmodel⟩ := List.mem_flatMap.1 hm
        rw [List.mem_append, Option.mem_toList, Option.mem_toList] at hmodel
        exact h route hroute m hmodel
      obtain ⟨limit, hlimit⟩ := hlimit
      refine ⟨limit, fun route hroute => ⟨fun m hm => ?_, fun m hm => ?_⟩⟩
      · refine hlimit m (List.mem_flatMap.2 ⟨route, hroute, List.mem_append_left _ ?_⟩)
        exact Option.mem_toList.2 hm
      · refine hlimit m (List.mem_flatMap.2 ⟨route, hroute, List.mem_append_right _ ?_⟩)
        exact Option.mem_toList.2 hm

/-- A node of a tree: a number and a list of nodes. -/
def nodeModel : Interpreter Unit ℚ :=
  ofFields (fun _ => [{ name := "value".toList, hint := .int },
    { name := "children".toList, hint := .container .list (.model ()) }])
    fun _ => "Node".toList

/-- A leaf is validated, but no stack is deep enough for the schema of a node. -/
theorem schemaForDataclass_recursive :
    (∃ r, nodeModel.validateModel () [(.str "value".toList, .int 1),
      (.str "children".toList, .container .list [])] = .ok r) ∧
    ∀ limit, nodeModel.schemaForDataclass limit () = none := by
  constructor
  · refine ⟨.object () [("value".toList, .int 1), ("children".toList, .container .list [])], ?_⟩
    refine nodeModel.validateModel_ok.2 ⟨fun e he => ?_, _, rfl, Traverse.except_iff.2 ?_⟩
    · obtain rfl | he := List.mem_cons.1 he
      · exact ⟨_, List.mem_cons_self, rfl⟩
      · obtain rfl := List.mem_singleton.1 he
        exact ⟨_, List.mem_cons_of_mem _ List.mem_cons_self, rfl⟩
    · refine .cons (nodeModel.fieldValue_ok.2 ⟨rfl, fun v hv => ?_, ?_⟩)
        (.cons (nodeModel.fieldValue_ok.2 ⟨rfl, fun v hv => ?_, ?_⟩) .nil)
      · cases hv
        exact coerceValue_scalar _ _ _ rfl
      · exact fun h => absurd h (by decide)
      · cases hv
        exact coerceValue_container _ _ _ _ _
      · exact fun h => absurd h (by decide)
  · intro limit
    rw [← Option.not_isSome_iff_eq_none, schemaForDataclass_isSome]
    intro h
    have hself : References.Refers nodeModel.references () () := by
      refine List.mem_flatMap.2 ⟨_, List.mem_cons_of_mem _ List.mem_cons_self, ?_⟩
      rw [TypeHint.mentions, TypeHint.mentions]
      exact List.mem_singleton_self ()
    exact References.exists_within_iff_finite.1 ⟨limit, h⟩ () .refl (.single hself)

end Interpreter

end Sovereign
