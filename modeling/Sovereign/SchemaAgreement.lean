import Sovereign.Schema
import Sovereign.Verdict

namespace Sovereign
set_option autoImplicit true

theorem firstTaken_ok {verdicts : List Verdict} :
    firstTaken verdicts = .ok b ↔
      ∃ before after, verdicts = before ++ .ok b :: after ∧
        ∀ a ∈ before, a = .error .refused := by
  induction verdicts with
  | nil =>
    refine ⟨fun h => (by cases h), fun ⟨before, after, h, _⟩ => ?_⟩
    cases before with
    | nil => cases h
    | cons => cases h
  | cons a rest ih =>
    constructor
    · intro h
      cases a with
      | ok c =>
        cases h
        exact ⟨[], rest, rfl, fun _ h => absurd h List.not_mem_nil⟩
      | error refusal =>
        cases refusal with
        | raised => cases h
        | refused =>
          obtain ⟨before, after, rfl, hbefore⟩ := ih.1 h
          exact ⟨.error .refused :: before, after, rfl, List.forall_mem_cons.2 ⟨rfl, hbefore⟩⟩
    · intro ⟨before, after, h, hbefore⟩
      cases before with
      | nil =>
        obtain ⟨rfl, rfl⟩ := List.cons.inj h
        rfl
      | cons c before =>
        obtain ⟨rfl, rfl⟩ := List.cons.inj h
        obtain ⟨rfl, hrest⟩ := List.forall_mem_cons.1 hbefore
        exact ih.2 ⟨before, after, rfl, hrest⟩

theorem containerVerdict_ok {kind : ContainerKind} {items : List Bool} :
    (∃ b, containerVerdict kind items = .ok b) ↔
      (kind.isSet = true → items.all id = true) := by
  cases kind with
  | list => exact ⟨fun _ h => absurd h Bool.false_ne_true, fun _ => ⟨_, rfl⟩⟩
  | tuple => exact ⟨fun _ h => absurd h Bool.false_ne_true, fun _ => ⟨_, rfl⟩⟩
  | set =>
    rw [containerVerdict]
    split
    · next hall => exact ⟨fun _ _ => hall, fun _ => ⟨_, rfl⟩⟩
    · next hall =>
      refine ⟨fun h => ?_, fun h => absurd (h rfl) hall⟩
      obtain ⟨_, h⟩ := h
      cases h
  | frozenset =>
    rw [containerVerdict]
    split
    · next hall => exact ⟨fun _ _ => hall, fun _ => ⟨_, rfl⟩⟩
    · next hall =>
      refine ⟨fun h => ?_, fun h => absurd (h rfl) hall⟩
      obtain ⟨_, h⟩ := h
      cases h

/-- A value that `json.loads` returns. -/
inductive DataValue.IsJson : DataValue κ φ → Prop where
  | null : IsJson .none
  | bool : IsJson (.bool b)
  | int : IsJson (.int n)
  | float : IsJson (.float x)
  | str : IsJson (.str s)
  | array (h : ∀ w ∈ elements, IsJson w) : IsJson (.container .list elements)
  | object {entries : List (DataValue κ φ × DataValue κ φ)}
      (hkeys : ∀ e ∈ entries, ∃ s, e.1 = .str s) (h : ∀ e ∈ entries, IsJson e.2) :
      IsJson (.dict entries)

namespace Interpreter

variable (R : Interpreter κ φ)

/-- The value is valid under the schema. -/
inductive Valid : Schema → DataValue κ φ → Prop where
  | empty : Valid .empty v
  | string : Valid (.scalar .string) (.str s)
  | integer : Valid (.scalar .integer) (.int n)
  | integral (h : R.isInteger x = true) : Valid (.scalar .integer) (.float x)
  | number : Valid (.scalar .number) (.int n)
  | float : Valid (.scalar .number) (.float x)
  | boolean : Valid (.scalar .boolean) (.bool b)
  | array (h : ∀ w ∈ items, Valid schema w) : Valid (.array schema) (.container .list items)
  | map (h : ∀ e ∈ entries, Valid schema e.2) : Valid (.map schema) (.dict entries)
  | model (hknown : ∀ e ∈ data, ∃ p ∈ properties, e.1 = .str p.1)
      (hrequired : ∀ name ∈ required, ∃ v, itemOf name data = some v)
      (h : ∀ p ∈ properties, ∀ v, itemOf p.1 data = some v → Valid p.2 v) :
      Valid (.model properties required) (.dict data)
  | anyOf (hm : schema ∈ members) (h : Valid schema v) : Valid (.anyOf members) v
  | null : Valid (.nullable schema) .none
  | nonNull (h : Valid schema v) : Valid (.nullable schema) v

/-- The value is valid under the schema of the annotation. -/
def ValidFor (v : DataValue κ φ) (tp : TypeHint κ) : Prop :=
  ∃ limit schema, R.schemaForType limit tp = some schema ∧ R.Valid schema v

/-- `coerce_value` has a result. -/
def Takes (v : DataValue κ φ) (tp : TypeHint κ) : Prop := ∃ b, R.verdict v tp = .ok b

/-- Where schema and validator could part, they do not, for a value that is valid under the schema:
integers that become floats are not too large, classes that the schema takes for strings have the
value as an instance, elements of sets can be hashed, keys of dicts are taken, and a union comes to
a member that takes the value before one that raises another exception. -/
inductive Agrees : TypeHint κ → DataValue κ φ → Prop where
  | any : Agrees .any v
  | bool : Agrees .bool v
  | int : Agrees .int v
  | float (h : ∀ n, v = .int n → (R.floatOfInt n).isSome = true) : Agrees .float v
  | str : Agrees .str v
  | bytes : Agrees .bytes v
  | plain (h : R.isInstanceOf v cls = true) : Agrees (.plain cls) v
  | none (h : members.any TypeHint.isNone = true) : Agrees (.union members) .none
  | valid (hnone : (members.any TypeHint.isNone && v.isNone) = false)
      (hmembers : TypeHint.candidates members = before ++ m :: after)
      (hbefore : ∀ b ∈ before, R.verdict v b = .error .refused) (hvalid : R.ValidFor v m)
      (h : Agrees m v) : Agrees (.union members) v
  | converted (hnone : (members.any TypeHint.isNone && v.isNone) = false)
      (hmembers : TypeHint.candidates members = before ++ m :: after)
      (hbefore : ∀ b ∈ before, R.verdict v b = .error .refused) (hvalid : ¬ R.ValidFor v m)
      (h : R.Takes v m) : Agrees (.union members) v
  | container (hset : kind.isSet = true → ∀ w ∈ items, R.verdict w item = .ok true)
      (h : ∀ w ∈ items, Agrees item w) :
      Agrees (.container kind item) (.container .list items)
  | fixedTuple (h : ∀ w ∈ items, Agrees (TypeHint.itemType types) w) :
      Agrees (.fixedTuple types) (.container .list items)
  | dict (hkeys : ∀ e ∈ entries, R.verdict e.1 key = .ok true) (h : ∀ e ∈ entries, Agrees val e.2) :
      Agrees (.dict key val) (.dict entries)
  | model (h : ∀ field ∈ R.fields cls, ∀ v, itemOf field.name data = some v →
        Agrees field.hint v) :
      Agrees (.model cls) (.dict data)

variable {R}

theorem takes_iff (name : Str) {v : DataValue κ φ} {tp : TypeHint κ} :
    (∃ r, R.coerceValue v tp name = .ok r) ↔ R.Takes v tp := by
  rw [Takes, ← R.abstract_coerceValue v tp name]
  cases R.coerceValue v tp name with
  | ok r => exact ⟨fun _ => ⟨_, rfl⟩, fun _ => ⟨r, rfl⟩⟩
  | error err => exact ⟨fun ⟨_, h⟩ => (by cases h), fun ⟨_, h⟩ => (by cases h)⟩

theorem takes_union {v : DataValue κ φ} {members : List (TypeHint κ)}
    (hnone : (members.any TypeHint.isNone && v.isNone) = false) :
    R.Takes v (.union members) ↔
      ∃ before m after, TypeHint.candidates members = before ++ m :: after ∧
        (∀ b ∈ before, R.verdict v b = .error .refused) ∧ R.Takes v m := by
  rw [Takes, verdict_union, hnone, if_neg Bool.false_ne_true]
  constructor
  · intro ⟨c, h⟩
    obtain ⟨before, after, hverdicts, hbefore⟩ := firstTaken_ok.1 h
    obtain ⟨refusing, rest, hmembers, rfl, hrest⟩ := List.map_eq_append_iff.1 hverdicts
    obtain ⟨m, others, rfl, hm, _⟩ := List.map_eq_cons_iff.1 hrest
    exact ⟨refusing, m, others, hmembers, List.forall_mem_map.1 hbefore, c, hm⟩
  · intro ⟨before, m, after, hmembers, hbefore, c, hm⟩
    refine ⟨c, firstTaken_ok.2 ⟨_, after.map (R.verdict v), ?_, List.forall_mem_map.2 hbefore⟩⟩
    rw [hmembers, List.map_append, List.map_cons, hm]

theorem takes_container {v : DataValue κ φ} {kind : ContainerKind} {item : TypeHint κ} :
    R.Takes v (.container kind item) ↔
      (∀ w ∈ v.items, R.Takes w item) ∧
      (kind.isSet = true → ∀ w ∈ v.items, R.verdict w item = .ok true) := by
  rw [Takes, verdict_container]
  constructor
  · intro ⟨c, h⟩
    obtain ⟨items, hitems, h⟩ := except_bind_eq_ok.1 h
    refine ⟨Traverse.exists_ok.1 ⟨items, hitems⟩, fun hset w hw => ?_⟩
    have hall := List.all_eq_true.1 (containerVerdict_ok.1 ⟨c, h⟩ hset)
    obtain ⟨b, hb, hwb⟩ := Traverse.except_mem hitems hw
    exact hwb.trans (congrArg _ (hall b hb))
  · intro ⟨htakes, hset⟩
    obtain ⟨items, hitems⟩ := Traverse.exists_ok.2 htakes
    have hverdict : ∃ b, containerVerdict kind items = .ok b := by
      refine containerVerdict_ok.2 fun h => List.all_eq_true.2 fun b hb => ?_
      obtain ⟨w, hw, hwb⟩ := Traverse.except_mem_result hitems hb
      rw [hset h w hw] at hwb
      exact (Except.ok.inj hwb).symm
    obtain ⟨b, hb⟩ := hverdict
    exact ⟨b, except_bind_eq_ok.2 ⟨items, hitems, hb⟩⟩

theorem entryVerdict_ok {key val : TypeHint κ} {e : DataValue κ φ × DataValue κ φ} :
    (∃ u, R.entryVerdict key val e = .ok u) ↔
      R.verdict e.1 key = .ok true ∧ (∃ text, R.toStr e.1 = .ok text) ∧ R.Takes e.2 val := by
  constructor
  · intro ⟨u, h⟩
    obtain ⟨k, hk, h⟩ := except_bind_eq_ok.1 h
    obtain ⟨text, htext, h⟩ := except_bind_eq_ok.1 h
    obtain ⟨v, hv, h⟩ := except_bind_eq_ok.1 h
    split at h
    · next hhash => exact ⟨hhash ▸ hk, ⟨text, mapError_eq_ok.1 htext⟩, v, hv⟩
    · cases h
  · intro ⟨hk, ⟨text, htext⟩, v, hv⟩
    refine ⟨(), except_bind_eq_ok.2 ⟨true, hk, ?_⟩⟩
    exact except_bind_eq_ok.2 ⟨text, mapError_eq_ok.2 htext, except_bind_eq_ok.2 ⟨v, hv, rfl⟩⟩

theorem takes_dict {entries : List (DataValue κ φ × DataValue κ φ)} {key val : TypeHint κ} :
    R.Takes (.dict entries) (.dict key val) ↔
      ∀ e ∈ entries, R.verdict e.1 key = .ok true ∧ (∃ text, R.toStr e.1 = .ok text) ∧
        R.Takes e.2 val := by
  simp only [← entryVerdict_ok]
  rw [Takes, verdict_dict, ← Traverse.exists_ok]
  constructor
  · intro ⟨b, h⟩
    obtain ⟨us, hus, _⟩ := except_map_eq_ok.1 h
    exact ⟨us, hus⟩
  · intro ⟨us, hus⟩
    exact ⟨false, except_map_eq_ok.2 ⟨us, hus, rfl⟩⟩

theorem takes_model {data : List (DataValue κ φ × DataValue κ φ)} {cls : κ} :
    R.Takes (.dict data) (.model cls) ↔
      (∀ e ∈ data, ∃ field ∈ R.fields cls, e.1 = .str field.name) ∧
      (∀ field ∈ R.fields cls, field.default = none → ∃ v, itemOf field.name data = some v) ∧
      ∀ field ∈ R.fields cls, ∀ v, itemOf field.name data = some v →
        R.Takes v field.hint := by
  rw [← takes_iff [], coerceValue_model, validateModel_isOk]
  simp only [takes_iff]

theorem judge_ok {x : Except PyError α} : (∃ b, judge x = .ok b) ↔ ∃ a, x = .ok a := by
  cases x with
  | ok a => exact ⟨fun _ => ⟨a, rfl⟩, fun _ => ⟨true, rfl⟩⟩
  | error err =>
    constructor
    · intro h
      obtain ⟨b, h⟩ := h
      rw [judge] at h
      split at h
      · cases h
      · cases h
    · intro h
      obtain ⟨a, h⟩ := h
      cases h

/-- A number is taken for a float if it is one, or an integer that is not too large. -/
theorem takes_float {v : DataValue κ φ} (h : R.Valid (.scalar .number) v) :
    R.Takes v .float ↔ ∀ n, v = .int n → (R.floatOfInt n).isSome = true := by
  rw [Takes, verdict_scalar _ _ rfl, scalarVerdict]
  cases h with
  | number =>
    rename_i n
    change (∃ b, judge (R.toFloat (.int n)) = .ok b) ↔ _
    rw [judge_ok, toFloat]
    constructor
    · intro h n' hn
      obtain ⟨x, hx⟩ := h
      cases hn
      cases hfloat : R.floatOfInt n with
      | some y => rfl
      | none =>
        rw [hfloat] at hx
        cases hx
    · intro h
      obtain ⟨x, hx⟩ := Option.isSome_iff_exists.1 (h n rfl)
      exact ⟨x, by rw [hx]⟩
  | float => exact ⟨fun _ n hn => (by cases hn), fun _ => ⟨true, rfl⟩⟩

theorem takes_int {v : DataValue κ φ} (h : R.Valid (.scalar .integer) v) : R.Takes v .int := by
  rw [Takes, verdict_scalar _ _ rfl, scalarVerdict]
  cases h with
  | integer => exact ⟨true, rfl⟩
  | integral hinteger =>
    obtain ⟨n, hn⟩ := R.truncate_isInteger hinteger
    exact judge_ok.2 ⟨n, hn⟩

theorem agrees_scalar {v : DataValue κ φ} {tp : TypeHint κ} (htp : tp.isScalar = true)
    (hschema : R.schemaForType limit tp = some schema) (h : R.Valid schema v) :
    R.Takes v tp ↔ R.Agrees tp v := by
  cases tp with
  | any =>
    refine ⟨fun _ => .any, fun _ => ?_⟩
    rw [Takes, verdict_scalar _ _ rfl]
    exact ⟨_, rfl⟩
  | bool =>
    refine ⟨fun _ => .bool, fun _ => ?_⟩
    rw [schemaForType] at hschema
    cases hschema
    cases h
    rw [Takes, verdict_scalar _ _ rfl]
    exact ⟨true, rfl⟩
  | int =>
    rw [schemaForType] at hschema
    cases hschema
    exact ⟨fun _ => .int, fun _ => takes_int h⟩
  | float =>
    rw [schemaForType] at hschema
    cases hschema
    rw [takes_float h]
    constructor
    · exact .float
    · intro h
      cases h with
      | float h => exact h
  | str =>
    refine ⟨fun _ => .str, fun _ => ?_⟩
    rw [schemaForType] at hschema
    cases hschema
    cases h
    rw [Takes, verdict_scalar _ _ rfl]
    exact ⟨true, rfl⟩
  | bytes =>
    refine ⟨fun _ => .bytes, fun _ => ?_⟩
    rw [schemaForType] at hschema
    cases hschema
    cases h
    rw [Takes, verdict_scalar _ _ rfl]
    exact ⟨true, rfl⟩
  | plain cls =>
    rw [Takes, verdict_scalar _ _ rfl, scalarVerdict]
    split
    · next hinstance => exact ⟨fun _ => .plain hinstance, fun _ => ⟨_, rfl⟩⟩
    · next hinstance =>
      constructor
      · intro h
        obtain ⟨_, h⟩ := h
        cases h
      · intro h
        cases h with
        | plain h => exact absurd h hinstance
  | _ => cases htp

theorem agrees_union {v : DataValue κ φ} {members : List (TypeHint κ)}
    (ih : ∀ m ∈ TypeHint.candidates members, R.ValidFor v m → (R.Takes v m ↔ R.Agrees m v)) :
    R.Takes v (.union members) ↔ R.Agrees (.union members) v := by
  cases hnone : members.any TypeHint.isNone && v.isNone with
  | true =>
    have htakes : R.Takes v (.union members) := by
      rw [Takes, verdict_union, if_pos hnone]
      exact ⟨true, rfl⟩
    rw [Bool.and_eq_true, DataValue.isNone_iff] at hnone
    obtain ⟨hmember, rfl⟩ := hnone
    exact ⟨fun _ => .none hmember, fun _ => htakes⟩
  | false =>
    rw [takes_union hnone]
    constructor
    · intro ⟨before, m, after, hmembers, hbefore, hm⟩
      by_cases hvalid : R.ValidFor v m
      · refine .valid hnone hmembers hbefore hvalid ((ih m ?_ hvalid).1 hm)
        exact hmembers ▸ List.mem_append_right _ List.mem_cons_self
      · exact .converted hnone hmembers hbefore hvalid hm
    · intro h
      cases h with
      | none hmember =>
        rw [hmember] at hnone
        cases hnone
      | valid _ hmembers hbefore hvalid h =>
        refine ⟨_, _, _, hmembers, hbefore, (ih _ ?_ hvalid).2 h⟩
        exact hmembers ▸ List.mem_append_right _ List.mem_cons_self
      | converted _ hmembers hbefore _ h => exact ⟨_, _, _, hmembers, hbefore, h⟩

/-- The schema of a field is among the properties. -/
theorem property_mem {cls : κ} {schemas : List Schema}
    (h : (R.fields cls).mapM (fun field => R.schemaForType limit field.hint) = some schemas)
    (hfield : field ∈ R.fields cls) :
    ∃ schema, (field.name, schema) ∈ ((R.fields cls).map DataField.name).zip schemas ∧
      R.schemaForType limit field.hint = some schema := by
  rw [Traverse.option_iff] at h
  generalize R.fields cls = fields at h hfield ⊢
  induction h with
  | nil => cases hfield
  | cons hb _ ih =>
    obtain rfl | hfield := List.mem_cons.1 hfield
    · exact ⟨_, List.mem_cons_self, hb⟩
    · obtain ⟨schema, hmem, hschema⟩ := ih hfield
      exact ⟨schema, List.mem_cons_of_mem _ hmem, hschema⟩

theorem agrees_model {cls : κ} {data : List (DataValue κ φ × DataValue κ φ)} {schema : Schema}
    (ih : ∀ field ∈ R.fields cls, ∀ v, itemOf field.name data = some v →
      R.ValidFor v field.hint →
      (R.Takes v field.hint ↔ R.Agrees field.hint v))
    (hschema : R.schemaForType limit (.model cls) = some schema)
    (h : R.Valid schema (.dict data)) :
    R.Takes (.dict data) (.model cls) ↔
      ∀ field ∈ R.fields cls, ∀ v, itemOf field.name data = some v →
        R.Agrees field.hint v := by
  cases limit with
  | zero =>
    rw [schemaForType] at hschema
    cases hschema
  | succ limit =>
    rw [schemaForType_model] at hschema
    obtain ⟨schemas, hschemas, rfl⟩ := Option.map_eq_some_iff.1 hschema
    cases h with
    | model hknown hrequired hvalid =>
      have hfields : ∀ field ∈ R.fields cls, ∀ v, itemOf field.name data = some v →
          (R.Takes v field.hint ↔ R.Agrees field.hint v) := by
        intro field hfield v hv
        obtain ⟨s, hmem, hs⟩ := property_mem hschemas hfield
        exact ih field hfield v hv ⟨limit, s, hs, hvalid _ hmem v hv⟩
      rw [takes_model]
      constructor
      · intro h field hfield v hv
        obtain ⟨_, _, htakes⟩ := h
        exact (hfields field hfield v hv).1 (htakes field hfield v hv)
      · intro hagrees
        refine ⟨fun e he => ?_, fun field hfield hdefault => ?_, fun field hfield v hv => ?_⟩
        · obtain ⟨p, hp, hkey⟩ := hknown e he
          obtain ⟨field, hfield, hname⟩ := List.mem_map.1 (List.of_mem_zip hp).1
          exact ⟨field, hfield, hkey.trans (congrArg _ hname.symm)⟩
        · refine hrequired field.name (List.mem_map_of_mem (List.mem_filter.2 ⟨hfield, ?_⟩))
          rw [hdefault]
          rfl
        · exact (hfields field hfield v hv).2 (hagrees field hfield v hv)

/-- What is valid under the schema of an annotation is taken just if schema and validator agree
about it. -/
theorem takes_iff_agrees (v : DataValue κ φ) (tp : TypeHint κ) :
    v.IsJson → R.ValidFor v tp → (R.Takes v tp ↔ R.Agrees tp v) := by
  induction v, tp using coercion_induction with
  | scalar v tp htp =>
    intro _ ⟨limit, schema, hschema, hvalid⟩
    exact agrees_scalar htp hschema hvalid
  | union v members ih =>
    intro hjson _
    exact agrees_union fun m hm hvalid => ih m hm hjson hvalid
  | container v kind item ih =>
    intro hjson ⟨limit, schema, hschema, hvalid⟩
    rw [schemaForType_container] at hschema
    obtain ⟨s, hs, rfl⟩ := Option.map_eq_some_iff.1 hschema
    cases hvalid with
    | array hitems =>
      cases hjson with
      | array hjson =>
        have hagrees := fun w hw => ih w hw (hjson w hw) ⟨limit, s, hs, hitems w hw⟩
        rw [takes_container]
        constructor
        · intro ⟨htakes, hset⟩
          exact .container hset fun w hw => (hagrees w hw).1 (htakes w hw)
        · intro h
          cases h with
          | container hset h => exact ⟨fun w hw => (hagrees w hw).2 (h w hw), hset⟩
  | fixedTuple v types ih =>
    intro hjson ⟨limit, schema, hschema, hvalid⟩
    rw [schemaForType_fixedTuple] at hschema
    obtain ⟨s, hs, rfl⟩ := Option.map_eq_some_iff.1 hschema
    cases hvalid with
    | array hitems =>
      cases hjson with
      | array hjson =>
        have hagrees := fun w hw => ih w hw (hjson w hw) ⟨limit, s, hs, hitems w hw⟩
        rw [Takes, verdict_fixedTuple, ← Takes, takes_container]
        constructor
        · intro ⟨htakes, _⟩
          exact .fixedTuple fun w hw => (hagrees w hw).1 (htakes w hw)
        · intro h
          cases h with
          | fixedTuple h =>
            exact ⟨fun w hw => (hagrees w hw).2 (h w hw), fun h => absurd h Bool.false_ne_true⟩
  | dict entries key val ih =>
    intro hjson ⟨limit, schema, hschema, hvalid⟩
    rw [schemaForType_dict] at hschema
    obtain ⟨s, hs, rfl⟩ := Option.map_eq_some_iff.1 hschema
    cases hvalid with
    | map hvalues =>
      cases hjson with
      | object hkeys hjson =>
        have hagrees := fun e he => (ih e he).2 (hjson e he) ⟨limit, s, hs, hvalues e he⟩
        rw [takes_dict]
        constructor
        · intro htakes
          exact .dict (fun e he => (htakes e he).1) fun e he => (hagrees e he).1 (htakes e he).2.2
        · intro h e he
          cases h with
          | dict hkey h =>
            obtain ⟨text, htext⟩ := hkeys e he
            exact ⟨hkey e he, ⟨text, by rw [htext]; rfl⟩, (hagrees e he).2 (h e he)⟩
  | model data cls ih =>
    intro hjson ⟨limit, schema, hschema, hvalid⟩
    cases hjson with
    | object _ hjson =>
      rw [agrees_model (fun field _ v hv =>
        ih _ (itemOf_mem hv) field.hint (hjson _ (itemOf_mem hv))) hschema hvalid]
      constructor
      · exact .model
      · intro h
        cases h with
        | model h => exact h
  | noDict v tp hobject hdict =>
    intro _ ⟨limit, schema, hschema, hvalid⟩
    cases tp with
    | dict key val =>
      rw [schemaForType_dict] at hschema
      obtain ⟨s, _, rfl⟩ := Option.map_eq_some_iff.1 hschema
      cases hvalid
      cases hdict
    | model cls =>
      cases limit with
      | zero =>
        rw [schemaForType] at hschema
        cases hschema
      | succ limit =>
        rw [schemaForType_model] at hschema
        obtain ⟨schemas, _, rfl⟩ := Option.map_eq_some_iff.1 hschema
        cases hvalid
        cases hdict
    | _ => cases hobject

variable (R)

/-- A dataclass with one field. -/
def oneField (name : Str) (hint : TypeHint Unit) : Interpreter Unit ℚ :=
  ofFields (fun _ => [{ name, hint }]) fun _ => "Model".toList

theorem oneField_schema {name : Str} {hint : TypeHint Unit}
    (h : (oneField name hint).schemaForType 0 hint = some schema) :
    (oneField name hint).schemaForDataclass 1 () =
      some (.model [(name, schema)] [name]) := by
  rw [schemaForDataclass, schemaForType_model]
  change ([{ name, hint }].mapM fun field : DataField Unit ℚ =>
    (oneField name hint).schemaForType 0 field.hint).map _ = _
  rw [List.mapM_cons, h]
  rfl

theorem oneField_valid {R : Interpreter Unit ℚ} (h : R.Valid schema v) :
    R.Valid (.model [(name, schema)] [name]) (.dict [(.str name, v)]) := by
  have hitem : itemOf name [((.str name : DataValue Unit ℚ), v)] = some v := by
    have hkey : (DataValue.str name : DataValue Unit ℚ).isStr name = true :=
      DataValue.isStr_iff.2 rfl
    simp [itemOf, hkey]
  refine .model (fun e he => ?_) (fun n hn => ?_) (fun p hp w hw => ?_)
  · obtain rfl := List.mem_singleton.1 he
    exact ⟨_, List.mem_cons_self, rfl⟩
  · obtain rfl := List.mem_singleton.1 hn
    exact ⟨v, hitem⟩
  · obtain rfl := List.mem_singleton.1 hp
    obtain rfl := Option.some.inj (hitem.symm.trans hw)
    exact h

end Interpreter

end Sovereign
