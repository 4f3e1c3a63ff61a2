import Sovereign.Validation

namespace Sovereign
set_option autoImplicit true

/-- No tuple in the annotation has a type for each of its items. -/
inductive TypeHint.Regular : TypeHint κ → Prop where
  | any : Regular .any
  | bool : Regular .bool
  | int : Regular .int
  | float : Regular .float
  | str : Regular .str
  | bytes : Regular .bytes
  | plain : Regular (.plain cls)
  | union (h : ∀ m ∈ members, Regular m) : Regular (.union members)
  | container (h : Regular item) : Regular (.container kind item)
  | dict (hkey : Regular key) (hval : Regular val) : Regular (.dict key val)
  | model : Regular (.model cls)

namespace Interpreter

variable (R : Interpreter κ φ)

/-- The fields of an instance that was made from the data: those that were present are typed, and
the others have their defaults. -/
def Filled (Typed : TypeHint κ → DataValue κ φ → DataValue κ φ → Prop) (cls : κ)
    (data : List (DataValue κ φ × DataValue κ φ)) (values : List (Str × DataValue κ φ)) : Prop :=
  values.map Prod.fst = (R.fields cls).map DataField.name ∧
  ∀ field p, (field, p) ∈ (R.fields cls).zip values →
    (∀ v, itemOf field.name data = some v → Typed field.hint v p.2) ∧
    (itemOf field.name data = none → field.default = some p.2)

/-- `r` inhabits the annotation. The data `v` that it was made from tells which fields of the
instances in it were present. -/
inductive WellTyped : TypeHint κ → DataValue κ φ → DataValue κ φ → Prop where
  | any : WellTyped .any v v
  | bool : WellTyped .bool v (.bool b)
  | int (h : v.isBool = false) : WellTyped .int v (.int n)
  | float (h : v.isBool = false) : WellTyped .float v (.float x)
  | str : WellTyped .str v (.str s)
  | bytes : WellTyped .bytes v (.bytes b)
  | plain (h : R.isInstanceOf v cls = true) : WellTyped (.plain cls) v v
  | none (h : members.any TypeHint.isNone = true) : WellTyped (.union members) .none .none
  | member (hm : m ∈ members) (h : WellTyped m v r) : WellTyped (.union members) v r
  | container (made : List (DataValue κ φ × DataValue κ φ)) (hsource : ∀ p ∈ made, p.1 ∈ v.items)
      (h : ∀ p ∈ made, WellTyped item p.1 p.2) (hresults : ∀ r ∈ results, r ∈ made.map Prod.snd) :
      WellTyped (.container kind item) v (.container kind results)
  | dict (made : List ((DataValue κ φ × DataValue κ φ) × (DataValue κ φ × DataValue κ φ)))
      (hsource : ∀ p ∈ made, p.1 ∈ entries)
      (hkey : ∀ p ∈ made, WellTyped key p.1.1 p.2.1)
      (hval : ∀ p ∈ made, WellTyped val p.1.2 p.2.2)
      (hkeys : ∀ e ∈ out, ∃ p ∈ made, p.2.1 = e.1)
      (hvals : ∀ e ∈ out, ∃ p ∈ made, p.2.2 = e.2) :
      WellTyped (.dict key val) (.dict entries) (.dict out)
  | model (hnames : values.map Prod.fst = (R.fields cls).map DataField.name)
      (hpresent : ∀ field p, (field, p) ∈ (R.fields cls).zip values →
        ∀ v, itemOf field.name data = some v → WellTyped field.hint v p.2)
      (habsent : ∀ field p, (field, p) ∈ (R.fields cls).zip values →
        itemOf field.name data = Option.none → field.default = some p.2) :
      WellTyped (.model cls) (.dict data) (.object cls values)

variable {R}

theorem WellTyped.of_filled {data : List (DataValue κ φ × DataValue κ φ)}
    (h : R.Filled R.WellTyped cls data values) :
    R.WellTyped (.model cls) (.dict data) (.object cls values) :=
  .model h.1 (fun field p hp => (h.2 field p hp).1) fun field p hp => (h.2 field p hp).2

theorem toInt_typed {v r : DataValue κ φ} (hbool : ¬ v.isBool = true)
    (h : (expecting name what (R.toInt v)).map .int = .ok r) : R.WellTyped .int v r := by
  obtain ⟨n, _, rfl⟩ := except_map_eq_ok.1 h
  exact .int (Bool.eq_false_iff.2 hbool)

theorem toFloat_typed {v r : DataValue κ φ} (hbool : ¬ v.isBool = true)
    (h : (expecting name what (R.toFloat v)).map .float = .ok r) : R.WellTyped .float v r := by
  obtain ⟨x, _, rfl⟩ := except_map_eq_ok.1 h
  exact .float (Bool.eq_false_iff.2 hbool)

/-- What `_coerce_scalar` returns is of the type. -/
theorem coerceScalar_typed {v r : DataValue κ φ} (htp : tp.isScalar = true)
    (h : R.coerceScalar v tp name = .ok r) : R.WellTyped tp v r := by
  cases tp with
  | any =>
    cases h
    exact .any
  | bool =>
    cases v with
    | bool b =>
      cases h
      exact .bool
    | str s =>
      rw [coerceScalar] at h
      split at h
      · cases h
        exact .bool
      · split at h
        · cases h
          exact .bool
        · cases h
    | _ => cases h
  | int =>
    rw [coerceScalar] at h
    split at h
    · cases h
    · next hbool => exact toInt_typed hbool h
  | float =>
    rw [coerceScalar] at h
    split at h
    · cases h
    · next hbool => exact toFloat_typed hbool h
  | str =>
    obtain ⟨s, _, rfl⟩ := except_map_eq_ok.1 h
    exact .str
  | bytes =>
    cases v with
    | bytes b =>
      cases h
      exact .bytes
    | str s =>
      cases h
      exact .bytes
    | _ => cases h
  | plain cls =>
    rw [coerceScalar] at h
    split at h
    · next hinstance =>
      cases h
      exact .plain hinstance
    · cases h
  | _ => cases htp

theorem container_typed {v r : DataValue κ φ} {kind : ContainerKind} {item : TypeHint κ}
    (ih : ∀ w ∈ v.items, ∀ name r, R.coerceValue w item name = .ok r → R.WellTyped item w r)
    (h : R.coerceValue v (.container kind item) name = .ok r) :
    R.WellTyped (.container kind item) v r := by
  rw [coerceValue_container] at h
  obtain ⟨items, hitems, h⟩ := except_bind_eq_ok.1 h
  obtain ⟨_, rfl⟩ := R.collect_ok.1 h
  have hmade := Traverse.except_iff.1 hitems
  refine .container (v.items.zip items) (fun p hp => (List.of_mem_zip hp).1) (fun p hp => ?_) ?_
  · exact ih p.1 (List.of_mem_zip hp).1 _ p.2 (List.forall₂_zip hmade hp)
  · intro x hx
    rw [List.map_snd_zip hmade.length_eq.ge]
    split at hx
    · exact setOf_mem hx
    · exact hx

theorem dict_typed {entries : List (DataValue κ φ × DataValue κ φ)} {key val : TypeHint κ}
    {r : DataValue κ φ}
    (ih : ∀ e ∈ entries,
      (∀ name r, R.coerceValue e.1 key name = .ok r → R.WellTyped key e.1 r) ∧
      ∀ name r, R.coerceValue e.2 val name = .ok r → R.WellTyped val e.2 r)
    (h : R.coerceValue (.dict entries) (.dict key val) name = .ok r) :
    R.WellTyped (.dict key val) (.dict entries) r := by
  rw [coerceValue_dict] at h
  obtain ⟨out, hout, rfl⟩ := except_map_eq_ok.1 h
  have hmade := Traverse.except_iff.1 hout
  have hsnd : ∀ e ∈ out, ∃ p ∈ entries.zip out, p.2 = e := by
    intro e he
    rw [← List.map_snd_zip hmade.length_eq.ge] at he
    exact List.mem_map.1 he
  refine .dict (entries.zip out) (fun p hp => (List.of_mem_zip hp).1) (fun p hp => ?_)
    (fun p hp => ?_) (fun e he => ?_) (fun e he => ?_)
  · obtain ⟨hk, _⟩ := (R.coerceEntry_ok _).1 (List.forall₂_zip hmade hp)
    exact (ih p.1 (List.of_mem_zip hp).1).1 _ p.2.1 hk
  · obtain ⟨_, ⟨_, _, hv⟩, _⟩ := (R.coerceEntry_ok _).1 (List.forall₂_zip hmade hp)
    exact (ih p.1 (List.of_mem_zip hp).1).2 _ p.2.2 hv
  · obtain ⟨e', he', hkey⟩ := (dictOf_mem he).1
    obtain ⟨p, hp, rfl⟩ := hsnd e' he'
    exact ⟨p, hp, hkey⟩
  · obtain ⟨e', he', hval⟩ := (dictOf_mem he).2
    obtain ⟨p, hp, rfl⟩ := hsnd e' he'
    exact ⟨p, hp, hval⟩

theorem model_filled {data : List (DataValue κ φ × DataValue κ φ)} {r : DataValue κ φ}
    (ih : ∀ e ∈ data, ∀ field ∈ R.fields cls, ∀ name r,
      R.coerceValue e.2 field.hint name = .ok r → R.WellTyped field.hint e.2 r)
    (h : R.validateModel cls data = .ok r) :
    ∃ values, r = .object cls values ∧ R.Filled R.WellTyped cls data values := by
  obtain ⟨_, values, rfl, hvalues⟩ := R.validateModel_ok.1 h
  have hfields := Traverse.except_iff.1 hvalues
  refine ⟨values, rfl, ?_, fun field p hp => ?_⟩
  · rw [← List.forall₂_eq_eq_eq, List.forall₂_map_left_iff, List.forall₂_map_right_iff]
    exact hfields.flip.imp fun p field hp => (R.fieldValue_ok.1 hp).1
  · obtain ⟨_, hpresent, habsent⟩ := R.fieldValue_ok.1 (List.forall₂_zip hfields hp)
    refine ⟨fun v hv => ?_, habsent⟩
    exact ih _ (itemOf_mem hv) field (List.of_mem_zip hp).1 _ _ (hpresent v hv)

/-- What `coerce_value` returns inhabits the annotation. -/
theorem coerceValue_typed (hgrammar : ∀ cls, ∀ field ∈ R.fields cls, field.hint.Regular)
    (v : DataValue κ φ) (tp : TypeHint κ) :
    tp.Regular → ∀ name r, R.coerceValue v tp name = .ok r → R.WellTyped tp v r := by
  induction v, tp using coercion_induction with
  | scalar v tp htp =>
    intro _ name r h
    rw [coerceValue_scalar _ _ _ htp] at h
    exact coerceScalar_typed htp h
  | union v members ih =>
    intro hregular name r h
    cases hregular with
    | union hmembers =>
      rw [coerceValue_union] at h
      split at h
      · next hnone =>
        rw [Bool.and_eq_true, DataValue.isNone_iff] at hnone
        obtain ⟨hmember, rfl⟩ := hnone
        cases h
        exact .none hmember
      · obtain ⟨before, after, hattempts, _⟩ := firstMatch_ok.1 h
        have hr := hattempts ▸ List.mem_append_right before List.mem_cons_self
        obtain ⟨m, hm, hmr⟩ := List.mem_map.1 hr
        have hmem := TypeHint.mem_of_candidates hm
        exact .member hmem (ih m hm (hmembers m hmem) name r hmr)
  | container v kind item ih =>
    intro hregular name r h
    cases hregular with
    | container hitem => exact container_typed (fun w hw => ih w hw hitem) h
  | fixedTuple v types _ =>
    intro hregular
    cases hregular
  | dict entries key val ih =>
    intro hregular name r h
    cases hregular with
    | dict hkey hval => exact dict_typed (fun e he => ⟨(ih e he).1 hkey, (ih e he).2 hval⟩) h
  | model entries cls ih =>
    intro _ name r h
    rw [coerceValue_model] at h
    obtain ⟨values, rfl, hfilled⟩ :=
      model_filled (fun e he field hf => ih e he _ (hgrammar cls field hf)) h
    exact .of_filled hfilled
  | noDict v tp hobject hdict =>
    intro _ name r h
    rw [coerceValue_noDict _ _ _ hobject hdict] at h
    cases h

variable (R)

/-- Acceptance is exact: nothing unknown, nothing missing, and each present value converts. The
instance has a value of its annotation in each present field, and the default in the others. -/
theorem validateModel_exact
    (hgrammar : ∀ cls, ∀ field ∈ R.fields cls, field.hint.Regular)
    (cls : κ) (data : List (DataValue κ φ × DataValue κ φ)) :
    ((∃ r, R.validateModel cls data = .ok r) ↔
      (∀ e ∈ data, ∃ field ∈ R.fields cls, e.1 = .str field.name) ∧
      (∀ field ∈ R.fields cls, field.default = none → ∃ v, itemOf field.name data = some v) ∧
      ∀ field ∈ R.fields cls, ∀ v, itemOf field.name data = some v →
        ∃ r, R.coerceValue v field.hint field.name = .ok r) ∧
    ∀ r, R.validateModel cls data = .ok r →
      ∃ values, r = .object cls values ∧ R.Filled R.WellTyped cls data values := by
  refine ⟨R.validateModel_isOk, fun r h => ?_⟩
  refine model_filled (fun e _ field hf name r hr => ?_) h
  exact coerceValue_typed hgrammar e.2 _ (hgrammar cls field hf) name r hr

/-- A user with a name and an age, which is 18 if it is not given. -/
def userFields : List (DataField Unit ℚ) :=
  [{ name := "name".toList, hint := .str },
    { name := "age".toList, hint := .int, default := some (.int 18) }]

def userModel : Interpreter Unit ℚ := ofFields (fun _ => userFields) fun _ => "User".toList

theorem validateModel_exact_user :
    ∃ values, DataValue.object () [("name".toList, .str "Ada".toList), ("age".toList, .int 18)] =
        .object () values ∧
      userModel.Filled userModel.WellTyped () [(.str "name".toList, .str "Ada".toList)] values := by
  have hgrammar : ∀ cls, ∀ field ∈ userModel.fields cls, field.hint.Regular := by
    intro cls field hf
    obtain rfl | hf := List.mem_cons.1 hf
    · exact .str
    · obtain rfl := List.mem_singleton.1 hf
      exact .int
  refine (userModel.validateModel_exact hgrammar () _).2 _ ?_
  refine userModel.validateModel_ok.2 ⟨fun e he => ?_, _, rfl, ?_⟩
  · obtain rfl := List.mem_singleton.1 he
    exact ⟨_, List.mem_cons_self, rfl⟩
  · have hname : userModel.coerceValue (.str "Ada".toList) .str "name".toList =
        .ok (.str "Ada".toList) := coerceValue_scalar _ _ _ rfl
    refine Traverse.except_iff.2 (.cons (userModel.fieldValue_ok.2 ⟨rfl, fun v hv => ?_, ?_⟩) ?_)
    · cases hv
      exact hname
    · exact fun h => absurd h (by decide)
    · exact .cons rfl .nil

end Interpreter

end Sovereign
