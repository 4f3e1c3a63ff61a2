import Sovereign.OrmDocuments

namespace Sovereign
set_option autoImplicit true

/-- A list or a dict, which `_decode` takes as the document has them. -/
def TypeHint.isDocument : TypeHint κ → Bool
  | container .list _ | dict _ _ => true
  | _ => false

def TypeHint.isTuple : TypeHint κ → Bool
  | container .tuple _ | fixedTuple _ => true
  | _ => false

/-- What values have in common that can be equal. -/
inductive ValueShape where
  | none
  | number
  | str
  | bytes
  | container
  | dict
  | object

def DataValue.shape : DataValue κ φ → ValueShape
  | none => .none
  | bool _ | int _ | float _ => .number
  | str _ => .str
  | bytes _ => .bytes
  | container _ _ => .container
  | dict _ => .dict
  | object _ _ => .object

theorem itemOf_of_mem {entries : List (DataValue κ φ × β)} (hnodup : (entries.map Prod.fst).Nodup)
    (h : (DataValue.str name, v) ∈ entries) : itemOf name entries = some v := by
  rw [itemOf, Option.map_eq_some_iff]
  have hmem : ∃ e ∈ entries, e.1.isStr name = true := ⟨_, h, DataValue.isStr_iff.2 rfl⟩
  cases hfind : entries.find? fun e => e.1.isStr name with
  | none =>
    obtain ⟨e, he, hname⟩ := hmem
    exact absurd hname (List.find?_eq_none.1 hfind e he)
  | some e =>
    have hname := List.find?_some hfind
    have heq := List.inj_on_of_nodup_map hnodup (List.mem_of_find?_eq_some hfind) h
      (DataValue.isStr_iff.1 hname)
    exact ⟨e, rfl, congrArg Prod.snd heq⟩

namespace OrmRuntime

variable {R : OrmRuntime κ φ} {v w : DataValue κ φ}

theorem number_shape {v : DataValue κ φ} (h : number v = some y) : v.shape = .number := by
  cases v with
  | bool => rfl
  | int => rfl
  | float => rfl
  | _ => cases h

theorem Equal.shape (h : R.Equal v w) : v.shape = w.shape := by
  cases v with
  | none =>
    rw [Equal] at h
    rw [h]
  | str =>
    rw [Equal] at h
    rw [h]
  | bytes =>
    rw [Equal] at h
    rw [h]
  | bool =>
    rw [Equal] at h
    obtain ⟨y, hy, _⟩ := h
    exact (number_shape hy).symm
  | int =>
    rw [Equal] at h
    obtain ⟨y, hy, _⟩ := h
    exact (number_shape hy).symm
  | float =>
    rw [Equal] at h
    obtain ⟨y, hy, _⟩ := h
    exact (number_shape hy).symm
  | container =>
    rw [Equal] at h
    obtain ⟨_, _, rfl, _⟩ := h
    rfl
  | dict =>
    rw [Equal] at h
    obtain ⟨_, rfl, _⟩ := h
    rfl
  | object =>
    rw [Equal] at h
    obtain ⟨_, rfl, _⟩ := h
    rfl

theorem equal_object {fields' : ObjectFields κ φ} (h : R.Equal v (.object cls fields')) :
    ∃ fields, v = .object cls fields ∧ R.EqualFields fields fields' := by
  have hshape := h.shape
  cases v with
  | object cls' fields =>
    rw [Equal] at h
    obtain ⟨_, heq, hfields⟩ := h
    cases heq
    exact ⟨fields, rfl, hfields⟩
  | _ => cases hshape

theorem equal_container {items' : List (DataValue κ φ)} (h : R.Equal v (.container kind' items')) :
    ∃ kind items, v = .container kind items ∧ kind.isSet = kind'.isSet ∧
      (kind.isSet = false → kind = kind' ∧ List.Forall₂ R.Equal items items') := by
  have hshape := h.shape
  cases v with
  | container kind items =>
    rw [Equal] at h
    obtain ⟨_, _, heq, hset, hitems⟩ := h
    cases heq
    refine ⟨kind, items, rfl, hset, fun hfalse => ?_⟩
    rw [if_neg (Bool.eq_false_iff.1 hfalse)] at hitems
    exact ⟨hitems.1, equalItems_iff.1 hitems.2⟩
  | _ => cases hshape

/-- `None`, a list, a tuple, a set, a dict, or an object that has the fields of its class. -/
def Structured (R : OrmRuntime κ φ) : DataValue κ φ → Prop
  | .none => True
  | .container kind _ => kind ≠ .frozenset
  | .dict _ => True
  | .object cls fields => fields.map Prod.fst = (R.fields cls).map DataField.name
  | _ => False

/-- `json.loads` reads the document that was written for the value. Of the entries with one key it
keeps the last value. -/
def ReadsBack (R : OrmRuntime κ φ) (v : DataValue κ φ) : Prop :=
  ∀ a d, R.asdict v = .ok a → R.toJson a = .ok d →
    R.loads (.str (R.documentText d)) = .ok d.lastKeys

/-- A field of the annotation keeps the value: a list or a dict that can be stored, a tuple or an
object of things that can be stored, or `None`. -/
inductive Lossless (R : OrmRuntime κ φ) (tp : TypeHint κ) : DataValue κ φ → Prop where
  | none : Lossless R tp .none
  | document (htp : tp.stripped = .ok tp') (hdocument : tp'.isDocument = true)
      (h : R.Storable value) : Lossless R tp value
  | tuple (htp : tp.stripped = .ok tp') (htuple : tp'.isTuple = true)
      (h : ∀ v ∈ items, R.Storable v) : Lossless R tp (.container .tuple items)
  | object {fields : ObjectFields κ φ} (htp : tp.stripped = .ok (.model cls))
      (h : ∀ e ∈ fields, R.Storable e.2) : Lossless R tp (.object cls fields)

/-- What is bound for a value of a field. -/
def bound (R : OrmRuntime κ φ) (v : DataValue κ φ) : Except PyError (Sqlite.Value φ) := do
  let copy ← R.asdict v
  let encoded ← R.encode copy
  R.bind encoded

/-- What comes back for a value of a field from a column of this affinity. -/
def recover (R : OrmRuntime κ φ) (affinity : Sqlite.Affinity) (tp : TypeHint κ)
    (v : DataValue κ φ) : Except PyError (DataValue κ φ) := do
  let value ← R.bound v
  R.decode (.fetch (R.conv.store affinity value)) tp

theorem nodup_names {fields : List (Str × β)} (h : (fields.map Prod.fst).Nodup) :
    ((fields.map fun e => ((.str e.1, e.2) : DataValue κ φ × β)).map Prod.fst).Nodup := by
  have hinj : Function.Injective fun s => (.str s : DataValue κ φ) :=
    fun s t h => DataValue.str.inj h
  have hnames := h.map hinj
  rw [List.map_map] at hnames ⊢
  exact hnames

/-- `cls(**data)`, where the data are the fields. -/
theorem construct_fields {fields : ObjectFields κ φ}
    (h : fields.map Prod.fst = (R.fields cls).map DataField.name) :
    R.construct cls (fields.map fun e => (.str e.1, e.2)) = .ok (.object cls fields) := by
  have hnodup := nodup_names (κ := κ) (φ := φ) (h ▸ R.distinctNames)
  have hknown : ((fields.map fun e =>
      ((.str e.1, e.2) : DataValue κ φ × DataValue κ φ)).all fun e =>
        (R.fields cls).any fun f => e.1.isStr f.name) = true := by
    rw [List.all_map, List.all_eq_true]
    intro e he
    have hmem : e.1 ∈ (R.fields cls).map DataField.name := h ▸ List.mem_map_of_mem he
    obtain ⟨f, hf, hname⟩ := List.mem_map.1 hmem
    exact List.any_eq_true.2 ⟨f, hf, DataValue.isStr_iff.2 (congrArg _ hname.symm)⟩
  have hpairs : List.Forall₂ (fun e f => e ∈ fields ∧ e.1 = f.name) fields (R.fields cls) := by
    rw [← List.forall₂_eq_eq_eq, List.forall₂_map_left_iff, List.forall₂_map_right_iff] at h
    exact (List.forall₂_and_left _ _).2 ⟨fun e he => he, h⟩
  have hfields : (R.fields cls).mapM (argument (fields.map fun e => (.str e.1, e.2))) =
      .ok fields := by
    rw [Traverse.except_iff]
    refine hpairs.flip.imp fun f e hfe => ?_
    rw [argument, itemOf_of_mem hnodup (v := e.2)]
    · exact congrArg Except.ok (Prod.ext hfe.2.symm rfl)
    · exact List.mem_map.2 ⟨e, hfe.1, by rw [hfe.2]⟩
  rw [construct, if_pos hknown, hfields]
  rfl

section Columns

variable {affinity : Sqlite.Affinity} {tp : TypeHint κ}

/-- The copy of a value with parts. -/
theorem asdict_parts (hs : R.Structured v) (hv : v ≠ .none) (ha : R.asdict v = .ok a) :
    (∃ kind items, a = .container kind items ∧ kind ≠ .frozenset) ∨
      ∃ entries, a = .dict entries := by
  cases v with
  | none => exact absurd rfl hv
  | container kind items =>
    cases kind with
    | list =>
      rw [asdict] at ha
      obtain ⟨as, _, rfl⟩ := except_map_eq_ok.1 ha
      exact .inl ⟨_, as, rfl, hs⟩
    | tuple =>
      rw [asdict] at ha
      obtain ⟨as, _, rfl⟩ := except_map_eq_ok.1 ha
      exact .inl ⟨_, as, rfl, hs⟩
    | set =>
      cases ha
      exact .inl ⟨_, items, rfl, hs⟩
    | frozenset => exact absurd rfl hs
  | dict entries =>
    rw [asdict] at ha
    obtain ⟨as, _, rfl⟩ := except_map_eq_ok.1 ha
    exact .inr ⟨as, rfl⟩
  | object cls fields =>
    rw [asdict] at ha
    obtain ⟨as, _, rfl⟩ := except_map_eq_ok.1 ha
    exact .inr ⟨_, rfl⟩
  | _ => cases hs

/-- The copy is written as a document. -/
theorem encode_copy (hs : R.Structured v) (hv : v ≠ .none) (ha : R.asdict v = .ok a) :
    R.encode a = R.dumps a := by
  obtain ⟨kind, items, rfl, hkind⟩ | ⟨entries, rfl⟩ := asdict_parts hs hv ha
  · cases kind with
    | frozenset => exact absurd rfl hkind
    | _ => rfl
  · rfl

theorem bound_eq_ok (hs : R.Structured v) (hv : v ≠ .none) :
    R.bound v = .ok b ↔
      ∃ a d, R.asdict v = .ok a ∧ R.toJson a = .ok d ∧ b = .text (R.documentText d) := by
  rw [bound, except_bind_eq_ok]
  constructor
  · intro h
    obtain ⟨a, ha, h⟩ := h
    obtain ⟨e, he, hb⟩ := except_bind_eq_ok.1 h
    rw [encode_copy hs hv ha, dumps] at he
    obtain ⟨d, hd, rfl⟩ := except_map_eq_ok.1 he
    cases hb
    exact ⟨a, d, ha, hd, rfl⟩
  · intro h
    obtain ⟨a, d, ha, hd, rfl⟩ := h
    refine ⟨a, ha, ?_⟩
    rw [encode_copy hs hv ha, dumps, hd]
    rfl

/-- The document is an array or an object. -/
theorem toJson_parts (hs : R.Structured v) (hv : v ≠ .none) (ha : R.asdict v = .ok a)
    (hd : R.toJson a = .ok d) :
    (∃ ds, d = .container .list ds) ∨ ∃ entries, d = .dict entries := by
  obtain ⟨kind, items, rfl, hkind⟩ | ⟨entries, rfl⟩ := asdict_parts hs hv ha
  · cases kind with
    | list =>
      rw [toJson] at hd
      obtain ⟨ds, _, rfl⟩ := except_map_eq_ok.1 hd
      exact .inl ⟨ds, rfl⟩
    | tuple =>
      rw [toJson] at hd
      obtain ⟨ds, _, rfl⟩ := except_map_eq_ok.1 hd
      exact .inl ⟨ds, rfl⟩
    | set => cases hd
    | frozenset => cases hd
  · rw [toJson] at hd
    obtain ⟨ds, _, rfl⟩ := except_map_eq_ok.1 hd
    exact .inr ⟨ds, rfl⟩

theorem store_bracket (hc : c = '[' ∨ c = '\x7b') :
    R.conv.store affinity (.text (c :: text)) = .text (c :: text) := by
  cases affinity with
  | text => rfl
  | blob => rfl
  | integer => exact R.keepsBracket hc
  | real => exact R.keepsBracket hc

theorem store_document (hs : R.Structured v) (hv : v ≠ .none) (ha : R.asdict v = .ok a)
    (hd : R.toJson a = .ok d) :
    R.conv.store affinity (.text (R.documentText d)) = .text (R.documentText d) := by
  obtain ⟨ds, rfl⟩ | ⟨entries, rfl⟩ := toJson_parts hs hv ha hd
  · rw [documentText]
    exact store_bracket (.inl rfl)
  · rw [documentText]
    exact store_bracket (.inr rfl)

theorem recover_eq_ok (hs : R.Structured v) (hv : v ≠ .none) :
    R.recover affinity tp v = .ok w ↔
      ∃ a d tp', R.asdict v = .ok a ∧ R.toJson a = .ok d ∧ tp.stripped = .ok tp' ∧
        R.decodeAs (.str (R.documentText d)) tp' = .ok w := by
  rw [recover, except_bind_eq_ok]
  constructor
  · intro h
    obtain ⟨b, hb, h⟩ := h
    obtain ⟨a, d, ha, hd, rfl⟩ := (bound_eq_ok hs hv).1 hb
    rw [store_document hs hv ha hd] at h
    obtain ⟨tp', htp, h⟩ := except_bind_eq_ok.1 h
    exact ⟨a, d, tp', ha, hd, htp, h⟩
  · intro h
    obtain ⟨a, d, tp', ha, hd, htp, h⟩ := h
    refine ⟨_, (bound_eq_ok hs hv).2 ⟨a, d, ha, hd, rfl⟩, ?_⟩
    rw [store_document hs hv ha hd]
    exact except_bind_eq_ok.2 ⟨tp', htp, h⟩

theorem argument_ok {data : List (DataValue κ φ × DataValue κ φ)} {f : DataField κ φ}
    (h : argument data f = .ok g) :
    g.1 = f.name ∧ (itemOf f.name data).or f.default = some g.2 := by
  rw [argument] at h
  split at h
  · next hv =>
    cases h
    exact ⟨rfl, hv⟩
  · cases h

/-- An object that comes back from the document of a value. -/
theorem lossless_of_construct {entries : List (DataValue κ φ × DataValue κ φ)}
    (hs : R.Structured v) (hreads : R.Reads v (.dict entries))
    (htp : tp.stripped = .ok (.model cls)) (hconstruct : R.construct cls entries = .ok w)
    (hequal : R.Equal v w) : R.Lossless tp v := by
  rw [construct] at hconstruct
  split at hconstruct
  · obtain ⟨fields', hfields', hw⟩ := except_bind_eq_ok.1 hconstruct
    cases hw
    obtain ⟨fields, rfl, hfields⟩ := equal_object hequal
    obtain ⟨es, hes, hreads⟩ := reads_object hreads
    have hnames : (fields.map Prod.fst).Nodup := by
      have hs : fields.map Prod.fst = (R.fields cls).map DataField.name := hs
      rw [hs]
      exact R.distinctNames
    have hkeys : es.map Prod.fst = fields.map fun e => .str e.1 := by
      rw [← List.forall₂_eq_eq_eq, List.forall₂_map_left_iff, List.forall₂_map_right_iff]
      exact (hreads.imp fun _ _ h => h.1).flip
    have hnodup : (es.map Prod.fst).Nodup := by
      have hstr := nodup_names (κ := κ) (φ := φ) hnames
      rw [List.map_map] at hstr
      rw [hkeys]
      exact hstr
    have hstr : ∀ k ∈ es.map Prod.fst, ∃ s, k = .str s := by
      rw [hkeys]
      exact List.forall_mem_map.2 fun e _ => ⟨e.1, rfl⟩
    rw [dictOf_of_pairwise ((pairwise_keys hstr).2 hnodup)] at hes
    cases hes
    refine .object htp fun e he => ?_
    obtain ⟨g, hg, hname, hvalue⟩ := Traverse.partner (equalFields_iff.1 hfields) he
    obtain ⟨e', he', hkey, hread⟩ := Traverse.partner hreads he
    obtain ⟨f, _, hf⟩ := Traverse.except_mem_result hfields' hg
    obtain ⟨hfield, hf⟩ := argument_ok hf
    have hfound : itemOf e.1 entries = some e'.2 := by
      refine itemOf_of_mem hnodup ?_
      rw [← hkey]
      exact he'
    rw [← hfield, hname, hfound, Option.some_or] at hf
    rw [← Option.some.inj hf] at hvalue
    exact storable_of_reads hread hvalue
  · cases hconstruct

/-- A value that comes back from its document. -/
theorem lossless_of_decode (hs : R.Structured v) (hv : v ≠ .none) (hreads : R.Reads v J)
    (hloads : R.loads (.str text) = .ok J) (htp : tp.stripped = .ok tp')
    (hdecode : R.decodeAs (.str text) tp' = .ok w) (hequal : R.Equal v w) : R.Lossless tp v := by
  have hplain (hw : w.shape = .number ∨ w.shape = .str) : R.Lossless tp v := by
    have hshape := hequal.shape
    cases v with
    | none => exact .none
    | container => obtain hw | hw := hw <;> cases hshape.trans hw
    | dict => obtain hw | hw := hw <;> cases hshape.trans hw
    | object => obtain hw | hw := hw <;> cases hshape.trans hw
    | _ => cases hs
  have htuple (hdecode : (do
      let data ← R.loads (.str text)
      let items ← iterate data
      return DataValue.container .tuple items) = .ok w) (ht : tp'.isTuple = true) :
      R.Lossless tp v := by
    obtain ⟨data, hdata, hdecode⟩ := except_bind_eq_ok.1 hdecode
    cases hloads.symm.trans hdata
    obtain ⟨items', hitems', hw⟩ := except_bind_eq_ok.1 hdecode
    cases hw
    obtain ⟨kind, items, rfl, hset, hitems⟩ := equal_container hequal
    obtain ⟨rfl, hequals⟩ := hitems hset
    obtain ⟨ws, rfl, hws⟩ := reads_sequence rfl hreads
    cases hitems'
    refine .tuple htp ht fun v hv => ?_
    have hboth := List.Forall₂.mp (fun _ _ h h' => And.intro h h') hws hequals
    obtain ⟨w, _, hw⟩ := Traverse.partner hboth hv
    exact storable_of_reads hw.1 hw.2
  have hdocument (hdecode : R.loads (.str text) = .ok w) (hd : tp'.isDocument = true) :
      R.Lossless tp v := by
    rw [hloads] at hdecode
    cases hdecode
    exact .document htp hd (storable_of_reads hreads hequal)
  cases tp' with
  | bool =>
    cases hdecode
    exact hplain (.inl rfl)
  | int =>
    obtain ⟨n, _, rfl⟩ := except_map_eq_ok.1 hdecode
    exact hplain (.inl rfl)
  | float =>
    obtain ⟨x, _, rfl⟩ := except_map_eq_ok.1 hdecode
    exact hplain (.inl rfl)
  | container kind item =>
    cases kind with
    | list => exact hdocument hdecode rfl
    | tuple => exact htuple hdecode rfl
    | set =>
      obtain ⟨data, hdata, hdecode⟩ := except_bind_eq_ok.1 hdecode
      cases hloads.symm.trans hdata
      obtain ⟨items', _, hw⟩ := except_bind_eq_ok.1 hdecode
      split at hw
      · cases hw
        obtain ⟨kind, items, rfl, hset, _⟩ := equal_container hequal
        exact absurd hreads (not_reads_set hset)
      · cases hw
    | frozenset =>
      cases hdecode
      exact hplain (.inr rfl)
  | fixedTuple items => exact htuple hdecode rfl
  | dict key value => exact hdocument hdecode rfl
  | model cls =>
    rw [decodeAs, hloads] at hdecode
    have hobject : ∃ entries, J = .dict entries ∧ R.construct cls entries = .ok w := by
      cases J with
      | dict entries => exact ⟨entries, rfl, hdecode⟩
      | _ => cases hdecode
    obtain ⟨entries, rfl, hconstruct⟩ := hobject
    exact lossless_of_construct hs hreads htp hconstruct hequal
  | _ =>
    cases hdecode
    exact hplain (.inr rfl)

theorem recover_none (R : OrmRuntime κ φ) (affinity : Sqlite.Affinity) (tp : TypeHint κ) :
    R.recover affinity tp .none = .ok .none := by
  cases affinity with
  | _ => rfl

/-- A field keeps what it is said to keep. -/
theorem recover_of_lossless (hs : R.Structured v) (hv : v ≠ .none) (hback : R.ReadsBack v)
    (h : R.Lossless tp v) : ∃ w, R.recover affinity tp v = .ok w ∧ R.Equal v w := by
  cases h with
  | none => exact absurd rfl hv
  | @document tp' _ htp hdocument hstorable =>
    refine ⟨v, (recover_eq_ok hs hv).2 ?_, hstorable.equal⟩
    refine ⟨v, v, tp', hstorable.asdict, hstorable.toJson, htp, ?_⟩
    have hloads := hback v v hstorable.asdict hstorable.toJson
    rw [hstorable.lastKeys] at hloads
    cases tp' with
    | container kind item =>
      cases kind with
      | list => exact hloads
      | _ => cases hdocument
    | dict key value => exact hloads
    | _ => cases hdocument
  | @tuple tp' items htp htuple hitems =>
    have hlist : R.Storable (.container .list items) := .list hitems
    have ha : R.asdict (.container .tuple items) = .ok (.container .tuple items) := by
      rw [asdict, asdictItems_ok.2 (List.forall₂_same.2 fun v hv => (hitems v hv).asdict)]
      rfl
    have hd : R.toJson (.container .tuple items) = .ok (.container .list items) := by
      rw [toJson, toJsonItems_ok.2 (List.forall₂_same.2 fun v hv => (hitems v hv).toJson)]
      rfl
    have hloads := hback _ _ ha hd
    rw [hlist.lastKeys] at hloads
    refine ⟨.container .tuple items, (recover_eq_ok hs hv).2 ⟨_, _, tp', ha, hd, htp, ?_⟩, ?_⟩
    · cases tp' with
      | container kind item =>
        cases kind with
        | tuple =>
          rw [decodeAs, hloads]
          rfl
        | _ => cases htuple
      | fixedTuple types =>
        rw [decodeAs, hloads]
        rfl
      | _ => cases htuple
    · rw [Equal]
      have hequal := equalItems_iff.2 (List.forall₂_same.2 fun v hv => (hitems v hv).equal)
      exact ⟨_, _, rfl, rfl, rfl, hequal⟩
  | @object cls fields htp hfields =>
    have hnames : (fields.map Prod.fst).Nodup := by
      have hs : fields.map Prod.fst = (R.fields cls).map DataField.name := hs
      rw [hs]
      exact R.distinctNames
    have hdict : R.Storable (.dict (fields.map fun e => (.str e.1, e.2))) := by
      refine .dict ?_ (nodup_names hnames) ?_
      · exact List.forall_mem_map.2 fun e _ => ⟨e.1, rfl⟩
      · exact List.forall_mem_map.2 fun e he => hfields e he
    have ha : R.asdict (.object cls fields) =
        .ok (.dict (fields.map fun e => (.str e.1, e.2))) := by
      rw [asdict, asdictFields_ok.2 (List.forall₂_same.2 fun e he => ⟨rfl, (hfields e he).asdict⟩)]
      rfl
    have hloads := hback _ _ ha hdict.toJson
    rw [hdict.lastKeys] at hloads
    refine ⟨.object cls fields,
      (recover_eq_ok hs hv).2 ⟨_, _, .model cls, ha, hdict.toJson, htp, ?_⟩, ?_⟩
    · rw [decodeAs, hloads]
      exact construct_fields hs
    · rw [Equal]
      have hequal := equalFields_iff.2
        (List.forall₂_same.2 fun e he => ⟨rfl, (hfields e he).equal⟩)
      exact ⟨_, rfl, hequal⟩

/-- A field keeps a value with parts just if nothing of it is lost in its document. -/
theorem recover_iff (hs : R.Structured v) (hback : R.ReadsBack v) :
    (∃ w, R.recover affinity tp v = .ok w ∧ R.Equal v w) ↔ R.Lossless tp v := by
  by_cases hv : v = .none
  · subst hv
    refine ⟨fun _ => .none, fun _ => ⟨.none, R.recover_none affinity tp, ?_⟩⟩
    rw [Equal]
  · refine ⟨fun h => ?_, recover_of_lossless hs hv hback⟩
    obtain ⟨w, hw, hequal⟩ := h
    obtain ⟨a, d, tp', ha, hd, htp, hdecode⟩ := (recover_eq_ok hs hv).1 hw
    exact lossless_of_decode hs hv ⟨a, d, ha, hd, rfl⟩ (hback a d ha hd) htp hdecode hequal

end Columns

end OrmRuntime

end Sovereign
