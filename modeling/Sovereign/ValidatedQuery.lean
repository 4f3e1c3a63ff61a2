import Sovereign.Coercion
import Sovereign.Password
import Sovereign.QueryString
import Sovereign.ValidatedBody

namespace Sovereign
set_option autoImplicit true

/-! `validate_query`, and the forms that it reads. -/

/-- The value of a query as `validate_model` gets it. -/
def QueryValue.toData : QueryValue → DataValue κ φ
  | one value => .str value
  | many values => .container .list (values.map .str)

/-- `dict(req.query)` -/
def Request.queryData (req : Request) : List (DataValue κ φ × DataValue κ φ) :=
  req.query.entries.map fun e => (.str e.1, e.2.toData)

namespace Interpreter

variable (env : Interpreter κ φ) (describe : PyError → Request → Str) (cls : κ)

/-- The query of the request as an object of the class. -/
def acceptQuery (req : Request) : Except Str (DataValue κ φ) :=
  match env.validateModel cls req.queryData with
  | .ok obj => .ok obj
  | .error (.validation message) => .error message
  | .error (.raised err) => .error (describe err req)

/-- `HTTPError(400, f"Query validation failed: {exc}")` -/
def queryFailed (message : Str) : HTTPError :=
  .make 400 ("Query validation failed: ".toList ++ message)

/-- The wrapper that `validate_query` makes of a function, which takes the attached object, too. -/
def validateQuery (func : DataValue κ φ → Endpoint σ) : Endpoint σ := fun req =>
  match env.acceptQuery describe cls req with
  | .error message => throw (.http (queryFailed message))
  | .ok obj => func obj req

end Interpreter

/-- The text of a form for a value of a scalar type. -/
inductive ScalarText : TypeHint κ → DataValue κ φ → Str → Prop where
  | str (s : Str) : ScalarText .str (.str s) s
  | int : formatInt n = some s → ScalarText .int (.int n) s
  | bool (b : Bool) : ScalarText .bool (.bool b) (if b then "true".toList else "false".toList)

/-- The texts of a form for a value: one for each element where it is a container. -/
inductive FormTexts (R : Interpreter κ φ) : TypeHint κ → DataValue κ φ → List Str → Prop where
  | scalar : ScalarText tp v s → FormTexts R tp v [s]
  | items : List.Forall₂ (ScalarText item) items texts → items ≠ [] →
      (kind.isSet = true → items.Pairwise fun v w => R.same v w = false) →
      FormTexts R (.container kind item) (.container kind items) texts
  | optional : FormTexts R tp v texts → tp.isNone = false →
      FormTexts R (.union [tp, .plain .none]) v texts

/-- The pairs of a form for an object with these fields, in any order. A field that the form says
nothing about has its default. -/
structure FormOf (R : Interpreter κ φ) (cls : κ) (values : List (Str × DataValue κ φ))
    (pairs : List (Str × Str)) : Prop where
  known : ∀ e ∈ pairs, ∃ field ∈ R.fields cls, e.1 = field.name
  fields : List.Forall₂ (fun (field : DataField κ φ) (e : Str × DataValue κ φ) => e.1 = field.name ∧
    (FormTexts R field.hint e.2 (queryValues pairs field.name) ∨
      queryValues pairs field.name = [] ∧ field.default = some e.2)) (R.fields cls) values

theorem formatInt_ascii (h : formatInt n = some s) : ∀ c ∈ s, c.toNat < 128 := by
  intro c hc
  by_contra hlarge
  refine not_mem_formatInt h (fun hdigit => ?_) (fun hsign => ?_) hc
  · have hle : c.toNat ≤ 57 := hdigit.2
    omega
  · subst hsign
    exact hlarge (by decide)

namespace Interpreter

variable (R : Interpreter κ φ) {describe : PyError → Request → Str} {cls : κ}

/-- A scalar is read back from its text. -/
theorem coerce_scalarText (h : ScalarText tp v s) (name : Str) :
    R.coerceValue (.str s) tp name = .ok v := by
  cases h with
  | str => rw [coerceValue_scalar R _ _ rfl]; rfl
  | @int n _ hformat =>
    have hdigits : s.map R.asciiDigit = s := by
      have hkept : s.map R.asciiDigit = s.map id := List.map_congr_left fun c hc =>
        if_pos (formatInt_ascii hformat c hc)
      rw [hkept, List.map_id]
    have hint : R.toInt (.str s) = .ok n := by
      rw [toInt, hdigits, intOfStr_formatInt hformat]
    rw [coerceValue_scalar R _ _ rfl, coerceScalar, hint]
    rfl
  | bool b =>
    cases b with
    | true => rw [coerceValue_scalar R _ _ rfl]; rfl
    | false => rw [coerceValue_scalar R _ _ rfl]; rfl

theorem hashable_scalarText (h : ScalarText tp v s) : R.hashable v = true := by
  cases h with
  | str => rfl
  | int => rfl
  | bool => rfl

/-- What a query gives for the texts, as a list. -/
theorem items_ofList (hne : texts ≠ []) :
    ((QueryValue.ofList texts).toData : DataValue κ φ).items = texts.map .str := by
  cases texts with
  | nil => exact absurd rfl hne
  | cons s texts =>
    cases texts with
    | nil => rfl
    | cons t texts => rfl

theorem collect_items {kind : ContainerKind} {items : List (DataValue κ φ)}
    (hhash : ∀ v ∈ items, R.hashable v = true)
    (hset : kind.isSet = true → items.Pairwise fun v w => R.same v w = false) :
    R.collect kind items = .ok (.container kind items) := by
  rw [collect]
  split
  · next hkind => rw [if_pos (List.all_eq_true.2 hhash), setOf_of_pairwise (hset hkind)]
  · rfl

theorem mapM_scalarTexts {item : TypeHint κ} {items : List (DataValue κ φ)}
    (h : List.Forall₂ (ScalarText item) items texts) (name : Str) :
    (texts.map .str).mapM (fun v => R.coerceValue v item name) = .ok items := by
  rw [Traverse.except_iff, List.forall₂_map_left_iff]
  exact h.flip.imp fun _ _ hscalar => R.coerce_scalarText hscalar name

theorem formTexts_ne_nil {v : DataValue κ φ} (h : FormTexts R tp v texts) : texts ≠ [] := by
  induction h with
  | scalar => exact List.cons_ne_nil _ _
  | items hitems hne =>
    rintro rfl
    exact hne (List.forall₂_nil_right_iff.1 hitems)
  | optional _ _ ih => exact ih

theorem toData_not_none (value : QueryValue) : (value.toData : DataValue κ φ).isNone = false := by
  cases value with
  | one => rfl
  | many => rfl

/-- A value is read back from the query that its texts make. -/
theorem coerce_formTexts {v : DataValue κ φ} (h : FormTexts R tp v texts) (name : Str) :
    R.coerceValue (QueryValue.ofList texts).toData tp name = .ok v := by
  induction h with
  | scalar hscalar => exact R.coerce_scalarText hscalar name
  | items hitems hne hset =>
    have htexts := R.formTexts_ne_nil (.items hitems hne hset)
    have hhash : ∀ v ∈ _, R.hashable v = true := fun v hv => by
      obtain ⟨s, -, hs⟩ := Traverse.partner hitems hv
      exact R.hashable_scalarText hs
    rw [coerceValue_container, items_ofList htexts, R.mapM_scalarTexts hitems]
    exact R.collect_items hhash hset
  | @optional tp v texts _ hnone ih =>
    have hcandidates : TypeHint.candidates [tp, .plain .none] = [tp] := by
      rw [TypeHint.candidates, List.filter_cons_of_pos (by rw [hnone]; rfl)]
      rfl
    rw [coerceValue_union, toData_not_none, Bool.and_false, if_neg Bool.false_ne_true,
      hcandidates, List.map_singleton, ih]
    rfl

theorem itemOf_dict (d : Dict Str β) (f : β → γ) (name : Str) :
    itemOf name (d.entries.map fun e => ((.str e.1 : DataValue κ φ), f e.2)) =
      (d.get? name).map f := by
  rw [itemOf, Dict.get?]
  induction d.entries with
  | nil => rfl
  | cons e entries ih =>
    rw [List.map_cons, List.find?_cons, Dict.lookup_cons_ite]
    by_cases hname : name = e.1
    · rw [if_pos hname, DataValue.isStr, decide_eq_true hname.symm]
      rfl
    · rw [if_neg hname, DataValue.isStr, decide_eq_false (Ne.symm hname)]
      exact ih

/-- The form has an object of the class for its query. -/
theorem validateModel_form {values : List (Str × DataValue κ φ)} (h : FormOf R cls values pairs)
    {req : Request} (hreq : req.queryString = urlencode pairs) :
    R.validateModel cls req.queryData = .ok (.object cls values) := by
  have hitem : ∀ name, itemOf name (req.queryData : List (DataValue κ φ × DataValue κ φ)) =
      if queryValues pairs name = [] then none
      else some (QueryValue.ofList (queryValues pairs name)).toData := by
    intro name
    rw [Request.queryData, itemOf_dict, get?_query hreq]
    split
    · rfl
    · rfl
  refine R.validateModel_ok.2 ⟨fun e he => ?_, values, rfl, Traverse.except_iff.2 ?_⟩
  · obtain ⟨⟨name, value⟩, hentry, rfl⟩ := List.mem_map.1 he
    rw [Dict.mem_entries_iff, get?_query hreq] at hentry
    split at hentry
    · cases hentry
    · next hvalues =>
      obtain ⟨s, hs⟩ := List.exists_mem_of_ne_nil _ hvalues
      obtain ⟨pair, hpair, -⟩ := List.mem_map.1 hs
      obtain ⟨hmem, hname⟩ := List.mem_filter.1 hpair
      obtain ⟨field, hfield, heq⟩ := h.known pair hmem
      exact ⟨field, hfield, congrArg DataValue.str ((of_decide_eq_true hname).symm.trans heq)⟩
  · apply h.fields.imp
    rintro field ⟨name, v⟩ ⟨hname, htexts⟩
    refine R.fieldValue_ok.2 ⟨hname, fun w hw => ?_, fun hnone => ?_⟩
    · rw [hitem] at hw
      split at hw
      · cases hw
      · next hvalues =>
        cases hw
        rcases htexts with htexts | ⟨hempty, -⟩
        · exact R.coerce_formTexts htexts field.name
        · exact absurd hempty hvalues
    · rw [hitem] at hnone
      split at hnone
      · next hempty =>
        rcases htexts with htexts | ⟨-, hdefault⟩
        · exact absurd hempty (R.formTexts_ne_nil htexts)
        · exact hdefault
      · cases hnone

end Interpreter

namespace SovereignTestClient

/-- Without middlewares the handler of the route answers a request that gets a page. -/
theorem request_get [Urllib] {R : OrmRuntime κ φ} {router : Router σ}
    (hreq : makeRequest R "GET".toList target data body headers = .ok req)
    (hdocs : Router.isDocsPath req.path = false)
    (hroute : Router.findRoute "GET".toList req.path router.routes [] = .inr (route, groups))
    (hglobal : router.middlewares = []) (hlocal : route.middlewares = []) :
    request R router "GET".toList target data body headers =
      answer (callHandler route.handler groups req) := by
  have hupper : upper "GET".toList = "GET".toList := by decide
  have hresolve : router.resolve "GET".toList req.path =
      pure (callHandler route.handler groups, []) := by
    rw [Router.resolve, Router.resolveWith, hdocs, hroute,
      if_neg fun h => absurd h.2 Bool.false_ne_true]
    dsimp only
    rw [hlocal]
    rfl
  rw [request, hreq]
  dsimp only
  rw [hupper, hresolve, pure_bind, Router.execute, hglobal]
  rfl

/-- A form that is sent with the fields of an object to a function behind `validate_query` reaches it
as this object, in whatever order the fields stand and whatever characters are in their texts. -/
theorem form_validated [Urllib] (R : OrmRuntime κ φ) (describe : PyError → Request → Str) (cls : κ)
    (func : DataValue κ φ → Endpoint σ) (router : Router σ) {path : Str} (hpath : PlainPath path)
    (hdocs : Router.isDocsPath path = false) (values : List (Str × DataValue κ φ))
    (pairs : List (Str × Str)) (hform : FormOf R.toInterpreter cls values pairs)
    (headers : List (Str × Str)) (route : Route σ) (groups : Dict Str Str) (s : σ)
    (hroute : Router.findRoute "GET".toList path router.routes [] = .inr (route, groups))
    (hhandler : route.handler =
      { isCoroutineFunction := false, body := fun _ => R.validateQuery describe cls func })
    (hglobal : router.middlewares = []) (hlocal : route.middlewares = []) :
    ∃ req, makeRequest R "GET".toList (path ++ '?' :: urlencode pairs) .none none headers =
        .ok req ∧
      request R router "GET".toList (path ++ '?' :: urlencode pairs) .none none headers s =
        answer (func (.object cls values) req >>= Val.settle) s := by
  obtain ⟨req, hmake, hreqpath, hquery⟩ : ∃ req,
      makeRequest R "GET".toList (path ++ '?' :: urlencode pairs) .none none headers = .ok req ∧
        req.path = path ∧ req.queryString = urlencode pairs := by
    refine ⟨_, make_query hpath pairs _ _ _ _ _ _ _, rfl, rfl⟩
  have haccept : R.acceptQuery describe cls req = .ok (.object cls values) := by
    rw [Interpreter.acceptQuery, R.validateModel_form hform hquery]
  refine ⟨req, hmake, ?_⟩
  rw [request_get hmake (hreqpath ▸ hdocs) (hreqpath ▸ hroute) hglobal hlocal, hhandler]
  have hcall : R.validateQuery describe cls func req = func (.object cls values) req := by
    rw [Interpreter.validateQuery, haccept]
  change answer (R.validateQuery describe cls func req >>= Val.settle) s = _
  rw [hcall]

/-- A class with a title, a number, some tags and a mark that may be missing. -/
def noteFields : List (DataField Unit Bool) :=
  [{ name := "title".toList, hint := .str },
    { name := "stars".toList, hint := .int, default := some (.int 0) },
    { name := "tags".toList, hint := .container .list .str },
    { name := "draft".toList, hint := .union [.bool, .plain .none], default := some .none }]

def noteRuntime : OrmRuntime Unit Bool :=
  { starRuntime with
    fields := fun _ => noteFields
    distinctNames := fun {_} =>
      (by decide : ["title".toList, "stars".toList, "tags".toList, "draft".toList].Nodup) }

def noteValues : List (Str × DataValue Unit Bool) :=
  [("title".toList, .str "a&b".toList), ("stars".toList, .int 0),
    ("tags".toList, .container .list [.str "x y".toList]), ("draft".toList, .bool true)]

/-- The form says nothing about the stars. -/
def noteForm : List (Str × Str) :=
  [("tags".toList, "x y".toList), ("draft".toList, "true".toList), ("title".toList, "a&b".toList)]

theorem noteForm_of : FormOf noteRuntime.toInterpreter () noteValues noteForm where
  known e he := by
    have hnames : ∀ e ∈ noteForm, e.1 ∈ noteFields.map DataField.name := by decide
    obtain ⟨field, hfield, hname⟩ := List.mem_map.1 (hnames e he)
    exact ⟨field, hfield, hname.symm⟩
  fields := by
    have htitle : queryValues noteForm "title".toList = ["a&b".toList] := by decide
    have htags : queryValues noteForm "tags".toList = ["x y".toList] := by decide
    have hdraft : queryValues noteForm "draft".toList = ["true".toList] := by decide
    refine .cons ⟨rfl, .inl ?_⟩ (.cons ⟨rfl, .inr ⟨rfl, rfl⟩⟩ (.cons ⟨rfl, .inl ?_⟩
      (.cons ⟨rfl, .inl ?_⟩ .nil)))
    · rw [htitle]
      exact .scalar (.str _)
    · rw [htags]
      exact .items (.cons (.str _) .nil) (List.cons_ne_nil _ _) fun h => (by cases h)
    · rw [hdraft]
      exact .optional (.scalar (.bool true)) rfl

/-- A route of an application that answers each note with 200. -/
def noteRoute : Route Unit where
  method := "GET".toList
  regex := fun path => if path = "/notes".toList then some ∅ else none
  handler :=
    { isCoroutineFunction := false
      body := fun _ => noteRuntime.validateQuery (fun _ _ => "error".toList) () fun _ _ =>
        pure (.result (.response { body := [], status := 200 })) }
  middlewares := []

def noteRouter : Router Unit := ⟨[noteRoute], [], fun _ => throw (.builtin .attributeError)⟩

theorem form_validated_note : ∃ (_ : Urllib) (req : Request),
    makeRequest noteRuntime "GET".toList "/notes?tags=x+y&draft=true&title=a%26b".toList .none none
      [] = .ok req ∧
    request noteRuntime noteRouter "GET".toList "/notes?tags=x+y&draft=true&title=a%26b".toList
      .none none [] () =
        answer (pure (.result (.response { body := [], status := 200 })) >>= Val.settle) () := by
  let _ : Urllib := ⟨fun _ => true⟩
  have hpath : PlainPath "/notes".toList := ⟨by decide, by decide, by decide⟩
  have htarget : "/notes?tags=x+y&draft=true&title=a%26b".toList =
    "/notes".toList ++ '?' :: urlencode noteForm := by decide
  obtain ⟨req, hreq, hanswer⟩ := form_validated noteRuntime (fun _ _ => "error".toList) () _
    noteRouter hpath (by decide) noteValues noteForm noteForm_of [] noteRoute ∅ () rfl rfl rfl rfl
  exact ⟨inferInstance, req, htarget ▸ hreq, htarget ▸ hanswer⟩

end SovereignTestClient

end Sovereign
