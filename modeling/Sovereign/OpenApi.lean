import Sovereign.RoutePattern

namespace Sovereign
set_option autoImplicit true

/-- A schema of a dataclass; `ι` is the type of the schemas of its fields. -/
structure ModelSchema (ι : Type) where
  properties : Dict Str ι
  required : List Str

/-- `schema_for_dataclass` and what goes with it. -/
structure Schemas (μ ι : Type) where
  isDataclass : μ → Bool
  schemaForDataclass : μ → Except Exc (ModelSchema ι)
  /-- `{"type": "string"}` -/
  string : ι

inductive Location where
  | query
  | path
deriving DecidableEq

/-- An entry of `parameters`. -/
structure Parameter (ι : Type) where
  name : Str
  location : Location
  required : Bool
  schema : ι

/-- The description of an operation. Its only response is `200`, a "Successful Response". -/
structure Operation (ι : Type) where
  operationId : Str
  requestBody : Option (ModelSchema ι)
  parameters : Option (List (Parameter ι))

/-- `openapi`, with the version and the title that it gives the interface. -/
structure OpenApiDocument (ι : Type) where
  openapi : String := "3.0.3"
  title : String := "Sovereign API"
  version : String := "1.0.0"
  paths : Dict Str (Dict Str (Operation ι))

/-- `{([^}]+)}` -/
def braceContent : Str → Option (Nat × Str)
  | '{' :: s =>
    let content := s.takeWhile (· ≠ '}')
    if content ≠ [] ∧ content.length < s.length then some (content.length + 1, content) else none
  | _ => none

/-- The key of a pattern in `paths`. -/
def pathKey (pattern : Str) : Str :=
  Scan.substitute angleParam (fun name => '{' :: (name ++ ['}'])) pattern

/-- What stands in braces in a key. -/
def bracedNames (key : Str) : List Str := Scan.findAll braceContent key

section Generation

variable (schemas : Schemas μ ι)

def queryParameters (schema : ModelSchema ι) : List (Parameter ι) :=
  schema.properties.entries.map fun (name, spec) =>
  ⟨name, .query, decide (name ∈ schema.required), spec⟩

/-- The parameters for the names in braces. -/
def pathParameters (key : Str) : List (Parameter ι) :=
  (bracedNames key).map fun name => ⟨name.takeWhile (· ≠ ':'), .path, true, schemas.string⟩

/-- The operation that `openapi` writes for a route. -/
def operation (route : TableRoute σ μ) : Except Exc (Operation ι) := do
  let requestBody ← route.handler.bodyModel.mapM schemas.schemaForDataclass
  let query ← (route.handler.queryModel.filter schemas.isDataclass).mapM fun model => do
    let schema ← schemas.schemaForDataclass model
    return queryParameters schema
  let routeParams := pathParameters schemas (pathKey route.pattern)
  let parameters := if routeParams.isEmpty then query else some (query.getD [] ++ routeParams)
  return { operationId := route.handler.name ++ '_' :: lower route.method, requestBody, parameters }

/-- `paths.setdefault(path, {})[method] = op` -/
def setOperation (paths : Dict Str (Dict Str (Operation ι))) (path method : Str)
    (op : Operation ι) :
    Dict Str (Dict Str (Operation ι)) :=
  paths.set path (((paths.get? path).getD ∅).set method op)

/-- `Router.openapi` -/
def openapi (routes : List (TableRoute σ μ)) : Except Exc (OpenApiDocument ι) := do
  let paths ← routes.foldlM (fun paths route => do
    let op ← operation schemas route
    return setOperation paths (pathKey route.pattern) (lower route.method) op) ∅
  return { paths }

end Generation

/-- The operation of an entry. -/
def OpenApiDocument.entry (doc : OpenApiDocument ι) (path method : Str) : Option (Operation ι) :=
  (doc.paths.get? path).bind fun methods => methods.get? method

/-- The names of the parameters in the path. -/
def Operation.pathNames (op : Operation ι) : List Str :=
  ((op.parameters.getD []).filter fun p => p.location = .path).map Parameter.name

/-- The route would serve the request. -/
def TableRoute.serves (method path : Str) (route : TableRoute σ μ) : Bool :=
  (route.regex path).isSome && decide (route.method = upper method)

theorem get?_setOperation (paths : Dict Str (Dict Str (Operation ι)))
    (path method path' method' : Str)
    (op : Operation ι) : ((setOperation paths path method op).get? path').bind
    (fun methods => methods.get? method') =
      if path' = path ∧ method' = method then some op
      else (paths.get? path').bind fun methods => methods.get? method' := by
  rw [setOperation, Dict.get?_set]
  by_cases hpath : path' = path
  · subst hpath
    rw [if_pos rfl, Option.bind_some, Dict.get?_set]
    by_cases hmethod : method' = method
    · rw [if_pos hmethod, if_pos ⟨rfl, hmethod⟩]
    · rw [if_neg hmethod, if_neg fun h => hmethod h.2]
      cases paths.get? path' with
      | none => rfl
      | some methods => rfl
  · rw [if_neg hpath, if_neg fun h => hpath h.1]

section Entries

variable {schemas : Schemas μ ι}

/-- Documents of longer tables come from those of shorter ones. -/
theorem openapi_append {routes : List (TableRoute σ μ)} {route : TableRoute σ μ}
    {doc : OpenApiDocument ι}
    (h : openapi schemas (routes ++ [route]) = .ok doc) :
    ∃ doc' op, openapi schemas routes = .ok doc' ∧ operation schemas route = .ok op ∧
      ∀ path method, doc.entry path method =
        if path = pathKey route.pattern ∧ method = lower route.method then some op
        else doc'.entry path method := by
  obtain ⟨paths, hpaths, hdoc⟩ := except_bind_eq_ok.1 h
  cases hdoc
  rw [List.foldlM_append] at hpaths
  obtain ⟨paths', hpaths', hstep⟩ := except_bind_eq_ok.1 hpaths
  rw [List.foldlM_cons] at hstep
  obtain ⟨paths'', hroute, hnil⟩ := except_bind_eq_ok.1 hstep
  obtain ⟨op, hop, hset⟩ := except_bind_eq_ok.1 hroute
  cases hset
  cases hnil
  refine ⟨{ paths := paths' }, op, ?_, hop, fun path method => ?_⟩
  · exact except_bind_eq_ok.2 ⟨paths', hpaths', rfl⟩
  · exact get?_setOperation paths' _ _ path method op

/-- An entry describes a route with its path and method. -/
theorem entry_route {routes : List (TableRoute σ μ)} {doc : OpenApiDocument ι}
    (h : openapi schemas routes = .ok doc)
    (hentry : doc.entry path method = some op) :
    ∃ before route after, routes = before ++ route :: after ∧ path = pathKey route.pattern ∧
      method = lower route.method ∧ operation schemas route = .ok op := by
  induction routes using List.reverseRecOn generalizing doc with
  | nil =>
    cases h
    cases hentry
  | append_singleton routes route ih =>
    obtain ⟨doc', op', hdoc', hop', hset⟩ := openapi_append h
    rw [hset] at hentry
    split at hentry
    · next hkey =>
      cases hentry
      exact ⟨routes, route, [], rfl, hkey.1, hkey.2, hop'⟩
    · obtain ⟨before, route', after, rfl, hpath, hmethod, hop⟩ := ih hdoc' hentry
      exact ⟨before, route', after ++ [route], by rw [List.append_assoc]; rfl, hpath, hmethod, hop⟩

/-- Every route has an entry. -/
theorem entry_isSome {routes : List (TableRoute σ μ)} {doc : OpenApiDocument ι}
    (h : openapi schemas routes = .ok doc)
    (hroute : route ∈ routes) :
    (doc.entry (pathKey route.pattern) (lower route.method)).isSome = true := by
  induction routes using List.reverseRecOn generalizing doc with
  | nil => cases hroute
  | append_singleton routes last ih =>
    obtain ⟨doc', op, hdoc', -, hset⟩ := openapi_append h
    rw [hset]
    split
    · rfl
    · next hkey =>
      obtain hroute | hroute := List.mem_append.1 hroute
      · exact ih hdoc' hroute
      · cases List.mem_singleton.1 hroute
        exact absurd ⟨rfl, rfl⟩ hkey

/-- The parameters in the path are those of the names in braces. -/
theorem operation_pathNames {route : TableRoute σ μ} (h : operation schemas route = .ok op) :
    op.pathNames = (bracedNames (pathKey route.pattern)).map (·.takeWhile (· ≠ ':')) := by
  obtain ⟨requestBody, -, h⟩ := except_bind_eq_ok.1 h
  obtain ⟨query, hquery, h⟩ := except_bind_eq_ok.1 h
  cases h
  have hnone : (query.getD []).filter (fun p => p.location = .path) = [] := by
    cases hmodel : route.handler.queryModel.filter schemas.isDataclass with
    | none =>
      rw [hmodel] at hquery
      cases hquery
      rfl
    | some model =>
      rw [hmodel] at hquery
      obtain ⟨params, hparams, hq⟩ := except_bind_eq_ok.1 hquery
      cases hq
      obtain ⟨schema, -, hs⟩ := except_bind_eq_ok.1 hparams
      cases hs
      rw [Option.getD_some, queryParameters, List.filter_eq_nil_iff]
      intro p hp
      obtain ⟨e, -, rfl⟩ := List.mem_map.1 hp
      exact of_decide_eq_false rfl
  have hall : (pathParameters schemas (pathKey route.pattern)).filter
    (fun p => p.location = .path) =
      pathParameters schemas (pathKey route.pattern) := by
    rw [List.filter_eq_self]
    intro p hp
    obtain ⟨name, -, rfl⟩ := List.mem_map.1 hp
    rfl
  have hnames : (pathParameters schemas (pathKey route.pattern)).map Parameter.name =
      (bracedNames (pathKey route.pattern)).map (·.takeWhile (· ≠ ':')) := List.map_map
  rw [← hnames, Operation.pathNames]
  dsimp only
  by_cases hempty : (pathParameters schemas (pathKey route.pattern)).isEmpty = true
  · rw [if_pos hempty, hnone, List.isEmpty_iff.1 hempty]
  · rw [if_neg hempty, Option.getD_some, List.filter_append, hnone, hall, List.nil_append]

end Entries

/-- What a piece has in braces in a key. -/
def Piece.braced : Piece → Option Str
  | .lit _ => none
  | .angle name | .brace name => some name.text
  | .bracePath name => some (name.text ++ ":path".toList)

theorem braceContent_cons (h : c ≠ '{') (s : Str) : braceContent (c :: s) = none := by
  rw [braceContent.eq_def]
  split
  · next heq =>
    cases heq
    exact absurd rfl h
  · rfl

theorem braceContent_text (hcontent : content ≠ []) (hclose : '}' ∉ content) (s : Str) :
    braceContent ('{' :: ((content ++ ['}']) ++ s)) =
    some ((content ++ ['}']).length, content) := by
  have hall : ∀ c ∈ content, decide (c ≠ '}') = true :=
    fun c hc => decide_eq_true (ne_of_mem_of_not_mem hc hclose)
  have htake : ((content ++ ['}']) ++ s).takeWhile (· ≠ '}') = content := by
    rw [List.append_assoc, List.takeWhile_append_of_pos hall, List.singleton_append,
      List.takeWhile_cons_of_neg (by decide), List.append_nil]
  have hlength : content.length < ((content ++ ['}']) ++ s).length := by
    rw [List.append_assoc, List.length_append]
    exact Nat.lt_add_of_pos_right (Nat.succ_pos _)
  rw [braceContent, htake, if_pos ⟨hcontent, hlength⟩, List.length_append]
  rfl

theorem name_ne_nil (name : Regex.Name) : name.text ≠ [] := by
  intro h
  have hhead := name.valid.1
  rw [h] at hhead
  cases hhead

theorem bracedNames_pathKey {ps : List Piece} (h : Legible ps) (hopen : .lit '{' ∉ ps) :
    bracedNames (pathKey (patternText ps)) = ps.filterMap Piece.braced := by
  rw [pathKey, substitute_angle _ h, bracedNames]
  clear h
  induction ps with
  | nil => rfl
  | cons p ps ih =>
    have hrest := ih fun hmem => hopen (List.mem_cons_of_mem p hmem)
    rw [List.flatMap_cons, List.filterMap_cons]
    cases p with
    | lit c =>
      have hc : c ≠ '{' := by
        rintro rfl
        exact hopen List.mem_cons_self
      exact (Scan.findAll_append [c] _ fun d hd => List.mem_singleton.1 hd ▸ braceContent_cons
        hc).trans hrest
    | angle name | brace name =>
      have hclose : '}' ∉ name.text := fun hmem => Bool.false_ne_true (name.valid.2 _ hmem)
      exact (Scan.findAll_match _ _ (braceContent_text (name_ne_nil name) hclose _)).trans
        (congrArg _ hrest)
    | bracePath name =>
      have hclose : '}' ∉ name.text ++ ":path".toList := by
        rw [List.mem_append]
        rintro (hmem | hmem)
        · exact Bool.false_ne_true (name.valid.2 _ hmem)
        · exact absurd hmem (by decide)
      have hcontent : name.text ++ ":path".toList ≠ [] := List.append_ne_nil_of_right_ne_nil _ nofun
      have htext : Piece.text (.bracePath name) =
        '{' :: ((name.text ++ ":path".toList) ++ ['}']) := by
        rw [Piece.text, List.append_assoc]
        rfl
      change Scan.findAll braceContent (Piece.text (.bracePath name) ++ _) = _
      rw [htext]
      exact (Scan.findAll_match _ _ (braceContent_text hcontent hclose _)).trans (congrArg _ hrest)

/-- Without path parameters the names in braces are those of the parameters. -/
theorem braced_eq_paramNames {ps : List Piece} (h : ∀ name, .bracePath name ∉ ps) :
    ps.filterMap Piece.braced = paramNames ps := by
  refine List.filterMap_congr fun p hp => ?_
  cases p with
  | lit | angle | brace => rfl
  | bracePath name => exact absurd hp (h name)

/-- What comes before a colon in braces is the name of the parameter. -/
theorem braced_takeWhile (ps : List Piece) :
    (ps.filterMap Piece.braced).map (·.takeWhile (· ≠ ':')) = paramNames ps := by
  have hname : ∀ name : Regex.Name, ∀ c ∈ name.text, decide (c ≠ ':') = true := by
    intro name c hc
    refine decide_eq_true fun he => ?_
    rw [he] at hc
    exact Bool.false_ne_true (name.valid.2 _ hc)
  rw [List.map_filterMap, paramNames]
  refine List.filterMap_congr fun p _ => ?_
  cases p with
  | lit c => rfl
  | angle name | brace name =>
    rw [Piece.braced, Option.map_some, List.takeWhile_eq_self_iff.2 (hname name)]
    rfl
  | bracePath name =>
    rw [Piece.braced, Option.map_some, List.takeWhile_append_of_pos (hname name)]
    exact congrArg some (List.append_nil name.text)

namespace Router

theorem findRoute_first {route : Route σ} {routes : List (Route σ)} (allowed : List Str)
    (hbefore : ∀ r ∈ before, ¬ ((r.regex path).isSome = true ∧ r.method = upper method))
    (hmatch : route.regex path = some groups) (hmethod : route.method = upper method) :
    findRoute method path (before ++ route :: routes) allowed = .inr (route, groups) := by
  induction before generalizing allowed with
  | nil =>
    rw [List.nil_append, findRoute, hmatch]
    exact if_pos hmethod
  | cons r before ih =>
    have hrest := fun allowed => ih allowed fun q hq => hbefore q (List.mem_cons_of_mem r hq)
    rw [List.cons_append, findRoute]
    cases hr : r.regex path with
    | none => exact hrest allowed
    | some groups' =>
      have hne : r.method ≠ upper method :=
        fun he => hbefore r List.mem_cons_self ⟨by rw [hr]; rfl, he⟩
      dsimp only
      rw [if_neg hne]
      exact hrest _

/-- A route is selected for the paths that no earlier route of its method matches. -/
theorem resolve_first (router : Router σ) {before after : List (TableRoute σ μ)}
    {route : TableRoute σ μ}
    (hdocs : ¬ (upper method = "GET".toList ∧ isDocsPath path = true))
    (hbefore : ∀ r ∈ before, ¬ ((r.regex path).isSome = true ∧ r.method = upper method))
    (hmatch : route.regex path = some groups) (hmethod : route.method = upper method) :
    (router.withRoutes (before ++ route :: after)).resolve method path =
      pure (callHandler route.handler.toHandler groups, route.middlewares) := by
  have hbefore' : ∀ r ∈ before.map TableRoute.toRoute,
    ¬ ((r.regex path).isSome = true ∧ r.method = upper method) := by
    intro r hr
    obtain ⟨tr, htr, rfl⟩ := List.mem_map.1 hr
    exact hbefore tr htr
  have hfind : findRoute method path
    (before.map TableRoute.toRoute ++ route.toRoute :: after.map TableRoute.toRoute) [] =
      .inr (route.toRoute, groups) := findRoute_first [] hbefore' hmatch hmethod
  rw [resolve, resolveWith, if_neg hdocs, withRoutes, List.map_append, List.map_cons, hfind]
  rfl

end Router

/-- An entry of the document describes a route of the table, the one that is selected for the paths
that no earlier route matches, and its parameters are those of the pattern. -/
theorem openapi_describes (schemas : Schemas μ ι) (router : Router σ)
    {routes : List (TableRoute σ μ)}
    (hdoc : openapi schemas routes = .ok doc) (hentry : doc.entry path method = some op) :
    ∃ before route after, routes = before ++ route :: after ∧ path = pathKey route.pattern ∧
      method = lower route.method ∧ operation schemas route = .ok op ∧
      (∀ requestMethod requestPath groups, route.method = upper requestMethod →
        route.regex requestPath = some groups →
        ¬ (upper requestMethod = "GET".toList ∧ Router.isDocsPath requestPath = true) →
        (∀ r ∈ before, ¬ ((r.regex requestPath).isSome = true ∧ r.method = upper requestMethod)) →
        (router.withRoutes routes).resolve requestMethod requestPath =
          pure (callHandler route.handler.toHandler groups, route.middlewares)) ∧
      ∀ ps, route.pattern = patternText ps → Legible ps → .lit '{' ∉ ps →
        op.pathNames = paramNames ps ∧
        ((∀ name, .bracePath name ∉ ps) → bracedNames path = paramNames ps) := by
  obtain ⟨before, route, after, rfl, hpath, hmethod, hop⟩ := entry_route hdoc hentry
  refine ⟨before, route, after, rfl, hpath, hmethod, hop, ?_, fun ps htext hlegible hopen =>
    ⟨?_, fun hplain => ?_⟩⟩
  · intro requestMethod requestPath groups hequal hmatch hdocs hbefore
    exact Router.resolve_first router hdocs hbefore hmatch hequal
  · rw [operation_pathNames hop, htext, bracedNames_pathKey hlegible hopen, braced_takeWhile]
  · rw [hpath, htext, bracedNames_pathKey hlegible hopen, braced_eq_paramNames hplain]

/-- A handler that answers with its name. -/
def textHandler (name : String) : AppHandler Unit Unit where
  isCoroutineFunction := false
  body _ _ := pure (.result (.response { body := ascii name, status := 200 }))
  name := name.toList

def noSchemas : Schemas Unit Unit := ⟨fun _ => false, fun _ => .ok ⟨∅, []⟩, ()⟩

def tableOf (patterns : List (String × AppHandler Unit Unit)) : List (TableRoute Unit Unit) :=
  routesAfter (compileRoute fun _ => none)
  (patterns.map fun p => .route p.1.toList ["GET".toList] [] p.2)

def itemTable : List (TableRoute Unit Unit) := tableOf [("/a/<x>", textHandler "first")]

theorem openapi_describes_item : ∃ doc op, openapi noSchemas itemTable = .ok doc ∧
    doc.entry "/a/\x7bx\x7d".toList "get".toList = some op ∧ op.operationId = "first_get".toList ∧
    op.pathNames = ["x".toList] ∧
    ∃ groups, (Router.plainRouter.withRoutes itemTable).resolve "get".toList "/a/1/".toList =
      pure (callHandler (textHandler "first").toHandler groups, []) := by
  obtain ⟨doc, hdoc, op, hentry, hid⟩ : ∃ doc, openapi noSchemas itemTable = .ok doc ∧
      ∃ op, doc.entry "/a/\x7bx\x7d".toList "get".toList = some op ∧ op.operationId =
      "first_get".toList :=
    ⟨_, rfl, _, rfl, by decide⟩
  obtain ⟨before, route, after, htable, -, -, -, hselect, hnames⟩ :=
    openapi_describes noSchemas Router.plainRouter hdoc hentry
  cases before with
  | nil =>
    obtain ⟨hroute, -⟩ := List.cons.inj htable
    subst hroute
    have hps := hnames [.lit '/', .lit 'a', .lit '/', .angle ⟨"x".toList, by decide⟩] rfl
      ⟨rfl, rfl, rfl, trivial⟩ (by decide)
    exact ⟨doc, op, hdoc, hentry, hid, hps.1, _, hselect _ _ _ rfl rfl (by decide) nofun⟩
  | cons r before =>
    have hlength := congrArg List.length htable
    rw [List.length_append, List.length_cons, List.length_cons] at hlength
    exact absurd hlength (by change 1 ≠ _; omega)

/-- The body of the response of what a resolver returns. -/
def answer (act : Act Unit (Endpoint Unit × List (Middleware Unit))) : Option Bytes :=
  match act () with
  | (.ok (handler, _), _) =>
    match handler (pathRequest []) () with
    | (.ok (.result (.response resp)), _) => some resp.body
    | _ => none
  | _ => none

/-- A route that is never selected has an entry, and the key of a path parameter does not have its name in
braces. -/
theorem openapi_overlap :
    (∃ doc op, openapi noSchemas
    (tableOf [("/a/<x>", textHandler "first"), ("/a/b", textHandler "second")]) = .ok doc ∧
      doc.entry "/a/b".toList "get".toList = some op ∧ op.operationId = "second_get".toList ∧
      ∀ groups, (Router.plainRouter.withRoutes
        (tableOf [("/a/<x>", textHandler "first"), ("/a/b", textHandler "second")])).resolve
        "GET".toList
          "/a/b".toList ≠ pure (callHandler (textHandler "second").toHandler groups, [])) ∧
    ∃ doc op, openapi noSchemas (tableOf [("/f/\x7bp:path\x7d", textHandler "file")]) = .ok doc ∧
      doc.entry "/f/\x7bp:path\x7d".toList "get".toList = some op ∧ op.pathNames = ["p".toList] ∧
      bracedNames "/f/\x7bp:path\x7d".toList = ["p:path".toList] := by
  refine ⟨⟨_, _, rfl, rfl, by decide, fun groups heq => ?_⟩, ⟨_, _, rfl, rfl, by decide, by decide⟩⟩
  have hanswer : some (ascii "first") = some (ascii "second") := congrArg answer heq
  exact absurd hanswer (by decide)

end Sovereign
