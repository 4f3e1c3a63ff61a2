import Mathlib.Data.List.DropRight
import Sovereign.Router

namespace Sovereign
set_option autoImplicit true

/-- `regex.match(path)`: the named groups of the match. -/
abbrev Match := Str → Option (Dict Str Str)

/-- A handler with the attributes that `openapi` reads; `μ` is the type of dataclasses. -/
structure AppHandler (σ μ : Type) extends Handler σ where
  /-- `__name__` -/
  name : Str
  bodyModel : Option μ := none
  queryModel : Option μ := none

/-- `Route` -/
structure TableRoute (σ μ : Type) where
  method : Str
  pattern : Str
  regex : Match
  handler : AppHandler σ μ
  middlewares : List (Middleware σ)

def TableRoute.toRoute (route : TableRoute σ μ) : Route σ :=
  ⟨route.method, route.regex, route.handler.toHandler, route.middlewares⟩

/-- The arguments of a call of `Router.add`. -/
structure AddCall (σ μ : Type) where
  method : Str
  pattern : Str
  handler : AppHandler σ μ
  middlewares : List (Middleware σ)

/-- `pattern.rstrip("/") or "/"` -/
def trimPattern (pattern : Str) : Str :=
  if pattern.rdropWhile (· = '/') = [] then "/".toList else pattern.rdropWhile (· = '/')

/-- `RouterGroup`: its prefix as it is given, and the calls of its `route`. -/
structure RouterGroup (σ μ : Type) where
  pathPrefix : Str
  middlewares : List (Middleware σ)
  decorated : List (List Str × Str × AppHandler σ μ)

namespace RouterGroup

/-- `RouterGroup.prefix` -/
def ownPrefix (group : RouterGroup σ μ) : Str :=
  if group.pathPrefix = [] then [] else '/' :: strip (· = '/') group.pathPrefix

/-- `RouterGroup.routes` -/
def routes (group : RouterGroup σ μ) : List (List Str × Str × AppHandler σ μ) :=
  group.decorated.map fun (methods, pattern, fn) =>
    (methods, group.ownPrefix ++ (if startsWith ['/'] pattern then pattern else '/' :: pattern), fn)

end RouterGroup

/-- A registration of the application. -/
inductive Registration (σ μ : Type) where
  | route (pattern : Str) (methods : List Str) (middlewares : List (Middleware σ))
      (fn : AppHandler σ μ)
  | add (call : AddCall σ μ)
  | includeGroup (group : RouterGroup σ μ)

namespace Registration

/-- The calls of `Router.add` that a registration makes. -/
def calls : Registration σ μ → List (AddCall σ μ)
  | route pattern methods middlewares fn => methods.map fun method =>
      ⟨method, pattern, fn, middlewares⟩
  | add call => [call]
  | includeGroup group => group.routes.flatMap fun (methods, pattern, handler) =>
      methods.map fun m => ⟨m, pattern, handler, group.middlewares⟩

end Registration

section Registrations

-- `compile` makes the regular expression of a pattern, or is `none` where `re.compile` raises.
variable (compile : Str → Option Match)

/-- `Router.add`, where `none` is a `re.error`. -/
def AddCall.run (routes : List (TableRoute σ μ)) (call : AddCall σ μ) :
    Option (List (TableRoute σ μ)) :=
  let p := trimPattern call.pattern
  (compile p).map fun regex =>
  routes ++ [⟨upper call.method, p, regex, call.handler, call.middlewares⟩]

/-- A registration. One that raises leaves the routes that it has added before. -/
def Registration.runCalls : List (AddCall σ μ) → List (TableRoute σ μ) → List (TableRoute σ μ)
  | [], routes => routes
  | call :: calls, routes =>
    match call.run compile routes with
    | none => routes
    | some routes => runCalls calls routes

def Registration.run (routes : List (TableRoute σ μ)) (registration : Registration σ μ) :
    List (TableRoute σ μ) :=
  runCalls compile registration.calls routes

/-- The routes after some registrations. -/
def routesAfter (registrations : List (Registration σ μ)) : List (TableRoute σ μ) :=
  registrations.foldl (Registration.run compile) []

/-- The calls of `Router.add` that do not raise, in order, each with its regular expression. -/
def Registration.accepted (registration : Registration σ μ) : List (AddCall σ μ × Match) :=
  (registration.calls.map fun call => (compile (trimPattern call.pattern)).map fun regex =>
  (call, regex)).takeWhile
    Option.isSome |>.filterMap id

/-- The route that such a call makes. -/
def AddCall.entry (call : AddCall σ μ) (regex : Match) : TableRoute σ μ :=
  ⟨upper call.method, trimPattern call.pattern, regex, call.handler, call.middlewares⟩

theorem runCalls_eq (calls : List (AddCall σ μ)) (routes : List (TableRoute σ μ)) :
    Registration.runCalls compile calls routes =
      routes ++
      ((calls.map fun call => (compile (trimPattern call.pattern)).map fun regex =>
      (call, regex)).takeWhile
        Option.isSome |>.filterMap id).map fun c => c.1.entry c.2 := by
  induction calls generalizing routes with
  | nil => exact (List.append_nil routes).symm
  | cons call calls ih =>
    rw [Registration.runCalls, AddCall.run, List.map_cons]
    cases hc : compile (trimPattern call.pattern) with
    | none => exact (List.append_nil routes).symm
    | some regex =>
      simp only [Option.map_some]
      rw [ih, List.append_assoc]
      rfl

/-- The table has a route for every call of `Router.add` that does not raise, in order. -/
theorem routesAfter_eq (registrations : List (Registration σ μ)) :
    routesAfter compile registrations =
      (registrations.flatMap (Registration.accepted compile)).map fun c => c.1.entry c.2 := by
  have hrun (routes : List (TableRoute σ μ)) :
    registrations.foldl (Registration.run compile) routes =
      routes ++ (registrations.flatMap (Registration.accepted compile)).map fun c =>
      c.1.entry c.2 := by
    induction registrations generalizing routes with
    | nil => exact (List.append_nil routes).symm
    | cons registration registrations ih =>
      rw [List.foldl_cons, ih, Registration.run, runCalls_eq, List.flatMap_cons, List.map_append,
        List.append_assoc]
      rfl
  exact hrun []

end Registrations

/-- The route of a call would serve the request. -/
def serves (method path : Str) (c : AddCall σ μ × Match) : Bool :=
  (c.2 path).isSome && decide (upper c.1.method = upper method)

/-- What the router decides about a method and a path. -/
inductive Decision (σ μ : Type) where
  | serve (call : AddCall σ μ) (groups : Dict Str Str)
  | noContent
  | reject (status : Int) (message : String)

/-- The decision that the registrations stand for. -/
def decision (accepted : List (AddCall σ μ × Match)) (method path : Str) : Decision σ μ :=
  match accepted.find? (serves method path) with
  | some c => .serve c.1 ((c.2 path).getD ∅)
  | none =>
    if upper method = "OPTIONS".toList then .noContent
    else if accepted.any (fun c => (c.2 path).isSome) then .reject 405 "Method Not Allowed"
    else .reject 404 "Not Found"

/-- What a resolver returns or raises for a decision, in its way to define functions and to call
handlers. -/
def Decision.perform (define : Endpoint σ → Endpoint σ)
    (call : Handler σ → Dict Str Str → Endpoint σ) :
    Decision σ μ → Act σ (Endpoint σ × List (Middleware σ))
  | serve c groups => pure (define (call c.handler.toHandler groups), c.middlewares)
  | noContent => pure (define Router.noop, [])
  | reject status message => throw (.httpError status message)

/-- The router with these routes. -/
def Router.withRoutes (router : Router σ) (routes : List (TableRoute σ μ)) : Router σ :=
  { router with routes := routes.map TableRoute.toRoute }

namespace Router

theorem findRoute_entries (method path : Str) (accepted : List (AddCall σ μ × Match))
    (allowed : List Str) :
    findRoute method path ((accepted.map fun c => c.1.entry c.2).map TableRoute.toRoute) allowed =
      match accepted.find? (serves method path) with
      | some c => .inr ((c.1.entry c.2).toRoute, (c.2 path).getD ∅)
      | none => .inl (allowed ++ (accepted.filter fun c => (c.2 path).isSome).map fun c => upper
          c.1.method) := by
  induction accepted generalizing allowed with
  | nil => exact congrArg Sum.inl (List.append_nil allowed).symm
  | cons c accepted ih =>
    rw [List.map_cons, List.map_cons, findRoute]
    have hregex : (c.1.entry c.2).toRoute.regex = c.2 := rfl
    have hmethod : (c.1.entry c.2).toRoute.method = upper c.1.method := rfl
    rw [hregex, hmethod]
    cases hm : c.2 path with
    | none =>
      have hserves : serves method path c = false := by rw [serves, hm]; rfl
      rw [List.find?_cons_of_neg (by rw [hserves]; nofun),
        List.filter_cons_of_neg (by rw [hm]; nofun)]
      exact ih allowed
    | some groups =>
      dsimp only
      split
      · next hequal =>
        have hserves : serves method path c = true := by rw [serves, hm, decide_eq_true hequal]; rfl
        rw [List.find?_cons_of_pos hserves]
        simp only [hm, Option.getD_some]
      · next hequal =>
        have hserves : serves method path c =
          false := by rw [serves, decide_eq_false hequal, Bool.and_false]
        rw [List.find?_cons_of_neg (by rw [hserves]; nofun),
          List.filter_cons_of_pos (by rw [hm]; rfl), ih,
          List.map_cons, List.append_assoc]
        rfl

theorem resolveWith_eq (router : Router σ) (define : Endpoint σ → Endpoint σ)
    (call : Handler σ → Dict Str Str → Endpoint σ) (accepted : List (AddCall σ μ × Match))
    (method : Str)
    (hdocs : isDocsPath path = false) :
    (router.withRoutes (accepted.map fun c => c.1.entry c.2)).resolveWith define call method path =
      (decision accepted method path).perform define call := by
  rw [resolveWith, if_neg (by rw [hdocs]; exact fun h => Bool.false_ne_true h.2), withRoutes]
  dsimp only
  rw [findRoute_entries, decision]
  cases accepted.find? (serves method path) with
  | some c => rfl
  | none =>
    dsimp only
    rw [List.nil_append]
    split
    · rfl
    · by_cases hany : accepted.any (fun c => (c.2 path).isSome) = true
      · rw [if_pos hany, if_pos]
        · rfl
        · obtain ⟨c, hc, hsome⟩ := List.any_eq_true.1 hany
          exact List.ne_nil_of_mem (List.mem_map_of_mem (List.mem_filter.2 ⟨hc, hsome⟩))
      · rw [if_neg hany, if_neg]
        · rfl
        · rw [not_not, List.map_eq_nil_iff, List.filter_eq_nil_iff]
          intro c hc hsome
          exact hany (List.any_eq_true.2 ⟨c, hc, hsome⟩)

/-- A request that is served already is not affected by further registrations. -/
theorem decision_append (accepted more : List (AddCall σ μ × Match))
    (hserved : (accepted.find? (serves method path)).isSome = true) :
    decision (accepted ++ more) method path = decision accepted method path := by
  obtain ⟨c, hc⟩ := Option.isSome_iff_exists.1 hserved
  rw [decision, decision, List.find?_append, hc]
  rfl

/-- Both resolvers decide as the registrations say. -/
theorem resolve_decision (compile : Str → Option Match) (router : Router σ)
    (registrations : List (Registration σ μ)) (method : Str) (hdocs : isDocsPath path = false) :
    (router.withRoutes (routesAfter compile registrations)).resolve method path =
        (decision (registrations.flatMap (Registration.accepted compile)) method path).perform
        id callHandler ∧
      (router.withRoutes (routesAfter compile registrations)).resolveAsync method path =
        (decision (registrations.flatMap (Registration.accepted compile)) method path).perform
        coroutineFunction
          callHandlerAsync ∧
      ∀ more : List (Registration σ μ),
        (((registrations.flatMap (Registration.accepted compile)).find?
        (serves method path)).isSome = true →
          (router.withRoutes (routesAfter compile (registrations ++ more))).resolve method path =
              (router.withRoutes (routesAfter compile registrations)).resolve method path ∧
            (router.withRoutes (routesAfter compile (registrations ++ more))).resolveAsync method
            path =
              (router.withRoutes (routesAfter compile registrations)).resolveAsync
              method path) := by
  simp only [routesAfter_eq, resolve, resolveAsync, resolveWith_eq router _ _ _ _ hdocs, true_and]
  intro more hserved
  rw [List.flatMap_append, decision_append _ _ hserved]
  exact ⟨rfl, rfl⟩

/-- A handler that answers every request alike. -/
def plainHandler (name : String) : AppHandler Unit Unit where
  isCoroutineFunction := false
  body _ _ := pure (.result (.response { body := [], status := 200 }))
  name := name.toList

def plainRouter : Router Unit := ⟨[], [], fun _ => throw (.builtin .attributeError)⟩

/-- Patterns without parameters. -/
def literalCompile (pattern : Str) : Option Match :=
  some fun path => if path = pattern then some ∅ else none

def sampleRegistrations : List (Registration Unit Unit) :=
  [.route "/a/".toList ["get".toList] [] (plainHandler "first"),
    .includeGroup
    ⟨"v1".toList, [], [(["GET".toList, "post".toList], "b".toList, plainHandler "second")]⟩]

theorem resolve_decision_group :
    (plainRouter.withRoutes (routesAfter literalCompile sampleRegistrations)).resolve "Post".toList
    "/v1/b".toList =
      pure (callHandler (plainHandler "second").toHandler ∅, []) :=
  (resolve_decision literalCompile plainRouter sampleRegistrations "Post".toList
  (by decide)).1.trans rfl

end Router

end Sovereign
