import Sovereign.Request
import Sovereign.Response

namespace Sovereign
set_option autoImplicit true

/-- Code that reads and changes the state of the program and may raise; what it has changed stays
changed when it raises. -/
abbrev Act (σ α : Type) := ExceptT Exc (StateM σ) α

/-- What application code hands around: a result, or a coroutine that has not run yet. -/
inductive Val (σ : Type) where
  | result (resp : HandlerResult)
  | awaitable (run : σ → Except Exc (Val σ) × σ)

/-- A function of a request, such as a handler or the `call_next` of a middleware. -/
abbrev Endpoint (σ : Type) := Request → Act σ (Val σ)

/-- The coroutine function with this body: calling it does not run the body. -/
def coroutineFunction (body : Endpoint σ) : Endpoint σ := fun req => pure (.awaitable (body req))

namespace Act

@[simp] theorem pure_run (a : α) (s : σ) : (pure a : Act σ α) s = (.ok a, s) := rfl

@[simp] theorem throw_run (e : Exc) (s : σ) : (throw e : Act σ α) s = (.error e, s) := rfl

theorem bind_run (x : Act σ α) (f : α → Act σ β) (s : σ) :
    (x >>= f) s = match x s with
      | (.ok a, s') => f a s'
      | (.error e, s') => (.error e, s') := by
  change (match x s with | (r, s') => ExceptT.bindCont f r s') = _
  obtain ⟨r, s'⟩ := x s
  cases r <;> rfl

theorem bind_ok {x : Act σ α} (f : α → Act σ β) (h : x s = (.ok a, s')) : (x >>= f) s = f a s' := by
  rw [bind_run, h]

theorem bind_error {x : Act σ α} (f : α → Act σ β) (h : x s = (.error e, s')) :
    (x >>= f) s = (.error e, s') := by
  rw [bind_run, h]

/-- A computation ends well just if its two parts do. -/
theorem bind_eq_ok {x : Act σ α} {f : α → Act σ β} :
    (x >>= f) s = (.ok b, s'') ↔ ∃ a s', x s = (.ok a, s') ∧ f a s' = (.ok b, s'') := by
  rw [bind_run]
  rcases x s with ⟨e | a, s'⟩
  · exact ⟨fun h => (by cases h), fun ⟨_, _, h, _⟩ => (by cases h)⟩
  · exact ⟨fun h => ⟨a, s', rfl, h⟩, fun ⟨_, _, h, h'⟩ => (by cases h; exact h')⟩

theorem map_run (f : α → β) (x : Act σ α) (s : σ) : (f <$> x) s = ((x s).1.map f, (x s).2) := by
  rw [map_eq_pure_bind, bind_run]
  split
  · next h => rw [h]; rfl
  · next h => rw [h]; rfl

/-- The outcome of `x`, as a `try` sees it. -/
def attempt (x : Act σ α) : Act σ (Except Exc α) := fun s => (.ok (x s).1, (x s).2)

end Act

namespace Val

/-- `await value` -/
def await : Val σ → Act σ (Val σ)
  | awaitable run => run
  | result _ => throw (.builtin .typeError)

/-- `await value if inspect.isawaitable(value) else value` -/
def settle : Val σ → Act σ (Val σ)
  | awaitable run => run
  | result resp => pure (.result resp)

/-- The value used as a response: an awaitable has none of its attributes. -/
def response : Val σ → Act σ HandlerResult
  | result resp => pure resp
  | awaitable _ => throw (.builtin .attributeError)

end Val

/-- A middleware, written as a function or, where `inspect.iscoroutinefunction` says so, as a
coroutine function. -/
structure Middleware (σ : Type) where
  isCoroutineFunction : Bool
  body : Request → Endpoint σ → Act σ (Val σ)

/-- `mw(req, call_next)` -/
def Middleware.call (mw : Middleware σ) (req : Request) (callNext : Endpoint σ) : Act σ (Val σ) :=
  if mw.isCoroutineFunction then coroutineFunction (fun r => mw.body r callNext) req
  else mw.body req callNext

/-- The function `build` of `Router.execute`. -/
def build : List (Middleware σ) → Endpoint σ → Endpoint σ
  | [], handler => handler
  | mw :: chain, handler => fun r => mw.call r (build chain handler)

/-- The function `invoke_handler` of `Router.execute_async`. -/
def invokeHandler (handler : Endpoint σ) : Endpoint σ := fun r => do
  let out ← handler r
  out.settle

/-- The body of the coroutine function `runner` that `build` makes in `Router.execute_async`. -/
def runner : List (Middleware σ) → Endpoint σ → Endpoint σ
  | [], handler => invokeHandler handler
  | mw :: chain, handler => fun r => do
    let nxt := coroutineFunction (runner chain handler)
    let result ← mw.call r nxt
    let result ← if mw.isCoroutineFunction then result.await else pure result
    result.settle

/-- A handler as it is registered. -/
structure Handler (σ : Type) where
  isCoroutineFunction : Bool
  body : Dict Str Str → Endpoint σ

def Handler.call (handler : Handler σ) (params : Dict Str Str) : Endpoint σ :=
  if handler.isCoroutineFunction then coroutineFunction (handler.body params)
  else handler.body params

/-- `Router._call_handler`, where `asyncio.run` awaits a coroutine to its end. -/
def callHandler (handler : Handler σ) (params : Dict Str Str) : Endpoint σ := fun req => do
  let result ← handler.call params req
  result.settle

/-- `Router._call_handler_async` -/
def callHandlerAsync (handler : Handler σ) (params : Dict Str Str) : Endpoint σ := fun req => do
  let result ← handler.call params req
  let result ← if handler.isCoroutineFunction then result.await else pure result
  result.settle

/-- A route. The regular expression gives the named groups of its match with a path. -/
structure Route (σ : Type) where
  method : Str
  regex : Str → Option (Dict Str Str)
  handler : Handler σ
  middlewares : List (Middleware σ)

structure Router (σ : Type) where
  routes : List (Route σ)
  middlewares : List (Middleware σ)
  openapi : Request → Act σ HandlerResult

namespace Router

variable (router : Router σ)

def docs : Endpoint σ := fun req => do
  let schema ← router.openapi req
  return .result schema

def noop : Endpoint σ := fun _ => pure (.result (.response { body := [], status := 204 }))

/-- `path.rstrip("/") in {"/openapi.json", "/docs"}` -/
def isDocsPath (path : Str) : Bool :=
  decide ((path.reverse.dropWhile (· = '/')).reverse ∈ ["/openapi.json".toList, "/docs".toList])

/-- The loop over the routes: the first one for the method, or the methods met that match. -/
def findRoute (method path : Str) : List (Route σ) → List Str →
    List Str ⊕ Route σ × Dict Str Str
  | [], allowed => .inl allowed
  | route :: routes, allowed =>
    match route.regex path with
    | none => findRoute method path routes allowed
    | some groups =>
      if route.method = upper method then .inr (route, groups)
      else findRoute method path routes (allowed ++ [route.method])

/-- The common text of `resolve` and `resolve_async`, which differ in how they define functions
and call handlers. -/
def resolveWith (define : Endpoint σ → Endpoint σ)
    (call : Handler σ → Dict Str Str → Endpoint σ) (method path : Str) :
    Act σ (Endpoint σ × List (Middleware σ)) :=
  if upper method = "GET".toList ∧ isDocsPath path = true then pure (define router.docs, [])
  else
    match findRoute method path router.routes [] with
    | .inr (route, groups) => pure (define (call route.handler groups), route.middlewares)
    | .inl allowed =>
      if upper method = "OPTIONS".toList then pure (define noop, [])
      else if allowed ≠ [] then throw (.httpError 405 "Method Not Allowed")
      else throw (.httpError 404 "Not Found")

/-- `Router.resolve` -/
def resolve (method path : Str) : Act σ (Endpoint σ × List (Middleware σ)) :=
  router.resolveWith id callHandler method path

/-- `Router.resolve_async` -/
def resolveAsync (method path : Str) : Act σ (Endpoint σ × List (Middleware σ)) :=
  router.resolveWith coroutineFunction callHandlerAsync method path

/-- `Router.execute` -/
def execute (req : Request) (handler : Endpoint σ) (routeMiddlewares : List (Middleware σ)) :
    Act σ (Val σ) :=
  build (router.middlewares ++ routeMiddlewares) handler req

/-- `Router.execute_async` -/
def executeAsync (req : Request) (handler : Endpoint σ) (routeMiddlewares : List (Middleware σ)) :
    Act σ (Val σ) :=
  runner (router.middlewares ++ routeMiddlewares) handler req

end Router

end Sovereign
