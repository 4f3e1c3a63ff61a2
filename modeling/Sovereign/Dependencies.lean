import Sovereign.Router
import Sovereign.Lib.Dict

namespace Sovereign
set_option autoImplicit true

/-- How long what a provider has returned is kept. Any other string is as `transient`. -/
inductive Scope where
  | transient
  | request
  | scoped
  | singleton
deriving DecidableEq

/-- `Inject(provider, scope)` -/
structure Inject (π : Type) where
  provider : π
  scope : Option Scope
deriving DecidableEq

/-- A parameter in the signature of a function. -/
structure Param (π : Type) where
  name : Str
  /-- its annotation is `Request` -/
  annotated : Bool
  /-- its default, if that is an `Inject` -/
  default : Option (Inject π)
deriving DecidableEq

namespace Param

def takesRequest (param : Param π) : Bool := param.name = "req".toList || param.annotated

/-- What has to be resolved for the parameter. -/
def marker (param : Param π) : Option (Inject π) :=
  if param.takesRequest then none else param.default

end Param

/-- An argument that the router passes. -/
inductive Arg (ρ ν : Type) where
  | request (req : ρ)
  | value (v : ν)

/-- What a call gives back: a value, or an awaitable that has not run yet. -/
inductive Given (σ α : Type) where
  | value (a : α)
  | awaitable (run : Act σ α)

/-- `await result` if it is an awaitable, or `asyncio.run(result)` -/
def Given.await : Given σ α → Act σ α
  | value a => pure a
  | awaitable run => run

/-- A Python function. -/
inductive Callable (σ κ α : Type) where
  | function (body : κ → Act σ (Given σ α))
  | coroutine (body : κ → Act σ α)

def Callable.call : Callable σ κ α → κ → Act σ (Given σ α)
  | function body, kwargs => body kwargs
  | coroutine body, kwargs => pure (.awaitable (body kwargs))

/-- What has been seen of a provider: that a marker of it is evaluated, that it is called and what its
invocation ends in, and a value that has been injected. -/
inductive DiEvent (π ν : Type) where
  | evaluated (p : π)
  | called (p : π)
  | returned (p : π) (v : ν)
  | raised (p : π)
  | injected (p : π) (v : ν)

/-- The caches of the router and of the request that it handles, what has been seen in the requests
before and in this one, and the state of the application. -/
structure DiWorld (π ν σ : Type) where
  singletonCache : Dict π ν
  diCache : Dict π ν
  past : List (DiEvent π ν)
  log : List (DiEvent π ν)
  world : σ

namespace DiWorld

/-- The cache of a scope that has one. -/
def cache (w : DiWorld π ν σ) : Scope → Dict π ν
  | .singleton => w.singletonCache
  | .request => w.diCache
  | .transient | .scoped => ∅

def note (w : DiWorld π ν σ) (events : List (DiEvent π ν)) : DiWorld π ν σ :=
  { w with log := w.log ++ events }

@[simp] theorem cache_note (w : DiWorld π ν σ) (l : List (DiEvent π ν)) (s : Scope) :
    (w.note l).cache s = w.cache s := by
  cases s <;> rfl

@[simp] theorem log_note (w : DiWorld π ν σ) (l : List (DiEvent π ν)) :
    (w.note l).log = w.log ++ l := rfl

@[simp] theorem past_note (w : DiWorld π ν σ) (l : List (DiEvent π ν)) : (w.note l).past = w.past :=
  rfl

theorem note_note (w : DiWorld π ν σ) (l l' : List (DiEvent π ν)) :
    (w.note l).note l' = w.note (l ++ l') := by
  rw [note, note, note]
  dsimp only
  rw [List.append_assoc]

variable [DecidableEq π]

def store (scope : Scope) (p : π) (v : ν) (w : DiWorld π ν σ) : DiWorld π ν σ :=
  match scope with
  | .singleton => { w with singletonCache := w.singletonCache.set p v }
  | .request => { w with diCache := w.diCache.set p v }
  | .transient | .scoped => w

@[simp] theorem log_store (w : DiWorld π ν σ) (s : Scope) (p : π) (v : ν) :
    (w.store s p v).log = w.log := by
  cases s <;> rfl

@[simp] theorem past_store (w : DiWorld π ν σ) (s : Scope) (p : π) (v : ν) :
    (w.store s p v).past = w.past := by
  cases s <;> rfl

/-- Only the entry that is stored is new. -/
theorem get?_store (w : DiWorld π ν σ) (s s' : Scope) (p q : π) (v : ν) (h : q ≠ p ∨ s' ≠ s) :
    ((w.store s p v).cache s').get? q = (w.cache s').get? q := by
  cases s with
  | singleton =>
    cases s' with
    | singleton => exact (Dict.get?_set _ _ _ _).trans (if_neg (h.resolve_right fun hs => hs rfl))
    | _ => rfl
  | request =>
    cases s' with
    | request => exact (Dict.get?_set _ _ _ _).trans (if_neg (h.resolve_right fun hs => hs rfl))
    | _ => rfl
  | _ => rfl

theorem get?_store_self (w : DiWorld π ν σ) (p : π) (v : ν) (hs : s = .singleton ∨ s = .request) :
    ((w.store s p v).cache s).get? p = some v := by
  rcases hs with rfl | rfl
  · exact (Dict.get?_set _ _ _ _).trans (if_pos rfl)
  · exact (Dict.get?_set _ _ _ _).trans (if_pos rfl)

theorem get?_store_same {w : DiWorld π ν σ} {p : π} {u v : ν}
    (h : ((w.store s p v).cache s).get? p = some u) : u = v := by
  cases s with
  | singleton => exact Option.some.inj (h.symm.trans (get?_store_self w p v (.inl rfl)))
  | request => exact Option.some.inj (h.symm.trans (get?_store_self w p v (.inr rfl)))
  | _ => cases h

end DiWorld

/-- Code of the application does not touch the caches. -/
def onWorld (x : Act σ α) : Act (DiWorld π ν σ) α := fun w =>
  ((x w.world).1, { w with world := (x w.world).2 })

theorem onWorld_bind (x : Act σ α) (f : α → Act σ β) :
    (onWorld x >>= fun a => onWorld (f a)) = (onWorld (x >>= f) : Act (DiWorld π ν σ) β) := by
  funext w
  rw [Act.bind_run, onWorld, onWorld, Act.bind_run]
  rcases x w.world with ⟨e | a, s⟩
  · rfl
  · rfl

theorem onWorld_eq {x : Act σ α} (w : DiWorld π ν σ) (h : x w.world = (r, s)) :
    onWorld x w = (r, { w with world := s }) := by
  rw [onWorld, h]

structure Provider (π ρ ν σ : Type) where
  params : List (Param π)
  /-- `_scope` -/
  scope : Option Scope
  code : Callable σ (List (Str × Arg ρ ν)) ν

/-- The functions that are injected, and what replaces them. -/
structure Dependencies (π ρ ν σ : Type) where
  provider : π → Provider π ρ ν σ
  dependencyOverrides : Dict π π

namespace Dependencies

variable [DecidableEq π] (g : Dependencies π ρ ν σ)

/-- `self.dependency_overrides.get(original, original)` -/
def overridden (original : π) : π := (g.dependencyOverrides.get? original).getD original

def scope (marker : Inject π) : Scope :=
  let original := g.provider marker.provider
  let provider := g.provider (g.overridden marker.provider)
  let scope := marker.scope.getD (provider.scope.getD (original.scope.getD .transient))
  if scope = .scoped then .request else scope

/-- The keyword arguments, of which those for the request are skipped where there is none to pass. -/
def arguments (req : Option ρ) (resolve : Inject π → Act (DiWorld π ν σ) ν) :
    List (Param π) → Act (DiWorld π ν σ) (List (Str × Arg ρ ν))
  | [] => pure []
  | param :: params =>
    if param.takesRequest then do
      let kwargs ← arguments req resolve params
      return (req.map fun req => (param.name, .request req)).toList ++ kwargs
    else
      match param.default with
      | some marker => do
        let v ← resolve marker
        let kwargs ← arguments req resolve params
        return (param.name, .value v) :: kwargs
      | none => arguments req resolve params

/-- Notes how an invocation ends. -/
def noted (p : π) (x : Act (DiWorld π ν σ) ν) : Act (DiWorld π ν σ) ν := fun w =>
  match x w with
  | (.ok v, w') => (.ok v, w'.note [.returned p v])
  | (.error e, w') => (.error e, w'.note [.raised p])

def calling (p : π) : Act (DiWorld π ν σ) Unit := fun w => (.ok (), w.note [.called p])

/-- `Router._invoke_provider` -/
def invokeProvider (req : ρ) (resolve : Inject π → Act (DiWorld π ν σ) ν) (p : π) :
    Act (DiWorld π ν σ) ν := noted p do
  let kwargs ← arguments (some req) resolve (g.provider p).params
  calling p
  let result ← onWorld ((g.provider p).code.call kwargs)
  onWorld result.await

/-- `Router._invoke_provider_async`, where the event loop has nothing else to do. -/
def invokeProviderAsync (req : ρ) (resolve : Inject π → Act (DiWorld π ν σ) ν) (p : π) :
    Act (DiWorld π ν σ) ν := noted p do
  let kwargs ← arguments (some req) resolve (g.provider p).params
  calling p
  match (g.provider p).code with
  | .coroutine body => onWorld (body kwargs)
  | .function body => do
    let result ← onWorld (body kwargs)
    onWorld result.await

/-- `if provider not in cache: cache[provider] = …` and `return cache[provider]` -/
def memoised (scope : Scope) (p : π) (invoke : Act (DiWorld π ν σ) ν) : Act (DiWorld π ν σ) ν :=
  fun w =>
  match (w.cache scope).get? p with
  | some v => (.ok v, w)
  | none => (invoke >>= fun v => (fun w => (.ok v, w.store scope p v) : Act (DiWorld π ν σ) ν)) w

/-- Notes that a marker of a provider is evaluated, and the value that comes of it. -/
def injecting (p : π) (x : Act (DiWorld π ν σ) ν) : Act (DiWorld π ν σ) ν := fun w =>
  match x (w.note [.evaluated p]) with
  | (.ok v, w') => (.ok v, w'.note [.injected p v])
  | (.error e, w') => (.error e, w')

/-- `Router._resolve_dependency` -/
def resolveDependency (invoke : π → Act (DiWorld π ν σ) ν) (marker : Inject π) :
    Act (DiWorld π ν σ) ν :=
  let provider := g.overridden marker.provider
  injecting provider
    (match g.scope marker with
    | .singleton => memoised .singleton provider (invoke provider)
    | .request => memoised .request provider (invoke provider)
    | .transient | .scoped => invoke provider)

/-- `Router._resolve_dependency_async` -/
def resolveDependencyAsync (invoke : π → Act (DiWorld π ν σ) ν) (marker : Inject π) :
    Act (DiWorld π ν σ) ν := g.resolveDependency invoke marker

/-- `n` calls may be nested. A `RecursionError` is a `RuntimeError`. -/
def resolveWithin (req : ρ) : Nat → Inject π → Act (DiWorld π ν σ) ν
  | 0, _ => throw (.builtin .runtimeError)
  | n + 1, marker => g.resolveDependency (g.invokeProvider req (resolveWithin req n)) marker

def resolveWithinAsync (req : ρ) : Nat → Inject π → Act (DiWorld π ν σ) ν
  | 0, _ => throw (.builtin .runtimeError)
  | n + 1, marker =>
    g.resolveDependencyAsync (g.invokeProviderAsync req (resolveWithinAsync req n)) marker

omit [DecidableEq π] in
theorem injecting_ok {w w' : DiWorld π ν σ} {p : π} {x : Act (DiWorld π ν σ) ν}
    (h : x (w.note [.evaluated p]) = (.ok v, w')) :
    injecting p x w = (.ok v, w'.note [.injected p v]) := by
  rw [injecting, h]

omit [DecidableEq π] in
theorem injecting_error {w w' : DiWorld π ν σ} {p : π} {x : Act (DiWorld π ν σ) ν}
    (h : x (w.note [.evaluated p]) = (.error e, w')) :
    injecting p x w = (.error e, w') := by
  rw [injecting, h]

omit [DecidableEq π] in
theorem arguments_congr {resolve resolve' : Inject π → Act (DiWorld π ν σ) ν}
    {params : List (Param π)}
    (h : ∀ param ∈ params, ∀ marker ∈ param.marker, resolve marker = resolve' marker)
    (req : Option ρ) :
    arguments req resolve params = arguments req resolve' params := by
  induction params with
  | nil => rfl
  | cons param params ih =>
    have hrest := ih fun p hp => h p (List.mem_cons_of_mem _ hp)
    rw [arguments, arguments, hrest]
    split
    · rfl
    · next hreq =>
      split
      · next marker hm =>
        rw [h param List.mem_cons_self marker (by rw [Param.marker, if_neg hreq, hm]; rfl)]
      · rfl

omit [DecidableEq π] in
/-- To await a coroutine is to run it, and a function is called in the same way. -/
theorem invokeProviderAsync_eq (req : ρ) (resolve : Inject π → Act (DiWorld π ν σ) ν) (p : π) :
    g.invokeProviderAsync req resolve p = g.invokeProvider req resolve p := by
  rw [invokeProviderAsync, invokeProvider]
  congr
  funext kwargs
  congr
  funext _
  cases (g.provider p).code with
  | function body => rfl
  | coroutine body => rfl

theorem resolveWithinAsync_eq (req : ρ) (n : Nat) :
    g.resolveWithinAsync req n = g.resolveWithin req n := by
  induction n with
  | zero => rfl
  | succ n ih =>
    funext marker
    rw [resolveWithinAsync, resolveWithin, resolveDependencyAsync, ih]
    congr
    funext p
    exact g.invokeProviderAsync_eq req _ p

end Dependencies

/-- Providers that have, when they are overridden, each a scope of its own. -/
structure ScopedDependencies (π ρ ν σ : Type) [DecidableEq π] extends Dependencies π ρ ν σ where
  scopeOf : π → Scope
  fixed : ∀ q, ∀ param ∈ (provider (toDependencies.overridden q)).params, ∀ marker ∈ param.marker,
    toDependencies.scope marker = scopeOf (toDependencies.overridden marker.provider)

/-- And do not need themselves. -/
structure DependencyGraph (π ρ ν σ : Type) [DecidableEq π] extends ScopedDependencies π ρ ν σ where
  rank : π → Nat
  acyclic : ∀ q, ∀ param ∈ (provider (toDependencies.overridden q)).params, ∀ marker ∈ param.marker,
    rank (toDependencies.overridden marker.provider) < rank (toDependencies.overridden q)

/-- A handler with its signature. Its markers have the scopes of their providers. -/
structure InjectedHandler {π ρ ν σ : Type} [DecidableEq π] (g : ScopedDependencies π ρ ν σ)
    (α : Type) where
  params : List (Param π)
  code : Callable σ (ρ × List (Str × Arg ρ ν)) α
  fixed : ∀ param ∈ params, ∀ marker ∈ param.marker,
    g.scope marker = g.scopeOf (g.overridden marker.provider)

namespace DependencyGraph

variable [DecidableEq π] (g : DependencyGraph π ρ ν σ)

def resolve (req : ρ) (marker : Inject π) : Act (DiWorld π ν σ) ν :=
  g.resolveWithin req (g.rank (g.overridden marker.provider) + 1) marker

def resolveAsync (req : ρ) (marker : Inject π) : Act (DiWorld π ν σ) ν :=
  g.resolveWithinAsync req (g.rank (g.overridden marker.provider) + 1) marker

/-- `Router._call_handler` -/
def callHandler (handler : InjectedHandler g.toScopedDependencies α) (req : ρ) :
    Act (DiWorld π ν σ) α := do
  let kwargs ← Dependencies.arguments none (g.resolve req) handler.params
  let result ← onWorld (handler.code.call (req, kwargs))
  onWorld result.await

/-- `Router._call_handler_async`, where the event loop has nothing else to do. -/
def callHandlerAsync (handler : InjectedHandler g.toScopedDependencies α) (req : ρ) :
    Act (DiWorld π ν σ) α := do
  let kwargs ← Dependencies.arguments none (g.resolveAsync req) handler.params
  match handler.code with
  | .coroutine body => do
    let result ← onWorld (body (req, kwargs))
    return result
  | .function body => do
    let result ← onWorld (body (req, kwargs))
    onWorld result.await

/-- The limit of nested calls is not reached. -/
theorem resolveWithin_eq (req : ρ) {m n : Nat} {marker : Inject π}
    (hm : g.rank (g.overridden marker.provider) < m)
    (hn : g.rank (g.overridden marker.provider) < n) :
    g.resolveWithin req m marker = g.resolveWithin req n marker := by
  induction m generalizing n marker with
  | zero => exact absurd hm (Nat.not_lt_zero _)
  | succ m ih =>
    cases n with
    | zero => exact absurd hn (Nat.not_lt_zero _)
    | succ n =>
      have hinvoke : g.invokeProvider req (g.resolveWithin req m) (g.overridden marker.provider) =
          g.invokeProvider req (g.resolveWithin req n) (g.overridden marker.provider) := by
        rw [Dependencies.invokeProvider, Dependencies.invokeProvider]
        congr 2
        apply Dependencies.arguments_congr
        intro param hp marker' hmarker
        have hlt := g.acyclic marker.provider param hp marker' hmarker
        apply ih
        · exact hlt.trans_le (Nat.le_of_lt_succ hm)
        · exact hlt.trans_le (Nat.le_of_lt_succ hn)
      rw [Dependencies.resolveWithin, Dependencies.resolveWithin, Dependencies.resolveDependency,
        Dependencies.resolveDependency, hinvoke]

/-- The recursion of the source. -/
theorem resolve_eq (req : ρ) (marker : Inject π) :
    g.resolve req marker = g.resolveDependency (g.invokeProvider req (g.resolve req)) marker := by
  have hinvoke : g.invokeProvider req
      (g.resolveWithin req (g.rank (g.overridden marker.provider))) (g.overridden marker.provider) =
      g.invokeProvider req (g.resolve req) (g.overridden marker.provider) := by
    rw [Dependencies.invokeProvider, Dependencies.invokeProvider]
    congr 2
    apply Dependencies.arguments_congr
    intro param hp marker' hmarker
    exact g.resolveWithin_eq req (g.acyclic marker.provider param hp marker' hmarker)
      (Nat.lt_succ_self _)
  rw [resolve, Dependencies.resolveWithin, Dependencies.resolveDependency,
    Dependencies.resolveDependency, hinvoke]

theorem callHandlerAsync_eq (handler : InjectedHandler g.toScopedDependencies α) (req : ρ) :
    g.callHandlerAsync handler req = g.callHandler handler req := by
  have hresolve : g.resolveAsync req = g.resolve req := by
    funext marker
    rw [resolveAsync, resolve, Dependencies.resolveWithinAsync_eq]
  rw [callHandlerAsync, callHandler, hresolve]
  congr
  funext kwargs
  cases handler.code with
  | function body => rfl
  | coroutine body => rfl

/-- The code of the handler changes only the state of the application. -/
theorem callHandler_world (handler : InjectedHandler g.toScopedDependencies α) (req : ρ)
    (w : DiWorld π ν σ) :
    ∃ s, (g.callHandler handler req w).2 =
      { (Dependencies.arguments (none : Option ρ) (g.resolve req) handler.params w).2 with
        world := s } := by
  rw [callHandler, Act.bind_run]
  rcases Dependencies.arguments (none : Option ρ) (g.resolve req) handler.params w with
    ⟨e | kwargs, w'⟩
  · exact ⟨w'.world, rfl⟩
  · dsimp only
    rw [onWorld_bind]
    exact ⟨_, rfl⟩

end DependencyGraph

/-- A request, and the handler that it is routed to. -/
structure DiRequest {π ρ ν σ : Type} [DecidableEq π] (g : DependencyGraph π ρ ν σ) (α : Type) where
  handler : InjectedHandler g.toScopedDependencies α
  req : ρ
  /-- the server is asynchronous -/
  async : Bool

namespace DiRequest

variable [DecidableEq π] {g : DependencyGraph π ρ ν σ}

/-- A new request has an empty cache. -/
def begun (w : DiWorld π ν σ) : DiWorld π ν σ :=
  { w with diCache := ∅, past := w.past ++ w.log, log := [] }

def serve (x : DiRequest g α) (w : DiWorld π ν σ) : DiWorld π ν σ :=
  if x.async then (g.callHandlerAsync x.handler x.req (begun w)).2
  else (g.callHandler x.handler x.req (begun w)).2

/-- The requests are handled one at a time. -/
def step (w : DiWorld π ν σ) (x : DiRequest g α) : Option (DiWorld π ν σ) := some (x.serve w)

theorem serve_eq (x : DiRequest g α) (w : DiWorld π ν σ) :
    ∃ s, x.serve w =
      { (Dependencies.arguments (none : Option ρ) (g.resolve x.req) x.handler.params
      (begun w)).2 with
        world := s } := by
  obtain ⟨s, hs⟩ := g.callHandler_world x.handler x.req (begun w)
  refine ⟨s, ?_⟩
  rw [serve, DependencyGraph.callHandlerAsync_eq]
  split
  · exact hs
  · exact hs

end DiRequest

/-- A new router. -/
def DiWorld.fresh (s : σ) : DiWorld π ν σ := ⟨∅, ∅, [], [], s⟩

end Sovereign
