import Sovereign.Router

namespace Sovereign
set_option autoImplicit true

/-- What a native middleware does once its first part has run. -/
inductive Plan (σ : Type) where
  /-- it returns without calling the next one -/
  | done (resp : HandlerResult)
  /-- it returns the awaitable that the next one gives it -/
  | tail (req : Request)
  /-- it awaits the next one, and goes on with the response or the exception -/
  | next (req : Request) (after : Except Exc HandlerResult → Act σ HandlerResult)

/-- A middleware that both pipelines can run: a coroutine function, or a plain function that ends in
a result of its own or in `return call_next(req)`. -/
inductive Stage (σ : Type) where
  | native (before : Request → Act σ (Plan σ))
  | promoted (before : Request → Act σ (HandlerResult ⊕ Request))

/-- The rest of a native middleware, as a coroutine and as the function it stands for. -/
def Plan.finish (await : Val σ → Act σ (Val σ)) (callNext : Endpoint σ) : Plan σ → Act σ (Val σ)
  | .done resp => pure (.result resp)
  | .tail req => callNext req
  | .next req after => do
    let out ← Act.attempt (do
      let next ← callNext req
      let value ← await next
      value.response)
    let resp ← after out
    return .result resp

def finishPromoted (callNext : Endpoint σ) : HandlerResult ⊕ Request → Act σ (Val σ)
  | .inl resp => pure (.result resp)
  | .inr req => callNext req

namespace Stage

/-- The middleware as it is registered on an asynchronous server. -/
def async : Stage σ → Middleware σ
  | native before =>
    { isCoroutineFunction := true
      body := fun req callNext => before req >>= Plan.finish Val.await callNext }
  | promoted before =>
    { isCoroutineFunction := false
      body := fun req callNext => before req >>= finishPromoted callNext }

/-- Its synchronous counterpart. -/
def sync : Stage σ → Middleware σ
  | native before =>
    { isCoroutineFunction := false
      body := fun req callNext => before req >>= Plan.finish pure callNext }
  | promoted before =>
    { isCoroutineFunction := false
      body := fun req callNext => before req >>= finishPromoted callNext }

end Stage

/-- A handler that ends in a result, as a coroutine function or as a plain function. -/
def handlerOf (isCoroutineFunction : Bool) (body : Request → Act σ HandlerResult) : Endpoint σ :=
  if isCoroutineFunction then coroutineFunction fun req => Val.result <$> body req
  else fun req => Val.result <$> body req

theorem settle_result (x : Act σ HandlerResult) :
    (do let out ← Val.result <$> x; out.settle) = (Val.result <$> x : Act σ (Val σ)) := by
  rw [map_eq_pure_bind, bind_assoc]
  congr 1

theorem invokeHandler_handlerOf (isCoroutineFunction : Bool)
    (body : Request → Act σ HandlerResult) :
    invokeHandler (handlerOf isCoroutineFunction body) = handlerOf false body := by
  funext req
  cases isCoroutineFunction with
  | true =>
    rw [invokeHandler, handlerOf, if_pos rfl, coroutineFunction, pure_bind]
    rfl
  | false => exact settle_result (body req)

/-- Awaiting what a plan returns is running the plan with the awaited continuation. -/
theorem finish_settle (next : Endpoint σ) (plan : Plan σ) :
    (do let result ← plan.finish Val.await (coroutineFunction next); result.settle) =
      plan.finish pure next := by
  cases plan with
  | done resp => rw [Plan.finish, pure_bind]; rfl
  | tail req => rw [Plan.finish, coroutineFunction, pure_bind]; rfl
  | next req after =>
    simp only [Plan.finish, coroutineFunction, pure_bind, bind_assoc]
    rfl

theorem finishPromoted_settle (next : Endpoint σ) (choice : HandlerResult ⊕ Request) :
    (do let result ← finishPromoted (coroutineFunction next) choice; result.settle) =
      finishPromoted next choice := by
  cases choice with
  | inl resp => rw [finishPromoted, pure_bind]; rfl
  | inr req => rw [finishPromoted, coroutineFunction, pure_bind]; rfl

/-- The asynchronous chain does what the synchronous chain of the counterparts does. -/
theorem runner_stages (isCoroutineFunction : Bool) (body : Request → Act σ HandlerResult)
    (stages : List (Stage σ)) :
    runner (stages.map Stage.async) (handlerOf isCoroutineFunction body) =
      build (stages.map Stage.sync) (handlerOf false body) := by
  induction stages with
  | nil => exact invokeHandler_handlerOf isCoroutineFunction body
  | cons stage stages ih =>
    funext req
    simp only [List.map_cons, runner, build, ih]
    cases stage with
    | native before =>
      simp only [Stage.async, Stage.sync, Middleware.call, coroutineFunction, pure_bind,
        ↓reduceIte, Bool.false_eq_true]
      rw [show ∀ x : Act σ (Val σ), (Val.awaitable x).await = x from fun _ => rfl, bind_assoc]
      exact congrArg _ (funext (finish_settle _))
    | promoted before =>
      simp only [Stage.async, Stage.sync, Middleware.call, pure_bind, ↓reduceIte,
        Bool.false_eq_true, bind_assoc]
      exact congrArg _ (funext (finishPromoted_settle _))

/-- What is recorded of a run: a middleware begins, ends without the next one, or goes on after it;
the handler runs. Middlewares are numbered in the order of their registration. -/
inductive Event where
  | enter (i : Nat)
  | halt (i : Nat)
  | resume (i : Nat)
  | handler
deriving DecidableEq

/-- The records of a chain of `n` middlewares from the `i`th on: one begins before those after it
and goes on after all of them, and after a halt only earlier ones go on. -/
inductive Nested (n : Nat) : Nat → List Event → Prop where
  | handler : Nested n n [.handler]
  | halt : i < n → Nested n i [.enter i, .halt i]
  | tail : i < n → Nested n (i + 1) log → Nested n i (.enter i :: log)
  | wrap : i < n → Nested n (i + 1) log → Nested n i (.enter i :: (log ++ [.resume i]))

/-- A state with the events so far. -/
structure Traced (σ : Type) where
  state : σ
  log : List Event

def record (event : Event) : Act (Traced σ) Unit := fun t =>
  (.ok (), { t with log := t.log ++ [event] })

def untraced (x : Act σ α) : Act (Traced σ) α := fun t =>
  ((x t.state).1, { t with state := (x t.state).2 })

/-- The first part of a middleware, with its events: `returns` says which of its ends is a return
without a call of the next one. -/
def traceBefore (i : Nat) (returns : α → Bool) (before : Act σ α) (convert : α → β) :
    Act (Traced σ) β := do
  record (.enter i)
  match ← untraced (Act.attempt before) with
  | .error e =>
    record (.halt i)
    throw e
  | .ok a =>
    if returns a then record (.halt i)
    return convert a

def Plan.returns : Plan σ → Bool
  | done _ => true
  | _ => false

def Plan.traced (i : Nat) : Plan σ → Plan (Traced σ)
  | done resp => .done resp
  | tail req => .tail req
  | next req after => .next req fun out => do
    record (.resume i)
    untraced (after out)

/-- The `i`th middleware of a chain, with its events. -/
def Stage.traced (i : Nat) : Stage σ → Stage (Traced σ)
  | native before => .native fun req => traceBefore i Plan.returns (before req) (Plan.traced i)
  | promoted before => .promoted fun req => traceBefore i Sum.isLeft (before req) id

/-- The middlewares of a chain from the `i`th on, with their events. -/
def traceFrom (i : Nat) : List (Stage σ) → List (Stage (Traced σ))
  | [] => []
  | stage :: stages => stage.traced i :: traceFrom (i + 1) stages

def tracedHandler (body : Request → Act σ HandlerResult) : Request → Act (Traced σ) HandlerResult :=
  fun req => do
    record .handler
    untraced (body req)

theorem untraced_run (x : Act σ α) (s : σ) (log : List Event) :
    untraced x ⟨s, log⟩ = ((x s).1, ⟨(x s).2, log⟩) := rfl

/-- `x` behaves as `y` and records events that `P` holds of. -/
def Traces (P : List Event → Prop) (x : Act (Traced σ) (Val (Traced σ))) (y : Act σ (Val σ)) :
    Prop :=
  ∀ s log, ∃ (out : Except Exc HandlerResult) (s' : σ) (new : List Event),
    y s = (out.map .result, s') ∧ x ⟨s, log⟩ = (out.map .result, ⟨s', log ++ new⟩) ∧ P new

theorem record_bind (event : Event) (f : Unit → Act (Traced σ) α) (s : σ) (log : List Event) :
    (record event >>= f) ⟨s, log⟩ = f () ⟨s, log ++ [event]⟩ := Act.bind_ok f rfl

theorem traceBefore_error {before : Act σ α} (h : before s = (.error e, s')) (i : Nat)
    (returns : α → Bool) (convert : α → β) (log : List Event) :
    traceBefore i returns before convert ⟨s, log⟩ =
      (.error e, ⟨s', log ++ [.enter i, .halt i]⟩) := by
  have ha : untraced (Act.attempt before) ⟨s, log ++ [.enter i]⟩ =
      (.ok (.error e), ⟨s', log ++ [.enter i]⟩) := by
    rw [untraced_run, Act.attempt, h]
  rw [traceBefore, record_bind, Act.bind_ok _ ha]
  simp only [record_bind, Act.throw_run, List.append_assoc, List.cons_append, List.nil_append]

theorem traceBefore_ok {before : Act σ α} (h : before s = (.ok a, s')) (i : Nat)
    (returns : α → Bool) (convert : α → β) (log : List Event) :
    traceBefore i returns before convert ⟨s, log⟩ =
      (.ok (convert a), ⟨s', log ++ .enter i :: if returns a then [.halt i] else []⟩) := by
  have ha : untraced (Act.attempt before) ⟨s, log ++ [.enter i]⟩ =
      (.ok (.ok a), ⟨s', log ++ [.enter i]⟩) := by
    rw [untraced_run, Act.attempt, h]
  rw [traceBefore, record_bind, Act.bind_ok _ ha]
  cases hr : returns a with
  | true =>
    simp only [hr, ↓reduceIte, record_bind, Act.pure_run, List.append_assoc, List.cons_append,
      List.nil_append]
  | false => simp only [hr, Bool.false_eq_true, ↓reduceIte, Act.pure_run]

/-- A response from the next function is seen as it is. -/
theorem attempt_response {x : Act σ (Val σ)} (h : x s = (out.map .result, s')) :
    Act.attempt (do
      let next ← x
      let value ← (pure next : Act σ (Val σ))
      value.response) s = (.ok out, s') := by
  rw [Act.attempt]
  cases out with
  | error e => rw [Act.bind_error _ h]
  | ok resp =>
    rw [Act.bind_ok _ h, pure_bind]
    rfl

section Trace

variable {next : Endpoint σ} {nextTraced : Endpoint (Traced σ)} {n i : Nat}

/-- What a plan records, after the middleware has begun. -/
theorem finish_traces (hi : i < n)
    (ih : ∀ req, Traces (Nested n (i + 1)) (nextTraced req) (next req))
    (plan : Plan σ) :
    Traces (fun new => Nested n i (.enter i :: ((if plan.returns then [.halt i] else []) ++ new)))
      ((plan.traced i).finish pure nextTraced) (plan.finish pure next) := by
  intro s log
  cases plan with
  | done resp => exact ⟨.ok resp, s, [], rfl, by rw [List.append_nil]; rfl, .halt hi⟩
  | tail req =>
    obtain ⟨out, s', new, hy, hx, hn⟩ := ih req s log
    exact ⟨out, s', new, hy, hx, .tail hi hn⟩
  | next req after =>
    obtain ⟨out, s', new, hy, hx, hn⟩ := ih req s log
    refine ⟨(after out s').1, (after out s').2, new ++ [.resume i], ?_, ?_, .wrap hi hn⟩
    · rw [Plan.finish, Act.bind_ok _ (attempt_response hy), ← map_eq_pure_bind, Act.map_run]
    · rw [Plan.traced, Plan.finish, Act.bind_ok _ (attempt_response hx), ← map_eq_pure_bind,
        Act.map_run, record_bind, untraced_run, List.append_assoc]

theorem finishPromoted_traces (hi : i < n)
    (ih : ∀ req, Traces (Nested n (i + 1)) (nextTraced req) (next req))
    (choice : HandlerResult ⊕ Request) :
    Traces (fun new => Nested n i (.enter i :: ((if choice.isLeft then [.halt i] else []) ++ new)))
      (finishPromoted nextTraced choice) (finishPromoted next choice) := by
  intro s log
  cases choice with
  | inl resp => exact ⟨.ok resp, s, [], rfl, by rw [List.append_nil]; rfl, .halt hi⟩
  | inr req =>
    obtain ⟨out, s', new, hy, hx, hn⟩ := ih req s log
    exact ⟨out, s', new, hy, hx, .tail hi hn⟩

/-- The two parts of a middleware in a row. -/
theorem traces_bind {before : Act σ α} {returns : α → Bool} {convert : α → β}
    {f : α → Act σ (Val σ)} {g : β → Act (Traced σ) (Val (Traced σ))} (hi : i < n)
    (h : ∀ a, Traces (fun new =>
        Nested n i (.enter i :: ((if returns a then [.halt i] else []) ++ new)))
      (g (convert a)) (f a)) :
    Traces (Nested n i) (traceBefore i returns before convert >>= g) (before >>= f) := by
  intro s log
  rcases hb : before s with ⟨e | a, s'⟩
  · refine ⟨.error e, s', _, Act.bind_error _ hb, ?_, .halt hi⟩
    exact Act.bind_error _ (traceBefore_error hb i returns convert log)
  · obtain ⟨out, s'', new, hf, hg, hn⟩ :=
      h a s' (log ++ .enter i :: if returns a then [.halt i] else [])
    refine ⟨out, s'', _, by rw [Act.bind_ok _ hb, hf], ?_, hn⟩
    rw [Act.bind_ok _ (traceBefore_ok hb i returns convert log), hg, List.append_assoc,
      List.cons_append]

end Trace

/-- A chain with events does what the chain does, and its events are nested. -/
theorem build_traces (body : Request → Act σ HandlerResult) (stages : List (Stage σ)) (i : Nat)
    (req : Request) :
    Traces (Nested (i + stages.length) i)
      (build ((traceFrom i stages).map Stage.sync) (handlerOf false (tracedHandler body)) req)
      (build (stages.map Stage.sync) (handlerOf false body) req) := by
  induction stages generalizing i req with
  | nil =>
    intro s log
    refine ⟨(body req s).1, (body req s).2, [.handler], ?_, ?_, .handler⟩
    · exact Act.map_run _ _ _
    · change (Val.result <$> tracedHandler body req) ⟨s, log⟩ = _
      rw [Act.map_run, tracedHandler, record_bind, untraced_run]
  | cons stage stages ih =>
    have hi : i < i + (stages.length + 1) := by omega
    have ih' := fun req => ih (i + 1) req
    rw [show i + 1 + stages.length = i + (stages.length + 1) by omega] at ih'
    cases stage with
    | native before => exact traces_bind hi fun plan => finish_traces hi ih' plan
    | promoted before => exact traces_bind hi fun choice => finishPromoted_traces hi ih' choice

/-- A chain of coroutine functions and promoted functions does under `execute_async` what the
synchronous counterparts do under `execute`: the response, the exception and all effects are the
same. So are the events, which are nested in the order of registration, those of the router before
those of the route. -/
theorem executeAsync_stages (router : Router σ) (globals routes : List (Stage σ))
    (isCoroutineFunction : Bool) (body : Request → Act σ HandlerResult) (req : Request) (s : σ) :
    ∃ (out : Except Exc HandlerResult) (s' : σ) (log : List Event),
      { router with middlewares := globals.map Stage.async }.executeAsync req
          (handlerOf isCoroutineFunction body) (routes.map Stage.async) s = (out.map .result, s') ∧
      { router with middlewares := globals.map Stage.sync }.execute req
          (handlerOf false body) (routes.map Stage.sync) s = (out.map .result, s') ∧
      runner ((traceFrom 0 (globals ++ routes)).map Stage.async)
          (handlerOf isCoroutineFunction (tracedHandler body)) req ⟨s, []⟩ =
        (out.map .result, ⟨s', log⟩) ∧
      build ((traceFrom 0 (globals ++ routes)).map Stage.sync)
          (handlerOf false (tracedHandler body)) req ⟨s, []⟩ = (out.map .result, ⟨s', log⟩) ∧
      Nested (globals.length + routes.length) 0 log := by
  obtain ⟨out, s', log, hy, hx, hn⟩ := build_traces body (globals ++ routes) 0 req s []
  rw [Nat.zero_add, List.length_append] at hn
  rw [List.nil_append] at hx
  refine ⟨out, s', log, ?_, ?_, ?_, hx, hn⟩
  · rw [Router.executeAsync, ← List.map_append, runner_stages, hy]
  · rw [Router.execute, ← List.map_append, hy]
  · rw [runner_stages, hx]

end Sovereign
