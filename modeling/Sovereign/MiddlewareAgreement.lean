import Sovereign.Middleware
import Sovereign.Pipeline

namespace Sovereign
set_option autoImplicit true

/-- How a middleware goes on after its first part: with a value of its own, or with what it does to
the value of `call_next`. -/
abbrev Phase (α : Type) := Val (World α) ⊕ (Val (World α) → Act (World α) (Val (World α)))

namespace Shipped

variable (runtime : Runtime)

/-- The part of a middleware before `call_next`. -/
def before : Shipped α → Request → Act (World α) (Phase α)
  | cors m, req =>
    if req.method = "OPTIONS".toList then
      Sum.inl <$> m.finish req (.result (.response { body := [], status := 204 }))
    else pure (.inr (m.finish req))
  | csrf m, req =>
    match m.check req with
    | .error e => throw e
    | .ok _ => pure (.inr (m.finish runtime req))
  | compression m, req => pure (.inr (m.finish runtime req))
  | gzip m, req => pure (.inr (m.finishGZip runtime req))
  | tokenBucket m, req => do
    let tokens ← m.admission runtime req
    return .inr (m.finish tokens)
  | html5 m, _ => pure (.inr m.finish)
  | requireAuth verifyToken, req => do
    authenticate verifyToken req
    return .inr pure

/-- Whether a middleware that has called `call_next` looks at what it gave. -/
def inspects : Shipped α → Request → Bool
  | cors m, req => decide (m.origin req ≠ [])
  | csrf m, req => !req.cookies.contains m.cookieName
  | compression _, _ | gzip _, _ | tokenBucket _, _ => true
  | html5 _, _ | requireAuth _, _ => false

theorem call_eq (m : Shipped α) (req : Request) (callNext : Endpoint (World α)) :
    m.call runtime req callNext = (do
      match ← m.before runtime req with
      | .inl value => pure value
      | .inr finish => do
        let resp ← callNext req
        finish resp) := by
  cases m with
  | cors m =>
    simp only [call, CORSMiddleware.call, before]
    split
    · rw [map_eq_pure_bind, bind_assoc]
      simp only [pure_bind, bind_pure]
    · rw [pure_bind]
  | csrf m =>
    cases hc : m.check req with
    | error e =>
      simp only [call, CSRFMiddleware.call, before, hc]
      rfl
    | ok _ => simp only [call, CSRFMiddleware.call, before, hc, pure_bind]
  | compression m => simp only [call, CompressionMiddleware.call, before, pure_bind]
  | gzip m => simp only [call, CompressionMiddleware.callGZip, before, pure_bind]
  | tokenBucket m => simp only [call, TokenBucketLimiter.call, before, bind_assoc, pure_bind]
  | html5 m => simp only [call, HTML5SecurityHeadersMiddleware.call, before, pure_bind]
  | requireAuth verifyToken =>
    simp only [call, Sovereign.requireAuth, before, bind_assoc, pure_bind, bind_pure]

end Shipped

/-- Code that ends in a result or in an exception other than that of a touched awaitable. -/
def Concrete (x : Act (World α) (Val (World α))) : Prop := ∀ w,
  (∃ resp w', x w = (.ok (.result resp), w')) ∨
    ∃ e w', x w = (.error e, w') ∧ e ≠ .builtin .attributeError

/-- Code that returns no awaitable. -/
def Resolves (x : Act (World α) (Val (World α))) : Prop := ∀ w value w',
  x w = (.ok value, w') → ∃ resp, value = .result resp

/-- What is known of the part of a middleware after `call_next`: it makes a result of a result, and
given an awaitable it fails, or leaves its work to whoever awaits. -/
structure Follows (finish : Val (World α) → Act (World α) (Val (World α))) (inspects : Bool) :
    Prop where
  result : ∀ resp w, ∃ resp' w', finish (.result resp) w = (.ok (.result resp'), w')
  fails : inspects = true → ∀ run w,
    (finish (.awaitable run) w).1 = .error (.builtin .attributeError)
  waits : inspects = false → ∀ run : Act (World α) (Val (World α)), Resolves run →
    (finish (.awaitable run) >>= Val.settle) = run >>= finish

theorem ofApplication_ne {e : Exc} (h : e.ofApplication = true) : e ≠ .builtin .attributeError := by
  rintro rfl
  cases h

theorem sample_bind (read : Nat → β) (f : β → Act (World α) γ) (w : World α) :
    (sample read >>= f) w = f (read w.calls) { w with calls := w.calls + 1 } := Act.bind_ok f rfl

theorem response_awaitable (run : Act σ (Val σ)) (f : HandlerResult → Act σ β) (s : σ) :
    ((Val.awaitable run).response >>= f) s = (.error (.builtin .attributeError), s) :=
  Act.bind_error f rfl

theorem response_result (resp : HandlerResult) (f : HandlerResult → Act σ β) :
    ((Val.result resp).response >>= f) = f resp := pure_bind resp f

/-- Handing on what `call_next` gave is no work. -/
theorem follows_pure : Follows (α := α) pure false where
  result resp w := ⟨resp, w, rfl⟩
  fails h := by cases h
  waits _ run _ := by
    rw [pure_bind, bind_pure]
    rfl

namespace Shipped

variable (runtime : Runtime)

theorem follows_cors (m : CORSMiddleware) (req : Request) :
    Follows (α := α) (m.finish req) (decide (m.origin req ≠ [])) := by
  by_cases ho : m.origin req ≠ []
  · refine ⟨fun resp w => ?_, fun _ run w => ?_, fun h => by simp [ho] at h⟩
    · simp only [CORSMiddleware.finish, if_pos ho, response_result]
      exact ⟨_, _, rfl⟩
    · simp only [CORSMiddleware.finish, if_pos ho, response_awaitable]
  · have hf : m.finish (α := α) req = pure := by
      funext resp
      simp only [CORSMiddleware.finish, if_neg ho]
    rw [hf, decide_eq_false ho]
    exact follows_pure

theorem follows_csrf (m : CSRFMiddleware) (req : Request) :
    Follows (α := α) (m.finish runtime req) (!req.cookies.contains m.cookieName) := by
  cases hc : req.cookies.contains m.cookieName with
  | false =>
    refine ⟨fun resp w => ?_, fun _ run w => ?_, fun h => by cases h⟩
    · simp only [CSRFMiddleware.finish, hc, ↓reduceIte, sample_bind, response_result]
      exact ⟨_, _, rfl⟩
    · simp only [CSRFMiddleware.finish, hc, ↓reduceIte, sample_bind, response_awaitable]
  | true =>
    have hf : m.finish (α := α) runtime req = pure := by
      funext resp
      simp only [CSRFMiddleware.finish, hc, Bool.true_eq_false, ↓reduceIte]
    rw [hf]
    exact follows_pure

theorem follows_compression (m : CompressionMiddleware) (req : Request) :
    Follows (α := α) (m.finish runtime req) true where
  result resp w := by
    simp only [CompressionMiddleware.finish, response_result]
    cases resp with
    | stream resp => exact ⟨_, _, rfl⟩
    | response resp =>
      dsimp only
      split
      · exact ⟨_, _, rfl⟩
      · split
        · exact ⟨_, _, sample_bind _ _ _⟩
        · split
          · exact ⟨_, _, rfl⟩
          · exact ⟨_, _, rfl⟩
  fails _ run w := by simp only [CompressionMiddleware.finish, response_awaitable]
  waits h := by cases h

theorem follows_gzip (m : CompressionMiddleware) (req : Request) :
    Follows (α := α) (m.finishGZip runtime req) true where
  result resp w := by
    simp only [CompressionMiddleware.finishGZip, response_result]
    cases resp with
    | stream resp => exact ⟨_, _, rfl⟩
    | response resp =>
      dsimp only
      split
      · exact ⟨_, _, rfl⟩
      · split
        · exact ⟨_, _, rfl⟩
        · exact ⟨_, _, sample_bind _ _ _⟩
  fails _ run w := by simp only [CompressionMiddleware.finishGZip, response_awaitable]
  waits h := by cases h

theorem follows_tokenBucket (m : TokenBucketLimiter α) (tokens : Float) :
    Follows (m.finish tokens) true where
  result resp w := by
    simp only [TokenBucketLimiter.finish, response_result]
    exact ⟨_, _, rfl⟩
  fails _ run w := by simp only [TokenBucketLimiter.finish, response_awaitable]
  waits h := by cases h

theorem follows_html5 (m : HTML5SecurityHeadersMiddleware) : Follows (α := α) m.finish false where
  result resp w := ⟨_, _, rfl⟩
  fails h := by cases h
  waits _ run hrun := by
    funext w
    have hl : (m.finish (.awaitable run) >>= Val.settle) w =
      (run >>= fun resp => pure (m.apply resp)) w := rfl
    rw [hl]
    rcases h : run w with ⟨e | value, w'⟩
    · rw [Act.bind_error _ h, Act.bind_error _ h]
    · obtain ⟨resp, rfl⟩ := hrun w value w' h
      rw [Act.bind_ok _ h, Act.bind_ok _ h]
      rfl

/-- What the first part of a middleware can come to. -/
inductive Begun (inspects : Bool) : Except Exc (Phase α) × World α → Prop where
  | raised (h : e ≠ .builtin .attributeError) : Begun inspects (.error e, w)
  | answered : Begun inspects (.ok (.inl (.result resp)), w)
  | passed (finish : Val (World α) → Act (World α) (Val (World α))) (w : World α)
      (h : Follows finish inspects) : Begun inspects (.ok (.inr finish), w)

theorem check_error {m : CSRFMiddleware} (h : m.check req = .error e) :
    e ≠ .builtin .attributeError := by
  unfold CSRFMiddleware.check CSRFMiddleware.compareDigest at h
  rintro rfl
  split at h
  · cases h
  · dsimp only at h
    split at h
    · cases h
    · split at h
      · next hd =>
        split at hd
        · cases hd
        · cases hd
          cases h
      · cases h
      · cases h

theorem begun_authenticate (verifyToken : Hook α Str (Option Str)) (req : Request) (w : World α) :
    (∃ e w', authenticate verifyToken req w = (.error e, w') ∧ e ≠ .builtin .attributeError) ∨
      ∃ w', authenticate verifyToken req w = (.ok (), w') := by
  unfold authenticate
  dsimp only
  split
  · exact .inl ⟨_, _, rfl, fun h => by cases h⟩
  · rcases hv : verifyToken.run (strStrip ((req.header "authorization".toList).drop 7)) w with
      ⟨e | user, w'⟩
    · exact .inl ⟨e, w', Act.bind_error _ hv, ofApplication_ne (verifyToken.raises _ _ _ _ hv)⟩
    · exact .inr ⟨_, Act.bind_ok _ hv⟩

theorem begun_admission (m : TokenBucketLimiter α) (req : Request) (w : World α) :
    (∃ e w', m.admission runtime req w = (.error e, w') ∧ e ≠ .builtin .attributeError) ∨
      ∃ tokens w', m.admission runtime req w = (.ok tokens, w') := by
  have hkey : ∀ e w', m.key req w = (.error e, w') → e ≠ .builtin .attributeError := by
    intro e w' h
    cases hk : m.keyFunc with
    | some hook =>
      simp only [TokenBucketLimiter.key, hk] at h
      exact ofApplication_ne (hook.raises _ _ _ _ h)
    | none =>
      simp only [TokenBucketLimiter.key, hk, TokenBucketLimiter.defaultKey] at h
      cases hu : w.user with
      | some sub =>
        rw [hu] at h
        cases h
      | none =>
        rw [hu] at h
        cases h
  have hconsume : ∀ key w, ∃ consumed w', m.consume runtime key w = (.ok consumed, w') := by
    intro key w
    cases hs : m.storage with
    | sqlite dbPath =>
      simp only [TokenBucketLimiter.consume, hs]
      exact ⟨_, _, sample_bind _ _ _⟩
    | memory id =>
      simp only [TokenBucketLimiter.consume, hs]
      exact ⟨_, _, sample_bind _ _ _⟩
  unfold TokenBucketLimiter.admission
  rcases hk : m.key req w with ⟨e | key, w₁⟩
  · exact .inl ⟨e, w₁, Act.bind_error _ hk, hkey e w₁ hk⟩
  · obtain ⟨⟨allowed, tokens, retry⟩, w₂, hc⟩ := hconsume key w₁
    rw [Act.bind_ok _ hk, Act.bind_ok _ hc]
    cases allowed with
    | false => exact .inl ⟨_, _, rfl, fun h => by cases h⟩
    | true => exact .inr ⟨_, _, rfl⟩

theorem begun (m : Shipped α) (req : Request) (w : World α) :
    Begun (m.inspects req) (m.before runtime req w) := by
  cases m with
  | cors m =>
    rw [before]
    split
    · obtain ⟨resp, w', h⟩ := (follows_cors (α := α) m req).result
        (.response { body := [], status := 204 }) w
      rw [Act.map_run, h]
      exact .answered
    · exact .passed _ _ (follows_cors m req)
  | csrf m =>
    cases hc : m.check req with
    | error e =>
      simp only [before, hc]
      exact .raised (check_error hc)
    | ok _ =>
      simp only [before, hc]
      exact .passed _ _ (follows_csrf runtime m req)
  | compression m => exact .passed _ _ (follows_compression runtime m req)
  | gzip m => exact .passed _ _ (follows_gzip runtime m req)
  | tokenBucket m =>
    rw [before]
    rcases begun_admission runtime m req w with ⟨e, w', h, hne⟩ | ⟨tokens, w', h⟩
    · rw [Act.bind_error _ h]
      exact .raised hne
    · rw [Act.bind_ok _ h]
      exact .passed _ _ (follows_tokenBucket m tokens)
  | html5 m => exact .passed _ _ (follows_html5 m)
  | requireAuth verifyToken =>
    rw [before]
    rcases begun_authenticate verifyToken req w with ⟨e, w', h, hne⟩ | ⟨w', h⟩
    · rw [Act.bind_error _ h]
      exact .raised hne
    · rw [Act.bind_ok _ h]
      exact .passed _ _ follows_pure

end Shipped

/-- No middleware that calls the next one looks at what it gives. -/
def Blind (runtime : Runtime) : List (Shipped α) → Request → World α → Prop
  | [], _, _ => True
  | m :: stack, req, w =>
    match m.before runtime req w with
    | (.ok (.inr _), w') => m.inspects req = false ∧ Blind runtime stack req w'
    | _ => True

section Stack

variable {runtime : Runtime} {handler : Request → Act (World α) HandlerResult}

/-- The steps of a chain of shipped middlewares, in both pipelines. -/
theorem build_shipped (m : Shipped α) (stack : List (Shipped α)) (h : Endpoint (World α))
    (req : Request) :
    build ((m :: stack).map (Shipped.middleware runtime)) h req = (do
      match ← m.before runtime req with
      | .inl value => pure value
      | .inr finish => do
        let resp ← build (stack.map (Shipped.middleware runtime)) h req
        finish resp) :=
  m.call_eq runtime req _

theorem runner_shipped (m : Shipped α) (stack : List (Shipped α)) (h : Endpoint (World α))
    (req : Request) :
    runner ((m :: stack).map (Shipped.middleware runtime)) h req = (do
      match ← m.before runtime req with
      | .inl value => value.settle
      | .inr finish => do
        let resp ← finish (.awaitable (runner (stack.map (Shipped.middleware runtime)) h req))
        resp.settle) := by
  have hr : runner ((m :: stack).map (Shipped.middleware runtime)) h req = (do
      let result ← m.call runtime req
        (coroutineFunction (runner (stack.map (Shipped.middleware runtime)) h))
      result.settle) := rfl
  rw [hr, m.call_eq, bind_assoc]
  congr 1
  funext phase
  cases phase with
  | inl value => rw [pure_bind]
  | inr finish =>
    dsimp only
    rw [coroutineFunction, pure_bind]

/-- Without awaitables, no middleware fails on one. -/
theorem build_concrete (runtime : Runtime) (hh : ∀ req, Concrete (handlerOf false handler req))
    (stack : List (Shipped α)) (req : Request) :
    Concrete (build (stack.map (Shipped.middleware runtime)) (handlerOf false handler) req) := by
  induction stack with
  | nil => exact hh req
  | cons m stack ih =>
    intro w
    rw [build_shipped, Act.bind_run]
    have hb := m.begun runtime req w
    generalize m.before runtime req w = phase at hb
    cases hb with
    | raised hne => exact .inr ⟨_, _, rfl, hne⟩
    | answered => exact .inl ⟨_, _, rfl⟩
    | passed finish w' hf =>
      rcases ih w' with ⟨resp, w'', hr⟩ | ⟨e, w'', hr, hne⟩
      · obtain ⟨resp', w₃, hres⟩ := hf.result resp w''
        exact .inl ⟨resp', w₃, (Act.bind_ok _ hr).trans hres⟩
      · exact .inr ⟨e, w'', Act.bind_error _ hr, hne⟩

/-- Where no middleware looks at an awaitable the two pipelines do the same; where one does, it
fails. -/
theorem runner_blind (runtime : Runtime) (hh : ∀ req, Concrete (handlerOf false handler req))
    (isCoroutine : Bool)
    (stack : List (Shipped α)) (req : Request) (w : World α) :
    (Blind runtime stack req w →
      runner (stack.map (Shipped.middleware runtime)) (handlerOf isCoroutine handler) req w =
        build (stack.map (Shipped.middleware runtime)) (handlerOf false handler) req w) ∧
    (¬ Blind runtime stack req w →
      (runner (stack.map (Shipped.middleware runtime)) (handlerOf isCoroutine handler) req w).1 =
        .error (.builtin .attributeError)) := by
  induction stack generalizing w with
  | nil =>
    refine ⟨fun _ => ?_, fun hno => absurd trivial hno⟩
    exact congrFun (congrFun (invokeHandler_handlerOf isCoroutine handler) req) w
  | cons m stack ih =>
    rw [Blind, runner_shipped, build_shipped, Act.bind_run, Act.bind_run]
    have hb := m.begun runtime req w
    generalize m.before runtime req w = phase at hb
    cases hb with
    | raised hne => exact ⟨fun _ => rfl, fun hno => absurd trivial hno⟩
    | answered => exact ⟨fun _ => rfl, fun hno => absurd trivial hno⟩
    | passed finish w' hf =>
      dsimp only
      cases hi : m.inspects req with
      | true =>
        refine ⟨fun hb => absurd hb.1 (Bool.false_ne_true ·.symm), fun _ => ?_⟩
        have hfail := hf.fails hi (runner (stack.map (Shipped.middleware runtime))
          (handlerOf isCoroutine handler) req) w'
        rw [Act.bind_error _ (Prod.ext hfail rfl : finish _ w' = (_, (finish _ w').2))]
      | false =>
        have hres : Resolves (runner (stack.map (Shipped.middleware runtime))
            (handlerOf isCoroutine handler) req) := by
          intro u value u' hr
          by_cases hblind : Blind runtime stack req u
          · rw [(ih u).1 hblind] at hr
            rcases build_concrete runtime hh stack req u with ⟨resp, u'', h⟩ | ⟨e, u'', h, -⟩
            · rw [h] at hr
              cases hr
              exact ⟨resp, rfl⟩
            · rw [h] at hr
              cases hr
          · have he := (ih u).2 hblind
            rw [hr] at he
            cases he
        rw [hf.waits hi _ hres]
        obtain ⟨hyes, hno⟩ := ih w'
        refine ⟨fun hb => ?_, fun hb => ?_⟩
        · rw [Act.bind_run, Act.bind_run, hyes hb.2]
        · have he := hno fun h => hb ⟨rfl, h⟩
          rw [Act.bind_error _ (Prod.ext he rfl : runner _ _ req w' = (_, (runner _ _ req w').2))]

end Stack

/-- Both pipelines end in the same response or the same exception, and no middleware has failed on
an awaitable. -/
def Agree (async sync : Except Exc (Val (World α))) : Prop :=
  async = sync ∧ async ≠ .error (.builtin .attributeError)

theorem handler_concrete (handler : Hook α Request HandlerResult) (req : Request) :
    Concrete (handlerOf false handler.run req) := by
  intro w
  rcases h : handler.run req w with ⟨e | resp, w'⟩
  · refine .inr ⟨e, w', ?_, ofApplication_ne (handler.raises _ _ _ _ h)⟩
    exact (Act.map_run _ _ _).trans (by rw [h]; rfl)
  · refine .inl ⟨resp, w', ?_⟩
    exact (Act.map_run _ _ _).trans (by rw [h]; rfl)

/-- On stacks of the shipped middlewares the two pipelines agree exactly where every middleware that
calls the next one leaves alone what it gives. -/
theorem executeAsync_shipped (runtime : Runtime) (router : Router (World α))
    (globals routes : List (Shipped α)) (isCoroutineFunction : Bool)
    (handler : Hook α Request HandlerResult) (req : Request) (w : World α) :
    let shipped := { router with middlewares := globals.map (Shipped.middleware runtime) }
    Agree
        (shipped.executeAsync req (handlerOf isCoroutineFunction handler.run)
          (routes.map (Shipped.middleware runtime)) w).1
        (shipped.execute req (handlerOf false handler.run)
          (routes.map (Shipped.middleware runtime)) w).1 ↔
      Blind runtime (globals ++ routes) req w := by
  intro shipped
  obtain ⟨hyes, hno⟩ := runner_blind runtime (handler_concrete handler)
    isCoroutineFunction (globals ++ routes) req w
  simp only [shipped, Router.executeAsync, Router.execute, ← List.map_append, Agree]
  constructor
  · rintro ⟨-, hne⟩
    by_contra hb
    exact hne (hno hb)
  · intro hb
    rw [hyes hb]
    refine ⟨rfl, ?_⟩
    rcases build_concrete runtime (handler_concrete handler) (globals ++ routes) req
      w with ⟨resp, w', h⟩ | ⟨e, w', h, hne⟩
    · rw [h]
      exact fun hc => by cases hc
    · rw [h]
      exact fun hc => hne (Except.error.inj hc)

def stillRuntime : Runtime :=
  ⟨fun _ => 0, fun _ => 0, fun _ => [], fun body _ _ => body, fun body _ => body⟩

/-- A handler that returns an empty response. -/
def emptyHandler : Hook Unit Request HandlerResult where
  run _ := pure (.response { body := [] })
  raises _ _ _ _ h := by cases h

/-- `CompressionMiddleware` alone fails on every request that it passes on. -/
theorem executeAsync_compression :
    ¬ ∀ (runtime : Runtime) (router : Router (World Unit)) (globals routes : List (Shipped Unit))
      (isCoroutineFunction : Bool) (handler : Hook Unit Request HandlerResult) (req : Request)
      (w : World Unit),
      let shipped := { router with middlewares := globals.map (Shipped.middleware runtime) }
      Agree
        (shipped.executeAsync req (handlerOf isCoroutineFunction handler.run)
          (routes.map (Shipped.middleware runtime)) w).1
        (shipped.execute req (handlerOf false handler.run)
          (routes.map (Shipped.middleware runtime)) w).1 := by
  intro h
  let req : Request :=
    { method := "GET".toList, target := "/".toList, version := "HTTP/1.1".toList, headers := ∅,
      rawHeaders := [], body := .bytes [], bodySize := 0, path := "/".toList, queryString := [],
      remoteAddr := [], cookies := ∅ }
  let w : World Unit := ⟨0, none, fun _ => ∅, fun _ => ∅, ()⟩
  have hagree := h stillRuntime ⟨[], [], fun _ => pure (.response { body := [] })⟩
    [.compression ⟨500, 6⟩] [] false emptyHandler req w
  have hblind : ¬ Blind stillRuntime [.compression (α := Unit) ⟨500, 6⟩] req w := fun hb =>
    Bool.false_ne_true hb.1.symm
  exact hagree.2 ((runner_blind _ (handler_concrete emptyHandler) false _ req w).2 hblind)

end Sovereign
