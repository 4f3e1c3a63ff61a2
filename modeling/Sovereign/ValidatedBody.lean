import Sovereign.JsonMessages

namespace Sovereign
set_option autoImplicit true

/-! `validate_body`, and the requests of `SovereignTestClient`. -/

namespace Interpreter

variable (env : Interpreter κ φ) (describe : PyError → Request → Str) (cls : κ)

/-- What `validate_body` makes of the data, or the text of the exception. `describe` gives the text
of one that is no `ValidationError`. -/
def acceptData (req : Request) : DataValue κ φ → Except Str (DataValue κ φ)
  | .dict entries =>
    match env.validateModel cls entries with
    | .ok obj => .ok obj
    | .error (.validation message) => .error message
    | .error (.raised err) => .error (describe err req)
  | _ => .error "JSON body must be an object".toList

/-- The body of the request as an object of the class. -/
def acceptBody (req : Request) : Except Str (DataValue κ φ) :=
  match req.json env with
  | .error err => .error (describe err req)
  | .ok data => env.acceptData describe cls req data

/-- `HTTPError(400, f"Validation failed: {exc}")` -/
def validationFailed (message : Str) : HTTPError :=
  .make 400 ("Validation failed: ".toList ++ message)

/-- The wrapper that `validate_body` makes of a function, which takes the attached object, too. -/
def validateBody (func : DataValue κ φ → Endpoint σ) : Endpoint σ := fun req =>
  match env.acceptBody describe cls req with
  | .error message => throw (.http (validationFailed message))
  | .ok obj => func obj req

end Interpreter

namespace SovereignTestClient

/-- `{k.lower(): v for k, v in headers.items()}` -/
def lowerNames (headers : List (Str × Str)) : Headers :=
  headers.foldl (fun out e => out.set (lower e.1) e.2) ∅

/-- The body, and the headers with its type. -/
def encodeBody (R : OrmRuntime κ φ) (jsonBody : DataValue κ φ) (data : Option Bytes)
    (headers : Headers) : Except PyError (Bytes × Headers) :=
  if jsonBody.isNone then .ok (data.getD [], headers)
  else (R.jsonBody jsonBody).map fun body =>
    (body, headers.setDefault "content-type".toList "application/json".toList)

/-- The request that a call of the client makes. -/
def makeRequest [Urllib] (R : OrmRuntime κ φ) (method path : Str) (jsonBody : DataValue κ φ)
    (data : Option Bytes) (headers : List (Str × Str)) : Except Exc Request :=
  match encodeBody R jsonBody data (lowerNames headers) with
  | .error err => .error (.builtin err)
  | .ok (body, hdr) =>
    let hdr := hdr.setDefault "host".toList "testserver".toList
    Request.make (upper method) path "HTTP/1.1".toList hdr hdr.entries (.bytes body) body.length
      "127.0.0.1".toList

/-- `Response(err.message, status=err.status, headers=err.headers)` -/
def errorAnswer (err : HTTPError) : HandlerResult :=
  .response { body := utf8 err.message, status := err.status, headers := err.headers }

/-- `try` and `except HTTPError` around the pipeline, and the `TestResponse` of its result. -/
def answer (x : Act σ (Val σ)) : Act σ HandlerResult := fun s =>
  match x s with
  | (.error (.http err), s) => (.ok (errorAnswer err), s)
  | (.error e, s) => (.error e, s)
  | (.ok value, s) => value.response s

/-- `SovereignTestClient.request` -/
def request [Urllib] (R : OrmRuntime κ φ) (router : Router σ) (method path : Str)
    (jsonBody : DataValue κ φ) (data : Option Bytes) (headers : List (Str × Str)) :
    Act σ HandlerResult :=
  match makeRequest R method path jsonBody data headers with
  | .error e => throw e
  | .ok req => answer do
    let (handler, mw) ← router.resolve (upper method) req.path
    router.execute req handler mw

/-- The answer of `HTTPError(400, ...)` as the client sees it. -/
def invalid (message : Str) : HandlerResult := errorAnswer (Interpreter.validationFailed message)

theorem body_of_make [Urllib]
    (h : Request.make method target version hdr raw body size addr = .ok req) :
    req.body = body := by
  rw [Request.make] at h
  split at h
  · cases h
  · cases h
    rfl

theorem body_of_makeRequest [Urllib] {R : OrmRuntime κ φ} {jsonBody : DataValue κ φ}
    (hdata : jsonBody ≠ .none)
    (h : makeRequest R method path jsonBody data headers = .ok req) :
    R.jsonBody jsonBody = .ok req.body.toBytes := by
  have hnone : jsonBody.isNone = false := by
    rw [Bool.eq_false_iff, ne_eq, DataValue.isNone_iff]
    exact hdata
  rw [makeRequest, encodeBody, if_neg (by rw [hnone]; exact Bool.false_ne_true)] at h
  cases hbody : R.jsonBody jsonBody with
  | error err =>
    rw [hbody] at h
    cases h
  | ok body =>
    rw [hbody] at h
    rw [body_of_make h]
    rfl

/-- Without middlewares the handler of the route makes the answer. -/
theorem request_route [Urllib] {R : OrmRuntime κ φ} {router : Router σ}
    (hreq : makeRequest R "POST".toList path jsonBody data headers = .ok req)
    (hroute : Router.findRoute "POST".toList req.path router.routes [] = .inr (route, groups))
    (hglobal : router.middlewares = []) (hlocal : route.middlewares = []) :
    request R router "POST".toList path jsonBody data headers =
      answer (callHandler route.handler groups req) := by
  have hupper : upper "POST".toList = "POST".toList := by decide
  have hresolve : router.resolve "POST".toList req.path =
      pure (callHandler route.handler groups, []) := by
    rw [Router.resolve, Router.resolveWith, hupper, hroute,
      if_neg fun h => absurd h.1 (by decide)]
    dsimp only
    rw [hlocal]
    rfl
  rw [request, hreq]
  dsimp only
  rw [hupper, hresolve, pure_bind, Router.execute, hglobal]
  rfl

/-- A JSON body that is posted to a function behind `validate_body` reaches it just if it is an
object that `validate_model` takes, and then as the object that it makes of the posted data. Else
the answer has status 400, and the function is not called. -/
theorem post_validated [Urllib] (R : OrmRuntime κ φ) (hR : R.ReadsFloats)
    (describe : PyError → Request → Str) (cls : κ) (func : DataValue κ φ → Endpoint σ)
    (router : Router σ) (path : Str) (data : DataValue κ φ) (headers : List (Str × Str))
    (req : Request) (route : Route σ) (groups : Dict Str Str) (s : σ)
    (hdata : data ≠ .none)
    (hreq : makeRequest R "POST".toList path data none headers = .ok req)
    (hroute : Router.findRoute "POST".toList req.path router.routes [] = .inr (route, groups))
    (hhandler : route.handler =
      { isCoroutineFunction := false, body := fun _ => R.validateBody describe cls func })
    (hglobal : router.middlewares = []) (hlocal : route.middlewares = []) :
    ∃ copy, R.jsonCopy data = .ok copy ∧
      (∀ obj, R.acceptData describe cls req copy = .ok obj →
        request R router "POST".toList path data none headers s =
          answer (func obj req >>= Val.settle) s) ∧
      ∀ message, R.acceptData describe cls req copy = .error message →
        request R router "POST".toList path data none headers s = (.ok (invalid message), s) := by
  obtain ⟨text, htext, hbytes⟩ := except_map_eq_ok.1 (body_of_makeRequest hdata hreq)
  obtain ⟨d, hd, hloads⟩ := OrmRuntime.jsonLoads_asciiDumps hR htext
  have hjson : req.json R.toInterpreter = .ok d.lastKeys := by
    rw [Request.json, ← hbytes, decodeUtf8_utf8]
    exact hloads
  have hcall : request R router "POST".toList path data none headers =
      answer (R.validateBody describe cls func req >>= Val.settle) := by
    rw [request_route hreq hroute hglobal hlocal, hhandler]
    rfl
  refine ⟨d.lastKeys, OrmRuntime.jsonCopy_eq_ok.2 ⟨d, hd, rfl⟩, fun obj hobj => ?_,
    fun message hmessage => ?_⟩
  · rw [hcall, Interpreter.validateBody, Interpreter.acceptBody, hjson]
    dsimp only
    rw [hobj]
  · rw [hcall, Interpreter.validateBody, Interpreter.acceptBody, hjson]
    dsimp only
    rw [hmessage]
    rfl

/-- A route of an application that answers each star with 201. -/
def starRoute : Route Unit where
  method := "POST".toList
  regex := fun path => if path = "/stars".toList then some ∅ else none
  handler :=
    { isCoroutineFunction := false
      body := fun _ => starRuntime.validateBody (fun _ _ => "error".toList) () fun _ _ =>
        pure (.result (.response { body := [], status := 201 })) }
  middlewares := []

def starRouter : Router Unit := ⟨[starRoute], [], fun _ => throw (.builtin .attributeError)⟩

theorem post_validated_star : ∃ (_ : Urllib) (req : Request) (copy : DataValue Unit Bool),
    starRuntime.jsonCopy starData = .ok copy ∧
    (∀ obj, starRuntime.acceptData (fun _ _ => "error".toList) () req copy = .ok obj →
      request starRuntime starRouter "POST".toList "/stars".toList starData none [] () =
        answer (pure (.result (.response { body := [], status := 201 })) >>= Val.settle) ()) ∧
    ∀ message, starRuntime.acceptData (fun _ _ => "error".toList) () req copy = .error message →
      request starRuntime starRouter "POST".toList "/stars".toList starData none [] () =
        (.ok (invalid message), ()) := by
  let _ : Urllib := ⟨fun _ => true⟩
  refine ⟨inferInstance, _, post_validated starRuntime starRuntime_floats
    (fun _ _ => "error".toList) () _ starRouter "/stars".toList starData [] _ starRoute ∅ ()
    (fun h => by cases h) rfl rfl rfl rfl rfl⟩

end SovereignTestClient

end Sovereign
