import Sovereign.Router

namespace Sovereign
set_option autoImplicit true

/-- What the middlewares take from the standard library: the clocks and the random tokens by the
number of the call, and the compressors, of which `gzip` stamps its output with the time. -/
structure Runtime where
  monotonic : Nat → Float
  time : Nat → Float
  tokenUrlsafe : Nat → Str
  gzip : Bytes → Int → Nat → Bytes
  zlib : Bytes → Int → Bytes

/-- A table of token buckets: the tokens of a key and when they were counted. -/
abbrev Buckets := Dict Str (Float × Float)

/-- The state around a request: how often the runtime has been called; the user that
`req.user` names; the tables of the rate limiters, by instance and by file; and the state of the
application. -/
structure World (α : Type) where
  calls : Nat
  user : Option Str
  buckets : Nat → Buckets
  rateLimits : Str → Buckets
  app : α

/-- The exceptions that application code raises; the built-in ones are those of the code here. -/
def Exc.ofApplication : Exc → Bool
  | builtin _ => false
  | _ => true

/-- A function that the application supplies. -/
structure Hook (α ι β : Type) where
  run : ι → Act (World α) β
  raises : ∀ i w e w', run i w = (.error e, w') → e.ofApplication = true

/-- Read a clock or draw a token. -/
def sample (read : Nat → β) : Act (World α) β := fun w =>
  (.ok (read w.calls), { w with calls := w.calls + 1 })

structure CORSMiddleware where
  allowOrigins : List Str
  allowMethods : Str
  allowHeaders : Str
  allowCredentials : Bool
  maxAge : Str

namespace CORSMiddleware

variable (m : CORSMiddleware)

/-- `CORSMiddleware._origin` -/
def origin (req : Request) : Str :=
  let origin := req.header "origin".toList
  if ['*'] ∈ m.allowOrigins then if m.allowCredentials = false then ['*'] else origin
  else if origin ∈ m.allowOrigins then origin
  else []

/-- The assignments to `resp.headers`. -/
def allow (origin : Str) (headers : Headers) : Headers :=
  let headers := headers.update
    [("Access-Control-Allow-Origin".toList, origin), ("Vary".toList, "Origin".toList),
      ("Access-Control-Allow-Methods".toList, m.allowMethods),
      ("Access-Control-Allow-Headers".toList, m.allowHeaders),
      ("Access-Control-Max-Age".toList, m.maxAge)]
  if m.allowCredentials then headers.set "Access-Control-Allow-Credentials".toList "true".toList
  else headers

/-- The part of `CORSMiddleware.__call__` after `call_next`. -/
def finish (req : Request) (resp : Val (World α)) : Act (World α) (Val (World α)) := do
  if m.origin req ≠ [] then
    let resp ← resp.response
    return .result (resp.withHeaders (m.allow (m.origin req)))
  else return resp

/-- `CORSMiddleware.__call__` -/
def call (req : Request) (callNext : Endpoint (World α)) : Act (World α) (Val (World α)) := do
  if req.method = "OPTIONS".toList then
    m.finish req (.result (.response { body := [], status := 204 }))
  else
    let resp ← callNext req
    m.finish req resp

end CORSMiddleware

structure CSRFMiddleware where
  cookieName : Str
  headerName : Str

namespace CSRFMiddleware

variable (m : CSRFMiddleware)

/-- `CSRFMiddleware.SAFE` -/
def safe : List Str := ["GET".toList, "HEAD".toList, "OPTIONS".toList, "TRACE".toList]

/-- `secrets.compare_digest`, which compares ASCII text only. -/
def compareDigest (a b : Str) : Except Exc Bool :=
  if (a ++ b).all (fun c => decide (c.toNat < 128)) = true then .ok (decide (a = b))
  else .error (.builtin .typeError)

/-- The check that an unsafe method has to pass. -/
def check (req : Request) : Except Exc Unit :=
  if req.method ∈ safe then .ok ()
  else
    let cookie := (req.cookies.get? m.cookieName).getD []
    let header := req.header m.headerName
    if cookie = [] ∨ header = [] then .error (.httpError 403 "CSRF validation failed")
    else
      match compareDigest cookie header with
      | .error e => .error e
      | .ok false => .error (.httpError 403 "CSRF validation failed")
      | .ok true => .ok ()

/-- The part of `CSRFMiddleware.__call__` after `call_next`. -/
def finish (runtime : Runtime) (req : Request) (resp : Val (World α)) :
    Act (World α) (Val (World α)) := do
  if req.cookies.contains m.cookieName = false then
    let token ← sample runtime.tokenUrlsafe
    let resp ← resp.response
    return .result (resp.withHeaders fun headers => headers.setDefault "Set-Cookie".toList
      (m.cookieName ++ '=' :: token ++ "; Path=/; SameSite=Lax; HttpOnly".toList))
  else return resp

/-- `CSRFMiddleware.__call__` -/
def call (runtime : Runtime) (req : Request) (callNext : Endpoint (World α)) :
    Act (World α) (Val (World α)) := do
  match m.check req with
  | .error e => throw e
  | .ok _ =>
    let resp ← callNext req
    m.finish runtime req resp

end CSRFMiddleware

/-- `CompressionMiddleware`, and its subclass `GZipMiddleware` -/
structure CompressionMiddleware where
  minSize : Nat
  compresslevel : Int

namespace CompressionMiddleware

variable (m : CompressionMiddleware)

/-- `COMPRESSIBLE_PREFIXES` -/
def compressiblePrefixes : List Str :=
  ["text/".toList, "application/json".toList, "application/javascript".toList,
    "application/xml".toList, "image/svg+xml".toList]

/-- The tests that a response passes before it is compressed. -/
def compressible (resp : Response) : Bool :=
  !(decide ((resp.headers.get? "Content-Encoding".toList).getD [] ≠ []) ||
    decide (resp.body.length < m.minSize)) &&
  compressiblePrefixes.any fun pre => startsWith pre (lower resp.contentType)

/-- The assignments after a body has been compressed. -/
def encoded (resp : Response) (coding : Str) (body : Bytes) : Response :=
  { resp with
    body := body
    headers := resp.headers.update
      [("Content-Encoding".toList, coding), ("Vary".toList, "Accept-Encoding".toList),
        ("Content-Length".toList, decimal body.length)] }

/-- The part of `CompressionMiddleware.__call__` after `call_next`. -/
def finish (runtime : Runtime) (req : Request) (value : Val (World α)) :
    Act (World α) (Val (World α)) := do
  match ← value.response with
  | .stream _ => return value
  | .response resp =>
    let accept := lower (req.header "accept-encoding".toList)
    if m.compressible resp = false then return value
    else if contains "gzip".toList accept = true then
      let body ← sample (runtime.gzip resp.body m.compresslevel)
      return .result (.response (encoded resp "gzip".toList body))
    else if contains "deflate".toList accept = true then
      let body := runtime.zlib resp.body m.compresslevel
      return .result (.response (encoded resp "deflate".toList body))
    else return value

/-- `CompressionMiddleware.__call__` -/
def call (runtime : Runtime) (req : Request) (callNext : Endpoint (World α)) :
    Act (World α) (Val (World α)) := do
  let resp ← callNext req
  m.finish runtime req resp

/-- The part of `GZipMiddleware.__call__` after `call_next`. -/
def finishGZip (runtime : Runtime) (req : Request) (value : Val (World α)) :
    Act (World α) (Val (World α)) := do
  match ← value.response with
  | .stream _ => return value
  | .response resp =>
    if m.compressible resp = false then return value
    else if contains "gzip".toList (lower (req.header "accept-encoding".toList)) = false then
      return value
    else
      let body ← sample (runtime.gzip resp.body m.compresslevel)
      return .result (.response (encoded resp "gzip".toList body))

/-- `GZipMiddleware.__call__` -/
def callGZip (runtime : Runtime) (req : Request) (callNext : Endpoint (World α)) :
    Act (World α) (Val (World α)) := do
  let resp ← callNext req
  m.finishGZip runtime req resp

end CompressionMiddleware

/-- Where the buckets of a limiter are kept: in the instance, or in a file. -/
inductive Storage where
  | memory (instance_ : Nat)
  | sqlite (dbPath : Str)

/-- The constructor refuses numbers that are not positive. -/
structure TokenBucketLimiter (α : Type) where
  requests : Nat
  window : Nat
  storage : Storage
  keyFunc : Option (Hook α Request Str)
  requests_pos : 0 < requests
  window_pos : 0 < window

namespace TokenBucketLimiter

variable (m : TokenBucketLimiter α)

def capacity : Float := Float.ofNat m.requests

def refillRate : Float := Float.ofNat m.requests / Float.ofNat m.window

/-- `TokenBucketLimiter.default_key` -/
def defaultKey (req : Request) : Act (World α) Str := fun w =>
  match w.user with
  | some sub => (.ok ("user:".toList ++ sub), w)
  | none => (.ok ("ip:".toList ++ req.remoteAddr), w)

def key (req : Request) : Act (World α) Str :=
  match m.keyFunc with
  | some hook => hook.run req
  | none => defaultKey req

/-- The arithmetic that `_consume_memory` and `_consume_sqlite` share: whether a request is allowed,
the tokens left, and the seconds until the next one. -/
def consumeFrom (entry : Option (Float × Float)) (now : Float) : Bool × Float × Float :=
  let (tokens, updated) := entry.getD (m.capacity, now)
  let refilled := tokens + (now - updated) * m.refillRate
  let tokens := if refilled < m.capacity then refilled else m.capacity
  if 1.0 ≤ tokens then (true, tokens - 1.0, 0.0)
  else (false, tokens, (1.0 - tokens) / m.refillRate)

/-- `TokenBucketLimiter._consume_memory` -/
def consumeMemory (id : Nat) (key : Str) (now : Float) : Act (World α) (Bool × Float × Float) :=
  fun w =>
    let table := w.buckets id
    let consumed := m.consumeFrom (table.get? key) now
    (.ok consumed, { w with
      buckets := Function.update w.buckets id (table.set key (consumed.2.1, now)) })

/-- `TokenBucketLimiter._consume_sqlite`, which also deletes the rows of idle keys. -/
def consumeSqlite (dbPath key : Str) (now : Float) : Act (World α) (Bool × Float × Float) :=
  fun w =>
  let table := w.rateLimits dbPath
  let consumed := m.consumeFrom (table.get? key) now
  let limit := now - Float.ofNat (max (m.window * 4) 3600)
  let table := (table.set key (consumed.2.1, now)).filter fun row => !decide (row.2 < limit)
  (.ok consumed, { w with rateLimits := Function.update w.rateLimits dbPath table })

/-- `TokenBucketLimiter.consume` -/
def consume (runtime : Runtime) (key : Str) : Act (World α) (Bool × Float × Float) := do
  match m.storage with
  | .sqlite dbPath =>
    let now ← sample runtime.time
    m.consumeSqlite dbPath key now
  | .memory id =>
    let now ← sample runtime.monotonic
    m.consumeMemory id key now

/-- `int(x)`, for the seconds and tokens here, which fit 64 bits. -/
def truncate (x : Float) : Int := x.toInt64.toInt

/-- The part of `TokenBucketLimiter.__call__` before `call_next`: the tokens left. -/
def admission (runtime : Runtime) (req : Request) : Act (World α) Float := do
  let key ← m.key req
  let (allowed, tokens, retry) ← m.consume runtime key
  if allowed = false then
    throw (.http (.make 429 "Too Many Requests".toList ((∅ : Headers).set "Retry-After".toList
      (decimal (max 1 (truncate (retry + 0.999)))))))
  return tokens

/-- The part of `TokenBucketLimiter.__call__` after `call_next`. -/
def finish (tokens : Float) (value : Val (World α)) : Act (World α) (Val (World α)) := do
  let resp ← value.response
  return .result (resp.withHeaders fun headers => headers.update
    [("X-RateLimit-Limit".toList, decimal (truncate m.capacity)),
      ("X-RateLimit-Remaining".toList, decimal (max 0 (truncate tokens)))])

/-- `TokenBucketLimiter.__call__` -/
def call (runtime : Runtime) (req : Request) (callNext : Endpoint (World α)) :
    Act (World α) (Val (World α)) := do
  let tokens ← m.admission runtime req
  let resp ← callNext req
  m.finish tokens resp

end TokenBucketLimiter

structure HTML5SecurityHeadersMiddleware where
  csp : Str
  hsts : Bool
  crossOriginIsolation : Bool
  permissionsPolicy : Str

namespace HTML5SecurityHeadersMiddleware

variable (m : HTML5SecurityHeadersMiddleware)

/-- `HTML5SecurityHeadersMiddleware._apply`; an awaitable has no `headers`. -/
def apply : Val (World α) → Val (World α)
  | .awaitable run => .awaitable run
  | .result resp => .result <| resp.withHeaders fun headers =>
    let headers := headers.setDefault "X-Content-Type-Options".toList "nosniff".toList
    let headers := headers.setDefault "Referrer-Policy".toList
      "strict-origin-when-cross-origin".toList
    let headers := headers.setDefault "Permissions-Policy".toList m.permissionsPolicy
    let headers := headers.setDefault "Content-Security-Policy".toList m.csp
    let headers := if m.hsts then headers.setDefault "Strict-Transport-Security".toList
      "max-age=31536000; includeSubDomains".toList else headers
    if m.crossOriginIsolation then
      let headers := headers.setDefault "Cross-Origin-Opener-Policy".toList "same-origin".toList
      let headers := headers.setDefault "Cross-Origin-Embedder-Policy".toList
        "require-corp".toList
      headers.setDefault "Cross-Origin-Resource-Policy".toList "same-origin".toList
    else headers

/-- The part of `HTML5SecurityHeadersMiddleware.__call__` after `call_next`: an awaitable is
awaited in a coroutine of its own, `finalize`. -/
def finish : Val (World α) → Act (World α) (Val (World α))
  | .awaitable run =>
    let finalize : Act (World α) (Val (World α)) := do
      let resp ← (Val.awaitable run).await
      return m.apply resp
    pure (.awaitable finalize)
  | .result resp => pure (m.apply (.result resp))

/-- `HTML5SecurityHeadersMiddleware.__call__` -/
def call (req : Request) (callNext : Endpoint (World α)) : Act (World α) (Val (World α)) := do
  let resp ← callNext req
  m.finish resp

end HTML5SecurityHeadersMiddleware

/-- The part of the middleware of `require_auth` before `call_next`; `verifyToken` gives the user
that a token names. -/
def authenticate (verifyToken : Hook α Str (Option Str)) (req : Request) : Act (World α) Unit := do
  let auth := req.header "authorization".toList
  if startsWith "Bearer ".toList auth = false then
    throw (.httpError 401 "Missing bearer token")
  let user ← verifyToken.run (strStrip (auth.drop 7))
  fun w => (.ok (), { w with user := user })

/-- The middleware that `require_auth` makes. -/
def requireAuth (verifyToken : Hook α Str (Option Str)) (req : Request)
    (callNext : Endpoint (World α)) : Act (World α) (Val (World α)) := do
  authenticate verifyToken req
  callNext req

/-- A middleware of the repository. -/
inductive Shipped (α : Type) where
  | cors (m : CORSMiddleware)
  | csrf (m : CSRFMiddleware)
  | compression (m : CompressionMiddleware)
  | gzip (m : CompressionMiddleware)
  | tokenBucket (m : TokenBucketLimiter α)
  | html5 (m : HTML5SecurityHeadersMiddleware)
  | requireAuth (verifyToken : Hook α Str (Option Str))

/-- What is called on a request. -/
def Shipped.call (runtime : Runtime) :
    Shipped α → Request → Endpoint (World α) → Act (World α) (Val (World α))
  | cors m => m.call
  | csrf m => m.call runtime
  | compression m => m.call runtime
  | gzip m => m.callGZip runtime
  | tokenBucket m => m.call runtime
  | html5 m => m.call
  | requireAuth verifyToken => Sovereign.requireAuth verifyToken

/-- None of them is a coroutine function. -/
def Shipped.middleware (runtime : Runtime) (m : Shipped α) : Middleware (World α) :=
  { isCoroutineFunction := false, body := m.call runtime }

end Sovereign
