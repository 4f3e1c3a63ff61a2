import Sovereign.Middleware
import Sovereign.Lib.Base64
import Mathlib.Data.Rat.Floor

namespace Sovereign
set_option autoImplicit true

/-- A JSON value, as `==` compares values: the entries of an object are in the order of its keys. -/
inductive Json where
  | null
  | bool (b : Bool)
  | int (n : Int)
  /-- NaN and the infinities are `none` -/
  | float (x : Option ℚ)
  | str (s : Str)
  | array (l : List Json)
  | object (entries : List (Str × Json))

/-- What `json.loads` returns. -/
inductive Document where
  | object (o : Dict Str Json)
  | value (v : Json)

namespace Json

/-- The blanks that `int` passes over. Other than `str.strip`, it stops at the separators of ASCII. -/
def isIntSpace (c : Char) : Bool :=
  decide (9 ≤ c.toNat ∧ c.toNat ≤ 13 ∨ c.toNat = 32 ∨ 127 ≤ c.toNat ∧ isSpace c = true)

/-- `int(s)` for a string of Latin-1 characters -/
def intOfStr (s : Str) : Option Int :=
  let unsigned (s : Str) : Option Nat :=
    let groups := s.splitOn '_'
    if groups.all fun g => !g.isEmpty then parseInt groups.flatten else none
  match strip isIntSpace s with
  | '+' :: rest => (unsigned rest).map Int.ofNat
  | '-' :: rest => (unsigned rest).map fun n => -Int.ofNat n
  | rest => (unsigned rest).map Int.ofNat

/-- `int(value)`. The `OverflowError` for an infinity is not told from a `ValueError`. -/
def toInt : Json → Except Exc Int
  | bool b => .ok (if b then 1 else 0)
  | int n => .ok n
  | float (some x) => .ok (x.num.tdiv x.den)
  | float none => .error (.builtin .valueError)
  | str s =>
    match intOfStr s with
    | some n => .ok n
    | none => .error (.builtin .valueError)
  | null | array _ | object _ => .error (.builtin .typeError)

/-- `bool(value)` -/
def truthy : Json → Bool
  | null => false
  | bool b => b
  | int n => n ≠ 0
  | float x => x ≠ some 0
  | str s => s ≠ []
  | array l => !l.isEmpty
  | object entries => !entries.isEmpty

/-- `str(value)`, with the `repr` of floats, lists and dicts given. -/
def toStr (repr : Json → Str) : Json → Str
  | null => "None".toList
  | bool b => if b then "True".toList else "False".toList
  | int n => decimal n
  | str s => s
  | value => repr value

/-- `value == s` for a string -/
def isStr (s : Str) : Option Json → Bool
  | some (str s') => s' = s
  | _ => false

end Json

/-- What the tokens are made with, of the standard library and the operating system. -/
structure JwtRuntime (σ : Type) where
  /-- `time.time()`, in seconds since 1970 -/
  time : σ → ℚ × σ
  /-- `secrets.token_urlsafe(18)` -/
  tokenUrlsafe : σ → Str × σ
  /-- `hmac.new(key, message, hashlib.sha256).digest()` -/
  hmac : Bytes → Bytes → Bytes
  /-- `json.dumps(obj, separators=(",", ":"), sort_keys=True).encode()` -/
  dumps : Dict Str Json → Bytes
  /-- `json.loads(data.decode("utf-8"))`, where `none` is an exception -/
  loads : Bytes → Option Document
  repr : Json → Str

/-- The two methods of a blocklist that the tokens need. -/
structure JwtBlocklist (σ : Type) where
  revoke : Str → Int → Str → Act σ Unit
  isRevoked : Str → Act σ Bool

structure JWTAuth (σ : Type) where
  secrets : Dict Str Str
  currentKid : Str
  issuer : Option Str
  audience : Option Str
  expectedAlg : Str := "HS256".toList
  maxTokenLen : Int := 8192
  blocklist : Option (JwtBlocklist σ)

/-- `str.encode("ascii")` -/
def encodeAscii (s : Str) : Option Bytes :=
  if s.all fun c => c.toNat < 128 then some (s.map fun c => UInt8.ofNat c.toNat) else none

/-- `_b64e` -/
def b64e (data : Bytes) : Str := (Base64.encode data).rdropWhile fun c => decide (c = '=')

/-- `_b64d` -/
def b64d (data : Str) : Option Bytes := do
  let _ ← encodeAscii (Base64.padded data)
  Base64.decode (Base64.padded data)

/-- An optional string that is neither absent nor empty. -/
def configured (s : Option Str) : Option Str := s.filter fun s => decide (s ≠ [])

/-- A computation that does not look at the state. -/
def Act.lift (x : Except Exc α) : Act σ α := fun s => (x, s)

@[simp] theorem Act.lift_ok (a : α) : (Act.lift (.ok a) : Act σ α) = pure a := rfl

namespace JWTAuth

variable (runtime : JwtRuntime σ) (auth : JWTAuth σ)

/-- `int(time.time())` -/
def seconds : Act σ Int := fun w => (.ok ⌊(runtime.time w).1⌋, (runtime.time w).2)

def drawJti : Act σ Str := fun w => (.ok (runtime.tokenUrlsafe w).1, (runtime.tokenUrlsafe w).2)

/-- The signature of `f"{h}.{b}"`, as it is written in a token. -/
def signature (secret h b : Str) : Except Exc Str :=
  match encodeAscii (h ++ '.' :: b) with
  | none => .error (.builtin .unicodeEncodeError)
  | some message => .ok (b64e (runtime.hmac (utf8 secret) message))

/-- `if s: body.setdefault(key, s)` -/
def setConfigured (body : Dict Str Json) (key : Str) (s : Option Str) : Dict Str Json :=
  match configured s with
  | some s => body.setDefault key (.str s)
  | none => body

/-- The body that `create_token` signs. -/
def body (payload : Dict Str Json) (now expSeconds : Int) (jti : Str) : Dict Str Json :=
  let body := payload.setDefault "iat".toList (.int now)
  let body := body.setDefault "jti".toList (.str jti)
  let body := body.set "exp".toList (.int (now + expSeconds))
  let body := setConfigured body "iss".toList auth.issuer
  setConfigured body "aud".toList auth.audience

def header (kid : Str) : Dict Str Json :=
  (((∅ : Dict Str Json).set "alg".toList (.str auth.expectedAlg)).set "typ".toList
    (.str "JWT".toList)).set "kid".toList (.str kid)

/-- `JWTAuth.create_token` -/
def createToken (payload : Dict Str Json) (expSeconds : Int) (kid : Option Str) : Act σ Str := do
  let kid := (configured kid).getD auth.currentKid
  match auth.secrets.get? kid with
  | none => throw (.builtin .valueError)
  | some secret =>
    let now ← seconds runtime
    let jti ← drawJti runtime
    let h := b64e (runtime.dumps (auth.header kid))
    let b := b64e (runtime.dumps (auth.body payload now expSeconds jti))
    let sig ← Act.lift (signature runtime secret h b)
    return h ++ '.' :: b ++ '.' :: sig

/-- The checks of the number of parts. -/
def split (token : Str) : Except Exc (Str × Str × Str) :=
  if auth.maxTokenLen < token.length ∨ token.count '.' ≠ 2 then
    .error (.httpError 401 "Invalid token structure")
  else
    match token.splitOn '.' with
    | [h, b, s] => .ok (h, b, s)
    | _ => .error (.builtin .valueError)

/-- `json.loads(_b64d(part).decode("utf-8"))` -/
def readDocument (message : String) (part : Str) : Except Exc Document :=
  match (b64d part).bind runtime.loads with
  | none => .error (.httpError 401 message)
  | some doc => .ok doc

/-- What has the attribute `get`. -/
def asObject : Document → Except Exc (Dict Str Json)
  | .object o => .ok o
  | .value _ => .error (.builtin .attributeError)

/-- `self.secrets.get(kid)`, if it is not empty. -/
def lookup (kid : Str) : Except Exc Str :=
  match configured (auth.secrets.get? kid) with
  | some secret => .ok secret
  | none => .error (.httpError 401 "Unknown token key")

/-- The secret for `header.get("kid", self.current_kid)` -/
def secretFor (header : Dict Str Json) : Except Exc Str :=
  match header.get? "kid".toList with
  | none => auth.lookup auth.currentKid
  | some (.str kid) => auth.lookup kid
  | some (.array _) | some (.object _) => .error (.builtin .typeError)
  | some _ => .error (.httpError 401 "Unknown token key")

def checkAlgorithm (header : Dict Str Json) : Except Exc Unit :=
  if Json.isStr auth.expectedAlg (header.get? "alg".toList) ∧
      Json.isStr "JWT".toList (header.get? "typ".toList) then .ok ()
  else .error (.httpError 401 "Invalid token algorithm")

def checkSignature (s expected : Str) : Except Exc Unit :=
  match CSRFMiddleware.compareDigest s expected with
  | .ok true => .ok ()
  | .ok false => .error (.httpError 401 "Invalid token signature")
  | .error e => .error e

/-- The part of `verify_token` before it reads the clock: the payload of a token that has been
signed. -/
def authentic (token : Str) : Except Exc Document := do
  let (h, b, s) ← auth.split token
  let header ← readDocument runtime "Invalid token header" h
  let header ← asObject header
  auth.checkAlgorithm header
  let secret ← auth.secretFor header
  let expected ← signature runtime secret h b
  checkSignature s expected
  readDocument runtime "Invalid token payload" b

/-- `int(payload.get("exp", 0))` -/
def expOf (payload : Dict Str Json) : Except Exc Int :=
  ((payload.get? "exp".toList).getD (.int 0)).toInt

def checkClaim (message : String) (expected : Option Str) (claim : Option Json) :
    Except Exc Unit :=
  match configured expected with
  | none => .ok ()
  | some expected =>
    if Json.isStr expected claim then .ok () else .error (.httpError 401 message)

/-- The checks of `exp`, `iss` and `aud`. -/
def checkClaims (payload : Dict Str Json) (now : Int) : Except Exc Unit := do
  if (← expOf payload) < now then .error (.httpError 401 "Token expired")
  checkClaim "Invalid issuer" auth.issuer (payload.get? "iss".toList)
  checkClaim "Invalid audience" auth.audience (payload.get? "aud".toList)

/-- The identifier of a token, if it has one that is not false. -/
def jtiOf (payload : Dict Str Json) : Option Str :=
  ((payload.get? "jti".toList).filter Json.truthy).map (Json.toStr runtime.repr)

def checkRevoked (payload : Dict Str Json) : Act σ Unit :=
  match auth.blocklist, jtiOf runtime payload with
  | some blocklist, some jti => do
    if ← blocklist.isRevoked jti then throw (.httpError 401 "Token revoked")
  | _, _ => pure ()

/-- `JWTAuth.verify_token` -/
def verifyToken (token : Str) : Act σ (Dict Str Json) := do
  let payload ← Act.lift (auth.authentic runtime token)
  let now ← seconds runtime
  let payload ← Act.lift (asObject payload)
  Act.lift (auth.checkClaims payload now)
  auth.checkRevoked runtime payload
  return payload

/-- `JWTAuth.revoke_token` -/
def revokeToken (token reason : Str) : Act σ Unit :=
  match auth.blocklist with
  | none => throw (.builtin .runtimeError)
  | some blocklist => do
    let payload ← auth.verifyToken runtime token
    match jtiOf runtime payload with
    | none => throw (.httpError 400 "Token has no jti")
    | some jti =>
      let exp ← Act.lift (expOf payload)
      blocklist.revoke jti exp reason

end JWTAuth

end Sovereign
