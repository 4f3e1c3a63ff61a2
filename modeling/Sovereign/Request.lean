import Sovereign.Basic

namespace Sovereign
set_option autoImplicit true

/-- The part of `urllib.parse` that decides whether a bracketed host in a network location is an
IPv6 address or an IPvFuture literal. -/
class Urllib where
  checkBracketedNetloc : Str → Bool

/-- `urllib.parse.urlsplit` on a target that starts with a slash, so that no scheme is looked for:
the path and the query, or `none` for a `ValueError`. -/
def urlsplit [Urllib] (target : Str) : Option (Str × Str) :=
  let url := target.filter fun c => !(c ∈ ['\t', '\r', '\n'])
  let isHost := fun c : Char => !(c ∈ ['/', '?', '#'])
  let (netloc, url) :=
    if startsWith "//".toList url then
    ((url.drop 2).takeWhile isHost, (url.drop 2).dropWhile isHost)
    else ([], url)
  if decide ('[' ∈ netloc) != decide (']' ∈ netloc) then none
  else if '[' ∈ netloc ∧ Urllib.checkBracketedNetloc netloc = false then none
  else
    let url := ((splitFirst '#' url).map Prod.fst).getD url
    some ((splitFirst '?' url).getD (url, []))

/-- A request body is kept in memory or, when it is large, in a spooled temporary file. -/
inductive Body where
  | bytes (content : Bytes)
  | spool (content : Bytes)
deriving DecidableEq

/-- `Request.body_bytes` -/
def Body.toBytes : Body → Bytes
  | .bytes content | .spool content => content

structure Request where
  method : Str
  target : Str
  version : Str
  headers : Headers
  rawHeaders : List (Str × Str)
  body : Body
  bodySize : Int
  path : Str
  queryString : Str
  remoteAddr : Str
  cookies : Dict Str Str
  requestId : Str := ['-']
deriving DecidableEq

/-- Lookup in the header mapping by a name of any letter case. -/
def headerOf (headers : Headers) (name : Str) (default : Str := []) : Str :=
  (headers.get? (lower name)).getD default

def Request.header (req : Request) (name : Str) (default : Str := []) : Str :=
  headerOf req.headers name default

/-- `Request._parse_cookies` -/
def parseCookies (headers : Headers) : Dict Str Str :=
  ((headerOf headers "cookie".toList).splitOn ';').foldl (fun out part =>
    match splitFirst '=' part with
    | some (k, v) => out.set (strStrip k) (strStrip v)
    | none => out) ∅

/-- The constructor of `Request` with its `__post_init__`. -/
def Request.make [Urllib] (method target version : Str) (headers : Headers)
    (rawHeaders : List (Str × Str)) (body : Body) (bodySize : Int) (remoteAddr : Str) :
    Except Exc Request :=
  match urlsplit target with
  | none => .error (.builtin .valueError)
  | some (path, queryString) =>
    .ok { method, target, version, headers, rawHeaders, body, bodySize, queryString, remoteAddr,
          path := if path = [] then ['/'] else path
          cookies := parseCookies headers }

/-- A request as the parser returns it, apart from its method. -/
def plainRequest (method : Str) : Request where
  method := method
  target := "/".toList
  version := "HTTP/1.1".toList
  headers := (∅ : Headers).set "host".toList "h".toList
  rawHeaders := [("host".toList, "h".toList)]
  body := .bytes []
  bodySize := 0
  path := "/".toList
  queryString := []
  remoteAddr := []
  cookies := ∅

end Sovereign
