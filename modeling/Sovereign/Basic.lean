import Sovereign.Python

namespace Sovereign
set_option autoImplicit true

abbrev Headers := Dict Str Str

/-- `STATUS_REASONS` -/
def statusReasons : Int → Option String
  | 101 => "Switching Protocols" | 200 => "OK" | 201 => "Created" | 204 => "No Content"
  | 304 => "Not Modified" | 400 => "Bad Request" | 401 => "Unauthorized" | 403 => "Forbidden"
  | 404 => "Not Found" | 405 => "Method Not Allowed" | 408 => "Request Timeout"
  | 411 => "Length Required" | 413 => "Payload Too Large" | 414 => "URI Too Long"
  | 415 => "Unsupported Media Type" | 417 => "Expectation Failed" | 429 => "Too Many Requests"
  | 431 => "Request Header Fields Too Large" | 500 => "Internal Server Error"
  | 501 => "Not Implemented" | 503 => "Service Unavailable"
  | 505 => "HTTP Version Not Supported"
  | _ => none

structure HTTPError where
  status : Int
  message : Str
  headers : Headers := ∅
deriving DecidableEq

/-- The constructor of `HTTPError`: an empty message is replaced by the status reason. -/
def HTTPError.make (status : Int) (message : Str := []) (headers : Headers := ∅) : HTTPError :=
  { status, headers,
    message := if message = [] then ((statusReasons status).getD "HTTP Error").toList else message }

/-- The exceptions of Python and of its library that escape from the modelled code. -/
inductive PyError where
  | valueError
  | typeError
  | attributeError
  | keyError
  | timeoutError
  | osError
  | unicodeEncodeError
  | runtimeError
  | overflowError
  | integrityError
  | operationalError
  | programmingError
  | stopIteration
deriving DecidableEq

/-- An exception in flight. `app` is one that application code raised, other than an `HTTPError`. -/
inductive Exc where
  | http (err : HTTPError)
  | clientClosed
  | builtin (err : PyError)
  | app (tag : Nat)
deriving DecidableEq

/-- `raise HTTPError(status, message)` -/
def Exc.httpError (status : Int) (message : String) : Exc := .http (.make status message.toList)

theorem ok_bind (a : α) (f : α → Except Exc β) : (Except.ok a >>= f) = f a := rfl

/-- The result of reading from a connection. -/
abbrev Read (ρ : Type) := Except Exc ρ

/-- The fields of `ServerConfig` that the modelled code reads; limits count bytes or items. -/
structure ServerConfig where
  serverName : Str := "Sovereign/7.0".toList
  maxRequestLine : Nat := 4096
  maxHeaderBytes : Nat := 16 * 1024
  maxHeaders : Nat := 96
  maxHeaderName : Nat := 96
  maxHeaderValue : Nat := 8192
  maxBodyBytes : Nat := 50 * 1024 * 1024
  maxMemoryBody : Nat := 512 * 1024
  maxKeepaliveRequests : Nat := 50
deriving DecidableEq

end Sovereign
