import Mathlib.Algebra.Order.Ring.Rat
import Sovereign.Lib.Run
import Sovereign.Parser
import Sovereign.StreamReader

namespace Sovereign
open Buffered
set_option autoImplicit true

/-- The timeouts of a `ServerConfig`, in seconds. -/
structure TimedConfig extends ServerConfig where
  headerIdleTimeout : ℚ := 3
  bodyIdleTimeout : ℚ := 10
  absoluteRequestTimeout : ℚ := 30

/-- The read that a parser makes next. -/
inductive ParsePc where
  | headers
  | body (head : Head) (length remaining : Nat) (content : Bytes)
  | sizeLine (head : Head) (content : Bytes) (total : Int)
  | chunk (head : Head) (content : Bytes) (total size : Int)
  | terminator (head : Head) (content : Bytes) (total : Int)
  | trailer (head : Head) (content : Bytes) (total : Int)
deriving DecidableEq

def ParsePc.idleTimeout (cfg : TimedConfig) : ParsePc → ℚ
  | headers => cfg.headerIdleTimeout
  | body .. | sizeLine .. | chunk .. | terminator .. | trailer .. => cfg.bodyIdleTimeout

/-- What a server reads requests with, and how long it waits. -/
structure TimedFront (cap : Nat) (ω : Type) where
  readHeaders : ServerConfig → Source UInt8 cap ω → Read (Bytes × Source UInt8 cap ω)
  chunks : ChunkSource (Source UInt8 cap ω)
  /-- how many of the remaining bytes of a body are read at once -/
  part : ServerConfig → (length remaining : Nat) → Nat
  stored : ServerConfig → (size : Int) → Bytes → Body
  idle : ω
  reset : ω
  /-- what is raised where a read would have to wait -/
  overdue : TimedConfig → (began now : ℚ) → Option Exc
  /-- when a wait is over in which nothing comes, where the read began at `since` -/
  waitEnd : TimedConfig → ParsePc → (began since now : ℚ) → ℚ

/-- `SocketReader`: its deadline is looked at before each `recv`, and limits the timeout of it. -/
def SocketReader.timed : TimedFront 4096 Outage where
  readHeaders := readHeaders
  chunks := chunkSource
  part cfg length remaining := if length ≤ cfg.maxMemoryBody then remaining else min 65536 remaining
  stored cfg size content := if size ≤ cfg.maxMemoryBody then .bytes content else .spool content
  idle := .idle
  reset := .reset
  overdue cfg began now :=
    let remainingAbsolute := began + cfg.absoluteRequestTimeout - now
    if remainingAbsolute ≤ 0 then some (.httpError 408 "Absolute request timeout exceeded")
      else none
  waitEnd cfg pc began _ now :=
    let remainingAbsolute := began + cfg.absoluteRequestTimeout - now
    now + max (1 / 1000) (min (pc.idleTimeout cfg) remainingAbsolute)

/-- `AsyncBodyReader`: each read is in a `wait_for`. -/
def StreamReader.timed (cap : Nat) : TimedFront cap StreamOutage where
  readHeaders := readHeaders
  chunks := chunkSource cap
  part _ _ remaining := remaining
  stored _ _ content := .bytes content
  idle := .timeout
  reset := .reset
  overdue _ _ _ := none
  waitEnd cfg pc _ since now := max now (since + pc.idleTimeout cfg)

/-- The peer sends on, has closed the connection, or has broken it. -/
inductive Peer where
  | sending
  | closed
  | broken
deriving DecidableEq

namespace ParsePc

variable (front : TimedFront cap ω) (cfg : ServerConfig)

def read : ParsePc → Source UInt8 cap ω → Read (Bytes × Source UInt8 cap ω)
  | headers => front.readHeaders cfg
  | body _ length remaining _ => front.chunks.readExact (front.part cfg length remaining)
  | sizeLine .. => front.chunks.readSizeLine
  | chunk _ _ _ size => front.chunks.readExact size
  | terminator .. => front.chunks.readExact 2
  | trailer .. => front.chunks.readTrailer

variable [Urllib] (remoteAddr : Str)

def made (head : Head) (body : Body) (size : Int) : Except Exc Request :=
  Request.make head.method head.target head.version head.headers head.rawPairs body size remoteAddr

/-- How the body is framed. -/
def framed (head : Head) : Except Exc (ParsePc ⊕ Request) :=
  if lower ((head.headers.get? "transfer-encoding".toList).getD []) = "chunked".toList then
    .ok (.inl (.sizeLine head [] 0))
  else
    let cl := (head.headers.get? "content-length".toList).getD ['0']
    if isDigit cl = false then .error (.httpError 400 "Invalid Content-Length")
    else
      match parseInt cl with
      | none => .error (.builtin .valueError)
      | some 0 => (made remoteAddr head (.bytes []) 0).map .inr
      | some (n + 1) =>
        if cfg.maxBodyBytes < n + 1 then .error (.httpError 413 "Payload Too Large")
        else .ok (.inl (.body head (n + 1) (n + 1) []))

/-- What the parser does with what it has read. -/
def next : ParsePc → Bytes → Except Exc (ParsePc ⊕ Request)
  | headers, raw => do
    let head ← parseHeaderBlock raw cfg
    framed cfg remoteAddr head
  | body head length remaining content, part =>
    let remaining := remaining - part.length
    let content := content ++ part
    if remaining = 0 then (made remoteAddr head (front.stored cfg length content) length).map .inr
    else .ok (.inl (.body head length remaining content))
  | sizeLine head content total, line =>
    match chunkSize line with
    | none => .error (.httpError 400 "Invalid chunk size")
    | some size =>
      if size = 0 then .ok (.inl (.trailer head content total))
      else if (cfg.maxBodyBytes : Int) < total + size then .error
        (.httpError 413 "Payload Too Large")
      else .ok (.inl (.chunk head content (total + size) size))
  | chunk head content total _, part => .ok (.inl (.terminator head (content ++ part) total))
  | terminator head content total, line =>
    if line ≠ crlf then .error (.httpError 400 "Malformed chunk terminator")
    else .ok (.inl (.sizeLine head content total))
  | trailer head content total, _ =>
    (made remoteAddr head (front.stored cfg total content) total).map .inr

end ParsePc

/-- A connection of which a request is read. -/
structure Reading where
  /-- the read that is made, or how the request ends: it is parsed or rejected -/
  phase : ParsePc ⊕ Except Exc Request
  /-- the bytes that have come and are not consumed -/
  buffer : Bytes
  peer : Peer
  /-- when reading of the request began -/
  began : ℚ
  /-- when the read began -/
  since : ℚ
  now : ℚ

/-- The parser computes, which takes no time, or its wait ends: bytes come, the peer closes or aborts
the connection, or the timeout passes. -/
inductive ReadStep (cap : Nat) where
  | compute
  | deliver (time : ℚ) (seg : Segment UInt8 cap)
  | close (time : ℚ)
  | abort (time : ℚ)
  | expire

namespace Reading

variable (front : TimedFront cap ω) (cfg : TimedConfig)

/-- The reading of a request begins with bytes that came before. -/
def start (buffer : Bytes) (now : ℚ) : Reading := ⟨.inl .headers, buffer, .sending, now, now, now⟩

/-- What the reads find behind the bytes that have come. -/
def tail : Peer → List (Arrival UInt8 cap ω)
  | .sending => [.outage front.idle]
  | .closed => []
  | .broken => [.outage front.reset]

def timedOut (e : Exc) : Bool := e = .httpError 408 "Request Timeout" || e = .builtin .timeoutError

/-- The read has to wait, with what it raises when the timeout passes, or it is done. -/
def attempt (s : Reading) (pc : ParsePc) : Exc ⊕ Except Exc (Bytes × Bytes) :=
  match pc.read front cfg.toServerConfig ⟨s.buffer, tail front s.peer⟩ with
  | .ok (data, reader) => .inr (.ok (data, reader.buffer))
  | .error e => if s.peer = .sending ∧ timedOut e = true then .inl e else .inr (.error e)

variable [Urllib] (remoteAddr : Str)

def rejected (s : Reading) (e : Exc) : Reading := { s with phase := .inr (.error e) }

/-- The read is done, and the next one begins. -/
def proceed (s : Reading) (pc : ParsePc) : Except Exc (Bytes × Bytes) → Reading
  | .error e => s.rejected e
  | .ok (data, buffer) =>
    match pc.next front cfg.toServerConfig remoteAddr data with
    | .error e => { s.rejected e with buffer }
    | .ok (.inl pc) => { s with phase := .inl pc, buffer, since := s.now }
    | .ok (.inr req) => { s with phase := .inr (.ok req), buffer }

/-- A wait ends in time. -/
def woken (s : Reading) (pc : ParsePc) (time : ℚ) (t : Reading) : Option Reading :=
  if s.now ≤ time ∧ time ≤ front.waitEnd cfg pc s.began s.since s.now then some
  { t with now := time }
  else none

def step (s : Reading) (a : ReadStep cap) : Option Reading :=
  match s.phase with
  | .inr _ => none
  | .inl pc =>
    match s.attempt front cfg pc with
    | .inr out =>
      match a with
      | .compute => some (s.proceed front cfg remoteAddr pc out)
      | _ => none
    | .inl e =>
      match front.overdue cfg s.began s.now, a with
      | some e', .compute => some (s.rejected e')
      | none, .deliver time seg => s.woken front cfg pc time
          { s with buffer := s.buffer ++ seg.items }
      | none, .close time => s.woken front cfg pc time { s with peer := .closed }
      | none, .abort time => s.woken front cfg pc time { s with peer := .broken }
      | none, .expire =>
        some { s.rejected e with now := front.waitEnd cfg pc s.began s.since s.now }
      | _, _ => none

end Reading

end Sovereign
