import Sovereign.Parser
import Sovereign.Router
import Sovereign.StreamReader
import Sovereign.Writer

namespace Sovereign
open Buffered
set_option autoImplicit true

/-- Text that can stand in a header block. -/
abbrev HeaderText := { s : Str // Clean s }

/-- The state of the program while a request is served, and what has been sent for it. -/
structure Wire (σ : Type) where
  state : σ
  sent : List Sent

/-- The rest of the program on its own state. -/
def onState (x : Act σ α) : Act (Wire σ) α := fun w =>
  ((x w.state).1, { w with state := (x w.state).2 })

/-- What has been written is sent whether or not the writing has failed. -/
def emit (out : List Sent × Except Exc Unit) : Act (Wire σ) Unit := fun w =>
  (out.2, { w with sent := w.sent ++ out.1 })

theorem onState_run (x : Act σ α) (w : Wire σ) :
    onState x w = ((x w.state).1, ⟨(x w.state).2, w.sent⟩) := rfl

theorem emit_run (out : List Sent × Except Exc Unit) (w : Wire σ) :
    emit out w = (out.2, ⟨w.state, w.sent ++ out.1⟩) := rfl

/-- What both servers are made of besides their readers. -/
structure Program (σ : Type) where
  router : Router σ
  config : ServerConfig
  staticResponse : Request → Act σ HandlerResult
  nowHttpDate : σ → HeaderText × σ
  newRequestId : σ → HeaderText × σ

/-- A websocket upgrade: what `handshake` sends or raises, and the session after it, with the data
it sends. -/
structure Upgrade (σ : Type) where
  handshake : Except Exc Bytes
  session : σ → (List Bytes × Except Exc Unit) × σ

/-- A server by what its loop over the requests of a connection is made of. -/
structure Server (σ R : Type) extends Program σ where
  /-- the reader that a pass of the loop begins with -/
  reopen : R → R
  parse : Str → R → Read (Request × R)
  /-- what the reader has received and not handed out -/
  received : R → Bytes
  stopped : σ → Bool
  upgrade : Request → Option (Upgrade σ)
  /-- routing, middlewares and handler -/
  produce : Request → Act σ (Val σ)
  write : Request → ServerConfig → Str → HandlerResult → Bool → List Sent × Except Exc Unit
  background : Request → Act σ Unit

/-- One pass of the loop: what the parser made of the connection, in which state of the program;
whether the connection is to be kept; what was sent; whether the loop goes on, and with which bytes
received but not consumed. -/
structure Exchange (σ : Type) where
  parsed : Except Exc Request
  state : σ
  keepAlive : Bool
  sent : List Sent
  again : Bool
  left : Bytes

namespace Program

variable (program : Program σ)

/-- `req.header("x-request-id") or req.header("traceparent") or new_request_id()` -/
def identify (req : Request) (s : σ) : Request × σ :=
  if req.header "x-request-id".toList ≠ [] then
    ({ req with requestId := req.header "x-request-id".toList }, s)
  else if req.header "traceparent".toList ≠ [] then
    ({ req with requestId := req.header "traceparent".toList }, s)
  else
    let (id, s) := program.newRequestId s
    ({ req with requestId := id }, s)

/-- The request that stands in for one that could not be parsed. -/
def dummyRequest (remoteAddr : Str) (s : σ) : Request × σ :=
  let (id, s) := program.newRequestId s
  ({ method := "GET".toList, target := "/".toList, version := "HTTP/1.1".toList, headers := ∅,
     rawHeaders := [], body := .bytes [], bodySize := 0, path := "/".toList, queryString := [],
     remoteAddr, cookies := ∅, requestId := id }, s)

end Program

/-- The response to an exception; none is sent when the client has closed the connection. -/
def errorResult : Exc → Option HandlerResult
  | .clientClosed => none
  | .http err =>
    let resp := errorResponse err.status err.message
    some (.response { resp with headers := resp.headers.update err.headers.entries })
  | _ => some (.response (errorResponse 500 "Internal Server Error".toList))

/-- `req.header("connection").lower() != "close"`, as long as more requests may follow. -/
def keepsAlive (req : Request) (remaining : Nat) : Bool :=
  decide (lower (req.header "connection".toList) ≠ "close".toList ∧ 0 < remaining)

namespace Server

variable (srv : Server σ R)

def send (req : Request) (result : HandlerResult) (keepAlive : Bool) : Act (Wire σ) Unit := do
  let date ← onState fun s => (.ok (srv.nowHttpDate s).1, (srv.nowHttpDate s).2)
  emit (srv.write req srv.config date.val result keepAlive)

theorem send_run (req : Request) (result : HandlerResult) (keepAlive : Bool) (w : Wire σ) :
    srv.send req result keepAlive w =
      emit (srv.write req srv.config (srv.nowHttpDate w.state).1.val result keepAlive)
        ⟨(srv.nowHttpDate w.state).2, w.sent⟩ :=
  Act.bind_ok _ rfl

/-- The branch of a websocket upgrade. -/
def openSession (upgrade : Upgrade σ) : Act (Wire σ) Bool := do
  match upgrade.handshake with
  | .error e => throw e
  | .ok block => emit ([.head block], .ok ())
  let (frames, ended) ← onState fun s => (.ok (upgrade.session s).1, (upgrade.session s).2)
  emit (frames.map .content, ended)
  return false

/-- Write what the handler has returned; an awaitable has no attributes of a response. -/
def deliver (req : Request) (keepAlive : Bool) : Val σ → Act (Wire σ) Bool
  | .awaitable _ => throw (.builtin .attributeError)
  | .result result => do
    srv.send req result keepAlive
    onState (srv.background req)
    return keepAlive

/-- The part of the loop inside its `try`, after parsing: whether the loop goes on. -/
def respond (req : Request) (keepAlive : Bool) : Act (Wire σ) Bool :=
  match srv.upgrade req with
  | some upgrade => openSession upgrade
  | none => do
    let value ← onState (srv.produce req)
    srv.deliver req keepAlive value

/-- The `except` branches. -/
def recover (req : Request) (e : Exc) : Act (Wire σ) Unit :=
  match errorResult e with
  | none => pure ()
  | some result => srv.send req result false

/-- Serve a parsed request: what is sent, whether the loop goes on, and the state after it. An
exception that a second failure raises ends the connection too. -/
def answer (req : Request) (keepAlive : Bool) (s : σ) : List Sent × Bool × σ :=
  match srv.respond req keepAlive ⟨s, []⟩ with
  | (.ok again, w) => (w.sent, again, w.state)
  | (.error e, w) =>
    let w' := (srv.recover req e w).2
    (w'.sent, false, w'.state)

/-- A pass in which a request has been parsed, with the state after it. -/
def serve (req : Request) (reader : R) (remaining : Nat) (s : σ) : Exchange σ × σ :=
  let identified := srv.identify req s
  let keepAlive := keepsAlive identified.1 remaining
  let answered := srv.answer identified.1 keepAlive identified.2
  ({ parsed := .ok req, state := s, keepAlive, sent := answered.1, again := answered.2.1,
     left := srv.received reader }, answered.2.2)

/-- A pass in which the parser has raised. -/
def refuse (remoteAddr : Str) (e : Exc) (s : σ) : Exchange σ :=
  let (req, s') := srv.dummyRequest remoteAddr s
  { parsed := .error e, state := s, keepAlive := false,
    sent := (srv.recover req e ⟨s', []⟩).2.sent, again := false, left := [] }

/-- The loop over the requests of a connection, of which so many may still come. -/
def connection (remoteAddr : Str) : (remaining : Nat) → R → σ → List (Exchange σ)
  | 0, _, _ => []
  | remaining + 1, reader, s =>
    if srv.stopped s = true then []
    else
      match srv.parse remoteAddr (srv.reopen reader) with
      | .error e => [srv.refuse remoteAddr e s]
      | .ok (req, reader) =>
        let served := srv.serve req reader remaining s
        served.1 ::
          if served.1.again = true then connection remoteAddr remaining reader served.2 else []

theorem connection_stopped (h : srv.stopped s = true) (remoteAddr : Str) (remaining : Nat)
    (reader : R) : srv.connection remoteAddr (remaining + 1) reader s = [] := by
  rw [connection, if_pos h]

theorem connection_refused (h : srv.stopped s = false)
    (hp : srv.parse remoteAddr (srv.reopen reader) = .error e) (remaining : Nat) :
    srv.connection remoteAddr (remaining + 1) reader s = [srv.refuse remoteAddr e s] := by
  rw [connection, if_neg (Bool.not_eq_true _ ▸ h), hp]

theorem connection_parsed (srv : Server σ R) (reader : R) (h : srv.stopped s = false)
    (hp : srv.parse remoteAddr (srv.reopen reader) = .ok (req, reader')) (remaining : Nat) :
    srv.connection remoteAddr (remaining + 1) reader s =
      (srv.serve req reader' remaining s).1 :: if (srv.serve req reader' remaining s).1.again = true
        then srv.connection remoteAddr remaining reader' (srv.serve req reader' remaining s).2
        else [] := by
  rw [connection, if_neg (Bool.not_eq_true _ ▸ h), hp]

end Server

/-- `req.path.startswith("/static/")` for some methods, and routing otherwise. -/
def produceWith (program : Program σ) (staticMethods : List Str)
    (resolve : Str → Str → Act σ (Endpoint σ × List (Middleware σ)))
    (execute : Request → Endpoint σ → List (Middleware σ) → Act σ (Val σ)) (req : Request) :
    Act σ (Val σ) :=
  if startsWith "/static/".toList req.path = true ∧ req.method ∈ staticMethods then
    execute req (fun r => Val.result <$> program.staticResponse r) []
  else do
    let (handler, routeMiddlewares) ← resolve req.method req.path
    execute req handler routeMiddlewares

/-- `is_websocket_upgrade` -/
def isWebsocketUpgrade (req : Request) : Bool :=
  decide (lower (req.header "upgrade".toList) = "websocket".toList) &&
    contains "upgrade".toList (lower (req.header "connection".toList))

/-- `handshake`; `webSocketAccept` decodes the key and computes the value that proves it. -/
def handshake (webSocketAccept : Str → Option Str) (req : Request) : Except Exc Bytes :=
  let key := req.header "sec-websocket-key".toList
  if req.method ≠ "GET".toList ∨ req.header "sec-websocket-version".toList ≠ "13".toList ∨
      key = [] then .error (.httpError 400 "Invalid WebSocket handshake")
  else
    match webSocketAccept key with
    | none => .error (.httpError 400 "Invalid WebSocket key")
    | some accept =>
      .ok (latin1 ("HTTP/1.1 101 Switching Protocols\r\nUpgrade: websocket\r\nConnection: Upgrade\r\nSec-WebSocket-Accept: ".toList ++
        accept ++ "\r\n\r\n".toList))

/-- The threaded server. -/
structure SovereignServer (σ : Type) extends Program σ where
  stopEvent : σ → Bool
  webSocketAccept : Str → Option Str
  websocketHandler : Option (Request → σ → (List Bytes × Except Exc Unit) × σ)
  runBackgroundTasks : Request → Act σ Unit

/-- The parts of `SovereignServer.handle_connection`: each pass makes a new reader on the socket. -/
def SovereignServer.server [Urllib] (srv : SovereignServer σ) : Server σ SocketReader where
  toProgram := srv.toProgram
  reopen reader := ⟨[], reader.pending⟩
  parse := parseRequest srv.config
  received := Source.buffer
  stopped := srv.stopEvent
  upgrade req :=
    if isWebsocketUpgrade req = true then
      some { handshake := handshake srv.webSocketAccept req
             session := match srv.websocketHandler with
              | some handler => handler req
              | none => fun s => (([], .ok ()), s) }
    else none
  produce := produceWith srv.toProgram ["GET".toList, "HEAD".toList] srv.router.resolve
    srv.router.execute
  write := writeResponse
  background := srv.runBackgroundTasks

/-- `SovereignServer.handle_connection` -/
def handleConnection [Urllib] (srv : SovereignServer σ) (remoteAddr : Str) (client : SocketReader)
    (s : σ) : List (Exchange σ) :=
  srv.server.connection remoteAddr srv.config.maxKeepaliveRequests client s

/-- The parts of `AsyncSovereignServer.handle_client`: one reader serves the whole connection. -/
def AsyncSovereignServer.server [Urllib] (srv : Program σ) : Server σ (StreamReader cap) where
  toProgram := srv
  reopen reader := reader
  parse := parseAsyncRequest srv.config
  received := Source.buffer
  stopped _ := false
  upgrade _ := none
  produce := produceWith srv ["GET".toList] srv.router.resolveAsync srv.router.executeAsync
  write := writeResponseAsync
  background _ := pure ()

/-- `AsyncSovereignServer.handle_client` -/
def handleClient [Urllib] (srv : Program σ) (remoteAddr : Str) (reader : StreamReader cap)
    (s : σ) : List (Exchange σ) :=
  (AsyncSovereignServer.server srv).connection remoteAddr srv.config.maxKeepaliveRequests reader s

/-- A threaded server that answers every `GET` with one result. -/
def oneRoute (result : HandlerResult) : SovereignServer Unit where
  router :=
    { routes := [{ method := "GET".toList, regex := fun _ => some ∅,
                   handler := ⟨false, fun _ _ => pure (.result result)⟩, middlewares := [] }]
      middlewares := []
      openapi := fun _ => pure result }
  config := {}
  staticResponse _ := pure result
  nowHttpDate s := (⟨epoch, by unfold Clean; decide⟩, s)
  newRequestId s := (⟨['0'], by unfold Clean; decide⟩, s)
  stopEvent _ := false
  webSocketAccept _ := none
  websocketHandler := none
  runBackgroundTasks _ := pure ()

end Sovereign
