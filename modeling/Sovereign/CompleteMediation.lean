import Sovereign.Exchanges
import Sovereign.Mediation

namespace Sovereign
set_option autoImplicit true

theorem mediated_session (n : Nat) (calls : List TaskCall) :
    Mediated n (.application :: calls.map .task) ↔ n = 0 := by
  constructor
  · intro h
    by_contra hn
    have hpast := h [] .application (calls.map .task) rfl 0 (Nat.pos_of_ne_zero hn)
    cases hpast
  · rintro rfl before e after _
    cases e with
    | application =>
      intro i hi
      exact absurd hi (Nat.not_lt_zero i)
    | middleware i => trivial
    | task call => trivial

namespace Application

variable (app : Application σ)

/-- The request opens a session of the websocket handler, although there are middlewares. -/
def Bypassed : Except Exc Request → Prop
  | .error _ => False
  | .ok req => isWebsocketUpgrade req = true ∧ (handshake app.webSocketAccept req).isOk = true ∧
      app.websocketHandler.isSome = true ∧ app.globals ≠ []

/-- What a request has recorded is what routing, middlewares and handler have recorded. -/
theorem mediated_produce {srv : Server (Ledger σ) R} (hq : srv.Quiet)
    (hb : ∀ req l, (srv.background req l).2.log = l.log) (hu : srv.upgrade req = none)
    (hp : Since n l (srv.produce req l).2) (keepAlive : Bool) :
    ∃ es, (srv.answer req keepAlive l).2.2.log = l.log ++ es ∧ Mediated n es := by
  obtain ⟨es, hlog, hmed, -⟩ := hp.log
  refine ⟨es, ?_, hmed⟩
  cases hw : srv.written req keepAlive l with
  | none => exact (Server.answer_unwritten hq hu hw).log.trans hlog
  | some m =>
    obtain ⟨hsend, hrest⟩ := Server.answer_written hq hu hw
    rw [hrest.log, hb, hsend.log, hlog]

theorem mediated_serve {srv : Server (Ledger σ) R} (hq : srv.Quiet)
    (hb : ∀ req l, (srv.background req l).2.log = l.log)
    (hp : ∀ req l, Since n l (srv.produce req l).2) (hu : srv.upgrade (srv.identify req l).1 = none)
    (remoteAddr : Str) (reader : R) (remaining : Nat) :
    Mediated n (srv.entries remoteAddr (srv.serve req reader remaining l).1) := by
  obtain ⟨es, hlog, hmed⟩ := mediated_produce hq hb hu (hp _ (srv.identify req l).2)
    (keepsAlive (srv.identify req l).1 remaining)
  rw [(Server.identify_sameRecords hq req l).log] at hlog
  have hes : srv.entries remoteAddr (srv.serve req reader remaining l).1 = es :=
    Server.entries_eq hlog
  rwa [hes]

theorem async_mediated [Urllib] (remoteAddr : Str) (reader : StreamReader cap) (l : Ledger σ) :
    ∀ x ∈ handleClient app.program remoteAddr reader l,
      Mediated app.globals.length
        ((AsyncSovereignServer.server app.program : Server _ (StreamReader cap)).entries
          remoteAddr x) := by
  intro x hx
  rcases Server.mem_connection hx with ⟨e, s, rfl⟩ | ⟨req, reader', remaining, s, rfl⟩
  · rw [Server.entries_refuse app.async_quiet]
    exact History.each_nil
  · exact mediated_serve app.async_quiet (fun _ _ => rfl)
      (fun req l => async_produce_since app req l) rfl remoteAddr reader' remaining

/-- What a request that asks for a session records. -/
theorem session_entries [Urllib] (h : isWebsocketUpgrade req = true) (remoteAddr : Str)
    (reader : SocketReader) (remaining : Nat) (l : Ledger σ) :
    ∃ calls : List TaskCall, app.threaded.server.entries remoteAddr
        (app.threaded.server.serve req reader remaining l).1 =
      if (handshake app.webSocketAccept req).isOk = true ∧ app.websocketHandler.isSome = true
      then .application :: calls.map .task else [] := by
  have hid := (Server.identify_sameRecords app.threaded_quiet req l).log
  obtain ⟨requestId, hreq⟩ := Server.identify_request app.threaded.server req l
  have hu : app.threaded.server.upgrade (app.threaded.server.identify req l).1 =
      some (app.upgrade { req with requestId }) := by
    rw [← hreq]
    apply threaded_upgrade_some
    rw [hreq]
    exact h
  have hafter : ∀ es, (app.threaded.server.answer (app.threaded.server.identify req l).1
      (keepsAlive (app.threaded.server.identify req l).1 remaining)
      (app.threaded.server.identify req l).2).2.2.log = l.log ++ es →
      app.threaded.server.entries remoteAddr
        (app.threaded.server.serve req reader remaining l).1 = es := by
    intro es hes
    exact Server.entries_eq (x := (app.threaded.server.serve req reader remaining l).1) hes
  cases hh : handshake app.webSocketAccept req with
  | error e =>
    refine ⟨[], hafter [] ?_⟩
    rw [List.append_nil, ← hid]
    exact (Server.answer_noSession app.threaded_quiet hu hh _).log
  | ok block =>
    have hsame := (Server.answer_session (l := (app.threaded.server.identify req l).2)
      app.threaded_quiet hu hh (keepsAlive (app.threaded.server.identify req l).1 remaining)).log
    cases hw : app.websocketHandler with
    | none =>
      rw [upgrade_session_none app hw] at hsame
      refine ⟨[], hafter [] ?_⟩
      rw [List.append_nil, ← hid]
      exact hsame
    | some handler =>
      rw [upgrade_session_some app hw] at hsame
      let calls := (handler { req with requestId }
        (app.threaded.server.identify req l).2.state).calls
      refine ⟨calls, hafter (.application :: calls.map .task) ?_⟩
      rw [← hid]
      exact hsame

theorem threaded_mediated_iff [Urllib] (remoteAddr : Str) (client : SocketReader) (l : Ledger σ) :
    ∀ x ∈ handleConnection app.threaded remoteAddr client l,
      (Mediated app.globals.length (app.threaded.server.entries remoteAddr x) ↔
        ¬ app.Bypassed x.parsed) := by
  intro x hx
  rcases Server.mem_connection hx with ⟨e, s, rfl⟩ | ⟨req, reader', remaining, s, rfl⟩
  · rw [Server.entries_refuse app.threaded_quiet]
    exact iff_of_true History.each_nil id
  · change _ ↔ ¬ (isWebsocketUpgrade req = true ∧ _)
    cases hup : isWebsocketUpgrade req with
    | false =>
      have hu : app.threaded.server.upgrade (app.threaded.server.identify req s).1 = none := by
        obtain ⟨requestId, hreq⟩ := Server.identify_request app.threaded.server req s
        apply threaded_upgrade_none
        rw [hreq]
        exact hup
      apply iff_of_true
      · exact mediated_serve app.threaded_quiet app.runtime.runBackgroundTasks_log
          (fun req l => threaded_produce_since app req l) hu remoteAddr reader' remaining
      · rintro ⟨hyes, -⟩
        cases hyes
    | true =>
      obtain ⟨calls, hes⟩ := session_entries app hup remoteAddr reader' remaining s
      rw [hes]
      split
      · next hopen =>
        rw [mediated_session, List.length_eq_zero_iff]
        simp [hopen.1, hopen.2]
      · next hclosed =>
        apply iff_of_true History.each_nil
        rintro ⟨-, hok, hsome, -⟩
        exact hclosed ⟨hok, hsome⟩

end Application

/-- On the threaded server application code is entered only inside all global middlewares, unless a
request opens a session of the websocket handler past them; on the asynchronous server it always
is. -/
theorem completeMediation_iff [Urllib] (app : Application σ) (remoteAddr : Str) :
    (∀ (client : SocketReader) (l : Ledger σ), ∀ x ∈ handleConnection app.threaded
    remoteAddr client l,
      (Mediated app.globals.length (app.threaded.server.entries remoteAddr x) ↔
        ¬ app.Bypassed x.parsed)) ∧
    ∀ (cap : Nat) (reader : StreamReader cap) (l : Ledger σ),
      ∀ x ∈ handleClient app.program remoteAddr reader l,
        Mediated app.globals.length
          ((AsyncSovereignServer.server app.program : Server _ (StreamReader cap)).entries
            remoteAddr x) :=
  ⟨app.threaded_mediated_iff remoteAddr, fun _ => app.async_mediated remoteAddr⟩

section Session

def upgradeFields : List Field :=
  plainGet.fields ++ [⟨"Upgrade".toList, " websocket".toList, by decide, by decide⟩,
    ⟨"Connection".toList, " Upgrade".toList, by decide, by decide⟩,
    ⟨"Sec-WebSocket-Version".toList, " 13".toList, by decide, by decide⟩,
    ⟨"Sec-WebSocket-Key".toList, " dGhlIHNhbXBsZSBub25jZQ==".toList, by decide, by decide⟩]

/-- A handshake. -/
def upgradeGet : Message where
  method := plainGet.method
  target := plainGet.target
  fields := upgradeFields
  payload := .none
  method_token := plainGet.method_token
  target_origin := plainGet.target_origin
  one_host := ⟨['h'], by decide⟩
  announced := ⟨by decide, by decide⟩

theorem upgradeGet_fitsStream : upgradeGet.FitsStream {} where
  requestLine := by decide
  count := by decide
  names := by decide
  values := by decide
  head := by decide +kernel
  digits := by decide
  body := by decide
  stream := by decide +kernel
  lines := trivial

def upgradeClient : SocketReader := .ofSegments [⟨upgradeGet.encode, by decide, by decide +kernel⟩]

/-- An application whose only middleware admits nothing, with a websocket handler. -/
def guarded : Application Unit where
  globals := [⟨false, fun _ => .raise (.httpError 401 "Unauthorized")⟩]
  routes := []
  openapi _ := throw (.httpError 404 "Not Found")
  staticResponse _ := throw (.httpError 404 "Not Found")
  config := {}
  nowHttpDate := (oneRoute (.response { body := [] })).nowHttpDate
  newRequestId := (oneRoute (.response { body := [] })).newRequestId
  stopEvent _ := false
  webSocketAccept _ := some "s3pPLBmTxaQ9kYGzzhZRbK+xOo=".toList
  websocketHandler := some fun _ s => ⟨[], .ok (), s, []⟩
  runtime := ⟨fun _ => .ok [], fun _ => .ok [], fun _ => .ok [], fun _ => .ok (), fun _ => .ok (),
    fun _ => 0, fun _ => .ok ()⟩

theorem parse_upgradeClient : ∃ r', @parseRequest ⟨fun _ => true⟩ {} [] upgradeClient =
    .ok (@Message.request ⟨fun _ => true⟩ upgradeGet [] (.bytes []), r') := by
  have hu : upgradeClient.unread = upgradeGet.encode ++ [] := rfl
  obtain ⟨r', hr, -⟩ := @Message.parse_message _ _ _ _ _ _ _ ⟨fun _ => true⟩ _ _
    (SocketReader.reads upgradeGet_fitsStream.toWithinLimits) upgradeGet_fitsStream.toWithinLimits
    trivial hu []
  exact ⟨r', hr⟩

theorem guarded_bypassed :
    guarded.Bypassed (.ok (@Message.request ⟨fun _ => true⟩ upgradeGet [] (.bytes []))) :=
  ⟨by decide, by decide, by decide, by decide⟩

/-- A handshake enters the websocket handler although the middleware admits nothing. -/
theorem not_mediated_session :
    ¬ ∀ (app : Application Unit) (client : SocketReader) (l : Ledger Unit),
      ∀ x ∈ @handleConnection _ ⟨fun _ => true⟩ app.threaded [] client l,
        Mediated app.globals.length
          ((@SovereignServer.server _ ⟨fun _ => true⟩ app.threaded).entries [] x) := by
  intro h
  obtain ⟨r', hr⟩ := parse_upgradeClient
  let l : Ledger Unit := ⟨(), [], [], [], [], 0⟩
  have hc := Server.connection_parsed (s := l)
    (@SovereignServer.server _ ⟨fun _ => true⟩ guarded.threaded) upgradeClient rfl hr 49
  have hm := hc ▸ List.mem_cons_self
  have hiff := @Application.threaded_mediated_iff _ guarded ⟨fun _ => true⟩ [] upgradeClient l _ hm
  exact hiff.1 (h guarded upgradeClient l _ hm) guarded_bypassed

end Session

end Sovereign
