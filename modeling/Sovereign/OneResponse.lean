import Sovereign.KeepAlive
import Sovereign.Server

namespace Sovereign
open Buffered
set_option autoImplicit true

namespace Server

variable (srv : Server σ R)

/-- The header block of the result can be sent. -/
def Sendable (req : Request) (result : HandlerResult) (keepAlive : Bool) (s : σ) : Prop :=
  CleanHeaders (sentHeaders srv.config (srv.nowHttpDate s).1.val req result keepAlive)

/-- The exception is answered by a response of its own. -/
def Recovers (req : Request) (e : Exc) (s : σ) : Prop :=
  ∃ result, errorResult e = some result ∧ srv.Sendable req result false s

/-- Nothing that happens once a response has been started is answered by another one. -/
def Settled (req : Request) : Except Exc α × σ → Prop
  | (.ok _, _) => True
  | (.error e, s) => ¬ srv.Recovers req e s

/-- What comes after the header block of a result: the rest of its stream, and the background
tasks. -/
def afterHead (req : Request) (result : HandlerResult) (s : σ) : Except Exc Unit × σ :=
  match result.failure with
  | some e => (.error e, s)
  | none => srv.background req s

/-- The condition for an upgrade. -/
def OpensOnce (req : Request) (upgrade : Upgrade σ) (s : σ) : Prop :=
  match upgrade.handshake with
  | .error e => srv.Recovers req e s
  | .ok _ => srv.Settled req ((upgrade.session s).1.2, (upgrade.session s).2)

/-- The condition on what routing, middlewares and handler come to: a failure before the header
block is sent can be answered, and one after it cannot. -/
def DeliversOnce (req : Request) (keepAlive : Bool) : Except Exc (Val σ) × σ → Prop
  | (.error e, s) => srv.Recovers req e s
  | (.ok (.awaitable _), s) => srv.Recovers req (.builtin .attributeError) s
  | (.ok (.result result), s) =>
    (srv.Sendable req result keepAlive s →
      srv.Settled req (srv.afterHead req result (srv.nowHttpDate s).2)) ∧
    (¬ srv.Sendable req result keepAlive s →
      srv.Recovers req (headerFault (sentHeaders srv.config (srv.nowHttpDate s).1.val req result
        keepAlive)) (srv.nowHttpDate s).2)

/-- The condition under which a request is answered once. -/
def AnsweredOnce (req : Request) (keepAlive : Bool) (s : σ) : Prop :=
  match srv.upgrade req with
  | some upgrade => srv.OpensOnce req upgrade s
  | none => srv.DeliversOnce req keepAlive (srv.produce req s)

/-- The function that writes responses is one of the two of the servers. -/
def Writes : Prop := ∀ req, ∃ sendsContent, srv.write req = writeWith sendsContent req

variable {srv}

/-- A result that can be sent is started once, and the writing ends as its stream does. -/
theorem send_started (hw : srv.Writes) {w : Wire σ}
    (h : srv.Sendable req result keepAlive w.state) :
    ∃ sent, headCount sent = headCount w.sent + 1 ∧ srv.send req result keepAlive w =
      (match result.failure with
        | none => .ok ()
        | some e => .error e, ⟨(srv.nowHttpDate w.state).2, sent⟩) := by
  obtain ⟨sendsContent, hwrite⟩ := hw req
  obtain ⟨sent, hc, he⟩ := writeWith_started sendsContent h
  refine ⟨w.sent ++ sent, by rw [headCount_append, hc], ?_⟩
  rw [send_run, hwrite, he]
  rfl

theorem send_unsendable (hw : srv.Writes) {w : Wire σ}
    (h : ¬ srv.Sendable req result keepAlive w.state) :
    srv.send req result keepAlive w =
      (.error (headerFault (sentHeaders srv.config (srv.nowHttpDate w.state).1.val req result
        keepAlive)), ⟨(srv.nowHttpDate w.state).2, w.sent⟩) := by
  obtain ⟨sendsContent, hwrite⟩ := hw req
  rw [send_run, hwrite, writeWith_unclean h, emit_run, List.append_nil]

theorem recover_some (h : errorResult e = some result) (req : Request) :
    srv.recover req e = srv.send req result false := by
  unfold recover
  rw [h]

theorem recover_none (h : errorResult e = none) (req : Request) :
    srv.recover req e = pure () := by
  unfold recover
  rw [h]

theorem headCount_recover (hw : srv.Writes) (req : Request) (e : Exc) (w : Wire σ) :
    (srv.Recovers req e w.state → headCount (srv.recover req e w).2.sent = headCount w.sent + 1) ∧
      (¬ srv.Recovers req e w.state →
        headCount (srv.recover req e w).2.sent = headCount w.sent) := by
  constructor
  · rintro ⟨result, he, hs⟩
    obtain ⟨sent, hc, hsend⟩ := send_started hw hs
    rw [recover_some he, hsend, hc]
  · intro h
    cases he : errorResult e with
    | none => rw [recover_none he, Act.pure_run]
    | some result =>
      have hs : ¬ srv.Sendable req result false w.state := fun hs => h ⟨result, he, hs⟩
      rw [recover_some he, send_unsendable hw hs]

theorem answer_error (h : srv.respond req keepAlive ⟨s, []⟩ = (.error e, w)) :
    (srv.answer req keepAlive s).1 = (srv.recover req e w).2.sent := by
  simp only [answer, h]

theorem answer_ok (h : srv.respond req keepAlive ⟨s, []⟩ = (.ok again, w)) :
    srv.answer req keepAlive s = (w.sent, again, w.state) := by
  simp only [answer, h]

theorem answer_stops (h : srv.respond req keepAlive ⟨s, []⟩ = (.error e, w)) :
    (srv.answer req keepAlive s).2.1 = false := by
  simp only [answer, h]

/-- Before a response has been started, the failure has to be answered. -/
theorem headCount_unstarted (hw : srv.Writes)
    (h : srv.respond req keepAlive ⟨s, []⟩ = (.error e, w)) (hn : headCount w.sent = 0) :
    headCount (srv.answer req keepAlive s).1 = 1 ↔ srv.Recovers req e w.state := by
  obtain ⟨hyes, hno⟩ := headCount_recover hw req e w
  rw [answer_error h]
  by_cases hr : srv.Recovers req e w.state
  · simp only [hyes hr, hn, hr]
  · simp only [hno hr, hn, hr, Nat.zero_ne_one]

/-- After that, it must not be. -/
theorem headCount_started (hw : srv.Writes)
    (h : srv.respond req keepAlive ⟨s, []⟩ = (.error e, w)) (hn : headCount w.sent = 1) :
    headCount (srv.answer req keepAlive s).1 = 1 ↔ ¬ srv.Recovers req e w.state := by
  obtain ⟨hyes, hno⟩ := headCount_recover hw req e w
  rw [answer_error h]
  by_cases hr : srv.Recovers req e w.state
  · simp [hyes hr, hn, hr]
  · simp only [hno hr, hn, hr, not_false_eq_true]

theorem openSession_refused {session : Upgrade σ} (h : session.handshake = .error e) (w : Wire σ) :
    openSession session w = (.error e, w) := by
  rw [openSession, h]
  rfl

theorem openSession_run {session : Upgrade σ} (h : session.handshake = .ok block) (s : σ) :
    openSession session ⟨s, []⟩ =
      ((session.session s).1.2.map fun _ => false, ⟨(session.session s).2,
        .head block :: (session.session s).1.1.map .content⟩) := by
  rw [openSession, h]
  dsimp only
  rw [Act.bind_ok _ (emit_run _ _), Act.bind_ok _ (onState_run _ _), Act.bind_run, emit_run]
  cases (session.session s).1.2 <;> rfl

theorem respond_upgrade {session : Upgrade σ} (hu : srv.upgrade req = some session)
    (keepAlive : Bool) : srv.respond req keepAlive = openSession session := by
  unfold respond
  rw [hu]

theorem respond_failed (hu : srv.upgrade req = none) (hp : srv.produce req s = (.error e, s'))
    (keepAlive : Bool) : srv.respond req keepAlive ⟨s, []⟩ = (.error e, ⟨s', []⟩) := by
  have hprod : onState (srv.produce req) ⟨s, []⟩ = (.error e, ⟨s', []⟩) := by
    rw [onState_run, hp]
  unfold respond
  rw [hu]
  exact Act.bind_error _ hprod

theorem respond_produced (hu : srv.upgrade req = none) (hp : srv.produce req s = (.ok value, s'))
    (keepAlive : Bool) :
    srv.respond req keepAlive ⟨s, []⟩ = srv.deliver req keepAlive value ⟨s', []⟩ := by
  have hprod : onState (srv.produce req) ⟨s, []⟩ = (.ok value, ⟨s', []⟩) := by
    rw [onState_run, hp]
  unfold respond
  rw [hu]
  exact Act.bind_ok _ hprod

/-- What a result that can be sent comes to. -/
theorem deliver_started (hw : srv.Writes) (hs : srv.Sendable req result keepAlive s) :
    ∃ sent, headCount sent = 1 ∧ srv.deliver req keepAlive (.result result) ⟨s, []⟩ =
      ((srv.afterHead req result (srv.nowHttpDate s).2).1.map fun _ => keepAlive,
        ⟨(srv.afterHead req result (srv.nowHttpDate s).2).2, sent⟩) := by
  obtain ⟨sent, hc, hsend⟩ := send_started hw (w := ⟨s, []⟩) hs
  refine ⟨sent, hc, ?_⟩
  rw [deliver, afterHead]
  cases hf : result.failure with
  | some e =>
    rw [hf] at hsend
    exact Act.bind_error _ hsend
  | none =>
    rw [hf] at hsend
    rw [Act.bind_ok _ hsend, Act.bind_run, onState_run]
    dsimp only
    rcases srv.background req (srv.nowHttpDate s).2 with ⟨_ | _, _⟩ <;> rfl

theorem deliver_unsendable (hw : srv.Writes) (hs : ¬ srv.Sendable req result keepAlive s) :
    srv.deliver req keepAlive (.result result) ⟨s, []⟩ =
      (.error (headerFault (sentHeaders srv.config (srv.nowHttpDate s).1.val req result keepAlive)),
        ⟨(srv.nowHttpDate s).2, []⟩) :=
  Act.bind_error _ (send_unsendable hw (w := ⟨s, []⟩) hs)

theorem headCount_openSession {session : Upgrade σ} (hw : srv.Writes)
    (hu : srv.upgrade req = some session) (keepAlive : Bool) (s : σ) :
    headCount (srv.answer req keepAlive s).1 = 1 ↔ srv.OpensOnce req session s := by
  have hrun := respond_upgrade hu keepAlive
  rw [OpensOnce]
  cases hh : session.handshake with
  | error e =>
    refine headCount_unstarted hw (w := ⟨s, []⟩) ?_ rfl
    rw [hrun, openSession_refused hh]
  | ok block =>
    have hopen := openSession_run hh s
    have hcount : headCount (.head block :: (session.session s).1.1.map .content) = 1 := by
      rw [headCount_head, headCount_frames]
    rw [← hrun] at hopen
    rcases hrest : session.session s with ⟨⟨frames, e | _⟩, s'⟩
    · rw [hrest] at hopen hcount
      exact headCount_started (w := ⟨s', _⟩) hw hopen hcount
    · rw [hrest] at hopen hcount
      rw [answer_ok hopen]
      exact iff_of_true hcount trivial

theorem headCount_deliver (hw : srv.Writes) (hu : srv.upgrade req = none) (keepAlive : Bool)
    (s : σ) :
    headCount (srv.answer req keepAlive s).1 = 1 ↔
      srv.DeliversOnce req keepAlive (srv.produce req s) := by
  rcases hp : srv.produce req s with ⟨e | value, s'⟩
  · exact headCount_unstarted (w := ⟨s', []⟩) hw (respond_failed hu hp keepAlive) rfl
  · have hgo := respond_produced hu hp keepAlive
    cases value with
    | awaitable run => exact headCount_unstarted (w := ⟨s', []⟩) hw hgo rfl
    | result result =>
      rw [DeliversOnce]
      by_cases hs : srv.Sendable req result keepAlive s'
      · obtain ⟨sent, hc, hd⟩ := deliver_started hw hs
        rw [hd] at hgo
        simp only [hs, not_true_eq_false, true_implies, false_implies, and_true]
        rcases hb : srv.afterHead req result (srv.nowHttpDate s').2 with ⟨e | _, s''⟩
        · rw [hb] at hgo
          exact headCount_started (w := ⟨s'', sent⟩) hw hgo hc
        · rw [hb] at hgo
          rw [answer_ok hgo]
          exact iff_of_true hc trivial
      · simp only [hs, not_false_eq_true, true_implies, false_implies, true_and]
        rw [deliver_unsendable hw hs] at hgo
        exact headCount_unstarted (w := ⟨(srv.nowHttpDate s').2, []⟩) hw hgo rfl

/-- A request is answered by one response exactly under the condition above. -/
theorem headCount_answer (hw : srv.Writes) (req : Request) (keepAlive : Bool) (s : σ) :
    headCount (srv.answer req keepAlive s).1 = 1 ↔ srv.AnsweredOnce req keepAlive s := by
  unfold AnsweredOnce
  cases hu : srv.upgrade req with
  | some upgrade => exact headCount_openSession hw hu keepAlive s
  | none => exact headCount_deliver hw hu keepAlive s

/-- The condition for a pass of the loop. -/
def Answers (srv : Server σ R) (x : Exchange σ) (req : Request) : Prop :=
  srv.AnsweredOnce (srv.identify req x.state).1 x.keepAlive (srv.identify req x.state).2

/-- In every pass of a loop that has parsed a request, one response is sent exactly under the
condition. -/
theorem connection_oneResponse (hw : srv.Writes) (remoteAddr : Str) (remaining : Nat) (reader : R)
    (s : σ) : ∀ x ∈ srv.connection remoteAddr remaining reader s, ∀ req, x.parsed = .ok req →
      (headCount x.sent = 1 ↔ srv.Answers x req) := by
  induction remaining generalizing reader s with
  | zero => exact fun x hx => absurd hx List.not_mem_nil
  | succ remaining ih =>
    intro x hx req hreq
    cases hs : srv.stopped s with
    | true =>
      rw [connection_stopped srv hs] at hx
      exact absurd hx List.not_mem_nil
    | false =>
      cases hp : srv.parse remoteAddr (srv.reopen reader) with
      | error e =>
        rw [connection_refused srv hs hp, List.mem_singleton] at hx
        rw [hx] at hreq
        cases hreq
      | ok parsed =>
        rw [connection_parsed srv _ hs hp] at hx
        rcases List.mem_cons.1 hx with rfl | hx
        · cases hreq
          exact headCount_answer hw _ _ _
        · split at hx
          · exact ih _ _ x hx req hreq
          · exact absurd hx List.not_mem_nil

end Server

theorem SovereignServer.writes [Urllib] (srv : SovereignServer σ) : srv.server.Writes := fun _ =>
  ⟨_, rfl⟩

theorem AsyncSovereignServer.writes [Urllib] (srv : Program σ) :
    (AsyncSovereignServer.server srv : Server σ (StreamReader cap)).Writes := fun _ => ⟨_, rfl⟩

/-- On both servers a request is answered by one response exactly where a failure before the header
block is answered by a response that can be sent, and a failure after it is not. -/
theorem handle_oneResponse [Urllib] :
    (∀ (srv : SovereignServer σ) (remoteAddr : Str) (client : SocketReader) (s : σ),
      ∀ x ∈ handleConnection srv remoteAddr client s, ∀ req, x.parsed = .ok req →
        (headCount x.sent = 1 ↔ srv.server.Answers x req)) ∧
    ∀ (cap : Nat) (srv : Program σ) (remoteAddr : Str) (reader : StreamReader cap) (s : σ),
      ∀ x ∈ handleClient srv remoteAddr reader s, ∀ req, x.parsed = .ok req →
        (headCount x.sent = 1 ↔
        (AsyncSovereignServer.server srv : Server σ (StreamReader cap)).Answers x req) :=
  ⟨fun srv remoteAddr client s =>
    Server.connection_oneResponse srv.writes remoteAddr _ client s,
  fun _ srv remoteAddr reader s =>
    Server.connection_oneResponse (AsyncSovereignServer.writes srv) remoteAddr _ reader s⟩

section OneRoute

/-- The request that `GET /` is parsed as, with a new id. -/
def getRequest : Request :=
  { @Message.request ⟨fun _ => true⟩ plainGet [] (.bytes []) with requestId := ['0'] }

/-- A client that sends `GET /` and closes the connection. -/
def getClient : SocketReader := .ofSegments [⟨plainGet.encode, by decide, by decide⟩]

theorem parse_getClient : ∃ r', @parseRequest ⟨fun _ => true⟩ {} [] getClient =
    .ok (@Message.request ⟨fun _ => true⟩ plainGet [] (.bytes []), r') := by
  have hu : getClient.unread = plainGet.encode ++ [] := rfl
  obtain ⟨r', hr, -⟩ := @Message.parse_message _ _ _ _ _ _ _ ⟨fun _ => true⟩ _ _
    (SocketReader.reads plainGet_fitsStream.toWithinLimits) plainGet_fitsStream.toWithinLimits
    trivial hu []
  exact ⟨r', hr⟩

theorem getClient_mem (result : HandlerResult) :
    ∃ x ∈ @handleConnection Unit ⟨fun _ => true⟩ (oneRoute result) [] getClient (),
      x.parsed = .ok (@Message.request ⟨fun _ => true⟩ plainGet [] (.bytes [])) ∧
        x.keepAlive = true := by
  obtain ⟨r', hr⟩ := parse_getClient
  have hc := Server.connection_parsed (s := ())
    (@SovereignServer.server Unit ⟨fun _ => true⟩ (oneRoute result)) getClient rfl hr 49
  have hm := hc ▸ List.mem_cons_self
  have hk : keepsAlive getRequest 49 = true := by decide
  exact ⟨_, hm, rfl, hk⟩

theorem getRequest_produce (result : HandlerResult) :
    (@SovereignServer.server Unit ⟨fun _ => true⟩ (oneRoute result)).AnsweredOnce
    getRequest true () ↔
      (@SovereignServer.server Unit ⟨fun _ => true⟩ (oneRoute result)).DeliversOnce getRequest true
        (.ok (.result result), ()) := by
  have hu : (@SovereignServer.server Unit ⟨fun _ => true⟩ (oneRoute result)).upgrade getRequest =
    none := by
    rfl
  unfold Server.AnsweredOnce
  rw [hu]
  rfl

/-- A stream that fails after one chunk. -/
def brokenStream : HandlerResult :=
  .stream { chunks := [.bytes (ascii "a")], failure := some (.app 0) }

theorem broken_recovers :
    (@SovereignServer.server Unit ⟨fun _ => true⟩ (oneRoute brokenStream)).Recovers getRequest
      (.app 0) () := by
  refine ⟨_, rfl, ?_⟩
  unfold Server.Sendable CleanHeaders Clean
  decide

theorem broken_sendable :
    (@SovereignServer.server Unit ⟨fun _ => true⟩ (oneRoute brokenStream)).Sendable getRequest
      brokenStream true () := by
  unfold Server.Sendable CleanHeaders Clean
  decide

/-- A second response is written after a part of the first one. -/
theorem handleConnection_broken_stream :
    ¬ ∀ (srv : SovereignServer Unit) (client : SocketReader),
      ∀ x ∈ @handleConnection Unit ⟨fun _ => true⟩ srv [] client (), ∀ req, x.parsed = .ok req →
        headCount x.sent = 1 := by
  intro h
  obtain ⟨x, hx, hp, hk⟩ := getClient_mem brokenStream
  have hone := (Server.connection_oneResponse (@SovereignServer.writes Unit ⟨fun _ => true⟩ _) []
    _ getClient () x hx _ hp).1 (h _ _ x hx _ hp)
  have hd := (getRequest_produce brokenStream).1 (hk ▸ hone)
  exact hd.1 broken_sendable broken_recovers

/-- A plain result is answered once. -/
theorem handle_oneResponse_plain :
    ∃ x ∈ @handleConnection Unit ⟨fun _ => true⟩ (oneRoute (.response { body := ascii "a" })) []
      getClient (), headCount x.sent = 1 := by
  obtain ⟨x, hx, hp, hk⟩ := getClient_mem (.response { body := ascii "a" })
  have hs :
    (@SovereignServer.server Unit ⟨fun _ => true⟩
    (oneRoute (.response { body := ascii "a" }))).Sendable
      getRequest (.response { body := ascii "a" }) true () := by
    unfold Server.Sendable CleanHeaders Clean
    decide
  have hd := (getRequest_produce (.response { body := ascii "a" })).2
    ⟨fun _ => trivial, fun hno => absurd hs hno⟩
  exact ⟨x, hx, (((@handle_oneResponse Unit ⟨fun _ => true⟩).1 _ [] getClient () x hx _ hp).2
    (hk.symm ▸ hd :))⟩

end OneRoute

end Sovereign
