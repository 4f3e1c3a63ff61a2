import Sovereign.OneResponse

namespace Sovereign
open Buffered
set_option autoImplicit true

/-- The requests that the parser has returned, in order. -/
def accepted (run : List (Exchange σ)) : List Request := run.filterMap fun x => x.parsed.toOption

/-- A connection is served as these requests, and no byte is dropped between two of them. -/
structure Delivers (run : List (Exchange σ)) (reqs : List Request) : Prop where
  requests : accepted run = reqs
  kept : ∀ x ∈ run, x.again = true → x.left = []

/-- The deliveries end where the messages end: each message arrives in deliveries of its own. -/
def Grouped : List Bytes → List (Segment UInt8 cap) → Prop
  | [], segs => segs = []
  | x :: xs, segs => ∃ g rest, segs = g ++ rest ∧ g.flatMap Segment.items = x ∧ Grouped xs rest

namespace Server

variable (srv : Server σ R)

/-- A request is answered in full and the connection stays open; `s'` is the state after it. -/
def Completes (req : Request) (s s' : σ) : Prop :=
  srv.upgrade req = none ∧ ∃ result t, srv.produce req s = (.ok (.result result), t) ∧
    srv.Sendable req result true t ∧
    srv.afterHead req result (srv.nowHttpDate t).2 = (.ok (), s')

/-- The server is not stopped, and every request but the last is answered in full. -/
def KeepsOpen : List Request → σ → Prop
  | [], _ => True
  | req :: reqs, s => srv.stopped s = false ∧
    (reqs ≠ [] → ∃ s', srv.Completes (srv.identify req s).1 (srv.identify req s).2 s' ∧
      KeepsOpen reqs s')

variable {srv}

theorem openSession_ends {session : Upgrade σ} (h : openSession session ⟨s, []⟩ = (.ok again, w)) :
    again = false := by
  cases hh : session.handshake with
  | error e =>
    rw [openSession_refused hh] at h
    cases h
  | ok block =>
    rw [openSession_run hh] at h
    cases he : (session.session s).1.2 with
    | error e =>
      rw [he] at h
      cases h
    | ok _ =>
      rw [he] at h
      cases h
      rfl

/-- The loop goes on after a request exactly where it has been answered in full. -/
theorem answer_again (hw : srv.Writes) :
    (srv.answer req true s).2.1 = true ∧ (srv.answer req true s).2.2 = s' ↔
      srv.Completes req s s' := by
  have hstop : ∀ {e w}, srv.respond req true ⟨s, []⟩ = (.error e, w) →
      ¬ ((srv.answer req true s).2.1 = true ∧ (srv.answer req true s).2.2 = s') := by
    intro e w h hcon
    rw [answer_stops h] at hcon
    cases hcon.1
  cases hu : srv.upgrade req with
  | some session =>
    refine iff_of_false ?_ fun h => by cases hu ▸ h.1
    rcases ho : openSession session ⟨s, []⟩ with ⟨e | again, w⟩
    · exact hstop ((congrFun (respond_upgrade hu true) _).trans ho)
    · have hr := (congrFun (respond_upgrade hu true) _).trans ho
      rw [answer_ok hr, openSession_ends ho]
      rintro ⟨h, -⟩
      cases h
  | none =>
    rcases hp : srv.produce req s with ⟨e | value, t⟩
    · refine iff_of_false (hstop (respond_failed hu hp true)) ?_
      rintro ⟨-, result, t', hp', -⟩
      cases hp ▸ hp'
    · have hgo := respond_produced hu hp true
      cases value with
      | awaitable run =>
        refine iff_of_false (hstop hgo) ?_
        rintro ⟨-, result, t', hp', -⟩
        cases hp ▸ hp'
      | result result =>
        by_cases hs : srv.Sendable req result true t
        · obtain ⟨sent, -, hd⟩ := deliver_started hw hs
          rw [hd] at hgo
          rcases hb : srv.afterHead req result (srv.nowHttpDate t).2 with ⟨e | _, t'⟩
          · rw [hb] at hgo
            refine iff_of_false (hstop hgo) ?_
            rintro ⟨-, result', t'', hp', -, hb'⟩
            cases hp ▸ hp'
            cases hb ▸ hb'
          · rw [hb] at hgo
            rw [answer_ok hgo]
            constructor
            · rintro ⟨-, rfl⟩
              exact ⟨hu, result, t, hp, hs, hb⟩
            · rintro ⟨-, result', t'', hp', -, hb'⟩
              cases hp ▸ hp'
              cases hb ▸ hb'
              exact ⟨rfl, rfl⟩
        · rw [deliver_unsendable hw hs] at hgo
          refine iff_of_false (hstop hgo) ?_
          rintro ⟨-, result', t', hp', hs', -⟩
          cases hp ▸ hp'
          exact hs hs'

end Server

/-- How the deliveries of a message are told from those after it does not matter. -/
theorem grouped_cons {g rest : List (Segment UInt8 cap)} (hg : g.flatMap Segment.items = x) :
    Grouped (x :: xs) (g ++ rest) ↔ Grouped xs rest := by
  constructor
  · rintro ⟨g', rest', hsplit, hg', h⟩
    have ha := advance_segments (ω := Outage) [] g rest
    rw [hg, hsplit, ← hg', advance_segments] at ha
    have hrest : rest' = rest :=
      List.map_injective_iff.2 (fun _ _ h => Arrival.data.inj h) (Source.mk.inj ha).2
    exact hrest ▸ h
  · exact fun h => ⟨g, rest, rfl, hg, h⟩

/-- A buffer that is empty after a message has been consumed divides the deliveries. -/
theorem advance_group {segs : List (Segment UInt8 cap)} (hs : segs.flatMap Segment.items = x ++ y)
    (hb : (Source.advance (ω := ω) x.length (.ofSegments segs)).buffer = []) :
    ∃ g rest, segs = g ++ rest ∧ g.flatMap Segment.items = x ∧ rest.flatMap Segment.items = y ∧
      Source.advance (ω := ω) x.length (.ofSegments segs) = .ofSegments rest := by
  have hle : x.length ≤ ([] : List UInt8).length + (segs.flatMap Segment.items).length := by
    rw [hs, List.length_append]
    simp
  obtain ⟨g, rest, rfl, hlen⟩ := advance_boundary (Nat.zero_le _) hle hb
  rw [List.flatMap_append] at hs
  rw [List.length_nil, Nat.zero_add] at hlen
  obtain ⟨hg, hrest⟩ := List.append_inj hs hlen.symm
  refine ⟨g, rest, rfl, hg, hrest, ?_⟩
  have ha := advance_segments (ω := ω) [] g rest
  rw [List.length_nil, Nat.zero_add, hg] at ha
  exact ha

theorem segments_nil {segs : List (Segment UInt8 cap)} (h : segs.flatMap Segment.items = []) :
    segs = [] := by
  cases segs with
  | nil => rfl
  | cons seg segs => exact absurd (List.append_eq_nil_iff.1 h).1 seg.nonempty

theorem delivers_nil (reqs : List Request) :
    Delivers ([] : List (Exchange σ)) reqs ↔ reqs = [] :=
  ⟨fun h => h.requests.symm, fun h => ⟨h.symm, fun _ hx => absurd hx List.not_mem_nil⟩⟩

theorem delivers_cons {x : Exchange σ} {run : List (Exchange σ)} (hx : x.parsed = .ok req) :
    Delivers (x :: run) (req :: reqs) ↔ (x.again = true → x.left = []) ∧ Delivers run reqs := by
  have ha : accepted (x :: run) = req :: accepted run := by
    rw [accepted, List.filterMap_cons, hx]
    rfl
  constructor
  · rintro ⟨hr, hk⟩
    rw [ha] at hr
    exact ⟨hk x List.mem_cons_self, (List.cons.inj hr).2,
      fun y hy => hk y (List.mem_cons_of_mem _ hy)⟩
  · rintro ⟨hleft, hr, hk⟩
    refine ⟨by rw [ha, hr], fun y hy => ?_⟩
    rcases List.mem_cons.1 hy with rfl | hy
    · exact hleft
    · exact hk y hy

/-- The requests of a connection that the claim is about, as the parser returns them. -/
def requestsOf [Urllib] (cfg : ServerConfig) (remoteAddr : Str) (msgs : List Message) :
    List Request :=
  msgs.map fun m => m.request remoteAddr (keepBody cfg m.payload.content)

/-- A message without chunks that keeps within the limits and does not ask for the connection to be
closed. -/
structure Message.Persistent (cfg : ServerConfig) (m : Message) : Prop where
  plain : m.payload.Plain
  limits : m.WithinLimits cfg
  stays : lower (headerOf m.headers "connection".toList) ≠ "close".toList

theorem identify_headers (program : Program σ) (req : Request) (s : σ) :
    (program.identify req s).1.headers = req.headers := by
  unfold Program.identify
  split
  · rfl
  · split <;> rfl

section Threaded

variable [Urllib] {srv : SovereignServer σ}

/-- Nothing is parsed on a connection that has ended. -/
theorem parse_closed (cfg : ServerConfig) (remoteAddr : Str) :
    ∃ e, parseRequest cfg remoteAddr (.ofSegments []) = .error e := by
  cases hp : parseRequest cfg remoteAddr (.ofSegments []) with
  | error e => exact ⟨e, rfl⟩
  | ok parsed =>
    obtain ⟨raw, r₁, -, -, -, hr, -⟩ := FrontEnd.parse_ok hp
    have hu : SocketReader.readUntil headEnd (cfg.maxHeaderBytes + 4) (.ofSegments []) =
      .ok (raw, r₁) := hr
    obtain ⟨b, a, hb, -⟩ := SocketReader.readUntil_ok hu
    cases hb

theorem parse_persistent {m : Message} (h : m.Persistent cfg) {r : SocketReader}
    (hu : r.unread = m.encode ++ u) (remoteAddr : Str) :
    parseRequest cfg remoteAddr r =
      .ok (m.request remoteAddr (keepBody cfg m.payload.content), r.advance m.encode.length) := by
  have hfit : m.payload.LinesFit SocketReader.lineLimit := by
    cases hp : m.payload with
    | chunked chunks zeros hz =>
      have hplain := h.plain
      rw [hp] at hplain
      exact hplain.elim
    | none => trivial
    | length content => trivial
  obtain ⟨r', hr, -, hadv⟩ := Message.parse_message (SocketReader.reads h.limits) h.limits hfit hu
    remoteAddr
  rw [← hadv h.plain]
  exact hr

/-- What the pass for a message comes to. -/
theorem serve_persistent (srv : SovereignServer σ) {m : Message} (h : m.Persistent cfg)
    (hpos : 0 < remaining) (remoteAddr : Str) (body : Body) (reader : SocketReader) (s : σ)
    (hreq : req = m.request remoteAddr body) :
    let x := srv.server.serve req reader remaining s
    let answered := srv.server.answer (srv.identify req s).1 true (srv.identify req s).2
    x.1.again = answered.2.1 ∧ x.2 = answered.2.2 := by
  have hk : keepsAlive (srv.server.identify req s).1 remaining = true := by
    rw [keepsAlive, Request.header, identify_headers, hreq]
    exact decide_eq_true ⟨h.stays, hpos⟩
  simp only [Server.serve, hk]
  exact ⟨rfl, rfl⟩

/-- The loop goes on after a request as far as it is answered in full. -/
theorem goesOn_iff {run : σ → List (Exchange σ)} {grouped : Prop}
    (hstop : srv.server.stopped s = false) (hnil : reqs = [] → grouped)
    (ih : ∀ s', Delivers (run s') reqs ↔ grouped ∧ srv.server.KeepsOpen reqs s') :
    let answered := srv.server.answer (srv.identify req s).1 true (srv.identify req s).2
    Delivers (if answered.2.1 = true then run answered.2.2 else []) reqs ↔
      grouped ∧ srv.server.KeepsOpen (req :: reqs) s := by
  intro answered
  have hagain : ∀ s', answered.2.1 = true ∧ answered.2.2 = s' ↔
      srv.server.Completes (srv.identify req s).1 (srv.identify req s).2 s' := fun s' =>
    Server.answer_again srv.writes
  by_cases ha : answered.2.1 = true
  · rw [if_pos ha, ih]
    refine and_congr_right fun hg => ?_
    constructor
    · exact fun h => ⟨hstop, fun _ => ⟨_, (hagain _).1 ⟨ha, rfl⟩, h⟩⟩
    · rintro ⟨-, h⟩
      by_cases hr : reqs = []
      · rw [hr]
        trivial
      · obtain ⟨s', hc, hk⟩ := h hr
        rw [((hagain s').2 hc).2]
        exact hk
  · rw [if_neg ha, delivers_nil]
    constructor
    · exact fun hr => ⟨hnil hr, hstop, fun h => absurd hr h⟩
    · rintro ⟨-, -, h⟩
      by_contra hr
      obtain ⟨s', hc, -⟩ := h hr
      exact ha ((hagain s').2 hc).1

/-- On the threaded server, requests are parsed as they were sent and no byte between them is lost
exactly where each arrives in deliveries of its own and all but the last are answered in full. -/
theorem connection_messages (srv : SovereignServer σ) (remoteAddr : Str) {msgs : List Message}
    (hm : ∀ m ∈ msgs, m.Persistent srv.config) (hlen : msgs.length < remaining)
    {segs : List (Segment UInt8 4096)}
    (hs : segs.flatMap Segment.items = msgs.flatMap Message.encode) (s : σ) :
    Delivers (srv.server.connection remoteAddr remaining (.ofSegments segs) s)
        (requestsOf srv.config remoteAddr msgs) ↔
      Grouped (msgs.map Message.encode) segs ∧
        srv.server.KeepsOpen (requestsOf srv.config remoteAddr msgs) s := by
  induction msgs generalizing remaining segs s with
  | nil =>
    obtain ⟨k, rfl⟩ := Nat.exists_eq_add_one_of_ne_zero (Nat.ne_of_gt hlen)
    obtain rfl := segments_nil hs
    refine iff_of_true ?_ ⟨rfl, trivial⟩
    cases hstop : srv.server.stopped s with
    | true =>
      rw [Server.connection_stopped _ hstop]
      exact (delivers_nil _).2 rfl
    | false =>
      obtain ⟨e, he⟩ := parse_closed srv.config remoteAddr
      have hp : srv.server.parse remoteAddr (srv.server.reopen (.ofSegments [])) = .error e := he
      rw [Server.connection_refused _ hstop hp]
      refine ⟨rfl, fun x hx hagain => ?_⟩
      rw [List.mem_singleton.1 hx] at hagain
      cases hagain
  | cons m msgs ih =>
    obtain ⟨k, rfl⟩ := Nat.exists_eq_add_one_of_ne_zero (Nat.ne_of_gt (Nat.zero_lt_of_lt hlen))
    rw [List.length_cons] at hlen
    have hmsg := hm m List.mem_cons_self
    have hreqs : requestsOf srv.config remoteAddr (m :: msgs) =
      m.request remoteAddr (keepBody srv.config m.payload.content) ::
        requestsOf srv.config remoteAddr msgs := rfl
    rw [hreqs]
    cases hstop : srv.server.stopped s with
    | true =>
      rw [Server.connection_stopped _ hstop, delivers_nil]
      refine iff_of_false (List.cons_ne_nil _ _) ?_
      rintro ⟨-, hno, -⟩
      rw [hstop] at hno
      cases hno
    | false =>
      have hu : (Source.ofSegments (ω := Outage) segs).unread =
          m.encode ++ msgs.flatMap Message.encode := by
        rw [Source.ofSegments_unread, hs, List.flatMap_cons]
      have hp : srv.server.parse remoteAddr (srv.server.reopen (.ofSegments segs)) = _ :=
        parse_persistent hmsg hu remoteAddr
      rw [Server.connection_parsed _ _ hstop hp, delivers_cons rfl]
      obtain ⟨hagain, hstate⟩ := serve_persistent srv hmsg (by omega : 0 < k) remoteAddr
        (keepBody srv.config m.payload.content)
        (Source.advance m.encode.length (.ofSegments segs)) s rfl
      have hleft : (srv.server.serve (m.request remoteAddr (keepBody srv.config m.payload.content))
          (Source.advance m.encode.length (.ofSegments segs)) k s).1.left =
        (Source.advance (ω := Outage) m.encode.length (.ofSegments segs)).buffer := rfl
      rw [hagain, hstate, hleft]
      by_cases hb : (Source.advance (ω := Outage) m.encode.length (.ofSegments segs)).buffer = []
      · obtain ⟨g, rest, rfl, hg, hrest, hadv⟩ := advance_group hs hb
        rw [hadv, List.map_cons, grouped_cons hg]
        refine (and_iff_right fun _ => rfl).trans (goesOn_iff hstop (fun hnil => ?_) fun s' =>
          ih (fun m hm' => hm m (List.mem_cons_of_mem _ hm')) (by omega) hrest s')
        obtain rfl := List.map_eq_nil_iff.1 hnil
        exact segments_nil hrest
      · refine iff_of_false ?_ ?_
        · rintro ⟨hkept, hd⟩
          rw [if_neg fun h => hb (hkept h), delivers_nil] at hd
          obtain rfl := List.map_eq_nil_iff.1 hd
          have hend : (Source.advance (ω := Outage) m.encode.length (.ofSegments segs)).unread =
            [] :=
            Source.advance_of_append hu
          exact hb (List.append_eq_nil_iff.1 hend).1
        · rintro ⟨⟨g, rest, rfl, hg, -⟩, -⟩
          have ha := advance_segments (ω := Outage) [] g rest
          rw [List.length_nil, Nat.zero_add, hg] at ha
          exact hb (congrArg Source.buffer ha)

/-- The loop of the threaded server delivers a list of requests, without losing bytes between them,
exactly where no delivery has bytes of two requests and all requests but the last are answered in
full by a server that is not stopped. -/
theorem handleConnection_messages (srv : SovereignServer σ) (remoteAddr : Str)
    (msgs : List Message) (hm : ∀ m ∈ msgs, m.Persistent srv.config)
    (hlen : msgs.length < srv.config.maxKeepaliveRequests) (segs : List (Segment UInt8 4096))
    (hs : segs.flatMap Segment.items = msgs.flatMap Message.encode) (s : σ) :
    Delivers (handleConnection srv remoteAddr (.ofSegments segs) s)
        (requestsOf srv.config remoteAddr msgs) ↔
      Grouped (msgs.map Message.encode) segs ∧
        srv.server.KeepsOpen (requestsOf srv.config remoteAddr msgs) s :=
  connection_messages srv remoteAddr hm hlen hs s

end Threaded

theorem plainGet_persistent : plainGet.Persistent {} where
  plain := trivial
  limits := plainGet_fitsStream.toWithinLimits
  stays := by decide

theorem plainGets_persistent : ∀ m ∈ [plainGet, plainGet], m.Persistent {} := by
  intro m hm
  rcases List.mem_cons.1 hm with rfl | hm
  · exact plainGet_persistent
  · exact List.mem_singleton.1 hm ▸ plainGet_persistent

theorem oneRoute_completes :
    (@SovereignServer.server Unit ⟨fun _ => true⟩ (oneRoute (.response { body := [] }))).Completes
      getRequest () () := by
  refine ⟨rfl, .response { body := [] }, (), rfl, ?_, rfl⟩
  unfold Server.Sendable CleanHeaders Clean
  decide

/-- Two requests, each in a delivery of its own. -/
theorem handleConnection_messages_two :
    Delivers (@handleConnection Unit ⟨fun _ => true⟩ (oneRoute (.response { body := [] })) []
        (.ofSegments [⟨plainGet.encode, by decide, by decide⟩,
          ⟨plainGet.encode, by decide, by decide⟩]) ())
      (@requestsOf ⟨fun _ => true⟩ {} [] [plainGet, plainGet]) :=
  (@handleConnection_messages Unit ⟨fun _ => true⟩ (oneRoute (.response { body := [] })) []
    [plainGet, plainGet] plainGets_persistent (by decide) _ rfl ()).2
    ⟨⟨[_], [_], rfl, List.append_nil _, [_], [], rfl, List.append_nil _, rfl⟩,
      rfl, fun _ => ⟨(), oneRoute_completes, rfl, fun h => absurd rfl h⟩⟩

/-- Two requests in one delivery: the second is received, and lost. -/
theorem handleConnection_messages_lost :
    ¬ ∀ (srv : SovereignServer Unit) (msgs : List Message), (∀ m ∈ msgs, m.Persistent srv.config) →
      msgs.length < srv.config.maxKeepaliveRequests → ∀ segs : List (Segment UInt8 4096),
      segs.flatMap Segment.items = msgs.flatMap Message.encode →
        Delivers (@handleConnection Unit ⟨fun _ => true⟩ srv [] (.ofSegments segs) ())
          (@requestsOf ⟨fun _ => true⟩ srv.config [] msgs) := by
  intro h
  let seg : Segment UInt8 4096 := ⟨plainGet.encode ++ plainGet.encode, by decide, by decide⟩
  have hs : [seg].flatMap Segment.items = [plainGet, plainGet].flatMap Message.encode := rfl
  have hd := h (oneRoute (.response { body := [] })) [plainGet, plainGet] plainGets_persistent
    (by decide) [seg] hs
  let _ : Urllib := ⟨fun _ => true⟩
  obtain ⟨⟨g, rest, hsplit, hg, -⟩, -⟩ := (connection_messages
    (oneRoute (.response { body := [] })) [] plainGets_persistent
    (by decide : 2 < 50) hs ()).1 hd
  cases g with
  | nil => exact absurd hg (by decide)
  | cons first g =>
    obtain ⟨rfl, -⟩ := List.cons.inj hsplit
    have hl := congrArg List.length hg
    simp only [List.flatMap_cons, List.length_append, seg] at hl
    have hpos : 0 < plainGet.encode.length := by decide
    omega

end Sovereign
