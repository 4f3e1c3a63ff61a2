import Sovereign.JsonReader
import Sovereign.Router
import Sovereign.WebSocketFrames

namespace Sovereign
set_option autoImplicit true

/-! JSON in bodies, in frames of a WebSocket and in the log. -/

/-- `Request.json`. A `UnicodeDecodeError` is a `ValueError`. -/
def Request.json (env : Interpreter κ φ) (req : Request) : Except PyError (DataValue κ φ) :=
  match decodeUtf8 req.body.toBytes with
  | none => .error .valueError
  | some text => env.jsonLoads text

namespace OrmRuntime

variable (R : OrmRuntime κ φ)

/-- `JSONResponse(data, status, headers)` -/
def jsonResponse (data : DataValue κ φ) (status : Int) (headers : Headers) :
    Except PyError Response :=
  (R.toJson data).map fun document =>
    { body := utf8 (R.documentText document), status, headers
      contentType := "application/json; charset=utf-8".toList }

/-- The body of a request of the test client: `json.dumps(json_body).encode("utf-8")` -/
def jsonBody (data : DataValue κ φ) : Except PyError Bytes := (R.asciiDumps data).map utf8

/-- `{"event": event, "data": data}` -/
def eventData (event : Str) (data : DataValue κ φ) : DataValue κ φ :=
  .dict [(.str "event".toList, .str event), (.str "data".toList, data)]

end OrmRuntime

/-- How a call on a session ends that has to write JSON first. -/
inductive SendJsonError where
  | json (err : PyError)
  | session (err : WsExc)

/-- `WebSocketSession.send_json` -/
def WebSocketSession.sendJson (R : OrmRuntime κ φ) (event : Str) (data : DataValue κ φ)
    (s : WebSocketSession) : Except (SendJsonError × WebSocketSession) WebSocketSession :=
  match R.toJson (OrmRuntime.eventData event data) with
  | .error err => .error (.json err, s)
  | .ok document =>
    match s.sendFrame 1 (utf8 (R.documentText document)) with
    | .error e => .error (.session e.1, e.2)
    | .ok s => .ok s

/-- A record as `JSONFormatter` has it, with its time as a text. -/
structure LogRecord where
  asctime : Str
  levelname : Str
  name : Str
  message : Str
  requestId : Str
  process : Option Int
  threadName : Str
  /-- `formatException(record.exc_info)` -/
  exception : Option Str := none

namespace LogRecord

/-- The dict that `JSONFormatter.format` builds. -/
def items (record : LogRecord) : List (Str × DataValue κ φ) :=
  [("timestamp".toList, .str record.asctime), ("level".toList, .str record.levelname),
    ("logger".toList, .str record.name), ("message".toList, .str record.message),
    ("request_id".toList, .str record.requestId),
    ("process".toList, record.process.elim .none .int),
    ("thread".toList, .str record.threadName)] ++
  record.exception.toList.map fun text => ("exception".toList, .str text)

def object (record : LogRecord) : DataValue κ φ :=
  .dict (record.items.map fun e => (.str e.1, e.2))

/-- `JSONFormatter.format` -/
def format (R : OrmRuntime κ φ) (record : LogRecord) : Except PyError Str :=
  (R.toJson record.object).map R.documentText

/-- What the handler writes to its stream: each record with a line feed after it. -/
def stream (R : OrmRuntime κ φ) : List LogRecord → Except PyError Str
  | [] => .ok []
  | record :: records => do
    let line ← format R record
    let rest ← stream R records
    return line ++ '\n' :: rest

end LogRecord

section RoundTrips

variable {R : OrmRuntime κ φ} {data : DataValue κ φ}

/-- What `JSONResponse` and the test client send is what `Request.json` reads. -/
theorem json_received (R : OrmRuntime κ φ) (hR : R.ReadsFloats) (data : DataValue κ φ)
    (req : Request)
    (hbody : (∃ resp status headers, R.jsonResponse data status headers = .ok resp ∧
        req.body.toBytes = resp.body) ∨ R.jsonBody data = .ok req.body.toBytes) :
    ∃ copy, R.jsonCopy data = .ok copy ∧ req.json R.toInterpreter = .ok copy := by
  obtain ⟨resp, status, headers, hresp, hbody⟩ | hbody := hbody
  · obtain ⟨d, hd, rfl⟩ := except_map_eq_ok.1 hresp
    refine ⟨d.lastKeys, OrmRuntime.jsonCopy_eq_ok.2 ⟨d, hd, rfl⟩, ?_⟩
    rw [Request.json, hbody, decodeUtf8_utf8]
    exact OrmRuntime.jsonLoads_documentText hR hd
  · obtain ⟨text, htext, hbytes⟩ := except_map_eq_ok.1 hbody
    obtain ⟨d, hd, hloads⟩ := OrmRuntime.jsonLoads_asciiDumps hR htext
    refine ⟨d.lastKeys, OrmRuntime.jsonCopy_eq_ok.2 ⟨d, hd, rfl⟩, ?_⟩
    rw [Request.json, ← hbytes, decodeUtf8_utf8]
    exact hloads

end RoundTrips

/-- Half a star for a title that is not ASCII. -/
def starData : DataValue Unit Bool :=
  .dict [(.str "title".toList, .str "ä\"".toList), (.str "stars".toList, .float false)]

def starRequest : Request :=
  { plainRequest "POST".toList with
    body := .bytes (utf8 "\x7b\"title\": \"\\u00e4\\\"\", \"stars\": 0.5\x7d".toList) }

theorem json_received_star : ∃ copy, starRuntime.jsonCopy starData = .ok copy ∧
    starRequest.json starRuntime.toInterpreter = .ok copy :=
  json_received starRuntime starRuntime_floats starData starRequest (.inr rfl)

section Events

variable {R : OrmRuntime κ φ} {data : DataValue κ φ}

theorem toJson_eventData (event : Str) (h : R.toJson data = .ok d) :
    R.toJson (OrmRuntime.eventData event data) = .ok (OrmRuntime.eventData event d) := by
  rw [OrmRuntime.eventData, OrmRuntime.toJson, OrmRuntime.toJsonEntries_ok.2]
  · rfl
  · exact .cons ⟨⟨_, rfl, rfl⟩, rfl⟩ (.cons ⟨⟨_, rfl, rfl⟩, h⟩ .nil)

theorem toJson_of_eventData {event : Str}
    (h : R.toJson (OrmRuntime.eventData event data) = .ok document) :
    ∃ d, R.toJson data = .ok d ∧ document = OrmRuntime.eventData event d := by
  rw [OrmRuntime.eventData, OrmRuntime.toJson] at h
  obtain ⟨es, hes, rfl⟩ := except_map_eq_ok.1 h
  obtain ⟨_, rest, _, hrest, rfl⟩ :=
    List.forall₂_cons_left_iff.1 (OrmRuntime.toJsonEntries_ok.1 hes)
  obtain ⟨entry, _, hentry, _⟩ := List.forall₂_cons_left_iff.1 hrest
  have hevent := toJson_eventData event hentry.2
  rw [OrmRuntime.eventData, OrmRuntime.toJson, hes] at hevent
  exact ⟨entry.2, hentry.2, Except.ok.inj hevent⟩

theorem lastKeys_eventData (event : Str) (d : DataValue κ φ) :
    (OrmRuntime.eventData event d).lastKeys = OrmRuntime.eventData event d.lastKeys := by
  rw [OrmRuntime.eventData, DataValue.lastKeys, DataValue.lastKeysEntries_eq, dictOf_of_pairwise]
  · rfl
  · rw [OrmRuntime.pairwise_keys]
    · exact List.nodup_cons.2 ⟨by simp, List.nodup_singleton _⟩
    · exact List.forall_mem_cons.2 ⟨⟨_, rfl⟩, List.forall_mem_cons.2 ⟨⟨_, rfl⟩, by simp⟩⟩

theorem length_of_sendFrame {s s' : WebSocketSession} (h : s.sendFrame opcode payload = .ok s') :
    payload.length < 2 ^ 64 := by
  rw [WebSocketSession.sendFrame, WebSocketSession.frameHeader] at h
  by_contra hlen
  rw [if_neg (by omega), if_neg (by omega), if_neg hlen] at h
  cases h

theorem eventOpcode_lt : (1 : UInt8) < 8 := by decide

/-- A frame that is sent is put into the queue, and a client decodes it. -/
theorem sendFrame_queue {s s' : WebSocketSession} {payload : Bytes} (hop : opcode < 8)
    (hlen : payload.length < 2 ^ 64) (h : s.sendFrame opcode payload = .ok s') :
    s'.sendQueue = s.sendQueue ++
        [some (WebSocketFrame.encode (WebSocketSession.serverFrame opcode payload hop))] ∧
      WebSocketFrame.decode (WebSocketFrame.encode
        (WebSocketSession.serverFrame opcode payload hop)) =
          some (WebSocketSession.serverFrame opcode payload hop, []) := by
  constructor
  · rw [WebSocketSession.sendFrame_eq hop payload hlen] at h
    obtain ⟨_, hput⟩ := WebSocketSession.enqueueFrame_ok.1 h
    rw [WebSocketSession.putNowait] at hput
    split at hput
    · cases hput
    · cases hput
      rfl
  · have hdecode :=
      WebSocketFrame.decode_encode (WebSocketSession.serverFrame opcode payload hop) hlen []
    rwa [List.append_nil] at hdecode

/-- An event that is sent as JSON is one text frame, and a client that decodes it reads the event
and the data. -/
theorem sendJson_received (R : OrmRuntime κ φ) (hR : R.ReadsFloats) (event : Str)
    (data : DataValue κ φ) (s s' : WebSocketSession) (h : s.sendJson R event data = .ok s') :
    ∃ bytes payload text copy, s'.sendQueue = s.sendQueue ++ [some bytes] ∧
      WebSocketFrame.decode bytes = some (WebSocketSession.serverFrame 1 payload (by decide), []) ∧
      decodeUtf8 payload = some text ∧ R.jsonCopy data = .ok copy ∧
      R.jsonLoads text = .ok (OrmRuntime.eventData event copy) := by
  rw [WebSocketSession.sendJson] at h
  cases hjson : R.toJson (OrmRuntime.eventData event data) with
  | error err =>
    rw [hjson] at h
    cases h
  | ok document =>
    rw [hjson] at h
    dsimp only at h
    cases hsend : s.sendFrame 1 (utf8 (R.documentText document)) with
    | error e =>
      rw [hsend] at h
      cases h
    | ok next =>
      rw [hsend] at h
      cases h
      obtain ⟨d, hd, rfl⟩ := toJson_of_eventData hjson
      have hlen := length_of_sendFrame hsend
      have hloads := OrmRuntime.jsonLoads_documentText hR hjson
      rw [lastKeys_eventData] at hloads
      obtain ⟨hqueue, hdecode⟩ := sendFrame_queue eventOpcode_lt hlen hsend
      exact ⟨_, _, _, _, hqueue, hdecode, decodeUtf8_utf8 _,
        OrmRuntime.jsonCopy_eq_ok.2 ⟨d, hd, rfl⟩, hloads⟩

theorem sendJson_received_star : ∃ bytes payload text copy,
    [some (WebSocketFrame.encode (WebSocketSession.serverFrame 1
        (utf8 "\x7b\"event\":\"new\",\"data\":0.5\x7d".toList) (by decide)))] = [] ++ [some bytes] ∧
      WebSocketFrame.decode bytes = some (WebSocketSession.serverFrame 1 payload (by decide), []) ∧
      decodeUtf8 payload = some text ∧
      starRuntime.jsonCopy (.float false) = .ok copy ∧
      starRuntime.jsonLoads text = .ok (OrmRuntime.eventData "new".toList copy) :=
  sendJson_received starRuntime starRuntime_floats "new".toList (.float false)
    WebSocketSession.openSession { WebSocketSession.openSession with
      sendQueue := [some (WebSocketFrame.encode (WebSocketSession.serverFrame 1
        (utf8 "\x7b\"event\":\"new\",\"data\":0.5\x7d".toList) (by decide)))] } rfl

end Events

section Log

variable {R : OrmRuntime κ φ}

namespace LogRecord

theorem nodup_items (record : LogRecord) :
    ((record.items : List (Str × DataValue κ φ)).map Prod.fst).Nodup := by
  rw [items, List.map_append, List.map_map]
  cases record.exception with
  | none => exact (by decide : ["timestamp".toList, "level".toList, "logger".toList,
      "message".toList, "request_id".toList, "process".toList, "thread".toList].Nodup)
  | some => exact (by decide : ["timestamp".toList, "level".toList, "logger".toList,
      "message".toList, "request_id".toList, "process".toList, "thread".toList,
      "exception".toList].Nodup)

/-- A record that is written is one that is read back. -/
theorem storable_object {record : LogRecord} (h : R.toJson record.object = .ok d) :
    R.Storable record.object := by
  rw [object, OrmRuntime.toJson] at h
  obtain ⟨ds, hds, _⟩ := except_map_eq_ok.1 h
  have hvalue : ∀ e ∈ record.items, R.Storable e.2 := by
    intro e he
    obtain ⟨e', _, _, he'⟩ := Traverse.partner (OrmRuntime.toJsonEntries_ok.1 hds)
      (List.mem_map_of_mem he)
    have hshape : (∃ s, e.2 = .str s) ∨ e.2 = record.process.elim .none .int := by
      rw [items, List.mem_append, List.mem_map] at he
      simp only [List.mem_cons, List.not_mem_nil, or_false] at he
      obtain (rfl | rfl | rfl | rfl | rfl | rfl | rfl) | ⟨text, _, rfl⟩ := he
      · exact .inl ⟨_, rfl⟩
      · exact .inl ⟨_, rfl⟩
      · exact .inl ⟨_, rfl⟩
      · exact .inl ⟨_, rfl⟩
      · exact .inl ⟨_, rfl⟩
      · exact .inr rfl
      · exact .inl ⟨_, rfl⟩
      · exact .inl ⟨_, rfl⟩
    obtain ⟨s, hs⟩ | hs := hshape
    · rw [hs]
      exact .str
    · dsimp only at he'
      rw [hs] at he' ⊢
      cases hp : record.process with
      | none => exact .none
      | some n =>
        rw [hp, Option.elim_some, OrmRuntime.toJson, OrmRuntime.intText] at he'
        split at he'
        · next hdigits => exact .int hdigits
        · cases he'
  exact .dict (List.forall_mem_map.2 fun e _ => ⟨e.1, rfl⟩)
    (OrmRuntime.nodup_names record.nodup_items) (List.forall_mem_map.2 hvalue)

theorem format_within (hR : R.ReadsFloats) {record : LogRecord} (h : record.format R = .ok line) :
    Lines.Within '\r' '\n' line := by
  obtain ⟨d, hd, rfl⟩ := except_map_eq_ok.1 h
  have hdocument := OrmRuntime.document_toJson hd
  have hne : ∀ x ∈ R.documentText d, x ≠ '\r' ∧ x ≠ '\n' := by
    rw [hdocument.text_eq]
    refine (hdocument.plain hR).forall_mem_write (by decide) (by simp) (fun x hx => ?_)
      fun c x hx => ?_
    · constructor
      · rintro rfl
        exact absurd hx (by decide)
      · rintro rfl
        exact absurd hx (by decide)
    · obtain ⟨hcr, hlf⟩ := escapeChar_within c
      exact ⟨fun h => hcr (h ▸ hx), fun h => hlf (h ▸ hx)⟩
  exact ⟨fun h => (hne _ h).1 rfl, fun h => (hne _ h).2 rfl⟩

theorem format_loads (hR : R.ReadsFloats) {record : LogRecord} (h : record.format R = .ok line) :
    R.jsonLoads line = .ok record.object := by
  obtain ⟨d, hd, rfl⟩ := except_map_eq_ok.1 h
  have hstorable := storable_object hd
  cases hstorable.toJson.symm.trans hd
  rw [OrmRuntime.jsonLoads_documentText hR hd, hstorable.lastKeys]

/-- Each record is one line of the log, whatever texts are in it, and the line reads as the
record. -/
theorem stream_lines (R : OrmRuntime κ φ) (hR : R.ReadsFloats) (records : List LogRecord)
    (text : Str) (h : stream R records = .ok text) :
    ∃ lines, Lines.split '\r' '\n' false text = (lines, []) ∧
      List.Forall₂ (fun record line => R.jsonLoads line = .ok record.object) records lines := by
  induction records generalizing text with
  | nil =>
    cases h
    exact ⟨[], rfl, .nil⟩
  | cons record records ih =>
    rw [stream] at h
    obtain ⟨line, hline, h⟩ := except_bind_eq_ok.1 h
    obtain ⟨rest, hrest, h⟩ := except_bind_eq_ok.1 h
    cases h
    obtain ⟨lines, hsplit, hlines⟩ := ih rest hrest
    refine ⟨line :: lines, ?_, .cons (format_loads hR hline) hlines⟩
    rw [Lines.split_line (by decide) (format_within hR hline), hsplit]

/-- A message that tries to be two records. -/
def forgedRecord : LogRecord where
  asctime := "2024-01-01T00:00:00+0000".toList
  levelname := "INFO".toList
  name := "sovereign.server".toList
  message := "GET /\"\x7d\n\x7b\"level\":\"ERROR\"".toList
  requestId := "-".toList
  process := some 7
  threadName := "MainThread".toList

theorem stream_lines_forged : ∃ lines,
    Lines.split '\r' '\n' false (starRuntime.documentText forgedRecord.object ++ ['\n']) =
      (lines, []) ∧
    List.Forall₂ (fun record line => starRuntime.jsonLoads line = .ok record.object)
      [forgedRecord] lines :=
  stream_lines starRuntime starRuntime_floats [forgedRecord] _ rfl

end LogRecord

end Log

end Sovereign
