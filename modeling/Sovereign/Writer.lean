import Sovereign.Latin1
import Sovereign.Request
import Sovereign.Response

namespace Sovereign
set_option autoImplicit true

/-- What is sent on a connection: header blocks, and content. -/
inductive Sent where
  | head (block : Bytes)
  | content (data : Bytes)
deriving DecidableEq

def Sent.bytes : Sent → Bytes
  | head block => block
  | content data => data

/-- The bytes of several writes. -/
def sentBytes (sent : List Sent) : Bytes := sent.flatMap Sent.bytes

/-- How many header blocks, each with its status line, are among the writes. -/
def headCount (sent : List Sent) : Nat :=
  sent.countP fun
    | .head _ => true
    | .content _ => false

/-- `security_headers` -/
def securityHeaders : List (Str × Str) :=
  [("X-Content-Type-Options".toList, "nosniff".toList),
    ("X-Frame-Options".toList, "DENY".toList),
    ("Referrer-Policy".toList, "no-referrer".toList),
    ("Content-Security-Policy".toList,
      "default-src 'self'; base-uri 'none'; frame-ancestors 'none'".toList)]

/-- The mapping `merged` of `send_headers`; `date` is what `now_http_date` returns. -/
def mergedHeaders (cfg : ServerConfig) (date : Str) (status : Int) (headers : Headers)
    (keepAlive : Bool) : Headers :=
  let merged := (∅ : Headers).update [("Date".toList, date), ("Server".toList, cfg.serverName),
    ("Connection".toList, if keepAlive then "keep-alive".toList else "close".toList)]
  let merged := if status ≠ 101 then merged.update securityHeaders else merged
  merged.update headers.entries

def hasLineBreak (s : Str) : Bool := s.any fun c => c = '\r' || c = '\n'

def headerLine (entry : Str × Str) : Str := entry.1 ++ ": ".toList ++ entry.2

def reasonPhrase (status : Int) : Str := ((statusReasons status).getD "OK").toList

def statusLine (status : Int) : Str :=
  "HTTP/1.1 ".toList ++ decimal status ++ ' ' :: reasonPhrase status

/-- The text of a header block. -/
def headerText (status : Int) (merged : Headers) : Str :=
  statusLine status ++ "\r\n".toList ++
    merged.entries.flatMap (fun entry => headerLine entry ++ "\r\n".toList) ++ "\r\n".toList

/-- `send_headers` and `send_headers_async`: the block to send, unless a name or a value has a line
break in it or the text is not Latin-1. -/
def sendHeaders (cfg : ServerConfig) (date : Str) (status : Int) (headers : Headers)
    (keepAlive : Bool) : Except Exc Bytes :=
  let merged := mergedHeaders cfg date status headers keepAlive
  if merged.entries.any (fun entry => hasLineBreak entry.1 || hasLineBreak entry.2) then
    .error (.httpError 500 "Invalid characters in response headers")
  else
    match encodeLatin1 (headerText status merged) with
    | some block => .ok block
    | none => .error (.builtin .unicodeEncodeError)

/-- `f"{len(chunk):X}\r\n".encode("ascii") + chunk + b"\r\n"` -/
def encodeStreamChunk (data : Bytes) : Bytes :=
  latin1 (hexUpper data.length) ++ crlf ++ (data ++ crlf)

/-- The loop over the chunks of a stream; empty chunks are passed over. -/
def sendChunks (chunks : List StreamChunk) : List Sent :=
  (chunks.map StreamChunk.encode).filterMap fun data =>
    if data = [] then none else some (.content (encodeStreamChunk data))

/-- The common text of `write_response` and `write_response_async`: what is written, and how the
writing ends. They differ in when the content of a response is sent. -/
def writeWith (sendsContent : Bool) (req : Request) (cfg : ServerConfig) (date : Str)
    (result : HandlerResult) (keepAlive : Bool) : List Sent × Except Exc Unit :=
  let own := result.headers.setDefault "X-Request-Id".toList req.requestId
  match result with
  | .stream resp =>
    let headers := (∅ : Headers).update
      (("Content-Type".toList, resp.contentType) ::
        ("Transfer-Encoding".toList, "chunked".toList) :: own.entries)
    match sendHeaders cfg date resp.status headers keepAlive with
    | .error e => ([], .error e)
    | .ok block =>
      match resp.failure with
      | some e => (.head block :: sendChunks resp.chunks, .error e)
      | none => (.head block :: (sendChunks resp.chunks ++ [.content (ascii "0\r\n\r\n")]), .ok ())
  | .response resp =>
    let headers := (∅ : Headers).update
      (("Content-Type".toList, resp.contentType) ::
        ("Content-Length".toList, decimal resp.body.length) :: own.entries)
    match sendHeaders cfg date resp.status headers keepAlive with
    | .error e => ([], .error e)
    | .ok block =>
      if resp.body ≠ [] ∧ sendsContent = true then ([.head block, .content resp.body], .ok ())
      else ([.head block], .ok ())

/-- `write_response` -/
def writeResponse (req : Request) (cfg : ServerConfig) (date : Str) (result : HandlerResult)
    (keepAlive : Bool) : List Sent × Except Exc Unit :=
  writeWith (decide (req.method ≠ "HEAD".toList)) req cfg date result keepAlive

/-- `write_response_async`, which does not look at the method. -/
def writeResponseAsync (req : Request) (cfg : ServerConfig) (date : Str) (result : HandlerResult)
    (keepAlive : Bool) : List Sent × Except Exc Unit :=
  writeWith true req cfg date result keepAlive

theorem joinPair_lines (a b : Char) (line : Str) (lines : List Str) :
    Marker.joinPair a b (line :: lines) ++ [a, b] =
      line ++ [a, b] ++ lines.flatMap fun l => l ++ [a, b] := by
  induction lines generalizing line with
  | nil => simp [Marker.joinPair]
  | cons l lines ih =>
    have hj : Marker.joinPair a b (line :: l :: lines) =
        line ++ a :: b :: Marker.joinPair a b (l :: lines) := rfl
    rw [hj, List.append_assoc, List.cons_append, List.cons_append, ih]
    simp

theorem headerText_eq (status : Int) (merged : Headers) :
    headerText status merged = blockText (statusLine status :: merged.entries.map headerLine) := by
  have hj := joinPair_lines '\r' '\n' (statusLine status) (merged.entries.map headerLine)
  rw [List.flatMap_map] at hj
  rw [headerText, blockText, show "\r\n\r\n".toList = ['\r', '\n'] ++ "\r\n".toList from rfl,
    ← List.append_assoc, hj]
  rfl

theorem clean_digits (n : Nat) : Clean (Nat.toDigits 10 n) := by
  intro c hc
  have hd := Nat.isDigit_of_mem_toDigits (by decide) (by decide) hc
  simp only [Char.isDigit, Bool.and_eq_true, decide_eq_true_eq] at hd
  have h₁ : 48 ≤ c.toNat := hd.1
  have h₂ : c.toNat ≤ 57 := hd.2
  refine ⟨by omega, ?_, ?_⟩ <;> rintro rfl <;> revert h₁ <;> decide

theorem clean_decimal (n : Int) : Clean (decimal n) := by
  cases n with
  | ofNat n => exact clean_digits n
  | negSucc n => exact clean_append (s := ['-']) (by decide) (clean_digits _)

theorem clean_statusLine (status : Int) : Clean (statusLine status) := by
  have hr : Clean (' ' :: reasonPhrase status) := by
    unfold reasonPhrase statusReasons
    split <;> decide
  exact clean_append (clean_append (by decide) (clean_decimal status)) hr

/-- Names and values that can be sent. -/
def CleanHeaders (headers : Headers) : Prop := ∀ e ∈ headers.entries, Clean e.1 ∧ Clean e.2

theorem hasLineBreak_eq_false {s : Str} :
    hasLineBreak s = false ↔ ∀ c ∈ s, c ≠ '\r' ∧ c ≠ '\n' := by
  simp [hasLineBreak]

theorem headerLine_clean {e : Str × Str} (h : Clean e.1 ∧ Clean e.2) : Clean (headerLine e) :=
  clean_append (clean_append h.1 (by decide)) h.2

/-- The lines of a block that can be sent. -/
theorem block_clean (status : Int) {merged : Headers} (h : CleanHeaders merged) :
    ∀ line ∈ statusLine status :: merged.entries.map headerLine, Clean line ∧ line ≠ [] := by
  intro line hl
  rcases List.mem_cons.1 hl with rfl | hl
  · exact ⟨clean_statusLine status, List.append_ne_nil_of_right_ne_nil _ (List.cons_ne_nil _ _)⟩
  · obtain ⟨e, he, rfl⟩ := List.mem_map.1 hl
    exact ⟨headerLine_clean (h e he), by simp [headerLine]⟩

theorem sendHeaders_clean {cfg : ServerConfig} {headers : Headers}
    (h : CleanHeaders (mergedHeaders cfg date status headers keepAlive)) :
    sendHeaders cfg date status headers keepAlive =
      .ok (latin1 (headerText status (mergedHeaders cfg date status headers keepAlive))) := by
  have hbreak : (mergedHeaders cfg date status headers keepAlive).entries.any
      (fun e => hasLineBreak e.1 || hasLineBreak e.2) = false := by
    simp only [List.any_eq_false, Bool.or_eq_true, not_or, Bool.not_eq_true, hasLineBreak_eq_false]
    exact fun e he => ⟨fun c hc => ((h e he).1 c hc).2, fun c hc => ((h e he).2 c hc).2⟩
  have hlatin := blockText_latin fun line hl c hc => ((block_clean status h line hl).1 c hc).1
  rw [← headerText_eq] at hlatin
  simp only [sendHeaders, hbreak, encodeLatin1_eq, if_pos hlatin, Bool.false_eq_true, ↓reduceIte]

/-- A header block is sent exactly where every name and value in it is clean. -/
theorem sendHeaders_ok {cfg : ServerConfig} {headers : Headers} :
    sendHeaders cfg date status headers keepAlive = .ok block ↔
      CleanHeaders (mergedHeaders cfg date status headers keepAlive) ∧
        block = latin1 (headerText status (mergedHeaders cfg date status headers keepAlive)) := by
  constructor
  · intro h
    have hc : CleanHeaders (mergedHeaders cfg date status headers keepAlive) := by
      simp only [sendHeaders] at h
      split at h
      · cases h
      · next hb =>
        have hbreak := List.any_eq_false.1 (Bool.not_eq_true _ ▸ hb)
        split at h
        · next b he =>
          rw [encodeLatin1_eq] at he
          split at he
          · next hl =>
            intro e hm
            have hno := hbreak e hm
            simp only [Bool.or_eq_true, not_or, Bool.not_eq_true, hasLineBreak_eq_false] at hno
            have hin : ∀ c ∈ headerLine e, c.toNat < 256 := fun c hc => by
              refine hl c ?_
              simp only [headerText, List.mem_append, List.mem_flatMap]
              exact .inl (.inr ⟨e, hm, .inl hc⟩)
            exact ⟨fun c hc => ⟨hin c (by simp [headerLine, hc]), hno.1 c hc⟩,
              fun c hc => ⟨hin c (by simp [headerLine, hc]), hno.2 c hc⟩⟩
          · cases he
        · cases h
    refine ⟨hc, ?_⟩
    rw [sendHeaders_clean hc] at h
    cases h
    rfl
  · rintro ⟨hc, rfl⟩
    exact sendHeaders_clean hc

/-- The mapping of the handler, with the request id. -/
def ownHeaders (req : Request) (result : HandlerResult) : Headers :=
  result.headers.setDefault "X-Request-Id".toList req.requestId

/-- The entry that `write_response` puts before those of the handler to frame the content. -/
def framingEntry : HandlerResult → Str × Str
  | .response resp => ("Content-Length".toList, decimal resp.body.length)
  | .stream _ => ("Transfer-Encoding".toList, "chunked".toList)

def contentType : HandlerResult → Str
  | .response resp => resp.contentType
  | .stream resp => resp.contentType

/-- The header mapping that `write_response` gives to `send_headers`. -/
def responseHeaders (req : Request) (result : HandlerResult) : Headers :=
  (∅ : Headers).update (("Content-Type".toList, contentType result) :: framingEntry result ::
    (ownHeaders req result).entries)

/-- The mapping that `send_headers` sends for a response. -/
def sentHeaders (cfg : ServerConfig) (date : Str) (req : Request) (result : HandlerResult)
    (keepAlive : Bool) : Headers :=
  mergedHeaders cfg date result.status (responseHeaders req result) keepAlive

theorem writeWith_response {sendsContent : Bool} {resp : Response} :
    writeWith sendsContent req cfg date (.response resp) keepAlive =
      match sendHeaders cfg date resp.status (responseHeaders req (.response resp)) keepAlive with
      | .error e => ([], .error e)
      | .ok block =>
        if resp.body ≠ [] ∧ sendsContent = true then ([.head block, .content resp.body], .ok ())
        else ([.head block], .ok ()) := rfl

theorem writeWith_stream {sendsContent : Bool} {resp : StreamResponse} :
    writeWith sendsContent req cfg date (.stream resp) keepAlive =
      match sendHeaders cfg date resp.status (responseHeaders req (.stream resp)) keepAlive with
      | .error e => ([], .error e)
      | .ok block =>
        match resp.failure with
        | some e => (.head block :: sendChunks resp.chunks, .error e)
        | none => (.head block :: (sendChunks resp.chunks ++
          [.content (ascii "0\r\n\r\n")]), .ok ()) := rfl

/-- What the writing of a result whose header block has been sent ends with. -/
def HandlerResult.failure : HandlerResult → Option Exc
  | response _ => none
  | stream resp => resp.failure

/-- What `send_headers` raises for a block that it does not send. -/
def headerFault (merged : Headers) : Exc :=
  if merged.entries.any (fun entry => hasLineBreak entry.1 || hasLineBreak entry.2) then
    .httpError 500 "Invalid characters in response headers"
  else .builtin .unicodeEncodeError

theorem sendHeaders_unclean {cfg : ServerConfig} {headers : Headers}
    (h : ¬ CleanHeaders (mergedHeaders cfg date status headers keepAlive)) :
    sendHeaders cfg date status headers keepAlive =
      .error (headerFault (mergedHeaders cfg date status headers keepAlive)) := by
  cases hs : sendHeaders cfg date status headers keepAlive with
  | ok block => exact absurd (sendHeaders_ok.1 hs).1 h
  | error e =>
    simp only [sendHeaders] at hs
    split at hs
    · next hb =>
      rw [headerFault, if_pos hb]
      exact hs.symm
    · next hb =>
      rw [headerFault, if_neg hb]
      split at hs
      · cases hs
      · exact hs.symm

@[simp] theorem headCount_head (block : Bytes) (sent : List Sent) :
    headCount (.head block :: sent) = headCount sent + 1 := List.countP_cons_of_pos rfl

@[simp] theorem headCount_content (data : Bytes) (sent : List Sent) :
    headCount (.content data :: sent) = headCount sent :=
  List.countP_cons_of_neg Bool.false_ne_true

@[simp] theorem headCount_append (sent sent' : List Sent) :
    headCount (sent ++ sent') = headCount sent + headCount sent' := List.countP_append

theorem headCount_frames (frames : List Bytes) : headCount (frames.map .content) = 0 := by
  induction frames with
  | nil => rfl
  | cons data frames ih => rw [List.map_cons, headCount_content, ih]

theorem headCount_sendChunks (chunks : List StreamChunk) : headCount (sendChunks chunks) = 0 := by
  induction chunks with
  | nil => rfl
  | cons chunk chunks ih =>
    rw [sendChunks] at ih ⊢
    rw [List.map_cons, List.filterMap_cons]
    split
    · exact ih
    · next hc =>
      split at hc
      · cases hc
      · cases hc
        rw [headCount_content, ih]

/-- A result whose header block can be sent is started once, however the writing ends. -/
theorem writeWith_started (sendsContent : Bool) {result : HandlerResult}
    (hc : CleanHeaders (sentHeaders cfg date req result keepAlive)) :
    ∃ sent, headCount sent = 1 ∧ writeWith sendsContent req cfg date result keepAlive =
      (sent, match result.failure with
        | none => .ok ()
        | some e => .error e) := by
  cases result with
  | response resp =>
    have hs : sendHeaders cfg date resp.status (responseHeaders req (.response resp)) keepAlive =
      _ := sendHeaders_clean hc
    rw [writeWith_response, hs]
    dsimp only
    split
    · exact ⟨_, rfl, rfl⟩
    · exact ⟨_, rfl, rfl⟩
  | stream resp =>
    have hs : sendHeaders cfg date resp.status (responseHeaders req (.stream resp)) keepAlive =
      _ := sendHeaders_clean hc
    rw [writeWith_stream, hs]
    simp only [HandlerResult.failure]
    cases resp.failure with
    | some e => exact ⟨_, by rw [headCount_head, headCount_sendChunks], rfl⟩
    | none =>
      refine ⟨_, ?_, rfl⟩
      rw [headCount_head, headCount_append, headCount_sendChunks]
      rfl

theorem writeWith_unclean {sendsContent : Bool} {result : HandlerResult}
    (h : ¬ CleanHeaders (sentHeaders cfg date req result keepAlive)) :
    writeWith sendsContent req cfg date result keepAlive =
      ([], .error (headerFault (sentHeaders cfg date req result keepAlive))) := by
  cases result with
  | response resp =>
    have hs : sendHeaders cfg date resp.status (responseHeaders req (.response resp)) keepAlive =
      _ := sendHeaders_unclean h
    rw [writeWith_response, hs]
    rfl
  | stream resp =>
    have hs : sendHeaders cfg date resp.status (responseHeaders req (.stream resp)) keepAlive =
      _ := sendHeaders_unclean h
    rw [writeWith_stream, hs]
    rfl

/-- What `now_http_date` returns at the start of the epoch. -/
def epoch : Str := "Thu, 01 Jan 1970 00:00:00 GMT".toList

end Sovereign
