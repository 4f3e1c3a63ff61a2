import Sovereign.ChunkedGrammar
import Sovereign.Message

namespace Sovereign
open Buffered Chunked
set_option autoImplicit true

namespace Payload

/-- Every line of a chunked payload fits. -/
def LinesFit (limit : Nat) : Payload → Prop
  | chunked chunks zeros _ => (∀ c ∈ chunks, c.size.length ≤ limit) ∧ zeros.length ≤ limit
  | _ => True

/-- A chunked payload is in the grammar, without trailer fields. -/
theorem encode_chunks {zeros : Str} (hz : Numeral.parse 16 zeros = some 0)
    (hfit : zeros.length ≤ limit) {chunks : List Chunk} (hc : ∀ c ∈ chunks, c.size.length ≤ limit)
    (u : Bytes) :
    Chunks (·.length ≤ limit) (fun v rest => v = lineEnd ++ rest)
      (chunks.flatMap encodeChunk ++ (latin1 zeros ++ crlf ++ crlf) ++ u)
      (chunks.flatMap Chunk.data) u := by
  induction chunks with
  | nil =>
    have hlast : Chunks (·.length ≤ limit) (fun v rest => v = lineEnd ++ rest)
        (latin1 zeros ++ lineEnd ++ (lineEnd ++ u)) [] u :=
      .last (sizeLine_digits hz) (by rw [latin1_length]; exact hfit) rfl
    rw [List.append_assoc] at hlast ⊢
    simpa [crlf, lineEnd] using hlast
  | cons c chunks ih =>
    have hrest := ih fun d hd => hc d (List.mem_cons_of_mem _ hd)
    have hpos : 0 < c.data.length := List.length_pos_iff.2 c.nonempty
    have hchunk := Chunks.chunk (sizeLine_digits c.spelled)
      (by rw [latin1_length]; exact hc c List.mem_cons_self) hpos rfl hrest
    simpa [encodeChunk, crlf, lineEnd] using hchunk

end Payload

/-- What a front end promises for the parts of a message: header blocks and bodies of known length
are read from where they stand, and chunked bodies are decoded. -/
structure FrontEnd.Reads (fe : FrontEnd (Source UInt8 cap ω)) (cfg : ServerConfig)
    (keep : Bytes → Body) (limit : Nat) (m : Message) : Prop where
  headers : ∀ {r u}, r.unread = latin1 m.head ++ u →
    fe.readHeaders cfg r = .ok (latin1 m.head, r.advance (latin1 m.head).length)
  exact : ∀ {r data u}, r.unread = data ++ u → data.length ≤ cfg.maxBodyBytes →
    fe.readExactBody cfg data.length r = .ok (keep data, r.advance data.length)
  chunked : ∀ {r content u},
    Chunks (·.length ≤ limit) (fun v rest => v = lineEnd ++ rest) r.unread content u →
    content.length ≤ cfg.maxBodyBytes →
    ∃ r', fe.readChunkedBody cfg r = .ok (keep content, content.length, r') ∧ r'.unread = u
  empty : keep [] = .bytes []

/-- Not framed by chunks. -/
def Payload.Plain : Payload → Prop
  | chunked _ _ _ => False
  | _ => True

namespace Message

theorem breakOn_latin1 (m : Message) (u : Bytes) :
    Marker.breakOn headEnd (latin1 m.head ++ u) =
      some (latin1 (Marker.joinPair '\r' '\n' m.lines), u) :=
  breakOn_blockText m.lines_clean (List.cons_ne_nil _ _) u

theorem head_length (m : Message) :
    (Marker.joinPair '\r' '\n' m.lines).length + 4 = m.head.length := by
  rw [head, blockText, List.length_append]
  rfl

theorem isDigit_of_parse (h : Numeral.parse 10 s = some n) : isDigit s = true := by
  have hne := Numeral.ne_nil_of_parse h
  simp only [isDigit, Bool.and_eq_true, Bool.not_eq_true', List.isEmpty_eq_false_iff,
    List.all_eq_true]
  refine ⟨hne, fun c hc => decide_eq_true (.inl ?_)⟩
  obtain ⟨d, hd, hv⟩ := Numeral.digit_of_parse h c hc
  exact (Numeral.toNat_of_digitVal hv).2 hd

theorem make_message [Urllib] (m : Message) (remoteAddr : Str) (body : Body) :
    Request.make (upper m.method) m.target "HTTP/1.1".toList m.headers m.rawPairs body
      m.payload.content.length remoteAddr = .ok (m.request remoteAddr body) := by
  obtain ⟨⟨path, query⟩, hs⟩ := Option.isSome_iff_exists.1 (urlsplit_isSome m.target_origin.2)
  simp only [Request.make, request, hs, Option.getD_some]

variable {cap : Nat} {ω : Type} {fe : FrontEnd (Source UInt8 cap ω)} {cfg : ServerConfig}

theorem readBody_message {m : Message} {r : Source UInt8 cap ω}
    (law : fe.Reads cfg keep limit m) (h : m.WithinLimits cfg) (hf : m.payload.LinesFit limit)
    (hu : r.unread = m.payload.encode ++ u) :
    ∃ r', fe.readBody cfg m.headers r =
        .ok (keep m.payload.content, m.payload.content.length, r') ∧ r'.unread = u ∧
      (m.payload.Plain → r' = r.advance m.payload.encode.length) := by
  have ha := m.announced
  have hdigits := h.digits
  have hmax := h.body
  cases hp : m.payload with
  | none =>
    rw [hp] at ha hu
    have hl : m.headers.get? "content-length".toList = none := get?_mergeFields_none ha.1 ∅
    have ht : m.headers.get? "transfer-encoding".toList = none := get?_mergeFields_none ha.2 ∅
    refine ⟨r, ?_, by simpa [Payload.encode] using hu, fun _ => r.advance_zero.symm⟩
    rw [FrontEnd.readBody_unchunked (fun _ hc => by rw [ht] at hc; cases hc) hl]
    simp [Payload.content, law.empty]
  | length content =>
    rw [hp] at ha hu hmax
    obtain ⟨ht, cl, hl, hnum⟩ := ha
    have ht' : m.headers.get? "transfer-encoding".toList = none := get?_mergeFields_none ht ∅
    have hl' : m.headers.get? "content-length".toList = some cl := get?_mergeFields_one hl rfl
    have hlen : cl.length ≤ maxStrDigits := hdigits cl (hl ▸ List.mem_singleton_self cl)
    have hparse : parseInt cl = some content.length := by rw [parseInt, if_pos hlen, hnum]
    refine ⟨r.advance content.length, ?_, Source.advance_of_append hu, fun _ => rfl⟩
    rw [FrontEnd.readBody_length ht' hl', if_neg (by simp [isDigit_of_parse hnum]), hparse]
    cases hn : content.length with
    | zero =>
      obtain rfl := List.length_eq_zero_iff.1 hn
      simp [Payload.content, law.empty]
    | succ n =>
      have hread : fe.readExactBody cfg content.length r =
        .ok (keep content, r.advance content.length) := law.exact hu hmax
      rw [hn] at hread
      simp only [hread, Except.map, Payload.content, hn]
  | chunked chunks zeros hz =>
    rw [hp] at ha hu hmax hf
    obtain ⟨-, coding, ht, hname⟩ := ha
    have ht' : m.headers.get? "transfer-encoding".toList = some coding :=
      get?_mergeFields_one ht rfl
    obtain ⟨r', hr, hu'⟩ := law.chunked (hu ▸ Payload.encode_chunks hz hf.2 hf.1 u) hmax
    exact ⟨r', by rw [FrontEnd.readBody_chunked ht' hname, hr], hu', False.elim⟩

/-- A message at the front of the stream is parsed as the request it stands for, and nothing
after it is consumed. -/
theorem parse_message [Urllib] {m : Message} {r : Source UInt8 cap ω}
    (law : fe.Reads cfg keep limit m) (h : m.WithinLimits cfg) (hf : m.payload.LinesFit limit)
    (hu : r.unread = m.encode ++ u) (remoteAddr : Str) :
    ∃ r', fe.parse cfg remoteAddr r =
        .ok (m.request remoteAddr (keep m.payload.content), r') ∧ r'.unread = u ∧
      (m.payload.Plain → r' = r.advance m.encode.length) := by
  rw [encode, List.append_assoc] at hu
  obtain ⟨r', hb, hu', hadv⟩ := readBody_message law h hf (Source.advance_of_append hu)
  have hmake := m.make_message remoteAddr (keep m.payload.content)
  refine ⟨r', ?_, hu', fun hp => ?_⟩
  · rw [FrontEnd.parse_of_head (law.headers hu) (m.parseHeaderBlock_message h)]
    simp only [toHead, hb, bind, Except.bind, hmake]
    rfl
  · rw [hadv hp, Source.advance_advance, encode, List.length_append]

end Message

/-- Parse so many requests, one after the other. -/
def parseSeq (parse : R → Read (Request × R)) : Nat → R → Read (List Request × R)
  | 0, r => .ok ([], r)
  | n + 1, r => do
    let (req, r) ← parse r
    let (reqs, r) ← parseSeq parse n r
    return (req :: reqs, r)

theorem parseSeq_messages [Urllib] {cap : Nat} {ω : Type} (fe : FrontEnd (Source UInt8 cap ω))
    (keep : Bytes → Body) (limit : Nat) {cfg : ServerConfig} (remoteAddr : Str)
    {msgs : List Message}
    (h : ∀ m ∈ msgs, fe.Reads cfg keep limit m ∧ m.WithinLimits cfg ∧ m.payload.LinesFit limit)
    {r : Source UInt8 cap ω} (hu : r.unread = msgs.flatMap Message.encode ++ u) :
    ∃ r', parseSeq (fe.parse cfg remoteAddr) msgs.length r =
        .ok (msgs.map fun m => m.request remoteAddr (keep m.payload.content), r') ∧
      r'.unread = u := by
  induction msgs generalizing r with
  | nil => exact ⟨r, rfl, hu⟩
  | cons m msgs ih =>
    obtain ⟨law, hl, hf⟩ := h m List.mem_cons_self
    rw [List.flatMap_cons, List.append_assoc] at hu
    obtain ⟨r₁, hr₁, hu₁, -⟩ := Message.parse_message law hl hf hu remoteAddr
    obtain ⟨r', hr', hu'⟩ := ih (fun m hm => h m (List.mem_cons_of_mem _ hm)) hu₁
    refine ⟨r', ?_, hu'⟩
    simp only [List.length_cons, parseSeq, hr₁, bind, Except.bind, hr', List.map_cons]
    rfl

/-- The limits of the asynchronous server: those of its configuration and those of its stream. -/
structure Message.FitsStream (cfg : ServerConfig) (m : Message) : Prop extends
    m.WithinLimits cfg where
  stream : m.head.length ≤ streamLimit + 4
  lines : m.payload.LinesFit StreamReader.lineLimit

/-- A chunked body that fits is read to its end. -/
theorem StreamReader.readChunkedBody_chunks {r : StreamReader cap}
    (hc : Chunks (·.length ≤ lineLimit) (fun v rest => v = lineEnd ++ rest) r.unread content u)
    (hm : content.length ≤ cfg.maxBodyBytes) :
    ∃ r', r.readChunkedBody cfg = .ok (.bytes content, content.length, r') ∧ r'.unread = u := by
  obtain ⟨r', hrun, hu⟩ := run_of_plain (lawful cap) hc hm
  refine ⟨r', ?_, hu⟩
  simp only [readChunkedBody, hrun, bind, Except.bind]
  rfl

theorem StreamReader.reads {m : Message} (h : m.FitsStream cfg) :
    (frontEnd cap).Reads cfg Body.bytes lineLimit m where
  headers {r u} hu := by
    have hl := m.head_length
    have hs := h.stream
    have hc := h.head
    have hb := m.breakOn_latin1 u
    rw [← hu] at hb
    have hr : readuntil headEnd r = .ok (latin1 m.head, r.advance (latin1 m.head).length) := by
      rw [readuntil_eq (by decide), hb]
      simp only [latin1_length]
      rw [if_pos (by omega), show headEnd.length = 4 from rfl, hl, Message.head,
        blockText, latin1_append]
      rfl
    simp only [frontEnd, readHeaders, hr]
    rw [if_neg (by rw [latin1_length]; omega)]
  exact {r data u} hu hm := by
    have hr : readExact data.length r = .ok (data, r.advance data.length) :=
      congrArg (Except.mapError exactError) (Source.takeExact_of_append hu)
    simp only [frontEnd, readExactBody, hr, Except.map]
    rw [if_neg (by omega)]
  chunked {r content u} hc hm := readChunkedBody_chunks hc hm
  empty := rfl

/-- A body that the threaded server keeps in memory, or spools. -/
def keepBody (cfg : ServerConfig) (content : Bytes) : Body :=
  if content.length ≤ cfg.maxMemoryBody then .bytes content else .spool content

theorem SocketReader.readChunkedBody_chunks {r : SocketReader}
    (hc : Chunks (·.length ≤ lineLimit) (fun v rest => v = lineEnd ++ rest) r.unread content u)
    (hm : content.length ≤ cfg.maxBodyBytes) :
    ∃ r', r.readChunkedBody cfg = .ok (keepBody cfg content, content.length, r') ∧
      r'.unread = u := by
  obtain ⟨r', hrun, hu⟩ := run_of_plain lawful hc hm
  refine ⟨r', ?_, hu⟩
  have hsize : (content.length : Int) ≤ cfg.maxMemoryBody ↔
      content.length ≤ cfg.maxMemoryBody := Int.ofNat_le
  simp only [readChunkedBody, hrun, bind, Except.bind, keepBody, hsize]
  rfl

theorem SocketReader.reads {m : Message} (h : m.WithinLimits cfg) :
    frontEnd.Reads cfg (keepBody cfg) lineLimit m where
  headers {r u} hu := by
    have hl := m.head_length
    have hc := h.head
    have hb := m.breakOn_latin1 u
    rw [← hu] at hb
    have hlen : headEnd.length = 4 := rfl
    have hr : readUntil headEnd (cfg.maxHeaderBytes + 4) r = _ :=
      readUntil_found hb (by rw [latin1_length, hlen]; omega)
    simp only [frontEnd, readHeaders, hr, latin1_length, hlen, hl]
    rw [Message.head, blockText, latin1_append]
    rfl
  exact {r data u} hu hm := by
    have htake : r.unread.take data.length = data := by rw [hu, List.take_left]
    have hle : data.length ≤ r.unread.length := by simp [hu]
    simp only [frontEnd, readExactBody_eq, htake, hle, ↓reduceIte]
    rw [if_neg (by omega)]
    rfl
  chunked {r content u} hc hm := readChunkedBody_chunks hc hm
  empty := rfl

/-- However the bytes of a list of requests are delivered, parsing as often returns exactly those
requests and leaves the stream at its end. -/
theorem parseAsyncRequest_messages [Urllib] (cfg : ServerConfig) (remoteAddr : Str)
    (msgs : List Message) (hm : ∀ m ∈ msgs, m.FitsStream cfg) (segs : List (Segment UInt8 cap))
    (hs : segs.flatMap Segment.items = msgs.flatMap Message.encode) :
    ∃ r', parseSeq (parseAsyncRequest cfg remoteAddr) msgs.length (.ofSegments segs) =
        .ok (msgs.map fun m => m.request remoteAddr (.bytes m.payload.content), r') ∧
      r'.unread = [] := by
  refine parseSeq_messages (StreamReader.frontEnd cap) .bytes StreamReader.lineLimit remoteAddr
    (fun m h => ⟨StreamReader.reads (hm m h), (hm m h).toWithinLimits, (hm m h).lines⟩) ?_
  rw [Source.ofSegments_unread, hs, List.append_nil]

theorem plainGet_fitsStream : plainGet.FitsStream {} where
  requestLine := by decide
  count := by decide
  names := by decide
  values := by decide
  head := by decide
  digits := by decide
  body := by decide
  stream := by decide
  lines := trivial

theorem chunkedPost_fitsStream : chunkedPost.FitsStream {} where
  requestLine := by decide
  count := by decide
  names := by decide
  values := by decide
  head := by decide
  digits := by decide
  body := by decide
  stream := by decide
  lines := ⟨by decide, by decide⟩

/-- Two requests, the second chunked, cut inside the first header block and inside the chunk. -/
theorem parseAsyncRequest_messages_two :
    ∃ r', parseSeq (@parseAsyncRequest 4096 ⟨fun _ => true⟩ {} []) 2 (.ofSegments
        [⟨ascii "GET / HTT", by decide, by decide⟩,
          ⟨ascii "P/1.1\r\nHost: h\r\n\r\nPOST / HTTP/1.1\r\nHost: h\r\nTransfer-Encoding: chunked\r\n\r\n5\r\nhe",
            by decide, by decide⟩,
          ⟨ascii "llo\r\n0\r\n\r\n", by decide, by decide⟩]) =
        .ok ([@Message.request ⟨fun _ => true⟩ plainGet [] (.bytes []),
          @Message.request ⟨fun _ => true⟩ chunkedPost [] (.bytes (ascii "hello"))], r') ∧
      r'.unread = [] := by
  have hm : ∀ m ∈ [plainGet, chunkedPost], m.FitsStream {} := by
    intro m h
    simp only [List.mem_cons, List.not_mem_nil, or_false] at h
    rcases h with rfl | rfl
    · exact plainGet_fitsStream
    · exact chunkedPost_fitsStream
  exact @parseAsyncRequest_messages 4096 ⟨fun _ => true⟩ {} [] [plainGet, chunkedPost] hm _
    (by decide)

end Sovereign
