import Sovereign.KeepAlive
import Sovereign.ResponseFraming

namespace Sovereign
open Buffered
set_option autoImplicit true

/-- `sys.maxsize`: no object is longer than that. -/
def maxSize : Nat := 9223372036854775807

theorem length_hexUpper (h : n ≤ maxSize) : (latin1 (hexUpper n)).length ≤ 16 := by
  rw [latin1_length, hexUpper, List.length_map,
    Nat.length_toDigits_le_iff (by decide) (by decide)]
  have hm : maxSize < 16 ^ 16 := by decide
  omega

/-- A stream that can be sent is its header block and then its chunks, the last one empty. -/
theorem writeWith_chunks {resp : StreamResponse} {sendsContent : Bool}
    (h : writeWith sendsContent req cfg date (.stream resp) keepAlive =
      (.head block :: sent, .ok ())) :
    sent = sendChunks resp.chunks ++ [.content (ascii "0\r\n\r\n")] := by
  rw [writeWith_stream] at h
  split at h
  · cases h
  · split at h
    · cases h
    · cases h
      rfl

theorem sentBytes_append (sent sent' : List Sent) :
    sentBytes (sent ++ sent') = sentBytes sent ++ sentBytes sent' := List.flatMap_append

/-- What a writer sends after the header block is a chunked body without trailer fields, whose lines
fit wherever sixteen digits do. -/
theorem chunks_sent {resp : StreamResponse} {sendsContent : Bool} {limit : Nat}
    (h : writeWith sendsContent req cfg date (.stream resp) keepAlive =
      (.head block :: sent, .ok ()))
    (hsize : ∀ c ∈ resp.chunks, c.encode.length ≤ maxSize) (hlimit : 16 ≤ limit) (rest : Bytes) :
    Chunked.Chunks (·.length ≤ limit) (fun u rest => u = Chunked.lineEnd ++ rest)
      (sentBytes sent ++ rest) (HandlerResult.stream resp).content rest := by
  have hdigits : ∀ c ∈ resp.chunks, (latin1 (hexUpper c.encode.length)).length ≤ limit := by
    intro c hc
    have hl := length_hexUpper (hsize c hc)
    omega
  have hzero : (latin1 ['0']).length ≤ limit := by
    rw [latin1_length, List.length_singleton]
    omega
  have hlast : sentBytes [.content (ascii "0\r\n\r\n")] = ascii "0\r\n\r\n" := List.append_nil _
  rw [writeWith_chunks h, sentBytes_append, hlast]
  exact chunks_sendChunks hzero rfl hdigits

/-- The chunks of a stream, sent by either writer and followed by anything, are read back by either
reader however they are delivered: as the content, with its length, up to exactly what follows. -/
theorem readChunkedBody_writeResponse (cfg : ServerConfig) (date : Str) (req : Request)
    (resp : StreamResponse) (keepAlive : Bool) (block : Bytes) (sent : List Sent)
    (hw : writeResponse req cfg date (.stream resp) keepAlive = (.head block :: sent, .ok ()) ∨
      writeResponseAsync req cfg date (.stream resp) keepAlive = (.head block :: sent, .ok ()))
    (cfg' : ServerConfig) (hmax : (HandlerResult.stream resp).content.length ≤ cfg'.maxBodyBytes)
    (hsize : ∀ c ∈ resp.chunks, c.encode.length ≤ maxSize) (rest : Bytes) :
    (∀ r : SocketReader, r.unread = sentBytes sent ++ rest → ∃ r',
      r.readChunkedBody cfg' = .ok (keepBody cfg' (HandlerResult.stream resp).content,
        (HandlerResult.stream resp).content.length, r') ∧ r'.unread = rest) ∧
    ∀ (cap : Nat) (r : StreamReader cap), r.unread = sentBytes sent ++ rest → ∃ r',
      r.readChunkedBody cfg' = .ok (.bytes (HandlerResult.stream resp).content,
        (HandlerResult.stream resp).content.length, r') ∧ r'.unread = rest := by
  have hchunks : ∀ limit, 16 ≤ limit →
      Chunked.Chunks (·.length ≤ limit) (fun u rest => u = Chunked.lineEnd ++ rest)
        (sentBytes sent ++ rest) (HandlerResult.stream resp).content rest := by
    intro limit hl
    rcases hw with h | h
    · exact chunks_sent h hsize hl rest
    · exact chunks_sent h hsize hl rest
  constructor
  · intro r hu
    have hc := hchunks SocketReader.lineLimit (by decide)
    rw [← hu] at hc
    exact SocketReader.readChunkedBody_chunks hc hmax
  · intro cap r hu
    have hc := hchunks StreamReader.lineLimit (by decide)
    rw [← hu] at hc
    exact StreamReader.readChunkedBody_chunks hc hmax

def helloStream : StreamResponse where
  chunks := [.bytes (ascii "hel"), .text [], .text "lo".toList]

theorem helloStream_clean :
    CleanHeaders (sentHeaders {} epoch (plainRequest "GET".toList) (.stream helloStream) true) := by
  unfold CleanHeaders Clean
  decide

/-- Two chunks and an empty one, delivered in two parts in front of another request. -/
theorem readChunkedBody_hello :
    ∃ r', SocketReader.readChunkedBody {} (.ofSegments
        [⟨ascii "3\r\nhe", by decide, by decide⟩,
          ⟨ascii "l\r\n2\r\nlo\r\n0\r\n\r\nGET", by decide, by decide⟩]) =
      .ok (.bytes (ascii "hello"), 5, r') ∧ r'.unread = ascii "GET" := by
  obtain ⟨block, hs⟩ : ∃ block, sendHeaders {} epoch helloStream.status
      (responseHeaders (plainRequest "GET".toList) (.stream helloStream)) true = .ok block :=
    ⟨_, sendHeaders_clean helloStream_clean⟩
  have hw : writeResponse (plainRequest "GET".toList) {} epoch (.stream helloStream) true =
      (.head block :: (sendChunks helloStream.chunks ++ [.content (ascii "0\r\n\r\n")]),
        .ok ()) := by
    rw [writeResponse, writeWith_stream, hs]
    rfl
  have hsize : ∀ c ∈ helloStream.chunks, c.encode.length ≤ maxSize := by decide
  exact (readChunkedBody_writeResponse {} epoch _ helloStream true _ _ (.inl hw) {} (by decide)
    hsize (ascii "GET")).1 _ (by decide)

end Sovereign
