import Sovereign.ChunkedBody
import Sovereign.Framing
import Sovereign.SocketReader

namespace Sovereign
open Buffered
set_option autoImplicit true

namespace SocketReader

/-- The reads of `SocketReader.read_chunked_body`: every line ends in CR LF. -/
def chunkSource : ChunkSource SocketReader where
  readSizeLine r := (r.readUntil crlf 8192).map fun (line, r') => (line.take (line.length - 2), r')
  readTrailer r := r.readUntil crlf 8192
  readExact n r := r.readExact n
  unread r := r.unread
  sizeLine_shrinks {r line r'} h := by
    cases hr : r.readUntil crlf 8192 with
    | error e =>
      rw [hr] at h
      cases h
    | ok res =>
      rw [hr] at h
      cases h
      have hl := readUntil_length hr
      simp only [crlf, List.length_cons, List.length_nil] at hl
      omega
  exact_shrinks h := readExact_length h

/-- `SocketReader.read_chunked_body` -/
def readChunkedBody (cfg : ServerConfig) (r : SocketReader) : Read (Body × Int × SocketReader) := do
  let (spool, total, r) ← (ChunkLoop.machine chunkSource cfg).run (.start r)
  return (if total ≤ cfg.maxMemoryBody then .bytes spool else .spool spool, total, r)

def frontEnd : FrontEnd SocketReader where
  readHeaders := readHeaders
  readChunkedBody := readChunkedBody
  readExactBody := readExactBody

end SocketReader

/-- `parse_request` -/
def parseRequest [Urllib] (cfg : ServerConfig) (remoteAddr : Str) (reader : SocketReader) :
    Read (Request × SocketReader) :=
  SocketReader.frontEnd.parse cfg remoteAddr reader

end Sovereign
