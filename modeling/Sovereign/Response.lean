import Sovereign.Basic

namespace Sovereign
set_option autoImplicit true

structure Response where
  body : Bytes
  status : Int := 200
  headers : Headers := ∅
  contentType : Str := "text/html; charset=utf-8".toList
deriving DecidableEq

/-- A chunk of a stream, as text or as bytes. -/
inductive StreamChunk where
  | bytes (data : Bytes)
  | text (data : Str)
deriving DecidableEq

/-- `chunk.encode()` where the chunk is text. -/
def StreamChunk.encode : StreamChunk → Bytes
  | .bytes data => data
  | .text data => utf8 data

/-- A streamed response: what its iterator yields, and what it raises after that, if anything. -/
structure StreamResponse where
  chunks : List StreamChunk
  failure : Option Exc := none
  status : Int := 200
  headers : Headers := ∅
  contentType : Str := "application/octet-stream".toList
deriving DecidableEq

inductive HandlerResult where
  | response (resp : Response)
  | stream (resp : StreamResponse)
deriving DecidableEq

namespace HandlerResult

def status : HandlerResult → Int
  | response resp => resp.status
  | stream resp => resp.status

def headers : HandlerResult → Headers
  | response resp => resp.headers
  | stream resp => resp.headers

/-- The same result after its header mapping has been changed. -/
def withHeaders (f : Headers → Headers) : HandlerResult → HandlerResult
  | response resp => response { resp with headers := f resp.headers }
  | stream resp => stream { resp with headers := f resp.headers }

theorem headers_withHeaders (f : Headers → Headers) (resp : HandlerResult) :
    (resp.withHeaders f).headers = f resp.headers := by
  cases resp with
  | response resp => rfl
  | stream resp => rfl

/-- The whole content, where it is streamed and where it is not. -/
def content : HandlerResult → Bytes
  | response resp => resp.body
  | stream resp => resp.chunks.flatMap StreamChunk.encode

end HandlerResult

/-- `error_response` -/
def errorResponse (status : Int) (message : Str := []) : Response where
  body := utf8 ("<!doctype html><h1>".toList ++ decimal status ++ " ".toList ++
    ((statusReasons status).getD "Error").toList ++ "</h1><p>".toList ++ message ++ "</p>".toList)
  status := status

end Sovereign
