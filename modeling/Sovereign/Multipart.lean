import Sovereign.Latin1
import Sovereign.Request
import Sovereign.Unquote

namespace Sovereign
set_option autoImplicit true

/-- `UploadedFile`, with the content of its spool, which is left at its start. -/
structure UploadedFile where
  name : Str
  filename : Str
  contentType : Str
  size : Nat
  file : Bytes
  sniffedType : Option Str
deriving DecidableEq

structure MultipartData where
  fields : Dict Str Str
  files : Dict Str UploadedFile
deriving DecidableEq

/-- The limits of `MultipartParser`. `spool_size` only says where contents are kept. -/
structure MultipartParser where
  maxFiles : Nat := 8
  maxFileSize : Nat := 10 * 1024 * 1024
  maxParts : Nat := 64
  allowedMimeMismatch : Bool := false

namespace Multipart

/-- `_MAGIC` -/
def magic : List (Bytes × Str) :=
  [([0x89, 0x50, 0x4e, 0x47, 0x0d, 0x0a, 0x1a, 0x0a], "image/png".toList),
    ([0xff, 0xd8, 0xff], "image/jpeg".toList), (ascii "GIF87a", "image/gif".toList),
    (ascii "GIF89a", "image/gif".toList), (ascii "%PDF-", "application/pdf".toList),
    ([0x50, 0x4b, 0x03, 0x04], "application/zip".toList),
    (ascii "MZ", "application/vnd.microsoft.portable-executable".toList),
    (ascii "#!", "text/x-shellscript".toList)]

/-- `sniff_mime` -/
def sniffMime (head : Bytes) : Option Str :=
  match magic.find? fun e => e.1.isPrefixOf head with
  | some e => some e.2
  | none =>
    if (ascii "<?xml").isPrefixOf head ∨ (ascii "<svg").isPrefixOf head then
      some "application/xml".toList
    else none

/-- One turn of the loop in `_parse_content_disposition`. -/
def addParam (params : Dict Str Str) (p : Str) : Dict Str Str :=
  match splitFirst '=' p with
  | none => params
  | some (k, v) => params.set (lower (strStrip k)) (strip (· = '"') (strStrip v))

/-- `_parse_content_disposition` -/
def parseContentDisposition (value : Str) : Str × Dict Str Str :=
  match (value.splitOn ';').map strStrip with
  | [] => ([], ∅)
  | kind :: params => (lower kind, params.foldl addParam ∅)

/-- One turn of the loop in `_headers`. -/
def addHeader (headers : Headers) (line : Str) : Except Exc Headers :=
  if line = [] then .ok headers
  else if '\r' ∈ line ∨ '\n' ∈ line then .error (.httpError 400 "Malformed multipart header")
  else
    match splitFirst ':' line with
    | none => .error (.httpError 400 "Malformed multipart header")
    | some (k, v) => .ok (headers.set (lower (strStrip k)) (strStrip v))

/-- `_headers` -/
def parseHeaders (block : Bytes) : Except Exc Headers :=
  (Marker.splitPair '\r' '\n' (decodeLatin1 block)).foldlM addHeader ∅

/-- A match of the pattern for the boundary that begins here. Its quote is taken where there is one,
and what follows stops only at a quote, at a semicolon or at the end. -/
def matchBoundary (s : Str) : Option Str :=
  if startsWith "boundary=".toList s = false then none
  else
    let rest := s.drop 9
    let quoted := startsWith ['"'] rest
    let rest := if quoted then rest.drop 1 else rest
    let text := rest.takeWhile fun c => c ≠ '"' ∧ c ≠ ';'
    if text = [] ∨ quoted = true ∧ startsWith ['"'] (rest.drop text.length) = false then none
    else some text

/-- `re.search` for the boundary. -/
def searchBoundary : Str → Option Str
  | [] => none
  | c :: s => (matchBoundary (c :: s)).or (searchBoundary s)

/-- The local variables of the loop in `MultipartParser.parse`. -/
structure State where
  fields : Dict Str Str := ∅
  files : Dict Str UploadedFile := ∅
  fileCount : Nat := 0
  partCount : Nat := 0

def State.data (st : State) : MultipartData := ⟨st.fields, st.files⟩

def dangerous : List Str :=
  ["application/vnd.microsoft.portable-executable".toList, "text/x-shellscript".toList]

/-- A content that looks like another type than it is declared to be. -/
def mimeMismatch (contentType sniffed : Str) : Prop :=
  ("image/".toList.isPrefixOf contentType ∨ "application/pdf".toList.isPrefixOf contentType ∨
    "application/zip".toList.isPrefixOf contentType) ∧ sniffed ≠ contentType

instance (contentType sniffed : Str) : Decidable (mimeMismatch contentType sniffed) :=
  inferInstanceAs (Decidable (_ ∧ _))

variable (parser : MultipartParser)

/-- The checks of a file, and the type that its content looks like. -/
def checkFile (contentType : Str) (content : Bytes) : Except Exc (Option Str) :=
  if parser.maxFileSize < content.length then .error (.httpError 413 "Uploaded file too large")
  else
    match sniffMime (content.take 8) with
    | none => .ok none
    | some sniffed =>
      if sniffed ∈ dangerous then .error (.httpError 415 "Dangerous uploaded file type rejected")
      else if mimeMismatch contentType sniffed ∧ parser.allowedMimeMismatch = false then
        .error (.http (.make 415 ("MIME mismatch: declared ".toList ++ contentType ++
          ", got ".toList ++ sniffed)))
      else .ok (some sniffed)

/-- The rest of the loop for a part that is not empty. -/
def addPart (st : State) (part : Bytes) : Except Exc State :=
  let partCount := st.partCount + 1
  if parser.maxParts < partCount then .error (.httpError 413 "Too many multipart parts")
  else
    match Marker.breakOn headEnd part with
    | none => .error (.httpError 400 "Malformed multipart part")
    | some (headerBlock, content) => do
      let headers ← parseHeaders headerBlock
      let (disp, params) :=
        parseContentDisposition ((headers.get? "content-disposition".toList).getD [])
      if disp ≠ "form-data".toList then .error (.httpError 400 "Invalid content disposition")
      else
        match params.get? "name".toList with
        | none => .error (.httpError 400 "Invalid content disposition")
        | some name =>
          match params.get? "filename".toList with
          | none => return { st with partCount, fields := st.fields.set name (decodeReplace content) }
          | some filename =>
            let fileCount := st.fileCount + 1
            if parser.maxFiles < fileCount then
              .error (.httpError 413 "Too many uploaded files")
            else
              let contentType := lower ((headers.get? "content-type".toList).getD
                "application/octet-stream".toList)
              let sniffedType ← checkFile parser contentType content
              return { st with
                partCount, fileCount
                files := st.files.set name
                  ⟨name, filename, contentType, content.length, content, sniffedType⟩ }

def crlf : Bytes := [13, 10]

def dashes : Bytes := [45, 45]

/-- A part without the line breaks around it. -/
def trimPart (part : Bytes) : Bytes :=
  let part := if crlf.isPrefixOf part then part.drop 2 else part
  if crlf.isSuffixOf part then part.take (part.length - 2) else part

/-- The loop in `MultipartParser.parse`. -/
def parseParts : List Bytes → State → Except Exc State
  | [], st => .ok st
  | part :: parts, st =>
    if dashes.isPrefixOf part then .ok st
    else if trimPart part = [] then parseParts parts st
    else do
      let st ← addPart parser st (trimPart part)
      parseParts parts st

/-- The line that parts are divided at, without its line breaks. -/
def delimiter (boundary : Str) : Bytes := dashes ++ latin1 boundary

/-- `MultipartParser.parse` -/
def parse (req : Request) : Except Exc MultipartData :=
  let ctype := req.header "content-type".toList
  match searchBoundary ctype with
  | none => .error (.httpError 400 "Expected multipart/form-data")
  | some boundary =>
    if contains "multipart/form-data".toList ctype = false then
      .error (.httpError 400 "Expected multipart/form-data")
    else if boundary.all isAscii = false then .error (.builtin .unicodeEncodeError)
    else if boundary = [] ∨ 200 < boundary.length ∨ '\r' ∈ boundary ∨ '\n' ∈ boundary then
      .error (.httpError 400 "Invalid multipart boundary")
    else
      let raw := req.body.toBytes
      let sep := delimiter boundary
      if (Marker.breakOn sep raw).isNone then
        .error (.httpError 400 "Multipart boundary not found")
      else (parseParts parser ((Marker.splitAll sep 0 raw).drop 1) {}).map State.data

end Multipart

end Sovereign
