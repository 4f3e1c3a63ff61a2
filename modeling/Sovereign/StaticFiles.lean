import Sovereign.Jwt
import Sovereign.Lib.PosixPath
import Sovereign.Unquote

namespace Sovereign
open PosixPath
set_option autoImplicit true

/-- A regular file. Its size is that of its content. -/
structure FileData where
  content : Bytes
  /-- `st_mtime_ns` -/
  mtimeNs : Int
deriving DecidableEq

inductive FileEntry where
  | file (data : FileData)
  | dir
deriving DecidableEq

/-- The files of a system without symbolic links, each under the names from the root to it. -/
structure FileTree where
  entry : List Str → Option FileEntry
  root : entry [] = some .dir
  parent : ∀ path name, (entry (path ++ [name])).isSome → entry path = some .dir
  valid : ∀ path, (entry path).isSome → ∀ name ∈ path, ValidName name

namespace FileTree

/-- `Path.is_file` -/
def file? (tree : FileTree) (path : List Str) : Option FileData :=
  match tree.entry path with
  | some (.file data) => some data
  | _ => none

/-- `Path.is_dir` -/
def isDir (tree : FileTree) (path : List Str) : Bool := decide (tree.entry path = some .dir)

/-- A tree with files in the root directory only. -/
def flat (files : Dict Str FileData) (hnames : ∀ name ∈ files.keys, ValidName name) :
    FileTree where
  entry
    | [] => some .dir
    | [name] => (files.get? name).map .file
    | _ => none
  root := rfl
  parent
    | [], _, _ => rfl
    | [_], _, hentry => nomatch hentry
    | _ :: _ :: _, _, hentry => nomatch hentry
  valid
    | [], _, _, hname => nomatch hname
    | [name], hentry, other, hother => by
      rw [List.mem_singleton] at hother
      rw [hother]
      rw [Option.isSome_map] at hentry
      exact hnames name (Dict.mem_keys.2 hentry)

end FileTree

/-- What the file handlers take from the standard library. -/
structure FileLibrary where
  /-- `hashlib.sha256(data).hexdigest()` -/
  sha256Hex : Bytes → Str
  /-- `email.utils.formatdate(st_mtime, usegmt=True)` -/
  formatdate : Int → Str
  /-- `mimetypes.guess_type(name)[0]` -/
  guessType : Str → Option Str

/-- `_etag`, of which there are two copies. -/
def FileLibrary.etag (lib : FileLibrary) (data : FileData) : Str :=
  '"' :: ((lib.sha256Hex (utf8 (decimal data.mtimeNs ++ ':' :: decimal data.content.length))).take 32
    ++ ['"'])

/-- The names that `safe_join` appends to its base. -/
def joinedNames (userPath : Str) : List Str :=
  normalize ('/' :: unquote (userPath.map fun c => if c = '\\' then '/' else c))

/-- No file has a name with a NUL, and the system refuses to look for one. -/
def hasNul (path : List Str) : Bool := path.any fun name => name.contains (Char.ofNat 0)

theorem hasNul_iff : hasNul path = false ↔ ∀ name ∈ path, Char.ofNat 0 ∉ name := by
  rw [hasNul, List.any_eq_false]
  exact forall_congr' fun name => by rw [List.contains_iff_mem]

/-- `safe_join` below a base that is resolved. Without symbolic links a path that is normalized is
resolved. -/
def safeJoin (base : List Str) (userPath : Str) : Except Exc (List Str) :=
  if hasNul (joinedNames userPath) then .error (.builtin .valueError)
  else
    let target := base ++ joinedNames userPath
    if base <+: target then .ok target else .error (.httpError 403 "Path traversal blocked")

/-- `_HTML5_MIME_TYPES` -/
def html5MimeTypes : List (Str × Str) :=
  [(".html".toList, "text/html; charset=utf-8".toList),
    (".htm".toList, "text/html; charset=utf-8".toList),
    (".css".toList, "text/css; charset=utf-8".toList),
    (".js".toList, "text/javascript; charset=utf-8".toList),
    (".mjs".toList, "text/javascript; charset=utf-8".toList),
    (".json".toList, "application/json; charset=utf-8".toList),
    (".map".toList, "application/json; charset=utf-8".toList),
    (".svg".toList, "image/svg+xml".toList),
    (".webp".toList, "image/webp".toList),
    (".avif".toList, "image/avif".toList),
    (".png".toList, "image/png".toList),
    (".jpg".toList, "image/jpeg".toList),
    (".jpeg".toList, "image/jpeg".toList),
    (".gif".toList, "image/gif".toList),
    (".ico".toList, "image/x-icon".toList),
    (".webmanifest".toList, "application/manifest+json; charset=utf-8".toList),
    (".wasm".toList, "application/wasm".toList),
    (".woff".toList, "font/woff".toList),
    (".woff2".toList, "font/woff2".toList),
    (".txt".toList, "text/plain; charset=utf-8".toList)]

/-- `Path.name` -/
def fileName (path : List Str) : Str := path.getLast?.getD []

/-- `Path.suffix`: what begins at the last full stop, which is neither the first nor the last
character. -/
def fileSuffix (name : Str) : Str :=
  let ending := name.rtakeWhile (· ≠ '.')
  if ending = [] ∨ name.length ≤ ending.length + 1 then [] else '.' :: ending

/-- `guess_html5_type` -/
def FileLibrary.guessHtml5Type (lib : FileLibrary) (name : Str) : Str :=
  let type := ((html5MimeTypes.lookup (lower (fileSuffix name))).getD [])
  if type ≠ [] then type
  else
    let guess := (lib.guessType name).getD []
    if guess ≠ [] then guess else "application/octet-stream".toList

def isHexDigit (c : Char) : Bool :=
  decide ('0' ≤ c ∧ c ≤ '9' ∨ 'a' ≤ c ∧ c ≤ 'f' ∨ 'A' ≤ c ∧ c ≤ 'F')

/-- `re.search(r"[.-][a-fA-F0-9]{8,}\.", name)` -/
def isFingerprinted (name : Str) : Bool :=
  name.tails.any fun
    | [] => false
    | c :: rest => (c = '.' || c = '-') && decide (8 ≤ (rest.takeWhile isHexDigit).length) &&
      decide ((rest.dropWhile isHexDigit).head? = some '.')

/-- The bounds that `_range_response` finds in a header of this form, first and last byte. -/
def rangeBounds (value : Str) (size : Int) : Option (Int × Int) := do
  let (rawStart, rawEnd) ← splitFirst '-' value
  let (start, last) ←
    if rawStart = [] then do
      let length ← Json.intOfStr rawEnd
      pure (max (size - length) 0, size - 1)
    else do
      let start ← Json.intOfStr rawStart
      let last ← if rawEnd ≠ [] then Json.intOfStr rawEnd else pure (size - 1)
      pure (start, last)
  if start < 0 ∨ last < start ∨ size ≤ start then none else pure (start, min last (size - 1))

/-- `_range_response` -/
def rangeResponse (req : Request) (body : Bytes) (headers : Headers) (contentType : Str) :
    Except Exc (Option Response) :=
  let header := req.header "range".toList
  if header = [] ∨ startsWith "bytes=".toList header = false then .ok none
  else
    match rangeBounds (header.drop 6) body.length with
    | none => .error (.http (.make 416 "Requested Range Not Satisfiable".toList
        ((∅ : Headers).set "Content-Range".toList ("bytes */".toList ++ decimal body.length))))
    | some (start, last) =>
      let chunk := (body.drop start.toNat).take (last - start + 1).toNat
      .ok (some {
        body := chunk
        status := 206
        headers := headers.update
          [("Content-Range".toList, "bytes ".toList ++ decimal start ++ '-' :: decimal last ++
              '/' :: decimal body.length),
            ("Content-Length".toList, decimal chunk.length)]
        contentType := contentType })

/-- The keyword arguments of `serve_html5_file`. -/
structure Html5Options where
  index : Str := "index.html".toList
  spaFallback : Bool := false
  immutableAssets : Bool := true
  maxAge : Int := 3600

/-- The part of `serve_html5_file` that looks for the file. -/
def findAsset (tree : FileTree) (opts : Html5Options) (root : List Str) (req : Request)
    (assetPath : Str) : Except Exc (List Str × FileData) := do
  let stripped := assetPath.dropWhile (· = '/')
  let candidate ← safeJoin root (if stripped = [] then opts.index else stripped)
  let candidate ← if tree.isDir candidate then safeJoin candidate opts.index else pure candidate
  let accept := req.header "accept".toList
  let candidate ←
    if (tree.file? candidate).isNone ∧ opts.spaFallback = true ∧
        req.method ∈ ["GET".toList, "HEAD".toList] ∧
        (contains "text/html".toList accept ∨ contains "*/*".toList accept ∨ accept = []) then
      safeJoin root opts.index
    else pure candidate
  match tree.file? candidate with
  | some data => return (candidate, data)
  | none => throw (.httpError 404 "HTML5 asset not found")

/-- The headers of a file. -/
def assetHeaders (lib : FileLibrary) (opts : Html5Options) (root candidate : List Str)
    (data : FileData) : Headers :=
  let immutable := isFingerprinted (fileName candidate) && opts.immutableAssets
  (∅ : Headers).update
    [("Cache-Control".toList, "public, max-age=".toList ++
        decimal (if immutable then 31536000 else opts.maxAge) ++
        if immutable then ", immutable".toList else []),
      ("ETag".toList, lib.etag data),
      ("Last-Modified".toList, lib.formatdate data.mtimeNs),
      ("Accept-Ranges".toList, "bytes".toList),
      ("X-Sovereign-Asset".toList, '/' :: text (candidate.drop root.length))]

/-- The prefixes of the content types that `serve_html5_file` compresses. -/
def html5Compressible : List Str :=
  ["text/".toList, "application/json".toList, "application/javascript".toList, "image/svg".toList]

/-- The part of `serve_html5_file` after the file has been found. -/
def serveAsset (runtime : Runtime) (lib : FileLibrary) (opts : Html5Options) (root : List Str)
    (req : Request) (candidate : List Str) (data : FileData) : Act (World α) (Val (World α)) := do
  let headers := assetHeaders lib opts root candidate data
  let contentType := lib.guessHtml5Type (fileName candidate)
  if req.header "if-none-match".toList = lib.etag data then
    return .result (.response { body := [], status := 304, headers, contentType })
  match rangeResponse req data.content headers contentType with
  | .error e => throw e
  | .ok (some ranged) => return .result (.response ranged)
  | .ok none =>
    if contains "gzip".toList (req.header "accept-encoding".toList) = true ∧
        512 < data.content.length ∧
        html5Compressible.any (fun pre => startsWith pre contentType) = true then
      let body ← sample (runtime.gzip data.content 6)
      return .result (.response {
        body, contentType
        headers := headers.update [("Content-Encoding".toList, "gzip".toList),
          ("Vary".toList, "Accept-Encoding".toList)] })
    else return .result (.response { body := data.content, headers, contentType })

/-- `serve_html5_file` -/
def serveHtml5File (runtime : Runtime) (lib : FileLibrary) (tree : FileTree) (opts : Html5Options)
    (root : List Str) (req : Request) (assetPath : Str) : Act (World α) (Val (World α)) :=
  match findAsset tree opts root req assetPath with
  | .error e => throw e
  | .ok (candidate, data) => serveAsset runtime lib opts root req candidate data

/-- The part of `static_response` that looks for the file. -/
def findStatic (tree : FileTree) (staticDir : List Str) (req : Request) (pre : Str) :
    Except Exc (List Str × FileData) := do
  let path ← safeJoin staticDir (req.path.drop pre.length)
  match tree.file? path with
  | some data => return (path, data)
  | none => throw (.httpError 404 "Static file not found")

/-- The part of `static_response` after the file has been found. -/
def serveStatic (lib : FileLibrary) (req : Request) (path : List Str) (data : FileData) :
    Response :=
  let headers := (∅ : Headers).update
    [("Cache-Control".toList, "public, max-age=3600".toList), ("ETag".toList, lib.etag data),
      ("Last-Modified".toList, lib.formatdate data.mtimeNs)]
  if req.header "if-none-match".toList = lib.etag data then { body := [], status := 304, headers }
  else
    let guess := (lib.guessType (fileName path)).getD []
    { body := data.content
      headers := headers
      contentType := if guess ≠ [] then guess else "application/octet-stream".toList }

/-- `static_response` -/
def staticResponse (lib : FileLibrary) (tree : FileTree) (staticDir : List Str) (req : Request)
    (pre : Str) : Act (World α) (Val (World α)) :=
  match findStatic tree staticDir req pre with
  | .error e => throw e
  | .ok (path, data) => return .result (.response (serveStatic lib req path data))

end Sovereign
