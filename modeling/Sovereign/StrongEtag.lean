import Sovereign.StaticFiles

namespace Sovereign
open PosixPath
set_option autoImplicit true

/-- A content coding, with the level of the compressor. -/
inductive Coding where
  | gzip (level : Int)
  | deflate (level : Int)
deriving DecidableEq

namespace Coding

def name : Coding → Str
  | gzip _ => "gzip".toList
  | deflate _ => "deflate".toList

/-- The coded content; `gzip` stamps it with the time of the call. -/
def compress (runtime : Runtime) (content : Bytes) (call : Nat) : Coding → Bytes
  | gzip level => runtime.gzip content level call
  | deflate level => runtime.zlib content level

/-- The state after the coding. -/
def advance (w : World α) : Coding → World α
  | gzip _ => { w with calls := w.calls + 1 }
  | deflate _ => w

end Coding

/-- A `CompressionMiddleware` or a `GZipMiddleware` of a stack. -/
inductive CompressionLayer where
  | compression (m : CompressionMiddleware)
  | gzip (m : CompressionMiddleware)

namespace CompressionLayer

def settings : CompressionLayer → CompressionMiddleware
  | compression m | gzip m => m

def middleware (runtime : Runtime) : CompressionLayer → Middleware (World α)
  | compression m => ⟨false, m.call runtime⟩
  | gzip m => ⟨false, m.callGZip runtime⟩

/-- The coding that the layer has for a response that is not coded. -/
def coding (layer : CompressionLayer) (req : Request) (size : Nat) (contentType : Str) :
    Option Coding :=
  let accept := lower (req.header "accept-encoding".toList)
  if size < layer.settings.minSize ∨ CompressionMiddleware.compressiblePrefixes.any
      (fun pre => startsWith pre (lower contentType)) = false then none
  else if contains "gzip".toList accept = true then some (.gzip layer.settings.compresslevel)
  else
    match layer with
    | compression m =>
      if contains "deflate".toList accept = true then some (.deflate m.compresslevel) else none
    | gzip _ => none

end CompressionLayer

/-- Where a file is served from. -/
inductive FileSource where
  /-- `serve_html5_file` -/
  | html5 (opts : Html5Options) (root : List Str) (assetPath : Str)
  /-- `static_response` -/
  | static (staticDir : List Str) (pre : Str)

namespace FileSource

def find (tree : FileTree) (req : Request) : FileSource → Except Exc (List Str × FileData)
  | html5 opts root assetPath => findAsset tree opts root req assetPath
  | static staticDir pre => findStatic tree staticDir req pre

def serve (runtime : Runtime) (lib : FileLibrary) (tree : FileTree) :
    FileSource → Endpoint (World α)
  | html5 opts root assetPath => fun req => serveHtml5File runtime lib tree opts root req assetPath
  | static staticDir pre => fun req => staticResponse lib tree staticDir req pre

def contentType (lib : FileLibrary) (path : List Str) : FileSource → Str
  | html5 .. => lib.guessHtml5Type (fileName path)
  | static .. =>
    let guess := (lib.guessType (fileName path)).getD []
    if guess ≠ [] then guess else "application/octet-stream".toList

/-- The coding that `serve_html5_file` has itself. -/
def coding (lib : FileLibrary) (req : Request) (path : List Str) (data : FileData) :
    FileSource → Option Coding
  | html5 .. =>
    if contains "gzip".toList (req.header "accept-encoding".toList) = true ∧
        512 < data.content.length ∧ html5Compressible.any
          (fun pre => startsWith pre (lib.guessHtml5Type (fileName path))) = true then
      some (.gzip 6)
    else none
  | static .. => none

end FileSource

/-- The coding of a file behind a stack: the first one from the inside. -/
def stackCoding (lib : FileLibrary) (source : FileSource) (req : Request) (path : List Str)
    (data : FileData) : List CompressionLayer → Option Coding
  | [] => source.coding lib req path data
  | layer :: layers => (stackCoding lib source req path data layers).or
      (layer.coding req data.content.length (source.contentType lib path))

/-- A response to a request for a file, behind a stack of compression middlewares. -/
def serveBehind (runtime : Runtime) (lib : FileLibrary) (tree : FileTree) (source : FileSource)
    (layers : List CompressionLayer) : Endpoint (World α) :=
  build (layers.map fun layer => layer.middleware runtime) (source.serve runtime lib tree)

/-- The `Content-Encoding` of a response. -/
def Response.encoding (resp : Response) : Option Str :=
  resp.headers.get? "Content-Encoding".toList

/-- A compression middleware leaves the response alone. -/
def Response.Coded (resp : Response) : Prop := resp.encoding.getD [] ≠ []

/-- The response has the content in this coding. -/
structure Represents (runtime : Runtime) (lib : FileLibrary) (data : FileData) (call : Nat)
    (coding : Option Coding) (contentType : Str) (resp : Response) : Prop where
  body : resp.body = (coding.map (·.compress runtime data.content call)).getD data.content
  encoding : resp.encoding = coding.map Coding.name
  etag : resp.headers.get? "ETag".toList = some (lib.etag data)
  contentType : resp.contentType = contentType

variable {runtime : Runtime} {lib : FileLibrary} {tree : FileTree} {source : FileSource}
  {req : Request} {path : List Str} {data : FileData}

theorem sample_run (read : Nat → β) (w : World α) :
    sample read w = (.ok (read w.calls), { w with calls := w.calls + 1 }) := rfl

theorem rangeResponse_status {headers : Headers} {contentType : Str} {ranged : Response}
    (h : rangeResponse req body headers contentType = .ok (some ranged)) : ranged.status = 206 := by
  rw [rangeResponse] at h
  split at h
  · cases h
  · split at h
    · cases h
    · cases h
      rfl

/-- The content of a file that is sent as a whole, in a coding or without one. -/
theorem serveAsset_whole {opts : Html5Options} {root : List Str} {w w' : World α} {resp : Response}
    (h : serveAsset runtime lib opts root req path data w = (.ok (.result (.response resp)), w'))
    (hstatus : resp.status = 200) :
    Represents runtime lib data w.calls
        (FileSource.coding lib req path data (.html5 opts root assetPath))
        (lib.guessHtml5Type (fileName path)) resp ∧
      (FileSource.coding lib req path data (.html5 opts root assetPath) = none → w' = w) := by
  rw [serveAsset] at h
  by_cases hmatch : req.header "if-none-match".toList = lib.etag data
  · rw [if_pos hmatch] at h
    cases h
    cases hstatus
  · rw [if_neg hmatch] at h
    cases hrange : rangeResponse req data.content (assetHeaders lib opts root path data)
      (lib.guessHtml5Type (fileName path)) with
    | error e =>
      rw [hrange] at h
      cases h
    | ok ranged =>
      rw [hrange] at h
      cases ranged with
      | some ranged =>
        cases h
        rw [rangeResponse_status hrange] at hstatus
        cases hstatus
      | none =>
        dsimp only at h
        rw [FileSource.coding]
        split at h
        · next hgzip =>
          rw [if_pos hgzip]
          rw [Act.bind_run, sample_run] at h
          cases h
          exact ⟨⟨rfl, rfl, rfl, rfl⟩, nofun⟩
        · next hgzip =>
          rw [if_neg hgzip]
          cases h
          exact ⟨⟨rfl, rfl, rfl, rfl⟩, fun _ => rfl⟩

/-- What a source sends with status 200. -/
theorem serve_represents (hfind : source.find tree req = .ok (path, data)) {w w' : World α}
    {resp : Response}
    (h : source.serve runtime lib tree req w = (.ok (.result (.response resp)), w'))
    (hstatus : resp.status = 200) :
    Represents runtime lib data w.calls (source.coding lib req path data)
        (source.contentType lib path) resp ∧
      (source.coding lib req path data = none → w' = w) := by
  cases source with
  | html5 opts root assetPath =>
    simp only [FileSource.find] at hfind
    simp only [FileSource.serve, serveHtml5File, hfind] at h
    exact serveAsset_whole h hstatus
  | static staticDir pre =>
    simp only [FileSource.find] at hfind
    simp only [FileSource.serve, staticResponse, hfind] at h
    cases h
    rw [serveStatic] at hstatus ⊢
    split at hstatus
    · cases hstatus
    · next hmatch =>
      rw [if_neg hmatch]
      exact ⟨⟨rfl, rfl, rfl, rfl⟩, fun _ => rfl⟩

/-- A layer that chooses a coding. -/
theorem encoded_represents {inner : Response} {coding : Coding}
    (hinner : Represents runtime lib data call none contentType inner)
    (hbody : body = coding.compress runtime inner.body call) :
    Represents runtime lib data call (some coding) contentType
      (CompressionMiddleware.encoded inner coding.name body) := by
  have hcontent : inner.body = data.content := hinner.body
  constructor
  · rw [CompressionMiddleware.encoded, hbody, hcontent]
    rfl
  · rw [Response.encoding, CompressionMiddleware.encoded, Dict.get?_update]
    rfl
  · rw [CompressionMiddleware.encoded, Dict.get?_update, hinner.etag]
    rfl
  · exact hinner.contentType

theorem finish_run {m : CompressionMiddleware} {inner : Response} (w : World α) :
    m.finish runtime req (.result (.response inner)) w =
      if m.compressible inner = false then (.ok (.result (.response inner)), w)
      else if contains "gzip".toList (lower (req.header "accept-encoding".toList)) = true then
        (.ok (.result (.response (CompressionMiddleware.encoded inner "gzip".toList
          (runtime.gzip inner.body m.compresslevel w.calls)))), { w with calls := w.calls + 1 })
      else if contains "deflate".toList (lower (req.header "accept-encoding".toList)) = true then
        (.ok (.result (.response (CompressionMiddleware.encoded inner "deflate".toList
          (runtime.zlib inner.body m.compresslevel)))), w)
      else (.ok (.result (.response inner)), w) := by
  rw [CompressionMiddleware.finish, Act.bind_run]
  simp only [Val.response, Act.pure_run]
  split
  · rfl
  · split
    · rfl
    · split
      · rfl
      · rfl

theorem finishGZip_run {m : CompressionMiddleware} {inner : Response} (w : World α) :
    m.finishGZip runtime req (.result (.response inner)) w =
      if m.compressible inner = false then (.ok (.result (.response inner)), w)
      else if contains "gzip".toList (lower (req.header "accept-encoding".toList)) = false then
        (.ok (.result (.response inner)), w)
      else
        (.ok (.result (.response (CompressionMiddleware.encoded inner "gzip".toList
          (runtime.gzip inner.body m.compresslevel w.calls)))), { w with calls := w.calls + 1 }) := by
  rw [CompressionMiddleware.finishGZip, Act.bind_run]
  simp only [Val.response, Act.pure_run]
  split
  · rfl
  · split
    · rfl
    · rfl

theorem compressible_iff {m : CompressionMiddleware} {inner : Response} (hplain : ¬ inner.Coded) :
    m.compressible inner = false ↔
      inner.body.length < m.minSize ∨ CompressionMiddleware.compressiblePrefixes.any
        (fun pre => startsWith pre (lower inner.contentType)) = false := by
  rw [Response.Coded, Response.encoding, not_not] at hplain
  rw [CompressionMiddleware.compressible, hplain]
  simp only [ne_eq, not_true_eq_false, decide_false, Bool.false_or, Bool.and_eq_false_iff,
    Bool.not_eq_false', decide_eq_true_eq]

theorem not_compressible {m : CompressionMiddleware} {inner : Response} (hcoded : inner.Coded) :
    m.compressible inner = false := by
  rw [Response.Coded, Response.encoding] at hcoded
  rw [CompressionMiddleware.compressible, decide_eq_true hcoded]
  rfl

theorem Response.coded_of_encoding {resp : Response} {coding : Coding}
    (h : resp.encoding = some coding.name) : resp.Coded := by
  rw [Response.Coded, h]
  cases coding with
  | gzip level => exact List.cons_ne_nil _ _
  | deflate level => exact List.cons_ne_nil _ _

theorem Response.not_coded {resp : Response} (h : resp.encoding = none) : ¬ resp.Coded := by
  rw [Response.Coded, h]
  exact fun hne => hne rfl

namespace CompressionLayer

/-- The part of a layer after `call_next`. -/
def finish (runtime : Runtime) (req : Request) (layer : CompressionLayer) (value : Val (World α)) :
    Act (World α) (Val (World α)) :=
  match layer with
  | compression m => m.finish runtime req value
  | gzip m => m.finishGZip runtime req value

/-- A layer leaves a response alone that is coded, and one that it has no coding for. -/
theorem finish_none (layer : CompressionLayer) {inner : Response} (w : World α)
    (h : ¬ inner.Coded → layer.coding req inner.body.length inner.contentType = none) :
    layer.finish runtime req (.result (.response inner)) w =
      (.ok (.result (.response inner)), w) := by
  have hskip : layer.settings.compressible inner = true → ¬ inner.Coded := by
    intro hcompressible hcoded
    rw [not_compressible hcoded] at hcompressible
    cases hcompressible
  cases layer with
  | compression m =>
    rw [finish, finish_run]
    by_cases hc : m.compressible inner = false
    · rw [if_pos hc]
    · have hplain : ¬ inner.Coded := hskip (Bool.of_not_eq_false hc)
      have hcoding := h hplain
      have hown : ¬ (compression m).settings.compressible inner = false := hc
      rw [compressible_iff hplain] at hown
      rw [if_neg hc]
      rw [coding, if_neg hown] at hcoding
      split at hcoding
      · cases hcoding
      · next hgzip =>
        rw [if_neg hgzip]
        split at hcoding
        · cases hcoding
        · next hdeflate => rw [if_neg hdeflate]
  | gzip m =>
    rw [finish, finishGZip_run]
    by_cases hc : m.compressible inner = false
    · rw [if_pos hc]
    · have hplain : ¬ inner.Coded := hskip (Bool.of_not_eq_false hc)
      have hcoding := h hplain
      have hown : ¬ (gzip m).settings.compressible inner = false := hc
      rw [compressible_iff hplain] at hown
      rw [if_neg hc]
      rw [coding, if_neg hown] at hcoding
      split at hcoding
      · cases hcoding
      · next hgzip => rw [if_pos (by simpa using hgzip)]

theorem finish_some (layer : CompressionLayer) {inner : Response} {coding : Coding} (w : World α)
    (hplain : ¬ inner.Coded)
    (hcoding : layer.coding req inner.body.length inner.contentType = some coding) :
    layer.finish runtime req (.result (.response inner)) w =
      (.ok (.result (.response (CompressionMiddleware.encoded inner coding.name
        (coding.compress runtime inner.body w.calls)))), coding.advance w) := by
  rw [CompressionLayer.coding.eq_def] at hcoding
  dsimp only at hcoding
  split at hcoding
  · cases hcoding
  · next hc =>
    have hcompressible : ¬ layer.settings.compressible inner = false := by
      rw [compressible_iff hplain]
      exact hc
    cases layer with
    | compression m =>
      have hm : ¬ m.compressible inner = false := hcompressible
      rw [finish, finish_run, if_neg hm]
      split at hcoding
      · next hgzip =>
        rw [if_pos hgzip]
        cases hcoding
        rfl
      · next hgzip =>
        rw [if_neg hgzip]
        dsimp only at hcoding
        split at hcoding
        · next hdeflate =>
          rw [if_pos hdeflate]
          cases hcoding
          rfl
        · cases hcoding
    | gzip m =>
      have hm : ¬ m.compressible inner = false := hcompressible
      rw [finish, finishGZip_run, if_neg hm]
      split at hcoding
      · next hgzip =>
        have hnot : ¬ contains "gzip".toList
            (lower (req.header "accept-encoding".toList)) = false := by
          rw [hgzip]
          decide
        rw [if_neg hnot]
        cases hcoding
        rfl
      · cases hcoding

theorem finish_status {layer : CompressionLayer} {inner resp : Response} {w w' : World α}
    (h : layer.finish runtime req (.result (.response inner)) w =
      (.ok (.result (.response resp)), w')) : resp.status = inner.status := by
  cases layer with
  | compression m =>
    rw [finish, finish_run] at h
    split at h
    · cases h
      rfl
    · split at h
      · cases h
        rfl
      · split at h
        · cases h
          rfl
        · cases h
          rfl
  | gzip m =>
    rw [finish, finishGZip_run] at h
    split at h
    · cases h
      rfl
    · split at h
      · cases h
        rfl
      · cases h
        rfl

end CompressionLayer

/-- A response that comes out of a layer has come into it. -/
theorem layer_run {layer : CompressionLayer} {layers : List CompressionLayer} {w w' : World α}
    {resp : Response} (h : serveBehind runtime lib tree source (layer :: layers) req w =
      (.ok (.result (.response resp)), w')) :
    ∃ inner w₁, serveBehind runtime lib tree source layers req w =
        (.ok (.result (.response inner)), w₁) ∧
      layer.finish runtime req (.result (.response inner)) w₁ =
        (.ok (.result (.response resp)), w') := by
  have hcall : serveBehind runtime lib tree source (layer :: layers) req w =
      (do let value ← serveBehind runtime lib tree source layers req
          layer.finish runtime req value) w := by
    cases layer <;> rfl
  rw [hcall, Act.bind_eq_ok] at h
  obtain ⟨value, w₁, hvalue, hfinish⟩ := h
  cases value with
  | awaitable run =>
    cases layer with
    | compression m => cases hfinish
    | gzip m => cases hfinish
  | result result =>
    cases result with
    | stream resp =>
      cases layer with
      | compression m => cases hfinish
      | gzip m => cases hfinish
    | response inner => exact ⟨inner, w₁, hvalue, hfinish⟩

/-- What a stack sends with status 200. -/
theorem serveBehind_represents (hfind : source.find tree req = .ok (path, data))
    (layers : List CompressionLayer) {w w' : World α} {resp : Response}
    (h : serveBehind runtime lib tree source layers req w =
      (.ok (.result (.response resp)), w')) (hstatus : resp.status = 200) :
    Represents runtime lib data w.calls (stackCoding lib source req path data layers)
        (source.contentType lib path) resp ∧
      (stackCoding lib source req path data layers = none → w' = w) := by
  induction layers generalizing resp w' with
  | nil => exact serve_represents hfind h hstatus
  | cons layer layers ih =>
    obtain ⟨inner, w₁, hinner, hfinish⟩ := layer_run h
    have hinnerStatus : inner.status = 200 := (layer.finish_status hfinish).symm.trans hstatus
    obtain ⟨⟨hbody, hencoding, hetag, htype⟩, hcalls⟩ := ih hinner hinnerStatus
    rw [stackCoding]
    cases hinside : stackCoding lib source req path data layers with
    | some coding =>
      rw [hinside] at hbody hencoding
      rw [layer.finish_none w₁ fun hplain =>
        absurd (Response.coded_of_encoding hencoding) hplain] at hfinish
      cases hfinish
      exact ⟨⟨hbody, hencoding, hetag, htype⟩, nofun⟩
    | none =>
      rw [hinside] at hbody hencoding
      cases hcalls hinside
      have hsize : inner.body.length = data.content.length := congrArg List.length hbody
      rw [Option.none_or, ← hsize, ← htype]
      cases hown : layer.coding req inner.body.length inner.contentType with
      | none =>
        rw [layer.finish_none w fun _ => hown] at hfinish
        cases hfinish
        exact ⟨⟨hbody, hencoding, hetag, rfl⟩, fun _ => rfl⟩
      | some coding =>
        rw [layer.finish_some w (Response.not_coded hencoding) hown] at hfinish
        cases hfinish
        exact ⟨encoded_represents ⟨hbody, hencoding, hetag, rfl⟩ rfl, nofun⟩

/-- Two codings of a content, each at its call of the compressor, come to the same. -/
def SameCoding (runtime : Runtime) (content : Bytes) (call₁ call₂ : Nat)
    (coding₁ coding₂ : Option Coding) : Prop :=
  coding₁.map Coding.name = coding₂.map Coding.name ∧
    coding₁.map (·.compress runtime content call₁) = coding₂.map (·.compress runtime content call₂)

/-- A file of one byte, `a.txt`. -/
def noteTree : FileTree := .flat ((∅ : Dict Str FileData).set "a.txt".toList ⟨[97], 0⟩) (by decide)

def noteLibrary : FileLibrary where
  sha256Hex _ := "0f".toList
  formatdate _ := "Thu, 01 Jan 1970 00:00:00 GMT".toList
  guessType _ := some "text/plain".toList

/-- What the compressors make of that byte. -/
def noteRuntime : Runtime where
  monotonic _ := 0
  time _ := 0
  tokenUrlsafe _ := []
  gzip _ _ call := [31, 139, 8, 0, call.toUInt8, 0, 0, 0, 0, 255, 75, 4, 0, 67, 190, 183, 232,
    1, 0, 0, 0]
  zlib _ _ := [120, 156, 75, 4, 0, 0, 98, 0, 98]

def noteWorld : World Unit := ⟨0, none, fun _ => ∅, fun _ => ∅, ()⟩

/-- A request for `/static/a.txt` with these headers. -/
def noteRequest (headers : List (Str × Str)) : Request :=
  { plainRequest "GET".toList with
    target := "/static/a.txt".toList
    headers := (∅ : Headers).update headers
    path := "/static/a.txt".toList }

/-- That file behind a `GZipMiddleware`. -/
def serveNote : Endpoint (World Unit) :=
  serveBehind noteRuntime noteLibrary noteTree (.static [] "/static/".toList) [.gzip ⟨1, 6⟩]

/-- The byte is sent as it is. -/
def plainNote : Response :=
  serveStatic noteLibrary (noteRequest []) ["a.txt".toList] ⟨[97], 0⟩

/-- The byte is sent in the coding `gzip`. -/
def gzipNote : Response :=
  CompressionMiddleware.encoded plainNote "gzip".toList (noteRuntime.gzip [97] 6 0)

/-- Two responses with status 200 to requests for one file have the same ETag, and they have the same
bytes and the same `Content-Encoding` exactly where the requests lead to the same coding. -/
theorem etag_identifies_iff (runtime : Runtime) (lib : FileLibrary) (tree : FileTree)
    (path : List Str) (data : FileData) {source₁ source₂ : FileSource}
    {layers₁ layers₂ : List CompressionLayer} {req₁ req₂ : Request} {w₁ w₁' w₂ w₂' : World α}
    {resp₁ resp₂ : Response} (hfind₁ : source₁.find tree req₁ = .ok (path, data))
    (hfind₂ : source₂.find tree req₂ = .ok (path, data))
    (hserve₁ : serveBehind runtime lib tree source₁ layers₁ req₁ w₁ =
      (.ok (.result (.response resp₁)), w₁')) (hstatus₁ : resp₁.status = 200)
    (hserve₂ : serveBehind runtime lib tree source₂ layers₂ req₂ w₂ =
      (.ok (.result (.response resp₂)), w₂')) (hstatus₂ : resp₂.status = 200) :
    resp₁.headers.get? "ETag".toList = resp₂.headers.get? "ETag".toList ∧
      (resp₁.body = resp₂.body ∧ resp₁.encoding = resp₂.encoding ↔
        SameCoding runtime data.content w₁.calls w₂.calls
          (stackCoding lib source₁ req₁ path data layers₁)
          (stackCoding lib source₂ req₂ path data layers₂)) := by
  obtain ⟨⟨hbody₁, hencoding₁, hetag₁, -⟩, -⟩ := serveBehind_represents hfind₁ layers₁ hserve₁ hstatus₁
  obtain ⟨⟨hbody₂, hencoding₂, hetag₂, -⟩, -⟩ := serveBehind_represents hfind₂ layers₂ hserve₂ hstatus₂
  refine ⟨hetag₁.trans hetag₂.symm, ?_⟩
  rw [hbody₁, hbody₂, hencoding₁, hencoding₂, SameCoding]
  cases stackCoding lib source₁ req₁ path data layers₁ with
  | none =>
    cases stackCoding lib source₂ req₂ path data layers₂ with
    | none => simp
    | some coding₂ => simp
  | some coding₁ =>
    cases stackCoding lib source₂ req₂ path data layers₂ with
    | none => simp
    | some coding₂ => simp [and_comm]

theorem etag_identifies_iff_note :
    plainNote.headers.get? "ETag".toList = gzipNote.headers.get? "ETag".toList ∧
      (plainNote.body = gzipNote.body ∧ plainNote.encoding = gzipNote.encoding ↔
        SameCoding noteRuntime [97] 0 0 none (some (.gzip 6))) := by
  have hplain : serveNote (noteRequest []) noteWorld =
      (.ok (.result (.response plainNote)), noteWorld) := rfl
  have hgzip : serveNote (noteRequest [("accept-encoding".toList, "gzip".toList)]) noteWorld =
      (.ok (.result (.response gzipNote)), { noteWorld with calls := 1 }) := rfl
  exact etag_identifies_iff noteRuntime noteLibrary noteTree ["a.txt".toList] ⟨[97], 0⟩ rfl rfl
    hplain rfl hgzip rfl

/-- A client that takes `gzip` and one that does not get one ETag for two representations. -/
theorem etag_of_two_codings :
    serveNote (noteRequest []) noteWorld = (.ok (.result (.response plainNote)), noteWorld) ∧
      serveNote (noteRequest [("accept-encoding".toList, "gzip".toList)]) noteWorld =
        (.ok (.result (.response gzipNote)), { noteWorld with calls := 1 }) ∧
      plainNote.status = 200 ∧ gzipNote.status = 200 ∧
      (∃ etag, plainNote.headers.get? "ETag".toList = some etag ∧
        gzipNote.headers.get? "ETag".toList = some etag) ∧
      plainNote.body ≠ gzipNote.body ∧ plainNote.encoding ≠ gzipNote.encoding := by
  refine ⟨rfl, rfl, rfl, rfl, ⟨noteLibrary.etag ⟨[97], 0⟩, ?_, ?_⟩, ?_, ?_⟩
  · decide +kernel
  · decide +kernel
  · decide +kernel
  · decide +kernel

end Sovereign
