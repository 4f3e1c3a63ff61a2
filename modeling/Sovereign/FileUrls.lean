import Sovereign.Quote
import Sovereign.RoutePattern
import Sovereign.Server
import Sovereign.StrongEtag

namespace Sovereign
open PosixPath
set_option autoImplicit true

/-- The directives of `CSP()`. -/
def cspDirectives : List (Str × List Str) :=
  [("default-src".toList, ["'self'".toList]), ("base-uri".toList, ["'none'".toList]),
    ("object-src".toList, ["'none'".toList]), ("frame-ancestors".toList, ["'none'".toList]),
    ("img-src".toList, ["'self'".toList, "data:".toList]),
    ("font-src".toList, ["'self'".toList, "data:".toList]),
    ("style-src".toList, ["'self'".toList]), ("script-src".toList, ["'self'".toList]),
    ("connect-src".toList, ["'self'".toList]), ("form-action".toList, ["'self'".toList]),
    ("manifest-src".toList, ["'self'".toList]), ("worker-src".toList, ["'self'".toList])]

/-- `CSP.__str__` -/
def cspText (directives : List (Str × List Str)) : Str :=
  "; ".toList.intercalate (directives.map fun (k, v) => k ++ ' ' :: " ".toList.intercalate v)

/-- What `HTML5SecurityHeadersMiddleware()` sets where it is not set. -/
def html5SecurityHeaders : List (Str × Str) :=
  [("X-Content-Type-Options".toList, "nosniff".toList),
    ("Referrer-Policy".toList, "strict-origin-when-cross-origin".toList),
    ("Permissions-Policy".toList, "geolocation=(), microphone=(), camera=(), payment=()".toList),
    ("Content-Security-Policy".toList, cspText cspDirectives)]

def secureHeaders (headers : Headers) : Headers :=
  html5SecurityHeaders.foldl (fun headers e => headers.setDefault e.1 e.2) headers

/-- `HTML5SecurityHeadersMiddleware._apply`. An awaitable has no headers. -/
def secureResponse : Val σ → Val σ
  | .result resp => .result (resp.withHeaders secureHeaders)
  | .awaitable run => .awaitable run

/-- The coroutine function `finalize` in `HTML5SecurityHeadersMiddleware.__call__`. -/
def finalizeSecure (run : Act σ (Val σ)) : Act σ (Val σ) := secureResponse <$> run

/-- What `HTML5SecurityHeadersMiddleware.__call__` makes of what `call_next` returns. -/
def secureNext : Val σ → Val σ
  | .awaitable run => .awaitable (finalizeSecure run)
  | .result resp => secureResponse (.result resp)

/-- `HTML5SecurityHeadersMiddleware.__call__` -/
def html5SecurityMiddleware : Middleware σ where
  isCoroutineFunction := false
  body req callNext := do
    let resp ← callNext req
    return secureNext resp

/-- `HTML5App`. The files of its root are in a tree. -/
structure HTML5App where
  root : List Str
  pathPrefix : Str := "/".toList
  index : Str := "index.html".toList
  assetsPrefix : Str := "/assets".toList
  spaFallback : Bool := true
  securityHeaders : Bool := true
  exposeManifest : Bool := true

namespace HTML5App

variable (app : HTML5App) (runtime : Runtime) (lib : FileLibrary) (tree : FileTree)

/-- The local variables `prefix` and `assets_prefix` of `mount`. -/
def mountPrefix : Str :=
  let stripped := strip (· = '/') app.pathPrefix
  if stripped ≠ [] then '/' :: stripped else []

def mountAssets : Str := '/' :: strip (· = '/') app.assetsPrefix

def options (spaFallback : Bool) : Html5Options where
  index := app.index
  spaFallback := spaFallback

/-- `asset_path` in `html5_asset` -/
def assetPath (params : Dict Str Str) : Str :=
  strip (· = '/') app.mountAssets ++ '/' :: (params.get? "asset_path".toList).getD []

def html5Asset : AppHandler (World α) μ where
  isCoroutineFunction := false
  name := "html5_asset".toList
  body groups req := serveHtml5File runtime lib tree (app.options false) app.root req
    (app.assetPath (routeParams groups))

def html5Page : AppHandler (World α) μ where
  isCoroutineFunction := false
  name := "html5_page".toList
  body groups req := serveHtml5File runtime lib tree (app.options app.spaFallback) app.root req
    (((routeParams groups).get? "page_path".toList).getD [])

def assetPattern : Str := app.mountAssets ++ "/\x7basset_path:path\x7d".toList

def pagePattern : Str :=
  (if app.mountPrefix ≠ [] then app.mountPrefix else "/".toList) ++ "\x7bpage_path:path\x7d".toList

/-- The registrations that `mount` makes; `assetsManifest` is the handler for the manifest. -/
def mount (assetsManifest : AppHandler (World α) μ) : List (Registration (World α) μ) :=
  (if app.exposeManifest then [.route "/__assets.json".toList ["GET".toList] [] assetsManifest]
    else []) ++
  [.route app.assetPattern ["GET".toList, "HEAD".toList] [] (app.html5Asset runtime lib tree),
    .route app.pagePattern ["GET".toList, "HEAD".toList] [] (app.html5Page runtime lib tree)]

/-- The router that the application is mounted on, with the routes of other registrations before
and after it. -/
def router (other : Str → Option Match) (base : Router (World α))
    (before after : List (Registration (World α) μ)) (assetsManifest : AppHandler (World α) μ) :
    Router (World α) :=
  { base.withRoutes (routesAfter (compileRoute other)
      (before ++ app.mount runtime lib tree assetsManifest ++ after)) with
    middlewares := if app.securityHeaders then [html5SecurityMiddleware] else [] }

end HTML5App

/-- The path below its base that `safe_join` finds for a text. -/
def namedPath (userPath : Str) : Option (List Str) :=
  if hasNul (joinedNames userPath) then none else some (joinedNames userPath)

theorem safeJoin_eq (base : List Str) (userPath : Str) :
    safeJoin base userPath =
      match namedPath userPath with
      | none => .error (.builtin .valueError)
      | some path => .ok (base ++ path) := by
  rw [safeJoin, namedPath]
  dsimp only
  split
  · rfl
  · rw [if_pos (List.prefix_append _ _)]

/-- A text that `safe_join` takes as it is. -/
def Literal (s : Str) : Prop := '\\' ∉ s ∧ unquote s = s

/-- A text that names its own path is taken as it is. -/
theorem namedPath_text_iff {path : List Str} (hne : path ≠ []) (h : ∀ name ∈ path, ValidName name) :
    namedPath (text path) = some path ↔ Literal (text path) := by
  constructor
  · intro hnamed
    rw [namedPath] at hnamed
    split at hnamed
    · cases hnamed
    · have hnormal := Option.some.inj hnamed
      rw [joinedNames] at hnormal
      obtain ⟨hle, heq⟩ := length_unquote ((text path).map fun c => if c = '\\' then '/' else c)
      rw [List.length_map] at hle heq
      have htext := text_normalize (by rw [hnormal]; exact hne) (by rw [hnormal]; exact hle)
      rw [hnormal] at htext
      have hmap : (text path).map (fun c => if c = '\\' then '/' else c) = text path :=
        (heq (congrArg List.length htext.symm)).symm.trans htext.symm
      refine ⟨fun hmem => ?_, ?_⟩
      · have hback : '\\' ∈ (text path).map fun c => if c = '\\' then '/' else c := by
          rw [hmap]
          exact hmem
        obtain ⟨c, -, hc⟩ := List.mem_map.1 hback
        split at hc
        · cases hc
        · next hother => exact hother hc
      · rw [hmap] at htext
        exact htext.symm
  · rintro ⟨hback, hunquote⟩
    have hmap : (text path).map (fun c => if c = '\\' then '/' else c) = text path := by
      refine (List.map_congr_left fun c hc => ?_).trans (List.map_id _)
      exact if_neg fun (heq : c = '\\') => hback (heq ▸ hc)
    have hnames : joinedNames (text path) = path := by
      rw [joinedNames, hmap, hunquote, normalize_text hne h]
    have hnul : hasNul path = false := hasNul_iff.2 fun name hname => (h name hname).2.2.2.2
    rw [namedPath, hnames, hnul]
    exact if_neg Bool.false_ne_true

/-- The condition of `serve_html5_file` for the page of a single-page application. -/
def FallsBack (opts : Html5Options) (req : Request) : Prop :=
  opts.spaFallback = true ∧ req.method ∈ ["GET".toList, "HEAD".toList] ∧
    (contains "text/html".toList (req.header "accept".toList) ∨
      contains "*/*".toList (req.header "accept".toList) ∨ req.header "accept".toList = [])

instance (opts : Html5Options) (req : Request) : Decidable (FallsBack opts req) :=
  inferInstanceAs (Decidable (_ ∧ _))

/-- The name of a file leads to the file: it is taken as it is, or it leads to an index file that
happens to be this file. -/
def LeadsTo (tree : FileTree) (opts : Html5Options) (root : List Str) (req : Request)
    (path : List Str) : Prop :=
  Literal (text path) ∨
    ∃ other index, namedPath (text path) = some other ∧ namedPath opts.index = some index ∧
      (tree.isDir (root ++ other) = true ∧ path = other ++ index ∨
        FallsBack opts req ∧ path = index ∧
          (tree.file? (root ++
            if tree.isDir (root ++ other) = true then other ++ index else other)).isNone)

/-- The candidate that `serve_html5_file` begins with, and that in a directory. -/
def firstCandidate (tree : FileTree) (opts : Html5Options) (root : List Str) (s : Str) :
    Option (List Str) :=
  match namedPath s with
  | none => none
  | some path =>
    if tree.isDir (root ++ path) = true then (namedPath opts.index).map fun index => path ++ index
    else some path

/-- The candidate that `serve_html5_file` ends with. -/
def lastCandidate (tree : FileTree) (opts : Html5Options) (root : List Str) (req : Request)
    (s : Str) : Option (List Str) :=
  match firstCandidate tree opts root s with
  | none => none
  | some path =>
    if (tree.file? (root ++ path)).isNone ∧ FallsBack opts req then namedPath opts.index
    else some path

theorem findAsset_eq {tree : FileTree} {opts : Html5Options} {root : List Str} {req : Request}
    {s : Str} (hs : ∃ c rest, s = c :: rest ∧ c ≠ '/') :
    findAsset tree opts root req s =
      match lastCandidate tree opts root req s with
      | none => .error (.builtin .valueError)
      | some path =>
        match tree.file? (root ++ path) with
        | some data => .ok (root ++ path, data)
        | none => .error (.httpError 404 "HTML5 asset not found") := by
  obtain ⟨c, rest, rfl, hc⟩ := hs
  have hstrip : (c :: rest).dropWhile (· = '/') = c :: rest :=
    List.dropWhile_cons_of_neg (by simpa using hc)
  have hne : ¬ (c :: rest) = [] := List.cons_ne_nil c rest
  -- what follows once there is a first candidate
  have hlast : ∀ candidate path : List Str, candidate = root ++ path →
      (do let candidate ←
            if (tree.file? candidate).isNone ∧ opts.spaFallback = true ∧
                req.method ∈ ["GET".toList, "HEAD".toList] ∧
                (contains "text/html".toList (req.header "accept".toList) ∨
                  contains "*/*".toList (req.header "accept".toList) ∨
                  req.header "accept".toList = []) then
              safeJoin root opts.index
            else pure candidate
          match tree.file? candidate with
          | some data => return (candidate, data)
          | none => throw (.httpError 404 "HTML5 asset not found") :
        Except Exc (List Str × FileData)) =
      match (if (tree.file? (root ++ path)).isNone ∧ FallsBack opts req then namedPath opts.index
        else some path) with
      | none => .error (.builtin .valueError)
      | some path =>
        match tree.file? (root ++ path) with
        | some data => .ok (root ++ path, data)
        | none => .error (.httpError 404 "HTML5 asset not found") := by
    rintro _ path rfl
    rw [safeJoin_eq]
    by_cases hback : (tree.file? (root ++ path)).isNone ∧ FallsBack opts req
    · have hback' := hback
      rw [FallsBack] at hback'
      rw [if_pos hback, if_pos hback']
      cases namedPath opts.index with
      | none => rfl
      | some index => rfl
    · have hback' := hback
      rw [FallsBack] at hback'
      rw [if_neg hback, if_neg hback']
      rfl
  rw [findAsset, hstrip, if_neg hne, lastCandidate, firstCandidate, safeJoin_eq]
  cases namedPath (c :: rest) with
  | none => rfl
  | some path =>
    dsimp only
    rw [ok_bind]
    by_cases hdir : tree.isDir (root ++ path) = true
    · rw [if_pos hdir, if_pos hdir, safeJoin_eq]
      cases hindex : namedPath opts.index with
      | none => rfl
      | some index =>
        have hrest := hlast (root ++ path ++ index) (path ++ index) (List.append_assoc _ _ _)
        rw [hindex] at hrest
        exact hrest
    · rw [if_neg hdir, if_neg hdir]
      exact hlast (root ++ path) path rfl

theorem file?_not_dir {tree : FileTree} (h : tree.file? path = some data) :
    ¬ tree.isDir path = true := by
  intro hdir
  rw [FileTree.isDir, decide_eq_true_eq] at hdir
  rw [FileTree.file?, hdir] at h
  cases h

/-- The candidates of a file's own name end with the file exactly where the name leads to it. -/
theorem lastCandidate_iff {tree : FileTree} {opts : Html5Options} {root path : List Str}
    {req : Request} (hne : path ≠ []) (h : ∀ name ∈ path, ValidName name)
    (hfile : tree.file? (root ++ path) = some data) :
    lastCandidate tree opts root req (text path) = some path ↔
      LeadsTo tree opts root req path := by
  rw [LeadsTo, ← namedPath_text_iff hne h, lastCandidate, firstCandidate]
  cases hnamed : namedPath (text path) with
  | none => simp
  | some other =>
    constructor
    · intro hlast
      dsimp only at hlast
      by_cases hdir : tree.isDir (root ++ other) = true
      · rw [if_pos hdir] at hlast
        cases hindex : namedPath opts.index with
        | none =>
          rw [hindex] at hlast
          cases hlast
        | some index =>
          rw [hindex, Option.map_some] at hlast
          dsimp only at hlast
          split at hlast
          · next hback =>
            refine .inr ⟨other, index, rfl, rfl, .inr ⟨hback.2, (Option.some.inj hlast).symm, ?_⟩⟩
            rw [if_pos hdir]
            exact hback.1
          · exact .inr ⟨other, index, rfl, rfl, .inl ⟨hdir, (Option.some.inj hlast).symm⟩⟩
      · rw [if_neg hdir] at hlast
        dsimp only at hlast
        split at hlast
        · next hback =>
          refine .inr ⟨other, path, rfl, hlast, .inr ⟨hback.2, rfl, ?_⟩⟩
          rw [if_neg hdir]
          exact hback.1
        · exact .inl hlast
    · rintro (hother | ⟨other', index, hother, hindex, hcase⟩)
      · cases hother
        dsimp only
        rw [if_neg (file?_not_dir hfile)]
        dsimp only
        rw [hfile, if_neg fun hback => by cases hback.1]
      · cases hother
        dsimp only
        rw [hindex]
        rcases hcase with ⟨hdir, rfl⟩ | ⟨hback, rfl, hnone⟩
        · rw [if_pos hdir, Option.map_some]
          dsimp only
          rw [hfile, if_neg fun hback => by cases hback.1]
        · by_cases hdir : tree.isDir (root ++ other) = true
          · rw [if_pos hdir, Option.map_some]
            rw [if_pos hdir] at hnone
            exact if_pos ⟨hnone, hback⟩
          · rw [if_neg hdir]
            rw [if_neg hdir] at hnone
            exact if_pos ⟨hnone, hback⟩

section CleanHeaders

theorem CleanHeaders.set {headers : Headers} (h : CleanHeaders headers) (hname : Clean name)
    (hvalue : Clean value) : CleanHeaders (headers.set name value) := by
  intro e he
  rw [Dict.mem_entries_iff, Dict.get?_set] at he
  split at he
  · next hsame =>
    rw [hsame, ← Option.some.inj he]
    exact ⟨hname, hvalue⟩
  · exact h e (Dict.mem_entries_iff.2 he)

theorem CleanHeaders.setDefault {headers : Headers} (h : CleanHeaders headers)
    (hname : Clean name) (hvalue : Clean value) : CleanHeaders (headers.setDefault name value) := by
  rw [Dict.setDefault]
  split
  · exact h
  · exact h.set hname hvalue

theorem CleanHeaders.update {headers : Headers} (h : CleanHeaders headers)
    {more : List (Str × Str)} (hmore : ∀ e ∈ more, Clean e.1 ∧ Clean e.2) :
    CleanHeaders (headers.update more) := by
  induction more generalizing headers with
  | nil => exact h
  | cons e more ih =>
    obtain ⟨hname, hvalue⟩ := hmore e List.mem_cons_self
    exact ih (h.set hname hvalue) fun other hother => hmore other (List.mem_cons_of_mem e hother)

theorem CleanHeaders.empty : CleanHeaders (∅ : Headers) := fun _ he => nomatch he

theorem CleanHeaders.get? {headers : Headers} (h : CleanHeaders headers)
    (hget : headers.get? name = some value) : Clean value :=
  (h (name, value) (Dict.get?_eq_some.1 hget)).2

end CleanHeaders

theorem html5SecurityHeaders_clean : ∀ e ∈ html5SecurityHeaders, Clean e.1 ∧ Clean e.2 := by
  unfold Clean
  decide +kernel

theorem CleanHeaders.secure {headers : Headers} (h : CleanHeaders headers) :
    CleanHeaders (secureHeaders headers) := by
  have hfold : ∀ (more : List (Str × Str)) (headers : Headers), CleanHeaders headers →
      (∀ e ∈ more, Clean e.1 ∧ Clean e.2) →
      CleanHeaders (more.foldl (fun headers e => headers.setDefault e.1 e.2) headers) := by
    intro more
    induction more with
    | nil => exact fun headers h _ => h
    | cons e more ih =>
      intro headers h hmore
      obtain ⟨hname, hvalue⟩ := hmore e List.mem_cons_self
      exact ih _ (h.setDefault hname hvalue) fun other hother =>
        hmore other (List.mem_cons_of_mem e hother)
  exact hfold _ headers h html5SecurityHeaders_clean

/-- The middleware leaves the other headers alone. -/
theorem get?_secureHeaders (headers : Headers) (hname : name ∉ html5SecurityHeaders.map Prod.fst) :
    (secureHeaders headers).get? name = headers.get? name := by
  have hfold : ∀ (more : List (Str × Str)) (headers : Headers), name ∉ more.map Prod.fst →
      (more.foldl (fun headers e => headers.setDefault e.1 e.2) headers).get? name =
        headers.get? name := by
    intro more
    induction more with
    | nil => exact fun _ _ => rfl
    | cons e more ih =>
      intro headers hname
      rw [List.map_cons, List.mem_cons, not_or] at hname
      rw [List.foldl_cons, ih _ hname.2, Dict.get?_setDefault, if_neg hname.1, Option.or_none]
  exact hfold _ headers hname

/-- The standard library gives texts that can stand in a header block. -/
structure CleanLibrary (lib : FileLibrary) : Prop where
  sha256Hex : ∀ data, Clean (lib.sha256Hex data)
  formatdate : ∀ time, Clean (lib.formatdate time)
  guessType : ∀ name type, lib.guessType name = some type → Clean type

theorem html5MimeTypes_clean : ∀ e ∈ html5MimeTypes, Clean e.2 := by
  unfold Clean
  decide +kernel

theorem guessHtml5Type_clean {lib : FileLibrary} (h : CleanLibrary lib) (name : Str) :
    Clean (lib.guessHtml5Type name) := by
  have htable : Clean ((html5MimeTypes.lookup (lower (fileSuffix name))).getD []) := by
    cases htype : html5MimeTypes.lookup (lower (fileSuffix name)) with
    | none => exact fun _ hc => nomatch hc
    | some type =>
      obtain ⟨before, after, hsplit, -⟩ := List.lookup_eq_some_iff.1 htype
      have hmem : (lower (fileSuffix name), type) ∈ html5MimeTypes := by
        rw [hsplit]
        exact List.mem_append_right _ List.mem_cons_self
      exact html5MimeTypes_clean _ hmem
  have hguess : Clean ((lib.guessType name).getD []) := by
    cases hguess : lib.guessType name with
    | none => exact fun _ hc => nomatch hc
    | some type => exact h.guessType name type hguess
  rw [FileLibrary.guessHtml5Type]
  split
  · exact htable
  · dsimp only
    split
    · exact hguess
    · decide

/-- The headers of a file that is served by an application. -/
def HTML5App.fileHeaders (app : HTML5App) (lib : FileLibrary) (opts : Html5Options)
    (path : List Str) (data : FileData) : Headers :=
  let headers := assetHeaders lib opts app.root (app.root ++ path) data
  if app.securityHeaders then secureHeaders headers else headers

theorem clean_take {s : Str} (h : Clean s) (n : Nat) : Clean (s.take n) :=
  fun c hc => h c (List.mem_of_mem_take hc)

theorem assetHeaders_clean {lib : FileLibrary} (h : CleanLibrary lib) (opts : Html5Options)
    (root : List Str) {path : List Str} (data : FileData) (hpath : Clean (text path)) :
    CleanHeaders (assetHeaders lib opts root (root ++ path) data) := by
  have hetag : Clean (lib.etag data) := by
    have hquote : Clean ['"'] := by decide
    exact clean_append (clean_append hquote (clean_take (h.sha256Hex _) 32)) hquote
  have hcache : ∀ immutable : Bool, Clean ("public, max-age=".toList ++
      decimal (if immutable then 31536000 else opts.maxAge) ++
      if immutable then ", immutable".toList else []) := by
    intro immutable
    refine clean_append (clean_append (by decide) (clean_decimal _)) ?_
    split
    · decide
    · exact fun _ hc => nomatch hc
  have hasset : Clean ('/' :: text path) := clean_append (by decide : Clean ['/']) hpath
  rw [assetHeaders, List.drop_left]
  apply CleanHeaders.empty.update
  intro e he
  simp only [List.mem_cons, List.not_mem_nil, or_false] at he
  rcases he with rfl | rfl | rfl | rfl | rfl
  · exact ⟨(by decide : Clean "Cache-Control".toList), hcache _⟩
  · exact ⟨(by decide : Clean "ETag".toList), hetag⟩
  · exact ⟨(by decide : Clean "Last-Modified".toList), h.formatdate _⟩
  · exact ⟨(by decide : Clean "Accept-Ranges".toList), (by decide : Clean "bytes".toList)⟩
  · exact ⟨(by decide : Clean "X-Sovereign-Asset".toList), hasset⟩

theorem fileHeaders_clean {app : HTML5App} {lib : FileLibrary} (h : CleanLibrary lib)
    (opts : Html5Options) {path : List Str} (data : FileData) (hpath : Clean (text path)) :
    CleanHeaders (app.fileHeaders lib opts path data) := by
  rw [HTML5App.fileHeaders]
  split
  · exact (assetHeaders_clean h opts app.root data hpath).secure
  · exact assetHeaders_clean h opts app.root data hpath

theorem get?_fileHeaders {app : HTML5App} {lib : FileLibrary} {opts : Html5Options}
    {path : List Str} {data : FileData} (hname : name ∉ html5SecurityHeaders.map Prod.fst) :
    (app.fileHeaders lib opts path data).get? name =
      (assetHeaders lib opts app.root (app.root ++ path) data).get? name := by
  rw [HTML5App.fileHeaders]
  split
  · exact get?_secureHeaders _ hname
  · rfl

theorem securityHeaders_clean : ∀ e ∈ securityHeaders, Clean e.1 ∧ Clean e.2 := by
  unfold Clean
  decide +kernel

theorem responseHeaders_eq (req : Request) (resp : Response) :
    responseHeaders req (.response resp) =
      (((∅ : Headers).set "Content-Type".toList resp.contentType).set "Content-Length".toList
        (decimal resp.body.length)).update (ownHeaders req (.response resp)).entries := rfl

/-- The header block of a file can be sent exactly where the name of the file, and that of the
server, can stand in it. -/
theorem cleanHeaders_file {app : HTML5App} {lib : FileLibrary} (h : CleanLibrary lib)
    {opts : Html5Options} {path : List Str} {data : FileData} {req : Request}
    (hid : Clean req.requestId) (hdate : Clean date) {cfg : ServerConfig} {resp : Response}
    (hheaders : resp.headers = app.fileHeaders lib opts path data)
    (htype : Clean resp.contentType) (hstatus : resp.status = 200) :
    CleanHeaders (sentHeaders cfg date req (.response resp) keepAlive) ↔
      Clean (text path) ∧ Clean cfg.serverName := by
  have hstatus' : HandlerResult.status (.response resp) ≠ 101 := by
    rw [HandlerResult.status, hstatus]
    decide
  have hsent : sentHeaders cfg date req (.response resp) keepAlive =
      (((∅ : Headers).update [("Date".toList, date), ("Server".toList, cfg.serverName),
        ("Connection".toList, if keepAlive then "keep-alive".toList else "close".toList)]).update
          securityHeaders).update (responseHeaders req (.response resp)).entries := by
    rw [sentHeaders, mergedHeaders, if_pos hstatus']
  have hown : ∀ name, (ownHeaders req (.response resp)).get? name =
      ((app.fileHeaders lib opts path data).get? name).or
        (if name = "X-Request-Id".toList then some req.requestId else none) := by
    intro name
    rw [ownHeaders, Dict.get?_setDefault, ← hheaders]
    rfl
  rw [hsent]
  constructor
  · intro hclean
    constructor
    · have hasset : (app.fileHeaders lib opts path data).get? "X-Sovereign-Asset".toList =
          some ('/' :: text path) := by
        rw [get?_fileHeaders (by decide), assetHeaders, List.drop_left]
        rfl
      have hmerged : Clean ('/' :: text path) := by
        apply hclean.get?
        rw [Dict.get?_update_entries, responseHeaders_eq, Dict.get?_update_entries, hown, hasset,
          Option.some_or, Option.some_or, Option.some_or]
      exact fun c hc => hmerged c (List.mem_cons_of_mem _ hc)
    · have hserver : (app.fileHeaders lib opts path data).get? "Server".toList = none := by
        rw [get?_fileHeaders (by decide), assetHeaders, Dict.get?_update]
        rfl
      have hnot : ¬ "Server".toList = "X-Request-Id".toList := by decide
      have htype : ¬ "Server".toList = "Content-Type".toList := by decide
      have hlength : ¬ "Server".toList = "Content-Length".toList := by decide
      apply hclean.get?
      rw [Dict.get?_update_entries, responseHeaders_eq, Dict.get?_update_entries, hown, hserver,
        if_neg hnot, Dict.get?_set, Dict.get?_set, if_neg hlength, if_neg htype, Dict.get?_update]
      rfl
  · rintro ⟨hpath, hserver⟩
    have hconnection : Clean (if keepAlive = true then "keep-alive".toList else "close".toList) := by
      split
      · decide
      · decide
    have hbase : CleanHeaders (((∅ : Headers).update [("Date".toList, date),
        ("Server".toList, cfg.serverName), ("Connection".toList,
          if keepAlive = true then "keep-alive".toList else "close".toList)]).update
            securityHeaders) := by
      apply CleanHeaders.update
      · apply CleanHeaders.empty.update
        intro e he
        simp only [List.mem_cons, List.not_mem_nil, or_false] at he
        rcases he with rfl | rfl | rfl
        · exact ⟨(by decide : Clean "Date".toList), hdate⟩
        · exact ⟨(by decide : Clean "Server".toList), hserver⟩
        · exact ⟨(by decide : Clean "Connection".toList), hconnection⟩
      · exact securityHeaders_clean
    have hresponse : CleanHeaders (responseHeaders req (.response resp)) := by
      rw [responseHeaders_eq]
      apply CleanHeaders.update
      · exact (CleanHeaders.empty.set (by decide) htype).set (by decide) (clean_decimal _)
      · have hfile : CleanHeaders resp.headers := by
          rw [hheaders]
          exact fileHeaders_clean h opts data hpath
        exact hfile.setDefault (by decide) hid
    exact hbase.update hresponse

namespace HTML5App

variable (app : HTML5App) (runtime : Runtime) (lib : FileLibrary) (tree : FileTree)

/-- The calls of `Router.add` for `GET` that `mount` makes for files. -/
def assetCall : AddCall (World α) μ :=
  ⟨"GET".toList, app.assetPattern, app.html5Asset runtime lib tree, []⟩

def pageCall : AddCall (World α) μ :=
  ⟨"GET".toList, app.pagePattern, app.html5Page runtime lib tree, []⟩

/-- No other route comes first for the path of a file: neither a route of the server nor one that is
registered, so that a handler of the application serves the file with these options. The route for
assets is another one for files that are not in its directory. -/
structure Unshadowed (accepted : List (AddCall (World α) μ × Match)) (path file : Str)
    (opts : Html5Options) : Prop where
  docs : Router.isDocsPath path = false
  static : startsWith "/static/".toList path = false
  route : ∃ c, accepted.find? (serves "GET".toList path) = some c ∧
    (c.1 = app.pageCall runtime lib tree ∧ opts = app.options app.spaFallback ∨
      c.1 = app.assetCall runtime lib tree ∧ opts = app.options false ∧
        app.assetPath (routeParams ((c.2 path).getD ∅)) = file)

/-- The calls of `Router.add` that have made the routes. -/
def registered (other : Str → Option Match) (before after : List (Registration (World α) μ))
    (assetsManifest : AppHandler (World α) μ) : List (AddCall (World α) μ × Match) :=
  (before ++ app.mount runtime lib tree assetsManifest ++ after).flatMap
    (Registration.accepted (compileRoute other))

/-- What the security headers make of a response. -/
def finished (value : Val σ) : Val σ := if app.securityHeaders then secureResponse value else value

end HTML5App

theorem mem_accepted {compile : Str → Option Match} {registration : Registration σ μ}
    {c : AddCall σ μ × Match} (h : c ∈ registration.accepted compile) :
    c.1 ∈ registration.calls ∧ compile (trimPattern c.1.pattern) = some c.2 := by
  rw [Registration.accepted, List.mem_filterMap] at h
  obtain ⟨entry, hentry, hsome⟩ := h
  have hmem := (List.takeWhile_sublist _).subset hentry
  obtain ⟨call, hcall, rfl⟩ := List.mem_map.1 hmem
  obtain ⟨regex, hregex, rfl⟩ := Option.map_eq_some_iff.1 hsome
  exact ⟨hcall, hregex⟩

/-- The pieces of the pattern for pages. -/
def pagePieces : List Piece := [.lit '/', .bracePath ⟨"page_path".toList, by decide⟩]

theorem pagePattern_eq {app : HTML5App} (hstarts : app.pathPrefix = "/".toList) :
    app.pagePattern = patternText pagePieces := by
  have hmount : app.mountPrefix = [] := by
    rw [HTML5App.mountPrefix, hstarts]
    rfl
  rw [HTML5App.pagePattern, hmount]
  rfl

/-- The pieces of the pattern for assets where nothing else is asked for. -/
def assetPieces : List Piece :=
  "/assets/".toList.map .lit ++ [.bracePath ⟨"asset_path".toList, by decide⟩]

theorem assetPattern_eq {app : HTML5App} (hassets : app.assetsPrefix = "/assets".toList) :
    app.assetPattern = patternText assetPieces := by
  rw [HTML5App.assetPattern, HTML5App.mountAssets, hassets]
  decide +kernel

theorem fill_lits (value : Str → Str) (s : Str) (ps : List Piece) :
    fill value (s.map .lit ++ ps) = s ++ fill value ps := by
  induction s with
  | nil => rfl
  | cons c s ih =>
    rw [List.map_cons, List.cons_append, fill_cons, ih]
    rfl

theorem fill_assetPieces (value : Str → Str) :
    fill value assetPieces = "/assets/".toList ++ value "asset_path".toList := by
  have hparam : fill value [Piece.bracePath ⟨"asset_path".toList, by decide⟩] =
      value "asset_path".toList := List.append_nil _
  have hlits := fill_lits value "/assets/".toList
    [Piece.bracePath ⟨"asset_path".toList, by decide⟩]
  rw [hparam] at hlits
  exact hlits

theorem fill_pagePieces (value : Str → Str) :
    fill value pagePieces = '/' :: value "page_path".toList := by
  rw [pagePieces, fill_cons, fill_cons]
  exact congrArg _ (List.append_nil _)

/-- The regular expressions of the two routes. -/
def mountMatch (pieces : List Piece) : Match := fun path =>
  ((Regex.seq .start (bodyRegex pieces)).firstMatch path).map (∅ : Dict Str Str).update

theorem compile_asset {app : HTML5App} (hassets : app.assetsPrefix = "/assets".toList)
    (other : Str → Option Match) :
    compileRoute other (trimPattern app.assetPattern) = some (mountMatch assetPieces) := by
  have htrim : trimPieces assetPieces = assetPieces := by decide
  rw [assetPattern_eq hassets, trimPattern_patternText, htrim,
    compileRoute_patternText other (by decide) (by decide)]
  rfl

theorem compile_page {app : HTML5App} (hstarts : app.pathPrefix = "/".toList)
    (other : Str → Option Match) :
    compileRoute other (trimPattern app.pagePattern) = some (mountMatch pagePieces) := by
  have htrim : trimPieces pagePieces = pagePieces := by decide
  rw [pagePattern_eq hstarts, trimPattern_patternText, htrim,
    compileRoute_patternText other (by decide) (by decide)]
  rfl

/-- The parameter of the route for pages is the path as it was quoted, read back. -/
theorem page_text {app : HTML5App} (hstarts : app.pathPrefix = "/".toList)
    {other : Str → Option Match} {regex : Match} {quoted : Str}
    (hcompile : compileRoute other (trimPattern app.pagePattern) = some regex)
    (hline : '\n' ∉ '/' :: quoted) (hlast : ∃ init c, quoted = init ++ [c] ∧ c ≠ '/')
    (hmatch : regex ('/' :: quoted) = some groups) :
    (routeParams groups).get? "page_path".toList = some (unquote quoted) := by
  have htrim : trimPieces pagePieces = pagePieces := by decide
  have hnames : (paramNames pagePieces).Nodup := by decide
  rw [pagePattern_eq hstarts, trimPattern_patternText, htrim,
    compileRoute_patternText other (by decide) hnames] at hcompile
  cases hcompile
  obtain ⟨caps, hcaps, rfl⟩ := Option.map_eq_some_iff.1 hmatch
  obtain ⟨value, rfl, hstands, -⟩ := firstMatch_stands hline hnames hcaps
  rw [get?_captures hnames, if_pos (by decide)]
  rw [fill_pagePieces] at hstands
  rcases hstands with hstands | hstands
  · rw [(List.cons.inj hstands).2]
  · obtain ⟨init, c, hquoted, hc⟩ := hlast
    rw [hquoted, List.cons_append, List.cons.injEq] at hstands
    have hends := List.append_inj_right' hstands.2 rfl
    exact absurd (List.cons.inj hends).1 hc

theorem quote_no_newline (s : Str) : '\n' ∉ '/' :: quote s := by
  rintro (_ | ⟨_, hmem⟩)
  have hquoted := quote_quoted s '\n' hmem
  revert hquoted
  decide

section Serving

variable {app : HTML5App} {runtime : Runtime} {lib : FileLibrary} {tree : FileTree}
  {other : Str → Option Match} {before after : List (Registration (World α) μ)}
  {assetsManifest : AppHandler (World α) μ} {path : List Str} {opts : Html5Options}

/-- A handler of the application comes to the text that has been quoted. -/
theorem handler_text (hstarts : app.pathPrefix = "/".toList) (hne : path ≠ [])
    (hvalid : ∀ name ∈ path, ValidName name)
    (h : app.Unshadowed runtime lib tree
      (app.registered runtime lib tree other before after assetsManifest)
      ('/' :: quote (text path)) (text path) opts) :
    ∃ (call : AddCall (World α) μ) (groups : Dict Str Str),
      decision (app.registered runtime lib tree other before after assetsManifest) "GET".toList
        ('/' :: quote (text path)) = .serve call groups ∧
      call.middlewares = [] ∧ call.handler.isCoroutineFunction = false ∧
      (∀ req, call.handler.body groups req =
        serveHtml5File runtime lib tree opts app.root req (text path)) ∧
      opts.index = app.index := by
  obtain ⟨c, hfind, hroute⟩ := h.route
  refine ⟨c.1, (c.2 ('/' :: quote (text path))).getD ∅, ?_, ?_⟩
  · rw [decision, hfind]
  · rcases hroute with ⟨hcall, rfl⟩ | ⟨hcall, rfl, hasset⟩
    · have hserves := List.find?_some hfind
      rw [serves, Bool.and_eq_true] at hserves
      obtain ⟨groups, hgroups⟩ := Option.isSome_iff_exists.1 hserves.1
      obtain ⟨registration, -, hc⟩ := List.mem_flatMap.1 (List.mem_of_find?_eq_some hfind)
      have hcompile := (mem_accepted hc).2
      rw [hcall] at hcompile
      have hparam := page_text hstarts hcompile (quote_no_newline _)
        (quote_last (text_ends hne hvalid).2) hgroups
      rw [unquote_quote] at hparam
      rw [hcall, hgroups]
      refine ⟨rfl, rfl, fun req => ?_, rfl⟩
      have hbody : (app.pageCall runtime lib tree : AddCall (World α) μ).handler.body groups req =
          serveHtml5File runtime lib tree (app.options app.spaFallback) app.root req
            (((routeParams groups).get? "page_path".toList).getD []) := by
        rw [HTML5App.pageCall, HTML5App.html5Page]
      rw [Option.getD_some, hbody, hparam, Option.getD_some]
    · rw [hcall]
      refine ⟨rfl, rfl, fun req => ?_, rfl⟩
      have hbody : ∀ groups,
          (app.assetCall runtime lib tree : AddCall (World α) μ).handler.body groups req =
            serveHtml5File runtime lib tree (app.options false) app.root req
              (app.assetPath (routeParams groups)) := by
        intro groups
        rw [HTML5App.assetCall, HTML5App.html5Asset]
      rw [hbody, hasset]

/-- The routes of `mount`, where it is the first thing that is registered. -/
theorem registered_mount (hstarts : app.pathPrefix = "/".toList)
    (hassets : app.assetsPrefix = "/assets".toList) :
    app.registered runtime lib tree other [] after assetsManifest =
      (if app.exposeManifest then
        [Registration.route "/__assets.json".toList ["GET".toList] [] assetsManifest] else []).flatMap
          (Registration.accepted (compileRoute other)) ++
      ([(app.assetCall runtime lib tree, mountMatch assetPieces),
        (⟨"HEAD".toList, app.assetPattern, app.html5Asset runtime lib tree, []⟩,
          mountMatch assetPieces),
        (app.pageCall runtime lib tree, mountMatch pagePieces),
        (⟨"HEAD".toList, app.pagePattern, app.html5Page runtime lib tree, []⟩,
          mountMatch pagePieces)] ++ after.flatMap (Registration.accepted (compileRoute other))) := by
  have haccepted : ∀ (pattern : Str) (fn : AppHandler (World α) μ) (regex : Match),
      compileRoute other (trimPattern pattern) = some regex →
      Registration.accepted (compileRoute other)
          (.route pattern ["GET".toList, "HEAD".toList] [] fn) =
        [(⟨"GET".toList, pattern, fn, []⟩, regex), (⟨"HEAD".toList, pattern, fn, []⟩, regex)] := by
    intro pattern fn regex hregex
    rw [Registration.accepted, Registration.calls, List.map_map, List.map_cons, List.map_cons,
      List.map_nil]
    dsimp only [Function.comp_apply]
    rw [hregex]
    rfl
  rw [HTML5App.registered, HTML5App.mount, List.nil_append, List.flatMap_append,
    List.flatMap_append, List.append_assoc, List.flatMap_cons, List.flatMap_cons, List.flatMap_nil,
    haccepted _ _ _ (compile_asset hassets other), haccepted _ _ _ (compile_page hstarts other)]
  rfl

theorem mountMatch_iff {pieces : List Piece} (hline : '\n' ∉ s)
    (hnames : (paramNames pieces).Nodup) :
    (mountMatch pieces s).isSome = true ↔ ∃ value, Stands pieces s value := by
  rw [mountMatch, Option.isSome_map, firstMatch_iff hline hnames]

/-- The parameter of the route for assets is what was quoted after the directory. -/
theorem asset_text (hassets : app.assetsPrefix = "/assets".toList) {s : Str}
    (hlast : ∃ init c, quote s = init ++ [c] ∧ c ≠ '/')
    (hmatch : mountMatch assetPieces ('/' :: quote s) = some groups) :
    app.assetPath (routeParams groups) = s := by
  have hnames : (paramNames assetPieces).Nodup := by decide
  obtain ⟨caps, hcaps, rfl⟩ := Option.map_eq_some_iff.1 hmatch
  obtain ⟨value, rfl, hstands, -⟩ := firstMatch_stands (quote_no_newline s) hnames hcaps
  rw [fill_assetPieces] at hstands
  have hquote : quote s = "assets/".toList ++ value "asset_path".toList := by
    rcases hstands with hstands | hstands
    · exact (List.cons.inj hstands).2
    · obtain ⟨init, c, hquoted, hc⟩ := hlast
      rw [hquoted] at hstands
      have hends := List.append_inj_right' (List.cons.inj hstands).2 rfl
      exact absurd (List.cons.inj hends).1 hc
  rw [HTML5App.assetPath, HTML5App.mountAssets, hassets, get?_captures hnames,
    if_pos (by decide), Option.getD_some]
  obtain ⟨more, rfl, hvalue⟩ := quote_eq_append (by decide) hquote
  have hdirectory : strip (· = '/') ('/' :: strip (· = '/') "/assets".toList) =
      "assets".toList := by
    decide +kernel
  rw [hdirectory, hvalue, unquote_quote]
  rfl

/-- Where nothing is registered before it, a mounted application serves every file that is not at
a path of the server's own. -/
theorem unshadowed_mount (hstarts : app.pathPrefix = "/".toList)
    (hassets : app.assetsPrefix = "/assets".toList) (hne : path ≠ [])
    (hvalid : ∀ name ∈ path, ValidName name)
    (hdocs : Router.isDocsPath ('/' :: quote (text path)) = false)
    (hstatic : startsWith "/static/".toList ('/' :: quote (text path)) = false)
    (hmanifest : app.exposeManifest = true → ∀ regex,
      compileRoute other "/__assets.json".toList = some regex →
        regex ('/' :: quote (text path)) = none) :
    app.Unshadowed runtime lib tree
      (app.registered runtime lib tree other [] after assetsManifest)
      ('/' :: quote (text path)) (text path)
      (app.options (app.spaFallback &&
        (mountMatch assetPieces ('/' :: quote (text path))).isNone)) := by
  refine ⟨hdocs, hstatic, ?_⟩
  have hfirst : ((if app.exposeManifest then
      [Registration.route "/__assets.json".toList ["GET".toList] [] assetsManifest] else []).flatMap
        (Registration.accepted (compileRoute other))).find?
          (serves "GET".toList ('/' :: quote (text path))) = none := by
    rw [List.find?_eq_none]
    intro c hc
    split at hc
    · next hexpose =>
      rw [List.flatMap_singleton] at hc
      obtain ⟨hcall, hregex⟩ := mem_accepted hc
      rw [Registration.calls, List.map_singleton, List.mem_singleton] at hcall
      rw [hcall] at hregex
      have htrim : trimPattern "/__assets.json".toList = "/__assets.json".toList := by
        decide +kernel
      rw [htrim] at hregex
      rw [serves, hmanifest hexpose _ hregex]
      exact Bool.false_ne_true
    · cases hc
  rw [registered_mount hstarts hassets, List.find?_append, hfirst, Option.none_or]
  cases hasset : mountMatch assetPieces ('/' :: quote (text path)) with
  | some groups =>
    refine ⟨(app.assetCall runtime lib tree, mountMatch assetPieces), ?_, .inr ⟨rfl, ?_, ?_⟩⟩
    · have hserves : serves "GET".toList ('/' :: quote (text path))
          ((app.assetCall runtime lib tree, mountMatch assetPieces) :
            AddCall (World α) μ × Match) = true := by
        rw [serves]
        dsimp only
        rw [hasset]
        rfl
      rw [List.cons_append, List.find?_cons_of_pos hserves]
    · rw [Option.isNone_some, Bool.and_false]
    · dsimp only
      rw [hasset, Option.getD_some]
      exact asset_text hassets (quote_last (text_ends hne hvalid).2) hasset
  | none =>
    have hpage : (mountMatch pagePieces ('/' :: quote (text path))).isSome = true := by
      rw [mountMatch_iff (quote_no_newline _) (by decide)]
      refine ⟨fun _ => quote (text path), .inl ?_, ?_⟩
      · rw [fill_pagePieces]
      · intro piece hpiece
        simp only [pagePieces, List.mem_cons, List.not_mem_nil, or_false] at hpiece
        rcases hpiece with rfl | rfl
        · trivial
        · trivial
    refine ⟨(app.pageCall runtime lib tree, mountMatch pagePieces), ?_, .inl ⟨rfl, ?_⟩⟩
    · have hnot : ∀ call : AddCall (World α) μ, ¬ serves "GET".toList ('/' :: quote (text path))
          (call, mountMatch assetPieces) = true := by
        intro call
        rw [serves]
        dsimp only
        rw [hasset]
        exact Bool.false_ne_true
      have hserves : serves "GET".toList ('/' :: quote (text path))
          ((app.pageCall runtime lib tree, mountMatch pagePieces) :
            AddCall (World α) μ × Match) = true := by
        rw [serves]
        dsimp only
        rw [hpage]
        rfl
      rw [List.cons_append, List.find?_cons_of_neg (hnot _), List.cons_append,
        List.find?_cons_of_neg (hnot _), List.cons_append, List.find?_cons_of_pos hserves]
    · rw [Option.isNone_none, Bool.and_true]

theorem secured_response (app : HTML5App) (resp : Response) :
    app.finished (.result (.response resp) : Val σ) =
      .result (.response { resp with headers :=
        if app.securityHeaders then secureHeaders resp.headers else resp.headers }) := by
  rw [HTML5App.finished]
  split
  · rfl
  · rfl

/-- The value that a handler of the application returns, or what it raises. -/
theorem serveHtml5File_run (runtime : Runtime) (lib : FileLibrary) (tree : FileTree)
    (opts : Html5Options) (root : List Str) (req : Request) (s : Str) (w : World α) :
    (∃ resp w', serveHtml5File runtime lib tree opts root req s w =
        (.ok (.result (.response resp)), w')) ∨
      ∃ e w', serveHtml5File runtime lib tree opts root req s w = (.error e, w') := by
  rw [serveHtml5File]
  cases findAsset tree opts root req s with
  | error e => exact .inr ⟨e, w, rfl⟩
  | ok found =>
    dsimp only
    rw [serveAsset]
    by_cases hmatch : req.header "if-none-match".toList = lib.etag found.2
    · rw [if_pos hmatch]
      exact .inl ⟨_, w, rfl⟩
    · rw [if_neg hmatch]
      cases rangeResponse req found.2.content (assetHeaders lib opts root found.1 found.2)
        (lib.guessHtml5Type (fileName found.1)) with
      | error e => exact .inr ⟨e, w, rfl⟩
      | ok ranged =>
        cases ranged with
        | some ranged => exact .inl ⟨ranged, w, rfl⟩
        | none =>
          dsimp only
          split
          · exact .inl ⟨_, _, rfl⟩
          · exact .inl ⟨_, w, rfl⟩

/-- The security headers in the two pipelines, over a handler that comes to a response or raises. -/
theorem execute_finished (app : HTML5App) {handler : Endpoint (World α)} {req : Request}
    {run : Act (World α) (Val (World α))} {w : World α} (hhandler : handler req w = run w)
    (hrun : (∃ resp w', run w = (.ok (.result (.response resp)), w')) ∨
      ∃ e w', run w = (.error e, w')) :
    build ((if app.securityHeaders then [html5SecurityMiddleware] else []) ++ []) handler req w =
        (do let value ← run
            return app.finished value) w ∧
      runner ((if app.securityHeaders then [html5SecurityMiddleware] else []) ++ [])
          (coroutineFunction handler) req w =
        (do let value ← run
            return app.finished value) w := by
  have hinvoke : invokeHandler (coroutineFunction handler) req w = run w := by
    rw [invokeHandler, coroutineFunction, pure_bind]
    exact hhandler
  -- the middleware over a `call_next` that returns the coroutine of the handler
  have hnext : runner [] (coroutineFunction handler) req w = run w := hinvoke
  have hrunner : runner [html5SecurityMiddleware] (coroutineFunction handler) req w =
      finalizeSecure (runner [] (coroutineFunction handler) req) w := rfl
  have hbuild : build [html5SecurityMiddleware] handler req w =
      (do let value ← handler req
          return secureNext value) w := rfl
  rw [List.append_nil, Act.bind_run]
  by_cases hsecurity : app.securityHeaders = true
  · rw [if_pos hsecurity, hrunner, hbuild, finalizeSecure, Act.map_run, hnext, Act.bind_run,
      hhandler]
    rcases hrun with ⟨resp, w', hrun⟩ | ⟨e, w', hrun⟩
    · rw [hrun]
      dsimp only
      rw [HTML5App.finished, if_pos hsecurity]
      exact ⟨rfl, rfl⟩
    · rw [hrun]
      exact ⟨rfl, rfl⟩
  · have hskip : build [] handler req w = handler req w := rfl
    rw [if_neg hsecurity, hnext, hskip, hhandler]
    rcases hrun with ⟨resp, w', hrun⟩ | ⟨e, w', hrun⟩
    · rw [hrun]
      dsimp only
      rw [HTML5App.finished, if_neg hsecurity]
      exact ⟨rfl, rfl⟩
    · rw [hrun]
      exact ⟨rfl, rfl⟩

/-- Both servers: what a handler of the application serves, with the security headers. -/
theorem produce_eq {program : Program (World α)} {base : Router (World α)} (req : Request)
    (hrouter : program.router = app.router runtime lib tree other base before after assetsManifest)
    (hstarts : app.pathPrefix = "/".toList) (hne : path ≠ [])
    (hvalid : ∀ name ∈ path, ValidName name)
    (h : app.Unshadowed runtime lib tree
      (app.registered runtime lib tree other before after assetsManifest)
      ('/' :: quote (text path)) (text path) opts) (hmethod : req.method = "GET".toList)
    (hpath : req.path = '/' :: quote (text path)) (staticMethods : List Str) (w : World α) :
    produceWith program staticMethods program.router.resolve program.router.execute req w =
        (do let value ← serveHtml5File runtime lib tree opts app.root req (text path)
            return app.finished value) w ∧
      produceWith program staticMethods program.router.resolveAsync program.router.executeAsync
          req w =
        (do let value ← serveHtml5File runtime lib tree opts app.root req (text path)
            return app.finished value) w := by
  obtain ⟨call, groups, hdecision, hmws, hplain, hbody, -⟩ := handler_text hstarts hne hvalid h
  obtain ⟨hsync, hasync, -⟩ := Router.resolve_decision (compileRoute other) base
    (before ++ app.mount runtime lib tree assetsManifest ++ after) "GET".toList h.docs
  have hstatic : ¬ (startsWith "/static/".toList req.path = true ∧ req.method ∈ staticMethods) := by
    rintro ⟨hstatic, -⟩
    rw [hpath, h.static] at hstatic
    cases hstatic
  have hresolve : program.router.resolve "GET".toList ('/' :: quote (text path)) =
      pure (callHandler call.handler.toHandler groups, []) := by
    rw [hrouter]
    have hperform := congrArg (Decision.perform id callHandler) hdecision
    rw [HTML5App.registered] at hperform
    refine hsync.trans (hperform.trans ?_)
    rw [Decision.perform, hmws]
    rfl
  have hresolveAsync : program.router.resolveAsync "GET".toList ('/' :: quote (text path)) =
      pure (coroutineFunction (callHandlerAsync call.handler.toHandler groups), []) := by
    rw [hrouter]
    have hperform := congrArg (Decision.perform coroutineFunction callHandlerAsync) hdecision
    rw [HTML5App.registered] at hperform
    refine hasync.trans (hperform.trans ?_)
    rw [Decision.perform, hmws]
  have hmiddlewares : program.router.middlewares =
      if app.securityHeaders then [html5SecurityMiddleware] else [] := by
    rw [hrouter]
    rfl
  have hserve := serveHtml5File_run runtime lib tree opts app.root req (text path) w
  have hown : call.handler.toHandler.call groups req =
      serveHtml5File runtime lib tree opts app.root req (text path) := by
    rw [Handler.call, hplain, if_neg Bool.false_ne_true, hbody]
  have hcall : callHandler call.handler.toHandler groups req w =
      serveHtml5File runtime lib tree opts app.root req (text path) w := by
    rw [callHandler, hown, Act.bind_run]
    rcases hserve with ⟨resp, w', hrun⟩ | ⟨e, w', hrun⟩
    · rw [hrun]
      rfl
    · rw [hrun]
  have hcallAsync : callHandlerAsync call.handler.toHandler groups req w =
      serveHtml5File runtime lib tree opts app.root req (text path) w := by
    rw [callHandlerAsync, hown, hplain, Act.bind_run]
    rcases hserve with ⟨resp, w', hrun⟩ | ⟨e, w', hrun⟩
    · rw [hrun]
      rfl
    · rw [hrun]
  constructor
  · rw [produceWith, if_neg hstatic, hmethod, hpath, hresolve, pure_bind]
    dsimp only
    rw [Router.execute, hmiddlewares]
    exact (execute_finished app hcall hserve).1
  · rw [produceWith, if_neg hstatic, hmethod, hpath, hresolveAsync, pure_bind]
    dsimp only
    rw [Router.executeAsync, hmiddlewares]
    exact (execute_finished app hcallAsync hserve).2

end Serving

/-- The request asks for the whole file as it is. -/
structure AsksForWhole (lib : FileLibrary) (opts : Html5Options) (root : List Str) (req : Request)
    (path : List Str) (data : FileData) : Prop where
  match_ : req.header "if-none-match".toList ≠ lib.etag data
  range : req.header "range".toList = [] ∨
    startsWith "bytes=".toList (req.header "range".toList) = false
  coding : FileSource.coding lib req (root ++ path) data (.html5 opts root (text path)) = none

/-- A file that is sent as a whole. -/
def wholeFile (lib : FileLibrary) (opts : Html5Options) (root path : List Str) (data : FileData) :
    Response where
  body := data.content
  headers := assetHeaders lib opts root (root ++ path) data
  contentType := lib.guessHtml5Type (fileName (root ++ path))

theorem rangeResponse_none {headers : Headers} {contentType : Str} :
    rangeResponse req body headers contentType = .ok none ↔
      req.header "range".toList = [] ∨
        startsWith "bytes=".toList (req.header "range".toList) = false := by
  rw [rangeResponse]
  split
  · next h => exact ⟨fun _ => h, fun _ => rfl⟩
  · next h =>
    refine ⟨fun hnone => ?_, fun hor => absurd hor h⟩
    split at hnone
    · cases hnone
    · cases hnone

/-- Exactly a request for the whole file gets it with status 200 and no coding. -/
theorem serveAsset_whole_iff {lib : FileLibrary} {opts : Html5Options} {root path : List Str}
    {req : Request} {data : FileData} {resp : Response} {w w' : World α} :
    serveAsset runtime lib opts root req (root ++ path) data w =
        (.ok (.result (.response resp)), w') ∧ resp.status = 200 ∧ resp.encoding = none ↔
      AsksForWhole lib opts root req path data ∧ resp = wholeFile lib opts root path data ∧
        w' = w := by
  constructor
  · rintro ⟨h, hstatus, hencoding⟩
    have hwhole : resp.encoding = (FileSource.coding lib req (root ++ path) data
        (.html5 opts root (text path))).map Coding.name :=
      (serveAsset_whole h hstatus).1.encoding
    rw [hencoding, eq_comm, Option.map_eq_none_iff] at hwhole
    rw [serveAsset] at h
    by_cases hmatch : req.header "if-none-match".toList = lib.etag data
    · rw [if_pos hmatch] at h
      cases h
      cases hstatus
    · rw [if_neg hmatch] at h
      cases hrange : rangeResponse req data.content (assetHeaders lib opts root (root ++ path) data)
        (lib.guessHtml5Type (fileName (root ++ path))) with
      | error e =>
        rw [hrange] at h
        cases h
      | ok ranged =>
        rw [hrange] at h
        cases ranged with
        | some ranged =>
          cases h
          rw [rangeResponse_status hrange] at hstatus
          cases hstatus
        | none =>
          dsimp only at h
          refine ⟨⟨hmatch, rangeResponse_none.1 hrange, hwhole⟩, ?_⟩
          rw [FileSource.coding] at hwhole
          split at hwhole
          · cases hwhole
          · next hgzip =>
            rw [if_neg hgzip] at h
            cases h
            exact ⟨rfl, rfl⟩
  · rintro ⟨⟨hmatch, hrange, hcoding⟩, rfl, rfl⟩
    refine ⟨?_, rfl, rfl⟩
    rw [FileSource.coding] at hcoding
    split at hcoding
    · cases hcoding
    · next hgzip =>
      rw [serveAsset, if_neg hmatch, rangeResponse_none.2 hrange]
      dsimp only
      rw [if_neg hgzip]
      rfl

theorem text_injective {path path' : List Str} (hne : path ≠ []) (h : ∀ name ∈ path, ValidName name)
    (h' : ∀ name ∈ path', ValidName name) (htext : text path' = text path) : path' = path := by
  have hne' : path' ≠ [] := by
    rintro rfl
    obtain ⟨⟨c, rest, hcons, -⟩, -⟩ := text_ends hne h
    rw [hcons] at htext
    cases htext
  rw [← splitOn_text hne fun name hname => (h name hname).2.2.2.1,
    ← splitOn_text hne' fun name hname => (h' name hname).2.2.2.1, htext]

/-- `urlsplit` leaves a target alone that is a slash and a quoted path. -/
theorem urlsplit_quote [Urllib] {s : Str} (h : ∃ c rest, s = c :: rest ∧ c ≠ '/') :
    urlsplit ('/' :: quote s) = some ('/' :: quote s, []) := by
  have hout : ∀ c, c ≠ '/' → isQuoted c = false → c ∉ '/' :: quote s := by
    rintro c hslash hquoted (_ | ⟨_, hmem⟩)
    · exact hslash rfl
    · rw [quote_quoted s c hmem] at hquoted
      cases hquoted
  have hfilter : ('/' :: quote s).filter (fun c => !(c ∈ ['\t', '\r', '\n'])) = '/' :: quote s := by
    rw [List.filter_eq_self]
    intro c hc
    rw [Bool.not_eq_true', decide_eq_false_iff_not]
    intro hspace
    simp only [List.mem_cons, List.not_mem_nil, or_false] at hspace
    rcases hspace with rfl | rfl | rfl
    · exact hout '\t' (by decide) (by decide) hc
    · exact hout '\r' (by decide) (by decide) hc
    · exact hout '\n' (by decide) (by decide) hc
  obtain ⟨c, rest, hquote, hc⟩ := quote_first h
  have hdouble : startsWith "//".toList ('/' :: quote s) = false := by
    rw [startsWith, Bool.eq_false_iff]
    intro hslashes
    obtain ⟨more, hmore⟩ := List.isPrefixOf_iff_prefix.1 hslashes
    rw [hquote] at hmore
    exact hc (List.cons.inj (List.cons.inj hmore).2).1.symm
  rw [urlsplit.eq_def, hfilter]
  dsimp only
  rw [hdouble, if_neg Bool.false_ne_true]
  dsimp only
  rw [splitFirst_none (hout '#' (by decide) (by decide))]
  dsimp only [Option.map_none, Option.getD_none]
  rw [splitFirst_none (hout '?' (by decide) (by decide))]
  rfl

/-- A file `a b`, and one whose name reads like the URL of the other. -/
def twinTree : FileTree :=
  .flat (((∅ : Dict Str FileData).set "a%20b".toList ⟨[97], 0⟩).set "a b".toList ⟨[98], 0⟩)
    (by decide +kernel)

def twinApp : HTML5App where
  root := []
  exposeManifest := false

def twinManifest : AppHandler (World Unit) Unit where
  isCoroutineFunction := false
  name := "assets_manifest".toList
  body _ _ := pure (.result (.response { body := [] }))

/-- A server with an application over these files and no other route. -/
def twinProgram : Program (World Unit) where
  router := twinApp.router noteRuntime noteLibrary twinTree (fun _ => none)
    ⟨[], [], fun _ => pure (.response { body := [] })⟩ [] []
    twinManifest
  config := {}
  staticResponse _ := pure (.response { body := [] })
  nowHttpDate world := (⟨[], fun _ hc => nomatch hc⟩, world)
  newRequestId world := (⟨[], fun _ hc => nomatch hc⟩, world)

/-- A request for this target. -/
def targetRequest (target : Str) : Request :=
  { plainRequest "GET".toList with target := target, path := target }


theorem noteLibrary_clean : CleanLibrary noteLibrary where
  sha256Hex _ := (by decide : Clean "0f".toList)
  formatdate _ := (by decide : Clean "Thu, 01 Jan 1970 00:00:00 GMT".toList)
  guessType _ _ htype := by
    cases htype
    decide

theorem targetRequest_make [Urllib] {target : Str} (h : urlsplit target = some (target, []))
    (hne : target ≠ []) :
    Request.make "GET".toList target "HTTP/1.1".toList
      ((∅ : Headers).set "host".toList "h".toList) [("host".toList, "h".toList)] (.bytes []) 0 [] =
        .ok (targetRequest target) := by
  rw [Request.make, h]
  dsimp only
  rw [if_neg hne]
  rfl

theorem twinApp_unshadowed {name : Str} (hvalid : ValidName name)
    (hdocs : Router.isDocsPath ('/' :: quote (text [name])) = false)
    (hstatic : startsWith "/static/".toList ('/' :: quote (text [name])) = false) :
    twinApp.Unshadowed noteRuntime noteLibrary twinTree
      (twinApp.registered noteRuntime noteLibrary twinTree (fun _ => none) [] [] twinManifest)
      ('/' :: quote (text [name])) (text [name])
      (twinApp.options (twinApp.spaFallback &&
        (mountMatch assetPieces ('/' :: quote (text [name]))).isNone)) :=
  unshadowed_mount rfl rfl (List.cons_ne_nil _ _)
    (fun _ hname => List.mem_singleton.1 hname ▸ hvalid) hdocs hstatic fun hexpose => nomatch hexpose

section Reachable

variable {app : HTML5App} {runtime : Runtime} {lib : FileLibrary} {tree : FileTree}
  {opts : Html5Options} {path : List Str} {data : FileData}

/-- The answer to a request is a file under its own name, as it is, and the writer sends it all. -/
def AnswersWith (produce : Request → Act (World α) (Val (World α)))
    (write : Request → ServerConfig → Str → HandlerResult → Bool → List Sent × Except Exc Unit)
    (cfg : ServerConfig) (date : Str) (keepAlive : Bool) (req : Request) (w : World α)
    (path : List Str) (content : Bytes) : Prop :=
  ∃ resp w' block, produce req w = (.ok (.result (.response resp)), w') ∧ resp.status = 200 ∧
    resp.body = content ∧ resp.encoding = none ∧
    resp.headers.get? "X-Sovereign-Asset".toList = some ('/' :: text path) ∧
    write req cfg date (.response resp) keepAlive =
      (.head block :: if content = [] then [] else [.content content], .ok ())

/-- What the answer depends on: where the name of the file leads, whether it can stand in a header,
and what the request asks for. -/
structure Reachable (app : HTML5App) (lib : FileLibrary) (tree : FileTree) (opts : Html5Options)
    (cfg : ServerConfig) (req : Request) (path : List Str) (data : FileData) : Prop where
  leads : LeadsTo tree opts app.root req path
  name : Clean (text path)
  server : Clean cfg.serverName
  whole : AsksForWhole lib opts app.root req path data

/-- The file as the application sends it. -/
def sentFile (app : HTML5App) (lib : FileLibrary) (opts : Html5Options) (path : List Str)
    (data : FileData) : Response :=
  { wholeFile lib opts app.root path data with headers := app.fileHeaders lib opts path data }

theorem get?_finished {resp : Response} (hname : name ∉ html5SecurityHeaders.map Prod.fst) :
    (if app.securityHeaders then secureHeaders resp.headers else resp.headers).get? name =
      resp.headers.get? name := by
  split
  · exact get?_secureHeaders _ hname
  · rfl

theorem valid_of_file {root : List Str} (hfile : tree.file? (root ++ path) = some data) :
    ∀ name ∈ path, ValidName name := by
  intro name hname
  refine tree.valid (root ++ path) ?_ name (List.mem_append_right root hname)
  rw [FileTree.file?] at hfile
  split at hfile
  · next hentry => rw [hentry, Option.isSome_some]
  · cases hfile

/-- A response with status 200, no coding and the name of a file is that file. -/
theorem served_file {req : Request} {resp : Response} {w w' : World α} (hne : path ≠ [])
    (hfile : tree.file? (app.root ++ path) = some data)
    (hserve : (do
      let value ← serveHtml5File runtime lib tree opts app.root req (text path)
      return app.finished value) w = (.ok (.result (.response resp)), w'))
    (hstatus : resp.status = 200) (hencoding : resp.encoding = none)
    (hasset : resp.headers.get? "X-Sovereign-Asset".toList = some ('/' :: text path)) :
    LeadsTo tree opts app.root req path ∧ AsksForWhole lib opts app.root req path data ∧
      resp = sentFile app lib opts path data := by
  have hvalid := valid_of_file hfile
  rw [Act.bind_eq_ok] at hserve
  obtain ⟨value, w₁, hvalue, hfinish⟩ := hserve
  rcases serveHtml5File_run runtime lib tree opts app.root req (text path) w with
    ⟨inner, w₂, hinner⟩ | ⟨e, w₂, herror⟩
  · rw [hinner] at hvalue
    cases hvalue
    rw [secured_response] at hfinish
    cases hfinish
    rw [Response.encoding, get?_finished (by decide)] at hencoding
    rw [get?_finished (by decide)] at hasset
    rw [serveHtml5File, findAsset_eq (text_ends hne hvalid).1] at hinner
    cases hlast : lastCandidate tree opts app.root req (text path) with
    | none =>
      rw [hlast] at hinner
      cases hinner
    | some found =>
      rw [hlast] at hinner
      dsimp only at hinner
      cases hdata : tree.file? (app.root ++ found) with
      | none =>
        rw [hdata] at hinner
        cases hinner
      | some data' =>
        rw [hdata] at hinner
        obtain ⟨hwhole, rfl, rfl⟩ := serveAsset_whole_iff.1 ⟨hinner, hstatus, hencoding⟩
        have hname : (wholeFile lib opts app.root found data').headers.get?
            "X-Sovereign-Asset".toList = some ('/' :: text found) := by
          rw [wholeFile, assetHeaders, List.drop_left]
          rfl
        rw [hname] at hasset
        have htext : text found = text path := (List.cons.inj (Option.some.inj hasset)).2
        cases text_injective hne hvalid (valid_of_file hdata) htext
        rw [hfile] at hdata
        cases hdata
        exact ⟨(lastCandidate_iff hne hvalid hfile).1 hlast, hwhole, rfl⟩
  · rw [herror] at hvalue
    cases hvalue

/-- Such a file is sent. -/
theorem serve_file {req : Request} (w : World α) (hne : path ≠ [])
    (hfile : tree.file? (app.root ++ path) = some data)
    (hleads : LeadsTo tree opts app.root req path)
    (hwhole : AsksForWhole lib opts app.root req path data) :
    (do let value ← serveHtml5File runtime lib tree opts app.root req (text path)
        return app.finished value) w =
      (.ok (.result (.response (sentFile app lib opts path data))), w) := by
  have hvalid := valid_of_file hfile
  have hserve : serveAsset runtime lib opts app.root req (app.root ++ path) data w =
        (.ok (.result (.response (wholeFile lib opts app.root path data))), w) ∧
      (wholeFile lib opts app.root path data).status = 200 ∧
      (wholeFile lib opts app.root path data).encoding = none :=
    serveAsset_whole_iff.2 ⟨hwhole, rfl, rfl⟩
  rw [Act.bind_run, serveHtml5File, findAsset_eq (text_ends hne hvalid).1,
    (lastCandidate_iff hne hvalid hfile).2 hleads]
  dsimp only
  rw [hfile]
  dsimp only
  rw [hserve.1]
  dsimp only
  rw [secured_response]
  rfl

/-- What the answer to a request for a file depends on. -/
theorem answersWith_iff {produce : Request → Act (World α) (Val (World α))} {req : Request}
    {w : World α}
    (hproduce : produce req w = (do
      let value ← serveHtml5File runtime lib tree opts app.root req (text path)
      return app.finished value) w)
    {write : Request → ServerConfig → Str → HandlerResult → Bool → List Sent × Except Exc Unit}
    (hwrite : write req = writeWith true req) (hlib : CleanLibrary lib) (hne : path ≠ [])
    (hfile : tree.file? (app.root ++ path) = some data) {date : Str} (hdate : Clean date)
    (hid : Clean req.requestId) {cfg : ServerConfig} {keepAlive : Bool} :
    AnswersWith produce write cfg date keepAlive req w path data.content ↔
      Reachable app lib tree opts cfg req path data := by
  have hclean : CleanHeaders (sentHeaders cfg date req
      (.response (sentFile app lib opts path data)) keepAlive) ↔
        Clean (text path) ∧ Clean cfg.serverName :=
    cleanHeaders_file hlib hid hdate rfl (guessHtml5Type_clean hlib _) rfl
  rw [AnswersWith, hproduce, hwrite]
  constructor
  · rintro ⟨resp, w', block, hserve, hstatus, -, hencoding, hasset, hsent⟩
    obtain ⟨hleads, hwhole, rfl⟩ := served_file hne hfile hserve hstatus hencoding hasset
    rw [writeWith_response] at hsent
    cases hblock : sendHeaders cfg date (sentFile app lib opts path data).status
      (responseHeaders req (.response (sentFile app lib opts path data))) keepAlive with
    | error e =>
      rw [hblock] at hsent
      cases hsent
    | ok block' =>
      obtain ⟨hname, hserver⟩ := hclean.1 (sendHeaders_ok.1 hblock).1
      exact ⟨hleads, hname, hserver, hwhole⟩
  · rintro ⟨hleads, hname, hserver, hwhole⟩
    have hwritten : ∃ block, writeWith true req cfg date
        (.response (sentFile app lib opts path data)) keepAlive =
          (.head block :: if data.content = [] then [] else [.content data.content], .ok ()) := by
      have hblock : sendHeaders cfg date (sentFile app lib opts path data).status
          (responseHeaders req (.response (sentFile app lib opts path data))) keepAlive = .ok _ :=
        sendHeaders_clean (hclean.2 ⟨hname, hserver⟩)
      have hbody : (sentFile app lib opts path data).body = data.content := rfl
      rw [writeWith_response, hblock]
      dsimp only
      rw [hbody]
      by_cases hempty : data.content = []
      · rw [if_neg fun h => h.1 hempty, if_pos hempty]
        exact ⟨_, rfl⟩
      · rw [if_pos ⟨hempty, rfl⟩, if_neg hempty]
        exact ⟨_, rfl⟩
    obtain ⟨block, hwritten⟩ := hwritten
    have hencoding : (sentFile app lib opts path data).encoding = none := by
      rw [Response.encoding, sentFile, get?_fileHeaders (by decide)]
      rfl
    have hasset : (sentFile app lib opts path data).headers.get? "X-Sovereign-Asset".toList =
        some ('/' :: text path) := by
      rw [sentFile, get?_fileHeaders (by decide), assetHeaders, List.drop_left]
      rfl
    exact ⟨sentFile app lib opts path data, w, block, serve_file w hne hfile hleads hwhole, rfl,
      rfl, hencoding, hasset, hwritten⟩

/-- A file is reached at its own URL, on both servers, exactly where its name leads to it, can stand in
a header, and the request asks for the whole file. -/
theorem file_reachable_iff [Urllib] {program : Program (World α)} {base : Router (World α)}
    {other : Str → Option Match} {before after : List (Registration (World α) μ)}
    {assetsManifest : AppHandler (World α) μ}
    (hrouter : program.router = app.router runtime lib tree other base before after assetsManifest)
    (hstarts : app.pathPrefix = "/".toList) (hlib : CleanLibrary lib) (hne : path ≠ [])
    (hfile : tree.file? (app.root ++ path) = some data)
    (hroute : app.Unshadowed runtime lib tree
      (app.registered runtime lib tree other before after assetsManifest)
      ('/' :: quote (text path)) (text path) opts) {version : Str} {headers : Headers}
    {rawHeaders : List (Str × Str)} {body : Body} {bodySize : Int} {remoteAddr : Str}
    {req : Request} (hreq : Request.make "GET".toList ('/' :: quote (text path)) version headers
      rawHeaders body bodySize remoteAddr = .ok req) (id date : HeaderText) (keepAlive : Bool)
    (w : World α) :
    (AnswersWith (produceWith program ["GET".toList, "HEAD".toList] program.router.resolve
        program.router.execute) writeResponse program.config date.val keepAlive
        { req with requestId := id.val } w path data.content ↔
      Reachable app lib tree opts program.config { req with requestId := id.val } path data) ∧
    (AnswersWith (produceWith program ["GET".toList] program.router.resolveAsync
        program.router.executeAsync) writeResponseAsync program.config date.val keepAlive
        { req with requestId := id.val } w path data.content ↔
      Reachable app lib tree opts program.config { req with requestId := id.val } path data) := by
  have hvalid := valid_of_file hfile
  obtain ⟨hmethod, hpath⟩ : req.method = "GET".toList ∧ req.path = '/' :: quote (text path) := by
    rw [Request.make, urlsplit_quote (text_ends hne hvalid).1] at hreq
    cases hreq
    exact ⟨rfl, rfl⟩
  have hproduce := fun staticMethods => produce_eq { req with requestId := id.val } hrouter hstarts
    hne hvalid hroute hmethod hpath staticMethods w
  have hwrite : writeResponse { req with requestId := id.val } =
      writeWith true { req with requestId := id.val } := by
    have hget : decide (req.method ≠ "HEAD".toList) = true := by
      rw [hmethod]
      decide
    funext cfg date result keepAlive
    rw [writeResponse, hget]
  exact ⟨answersWith_iff (hproduce _).1 hwrite hlib hne hfile date.property id.property,
    answersWith_iff (hproduce _).2 rfl hlib hne hfile date.property id.property⟩

/-- The file `a b` is reached at its own URL. -/
theorem file_reachable_iff_twin :
    AnswersWith (produceWith twinProgram ["GET".toList, "HEAD".toList] twinProgram.router.resolve
        twinProgram.router.execute) writeResponse twinProgram.config [] true
        { targetRequest "/a%20b".toList with requestId := [] } noteWorld ["a b".toList] [98] ∧
      AnswersWith (produceWith twinProgram ["GET".toList] twinProgram.router.resolveAsync
        twinProgram.router.executeAsync) writeResponseAsync twinProgram.config [] true
        { targetRequest "/a%20b".toList with requestId := [] } noteWorld ["a b".toList] [98] := by
  let _ : Urllib := ⟨fun _ => true⟩
  have hquote : '/' :: quote (text ["a b".toList]) = "/a%20b".toList := by decide +kernel
  have hvalid : ValidName "a b".toList := by decide +kernel
  have hroute := twinApp_unshadowed hvalid (by decide +kernel) (by decide +kernel)
  have hsplit : urlsplit "/a%20b".toList = some ("/a%20b".toList, []) := by
    rw [← hquote]
    exact urlsplit_quote ⟨'a', " b".toList, by decide +kernel, by decide⟩
  have hmake := targetRequest_make hsplit (by decide)
  rw [← hquote] at hmake
  have hreach : Reachable twinApp noteLibrary twinTree
      (twinApp.options (twinApp.spaFallback &&
        (mountMatch assetPieces ('/' :: quote (text ["a b".toList]))).isNone)) twinProgram.config { targetRequest "/a%20b".toList with requestId := [] } ["a b".toList]
      ⟨[98], 0⟩ := by
    refine ⟨.inl ?_, ?_, ?_, ?_, .inl ?_, ?_⟩
    · exact ⟨by decide +kernel, by decide +kernel⟩
    · decide +kernel
    · decide +kernel
    · decide +kernel
    · decide +kernel
    · decide +kernel
  have h := file_reachable_iff (rfl : twinProgram.router = _) rfl noteLibrary_clean (List.cons_ne_nil _ _) rfl hroute hmake
    ⟨[], fun _ hc => nomatch hc⟩ ⟨[], fun _ hc => nomatch hc⟩ true noteWorld
  rw [hquote] at h
  exact ⟨h.1.2 hreach, h.2.2 hreach⟩

/-- The URL of the file `a%20b` is answered with the bytes of the file `a b`. -/
theorem twin_file_served :
    twinTree.file? ["a%20b".toList] = some ⟨[97], 0⟩ ∧
      '/' :: quote (text ["a%20b".toList]) = "/a%2520b".toList ∧
      (∃ resp, produceWith twinProgram ["GET".toList, "HEAD".toList] twinProgram.router.resolve
          twinProgram.router.execute (targetRequest "/a%2520b".toList) noteWorld =
            (.ok (.result (.response resp)), noteWorld) ∧ resp.status = 200 ∧ resp.body = [98]) ∧
      ∃ resp, produceWith twinProgram ["GET".toList] twinProgram.router.resolveAsync
          twinProgram.router.executeAsync (targetRequest "/a%2520b".toList) noteWorld =
            (.ok (.result (.response resp)), noteWorld) ∧ resp.status = 200 ∧ resp.body = [98] := by
  have hquote : '/' :: quote (text ["a%20b".toList]) = "/a%2520b".toList := by decide +kernel
  have hvalid : ValidName "a%20b".toList := by decide +kernel
  have hroute := twinApp_unshadowed hvalid (by decide +kernel) (by decide +kernel)
  have hproduce := fun staticMethods => produce_eq (targetRequest "/a%2520b".toList)
    (rfl : twinProgram.router = _) rfl (List.cons_ne_nil _ _)
    (fun _ hname => List.mem_singleton.1 hname ▸ hvalid) hroute rfl hquote.symm staticMethods
    noteWorld
  refine ⟨rfl, hquote, ?_, ?_⟩
  · rw [(hproduce _).1]
    exact ⟨_, rfl, rfl, rfl⟩
  · rw [(hproduce _).2]
    exact ⟨_, rfl, rfl, rfl⟩

end Reachable

end Sovereign
