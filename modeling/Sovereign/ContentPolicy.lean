import Sovereign.FileUrls
import Sovereign.Lib.Directives
import Sovereign.Middleware

namespace Sovereign
set_option autoImplicit true

/-! The policy that `CSP` builds, and what a user agent reads in the header. -/

/-- A value for `CSP.set`: a text, or an iterable of texts. -/
inductive CspValue where
  | text (value : Str)
  | parts (values : List Str)

/-- The local variable `parts` of `CSP.set`. -/
def CspValue.toParts : CspValue → List Str
  | text value => (value.splitOn ' ').filter fun v => !v.isEmpty
  | parts values => values

/-- `CSP` -/
structure CSP where
  directives : Dict Str (List Str) := (∅ : Dict Str (List Str)).update cspDirectives

namespace CSP

def set (csp : CSP) (name : Str) (value : CspValue) : CSP :=
  { csp with directives := csp.directives.set name value.toParts }

/-- `key.replace("_", "-")` -/
def keywordName (key : Str) : Str := key.map fun c => if c = '_' then '-' else c

/-- `CSP(**directives)` -/
def make (keywords : List (Str × CspValue)) : CSP :=
  keywords.foldl (fun csp e => csp.set (keywordName e.1) e.2) {}

/-- Some calls of `set`. -/
def setAll (csp : CSP) (calls : List (Str × CspValue)) : CSP :=
  calls.foldl (fun csp e => csp.set e.1 e.2) csp

/-- `CSP.__str__` -/
def text (csp : CSP) : Str := cspText csp.directives.entries

end CSP

/-- The parameter `csp` of `HTML5SecurityHeadersMiddleware`. -/
inductive CspOption where
  | none
  | builder (csp : CSP)
  | text (policy : Str)

/-- `str(csp or CSP())` -/
def CspOption.policy : CspOption → Str
  | none => CSP.text {}
  | builder csp => csp.text
  | text policy => if policy = [] then CSP.text {} else policy

namespace HTML5SecurityHeadersMiddleware

/-- `HTML5SecurityHeadersMiddleware.__init__` -/
def make (csp : CspOption := .none) (hsts : Bool := false) (crossOriginIsolation : Bool := false)
    (permissionsPolicy : Str := "geolocation=(), microphone=(), camera=(), payment=()".toList) :
    HTML5SecurityHeadersMiddleware :=
  { csp := csp.policy, hsts, crossOriginIsolation, permissionsPolicy }

/-- The middleware that `HTML5App.mount` installs is the one without arguments. -/
theorem make_default (value : Val (World α)) : make.apply value = secureResponse value := by
  cases value with
  | result resp => rfl
  | awaitable run => rfl

variable (m : HTML5SecurityHeadersMiddleware)

/-- The headers that `_apply` sets where they are not set, in its order. -/
def entries : List (Str × Str) :=
  [("X-Content-Type-Options".toList, "nosniff".toList),
    ("Referrer-Policy".toList, "strict-origin-when-cross-origin".toList),
    ("Permissions-Policy".toList, m.permissionsPolicy),
    ("Content-Security-Policy".toList, m.csp)] ++
  (if m.hsts then
    [("Strict-Transport-Security".toList, "max-age=31536000; includeSubDomains".toList)] else []) ++
  if m.crossOriginIsolation then
    [("Cross-Origin-Opener-Policy".toList, "same-origin".toList),
      ("Cross-Origin-Embedder-Policy".toList, "require-corp".toList),
      ("Cross-Origin-Resource-Policy".toList, "same-origin".toList)] else []

theorem apply_entries (resp : HandlerResult) : m.apply (.result resp : Val (World α)) =
    .result (resp.withHeaders fun headers =>
      m.entries.foldl (fun headers e => headers.setDefault e.1 e.2) headers) := by
  obtain ⟨csp, hsts, crossOriginIsolation, permissionsPolicy⟩ := m
  cases hsts with
  | false => cases crossOriginIsolation <;> simp [apply, entries]
  | true => cases crossOriginIsolation <;> simp [apply, entries]

theorem get?_setDefaults (entries : List (Str × Str)) (headers : Headers) (name : Str) :
    (entries.foldl (fun headers e => headers.setDefault e.1 e.2) headers).get? name =
      (headers.get? name).or (Dict.assoc entries name) := by
  induction entries generalizing headers with
  | nil => exact (Option.or_none).symm
  | cons e entries ih =>
    rw [List.foldl_cons, ih, Dict.get?_setDefault, Dict.assoc_cons, Option.or_assoc]
    split
    · rfl
    · rfl

/-- A response that brings no policy of its own gets the one of the middleware. -/
theorem apply_policy {resp : HandlerResult}
    (hown : resp.headers.get? "Content-Security-Policy".toList = none) :
    ∃ resp', m.apply (.result resp : Val (World α)) = .result resp' ∧
      resp'.headers.get? "Content-Security-Policy".toList = some m.csp := by
  refine ⟨_, m.apply_entries resp, ?_⟩
  rw [HandlerResult.headers_withHeaders, get?_setDefaults, hown, Option.none_or]
  rfl

end HTML5SecurityHeadersMiddleware

/-- ASCII whitespace, as a user agent sees it. -/
def isAsciiSpace (c : Char) : Bool := decide (c ∈ ['\t', '\n', Char.ofNat 12, '\r', ' '])

/-- A policy as a user agent reads it. Of several with one name the first counts. -/
def readPolicy (policy : Str) : List (Str × List Str) :=
  (Directives.read isAsciiSpace ';' policy).map fun e => (e.1.map Char.toLower, e.2)

/-- A directive whose name and sources are words without semicolons, with its name in lower case. -/
def PlainDirective (e : Str × List Str) : Prop :=
  Directives.Clean isAsciiSpace ';' e ∧ e.1.map Char.toLower = e.1

instance (e : Str × List Str) : Decidable (PlainDirective e) :=
  inferInstanceAs (Decidable
    ((∀ w ∈ e.1 :: e.2, (w ≠ [] ∧ ∀ c ∈ w, isAsciiSpace c = false) ∧ ';' ∉ w) ∧
      e.1.map Char.toLower = e.1))

namespace CSP

theorem plain_set {csp : CSP} (h : ∀ e ∈ csp.directives.entries, PlainDirective e) {name : Str}
    {value : CspValue} (hnew : PlainDirective (name, value.toParts)) :
    ∀ e ∈ (csp.set name value).directives.entries, PlainDirective e := by
  intro e he
  rw [set, Dict.mem_entries_iff, Dict.get?_set] at he
  split at he
  · next hname =>
    have heq : e = (name, value.toParts) := Prod.ext hname (Option.some.inj he).symm
    rwa [heq]
  · exact h e (Dict.mem_entries_iff.2 he)

theorem plain_setAll {csp : CSP} (h : ∀ e ∈ csp.directives.entries, PlainDirective e)
    {calls : List (Str × CspValue)} (hcalls : ∀ e ∈ calls, PlainDirective (e.1, e.2.toParts)) :
    ∀ e ∈ (csp.setAll calls).directives.entries, PlainDirective e := by
  induction calls generalizing csp with
  | nil => exact h
  | cons call calls ih =>
    have hset := plain_set h (hcalls call List.mem_cons_self)
    exact ih hset fun e he => hcalls e (List.mem_cons_of_mem call he)

theorem directives_setAll (csp : CSP) (calls : List (Str × CspValue)) :
    (csp.setAll calls).directives =
      csp.directives.update (calls.map fun e => (e.1, e.2.toParts)) := by
  induction calls generalizing csp with
  | nil => rfl
  | cons call calls ih => exact ih _

theorem make_eq (keywords : List (Str × CspValue)) :
    make keywords = setAll {} (keywords.map fun e => (keywordName e.1, e.2)) := by
  rw [make, setAll, List.foldl_map]

/-- A policy of plain directives is read as it stands. -/
theorem readPolicy_text {csp : CSP} (h : ∀ e ∈ csp.directives.entries, PlainDirective e) :
    readPolicy csp.text = csp.directives.entries := by
  have hread : Directives.read isAsciiSpace ';' csp.text = csp.directives.entries :=
    Directives.read_write (by decide) (by decide) fun e he => (h e he).1
  have hlower : csp.directives.entries.map (fun e => (e.1.map Char.toLower, e.2)) =
      csp.directives.entries.map id :=
    List.map_congr_left fun e he => Prod.ext (h e he).2 rfl
  rw [readPolicy, hread, hlower, List.map_id]

/-- Whatever plain directives an application gives to `CSP` and sets after that, a user agent reads
in a response without a policy of its own what has been set last for each of them, and for the
others the default. -/
theorem policy_received (keywords calls : List (Str × CspValue))
    (m : HTML5SecurityHeadersMiddleware)
    (hm : m.csp = CspOption.policy (.builder ((make keywords).setAll calls)))
    (hkeywords : ∀ e ∈ keywords, PlainDirective (keywordName e.1, e.2.toParts))
    (hcalls : ∀ e ∈ calls, PlainDirective (e.1, e.2.toParts)) (resp : HandlerResult)
    (hown : resp.headers.get? "Content-Security-Policy".toList = none) :
    ∃ resp' policy, m.apply (.result resp : Val (World α)) = .result resp' ∧
      resp'.headers.get? "Content-Security-Policy".toList = some policy ∧
      ∀ name, Dict.assoc (readPolicy policy) name =
        (Dict.assoc (keywords.map (fun e => (keywordName e.1, e.2.toParts)) ++
          calls.map fun e => (e.1, e.2.toParts)).reverse name).or
            (Dict.assoc cspDirectives name) := by
  have hdefault : ∀ e ∈ ({} : CSP).directives.entries, PlainDirective e := by decide
  have hall : (make keywords).setAll calls =
      setAll {} (keywords.map (fun e => (keywordName e.1, e.2)) ++ calls) := by
    rw [make_eq, setAll, setAll, setAll, List.foldl_append]
  have hplain : ∀ e ∈ keywords.map (fun e => (keywordName e.1, e.2)) ++ calls,
      PlainDirective (e.1, e.2.toParts) := by
    intro e he
    rcases List.mem_append.1 he with he | he
    · obtain ⟨keyword, hkeyword, rfl⟩ := List.mem_map.1 he
      exact hkeywords keyword hkeyword
    · exact hcalls e he
  obtain ⟨resp', happly, hpolicy⟩ := m.apply_policy hown
  refine ⟨resp', m.csp, happly, hpolicy, fun name => ?_⟩
  rw [hm, CspOption.policy, hall, readPolicy_text (plain_setAll hdefault hplain)]
  change (setAll {} (keywords.map (fun e => (keywordName e.1, e.2)) ++ calls)).directives.get?
    name = _
  rw [directives_setAll, Dict.get?_update, List.map_append, List.map_map]
  rfl

/-- Scripts from one more host, and frames for nobody but the site itself. -/
def shopKeywords : List (Str × CspValue) :=
  [("script_src".toList, .text "'self'  https://cdn.example".toList)]

def shopCalls : List (Str × CspValue) :=
  [("frame-ancestors".toList, .parts ["'self'".toList]), ("sandbox".toList, .parts [])]

theorem policy_received_shop :
    ∃ (resp' : HandlerResult) (policy : Str),
      (HTML5SecurityHeadersMiddleware.make (.builder ((make shopKeywords).setAll shopCalls))).apply
        (.result (.response { body := [] }) : Val (World Unit)) = .result resp' ∧
      resp'.headers.get? "Content-Security-Policy".toList = some policy ∧
      Dict.assoc (readPolicy policy) "script-src".toList =
        some ["'self'".toList, "https://cdn.example".toList] ∧
      Dict.assoc (readPolicy policy) "sandbox".toList = some [] ∧
      Dict.assoc (readPolicy policy) "font-src".toList =
        some ["'self'".toList, "data:".toList] := by
  obtain ⟨resp', policy, happly, hpolicy, hread⟩ := policy_received shopKeywords shopCalls
    (.make (.builder ((make shopKeywords).setAll shopCalls))) rfl (by decide) (by decide)
    (.response { body := [] }) rfl
  exact ⟨resp', policy, happly, hpolicy, hread _, hread _, hread _⟩

end CSP

end Sovereign
