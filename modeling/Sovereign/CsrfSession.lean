import Sovereign.Lib.CookieJar
import Sovereign.Lib.Run
import Sovereign.Base64Url
import Sovereign.MiddlewareAgreement

/-! A user agent that keeps its cookies and the server that checks them. -/

namespace Sovereign
set_option autoImplicit true

theorem octet_not_space {c : Char} (h : Cookie.isOctet c = true) : isSpace c = false := by
  have hrange := Cookie.octet_range h
  rw [isSpace, decide_eq_false_iff_not]
  omega

theorem strip_name {e : Str × Str} (h : Cookie.isPair e = true) : strStrip e.1 = e.1 :=
  strip_eq_self fun c hc => octet_not_space (Cookie.octet_of_name h c hc).1

theorem strip_value {e : Str × Str} (h : Cookie.isPair e = true) : strStrip e.2 = e.2 :=
  strip_eq_self fun c hc => octet_not_space (Cookie.octet_of_value h c hc)

/-- One turn of the loop in `Request._parse_cookies`. -/
def parsePart (out : Dict Str Str) (part : Str) : Dict Str Str :=
  match splitFirst '=' part with
  | some (k, v) => out.set (strStrip k) (strStrip v)
  | none => out

theorem parseCookies_turns (headers : Headers) :
    parseCookies headers =
      ((headerOf headers "cookie".toList).splitOn ';').foldl parsePart ∅ := rfl

theorem parsePart_text {e : Str × Str} (h : Cookie.isPair e = true) (out : Dict Str Str) :
    parsePart out (Cookie.text e) = out.set e.1 e.2 := by
  have hsplit : splitFirst '=' (Cookie.text e) = some e := Cookie.breakOn_text h
  rw [parsePart, hsplit]
  simp only
  rw [strip_name h, strip_value h]

theorem parsePart_blank {e : Str × Str} (h : Cookie.isPair e = true) (out : Dict Str Str) :
    parsePart out (' ' :: Cookie.text e) = out.set e.1 e.2 := by
  have hname : '=' ∉ ' ' :: e.1 := by
    intro hmem
    rcases List.mem_cons.1 hmem with heq | hmem
    · cases heq
    · exact (Cookie.octet_of_name h _ hmem).2 rfl
  have hsplit : splitFirst '=' (' ' :: Cookie.text e) = some (' ' :: e.1, e.2) :=
    splitFirst_append hname e.2
  have hstrip : strStrip (' ' :: e.1) = e.1 := by
    rw [strStrip, strip_cons (by decide)]
    exact strip_name h
  rw [parsePart, hsplit]
  simp only
  rw [hstrip, strip_value h]

theorem parse_rest {rest : List (Str × Str)} (h : ∀ e ∈ rest, Cookie.isPair e = true)
    (out : Dict Str Str) :
    (rest.map fun e => ' ' :: Cookie.text e).foldl parsePart out = out.update rest := by
  induction rest generalizing out with
  | nil => rfl
  | cons e rest ih =>
    rw [List.map_cons, List.foldl_cons, parsePart_blank (h e List.mem_cons_self),
      ih fun e' he' => h e' (List.mem_cons_of_mem e he')]
    rfl

/-- The server reads the cookies that the user agent has. -/
theorem parseCookies_header {jar : CookieJar} {headers : Headers}
    (h : headerOf headers "cookie".toList = jar.header) : parseCookies headers = jar.cookies := by
  apply Dict.ext
  rw [parseCookies_turns, h]
  cases hentries : jar.cookies.entries with
  | nil =>
    rw [CookieJar.header, hentries]
    rfl
  | cons e rest =>
    have hclean := hentries ▸ jar.clean
    have he := hclean e List.mem_cons_self
    have hdistinct : ((∅ : Dict Str Str).entries ++ e :: rest |>.map Prod.fst).Nodup := by
      have hnodup := jar.cookies.nodup
      rwa [hentries] at hnodup
    have hupdate : ((∅ : Dict Str Str).set e.1 e.2).update rest =
      (∅ : Dict Str Str).update (e :: rest) := rfl
    rw [CookieJar.splitOn_header hentries, List.foldl_cons, parsePart_text he,
      parse_rest fun e' he' => hclean e' (List.mem_cons_of_mem e he'), hupdate,
      Dict.entries_update hdistinct]
    rfl

/-- A request with the `Cookie` line of the user agent. -/
def Request.SentFrom (req : Request) (jar : CookieJar) : Prop :=
  req.cookies = parseCookies req.headers ∧ req.header "cookie".toList = jar.header

instance (req : Request) (jar : CookieJar) : Decidable (req.SentFrom jar) :=
  inferInstanceAs (Decidable (_ ∧ _))

theorem Request.SentFrom.cookies {req : Request} {jar : CookieJar} (h : req.SentFrom jar) :
    req.cookies = jar.cookies := by
  rw [h.1]
  exact parseCookies_header h.2

/-- The values of the `Set-Cookie` lines of a response. -/
def HandlerResult.setCookies (resp : HandlerResult) : List Str :=
  (resp.headers.entries.filter fun e => decide (lower e.1 = "set-cookie".toList)).map Prod.snd

theorem setCookies_setDefault (resp : HandlerResult) (line : Str) :
    (resp.withHeaders fun headers => headers.setDefault "Set-Cookie".toList line).setCookies =
      if resp.headers.contains "Set-Cookie".toList = true then resp.setCookies
      else resp.setCookies ++ [line] := by
  rw [HandlerResult.setCookies, HandlerResult.headers_withHeaders, Dict.setDefault]
  split
  · rfl
  · next hnew =>
    have hfresh : "Set-Cookie".toList ∉ resp.headers.entries.map Prod.fst := fun hmem =>
      hnew (Dict.mem_keys.1 hmem)
    have hentries : (resp.headers.set "Set-Cookie".toList line).entries =
      resp.headers.entries ++ [("Set-Cookie".toList, line)] := Dict.setEntry_fresh hfresh line
    rw [hentries, List.filter_append, List.map_append]
    rfl

/-- A request and the application code that it is for. -/
structure Visit (α : Type) where
  req : Request
  handler : Endpoint (World α)

/-- What the application answers when it is asked directly. -/
def Visit.answer (v : Visit α) : Act (World α) (Val (World α)) := do
  let resp ← v.handler v.req
  resp.settle

/-- The application sets no cookie of this name, and the runtime counts its calls. -/
structure Visit.Quiet (v : Visit α) (name : Str) : Prop where
  cookies : ∀ w resp w', v.answer w = (.ok (.result resp), w') →
    ∀ line ∈ resp.setCookies, Cookie.nameOf line ≠ some name
  called : ∀ w, w.calls ≤ (v.handler v.req w).2.calls
  answered : ∀ w, w.calls ≤ (v.answer w).2.calls

/-- The cookies of a user agent, and the server. -/
structure Browsing (α : Type) where
  jar : CookieJar
  world : World α

namespace CSRFMiddleware

variable (m : CSRFMiddleware) (runtime : Runtime)

/-- What the middleware answers. -/
def visit (v : Visit α) : Act (World α) (Val (World α)) := do
  let resp ← m.call runtime v.req v.handler
  resp.settle

/-- The user agent sends a request and keeps the cookies of the response, if it gets one. -/
def step (s : Browsing α) (v : Visit α) : Option (Browsing α) :=
  if v.req.SentFrom s.jar then
    match m.visit runtime v s.world with
    | (.ok (.result resp), world) => some { jar := s.jar.receive resp.setCookies, world }
    | (_, world) => some { jar := s.jar, world }
  else none

/-- The token of the user agent. -/
def token (jar : CookieJar) : Option Str := jar.get? m.cookieName

variable {m runtime}

theorem compareDigest_ne (h : a ≠ b) : compareDigest a b ≠ .ok true := by
  rw [compareDigest, decide_eq_false h]
  split
  · exact fun hok => by cases hok
  · exact fun hok => by cases hok

/-- An unsafe request passes just if it shows the token of the user agent that sent it. -/
theorem check_mutating (h : req.SentFrom jar) (hmethod : req.method ∉ safe) :
    m.check req = .ok () ↔
      req.header m.headerName ≠ [] ∧ m.token jar = some (req.header m.headerName) := by
  have hget : req.cookies.get? m.cookieName = m.token jar := congrArg (Dict.get? · _) h.cookies
  rw [check, if_neg hmethod, hget]
  generalize req.header m.headerName = header
  cases htoken : m.token jar with
  | none =>
    simp only [Option.getD_none, true_or, ↓reduceIte]
    exact ⟨fun hcheck => (by cases hcheck), fun hpass => (by cases hpass.2)⟩
  | some token =>
    simp only [Option.getD_some]
    have hascii : token.all (fun c => decide (c.toNat < 128)) = true := by
      apply List.all_eq_true.2
      intro c hc
      have hrange := Cookie.octet_range (Cookie.octet_of_value (CookieJar.get?_clean htoken) c hc)
      exact decide_eq_true (by omega)
    by_cases hempty : token = [] ∨ header = []
    · rw [if_pos hempty]
      refine ⟨fun hcheck => (by cases hcheck), fun hpass => ?_⟩
      rcases hempty with rfl | rfl
      · exact absurd (Option.some.inj hpass.2).symm hpass.1
      · exact absurd rfl hpass.1
    · rw [if_neg hempty]
      by_cases heq : token = header
      · subst heq
        rw [compareDigest, List.all_append, hascii, Bool.and_self, if_pos rfl,
          decide_eq_true rfl]
        exact ⟨fun _ => ⟨fun hnil => hempty (Or.inl hnil), rfl⟩, fun _ => rfl⟩
      · have hpass : ¬ (header ≠ [] ∧ some token = some header) := fun hpass =>
          heq (Option.some.inj hpass.2)
        split
        · exact ⟨fun hcheck => (by cases hcheck), fun hp => absurd hp hpass⟩
        · exact ⟨fun hcheck => (by cases hcheck), fun hp => absurd hp hpass⟩
        · next hok => exact absurd hok (compareDigest_ne heq)

/-- A refused request does not reach the application. -/
theorem visit_refused (h : m.check v.req ≠ .ok ()) (w : World α) :
    ∃ e, m.visit runtime v w = (.error e, w) := by
  cases hcheck : m.check v.req with
  | ok => exact absurd hcheck h
  | error e =>
    refine ⟨e, Act.bind_error _ ?_⟩
    rw [call, hcheck]
    rfl

theorem visit_passed (h : m.check v.req = .ok ()) :
    m.visit (α := α) runtime v =
      (v.handler v.req >>= fun resp => m.finish runtime v.req resp) >>= Val.settle := by
  rw [visit, call, h]

/-- With a token, a request that passes is answered by the application alone. -/
theorem visit_known (h : m.check v.req = .ok ())
    (hknown : v.req.cookies.contains m.cookieName = true) :
    m.visit (α := α) runtime v = v.answer := by
  have hfinish : m.finish (α := α) runtime v.req = pure := by
    funext resp
    simp only [finish, hknown, Bool.true_eq_false, ↓reduceIte]
  rw [visit_passed h, hfinish, bind_pure]
  rfl

/-- The line that sets a token. -/
def tokenLine (m : CSRFMiddleware) (token : Str) : Str :=
  m.cookieName ++ '=' :: token ++ "; Path=/; SameSite=Lax; HttpOnly".toList

/-- Without a token, the answer of the application brings one. -/
theorem visit_fresh (h : m.check v.req = .ok ())
    (hfresh : v.req.cookies.contains m.cookieName = false) {w w' : World α}
    (hanswer : v.handler v.req w = (.ok (.result resp), w')) :
    m.visit runtime v w = (.ok (.result (resp.withHeaders fun headers =>
      headers.setDefault "Set-Cookie".toList (m.tokenLine (runtime.tokenUrlsafe w'.calls)))),
      { w' with calls := w'.calls + 1 }) := by
  have hfinish : m.finish runtime v.req (.result resp) w' = (.ok (.result (resp.withHeaders
      fun headers => headers.setDefault "Set-Cookie".toList
        (m.tokenLine (runtime.tokenUrlsafe w'.calls)))), { w' with calls := w'.calls + 1 }) := by
    simp only [finish, hfresh, ↓reduceIte, sample_bind, response_result]
    rfl
  rw [visit_passed h, Act.bind_ok Val.settle ((Act.bind_ok _ hanswer).trans hfinish)]
  rfl

/-- An awaitable has no headers that a token could be put into. -/
theorem visit_fresh_fails (h : m.check v.req = .ok ())
    (hfresh : v.req.cookies.contains m.cookieName = false) {w : World α}
    (hanswer : ∀ resp w', v.handler v.req w ≠ (.ok (.result resp), w')) :
    ∃ e, ∃ w', m.visit runtime v w = (.error e, w') ∧ (v.handler v.req w).2.calls ≤ w'.calls := by
  rw [visit_passed h]
  rcases hrun : v.handler v.req w with ⟨e | resp | run, w'⟩
  · exact ⟨e, w', Act.bind_error _ (Act.bind_error _ hrun), le_rfl⟩
  · exact absurd hrun (hanswer resp w')
  · have hfinish : m.finish runtime v.req (.awaitable run) w' =
        (.error (.builtin .attributeError), { w' with calls := w'.calls + 1 }) := by
      simp only [finish, hfresh, ↓reduceIte, sample_bind, response_awaitable]
    exact ⟨_, _, Act.bind_error _ ((Act.bind_ok _ hrun).trans hfinish), Nat.le_succ _⟩

theorem step_result (hsent : v.req.SentFrom s.jar)
    (h : m.visit runtime v s.world = (.ok (.result resp), w)) :
    m.step runtime s v = some { jar := s.jar.receive resp.setCookies, world := w } := by
  rw [step, if_pos hsent, h]

theorem step_error (hsent : v.req.SentFrom s.jar)
    (h : m.visit runtime v s.world = (.error e, w)) :
    m.step runtime s v = some { jar := s.jar, world := w } := by
  rw [step, if_pos hsent, h]

theorem step_awaitable (hsent : v.req.SentFrom s.jar)
    (h : m.visit runtime v s.world = (.ok (.awaitable run), w)) :
    m.step runtime s v = some { jar := s.jar, world := w } := by
  rw [step, if_pos hsent, h]

theorem step_sent (h : m.step runtime s v = some u) : v.req.SentFrom s.jar := by
  rw [step] at h
  split at h
  · assumption
  · cases h

/-- `secrets.token_urlsafe` gives text of a URL-safe alphabet. -/
def UrlSafeTokens (runtime : Runtime) : Prop :=
  ∀ n, runtime.tokenUrlsafe n ≠ [] ∧ ∀ c ∈ runtime.tokenUrlsafe n, IsUrlSafe c

theorem octet_urlSafe (h : IsUrlSafe c) : Cookie.isOctet c = true := by
  have hrange : 33 ≤ c.toNat ∧ c.toNat ≤ 126 := by
    rcases h with h | h | h | rfl | rfl
    · exact ⟨le_trans (by decide) h.1, le_trans h.2 (by decide)⟩
    · exact ⟨le_trans (by decide) h.1, le_trans h.2 (by decide)⟩
    · exact ⟨le_trans (by decide) h.1, le_trans h.2 (by decide)⟩
    · decide
    · decide
  have hother : c ∉ ['"', ',', ';', '\\'] := by
    simp only [List.mem_cons, List.not_mem_nil, or_false, not_or]
    exact ⟨h.ne (by decide), h.ne (by decide), h.ne (by decide), h.ne (by decide)⟩
  rw [Cookie.isOctet, decide_eq_true hrange, decide_eq_true hother]
  rfl

theorem isPair_token (hname : Cookie.isPair (m.cookieName, []) = true)
    (htokens : UrlSafeTokens runtime) (n : Nat) :
    Cookie.isPair (m.cookieName, runtime.tokenUrlsafe n) = true := by
  rw [Cookie.isPair, Bool.and_eq_true_iff]
  refine ⟨(Bool.and_eq_true_iff.1 hname).1, List.all_eq_true.2 fun c hc => ?_⟩
  exact octet_urlSafe ((htokens n).2 c hc)

theorem pairOf_tokenLine {token : Str} (h : Cookie.isPair (m.cookieName, token) = true) :
    Cookie.pairOf (m.tokenLine token) = some (m.cookieName, token) :=
  Cookie.pairOf_text h " Path=/; SameSite=Lax; HttpOnly".toList

/-- The token of a user agent that gets a new one. -/
theorem token_receive (hname : Cookie.isPair (m.cookieName, []) = true)
    (htokens : UrlSafeTokens runtime) (n : Nat) {jar : CookieJar} {lines : List Str}
    (hlines : ∀ line ∈ lines, Cookie.nameOf line ≠ some m.cookieName) :
    m.token (jar.receive (lines ++ [m.tokenLine (runtime.tokenUrlsafe n)])) =
      some (runtime.tokenUrlsafe n) := by
  have hpair := isPair_token hname htokens n
  have hline := pairOf_tokenLine hpair
  have hlast : Cookie.nameOf (m.tokenLine (runtime.tokenUrlsafe n)) = some m.cookieName := by
    rw [Cookie.nameOf, hline]
    rfl
  rw [token, CookieJar.get?_receive_value hpair, if_pos]
  · exact ⟨_, List.mem_append_right lines List.mem_cons_self, hlast⟩
  · intro line hmem hnamed
    rcases List.mem_append.1 hmem with hmem | hmem
    · exact absurd hnamed (hlines line hmem)
    · rw [List.mem_singleton.1 hmem]
      exact hline

/-- What a step can do: the token of the user agent stays what it is, or the user agent has none and
gets one that the runtime draws in this step. -/
theorem step_cases (hname : Cookie.isPair (m.cookieName, []) = true)
    (htokens : UrlSafeTokens runtime) (hquiet : v.Quiet m.cookieName)
    (h : m.step runtime s v = some u) :
    s.world.calls ≤ u.world.calls ∧ (m.token u.jar = m.token s.jar ∨ m.token s.jar = none ∧
      ∃ n, s.world.calls ≤ n ∧ n < u.world.calls ∧
        m.token u.jar = some (runtime.tokenUrlsafe n)) := by
  have hsent := step_sent h
  by_cases hcheck : m.check v.req = .ok ()
  · cases hknown : v.req.cookies.contains m.cookieName with
    | true =>
      have hanswer : m.visit runtime v s.world = v.answer s.world :=
        congrFun (visit_known hcheck hknown) s.world
      have hcalls := hquiet.answered s.world
      rcases hrun : v.answer s.world with ⟨e | resp | run, w⟩
      · rw [step_error hsent (hanswer.trans hrun)] at h
        cases h
        rw [hrun] at hcalls
        exact ⟨hcalls, Or.inl rfl⟩
      · rw [step_result hsent (hanswer.trans hrun)] at h
        cases h
        rw [hrun] at hcalls
        exact ⟨hcalls, Or.inl (CookieJar.get?_receive_others (hquiet.cookies _ _ _ hrun))⟩
      · rw [step_awaitable hsent (hanswer.trans hrun)] at h
        cases h
        rw [hrun] at hcalls
        exact ⟨hcalls, Or.inl rfl⟩
    | false =>
      have hnone : m.token s.jar = none := by
        rw [hsent.cookies] at hknown
        exact Option.isSome_eq_false_iff.1 hknown |> Option.isNone_iff_eq_none.1
      have hcalled := hquiet.called s.world
      by_cases hresult : ∃ resp w, v.handler v.req s.world = (.ok (.result resp), w)
      · obtain ⟨resp, w, hrun⟩ := hresult
        have hanswer : v.answer s.world = (.ok (.result resp), w) := Act.bind_ok _ hrun
        have hlines := hquiet.cookies _ _ _ hanswer
        rw [step_result hsent (visit_fresh hcheck hknown hrun)] at h
        cases h
        rw [hrun] at hcalled
        refine ⟨Nat.le_succ_of_le hcalled, ?_⟩
        rw [setCookies_setDefault]
        split
        · exact Or.inl (CookieJar.get?_receive_others hlines)
        · exact Or.inr ⟨hnone, w.calls, hcalled, Nat.lt_succ_self _,
            token_receive hname htokens w.calls hlines⟩
      · have hno : ∀ resp w, v.handler v.req s.world ≠ (.ok (.result resp), w) :=
          fun resp w hrun => hresult ⟨resp, w, hrun⟩
        obtain ⟨e, w, hvisit, hcalls⟩ := visit_fresh_fails hcheck hknown hno
        rw [step_error hsent hvisit] at h
        cases h
        exact ⟨hcalled.trans hcalls, Or.inl rfl⟩
  · obtain ⟨e, hvisit⟩ : ∃ e, m.visit runtime v s.world = (.error e, s.world) :=
      visit_refused hcheck s.world
    rw [step_error hsent hvisit] at h
    cases h
    exact ⟨le_rfl, Or.inl rfl⟩

/-- The runtime has drawn this token between two states. -/
def Drawn (runtime : Runtime) (first last : World α) (token : Str) : Prop :=
  ∃ n, first.calls ≤ n ∧ n < last.calls ∧ token = runtime.tokenUrlsafe n

/-- A token that the user agent has was drawn since the first state. -/
structure Issued (m : CSRFMiddleware) (runtime : Runtime) (first : World α) (s : Browsing α) :
    Prop where
  later : first.calls ≤ s.world.calls
  drawn : ∀ token, m.token s.jar = some token → Drawn runtime first s.world token

theorem step_issued (hname : Cookie.isPair (m.cookieName, []) = true)
    (htokens : UrlSafeTokens runtime) (hquiet : v.Quiet m.cookieName)
    (h : m.step runtime s v = some u) (hs : Issued m runtime first s) :
    Issued m runtime first u := by
  obtain ⟨hcalls, hsame | ⟨-, n, hle, hlt, hnew⟩⟩ := step_cases hname htokens hquiet h
  · refine ⟨hs.later.trans hcalls, fun token htoken => ?_⟩
    obtain ⟨n, hle, hlt, heq⟩ := hs.drawn token (hsame ▸ htoken)
    exact ⟨n, hle, hlt.trans_le hcalls, heq⟩
  · refine ⟨hs.later.trans hcalls, fun token htoken => ?_⟩
    rw [hnew] at htoken
    exact ⟨n, hs.later.trans hle, hlt, (Option.some.inj htoken).symm⟩

theorem step_token {token : Str} (hname : Cookie.isPair (m.cookieName, []) = true)
    (htokens : UrlSafeTokens runtime) (hquiet : v.Quiet m.cookieName)
    (h : m.step runtime s v = some u) (htoken : m.token s.jar = some token) :
    m.token u.jar = some token := by
  obtain ⟨-, hsame | ⟨hnone, -⟩⟩ := step_cases hname htokens hquiet h
  · exact hsame.trans htoken
  · rw [hnone] at htoken
    cases htoken

/-- A safe request whose answer sets no cookies leaves the user agent with a token. -/
theorem step_safe (hname : Cookie.isPair (m.cookieName, []) = true)
    (htokens : UrlSafeTokens runtime) (hquiet : v.Quiet m.cookieName) (hsafe : v.req.method ∈ safe)
    (hrun : v.handler v.req s.world = (.ok (.result resp), w)) (hnone : resp.setCookies = [])
    (h : m.step runtime s v = some u) : m.token u.jar ≠ none := by
  have hsent := step_sent h
  have hcheck : m.check v.req = .ok () := if_pos hsafe
  cases hknown : v.req.cookies.contains m.cookieName with
  | true =>
    rw [hsent.cookies] at hknown
    obtain ⟨token, htoken⟩ := Option.isSome_iff_exists.1 hknown
    rw [step_token hname htokens hquiet h htoken]
    exact Option.some_ne_none token
  | false =>
    have hnew : ¬ resp.headers.contains "Set-Cookie".toList = true := by
      intro hcontains
      obtain ⟨line, hline⟩ := Option.isSome_iff_exists.1 hcontains
      have hmem : ("Set-Cookie".toList, line) ∈
          resp.headers.entries.filter fun e => decide (lower e.1 = "set-cookie".toList) :=
        List.mem_filter.2 ⟨Dict.get?_eq_some.1 hline, rfl⟩
      have hline : line ∈ resp.setCookies := List.mem_map_of_mem hmem
      rw [hnone] at hline
      cases hline
    rw [step_result hsent (visit_fresh hcheck hknown hrun)] at h
    cases h
    simp only
    rw [setCookies_setDefault, if_neg hnew, token_receive hname htokens w.calls]
    · exact Option.some_ne_none _
    · rw [hnone]
      exact fun line hline => absurd hline List.not_mem_nil

/-- Whatever a user agent that starts without a token asks the server for: an unsafe request reaches
the application just if it shows the token of the user agent, which was drawn for it before; any
other one changes nothing. A token stays for good, and a safe request brings one. -/
theorem browsing_guarded {s t : Browsing α} (hname : Cookie.isPair (m.cookieName, []) = true)
    (htokens : UrlSafeTokens runtime) (hrun : Run (m.step runtime) s l t)
    (hfresh : m.token s.jar = none) (hquiet : ∀ x ∈ l, x.2.Quiet m.cookieName) :
    (∀ x ∈ l, x.2.req.method ∉ safe →
      if m.token x.1.jar = some (x.2.req.header m.headerName)
      then Drawn runtime s.world x.1.world (x.2.req.header m.headerName) ∧
        m.visit runtime x.2 x.1.world = x.2.answer x.1.world
      else ∃ e, m.visit runtime x.2 x.1.world = (.error e, x.1.world)) ∧
    (∀ x ∈ l, ∀ token, m.token x.1.jar = some token → m.token t.jar = some token) ∧
    ∀ x ∈ l, x.2.req.method ∈ safe → ∀ resp w,
      x.2.handler x.2.req x.1.world = (.ok (.result resp), w) → resp.setCookies = [] →
      m.token t.jar ≠ none := by
  have hstart : Issued m runtime s.world s := ⟨le_rfl, fun token htoken => by
    rw [hfresh] at htoken
    cases htoken⟩
  have hissued := hrun.always hstart fun x hx u hI hstep =>
    step_issued hname htokens (hquiet x hx) hstep hI
  refine ⟨fun x hx hmethod => ?_, fun x hx token htoken => ?_, ?_⟩
  · obtain ⟨u, hstep⟩ := hrun.enabled x hx
    have hsent := step_sent hstep
    split
    · next htoken =>
      obtain ⟨n, hle, hlt, heq⟩ := (hissued x hx).drawn _ htoken
      have hshown : x.2.req.header m.headerName ≠ [] := by
        rw [heq]
        exact (htokens n).1
      have hknown : x.2.req.cookies.contains m.cookieName = true := by
        rw [hsent.cookies]
        exact Option.isSome_of_eq_some htoken
      refine ⟨⟨n, hle, hlt, heq⟩, ?_⟩
      rw [visit_known ((check_mutating hsent hmethod).2 ⟨hshown, htoken⟩) hknown]
    · next htoken =>
      apply visit_refused
      exact fun hcheck => htoken ((check_mutating hsent hmethod).1 hcheck).2
  · apply hrun.kept (P := fun s => m.token s.jar = some token) _ x hx
    · exact fun u hstep => step_token hname htokens (hquiet x hx) hstep htoken
    · exact fun y hy u htoken hstep => step_token hname htokens (hquiet y hy) hstep htoken
  · intro x hx hsafe resp w hanswer hnone
    apply hrun.kept (P := fun s => m.token s.jar ≠ none) _ x hx
    · exact fun u hstep => step_safe hname htokens (hquiet x hx) hsafe hanswer hnone hstep
    · intro y hy u htoken hstep
      obtain ⟨token, htoken⟩ := Option.ne_none_iff_exists'.1 htoken
      rw [step_token hname htokens (hquiet y hy) hstep htoken]
      exact Option.some_ne_none token

/-- The middleware with its defaults. -/
def standard : CSRFMiddleware := ⟨"sovereign_csrf".toList, "x-csrf-token".toList⟩

def sampleRuntime : Runtime where
  monotonic _ := 0
  time _ := 0
  tokenUrlsafe n := List.replicate 43 (Base64.digit (n % 64))
  gzip body _ _ := body
  zlib body _ := body

def sampleToken : Str := sampleRuntime.tokenUrlsafe 0

def samplePage : HandlerResult := .response { body := ascii "page" }

def pageVisit : Visit Unit := ⟨plainRequest "GET".toList, fun _ => pure (.result samplePage)⟩

/-- The header lines of the form that the page holds. -/
def formHeaders : Headers := (plainRequest []).headers.update
  [("cookie".toList, standard.cookieName ++ '=' :: sampleToken),
    (standard.headerName, sampleToken)]

def formVisit : Visit Unit where
  req := { plainRequest "POST".toList with
    headers := formHeaders, cookies := parseCookies formHeaders }
  handler _ := pure (.result samplePage)

def stranger : Browsing Unit where
  jar := ⟨∅, fun _ h => absurd h List.not_mem_nil⟩
  world := ⟨0, none, fun _ => ∅, fun _ => ∅, ()⟩

def visitor : Browsing Unit where
  jar := stranger.jar.receive [standard.tokenLine sampleToken]
  world := { stranger.world with calls := 1 }

theorem pageVisit_step : standard.step sampleRuntime stranger pageVisit = some visitor := by
  have hsent : pageVisit.req.SentFrom stranger.jar := by decide
  have hrun : pageVisit.handler pageVisit.req stranger.world =
      (.ok (.result samplePage), stranger.world) := rfl
  have hvisit : standard.visit sampleRuntime pageVisit stranger.world = _ :=
    visit_fresh rfl rfl hrun
  exact step_result hsent hvisit

theorem formVisit_step : standard.step sampleRuntime visitor formVisit = some visitor := by
  have hsent : formVisit.req.SentFrom visitor.jar := by decide
  have hanswer : standard.visit sampleRuntime formVisit visitor.world =
      (.ok (.result samplePage), visitor.world) :=
    congrFun (visit_known (by decide) (by decide)) visitor.world
  exact step_result hsent hanswer

theorem page_quiet (req : Request) (name : Str) :
    Visit.Quiet (⟨req, fun _ => pure (.result samplePage)⟩ : Visit Unit) name where
  cookies w resp w' h line hline := by
    cases h
    cases hline
  called w := le_rfl
  answered w := le_rfl

theorem sampleRuntime_tokens : UrlSafeTokens sampleRuntime := by
  refine fun n => ⟨List.cons_ne_nil _ _, fun c hc => ?_⟩
  rw [List.eq_of_mem_replicate hc]
  exact isUrlSafe_digit (Nat.mod_lt n (by decide))

/-- A user agent that asks for a page and then sends its form. -/
theorem browsing_guarded_form :
    Drawn sampleRuntime stranger.world visitor.world sampleToken ∧
      standard.visit sampleRuntime formVisit visitor.world = formVisit.answer visitor.world ∧
      standard.token visitor.jar ≠ none := by
  have hrun : Run (standard.step sampleRuntime) stranger
      [(stranger, pageVisit), (visitor, formVisit)] visitor :=
    .snoc (.snoc .nil pageVisit_step) formVisit_step
  have hquiet : ∀ x ∈ [(stranger, pageVisit), (visitor, formVisit)],
      x.2.Quiet standard.cookieName := by
    intro x hx
    rcases List.mem_cons.1 hx with rfl | hx
    · exact page_quiet _ _
    · rw [List.mem_singleton.1 hx]
      exact page_quiet _ _
  have hguarded := browsing_guarded (by decide) sampleRuntime_tokens hrun rfl hquiet
  have hform := hguarded.1 (visitor, formVisit) (by simp) (by decide)
  have htoken : standard.token visitor.jar =
    some (formVisit.req.header standard.headerName) := by decide
  rw [if_pos htoken] at hform
  exact ⟨hform.1, hform.2,
    hguarded.2.2 (stranger, pageVisit) (by simp) (by decide) samplePage stranger.world rfl rfl⟩

end CSRFMiddleware

end Sovereign
