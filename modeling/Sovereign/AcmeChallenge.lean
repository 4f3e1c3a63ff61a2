import Sovereign.PageRoute
import Sovereign.ValidatedQuery

namespace Sovereign
set_option autoImplicit true

/-! The HTTP-01 challenges of ACME, from `add_challenge` to the answer of the route. -/

/-- `HTTP01ChallengeStore` -/
structure HTTP01ChallengeStore where
  items : Dict Str Str := ∅

namespace HTTP01ChallengeStore

def put (store : HTTP01ChallengeStore) (token keyAuthorization : Str) : HTTP01ChallengeStore :=
  { store with items := store.items.set token keyAuthorization }

def remove (store : HTTP01ChallengeStore) (token : Str) : HTTP01ChallengeStore :=
  { store with items := store.items.erase token }

def get (store : HTTP01ChallengeStore) (token : Str) : Option Str := store.items.get? token

theorem get_put (store : HTTP01ChallengeStore) (token keyAuthorization token' : Str) :
    (store.put token keyAuthorization).get token' =
      if token' = token then some keyAuthorization else store.get token' :=
  Dict.get?_set store.items token token' keyAuthorization

theorem get_remove (store : HTTP01ChallengeStore) (token token' : Str) :
    (store.remove token).get token' = if token' = token then none else store.get token' :=
  Dict.get?_erase store.items token token'

end HTTP01ChallengeStore

def challengePattern : Str := "/.well-known/acme-challenge/\x7btoken\x7d".toList

/-- The answer of the route, for what the store has. -/
def challengeAnswer : Option Str → Response
  | none =>
    { body := utf8 "not found".toList, status := 404
      contentType := "text/plain; charset=utf-8".toList }
  | some value => { body := utf8 value, contentType := "text/plain; charset=utf-8".toList }

/-- The function `acme_challenge`. -/
def acmeChallenge : AppHandler HTTP01ChallengeStore μ where
  isCoroutineFunction := false
  name := "acme_challenge".toList
  body groups _ := do
    let store ← get
    match (routeParams groups).get? "token".toList with
    | none => throw (.builtin .keyError)
    | some token => pure (.result (.response (challengeAnswer (store.get token))))

/-- The call of `Router.route` that `install` makes. -/
def challengeRegistration : Registration HTTP01ChallengeStore μ :=
  .route challengePattern ["GET".toList] [] acmeChallenge

/-- `ACMERouteInstaller`, with what has been registered at its router. -/
structure ACMERouteInstaller (μ : Type) where
  router : List (Registration HTTP01ChallengeStore μ) := []
  installed : Bool := false

def ACMERouteInstaller.install (routes : ACMERouteInstaller μ) : ACMERouteInstaller μ :=
  if routes.installed then routes
  else { router := routes.router ++ [challengeRegistration], installed := true }

/-- `CertificateManager`, as far as its challenges go. -/
structure CertificateManager (μ : Type) where
  store : HTTP01ChallengeStore := {}
  routes : ACMERouteInstaller μ := {}

/-- What an application does with its router and its `CertificateManager`. -/
inductive ManagerCall (μ : Type) where
  | register (registration : Registration HTTP01ChallengeStore μ)
  | installHttp01Route
  | addChallenge (token keyAuthorization : Str)
  | removeChallenge (token : Str)

namespace ManagerCall

def run (manager : CertificateManager μ) : ManagerCall μ → CertificateManager μ
  | register registration =>
    { manager with
      routes := { manager.routes with router := manager.routes.router ++ [registration] } }
  | installHttp01Route => { manager with routes := manager.routes.install }
  | addChallenge token keyAuthorization =>
    { manager with store := manager.store.put token keyAuthorization }
  | removeChallenge token => { manager with store := manager.store.remove token }

/-- The registration of a call that is the application's own. -/
def registration? : ManagerCall μ → Option (Registration HTTP01ChallengeStore μ)
  | register registration => some registration
  | installHttp01Route | addChallenge .. | removeChallenge _ => none

/-- What a call leaves of a token that it names. -/
def assigns (token : Str) : ManagerCall μ → Option (Option Str)
  | addChallenge token' keyAuthorization =>
    if token = token' then some (some keyAuthorization) else none
  | removeChallenge token' => if token = token' then some none else none
  | register _ | installHttp01Route => none

def isInstall : ManagerCall μ → Bool
  | installHttp01Route => true
  | register _ | addChallenge .. | removeChallenge _ => false

end ManagerCall

/-- The authorization of a token after some calls: the last call that names the token decides. -/
def authorization (calls : List (ManagerCall μ)) (token : Str) : Option Str :=
  (calls.reverse.findSome? (ManagerCall.assigns token)).join

def CertificateManager.after (calls : List (ManagerCall μ)) : CertificateManager μ :=
  calls.foldl ManagerCall.run {}

theorem authorization_concat (calls : List (ManagerCall μ)) (call : ManagerCall μ) (token : Str) :
    authorization (calls ++ [call]) token =
      match call.assigns token with
      | some value => value
      | none => authorization calls token := by
  rw [authorization, authorization, List.reverse_append, List.reverse_singleton,
    List.singleton_append, List.findSome?_cons]
  cases call.assigns token with
  | none => rfl
  | some value => rfl

namespace CertificateManager

theorem after_concat (calls : List (ManagerCall μ)) (call : ManagerCall μ) :
    after (calls ++ [call]) = call.run (after calls) := by
  rw [after, List.foldl_append]
  rfl

/-- The store has what the calls leave of a token. -/
theorem get_after (calls : List (ManagerCall μ)) (token : Str) :
    (after calls).store.get token = authorization calls token := by
  induction calls using List.reverseRecOn with
  | nil => rfl
  | append_singleton calls call ih =>
    rw [after_concat, authorization_concat]
    cases call with
    | register | installHttp01Route => exact ih
    | addChallenge token' keyAuthorization =>
      rw [ManagerCall.run, HTTP01ChallengeStore.get_put, ManagerCall.assigns, ih]
      split
      · rfl
      · rfl
    | removeChallenge token' =>
      rw [ManagerCall.run, HTTP01ChallengeStore.get_remove, ManagerCall.assigns, ih]
      split
      · rfl
      · rfl

/-- Before the first call of `install` only the application registers routes. -/
theorem routes_before {calls : List (ManagerCall μ)} (h : ∀ call ∈ calls, call.isInstall = false) :
    (after calls).routes =
      { router := calls.filterMap ManagerCall.registration?, installed := false } := by
  induction calls using List.reverseRecOn with
  | nil => rfl
  | append_singleton calls call ih =>
    have hbefore := ih fun c hc => h c (List.mem_append_left _ hc)
    rw [after_concat, List.filterMap_append]
    cases call with
    | register registration =>
      rw [ManagerCall.run, hbefore]
      rfl
    | installHttp01Route => cases h _ List.mem_concat_self
    | addChallenge | removeChallenge =>
      exact hbefore.trans (congrArg (ACMERouteInstaller.mk · false) (List.append_nil _).symm)

/-- The route of the challenges is registered once, by the first call of `install`. -/
theorem routes_after {before : List (ManagerCall μ)} (h : ∀ call ∈ before, call.isInstall = false)
    (calls : List (ManagerCall μ)) :
    (after (before ++ .installHttp01Route :: calls)).routes =
      { router := before.filterMap ManagerCall.registration? ++
          challengeRegistration :: calls.filterMap ManagerCall.registration?
        installed := true } := by
  induction calls using List.reverseRecOn with
  | nil =>
    rw [after_concat, ManagerCall.run, routes_before h]
    rfl
  | append_singleton calls call ih =>
    rw [← List.cons_append, ← List.append_assoc, after_concat, List.filterMap_append,
      ← List.cons_append, ← List.append_assoc]
    cases call with
    | register registration =>
      rw [ManagerCall.run, ih]
      rfl
    | installHttp01Route =>
      rw [ManagerCall.run, ih, ACMERouteInstaller.install]
      exact congrArg (ACMERouteInstaller.mk · true) (List.append_nil _).symm
    | addChallenge | removeChallenge =>
      exact ih.trans (congrArg (ACMERouteInstaller.mk · true) (List.append_nil _).symm)

end CertificateManager

section Pattern

open Regex

theorem token_valid :
    ("token".toList.head?.map isNameStart).getD false = true ∧
      ∀ c ∈ "token".toList, isNameChar c = true := by
  decide

/-- The parameter of the pattern. -/
def tokenParam : Piece := .brace ⟨"token".toList, token_valid⟩

/-- What the pattern has after the dot. -/
def challengePieces : List Piece :=
  "well-known/acme-challenge/".toList.map .lit ++ [tokenParam]

/-- The dot of the pattern is not escaped. -/
def challengeRegex : Regex Char Str :=
  .seq .start (.seq (Piece.lit '/').regex
    (.seq (.rep (fun x => decide (x ≠ '\n')) 1 (some 1)) (bodyRegex challengePieces)))

def challengeMatch : Match := fun path =>
  (challengeRegex.firstMatch path).map (∅ : Dict Str Str).update

theorem parseSequence_challenge (hn : (challengePieces.flatMap Piece.expr).length + 6 ≤ n) :
    parseSequence n ('^' :: '/' :: '.' :: (challengePieces.flatMap Piece.expr ++ "/?$".toList)) =
      some (challengeRegex, []) := by
  obtain ⟨n, rfl⟩ : ∃ m, n = m + 3 := ⟨n - 3, by omega⟩
  have hpieces : parseSequence n (challengePieces.flatMap Piece.expr ++ "/?$".toList) =
      some (bodyRegex challengePieces, []) := parseSequence_expr (by decide) (by omega)
  have hdot : parseSequence (n + 1)
      ('.' :: (challengePieces.flatMap Piece.expr ++ "/?$".toList)) =
        some (.seq (.rep (fun x => decide (x ≠ '\n')) 1 (some 1)) (bodyRegex challengePieces),
          []) :=
    parseSequence_charClass (by decide) rfl (quantifier_once (expr_head (by decide))) hpieces
  have hslash : parseSequence (n + 2)
      ('/' :: '.' :: (challengePieces.flatMap Piece.expr ++ "/?$".toList)) =
        some (.seq (Piece.lit '/').regex
          (.seq (.rep (fun x => decide (x ≠ '\n')) 1 (some 1)) (bodyRegex challengePieces)), []) :=
    parseSequence_charClass (by decide) rfl rfl hdot
  rw [parseSequence, hslash]
  rfl

theorem parse_challenge : parse (routeExpr challengePattern) = some challengeRegex := by
  have hexpr : routeExpr challengePattern =
      '^' :: '/' :: '.' :: (challengePieces.flatMap Piece.expr ++ "/?$".toList) := by
    decide +kernel
  have hlength : (challengePieces.flatMap Piece.expr).length + 6 ≤
      ('^' :: '/' :: '.' :: (challengePieces.flatMap Piece.expr ++ "/?$".toList)).length + 1 := by
    have htail : "/?$".toList.length = 3 := rfl
    rw [List.length_cons, List.length_cons, List.length_cons, List.length_append, htail]
    exact Nat.le_succ _
  rw [hexpr, parse, parseSequence_challenge hlength]

theorem compile_challenge (other : Str → Option Match) :
    compileRoute other (trimPattern challengePattern) = some challengeMatch := by
  have htrim : trimPattern challengePattern = challengePattern := by decide
  have hnames : challengeRegex.names.Nodup := by decide
  rw [htrim, compileRoute, parse_challenge]
  dsimp only
  rw [if_pos hnames]
  rfl

theorem fill_challengePieces (value : Str → Str) :
    fill value challengePieces = "well-known/acme-challenge/".toList ++ value "token".toList := by
  have hparam : fill value [tokenParam] = value "token".toList := List.append_nil _
  have hlits := fill_lits value "well-known/acme-challenge/".toList [tokenParam]
  rw [hparam] at hlits
  exact hlits

/-- A class of characters without a quantifier takes one of them. -/
theorem takes_one {accepts : Char → Bool} {caps : List (Str × Str)} {taken rest : Str} :
    Takes (.rep accepts 1 (some 1)) b caps taken rest ↔
      caps = [] ∧ ∃ c, taken = [c] ∧ accepts c = true := by
  rw [takes_rep]
  constructor
  · rintro ⟨hcaps, hall, hleast, hmost⟩
    obtain ⟨c, rfl⟩ := List.length_eq_one_iff.1 (Nat.le_antisymm (hmost 1 rfl) hleast)
    exact ⟨hcaps, c, rfl, hall c List.mem_cons_self⟩
  · rintro ⟨hcaps, c, rfl, hc⟩
    refine ⟨hcaps, fun a ha => List.mem_singleton.1 ha ▸ hc, Nat.le_refl 1, fun m hm => ?_⟩
    cases hm
    exact Nat.le_refl 1

/-- The regular expression takes what its pieces take after any character. -/
theorem takes_challenge {caps : List (Str × Str)} {taken rest : Str} :
    Takes challengeRegex true caps taken rest ↔ ∃ c text, taken = '/' :: c :: text ∧ c ≠ '\n' ∧
      Takes (bodyRegex challengePieces) false caps text rest := by
  rw [challengeRegex, takes_start, takes_seq]
  constructor
  · rintro ⟨caps₁, caps₂, taken₁, taken₂, rfl, rfl, hslash, hafter⟩
    obtain ⟨rfl, d, rfl, hd⟩ := takes_one.1 hslash
    obtain ⟨caps₁, caps₂, taken₁, text, rfl, rfl, hdot, hbody⟩ := takes_seq.1 hafter
    obtain ⟨rfl, c, rfl, hc⟩ := takes_one.1 hdot
    rw [of_decide_eq_true hd]
    exact ⟨c, text, rfl, of_decide_eq_true hc, hbody⟩
  · rintro ⟨c, text, rfl, hc, hbody⟩
    refine ⟨[], caps, ['/'], c :: text, rfl, rfl, takes_one.2 ⟨rfl, '/', rfl, rfl⟩, ?_⟩
    exact takes_seq.2 ⟨[], caps, [c], text, rfl, rfl,
      takes_one.2 ⟨rfl, c, rfl, decide_eq_true hc⟩, hbody⟩

/-- The parameter is all that follows the last slash of the pattern. -/
theorem firstMatch_challenge {v : Str} (hne : v ≠ []) (hslash : '/' ∉ v) (hline : '\n' ∉ v) :
    challengeRegex.firstMatch ("/.well-known/acme-challenge/".toList ++ v) =
      some (captures (fun _ => v) challengePieces) := by
  have hnames : (paramNames challengePieces).Nodup := by decide
  have hparams : paramNames challengePieces = ["token".toList] := by decide
  have htext : '\n' ∉ "well-known/acme-challenge/".toList ++ v := by
    rw [List.mem_append, not_or]
    exact ⟨by decide, hline⟩
  have hallows : ∀ p ∈ challengePieces, p.Allows fun _ => v := by
    intro p hp
    rcases List.mem_append.1 hp with hp | hp
    · obtain ⟨c, -, rfl⟩ := List.mem_map.1 hp
      trivial
    · rw [List.mem_singleton.1 hp]
      exact ⟨hne, hslash⟩
  have hbody : Takes (bodyRegex challengePieces) false (captures (fun _ => v) challengePieces)
      (fill (fun _ => v) challengePieces ++ []) [] :=
    takes_of_stands hallows (by rw [fill_challengePieces]; exact htext) (.inl rfl)
  rw [fill_challengePieces, List.append_nil] at hbody
  have htakes := takes_challenge.2 ⟨'.', _, rfl, by decide, hbody⟩
  obtain ⟨caps, hcaps⟩ := Option.isSome_iff_exists.1
    (firstMatch_isSome.2 ⟨_, _, [], (List.append_nil _).symm, htakes⟩)
  have hfirst : challengeRegex.firstMatch ("/.well-known/acme-challenge/".toList ++ v) =
    some caps := hcaps
  obtain ⟨taken, rest, hpath, hmatch⟩ := firstMatch_eq_some hfirst
  obtain ⟨c, text, rfl, -, hafter⟩ := takes_challenge.1 hmatch
  have hrest : "well-known/acme-challenge/".toList ++ v = text ++ rest :=
    (List.cons.inj (List.cons.inj hpath).2).2
  have hlineRest : '\n' ∉ rest := fun hmem => htext (hrest ▸ List.mem_append_right _ hmem)
  obtain ⟨value, rfl, hstands, -⟩ := stands_of_takes hafter hlineRest hnames
  have hvalue : value "token".toList = v := by
    rw [← hrest, fill_challengePieces, List.append_assoc, List.append_cancel_left_eq,
      List.append_cancel_left_eq] at hstands
    rcases hstands with hstands | hstands
    · exact hstands.symm
    · rw [hstands] at hslash
      exact absurd (List.mem_append_right _ List.mem_cons_self) hslash
  rw [hfirst, captures, captures, hparams, List.map_singleton, List.map_singleton, hvalue]

end Pattern

/-- The path of the challenge for a token. -/
def challengePath (token : Str) : Str := "/.well-known/acme-challenge/".toList ++ quote token

theorem challengePath_eq (token : Str) :
    challengePath token = '/' :: quote (".well-known/acme-challenge/".toList ++ token) := by
  have hstem : quote ".well-known/acme-challenge/".toList =
    ".well-known/acme-challenge/".toList := by decide
  have happend : quote (".well-known/acme-challenge/".toList ++ token) =
      quote ".well-known/acme-challenge/".toList ++ quote token := List.flatMap_append
  rw [happend, hstem]
  rfl

theorem quote_ne_nil {s : Str} (h : s ≠ []) : quote s ≠ [] := by
  obtain ⟨c, rest, rfl⟩ := List.exists_cons_of_ne_nil h
  have hquote : quote (c :: rest) = quoteChar c ++ quote rest := List.flatMap_cons
  rw [hquote]
  exact List.append_ne_nil_of_left_ne_nil (quoteChar_ne_nil c) _

theorem quote_no_slash {s : Str} (h : '/' ∉ s) : '/' ∉ quote s := by
  intro hmem
  obtain ⟨c, hc, hslash⟩ := List.mem_flatMap.1 hmem
  exact quoteChar_no_slash (fun heq => h (heq ▸ hc)) hslash

/-- The route takes the token out of the path. -/
theorem challengeMatch_path {token : Str} (hne : token ≠ []) (hslash : '/' ∉ token) :
    ∃ groups, challengeMatch (challengePath token) = some groups ∧
      (routeParams groups).get? "token".toList = some token := by
  have hline : '\n' ∉ quote token := fun hmem =>
    quote_no_newline token (List.mem_cons_of_mem _ hmem)
  have hnames : (paramNames challengePieces).Nodup := by decide
  refine ⟨(∅ : Dict Str Str).update (captures (fun _ => quote token) challengePieces), ?_, ?_⟩
  · have hfirst := firstMatch_challenge (quote_ne_nil hne) (quote_no_slash hslash) hline
    exact congrArg (Option.map (∅ : Dict Str Str).update) hfirst
  · rw [get?_captures hnames, if_pos (by decide), unquote_quote]

/-- The call of `Router.add` that `install` comes to. -/
def challengeCall : AddCall HTTP01ChallengeStore μ :=
  ⟨"GET".toList, challengePattern, acmeChallenge, []⟩

theorem accepted_challenge (other : Str → Option Match) :
    (challengeRegistration : Registration HTTP01ChallengeStore μ).accepted (compileRoute other) =
      [(challengeCall, challengeMatch)] := by
  rw [Registration.accepted, challengeRegistration, Registration.calls]
  simp only [List.map_cons, List.map_nil, compile_challenge]
  rfl

/-- The route serves the path where no route before it does. -/
theorem decision_challenge {before : List (AddCall HTTP01ChallengeStore μ × Match)} {path : Str}
    (hfree : ∀ c ∈ before, serves "GET".toList path c = false)
    (hgroups : challengeMatch path = some groups)
    (after : List (AddCall HTTP01ChallengeStore μ × Match)) :
    decision (before ++ (challengeCall, challengeMatch) :: after) "GET".toList path =
      .serve challengeCall groups := by
  have hnone : before.find? (serves "GET".toList path) = none := by
    rw [List.find?_eq_none]
    intro c hc
    rw [hfree c hc]
    exact Bool.false_ne_true
  have hserves : serves "GET".toList path
      ((challengeCall, challengeMatch) : AddCall HTTP01ChallengeStore μ × Match) = true := by
    rw [serves]
    dsimp only
    rw [hgroups, Option.isSome_some, Bool.true_and]
    exact decide_eq_true rfl
  rw [decision, List.find?_append, hnone, Option.none_or, List.find?_cons_of_pos hserves]
  dsimp only
  rw [hgroups, Option.getD_some]

theorem challengePath_not_docs (token : Str) : Router.isDocsPath (challengePath token) = false := by
  rw [Router.isDocsPath, decide_eq_false_iff_not]
  intro hdocs
  have hprefix : ((challengePath token).reverse.dropWhile (· = '/')).reverse <+:
      challengePath token := List.rdropWhile_prefix _ _
  simp only [List.mem_cons, List.not_mem_nil, or_false] at hdocs
  rcases hdocs with hdocs | hdocs
  · rw [hdocs] at hprefix
    obtain ⟨more, hmore⟩ := hprefix
    exact absurd (List.cons.inj (List.cons.inj hmore).2).1 (by decide)
  · rw [hdocs] at hprefix
    obtain ⟨more, hmore⟩ := hprefix
    exact absurd (List.cons.inj (List.cons.inj hmore).2).1 (by decide)

/-- The handler answers for the token, and leaves the store as it is. -/
theorem acmeChallenge_run {groups : Dict Str Str} {token : Str}
    (hparam : (routeParams groups).get? "token".toList = some token) (req : Request)
    (store : HTTP01ChallengeStore) :
    callHandler (acmeChallenge : AppHandler HTTP01ChallengeStore μ).toHandler groups req store =
      (.ok (.result (.response (challengeAnswer (store.get token)))), store) := by
  have hbody : (acmeChallenge : AppHandler HTTP01ChallengeStore μ).body groups req store =
      (.ok (.result (.response (challengeAnswer (store.get token)))), store) := by
    rw [acmeChallenge]
    dsimp only
    rw [hparam]
    rfl
  exact Act.bind_ok _ hbody

namespace SovereignTestClient

/-- The request for a quoted path. -/
theorem makeRequest_quoted [Urllib] (R : OrmRuntime κ φ) {s : Str}
    (h : ∃ c rest, s = c :: rest ∧ c ≠ '/') (headers : List (Str × Str)) :
    ∃ req, makeRequest R "GET".toList ('/' :: quote s) .none none headers = .ok req ∧
      req.path = '/' :: quote s := by
  have hmake (method version : Str) (headers : Headers) (rawHeaders : List (Str × Str))
      (body : Body) (bodySize : Int) (remoteAddr : Str) :
      Request.make method ('/' :: quote s) version headers rawHeaders body bodySize remoteAddr =
        .ok { method, target := '/' :: quote s, version, headers, rawHeaders, body, bodySize,
              path := '/' :: quote s, queryString := [], remoteAddr,
              cookies := parseCookies headers } := by
    rw [Request.make, urlsplit_quote h]
    dsimp only
    rw [if_neg (List.cons_ne_nil _ _)]
  exact ⟨_, hmake _ _ _ _ _ _ _, rfl⟩

/-- Without middlewares the handler that the registrations decide for answers the request. -/
theorem request_decided [Urllib] {R : OrmRuntime κ φ} {router : Router σ}
    {accepted : List (AddCall σ μ × Match)}
    (hreq : makeRequest R "GET".toList target data body headers = .ok req)
    (hdocs : Router.isDocsPath req.path = false)
    (hserve : decision accepted "GET".toList req.path = .serve call groups)
    (hglobal : router.middlewares = []) (hlocal : call.middlewares = []) :
    request R (router.withRoutes (accepted.map fun c => c.1.entry c.2)) "GET".toList target data
        body headers =
      answer (callHandler call.handler.toHandler groups req) := by
  have hupper : upper "GET".toList = "GET".toList := by decide
  have hresolve : (router.withRoutes (accepted.map fun c => c.1.entry c.2)).resolve "GET".toList
      req.path = pure (callHandler call.handler.toHandler groups, []) := by
    rw [Router.resolve, Router.resolveWith_eq router _ _ _ _ hdocs, hserve, Decision.perform,
      hlocal]
    rfl
  have hmiddlewares : (router.withRoutes (accepted.map fun c => c.1.entry c.2)).middlewares = [] :=
    hglobal
  rw [request, hreq]
  dsimp only
  rw [hupper, hresolve, pure_bind, Router.execute, hmiddlewares]
  rfl

end SovereignTestClient

namespace CertificateManager

/-- Once the route is installed, whatever else the application registers, adds and removes, a
request for the challenge of a token gets the authorization that was added last and is not removed,
and else 404, unless a route from before the installation takes its path. -/
theorem challenge_answered [Urllib] (R : OrmRuntime κ φ) (other : Str → Option Match)
    (router : Router HTTP01ChallengeStore) (before calls : List (ManagerCall μ)) (token : Str)
    (headers : List (Str × Str)) (hglobal : router.middlewares = [])
    (hbefore : ∀ call ∈ before, call.isInstall = false) (hne : token ≠ []) (hslash : '/' ∉ token)
    (hfree : ∀ c ∈ (before.filterMap ManagerCall.registration?).flatMap
      (Registration.accepted (compileRoute other)),
      serves "GET".toList (challengePath token) c = false) :
    SovereignTestClient.request R
        (router.withRoutes (routesAfter (compileRoute other)
          (after (before ++ .installHttp01Route :: calls)).routes.router))
        "GET".toList (challengePath token) .none none headers
        (after (before ++ .installHttp01Route :: calls)).store =
      (.ok (.response (challengeAnswer
        (authorization (before ++ .installHttp01Route :: calls) token))),
        (after (before ++ .installHttp01Route :: calls)).store) := by
  obtain ⟨groups, hgroups, hparam⟩ := challengeMatch_path hne hslash
  obtain ⟨req, hreq, hpath⟩ := SovereignTestClient.makeRequest_quoted R
    (s := ".well-known/acme-challenge/".toList ++ token) ⟨'.', _, rfl, by decide⟩ headers
  rw [← challengePath_eq] at hreq hpath
  have hserve := decision_challenge hfree hgroups
  rw [← hpath] at hserve
  rw [routes_after hbefore, routesAfter_eq, List.flatMap_append, List.flatMap_cons,
    accepted_challenge, List.singleton_append,
    SovereignTestClient.request_decided hreq (hpath ▸ challengePath_not_docs token) (hserve _)
      hglobal rfl, SovereignTestClient.answer]
  rw [challengeCall, acmeChallenge_run hparam, get_after]
  rfl

/-- A manager that has one challenge before its route is installed, and drops another one later. -/
def tokenCalls : List (ManagerCall Unit) :=
  [.addChallenge "token123".toList "token123.keyauth".toList, .installHttp01Route,
    .addChallenge "old".toList "old.keyauth".toList, .removeChallenge "old".toList]

def tokenRouter : Router HTTP01ChallengeStore :=
  ⟨[], [], fun _ => throw (.builtin .attributeError)⟩

theorem challenge_answered_token : ∃ _ : Urllib,
    SovereignTestClient.request starRuntime
        (tokenRouter.withRoutes (routesAfter (compileRoute fun _ => none)
          (after tokenCalls).routes.router))
        "GET".toList "/.well-known/acme-challenge/token123".toList .none none []
        (after tokenCalls).store =
      (.ok (.response (challengeAnswer (some "token123.keyauth".toList))),
        (after tokenCalls).store) := by
  let _ : Urllib := ⟨fun _ => true⟩
  have hpath : challengePath "token123".toList = "/.well-known/acme-challenge/token123".toList := by
    decide
  have hanswer := challenge_answered (μ := Unit) starRuntime (fun _ => none) tokenRouter
    [.addChallenge "token123".toList "token123.keyauth".toList]
    [.addChallenge "old".toList "old.keyauth".toList, .removeChallenge "old".toList]
    "token123".toList [] rfl (fun call hcall => by rw [List.mem_singleton.1 hcall]; rfl)
    (by decide) (by decide) (fun c hc => (List.not_mem_nil hc).elim)
  rw [hpath] at hanswer
  exact ⟨inferInstance, hanswer⟩

end CertificateManager

end Sovereign
