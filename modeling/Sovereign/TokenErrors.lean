import Sovereign.JwtSoundness

namespace Sovereign
set_option autoImplicit true

/-- A refusal with status 401. -/
def Unauthorized (e : Exc) : Prop := ∃ err : HTTPError, e = .http err ∧ err.status = 401

/-- A computation that gives a result, or refuses with status 401. -/
def Answered (res : Except Exc ρ) : Prop := ∀ e, res = .error e → Unauthorized e

theorem answered_ok (x : ρ) : Answered (.ok x) := fun _ h => (by cases h)

theorem answered_error {e : Exc} : Answered (.error e : Except Exc ρ) ↔ Unauthorized e :=
  ⟨fun h => h e rfl, fun h _ he => Except.error.inj he ▸ h⟩

theorem answered_refusal (message : String) :
    Answered (.error (.httpError 401 message) : Except Exc ρ) :=
  answered_error.2 ⟨_, rfl, rfl⟩

theorem not_answered_builtin (e : PyError) : ¬ Answered (.error (.builtin e) : Except Exc ρ) := by
  rw [answered_error]
  rintro ⟨err, herr, -⟩
  cases herr

/-- A computation in two parts. -/
theorem answered_bind {x : Except Exc ρ} {f : ρ → Except Exc ρ'} :
    Answered (x >>= f) ↔ Answered x ∧ ∀ a, x = .ok a → Answered (f a) := by
  cases x with
  | ok a =>
    rw [ok_bind]
    exact ⟨fun h => ⟨answered_ok a, fun b hb => Except.ok.inj hb ▸ h⟩, fun h => h.2 a rfl⟩
  | error e =>
    constructor
    · intro h
      exact ⟨answered_error.2 (answered_error.1 h), fun a ha => nomatch ha⟩
    · rintro ⟨h, -⟩
      exact answered_error.2 (answered_error.1 h)

theorem answered_bind_run {x : Act σ ρ} {f : ρ → Act σ ρ'} {w : σ} :
    Answered ((x >>= f) w).1 ↔
      Answered (x w).1 ∧ ∀ a w', x w = (.ok a, w') → Answered (f a w').1 := by
  rw [Act.bind_run]
  obtain ⟨res, w'⟩ := x w
  cases res with
  | ok a =>
    refine ⟨fun h => ⟨answered_ok a, fun b w'' hb => ?_⟩, fun h => h.2 a w' rfl⟩
    cases hb
    exact h
  | error e =>
    constructor
    · intro h
      exact ⟨answered_error.2 (answered_error.1 h), fun a w'' ha => nomatch ha⟩
    · rintro ⟨h, -⟩
      exact answered_error.2 (answered_error.1 h)

namespace JWTAuth

variable {runtime : JwtRuntime σ} {auth : JWTAuth σ} {header payload : Dict Str Json}

theorem answered_split (token : Str) : Answered (auth.split token) := by
  rw [split]
  split
  · exact answered_refusal _
  · next h =>
    rw [not_or, not_not] at h
    have hlength : (token.splitOn '.').length = 3 := by
      rw [Marker.length_splitOn, h.2]
    obtain ⟨a, b, c, habc⟩ := List.length_eq_three.1 hlength
    rw [habc]
    exact answered_ok _

theorem answered_readDocument (message : String) (part : Str) :
    Answered (readDocument runtime message part) := by
  rw [readDocument]
  split
  · exact answered_refusal _
  · exact answered_ok _

theorem answered_asObject {doc : Document} : Answered (asObject doc) ↔ ∃ o, doc = .object o := by
  cases doc with
  | object o => exact iff_of_true (answered_ok o) ⟨o, rfl⟩
  | value v => exact iff_of_false (not_answered_builtin _) (by rintro ⟨o, ho⟩; cases ho)

theorem answered_checkAlgorithm (header : Dict Str Json) :
    Answered (auth.checkAlgorithm header) := by
  rw [checkAlgorithm]
  split
  · exact answered_ok _
  · exact answered_refusal _

/-- A value that cannot be the key of a dictionary. -/
def Unhashable : Option Json → Prop
  | some (.array _) | some (.object _) => True
  | _ => False

theorem answered_lookup (kid : Str) : Answered (auth.lookup kid) := by
  rw [lookup]
  split
  · exact answered_ok _
  · exact answered_refusal _

theorem answered_secretFor (header : Dict Str Json) :
    Answered (auth.secretFor header) ↔ ¬ Unhashable (header.get? "kid".toList) := by
  rw [secretFor]
  generalize header.get? "kid".toList = kid
  cases kid with
  | none => exact iff_of_true (answered_lookup _) not_false
  | some kid =>
    cases kid with
    | str kid => exact iff_of_true (answered_lookup kid) not_false
    | array l => exact iff_of_false (not_answered_builtin _) (not_not_intro trivial)
    | object entries => exact iff_of_false (not_answered_builtin _) (not_not_intro trivial)
    | null | bool b | int n | float x => exact iff_of_true (answered_refusal _) not_false

/-- A text of ASCII characters. -/
def IsAscii (s : Str) : Prop := ∀ c ∈ s, c.toNat < 128

theorem encodeAscii_eq_none {s : Str} : encodeAscii s = none ↔ ¬ IsAscii s := by
  rw [encodeAscii]
  split
  · next h =>
    rw [List.all_eq_true] at h
    exact iff_of_false (Option.some_ne_none _)
      (not_not_intro fun c hc => of_decide_eq_true (h c hc))
  · next h =>
    refine iff_of_true rfl fun hs => h ?_
    rw [List.all_eq_true]
    exact fun c hc => decide_eq_true (hs c hc)

theorem answered_signature (secret h b : Str) :
    Answered (signature runtime secret h b) ↔ IsAscii (h ++ '.' :: b) := by
  rw [signature]
  split
  · next hnone => exact iff_of_false (not_answered_builtin _) (encodeAscii_eq_none.1 hnone)
  · next message hsome =>
    refine iff_of_true (answered_ok _) ?_
    by_contra hno
    rw [encodeAscii_eq_none.2 hno] at hsome
    cases hsome

theorem answered_checkSignature {s expected : Str} (h : IsAscii expected) :
    Answered (checkSignature s expected) ↔ IsAscii s := by
  rw [checkSignature, CSRFMiddleware.compareDigest]
  by_cases hs : IsAscii s
  · have hall : ((s ++ expected).all fun c => decide (c.toNat < 128)) = true := by
      rw [List.all_eq_true]
      intro c hc
      rcases List.mem_append.1 hc with hc | hc
      · exact decide_eq_true (hs c hc)
      · exact decide_eq_true (h c hc)
    rw [if_pos hall]
    refine iff_of_true ?_ hs
    cases decide (s = expected) with
    | true => exact answered_ok _
    | false => exact answered_refusal _
  · have hall : ¬ ((s ++ expected).all fun c => decide (c.toNat < 128)) = true := by
      rw [List.all_eq_true]
      exact fun hc => hs fun c hcs => of_decide_eq_true (hc c (List.mem_append_left _ hcs))
    rw [if_neg hall]
    exact iff_of_false (not_answered_builtin _) hs

theorem isAscii_of_b64d {part : Str} (h : b64d part = some data) : IsAscii part := by
  by_contra hno
  have hpadded : ¬ IsAscii (Base64.padded part) :=
    fun hp => hno fun c hc => hp c (List.mem_append_left _ hc)
  rw [b64d, encodeAscii_eq_none.2 hpadded] at h
  cases h

theorem isAscii_of_loads {part : Str} (h : (b64d part).bind runtime.loads = some doc) :
    IsAscii part := by
  obtain ⟨data, hdata, -⟩ := Option.bind_eq_some_iff.1 h
  exact isAscii_of_b64d hdata

theorem isAscii_parts {h b : Str} (hh : IsAscii h) : IsAscii (h ++ '.' :: b) ↔ IsAscii b := by
  constructor
  · intro hparts c hc
    exact hparts c (List.mem_append_right _ (List.mem_cons_of_mem _ hc))
  · intro hb c hc
    rcases List.mem_append.1 hc with hc | hc
    · exact hh c hc
    · rcases List.mem_cons.1 hc with rfl | hc
      · decide
      · exact hb c hc

theorem readDocument_eq_ok {message : String} {part : Str} :
    readDocument runtime message part = .ok doc ↔ (b64d part).bind runtime.loads = some doc := by
  constructor
  · exact readDocument_ok
  · intro h
    rw [readDocument, h]

theorem split_eq_ok {token h b s : Str} :
    auth.split token = .ok (h, b, s) ↔
      token.length ≤ auth.maxTokenLen ∧ token.splitOn '.' = [h, b, s] := by
  constructor
  · intro hsplit
    refine ⟨?_, (split_ok hsplit).1⟩
    rw [split] at hsplit
    split at hsplit
    · cases hsplit
    · next hc => exact not_lt.1 (not_or.1 hc).1
  · rintro ⟨hlength, hparts⟩
    have hcount : token.count '.' = 2 := by
      have hthree := Marker.length_splitOn '.' token
      rw [hparts] at hthree
      exact (Nat.succ.inj hthree).symm
    rw [split, if_neg (not_or.2 ⟨not_lt.2 hlength, not_not.2 hcount⟩), hparts]

/-- The header of a token that names the algorithm. -/
structure HasHeader (runtime : JwtRuntime σ) (auth : JWTAuth σ) (token h b s : Str)
    (header : Dict Str Json) : Prop where
  short : token.length ≤ auth.maxTokenLen
  parts : token.splitOn '.' = [h, b, s]
  loads : (b64d h).bind runtime.loads = some (.object header)
  algorithm : auth.checkAlgorithm header = .ok ()

/-- The token that comes to the payload. -/
theorem authentic_iff :
    auth.authentic runtime token = .ok doc ↔
      token.length ≤ auth.maxTokenLen ∧ ∃ r, Genuine runtime auth token doc r := by
  constructor
  · intro h
    refine ⟨?_, authentic_ok h⟩
    obtain ⟨⟨h, b, s⟩, hsplit, -⟩ := except_bind_eq_ok.1 h
    exact (split_eq_ok.1 hsplit).1
  · rintro ⟨hlength, r, hr⟩
    have halg : auth.checkAlgorithm r.header = .ok () := by
      rw [checkAlgorithm, if_pos ⟨isStr_iff.2 hr.alg, isStr_iff.2 hr.typ⟩]
    have hlookup : auth.lookup r.kid = .ok r.secret := by
      rw [lookup, configured_eq_some.2 ⟨hr.secret, hr.nonempty⟩]
    have hsecret : auth.secretFor r.header = .ok r.secret := by
      rcases hr.kid with hkid | ⟨hkid, hcurrent⟩
      · rw [secretFor, hkid]
        exact hlookup
      · rw [secretFor, hkid]
        rw [hcurrent] at hlookup
        exact hlookup
    have hsig : signature runtime r.secret r.h r.b = .ok r.s := by
      rw [signature, hr.message, hr.signature]
    have hcheck : checkSignature r.s r.s = .ok () := by
      apply checkSignature_self
      rw [hr.signature]
      exact ascii_b64e _
    rw [authentic, split_eq_ok.2 ⟨hlength, hr.parts⟩, ok_bind]
    dsimp only
    rw [readDocument_eq_ok.2 hr.header, ok_bind, asObject, ok_bind, halg, ok_bind, hsecret, ok_bind,
      hsig, ok_bind, hcheck, ok_bind, readDocument_eq_ok.2 hr.payload]

theorem answered_toInt (v : Json) : Answered v.toInt ↔ ∃ n, v.toInt = .ok n := by
  cases hv : v.toInt with
  | ok n => exact iff_of_true (answered_ok n) ⟨n, rfl⟩
  | error e =>
    have hbuiltin : ∃ err, e = .builtin err := by
      rw [Json.toInt.eq_def] at hv
      split at hv
      · cases hv
      · cases hv
      · cases hv
      · cases hv
        exact ⟨_, rfl⟩
      · split at hv
        · cases hv
        · cases hv
          exact ⟨_, rfl⟩
      · cases hv
        exact ⟨_, rfl⟩
      · cases hv
        exact ⟨_, rfl⟩
      · cases hv
        exact ⟨_, rfl⟩
    obtain ⟨err, rfl⟩ := hbuiltin
    exact iff_of_false (not_answered_builtin err) fun ⟨n, hn⟩ => nomatch hn

theorem answered_checkClaim (message : String) (expected : Option Str) (claim : Option Json) :
    Answered (checkClaim message expected claim) := by
  rw [checkClaim]
  split
  · exact answered_ok _
  · split
    · exact answered_ok _
    · exact answered_refusal _

theorem answered_checkClaims (now : Int) :
    Answered (auth.checkClaims payload now) ↔ ∃ n, expOf payload = .ok n := by
  rw [checkClaims, answered_bind, expOf, answered_toInt]
  refine and_iff_left fun exp _ => ?_
  split
  · exact answered_refusal _
  · exact answered_bind.2 ⟨answered_checkClaim _ _ _, fun _ _ => answered_checkClaim _ _ _⟩

theorem answered_checkRevoked (w : σ) :
    Answered (auth.checkRevoked runtime payload w).1 ↔
      ∀ blocklist jti, auth.blocklist = some blocklist → jtiOf runtime payload = some jti →
        Answered (blocklist.isRevoked jti w).1 := by
  rw [checkRevoked]
  cases auth.blocklist with
  | none =>
    exact iff_of_true (answered_ok _) fun _ _ hnone => absurd hnone.symm (Option.some_ne_none _)
  | some blocklist =>
    cases jtiOf runtime payload with
    | none =>
      exact iff_of_true (answered_ok _) fun _ _ _ hnone =>
        absurd hnone.symm (Option.some_ne_none _)
    | some jti =>
      dsimp only
      rw [answered_bind_run]
      constructor
      · rintro ⟨h, -⟩ _ _ ⟨⟩ ⟨⟩
        exact h
      · intro h
        refine ⟨h blocklist jti rfl rfl, fun revoked w' _ => ?_⟩
        cases revoked with
        | true => exact answered_refusal _
        | false => exact answered_ok _

/-- What the checks of a token come upon can be read: for each of them, if it is reached. -/
structure Tractable (runtime : JwtRuntime σ) (auth : JWTAuth σ) (token : Str) (w : σ) : Prop where
  header : ∀ h b s doc, token.length ≤ auth.maxTokenLen → token.splitOn '.' = [h, b, s] →
    (b64d h).bind runtime.loads = some doc → ∃ o, doc = .object o
  kid : ∀ h b s header, HasHeader runtime auth token h b s header →
    ¬ Unhashable (header.get? "kid".toList)
  ascii : ∀ h b s header secret, HasHeader runtime auth token h b s header →
    auth.secretFor header = .ok secret → IsAscii b ∧ IsAscii s
  payload : ∀ doc r, token.length ≤ auth.maxTokenLen → Genuine runtime auth token doc r →
    ∃ payload, doc = .object payload
  exp : ∀ payload r, token.length ≤ auth.maxTokenLen →
    Genuine runtime auth token (.object payload) r → ∃ n, expOf payload = .ok n
  revoked : ∀ payload r blocklist jti, token.length ≤ auth.maxTokenLen →
    Genuine runtime auth token (.object payload) r →
    auth.checkClaims payload ⌊(runtime.time w).1⌋ = .ok () → auth.blocklist = some blocklist →
    jtiOf runtime payload = some jti → Answered (blocklist.isRevoked jti (runtime.time w).2).1

theorem answered_authentic (token : Str) :
    Answered (auth.authentic runtime token) ↔
      (∀ h b s doc, token.length ≤ auth.maxTokenLen → token.splitOn '.' = [h, b, s] →
        (b64d h).bind runtime.loads = some doc → ∃ o, doc = .object o) ∧
      (∀ h b s header, HasHeader runtime auth token h b s header →
        ¬ Unhashable (header.get? "kid".toList)) ∧
      ∀ h b s header secret, HasHeader runtime auth token h b s header →
        auth.secretFor header = .ok secret → IsAscii b ∧ IsAscii s := by
  have hexpected : ∀ {secret h b sig : Str}, signature runtime secret h b = .ok sig →
    IsAscii sig := by
    intro secret h b sig hsig
    obtain ⟨message, -, rfl⟩ := signature_ok hsig
    exact ascii_b64e _
  constructor
  · intro hanswered
    have hdocument : ∀ h b s doc, token.length ≤ auth.maxTokenLen → token.splitOn '.' = [h, b, s] →
        (b64d h).bind runtime.loads = some doc → Answered (do
          let header ← asObject doc
          auth.checkAlgorithm header
          let secret ← auth.secretFor header
          let expected ← signature runtime secret h b
          checkSignature s expected
          readDocument runtime "Invalid token payload" b) :=
      fun h b s doc hlength hparts hdoc =>
        (answered_bind.1
          ((answered_bind.1 hanswered).2 (h, b, s) (split_eq_ok.2 ⟨hlength, hparts⟩))).2
        doc
          (readDocument_eq_ok.2 hdoc)
    have hheader : ∀ h b s header, HasHeader runtime auth token h b s header → Answered (do
        let secret ← auth.secretFor header
        let expected ← signature runtime secret h b
        checkSignature s expected
        readDocument runtime "Invalid token payload" b) :=
      fun h b s header hh => (answered_bind.1 ((answered_bind.1
        (hdocument h b s _ hh.short hh.parts hh.loads)).2 header rfl)).2 () hh.algorithm
    refine ⟨fun h b s doc hlength hparts hdoc => ?_, fun h b s header hh => ?_,
      fun h b s header secret hh hsecret => ?_⟩
    · exact answered_asObject.1 (answered_bind.1 (hdocument h b s doc hlength hparts hdoc)).1
    · exact (answered_secretFor header).1 (answered_bind.1 (hheader h b s header hh)).1
    · have hsig := answered_bind.1 ((answered_bind.1 (hheader h b s header hh)).2 secret hsecret)
      have hascii : IsAscii (h ++ '.' :: b) := (answered_signature secret h b).1 hsig.1
      refine ⟨(isAscii_parts (isAscii_of_loads hh.loads)).1 hascii, ?_⟩
      cases hsign : signature runtime secret h b with
      | error e =>
        rw [signature, encodeAscii_of_forall hascii] at hsign
        cases hsign
      | ok expected =>
        exact (answered_checkSignature (hexpected hsign)).1
          (answered_bind.1 (hsig.2 expected hsign)).1
  · rintro ⟨hobject, hkid, hascii⟩
    refine answered_bind.2 ⟨answered_split token, fun parts hsplit => ?_⟩
    obtain ⟨h, b, s⟩ := parts
    obtain ⟨hlength, hparts⟩ := split_eq_ok.1 hsplit
    refine answered_bind.2 ⟨answered_readDocument _ _, fun doc hdoc => ?_⟩
    obtain ⟨header, rfl⟩ := hobject h b s doc hlength hparts (readDocument_eq_ok.1 hdoc)
    refine answered_bind.2 ⟨answered_ok header, fun o ho => ?_⟩
    cases ho
    refine answered_bind.2 ⟨answered_checkAlgorithm header, fun _ halg => ?_⟩
    have hh : HasHeader runtime auth token h b s header :=
      ⟨hlength, hparts, readDocument_eq_ok.1 hdoc, halg⟩
    refine answered_bind.2 ⟨(answered_secretFor header).2 (hkid h b s header hh),
      fun secret hsecret => ?_⟩
    obtain ⟨hb, hs⟩ := hascii h b s header secret hh hsecret
    have hmessage : IsAscii (h ++ '.' :: b) := (isAscii_parts (isAscii_of_loads hh.loads)).2 hb
    refine answered_bind.2 ⟨(answered_signature secret h b).2 hmessage, fun expected hsign => ?_⟩
    exact answered_bind.2 ⟨(answered_checkSignature (hexpected hsign)).2 hs,
      fun _ _ => answered_readDocument _ _⟩

/-- `verify_token` gives a payload or refuses with status 401, just if what its checks come upon can
be read. -/
theorem verifyToken_answers_iff (runtime : JwtRuntime σ) (auth : JWTAuth σ) (token : Str) (w : σ) :
    Answered (auth.verifyToken runtime token w).1 ↔ Tractable runtime auth token w := by
  have hlift : ∀ {ρ : Type} (x : Except Exc ρ) (w : σ), Answered (Act.lift x w).1 ↔ Answered x :=
    fun x w => Iff.rfl
  constructor
  · intro hanswered
    obtain ⟨hauth, hrest⟩ := answered_bind_run.1 hanswered
    obtain ⟨hheader, hkid, hascii⟩ := (answered_authentic token).1 hauth
    have hdoc : ∀ doc r, token.length ≤ auth.maxTokenLen → Genuine runtime auth token doc r →
        Answered ((do
          let payload ← Act.lift (asObject doc)
          Act.lift (auth.checkClaims payload ⌊(runtime.time w).1⌋)
          auth.checkRevoked runtime payload
          return payload : Act σ (Dict Str Json)) (runtime.time w).2).1 := by
      intro doc r hlength hr
      have hlifted : Act.lift (auth.authentic runtime token) w = (.ok doc, w) :=
        congrArg (fun x => (x, w)) (authentic_iff.2 ⟨hlength, r, hr⟩)
      exact (answered_bind_run.1 (hrest doc w hlifted)).2 ⌊(runtime.time w).1⌋ _ rfl
    have hpayload : ∀ payload r, token.length ≤ auth.maxTokenLen →
        Genuine runtime auth token (.object payload) r → Answered ((do
          Act.lift (auth.checkClaims payload ⌊(runtime.time w).1⌋)
          auth.checkRevoked runtime payload
          return payload : Act σ (Dict Str Json)) (runtime.time w).2).1 :=
      fun payload r hlength hr =>
        (answered_bind_run.1 (hdoc _ r hlength hr)).2 payload (runtime.time w).2 rfl
    refine ⟨hheader, hkid, hascii, fun doc r hlength hr => ?_, fun payload r hlength hr => ?_,
      fun payload r blocklist jti hlength hr hclaims hblocklist hjti => ?_⟩
    · exact answered_asObject.1 (answered_bind_run.1 (hdoc doc r hlength hr)).1
    · exact (answered_checkClaims _).1 (answered_bind_run.1 (hpayload payload r hlength hr)).1
    · have hchecked : Act.lift (auth.checkClaims payload ⌊(runtime.time w).1⌋) (runtime.time w).2 =
          (.ok (), (runtime.time w).2) := congrArg (fun x => (x, (runtime.time w).2)) hclaims
      have hrevoked := (answered_bind_run.1 (hpayload payload r hlength hr)).2 () _ hchecked
      exact (answered_checkRevoked _).1 (answered_bind_run.1 hrevoked).1 blocklist jti hblocklist
        hjti
  · intro ht
    refine answered_bind_run.2 ⟨(answered_authentic token).2 ⟨ht.header, ht.kid, ht.ascii⟩,
      fun doc w₁ hauth => ?_⟩
    obtain ⟨hdoc, rfl⟩ := lift_eq_ok hauth
    obtain ⟨hlength, r, hr⟩ := authentic_iff.1 hdoc
    obtain ⟨payload, rfl⟩ := ht.payload doc r hlength hr
    refine answered_bind_run.2 ⟨answered_ok _, fun now w₂ hnow => ?_⟩
    cases hnow
    refine answered_bind_run.2 ⟨answered_ok payload, fun o w₃ ho => ?_⟩
    cases ho
    refine answered_bind_run.2 ⟨(answered_checkClaims _).2 (ht.exp payload r hlength hr),
      fun _ w₄ hchecked => ?_⟩
    obtain ⟨hclaims, rfl⟩ := lift_eq_ok hchecked
    refine answered_bind_run.2 ⟨(answered_checkRevoked _).2 fun blocklist jti hblocklist hjti => ?_,
      fun _ _ _ => answered_ok payload⟩
    exact ht.revoked payload r blocklist jti hlength hr hclaims hblocklist hjti

/-- A `json.loads` for one text, `[]`. -/
def listRuntime : JwtRuntime Unit where
  time _ := (1000, ())
  tokenUrlsafe _ := ([], ())
  hmac _ _ := []
  dumps _ := []
  loads data := if data = ascii "[]" then some (.value (.array [])) else none
  repr _ := "[]".toList

/-- The header of a token is a list, which has no method `get`. -/
theorem list_header_raises :
    sampleAuth.verifyToken listRuntime "W10.e30.x".toList () =
        (.error (.builtin .attributeError), ()) ∧
      ¬ Answered (sampleAuth.verifyToken listRuntime "W10.e30.x".toList ()).1 := by
  have hrun : sampleAuth.verifyToken listRuntime "W10.e30.x".toList () =
      (.error (.builtin .attributeError), ()) := by rfl
  refine ⟨hrun, ?_⟩
  rw [hrun]
  exact not_answered_builtin _

end JWTAuth

end Sovereign
