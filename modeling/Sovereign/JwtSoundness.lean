import Sovereign.JwtRoundTrip

namespace Sovereign
set_option autoImplicit true

namespace JWTAuth

variable {runtime : JwtRuntime σ} {auth : JWTAuth σ} {header payload : Dict Str Json}

theorem split_ok (hsplit : auth.split token = .ok (h, b, s)) :
    token.splitOn '.' = [h, b, s] ∧ token = h ++ '.' :: b ++ '.' :: s := by
  rw [split] at hsplit
  split at hsplit
  · cases hsplit
  · split at hsplit
    · next hs =>
      cases hsplit
      refine ⟨hs, ?_⟩
      have htoken : List.intercalate ['.'] (token.splitOn '.') = token :=
        List.intercalate_splitOn '.'
      rw [hs] at htoken
      rw [← htoken]
      simp [List.intercalate]
    · cases hsplit

theorem readDocument_ok (h : readDocument runtime message part = .ok doc) :
    (b64d part).bind runtime.loads = some doc := by
  rw [readDocument] at h
  split at h
  · cases h
  · next hd =>
    cases h
    exact hd

theorem asObject_ok (h : asObject doc = .ok o) : doc = .object o := by
  cases doc with
  | object o' =>
    cases h
    rfl
  | value v => cases h

theorem isStr_iff : Json.isStr s value = true ↔ value = some (.str s) := by
  cases value with
  | none => exact ⟨fun h => (by cases h), fun h => (by cases h)⟩
  | some v =>
    cases v with
    | str s' =>
      rw [Json.isStr, decide_eq_true_iff, Option.some.injEq, Json.str.injEq]
    | _ => exact ⟨fun h => (by cases h), fun h => (by cases h)⟩

theorem checkAlgorithm_ok (h : auth.checkAlgorithm header = .ok ()) :
    header.get? "alg".toList = some (.str auth.expectedAlg) ∧
      header.get? "typ".toList = some (.str "JWT".toList) := by
  rw [checkAlgorithm] at h
  split at h
  · next hc => exact ⟨isStr_iff.1 hc.1, isStr_iff.1 hc.2⟩
  · cases h

theorem configured_eq_some : configured o = some s ↔ o = some s ∧ s ≠ [] := by
  rw [configured, Option.filter_eq_some_iff, decide_eq_true_iff]

theorem lookup_ok (h : auth.lookup kid = .ok secret) :
    auth.secrets.get? kid = some secret ∧ secret ≠ [] := by
  rw [lookup] at h
  split at h
  · next hc =>
    cases h
    exact configured_eq_some.1 hc
  · cases h

/-- The secret is that of the key that the header names, or of the current one. -/
theorem secretFor_ok (h : auth.secretFor header = .ok secret) :
    ∃ kid, (header.get? "kid".toList = some (.str kid) ∨
        header.get? "kid".toList = none ∧ kid = auth.currentKid) ∧
      auth.secrets.get? kid = some secret ∧ secret ≠ [] := by
  simp only [secretFor] at h
  split at h
  · next hnone => exact ⟨auth.currentKid, .inr ⟨hnone, rfl⟩, lookup_ok h⟩
  · next kid hkid => exact ⟨kid, .inl hkid, lookup_ok h⟩
  · cases h
  · cases h
  · cases h

theorem signature_ok (hsig : signature runtime secret h b = .ok sig) :
    ∃ message, encodeAscii (h ++ '.' :: b) = some message ∧
      sig = b64e (runtime.hmac (utf8 secret) message) := by
  rw [signature] at hsig
  split at hsig
  · cases hsig
  · next message hm =>
    cases hsig
    exact ⟨message, hm, rfl⟩

theorem checkSignature_ok (h : checkSignature s expected = .ok ()) : s = expected := by
  rw [checkSignature] at h
  split at h
  · next hd =>
    rw [CSRFMiddleware.compareDigest] at hd
    split at hd
    · exact of_decide_eq_true (Except.ok.inj hd)
    · cases hd
  · cases h
  · cases h

/-- What is read of a token: its parts, the header, and the key it has been signed with. -/
structure Reading where
  h : Str
  b : Str
  s : Str
  header : Dict Str Json
  kid : Str
  secret : Str
  message : Bytes

/-- The token is made of these parts, and its last one is the signature of the others. -/
structure Genuine (runtime : JwtRuntime σ) (auth : JWTAuth σ) (token : Str) (doc : Document)
    (r : Reading) : Prop where
  parts : token.splitOn '.' = [r.h, r.b, r.s]
  token : token = r.h ++ '.' :: r.b ++ '.' :: r.s
  header : (b64d r.h).bind runtime.loads = some (.object r.header)
  alg : r.header.get? "alg".toList = some (.str auth.expectedAlg)
  typ : r.header.get? "typ".toList = some (.str "JWT".toList)
  kid : r.header.get? "kid".toList = some (.str r.kid) ∨
    r.header.get? "kid".toList = none ∧ r.kid = auth.currentKid
  secret : auth.secrets.get? r.kid = some r.secret
  nonempty : r.secret ≠ []
  message : encodeAscii (r.h ++ '.' :: r.b) = some r.message
  signature : r.s = b64e (runtime.hmac (utf8 r.secret) r.message)
  payload : (b64d r.b).bind runtime.loads = some doc

theorem authentic_ok (h : auth.authentic runtime token = .ok doc) :
    ∃ r, Genuine runtime auth token doc r := by
  obtain ⟨⟨h, b, s⟩, hsplit, h₁⟩ := except_bind_eq_ok.1 h
  obtain ⟨header, hheader, h₂⟩ := except_bind_eq_ok.1 h₁
  obtain ⟨o, hobject, h₃⟩ := except_bind_eq_ok.1 h₂
  obtain ⟨⟨⟩, halg, h₄⟩ := except_bind_eq_ok.1 h₃
  obtain ⟨secret, hsecret, h₅⟩ := except_bind_eq_ok.1 h₄
  obtain ⟨sig, hsig, h₆⟩ := except_bind_eq_ok.1 h₅
  obtain ⟨⟨⟩, hcheck, hpayload⟩ := except_bind_eq_ok.1 h₆
  obtain ⟨hparts, htoken⟩ := split_ok hsplit
  obtain ⟨kid, hkid, hknown, hne⟩ := secretFor_ok hsecret
  obtain ⟨message, hmessage, hs⟩ := signature_ok hsig
  obtain ⟨hal, htyp⟩ := checkAlgorithm_ok halg
  cases asObject_ok hobject
  exact ⟨⟨h, b, s, o, kid, secret, message⟩, hparts, htoken, readDocument_ok hheader,
    hal, htyp, hkid,
    hknown, hne, hmessage, (checkSignature_ok hcheck).trans hs, readDocument_ok hpayload⟩

/-- The token is not out of date, and meant for here, and has not been revoked. -/
structure Current (runtime : JwtRuntime σ) (auth : JWTAuth σ) (payload : Dict Str Json) (w : σ) :
    Prop where
  exp : ∃ exp, expOf payload = .ok exp ∧ ⌊(runtime.time w).1⌋ ≤ exp
  issuer : ∀ s, configured auth.issuer = some s → payload.get? "iss".toList = some (.str s)
  audience : ∀ s, configured auth.audience = some s → payload.get? "aud".toList = some (.str s)
  jti : NotRevoked auth (jtiOf runtime payload) (runtime.time w).2

theorem checkClaim_inv {claim : Option Json} (h : checkClaim message expected claim = .ok ()) :
    ∀ s, configured expected = some s → claim = some (.str s) := by
  intro s hs
  rw [checkClaim, hs] at h
  dsimp only at h
  split at h
  · next hc => exact isStr_iff.1 hc
  · cases h

theorem checkClaims_parts (h : auth.checkClaims payload now = .ok ()) :
    (∃ exp, expOf payload = .ok exp ∧ now ≤ exp) ∧
      checkClaim "Invalid issuer" auth.issuer (payload.get? "iss".toList) = .ok () ∧
      checkClaim "Invalid audience" auth.audience (payload.get? "aud".toList) = .ok () := by
  obtain ⟨exp, hexp, h₁⟩ := except_bind_eq_ok.1 h
  by_cases hlt : exp < now
  · simp only [if_pos hlt] at h₁
    cases h₁
  · simp only [if_neg hlt] at h₁
    obtain ⟨⟨⟩, hiss, haud⟩ := except_bind_eq_ok.1 h₁
    exact ⟨⟨exp, hexp, not_lt.1 hlt⟩, hiss, haud⟩

theorem lift_eq_ok {x : Except Exc α} {w : σ} (h : Act.lift x w = (.ok a, w')) :
    x = .ok a ∧ w' = w := by
  cases h
  exact ⟨rfl, rfl⟩

theorem checkRevoked_inv {w w' : σ} (h : auth.checkRevoked runtime payload w = (.ok (), w')) :
    NotRevoked auth (jtiOf runtime payload) w := by
  intro blocklist hb jti hj
  rw [checkRevoked, hb, hj] at h
  obtain ⟨revoked, w₁, hrun, hthen⟩ := Act.bind_eq_ok.1 h
  cases revoked with
  | true => cases hthen
  | false => rw [hrun]

theorem verifyToken_inv {w w' : σ} (h : auth.verifyToken runtime token w = (.ok payload, w')) :
    auth.authentic runtime token = .ok (.object payload) ∧
      auth.checkClaims payload ⌊(runtime.time w).1⌋ = .ok () ∧
      auth.checkRevoked runtime payload (runtime.time w).2 = (.ok (), w') := by
  obtain ⟨doc, w₁, hauth, h₁⟩ := Act.bind_eq_ok.1 h
  obtain ⟨now, w₂, hnow, h₂⟩ := Act.bind_eq_ok.1 h₁
  obtain ⟨o, w₃, hobject, h₃⟩ := Act.bind_eq_ok.1 h₂
  obtain ⟨⟨⟩, w₄, hclaims, h₄⟩ := Act.bind_eq_ok.1 h₃
  obtain ⟨⟨⟩, w₅, hrevoked, h₅⟩ := Act.bind_eq_ok.1 h₄
  cases hnow
  obtain ⟨ha, rfl⟩ := lift_eq_ok hauth
  obtain ⟨ho, rfl⟩ := lift_eq_ok hobject
  obtain ⟨hc, rfl⟩ := lift_eq_ok hclaims
  cases asObject_ok ho
  cases h₅
  exact ⟨ha, hc, hrevoked⟩

/-- The parts of a token do not depend on its signature. -/
theorem Genuine.parts_eq (hg : Genuine runtime auth (h ++ '.' :: b ++ '.' :: s) doc r)
    (hh : '.' ∉ h) (hb : '.' ∉ b) : r.h = h ∧ r.b = b ∧ r.s = s := by
  have hparts := hg.parts
  rw [List.append_assoc, List.cons_append, List.splitOn_append_cons_self_of_not_mem hh,
    List.splitOn_append_cons_self_of_not_mem hb] at hparts
  obtain ⟨rfl, hrest⟩ := List.cons.inj hparts
  obtain ⟨rfl, hs⟩ := List.cons.inj hrest
  refine ⟨rfl, rfl, ?_⟩
  have hjoin : List.intercalate ['.'] (s.splitOn '.') = s := List.intercalate_splitOn '.'
  rw [hs] at hjoin
  simpa [List.intercalate] using hjoin

/-- The two parts that are signed determine the signature. -/
theorem Genuine.signature_unique {r₁ r₂ : Reading} (h₁ : Genuine runtime auth token₁ doc₁ r₁)
    (h₂ : Genuine runtime auth token₂ doc₂ r₂) (hh : r₁.h = r₂.h) (hb : r₁.b = r₂.b) :
    r₁.s = r₂.s := by
  have hheader : r₁.header = r₂.header := by
    have he := h₁.header
    rw [hh, h₂.header] at he
    exact (Document.object.inj (Option.some.inj he)).symm
  have hkid : r₁.kid = r₂.kid := by
    rcases h₁.kid with hk₁ | ⟨hn₁, hk₁⟩
    · rcases h₂.kid with hk₂ | ⟨hn₂, -⟩
      · rw [hheader, hk₂] at hk₁
        exact (Json.str.inj (Option.some.inj hk₁)).symm
      · rw [hheader, hn₂] at hk₁
        cases hk₁
    · rcases h₂.kid with hk₂ | ⟨-, hk₂⟩
      · rw [hheader, hk₂] at hn₁
        cases hn₁
      · rw [hk₁, hk₂]
  have hsecret : r₁.secret = r₂.secret := by
    have hs := h₁.secret
    rw [hkid, h₂.secret] at hs
    exact (Option.some.inj hs).symm
  have hmessage : r₁.message = r₂.message := by
    have hm := h₁.message
    rw [hh, hb, h₂.message] at hm
    exact (Option.some.inj hm).symm
  rw [h₁.signature, h₂.signature, hsecret, hmessage]

/-- A token is accepted only if it has been signed as it stands, with the secret of the key that its
header names, and says that it may be used; no two tokens with the same header and body are accepted;
and where digests do not coincide, someone with that secret has signed that header and body. -/
theorem verify_sound (runtime : JwtRuntime σ) (auth : JWTAuth σ) :
    (∀ token payload w w', auth.verifyToken runtime token w = (.ok payload, w') →
      Current runtime auth payload w ∧ ∃ r, Genuine runtime auth token (.object payload) r ∧
        ((∀ k m k' m', runtime.hmac k m = runtime.hmac k' m' → k = k' ∧ m = m') →
          ∀ signed : Set (Bytes × Bytes), (∃ p ∈ signed, r.s = b64e (runtime.hmac p.1 p.2)) →
            (utf8 r.secret, r.message) ∈ signed)) ∧
    ∀ h b s₁ s₂ payload₁ payload₂ w₁ w₁' w₂ w₂', '.' ∉ h → '.' ∉ b →
      auth.verifyToken runtime (h ++ '.' :: b ++ '.' :: s₁) w₁ = (.ok payload₁, w₁') →
      auth.verifyToken runtime (h ++ '.' :: b ++ '.' :: s₂) w₂ = (.ok payload₂, w₂') → s₁ = s₂ := by
  constructor
  · intro token payload w w' hverify
    obtain ⟨hauth, hclaims, hrevoked⟩ := verifyToken_inv hverify
    obtain ⟨hexp, hiss, haud⟩ := checkClaims_parts hclaims
    obtain ⟨r, hr⟩ := authentic_ok hauth
    refine ⟨⟨hexp, checkClaim_inv hiss, checkClaim_inv haud, checkRevoked_inv hrevoked⟩, r, hr, ?_⟩
    rintro hinj signed ⟨⟨key, message⟩, hp, hs⟩
    rw [hr.signature] at hs
    obtain ⟨hkey, hmessage⟩ := hinj _ _ _ _ (b64e_injective hs)
    rw [hkey, hmessage]
    exact hp
  · intro h b s₁ s₂ payload₁ payload₂ w₁ w₁' w₂ w₂' hh hb hverify₁ hverify₂
    obtain ⟨r₁, hr₁⟩ := authentic_ok (verifyToken_inv hverify₁).1
    obtain ⟨r₂, hr₂⟩ := authentic_ok (verifyToken_inv hverify₂).1
    obtain ⟨hh₁, hb₁, hs₁⟩ := hr₁.parts_eq hh hb
    obtain ⟨hh₂, hb₂, hs₂⟩ := hr₂.parts_eq hh hb
    rw [← hs₁, ← hs₂]
    exact hr₁.signature_unique hr₂ (hh₁.trans hh₂.symm) (hb₁.trans hb₂.symm)

/-- A token that is accepted. -/
theorem verify_sound_sample : ∃ r,
    Genuine sampleRuntime sampleAuth sampleToken (.object sampleSigned) r := by
  have hclaims : sampleAuth.checkClaims sampleSigned ⌊(sampleRuntime.time ()).1⌋ = .ok () := by rfl
  have hverify : sampleAuth.verifyToken sampleRuntime sampleToken () = (.ok sampleSigned, ()) :=
    verifyToken_run (sample_authentic rfl rfl rfl rfl rfl) hclaims rfl
  obtain ⟨-, r, hr, -⟩ := (verify_sound sampleRuntime sampleAuth).1 _ _ _ _ hverify
  exact ⟨r, hr⟩

end JWTAuth

end Sovereign
