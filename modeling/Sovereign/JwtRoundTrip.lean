import Sovereign.Jwt

namespace Sovereign
set_option autoImplicit true

/-! What `create_token` writes, as `verify_token` reads it. -/

theorem b64e_eq (data : Bytes) : b64e data = Base64.digits data := Base64.rdropWhile_encode data

theorem b64e_injective : Function.Injective b64e := by
  intro data data' h
  rw [b64e_eq, b64e_eq] at h
  exact Base64.digits_injective h

theorem encodeAscii_of_forall {s : Str} (h : ∀ c ∈ s, c.toNat < 128) :
    encodeAscii s = some (s.map fun c => UInt8.ofNat c.toNat) := by
  rw [encodeAscii, if_pos]
  rw [List.all_eq_true]
  intro c hc
  exact decide_eq_true (h c hc)

theorem ascii_b64e (data : Bytes) : ∀ c ∈ b64e data, c.toNat < 128 := by
  intro c hc
  rw [b64e_eq] at hc
  obtain ⟨n, hn, rfl⟩ := Base64.mem_digits hc
  exact Base64.digit_ascii hn

theorem not_mem_b64e (hc : Base64.value c = none) (data : Bytes) : c ∉ b64e data := by
  intro hmem
  rw [b64e_eq] at hmem
  obtain ⟨n, hn, hd⟩ := Base64.mem_digits hmem
  exact Base64.digit_ne hn hc hd.symm

theorem dot_not_mem_b64e (data : Bytes) : '.' ∉ b64e data := not_mem_b64e rfl data

theorem b64d_b64e (data : Bytes) : b64d (b64e data) = some data := by
  have hascii : ∀ c ∈ Base64.padded (b64e data), c.toNat < 128 := by
    intro c hc
    rcases List.mem_append.1 hc with hc | hc
    · exact ascii_b64e data c hc
    · rw [List.eq_of_mem_replicate hc]
      decide
  rw [b64d, encodeAscii_of_forall hascii]
  change Base64.decode (Base64.padded (b64e data)) = some data
  rw [b64e_eq, Base64.decode_padded_digits]

namespace JWTAuth

variable {runtime : JwtRuntime σ} {auth verifier : JWTAuth σ}

theorem split_parts {h b s : Str} (hh : '.' ∉ h) (hb : '.' ∉ b) (hs : '.' ∉ s)
    (hlen : (h ++ '.' :: b ++ '.' :: s).length ≤ auth.maxTokenLen) :
    auth.split (h ++ '.' :: b ++ '.' :: s) = .ok (h, b, s) := by
  have hcount : (h ++ '.' :: b ++ '.' :: s).count '.' = 2 := by
    simp [List.count_append, List.count_eq_zero.2 hh, List.count_eq_zero.2 hb,
      List.count_eq_zero.2 hs]
  have hsplit : (h ++ '.' :: b ++ '.' :: s).splitOn '.' = [h, b, s] := by
    rw [List.append_assoc, List.cons_append, List.splitOn_append_cons_self_of_not_mem hh,
      List.splitOn_append_cons_self_of_not_mem hb, List.splitOn_eq_singleton hs]
  rw [split, if_neg (not_or.2 ⟨not_lt.2 hlen, not_not.2 hcount⟩), hsplit]

/-- The signature of two parts that are encoded. -/
theorem signature_b64e (runtime : JwtRuntime σ) (secret : Str) (h b : Bytes) :
    ∃ message, signature runtime secret (b64e h) (b64e b) =
      .ok (b64e (runtime.hmac (utf8 secret) message)) := by
  have hascii : ∀ c ∈ b64e h ++ '.' :: b64e b, c.toNat < 128 := by
    intro c hc
    rcases List.mem_append.1 hc with hc | hc
    · exact ascii_b64e h c hc
    · rcases List.mem_cons.1 hc with rfl | hc
      · decide
      · exact ascii_b64e b c hc
  rw [signature, encodeAscii_of_forall hascii]
  exact ⟨_, rfl⟩

theorem checkSignature_self {s : Str} (h : ∀ c ∈ s, c.toNat < 128) :
    checkSignature s s = .ok () := by
  have hdigest : CSRFMiddleware.compareDigest s s = .ok true := by
    rw [CSRFMiddleware.compareDigest, if_pos]
    · rw [decide_eq_true rfl]
    · rw [List.all_eq_true]
      intro c hc
      rcases List.mem_append.1 hc with hc | hc
      · exact decide_eq_true (h c hc)
      · exact decide_eq_true (h c hc)
  rw [checkSignature, hdigest]

/-- `json.loads` gives back what `json.dumps` has written, but for the order of the keys. -/
def Inverse (runtime : JwtRuntime σ) (o : Dict Str Json) : Prop :=
  ∃ o', runtime.loads (runtime.dumps o) = some (.object o') ∧ ∀ k, o'.get? k = o.get? k

theorem readDocument_b64e (message : String) (h : runtime.loads data = some doc) :
    readDocument runtime message (b64e data) = .ok doc := by
  rw [readDocument, b64d_b64e, Option.bind_some, h]

/-- What `create_token` adds to a payload that does not have it. -/
def default (auth : JWTAuth σ) (now : Int) (jti k : Str) : Option Json :=
  if k = "iat".toList then some (.int now)
  else if k = "jti".toList then some (.str jti)
  else if k = "iss".toList then (configured auth.issuer).map .str
  else if k = "aud".toList then (configured auth.audience).map .str
  else none

theorem get?_setConfigured (body : Dict Str Json) (key : Str) (s : Option Str) (k : Str) :
    (setConfigured body key s).get? k =
      (body.get? k).or (if k = key then (configured s).map .str else none) := by
  rw [setConfigured]
  cases configured s with
  | none => simp
  | some s => exact Dict.get?_setDefault _ _ _ _

theorem get?_body (payload : Dict Str Json) (now expSeconds : Int) (jti k : Str) :
    (auth.body payload now expSeconds jti).get? k =
      if k = "exp".toList then some (.int (now + expSeconds))
      else (payload.get? k).or (auth.default now jti k) := by
  simp only [body, get?_setConfigured, Dict.get?_set, Dict.get?_setDefault, default]
  by_cases hexp : k = "exp".toList
  · rw [if_pos hexp, if_pos hexp, Option.some_or, Option.some_or]
  · rw [if_neg hexp, if_neg hexp]
    cases payload.get? k with
    | some v => rfl
    | none =>
      by_cases hiat : k = "iat".toList
      · rw [if_pos hiat, if_pos hiat]
        rfl
      · rw [if_neg hiat, if_neg hiat]
        by_cases hjti : k = "jti".toList
        · rw [if_pos hjti, if_pos hjti]
          rfl
        · rw [if_neg hjti, if_neg hjti]
          by_cases hiss : k = "iss".toList
          · have haud : k ≠ "aud".toList := by
              rw [hiss]
              decide
            rw [if_pos hiss, if_pos hiss, if_neg haud, Option.or_none, Option.none_or,
              Option.none_or, Option.none_or]
          · rw [if_neg hiss, if_neg hiss, Option.none_or, Option.none_or, Option.none_or,
              Option.none_or]

theorem get?_header (kid k : Str) :
    (auth.header kid).get? k =
      if k = "kid".toList then some (.str kid)
      else if k = "typ".toList then some (.str "JWT".toList)
      else if k = "alg".toList then some (.str auth.expectedAlg)
      else none := by
  simp only [header, Dict.get?_set, Dict.get?_empty]

/-- A holder of the secret that expects what the other one writes. -/
structure Matches (auth verifier : JWTAuth σ) (kid secret : Str) : Prop where
  known : verifier.secrets.get? kid = some secret
  nonempty : secret ≠ []
  alg : verifier.expectedAlg = auth.expectedAlg
  issuer : verifier.issuer = auth.issuer
  audience : verifier.audience = auth.audience

/-- The header names the key with which the token has been signed. -/
theorem header_accepted (hm : Matches auth verifier kid secret) {header : Dict Str Json}
    (hheader : ∀ k, header.get? k = (auth.header kid).get? k) :
    verifier.checkAlgorithm header = .ok () ∧ verifier.secretFor header = .ok secret := by
  have halg : header.get? "alg".toList = some (.str verifier.expectedAlg) := by
    rw [hheader, get?_header, hm.alg]
    rfl
  have htyp : header.get? "typ".toList = some (.str "JWT".toList) := by
    rw [hheader, get?_header]
    rfl
  have hkid : header.get? "kid".toList = some (.str kid) := by
    rw [hheader, get?_header]
    rfl
  constructor
  · rw [checkAlgorithm, halg, htyp, if_pos]
    exact ⟨by rw [Json.isStr, decide_eq_true rfl], rfl⟩
  · have hsecret : configured (verifier.secrets.get? kid) = some secret := by
      rw [hm.known, configured, Option.filter_some, if_pos (decide_eq_true hm.nonempty)]
    simp only [secretFor, hkid, lookup, hsecret]

/-- The signature checked is that of the parts as they stand in the token. -/
theorem authentic_token (hm : Matches auth verifier kid secret) {h b : Bytes} {sig : Str}
    (hheader : ∃ header, runtime.loads h = some (.object header) ∧
      ∀ k, header.get? k = (auth.header kid).get? k)
    (hbody : runtime.loads b = some doc)
    (hsig : signature runtime secret (b64e h) (b64e b) = .ok sig)
    (hlen : (b64e h ++ '.' :: b64e b ++ '.' :: sig).length ≤ verifier.maxTokenLen) :
    verifier.authentic runtime (b64e h ++ '.' :: b64e b ++ '.' :: sig) = .ok doc := by
  obtain ⟨header, hloads, hget⟩ := hheader
  obtain ⟨message, hmessage⟩ := signature_b64e runtime secret h b
  obtain ⟨halg, hsecret⟩ := header_accepted hm hget
  rw [hsig] at hmessage
  cases hmessage
  have hsplit := split_parts (dot_not_mem_b64e h) (dot_not_mem_b64e b) (dot_not_mem_b64e _) hlen
  have hcheck := checkSignature_self (ascii_b64e (runtime.hmac (utf8 secret) message))
  simp only [authentic, hsplit, readDocument_b64e _ hloads, readDocument_b64e _ hbody,
    asObject, halg,
    hsecret, hsig, hcheck, bind, Except.bind]

/-- A payload leaves a configured claim out, or has the value that is expected. -/
def NoConflict (expected : Option Str) (claim : Option Json) : Prop :=
  ∀ s, configured expected = some s → claim = none ∨ claim = some (.str s)

theorem checkClaim_ok {expected : Option Str} {claim : Option Json} (h : NoConflict expected claim)
    (message : String) :
    checkClaim message expected (claim.or ((configured expected).map .str)) = .ok () := by
  rw [checkClaim]
  cases he : configured expected with
  | none => rfl
  | some s =>
    have hclaim : claim.or (some (.str s)) = some (.str s) := by
      rcases h s he with rfl | rfl
      · rfl
      · rfl
    rw [Option.map_some, hclaim]
    dsimp only
    rw [Json.isStr, decide_eq_true rfl, if_pos rfl]

theorem checkClaims_ok {payload signed : Dict Str Json} {now expSeconds time : Int} {jti : Str}
    (hissuer : verifier.issuer = auth.issuer) (haudience : verifier.audience = auth.audience)
    (hiss : NoConflict auth.issuer (payload.get? "iss".toList))
    (haud : NoConflict auth.audience (payload.get? "aud".toList))
    (hget : ∀ k, signed.get? k = (auth.body payload now expSeconds jti).get? k)
    (htime : time ≤ now + expSeconds) : verifier.checkClaims signed time = .ok () := by
  have hexp : expOf signed = .ok (now + expSeconds) := by
    rw [expOf, hget, get?_body]
    rfl
  have hi : signed.get? "iss".toList =
      (payload.get? "iss".toList).or ((configured auth.issuer).map .str) := by
    rw [hget, get?_body]
    rfl
  have ha : signed.get? "aud".toList =
      (payload.get? "aud".toList).or ((configured auth.audience).map .str) := by
    rw [hget, get?_body]
    rfl
  simp only [checkClaims, hexp, hi, ha, hissuer, haudience, checkClaim_ok hiss, checkClaim_ok haud,
    bind, Except.bind, if_neg (not_lt.2 htime)]

/-- The body of the token that is created in a state. -/
def bodyAt (runtime : JwtRuntime σ) (auth : JWTAuth σ) (payload : Dict Str Json) (expSeconds : Int)
    (w : σ) : Dict Str Json :=
  auth.body payload ⌊(runtime.time w).1⌋ expSeconds (runtime.tokenUrlsafe (runtime.time w).2).1

theorem createToken_run {kid : Option Str} {w : σ}
    (hsecret : auth.secrets.get? ((configured kid).getD auth.currentKid) = some secret)
    (hsig : signature runtime secret
      (b64e (runtime.dumps (auth.header ((configured kid).getD auth.currentKid))))
      (b64e (runtime.dumps (bodyAt runtime auth payload expSeconds w))) = .ok sig) :
    auth.createToken runtime payload expSeconds kid w =
      (.ok (b64e (runtime.dumps (auth.header ((configured kid).getD auth.currentKid))) ++
        '.' :: b64e (runtime.dumps (bodyAt runtime auth payload expSeconds w)) ++ '.' :: sig),
        (runtime.tokenUrlsafe (runtime.time w).2).2) := by
  have hseconds : seconds runtime w = (.ok ⌊(runtime.time w).1⌋, (runtime.time w).2) := rfl
  have hdraw : drawJti runtime (runtime.time w).2 =
    (.ok (runtime.tokenUrlsafe (runtime.time w).2).1,
    (runtime.tokenUrlsafe (runtime.time w).2).2) := rfl
  rw [bodyAt] at hsig ⊢
  simp only [createToken, hsecret]
  rw [Act.bind_ok _ hseconds, Act.bind_ok _ hdraw, hsig, Act.lift_ok,
    pure_bind, Act.pure_run]

theorem verifyToken_run {payload : Dict Str Json} {w w' : σ}
    (hauth : auth.authentic runtime token = .ok (.object payload))
    (hclaims : auth.checkClaims payload ⌊(runtime.time w).1⌋ = .ok ())
    (hrevoked : auth.checkRevoked runtime payload (runtime.time w).2 = (.ok (), w')) :
    auth.verifyToken runtime token w = (.ok payload, w') := by
  rw [verifyToken, hauth]
  change ((Act.lift (auth.checkClaims payload ⌊(runtime.time w).1⌋) >>= fun _ =>
    auth.checkRevoked runtime payload >>= fun _ => pure payload) : Act _ _) (runtime.time w).2 = _
  rw [hclaims]
  exact Act.bind_ok _ hrevoked

/-- The blocklist, if there is one, does not know the token. -/
def NotRevoked (auth : JWTAuth σ) (jti : Option Str) (w : σ) : Prop :=
  ∀ blocklist, auth.blocklist = some blocklist → ∀ s, jti = some s →
    (blocklist.isRevoked s w).1 = .ok false

theorem checkRevoked_ok {payload : Dict Str Json} {w : σ}
    (h : NotRevoked auth (jtiOf runtime payload) w) :
    ∃ w', auth.checkRevoked runtime payload w = (.ok (), w') := by
  rw [checkRevoked]
  cases hb : auth.blocklist with
  | none => exact ⟨w, rfl⟩
  | some blocklist =>
    cases hj : jtiOf runtime payload with
    | none => exact ⟨w, rfl⟩
    | some jti =>
      refine ⟨(blocklist.isRevoked jti w).2, ?_⟩
      rw [hj] at h
      dsimp only
      rw [Act.bind_ok _ (Prod.ext (h blocklist hb jti rfl) rfl)]
      rfl

/-- A token that has been created is accepted until it expires, by everyone who knows its secret and
expects what it says, and gives back its payload with what has been added to it. -/
theorem verify_create (runtime : JwtRuntime σ) (auth verifier : JWTAuth σ) (payload : Dict Str Json)
    (expSeconds : Int) (kid : Option Str) (secret : Str) {w w' : σ}
    (hsecret : auth.secrets.get? ((configured kid).getD auth.currentKid) = some secret)
    (hm : Matches auth verifier ((configured kid).getD auth.currentKid) secret)
    (hiss : NoConflict auth.issuer (payload.get? "iss".toList))
    (haud : NoConflict auth.audience (payload.get? "aud".toList))
    (hheader : Inverse runtime (auth.header ((configured kid).getD auth.currentKid)))
    (hbody : Inverse runtime (bodyAt runtime auth payload expSeconds w))
    (hcreate : auth.createToken runtime payload expSeconds kid w = (.ok token, w'))
    (hlen : token.length ≤ verifier.maxTokenLen) (v : σ)
    (htime : ⌊(runtime.time v).1⌋ ≤ ⌊(runtime.time w).1⌋ + expSeconds)
    (hrevoked : NotRevoked verifier (jtiOf runtime (bodyAt runtime auth payload expSeconds w))
      (runtime.time v).2) :
    ∃ signed v', verifier.verifyToken runtime token v = (.ok signed, v') ∧
      ∀ k, signed.get? k =
        if k = "exp".toList then some (.int (⌊(runtime.time w).1⌋ + expSeconds))
        else (payload.get? k).or (auth.default ⌊(runtime.time w).1⌋
          (runtime.tokenUrlsafe (runtime.time w).2).1 k) := by
  obtain ⟨signed, hloads, hget⟩ := hbody
  obtain ⟨message, hsig⟩ := signature_b64e runtime secret
    (runtime.dumps (auth.header ((configured kid).getD auth.currentKid)))
    (runtime.dumps (bodyAt runtime auth payload expSeconds w))
  rw [createToken_run hsecret hsig] at hcreate
  cases hcreate
  have hauth := authentic_token hm hheader hloads hsig hlen
  have hclaims := checkClaims_ok hm.issuer hm.audience hiss haud hget htime
  have hjti : jtiOf runtime signed = jtiOf runtime (bodyAt runtime auth payload expSeconds w) := by
    rw [jtiOf, hget, jtiOf]
  obtain ⟨v', hcheck⟩ := checkRevoked_ok (hjti ▸ hrevoked)
  refine ⟨signed, v', verifyToken_run hauth hclaims hcheck, fun k => ?_⟩
  rw [hget, bodyAt, get?_body]

/-- The payload of one token, as it is read. -/
def sampleSigned : Dict Str Json :=
  ((((∅ : Dict Str Json).set "exp".toList (.int 1060)).set "iat".toList (.int 1000)).set
    "jti".toList (.str (List.replicate 24 'A'))).set "sub".toList (.str "u".toList)

/-- The texts of one token, and the digest of its signature under the secret `s3cret`. -/
def sampleRuntime : JwtRuntime Unit where
  time _ := (1000, ())
  tokenUrlsafe _ := (List.replicate 24 'A', ())
  hmac _ _ := [100, 169, 98, 30, 189, 147, 208, 26, 101, 37, 176, 172, 228, 125, 105, 2, 193, 205,
    238, 43, 71, 147, 15, 16, 160, 198, 225, 38, 170, 99, 66, 142]
  dumps o :=
    if o.contains "alg".toList then
      ascii "\x7b\"alg\":\"HS256\",\"kid\":\"k1\",\"typ\":\"JWT\"\x7d"
    else ascii
      "\x7b\"exp\":1060,\"iat\":1000,\"jti\":\"AAAAAAAAAAAAAAAAAAAAAAAA\",\"sub\":\"u\"\x7d"
  loads data :=
    if data = ascii "\x7b\"alg\":\"HS256\",\"kid\":\"k1\",\"typ\":\"JWT\"\x7d" then
      some (.object ((((∅ : Dict Str Json).set "alg".toList (.str "HS256".toList)).set "kid".toList
        (.str "k1".toList)).set "typ".toList (.str "JWT".toList)))
    else if data =
        ascii "\x7b\"exp\":1060,\"iat\":1000,\"jti\":\"AAAAAAAAAAAAAAAAAAAAAAAA\",\"sub\":\"u\"\x7d" then
      some (.object sampleSigned)
    else none
  repr _ := []

def sampleAuth : JWTAuth Unit where
  secrets := (∅ : Dict Str Str).set "k1".toList "s3cret".toList
  currentKid := "k1".toList
  issuer := none
  audience := none
  blocklist := none

def samplePayload : Dict Str Json := (∅ : Dict Str Json).set "sub".toList (.str "u".toList)

/-- The digits of the two texts, and of the digest. -/
def sampleToken : Str :=
  b64e (sampleRuntime.dumps (sampleAuth.header "k1".toList)) ++
    '.' :: b64e (sampleRuntime.dumps samplePayload) ++ '.' :: b64e (sampleRuntime.hmac [] [])

theorem sample_created :
    sampleAuth.createToken sampleRuntime samplePayload 60 none () = (.ok sampleToken, ()) := by
  obtain ⟨message, hsig⟩ := signature_b64e sampleRuntime "s3cret".toList
    (sampleRuntime.dumps (sampleAuth.header "k1".toList))
    (sampleRuntime.dumps (bodyAt sampleRuntime sampleAuth samplePayload 60 ()))
  have hrun : sampleAuth.createToken sampleRuntime samplePayload 60 none () =
      (.ok (_ ++ '.' :: _ ++ '.' :: _), ()) := createToken_run rfl hsig
  rw [hrun]
  rfl

theorem sample_loads :
    (∃ header, sampleRuntime.loads (sampleRuntime.dumps (sampleAuth.header "k1".toList)) =
      some (.object header) ∧ ∀ k, header.get? k = (sampleAuth.header "k1".toList).get? k) ∧
    sampleRuntime.loads (sampleRuntime.dumps samplePayload) = some (.object sampleSigned) := by
  refine ⟨⟨_, rfl, fun k => ?_⟩, rfl⟩
  have halg : sampleAuth.expectedAlg = "HS256".toList := rfl
  rw [get?_header, halg]
  simp only [Dict.get?_set, Dict.get?_empty]
  by_cases hkid : k = "kid".toList
  · rw [hkid]
    rfl
  · rw [if_neg hkid, if_neg hkid]

/-- The token is genuine wherever its secret is known. -/
theorem sample_authentic {runtime : JwtRuntime σ} {auth : JWTAuth σ}
    (hhmac : runtime.hmac = sampleRuntime.hmac) (hloads : runtime.loads = sampleRuntime.loads)
    (hknown : auth.secrets.get? "k1".toList = some "s3cret".toList)
    (halg : auth.expectedAlg = sampleAuth.expectedAlg) (hlen : auth.maxTokenLen = 8192) :
    auth.authentic runtime sampleToken = .ok (.object sampleSigned) := by
  obtain ⟨message, hsig⟩ := signature_b64e runtime "s3cret".toList
    (sampleRuntime.dumps (sampleAuth.header "k1".toList)) (sampleRuntime.dumps samplePayload)
  have hdigest : runtime.hmac (utf8 "s3cret".toList) message = sampleRuntime.hmac [] [] := by
    rw [hhmac]
    rfl
  have hheader : auth.header "k1".toList = sampleAuth.header "k1".toList := by
    rw [header, halg]
    rfl
  rw [hdigest] at hsig
  have hm : Matches auth auth "k1".toList "s3cret".toList := ⟨hknown, by decide, rfl, rfl, rfl⟩
  have hshort : (sampleToken.length : Int) ≤ auth.maxTokenLen := by
    rw [hlen]
    decide +kernel
  refine authentic_token hm ?_ ?_ hsig hshort
  · rw [hloads, hheader]
    exact sample_loads.1
  · rw [hloads]
    exact sample_loads.2

theorem sample_body : Inverse sampleRuntime
    (bodyAt sampleRuntime sampleAuth samplePayload 60 ()) := by
  refine ⟨_, sample_loads.2, fun k => ?_⟩
  have hnow : ⌊(sampleRuntime.time ()).1⌋ = 1000 := by decide +kernel
  rw [bodyAt, get?_body, hnow, sampleSigned, samplePayload, default]
  simp only [Dict.get?_set, Dict.get?_empty]
  by_cases hsub : k = "sub".toList
  · rw [hsub]
    rfl
  · by_cases hjti : k = "jti".toList
    · rw [hjti]
      rfl
    · by_cases hiat : k = "iat".toList
      · rw [hiat]
        rfl
      · by_cases hexp : k = "exp".toList
        · rw [hexp]
          rfl
        · simp only [if_neg hsub, if_neg hjti, if_neg hiat, if_neg hexp]
          split
          · rfl
          · split
            · rfl
            · rfl

/-- The token is accepted in the second of its `exp`. -/
theorem verify_create_sample : ∃ signed v',
    sampleAuth.verifyToken sampleRuntime sampleToken () = (.ok signed, v') ∧
      signed.get? "sub".toList = some (.str "u".toList) := by
  obtain ⟨signed, v', hverify, hget⟩ := verify_create sampleRuntime sampleAuth sampleAuth
    samplePayload 60 none "s3cret".toList rfl ⟨rfl, by decide, rfl, rfl, rfl⟩
    (fun s hs => by cases hs) (fun s hs => by cases hs) sample_loads.1 sample_body sample_created
    (by decide +kernel) () (by decide +kernel) (fun blocklist hb => by cases hb)
  exact ⟨signed, v', hverify, by rw [hget]; rfl⟩

end JWTAuth

end Sovereign
