import Sovereign.Password

namespace Sovereign
set_option autoImplicit true

/-- A character of the alphabet that is safe in a URL. -/
def IsUrlSafe (c : Char) : Prop :=
  ('A' ≤ c ∧ c ≤ 'Z') ∨ ('a' ≤ c ∧ c ≤ 'z') ∨ ('0' ≤ c ∧ c ≤ '9') ∨ c = '-' ∨ c = '_'

instance (c : Char) : Decidable (IsUrlSafe c) := inferInstanceAs (Decidable (_ ∨ _))

theorem isUrlSafe_digit (h : n < 64) : IsUrlSafe (Base64.digit n) := by
  revert n
  decide +kernel

theorem isUrlSafe_b64e (data : Bytes) : ∀ c ∈ b64e data, IsUrlSafe c := by
  intro c hc
  rw [b64e_eq] at hc
  obtain ⟨n, hn, rfl⟩ := Base64.mem_digits hc
  exact isUrlSafe_digit hn

/-- A separator is not safe in a URL. -/
theorem IsUrlSafe.ne (h : IsUrlSafe c) (hd : ¬ IsUrlSafe d) : c ≠ d := by
  rintro rfl
  exact hd h

/-- Three segments with dots between them. -/
theorem splitOn_segments (h b s : Bytes) :
    (b64e h ++ '.' :: b64e b ++ '.' :: b64e s).splitOn '.' = [b64e h, b64e b, b64e s] := by
  rw [List.append_assoc, List.cons_append,
    List.splitOn_append_cons_self_of_not_mem (dot_not_mem_b64e h),
    List.splitOn_append_cons_self_of_not_mem (dot_not_mem_b64e b),
    List.splitOn_eq_singleton (dot_not_mem_b64e s)]

/-- What is joined with the dots of a token. -/
structure Segments (token : Str) (h b s : Bytes) : Prop where
  joined : token = b64e h ++ '.' :: b64e b ++ '.' :: b64e s
  split : token.splitOn '.' = [b64e h, b64e b, b64e s]
  dots : token.count '.' = 2

theorem segments (h b s : Bytes) :
    Segments (b64e h ++ '.' :: b64e b ++ '.' :: b64e s) h b s := by
  refine ⟨rfl, splitOn_segments h b s, ?_⟩
  simp [List.count_append, List.count_eq_zero.2 (dot_not_mem_b64e _)]

theorem JWTAuth.createToken_segments {runtime : JwtRuntime σ} {auth : JWTAuth σ} {w w' : σ}
    (h : auth.createToken runtime payload expSeconds kid w = (.ok token, w')) :
    ∃ header body digest, Segments token header body digest := by
  cases hsecret : auth.secrets.get? ((configured kid).getD auth.currentKid) with
  | none =>
    rw [createToken, hsecret] at h
    cases h
  | some secret =>
    obtain ⟨message, hsig⟩ := signature_b64e runtime secret
      (runtime.dumps (auth.header ((configured kid).getD auth.currentKid)))
      (runtime.dumps (bodyAt runtime auth payload expSeconds w))
    rw [createToken_run hsecret hsig] at h
    cases h
    exact ⟨_, _, _, segments _ _ _⟩

/-- `_b64e` and `_b64d` are inverse to each other, and what is written meets no separator: the
segments of a token and the fields of a hashed password are read as they were joined. -/
theorem base64url_codec :
    (∀ data, b64d (b64e data) = some data) ∧ Function.Injective b64e ∧
      (∀ data, ∀ c ∈ b64e data, IsUrlSafe c ∧ c ≠ '.' ∧ c ≠ '$' ∧ c ≠ '=') ∧
      (∀ (σ : Type) (runtime : JwtRuntime σ) (auth : JWTAuth σ) payload expSeconds kid w token w',
        auth.createToken runtime payload expSeconds kid w = (.ok token, w') →
          ∃ header body digest, Segments token header body digest) ∧
      ∀ derive urandom plain params hashed,
        hashPassword derive urandom plain params = some hashed →
          ∃ text, writeParams params.items = some text ∧ splitHash hashed =
            some ⟨"scrypt".toList, text, b64e (urandom params.saltBytes.toNat),
              b64e (derive plain.encode (urandom params.saltBytes.toNat) params.toScryptCost)⟩ := by
  refine ⟨b64d_b64e, b64e_injective, fun data c hc => ?_, fun σ runtime auth _ _ _ _ _ _ h => ?_,
    fun derive urandom plain params hashed h => ?_⟩
  · have hsafe := isUrlSafe_b64e data c hc
    exact ⟨hsafe, hsafe.ne (by decide), hsafe.ne (by decide), hsafe.ne (by decide)⟩
  · exact JWTAuth.createToken_segments h
  · obtain ⟨text, hhashes⟩ := hashPassword_eq_some h
    exact ⟨text, hhashes.written, hhashes.split⟩

end Sovereign
