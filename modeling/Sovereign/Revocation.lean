import Sovereign.Blocklist
import Sovereign.Lib.Run

namespace Sovereign
set_option autoImplicit true

/-- A call of a method of `JWTAuth` or of its blocklist. -/
inductive JwtOp where
  | create (payload : Dict Str Json) (expSeconds : Int) (kid : Option Str)
  | verify (token : Str)
  | revokeToken (token reason : Str)
  | revoke (jti : Str) (exp : Int) (reason : Str)
  | cleanup

namespace JwtOp

variable (env : JwtEnv) (b : SQLiteJWTBlocklist) (auth : JWTAuth BlocklistWorld)

def run : JwtOp → Act BlocklistWorld Unit
  | create payload expSeconds kid => discard (auth.createToken env.runtime payload expSeconds kid)
  | verify token => discard (auth.verifyToken env.runtime token)
  | revokeToken token reason => auth.revokeToken env.runtime token reason
  | revoke jti exp reason => b.revoke env jti exp reason
  | cleanup => discard (SQLiteJWTBlocklist.cleanupExpired env)

/-- The calls are made one after the other. -/
def step (w : BlocklistWorld) (op : JwtOp) : Option BlocklistWorld := some (op.run env b auth w).2

end JwtOp

/-- The token has this payload, with this identifier and expiry. -/
structure Identified (env : JwtEnv) (auth : JWTAuth BlocklistWorld) (token : Str)
    (payload : Dict Str Json) (jti : Str) (exp : Int) : Prop where
  signed : auth.authentic env.runtime token = .ok (.object payload)
  named : JWTAuth.jtiOf env.runtime payload = some jti
  expires : JWTAuth.expOf payload = .ok exp

/-- The token is out of date, or its identifier is listed with an expiry that fits and is not cached
as anything but revoked. -/
def Revoked (env : JwtEnv) (jti : Str) (exp : Int) (fits : Int → Prop) (w : BlocklistWorld) :
    Prop :=
  exp < ⌊env.clock.read w.calls⌋ ∨
    (∃ row, w.rows.get? jti = some row ∧ fits row.exp) ∧
      ∀ entry, w.cache.get? jti = some entry → entry.1 = true

section

variable {env : JwtEnv} {b : SQLiteJWTBlocklist} {auth : JWTAuth BlocklistWorld} {jti : Str}
  {exp : Int} {fits : Int → Prop} {w w' : BlocklistWorld}

theorem second_mono (env : JwtEnv) (h : m ≤ n) : ⌊env.clock.read m⌋ ≤ ⌊env.clock.read n⌋ :=
  Int.floor_le_floor (env.clock.mono h)

/-- The token stays out of date. -/
theorem Revoked.later (h : Revoked env jti exp fits w) (hle : w.calls ≤ w'.calls)
    (hrows : w'.rows.get? jti = w.rows.get? jti) (hcache : w'.cache.get? jti = w.cache.get? jti) :
    Revoked env jti exp fits w' := by
  rcases h with hout | hin
  · exact .inl (hout.trans_le (second_mono env hle))
  · rw [← hrows, ← hcache] at hin
    exact .inr hin

/-- The computation leaves the token revoked, and ends in values that have a property. -/
abbrev KeepsRevoked (env : JwtEnv) (jti : Str) (exp : Int) (fits : Int → Prop) (P : α → Prop)
    (x : Act BlocklistWorld α) : Prop :=
  ∀ w, Worlds.Keeps (Revoked env jti exp fits) (fun _ a => P a) w x

theorem keeps_lift (x : Except Exc α) :
    KeepsRevoked env jti exp fits (fun a => x = .ok a) (Act.lift x) :=
  fun _ v _ hgood => ⟨le_refl v, hgood, fun _ h => h⟩

theorem keeps_seconds :
    KeepsRevoked env jti exp fits (fun _ => True) (JWTAuth.seconds env.runtime) :=
  fun _ v _ hgood => ⟨Nat.le_succ v.calls, hgood.later (Nat.le_succ _) rfl rfl, fun _ _ => trivial⟩

theorem keeps_monotonic :
    KeepsRevoked env jti exp fits (fun _ => True) (SQLiteJWTBlocklist.monotonic env) :=
  fun _ v _ hgood => ⟨Nat.le_succ v.calls, hgood.later (Nat.le_succ _) rfl rfl, fun _ _ => trivial⟩

theorem keeps_drawJti :
    KeepsRevoked env jti exp fits (fun _ => True) (JWTAuth.drawJti env.runtime) :=
  fun _ v _ hgood => ⟨Nat.le_succ v.calls, hgood.later (Nat.le_succ _) rfl rfl, fun _ _ => trivial⟩

/-- An answer from the table that is not cached as revoked comes when the token is out of date. -/
theorem keeps_isRevoked (hfits : ∀ x, fits x → exp ≤ x) (s : Str) :
    KeepsRevoked env jti exp fits (fun _ => True) (b.isRevoked env s) := by
  intro _ v _ hgood
  by_cases hs : s = []
  · rw [SQLiteJWTBlocklist.isRevoked, if_pos hs]
    exact ⟨le_refl v, hgood, fun _ _ => trivial⟩
  · cases hc : SQLiteJWTBlocklist.cached s (env.monotonic v.calls) v.cache with
    | some revoked =>
      rw [SQLiteJWTBlocklist.isRevoked_cached hs hc]
      exact ⟨Nat.le_succ v.calls, hgood.later (Nat.le_succ _) rfl rfl, fun _ _ => trivial⟩
    | none =>
      rw [SQLiteJWTBlocklist.isRevoked_queried hs hc]
      refine ⟨Nat.le_add_right v.calls 2, ?_, fun _ _ => trivial⟩
      by_cases hj : jti = s
      · subst hj
        rcases hgood with hout | ⟨⟨row, hrow, hfit⟩, -⟩
        · exact .inl (hout.trans_le (second_mono env (Nat.le_add_right _ _)))
        · by_cases hnow : ⌊env.clock.read (v.calls + 1)⌋ ≤ row.exp
          · refine .inr ⟨⟨row, hrow, hfit⟩, fun entry hentry => ?_⟩
            rw [Dict.get?_set, if_pos rfl] at hentry
            cases hentry
            rw [SQLiteJWTBlocklist.listed, hrow]
            exact decide_eq_true hnow
          · have hlate := (hfits _ hfit).trans_lt (not_le.1 hnow)
            exact .inl (hlate.trans_le (second_mono env (Nat.le_succ _)))
      · refine hgood.later (Nat.le_add_right _ _) rfl ?_
        rw [Dict.get?_set, if_neg hj]

theorem keeps_upsert (s : Str) (row : BlockRow) (h : s = jti → fits row.exp) :
    KeepsRevoked env jti exp fits (fun _ => True) (SQLiteJWTBlocklist.upsert s row) := by
  intro _ v _ hgood
  rw [SQLiteJWTBlocklist.upsert]
  split
  · exact ⟨le_refl v, hgood, fun _ _ => trivial⟩
  · next hrows =>
    obtain rfl := SQLiteJWTBlocklist.upserted_ok hrows
    refine ⟨le_refl v, ?_, fun _ _ => trivial⟩
    by_cases hj : jti = s
    · rcases hgood with hout | ⟨-, hcache⟩
      · exact .inl hout
      · refine .inr ⟨⟨row, ?_, h hj.symm⟩, hcache⟩
        rw [Dict.get?_set, if_pos hj]
    · refine hgood.later (le_refl _) ?_ rfl
      rw [Dict.get?_set, if_neg hj]

theorem keeps_remember (s : Str) (until_ : ℚ) :
    KeepsRevoked env jti exp fits (fun _ => True) (SQLiteJWTBlocklist.remember s true until_) := by
  intro _ v _ hgood
  refine ⟨le_refl v, ?_, fun _ _ => trivial⟩
  rcases hgood with hout | ⟨hrow, hcache⟩
  · exact .inl hout
  · refine .inr ⟨hrow, fun entry hentry => ?_⟩
    change (v.cache.set s (true, until_)).get? jti = some entry at hentry
    rw [Dict.get?_set] at hentry
    split at hentry
    · cases hentry
      rfl
    · exact hcache entry hentry

theorem keeps_revoke (s : Str) (e : Int) (reason : Str) (h : s = jti → fits e) :
    KeepsRevoked env jti exp fits (fun _ => True) (b.revoke env s e reason) := by
  intro w
  rw [SQLiteJWTBlocklist.revoke]
  split
  · exact Worlds.Keeps.throw _
  · apply (keeps_seconds w).bind
    intro v now _ _
    apply (keeps_upsert s _ h v).bind
    intro v _ _ _
    apply (keeps_monotonic v).bind
    intro v mono _ _
    exact keeps_remember s _ v

theorem keeps_cleanup (hfits : ∀ x, fits x → exp ≤ x) :
    KeepsRevoked env jti exp fits (fun _ => True) (SQLiteJWTBlocklist.cleanupExpired env) := by
  intro _ v _ hgood
  refine ⟨Nat.le_succ v.calls, ?_, fun _ _ => trivial⟩
  rcases hgood with hout | ⟨⟨row, hrow, hfit⟩, -⟩
  · exact .inl (hout.trans_le (second_mono env (Nat.le_succ _)))
  · by_cases hold : row.exp < ⌊env.clock.read v.calls⌋
    · exact .inl (((hfits _ hfit).trans_lt hold).trans_le (second_mono env (Nat.le_succ _)))
    · refine .inr ⟨⟨row, ?_, hfit⟩, fun entry hentry => by cases hentry⟩
      change (v.rows.filter _).get? jti = some row
      rw [Dict.get?_filter, hrow, Option.filter_some, if_pos]
      rw [Bool.not_eq_true', decide_eq_false_iff_not]
      exact hold

theorem keeps_checkRevoked (hb : auth.blocklist = some (b.blocklist env))
    (hfits : ∀ x, fits x → exp ≤ x) (payload : Dict Str Json) :
    KeepsRevoked env jti exp fits (fun _ => True) (auth.checkRevoked env.runtime payload) := by
  intro w
  rw [JWTAuth.checkRevoked, hb]
  cases JWTAuth.jtiOf env.runtime payload with
  | none => exact Worlds.Keeps.pure fun _ _ => trivial
  | some s =>
    apply (keeps_isRevoked hfits s w).bind
    intro v revoked _ _
    split
    · exact Worlds.Keeps.throw _
    · exact Worlds.Keeps.pure fun _ _ => trivial

theorem keeps_verifyToken (hb : auth.blocklist = some (b.blocklist env))
    (hfits : ∀ x, fits x → exp ≤ x) (token : Str) :
    KeepsRevoked env jti exp fits
      (fun payload => auth.authentic env.runtime token = .ok (.object payload))
      (auth.verifyToken env.runtime token) := by
  intro w
  rw [JWTAuth.verifyToken]
  apply (keeps_lift _ w).bind
  intro v doc _ hdoc
  apply (keeps_seconds v).bind
  intro v now _ _
  apply (keeps_lift _ v).bind
  intro v payload _ hobject
  apply (keeps_lift _ v).bind
  intro v _ _ _
  apply (keeps_checkRevoked hb hfits payload v).bind
  intro v _ _ _
  apply Worlds.Keeps.pure
  intro _ _
  rw [hdoc, JWTAuth.asObject_ok hobject]

theorem keeps_revokeToken (hb : auth.blocklist = some (b.blocklist env))
    (hfits : ∀ x, fits x → exp ≤ x) {token : Str}
    (h : ∀ payload e, Identified env auth token payload jti e → fits e) (reason : Str) :
    KeepsRevoked env jti exp fits (fun _ => True)
      (auth.revokeToken env.runtime token reason) := by
  intro w
  rw [JWTAuth.revokeToken, hb]
  apply (keeps_verifyToken hb hfits token w).bind
  intro v payload _ hsigned
  cases hj : JWTAuth.jtiOf env.runtime payload with
  | none => exact Worlds.Keeps.throw _
  | some s =>
    apply (keeps_lift _ v).bind
    intro v e _ hexp
    apply keeps_revoke s e reason
    rintro rfl
    exact h payload e ⟨hsigned, hj, hexp⟩

theorem keeps_createToken (payload : Dict Str Json) (expSeconds : Int) (kid : Option Str) :
    KeepsRevoked env jti exp fits (fun _ => True)
      (auth.createToken env.runtime payload expSeconds kid) := by
  intro w
  rw [JWTAuth.createToken]
  split
  · exact Worlds.Keeps.throw _
  · apply (keeps_seconds w).bind
    intro v now _ _
    apply (keeps_drawJti v).bind
    intro v s _ _
    apply (keeps_lift _ v).bind
    intro v sig _ _
    exact Worlds.Keeps.pure fun _ _ => trivial

/-- A call lists the identifier, if at all, with an expiry that fits. -/
def JwtOp.Fits (env : JwtEnv) (auth : JWTAuth BlocklistWorld) (jti : Str) (fits : Int → Prop) :
    JwtOp → Prop
  | .revoke s e _ => s = jti → fits e
  | .revokeToken token _ => ∀ payload e, Identified env auth token payload jti e → fits e
  | _ => True

theorem keeps_discard {x : Act BlocklistWorld α} {P : α → Prop}
    (h : KeepsRevoked env jti exp fits P x) :
    KeepsRevoked env jti exp fits (fun _ => True) (discard x) := by
  intro w
  rw [discard, map_const, Function.comp_apply, map_eq_pure_bind]
  apply (h w).bind
  intro v a _ _
  exact Worlds.Keeps.pure fun _ _ => trivial

theorem revoked_step (hb : auth.blocklist = some (b.blocklist env)) (hfits : ∀ x, fits x → exp ≤ x)
    {op : JwtOp} (hop : op.Fits env auth jti fits) (h : Revoked env jti exp fits w) :
    Revoked env jti exp fits (op.run env b auth w).2 := by
  have hkeeps : KeepsRevoked env jti exp fits (fun _ => True) (op.run env b auth) := by
    cases op with
    | create payload expSeconds kid =>
        exact keeps_discard (keeps_createToken payload expSeconds kid)
    | verify token => exact keeps_discard (keeps_verifyToken hb hfits token)
    | revokeToken token reason => exact keeps_revokeToken hb hfits hop reason
    | revoke s e reason => exact keeps_revoke s e reason hop
    | cleanup => exact keeps_discard (keeps_cleanup hfits)
  exact (hkeeps w w (le_refl w) h).2.1

/-- In a call of `verify_token` the token is not yet out of date when the clock is read first, and is
when `is_revoked` reads it, which finds nothing in its cache. -/
def Straddles (env : JwtEnv) (jti : Str) (exp : Int) (w : BlocklistWorld) : Prop :=
  SQLiteJWTBlocklist.cached jti (env.monotonic (w.calls + 1)) w.cache = none ∧
    ⌊env.clock.read w.calls⌋ ≤ exp ∧ exp < ⌊env.clock.read (w.calls + 2)⌋

theorem cached_true (h : ∀ entry, w.cache.get? jti = some entry → entry.1 = true)
    (hc : SQLiteJWTBlocklist.cached jti now w.cache = some revoked) : revoked = true := by
  obtain ⟨entry, hentry, rfl⟩ := Option.map_eq_some_iff.1 hc
  exact h entry (Option.filter_eq_some_iff.1 hentry).1

/-- What `is_revoked` answers for a token that is not out of date. -/
theorem isRevoked_answer (hjti : jti ≠ []) (hfits : ∀ x, fits x → exp ≤ x)
    (h : Revoked env jti exp fits w) (hnow : ⌊env.clock.read w.calls⌋ ≤ exp)
    (hno : ¬ Straddles env jti exp w) :
    (b.isRevoked env jti { w with calls := w.calls + 1 }).1 = .ok true := by
  obtain ⟨⟨row, hrow, hfit⟩, hcache⟩ := h.resolve_left (not_lt.2 hnow)
  cases hc : SQLiteJWTBlocklist.cached jti (env.monotonic (w.calls + 1)) w.cache with
  | some revoked =>
    have hrun := SQLiteJWTBlocklist.isRevoked_cached (b := b) (w := { w with calls := w.calls + 1 })
      hjti hc
    rw [hrun, cached_true hcache hc]
  | none =>
    have hrun := SQLiteJWTBlocklist.isRevoked_queried (b := b)
      (w := { w with calls := w.calls + 1 })
      hjti hc
    have hlate : ⌊env.clock.read (w.calls + 2)⌋ ≤ exp := by
      by_contra hlt
      exact hno ⟨hc, hnow, not_le.1 hlt⟩
    have hlisted : SQLiteJWTBlocklist.listed jti ⌊env.clock.read (w.calls + 2)⌋ w.rows = true := by
      rw [SQLiteJWTBlocklist.listed, hrow]
      exact decide_eq_true (hlate.trans (hfits _ hfit))
    exact (congrArg Prod.fst hrun).trans (congrArg Except.ok hlisted)

theorem isRevoked_straddles (hjti : jti ≠ []) (h : Revoked env jti exp (· = exp) w)
    (hs : Straddles env jti exp w) :
    (b.isRevoked env jti { w with calls := w.calls + 1 }).1 = .ok false := by
  obtain ⟨hc, hnow, hlate⟩ := hs
  obtain ⟨⟨row, hrow, rfl⟩, -⟩ := h.resolve_left (not_lt.2 hnow)
  have hrun := SQLiteJWTBlocklist.isRevoked_queried (b := b) (w := { w with calls := w.calls + 1 })
    hjti hc
  have hlisted : SQLiteJWTBlocklist.listed jti ⌊env.clock.read (w.calls + 2)⌋ w.rows = false := by
    rw [SQLiteJWTBlocklist.listed, hrow]
    exact decide_eq_false (not_le.2 hlate)
  exact (congrArg Prod.fst hrun).trans (congrArg Except.ok hlisted)

/-- The token was meant for here when it was revoked. -/
structure Meant (auth : JWTAuth BlocklistWorld) (payload : Dict Str Json) : Prop where
  issuer : JWTAuth.checkClaim "Invalid issuer" auth.issuer (payload.get? "iss".toList) = .ok ()
  audience : JWTAuth.checkClaim "Invalid audience" auth.audience (payload.get? "aud".toList) =
    .ok ()

theorem checkClaims_meant {payload : Dict Str Json} (hm : Meant auth payload)
    (hexp : JWTAuth.expOf payload = .ok exp) (now : Int) :
    auth.checkClaims payload now =
      if exp < now then .error (.httpError 401 "Token expired") else .ok () := by
  simp only [JWTAuth.checkClaims, hexp, hm.issuer, hm.audience, bind, Except.bind]

/-- What is left of `verify_token` for a token that has been signed. -/
theorem verifyToken_signed {payload : Dict Str Json}
    (hauth : auth.authentic env.runtime token = .ok (.object payload)) :
    auth.verifyToken env.runtime token = (do
      let now ← JWTAuth.seconds env.runtime
      Act.lift (auth.checkClaims payload now)
      auth.checkRevoked env.runtime payload
      return payload) := by
  rw [JWTAuth.verifyToken, hauth]
  rfl

theorem verifyToken_eq {payload : Dict Str Json}
    (hauth : auth.authentic env.runtime token = .ok (.object payload)) :
    auth.verifyToken env.runtime token w =
      (do Act.lift (auth.checkClaims payload ⌊env.clock.read w.calls⌋)
          auth.checkRevoked env.runtime payload
          return payload : Act BlocklistWorld _) { w with calls := w.calls + 1 } := by
  rw [verifyToken_signed hauth]
  rfl

theorem checkRevoked_eq {payload : Dict Str Json} (hb : auth.blocklist = some (b.blocklist env))
    (hj : JWTAuth.jtiOf env.runtime payload = some jti) :
    auth.checkRevoked env.runtime payload = (do
      let revoked ← b.isRevoked env jti
      if revoked then throw (.httpError 401 "Token revoked") else pure ()) := by
  rw [JWTAuth.checkRevoked, hb, hj]
  rfl

/-- What is left of `revoke_token` for a token that has been signed. -/
theorem revokeToken_eq {payload : Dict Str Json} (hb : auth.blocklist = some (b.blocklist env))
    (hid : Identified env auth token payload jti exp) (reason : Str) :
    auth.revokeToken env.runtime token reason = (do
      let now ← JWTAuth.seconds env.runtime
      Act.lift (auth.checkClaims payload now)
      auth.checkRevoked env.runtime payload
      b.revoke env jti exp reason) := by
  rw [JWTAuth.revokeToken, hb]
  dsimp only
  rw [verifyToken_signed hid.signed]
  simp only [bind_assoc, pure_bind, hid.named, hid.expires, Act.lift_ok]
  rfl

/-- A revoked token is refused, unless its expiry passes between the readings of the clock. -/
theorem verify_refused (hb : auth.blocklist = some (b.blocklist env)) {payload : Dict Str Json}
    (hid : Identified env auth token payload jti exp) (hm : Meant auth payload) (hjti : jti ≠ [])
    (hfits : ∀ x, fits x → exp ≤ x) (h : Revoked env jti exp fits w)
    (hno : ¬ Straddles env jti exp w) :
    ∃ message, (auth.verifyToken env.runtime token w).1 = .error (.httpError 401 message) := by
  rw [verifyToken_eq hid.signed, checkClaims_meant hm hid.expires]
  split
  · exact ⟨_, rfl⟩
  · next hnow =>
    have hanswer := isRevoked_answer (b := b) hjti hfits h (not_lt.1 hnow) hno
    rcases hrun : b.isRevoked env jti { w with calls := w.calls + 1 } with ⟨answer, w'⟩
    rw [hrun] at hanswer
    cases hanswer
    have hcheck : auth.checkRevoked env.runtime payload { w with calls := w.calls + 1 } =
        (.error (.httpError 401 "Token revoked"), w') := by
      rw [checkRevoked_eq hb hid.named, Act.bind_ok _ hrun]
      rfl
    exact ⟨"Token revoked", congrArg Prod.fst (Act.bind_error _ hcheck)⟩

theorem verify_accepted (hb : auth.blocklist = some (b.blocklist env)) {payload : Dict Str Json}
    (hid : Identified env auth token payload jti exp) (hm : Meant auth payload) (hjti : jti ≠ [])
    (h : Revoked env jti exp (· = exp) w) (hs : Straddles env jti exp w) :
    (auth.verifyToken env.runtime token w).1 = .ok payload := by
  have hanswer := isRevoked_straddles (b := b) hjti h hs
  rcases hrun : b.isRevoked env jti { w with calls := w.calls + 1 } with ⟨answer, w'⟩
  rw [hrun] at hanswer
  cases hanswer
  have hcheck : auth.checkRevoked env.runtime payload { w with calls := w.calls + 1 } =
      (.ok (), w') := by
    rw [checkRevoked_eq hb hid.named, Act.bind_ok _ hrun]
    rfl
  rw [verifyToken_eq hid.signed, checkClaims_meant hm hid.expires, if_neg (not_lt.2 hs.2.1)]
  exact congrArg Prod.fst (Act.bind_ok _ hcheck)

/-- What `revoke_token` has done when it returns. -/
theorem revokeToken_ok {w w' : BlocklistWorld} (hb : auth.blocklist = some (b.blocklist env))
    (h : auth.revokeToken env.runtime token reason w = (.ok (), w')) :
    ∃ payload jti exp, Identified env auth token payload jti exp ∧ Meant auth payload ∧ jti ≠ [] ∧
      Revoked env jti exp (· = exp) w' := by
  rw [JWTAuth.revokeToken, hb] at h
  obtain ⟨payload, w₁, hverify, h₁⟩ := Act.bind_eq_ok.1 h
  obtain ⟨hauth, hclaims, -⟩ := JWTAuth.verifyToken_inv hverify
  obtain ⟨-, hiss, haud⟩ := JWTAuth.checkClaims_parts hclaims
  cases hj : JWTAuth.jtiOf env.runtime payload with
  | none =>
    rw [hj] at h₁
    cases h₁
  | some jti =>
    rw [hj] at h₁
    obtain ⟨exp, w₂, hexp, h₂⟩ := Act.bind_eq_ok.1 h₁
    obtain ⟨hread, rfl⟩ := JWTAuth.lift_eq_ok hexp
    refine ⟨payload, jti, exp, ⟨hauth, hj, hread⟩, ⟨hiss, haud⟩, ?_⟩
    change b.revoke env jti exp reason _ = _ at h₂
    rw [SQLiteJWTBlocklist.revoke] at h₂
    by_cases hjti : jti = []
    · rw [if_pos hjti] at h₂
      cases h₂
    · rw [if_neg hjti] at h₂
      obtain ⟨now, w₃, hnow, h₃⟩ := Act.bind_eq_ok.1 h₂
      obtain ⟨⟨⟩, w₄, hupsert, h₄⟩ := Act.bind_eq_ok.1 h₃
      obtain ⟨mono, w₅, hmono, h₅⟩ := Act.bind_eq_ok.1 h₄
      refine ⟨hjti, .inr ?_⟩
      rw [SQLiteJWTBlocklist.upsert] at hupsert
      split at hupsert
      · cases hupsert
      · next hrows =>
        obtain rfl := SQLiteJWTBlocklist.upserted_ok hrows
        cases hupsert
        cases hmono
        cases h₅
        refine ⟨⟨_, Dict.get?_set _ _ _ _ |>.trans (if_pos rfl), rfl⟩, fun entry hentry => ?_⟩
        change (Dict.set _ jti _).get? jti = some entry at hentry
        rw [Dict.get?_set, if_pos rfl] at hentry
        cases hentry
        rfl

theorem revoked_run (hb : auth.blocklist = some (b.blocklist env)) (hfits : ∀ x, fits x → exp ≤ x)
    {l : List (BlocklistWorld × JwtOp)} (h : Run (JwtOp.step env b auth) w l w')
    (hr : Revoked env jti exp fits w) (hl : ∀ y ∈ l, y.2.Fits env auth jti fits) :
    Revoked env jti exp fits w' :=
  h.invariant hr fun y hy u hu hstep => by
    cases hstep
    exact revoked_step hb hfits (hl y hy) hu

theorem Identified.unique {payload payload' : Dict Str Json}
    (h : Identified env auth token payload jti exp)
    (h' : Identified env auth token payload' jti' exp') :
    payload' = payload ∧ jti' = jti ∧ exp' = exp := by
  have hp := h'.signed
  rw [h.signed] at hp
  cases hp
  have hj := h'.named
  rw [h.named] at hj
  cases hj
  have he := h'.expires
  rw [h.expires] at he
  cases he
  exact ⟨rfl, rfl, rfl⟩

theorem run_of_fst {x : Act σ α} {v : σ} (h : (x v).1 = r) : x v = (r, (x v).2) := Prod.ext h rfl

theorem exists_ok {x : Except ε α} (h : x.toOption.isSome = true) : ∃ a, x = .ok a := by
  cases x with
  | error e => cases h
  | ok a => exact ⟨a, rfl⟩

/-- A clock that is set forward once. -/
def jump (n : Nat) (x y : ℚ) (k : Nat) : ℚ := if k < n then x else y

theorem jump_mono (n : Nat) (h : x ≤ y) : Monotone (jump n x y) := by
  intro k l hkl
  rw [jump, jump]
  split
  · split
    · exact le_refl x
    · exact h
  · next hk =>
    rw [if_neg (fun hl => hk (hkl.trans_lt hl))]

theorem jump_le (n : Nat) (h : x ≤ y) (k : Nat) : jump n x y k ≤ y := by
  rw [jump]
  split
  · exact h
  · exact le_refl y

/-- The surroundings of one token, which expires at 1060. -/
def sampleEnv (clock : Clock) (monotonic : Nat → ℚ) (monotone : Monotone monotonic) : JwtEnv where
  clock := clock
  monotonic := monotonic
  monotone := monotone
  tokenUrlsafe _ := []
  hmac := JWTAuth.sampleRuntime.hmac
  dumps := JWTAuth.sampleRuntime.dumps
  loads := JWTAuth.sampleRuntime.loads
  repr := JWTAuth.sampleRuntime.repr

def sampleGuard (env : JwtEnv) : JWTAuth BlocklistWorld where
  secrets := JWTAuth.sampleAuth.secrets
  currentKid := JWTAuth.sampleAuth.currentKid
  issuer := none
  audience := none
  blocklist := some ((⟨5⟩ : SQLiteJWTBlocklist).blocklist env)

def emptyBlocklist : BlocklistWorld := ⟨∅, ∅, 0⟩

theorem sample_identified (clock : Clock) (monotonic : Nat → ℚ) (monotone : Monotone monotonic) :
    Identified (sampleEnv clock monotonic monotone)
    (sampleGuard (sampleEnv clock monotonic monotone))
      JWTAuth.sampleToken JWTAuth.sampleSigned (List.replicate 24 'A') 1060 :=
  ⟨JWTAuth.sample_authentic rfl rfl rfl rfl rfl, rfl, rfl⟩

/-- The cache runs out, and ten seconds have passed, after the second revocation. -/
def undoneEnv : JwtEnv :=
  sampleEnv ⟨jump 7 1000 1010, jump_mono 7 (by norm_num), by decide +kernel⟩ (jump 7 0 100)
    (jump_mono 7 (by norm_num))

theorem undone_revoked : ∃ w₁,
    (sampleGuard undoneEnv).revokeToken undoneEnv.runtime JWTAuth.sampleToken [] emptyBlocklist =
      (.ok (), w₁) := by
  refine ⟨_, run_of_fst ?_⟩
  rewrite [undoneEnv, revokeToken_eq rfl (sample_identified _ _ _)]
  decide +kernel

theorem undone_not_straddles (w : BlocklistWorld) : ¬ Straddles undoneEnv jti 1060 w := by
  rintro ⟨-, -, hlate⟩
  have hread : undoneEnv.clock.read (w.calls + 2) ≤ 1010 := jump_le 7 (by norm_num) _
  have hsecond := Int.floor_le_floor hread
  have hfloor : ⌊(1010 : ℚ)⌋ = 1010 := by decide +kernel
  omega

theorem undone_accepted : ∃ payload,
    ((sampleGuard undoneEnv).verifyToken undoneEnv.runtime JWTAuth.sampleToken
      ((JwtOp.revoke (List.replicate 24 'A') 1000 []).run undoneEnv ⟨5⟩ (sampleGuard undoneEnv)
        ((sampleGuard undoneEnv).revokeToken undoneEnv.runtime JWTAuth.sampleToken []
          emptyBlocklist).2).2).1 = .ok payload := by
  apply exists_ok
  rewrite [undoneEnv, verifyToken_eq (sample_identified _ _ _).signed,
    revokeToken_eq rfl (sample_identified _ _ _)]
  decide +kernel

/-- No other token has the identifier, and it is not listed but by a revocation of the token. -/
def JwtOp.Unique (env : JwtEnv) (auth : JWTAuth BlocklistWorld) (token jti : Str) : JwtOp → Prop
  | .revoke s _ _ => s ≠ jti
  | .revokeToken token' _ => ∀ payload e, Identified env auth token' payload jti e → token' = token
  | _ => True

/-- A token with an identifier of its own that has been revoked is refused, just if its expiry does
not pass between the readings of the clock by `verify_token` and by `is_revoked`. -/
theorem revoked_refused_iff (hb : auth.blocklist = some (b.blocklist env)) {w₀ w₁ : BlocklistWorld}
    (hrevoke : auth.revokeToken env.runtime token reason w₀ = (.ok (), w₁)) :
    ∃ payload jti exp, Identified env auth token payload jti exp ∧
      ∀ l w, Run (JwtOp.step env b auth) w₁ l w → (∀ y ∈ l, y.2.Unique env auth token jti) →
        ((∃ message, (auth.verifyToken env.runtime token w).1 = .error (.httpError 401 message)) ↔
          ¬ Straddles env jti exp w) := by
  obtain ⟨payload, jti, exp, hid, hm, hjti, hr⟩ := revokeToken_ok hb hrevoke
  refine ⟨payload, jti, exp, hid, fun l w hrun hunique => ?_⟩
  have hfits : ∀ y ∈ l, y.2.Fits env auth jti (· = exp) := by
    intro y hy
    have hop := hunique y hy
    cases hc : y.2 with
    | revoke s e reason =>
      rw [hc] at hop
      exact fun hs => absurd hs hop
    | revokeToken token' reason =>
      rw [hc] at hop
      intro payload' e hid'
      obtain rfl := hop payload' e hid'
      exact (hid.unique hid').2.2
    | create | verify | cleanup => trivial
  have hlisted := revoked_run hb (fun x hx => le_of_eq hx.symm) hrun hr hfits
  constructor
  · rintro ⟨message, hverify⟩ hs
    rw [verify_accepted hb hid hm hjti hlisted hs] at hverify
    cases hverify
  · exact verify_refused hb hid hm hjti (fun x hx => le_of_eq hx.symm) hlisted

/-- The token is refused while the clock stays before its expiry. -/
theorem revoked_refused_early : ∃ w₁ message,
    (sampleGuard undoneEnv).revokeToken undoneEnv.runtime JWTAuth.sampleToken [] emptyBlocklist =
      (.ok (), w₁) ∧
    ((sampleGuard undoneEnv).verifyToken undoneEnv.runtime JWTAuth.sampleToken w₁).1 =
      .error (.httpError 401 message) := by
  obtain ⟨w₁, hrevoked⟩ := undone_revoked
  obtain ⟨payload, jti, exp, hid, hrefused⟩ := revoked_refused_iff rfl hrevoked
  obtain ⟨rfl, rfl, rfl⟩ := (sample_identified _ _ _).unique hid
  obtain ⟨message, hmessage⟩ := (hrefused [] _ .nil (fun y hy => by cases hy)).2
    (undone_not_straddles _)
  exact ⟨w₁, message, hrevoked, hmessage⟩

/-- The clock goes from the second of the expiry to the next one within the call. -/
def boundaryEnv : JwtEnv :=
  sampleEnv ⟨jump 7 1060 1061, jump_mono 7 (by norm_num), by decide +kernel⟩ (jump 5 0 100)
    (jump_mono 5 (by norm_num))

theorem boundary_revoked : ∃ w₁,
    (sampleGuard boundaryEnv).revokeToken boundaryEnv.runtime JWTAuth.sampleToken []
    emptyBlocklist =
      (.ok (), w₁) := by
  refine ⟨_, run_of_fst ?_⟩
  rewrite [boundaryEnv, revokeToken_eq rfl (sample_identified _ _ _)]
  decide +kernel

/-- The second of its expiry passes within the call, and the token is accepted. -/
theorem revoked_accepted :
    ∃ w₁ payload, (sampleGuard boundaryEnv).revokeToken boundaryEnv.runtime JWTAuth.sampleToken []
        emptyBlocklist = (.ok (), w₁) ∧
      ((sampleGuard boundaryEnv).verifyToken boundaryEnv.runtime JWTAuth.sampleToken w₁).1 =
        .ok payload := by
  have haccept : ∃ payload, ((sampleGuard boundaryEnv).verifyToken boundaryEnv.runtime
      JWTAuth.sampleToken ((sampleGuard boundaryEnv).revokeToken boundaryEnv.runtime
        JWTAuth.sampleToken [] emptyBlocklist).2).1 = .ok payload := by
    apply exists_ok
    rewrite [boundaryEnv, verifyToken_eq (sample_identified _ _ _).signed,
      revokeToken_eq rfl (sample_identified _ _ _)]
    decide +kernel
  obtain ⟨w₁, hrevoked⟩ := boundary_revoked
  obtain ⟨payload, hpayload⟩ := haccept
  rw [hrevoked] at hpayload
  exact ⟨w₁, payload, hrevoked, hpayload⟩

end

end Sovereign
