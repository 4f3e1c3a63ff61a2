import Sovereign.BruteForce
import Sovereign.JwtSoundness
import Sovereign.Lib.Worlds

namespace Sovereign
set_option autoImplicit true

/-- A row of the table `jwt_blocklist`, besides its key. -/
structure BlockRow where
  exp : Int
  revokedAt : Int
  reason : Str
deriving DecidableEq

/-- The state of a blocklist: its table, its cache, and how often a clock has been read or a token
drawn. -/
structure BlocklistWorld where
  rows : Dict Str BlockRow
  cache : Dict Str (Bool × ℚ)
  calls : Nat

/-- A state comes before those with later readings of the clocks. -/
instance : Preorder BlocklistWorld where
  le w w' := w.calls ≤ w'.calls
  le_refl w := Nat.le_refl w.calls
  le_trans _ _ _ h h' := Nat.le_trans h h'

/-- The readings of the two clocks and the tokens drawn, by the number of the call, and what else the
tokens are made with. -/
structure JwtEnv where
  clock : Clock
  /-- `time.monotonic()` -/
  monotonic : Nat → ℚ
  monotone : Monotone monotonic
  tokenUrlsafe : Nat → Str
  hmac : Bytes → Bytes → Bytes
  dumps : Dict Str Json → Bytes
  loads : Bytes → Option Document
  repr : Json → Str

def JwtEnv.runtime (env : JwtEnv) : JwtRuntime BlocklistWorld where
  time w := (env.clock.read w.calls, { w with calls := w.calls + 1 })
  tokenUrlsafe w := (env.tokenUrlsafe w.calls, { w with calls := w.calls + 1 })
  hmac := env.hmac
  dumps := env.dumps
  loads := env.loads
  repr := env.repr

structure SQLiteJWTBlocklist where
  cacheTtl : ℚ := 5

namespace SQLiteJWTBlocklist

variable (env : JwtEnv) (b : SQLiteJWTBlocklist)

/-- `time.monotonic()` -/
def monotonic : Act BlocklistWorld ℚ := fun w =>
  (.ok (env.monotonic w.calls), { w with calls := w.calls + 1 })

/-- `INSERT … ON CONFLICT(jti) DO UPDATE`, for an integer of eight bytes. -/
def upserted (jti : Str) (row : BlockRow) (rows : Dict Str BlockRow) :
    Except Exc (Dict Str BlockRow) :=
  if row.exp < -9223372036854775808 ∨ 9223372036854775807 < row.exp then .error
    (.builtin .overflowError)
  else .ok (rows.set jti row)

def upsert (jti : Str) (row : BlockRow) : Act BlocklistWorld Unit := fun w =>
  match upserted jti row w.rows with
  | .error e => (.error e, w)
  | .ok rows => (.ok (), { w with rows })

/-- `self._cache[jti] = (revoked, until)` -/
def remember (jti : Str) (revoked : Bool) (until_ : ℚ) : Act BlocklistWorld Unit := fun w =>
  (.ok (), { w with cache := w.cache.set jti (revoked, until_) })

/-- `SQLiteJWTBlocklist.revoke` -/
def revoke (jti : Str) (exp : Int) (reason : Str) : Act BlocklistWorld Unit := do
  if jti = [] then throw (.builtin .valueError)
  let now ← JWTAuth.seconds env.runtime
  upsert jti { exp, revokedAt := now, reason }
  remember jti true ((← monotonic env) + b.cacheTtl)

/-- `self._cache.get(jti)`, if it has not run out. -/
def cached (jti : Str) (nowMono : ℚ) (cache : Dict Str (Bool × ℚ)) : Option Bool :=
  ((cache.get? jti).filter fun entry => decide (nowMono < entry.2)).map Prod.fst

/-- `SELECT 1 … WHERE jti=? AND exp>=?` -/
def listed (jti : Str) (now : Int) (rows : Dict Str BlockRow) : Bool :=
  (rows.get? jti).any fun row => decide (now ≤ row.exp)

/-- `DELETE … WHERE exp < ?` -/
def unexpired (now : Int) (rows : Dict Str BlockRow) : Dict Str BlockRow :=
  rows.filter fun row => !decide (row.exp < now)

/-- `SQLiteJWTBlocklist.is_revoked` -/
def isRevoked (jti : Str) : Act BlocklistWorld Bool := do
  if jti = [] then return false
  let nowMono ← monotonic env
  match ← (fun w => (.ok (cached jti nowMono w.cache), w) : Act BlocklistWorld (Option Bool)) with
  | some revoked => return revoked
  | none =>
    let now ← JWTAuth.seconds env.runtime
    let revoked ← (fun w => (.ok (listed jti now w.rows), w) : Act BlocklistWorld Bool)
    remember jti revoked (nowMono + b.cacheTtl)
    return revoked

/-- `SQLiteJWTBlocklist.cleanup_expired` -/
def cleanupExpired : Act BlocklistWorld Int := do
  let now ← JWTAuth.seconds env.runtime
  fun w =>
    let rows := unexpired now w.rows
    (.ok (w.rows.entries.length - rows.entries.length), { w with rows, cache := ∅ })

/-- The blocklist as a `JWTAuth` uses it. -/
def blocklist : JwtBlocklist BlocklistWorld where
  revoke := b.revoke env
  isRevoked := b.isRevoked env

variable {env b}

theorem upserted_ok (h : upserted jti row rows = .ok rows') : rows' = rows.set jti row := by
  rw [upserted] at h
  split at h
  · cases h
  · cases h
    rfl

theorem isRevoked_cached {w : BlocklistWorld} (hjti : jti ≠ [])
    (h : cached jti (env.monotonic w.calls) w.cache = some revoked) :
    b.isRevoked env jti w = (.ok revoked, { w with calls := w.calls + 1 }) := by
  rw [isRevoked, if_neg hjti]
  change (match cached jti (env.monotonic w.calls) w.cache with
    | some revoked => (pure revoked : Act BlocklistWorld Bool)
    | none => _) _ = _
  rw [h]
  rfl

/-- Without an entry of the cache the table is asked, and the answer kept. -/
theorem isRevoked_queried {w : BlocklistWorld} (hjti : jti ≠ [])
    (h : cached jti (env.monotonic w.calls) w.cache = none) :
    b.isRevoked env jti w =
      (.ok (listed jti ⌊env.clock.read (w.calls + 1)⌋ w.rows),
        { w with
          cache := w.cache.set jti
            (listed jti ⌊env.clock.read (w.calls + 1)⌋ w.rows, env.monotonic w.calls + b.cacheTtl)
          calls := w.calls + 2 }) := by
  rw [isRevoked, if_neg hjti]
  change (match cached jti (env.monotonic w.calls) w.cache with
    | some revoked => (pure revoked : Act BlocklistWorld Bool)
    | none => _) _ = _
  rw [h]
  rfl

end SQLiteJWTBlocklist

end Sovereign
