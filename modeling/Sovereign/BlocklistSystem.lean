import Sovereign.Blocklist
import Sovereign.Lib.Run

namespace Sovereign
set_option autoImplicit true

open SQLiteJWTBlocklist

/-- Where a call of a method of `SQLiteJWTBlocklist` stands. -/
inductive BlocklistCall where
  /-- `is_revoked` has read the monotonic clock -/
  | asked (jti : Str) (nowMono : ℚ)
  /-- it has not found a fresh entry -/
  | missed (jti : Str) (nowMono : ℚ)
  /-- it has read the time, and waits for the lock -/
  | querying (jti : Str) (nowMono : ℚ) (now : Int)
  /-- its query has been answered in this second, and it holds the lock -/
  | queried (jti : Str) (nowMono : ℚ) (revoked : Bool) (second : Int)
  | answered (jti : Str) (nowMono : ℚ) (revoked : Bool) (second : Int)
  | revoking (jti : Str) (exp : Int) (reason : Str)
  /-- `revoke` waits for the lock -/
  | stamped (jti : Str) (row : BlockRow)
  /-- its row was committed at this time, and it holds the lock -/
  | committed (jti : Str) (time : ℚ)
  /-- `revoke` has returned -/
  | returned (jti : Str) (time : ℚ)
  | cleaning
  /-- `cleanup_expired` waits for the lock -/
  | expiring (now : Int)
  /-- it has deleted so many rows, and holds the lock -/
  | deleted (count : Int)
  | cleaned (count : Int)
  | raised (e : Exc)
deriving DecidableEq

namespace BlocklistCall

/-- The next step is done under the lock, which is not held yet. -/
def Waits : BlocklistCall → Prop
  | querying .. | stamped .. | expiring .. => True
  | _ => False

def Holds : BlocklistCall → Prop
  | queried .. | committed .. | deleted .. => True
  | _ => False

/-- The call has returned. -/
def Over : BlocklistCall → Prop
  | answered .. | returned .. | cleaned .. | raised .. => True
  | _ => False

instance : DecidablePred Waits := fun c => by
  cases c <;> (unfold Waits; infer_instance)

instance : DecidablePred Holds := fun c => by
  cases c <;> (unfold Holds; infer_instance)

/-- The next step of a call: what it looks up outside the lock, or one statement under it. -/
def next (ttl mono wall : ℚ) (rows : Dict Str BlockRow) (cache : Dict Str (Bool × ℚ)) :
    BlocklistCall → Option (BlocklistCall × Dict Str BlockRow × Dict Str (Bool × ℚ))
  | asked jti nowMono =>
    match cached jti nowMono cache with
    | some revoked => some (answered jti nowMono revoked ⌊wall⌋, rows, cache)
    | none => some (missed jti nowMono, rows, cache)
  | missed jti nowMono => some (querying jti nowMono ⌊wall⌋, rows, cache)
  | querying jti nowMono now =>
    some (queried jti nowMono (listed jti now rows) ⌊wall⌋, rows, cache)
  | queried jti nowMono revoked second =>
    some (answered jti nowMono revoked second, rows, cache.set jti (revoked, nowMono + ttl))
  | revoking jti exp reason => some (stamped jti ⟨exp, ⌊wall⌋, reason⟩, rows, cache)
  | stamped jti row =>
    match upserted jti row rows with
    | .error e => some (raised e, rows, cache)
    | .ok rows => some (committed jti mono, rows, cache)
  | committed jti time => some (returned jti time, rows, cache.set jti (true, mono + ttl))
  | cleaning => some (expiring ⌊wall⌋, rows, cache)
  | expiring now =>
    some (deleted (rows.entries.length - (unexpired now rows).entries.length),
      unexpired now rows, cache)
  | deleted count => some (cleaned count, rows, ∅)
  | answered .. | returned .. | cleaned .. | raised .. => none

/-- What a call has read lies in the past, and what it writes is in order. -/
def Timely (exp : Str → Int) (mono : ℚ) (second : Int) : BlocklistCall → Prop
  | asked _ nowMono | missed _ nowMono => nowMono ≤ mono
  | querying _ nowMono now => nowMono ≤ mono ∧ now ≤ second
  | queried _ nowMono _ second' | answered _ nowMono _ second' => nowMono ≤ mono ∧ second' ≤ second
  | revoking jti e _ => jti ≠ [] ∧ e = exp jti
  | stamped jti row => jti ≠ [] ∧ row.exp = exp jti
  | committed jti _ | returned jti _ => jti ≠ []
  | expiring now => now ≤ second
  | cleaning | deleted _ | cleaned _ | raised _ => True

section

variable {exp : Str → Int} {ttl mono wall : ℚ} {rows rows' : Dict Str BlockRow}
  {cache cache' : Dict Str (Bool × ℚ)} {entry : Bool × ℚ} {c c' : BlocklistCall}

theorem Timely.later (h : c.Timely exp mono second) (hmono : mono ≤ mono')
    (hsecond : second ≤ second') : c.Timely exp mono' second' := by
  cases c with
  | asked jti nowMono => exact le_trans h hmono
  | missed jti nowMono => exact le_trans h hmono
  | querying jti nowMono now => exact ⟨h.1.trans hmono, h.2.trans hsecond⟩
  | queried jti nowMono revoked s => exact ⟨h.1.trans hmono, h.2.trans hsecond⟩
  | answered jti nowMono revoked s => exact ⟨h.1.trans hmono, h.2.trans hsecond⟩
  | expiring now => exact le_trans h hsecond
  | revoking | stamped | committed | returned | cleaning | deleted | cleaned | raised => exact h

theorem Timely.next (h : c.Timely exp mono ⌊wall⌋)
    (hnext : c.next ttl mono wall rows cache = some (c', rows', cache')) :
    c'.Timely exp mono ⌊wall⌋ := by
  cases c with
  | asked jti nowMono =>
    rw [BlocklistCall.next] at hnext
    split at hnext
    · cases hnext
      exact ⟨h, le_refl _⟩
    · cases hnext
      exact h
  | missed jti nowMono =>
    cases hnext
    exact ⟨h, le_refl _⟩
  | querying jti nowMono now =>
    cases hnext
    exact ⟨h.1, le_refl _⟩
  | stamped jti row =>
    rw [BlocklistCall.next] at hnext
    split at hnext
    · cases hnext
      trivial
    · cases hnext
      exact h.1
  | cleaning =>
    cases hnext
    exact le_refl _
  | queried | revoking | committed =>
    cases hnext
    exact h
  | expiring | deleted =>
    cases hnext
    trivial
  | answered | returned | cleaned | raised => cases hnext

/-- What a step may do to the cache. -/
theorem next_cache (hnext : c.next ttl mono wall rows cache = some (c', rows', cache')) :
    cache' = cache ∨ cache' = ∅ ∨
      (∃ jti nowMono revoked second, c = queried jti nowMono revoked second ∧
        cache' = cache.set jti (revoked, nowMono + ttl)) ∨
      ∃ jti time, c = committed jti time ∧ cache' = cache.set jti (true, mono + ttl) := by
  cases c with
  | queried jti nowMono revoked second =>
    cases hnext
    exact .inr (.inr (.inl ⟨_, _, _, _, rfl, rfl⟩))
  | committed jti time =>
    cases hnext
    exact .inr (.inr (.inr ⟨_, _, rfl, rfl⟩))
  | deleted count =>
    cases hnext
    exact .inr (.inl rfl)
  | asked jti nowMono =>
    rw [next] at hnext
    split at hnext <;> cases hnext <;> exact .inl rfl
  | stamped jti row =>
    rw [next] at hnext
    split at hnext <;> cases hnext <;> exact .inl rfl
  | missed | querying | revoking | cleaning | expiring =>
    cases hnext
    exact .inl rfl
  | answered | returned | cleaned | raised => cases hnext

/-- What a step may do to the table. -/
theorem next_rows (hnext : c.next ttl mono wall rows cache = some (c', rows', cache')) :
    rows' = rows ∨
      (∃ jti row, c = stamped jti row ∧ c' = committed jti mono ∧ rows' = rows.set jti row) ∨
      ∃ now, c = expiring now ∧ rows' = unexpired now rows := by
  cases c with
  | stamped jti row =>
    rw [next] at hnext
    split at hnext
    · cases hnext
      exact .inl rfl
    · next hrows =>
      cases hnext
      exact .inr (.inl ⟨jti, row, rfl, rfl, upserted_ok hrows⟩)
  | expiring now =>
    cases hnext
    exact .inr (.inr ⟨now, rfl, rfl⟩)
  | asked jti nowMono =>
    rw [next] at hnext
    split at hnext <;> cases hnext <;> exact .inl rfl
  | missed | querying | queried | revoking | committed | cleaning | deleted =>
    cases hnext
    exact .inl rfl
  | answered | returned | cleaned | raised => cases hnext

/-- An entry of the cache is from before, or lasts from a time that has been read. -/
theorem Timely.lasts (h : c.Timely exp mono second)
    (hnext : c.next ttl mono wall rows cache = some (c', rows', cache'))
    (hentry : cache'.get? jti = some entry) :
    cache.get? jti = some entry ∨ entry.2 ≤ mono + ttl := by
  rcases next_cache hnext with rfl | rfl | ⟨j, nowMono, b, s, rfl, rfl⟩ | ⟨j, time, rfl, rfl⟩
  · exact .inl hentry
  · cases hentry
  · rw [Dict.get?_set] at hentry
    split at hentry
    · cases hentry
      exact .inr (add_le_add_left h.1 ttl)
    · exact .inl hentry
  · rw [Dict.get?_set] at hentry
    split at hentry
    · cases hentry
      exact .inr (le_refl _)
    · exact .inl hentry

/-- Only one who waits for the lock may come to hold it. -/
theorem holds_next (hnext : c.next ttl mono wall rows cache = some (c', rows', cache'))
    (h : c'.Holds) : c.Waits := by
  cases c with
  | asked jti nowMono =>
    rw [next] at hnext
    split at hnext <;> cases hnext <;> cases h
  | querying | stamped | expiring => trivial
  | missed | queried | revoking | committed | cleaning | deleted =>
    cases hnext
    cases h
  | answered | returned | cleaned | raised => cases hnext

theorem next_committed
    (hnext : c.next ttl mono wall rows cache = some (committed jti time, rows', cache')) :
    ∃ row, c = stamped jti row ∧ time = mono ∧ rows' = rows.set jti row ∧ cache' = cache := by
  cases c with
  | stamped j row =>
    rw [next] at hnext
    split at hnext
    · cases hnext
    · next hrows =>
      cases hnext
      exact ⟨row, rfl, rfl, upserted_ok hrows, rfl⟩
  | asked j nowMono =>
    rw [next] at hnext
    split at hnext <;> cases hnext
  | _ => cases hnext

theorem next_returned
    (hnext : c.next ttl mono wall rows cache = some (returned jti time, rows', cache')) :
    c = committed jti time ∧ rows' = rows ∧ cache' = cache.set jti (true, mono + ttl) := by
  cases c with
  | committed j t =>
    cases hnext
    exact ⟨rfl, rfl, rfl⟩
  | stamped j row =>
    rw [next] at hnext
    split at hnext <;> cases hnext
  | asked j nowMono =>
    rw [next] at hnext
    split at hnext <;> cases hnext
  | _ => cases hnext

theorem exists_next (ttl mono wall : ℚ) (rows : Dict Str BlockRow) (cache : Dict Str (Bool × ℚ))
    (hc : ¬ c.Over) : ∃ r, c.next ttl mono wall rows cache = some r := by
  cases c with
  | asked jti nowMono =>
    rw [BlocklistCall.next]
    split <;> exact ⟨_, rfl⟩
  | stamped jti row =>
    rw [BlocklistCall.next]
    split <;> exact ⟨_, rfl⟩
  | answered | returned | cleaned | raised => exact absurd trivial hc
  | _ => exact ⟨_, rfl⟩

theorem Holds.not_over (h : c.Holds) : ¬ c.Over := by
  intro hover
  cases c <;> first | exact hover | exact h

theorem Holds.not_waits (h : c.Holds) : ¬ c.Waits := by
  intro hwaits
  cases c <;> first | exact hwaits | exact h

end

end BlocklistCall

/-- Blocklists on one database, each with its cache and its lock, the clocks they share, and the calls
of their methods. -/
structure BlocklistSystem (ι κ : Type) where
  rows : Dict Str BlockRow
  mono : ℚ
  wall : ℚ
  cache : ι → Dict Str (Bool × ℚ)
  owner : ι → Option κ
  calls : κ → Option (ι × BlocklistCall)

/-- The clocks go on, a call begins, or one of them takes its next step. -/
inductive BlocklistStep (ι κ : Type) where
  | tick (mono wall : ℚ)
  | isRevoked (k : κ) (i : ι) (jti : Str)
  | revoke (k : κ) (i : ι) (jti reason : Str)
  | cleanupExpired (k : κ) (i : ι)
  | advance (k : κ)

namespace BlocklistSystem

variable {ι κ : Type} [DecidableEq ι] [DecidableEq κ] (ttl : ι → ℚ) (exp : Str → Int)

def begin_ (w : BlocklistSystem ι κ) (k : κ) (i : ι) (c : BlocklistCall) :
    Option (BlocklistSystem ι κ) :=
  if (w.calls k).isNone then some { w with calls := Function.update w.calls k (some (i, c)) }
  else none

/-- `is_revoked` up to its reading of the monotonic clock. -/
def asking (w : BlocklistSystem ι κ) (jti : Str) : BlocklistCall :=
  if jti = [] then .answered jti w.mono false ⌊w.wall⌋ else .asked jti w.mono

def revoking (jti reason : Str) : BlocklistCall :=
  if jti = [] then .raised (.builtin .valueError) else .revoking jti (exp jti) reason

def advance (w : BlocklistSystem ι κ) (k : κ) : Option (BlocklistSystem ι κ) := do
  let (i, c) ← w.calls k
  if c.Waits ∧ (w.owner i).isSome then none
  let (c', rows, cache) ← c.next (ttl i) w.mono w.wall w.rows (w.cache i)
  return { w with
    rows
    cache := Function.update w.cache i cache
    owner := Function.update w.owner i
      (if c'.Holds then some k else if c.Holds then none else w.owner i)
    calls := Function.update w.calls k (some (i, c')) }

/-- Each identifier is revoked with one expiry only. -/
def step (w : BlocklistSystem ι κ) : BlocklistStep ι κ → Option (BlocklistSystem ι κ)
  | .tick mono wall => if w.mono ≤ mono ∧ w.wall ≤ wall then some { w with mono, wall } else none
  | .isRevoked k i jti => w.begin_ k i (w.asking jti)
  | .revoke k i jti reason => w.begin_ k i (revoking exp jti reason)
  | .cleanupExpired k i => w.begin_ k i .cleaning
  | .advance k => w.advance ttl k

/-- The blocklists are new, whatever the database holds. -/
def Fresh (w : BlocklistSystem ι κ) : Prop :=
  (∀ i, w.cache i = ∅) ∧ (∀ i, w.owner i = none) ∧ ∀ k, w.calls k = none

/-- The calls that begin. -/
inductive Begins (w : BlocklistSystem ι κ) : BlocklistCall → Prop where
  | isRevoked (jti : Str) : Begins w (w.asking jti)
  | revoke (jti reason : Str) : Begins w (revoking exp jti reason)
  | cleanupExpired : Begins w .cleaning

variable {ttl exp} {w w' : BlocklistSystem ι κ}

omit [DecidableEq ι] in
theorem begin_eq_some (h : w.begin_ k i c = some w') :
    w.calls k = none ∧ w' = { w with calls := Function.update w.calls k (some (i, c)) } := by
  rw [begin_] at h
  split at h
  · next hk =>
    cases h
    exact ⟨Option.isNone_iff_eq_none.1 hk, rfl⟩
  · cases h

/-- What a step of a call does. -/
theorem advance_eq_some (h : w.advance ttl k = some w') :
    ∃ i c c' rows cache, w.calls k = some (i, c) ∧ (c.Waits → w.owner i = none) ∧
      c.next (ttl i) w.mono w.wall w.rows (w.cache i) = some (c', rows, cache) ∧
      w' = { w with
        rows
        cache := Function.update w.cache i cache
        owner := Function.update w.owner i
          (if c'.Holds then some k else if c.Holds then none else w.owner i)
        calls := Function.update w.calls k (some (i, c')) } := by
  obtain ⟨⟨i, c⟩, hcall, h⟩ := Option.bind_eq_some_iff.1 h
  dsimp only at h
  split at h
  · cases h
  · next hfree =>
    obtain ⟨⟨c', rows, cache⟩, hnext, h⟩ := Option.bind_eq_some_iff.1 h
    cases h
    refine ⟨i, c, c', rows, cache, hcall, fun hw => ?_, hnext, rfl⟩
    by_contra hne
    exact hfree ⟨hw, Option.isSome_iff_ne_none.2 hne⟩

/-- What a step may be. -/
theorem step_cases (h : step ttl exp w a = some w') :
    (∃ mono wall, w.mono ≤ mono ∧ w.wall ≤ wall ∧ w' = { w with mono, wall }) ∨
    (∃ k i c, Begins exp w c ∧ w.calls k = none ∧
      w' = { w with calls := Function.update w.calls k (some (i, c)) }) ∨
    ∃ k, w.advance ttl k = some w' := by
  cases a with
  | tick mono wall =>
    rw [step] at h
    split at h
    · next hle =>
      cases h
      exact .inl ⟨mono, wall, hle.1, hle.2, rfl⟩
    · cases h
  | isRevoked k i jti =>
    obtain ⟨hk, rfl⟩ := begin_eq_some h
    exact .inr (.inl ⟨k, i, _, .isRevoked jti, hk, rfl⟩)
  | revoke k i jti reason =>
    obtain ⟨hk, rfl⟩ := begin_eq_some h
    exact .inr (.inl ⟨k, i, _, .revoke jti reason, hk, rfl⟩)
  | cleanupExpired k i =>
    obtain ⟨hk, rfl⟩ := begin_eq_some h
    exact .inr (.inl ⟨k, i, _, .cleanupExpired, hk, rfl⟩)
  | advance k => exact .inr (.inr ⟨k, h⟩)

/-- The locks are held by those who are under them, and nothing has been read that is to come. -/
structure Sound (ttl : ι → ℚ) (exp : Str → Int) (w : BlocklistSystem ι κ) : Prop where
  owner : ∀ k i c, w.calls k = some (i, c) → c.Holds → w.owner i = some k
  held : ∀ k i, w.owner i = some k → ∃ c, w.calls k = some (i, c) ∧ c.Holds
  timely : ∀ k i c, w.calls k = some (i, c) → c.Timely exp w.mono ⌊w.wall⌋
  cache : ∀ i jti entry, (w.cache i).get? jti = some entry → entry.2 ≤ w.mono + ttl i

omit [DecidableEq ι] [DecidableEq κ] in
theorem Fresh.sound (h : w.Fresh) : w.Sound ttl exp := by
  obtain ⟨hcache, howner, hcalls⟩ := h
  constructor
  · intro k i c hk
    rw [hcalls] at hk
    cases hk
  · intro k i hk
    rw [howner] at hk
    cases hk
  · intro k i c hk
    rw [hcalls] at hk
    cases hk
  · intro i jti entry he
    rw [hcache] at he
    cases he

theorem update_eq_some {f : κ → Option α} (h : Function.update f k (some a) k' = some b) :
    k' = k ∧ a = b ∨ k' ≠ k ∧ f k' = some b := by
  rw [Function.update_apply] at h
  split at h
  · next hk =>
    cases h
    exact .inl ⟨hk, rfl⟩
  · next hk => exact .inr ⟨hk, h⟩

omit [DecidableEq ι] [DecidableEq κ] in
theorem Begins.not_holds (h : Begins exp w c) : ¬ c.Holds := by
  cases h with
  | isRevoked jti =>
    rw [asking]
    split <;> exact id
  | revoke jti reason =>
    rw [revoking]
    split <;> exact id
  | cleanupExpired => exact id

omit [DecidableEq ι] [DecidableEq κ] in
theorem Begins.not_returned : ¬ Begins exp w (.returned jti time) := by
  intro h
  generalize hc : BlocklistCall.returned jti time = c at h
  cases h with
  | isRevoked j =>
    rw [asking] at hc
    split at hc <;> cases hc
  | revoke j reason =>
    rw [revoking] at hc
    split at hc <;> cases hc
  | cleanupExpired => cases hc

omit [DecidableEq ι] [DecidableEq κ] in
theorem Begins.timely (h : Begins exp w c) : c.Timely exp w.mono ⌊w.wall⌋ := by
  cases h with
  | isRevoked jti =>
    rw [asking]
    split
    · exact ⟨le_refl _, le_refl _⟩
    · exact le_refl _
  | revoke jti reason =>
    rw [revoking]
    split
    · trivial
    · next hjti => exact ⟨hjti, rfl⟩
  | cleanupExpired => trivial

omit [DecidableEq ι] in
theorem sound_begin (h : w.Sound ttl exp) (hbegins : Begins exp w c) (hk : w.calls k = none) :
    Sound ttl exp { w with calls := Function.update w.calls k (some (i, c)) } := by
  constructor
  · intro k' i' c' hc hholds
    rcases update_eq_some hc with ⟨-, heq⟩ | ⟨-, hc⟩
    · cases heq
      exact absurd hholds hbegins.not_holds
    · exact h.owner k' i' c' hc hholds
  · intro k' i' hk'
    obtain ⟨d, hd, hholds⟩ := h.held k' i' hk'
    refine ⟨d, ?_, hholds⟩
    dsimp only
    rw [Function.update_of_ne, hd]
    rintro rfl
    rw [hk] at hd
    cases hd
  · intro k' i' c' hc
    rcases update_eq_some hc with ⟨-, heq⟩ | ⟨-, hc⟩
    · cases heq
      exact hbegins.timely
    · exact h.timely k' i' c' hc
  · exact h.cache

/-- The lock of another instance is left as it is, and another call of this one does not hold it while
the step is done under it. -/
theorem sound_advance (h : w.Sound ttl exp) (hadvance : w.advance ttl k = some w') :
    w'.Sound ttl exp := by
  obtain ⟨i, c, c', rows, cache, hcall, hfree, hnext, rfl⟩ := advance_eq_some hadvance
  constructor
  · intro k' i' d hd hholds
    dsimp only
    rw [Function.update_apply]
    rcases update_eq_some hd with ⟨rfl, heq⟩ | ⟨hne, hd⟩
    · cases heq
      rw [if_pos rfl, if_pos hholds]
    · have howner := h.owner k' i' d hd hholds
      split
      · next hi =>
        subst hi
        rw [if_neg fun hc' => ?_, if_neg fun hc => ?_, howner]
        · rw [h.owner k _ c hcall hc] at howner
          exact hne (Option.some.inj howner).symm
        · rw [hfree (BlocklistCall.holds_next hnext hc')] at howner
          cases howner
      · exact howner
  · intro k' i' hk'
    dsimp only at hk'
    rw [Function.update_apply] at hk'
    have hother : w.owner i' = some k' → k' ≠ k →
        ∃ d, Function.update w.calls k (some (i, c')) k' = some (i', d) ∧ d.Holds := by
      intro howner hne
      obtain ⟨d, hd, hholds⟩ := h.held k' i' howner
      exact ⟨d, by rw [Function.update_of_ne hne, hd], hholds⟩
    split at hk'
    · next hi =>
      subst hi
      split at hk'
      · next hc' =>
        cases hk'
        exact ⟨c', Function.update_self .., hc'⟩
      · split at hk'
        · cases hk'
        · next hc =>
          apply hother hk'
          rintro rfl
          obtain ⟨d, hd, hholds⟩ := h.held k' _ hk'
          rw [hcall] at hd
          cases hd
          exact hc hholds
    · next hi =>
      apply hother hk'
      rintro rfl
      obtain ⟨d, hd, -⟩ := h.held k' i' hk'
      rw [hcall] at hd
      cases hd
      exact hi rfl
  · intro k' i' d hd
    rcases update_eq_some hd with ⟨-, heq⟩ | ⟨-, hd⟩
    · cases heq
      exact (h.timely k i c hcall).next hnext
    · exact h.timely k' i' d hd
  · intro i' jti entry he
    dsimp only at he
    rw [Function.update_apply] at he
    split at he
    · next hi =>
      subst hi
      rcases (h.timely k _ c hcall).lasts hnext he with he | hle
      · exact h.cache _ jti entry he
      · exact hle
    · exact h.cache i' jti entry he

theorem sound_step (h : w.Sound ttl exp) (hstep : step ttl exp w a = some w') :
    w'.Sound ttl exp := by
  rcases step_cases hstep with ⟨mono, wall, hmono, hwall, rfl⟩
    | ⟨k, i, c, hbegins, hk, rfl⟩ | ⟨k, hk⟩
  · constructor
    · exact h.owner
    · exact h.held
    · intro k i c hc
      exact (h.timely k i c hc).later hmono (Int.floor_le_floor hwall)
    · intro i jti entry he
      exact (h.cache i jti entry he).trans (add_le_add_left hmono _)
  · exact sound_begin h hbegins hk
  · exact sound_advance h hk

/-- Where a call stands after a step. -/
theorem call_step (hstep : step ttl exp w a = some w') (hc : w'.calls k = some (i, c')) :
    w.calls k = some (i, c') ∨ Begins exp w c' ∨ ∃ c rows cache, w.calls k = some (i, c) ∧
      c.next (ttl i) w.mono w.wall w.rows (w.cache i) = some (c', rows, cache) ∧
      w.advance ttl k = some w' := by
  rcases step_cases hstep with ⟨mono, wall, -, -, rfl⟩ | ⟨k', i', c, hbegins, -, rfl⟩ | ⟨k', hk'⟩
  · exact .inl hc
  · rcases update_eq_some hc with ⟨-, heq⟩ | ⟨-, hc⟩
    · cases heq
      exact .inr (.inl hbegins)
    · exact .inl hc
  · obtain ⟨i', c, c'', rows, cache, hcall, -, hnext, rfl⟩ := advance_eq_some hk'
    rcases update_eq_some hc with ⟨rfl, heq⟩ | ⟨-, hc⟩
    · cases heq
      exact .inr (.inr ⟨c, rows, cache, hcall, hnext, hk'⟩)
    · exact .inl hc

/-- A call that is free to go on does. -/
theorem exists_advance (ttl : ι → ℚ) (hcall : w.calls k = some (i, c)) (hc : ¬ c.Over)
    (hfree : c.Waits → w.owner i = none) : ∃ w', w.advance ttl k = some w' := by
  obtain ⟨⟨c', rows, cache⟩, hnext⟩ :=
    BlocklistCall.exists_next (ttl i) w.mono w.wall w.rows (w.cache i) hc
  have hgo : ¬ (c.Waits ∧ (w.owner i).isSome) := by
    rintro ⟨hw, hsome⟩
    rw [hfree hw] at hsome
    cases hsome
  rw [advance, hcall, Option.bind_eq_bind, Option.bind_some]
  dsimp only
  rw [if_neg hgo, hnext]
  exact ⟨_, rfl⟩

/-- Nobody waits for ever. -/
theorem progress (hs : w.Sound ttl exp) (hcall : w.calls k = some (i, c)) (hc : ¬ c.Over) :
    ∃ k', (k' = k ∨ w.owner i = some k') ∧ ∃ w', w.advance ttl k' = some w' := by
  by_cases hfree : c.Waits → w.owner i = none
  · exact ⟨k, .inl rfl, exists_advance ttl hcall hc hfree⟩
  · have hne : w.owner i ≠ none := fun hnone => hfree fun _ => hnone
    obtain ⟨k', howner⟩ := Option.ne_none_iff_exists'.1 hne
    obtain ⟨d, hd, hholds⟩ := hs.held k' i howner
    have hgo := exists_advance ttl hd hholds.not_over fun hwaits =>
      absurd hwaits hholds.not_waits
    exact ⟨k', .inr howner, hgo⟩

end BlocklistSystem

end Sovereign
