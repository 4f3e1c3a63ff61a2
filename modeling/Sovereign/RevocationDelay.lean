import Sovereign.BlocklistSystem

namespace Sovereign
set_option autoImplicit true

open SQLiteJWTBlocklist

namespace BlocklistCall

variable {exp : Str → Int} {ttl mono wall : ℚ} {rows rows' : Dict Str BlockRow}
  {cache cache' : Dict Str (Bool × ℚ)} {c c' : BlocklistCall}

/-- The call has not found the identifier unlisted in a second up to its expiry, but as is allowed of
a query that holds the lock, and of an answer. -/
def Harmless (jti : Str) (e : Int) (pending wrong : ℚ → Prop) : BlocklistCall → Prop
  | queried j nowMono revoked second => j = jti → revoked = false → second ≤ e → pending nowMono
  | answered j nowMono revoked second => j = jti → revoked = false → second ≤ e → wrong nowMono
  | _ => True

/-- The row of the identifier, as long as it counts. -/
def Listed (jti : Str) (e : Int) (rows : Dict Str BlockRow) : Prop :=
  ∃ row, rows.get? jti = some row ∧ row.exp = e

theorem Harmless.next {jti : Str} {e : Int} {pending wrong stale : ℚ → Prop}
    (h : c.Harmless jti e pending wrong) (ht : c.Timely exp mono ⌊wall⌋)
    (hpending : ∀ m, pending m → wrong m) (hhit : ∀ m u, stale u → m < u → wrong m)
    (hlisted : ⌊wall⌋ ≤ e → Listed jti e rows)
    (hcache : ⌊wall⌋ ≤ e → ∀ u, cache.get? jti = some (false, u) → stale u)
    (hnext : c.next ttl mono wall rows cache = some (c', rows', cache')) :
    c'.Harmless jti e pending wrong := by
  cases c with
  | asked j nowMono =>
    rw [BlocklistCall.next] at hnext
    split at hnext
    · next hc =>
      cases hnext
      rintro rfl rfl hnow
      obtain ⟨⟨b, u⟩, hentry, rfl⟩ := Option.map_eq_some_iff.1 hc
      obtain ⟨hget, hfresh⟩ := Option.filter_eq_some_iff.1 hentry
      exact hhit nowMono u (hcache hnow u hget) (of_decide_eq_true hfresh)
    · cases hnext
      trivial
  | querying j nowMono now =>
    cases hnext
    rintro rfl hfalse hnow
    obtain ⟨row, hrow, hexp⟩ := hlisted hnow
    rw [listed, hrow, Option.any_some, decide_eq_false_iff_not, hexp] at hfalse
    exact absurd (ht.2.trans hnow) hfalse
  | queried j nowMono revoked second =>
    cases hnext
    intro hj hb hsecond
    exact hpending nowMono (h hj hb hsecond)
  | stamped jti row =>
    rw [BlocklistCall.next] at hnext
    split at hnext <;> cases hnext <;> trivial
  | missed | revoking | committed | cleaning | expiring | deleted =>
    cases hnext
    trivial
  | answered | returned | cleaned | raised => cases hnext

/-- Nobody deletes the row, or gives it another expiry, before it is out of date. -/
theorem Listed.next {jti : Str} (h : Listed jti (exp jti) rows) (ht : c.Timely exp mono ⌊wall⌋)
    (hnow : ⌊wall⌋ ≤ exp jti) (hnext : c.next ttl mono wall rows cache = some (c', rows', cache')) :
    Listed jti (exp jti) rows' := by
  rcases next_rows hnext with rfl | ⟨j, row, rfl, -, rfl⟩ | ⟨now, rfl, rfl⟩
  · exact h
  · by_cases hj : jti = j
    · subst hj
      exact ⟨row, by rw [Dict.get?_set, if_pos rfl], ht.2⟩
    · rw [Listed, Dict.get?_set, if_neg hj]
      exact h
  · obtain ⟨row, hrow, hexp⟩ := h
    refine ⟨row, ?_, hexp⟩
    rw [unexpired, Dict.get?_filter, hrow, Option.filter_some, if_pos]
    rw [Bool.not_eq_true', decide_eq_false_iff_not, hexp]
    exact not_lt.2 (le_trans ht hnow)

end BlocklistCall

namespace BlocklistSystem

variable {ι κ : Type} [DecidableEq ι] [DecidableEq κ] {ttl : ι → ℚ} {exp : Str → Int}
  {w w' : BlocklistSystem ι κ}

/-- The identifier is listed, and what is not known of that: entries of caches that are stale, queries
that are pending and answers that are wrong, as long as the row counts. -/
structure Told (jti : Str) (e : Int) (stale : ι → ℚ → Prop) (pending wrong : κ → ι → ℚ → Prop)
    (w : BlocklistSystem ι κ) : Prop where
  calls : ∀ k i c, w.calls k = some (i, c) → c.Harmless jti e (pending k i) (wrong k i)
  listed : ⌊w.wall⌋ ≤ e → BlocklistCall.Listed jti e w.rows
  cache : ⌊w.wall⌋ ≤ e → ∀ i u, (w.cache i).get? jti = some (false, u) → stale i u

theorem told_step {jti : Str} {stale : ι → ℚ → Prop} {pending wrong : κ → ι → ℚ → Prop}
    (hjti : jti ≠ []) (hstale : ∀ k i m, pending k i m → stale i (m + ttl i))
    (hpending : ∀ k i m, pending k i m → wrong k i m)
    (hhit : ∀ k i m u, stale i u → m < u → wrong k i m) (hs : w.Sound ttl exp)
    (h : w.Told jti (exp jti) stale pending wrong) (hstep : step ttl exp w a = some w') :
    w'.Told jti (exp jti) stale pending wrong := by
  rcases step_cases hstep with ⟨mono, wall, hmono, hwall, rfl⟩
    | ⟨k, i, c, hbegins, hk, rfl⟩ | ⟨k, hk⟩
  · have hle := Int.floor_le_floor hwall
    exact ⟨h.calls, fun hnow => h.listed (hle.trans hnow), fun hnow => h.cache (hle.trans hnow)⟩
  · refine ⟨fun k' i' c' hc => ?_, h.listed, h.cache⟩
    rcases update_eq_some hc with ⟨rfl, heq⟩ | ⟨-, hc⟩
    · cases heq
      cases hbegins with
      | isRevoked j =>
        rw [asking]
        split
        · next hj =>
          intro hjti'
          exact absurd (hjti'.symm.trans hj) hjti
        · trivial
      | revoke j reason =>
        rw [revoking]
        split <;> trivial
      | cleanupExpired => trivial
    · exact h.calls k' i' c' hc
  · obtain ⟨i, c, c', rows, cache, hcall, hfree, hnext, rfl⟩ := advance_eq_some hk
    have ht := hs.timely k i c hcall
    have hharmless := h.calls k i c hcall
    constructor
    · intro k' i' d hd
      rcases update_eq_some hd with ⟨rfl, heq⟩ | ⟨-, hd⟩
      · cases heq
        exact hharmless.next ht (hpending k' i) (hhit k' i) h.listed (fun hnow => h.cache hnow i) hnext
      · exact h.calls k' i' d hd
    · intro hnow
      exact (h.listed hnow).next ht hnow hnext
    · intro hnow i' u hu
      dsimp only at hu
      rw [Function.update_apply] at hu
      split at hu
      · next hi =>
        subst hi
        rcases BlocklistCall.next_cache hnext with rfl | rfl | ⟨j, m, b, s, rfl, rfl⟩ |
          ⟨j, time, rfl, rfl⟩
        · exact h.cache hnow _ u hu
        · cases hu
        · rw [Dict.get?_set] at hu
          split at hu
          · next hj =>
            cases hu
            exact hstale k _ m (hharmless hj.symm rfl (ht.2.trans hnow))
          · exact h.cache hnow _ u hu
        · rw [Dict.get?_set] at hu
          split at hu
          · cases hu
          · exact h.cache hnow _ u hu
      · exact h.cache hnow i' u hu

omit [DecidableEq ι] [DecidableEq κ] in
theorem Told.weaken {jti : Str} {e : Int} {stale : ι → ℚ → Prop}
    {pending pending' wrong wrong' : κ → ι → ℚ → Prop} (h : w.Told jti e stale pending wrong)
    (hpending : ∀ k i m, (w.calls k).isSome → pending k i m → pending' k i m)
    (hwrong : ∀ k i m, (w.calls k).isSome → wrong k i m → wrong' k i m) :
    w.Told jti e stale pending' wrong' := by
  refine ⟨fun k i c hc => ?_, h.listed, h.cache⟩
  have hsome : (w.calls k).isSome := by
    rw [hc]
    rfl
  have hharmless := h.calls k i c hc
  cases c with
  | queried j m b s => exact fun hj hb hs => hpending k i m hsome (hharmless hj hb hs)
  | answered j m b s => exact fun hj hb hs => hwrong k i m hsome (hharmless hj hb hs)
  | _ => trivial

/-- What is known of an identifier everywhere that was revoked at this time. -/
def Spread (ttl : ι → ℚ) (exp : Str → Int) (jti : Str) (time : ℚ) (old : κ → Prop)
    (w : BlocklistSystem ι κ) : Prop :=
  w.Told jti (exp jti) (fun i until_ => until_ ≤ time + ttl i) (fun k _ m => old k ∧ m ≤ time)
    (fun k i m => m < time + ttl i ∨ old k ∧ m ≤ time)

/-- What is known of an identifier at the blocklist that has revoked it. -/
def KnownAt (exp : Str → Int) (jti : Str) (i : ι) (old : κ → Prop) (w : BlocklistSystem ι κ) :
    Prop :=
  w.Told jti (exp jti) (fun i' _ => i' ≠ i) (fun _ i' _ => i' ≠ i) (fun k i' _ => i' ≠ i ∨ old k)

theorem spread_step {old : κ → Prop} (hjti : jti ≠ []) (hs : w.Sound ttl exp)
    (h : w.Spread ttl exp jti time old) (hstep : step ttl exp w a = some w') :
    w'.Spread ttl exp jti time old := by
  apply told_step hjti ?_ ?_ ?_ hs h hstep
  · intro k i m hm
    exact add_le_add_left hm.2 (ttl i)
  · intro k i m hm
    exact .inr hm
  · intro k i m u hu hm
    exact .inl (hm.trans_le hu)

theorem knownAt_step {old : κ → Prop} (hjti : jti ≠ []) (hs : w.Sound ttl exp)
    (h : w.KnownAt exp jti i old) (hstep : step ttl exp w a = some w') :
    w'.KnownAt exp jti i old := by
  apply told_step hjti ?_ ?_ ?_ hs h hstep
  · intro k i' m hne
    exact hne
  · intro k i' m hne
    exact .inl hne
  · intro k i' m u hne hm
    exact .inl hne

/-- When the row is committed, all that is stale has been read before. -/
theorem spread_commit (hs : w.Sound ttl exp) (hcall : w.calls k = some (i, .stamped jti row))
    (h : w.advance ttl k = some w') (hc : w'.calls k = some (i, .committed jti time)) :
    w'.Spread ttl exp jti time fun _ => True := by
  obtain ⟨i', c, c', rows, cache, hcall', hfree, hnext, rfl⟩ := advance_eq_some h
  rw [hcall] at hcall'
  cases hcall'
  rcases update_eq_some hc with ⟨-, heq⟩ | ⟨hne, -⟩
  · cases heq
    obtain ⟨row', hrow, rfl, rfl, rfl⟩ := BlocklistCall.next_committed hnext
    cases hrow
    constructor
    · intro k' i' d hd
      rcases update_eq_some hd with ⟨rfl, heq⟩ | ⟨hne, hd⟩
      · cases heq
        trivial
      · have ht := hs.timely k' i' d hd
        cases d with
        | queried j m b s => exact fun _ _ _ => ⟨trivial, ht.1⟩
        | answered j m b s => exact fun _ _ _ => .inr ⟨trivial, ht.1⟩
        | _ => trivial
    · intro _
      exact ⟨row, by rw [Dict.get?_set, if_pos rfl], (hs.timely k i _ hcall).2⟩
    · intro _ i' u hu
      rw [Function.update_eq_self] at hu
      exact hs.cache i' jti _ hu
  · exact absurd rfl hne

/-- When `revoke` returns, its own cache has the identifier, and no query of it is pending. -/
theorem knownAt_return (hs : w.Sound ttl exp) (hspread : w.Spread ttl exp jti time fun _ => True)
    (hcall : w.calls k = some (i, .committed jti time)) (h : w.advance ttl k = some w')
    (hc : w'.calls k = some (i, .returned jti time)) : w'.KnownAt exp jti i fun _ => True := by
  obtain ⟨i', c, c', rows, cache, hcall', hfree, hnext, rfl⟩ := advance_eq_some h
  rw [hcall] at hcall'
  cases hcall'
  rcases update_eq_some hc with ⟨-, heq⟩ | ⟨hne, -⟩
  · cases heq
    obtain ⟨-, rfl, rfl⟩ := BlocklistCall.next_returned hnext
    constructor
    · intro k' i' d hd
      rcases update_eq_some hd with ⟨rfl, heq⟩ | ⟨hne, hd'⟩
      · cases heq
        trivial
      · cases d with
        | queried j m b s =>
          rintro - - - rfl
          have howner := hs.owner k' _ _ hd' trivial
          rw [hs.owner k _ _ hcall trivial] at howner
          exact hne (Option.some.inj howner).symm
        | answered j m b s => exact fun _ _ _ => .inr trivial
        | _ => trivial
    · exact hspread.listed
    · intro _ i' u hu
      dsimp only at hu
      rw [Function.update_apply] at hu
      split at hu
      · rw [Dict.get?_set, if_pos rfl] at hu
        cases hu
      · next hne => exact hne
  · exact absurd rfl hne

/-- The row of the identifier was committed at this time. -/
def Commits (w : BlocklistSystem ι κ) (k : κ) (i : ι) (jti : Str) (time : ℚ) : Prop :=
  w.calls k = some (i, .committed jti time) ∨ w.calls k = some (i, .returned jti time)

/-- What has been revoked is known to be. -/
structure Remembers (ttl : ι → ℚ) (exp : Str → Int) (w : BlocklistSystem ι κ) : Prop where
  sound : w.Sound ttl exp
  spread : ∀ k i jti time, w.Commits k i jti time → w.Spread ttl exp jti time fun _ => True
  known : ∀ k i jti time, w.calls k = some (i, .returned jti time) →
    w.KnownAt exp jti i fun _ => True

omit [DecidableEq ι] [DecidableEq κ] in
theorem Sound.named (hs : w.Sound ttl exp) (hc : w.Commits k i jti time) : jti ≠ [] := by
  rcases hc with hc | hc
  · exact hs.timely k i _ hc
  · exact hs.timely k i _ hc

theorem remembers_step (h : w.Remembers ttl exp) (hstep : step ttl exp w a = some w') :
    w'.Remembers ttl exp := by
  have hkeep : ∀ k i jti time, w.Commits k i jti time →
      w'.Spread ttl exp jti time fun _ => True := fun k i jti time hc =>
    spread_step (h.sound.named hc) h.sound (h.spread k i jti time hc) hstep
  constructor
  · exact sound_step h.sound hstep
  · rintro k i jti time (hc | hc)
    · rcases call_step hstep hc with hold | hbegins | ⟨c, rows, cache, hcall, hnext, hadv⟩
      · exact hkeep k i jti time (.inl hold)
      · exact absurd trivial hbegins.not_holds
      · obtain ⟨row, rfl, -⟩ := BlocklistCall.next_committed hnext
        exact spread_commit h.sound hcall hadv hc
    · rcases call_step hstep hc with hold | hbegins | ⟨c, rows, cache, hcall, hnext, hadv⟩
      · exact hkeep k i jti time (.inr hold)
      · exact absurd hbegins Begins.not_returned
      · obtain ⟨rfl, -⟩ := BlocklistCall.next_returned hnext
        exact hkeep k i jti time (.inl hcall)
  · intro k i jti time hc
    rcases call_step hstep hc with hold | hbegins | ⟨c, rows, cache, hcall, hnext, hadv⟩
    · exact knownAt_step (h.sound.named (.inr hold)) h.sound (h.known k i jti time hold) hstep
    · exact absurd hbegins Begins.not_returned
    · obtain ⟨rfl, -⟩ := BlocklistCall.next_returned hnext
      exact knownAt_return h.sound (h.spread k i jti time (.inl hcall)) hcall hadv hc

omit [DecidableEq ι] [DecidableEq κ] in
theorem Fresh.remembers (h : w.Fresh) : w.Remembers ttl exp := by
  refine ⟨h.sound, ?_, ?_⟩
  · rintro k i jti time (hc | hc)
    · rw [h.2.2] at hc
      cases hc
    · rw [h.2.2] at hc
      cases hc
  · intro k i jti time hc
    rw [h.2.2] at hc
    cases hc

theorem remembers_run {l : List (BlocklistSystem ι κ × BlocklistStep ι κ)} (h₀ : w.Fresh)
    (h : Run (step ttl exp) w l w') : w'.Remembers ttl exp :=
  h.invariant h₀.remembers fun _ _ _ hu hstep => remembers_step hu hstep

/-- What holds of the calls that have begun when the row is committed keeps holding of them, and the
others are told. -/
theorem spread_run {l : List (BlocklistSystem ι κ × BlocklistStep ι κ)} (h : w.Remembers ttl exp)
    (hc : w.Commits k i jti time) (hrun : Run (step ttl exp) w l w') :
    w'.Spread ttl exp jti time fun k => (w.calls k).isSome := by
  have hstart : w.Spread ttl exp jti time fun k => (w.calls k).isSome := by
    apply (h.spread k i jti time hc).weaken
    · intro k i m hk hm
      exact ⟨hk, hm.2⟩
    · intro k i m hk hm
      exact hm.imp_right fun hm => ⟨hk, hm.2⟩
  have hboth : w'.Remembers ttl exp ∧ w'.Spread ttl exp jti time fun k => (w.calls k).isSome := by
    apply hrun.invariant (I := fun u => u.Remembers ttl exp ∧
      u.Spread ttl exp jti time fun k => (w.calls k).isSome) ⟨h, hstart⟩
    intro y _ u hu hstep
    exact ⟨remembers_step hu.1 hstep, spread_step (h.sound.named hc) hu.1.sound hu.2 hstep⟩
  exact hboth.2

theorem knownAt_run {l : List (BlocklistSystem ι κ × BlocklistStep ι κ)} (h : w.Remembers ttl exp)
    (hc : w.calls k = some (i, .returned jti time)) (hrun : Run (step ttl exp) w l w') :
    w'.KnownAt exp jti i fun k => (w.calls k).isSome := by
  have hstart : w.KnownAt exp jti i fun k => (w.calls k).isSome := by
    apply (h.known k i jti time hc).weaken
    · intro k i' m hk hm
      exact hm
    · intro k i' m hk hm
      exact .inr hk
  have hboth : w'.Remembers ttl exp ∧ w'.KnownAt exp jti i fun k => (w.calls k).isSome := by
    apply hrun.invariant (I := fun u => u.Remembers ttl exp ∧
      u.KnownAt exp jti i fun k => (w.calls k).isSome) ⟨h, hstart⟩
    intro y _ u hu hstep
    exact ⟨remembers_step hu.1 hstep, knownAt_step (h.sound.named (.inr hc)) hu.1.sound hu.2 hstep⟩
  exact hboth.2

/-- When the row of a revoked identifier has been committed, each call of `is_revoked` that begins once
the cached answers of its blocklist have run out finds it revoked, and at the blocklist that has
revoked it each one that begins when `revoke` has returned, but for those whose expiry passes before
they are answered; and every call can be finished. -/
theorem revoked_after_delay (ttl : ι → ℚ) (exp : Str → Int) {w₀ w₁ w₂ : BlocklistSystem ι κ}
    {l₁ l₂ : List (BlocklistSystem ι κ × BlocklistStep ι κ)} (h₀ : w₀.Fresh)
    (h₁ : Run (step ttl exp) w₀ l₁ w₁) (hcommit : w₁.Commits k i jti time)
    (h₂ : Run (step ttl exp) w₁ l₂ w₂) :
    (∀ k' i' nowMono revoked second,
      w₂.calls k' = some (i', .answered jti nowMono revoked second) → second ≤ exp jti →
        (time + ttl i' ≤ nowMono → 0 < ttl i' ∨ w₁.calls k' = none → revoked = true) ∧
        (w₁.calls k = some (i', .returned jti time) → w₁.calls k' = none → revoked = true)) ∧
    ∀ k' i' c, w₂.calls k' = some (i', c) → ¬ c.Over →
      ∃ k'', (k'' = k' ∨ w₂.owner i' = some k'') ∧
        ∃ w₃, step ttl exp w₂ (.advance k'') = some w₃ := by
  have hr₁ := remembers_run h₀ h₁
  have hr₂ := remembers_run h₀ (h₁.append h₂)
  refine ⟨fun k' i' nowMono revoked second hcall hsecond => ⟨fun hlate hnew => ?_, fun hback hnew => ?_⟩,
    fun k' i' c hcall hc => progress hr₂.sound hcall hc⟩
  · by_contra hb
    have hwrong := (spread_run hr₁ hcommit h₂).calls k' i' _ hcall rfl (Bool.eq_false_of_not_eq_true hb)
      hsecond
    rcases hwrong with hearly | ⟨hold, hle⟩
    · exact absurd hlate (not_le.2 hearly)
    · rcases hnew with hpos | hnone
      · linarith
      · rw [hnone] at hold
        cases hold
  · by_contra hb
    have hwrong := (knownAt_run hr₁ hback h₂).calls k' i' _ hcall rfl (Bool.eq_false_of_not_eq_true hb)
      hsecond
    rcases hwrong with hne | hold
    · exact hne rfl
    · rw [hnew] at hold
      cases hold

/-- Two new blocklists in the second in which a token expires. -/
def sampleSystem : BlocklistSystem Bool Nat where
  rows := ∅
  mono := 0
  wall := 1000
  cache _ := ∅
  owner _ := none
  calls _ := none

def sampleSteps : List (BlocklistStep Bool Nat) :=
  [.revoke 0 false ['j'] [], .advance 0, .advance 0, .advance 0, .tick 5 1000]

/-- What the other blocklist does in the second of the expiry. -/
def laterSteps : List (BlocklistStep Bool Nat) :=
  [.isRevoked 1 true ['j'], .advance 1, .advance 1, .advance 1, .advance 1]

/-- What it does while that second passes. -/
def lateSteps : List (BlocklistStep Bool Nat) :=
  [.isRevoked 1 true ['j'], .advance 1, .tick 5 1001, .advance 1, .advance 1, .advance 1]

def sampleStep : BlocklistSystem Bool Nat → BlocklistStep Bool Nat →
    Option (BlocklistSystem Bool Nat) :=
  step (fun _ => 5) fun _ => 1000

theorem sample_revoked : ∃ w₁, sampleSteps.foldlM sampleStep sampleSystem = some w₁ ∧
    (w₁.calls 0 = some (false, .returned ['j'] 0) ∧ w₁.calls 1 = none ∧ 0 + 5 ≤ w₁.mono ∧
      ⌊w₁.wall⌋ ≤ 1000) ∧
    (∃ w₂, laterSteps.foldlM sampleStep w₁ = some w₂ ∧
      w₂.calls 1 = some (true, .answered ['j'] 5 true 1000)) ∧
    ∃ w₂, lateSteps.foldlM sampleStep w₁ = some w₂ ∧
      w₂.calls 1 = some (true, .answered ['j'] 5 false 1001) := by
  have hrun : (sampleSteps.foldlM sampleStep sampleSystem).any (fun w₁ =>
      decide (w₁.calls 0 = some (false, .returned ['j'] 0) ∧ w₁.calls 1 = none ∧ 0 + 5 ≤ w₁.mono ∧
        ⌊w₁.wall⌋ ≤ 1000) &&
      ((laterSteps.foldlM sampleStep w₁).any (fun w₂ =>
        decide (w₂.calls 1 = some (true, .answered ['j'] 5 true 1000))) &&
      (lateSteps.foldlM sampleStep w₁).any (fun w₂ =>
        decide (w₂.calls 1 = some (true, .answered ['j'] 5 false 1001))))) = true := by
    decide +kernel
  simpa only [Option.any_eq_true, Bool.and_eq_true, decide_eq_true_iff] using hrun

theorem sampleSystem_fresh : sampleSystem.Fresh := ⟨fun _ => rfl, fun _ => rfl, fun _ => rfl⟩

/-- The other blocklist has the answer after five seconds. -/
theorem revoked_after_delay_one : ∃ w₁ w₂ revoked,
    sampleSteps.foldlM sampleStep sampleSystem = some w₁ ∧
      laterSteps.foldlM sampleStep w₁ = some w₂ ∧
      w₂.calls 1 = some (true, .answered ['j'] 5 revoked 1000) ∧ revoked = true := by
  obtain ⟨w₁, h₁, ⟨hrevoked, -, -, -⟩, ⟨w₂, h₂, hanswer⟩, -⟩ := sample_revoked
  have hall := revoked_after_delay (fun _ => 5) (fun _ => 1000) sampleSystem_fresh
    (Run.of_foldlM _ _ _ h₁) (.inr hrevoked) (Run.of_foldlM _ _ _ h₂)
  have hlater := (hall.1 1 true 5 _ 1000 hanswer (le_refl _)).1 (by norm_num) (.inl (by norm_num))
  exact ⟨w₁, w₂, _, h₁, h₂, hanswer, hlater⟩

/-- A call that begins in the second of the expiry, after five seconds, and reads the time in the next
second, does not find the identifier revoked. -/
theorem not_revoked_after_delay : ∃ w₁ w₂,
    sampleSteps.foldlM sampleStep sampleSystem = some w₁ ∧
      w₁.calls 0 = some (false, .returned ['j'] 0) ∧ w₁.calls 1 = none ∧ 0 + 5 ≤ w₁.mono ∧
      ⌊w₁.wall⌋ ≤ 1000 ∧ lateSteps.foldlM sampleStep w₁ = some w₂ ∧
      w₂.calls 1 = some (true, .answered ['j'] 5 false 1001) := by
  obtain ⟨w₁, h₁, ⟨hrevoked, hnone, hmono, hwall⟩, -, w₂, h₂, hanswer⟩ := sample_revoked
  exact ⟨w₁, w₂, h₁, hrevoked, hnone, hmono, hwall, h₂, hanswer⟩

end BlocklistSystem

end Sovereign
