import Sovereign.RateLimit
import Sovereign.Basic

namespace Sovereign
open TokenBucket
set_option autoImplicit true

/-- `max(1, int(retry + 0.999))` -/
def retrySeconds (retry : ℚ) : Int :=
  max 1 ((retry + 999 / 1000).num.tdiv (retry + 999 / 1000).den)

/-- The refusal that `TokenBucketLimiter.__call__` raises. -/
def refusal (consumed : Consumed) : Option HTTPError :=
  if consumed.allowed then none
  else some (.make 429 "Too Many Requests".toList
    ((∅ : Headers).set "Retry-After".toList (decimal (retrySeconds consumed.retry))))

namespace RationalLimiter

variable (l : RationalLimiter) {κ : Type} [DecidableEq κ]

/-- The tokens that a request finds. -/
def tokensAt (entry : Option (ℚ × ℚ)) (now : ℚ) : ℚ :=
  let (tokens, updated) := entry.getD (l.capacity, now)
  min l.capacity (tokens + (now - updated) * l.refillRate)

/-- How long it takes until there is a token. -/
def wait (entry : Option (ℚ × ℚ)) (now : ℚ) : ℚ := (1 - l.tokensAt entry now) / l.refillRate

/-- A request is admitted so many seconds after the time, unless an earlier one with its key is. -/
def Honest (table : Dict κ (ℚ × ℚ)) (key : κ) (time : ℚ) (seconds : Int) : Prop :=
  ∀ between : List (κ × ℚ), (∀ call ∈ between, time ≤ call.2 ∧ call.2 ≤ time + seconds) →
    (∀ e ∈ callsFor key (serve l.consumeMemory table between).1, e.result.allowed = false) →
    (l.consumeMemory (serve l.consumeMemory table between).2 key (time + seconds)).1.allowed = true

theorem tokensAt_eq (entry : Option (ℚ × ℚ)) (now : ℚ) :
    l.tokensAt entry now = level l.params (entry.map bucketOf) now := by
  cases entry with
  | none => simp [tokensAt, level, params]
  | some row => rfl

theorem allowed_iff (entry : Option (ℚ × ℚ)) (now : ℚ) :
    (l.consumeFrom entry now).allowed = true ↔ 1 ≤ l.tokensAt entry now := by
  rw [consumeFrom_level, ← tokensAt_eq]
  dsimp only
  split
  · next h => exact iff_of_true rfl h
  · next h => exact iff_of_false Bool.false_ne_true h

theorem retry_eq {entry : Option (ℚ × ℚ)} {now : ℚ}
    (h : (l.consumeFrom entry now).allowed = false) :
    (l.consumeFrom entry now).retry = l.wait entry now := by
  have hno : ¬ 1 ≤ l.tokensAt entry now := by
    rw [← allowed_iff, h]
    exact Bool.false_ne_true
  rw [consumeFrom_level, ← tokensAt_eq]
  dsimp only
  rw [if_neg hno, wait]

/-- A request that is denied changes nothing for the later ones with its key. -/
theorem tokensAt_denied (hcap : 1 ≤ l.requests) {entry : Option (ℚ × ℚ)} {now : ℚ}
    (h : (l.consumeFrom entry now).allowed = false) (time : ℚ) :
    l.tokensAt (some ((l.consumeFrom entry now).tokens, now)) time = l.tokensAt entry time := by
  have hdraw := l.consumeFrom_draw entry now ()
  have hallowed : (draw l.params (entry.map bucketOf) now).allowed = false := by
    rw [← hdraw]
    exact h
  rw [tokensAt_eq, tokensAt_eq, ← level_denied hcap hallowed time, ← hdraw]
  rfl

/-- So do requests that are all denied. -/
theorem tokensAt_between (hcap : 1 ≤ l.requests) {table : Dict κ (ℚ × ℚ)} {key : κ}
    {between : List (κ × ℚ)}
    (h : ∀ e ∈ callsFor key (serve l.consumeMemory table between).1, e.result.allowed = false)
    (time : ℚ) :
    l.tokensAt ((serve l.consumeMemory table between).2.get? key) time =
      l.tokensAt (table.get? key) time := by
  induction between generalizing table with
  | nil => rfl
  | cons call between ih =>
    obtain ⟨key', now⟩ := call
    rw [serve_cons] at h ⊢
    by_cases hkey : key' = key
    · subst hkey
      rw [callsFor_cons_self ⟨key', now, _⟩] at h
      have hfirst := h _ List.mem_cons_self
      rw [ih fun e he => h e (List.mem_cons_of_mem _ he), consumeMemory, Dict.get?_set, if_pos rfl]
      exact l.tokensAt_denied hcap hfirst time
    · rw [callsFor_cons_of_ne hkey] at h
      rw [ih h, consumeMemory, Dict.get?_set, if_neg (Ne.symm hkey)]

/-- The tokens of a bucket that is not full grow with the time. -/
theorem one_le_tokensAt_iff {entry : Option (ℚ × ℚ)} {now : ℚ}
    (hdenied : ¬ 1 ≤ l.tokensAt entry now) (hcap : 1 ≤ l.requests) (seconds : ℚ) :
    1 ≤ l.tokensAt entry (now + seconds) ↔ l.wait entry now ≤ seconds := by
  cases entry with
  | none =>
    exfalso
    apply hdenied
    simpa [tokensAt, capacity] using hcap
  | some row =>
    obtain ⟨tokens, updated⟩ := row
    have hnow : l.tokensAt (some (tokens, updated)) now = tokens + (now - updated) *
      l.refillRate := by
      apply min_eq_right
      by_contra hfull
      apply hdenied
      rw [tokensAt]
      exact le_min hcap (hcap.trans (not_le.1 hfull).le)
    have hlater : l.tokensAt (some (tokens, updated)) (now + seconds) =
        min l.requests (tokens + (now - updated) * l.refillRate + seconds * l.refillRate) := by
      rw [tokensAt]
      dsimp only [Option.getD_some]
      rw [capacity]
      congr 1
      ring
    rw [hlater, le_min_iff, and_iff_right hcap, wait, hnow, div_le_iff₀ l.refillRate_pos]
    constructor
    · intro h
      linarith
    · intro h
      linarith

theorem retrySeconds_eq {wait : ℚ} (h : 0 ≤ wait) :
    retrySeconds wait = max 1 ⌊wait + 999 / 1000⌋ := by
  have hpos : 0 ≤ wait + 999 / 1000 := by positivity
  rw [retrySeconds, Int.tdiv_eq_ediv_of_nonneg (Rat.num_nonneg.2 hpos), Rat.floor_def']

/-- Adding 0.999 before the fraction is dropped does for every wait whose fraction is 0 or at least
0.001. -/
theorem le_retrySeconds_iff {wait : ℚ} (h : 0 ≤ wait) :
    wait ≤ retrySeconds wait ↔ wait ≤ 1 ∨ Int.fract wait = 0 ∨ 1 / 1000 ≤ Int.fract wait := by
  have hsplit : wait = ⌊wait⌋ + Int.fract wait := (Int.floor_add_fract wait).symm
  have hf0 : 0 ≤ Int.fract wait := Int.fract_nonneg wait
  have hf1 : Int.fract wait < 1 := Int.fract_lt_one wait
  have hfloor : ⌊wait + 999 / 1000⌋ = ⌊wait⌋ + ⌊Int.fract wait + 999 / 1000⌋ := by
    rw [← Int.floor_intCast_add, ← add_assoc, ← hsplit]
  rw [retrySeconds_eq h, Int.cast_max, le_max_iff, Int.cast_one, hfloor, Int.cast_add]
  apply or_congr_right
  by_cases hlarge : 1 / 1000 ≤ Int.fract wait
  · have hone : ⌊Int.fract wait + 999 / 1000⌋ = 1 := by
      rw [Int.floor_eq_iff, Int.cast_one]
      constructor
      · linarith
      · linarith
    rw [hone, Int.cast_one]
    exact iff_of_true (by linarith) (.inr hlarge)
  · have hzero : ⌊Int.fract wait + 999 / 1000⌋ = 0 := by
      rw [Int.floor_eq_iff, Int.cast_zero]
      constructor
      · linarith
      · linarith
    rw [hzero, Int.cast_zero, add_zero, or_iff_left hlarge]
    constructor
    · intro hle
      linarith
    · intro hf
      linarith

/-- A request is admitted after so many seconds just if there is a token by then. -/
theorem honest_iff {table : Dict κ (ℚ × ℚ)} {key : κ} {time : ℚ} {seconds : Int}
    (h : (l.consumeMemory table key time).1.allowed = false) :
    l.Honest (l.consumeMemory table key time).2 key time seconds ↔
      1 ≤ l.requests ∧ l.wait (table.get? key) time ≤ seconds := by
  have hentry : (l.consumeMemory table key time).2.get? key =
      some ((l.consumeFrom (table.get? key) time).tokens, time) := by
    rw [consumeMemory, Dict.get?_set_self]
  have hdenied : ¬ 1 ≤ l.tokensAt (table.get? key) time := by
    rw [← allowed_iff]
    exact Bool.not_eq_true _ ▸ h
  have hlater : 1 ≤ l.requests → ∀ entry, l.tokensAt entry (time + seconds) =
      l.tokensAt (table.get? key) (time + seconds) →
      ((l.consumeFrom entry (time + seconds)).allowed = true ↔
        l.wait (table.get? key) time ≤ seconds) := by
    intro hcap entry hsame
    rw [allowed_iff, hsame]
    exact l.one_le_tokensAt_iff hdenied hcap seconds
  constructor
  · intro hhonest
    have hnow : (l.consumeFrom ((l.consumeMemory table key time).2.get? key)
        (time + seconds)).allowed = true :=
      hhonest [] (fun _ hcall => absurd hcall List.not_mem_nil)
        fun _ hcall => absurd hcall List.not_mem_nil
    have hcap : 1 ≤ l.requests := by
      rw [allowed_iff] at hnow
      exact hnow.trans (min_le_left _ _)
    refine ⟨hcap, ?_⟩
    rw [hentry] at hnow
    exact (hlater hcap _ (l.tokensAt_denied hcap h _)).1 hnow
  · rintro ⟨hcap, hwait⟩ between - hnone
    apply (hlater hcap _ _).2 hwait
    rw [l.tokensAt_between hcap hnone, hentry]
    exact l.tokensAt_denied hcap h _

/-- `Retry-After` keeps its word just if the limit is no less than one request and adding 0.999
rounds the wait up, in every state of the buckets. -/
theorem retryAfter_honest_iff (table : Dict κ (ℚ × ℚ)) (key : κ) (time : ℚ) {err : HTTPError}
    (hrefused : refusal (l.consumeMemory table key time).1 = some err) :
    ∃ seconds : Int, err.headers.get? "Retry-After".toList = some (decimal seconds) ∧
      (l.Honest (l.consumeMemory table key time).2 key time seconds ↔
        1 ≤ l.requests ∧ (l.wait (table.get? key) time ≤ 1 ∨
          Int.fract (l.wait (table.get? key) time) = 0 ∨
          1 / 1000 ≤ Int.fract (l.wait (table.get? key) time))) := by
  have hdenied : (l.consumeMemory table key time).1.allowed = false := by
    rw [refusal] at hrefused
    split at hrefused
    · cases hrefused
    · next h => exact Bool.eq_false_iff.2 h
  have hretry : (l.consumeMemory table key time).1.retry = l.wait (table.get? key) time :=
    l.retry_eq hdenied
  have hwait : 0 ≤ l.wait (table.get? key) time := by
    have hless : ¬ 1 ≤ l.tokensAt (table.get? key) time := by
      rw [← allowed_iff]
      exact Bool.not_eq_true _ ▸ hdenied
    exact div_nonneg (sub_nonneg.2 (not_le.1 hless).le) l.refillRate_pos.le
  refine ⟨retrySeconds (l.wait (table.get? key) time), ?_, ?_⟩
  · rw [refusal, hdenied, hretry] at hrefused
    cases hrefused
    exact Dict.get?_set_self _ _ _
  · rw [l.honest_iff hdenied, le_retrySeconds_iff hwait]

/-- One request in two seconds. -/
def oneInTwo : RationalLimiter := ⟨1, 2, by decide, by decide⟩

/-- The buckets after a request at time 0. -/
def usedOnce : Dict Unit (ℚ × ℚ) := (oneInTwo.consumeMemory ∅ () 0).2

theorem retryAfter_honest_iff_one :
    ∃ seconds : Int, (((∅ : Headers).set "Retry-After".toList "1".toList).get?
        "Retry-After".toList) = some (decimal seconds) ∧
      (oneInTwo.Honest (oneInTwo.consumeMemory usedOnce () 1).2 () 1 seconds ↔
        1 ≤ oneInTwo.requests ∧ (oneInTwo.wait (usedOnce.get? ()) 1 ≤ 1 ∨
          Int.fract (oneInTwo.wait (usedOnce.get? ()) 1) = 0 ∨
          1 / 1000 ≤ Int.fract (oneInTwo.wait (usedOnce.get? ()) 1))) := by
  have hrefused : refusal (oneInTwo.consumeMemory usedOnce () 1).1 =
      some (.make 429 "Too Many Requests".toList
        ((∅ : Headers).set "Retry-After".toList "1".toList)) := by
    decide +kernel
  exact oneInTwo.retryAfter_honest_iff usedOnce () 1 hrefused

/-- A request that is denied 1.0005 seconds before there is a token is told to come back after one
second, and denied again. -/
theorem retryAfter_too_early :
    refusal (oneInTwo.consumeMemory usedOnce () (1999 / 2000)).1 =
        some (.make 429 "Too Many Requests".toList
          ((∅ : Headers).set "Retry-After".toList "1".toList)) ∧
      ¬ oneInTwo.Honest (oneInTwo.consumeMemory usedOnce () (1999 / 2000)).2 ()
      (1999 / 2000) 1 := by
  constructor
  · decide +kernel
  · intro hhonest
    have hadmitted := hhonest [] (fun _ hcall => absurd hcall List.not_mem_nil)
        fun _ hcall => absurd hcall List.not_mem_nil
    revert hadmitted
    decide +kernel

end RationalLimiter

end Sovereign
