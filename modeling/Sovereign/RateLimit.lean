import Sovereign.Lib.Dict
import Sovereign.Lib.TokenBucket
import Mathlib.Algebra.Order.Archimedean.Basic
import Mathlib.Data.Rat.Floor
import Mathlib.Tactic.Positivity

namespace Sovereign
set_option autoImplicit true

/-- What a `TokenBucketLimiter` computes with, in exact numbers. -/
structure RationalLimiter where
  requests : ℚ
  window : ℚ
  requests_pos : 0 < requests
  window_pos : 0 < window

/-- The result of `TokenBucketLimiter.consume`. -/
structure Consumed where
  allowed : Bool
  tokens : ℚ
  retry : ℚ
deriving DecidableEq

namespace RationalLimiter

variable (l : RationalLimiter)

def capacity : ℚ := l.requests

def refillRate : ℚ := l.requests / l.window

/-- `int(window)` -/
def windowSeconds : Int := ⌊l.window⌋

/-- What `_consume_memory` and `_consume_sqlite` make of the entry they find. -/
def consumeFrom (entry : Option (ℚ × ℚ)) (now : ℚ) : Consumed :=
  let (tokens, updated) := entry.getD (l.capacity, now)
  let tokens := min l.capacity (tokens + (now - updated) * l.refillRate)
  let allowed := decide (1 ≤ tokens)
  let tokens := if allowed then tokens - 1 else tokens
  { allowed, tokens, retry := if allowed then 0 else (1 - tokens) / l.refillRate }

variable {κ : Type} [DecidableEq κ]

/-- `TokenBucketLimiter._consume_memory` -/
def consumeMemory (buckets : Dict κ (ℚ × ℚ)) (key : κ) (now : ℚ) : Consumed × Dict κ (ℚ × ℚ) :=
  let consumed := l.consumeFrom (buckets.get? key) now
  (consumed, buckets.set key (consumed.tokens, now))

/-- The `DELETE` of `_consume_sqlite`. -/
def prune (rows : Dict κ (ℚ × ℚ)) (now : ℚ) : Dict κ (ℚ × ℚ) :=
  rows.filter fun row => !decide (row.2 < now - max (l.windowSeconds * 4) 3600)

/-- `TokenBucketLimiter._consume_sqlite` -/
def consumeSqlite (rows : Dict κ (ℚ × ℚ)) (key : κ) (now : ℚ) : Consumed × Dict κ (ℚ × ℚ) :=
  let consumed := l.consumeFrom (rows.get? key) now
  (consumed, l.prune (rows.set key (consumed.tokens, now)) now)

end RationalLimiter

/-- A call of `consume`, the time it read and its result. -/
structure Served (κ : Type) where
  key : κ
  now : ℚ
  result : Consumed
deriving DecidableEq

/-- The calls one after the other from a table, and the table after them. -/
def serve (consume : Dict κ (ℚ × ℚ) → κ → ℚ → Consumed × Dict κ (ℚ × ℚ)) :
    Dict κ (ℚ × ℚ) → List (κ × ℚ) → List (Served κ) × Dict κ (ℚ × ℚ)
  | table, [] => ([], table)
  | table, (key, now) :: calls =>
    let (result, table) := consume table key now
    let (served, table) := serve consume table calls
    (⟨key, now, result⟩ :: served, table)

@[simp] theorem serve_cons (consume : Dict κ (ℚ × ℚ) → κ → ℚ → Consumed × Dict κ (ℚ × ℚ))
    (table : Dict κ (ℚ × ℚ)) (key : κ) (now : ℚ) (calls : List (κ × ℚ)) :
    serve consume table ((key, now) :: calls) =
      (⟨key, now, (consume table key now).1⟩ ::
        (serve consume (consume table key now).2 calls).1,
        (serve consume (consume table key now).2 calls).2) := rfl

/-- The number of calls that are allowed. -/
def allowedCount (served : List (Served κ)) : Nat := served.countP fun e => e.result.allowed

theorem allowedCount_append (served served' : List (Served κ)) :
    allowedCount (served ++ served') = allowedCount served + allowedCount served' :=
  List.countP_append

section

variable [DecidableEq κ]

def callsFor (key : κ) (served : List (Served κ)) : List (Served κ) :=
  served.filter fun e => e.key = key

theorem callsFor_cons_self (e : Served κ) (served : List (Served κ)) :
    callsFor e.key (e :: served) = e :: callsFor e.key served := by
  simp [callsFor]

theorem callsFor_cons_of_ne {e : Served κ} (h : e.key ≠ key) (served : List (Served κ)) :
    callsFor key (e :: served) = callsFor key served := by
  simp [callsFor, h]

end

/-- What holds of the calls for a key. -/
structure AdmissionLaw (l : RationalLimiter) (calls : List (Served κ)) : Prop where
  bound : ∀ before seg after first last, calls = before ++ seg ++ after →
    seg.head? = some first → seg.getLast? = some last → last.result.allowed = true →
      allowedCount seg ≤ l.capacity + l.refillRate * (last.now - first.now)
  tokens_le : ∀ e ∈ calls, e.result.tokens ≤ l.capacity
  tokens_nonneg : (calls.map Served.now).Pairwise (· ≤ ·) → ∀ e ∈ calls, 0 ≤ e.result.tokens
  further : (calls.map Served.now).Pairwise (· ≤ ·) → ∀ before e after,
    calls = before ++ e :: after → (∀ f ∈ after, f.now = e.now) →
      allowedCount after = min after.length ⌊e.result.tokens⌋₊

open TokenBucket

def bucketOf (entry : ℚ × ℚ) : Bucket ℚ := ⟨entry.1, entry.2⟩

/-- The draw from the bucket that a call is. -/
def Served.draw (e : Served κ) : Draw ℚ := ⟨e.now, e.result.allowed, e.result.tokens⟩

theorem admitted_map_draw (served : List (Served κ)) :
    admitted (served.map Served.draw) = allowedCount served := by
  rw [admitted, List.countP_map]
  rfl

namespace RationalLimiter

variable (l : RationalLimiter)

theorem refillRate_pos : 0 < l.refillRate := div_pos l.requests_pos l.window_pos

def params : Params ℚ := ⟨l.capacity, l.refillRate, l.refillRate_pos.le⟩

theorem consumeFrom_level (entry : Option (ℚ × ℚ)) (now : ℚ) :
    l.consumeFrom entry now =
      let x := level l.params (entry.map bucketOf) now
      if 1 ≤ x then ⟨true, x - 1, 0⟩ else ⟨false, x, (1 - x) / l.refillRate⟩ := by
  have hlevel : min l.capacity ((entry.getD (l.capacity, now)).1 +
      (now - (entry.getD (l.capacity, now)).2) * l.refillRate) =
        level l.params (entry.map bucketOf) now := by
    cases entry with
    | none => simp [level, params]
    | some row => rfl
  simp only [consumeFrom, hlevel]
  by_cases h1 : 1 ≤ level l.params (entry.map bucketOf) now
  · simp [h1]
  · simp only [h1, decide_false, Bool.false_eq_true, ↓reduceIte]

theorem consumeFrom_draw (entry : Option (ℚ × ℚ)) (now : ℚ) (key : κ) :
    (Served.mk key now (l.consumeFrom entry now)).draw =
      draw l.params (entry.map bucketOf) now := by
  rw [consumeFrom_level, Served.draw, draw]
  dsimp only
  split <;> rfl

/-- Entries of the same level give the same result. -/
theorem consumeFrom_congr {entry entry' : Option (ℚ × ℚ)} {now : ℚ}
    (h : level l.params (entry.map bucketOf) now = level l.params (entry'.map bucketOf) now) :
    l.consumeFrom entry now = l.consumeFrom entry' now := by
  rw [consumeFrom_level, consumeFrom_level, h]

/-- Calls that are draws from a bucket follow the law. -/
theorem admissionLaw_of_draws {calls : List (Served κ)}
    (h : calls.map Served.draw = draws l.params none ts) : AdmissionLaw l calls := by
  have htimes : calls.map Served.now = ts := by
    rw [← draws_time (p := l.params) none ts, ← h, List.map_map]
    rfl
  have hmem : ∀ e ∈ calls, e.draw ∈ draws l.params none ts := fun e he =>
    h ▸ List.mem_map_of_mem he
  have hnonneg : ts.Pairwise (· ≤ ·) → ∀ e ∈ calls, 0 ≤ e.result.tokens := fun hts e he =>
    TokenBucket.tokens_nonneg (fun _ hb => by cases hb) l.requests_pos.le hts _ (hmem e he)
  have hle : ∀ e ∈ calls, e.result.tokens ≤ l.capacity := fun e he =>
    draws_tokens_le none ts _ (hmem e he)
  refine ⟨?_, hle, fun hts => hnonneg (htimes ▸ hts), ?_⟩
  · rintro before seg after first last rfl hfirst hlast hallowed
    rw [List.append_assoc, List.map_append] at h
    obtain ⟨b, ts', hseg⟩ := draws_split h.symm
    rw [List.map_append] at hseg
    obtain ⟨ts'', htake⟩ := draws_take hseg.symm
    have hbound := admitted_le htake
      (by rw [List.head?_map, hfirst]; rfl) (by rw [List.getLast?_map, hlast]; rfl) hallowed
    rw [admitted_map_draw, mul_comm] at hbound
    exact hbound
  · rintro hts before e after rfl hsame
    rw [List.map_append, List.map_cons] at h
    obtain ⟨ts', hafter⟩ := draws_split_cons h.symm
    have hts' : ts' = List.replicate after.length e.now := by
      rw [List.eq_replicate_iff, ← draws_time (p := l.params) (some e.draw.bucket) ts', ← hafter]
      simpa [Served.draw] using hsame
    have he : e ∈ before ++ e :: after := by simp
    rw [← admitted_map_draw, hafter, hts']
    exact admitted_replicate (b := e.draw.bucket) (hnonneg (htimes ▸ hts) e he) (hle e he) _

variable [DecidableEq κ]

/-- The calls for a key are draws from its bucket. -/
theorem draws_callsFor (table : Dict κ (ℚ × ℚ)) (calls : List (κ × ℚ)) (key : κ) :
    (callsFor key (serve l.consumeMemory table calls).1).map Served.draw =
      draws l.params ((table.get? key).map bucketOf)
        ((calls.filter fun c => c.1 = key).map Prod.snd) := by
  induction calls generalizing table with
  | nil => rfl
  | cons call calls ih =>
    obtain ⟨key', now⟩ := call
    have hrest := ih (l.consumeMemory table key' now).2
    rw [serve_cons]
    by_cases hkey : key' = key
    · subst hkey
      rw [consumeMemory, Dict.get?_set, if_pos rfl] at hrest
      rw [callsFor_cons_self ⟨key', now, _⟩, List.map_cons, consumeMemory, hrest,
        List.filter_cons_of_pos (by simp), List.map_cons, draws, ← consumeFrom_draw l _ now key']
      rfl
    · rw [consumeMemory, Dict.get?_set, if_neg (Ne.symm hkey)] at hrest
      rw [callsFor_cons_of_ne hkey, consumeMemory, hrest, List.filter_cons_of_neg (by simpa)]

/-- The entry of a key is what its last call has left. -/
theorem get?_serve (table : Dict κ (ℚ × ℚ)) (calls : List (κ × ℚ)) (key : κ) :
    (serve l.consumeMemory table calls).2.get? key =
      ((callsFor key (serve l.consumeMemory table calls).1).getLast?.map fun e =>
        (e.result.tokens, e.now)).or (table.get? key) := by
  induction calls generalizing table with
  | nil => rfl
  | cons call calls ih =>
    obtain ⟨key', now⟩ := call
    have hrest := ih (l.consumeMemory table key' now).2
    rw [serve_cons]
    by_cases hkey : key' = key
    · subst hkey
      rw [callsFor_cons_self ⟨key', now, _⟩, hrest, List.getLast?_cons, consumeMemory,
        Dict.get?_set, if_pos rfl]
      cases (callsFor key' _).getLast? <;> rfl
    · rw [callsFor_cons_of_ne hkey, hrest, consumeMemory, Dict.get?_set, if_neg (Ne.symm hkey)]

/-- The calls for a key are as if there were no others. -/
theorem callsFor_serve {table table' : Dict κ (ℚ × ℚ)} (key : κ)
    (h : table.get? key = table'.get? key) (calls : List (κ × ℚ)) :
    callsFor key (serve l.consumeMemory table calls).1 =
      (serve l.consumeMemory table' (calls.filter fun c => c.1 = key)).1 := by
  induction calls generalizing table table' with
  | nil => rfl
  | cons call calls ih =>
    obtain ⟨key', now⟩ := call
    rw [serve_cons]
    by_cases hkey : key' = key
    · subst hkey
      rw [callsFor_cons_self ⟨key', now, _⟩, List.filter_cons_of_pos (by simp), serve_cons]
      simp only [consumeMemory, h]
      refine congrArg _ (ih ?_)
      rw [Dict.get?_set, Dict.get?_set, if_pos rfl, if_pos rfl]
    · rw [callsFor_cons_of_ne hkey, List.filter_cons_of_neg (by simpa)]
      refine ih ?_
      rw [consumeMemory, Dict.get?_set, if_neg (Ne.symm hkey), h]

/-- The bound on admissions, for the calls of each key in the order in which they take the lock. -/
theorem admissionLaw_memory (calls : List (κ × ℚ)) (key : κ) :
    let served := serve l.consumeMemory ∅ calls
    AdmissionLaw l (callsFor key served.1) ∧
      served.2.get? key =
        (callsFor key served.1).getLast?.map (fun e => (e.result.tokens, e.now)) ∧
      callsFor key served.1 = (serve l.consumeMemory ∅ (calls.filter fun c => c.1 = key)).1 := by
  refine ⟨l.admissionLaw_of_draws (l.draws_callsFor ∅ calls key), ?_,
    l.callsFor_serve key rfl calls⟩
  rw [get?_serve, Dict.get?_empty, Option.or_none]

/-- How long a row is kept: by then every bucket has filled up. -/
theorem window_le_retention : l.window ≤ (max (l.windowSeconds * 4) 3600 : Int) := by
  push_cast
  have hlt : l.window < l.windowSeconds + 1 := Int.lt_floor_add_one l.window
  by_cases h1 : 1 ≤ l.windowSeconds
  · have h1' : (1 : ℚ) ≤ l.windowSeconds := by exact_mod_cast h1
    refine le_max_of_le_left ?_
    linarith
  · have h0 : (l.windowSeconds : ℚ) ≤ 0 := by exact_mod_cast Int.lt_add_one_iff.1 (not_le.1 h1)
    refine le_max_of_le_right ?_
    linarith

/-- A bucket that has not been used for a whole window is full. -/
theorem level_of_idle {tokens updated : ℚ} (ht : 0 ≤ tokens) (h : l.window ≤ now - updated) :
    level l.params (some ⟨tokens, updated⟩) now = l.capacity := by
  refine min_eq_left ?_
  have hfill : l.capacity ≤ (now - updated) * l.refillRate := by
    rw [capacity, refillRate, ← mul_div_assoc, le_div_iff₀ l.window_pos, mul_comm]
    exact mul_le_mul_of_nonneg_right h l.requests_pos.le
  exact hfill.trans (le_add_of_nonneg_left ht)

/-- The rows hold the same as the buckets, but for rows deleted whose bucket has filled up. -/
structure SameLimits (buckets rows : Dict κ (ℚ × ℚ)) (clock : ℚ) : Prop where
  fresh : ∀ key tokens updated, buckets.get? key = some (tokens, updated) →
    0 ≤ tokens ∧ updated ≤ clock
  row : ∀ key, rows.get? key = buckets.get? key ∨ rows.get? key = none ∧
    ∀ tokens updated, buckets.get? key = some (tokens, updated) → l.window ≤ clock - updated

theorem sameLimits_empty (clock : ℚ) : l.SameLimits (κ := κ) ∅ ∅ clock where
  fresh _ _ _ h := by cases h
  row _ := .inl rfl

theorem consumeFrom_eq {buckets rows : Dict κ (ℚ × ℚ)} (h : l.SameLimits buckets rows clock)
    (hnow : clock ≤ now) (key : κ) :
    l.consumeFrom (rows.get? key) now = l.consumeFrom (buckets.get? key) now := by
  rcases h.row key with hrow | ⟨hnone, hidle⟩
  · rw [hrow]
  · rw [hnone]
    refine l.consumeFrom_congr ?_
    cases hb : buckets.get? key with
    | none => rfl
    | some entry =>
      obtain ⟨tokens, updated⟩ := entry
      have hw := hidle tokens updated hb
      have hfull : level l.params (some ⟨tokens, updated⟩) now = l.capacity :=
        l.level_of_idle (h.fresh key tokens updated hb).1 (by linarith)
      exact hfull.symm

theorem consumeFrom_nonneg {entry : Option (ℚ × ℚ)}
    (h : ∀ tokens updated, entry = some (tokens, updated) → 0 ≤ tokens ∧ updated ≤ now) :
    0 ≤ (l.consumeFrom entry now).tokens := by
  have hdraws : draw l.params (entry.map bucketOf) now ∈
      draws l.params (entry.map bucketOf) [now] := List.mem_singleton_self _
  refine le_of_le_of_eq (TokenBucket.tokens_nonneg (fun b hb => ?_) l.requests_pos.le
    (List.pairwise_singleton _ now) _ hdraws) ?_
  · obtain ⟨⟨tokens, updated⟩, hentry, rfl⟩ := Option.map_eq_some_iff.1 hb
    obtain ⟨h0, hle⟩ := h tokens updated hentry
    exact ⟨h0, by simpa [bucketOf] using hle⟩
  · rw [← consumeFrom_draw l entry now ()]
    rfl

/-- One call keeps what the two storages have in common. -/
theorem sameLimits_consume {buckets rows : Dict κ (ℚ × ℚ)} (h : l.SameLimits buckets rows clock)
    (hnow : clock ≤ now) (key : κ) :
    l.SameLimits (l.consumeMemory buckets key now).2 (l.consumeSqlite rows key now).2 now := by
  have hfresh : ∀ key' tokens updated,
      (l.consumeMemory buckets key now).2.get? key' = some (tokens, updated) →
        0 ≤ tokens ∧ updated ≤ now := by
    intro key' tokens updated hget
    rw [consumeMemory, Dict.get?_set] at hget
    split at hget
    · cases hget
      refine ⟨l.consumeFrom_nonneg fun tokens updated hentry => ?_, le_rfl⟩
      obtain ⟨h0, hle⟩ := h.fresh key tokens updated hentry
      exact ⟨h0, hle.trans hnow⟩
    · obtain ⟨h0, hle⟩ := h.fresh key' tokens updated hget
      exact ⟨h0, hle.trans hnow⟩
  refine ⟨hfresh, fun key' => ?_⟩
  have hrow : ((rows.set key ((l.consumeFrom (rows.get? key) now).tokens, now)).get? key' =
      (l.consumeMemory buckets key now).2.get? key') ∨
      (rows.set key ((l.consumeFrom (rows.get? key) now).tokens, now)).get? key' = none ∧
        ∀ tokens updated, (l.consumeMemory buckets key now).2.get? key' = some (tokens, updated) →
          l.window ≤ now - updated := by
    rw [consumeMemory, Dict.get?_set, Dict.get?_set, l.consumeFrom_eq h hnow key]
    split
    · exact .inl rfl
    · apply (h.row key').imp_right
      rintro ⟨hnone, hidle⟩
      refine ⟨hnone, fun tokens updated hb => ?_⟩
      have hw := hidle tokens updated hb
      linarith
  rw [consumeSqlite, prune, Dict.get?_filter]
  rcases hrow with hsame | ⟨hnone, hidle⟩
  · rw [hsame]
    cases hb : (l.consumeMemory buckets key now).2.get? key' with
    | none => exact .inl rfl
    | some entry =>
      by_cases hold : entry.2 < now - max (l.windowSeconds * 4) 3600
      · refine .inr
          ⟨by simp only [Option.filter_some, hold, decide_true, Bool.not_true, Bool.false_eq_true,
          ↓reduceIte], fun tokens updated he => ?_⟩
        cases he
        have hw := l.window_le_retention
        simp only at hold
        linarith
      · exact .inl
          (by simp only [Option.filter_some, hold, decide_false, Bool.not_false, ↓reduceIte])
  · exact .inr ⟨by rw [hnone]; rfl, hidle⟩

theorem serve_eq {buckets rows : Dict κ (ℚ × ℚ)} {calls : List (κ × ℚ)}
    (h : l.SameLimits buckets rows clock) (hclock : ∀ call ∈ calls, clock ≤ call.2)
    (hcalls : (calls.map Prod.snd).Pairwise (· ≤ ·)) :
    (serve l.consumeSqlite rows calls).1 = (serve l.consumeMemory buckets calls).1 := by
  induction calls generalizing buckets rows clock with
  | nil => rfl
  | cons call calls ih =>
    obtain ⟨key, now⟩ := call
    rw [List.map_cons, List.pairwise_cons] at hcalls
    have hnow : clock ≤ now := hclock (key, now) (by simp)
    have hrest := ih (l.sameLimits_consume h hnow key)
      (fun call hcall => hcalls.1 call.2 (List.mem_map_of_mem hcall)) hcalls.2
    rw [serve_cons, serve_cons, hrest]
    simp only [consumeSqlite, consumeMemory, l.consumeFrom_eq h hnow key]

/-- The two storages give the same results while the time goes forward. -/
theorem sqlite_eq_memory (calls : List (κ × ℚ)) (h : (calls.map Prod.snd).Pairwise (· ≤ ·)) :
    (serve l.consumeSqlite ∅ calls).1 = (serve l.consumeMemory ∅ calls).1 := by
  cases calls with
  | nil => rfl
  | cons call calls =>
    refine l.serve_eq (l.sameLimits_empty call.2) (fun c hc => ?_) h
    rcases List.mem_cons.1 hc with rfl | hc
    · exact le_rfl
    · rw [List.map_cons, List.pairwise_cons] at h
      exact h.1 c.2 (List.mem_map_of_mem hc)

theorem sqlite_eq_memory_two :
    let l : RationalLimiter := ⟨1, 60, by decide, by decide⟩
    (serve l.consumeSqlite ∅ [((), 0), ((), 30)]).1 =
      (serve l.consumeMemory ∅ [((), 0), ((), 30)]).1 :=
  sqlite_eq_memory _ _ (by decide)

end RationalLimiter

end Sovereign
