import Sovereign.Router
import Mathlib.Algebra.Order.Field.Rat
import Mathlib.Tactic.Linarith

namespace Sovereign
set_option autoImplicit true

/-- The readings of `time.time()`, in seconds since 1970, by the number of the call. -/
structure Clock where
  read : Nat → ℚ
  mono : Monotone read
  nonneg : 0 ≤ read 0

theorem Clock.read_nonneg (clock : Clock) (n : Nat) : 0 ≤ clock.read n :=
  clock.nonneg.trans (clock.mono (Nat.zero_le n))

/-- A row of the table `brute_force_attempts`, besides its key. No block is 0. -/
structure AttemptRow where
  attempts : Int
  blockedUntil : ℚ
  updatedAt : ℚ
deriving DecidableEq

/-- The state around a request: the table, how often the clock has been read, and the state of the
application. -/
structure GuardWorld (α : Type) where
  rows : Dict Str AttemptRow
  calls : Nat
  app : α

/-- `time.time()` -/
def Clock.now (clock : Clock) : Act (GuardWorld α) ℚ := fun w =>
  (.ok (clock.read w.calls), { w with calls := w.calls + 1 })

/-- `time.sleep` -/
def sleep (delay : ℚ) : Act (GuardWorld α) Unit :=
  if delay < 0 then throw (.builtin .valueError) else pure ()

/-- `getattr(resp, "status", 200)`: an awaitable has none. -/
def Val.status : Val σ → Int
  | result resp => resp.status
  | awaitable _ => 200

structure BruteForceProtector where
  maxAttempts : Int
  blockSeconds : Int
  /-- the function given as `key_func`, or `_default_key` -/
  keyFunc : Request → Str
  baseDelay : ℚ
  maxDelay : ℚ
  failureStatuses : List Int

namespace BruteForceProtector

section

variable {α : Type}

/-- `SELECT … WHERE key=?` -/
def fetch (key : Str) : Act (GuardWorld α) (Option AttemptRow) := fun w =>
  (.ok (w.rows.get? key), w)

/-- `BruteForceProtector.reset` -/
def reset (key : Str) : Act (GuardWorld α) Unit := fun w =>
  (.ok (), { w with rows := w.rows.erase key })

/-- The block of the row has been there and is over. -/
def expired (row : AttemptRow) (now : ℚ) : Prop := row.blockedUntil ≠ 0 ∧ row.blockedUntil ≤ now

instance (row : AttemptRow) (now : ℚ) : Decidable (expired row now) :=
  inferInstanceAs (Decidable (_ ∧ _))

/-- `BruteForceProtector.status` -/
def status (clock : Clock) (key : Str) : Act (GuardWorld α) (Int × ℚ) := do
  let now ← clock.now
  match ← fetch key with
  | none => return (0, 0)
  | some row =>
    if expired row now then
      reset key
      return (0, 0)
    else return (row.attempts, row.blockedUntil)

end

variable (g : BruteForceProtector) {α : Type}

/-- How long a row is kept. -/
def retention : ℚ := (max (g.blockSeconds * 4) 86400 : Int)

/-- The row that a failure leaves. -/
def failedRow (row : Option AttemptRow) (now : ℚ) : AttemptRow :=
  let attempts := (row.map AttemptRow.attempts).getD 0 + 1
  { attempts
    blockedUntil := if g.maxAttempts ≤ attempts then now + g.blockSeconds else 0
    updatedAt := now }

/-- `INSERT … ON CONFLICT(key) DO UPDATE` -/
def upsert (key : Str) (row : AttemptRow) : Act (GuardWorld α) Unit := fun w =>
  (.ok (), { w with rows := w.rows.set key row })

def pruned (rows : Dict Str AttemptRow) (now : ℚ) : Dict Str AttemptRow :=
  rows.filter fun row => !decide (row.updatedAt < now - g.retention)

/-- `DELETE … WHERE updated_at < ?` -/
def prune (now : ℚ) : Act (GuardWorld α) Unit := fun w =>
  (.ok (), { w with rows := g.pruned w.rows now })

/-- `BruteForceProtector.record_failure` -/
def recordFailure (clock : Clock) (key : Str) : Act (GuardWorld α) (Int × ℚ) := do
  let now ← clock.now
  let row := g.failedRow (← fetch key) now
  upsert key row
  g.prune now
  return (row.attempts, row.blockedUntil)

/-- `BruteForceProtector.delay_for` -/
def delayFor (attempts : Int) : ℚ :=
  if attempts < 3 then 0 else min g.maxDelay (g.baseDelay ^ (attempts - 2).toNat)

def pause (attempts : Int) : Act (GuardWorld α) Unit :=
  if g.delayFor attempts ≠ 0 then sleep (g.delayFor attempts) else pure ()

/-- `str(max(1, int(blocked_until - now)))` -/
def retryAfter (blockedUntil now : ℚ) : Str :=
  decimal (max 1 ((blockedUntil - now).num.tdiv (blockedUntil - now).den))

def blockedError (blockedUntil now : ℚ) : HTTPError :=
  .make 403 "Temporarily blocked".toList
    ((∅ : Headers).set "Retry-After".toList (retryAfter blockedUntil now))

/-- The part of `BruteForceProtector.__call__` before `call_next`. -/
def admission (clock : Clock) (key : Str) : Act (GuardWorld α) Unit := do
  let (attempts, blockedUntil) ← status clock key
  let now ← clock.now
  if now < blockedUntil then throw (.http (blockedError blockedUntil now))
  else g.pause attempts

/-- The part of `BruteForceProtector.__call__` after `call_next`, which has returned or raised. -/
def conclude (clock : Clock) (key : Str) :
    Except Exc (Val (GuardWorld α)) → Act (GuardWorld α) (Val (GuardWorld α))
  | .error (.http exc) =>
    if exc.status ∈ g.failureStatuses then do
      let (attempts, blockedUntil) ← g.recordFailure clock key
      g.pause attempts
      if (← clock.now) < blockedUntil then
        let now ← clock.now
        throw (.http { exc with
          headers := (∅ : Headers).set "Retry-After".toList (retryAfter blockedUntil now) })
      else throw (.http exc)
    else do
      reset key
      throw (.http exc)
  | .error exc => throw exc
  | .ok resp =>
    if resp.status ∈ g.failureStatuses then do
      let (_, blockedUntil) ← g.recordFailure clock key
      if (← clock.now) < blockedUntil then
        let now ← clock.now
        let result ← resp.response
        return .result (result.withHeaders fun headers =>
          headers.set "Retry-After".toList (retryAfter blockedUntil now))
      else return resp
    else do
      reset key
      return resp

/-- `BruteForceProtector.__call__` -/
def call (clock : Clock) (req : Request) (callNext : Endpoint (GuardWorld α)) :
    Act (GuardWorld α) (Val (GuardWorld α)) := do
  let key := g.keyFunc req
  g.admission clock key
  let out ← Act.attempt (callNext req)
  g.conclude clock key out

def middleware (clock : Clock) : Middleware (GuardWorld α) where
  isCoroutineFunction := false
  body := g.call clock

/-- The downstream reports a failure, by an exception or by the status of its response. -/
def isFailure : Except Exc (Val (GuardWorld α)) → Bool
  | .error (.http exc) => decide (exc.status ∈ g.failureStatuses)
  | .error _ => false
  | .ok resp => decide (resp.status ∈ g.failureStatuses)

/-- The downstream ends without a failure, so that the counter of the key is deleted. -/
def isCleared : Except Exc (Val (GuardWorld α)) → Bool
  | .error (.http exc) => !decide (exc.status ∈ g.failureStatuses)
  | .error _ => false
  | .ok resp => !decide (resp.status ∈ g.failureStatuses)

/-- A failure is not an outcome that deletes the counter. -/
theorem not_isCleared {out : Except Exc (Val (GuardWorld α))} (h : g.isFailure out = true) :
    ¬ g.isCleared out = true := by
  intro hc
  cases out with
  | ok resp =>
    rw [isFailure] at h
    rw [isCleared, h] at hc
    cases hc
  | error e =>
    cases e with
    | http exc =>
      rw [isFailure] at h
      rw [isCleared, h] at hc
      cases hc
    | _ => cases h

/-- The table after `status`. -/
def checked (clock : Clock) (key : Str) (w : GuardWorld α) : Dict Str AttemptRow :=
  match w.rows.get? key with
  | none => w.rows
  | some row => if expired row (clock.read w.calls) then w.rows.erase key else w.rows

/-- The state in which the downstream is called, or the key rejected. -/
def entered (clock : Clock) (key : Str) (w : GuardWorld α) : GuardWorld α where
  rows := checked clock key w
  calls := w.calls + 2
  app := w.app

/-- The table after the outcome of the downstream. -/
def concluded (clock : Clock) (key : Str) (out : Except Exc (Val (GuardWorld α)))
    (w : GuardWorld α) : Dict Str AttemptRow :=
  if g.isFailure out then
    g.pruned (w.rows.set key (g.failedRow (w.rows.get? key) (clock.read w.calls)))
      (clock.read w.calls)
  else if g.isCleared out then w.rows.erase key
  else w.rows

/-- What `status` returns. -/
def standing (clock : Clock) (key : Str) (w : GuardWorld α) : Int × ℚ :=
  match w.rows.get? key with
  | none => (0, 0)
  | some row =>
    if expired row (clock.read w.calls) then (0, 0) else (row.attempts, row.blockedUntil)

theorem now_run (clock : Clock) (w : GuardWorld α) :
    clock.now w = (.ok (clock.read w.calls), { w with calls := w.calls + 1 }) := rfl

theorem fetch_run (key : Str) (w : GuardWorld α) : fetch key w = (.ok (w.rows.get? key), w) := rfl

theorem status_run (clock : Clock) (key : Str) (w : GuardWorld α) :
    status clock key w = (.ok (standing clock key w),
      { w with rows := checked clock key w, calls := w.calls + 1 }) := by
  rw [status, Act.bind_ok _ (now_run clock w), Act.bind_ok _ (fetch_run key _), checked, standing]
  cases w.rows.get? key with
  | none => rfl
  | some row =>
    dsimp only
    split
    · rfl
    · rfl

theorem pause_run (attempts : Int) (w : GuardWorld α) :
    ∃ result, g.pause attempts w = (result, w) := by
  rw [pause, sleep]
  split
  · split
    · exact ⟨_, rfl⟩
    · exact ⟨_, rfl⟩
  · exact ⟨_, rfl⟩

/-- A key without attempts is not kept waiting. -/
theorem pause_zero (w : GuardWorld α) : g.pause 0 w = (.ok (), w) := by
  rw [pause, delayFor]
  rfl

theorem admission_run (clock : Clock) (key : Str) (w : GuardWorld α) :
    g.admission clock key w =
      (if clock.read (w.calls + 1) < (standing clock key w).2 then
        throw (.http (blockedError (standing clock key w).2 (clock.read (w.calls + 1))))
      else g.pause (standing clock key w).1) (entered clock key w) := by
  rw [admission, Act.bind_ok _ (status_run clock key w)]
  obtain ⟨attempts, blockedUntil⟩ := standing clock key w
  exact Act.bind_ok _ (now_run clock _)

theorem admission_world (clock : Clock) (key : Str) (w : GuardWorld α) :
    ∃ result, g.admission clock key w = (result, entered clock key w) := by
  rw [admission_run]
  split
  · exact ⟨_, rfl⟩
  · exact g.pause_run _ _

/-- A key whose block lasts is rejected. -/
theorem admission_blocked {clock : Clock} {w : GuardWorld α} (h : w.rows.get? key = some row)
    (hnow : clock.read (w.calls + 1) < row.blockedUntil) :
    g.admission clock key w =
      (.error (.http (blockedError row.blockedUntil (clock.read (w.calls + 1)))),
        { w with calls := w.calls + 2 }) := by
  have hlt : clock.read w.calls < row.blockedUntil :=
    (clock.mono (Nat.le_succ w.calls)).trans_lt hnow
  have hexp : ¬ expired row (clock.read w.calls) := fun he => not_lt.2 he.2 hlt
  have hstanding : standing clock key w = (row.attempts, row.blockedUntil) := by
    rw [standing, h]
    exact if_neg hexp
  have hchecked : checked clock key w = w.rows := by
    rw [checked, h]
    exact if_neg hexp
  rw [admission_run, hstanding, entered, hchecked, if_pos hnow]
  rfl

/-- A key without a row, or whose block is over, is let through with nothing counted. -/
theorem admission_fresh {clock : Clock} {w : GuardWorld α}
    (h : ∀ row, w.rows.get? key = some row → expired row (clock.read w.calls)) :
    g.admission clock key w = (.ok (), entered clock key w) ∧
      (checked clock key w).get? key = none := by
  have hboth : standing clock key w = (0, 0) ∧ (checked clock key w).get? key = none := by
    rw [standing, checked]
    cases hrow : w.rows.get? key with
    | none => exact ⟨rfl, hrow⟩
    | some row =>
      have hexp := h row hrow
      simp [hexp, Dict.get?_erase]
  refine ⟨?_, hboth.2⟩
  rw [admission_run, hboth.1, if_neg (not_lt.2 (clock.read_nonneg _)), pause_zero]

theorem recordFailure_run (clock : Clock) (key : Str) (w : GuardWorld α) :
    ∃ result, g.recordFailure clock key w =
      (.ok result, { w with
        rows := g.pruned (w.rows.set key (g.failedRow (w.rows.get? key) (clock.read w.calls)))
          (clock.read w.calls)
        calls := w.calls + 1 }) :=
  ⟨_, rfl⟩

theorem conclude_run (clock : Clock) (key : Str) (out : Except Exc (Val (GuardWorld α)))
    (w : GuardWorld α) :
    (g.conclude clock key out w).2.rows = g.concluded clock key out w ∧
      w.calls + (if g.isFailure out then 1 else 0) ≤ (g.conclude clock key out w).2.calls := by
  obtain ⟨⟨attempts, blockedUntil⟩, hrecord⟩ := g.recordFailure_run clock key w
  rw [concluded]
  cases out with
  | error e =>
    cases e with
    | http exc =>
      by_cases hs : exc.status ∈ g.failureStatuses
      · simp only [conclude, isFailure, hs, ↓reduceIte, decide_true]
        rw [Act.bind_ok _ hrecord]
        obtain ⟨result, hpause⟩ := g.pause_run attempts { w with
          rows := g.pruned (w.rows.set key (g.failedRow (w.rows.get? key) (clock.read w.calls)))
            (clock.read w.calls)
          calls := w.calls + 1 }
        cases result with
        | error e =>
          rw [Act.bind_error _ hpause]
          exact ⟨rfl, le_rfl⟩
        | ok u =>
          rw [Act.bind_ok _ hpause, Act.bind_ok _ (now_run clock _)]
          split
          · rw [Act.bind_ok _ (now_run clock _)]
            exact ⟨rfl, by simp only [Act.throw_run]; omega⟩
          · exact ⟨rfl, by simp only [Act.throw_run]; omega⟩
      · simp only [conclude, isFailure, isCleared, hs, ↓reduceIte, decide_false, Bool.not_false,
          Bool.false_eq_true, Nat.add_zero]
        exact ⟨rfl, le_rfl⟩
    | _ => exact ⟨rfl, le_rfl⟩
  | ok resp =>
    by_cases hs : resp.status ∈ g.failureStatuses
    · simp only [conclude, isFailure, hs, ↓reduceIte, decide_true]
      rw [Act.bind_ok _ hrecord, Act.bind_ok _ (now_run clock _)]
      split
      · rw [Act.bind_ok _ (now_run clock _)]
        cases resp with
        | result resp => exact ⟨rfl, by change w.calls + 1 ≤ w.calls + 1 + 1 + 1; omega⟩
        | awaitable run => exact ⟨rfl, by change w.calls + 1 ≤ w.calls + 1 + 1 + 1; omega⟩
      · exact ⟨rfl, by simp only [Act.pure_run]; omega⟩
    · simp only [conclude, isFailure, isCleared, hs, ↓reduceIte, decide_false, Bool.not_false,
        Bool.false_eq_true, Nat.add_zero]
      exact ⟨rfl, le_rfl⟩

theorem retention_pos : 0 < g.retention := by
  rw [retention]
  exact_mod_cast lt_of_lt_of_le (by norm_num) (le_max_right _ _)

theorem blockSeconds_le_retention : (g.blockSeconds : ℚ) ≤ g.retention := by
  rw [retention]
  exact_mod_cast show g.blockSeconds ≤ max (g.blockSeconds * 4) 86400 by omega

/-- The row of a failure is not one of those that are too old. -/
theorem get?_recorded (rows : Dict Str AttemptRow) (key : Str) (row : Option AttemptRow) (now : ℚ) :
    (g.pruned (rows.set key (g.failedRow row now)) now).get? key = some (g.failedRow row now) := by
  have hkeep : ¬ now < now - g.retention := by
    have hpos := g.retention_pos
    linarith
  rw [pruned, Dict.get?_filter, Dict.get?_set, if_pos rfl, Option.filter_some]
  simp [failedRow, hkeep]

/-- What `status` returns is what stands in the table after it. -/
theorem standing_attempts (clock : Clock) (key : Str) (w : GuardWorld α) :
    (standing clock key w).1 = (((checked clock key w).get? key).map AttemptRow.attempts).getD
    0 := by
  rw [standing, checked]
  cases hrow : w.rows.get? key with
  | none => rw [hrow]; rfl
  | some row =>
    dsimp only
    split
    · rw [Dict.get?_erase, if_pos rfl]
      rfl
    · rw [hrow]
      rfl

end BruteForceProtector

end Sovereign
