import Sovereign.BruteForce
import Sovereign.Lib.Run
import Mathlib.Tactic.Linarith

namespace Sovereign
set_option autoImplicit true

/-- A request that is executed behind the protector, and application code that does not write to
the table of the protector. -/
structure GuardedRequest (g : BruteForceProtector) (clock : Clock) (α : Type) where
  router : Router (GuardWorld α)
  req : Request
  handler : Endpoint (GuardWorld α)
  routeMiddlewares : List (Middleware (GuardWorld α))
  rest : List (Middleware (GuardWorld α))
  chain : router.middlewares ++ routeMiddlewares = g.middleware clock :: rest
  rows_kept : ∀ req w, (build rest handler req w).2.rows = w.rows
  calls_le : ∀ req w, w.calls ≤ (build rest handler req w).2.calls

namespace GuardedRequest

variable {g : BruteForceProtector} {clock : Clock} {α : Type} (x : GuardedRequest g clock α)

def key : Str := g.keyFunc x.req

/-- What `call_next` of the protector calls. -/
def downstream : Endpoint (GuardWorld α) := build x.rest x.handler

def execute : Act (GuardWorld α) (Val (GuardWorld α)) :=
  x.router.execute x.req x.handler x.routeMiddlewares

theorem execute_eq : x.execute = (do
    g.admission clock x.key
    let out ← Act.attempt (x.downstream x.req)
    g.conclude clock x.key out) := by
  rw [execute, Router.execute, x.chain]
  rfl

/-- The requests are processed one at a time. -/
def step (w : GuardWorld α) (x : GuardedRequest g clock α) : Option (GuardWorld α) :=
  some (x.execute w).2

/-- What the downstream returns or raises, if it is called, and the state it leaves. -/
def outcome (w : GuardWorld α) : Option (Except Exc (Val (GuardWorld α)) × GuardWorld α) :=
  match g.admission clock x.key w with
  | (.ok _, w') => some (x.downstream x.req w')
  | (.error _, _) => none

/-- The time at which a failure of the downstream is recorded. -/
def failureTime (w : GuardWorld α) : Option ℚ :=
  (x.outcome w).bind fun out =>
    if g.isFailure out.1 then some (clock.read out.2.calls) else none

theorem outcome_none {w : GuardWorld α} (h : x.outcome w = none) :
    (x.execute w).2 = BruteForceProtector.entered clock x.key w := by
  obtain ⟨result, hadm⟩ := g.admission_world clock x.key w
  rw [outcome, hadm] at h
  rw [execute_eq]
  cases result with
  | error e => exact congrArg Prod.snd (Act.bind_error _ hadm)
  | ok u => cases h

theorem outcome_some {w : GuardWorld α} (h : x.outcome w = some (out, w')) :
    x.execute w = g.conclude clock x.key out w' ∧
      w'.rows = BruteForceProtector.checked clock x.key w ∧ w.calls + 2 ≤ w'.calls := by
  obtain ⟨result, hadm⟩ := g.admission_world clock x.key w
  rw [outcome, hadm] at h
  rw [execute_eq]
  cases result with
  | error e => cases h
  | ok u =>
    have hdown : x.downstream x.req (BruteForceProtector.entered clock x.key w) = (out, w') :=
      Option.some.inj h
    refine ⟨?_, ?_, ?_⟩
    · rw [Act.bind_ok _ hadm]
      refine Act.bind_ok _ ?_
      rw [Act.attempt, hdown]
    · have hrows := x.rows_kept x.req (BruteForceProtector.entered clock x.key w)
      rwa [← downstream, hdown] at hrows
    · have hcalls := x.calls_le x.req (BruteForceProtector.entered clock x.key w)
      rwa [← downstream, hdown] at hcalls

theorem calls_execute (w : GuardWorld α) : w.calls ≤ (x.execute w).2.calls := by
  cases h : x.outcome w with
  | none =>
    rw [x.outcome_none h]
    exact Nat.le_add_right _ _
  | some o =>
    obtain ⟨hexec, -, hcalls⟩ := x.outcome_some h
    have hle := (g.conclude_run clock x.key o.1 o.2).2
    rw [hexec]
    omega

/-- A failure is recorded in the course of the request. -/
theorem failureTime_between {w : GuardWorld α} (h : x.failureTime w = some t) :
    clock.read w.calls ≤ t ∧ t ≤ clock.read (x.execute w).2.calls := by
  obtain ⟨⟨out, w'⟩, ho, ht⟩ := Option.bind_eq_some_iff.1 h
  obtain ⟨hexec, -, hcalls⟩ := x.outcome_some ho
  have hle := (g.conclude_run clock x.key out w').2
  rw [hexec]
  split at ht
  · next hf =>
    cases ht
    rw [if_pos hf] at hle
    exact ⟨clock.mono (Nat.le_of_add_right_le hcalls), clock.mono (Nat.le_of_add_right_le hle)⟩
  · cases ht

theorem get?_checked_of_ne (hk : k ≠ x.key) (w : GuardWorld α) :
    (BruteForceProtector.checked clock x.key w).get? k = w.rows.get? k := by
  rw [BruteForceProtector.checked]
  split
  · rfl
  · split
    · rw [Dict.get?_erase, if_neg hk]
    · rfl

/-- For another key a request does no more than delete its row, and only a row that is old. -/
theorem get?_execute_of_ne (hk : k ≠ x.key) (w : GuardWorld α) :
    (x.execute w).2.rows.get? k =
      match x.failureTime w with
      | none => w.rows.get? k
      | some t => (w.rows.get? k).filter fun row => !decide (row.updatedAt < t - g.retention) := by
  cases h : x.outcome w with
  | none =>
    rw [x.outcome_none h, failureTime, h]
    exact x.get?_checked_of_ne hk w
  | some o =>
    obtain ⟨out, w'⟩ := o
    obtain ⟨hexec, hrows, -⟩ := x.outcome_some h
    rw [hexec, (g.conclude_run clock x.key out w').1, BruteForceProtector.concluded, failureTime, h,
      Option.bind_some, hrows]
    split
    · rw [BruteForceProtector.pruned, Dict.get?_filter, Dict.get?_set, if_neg hk,
        x.get?_checked_of_ne hk]
    · split
      · rw [Dict.get?_erase, if_neg hk, x.get?_checked_of_ne hk]
      · rw [x.get?_checked_of_ne hk]

/-- After a failure the row of the key counts one more. -/
theorem get?_execute_of_failure {w : GuardWorld α} (h : x.failureTime w = some t) :
    (x.execute w).2.rows.get? x.key =
      some (g.failedRow ((BruteForceProtector.checked clock x.key w).get? x.key) t) := by
  obtain ⟨⟨out, w'⟩, ho, ht⟩ := Option.bind_eq_some_iff.1 h
  obtain ⟨hexec, hrows, -⟩ := x.outcome_some ho
  split at ht
  · next hf =>
    cases ht
    rw [hexec, (g.conclude_run clock x.key out w').1, BruteForceProtector.concluded, if_pos hf,
      hrows, g.get?_recorded]
  · cases ht

/-- The downstream has ended in a way that deletes the row: in a response or an `HTTPError` with a
status that is not one of a failure. -/
def Clears (w : GuardWorld α) : Prop :=
  ∃ out w', x.outcome w = some (out, w') ∧ g.isCleared out = true

theorem rows_execute_of_idle {w : GuardWorld α} (h : x.failureTime w = none) (hc : ¬ x.Clears w) :
    (x.execute w).2.rows = BruteForceProtector.checked clock x.key w := by
  cases ho : x.outcome w with
  | none =>
    rw [x.outcome_none ho]
    rfl
  | some o =>
    obtain ⟨out, w'⟩ := o
    obtain ⟨hexec, hrows, -⟩ := x.outcome_some ho
    rw [failureTime, ho, Option.bind_some] at h
    have hf : ¬ g.isFailure out = true := by
      intro hf
      rw [if_pos hf] at h
      cases h
    have hcleared : ¬ g.isCleared out = true := fun hout => hc ⟨out, w', ho, hout⟩
    rw [hexec, (g.conclude_run clock x.key out w').1, BruteForceProtector.concluded, if_neg hf,
      if_neg hcleared, hrows]

theorem get?_execute_of_clears {w : GuardWorld α} (h : x.Clears w) :
    (x.execute w).2.rows.get? x.key = none := by
  obtain ⟨out, w', ho, hc⟩ := h
  have hf : ¬ g.isFailure out = true := fun hf => g.not_isCleared hf hc
  rw [(x.outcome_some ho).1, (g.conclude_run clock x.key out w').1, BruteForceProtector.concluded,
    if_neg hf, if_pos hc, Dict.get?_erase, if_pos rfl]

/-- Where nothing has failed, the row of the key is gone or as it was. -/
theorem get?_execute_of_not_failure {w : GuardWorld α} (h : x.failureTime w = none) :
    (x.execute w).2.rows.get? x.key = none ∨
      (x.execute w).2.rows.get? x.key = w.rows.get? x.key := by
  by_cases hc : x.Clears w
  · exact .inl (x.get?_execute_of_clears hc)
  · rw [x.rows_execute_of_idle h hc, BruteForceProtector.checked]
    split
    · exact .inr rfl
    · split
      · exact .inl (by rw [Dict.get?_erase, if_pos rfl])
      · exact .inr rfl

end GuardedRequest

open BruteForceProtector

/-- The rows that failures leave. -/
def RowsOk (g : BruteForceProtector) (w : GuardWorld α) : Prop :=
  ∀ k row, w.rows.get? k = some row → 0 < row.attempts ∧
    row.blockedUntil = if g.maxAttempts ≤ row.attempts then row.updatedAt + g.blockSeconds else 0

section

variable {g : BruteForceProtector} {clock : Clock} {α : Type}

theorem rowsOk_step {w : GuardWorld α} (h : RowsOk g w) (x : GuardedRequest g clock α) :
    RowsOk g (x.execute w).2 := by
  intro k row hrow
  by_cases hk : k = x.key
  · subst hk
    cases hf : x.failureTime w with
    | none =>
      rcases x.get?_execute_of_not_failure hf with hnone | hsame
      · rw [hnone] at hrow
        cases hrow
      · rw [hsame] at hrow
        exact h _ row hrow
    | some t =>
      rw [x.get?_execute_of_failure hf] at hrow
      cases hrow
      refine ⟨?_, rfl⟩
      have hpos : ∀ row', (checked clock x.key w).get? x.key = some row' → 0 < row'.attempts := by
        intro row' hrow'
        rw [checked] at hrow'
        split at hrow'
        · next hn =>
          rw [hn] at hrow'
          cases hrow'
        · split at hrow'
          · rw [Dict.get?_erase, if_pos rfl] at hrow'
            cases hrow'
          · exact (h _ row' hrow').1
      rw [failedRow]
      cases hc : (checked clock x.key w).get? x.key with
      | none => exact Int.zero_lt_one
      | some row' => exact Int.lt_add_one_of_le (hpos row' hc).le
  · rw [x.get?_execute_of_ne hk] at hrow
    split at hrow
    · exact h k row hrow
    · exact h k row (Option.filter_eq_some_iff.1 hrow).1

/-- The times at which failures of the key are recorded in some steps. -/
def failureTimes (k : Str) (l : List (GuardWorld α × GuardedRequest g clock α)) : List ℚ :=
  l.filterMap fun y => if y.2.key = k then y.2.failureTime y.1 else none

/-- The requests with the key in some steps have failed or been rejected, none of them after a
block was over, and the failures come often enough. -/
structure Unbroken (k : Str) (l : List (GuardWorld α × GuardedRequest g clock α)) : Prop where
  outcomes : ∀ y ∈ l, y.2.key = k →
    y.2.outcome y.1 = none ∨ ∃ t, y.2.failureTime y.1 = some t
  unexpired : ∀ y ∈ l, y.2.key = k → ∀ row, y.1.rows.get? k = some row →
    ¬ expired row (clock.read y.1.calls)
  frequent : ∀ before t t' after, failureTimes k l = before ++ t :: t' :: after →
    t' - t < g.retention

/-- The same for requests that may also have ended in other exceptions than an `HTTPError`. -/
structure Uncleared (k : Str) (l : List (GuardWorld α × GuardedRequest g clock α)) : Prop where
  outcomes : ∀ y ∈ l, y.2.key = k → ¬ y.2.Clears y.1
  unexpired : ∀ y ∈ l, y.2.key = k → ∀ row, y.1.rows.get? k = some row →
    ¬ expired row (clock.read y.1.calls)
  frequent : ∀ before t t' after, failureTimes k l = before ++ t :: t' :: after →
    t' - t < g.retention

theorem not_clears_of_failureTime {w : GuardWorld α} {x : GuardedRequest g clock α}
    (h : x.failureTime w = some t) : ¬ x.Clears w := by
  rintro ⟨out, w', ho, hc⟩
  rw [GuardedRequest.failureTime, ho, Option.bind_some] at h
  split at h
  · next hf => exact g.not_isCleared hf hc
  · cases h

theorem Unbroken.uncleared {l : List (GuardWorld α × GuardedRequest g clock α)}
    (h : Unbroken k l) : Uncleared k l where
  outcomes y hy hk := by
    rcases h.outcomes y hy hk with hnone | ⟨t, ht⟩
    · rintro ⟨out, w', ho, -⟩
      rw [hnone] at ho
      cases ho
    · exact not_clears_of_failureTime ht
  unexpired := h.unexpired
  frequent := h.frequent

theorem failureTimes_concat (k : Str) (l : List (GuardWorld α × GuardedRequest g clock α))
    (y : GuardWorld α × GuardedRequest g clock α) :
    failureTimes k (l ++ [y]) = failureTimes k l ++ failureTimes k [y] :=
  List.filterMap_append

theorem Uncleared.left {l l' : List (GuardWorld α × GuardedRequest g clock α)}
    (h : Uncleared k (l ++ l')) : Uncleared k l where
  outcomes y hy := h.outcomes y (List.mem_append_left _ hy)
  unexpired y hy := h.unexpired y (List.mem_append_left _ hy)
  frequent before t t' after he := by
    refine h.frequent before t t' (after ++ failureTimes k l') ?_
    rw [failureTimes, List.filterMap_append, ← failureTimes, he, ← failureTimes]
    simp

/-- The row of the key counts the failures at these times, unless it is too old and deleted. -/
def Counted (g : BruteForceProtector) (clock : Clock) (k : Str) (times : List ℚ)
    (w : GuardWorld α) : Prop :=
  ∀ s, times.getLast? = some s →
    (∃ row, w.rows.get? k = some row ∧ times.length ≤ row.attempts ∧ row.updatedAt = s) ∨
      w.rows.get? k = none ∧ s + g.retention < clock.read w.calls

theorem counted_of_ne {w : GuardWorld α} (h : Counted g clock k times w)
    (x : GuardedRequest g clock α) (hk : k ≠ x.key) : Counted g clock k times (x.execute w).2 := by
  intro s hs
  have hmono := clock.mono (x.calls_execute w)
  rw [x.get?_execute_of_ne hk]
  rcases h s hs with ⟨row, hrow, hcount, hat⟩ | ⟨hnone, hold⟩
  · cases hf : x.failureTime w with
    | none => exact .inl ⟨row, hrow, hcount, hat⟩
    | some t =>
      have ht := (x.failureTime_between hf).2
      by_cases hdel : row.updatedAt < t - g.retention
      · refine .inr ⟨?_, by linarith⟩
        simp only [hrow, Option.filter_some, hdel, decide_true, Bool.not_true, Bool.false_eq_true,
          ↓reduceIte]
      · refine .inl ⟨row, ?_, hcount, hat⟩
        simp only [hrow, Option.filter_some, hdel, decide_false, Bool.not_false, ↓reduceIte]
  · refine .inr ⟨?_, by linarith⟩
    split
    · exact hnone
    · rw [hnone]
      rfl

theorem checked_of_unexpired {w : GuardWorld α}
    (h : ∀ row, w.rows.get? k = some row → ¬ expired row (clock.read w.calls)) :
    checked clock k w = w.rows := by
  rw [checked]
  split
  · rfl
  · next row hrow => exact if_neg (h row hrow)

theorem counted_step {w : GuardWorld α} {l : List (GuardWorld α × GuardedRequest g clock α)}
    {x : GuardedRequest g clock α} (hc : Counted g clock k (failureTimes k l) w) (hok : RowsOk g w)
    (hu : Uncleared k (l ++ [(w, x)])) :
    Counted g clock k (failureTimes k (l ++ [(w, x)])) (x.execute w).2 := by
  have hmem : (w, x) ∈ l ++ [(w, x)] := by simp
  have hfreq := hu.frequent
  rw [failureTimes_concat] at hfreq ⊢
  by_cases hk : x.key = k
  · have hunexp : ∀ row, w.rows.get? k = some row → ¬ expired row (clock.read w.calls) :=
      hu.unexpired (w, x) hmem hk
    cases ht : x.failureTime w with
    | none =>
      have hno : failureTimes k [(w, x)] = [] := by simp [failureTimes, hk, ht]
      have hrows := x.rows_execute_of_idle ht (hu.outcomes (w, x) hmem hk)
      rw [hk, checked_of_unexpired hunexp] at hrows
      rw [hno, List.append_nil]
      intro s hs
      rw [hrows]
      refine (hc s hs).imp_right fun h => ⟨h.1, h.2.trans_le ?_⟩
      exact clock.mono (x.calls_execute w)
    | some t =>
      have hone : failureTimes k [(w, x)] = [t] := by simp [failureTimes, hk, ht]
      rw [hone] at hfreq ⊢
      intro s hs
      rw [List.getLast?_concat, Option.some.injEq] at hs
      subst hs
      refine .inl ⟨_, hk ▸ x.get?_execute_of_failure ht, ?_, rfl⟩
      rw [checked_of_unexpired hunexp, List.length_append, List.length_singleton]
      rcases List.eq_nil_or_concat (failureTimes k l) with hnil | ⟨times, s, hs⟩
      · rw [hnil, failedRow]
        cases hrow : w.rows.get? k with
        | none => exact le_rfl
        | some row =>
          have hpos := (hok k row hrow).1
          simp only [Option.map_some, Option.getD_some, List.length_nil]
          omega
      · rw [List.concat_eq_append] at hs
        have hlast : (failureTimes k l).getLast? = some s := by rw [hs, List.getLast?_concat]
        have hgap : t - s < g.retention := hfreq times s t [] (by rw [hs]; simp)
        rcases hc s hlast with ⟨row, hrow, hcount, hat⟩ | ⟨hnone, hold⟩
        · rw [hrow, failedRow]
          simp only [Option.map_some, Option.getD_some]
          push_cast
          omega
        · have hbetween := (x.failureTime_between ht).1
          linarith
  · have hno : failureTimes k [(w, x)] = [] := by simp [failureTimes, hk]
    rw [hno, List.append_nil]
    exact counted_of_ne hc x fun he => hk he.symm

/-- Along a run the failures since the row was last deleted are counted. -/
theorem counted_run {w w' : GuardWorld α} {l : List (GuardWorld α × GuardedRequest g clock α)}
    (h : Run GuardedRequest.step w l w') (hok : RowsOk g w) (hu : Uncleared k l) :
    Counted g clock k (failureTimes k l) w' ∧ RowsOk g w' := by
  induction h with
  | nil => exact ⟨fun s hs => (by cases hs), hok⟩
  | @snoc l t x u _ hstep ih =>
    obtain ⟨hc, hok'⟩ := ih hu.left
    cases hstep
    exact ⟨counted_step hc hok' hu, rowsOk_step hok' x⟩

theorem rowsOk_run {w w' : GuardWorld α} {l : List (GuardWorld α × GuardedRequest g clock α)}
    (h : Run GuardedRequest.step w l w') (hok : RowsOk g w) : RowsOk g w' :=
  h.invariant hok fun y _ u hy hstep => by
    cases hstep
    exact rowsOk_step hy y.2

/-- The key is rejected, and the downstream not called. -/
def Rejected (x : GuardedRequest g clock α) (w : GuardWorld α) : Prop :=
  x.outcome w = none ∧ ∃ err, (x.execute w).1 = .error (.http err) ∧ err.status = 403

/-- The downstream is called with nothing counted for the key: a failure is the first one. -/
def Restarted (x : GuardedRequest g clock α) (w : GuardWorld α) : Prop :=
  (∃ w', x.outcome w = some (x.downstream x.req w') ∧ w'.app = w.app ∧
    w'.rows.get? x.key = none) ∧
  ∀ t, x.failureTime w = some t →
    ((x.execute w).2.rows.get? x.key).map AttemptRow.attempts = some 1

theorem rejected_of_blocked {w : GuardWorld α} {x : GuardedRequest g clock α}
    (h : w.rows.get? x.key = some row) (hnow : clock.read (w.calls + 1) < row.blockedUntil) :
    Rejected x w := by
  have hadm := g.admission_blocked h hnow
  constructor
  · rw [GuardedRequest.outcome, hadm]
  · refine ⟨blockedError row.blockedUntil (clock.read (w.calls + 1)), ?_, rfl⟩
    rw [x.execute_eq, Act.bind_error _ hadm]

theorem restarted_of_fresh {w : GuardWorld α} {x : GuardedRequest g clock α}
    (h : ∀ row, w.rows.get? x.key = some row → expired row (clock.read w.calls)) :
    Restarted x w := by
  obtain ⟨hadm, hnone⟩ := g.admission_fresh h
  constructor
  · refine ⟨entered clock x.key w, ?_, rfl, hnone⟩
    rw [GuardedRequest.outcome, hadm]
  · intro t ht
    rw [x.get?_execute_of_failure ht, hnone]
    rfl

/-- The row that the last of enough failures has left. -/
theorem blocked_row {w : GuardWorld α} (hc : Counted g clock k times w) (hok : RowsOk g w)
    (henough : max 1 g.maxAttempts ≤ times.length) (hs : times.getLast? = some s) :
    (∃ row, w.rows.get? k = some row ∧ row.blockedUntil = s + g.blockSeconds) ∨
      w.rows.get? k = none ∧ s + g.retention < clock.read w.calls := by
  refine (hc s hs).imp_left ?_
  rintro ⟨row, hrow, hcount, rfl⟩
  refine ⟨row, hrow, ?_⟩
  rw [(hok k row hrow).2, if_pos (by omega)]

/-- The key is rejected while its block lasts, also when the row has been deleted by then. -/
theorem rejected_of_counted {w : GuardWorld α} {x : GuardedRequest g clock α}
    (hc : Counted g clock x.key times w) (hok : RowsOk g w)
    (henough : max 1 g.maxAttempts ≤ times.length) (hs : times.getLast? = some s)
    (hnow : clock.read (w.calls + 1) < s + g.blockSeconds) : Rejected x w := by
  rcases blocked_row hc hok henough hs with ⟨row, hrow, huntil⟩ | ⟨hnone, hold⟩
  · exact rejected_of_blocked hrow (huntil ▸ hnow)
  · have hblock := g.blockSeconds_le_retention
    have hmono := clock.mono (Nat.le_succ w.calls)
    exact absurd hnow (not_lt.2 (by linarith))

/-- After as many failures as it takes a key is blocked for the time of a block, and then starts
afresh; and requests with other keys do nothing to its row but delete it when it is old. -/
theorem blocked_after_failures (g : BruteForceProtector) (clock : Clock) {w₀ w : GuardWorld α}
    {l : List (GuardWorld α × GuardedRequest g clock α)}
    (h : Run GuardedRequest.step { w₀ with rows := ∅ } l w) (k : Str) :
    (∀ (l' : List (GuardWorld α × GuardedRequest g clock α)) w' s,
      Run GuardedRequest.step w l' w' → Unbroken k l' →
      max 1 g.maxAttempts ≤ (failureTimes k l').length → (failureTimes k l').getLast? = some s →
      ∀ x : GuardedRequest g clock α, x.key = k →
        (clock.read (w'.calls + 1) < s + g.blockSeconds → Rejected x w') ∧
        (s + g.blockSeconds ≤ clock.read w'.calls → s + g.blockSeconds ≠ 0 → Restarted x w')) ∧
    ∀ x : GuardedRequest g clock α, x.key ≠ k →
      (w.rows.get? k = none → (x.execute w).2.rows.get? k = none) ∧
      ∀ row, w.rows.get? k = some row →
        clock.read (x.execute w).2.calls ≤ row.updatedAt + g.retention ∨
          clock.read (x.execute w).2.calls < row.blockedUntil →
        (x.execute w).2.rows.get? k = some row := by
  have hempty : RowsOk g { w₀ with rows := ∅ } := fun k row hrow => by cases hrow
  have hok : RowsOk g w := rowsOk_run h hempty
  constructor
  · rintro l' w' s h' hu henough hs x rfl
    obtain ⟨hc, hok'⟩ := counted_run h' hok hu.uncleared
    refine ⟨rejected_of_counted hc hok' henough hs, fun hnow h0 => ?_⟩
    refine restarted_of_fresh fun row' hrow' => ?_
    rcases blocked_row hc hok' henough hs with ⟨row, hrow, huntil⟩ | ⟨hnone, -⟩
    · rw [hrow] at hrow'
      cases hrow'
      exact ⟨huntil ▸ h0, huntil ▸ hnow⟩
    · rw [hnone] at hrow'
      cases hrow'
  · intro x hk
    rw [x.get?_execute_of_ne (Ne.symm hk)]
    constructor
    · intro hnone
      split
      · exact hnone
      · rw [hnone]
        rfl
    · intro row hrow htime
      cases hf : x.failureTime w with
      | none => exact hrow
      | some t =>
        have ht := (x.failureTime_between hf).2
        have hkeep : ¬ row.updatedAt < t - g.retention := by
          rcases htime with hold | hblock
          · linarith
          · have huntil := (hok k row hrow).2
            split at huntil
            · have hle := g.blockSeconds_le_retention
              linarith
            · have hnonneg := clock.read_nonneg (x.execute w).2.calls
              linarith
        simp only [hrow, Option.filter_some, hkeep, decide_false, Bool.not_false, ↓reduceIte]

/-- A login that fails. -/
def failedLogin (g : BruteForceProtector) (clock : Clock) : GuardedRequest g clock Unit where
  router :=
    { routes := [], middlewares := [g.middleware clock], openapi := fun _ => throw .clientClosed }
  req := plainRequest "POST".toList
  handler := fun _ => throw (.httpError 401 "Unauthorized")
  routeMiddlewares := []
  rest := []
  chain := rfl
  rows_kept _ _ := rfl
  calls_le _ _ := Nat.le_refl _

/-- One failure on an empty table is a series. -/
theorem unbroken_one :
    let g : BruteForceProtector := ⟨1, 60, fun _ => [], 2, 16, [401, 403]⟩
    let clock : Clock := ⟨fun n => n, Nat.mono_cast, le_rfl⟩
    let w₀ : GuardWorld Unit := ⟨∅, 0, ()⟩
    Unbroken [] [(w₀, failedLogin g clock)] ∧ failureTimes [] [(w₀, failedLogin g clock)] =
      [2] := by
  intro g clock w₀
  have htimes : failureTimes [] [(w₀, failedLogin g clock)] = [2] := rfl
  refine ⟨⟨fun y hy _ => ?_, fun y hy _ row hrow => ?_, fun before t t' after he => ?_⟩, htimes⟩
  · rw [List.mem_singleton.1 hy]
    exact .inr ⟨2, rfl⟩
  · rw [List.mem_singleton.1 hy] at hrow
    cases hrow
  · have hlen := congrArg List.length he
    simp [htimes] at hlen
    omega

/-- After one failure of one the next login is rejected. -/
theorem blocked_after_failures_one :
    let g : BruteForceProtector := ⟨1, 60, fun _ => [], 2, 16, [401, 403]⟩
    let clock : Clock := ⟨fun n => n, Nat.mono_cast, le_rfl⟩
    let w₀ : GuardWorld Unit := ⟨∅, 0, ()⟩
    Rejected (failedLogin g clock) ((failedLogin g clock).execute w₀).2 := by
  intro g clock w₀
  have hrun : Run GuardedRequest.step w₀ [(w₀, failedLogin g clock)]
      ((failedLogin g clock).execute w₀).2 := .snoc .nil rfl
  obtain ⟨hu, htimes⟩ := unbroken_one
  have hempty : Run (@GuardedRequest.step g clock Unit) { w₀ with rows := ∅ } [] w₀ := .nil
  have hall := blocked_after_failures g clock hempty []
  exact (hall.1 _ _ 2 hrun hu (by decide) (by rw [htimes]; rfl) (failedLogin g clock) rfl).1
    (by decide +kernel)

end

end Sovereign
