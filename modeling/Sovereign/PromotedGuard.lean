import Sovereign.BruteForce
import Sovereign.Lib.Run

namespace Sovereign
set_option autoImplicit true

/-- One call of `build` in `Router.execute_async`: the function around the rest of the chain. -/
def around (mw : Middleware σ) (inner : Endpoint σ) : Endpoint σ := fun r => do
  let result ← mw.call r (coroutineFunction inner)
  let result ← if mw.isCoroutineFunction then result.await else pure result
  result.settle

theorem runner_append (outer chain : List (Middleware σ)) (handler : Endpoint σ) :
    runner (outer ++ chain) handler = outer.foldr around (runner chain handler) := by
  induction outer with
  | nil => rfl
  | cons mw outer ih =>
    rw [List.cons_append, List.foldr_cons, ← ih]
    rfl

/-- What stands behind a protector in the chain of an asynchronous server. It does not write to the
row of the request. -/
structure Promoted (g : BruteForceProtector) (α : Type) where
  rest : List (Middleware (GuardWorld α))
  handler : Endpoint (GuardWorld α)
  row_kept : ∀ req w,
    (runner rest handler req w).2.rows.get? (g.keyFunc req) = w.rows.get? (g.keyFunc req)

namespace Promoted

open BruteForceProtector

variable {g : BruteForceProtector} {clock : Clock} {α : Type} (x : Promoted g α)

/-- The protector with all that stands behind it. -/
def stage (clock : Clock) : Endpoint (GuardWorld α) :=
  runner (g.middleware clock :: x.rest) x.handler

/-- What `call_next` gives the protector. -/
def next (req : Request) : Val (GuardWorld α) := .awaitable (runner x.rest x.handler req)

/-- What the protector does before its result is awaited. -/
def guard (clock : Clock) (req : Request) : Act (GuardWorld α) (Val (GuardWorld α)) := do
  g.admission clock (g.keyFunc req)
  g.conclude clock (g.keyFunc req) (.ok (x.next req))

/-- What the downstream returns or raises, if it is awaited, and the state it leaves. -/
def outcome (clock : Clock) (req : Request) (w : GuardWorld α) :
    Option (Except Exc (Val (GuardWorld α)) × GuardWorld α) :=
  match x.guard clock req w with
  | (.ok result, w') => some (result.settle w')
  | (.error _, _) => none

theorem stage_eq (req : Request) (w : GuardWorld α) :
    x.stage clock req w = (x.guard clock req >>= Val.settle) w := rfl

/-- The protector hands on the awaitable that it was given, or raises. -/
theorem conclude_next (req : Request) (key : Str) {w w' : GuardWorld α}
    (h : g.conclude clock key (.ok (x.next req)) w = (.ok result, w')) : result = x.next req := by
  by_cases hs : (x.next req).status ∈ g.failureStatuses
  · obtain ⟨⟨attempts, blockedUntil⟩, hrecord⟩ := g.recordFailure_run clock key w
    simp only [conclude, hs, ↓reduceIte] at h
    rw [Act.bind_ok _ hrecord, Act.bind_ok _ (now_run clock _)] at h
    split at h
    · cases h
    · cases h
      rfl
  · simp only [conclude, hs, ↓reduceIte] at h
    cases h
    rfl

theorem guard_ok {w w' : GuardWorld α} (h : x.guard clock req w = (.ok result, w')) :
    result = x.next req ∧
      w'.rows = g.concluded clock (g.keyFunc req) (.ok (x.next req))
        (entered clock (g.keyFunc req) w) := by
  obtain ⟨out, hadm⟩ := g.admission_world clock (g.keyFunc req) w
  rw [guard] at h
  cases out with
  | error e =>
    rw [Act.bind_error _ hadm] at h
    cases h
  | ok u =>
    rw [Act.bind_ok _ hadm] at h
    have hrows := (g.conclude_run clock (g.keyFunc req) (.ok (x.next req))
      (entered clock (g.keyFunc req) w)).1
    rw [h] at hrows
    exact ⟨x.conclude_next req _ h, hrows⟩

theorem outcome_some {w : GuardWorld α} (h : x.outcome clock req w = some (out, w')) :
    x.stage clock req w = (out, w') ∧ ∃ w₁, x.guard clock req w = (.ok (x.next req), w₁) ∧
      runner x.rest x.handler req w₁ = (out, w') := by
  rw [outcome] at h
  rw [stage_eq]
  rcases hg : x.guard clock req w with ⟨e | result, w₁⟩
  · rw [hg] at h
    cases h
  · rw [hg] at h
    obtain ⟨rfl, -⟩ := x.guard_ok hg
    rw [Act.bind_ok _ hg]
    exact ⟨Option.some.inj h, w₁, rfl, Option.some.inj h⟩

/-- An awaitable passes for a response with the status 200, whatever it will come to. -/
theorem row_outcome {w : GuardWorld α} (h : x.outcome clock req w = some (out, w')) :
    (x.stage clock req w).2.rows.get? (g.keyFunc req) =
      if 200 ∈ g.failureStatuses then
        some (g.failedRow ((checked clock (g.keyFunc req) w).get? (g.keyFunc req))
          (clock.read (w.calls + 2)))
      else none := by
  obtain ⟨hstage, w₁, hguard, hrun⟩ := x.outcome_some h
  have hkept := x.row_kept req w₁
  have hstatus : (x.next req).status = 200 := rfl
  rw [hrun] at hkept
  rw [hstage, hkept, (x.guard_ok hguard).2, concluded, isFailure, isCleared, hstatus]
  by_cases hs : (200 : Int) ∈ g.failureStatuses
  · rw [if_pos (decide_eq_true hs), if_pos hs, g.get?_recorded]
    rfl
  · rw [if_neg (by simp [hs]), if_pos (by simp [hs]), if_neg hs, Dict.get?_erase, if_pos rfl]

/-- The status of an outcome, a response or an `HTTPError`, is one of a failure. -/
def Failed (g : BruteForceProtector) : Except Exc (Val (GuardWorld α)) → Prop
  | .error (.http exc) => exc.status ∈ g.failureStatuses
  | .ok (.result resp) => resp.status ∈ g.failureStatuses
  | _ => False

/-- The downstream has failed. -/
def HasFailed (clock : Clock) (req : Request) (w : GuardWorld α) : Prop :=
  ∃ out w', x.outcome clock req w = some (out, w') ∧ Failed g out

/-- The attempts of the key are one more than they stood at, and the row has not been deleted. -/
def Counted (clock : Clock) (req : Request) (w : GuardWorld α) : Prop :=
  ((x.stage clock req w).2.rows.get? (g.keyFunc req)).map AttemptRow.attempts =
    some ((standing clock (g.keyFunc req) w).1 + 1)

theorem counted_iff_of_failed {w : GuardWorld α} (h : x.HasFailed clock req w) :
    x.Counted clock req w ↔ 200 ∈ g.failureStatuses := by
  obtain ⟨out, w', hout, -⟩ := h
  rw [Counted, x.row_outcome hout, standing_attempts]
  split
  · next hs => exact iff_of_true rfl hs
  · next hs =>
    rw [Option.map_none]
    exact iff_of_false (fun h => by cases h) hs

end Promoted

/-- What happens at a server with the protector: a request comes to it, in any of the chains it
stands in, or other code runs. -/
inductive GuardEvent (g : BruteForceProtector) (α : Type) where
  | visit (x : Promoted g α) (req : Request)
  | other (run : GuardWorld α → GuardWorld α)

def GuardEvent.step (clock : Clock) (w : GuardWorld α) :
    GuardEvent g α → Option (GuardWorld α)
  | visit x req => some (x.stage clock req w).2
  | other run => some (run w)

/-- A request whose downstream has failed. -/
def GuardEvent.HasFailed (clock : Clock) (w : GuardWorld α) : GuardEvent g α → Prop
  | visit x req => x.HasFailed clock req w
  | other _ => False

/-- If the downstream has failed, that is counted. -/
def GuardEvent.Counts (clock : Clock) (w : GuardWorld α) : GuardEvent g α → Prop
  | visit x req => x.HasFailed clock req w → x.Counted clock req w
  | other _ => True

theorem GuardEvent.counts_iff (event : GuardEvent g α) (w : GuardWorld α) :
    event.Counts clock w ↔ 200 ∈ g.failureStatuses ∨ ¬ event.HasFailed clock w := by
  cases event with
  | visit x req =>
    constructor
    · intro hcounts
      by_cases hf : x.HasFailed clock req w
      · exact .inl ((x.counted_iff_of_failed hf).1 (hcounts hf))
      · exact .inr hf
    · rintro (hs | hno) hf
      · exact (x.counted_iff_of_failed hf).2 hs
      · exact absurd hf hno
  | other run => exact iff_of_true trivial (.inr id)

/-- Wherever a protector stands in the chains of an asynchronous server, the failures behind it are
counted in a run just if the status 200 is one of those that count, or none occurs. -/
theorem countedAsync_iff (g : BruteForceProtector) (clock : Clock) (w₀ : GuardWorld α) :
    (∀ (x : Promoted g α) (router : Router (GuardWorld α)) routeMiddlewares outer,
      router.middlewares ++ routeMiddlewares = outer ++ g.middleware clock :: x.rest →
      ∀ req, router.executeAsync req x.handler routeMiddlewares =
        outer.foldr around (x.stage clock) req) ∧
    ∀ l w, Run (GuardEvent.step (g := g) clock) w₀ l w →
      ((∀ y ∈ l, y.2.Counts clock y.1) ↔
        200 ∈ g.failureStatuses ∨ ∀ y ∈ l, ¬ y.2.HasFailed clock y.1) := by
  constructor
  · intro x router routeMiddlewares outer hchain req
    rw [Router.executeAsync, hchain, runner_append]
    rfl
  · intro l w _
    constructor
    · intro hall
      by_cases hs : (200 : Int) ∈ g.failureStatuses
      · exact .inl hs
      · exact .inr fun y hy => ((y.2.counts_iff y.1).1 (hall y hy)).resolve_left hs
    · rintro (hs | hno) y hy
      · exact (y.2.counts_iff y.1).2 (.inl hs)
      · exact (y.2.counts_iff y.1).2 (.inr (hno y hy))

/-- A login on an asynchronous server that fails. -/
def failedLoginAsync (g : BruteForceProtector) : Promoted g Unit where
  rest := []
  handler := coroutineFunction fun _ => throw (.httpError 401 "Unauthorized")
  row_kept _ _ := rfl

/-- The default protector deletes what it has counted when a login fails. -/
theorem not_counted_async :
    let g : BruteForceProtector := ⟨5, 900, fun _ => [], 2, 16, [401, 403]⟩
    let clock : Clock := ⟨fun n => n, Nat.mono_cast, le_rfl⟩
    let w : GuardWorld Unit := ⟨(∅ : Dict Str AttemptRow).set [] ⟨4, 0, 0⟩, 0, ()⟩
    let x := failedLoginAsync g
    let req := plainRequest "POST".toList
    let stage := ({ routes := [], middlewares := [g.middleware clock],
                    openapi := fun _ => throw .clientClosed } : Router _).executeAsync
                    req x.handler []
    stage w = x.stage clock req w ∧ (stage w).1 = .error (.httpError 401 "Unauthorized") ∧
      x.HasFailed clock req w ∧ (stage w).2.rows.get? [] = none ∧ ¬ x.Counted clock req w := by
  intro g clock w x req stage
  have hf : x.HasFailed clock req w := ⟨_, _, rfl, List.mem_cons_self⟩
  refine ⟨rfl, rfl, hf, by decide +kernel, ?_⟩
  rw [x.counted_iff_of_failed hf]
  decide

end Sovereign
