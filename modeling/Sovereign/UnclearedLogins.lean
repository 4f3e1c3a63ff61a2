import Sovereign.LoginBlocks

namespace Sovereign
set_option autoImplicit true

open BruteForceProtector

variable {g : BruteForceProtector} {clock : Clock} {α : Type}

/-- The downstream has ended in a success: a response with a status below 400. -/
def Succeeds (x : GuardedRequest g clock α) (w : GuardWorld α) : Prop :=
  ∃ resp w', x.outcome w = some (.ok resp, w') ∧ resp.status < 400

/-- Failures are counted since the last outcome that is not one: a response or an `HTTPError` with
another status deletes the counter, and other exceptions leave it as it is. -/
theorem blocked_after_uncleared (g : BruteForceProtector) (clock : Clock) {w₀ w : GuardWorld α}
    {l : List (GuardWorld α × GuardedRequest g clock α)}
    (h : Run GuardedRequest.step { w₀ with rows := ∅ } l w) (k : Str) :
    (∀ (l' : List (GuardWorld α × GuardedRequest g clock α)) w' s,
      Run GuardedRequest.step w l' w' → Uncleared k l' →
      max 1 g.maxAttempts ≤ (failureTimes k l').length → (failureTimes k l').getLast? = some s →
      ∀ x : GuardedRequest g clock α, x.key = k →
        clock.read (w'.calls + 1) < s + g.blockSeconds → Rejected x w') ∧
    ∀ x : GuardedRequest g clock α, x.key = k → x.Clears w →
      (x.execute w).2.rows.get? k = none := by
  have hempty : RowsOk g { w₀ with rows := ∅ } := fun k row hrow => by cases hrow
  have hok : RowsOk g w := rowsOk_run h hempty
  constructor
  · rintro l' w' s h' hu henough hs x rfl hnow
    obtain ⟨hc, hok'⟩ := counted_run h' hok hu
    exact rejected_of_counted hc hok' henough hs hnow
  · rintro x rfl hc
    exact x.get?_execute_of_clears hc

/-- One failure of one on an empty table. -/
theorem blocked_after_uncleared_one :
    let g : BruteForceProtector := ⟨1, 60, fun _ => [], 2, 16, [401, 403]⟩
    let clock : Clock := ⟨fun n => n, Nat.mono_cast, le_rfl⟩
    let w₀ : GuardWorld Unit := ⟨∅, 0, ()⟩
    Rejected (failedLogin g clock) ((failedLogin g clock).execute w₀).2 := by
  intro g clock w₀
  have hrun : Run GuardedRequest.step w₀ [(w₀, failedLogin g clock)]
      ((failedLogin g clock).execute w₀).2 := .snoc .nil rfl
  obtain ⟨hu, htimes⟩ := unbroken_one
  have hempty : Run (@GuardedRequest.step g clock Unit) { w₀ with rows := ∅ } [] w₀ := .nil
  exact (blocked_after_uncleared g clock hempty []).1 _ _ 2 hrun hu.uncleared (by decide)
    (by rw [htimes]; rfl) (failedLogin g clock) rfl (by decide +kernel)

theorem raise_rows (status : Int) (req : Request) (w : GuardWorld Unit) :
    (build [] (fun _ => throw (.httpError status "")) req w).2.rows = w.rows := rfl

theorem raise_calls (status : Int) (req : Request) (w : GuardWorld Unit) :
    w.calls ≤ (build [] (fun _ => throw (.httpError status "")) req w).2.calls := le_refl w.calls

theorem guarded_chain (g : BruteForceProtector) (clock : Clock) :
    [(g.middleware clock : Middleware (GuardWorld Unit))] ++ [] = g.middleware clock :: [] := rfl

/-- A request whose handler raises an `HTTPError`. -/
def errorLogin (g : BruteForceProtector) (clock : Clock) (status : Int) :
    GuardedRequest g clock Unit where
  router :=
    { routes := [], middlewares := [g.middleware clock], openapi := fun _ => throw .clientClosed }
  req := plainRequest "POST".toList
  handler := fun _ => throw (.httpError status "")
  routeMiddlewares := []
  rest := []
  chain := guarded_chain g clock
  rows_kept := raise_rows status
  calls_le := raise_calls status

theorem errorLogin_not_succeeds (code : Int) (w : GuardWorld Unit) :
    ¬ Succeeds (errorLogin g clock code) w := by
  rintro ⟨resp, w', ho, -⟩
  rw [GuardedRequest.outcome] at ho
  split at ho
  · cases ho
  · cases ho

/-- Of failures with a 404 between them the first is forgotten, though nothing has succeeded. -/
theorem not_blocked_after_errors :
    let g : BruteForceProtector := ⟨2, 60, fun _ => [], 2, 16, [401, 403]⟩
    let clock : Clock := ⟨fun n => n, Nat.mono_cast, le_rfl⟩
    let w₀ : GuardWorld Unit := ⟨∅, 0, ()⟩
    let l := Run.trace GuardedRequest.step w₀
      [errorLogin g clock 401, errorLogin g clock 404, errorLogin g clock 401]
    ∃ w, Run GuardedRequest.step w₀ l w ∧ (∀ y ∈ l, y.2.key = [] ∧ ¬ Succeeds y.2 y.1) ∧
      (∀ y ∈ l, ((y.1.rows.get? []).all fun row => !decide (expired row (clock.read y.1.calls))) =
        true) ∧
      failureTimes [] l = [2, 8] ∧ g.maxAttempts = 2 ∧ 8 - 2 < g.retention ∧
      clock.read (w.calls + 1) < 8 + g.blockSeconds ∧
      ¬ Rejected (errorLogin g clock 401) w := by
  intro g clock w₀ l
  refine ⟨_, Run.of_foldlM _ _ _ rfl, ?_, by decide +kernel, by decide +kernel, rfl,
    by decide +kernel, by decide +kernel, ?_⟩
  · intro y hy
    have hx := Run.mem_of_mem_trace hy
    simp only [List.mem_cons, List.not_mem_nil, or_false] at hx
    rcases hx with hx | hx | hx
    all_goals
      rw [hx]
      exact ⟨rfl, errorLogin_not_succeeds _ _⟩
  · rintro ⟨hno, -⟩
    have hsome : (GuardedRequest.outcome (errorLogin g clock 401)
        ((errorLogin g clock 401).execute
          ((errorLogin g clock 404).execute ((errorLogin g clock 401).execute w₀).2).2).2).isSome =
        true := by decide +kernel
    rw [hno] at hsome
    cases hsome

end Sovereign
