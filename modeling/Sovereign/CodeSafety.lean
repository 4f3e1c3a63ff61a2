import Sovereign.Application
import Sovereign.Lib.Worlds

namespace Sovereign
set_option autoImplicit true

/-- Later is what has recorded more. -/
instance : Preorder (Ledger σ) where
  le l l' := l.log <+: l'.log
  le_refl _ := List.prefix_rfl
  le_trans _ _ _ h h' := h.trans h'

/-- A value whose awaitables keep what is good whenever they are awaited from `w` on. -/
inductive SafeVal (Good : Ledger σ → Prop) : Ledger σ → Val (Ledger σ) → Prop where
  | result : SafeVal Good w (.result resp)
  | awaitable :
    (∀ w', w ≤ w' → Good w' → w' ≤ (run w').2 ∧ Good (run w').2) →
    (∀ w' v, w ≤ w' → Good w' → (run w').1 = .ok v → SafeVal Good (run w').2 v) →
    SafeVal Good w (.awaitable run)

/-- Code that keeps what is good whenever it is run from `w` on. -/
abbrev Safely (Good : Ledger σ → Prop) (w : Ledger σ) (x : Act (Ledger σ) (Val (Ledger σ))) :
    Prop :=
  Worlds.Keeps Good (SafeVal Good) w x

section Safely

variable {Good : Ledger σ → Prop} {w w' : Ledger σ} {x : Act (Ledger σ) (Val (Ledger σ))}

theorem safeVal_awaitable : SafeVal Good w (.awaitable x) ↔ Safely Good w x := by
  constructor
  · intro h w' hle hgood
    cases h with
    | awaitable hkeeps hsafe =>
      obtain ⟨hle', hgood'⟩ := hkeeps w' hle hgood
      exact ⟨hle', hgood', fun v hv => hsafe w' v hle hgood hv⟩
  · intro h
    apply SafeVal.awaitable
    · intro w' hle hgood
      obtain ⟨hle', hgood', -⟩ := h w' hle hgood
      exact ⟨hle', hgood'⟩
    · intro w' v hle hgood hv
      exact (h w' hle hgood).2.2 v hv

theorem SafeVal.later (h : SafeVal Good w v) (hle : w ≤ w') : SafeVal Good w' v := by
  cases v with
  | result resp => exact .result
  | awaitable run => exact safeVal_awaitable.2 ((safeVal_awaitable.1 h).later hle)

theorem safely_awaitable (h : Safely Good w x) : Safely Good w (pure (.awaitable x)) := by
  apply Worlds.Keeps.pure
  intro v hle
  exact safeVal_awaitable.2 (h.later hle)

theorem await_safely (h : SafeVal Good w v) : Safely Good w v.await := by
  cases v with
  | result resp => exact .throw _
  | awaitable run => exact safeVal_awaitable.1 h

theorem settle_safely (h : SafeVal Good w v) : Safely Good w v.settle := by
  cases v with
  | result resp => exact .pure fun _ _ => .result
  | awaitable run => exact safeVal_awaitable.1 h

/-- A result keeps what is good if what computes it does. -/
theorem safely_result {y : Act (Ledger σ) HandlerResult}
    (h : Worlds.Keeps Good (fun _ _ => True) w y) : Safely Good w (Val.result <$> y) := by
  rw [map_eq_pure_bind]
  apply h.bind
  intro v resp _ _
  exact .pure fun _ _ => .result

theorem resume_safely {next : Except Exc HandlerResult → Act (Ledger σ) (Val (Ledger σ))}
    {held : Act (Ledger σ) (Val (Ledger σ)) → Act (Ledger σ) (Val (Ledger σ))}
    (hx : Safely Good w x) (hnext : ∀ out v, w ≤ v → Safely Good v (next out))
    (hheld : ∀ run v, w ≤ v → Safely Good v run → Safely Good v (held run)) :
    Safely Good w (fun l => resume (x l) next held) := by
  intro v hv hgood
  obtain ⟨hle, hgood', hsafe⟩ := hx v hv hgood
  have hw : w ≤ (x v).2 := le_trans hv hle
  have hcont : ∀ y, Safely Good (x v).2 y → v ≤ (y (x v).2).2 ∧ Good (y (x v).2).2 ∧
      ∀ a, (y (x v).2).1 = .ok a → SafeVal Good (y (x v).2).2 a := by
    intro y hy
    obtain ⟨hle', hrest⟩ := hy (x v).2 (le_refl _) hgood'
    exact ⟨le_trans hle hle', hrest⟩
  beta_reduce
  rcases hr : x v with ⟨e | value, s⟩
  · rw [hr] at hcont hw
    exact hcont (next (.error e)) (hnext (.error e) s hw)
  · rw [hr] at hcont hw hsafe
    cases value with
    | result resp => exact hcont (next (.ok resp)) (hnext (.ok resp) s hw)
    | awaitable run =>
      exact hcont (held run) (hheld run s hw (safeVal_awaitable.1 (hsafe _ rfl)))

/-- What application code may do by itself. -/
structure Allowed (Good : Ledger σ → Prop) : Prop where
  write : ∀ w s, Good w → Good { w with state := s }
  task : ∀ w call, Good w →
    Good { w with log := w.log ++ [.task call]
                  backgroundTasks := w.backgroundTasks ++ [call.entry] }

/-- Code does no more than `call_next` and the awaitables it holds. -/
theorem Code.run_safely (ha : Allowed Good) {callNext : Endpoint (Ledger σ)} (code : Code σ n)
    {held : Fin n → Act (Ledger σ) (Val (Ledger σ))} (hnext : ∀ req, Safely Good w (callNext req))
    (hheld : ∀ i, Safely Good w (held i)) : Safely Good w (code.run callNext held) := by
  induction code generalizing w with
  | result resp => exact .pure fun _ _ => .result
  | raise e => exact .throw e
  | pass i => exact safely_awaitable (hheld i)
  | coroutine body ih => exact safely_awaitable (ih hnext hheld)
  | read next ih =>
    intro v hv hgood
    exact ih v.state hnext hheld v hv hgood
  | write s next ih =>
    intro v hv hgood
    exact ih hnext hheld { v with state := s } hv (ha.write v s hgood)
  | addTask call next ih =>
    intro v hv hgood
    have hle : v.log <+: v.log ++ [.task call] := List.prefix_append _ _
    obtain ⟨hle', hrest⟩ := ih hnext hheld _ (le_trans hv hle) (ha.task v call hgood)
    exact ⟨le_trans hle hle', hrest⟩
  | callNext req next other ihNext ihOther =>
    apply resume_safely (hnext req)
    · intro out v hv
      exact ihNext out (fun r => (hnext r).later hv) fun i => (hheld i).later hv
    · intro run v hv hrun
      apply ihOther fun r => (hnext r).later hv
      intro i
      cases i using Fin.cases with
      | zero => exact hrun
      | succ i => exact (hheld i).later hv
  | await i next other ihNext ihOther =>
    apply resume_safely (hheld i)
    · intro out v hv
      exact ihNext out (fun r => (hnext r).later hv) fun i => (hheld i).later hv
    · intro run v hv hrun
      apply ihOther fun r => (hnext r).later hv
      intro i
      cases i using Fin.cases with
      | zero => exact hrun
      | succ i => exact (hheld i).later hv

theorem Code.start_safely (ha : Allowed Good) (code : Code σ 0) : Safely Good w code.start :=
  code.run_safely ha (fun _ => .throw _) fun i => i.elim0

/-- Entered where `P` holds, the middleware calls the next one where `Q` holds. -/
def Moves (Good P Q : Ledger σ → Prop) (mw : Middleware (Ledger σ)) : Prop :=
  ∀ w next req, P w → (∀ v, Q v → ∀ r, Safely Good v (next r)) → Safely Good w (mw.body req next)

/-- A chain of middlewares that leads from `P` to `Q`. -/
inductive Path (Good : Ledger σ → Prop) :
    (Ledger σ → Prop) → List (Middleware (Ledger σ)) → (Ledger σ → Prop) → Prop where
  | nil : Path Good P [] P
  | cons : Moves Good P Q mw → Path Good Q mws R → Path Good P (mw :: mws) R

theorem Path.append (h : Path Good P mws Q) (h' : Path Good Q mws' R) :
    Path Good P (mws ++ mws') R := by
  induction h with
  | nil => exact h'
  | cons hmw _ ih => exact .cons hmw (ih h')

theorem Moves.call_safely (h : Moves Good P Q mw) (hw : P w)
    (hnext : ∀ v, Q v → ∀ r, Safely Good v (next r)) : Safely Good w (mw.call req next) := by
  have hbody := h w next req hw hnext
  rw [Middleware.call]
  split
  · exact safely_awaitable hbody
  · exact hbody

theorem Path.build_safely (h : Path Good P mws Q)
    (hhandler : ∀ v, Q v → ∀ r, Safely Good v (handler r)) :
    ∀ w, P w → ∀ req, Safely Good w (build mws handler req) := by
  induction h with
  | nil => exact hhandler
  | cons hmw _ ih =>
    intro w hw req
    exact hmw.call_safely hw (ih hhandler)

theorem invokeHandler_safely (h : ∀ r, Safely Good w (handler r)) (req : Request) :
    Safely Good w (invokeHandler handler req) := by
  apply (h req).bind
  intro v out _ hsafe
  exact settle_safely hsafe

/-- `await result if iscoroutinefunction else result`, and then what is awaitable still. -/
theorem settle_twice_safely (isCoroutineFunction : Bool) (hx : Safely Good w x) :
    Safely Good w (do
      let result ← x
      let result ← if isCoroutineFunction then result.await else pure result
      result.settle) := by
  apply hx.bind
  intro v result _ hsafe
  cases isCoroutineFunction with
  | true =>
    apply (await_safely hsafe).bind
    intro v' result' _ hsafe'
    exact settle_safely hsafe'
  | false => exact settle_safely hsafe

theorem Path.runner_safely (h : Path Good P mws Q)
    (hhandler : ∀ v, Q v → ∀ r, Safely Good v (handler r)) :
    ∀ w, P w → ∀ req, Safely Good w (runner mws handler req) := by
  induction h with
  | nil =>
    intro w hw req
    exact invokeHandler_safely (hhandler w hw) req
  | cons hmw _ ih =>
    intro w hw req
    apply settle_twice_safely
    apply hmw.call_safely hw
    intro v hv r
    exact safely_awaitable (ih hhandler v hv r)

end Safely

end Sovereign
