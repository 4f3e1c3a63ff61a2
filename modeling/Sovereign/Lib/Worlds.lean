import Mathlib.Order.Basic

set_option autoImplicit true

/-! Computations over a state that only grows, as seen from a state in the past. -/

namespace Worlds

variable {S ε α β : Type} [Preorder S] {Good : S → Prop}

/-- From every good state after `w` it ends in a good state, later still, with a value that is safe
there. -/
def Keeps (Good : S → Prop) (Safe : S → α → Prop) (w : S) (x : ExceptT ε (StateM S) α) : Prop :=
  ∀ w', w ≤ w' → Good w' →
    w' ≤ (x w').2 ∧ Good (x w').2 ∧ ∀ a, (x w').1 = .ok a → Safe (x w').2 a

variable {Safe : S → α → Prop} {Safe' : S → β → Prop} {w w' : S} {x : ExceptT ε (StateM S) α}

theorem Keeps.later (h : Keeps Good Safe w x) (hle : w ≤ w') : Keeps Good Safe w' x := by
  intro v hv hgood
  exact h v (le_trans hle hv) hgood

theorem Keeps.weaken {Safe₁ Safe₂ : S → α → Prop} (h : Keeps Good Safe₁ w x)
    (himp : ∀ v a, w ≤ v → Safe₁ v a → Safe₂ v a) : Keeps Good Safe₂ w x := by
  intro v hv hgood
  obtain ⟨hle, hgood', hsafe⟩ := h v hv hgood
  exact ⟨hle, hgood', fun a ha => himp _ a (le_trans hv hle) (hsafe a ha)⟩

theorem Keeps.pure {a : α} (h : ∀ v, w ≤ v → Safe v a) :
    Keeps Good Safe w (Pure.pure a : ExceptT ε (StateM S) α) := by
  intro v hv hgood
  refine ⟨le_refl v, hgood, fun b hb => ?_⟩
  cases hb
  exact h v hv

theorem Keeps.throw (e : ε) :
    Keeps Good Safe w (MonadExcept.throw e : ExceptT ε (StateM S) α) := by
  intro v _ hgood
  refine ⟨le_refl v, hgood, fun b hb => ?_⟩
  cases hb

theorem Keeps.bind {f : α → ExceptT ε (StateM S) β} (hx : Keeps Good Safe w x)
    (hf : ∀ v a, w ≤ v → Safe v a → Keeps Good Safe' v (f a)) : Keeps Good Safe' w (x >>= f) := by
  intro v hv hgood
  obtain ⟨hle, hgood', hsafe⟩ := hx v hv hgood
  have hrun : (x >>= f) v = ExceptT.bindCont f (x v).1 (x v).2 := rfl
  rw [hrun]
  cases hr : (x v).1 with
  | error e =>
    refine ⟨hle, hgood', fun b hb => ?_⟩
    cases hb
  | ok a =>
    obtain ⟨hle', hgood'', hsafe'⟩ :=
      hf (x v).2 a (le_trans hv hle) (hsafe a hr) (x v).2 (le_refl _) hgood'
    exact ⟨le_trans hle hle', hgood'', hsafe'⟩

/-- An action on the state alone. -/
theorem Keeps.act {f : S → S} (hle : ∀ v, w ≤ v → Good v → v ≤ f v)
    (hgood : ∀ v, w ≤ v → Good v → Good (f v)) (a : α) (hsafe : ∀ v, w ≤ v → Safe (f v) a) :
    Keeps Good Safe w (fun v => (.ok a, f v) : ExceptT ε (StateM S) α) := by
  intro v hv hg
  refine ⟨hle v hv hg, hgood v hv hg, fun b hb => ?_⟩
  cases hb
  exact hsafe v hv

end Worlds
