import Mathlib.Logic.Relation
import Mathlib.Tactic.Common

set_option autoImplicit true

/-- A loop whose every turn fails, finishes with a result, or moves on to a smaller state. -/
structure Machine (σ ε ρ : Type) where
  step : σ → Except ε (σ ⊕ ρ)
  size : σ → Nat
  decreasing : step s = .ok (.inl t) → size t < size s

namespace Machine

variable (M : Machine σ ε ρ)

/-- Turn until the loop fails or finishes; `n` bounds the turns that are left. -/
def exec : (n : Nat) → (s : σ) → M.size s < n → Except ε ρ
  | 0, _, h => absurd h (Nat.not_lt_zero _)
  | n + 1, s, h =>
    match hs : M.step s with
    | .error e => .error e
    | .ok (.inr r) => .ok r
    | .ok (.inl t) => exec n t (Nat.lt_of_lt_of_le (M.decreasing hs) (Nat.le_of_lt_succ h))

def run (s : σ) : Except ε ρ := M.exec (M.size s + 1) s (Nat.lt_succ_self _)

/-- One turn of the loop leads from one state to the next. -/
def Moves (s t : σ) : Prop := M.step s = .ok (.inl t)

def Reaches : σ → σ → Prop := Relation.ReflTransGen M.Moves

theorem exec_eq (n m : Nat) (s : σ) (hn : M.size s < n) (hm : M.size s < m) :
    M.exec n s hn = M.exec m s hm := by
  induction n generalizing m s with
  | zero => exact absurd hn (Nat.not_lt_zero _)
  | succ n ih =>
    cases m with
    | zero => exact absurd hm (Nat.not_lt_zero _)
    | succ m =>
      simp only [exec]
      split
      · rfl
      · rfl
      · exact ih m _ _ _

theorem run_of_error {M : Machine σ ε ρ} (h : M.step s = .error e) : M.run s = .error e := by
  simp only [run, exec]
  split <;> simp_all

theorem run_of_done {M : Machine σ ε ρ} (h : M.step s = .ok (.inr r)) : M.run s = .ok r := by
  simp only [run, exec]
  split <;> simp_all

theorem run_of_moves {M : Machine σ ε ρ} (h : M.Moves s t) : M.run s = M.run t := by
  have h' : M.step s = .ok (.inl t) := h
  rw [run, exec]
  split
  · simp_all
  · simp_all
  · next t' ht =>
    rw [h'] at ht
    cases ht
    exact M.exec_eq _ _ _ _ _

/-- A run is followed turn by turn. -/
theorem run_eq (s : σ) :
    M.run s = match M.step s with
      | .error e => .error e
      | .ok (.inr r) => .ok r
      | .ok (.inl t) => M.run t := by
  split
  · next h => exact run_of_error h
  · next h => exact run_of_done h
  · next h => exact run_of_moves h

/-- A property that one turn preserves holds in every state the loop reaches. -/
theorem invariant {M : Machine σ ε ρ} {I : σ → Prop} (h : M.Reaches s t) (hs : I s)
    (hI : ∀ {s t}, I s → M.Moves s t → I t) : I t := by
  induction h with
  | refl => exact hs
  | tail _ hm ih => exact hI ih hm

/-- A loop that succeeds does so from a state it reaches. -/
theorem exists_done {M : Machine σ ε ρ} (h : M.run s = .ok r) :
    ∃ t, M.Reaches s t ∧ M.step t = .ok (.inr r) := by
  generalize hn : M.size s = n
  induction n using Nat.strongRecOn generalizing s with
  | ind n ih =>
    rw [run_eq] at h
    split at h
    · cases h
    · next r' hr => cases h; exact ⟨s, .refl, hr⟩
    · next t ht =>
      obtain ⟨u, hu, hd⟩ := ih (M.size t) (hn ▸ M.decreasing ht) h rfl
      exact ⟨u, .head ht hu, hd⟩

end Machine
