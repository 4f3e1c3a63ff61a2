import Mathlib.Data.List.Induction
import Mathlib.Tactic.Common

set_option autoImplicit true

/-- A run of a labelled transition system: its steps, each with the state it is taken in, and the
state it ends in. -/
inductive Run (step : σ → α → Option σ) (s : σ) : List (σ × α) → σ → Prop where
  | nil : Run step s [] s
  | snoc : Run step s l t → step t a = some u → Run step s (l ++ [(t, a)]) u

namespace Run

variable {step : σ → α → Option σ}

/-- Each step of a run is one of the system. -/
theorem enabled (h : Run step s l t) : ∀ x ∈ l, ∃ u, step x.1 x.2 = some u := by
  induction h with
  | nil => simp
  | snoc _ hs ih =>
    intro x hx
    rcases List.mem_append.1 hx with hx | hx
    · exact ih x hx
    · rw [List.mem_singleton.1 hx]
      exact ⟨_, hs⟩

/-- What the first state has and every step of the run preserves, the last state has. -/
theorem invariant {I : σ → Prop} (h : Run step s l t) (hs : I s)
    (hI : ∀ x ∈ l, ∀ u, I x.1 → step x.1 x.2 = some u → I u) : I t := by
  induction h with
  | nil => exact hs
  | @snoc l t a u _ hstep ih =>
    have ht : I t := ih fun x hx u hx' => hI x (List.mem_append_left _ hx) u hx'
    exact hI (t, a) (by simp) u ht hstep

/-- So has every state in which a step is taken. -/
theorem always {I : σ → Prop} (h : Run step s l t) (hs : I s)
    (hI : ∀ x ∈ l, ∀ u, I x.1 → step x.1 x.2 = some u → I u) : ∀ x ∈ l, I x.1 := by
  induction h with
  | nil => simp
  | @snoc l t a u hrun hstep ih =>
    have hI' : ∀ x ∈ l, ∀ u, I x.1 → step x.1 x.2 = some u → I u :=
      fun x hx => hI x (List.mem_append_left _ hx)
    intro x hx
    rcases List.mem_append.1 hx with hx | hx
    · exact ih hI' x hx
    · rw [List.mem_singleton.1 hx]
      exact hrun.invariant hs hI'

/-- What one step of the run brings about and every step preserves, the last state has. -/
theorem kept {P : σ → Prop} (h : Run step s l t)
    (hP : ∀ x ∈ l, ∀ u, P x.1 → step x.1 x.2 = some u → P u) :
    ∀ x ∈ l, (∀ u, step x.1 x.2 = some u → P u) → P t := by
  induction h with
  | nil => simp
  | @snoc l t a u _ hstep ih =>
    intro x hx hbring
    rcases List.mem_append.1 hx with hx | hx
    · have ht : P t := ih (fun y hy => hP y (List.mem_append_left _ hy)) x hx hbring
      exact hP (t, a) (by simp) u ht hstep
    · rw [List.mem_singleton.1 hx] at hbring
      exact hbring u hstep

theorem append (h : Run step s l t) (h' : Run step t l' u) : Run step s (l ++ l') u := by
  induction h' with
  | nil => rwa [List.append_nil]
  | snoc _ hs ih =>
    rw [← List.append_assoc]
    exact .snoc ih hs

theorem nil_inv (h : Run step s [] t) : t = s := by
  generalize hl : [] = l at h
  cases h with
  | nil => rfl
  | snoc => simp at hl

/-- A run that is not empty begins with a step from its first state. -/
theorem cons_inv (h : Run step s ((t, a) :: l) v) :
    t = s ∧ ∃ u, step s a = some u ∧ Run step u l v := by
  generalize hl : (t, a) :: l = l' at h
  induction h generalizing l with
  | nil => cases hl
  | @snoc l' w b v hw hstep ih =>
    rcases List.eq_nil_or_concat l with rfl | ⟨l'', y, rfl⟩
    · obtain ⟨rfl, hlast⟩ := List.append_inj' (show [] ++ [(t, a)] = _ from hl) rfl
      cases hlast
      cases nil_inv hw
      exact ⟨rfl, v, hstep, .nil⟩
    · rw [List.concat_eq_append, ← List.cons_append] at hl
      obtain ⟨rfl, hlast⟩ := List.append_inj' hl rfl
      cases hlast
      obtain ⟨ht, u, hu, hrun⟩ := ih rfl
      exact ⟨ht, u, hu, by rw [List.concat_eq_append]; exact .snoc hrun hstep⟩

/-- Actions taken one after the other, each with the state it is taken in. -/
def trace (step : σ → α → Option σ) (s : σ) : List α → List (σ × α)
  | [] => []
  | a :: as => (s, a) :: (step s a).elim [] fun t => trace step t as

theorem mem_of_mem_trace {s : σ} {as : List α} (h : y ∈ trace step s as) : y.2 ∈ as := by
  induction as generalizing s with
  | nil => cases h
  | cons a as ih =>
    rw [trace] at h
    rcases List.mem_cons.1 h with rfl | h
    · exact List.mem_cons_self
    · cases hs : step s a with
      | none =>
        rw [hs] at h
        cases h
      | some t =>
        rw [hs] at h
        exact List.mem_cons_of_mem a (ih h)

theorem of_foldlM (step : σ → α → Option σ) (s : σ) (as : List α) (h : as.foldlM step s = some t) :
    Run step s (trace step s as) t := by
  induction as generalizing s with
  | nil =>
    cases h
    exact .nil
  | cons a as ih =>
    rw [List.foldlM_cons, Option.bind_eq_bind, Option.bind_eq_some_iff] at h
    obtain ⟨u, hu, ht⟩ := h
    have hfirst : Run step s [(s, a)] u := .snoc .nil hu
    rw [trace, hu]
    exact hfirst.append (ih u ht)

end Run
