import Mathlib.Tactic.Common

set_option autoImplicit true

/-! Events in the order of time, of which some begin something and some end it. -/

namespace History

/-- Something has begun that has not ended. -/
def Open (begins ends : ε → Prop) (h : List ε) : Prop :=
  ∃ before e after, h = before ++ e :: after ∧ begins e ∧ ∀ x ∈ after, ¬ ends x

/-- Between two beginnings there is an end. -/
def Separated (begins ends : ε → Prop) (h : List ε) : Prop :=
  ∀ before e mid e' after, h = before ++ e :: (mid ++ e' :: after) → begins e → begins e' →
    ∃ x ∈ mid, ends x

/-- Each event is as it has to be after those before it. -/
def Each (P : List ε → ε → Prop) (h : List ε) : Prop :=
  ∀ before e after, h = before ++ e :: after → P before e

variable {begins ends : ε → Prop}

theorem each_nil {P : List ε → ε → Prop} : Each P [] := by
  intro before e after h
  simp at h

theorem each_concat {P : List ε → ε → Prop} : Each P (h ++ [x]) ↔ Each P h ∧ P h x := by
  constructor
  · intro hp
    refine ⟨fun before e after hsplit => ?_, hp h x [] rfl⟩
    exact hp before e (after ++ [x]) (by simp [hsplit])
  · rintro ⟨hp, hx⟩ before e after hsplit
    rcases List.eq_nil_or_concat after with rfl | ⟨after', y, rfl⟩
    · obtain ⟨rfl, hlast⟩ := List.append_inj' hsplit rfl
      cases hlast
      exact hx
    · have hsplit' : h ++ [x] = (before ++ e :: after') ++ [y] := by simpa using hsplit
      obtain ⟨rfl, -⟩ := List.append_inj' hsplit' rfl
      exact hp before e after' rfl

theorem not_open_nil : ¬ Open begins ends [] := by
  rintro ⟨before, e, after, h, -⟩
  simp at h

theorem separated_nil : Separated begins ends [] := by
  intro before e mid e' after h
  simp at h

theorem open_concat : Open begins ends (h ++ [x]) ↔ begins x ∨ Open begins ends h ∧ ¬ ends x := by
  constructor
  · rintro ⟨before, e, after, hsplit, he, hafter⟩
    rcases List.eq_nil_or_concat after with rfl | ⟨after', y, rfl⟩
    · obtain ⟨-, hx⟩ := List.append_inj' hsplit rfl
      cases hx
      exact .inl he
    · rw [List.concat_eq_append, ← List.cons_append, ← List.append_assoc] at hsplit
      obtain ⟨rfl, hx⟩ := List.append_inj' hsplit rfl
      cases hx
      refine .inr ⟨⟨before, e, after', rfl, he, fun z hz => hafter z (by simp [hz])⟩, ?_⟩
      exact hafter x (by simp)
  · rintro (hx | ⟨⟨before, e, after, rfl, he, hafter⟩, hx⟩)
    · exact ⟨h, x, [], rfl, hx, by simp⟩
    · refine ⟨before, e, after ++ [x], by simp, he, fun z hz => ?_⟩
      rcases List.mem_append.1 hz with hz | hz
      · exact hafter z hz
      · rwa [List.mem_singleton.1 hz]

theorem separated_concat :
    Separated begins ends (h ++ [x]) ↔
      Separated begins ends h ∧ (begins x → ¬ Open begins ends h) := by
  constructor
  · intro hs
    refine ⟨fun before e mid e' after hsplit he he' => ?_, fun hx => ?_⟩
    · exact hs before e mid e' (after ++ [x]) (by simp [hsplit]) he he'
    · rintro ⟨before, e, after, hsplit, he, hafter⟩
      obtain ⟨y, hy, hend⟩ := hs before e after x [] (by simp [hsplit]) he hx
      exact hafter y hy hend
  · rintro ⟨hs, hx⟩ before e mid e' after hsplit he he'
    rcases List.eq_nil_or_concat after with rfl | ⟨after', y, rfl⟩
    · rw [← List.cons_append, ← List.append_assoc] at hsplit
      obtain ⟨rfl, hlast⟩ := List.append_inj' hsplit rfl
      cases hlast
      by_contra hno
      exact hx he' ⟨before, e, mid, rfl, he, fun z hz hend => hno ⟨z, hz, hend⟩⟩
    · have hsplit' : h ++ [x] = (before ++ e :: (mid ++ e' :: after')) ++ [y] := by
        simpa using hsplit
      obtain ⟨rfl, -⟩ := List.append_inj' hsplit' rfl
      exact hs before e mid e' after' rfl he he'

end History
