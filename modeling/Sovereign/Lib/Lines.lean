import Mathlib.Data.List.Basic
import Mathlib.Tactic.Common

set_option autoImplicit true

/-! The lines of a text, each ended by a carriage return, a line feed or the two together. -/

namespace Lines

/-- Put an item before the first of some lines and a rest. -/
def prepend (a : α) : List (List α) × List α → List (List α) × List α
  | ([], rest) => ([], a :: rest)
  | (line :: lines, rest) => ((a :: line) :: lines, rest)

/-- The lines that are ended, and what stands after the last end. A line feed that follows a carriage
return ends no other line. -/
def split [DecidableEq α] (cr lf : α) : (returned : Bool) → List α → List (List α) × List α
  | _, [] => ([], [])
  | returned, a :: s =>
    if a = cr then ([] :: (split cr lf true s).1, (split cr lf true s).2)
    else if a = lf then
      if returned then split cr lf false s
      else ([] :: (split cr lf false s).1, (split cr lf false s).2)
    else prepend a (split cr lf false s)

/-- Text within one line. -/
def Within (cr lf : α) (s : List α) : Prop := cr ∉ s ∧ lf ∉ s

instance [DecidableEq α] (cr lf : α) (s : List α) : Decidable (Within cr lf s) :=
  inferInstanceAs (Decidable (_ ∧ _))

variable {cr lf : α}

theorem Within.of_cons (h : Within cr lf (a :: s)) : (a ≠ cr ∧ a ≠ lf) ∧ Within cr lf s := by
  obtain ⟨hcr, hlf⟩ := h
  rw [List.mem_cons, not_or] at hcr hlf
  exact ⟨⟨Ne.symm hcr.1, Ne.symm hlf.1⟩, hcr.2, hlf.2⟩

theorem Within.cons (ha : a ≠ cr ∧ a ≠ lf) (h : Within cr lf s) : Within cr lf (a :: s) := by
  constructor
  · rw [List.mem_cons, not_or]
    exact ⟨Ne.symm ha.1, h.1⟩
  · rw [List.mem_cons, not_or]
    exact ⟨Ne.symm ha.2, h.2⟩

theorem Within.append (hs : Within cr lf s) (ht : Within cr lf t) : Within cr lf (s ++ t) := by
  induction s with
  | nil => exact ht
  | cons a s ih =>
    obtain ⟨ha, hs'⟩ := hs.of_cons
    exact .cons ha (ih hs')

theorem within_nil : Within cr lf [] := ⟨List.not_mem_nil, List.not_mem_nil⟩

theorem within_prepend {r : List (List α) × List α} (ha : a ≠ cr ∧ a ≠ lf)
    (h : ∀ line ∈ r.1, Within cr lf line) : ∀ line ∈ (prepend a r).1, Within cr lf line := by
  obtain ⟨lines, rest⟩ := r
  cases lines with
  | nil => exact h
  | cons l lines =>
    intro line hl
    rcases List.mem_cons.1 hl with rfl | hl
    · exact .cons ha (h l List.mem_cons_self)
    · exact h line (List.mem_cons_of_mem l hl)

variable [DecidableEq α]

theorem split_cons (ha : a ≠ cr ∧ a ≠ lf) (returned : Bool) (s : List α) :
    split cr lf returned (a :: s) = prepend a (split cr lf false s) := by
  rw [split, if_neg ha.1, if_neg ha.2]

/-- No line has an end in it. -/
theorem split_within (s : List α) (returned : Bool) :
    ∀ line ∈ (split cr lf returned s).1, Within cr lf line := by
  induction s generalizing returned with
  | nil => intro line hl; cases hl
  | cons a s ih =>
    rw [split]
    split
    · intro line hl
      rcases List.mem_cons.1 hl with rfl | hl
      · exact within_nil
      · exact ih true line hl
    · next hcr =>
      split
      · split
        · exact ih false
        · intro line hl
          rcases List.mem_cons.1 hl with rfl | hl
          · exact within_nil
          · exact ih false line hl
      · next hlf => exact within_prepend ⟨hcr, hlf⟩ (ih false)

/-- A line ended by a line feed. -/
theorem split_line (hne : cr ≠ lf) {line : List α} (h : Within cr lf line) (s : List α) :
    split cr lf false (line ++ lf :: s) =
      (line :: (split cr lf false s).1, (split cr lf false s).2) := by
  induction line with
  | nil => simp only [List.nil_append, split, if_neg hne.symm, ↓reduceIte, Bool.false_eq_true]
  | cons a line ih =>
    obtain ⟨ha, hl⟩ := h.of_cons
    rw [List.cons_append, split_cons ha, ih hl]
    rfl

/-- Text without a carriage return is divided at its line feeds. -/
theorem split_feeds (hne : cr ≠ lf) {s : List α} (h : cr ∉ s) (t : List α) :
    split cr lf false (s ++ lf :: t) =
      (s.splitOn lf ++ (split cr lf false t).1, (split cr lf false t).2) := by
  induction s with
  | nil => exact split_line hne within_nil t
  | cons a s ih =>
    rw [List.mem_cons, not_or] at h
    have hs := ih h.2
    by_cases ha : a = lf
    · subst ha
      have hcons : (a :: s).splitOn a = [] :: s.splitOn a := by
        rw [List.splitOn_cons_eq_if_modifyHead, if_pos (beq_self_eq_true a)]
      rw [hcons, List.cons_append, split, if_neg hne.symm, if_pos rfl, hs]
      rfl
    · have hcons : (a :: s).splitOn lf = (s.splitOn lf).modifyHead (List.cons a) := by
        rw [List.splitOn_cons_eq_if_modifyHead, if_neg (by simpa using ha)]
      rw [hcons, List.cons_append, split_cons ⟨Ne.symm h.1, ha⟩, hs]
      cases hp : s.splitOn lf with
      | nil => exact absurd hp (List.splitOn_ne_nil lf s)
      | cons line lines => rfl

/-- A line ended by a carriage return and a line feed. -/
theorem split_pair (hne : cr ≠ lf) {line : List α} (h : Within cr lf line) (s : List α) :
    split cr lf false (line ++ cr :: lf :: s) =
      (line :: (split cr lf false s).1, (split cr lf false s).2) := by
  induction line with
  | nil => simp only [List.nil_append, split, if_neg hne.symm, ↓reduceIte]
  | cons a line ih =>
    obtain ⟨ha, hl⟩ := h.of_cons
    rw [List.cons_append, split_cons ha, ih hl]
    rfl

/-- Lines that are each ended by a carriage return and a line feed are found again. -/
theorem split_lines (hne : cr ≠ lf) {lines : List (List α)} (h : ∀ l ∈ lines, Within cr lf l) :
    split cr lf false (lines.flatMap fun l => l ++ [cr, lf]) = (lines, []) := by
  induction lines with
  | nil => rfl
  | cons line lines ih =>
    have hl := ih fun l hl => h l (List.mem_cons_of_mem line hl)
    rw [List.flatMap_cons, List.append_assoc]
    rw [show [cr, lf] ++ lines.flatMap (fun l => l ++ [cr, lf]) =
      cr :: lf :: lines.flatMap (fun l => l ++ [cr, lf]) from rfl]
    rw [split_pair hne (h line List.mem_cons_self), hl]

end Lines
