import Mathlib.Data.List.Basic
import Mathlib.Tactic.Common

set_option autoImplicit true

/-! Searching a text from the left for matches that do not overlap and are not empty. -/

namespace Scan

/-- The parts of a text: items that belong to no match, and matches. Where there is a match, `find`
says how many items it has after the first one. -/
def scan (find : List α → Option (Nat × β)) : (skip : Nat) → List α → List (α ⊕ β)
  | _, [] => []
  | skip + 1, _ :: s => scan find skip s
  | 0, c :: s =>
    match find (c :: s) with
    | none => .inl c :: scan find 0 s
    | some (n, b) => .inr b :: scan find n s

/-- The text with its matches replaced. -/
def substitute (find : List α → Option (Nat × β)) (replace : β → List α) (s : List α) : List α :=
  (scan find 0 s).flatMap (Sum.elim (fun c => [c]) replace)

def findAll (find : List α → Option (Nat × β)) (s : List α) : List β :=
  (scan find 0 s).filterMap Sum.getRight?

variable {find : List α → Option (Nat × β)}

theorem scan_eq_drop (skip : Nat) (s : List α) : scan find skip s = scan find 0 (s.drop skip) := by
  induction skip generalizing s with
  | zero => rfl
  | succ skip ih =>
    cases s with
    | nil => rfl
    | cons c s => rw [scan, ih, List.drop_succ_cons]

theorem length_scan (find : List α → Option (Nat × β)) (skip : Nat) (s : List α) :
    (scan find skip s).length ≤ s.length := by
  induction s generalizing skip with
  | nil => cases skip <;> exact Nat.le_refl 0
  | cons c s ih =>
    cases skip with
    | succ skip => exact Nat.le_succ_of_le (ih skip)
    | zero =>
      rw [scan]
      split
      · exact Nat.succ_le_succ (ih 0)
      · exact Nat.succ_le_succ (ih _)

/-- What holds of an empty text, and goes over from the rest of a text to the text with an item or a
match in front of it. -/
theorem scan_induction {motive : List α → List (α ⊕ β) → Prop} (nil : motive [] [])
    (pass : ∀ c s, find (c :: s) = none → motive s (scan find 0 s) →
      motive (c :: s) (.inl c :: scan find 0 s))
    (hit : ∀ c s n b, find (c :: s) = some (n, b) →
      motive (s.drop n) (scan find 0 (s.drop n)) →
        motive (c :: s) (.inr b :: scan find 0 (s.drop n))) (s : List α) :
    motive s (scan find 0 s) := by
  induction hn : s.length using Nat.strongRecOn generalizing s with
  | _ n ih =>
    subst hn
    cases s with
    | nil => exact nil
    | cons c s =>
      rw [scan]
      cases hfind : find (c :: s) with
      | none => exact pass c s hfind (ih _ (Nat.lt_succ_self _) s rfl)
      | some m =>
        have hlength : (s.drop m.1).length < (c :: s).length := by
          rw [List.length_drop, List.length_cons]
          omega
        dsimp only
        rw [scan_eq_drop]
        exact hit c s m.1 m.2 hfind (ih _ hlength _ rfl)

theorem scan_cons (h : find (c :: s) = none) : scan find 0 (c :: s) = .inl c :: scan find 0 s := by
  rw [scan, h]

/-- Items at which no match begins are passed over. -/
theorem scan_append (x s : List α) (h : ∀ c ∈ x, ∀ t, find (c :: t) = none) :
    scan find 0 (x ++ s) = x.map .inl ++ scan find 0 s := by
  induction x with
  | nil => rfl
  | cons c x ih =>
    rw [List.cons_append, scan_cons (h c List.mem_cons_self _), List.map_cons,
      ih fun d hd => h d (List.mem_cons_of_mem c hd)]
    rfl

theorem scan_match (x s : List α) (h : find (c :: (x ++ s)) = some (x.length, b)) :
    scan find 0 (c :: (x ++ s)) = .inr b :: scan find 0 s := by
  rw [scan, h]
  dsimp only
  rw [scan_eq_drop, List.drop_left]

variable {replace : β → List α}

theorem substitute_cons (h : find (c :: s) = none) :
    substitute find replace (c :: s) = c :: substitute find replace s := by
  rw [substitute, scan_cons h]
  rfl

theorem substitute_append (x s : List α) (h : ∀ c ∈ x, ∀ t, find (c :: t) = none) :
    substitute find replace (x ++ s) = x ++ substitute find replace s := by
  rw [substitute, scan_append x s h, List.flatMap_append, List.flatMap_map]
  simp only [Sum.elim_inl]
  rw [List.flatMap_singleton']
  rfl

theorem substitute_match (x s : List α) (h : find (c :: (x ++ s)) = some (x.length, b)) :
    substitute find replace (c :: (x ++ s)) = replace b ++ substitute find replace s := by
  rw [substitute, scan_match x s h]
  rfl

theorem length_findAll (s : List α) : (findAll find s).length ≤ s.length :=
  Nat.le_trans (List.length_filterMap_le _ _) (length_scan find 0 s)

theorem findAll_append (x s : List α) (h : ∀ c ∈ x, ∀ t, find (c :: t) = none) :
    findAll find (x ++ s) = findAll find s := by
  have hskip : (x.map (.inl : α → α ⊕ β)).filterMap Sum.getRight? = [] := by
    rw [List.filterMap_map, List.filterMap_eq_nil_iff]
    intro c _
    rfl
  rw [findAll, scan_append x s h, List.filterMap_append, hskip]
  rfl

theorem findAll_match (x s : List α) (h : find (c :: (x ++ s)) = some (x.length, b)) :
    findAll find (c :: (x ++ s)) = b :: findAll find s := by
  rw [findAll, scan_match x s h]
  rfl

end Scan
