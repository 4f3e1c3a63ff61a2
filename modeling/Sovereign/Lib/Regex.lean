import Mathlib.Data.List.Range
import Mathlib.Data.List.TakeWhile
import Mathlib.Tactic.Common

set_option autoImplicit true

/-- Regular expressions with named groups, without alternatives: what a backtracking engine can take
from the left in only one order. -/
inductive Regex (α ν : Type) where
  | empty
  /-- a repetition of items, as many as possible -/
  | rep (accepts : α → Bool) (least : Nat) (most : Option Nat)
  /-- the beginning of the text -/
  | start
  /-- the end of the text, or the place before a newline that ends it -/
  | stop (newline : α → Bool)
  | group (name : ν) (r : Regex α ν)
  | seq (r s : Regex α ν)

namespace Regex

/-- What a regular expression captures, and the text it takes. -/
inductive Takes : Regex α ν → (atStart : Bool) → List (ν × List α) →
    (taken rest : List α) → Prop where
  | empty : Takes .empty b [] [] rest
  | rep {accepts : α → Bool} {most : Option Nat} {taken : List α} :
      (∀ a ∈ taken, accepts a = true) →
      least ≤ taken.length → (∀ m ∈ most, taken.length ≤ m) → Takes (.rep accepts least most)
      b [] taken rest
  | start : Takes .start true [] [] rest
  | stop : Takes (.stop newline) b [] [] []
  | stopNewline : newline c = true → Takes (.stop newline) b [] [] [c]
  | group {name : ν} {r : Regex α ν} {b : Bool} {caps : List (ν × List α)} {taken rest : List α} :
      Takes r b caps taken rest → Takes (.group name r) b ((name, taken) :: caps) taken rest
  | seq {r s : Regex α ν} {b : Bool} {caps₁ caps₂ : List (ν × List α)}
      {taken₁ taken₂ rest : List α} :
      Takes r b caps₁ taken₁ (taken₂ ++ rest) → Takes s (b && taken₁.isEmpty) caps₂ taken₂ rest →
      Takes (.seq r s) b (caps₁ ++ caps₂) (taken₁ ++ taken₂) rest

theorem takes_rep {accepts : α → Bool} {most : Option Nat} {caps : List (ν × List α)}
    {taken : List α} :
    Takes (.rep accepts least most) b caps taken rest ↔
      caps = [] ∧ (∀ a ∈ taken, accepts a = true) ∧ least ≤ taken.length ∧ ∀ m ∈ most,
      taken.length ≤ m := by
  constructor
  · intro h
    cases h with
    | rep hall hleast hmost => exact ⟨rfl, hall, hleast, hmost⟩
  · rintro ⟨rfl, hall, hleast, hmost⟩
    exact .rep hall hleast hmost

theorem takes_group {name : ν} {r : Regex α ν} {caps : List (ν × List α)} {taken : List α} :
    Takes (.group name r) b caps taken rest ↔ ∃ inner, caps = (name, taken) :: inner ∧
    Takes r b inner taken rest := by
  constructor
  · intro h
    cases h with
    | group h => exact ⟨_, rfl, h⟩
  · rintro ⟨inner, rfl, h⟩
    exact .group h

theorem takes_seq {r s : Regex α ν} {caps : List (ν × List α)} {taken rest : List α} :
    Takes (.seq r s) b caps taken rest ↔ ∃ caps₁ caps₂ taken₁ taken₂, caps = caps₁ ++ caps₂ ∧
      taken = taken₁ ++ taken₂ ∧ Takes r b caps₁ taken₁ (taken₂ ++ rest) ∧
      Takes s (b && taken₁.isEmpty) caps₂ taken₂ rest := by
  constructor
  · intro h
    cases h with
    | seq hr hs => exact ⟨_, _, _, _, rfl, rfl, hr, hs⟩
  · rintro ⟨_, _, _, _, rfl, rfl, hr, hs⟩
    exact .seq hr hs

/-- Nothing after a regular expression is the expression itself. -/
theorem takes_seq_empty {r : Regex α ν} {caps : List (ν × List α)} {taken : List α} :
    Takes (.seq r .empty) b caps taken rest ↔ Takes r b caps taken rest := by
  constructor
  · intro h
    cases h with
    | seq h hempty =>
      cases hempty
      rw [List.append_nil, List.append_nil]
      exact h
  · intro h
    have hseq : Takes (.seq r .empty) b (caps ++ []) (taken ++ []) rest := .seq h .empty
    rwa [List.append_nil, List.append_nil] at hseq

/-- How many items a repetition can take at most. -/
def reach (accepts : α → Bool) (most : Option Nat) (s : List α) : Nat :=
  match most with
  | none => (s.takeWhile accepts).length
  | some m => min m (s.takeWhile accepts).length

/-- All that a regular expression can take from a text, in the order of preference. -/
def results : Regex α ν → (atStart : Bool) → List α → List (List (ν × List α) × List α × List α)
  | empty, _, s => [([], [], s)]
  | rep accepts least most, _, s =>
    ((List.range (reach accepts most s + 1)).reverse.filter (least ≤ ·)).map fun n =>
    ([], s.take n, s.drop n)
  | start, b, s => if b then [([], [], s)] else []
  | stop newline, _, s =>
    match s with
    | [] => [([], [], [])]
    | [c] => if newline c then [([], [], [c])] else []
    | _ => []
  | group name r, b, s => (results r b s).map fun (caps, taken, rest) =>
      ((name, taken) :: caps, taken, rest)
  | seq r t, b, s => (results r b s).flatMap fun (caps₁, taken₁, rest) =>
      (results t (b && taken₁.isEmpty) rest).map fun (caps₂, taken₂, rest) =>
        (caps₁ ++ caps₂, taken₁ ++ taken₂, rest)

/-- What is captured in the preferred match at the beginning of a text. -/
def firstMatch (r : Regex α ν) (s : List α) : Option (List (ν × List α)) :=
  (results r true s).head?.map Prod.fst

/-- The names of the groups. -/
def names : Regex α ν → List ν
  | empty | rep .. | start | stop _ => []
  | group name r => name :: r.names
  | seq r s => r.names ++ s.names

theorem le_length_takeWhile {accepts : α → Bool} {s : List α} {n : Nat} :
    n ≤ (s.takeWhile accepts).length ↔ n ≤ s.length ∧ ∀ a ∈ s.take n, accepts a = true := by
  induction s generalizing n with
  | nil =>
    rw [List.takeWhile_nil, List.take_nil]
    exact ⟨fun h => ⟨h, nofun⟩, fun h => h.1⟩
  | cons c s ih =>
    cases n with
    | zero => exact ⟨fun _ => ⟨Nat.zero_le _, nofun⟩, fun _ => Nat.zero_le _⟩
    | succ n =>
      rw [List.take_succ_cons, List.forall_mem_cons, List.length_cons, Nat.succ_le_succ_iff]
      cases hc : accepts c with
      | true =>
        rw [List.takeWhile_cons_of_pos hc, List.length_cons, Nat.succ_le_succ_iff, ih]
        exact ⟨fun h => ⟨h.1, rfl, h.2⟩, fun h => ⟨h.1, h.2.2⟩⟩
      | false =>
        rw [List.takeWhile_cons_of_neg (by rw [hc]; exact Bool.false_ne_true)]
        exact ⟨fun h => absurd h (Nat.not_succ_le_zero n), fun h => absurd h.2.1 Bool.false_ne_true⟩

theorem le_reach {accepts : α → Bool} {most : Option Nat} {s : List α} {n : Nat} :
    n ≤ reach accepts most s ↔
      n ≤ s.length ∧ (∀ a ∈ s.take n, accepts a = true) ∧ ∀ m ∈ most, n ≤ m := by
  cases most with
  | none =>
    rw [reach, le_length_takeWhile]
    exact ⟨fun h => ⟨h.1, h.2, nofun⟩, fun h => ⟨h.1, h.2.1⟩⟩
  | some m =>
    rw [reach, Nat.le_min, le_length_takeWhile]
    constructor
    · rintro ⟨hm, hlen, hall⟩
      refine ⟨hlen, hall, fun m' hm' => ?_⟩
      cases hm'
      exact hm
    · rintro ⟨hlen, hall, hm⟩
      exact ⟨hm m rfl, hlen, hall⟩

theorem mem_results_rep {accepts : α → Bool} {s : List α} :
    (caps, taken, rest) ∈ results (.rep accepts least most : Regex α ν) b s ↔
      s = taken ++ rest ∧ Takes (.rep accepts least most : Regex α ν) b caps taken rest := by
  simp only [results, List.mem_map, List.mem_filter, List.mem_reverse, List.mem_range,
    Nat.lt_succ_iff, le_reach,
    decide_eq_true_eq]
  constructor
  · rintro ⟨n, ⟨⟨hlen, hall, hmost⟩, hleast⟩, he⟩
    cases he
    have hn : (s.take n).length = n := by rw [List.length_take, Nat.min_eq_left hlen]
    refine ⟨(List.take_append_drop n s).symm, .rep hall (by rw [hn]; exact hleast) fun m hm => ?_⟩
    rw [hn]
    exact hmost m hm
  · rintro ⟨rfl, htakes⟩
    cases htakes with
    | rep hall hleast hmost =>
      refine ⟨taken.length, ⟨⟨?_, ?_, hmost⟩, hleast⟩, ?_⟩
      · rw [List.length_append]
        exact Nat.le_add_right _ _
      · rw [List.take_left]
        exact hall
      · rw [List.take_left, List.drop_left]

/-- The results are all that the regular expression takes. -/
theorem mem_results {r : Regex α ν} {s taken rest : List α} : (caps, taken, rest) ∈ results r b s ↔
    s = taken ++ rest ∧ Takes r b caps taken rest := by
  induction r generalizing b s caps taken rest with
  | empty =>
    rw [results, List.mem_singleton]
    constructor
    · rintro ⟨⟩
      exact ⟨rfl, .empty⟩
    · rintro ⟨rfl, ⟨⟩⟩
      rfl
  | rep accepts least most => exact mem_results_rep
  | start =>
    cases b with
    | true =>
      rw [results, if_pos rfl, List.mem_singleton]
      constructor
      · rintro ⟨⟩
        exact ⟨rfl, .start⟩
      · rintro ⟨rfl, ⟨⟩⟩
        rfl
    | false =>
      constructor
      · intro h
        cases h
      · rintro ⟨-, h⟩
        cases h
  | stop newline =>
    constructor
    · intro h
      rw [results.eq_def] at h
      dsimp only at h
      split at h
      · cases List.mem_singleton.1 h
        exact ⟨rfl, .stop⟩
      · next c =>
        by_cases hc : newline c = true
        · rw [if_pos hc] at h
          cases List.mem_singleton.1 h
          exact ⟨rfl, .stopNewline hc⟩
        · rw [if_neg hc] at h
          cases h
      · cases h
    · rintro ⟨rfl, h⟩
      cases h with
      | stop => exact List.mem_singleton_self _
      | stopNewline hc =>
        simp only [results, List.nil_append, hc, if_true, List.mem_singleton]
  | group name r ih =>
    rw [results, List.mem_map]
    constructor
    · rintro ⟨⟨caps', taken', rest'⟩, hmem, ⟨⟩⟩
      obtain ⟨rfl, htakes⟩ := ih.1 hmem
      exact ⟨rfl, .group htakes⟩
    · rintro ⟨rfl, h⟩
      cases h with
      | group htakes => exact ⟨(_, taken, rest), ih.2 ⟨rfl, htakes⟩, rfl⟩
  | seq r t ihr iht =>
    rw [results, List.mem_flatMap]
    constructor
    · rintro ⟨⟨caps₁, taken₁, rest₁⟩, hmem₁, hmem⟩
      obtain ⟨⟨caps₂, taken₂, rest₂⟩, hmem₂, ⟨⟩⟩ := List.mem_map.1 hmem
      obtain ⟨rfl, htakes₁⟩ := ihr.1 hmem₁
      obtain ⟨rfl, htakes₂⟩ := iht.1 hmem₂
      exact ⟨(List.append_assoc ..).symm, .seq htakes₁ htakes₂⟩
    · rintro ⟨rfl, h⟩
      cases h with
      | seq htakes₁ htakes₂ =>
        refine ⟨_, ihr.2 ⟨List.append_assoc .., htakes₁⟩, ?_⟩
        exact List.mem_map.2 ⟨_, iht.2 ⟨rfl, htakes₂⟩, rfl⟩

/-- There is a match just if the regular expression takes some beginning of the text. -/
theorem firstMatch_isSome {r : Regex α ν} {s : List α} : (r.firstMatch s).isSome = true ↔
    ∃ caps taken rest, s = taken ++ rest ∧ Takes r true caps taken rest := by
  rw [firstMatch, Option.isSome_map, List.isSome_head?]
  constructor
  · intro h
    obtain ⟨⟨caps, taken, rest⟩, hmem⟩ := List.exists_mem_of_ne_nil _ h
    exact ⟨caps, taken, rest, mem_results.1 hmem⟩
  · rintro ⟨caps, taken, rest, h⟩
    exact List.ne_nil_of_mem (mem_results.2 h)

theorem firstMatch_eq_some {r : Regex α ν} {s : List α} (h : r.firstMatch s = some caps) :
    ∃ taken rest, s = taken ++ rest ∧ Takes r true caps taken rest := by
  obtain ⟨⟨caps', taken, rest⟩, hhead, rfl⟩ := Option.map_eq_some_iff.1 h
  exact ⟨taken, rest, mem_results.1 (List.mem_of_head? hhead)⟩

end Regex
