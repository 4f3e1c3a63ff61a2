import Mathlib.Algebra.Ring.Nat
import Mathlib.Data.List.Infix
import Mathlib.Tactic.Common

namespace Marker
set_option autoImplicit true

variable [DecidableEq α]

/-- Cut a list at the first occurrence of a marker, into what precedes it and what follows it. -/
def breakOn (m : List α) : List α → Option (List α × List α)
  | [] => if m = [] then some ([], []) else none
  | x :: xs =>
    if m.isPrefixOf (x :: xs) then some ([], (x :: xs).drop m.length)
    else (breakOn m xs).map fun p => (x :: p.1, p.2)

theorem breakOn_eq {m l b a : List α} (h : breakOn m l = some (b, a)) : l = b ++ m ++ a := by
  induction l generalizing b with
  | nil =>
    simp only [breakOn] at h
    split at h
    · next hm => cases h; simp [hm]
    · cases h
  | cons x xs ih =>
    simp only [breakOn] at h
    split at h
    · next hp =>
      cases h
      exact (List.prefix_iff_eq_append.1 (List.isPrefixOf_iff_prefix.1 hp)).symm
    · obtain ⟨⟨b', a'⟩, hb, he⟩ := Option.map_eq_some_iff.1 h
      cases he
      simp [ih hb]

theorem breakOn_start {m l : List α} (h : m <+: l) :
    breakOn m l = some ([], l.drop m.length) := by
  cases l with
  | nil => simp [breakOn, List.prefix_nil.1 h]
  | cons x xs => simp [breakOn, h]

theorem breakOn_cons {m xs : List α} {x : α} (h : ¬ m <+: x :: xs) :
    breakOn m (x :: xs) = (breakOn m xs).map fun p => (x :: p.1, p.2) := by
  simp [breakOn, h]

theorem breakOn_append {m l b a : List α} (h : breakOn m l = some (b, a)) (r : List α) :
    breakOn m (l ++ r) = some (b, a ++ r) := by
  induction l generalizing b with
  | nil =>
    simp only [breakOn] at h
    split at h
    · next hm => cases h; subst m; simpa using breakOn_start (List.nil_prefix (l := r))
    · cases h
  | cons x xs ih =>
    by_cases hp : m <+: x :: xs
    · rw [breakOn_start hp] at h
      cases h
      rw [breakOn_start (hp.trans (List.prefix_append _ _)), List.drop_append_of_le_length]
      exact hp.length_le
    · rw [breakOn_cons hp] at h
      obtain ⟨⟨b', a'⟩, hb, he⟩ := Option.map_eq_some_iff.1 h
      cases he
      have hp' : ¬ m <+: x :: (xs ++ r) := by
        intro hq
        apply hp
        refine List.prefix_of_prefix_length_le hq (List.prefix_append (x :: xs) r) ?_
        have hl := congrArg List.length (breakOn_eq hb)
        simp only [List.length_append] at hl
        simp only [List.length_cons]
        omega
      rw [List.cons_append, breakOn_cons hp', ih hb]
      rfl

/-- A marker is found exactly when it occurs. -/
theorem breakOn_isSome {m l : List α} : (breakOn m l).isSome ↔ m <:+: l := by
  constructor
  · intro h
    obtain ⟨⟨b, a⟩, hb⟩ := Option.isSome_iff_exists.1 h
    exact ⟨b, a, (breakOn_eq hb).symm⟩
  · rintro ⟨b, a, rfl⟩
    induction b with
    | nil => simp [breakOn_start (List.prefix_append m a)]
    | cons x b ih =>
      rw [List.cons_append, List.cons_append]
      by_cases hp : m <+: x :: (b ++ m ++ a)
      · rw [breakOn_start hp]
        rfl
      · rw [breakOn_cons hp, Option.isSome_map]
        exact ih

theorem breakOn_eq_none {m l : List α} : breakOn m l = none ↔ ¬ m <:+: l := by
  rw [← breakOn_isSome, Option.not_isSome_iff_eq_none]

/-- A prefix contains the marker exactly when it reaches the end of the first occurrence. -/
theorem infix_prefix_iff {m l b a p : List α} (h : breakOn m l = some (b, a)) (hp : p <+: l) :
    m <:+: p ↔ b.length + m.length ≤ p.length := by
  constructor
  · intro hm
    obtain ⟨⟨b', a'⟩, hb⟩ := Option.isSome_iff_exists.1 (breakOn_isSome.2 hm)
    obtain ⟨r, rfl⟩ := hp
    have he := breakOn_append hb r
    rw [h] at he
    cases he
    have hl := congrArg List.length (breakOn_eq hb)
    simp only [List.length_append] at hl
    omega
  · intro hl
    have he : b ++ m <+: l := ⟨a, (breakOn_eq h).symm⟩
    have hle : b ++ m <+: p := List.prefix_of_prefix_length_le he hp (by simpa using hl)
    exact (List.infix_append' b m []).trans (by simpa using hle.isInfix)

/-- What precedes the first occurrence of an item does not contain it. -/
theorem not_mem_of_breakOn {c : α} {l b a : List α} (h : breakOn [c] l = some (b, a)) : c ∉ b := by
  intro hm
  obtain ⟨x, y, hxy⟩ := List.append_of_mem hm
  have hin : [c] <:+: b := ⟨x, y, by simp [hxy]⟩
  have hp : b <+: l := ⟨[c] ++ a, by rw [breakOn_eq h, List.append_assoc]⟩
  have hlen := (infix_prefix_iff h hp).1 hin
  rw [List.length_singleton] at hlen
  omega

/-- Text without the marker's first character is skipped. -/
theorem breakOn_skip {c : α} {m b l : List α} (h : c ∉ b) :
    breakOn (c :: m) (b ++ l) = (breakOn (c :: m) l).map fun p => (b ++ p.1, p.2) := by
  induction b with
  | nil => simp
  | cons x b ih =>
    have hx : ¬ c :: m <+: x :: (b ++ l) := by
      rintro ⟨r, hr⟩
      simp only [List.cons_append, List.cons.injEq] at hr
      exact h (by simp [hr.1])
    have hb : c ∉ b := fun hc => h (List.mem_cons_of_mem _ hc)
    rw [List.cons_append, breakOn_cons hx, ih hb]
    cases breakOn (c :: m) l <;> rfl

/-- The first `b` ends the first pair if an `a` stands before it. -/
theorem breakOn_pair {a b : α} (hab : a ≠ b) {line : List α} (h : b ∉ line) (v : List α) :
    breakOn [a, b] (line ++ [a, b] ++ v) = some (line, v) := by
  induction line with
  | nil => exact breakOn_start (List.prefix_append [a, b] v)
  | cons x line ih =>
    have hb : b ∉ line := fun hm => h (List.mem_cons_of_mem _ hm)
    have hno : ¬ [a, b] <+: x :: (line ++ [a, b] ++ v) := by
      intro hp
      have hp' := (List.cons_prefix_cons.1 hp).2
      cases line with
      | nil => exact hab (List.cons_prefix_cons.1 hp').1.symm
      | cons y line =>
        exact h ((List.cons_prefix_cons.1 hp').1 ▸ List.mem_cons_of_mem _ List.mem_cons_self)
    rw [List.cons_append, List.cons_append, breakOn_cons hno, ih hb]
    rfl

/-- Without a `b` there is no pair. -/
theorem breakOn_pair_none {a b : α} {l : List α} (h : breakOn [b] l = none) :
    breakOn [a, b] l = none := by
  rw [breakOn_eq_none] at h ⊢
  exact fun hp => h (List.IsInfix.trans ⟨[a], [], rfl⟩ hp)

/-- If the first `b` does not end a pair, the first pair ends further on. -/
theorem breakOn_pair_later {a b : α} {l p v q w : List α} (hb : breakOn [b] l = some (p, v))
    (hp : ∀ line, p ≠ line ++ [a]) (hq : breakOn [a, b] l = some (q, w)) : w.length < v.length := by
  have hl := breakOn_eq hb
  have hl' := breakOn_eq hq
  have hlen : p.length + 1 ≤ q.length + 2 := by
    have hin : [b] <:+: q ++ [a, b] := ⟨q ++ [a], [], by simp⟩
    simpa using (infix_prefix_iff hb ⟨w, hl'.symm⟩).1 hin
  have hne : p.length ≠ q.length + 1 := by
    intro he
    have htake : l.take p.length = q ++ [a] := by
      rw [hl', he, show q ++ [a, b] ++ w = (q ++ [a]) ++ (b :: w) by simp,
        List.take_left' (by simp)]
    rw [hl, List.append_assoc, List.take_left' rfl] at htake
    exact hp q htake
  have h₁ := congrArg List.length hl
  have h₂ := congrArg List.length hl'
  simp only [List.length_append, List.length_cons, List.length_nil] at h₁ h₂
  omega

theorem breakOn_first {c : α} {m b a : List α} (h : c ∉ b) :
    breakOn (c :: m) (b ++ (c :: m) ++ a) = some (b, a) := by
  rw [List.append_assoc, breakOn_skip h, breakOn_start (List.prefix_append _ _)]
  simp

/-- Divide a list at each occurrence of a two-character separator, from left to right. -/
def splitPair (a b : α) : List α → List (List α)
  | [] => [[]]
  | [x] => [[x]]
  | x :: y :: r =>
    if x = a ∧ y = b then [] :: splitPair a b r
    else (splitPair a b (y :: r)).modifyHead (x :: ·)

theorem splitPair_clean {a b : α} {l : List α} (h : a ∉ l) : splitPair a b l = [l] := by
  induction l using splitPair.induct a b with
  | case1 => rfl
  | case2 => rfl
  | case3 x y r hxy => exact absurd (by simp [hxy.1]) h
  | case4 x y r hxy ih =>
    have hyr : a ∉ y :: r := fun hm => h (List.mem_cons_of_mem _ hm)
    simp only [splitPair, if_neg hxy, ih hyr, List.modifyHead_cons]

theorem splitPair_append {a b : α} {l : List α} (h : a ∉ l) (r : List α) :
    splitPair a b (l ++ a :: b :: r) = l :: splitPair a b r := by
  induction l with
  | nil => simp [splitPair]
  | cons x xs ih =>
    have hx : x ≠ a := fun he => h (by simp [he])
    have hxs := ih fun hm => h (List.mem_cons_of_mem _ hm)
    cases xs with
    | nil =>
      simp only [List.nil_append] at hxs
      simp [splitPair, hx]
    | cons y ys =>
      rw [List.cons_append] at hxs
      simp only [List.cons_append, splitPair, hx, false_and, ↓reduceIte, hxs, List.modifyHead_cons]

/-- Lines with a two-character separator between them. -/
def joinPair (a b : α) : List (List α) → List α
  | [] => []
  | [l] => l
  | l :: ls => l ++ a :: b :: joinPair a b ls

omit [DecidableEq α] in
theorem map_joinPair (f : α → β) (a b : α) (ls : List (List α)) :
    (joinPair a b ls).map f = joinPair (f a) (f b) (ls.map (List.map f)) := by
  induction ls with
  | nil => rfl
  | cons l ls ih =>
    cases ls with
    | nil => rfl
    | cons l' ls =>
      rw [joinPair, List.map_append, List.map_cons, List.map_cons, ih]
      · rfl
      · exact List.cons_ne_nil _ _

theorem splitPair_joinPair {a b : α} {ls : List (List α)} (h : ∀ l ∈ ls, a ∉ l) (hne : ls ≠ []) :
    splitPair a b (joinPair a b ls) = ls := by
  induction ls with
  | nil => exact absurd rfl hne
  | cons l ls ih =>
    have hl := h l List.mem_cons_self
    cases ls with
    | nil => exact splitPair_clean hl
    | cons l' ls =>
      rw [joinPair, splitPair_append hl,
        ih (fun x hx => h x (List.mem_cons_of_mem _ hx)) (List.cons_ne_nil _ _)]
      exact List.cons_ne_nil _ _

omit [DecidableEq α] in
theorem head_joinPair {a b : α} {l : List α} (hne : l ≠ []) (ls : List (List α)) :
    ∃ c r, c ∈ l ∧ joinPair a b (l :: ls) = c :: r := by
  obtain ⟨c, l, rfl⟩ := List.exists_cons_of_ne_nil hne
  cases ls with
  | nil => exact ⟨c, l, List.mem_cons_self, rfl⟩
  | cons l' ls => exact ⟨c, _, List.mem_cons_self, rfl⟩

/-- The first doubled separator comes after the last line. -/
theorem breakOn_joinPair {a b : α} (hab : a ≠ b) {ls : List (List α)}
    (h : ∀ l ∈ ls, a ∉ l ∧ l ≠ []) (hne : ls ≠ []) (rest : List α) :
    breakOn [a, b, a, b] (joinPair a b ls ++ [a, b, a, b] ++ rest) =
      some (joinPair a b ls, rest) := by
  induction ls with
  | nil => exact absurd rfl hne
  | cons l ls ih =>
    have hl := (h l List.mem_cons_self).1
    cases ls with
    | nil => exact breakOn_first hl
    | cons l' ls =>
      have ih := ih (fun x hx => h x (List.mem_cons_of_mem _ hx)) (List.cons_ne_nil _ _)
      obtain ⟨hl', hne'⟩ := h l' (by simp)
      obtain ⟨c, r, hc, hr⟩ := head_joinPair (a := a) (b := b) hne' ls
      have hca : c ≠ a := fun he => hl' (he ▸ hc)
      have h₁ : ¬ [a, b, a, b] <+: a :: b :: (joinPair a b (l' :: ls) ++ [a, b, a, b] ++ rest) := by
        rintro ⟨t, ht⟩
        simp only [hr, List.cons_append, List.cons.injEq, true_and] at ht
        exact hca ht.1.symm
      have h₂ : ¬ [a, b, a, b] <+: b :: (joinPair a b (l' :: ls) ++ [a, b, a, b] ++ rest) := by
        rintro ⟨t, ht⟩
        simp only [List.cons_append, List.cons.injEq] at ht
        exact hab ht.1
      have hj : joinPair a b (l :: l' :: ls) = l ++ a :: b :: joinPair a b (l' :: ls) := rfl
      rw [hj, List.append_assoc, List.append_assoc, breakOn_skip hl, List.cons_append,
        List.cons_append, ← List.append_assoc, breakOn_cons h₁, breakOn_cons h₂, ih]
      rfl

theorem splitPair_ne_nil (a b : α) (l : List α) : splitPair a b l ≠ [] := by
  induction l using splitPair.induct a b with
  | case1 => exact List.cons_ne_nil _ _
  | case2 x => exact List.cons_ne_nil _ _
  | case3 x y r hxy ih =>
    rw [splitPair, if_pos hxy]
    exact List.cons_ne_nil _ _
  | case4 x y r hxy ih =>
    obtain ⟨first, rest, hsplit⟩ := List.exists_cons_of_ne_nil ih
    rw [splitPair, if_neg hxy, hsplit]
    exact List.cons_ne_nil _ _

/-- The first piece is a beginning, no piece contains the pair, and a piece has no new items. -/
theorem splitPair_pieces {a b : α} {l first : List α} {rest : List (List α)}
    (h : splitPair a b l = first :: rest) :
    first <+: l ∧ ∀ piece ∈ first :: rest, (¬ [a, b] <:+: piece) ∧ piece ⊆ l := by
  have hnil : ¬ [a, b] <:+: ([] : List α) := fun hin => List.cons_ne_nil _ _ (List.infix_nil.1 hin)
  induction l using splitPair.induct a b generalizing first rest with
  | case1 =>
    cases h
    refine ⟨List.prefix_refl [], fun piece hpiece => ?_⟩
    rw [List.mem_singleton.1 hpiece]
    exact ⟨hnil, List.Subset.refl []⟩
  | case2 x =>
    cases h
    refine ⟨List.prefix_refl [x], fun piece hpiece => ?_⟩
    rw [List.mem_singleton.1 hpiece]
    refine ⟨fun hin => ?_, List.Subset.refl [x]⟩
    have hlength := hin.length_le
    rw [List.length_singleton] at hlength
    exact absurd hlength (Nat.not_succ_le_self 1)
  | case3 x y r hxy ih =>
    rw [splitPair, if_pos hxy] at h
    obtain ⟨second, others, hsplit⟩ := List.exists_cons_of_ne_nil (splitPair_ne_nil a b r)
    cases h
    refine ⟨List.nil_prefix, fun piece hpiece => ?_⟩
    rcases List.mem_cons.1 hpiece with rfl | hpiece
    · exact ⟨hnil, List.nil_subset _⟩
    · rw [hsplit] at hpiece
      obtain ⟨hno, hsub⟩ := (ih hsplit).2 piece hpiece
      exact ⟨hno, List.subset_cons_of_subset x (List.subset_cons_of_subset y hsub)⟩
  | case4 x y r hxy ih =>
    rw [splitPair, if_neg hxy] at h
    obtain ⟨second, others, hsplit⟩ := List.exists_cons_of_ne_nil (splitPair_ne_nil a b (y :: r))
    rw [hsplit] at h
    cases h
    obtain ⟨hbegins, hpieces⟩ := ih hsplit
    refine ⟨List.cons_prefix_cons.2 ⟨rfl, hbegins⟩, fun piece hpiece => ?_⟩
    rcases List.mem_cons.1 hpiece with rfl | hpiece
    · obtain ⟨hno, hsub⟩ := hpieces second List.mem_cons_self
      refine ⟨fun hin => ?_, List.cons_subset_cons x hsub⟩
      rcases List.infix_cons_iff.1 hin with hin | hin
      · obtain ⟨rfl, hpair⟩ := List.cons_prefix_cons.1 hin
        have hy := List.cons_prefix_cons.1 (hpair.trans hbegins)
        exact hxy ⟨rfl, hy.1.symm⟩
      · exact hno hin
    · obtain ⟨hno, hsub⟩ := hpieces piece (List.mem_cons_of_mem second hpiece)
      exact ⟨hno, List.subset_cons_of_subset x hsub⟩

theorem splitPair_whole {a b : α} {l : List α} (h : ¬ [a, b] <:+: l) : splitPair a b l = [l] := by
  induction l using splitPair.induct a b with
  | case1 => rfl
  | case2 x => rfl
  | case3 x y r hxy ih =>
    obtain ⟨rfl, rfl⟩ := hxy
    exact absurd (List.prefix_append [x, y] r).isInfix h
  | case4 x y r hxy ih =>
    rw [splitPair, if_neg hxy, ih fun hin => h (List.infix_cons hin)]
    rfl

theorem splitPair_cut {a b : α} (hab : a ≠ b) {l : List α} (h : ¬ [a, b] <:+: l) (r : List α) :
    splitPair a b (l ++ a :: b :: r) = l :: splitPair a b r := by
  induction l with
  | nil => rw [List.nil_append, splitPair, if_pos ⟨rfl, rfl⟩]
  | cons x l ih =>
    have hrest := ih fun hin => h (List.infix_cons hin)
    cases l with
    | nil =>
      rw [List.nil_append] at hrest
      rw [List.cons_append, List.nil_append, splitPair, if_neg fun hx => hab hx.2, hrest]
      rfl
    | cons y l =>
      have hxy : ¬ (x = a ∧ y = b) := by
        rintro ⟨rfl, rfl⟩
        exact h (List.prefix_append [x, y] l).isInfix
      rw [List.cons_append] at hrest
      rw [List.cons_append, List.cons_append, splitPair, if_neg hxy, hrest]
      rfl

/-- Lines that do not contain the separator are found again. -/
theorem splitPair_lines {a b : α} (hab : a ≠ b) {ls : List (List α)}
    (h : ∀ l ∈ ls, ¬ [a, b] <:+: l) (hne : ls ≠ []) : splitPair a b (joinPair a b ls) = ls := by
  induction ls with
  | nil => exact absurd rfl hne
  | cons l ls ih =>
    have hl := h l List.mem_cons_self
    cases ls with
    | nil => exact splitPair_whole hl
    | cons l' ls =>
      have hrest := ih (fun x hx => h x (List.mem_cons_of_mem l hx)) (List.cons_ne_nil l' ls)
      have hjoin : joinPair a b (l :: l' :: ls) = l ++ a :: b :: joinPair a b (l' :: ls) := rfl
      rw [hjoin, splitPair_cut hab hl, hrest]

/-- No part contains the separator, and no part has new items. -/
theorem splitOn_part (a : α) (l : List α) : ∀ part ∈ l.splitOn a, a ∉ part ∧ part ⊆ l := by
  induction l with
  | nil =>
    intro part hpart
    rw [List.splitOn_nil, List.mem_singleton] at hpart
    rw [hpart]
    exact ⟨List.not_mem_nil, List.Subset.refl []⟩
  | cons x l ih =>
    intro part hpart
    obtain ⟨first, rest, hsplit⟩ := List.exists_cons_of_ne_nil (List.splitOn_ne_nil a l)
    rw [List.splitOn_cons_eq_if_modifyHead] at hpart
    split at hpart
    · rcases List.mem_cons.1 hpart with rfl | hpart
      · exact ⟨List.not_mem_nil, List.nil_subset _⟩
      · exact ⟨(ih part hpart).1, List.subset_cons_of_subset x (ih part hpart).2⟩
    · next hx =>
      rw [hsplit] at hpart ih
      rcases List.mem_cons.1 hpart with rfl | hpart
      · obtain ⟨hmem, hsub⟩ := ih first List.mem_cons_self
        refine ⟨fun h => ?_, List.cons_subset_cons x hsub⟩
        rcases List.mem_cons.1 h with rfl | h
        · exact hx (beq_self_eq_true _)
        · exact hmem h
      · obtain ⟨hmem, hsub⟩ := ih part (List.mem_cons_of_mem first hpart)
        exact ⟨hmem, List.subset_cons_of_subset x hsub⟩

theorem length_splitOn (a : α) (l : List α) : (l.splitOn a).length = l.count a + 1 := by
  induction l with
  | nil => rfl
  | cons x l ih =>
    rw [List.splitOn_cons_eq_if_modifyHead, List.count_cons]
    split
    · rw [List.length_cons, ih]
    · rw [List.length_modifyHead, ih, Nat.add_zero]

/-- Divide a list at each occurrence of a marker, from left to right. An occurrence that has been met
is skipped. -/
def splitAll (m : List α) : (skip : Nat) → List α → List (List α)
  | _, [] => [[]]
  | skip + 1, _ :: l => splitAll m skip l
  | 0, x :: l =>
    if m.isPrefixOf (x :: l) then [] :: splitAll m (m.length - 1) l
    else (splitAll m 0 l).modifyHead (x :: ·)

theorem splitAll_skip (m : List α) (skip : Nat) (l : List α) :
    splitAll m skip l = splitAll m 0 (l.drop skip) := by
  induction skip generalizing l with
  | zero => rfl
  | succ skip ih =>
    cases l with
    | nil => rfl
    | cons x l => rw [splitAll, ih, List.drop_succ_cons]

theorem splitAll_of_breakOn {m l b a : List α} (hm : m ≠ []) (h : breakOn m l = some (b, a)) :
    splitAll m 0 l = b :: splitAll m 0 a := by
  induction l generalizing b with
  | nil =>
    rw [breakOn, if_neg hm] at h
    cases h
  | cons x l ih =>
    rw [breakOn] at h
    rw [splitAll]
    split at h
    · next hstarts =>
      cases h
      obtain ⟨y, m, rfl⟩ := List.exists_cons_of_ne_nil hm
      rw [if_pos hstarts, splitAll_skip]
      rfl
    · next hstarts =>
      obtain ⟨⟨b', a'⟩, hbreak, hcons⟩ := Option.map_eq_some_iff.1 h
      cases hcons
      rw [if_neg hstarts, ih hbreak]
      rfl

theorem splitAll_single {m l : List α} (h : ¬ m <:+: l) : splitAll m 0 l = [l] := by
  induction l with
  | nil => rfl
  | cons x l ih =>
    rw [List.infix_cons_iff, not_or] at h
    rw [splitAll, if_neg (fun hstarts => h.1 (List.isPrefixOf_iff_prefix.1 hstarts)), ih h.2]
    rfl

omit [DecidableEq α] in
/-- A marker that begins before an item it does not have ends before it. -/
theorem prefix_append_cons {c : α} {m b r : List α} (hc : c ∉ m) (h : m <+: b ++ c :: r) :
    m <+: b := by
  induction b generalizing m with
  | nil =>
    cases m with
    | nil => exact List.nil_prefix
    | cons x m =>
      have hx := (List.cons_prefix_cons.1 h).1
      exact absurd (hx ▸ List.mem_cons_self) hc
  | cons y b ih =>
    cases m with
    | nil => exact List.nil_prefix
    | cons x m =>
      obtain ⟨rfl, hrest⟩ := List.cons_prefix_cons.1 h
      exact List.cons_prefix_cons.2 ⟨rfl, ih (fun hm => hc (List.mem_cons_of_mem x hm)) hrest⟩

omit [DecidableEq α] in
theorem infix_append_cons {c : α} {m b r : List α} (hc : c ∉ m) (h : m <:+: b ++ c :: r) :
    m <:+: b ∨ m <:+: r := by
  induction b with
  | nil =>
    rcases List.infix_cons_iff.1 h with h | h
    · exact .inl (prefix_append_cons (b := []) hc h).isInfix
    · exact .inr h
  | cons y b ih =>
    rcases List.infix_cons_iff.1 h with h | h
    · exact .inl (prefix_append_cons hc h).isInfix
    · rcases ih h with h | h
      · exact .inl (List.infix_cons h)
      · exact .inr h

omit [DecidableEq α] in
/-- A marker without the separators that occurs in joined lines occurs in one of them. -/
theorem not_infix_joinPair {a b : α} {m : List α} {ls : List (List α)} (hm : m ≠ []) (ha : a ∉ m)
    (hb : b ∉ m) (h : ∀ l ∈ ls, ¬ m <:+: l) : ¬ m <:+: joinPair a b ls := by
  induction ls with
  | nil => exact fun hin => hm (List.infix_nil.1 hin)
  | cons l ls ih =>
    have hl := h l List.mem_cons_self
    cases ls with
    | nil => exact hl
    | cons l' ls =>
      have hrest := ih fun x hx => h x (List.mem_cons_of_mem l hx)
      have hjoin : joinPair a b (l :: l' :: ls) = l ++ a :: b :: joinPair a b (l' :: ls) := rfl
      rw [hjoin]
      intro hin
      rcases infix_append_cons ha hin with hin | hin
      · exact hl hin
      · rcases infix_append_cons (b := []) hb hin with hin | hin
        · exact hm (List.infix_nil.1 hin)
        · exact hrest hin

/-- The marker is met first where it stands after an item it does not have. -/
theorem breakOn_after {c : α} {m b : List α} (hm : m ≠ []) (hc : c ∉ m) (h : ¬ m <:+: b)
    (a : List α) : breakOn m (b ++ c :: (m ++ a)) = some (b ++ [c], a) := by
  induction b with
  | nil =>
    have hno : ¬ m <+: c :: (m ++ a) := fun hstarts =>
      hm (List.prefix_nil.1 (prefix_append_cons (b := []) hc hstarts))
    rw [List.nil_append, breakOn_cons hno, breakOn_start (List.prefix_append m a), List.drop_left]
    rfl
  | cons x b ih =>
    have hno : ¬ m <+: x :: b ++ c :: (m ++ a) := fun hstarts =>
      h (prefix_append_cons hc hstarts).isInfix
    rw [List.cons_append] at hno ⊢
    rw [breakOn_cons hno, ih fun hin => h (List.infix_cons hin)]
    rfl

omit [DecidableEq α] in
/-- Joined values have the length of the values, with one item more for each but the last. -/
theorem length_intercalate (c : α) {values : List (List α)} (h : values ≠ []) :
    ([c].intercalate values).length + 1 = (values.map fun v => v.length + 1).sum := by
  induction values with
  | nil => exact absurd rfl h
  | cons v values ih =>
    cases values with
    | nil => simp
    | cons w values =>
      have hrest := ih (List.cons_ne_nil w values)
      rw [List.intercalate_cons_cons, List.map_cons, List.sum_cons, ← hrest]
      simp only [List.length_append, List.length_singleton]
      omega

omit [DecidableEq α] in
/-- A joined list has the items of its parts and the separator. -/
theorem mem_intercalate {a c : α} {values : List (List α)}
    (h : c ∈ [a].intercalate values) : c = a ∨ ∃ value ∈ values, c ∈ value := by
  induction values with
  | nil => cases h
  | cons v values ih =>
    cases values with
    | nil =>
      rw [List.intercalate_singleton] at h
      exact .inr ⟨v, List.mem_cons_self, h⟩
    | cons w values =>
      rw [List.intercalate_cons_cons, List.append_assoc, List.mem_append, List.singleton_append,
        List.mem_cons] at h
      rcases h with h | h | h
      · exact .inr ⟨v, List.mem_cons_self, h⟩
      · exact .inl h
      · rcases ih h with h | ⟨value, hv, h⟩
        · exact .inl h
        · exact .inr ⟨value, List.mem_cons_of_mem v hv, h⟩

/-- The pieces between the separators contain none. -/
theorem not_mem_splitOn {c : α} {l piece : List α} (h : piece ∈ l.splitOn c) : c ∉ piece := by
  induction l generalizing piece with
  | nil =>
    rw [List.splitOn_nil, List.mem_singleton] at h
    rw [h]
    exact List.not_mem_nil
  | cons x l ih =>
    rw [List.splitOn_cons_eq_if_modifyHead] at h
    split at h
    · rcases List.mem_cons.1 h with rfl | h
      · exact List.not_mem_nil
      · exact ih h
    · next hx =>
      obtain ⟨first, rest, hsplit⟩ := List.exists_cons_of_ne_nil (List.splitOn_ne_nil c l)
      rw [hsplit] at h ih
      rcases List.mem_cons.1 h with rfl | h
      · rw [List.mem_cons, not_or]
        exact ⟨fun he => hx (beq_iff_eq.2 he.symm), ih List.mem_cons_self⟩
      · exact ih (List.mem_cons_of_mem first h)

end Marker
