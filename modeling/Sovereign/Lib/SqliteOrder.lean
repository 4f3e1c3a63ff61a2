import Sovereign.Lib.SqliteRelation

set_option autoImplicit true

/-! # The order of rows -/

namespace Sqlite

theorem lexicographic_swap (number : α → Nat) (l l' : List α) :
    lexicographic number l' l = (lexicographic number l l').swap := by
  induction l generalizing l' with
  | nil =>
    cases l' with
    | nil => rfl
    | cons => rfl
  | cons a l ih =>
    cases l' with
    | nil => rfl
    | cons b l' =>
      rw [lexicographic, lexicographic, Ordering.swap_then, ih, Nat.compare_swap]

theorem lexicographic_cons {number : α → Nat} {a b : α} {l l' : List α} :
    lexicographic number (a :: l) (b :: l') ≠ .gt ↔
      number a < number b ∨ number a = number b ∧ lexicographic number l l' ≠ .gt := by
  rw [lexicographic]
  rcases Nat.lt_trichotomy (number a) (number b) with h | h | h
  · rw [Nat.compare_eq_lt.2 h]
    exact ⟨fun _ => .inl h, fun _ h' => by cases h'⟩
  · rw [Nat.compare_eq_eq.2 h]
    exact ⟨fun h' => .inr ⟨h, h'⟩, fun h' => h'.elim (fun h' => by omega) And.right⟩
  · rw [Nat.compare_eq_gt.2 h]
    exact ⟨fun h' => absurd rfl h', fun h' => by omega⟩

theorem lexicographic_trans {number : α → Nat} {l l' l'' : List α}
    (h : lexicographic number l l' ≠ .gt) (h' : lexicographic number l' l'' ≠ .gt) :
    lexicographic number l l'' ≠ .gt := by
  induction l generalizing l' l'' with
  | nil =>
    cases l'' with
    | nil => exact fun h => by cases h
    | cons => exact fun h => by cases h
  | cons a l ih =>
    cases l' with
    | nil => exact absurd rfl h
    | cons b l' =>
      cases l'' with
      | nil => exact absurd rfl h'
      | cons c l'' =>
        rw [lexicographic_cons] at h h' ⊢
        obtain h | ⟨heq, h⟩ := h
        · obtain h' | ⟨heq', _⟩ := h'
          · exact .inl (Nat.lt_trans h h')
          · exact .inl (heq' ▸ h)
        · obtain h' | ⟨heq', h'⟩ := h'
          · exact .inl (heq ▸ h')
          · exact .inr ⟨heq.trans heq', ih h h'⟩

/-- Numbers are ordered, whether they are integers or reals. -/
structure Comparisons.Ordered (conv : Comparisons φ) : Prop where
  reals_swap : ∀ x y, conv.reals y x = (conv.reals x y).swap
  numbers_trans : ∀ {a b c : Value φ}, a.rank = 1 → b.rank = 1 → c.rank = 1 →
    conv.order a b ≠ .gt → conv.order b c ≠ .gt → conv.order a c ≠ .gt

namespace Comparisons

variable {conv : Comparisons φ} {a b c : Value φ}

theorem order_of_rank (conv : Comparisons φ) (h : a.rank ≠ b.rank) :
    conv.order a b = compare a.rank b.rank := by
  cases a with
  | null => rfl
  | integer =>
    cases b with
    | integer => exact absurd rfl h
    | real => exact absurd rfl h
    | _ => rfl
  | real =>
    cases b with
    | integer => exact absurd rfl h
    | real => exact absurd rfl h
    | _ => rfl
  | text =>
    cases b with
    | text => exact absurd rfl h
    | _ => rfl
  | blob =>
    cases b with
    | blob => exact absurd rfl h
    | _ => rfl

theorem rank_le (h : conv.order a b ≠ .gt) : a.rank ≤ b.rank := by
  by_contra hlt
  apply h
  rw [order_of_rank conv (by omega)]
  exact Nat.compare_eq_gt.2 (by omega)

namespace Ordered

theorem order_swap (h : conv.Ordered) (a b : Value φ) :
    conv.order b a = (conv.order a b).swap := by
  by_cases hrank : a.rank = b.rank
  · cases a with
    | null =>
      cases b with
      | null => rfl
      | _ => cases hrank
    | integer m =>
      cases b with
      | integer n => exact (Int.compare_swap m n).symm
      | real y => rfl
      | _ => cases hrank
    | real x =>
      cases b with
      | integer n => exact Ordering.swap_swap.symm
      | real y => exact h.reals_swap x y
      | _ => cases hrank
    | text s =>
      cases b with
      | text t => exact lexicographic_swap Char.toNat s t
      | _ => cases hrank
    | blob s =>
      cases b with
      | blob t => exact lexicographic_swap UInt8.toNat s t
      | _ => cases hrank
  · rw [order_of_rank conv hrank, order_of_rank conv (Ne.symm hrank), Nat.compare_swap]

theorem order_trans (h : conv.Ordered) (hab : conv.order a b ≠ .gt) (hbc : conv.order b c ≠ .gt) :
    conv.order a c ≠ .gt := by
  have hab' := rank_le hab
  have hbc' := rank_le hbc
  by_cases hac : a.rank = c.rank
  · have hrank : a.rank = b.rank := by omega
    cases a with
    | null =>
      cases c with
      | null => exact fun h => by cases h
      | _ => cases hac
    | integer => exact h.numbers_trans rfl hrank.symm hac.symm hab hbc
    | real => exact h.numbers_trans rfl hrank.symm hac.symm hab hbc
    | text =>
      cases b with
      | text =>
        cases c with
        | text => exact lexicographic_trans hab hbc
        | _ => cases hac
      | _ => cases hrank
    | blob =>
      cases b with
      | blob =>
        cases c with
        | blob => exact lexicographic_trans hab hbc
        | _ => cases hac
      | _ => cases hrank
  · rw [order_of_rank conv hac, Nat.compare_eq_lt.2 (by omega)]
    exact fun h => by cases h

theorem before_trans (h : conv.Ordered) (descending : Bool)
    (hab : conv.before descending a b = true) (hbc : conv.before descending b c = true) :
    conv.before descending a c = true := by
  cases descending with
  | false =>
    apply bne_iff_ne.2
    exact h.order_trans (bne_iff_ne.1 hab) (bne_iff_ne.1 hbc)
  | true =>
    have hswap {a b : Value φ} : conv.order a b ≠ .lt ↔ conv.order b a ≠ .gt := by
      rw [h.order_swap a b]
      cases conv.order a b with
      | _ => decide
    apply bne_iff_ne.2
    apply hswap.2
    exact h.order_trans (hswap.1 (bne_iff_ne.1 hbc)) (hswap.1 (bne_iff_ne.1 hab))

theorem before_total (h : conv.Ordered) (descending : Bool) (a b : Value φ) :
    (conv.before descending a b || conv.before descending b a) = true := by
  rw [before, before, h.order_swap a b]
  cases descending with
  | _ =>
    cases conv.order a b with
    | _ => rfl

end Ordered

end Comparisons

namespace Relation

variable {t : Relation φ} {conv : Comparisons φ} {rows : List (Int × List (Value φ))}

theorem sorted_perm (order : Option (List Char × Bool)) :
    (t.sorted conv order rows).Perm rows := by
  cases order with
  | none => exact .refl rows
  | some order => exact List.mergeSort_perm _ _

theorem scan_perm (t : Relation φ) : t.scan.Perm t.rows.entries := List.mergeSort_perm _ _

theorem sorted_pairwise (h : conv.Ordered) (name : List Char) (descending : Bool) :
    (t.sorted conv (some (name, descending)) rows).Pairwise fun a b =>
      conv.before descending (t.value a name) (t.value b name) = true := by
  apply List.pairwise_mergeSort
  · intro a b c hab hbc
    exact h.before_trans descending hab hbc
  · intro a b
    exact h.before_total descending _ _

end Relation

end Sqlite
