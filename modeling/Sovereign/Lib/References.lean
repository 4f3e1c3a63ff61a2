import Mathlib.Data.Fintype.Pigeonhole
import Mathlib.Logic.Relation
import Mathlib.Order.WellFounded

set_option autoImplicit true

/-! # Following references, with a limit on the depth -/

namespace References

variable (next : α → List α)

/-- The references that are followed from here go less deep than the limit. -/
def Within : Nat → α → Prop
  | 0, _ => False
  | limit + 1, a => ∀ b ∈ next a, Within limit b

def Refers (a b : α) : Prop := b ∈ next a

variable {next}

theorem Within.succ (h : Within next limit a) : Within next (limit + 1) a := by
  induction limit generalizing a with
  | zero => cases h
  | succ limit ih => exact fun b hb => ih (h b hb)

theorem Within.mono (h : Within next limit a) (hle : limit ≤ limit') : Within next limit' a := by
  induction hle with
  | refl => exact h
  | step _ ih => exact ih.succ

/-- Limits for the members of a list have a common one. -/
theorem within_all {l : List α} (h : ∀ a ∈ l, ∃ limit, Within next limit a) :
    ∃ limit, ∀ a ∈ l, Within next limit a := by
  induction l with
  | nil => exact ⟨0, fun a ha => absurd ha List.not_mem_nil⟩
  | cons a l ih =>
    obtain ⟨⟨first, hfirst⟩, hl⟩ := List.forall_mem_cons.1 h
    obtain ⟨rest, hrest⟩ := ih hl
    refine ⟨max first rest, List.forall_mem_cons.2 ⟨hfirst.mono (le_max_left _ _), fun b hb => ?_⟩⟩
    exact (hrest b hb).mono (le_max_right _ _)

theorem exists_within_iff_acc :
    (∃ limit, Within next limit a) ↔ Acc (fun b a => Refers next a b) a := by
  constructor
  · intro ⟨limit, h⟩
    induction limit generalizing a with
    | zero => cases h
    | succ limit ih => exact .intro a fun b hb => ih (h b hb)
  · intro h
    induction h with
    | intro a _ ih =>
      obtain ⟨limit, hlimit⟩ : ∃ limit, ∀ b ∈ next a, Within next limit b := within_all ih
      exact ⟨limit + 1, hlimit⟩

/-- There is a limit just if no chain of references goes on forever. -/
theorem exists_within_iff :
    (∃ limit, Within next limit a) ↔
      ∀ chain : Nat → α, chain 0 = a → ∃ n, ¬ Refers next (chain n) (chain (n + 1)) := by
  rw [exists_within_iff_acc, ← not_iff_not, not_acc_iff_exists_descending_chain]
  simp only [not_forall, not_exists, not_not, exists_prop]

theorem irrefl_of_acc {r : α → α → Prop} (h : Acc r a) : ¬ r a a := by
  induction h with
  | intro a _ ih => exact fun haa => ih a haa haa

/-- Among finitely many, an endless chain comes back to where it was. -/
theorem exists_within_iff_finite [Finite α] :
    (∃ limit, Within next limit a) ↔
      ∀ b, Relation.ReflTransGen (Refers next) a b → ¬ Relation.TransGen (Refers next) b b := by
  constructor
  · intro h b hab hbb
    rw [exists_within_iff_acc] at h
    have hb : Acc (fun b a => Refers next a b) b := by
      clear hbb
      induction hab with
      | refl => exact h
      | tail _ hbc ih => exact ih.inv hbc
    exact irrefl_of_acc hb.transGen (Relation.transGen_swap.2 hbb)
  · intro h
    rw [exists_within_iff]
    intro chain hchain
    by_contra hforever
    simp only [not_exists, not_not] at hforever
    have hreach : ∀ m n, Relation.ReflTransGen (Refers next) (chain m) (chain (m + n)) := by
      intro m n
      induction n with
      | zero => exact .refl
      | succ n ih => exact ih.tail (hforever (m + n))
    have hcycle : ∀ i j, i < j → chain i ≠ chain j := by
      intro i j hij heq
      obtain ⟨k, rfl⟩ := Nat.exists_eq_add_of_lt hij
      have hback : Relation.TransGen (Refers next) (chain i) (chain (i + 1 + k)) :=
        .head' (hforever i) (hreach (i + 1) k)
      rw [Nat.add_right_comm, ← heq] at hback
      have hstart := hreach 0 i
      rw [hchain, Nat.zero_add] at hstart
      exact h _ hstart hback
    obtain ⟨i, j, hne, heq⟩ := Finite.exists_ne_map_eq_of_infinite chain
    obtain hij | hji := Nat.lt_or_gt_of_ne hne
    · exact hcycle i j hij heq
    · exact hcycle j i hji heq.symm

end References
