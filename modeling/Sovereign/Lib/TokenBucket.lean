import Mathlib.Algebra.Order.Floor.Semiring
import Mathlib.Data.List.Induction
import Mathlib.Tactic.Common
import Mathlib.Tactic.Linarith
import Mathlib.Tactic.Ring

set_option autoImplicit true

/-! A bucket of tokens that fills at a constant rate up to its capacity. -/

namespace TokenBucket

variable {K : Type} [Field K] [LinearOrder K]

structure Params (K : Type) [Field K] [LinearOrder K] where
  capacity : K
  refillRate : K
  refillRate_nonneg : 0 ≤ refillRate

/-- The tokens at the time of the last draw. -/
structure Bucket (K : Type) where
  tokens : K
  updated : K

/-- A draw of one token, with what is left. -/
structure Draw (K : Type) where
  time : K
  allowed : Bool
  tokens : K

def Draw.bucket (e : Draw K) : Bucket K := ⟨e.tokens, e.time⟩

variable (p : Params K)

/-- The tokens at a later time; nothing has been drawn yet from a bucket that is not there. -/
def level : Option (Bucket K) → K → K
  | none, _ => p.capacity
  | some b, now => min p.capacity (b.tokens + (now - b.updated) * p.refillRate)

def draw (b : Option (Bucket K)) (now : K) : Draw K :=
  if 1 ≤ level p b now then ⟨now, true, level p b now - 1⟩ else ⟨now, false, level p b now⟩

def draws (b : Option (Bucket K)) : List K → List (Draw K)
  | [] => []
  | now :: times => draw p b now :: draws (some (draw p b now).bucket) times

variable {p}

@[simp] theorem draw_time (b : Option (Bucket K)) (now : K) : (draw p b now).time = now := by
  rw [draw]
  split <;> rfl

theorem level_le (b : Option (Bucket K)) (now : K) : level p b now ≤ p.capacity := by
  cases b with
  | none => exact le_rfl
  | some b => exact min_le_left _ _

/-- The tokens drawn and left are those that were there. -/
theorem draw_tokens (b : Option (Bucket K)) (now : K) :
    (if (draw p b now).allowed then 1 else 0) + (draw p b now).tokens = level p b now := by
  rw [draw]
  split
  · simp
  · simp

/-- What comes after some draws are draws again. -/
theorem draws_split (h : draws p b ts = l ++ l') : ∃ b' ts', l' = draws p b' ts' := by
  induction l generalizing b ts with
  | nil => exact ⟨b, ts, h.symm⟩
  | cons e l ih =>
    cases ts with
    | nil => simp [draws] at h
    | cons t ts =>
      rw [draws, List.cons_append, List.cons.injEq] at h
      exact ih h.2

theorem draws_take (h : draws p b ts = l ++ l') : ∃ ts', draws p b ts' = l := by
  induction l generalizing b ts with
  | nil => exact ⟨[], rfl⟩
  | cons e l ih =>
    cases ts with
    | nil => simp [draws] at h
    | cons t ts =>
      rw [draws, List.cons_append, List.cons.injEq] at h
      obtain ⟨ts', hts'⟩ := ih h.2
      exact ⟨t :: ts', by rw [draws, hts', h.1]⟩

/-- After a draw the next ones go on with what it has left. -/
theorem draws_split_cons (h : draws p b ts = l ++ e :: l') :
    ∃ ts', l' = draws p (some e.bucket) ts' := by
  induction l generalizing b ts with
  | nil =>
    cases ts with
    | nil => simp [draws] at h
    | cons t ts =>
      rw [draws, List.nil_append, List.cons.injEq] at h
      exact ⟨ts, by rw [← h.2, h.1]⟩
  | cons e' l ih =>
    cases ts with
    | nil => simp [draws] at h
    | cons t ts =>
      rw [draws, List.cons_append, List.cons.injEq] at h
      exact ih h.2

theorem draws_time (b : Option (Bucket K)) (ts : List K) :
    (draws p b ts).map Draw.time = ts := by
  induction ts generalizing b with
  | nil => rfl
  | cons t ts ih => rw [draws, List.map_cons, draw_time, ih]

def admitted (l : List (Draw K)) : Nat := l.countP Draw.allowed

omit [LinearOrder K] in
theorem admitted_cons (e : Draw K) (l : List (Draw K)) :
    (admitted (e :: l) : K) = (if e.allowed then 1 else 0) + admitted l := by
  rw [admitted, List.countP_cons, ← admitted, Nat.cast_add, add_comm]
  split <;> simp

variable [IsStrictOrderedRing K]

theorem draw_tokens_le (b : Option (Bucket K)) (now : K) :
    (draw p b now).tokens ≤ p.capacity := by
  have hsum := draw_tokens (p := p) b now
  have hle := level_le (p := p) b now
  split at hsum <;> linarith

theorem tokens_nonneg_of_allowed (b : Option (Bucket K)) (now : K)
    (h : (draw p b now).allowed = true) : 0 ≤ (draw p b now).tokens := by
  rw [draw] at h ⊢
  split
  · next hx => exact sub_nonneg.2 hx
  · next hx => simp [hx] at h

theorem draws_tokens_le (b : Option (Bucket K)) (ts : List K) :
    ∀ e ∈ draws p b ts, e.tokens ≤ p.capacity := by
  induction ts generalizing b with
  | nil => simp [draws]
  | cons t ts ih =>
    intro e he
    rcases List.mem_cons.1 he with rfl | he
    · exact draw_tokens_le b t
    · exact ih _ e he

/-- What is drawn and left has been there or has been filled up since. -/
theorem admitted_add_tokens_le (h : draws p (some b) ts = l ++ [e]) :
    (admitted (l ++ [e]) : K) + e.tokens ≤ b.tokens + (e.time - b.updated) * p.refillRate := by
  induction l generalizing b ts with
  | nil =>
    cases ts with
    | nil => simp [draws] at h
    | cons t ts =>
      rw [draws, List.nil_append, List.cons.injEq] at h
      obtain ⟨rfl, -⟩ := h
      rw [List.nil_append, admitted_cons, draw_time]
      have hsum := draw_tokens (p := p) (some b) t
      have hle : level p (some b) t ≤ b.tokens + (t - b.updated) * p.refillRate :=
        min_le_right _ _
      simp only [admitted, List.countP_nil, Nat.cast_zero, add_zero]
      linarith
  | cons e' l ih =>
    cases ts with
    | nil => simp [draws] at h
    | cons t ts =>
      rw [draws, List.cons_append, List.cons.injEq] at h
      obtain ⟨rfl, h⟩ := h
      have hrest := ih h
      have hsum := draw_tokens (p := p) (some b) t
      have hle : level p (some b) t ≤ b.tokens + (t - b.updated) * p.refillRate :=
        min_le_right _ _
      simp only [Draw.bucket, draw_time] at hrest
      rw [List.cons_append, admitted_cons]
      have hsplit : (e.time - b.updated) * p.refillRate =
          (e.time - t) * p.refillRate + (t - b.updated) * p.refillRate := by ring
      linarith

/-- The admission bound: from the first draw to one that is allowed. -/
theorem admitted_le (h : draws p b ts = l) (hfirst : l.head? = some first)
    (hlast : l.getLast? = some last) (hallowed : last.allowed = true) :
    (admitted l : K) ≤ p.capacity + (last.time - first.time) * p.refillRate := by
  have hnonneg : 0 ≤ last.tokens := by
    obtain ⟨l', rfl⟩ := List.getLast?_eq_some_iff.1 hlast
    obtain ⟨b', ts', htail⟩ := draws_split h
    cases ts' with
    | nil => simp [draws] at htail
    | cons t ts' =>
      rw [draws, List.cons.injEq] at htail
      rw [htail.1] at hallowed ⊢
      exact tokens_nonneg_of_allowed b' t hallowed
  cases ts with
  | nil =>
    rw [← h] at hfirst
    cases hfirst
  | cons t ts =>
    rw [draws] at h
    subst h
    cases hfirst
    have hsum := draw_tokens (p := p) b t
    have hle := level_le (p := p) b t
    rw [admitted_cons, draw_time]
    rcases List.eq_nil_or_concat (draws p (some (draw p b t).bucket) ts) with hnil | ⟨l, e, hl⟩
    · rw [hnil] at hlast ⊢
      rw [List.getLast?_singleton, Option.some.injEq] at hlast
      subst hlast
      simp only [admitted, List.countP_nil, Nat.cast_zero, add_zero, draw_time, sub_self, zero_mul]
      linarith
    · rw [List.concat_eq_append] at hl
      have hrest := admitted_add_tokens_le hl
      rw [hl, List.getLast?_cons, List.getLast?_concat, Option.getD_some,
        Option.some.injEq] at hlast
      subst hlast
      simp only [Draw.bucket, draw_time] at hrest
      rw [hl]
      linarith

/-- With time going forward no tokens are owed. -/
theorem tokens_nonneg (hb : ∀ b', b = some b' → 0 ≤ b'.tokens ∧ ∀ t ∈ ts, b'.updated ≤ t)
    (hc : 0 ≤ p.capacity) (hts : ts.Pairwise (· ≤ ·)) : ∀ e ∈ draws p b ts, 0 ≤ e.tokens := by
  induction ts generalizing b with
  | nil => simp [draws]
  | cons t ts ih =>
    rw [List.pairwise_cons] at hts
    have hlevel : 0 ≤ level p b t := by
      cases b with
      | none => exact hc
      | some b =>
        obtain ⟨h0, hle⟩ := hb b rfl
        have hfill : 0 ≤ (t - b.updated) * p.refillRate :=
          mul_nonneg (sub_nonneg.2 (hle t (by simp))) p.refillRate_nonneg
        exact le_min hc (add_nonneg h0 hfill)
    have hdraw : 0 ≤ (draw p b t).tokens := by
      cases ha : (draw p b t).allowed with
      | true => exact tokens_nonneg_of_allowed b t ha
      | false =>
        have hsum := draw_tokens (p := p) b t
        rw [ha] at hsum
        simp only [Bool.false_eq_true, ↓reduceIte, zero_add] at hsum
        rwa [hsum]
    intro e he
    rcases List.mem_cons.1 he with rfl | he
    · exact hdraw
    · refine ih (fun b' hb' => ?_) hts.2 e he
      cases hb'
      exact ⟨hdraw, fun u hu => by simpa [Draw.bucket] using hts.1 u hu⟩

/-- At one time there are as many draws as whole tokens. -/
theorem admitted_replicate [FloorSemiring K] (hb : 0 ≤ b.tokens) (hc : b.tokens ≤ p.capacity)
    (n : Nat) :
    admitted (draws p (some b) (List.replicate n b.updated)) = min n ⌊b.tokens⌋₊ := by
  induction n generalizing b with
  | zero => simp [draws, admitted]
  | succ n ih =>
    have hlevel : level p (some b) b.updated = b.tokens := by
      simp only [level, sub_self, zero_mul, add_zero]
      exact min_eq_right hc
    rw [List.replicate_succ, draws]
    by_cases h1 : 1 ≤ b.tokens
    · have hdraw : draw p (some b) b.updated = ⟨b.updated, true, b.tokens - 1⟩ := by
        rw [draw, hlevel, if_pos h1]
      have hrest := ih (b := ⟨b.tokens - 1, b.updated⟩) (sub_nonneg.2 h1) (by simp only; linarith)
      have hfloor : ⌊b.tokens - 1⌋₊ + 1 = ⌊b.tokens⌋₊ := by
        rw [Nat.floor_sub_one, Nat.sub_add_cancel (Nat.one_le_floor_iff _ |>.2 h1)]
      rw [hdraw, admitted, List.countP_cons, ← admitted, Draw.bucket, hrest, ← hfloor]
      simp
    · have hdraw : draw p (some b) b.updated = ⟨b.updated, false, b.tokens⟩ := by
        rw [draw, hlevel, if_neg h1]
      have hrest := ih (b := ⟨b.tokens, b.updated⟩) hb hc
      have hfloor : ⌊b.tokens⌋₊ = 0 := Nat.floor_eq_zero.2 (not_le.1 h1)
      rw [hdraw, admitted, List.countP_cons, ← admitted, Draw.bucket, hrest, hfloor]
      simp

omit [IsStrictOrderedRing K] in
/-- A draw that is denied changes nothing for the later ones. -/
theorem level_denied (hcap : 1 ≤ p.capacity) {b : Option (Bucket K)}
    (h : (draw p b now).allowed = false) (time : K) :
    level p (some (draw p b now).bucket) time = level p b time := by
  rw [draw] at h ⊢
  split
  · next hx =>
    rw [if_pos hx] at h
    cases h
  · next hx =>
    cases b with
    | none => exact absurd hcap hx
    | some b =>
      rw [level, min_def] at hx
      split at hx
      · exact absurd hcap hx
      · next hfull =>
        have hnow : level p (some b) now = b.tokens + (now - b.updated) * p.refillRate :=
          min_eq_right (not_le.1 hfull).le
        have hsum : b.tokens + (now - b.updated) * p.refillRate + (time - now) * p.refillRate =
            b.tokens + (time - b.updated) * p.refillRate := by ring
        rw [Draw.bucket, hnow, level, level, hsum]

end TokenBucket
