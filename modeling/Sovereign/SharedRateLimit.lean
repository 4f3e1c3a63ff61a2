import Sovereign.Lib.Run
import Sovereign.RateLimit

namespace Sovereign
set_option autoImplicit true

/-- Where an instance stands in `_consume_sqlite`, whose lock lets in one thread of it at a time. -/
inductive ConsumePc (κ : Type) where
  | idle
  | selected (key : κ) (now : ℚ) (row : Option (ℚ × ℚ))
  | inserted (now : ℚ)

/-- The table `rate_limits` and the instances that have its file open, with the calls whose
`INSERT` has been made, in the order of these. -/
structure LimitsState (ι κ : Type) where
  rows : Dict κ (ℚ × ℚ)
  instances : ι → ConsumePc κ
  served : List (Served κ)

/-- The statements of an instance. -/
inductive LimitsAction (ι κ : Type) where
  | select (i : ι) (key : κ) (now : ℚ)
  | insert (i : ι)
  | delete (i : ι)

namespace RationalLimiter

open TokenBucket

variable (l : RationalLimiter) {ι κ : Type} [DecidableEq ι] [DecidableEq κ]

def step (s : LimitsState ι κ) : LimitsAction ι κ → Option (LimitsState ι κ)
  | .select i key now =>
    match s.instances i with
    | .idle =>
      some { s with
        instances := Function.update s.instances i (.selected key now (s.rows.get? key)) }
    | _ => none
  | .insert i =>
    match s.instances i with
    | .selected key now row =>
      let consumed := l.consumeFrom row now
      some {
        rows := s.rows.set key (consumed.tokens, now)
        instances := Function.update s.instances i (.inserted now)
        served := s.served ++ [⟨key, now, consumed⟩] }
    | _ => none
  | .delete i =>
    match s.instances i with
    | .inserted now =>
      some { s with
        rows := l.prune s.rows now
        instances := Function.update s.instances i .idle }
    | _ => none

def start : LimitsState ι κ := ⟨∅, fun _ => .idle, []⟩

/-- The bound on the calls for a key at times in an interval of length `d`. -/
def Bounded (served : List (Served κ)) : Prop :=
  ∀ key a d, 0 ≤ d → (∀ e ∈ callsFor key served, a ≤ e.now ∧ e.now ≤ a + d) →
    allowedCount (callsFor key served) ≤ l.capacity + l.refillRate * d

/-- Each call has taken its token from what all the calls before it have left, as if they had
been made one after the other. -/
def NoneForgotten (served : List (Served κ)) : Prop :=
  served = (serve l.consumeMemory ∅ (served.map fun e => (e.key, e.now))).1

/-- What the last call for the key has left. -/
def lastLeft (key : κ) (served : List (Served κ)) : Option (ℚ × ℚ) :=
  (callsFor key served).getLast?.map fun e => (e.result.tokens, e.now)

/-- If the step is an `INSERT`, the row that its `SELECT` has found gives as many tokens at the
time of the call as what the last call for the key has left. -/
def FindsLast (s : LimitsState ι κ) (a : LimitsAction ι κ) : Prop :=
  ∀ i key now row, a = .insert i → s.instances i = .selected key now row →
    level l.params (row.map bucketOf) now =
      level l.params ((lastLeft key s.served).map bucketOf) now

omit [DecidableEq κ] in
theorem allowedCount_le {calls : List (Served κ)} (h : AdmissionLaw l calls) {a d : ℚ}
    (hd : 0 ≤ d) (hcalls : ∀ e ∈ calls, a ≤ e.now ∧ e.now ≤ a + d) :
    allowedCount calls ≤ l.capacity + l.refillRate * d := by
  suffices hall : ∀ front back, calls = front ++ back →
      (allowedCount front : ℚ) ≤ l.capacity + l.refillRate * d from
    hall calls [] (by simp)
  intro front
  induction front using List.reverseRecOn with
  | nil =>
    intro _ _
    have hfill : 0 ≤ l.refillRate * d := mul_nonneg l.refillRate_pos.le hd
    rw [allowedCount, List.countP_nil, Nat.cast_zero]
    exact add_nonneg l.requests_pos.le hfill
  | append_singleton front e ih =>
    intro back hsplit
    cases ha : e.result.allowed with
    | true =>
      obtain ⟨first, hfirst⟩ : ∃ first, (front ++ [e]).head? = some first := by
        cases front <;> exact ⟨_, rfl⟩
      have hbound := h.bound [] (front ++ [e]) back first e (by simpa using hsplit) hfirst
        (by simp) ha
      have hf := (hcalls first (hsplit ▸ List.mem_append_left _ (List.mem_of_head? hfirst))).1
      have he := (hcalls e (by simp [hsplit])).2
      have hmul : l.refillRate * (e.now - first.now) ≤ l.refillRate * d :=
        mul_le_mul_of_nonneg_left (by linarith) l.refillRate_pos.le
      linarith
    | false =>
      have hfront := ih (e :: back) (by simpa using hsplit)
      have hcount : allowedCount [e] = 0 := by simp [allowedCount, ha]
      rwa [allowedCount_append, hcount, Nat.add_zero]

theorem bounded_of_noneForgotten {served : List (Served κ)} (h : l.NoneForgotten served) :
    l.Bounded served := by
  intro key a d hd hcalls
  have hlaw : AdmissionLaw l (callsFor key served) := by
    rw [h]
    exact (l.admissionLaw_memory (served.map fun e => (e.key, e.now)) key).1
  exact l.allowedCount_le hlaw hd hcalls

theorem serve_concat (table : Dict κ (ℚ × ℚ)) (calls : List (κ × ℚ)) (key : κ) (now : ℚ) :
    (serve l.consumeMemory table (calls ++ [(key, now)])).1 =
      (serve l.consumeMemory table calls).1 ++
        [⟨key, now, l.consumeFrom ((serve l.consumeMemory table calls).2.get? key) now⟩] := by
  induction calls generalizing table with
  | nil => rfl
  | cons call calls ih =>
    obtain ⟨key', now'⟩ := call
    rw [List.cons_append, serve_cons, serve_cons, ih]
    rfl

theorem get?_serve_empty (calls : List (κ × ℚ)) (key : κ) :
    (serve l.consumeMemory ∅ calls).2.get? key =
    lastLeft key (serve l.consumeMemory ∅ calls).1 := by
  rw [get?_serve, Dict.get?_empty, Option.or_none, lastLeft]

theorem noneForgotten_concat {served : List (Served κ)} {e : Served κ} :
    l.NoneForgotten (served ++ [e]) ↔
      l.NoneForgotten served ∧ e.result = l.consumeFrom (lastLeft e.key served) e.now := by
  rw [NoneForgotten, NoneForgotten, List.map_append, List.map_singleton, serve_concat,
    get?_serve_empty]
  constructor
  · intro h
    obtain ⟨hserved, he⟩ := List.append_inj' h rfl
    refine ⟨hserved, ?_⟩
    rw [List.cons.injEq] at he
    rw [he.1, ← hserved]
  · rintro ⟨hserved, he⟩
    rw [← hserved, ← he]

theorem consumeFrom_inj {entry entry' : Option (ℚ × ℚ)} {now : ℚ}
    (h : l.consumeFrom entry now = l.consumeFrom entry' now) :
    level l.params (entry.map bucketOf) now = level l.params (entry'.map bucketOf) now := by
  have hdraw := l.consumeFrom_draw entry now ()
  rw [h, l.consumeFrom_draw entry' now ()] at hdraw
  rw [← draw_tokens (p := l.params), ← hdraw, draw_tokens]

theorem noneForgotten_step {s s' : LimitsState ι κ} (h : l.step s a = some s') :
    l.NoneForgotten s'.served ↔ l.NoneForgotten s.served ∧ l.FindsLast s a := by
  cases a with
  | select i key now =>
    have hf : l.FindsLast s (.select i key now) := fun _ _ _ _ he => by cases he
    rw [step] at h
    split at h
    · cases h
      exact (and_iff_left hf).symm
    · cases h
  | insert i =>
    rw [step] at h
    split at h
    · next key now row hi =>
      cases h
      rw [noneForgotten_concat]
      refine and_congr_right fun _ => ⟨fun he j key' now' row' hj hsel => ?_, fun hf => ?_⟩
      · cases hj
        rw [hi] at hsel
        cases hsel
        exact l.consumeFrom_inj he
      · exact l.consumeFrom_congr (hf i key now row rfl hi)
    · cases h
  | delete i =>
    have hf : l.FindsLast s (.delete i) := fun _ _ _ _ he => by cases he
    rw [step] at h
    split at h
    · cases h
      exact (and_iff_left hf).symm
    · cases h

/-- The instances share one bucket, if and only if each `INSERT` goes on from what the last call
for the key has left. -/
theorem shared_iff_findsLast {steps : List (LimitsState ι κ × LimitsAction ι κ)}
    {s : LimitsState ι κ} (h : Run l.step start steps s) :
    l.Bounded s.served ∧ l.NoneForgotten s.served ↔ ∀ x ∈ steps, l.FindsLast x.1 x.2 := by
  rw [and_iff_right_of_imp l.bounded_of_noneForgotten]
  induction h with
  | nil =>
    refine iff_of_true ?_ (by simp)
    rfl
  | @snoc steps t a u _ hstep ih =>
    rw [l.noneForgotten_step hstep, ih, List.forall_mem_append, List.forall_mem_singleton]

/-- One instance. -/
theorem shared_iff_findsLast_unit :
    let l : RationalLimiter := ⟨1, 60, by decide, by decide⟩
    ∃ (steps : List (LimitsState Unit Unit × LimitsAction Unit Unit)) (s : LimitsState Unit Unit),
      steps.map Prod.snd = [.select () () 0, .insert (), .delete ()] ∧
      (l.Bounded s.served ∧ l.NoneForgotten s.served ↔ ∀ x ∈ steps, l.FindsLast x.1 x.2) :=
  ⟨_, _, rfl, shared_iff_findsLast _ (Run.of_foldlM _ _
    [.select () () 0, .insert (), .delete ()] rfl)⟩

/-- Two instances with one token each find a full bucket at the same time. -/
theorem not_bounded_of_two_selects :
    let l : RationalLimiter := ⟨1, 60, by decide, by decide⟩
    ∃ (steps : List (LimitsState Bool Unit × LimitsAction Bool Unit)) (s : LimitsState Bool Unit),
      steps.map Prod.snd =
        [.select true () 0, .select false () 0, .insert true, .insert false] ∧
      Run l.step start steps s ∧ ¬ l.Bounded s.served := by
  intro l
  have h := Run.of_foldlM l.step (start : LimitsState Bool Unit)
    [.select true () 0, .select false () 0, .insert true, .insert false] rfl
  refine ⟨_, _, rfl, h, fun hb => ?_⟩
  have hle := hb () 0 0 le_rfl (by decide +kernel)
  revert hle
  decide +kernel

end RationalLimiter

end Sovereign
