import Sovereign.Lib.Run
import Sovereign.NaiveEvaluation

namespace Sovereign
set_option autoImplicit true

namespace DiEvent

variable [DecidableEq π]

def returnedBy (p : π) : DiEvent π ν → Option ν
  | returned q v => if q = p then some v else none
  | _ => none

def injectedFrom (p : π) : DiEvent π ν → Option ν
  | injected q v => if q = p then some v else none
  | _ => none

def isEvaluation (p : π) : DiEvent π ν → Bool
  | evaluated q => q = p
  | _ => false

def isCall (p : π) : DiEvent π ν → Bool
  | called q => q = p
  | _ => false

def isRaise (p : π) : DiEvent π ν → Bool
  | raised q => q = p
  | _ => false

/-- What the provider has returned. -/
def returns (p : π) (l : List (DiEvent π ν)) : List ν := l.filterMap (returnedBy p)

/-- What has been injected of the provider. -/
def injections (p : π) (l : List (DiEvent π ν)) : List ν := l.filterMap (injectedFrom p)

/-- How often a marker of the provider has been evaluated. -/
def evaluations (p : π) (l : List (DiEvent π ν)) : Nat := l.countP (isEvaluation p)

def calls (p : π) (l : List (DiEvent π ν)) : Nat := l.countP (isCall p)

/-- How many invocations of the provider have raised. -/
def raises (p : π) (l : List (DiEvent π ν)) : Nat := l.countP (isRaise p)

@[simp] theorem returns_append (p : π) (l l' : List (DiEvent π ν)) :
    returns p (l ++ l') = returns p l ++ returns p l' := List.filterMap_append

@[simp] theorem injections_append (p : π) (l l' : List (DiEvent π ν)) :
    injections p (l ++ l') = injections p l ++ injections p l' := List.filterMap_append

@[simp] theorem evaluations_append (p : π) (l l' : List (DiEvent π ν)) :
    evaluations p (l ++ l') = evaluations p l + evaluations p l' := List.countP_append

@[simp] theorem calls_append (p : π) (l l' : List (DiEvent π ν)) :
    calls p (l ++ l') = calls p l + calls p l' := List.countP_append

@[simp] theorem raises_append (p : π) (l l' : List (DiEvent π ν)) :
    raises p (l ++ l') = raises p l + raises p l' := List.countP_append

/-- The provider that an event is about. -/
def about : DiEvent π ν → π
  | evaluated p | called p | returned p _ | raised p | injected p _ => p

/-- Events about other providers do not count. -/
theorem nothing_of_others {l : List (DiEvent π ν)} (h : ∀ e ∈ l, e.about = p) (hq : q ≠ p) :
    returns q l = [] ∧ injections q l = [] ∧ evaluations q l = 0 ∧ calls q l = 0 ∧
    raises q l = 0 := by
  have hne : ∀ e ∈ l, e.about ≠ q := by
    intro e he
    rw [h e he]
    exact hq.symm
  refine ⟨List.filterMap_eq_nil_iff.2 ?_, List.filterMap_eq_nil_iff.2 ?_, List.countP_eq_zero.2 ?_,
    List.countP_eq_zero.2 ?_, List.countP_eq_zero.2 ?_⟩
  all_goals
    intro e he
    have hother := hne e he
    cases e <;>
      simp_all [about, returnedBy, injectedFrom, isEvaluation, isCall, isRaise]

end DiEvent

open DiEvent

namespace DiWorld

/-- The events since the cache of the scope was empty. -/
def span (w : DiWorld π ν σ) : Scope → List (DiEvent π ν)
  | .singleton => w.past ++ w.log
  | .request | .transient | .scoped => w.log

@[simp] theorem span_note (w : DiWorld π ν σ) (l : List (DiEvent π ν)) (s : Scope) :
    (w.note l).span s = w.span s ++ l := by
  cases s with
  | singleton => exact (List.append_assoc _ _ _).symm
  | _ => rfl

variable [DecidableEq π]

@[simp] theorem span_store (w : DiWorld π ν σ) (s s' : Scope) (p : π) (v : ν) :
    (w.store s p v).span s' = w.span s' := by
  cases s <;> rfl

end DiWorld

namespace DependencyGraph

variable [DecidableEq π] (g : DependencyGraph π ρ ν σ)

/-- What the provider returns is kept. -/
def Memo (p : π) : Prop := g.scopeOf p = .singleton ∨ g.scopeOf p = .request

/-- The caches have what has been returned, and nothing is returned twice that is kept. -/
structure Kept (w : DiWorld π ν σ) : Prop where
  cached : ∀ p, g.Memo p → ∀ v ∈ returns p (w.span (g.scopeOf p)),
    (w.cache (g.scopeOf p)).get? p = some v
  once : ∀ p, g.Memo p → (returns p (w.span (g.scopeOf p))).length ≤ 1
  injected : ∀ p, g.Memo p → ∀ v ∈ injections p (w.span (g.scopeOf p)),
    (w.cache (g.scopeOf p)).get? p = some v
  called : ∀ p, g.scopeOf p = .request → calls p w.log ≤ 1
  proper : ∀ p s v, (w.cache s).get? p = some v → g.scopeOf p = s
  uncached : ∀ p, 0 < raises p w.log → ∀ s, (w.cache s).get? p = none

/-- Nothing has been raised in the request, and what has been called has returned. -/
structure Settled (w : DiWorld π ν σ) : Prop where
  returned : ∀ p, g.scopeOf p = .request → 0 < calls p w.log → returns p w.log ≠ []
  quiet : ∀ p, raises p w.log = 0

/-- Each evaluation of a provider that is not kept has an invocation of its own, whose value is
injected. -/
def Balanced (l : List (DiEvent π ν)) : Prop :=
  ∀ p, g.scopeOf p = .transient →
    evaluations p l = (returns p l).length + raises p l ∧ returns p l = injections p l

/-- What is the same, or has grown, when providers below a rank have been resolved. -/
structure After (n : Nat) (w w' : DiWorld π ν σ) : Prop where
  past : w'.past = w.past
  grows : ∃ l, w'.log = w.log ++ l ∧ g.Balanced l
  frame : ∀ q, n ≤ g.rank q → ∀ s, (w'.cache s).get? q = (w.cache s).get? q

variable {g} {w w' : DiWorld π ν σ}

theorem Balanced.nil : g.Balanced ([] : List (DiEvent π ν)) := fun _ _ => ⟨rfl, rfl⟩

theorem Balanced.append {l l' : List (DiEvent π ν)} (h : g.Balanced l) (h' : g.Balanced l') :
    g.Balanced (l ++ l') := by
  intro p hp
  obtain ⟨hev, hret⟩ := h p hp
  obtain ⟨hev', hret'⟩ := h' p hp
  constructor
  · rw [evaluations_append, returns_append, raises_append, List.length_append, hev, hev']
    omega
  · rw [returns_append, injections_append, hret, hret']

theorem After.refl (n : Nat) (w : DiWorld π ν σ) : g.After n w w :=
  ⟨rfl, ⟨[], (List.append_nil _).symm, .nil⟩, fun _ _ _ => rfl⟩

theorem After.trans (h : g.After n w w') (h' : g.After n w' w'') : g.After n w w'' := by
  obtain ⟨l, hl, hb⟩ := h.grows
  obtain ⟨l', hl', hb'⟩ := h'.grows
  refine ⟨h'.past.trans h.past, ⟨l ++ l', by rw [hl', hl, List.append_assoc], hb.append hb'⟩,
    fun q hq s => ?_⟩
  rw [h'.frame q hq s, h.frame q hq s]

theorem After.mono (h : g.After m w w') (hmn : m ≤ n) : g.After n w w' :=
  ⟨h.past, h.grows, fun q hq => h.frame q (hmn.trans hq)⟩

/-- Events that do not say that something kept has been returned. -/
theorem Kept.note {l : List (DiEvent π ν)} (h : g.Kept w)
    (hreturns : ∀ p, g.Memo p → returns p l = [])
    (hinjections : ∀ p, g.Memo p → ∀ v ∈ injections p l, (w.cache (g.scopeOf p)).get? p = some v)
    (hcalls : ∀ p, g.scopeOf p = .request → calls p w.log + calls p l ≤ 1)
    (hraises : ∀ p, 0 < raises p l → ∀ s, (w.cache s).get? p = none) : g.Kept (w.note l) := by
  constructor
  · intro p hp v hv
    rw [DiWorld.span_note, returns_append, hreturns p hp, List.append_nil] at hv
    rw [DiWorld.cache_note]
    exact h.cached p hp v hv
  · intro p hp
    rw [DiWorld.span_note, returns_append, hreturns p hp, List.append_nil]
    exact h.once p hp
  · intro p hp v hv
    rw [DiWorld.span_note, injections_append] at hv
    rw [DiWorld.cache_note]
    rcases List.mem_append.1 hv with hv | hv
    · exact h.injected p hp v hv
    · exact hinjections p hp v hv
  · intro p hp
    rw [DiWorld.log_note, calls_append]
    exact hcalls p hp
  · intro p s v hv
    rw [DiWorld.cache_note] at hv
    exact h.proper p s v hv
  · intro p hp s
    rw [DiWorld.log_note, raises_append] at hp
    rw [DiWorld.cache_note]
    rcases Nat.eq_zero_or_pos (raises p l) with hl | hl
    · exact h.uncached p (by omega) s
    · exact hraises p hl s

theorem Settled.note {l : List (DiEvent π ν)} (h : g.Settled w)
    (hcalls : ∀ p, g.scopeOf p = .request → 0 < calls p l → returns p l ≠ [])
    (hraises : ∀ p, raises p l = 0) : g.Settled (w.note l) := by
  constructor
  · intro p hp hc
    rw [DiWorld.log_note, calls_append] at hc
    rw [DiWorld.log_note, returns_append]
    rcases Nat.eq_zero_or_pos (calls p l) with hl | hl
    · exact List.append_ne_nil_of_left_ne_nil (h.returned p hp (by omega)) _
    · exact List.append_ne_nil_of_right_ne_nil _ (hcalls p hp hl)
  · intro p
    rw [DiWorld.log_note, raises_append, h.quiet p, hraises p]

/-- After a first invocation, whose value is kept. -/
def stored (g : DependencyGraph π ρ ν σ) (w : DiWorld π ν σ) (p : π) (v : ν) : DiWorld π ν σ :=
  ((w.note [.called p, .returned p v]).store (g.scopeOf p) p v).note [.injected p v]

theorem log_stored (w : DiWorld π ν σ) (p : π) (v : ν) :
    (g.stored w p v).log = w.log ++ [.called p, .returned p v, .injected p v] := by
  rw [stored, DiWorld.log_note, DiWorld.log_store, DiWorld.log_note, List.append_assoc]
  rfl

theorem span_stored (w : DiWorld π ν σ) (p : π) (v : ν) (s : Scope) :
    (g.stored w p v).span s = w.span s ++ [.called p, .returned p v, .injected p v] := by
  rw [stored, DiWorld.span_note, DiWorld.span_store, DiWorld.span_note, List.append_assoc]
  rfl

theorem cache_stored (w : DiWorld π ν σ) {p q : π} {s : Scope} (v : ν)
    (h : q ≠ p ∨ s ≠ g.scopeOf p) : ((g.stored w p v).cache s).get? q = (w.cache s).get? q := by
  rw [stored, DiWorld.cache_note, DiWorld.get?_store _ _ _ _ _ _ h, DiWorld.cache_note]

theorem cache_stored_self (w : DiWorld π ν σ) {p : π} (v : ν) (hp : g.Memo p) :
    ((g.stored w p v).cache (g.scopeOf p)).get? p = some v := by
  rw [stored, DiWorld.cache_note]
  exact DiWorld.get?_store_self _ p v hp

theorem stored_others {p q : π} (v : ν) (hq : q ≠ p) :
    returns q [.called p, .returned p v, .injected p v] = [] ∧
      injections q [.called p, .returned p v, .injected p v] = [] ∧
      calls q ([.called p, .returned p v, .injected p v] : List (DiEvent π ν)) = 0 := by
  have hothers := nothing_of_others (l := [.called p, .returned p v, .injected p v])
    (by simp [about]) hq
  exact ⟨hothers.1, hothers.2.1, hothers.2.2.2.1⟩

theorem stored_self (p : π) (v : ν) :
    returns p [.called p, .returned p v, .injected p v] = [v] ∧
      injections p [.called p, .returned p v, .injected p v] = [v] ∧
      calls p ([.called p, .returned p v, .injected p v] : List (DiEvent π ν)) = 1 := by
  simp [returns, injections, calls, List.filterMap_cons, returnedBy, injectedFrom, isCall]

theorem stored_raises (p q : π) (v : ν) :
    raises q ([.called p, .returned p v, .injected p v] : List (DiEvent π ν)) = 0 := rfl

/-- What is kept of a provider and is not in the cache has not been returned before. -/
theorem Kept.fresh {p : π} (h : g.Kept w) (hp : g.Memo p)
    (hnone : (w.cache (g.scopeOf p)).get? p = none) :
    returns p (w.span (g.scopeOf p)) = [] ∧ injections p (w.span (g.scopeOf p)) = [] := by
  constructor
  · apply List.eq_nil_iff_forall_not_mem.2
    intro u hu
    rw [h.cached p hp u hu] at hnone
    cases hnone
  · apply List.eq_nil_iff_forall_not_mem.2
    intro u hu
    rw [h.injected p hp u hu] at hnone
    cases hnone

/-- Nor has it been called in the request, if nothing has been raised. -/
theorem Settled.fresh {p : π} (h : g.Settled w) (hk : g.Kept w) (hp : g.scopeOf p = .request)
    (hnone : (w.cache (g.scopeOf p)).get? p = none) : calls p w.log = 0 := by
  have hreturns := (hk.fresh (.inr hp) hnone).1
  rw [hp] at hreturns
  by_contra hc
  exact h.returned p hp (Nat.pos_of_ne_zero hc) hreturns

theorem kept_stored {p : π} (h : g.Kept w) (hs : g.Settled w) (hp : g.Memo p)
    (hnone : (w.cache (g.scopeOf p)).get? p = none) (v : ν) : g.Kept (g.stored w p v) := by
  obtain ⟨hreturns, hinjections⟩ := h.fresh hp hnone
  obtain ⟨hret, hinj, hcall⟩ := stored_self p v
  constructor
  · intro q hq u hu
    rw [span_stored, returns_append] at hu
    by_cases hqp : q = p
    · subst hqp
      rw [hreturns, hret] at hu
      rw [cache_stored_self w v hp, List.mem_singleton.1 hu]
    · rw [(stored_others v hqp).1, List.append_nil] at hu
      rw [cache_stored w v (.inl hqp)]
      exact h.cached q hq u hu
  · intro q hq
    rw [span_stored, returns_append]
    by_cases hqp : q = p
    · subst hqp
      rw [hreturns, hret]
      exact le_refl 1
    · rw [(stored_others v hqp).1, List.append_nil]
      exact h.once q hq
  · intro q hq u hu
    rw [span_stored, injections_append] at hu
    by_cases hqp : q = p
    · subst hqp
      rw [hinjections, hinj] at hu
      rw [cache_stored_self w v hp, List.mem_singleton.1 hu]
    · rw [(stored_others v hqp).2.1, List.append_nil] at hu
      rw [cache_stored w v (.inl hqp)]
      exact h.injected q hq u hu
  · intro q hq
    rw [log_stored, calls_append]
    by_cases hqp : q = p
    · subst hqp
      rw [hs.fresh h hq hnone, hcall]
    · rw [(stored_others v hqp).2.2]
      exact h.called q hq
  · intro q s u hu
    by_cases hself : q = p ∧ s = g.scopeOf p
    · rw [hself.1, hself.2]
    · rw [cache_stored w v (not_and_or.1 hself)] at hu
      exact h.proper q s u hu
  · intro q hq
    rw [log_stored, raises_append, hs.quiet q, stored_raises] at hq
    exact absurd hq (lt_irrefl 0)

theorem settled_stored (hs : g.Settled w) (p : π) (v : ν) : g.Settled (g.stored w p v) := by
  constructor
  · intro q hq hc
    rw [log_stored, calls_append] at hc
    rw [log_stored, returns_append]
    by_cases hqp : q = p
    · subst hqp
      rw [(stored_self q v).1]
      exact List.append_ne_nil_of_right_ne_nil _ (List.cons_ne_nil _ _)
    · rw [(stored_others v hqp).2.2, Nat.add_zero] at hc
      exact List.append_ne_nil_of_left_ne_nil (hs.returned q hq hc) _
  · intro q
    rw [log_stored, raises_append, hs.quiet q, stored_raises]

/-- What resolving providers below a rank leaves behind: if it raises, all is kept as before. -/
def Tidy (g : DependencyGraph π ρ ν σ) (n : Nat) (x : Act (DiWorld π ν σ) α) : Prop :=
  ∀ w, g.Kept w → g.Settled w →
    g.After n w (x w).2 ∧ g.Kept (x w).2 ∧ ∀ a, (x w).1 = .ok a → g.Settled (x w).2

theorem Tidy.pure (a : α) : g.Tidy n (pure a : Act (DiWorld π ν σ) α) :=
  fun w hk hs => ⟨.refl n w, hk, fun _ _ => hs⟩

theorem Tidy.bind {x : Act (DiWorld π ν σ) α} {f : α → Act (DiWorld π ν σ) β} (hx : g.Tidy n x)
    (hf : ∀ a, g.Tidy n (f a)) : g.Tidy n (x >>= f) := by
  intro w hk hs
  obtain ⟨hafter, hkept, hsettled⟩ := hx w hk hs
  rw [Act.bind_run]
  rcases hrun : x w with ⟨e | a, w'⟩
  · rw [hrun] at hafter hkept
    refine ⟨hafter, hkept, fun b hb => ?_⟩
    cases hb
  · rw [hrun] at hafter hkept hsettled
    obtain ⟨hafter', hkept', hsettled'⟩ := hf a w' hkept (hsettled a rfl)
    exact ⟨hafter.trans hafter', hkept', hsettled'⟩

theorem Tidy.arguments {resolve : Inject π → Act (DiWorld π ν σ) ν} (req : Option ρ)
    {params : List (Param π)}
    (h : ∀ param ∈ params, ∀ marker ∈ param.marker, g.Tidy n (resolve marker)) :
    g.Tidy n (Dependencies.arguments req resolve params) := by
  induction params with
  | nil => exact Tidy.pure _
  | cons param params ih =>
    have hrest := ih fun p hp => h p (List.mem_cons_of_mem _ hp)
    rw [Dependencies.arguments]
    split
    · apply hrest.bind
      intro kwargs
      exact Tidy.pure _
    · next hreq =>
      split
      · next marker hm =>
        have hmarker : param.marker = some marker := by
          rw [Param.marker, if_neg hreq, hm]
        apply (h param List.mem_cons_self marker hmarker).bind
        intro v
        apply hrest.bind
        intro kwargs
        exact Tidy.pure _
      · exact hrest

/-- The state of the application does not matter. -/
theorem Kept.world (h : g.Kept w) (s : σ) : g.Kept { w with world := s } :=
  ⟨h.cached, h.once, h.injected, h.called, h.proper, h.uncached⟩

theorem Settled.world (h : g.Settled w) (s : σ) : g.Settled { w with world := s } :=
  ⟨h.returned, h.quiet⟩

theorem After.world (h : g.After n w w') (s : σ) : g.After n w { w' with world := s } :=
  ⟨h.past, h.grows, h.frame⟩

/-- How an invocation ends: it raises before the provider is called, or with it, or the provider
returns. -/
theorem invokeProvider_cases {resolve : Inject π → Act (DiWorld π ν σ) ν} {p : π} (req : ρ)
    (h : g.Tidy n (Dependencies.arguments (some req) resolve (g.provider p).params)) (hk : g.Kept w)
    (hs : g.Settled w) :
    ∃ w', g.After n w w' ∧ g.Kept w' ∧
      ((∃ e, g.invokeProvider req resolve p w = (.error e, w'.note [.raised p])) ∨
      g.Settled w' ∧
        ((∃ e, g.invokeProvider req resolve p w = (.error e, w'.note [.called p, .raised p])) ∨
        ∃ v, g.invokeProvider req resolve p w = (.ok v, w'.note [.called p, .returned p v]))) := by
  obtain ⟨hafter, hkept, hsettled⟩ := h w hk hs
  rw [Dependencies.invokeProvider, Dependencies.noted]
  rcases hargs : Dependencies.arguments (some req) resolve (g.provider p).params
    w with ⟨e | kwargs, w₁⟩
  · rw [hargs] at hafter hkept
    rw [Act.bind_error _ hargs]
    exact ⟨w₁, hafter, hkept, .inl ⟨e, rfl⟩⟩
  · rw [hargs] at hafter hkept hsettled
    rw [Act.bind_ok _ hargs]
    have hcalling : Dependencies.calling p w₁ = (.ok (), w₁.note [.called p]) := rfl
    rw [Act.bind_ok _ hcalling, onWorld_bind]
    rcases hrun : ((g.provider p).code.call kwargs >>= fun result => result.await)
      w₁.world with ⟨r, s⟩
    have hworld : onWorld ((g.provider p).code.call kwargs >>= fun result => result.await)
        (w₁.note [.called p]) = (r, ({ w₁ with world := s } : DiWorld π ν σ).note [.called p]) :=
      onWorld_eq (w₁.note [.called p]) hrun
    rw [hworld]
    refine ⟨{ w₁ with world := s }, hafter.world s, hkept.world s,
      .inr ⟨(hsettled kwargs rfl).world s, ?_⟩⟩
    cases r with
    | error e => exact .inl ⟨e, congrArg _ (DiWorld.note_note _ _ _)⟩
    | ok v => exact .inr ⟨v, congrArg _ (DiWorld.note_note _ _ _)⟩

/-- A provider that is not in the cache of its scope is in none. -/
theorem Kept.absent {p : π} (h : g.Kept w) (hnone : (w.cache (g.scopeOf p)).get? p = none)
    (s : Scope) :
    (w.cache s).get? p = none := by
  cases hc : (w.cache s).get? p with
  | none => rfl
  | some v =>
    rw [h.proper p s v hc, hc] at hnone
    cases hnone

/-- An evaluation with what has been seen within it, and how its invocation has ended. -/
theorem Balanced.wrap {p : π} {l tail : List (DiEvent π ν)} (h : g.Balanced l)
    (habout : ∀ e ∈ tail, e.about = p) (hend : (returns p tail).length + raises p tail = 1)
    (hnone : evaluations p tail = 0) (hsame : returns p tail = injections p tail) :
    g.Balanced ([.evaluated p] ++ l ++ tail) := by
  intro q hq
  obtain ⟨hev, hret⟩ := h q hq
  simp only [evaluations_append, returns_append, raises_append, injections_append,
    List.length_append]
  by_cases hqp : q = p
  · subst hqp
    have hfirst : returns q ([.evaluated q] : List (DiEvent π ν)) = [] := rfl
    have hfirst' : injections q ([.evaluated q] : List (DiEvent π ν)) = [] := rfl
    have hone : evaluations q ([.evaluated q] : List (DiEvent π ν)) = 1 := by
      simp [evaluations, isEvaluation]
    have hzero : raises q ([.evaluated q] : List (DiEvent π ν)) = 0 := rfl
    rw [hfirst, hfirst', hone, hzero, hnone, hret, hsame]
    rw [hret] at hev
    rw [hsame] at hend
    constructor
    · rw [List.length_nil]
      omega
    · rfl
  · obtain ⟨hret₁, hinj₁, hev₁, -, hraise₁⟩ :=
      nothing_of_others (l := ([.evaluated p] : List (DiEvent π ν))) (by simp [about]) hqp
    obtain ⟨hret₂, hinj₂, hev₂, -, hraise₂⟩ := nothing_of_others habout hqp
    rw [hret₁, hinj₁, hev₁, hraise₁, hret₂, hinj₂, hev₂, hraise₂, hret]
    rw [hret] at hev
    constructor
    · rw [List.length_nil]
      omega
    · rfl

/-- Nothing needs to be balanced of a provider that is kept. -/
theorem Balanced.of_memo {p : π} {l : List (DiEvent π ν)} (hp : g.Memo p)
    (habout : ∀ e ∈ l, e.about = p) : g.Balanced l := by
  intro q hq
  have hqp : q ≠ p := by
    rintro rfl
    rcases hp with hp | hp
    · rw [hp] at hq
      cases hq
    · rw [hp] at hq
      cases hq
  obtain ⟨hret, hinj, hev, -, hraise⟩ := nothing_of_others habout hqp
  rw [hret, hinj, hev, hraise]
  exact ⟨rfl, rfl⟩

theorem kept_evaluated (hk : g.Kept w) (p : π) : g.Kept (w.note [.evaluated p]) :=
  hk.note (fun _ _ => rfl) (fun _ _ v hv => by cases hv) (fun q hq => hk.called q hq)
    (fun _ hq => by cases hq)

theorem settled_evaluated (hs : g.Settled w) (p : π) : g.Settled (w.note [.evaluated p]) :=
  hs.note (fun _ _ hc => by cases hc) (fun _ => rfl)

/-- After an evaluation that is noted, with events that follow. -/
theorem After.wrap {p : π} {tail : List (DiEvent π ν)}
    (h : g.After (g.rank p) (w.note [.evaluated p]) w')
    (htail : ∀ l, g.Balanced l → g.Balanced ([.evaluated p] ++ l ++ tail)) :
    g.After (g.rank p + 1) w (w'.note tail) := by
  obtain ⟨l, hl, hb⟩ := h.grows
  refine ⟨h.past, ⟨[.evaluated p] ++ l ++ tail, ?_, htail l hb⟩, fun q hq s => ?_⟩
  · rw [DiWorld.log_note, hl, DiWorld.log_note, List.append_assoc, List.append_assoc,
      List.append_assoc]
  · rw [DiWorld.cache_note, h.frame q (Nat.le_of_succ_le hq) s, DiWorld.cache_note]

/-- An invocation that raises leaves nothing in the caches. -/
theorem raise_tidy {p : π} {tail : List (DiEvent π ν)} (hk : g.Kept w')
    (hafter : g.After (g.rank p) (w.note [.evaluated p]) w')
    (hnone : (w'.cache (g.scopeOf p)).get? p = none)
    (htail : tail = [.raised p] ∨ g.Settled w' ∧ tail = [.called p, .raised p]) :
    g.After (g.rank p + 1) w (w'.note tail) ∧ g.Kept (w'.note tail) := by
  have habout : ∀ e ∈ tail, e.about = p := by
    rcases htail with rfl | ⟨-, rfl⟩ <;> simp [about]
  have hreturns : ∀ q, returns q tail = [] := by
    intro q
    rcases htail with rfl | ⟨-, rfl⟩ <;> rfl
  have hinjections : ∀ q, injections q tail = [] := by
    intro q
    rcases htail with rfl | ⟨-, rfl⟩ <;> rfl
  have hraises : raises p tail = 1 := by
    rcases htail with rfl | ⟨-, rfl⟩ <;> simp [raises, isRaise]
  have hevaluations : evaluations p tail = 0 := by
    rcases htail with rfl | ⟨-, rfl⟩ <;> rfl
  constructor
  · apply hafter.wrap
    intro l hl
    apply hl.wrap habout
    · rw [hreturns, hraises]
      rfl
    · exact hevaluations
    · rw [hreturns, hinjections]
  · apply hk.note
    · intro q _
      exact hreturns q
    · intro q _ v hv
      rw [hinjections] at hv
      cases hv
    · intro q hq
      rcases htail with rfl | ⟨hs, rfl⟩
      · exact hk.called q hq
      · by_cases hqp : q = p
        · subst hqp
          rw [hs.fresh hk hq hnone]
          simp [calls, isCall]
        · rw [(nothing_of_others habout hqp).2.2.2.1]
          exact hk.called q hq
    · intro q hq s
      by_cases hqp : q = p
      · subst hqp
        exact hk.absent hnone s
      · rw [(nothing_of_others habout hqp).2.2.2.2] at hq
        cases hq

section

variable {resolve : Inject π → Act (DiWorld π ν σ) ν} {p : π} {req : ρ}

/-- A provider that is not kept is invoked anew. -/
theorem tidy_transient (hp : g.scopeOf p = .transient)
    (hargs : g.Tidy (g.rank p) (Dependencies.arguments (some req) resolve (g.provider p).params)) :
    g.Tidy (g.rank p + 1) (Dependencies.injecting p (g.invokeProvider req resolve p)) := by
  intro w hk hs
  have hk₀ := kept_evaluated hk p
  have hnone : ∀ w' : DiWorld π ν σ, (w'.cache (g.scopeOf p)).get? p = none := by
    intro w'
    rw [hp]
    rfl
  have hmemo : ∀ q, g.Memo q → q ≠ p := by
    rintro q hq rfl
    rcases hq with hq | hq
    · rw [hp] at hq
      cases hq
    · rw [hp] at hq
      cases hq
  obtain ⟨w', hafter, hkept, hend⟩ := invokeProvider_cases req hargs hk₀ (settled_evaluated hs p)
  rcases hend with ⟨e, hrun⟩ | ⟨hsettled, ⟨e, hrun⟩ | ⟨v, hrun⟩⟩
  · obtain ⟨hafter', hkept'⟩ := raise_tidy hkept hafter (hnone w') (.inl rfl)
    rw [Dependencies.injecting_error hrun]
    exact ⟨hafter', hkept', fun a ha => by cases ha⟩
  · obtain ⟨hafter', hkept'⟩ := raise_tidy hkept hafter (hnone w') (.inr ⟨hsettled, rfl⟩)
    rw [Dependencies.injecting_error hrun]
    exact ⟨hafter', hkept', fun a ha => by cases ha⟩
  · rw [Dependencies.injecting_ok hrun, DiWorld.note_note]
    refine ⟨hafter.wrap fun l hl => ?_, hkept.note ?_ ?_ ?_ ?_, fun a _ => hsettled.note ?_ ?_⟩
    · apply hl.wrap
      · simp [about]
      · exact congrArg List.length (stored_self p v).1
      · rfl
      · exact (stored_self p v).1.trans (stored_self p v).2.1.symm
    · intro q hq
      exact (stored_others v (hmemo q hq)).1
    · intro q hq u hu
      rw [List.cons_append, List.cons_append, List.nil_append,
      (stored_others v (hmemo q hq)).2.1] at hu
      cases hu
    · intro q hq
      rw [List.cons_append, List.cons_append, List.nil_append,
      (stored_others v (hmemo q (.inr hq))).2.2]
      exact hkept.called q hq
    · intro q hq
      cases hq
    · intro q hq hc
      rw [List.cons_append, List.cons_append, List.nil_append,
      (stored_others v (hmemo q (.inr hq))).2.2] at hc
      cases hc
    · intro q
      rfl

/-- A provider that is kept is invoked when the cache does not have it. -/
theorem tidy_memoised (hp : g.Memo p)
    (hargs : g.Tidy (g.rank p) (Dependencies.arguments (some req) resolve (g.provider p).params)) :
    g.Tidy (g.rank p + 1) (Dependencies.injecting p
      (Dependencies.memoised (g.scopeOf p) p (g.invokeProvider req resolve p))) := by
  intro w hk hs
  have hk₀ := kept_evaluated hk p
  have hs₀ := settled_evaluated hs p
  cases hc : ((w.note [.evaluated p]).cache (g.scopeOf p)).get? p with
  | some v =>
    have hrun : Dependencies.memoised (g.scopeOf p) p (g.invokeProvider req resolve p)
        (w.note [.evaluated p]) = (.ok v, w.note [.evaluated p]) := by
      rw [Dependencies.memoised, hc]
    rw [Dependencies.injecting_ok hrun]
    have hafter : g.After (g.rank p) (w.note [.evaluated p]) (w.note [.evaluated p]) := .refl _ _
    refine ⟨hafter.wrap fun l hl => ?_, hk₀.note ?_ ?_ ?_ ?_, fun a _ => hs₀.note ?_ ?_⟩
    · have hfirst : g.Balanced ([.evaluated p] : List (DiEvent π ν)) :=
        .of_memo hp (by simp [about])
      exact (hfirst.append hl).append (.of_memo hp (by simp [about]))
    · intro q _
      rfl
    · intro q hq u hu
      by_cases hqp : q = p
      · subst hqp
        have hone : injections q ([.injected q v] : List (DiEvent π ν)) = [v] := by
          simp [injections, injectedFrom]
        rw [hone] at hu
        rw [List.mem_singleton.1 hu, hc]
      · rw [(nothing_of_others (l := [.injected p v]) (by simp [about]) hqp).2.1] at hu
        cases hu
    · intro q hq
      exact hk₀.called q hq
    · intro q hq
      cases hq
    · intro q _ hcall
      cases hcall
    · intro q
      rfl
  | none =>
    obtain ⟨w', hafter, hkept, hend⟩ := invokeProvider_cases req hargs hk₀ hs₀
    have hnone : (w'.cache (g.scopeOf p)).get? p = none := by
      rw [hafter.frame p (le_refl _), hc]
    rcases hend with ⟨e, hrun⟩ | ⟨hsettled, ⟨e, hrun⟩ | ⟨v, hrun⟩⟩
    · obtain ⟨hafter', hkept'⟩ := raise_tidy hkept hafter hnone (.inl rfl)
      have hmemoised : Dependencies.memoised (g.scopeOf p) p (g.invokeProvider req resolve p)
          (w.note [.evaluated p]) = (.error e, w'.note [.raised p]) := by
        rw [Dependencies.memoised, hc]
        exact Act.bind_error _ hrun
      rw [Dependencies.injecting_error hmemoised]
      exact ⟨hafter', hkept', fun a ha => by cases ha⟩
    · obtain ⟨hafter', hkept'⟩ := raise_tidy hkept hafter hnone (.inr ⟨hsettled, rfl⟩)
      have hmemoised : Dependencies.memoised (g.scopeOf p) p (g.invokeProvider req resolve p)
          (w.note [.evaluated p]) = (.error e, w'.note [.called p, .raised p]) := by
        rw [Dependencies.memoised, hc]
        exact Act.bind_error _ hrun
      rw [Dependencies.injecting_error hmemoised]
      exact ⟨hafter', hkept', fun a ha => by cases ha⟩
    · have hmemoised : Dependencies.memoised (g.scopeOf p) p (g.invokeProvider req resolve p)
          (w.note [.evaluated p]) =
          (.ok v, (w'.note [.called p, .returned p v]).store (g.scopeOf p) p v) := by
        rw [Dependencies.memoised, hc]
        exact Act.bind_ok _ hrun
      rw [Dependencies.injecting_ok hmemoised]
      refine ⟨?_, kept_stored hkept hsettled hp hnone v, fun a _ => settled_stored hsettled p v⟩
      obtain ⟨l, hl, hb⟩ := hafter.grows
      refine ⟨?_, ⟨[.evaluated p] ++ l ++ [.called p, .returned p v, .injected p v], ?_, ?_⟩, ?_⟩
      · rw [DiWorld.past_note, DiWorld.past_store, DiWorld.past_note]
        exact hafter.past
      · have hlog := log_stored (g := g) w' p v
        rw [stored] at hlog
        rw [hlog, hl, DiWorld.log_note, List.append_assoc, List.append_assoc, List.append_assoc]
      · apply hb.wrap
        · simp [about]
        · exact congrArg List.length (stored_self p v).1
        · rfl
        · exact (stored_self p v).1.trans (stored_self p v).2.1.symm
      · intro q hq s
        have hqp : q ≠ p := by
          rintro rfl
          exact absurd hq (Nat.not_succ_le_self _)
        have hcache := cache_stored (g := g) w' (s := s) v (.inl hqp)
        rw [stored] at hcache
        rw [hcache, hafter.frame q (Nat.le_of_succ_le hq) s, DiWorld.cache_note]

end

theorem scope_ne_scoped (marker : Inject π) : g.scope marker ≠ .scoped := by
  rw [Dependencies.scope]
  split
  · exact Scope.noConfusion
  · next h => exact h

/-- The induction is on the nesting of the calls; the dependencies of a provider are below it. -/
theorem tidy_resolveWithin (req : ρ) {n : Nat} {marker : Inject π}
    (hn : g.rank (g.overridden marker.provider) < n)
    (hscope : g.scope marker = g.scopeOf (g.overridden marker.provider)) :
    g.Tidy (ν := ν) (g.rank (g.overridden marker.provider) + 1) (g.resolveWithin req n marker) := by
  induction n generalizing marker with
  | zero => exact absurd hn (Nat.not_lt_zero _)
  | succ n ih =>
    have hargs : g.Tidy (g.rank (g.overridden marker.provider)) (Dependencies.arguments (some req)
        (g.resolveWithin req n) (g.provider (g.overridden marker.provider)).params) := by
      apply Tidy.arguments
      intro param hp marker' hmarker w hk hs
      have hlt := g.acyclic marker.provider param hp marker' hmarker
      obtain ⟨hafter, hrest⟩ := ih (hlt.trans_le (Nat.le_of_lt_succ hn))
        (g.fixed marker.provider param hp marker' hmarker) w hk hs
      exact ⟨hafter.mono hlt, hrest⟩
    rw [Dependencies.resolveWithin, Dependencies.resolveDependency]
    cases hs : g.scope marker with
    | transient => exact tidy_transient (hscope.symm.trans hs) hargs
    | request =>
      have hp := hscope.symm.trans hs
      have hmemoised := tidy_memoised (.inr hp) hargs
      rw [hp] at hmemoised
      exact hmemoised
    | singleton =>
      have hp := hscope.symm.trans hs
      have hmemoised := tidy_memoised (.inl hp) hargs
      rw [hp] at hmemoised
      exact hmemoised
    | _ => exact absurd hs (scope_ne_scoped marker)

theorem exists_bound (params : List (Param π)) :
    ∃ n, ∀ param ∈ params, ∀ marker ∈ param.marker, g.rank (g.overridden marker.provider) < n := by
  induction params with
  | nil => exact ⟨0, fun _ hp => by cases hp⟩
  | cons param params ih =>
    obtain ⟨n, hn⟩ := ih
    cases hm : param.marker with
    | none =>
      refine ⟨n, fun p hp marker hmarker => ?_⟩
      rcases List.mem_cons.1 hp with rfl | hp
      · rw [hm] at hmarker
        cases hmarker
      · exact hn p hp marker hmarker
    | some first =>
      refine ⟨max n (g.rank (g.overridden first.provider) + 1), fun p hp marker hmarker => ?_⟩
      rcases List.mem_cons.1 hp with rfl | hp
      · rw [hm] at hmarker
        cases hmarker
        exact lt_max_of_lt_right (Nat.lt_succ_self _)
      · exact lt_max_of_lt_left (hn p hp marker hmarker)

theorem tidy_handler {α : Type} (handler : InjectedHandler g.toScopedDependencies α) (req : ρ) :
    ∃ n, g.Tidy (ν := ν) n
      (Dependencies.arguments (none : Option ρ) (g.resolve req) handler.params) := by
  obtain ⟨n, hn⟩ := g.exists_bound handler.params
  refine ⟨n, Tidy.arguments _ fun param hp marker hmarker w hk hs => ?_⟩
  obtain ⟨hafter, hrest⟩ := tidy_resolveWithin req (Nat.lt_succ_self _)
    (handler.fixed param hp marker hmarker) w hk hs
  exact ⟨hafter.mono (hn param hp marker hmarker), hrest⟩

omit [DecidableEq π] in
theorem span_begun (w : DiWorld π ν σ) (s : Scope) :
    (DiRequest.begun w).span s = if s = .singleton then w.span s else [] := by
  cases s with
  | singleton => exact List.append_nil _
  | _ => rfl

/-- A new request begins with what is kept of the router. -/
theorem kept_begun (h : g.Kept w) : g.Kept (DiRequest.begun w) := by
  constructor
  · intro p hp v hv
    rw [span_begun] at hv
    split at hv
    · next hs =>
      have hc := h.cached p hp v hv
      rw [hs] at hc ⊢
      exact hc
    · cases hv
  · intro p hp
    rw [span_begun]
    split
    · exact h.once p hp
    · exact Nat.zero_le 1
  · intro p hp v hv
    rw [span_begun] at hv
    split at hv
    · next hs =>
      have hc := h.injected p hp v hv
      rw [hs] at hc ⊢
      exact hc
    · cases hv
  · intro p _
    exact Nat.zero_le 1
  · intro p s v hv
    cases s with
    | singleton => exact h.proper p .singleton v hv
    | _ => cases hv
  · intro p hp
    cases hp

theorem settled_begun (w : DiWorld π ν σ) : g.Settled (DiRequest.begun w) :=
  ⟨fun _ _ hc => (by cases hc), fun _ => rfl⟩

/-- After a request, whether it has been answered or has raised. -/
theorem kept_serve {α : Type} (h : g.Kept w) (x : DiRequest g α) :
    g.Kept (x.serve w) ∧ g.Balanced (x.serve w).log := by
  obtain ⟨n, htidy⟩ := tidy_handler (ν := ν) x.handler x.req
  obtain ⟨hafter, hkept, -⟩ := htidy _ (kept_begun h) (settled_begun w)
  obtain ⟨s, hs⟩ := x.serve_eq w
  obtain ⟨l, hl, hb⟩ := hafter.grows
  rw [hs]
  refine ⟨hkept.world s, ?_⟩
  change g.Balanced (Dependencies.arguments (none : Option ρ) (g.resolve x.req) x.handler.params
    (DiRequest.begun w)).2.log
  rw [hl]
  exact hb

theorem kept_fresh (s : σ) : g.Kept (DiWorld.fresh s : DiWorld π ν σ) := by
  have hspan : ∀ scope, (DiWorld.fresh s : DiWorld π ν σ).span scope = [] := by
    intro scope
    cases scope <;> rfl
  constructor
  · intro p _ v hv
    rw [hspan] at hv
    cases hv
  · intro p _
    rw [hspan]
    exact Nat.zero_le 1
  · intro p _ v hv
    rw [hspan] at hv
    cases hv
  · intro p _
    exact Nat.zero_le 1
  · intro p scope v hv
    cases scope <;> cases hv
  · intro p hp
    cases hp

/-- What the scopes promise of a request that has been handled, and of those before it. -/
structure Scoped (g : DependencyGraph π ρ ν σ) (w : DiWorld π ν σ) : Prop where
  singleton : ∀ p, g.scopeOf p = .singleton → (returns p (w.past ++ w.log)).length ≤ 1
  request : ∀ p, g.scopeOf p = .request → calls p w.log ≤ 1
  transient : ∀ p, g.scopeOf p = .transient →
    evaluations p w.log = (returns p w.log).length + raises p w.log ∧
      returns p w.log = injections p w.log
  same : ∀ p, g.Memo p → ∀ v ∈ injections p w.log, ∀ v' ∈ injections p w.log, v = v'
  sameInstance : ∀ p, g.scopeOf p = .singleton →
    ∀ v ∈ injections p (w.past ++ w.log), ∀ v' ∈ injections p (w.past ++ w.log), v = v'
  uncached : ∀ p, 0 < raises p w.log → w.singletonCache.get? p = none ∧ w.diCache.get? p = none

theorem injections_span (w : DiWorld π ν σ) (s : Scope) {p : π} (h : v ∈ injections p w.log) :
    v ∈ injections p (w.span s) := by
  cases s with
  | singleton =>
    rw [DiWorld.span, injections_append]
    exact List.mem_append_right _ h
  | _ => exact h

theorem Kept.scoped (h : g.Kept w) (hb : g.Balanced w.log) : g.Scoped w := by
  have hinstance : ∀ p, g.Memo p → ∀ v ∈ injections p (w.span (g.scopeOf p)),
      ∀ v' ∈ injections p (w.span (g.scopeOf p)), v = v' := by
    intro p hp v hv v' hv'
    have hv := h.injected p hp v hv
    rw [h.injected p hp v' hv'] at hv
    exact (Option.some.inj hv).symm
  constructor
  · intro p hp
    have honce := h.once p (.inl hp)
    rw [hp] at honce
    exact honce
  · exact h.called
  · exact hb
  · intro p hp v hv v' hv'
    exact hinstance p hp v (injections_span w _ hv) v' (injections_span w _ hv')
  · intro p hp
    have hsame := hinstance p (.inl hp)
    rw [hp] at hsame
    exact hsame
  · intro p hp
    exact ⟨h.uncached p hp .singleton, h.uncached p hp .request⟩

/-- The scopes keep what they promise in every state of a router that handles its requests one at a
time, by either of its two ways; and providers without side effects have the values of a naive
evaluation. -/
theorem scopes_kept {α : Type} (g : DependencyGraph π ρ ν σ) (s : σ) {w : DiWorld π ν σ}
    {l : List (DiWorld π ν σ × DiRequest g α)} (h : Run DiRequest.step (DiWorld.fresh s) l w) :
    g.Scoped w ∧ ∀ f, g.Pure f → ∀ p, ∀ v ∈ injections p (w.past ++ w.log),
      g.naive f p = .ok v := by
  constructor
  · have hkept : g.Kept w ∧ g.Balanced w.log := by
      apply h.invariant (I := fun u => g.Kept u ∧ g.Balanced u.log) ⟨kept_fresh s, .nil⟩
      rintro ⟨u, x⟩ - u' ⟨hu, -⟩ hstep
      cases hstep
      exact kept_serve hu x
    exact hkept.1.scoped hkept.2
  · intro f hf p v hv
    have hnaive : g.Naive f w := by
      apply h.invariant (naive_fresh s)
      rintro ⟨u, x⟩ - u' hu hstep
      cases hstep
      exact naive_serve hf x hu
    obtain ⟨e, he, hinjected⟩ := List.mem_filterMap.1 hv
    cases e with
    | injected q _ =>
      rw [injectedFrom] at hinjected
      split at hinjected
      · next hq =>
        cases hinjected
        rw [← hq]
        exact hnaive.injected q v he
      · cases hinjected
    | _ => cases hinjected

/-- Two providers that count, of which one is kept for a request and one for ever, and a third one
that is given the first. -/
def diamondProvider : Fin 3 → Provider (Fin 3) Unit Nat Nat
  | 0 => ⟨[], some .request, .function fun _ n => (.ok (.value n), n + 1)⟩
  | 1 => ⟨[], some .singleton, .function fun _ n => (.ok (.value n), n + 1)⟩
  | 2 => ⟨[⟨"a".toList, false, some ⟨0, none⟩⟩], none, .coroutine fun kwargs n =>
      (.ok (kwargs.filterMap fun kwarg => kwarg.2.forget).sum, n)⟩

def diamond : DependencyGraph (Fin 3) Unit Nat Nat where
  provider := diamondProvider
  dependencyOverrides := ∅
  rank p := if p = 2 then 1 else 0
  acyclic := by decide
  scopeOf p := if p = 0 then .request else if p = 1 then .singleton else .transient
  fixed := by decide

def diamondRequest : DiRequest diamond Unit where
  handler :=
    { params := [⟨"req".toList, false, none⟩, ⟨"a".toList, false, some ⟨0, none⟩⟩,
        ⟨"b".toList, false, some ⟨2, none⟩⟩, ⟨"s".toList, false, some ⟨1, none⟩⟩]
      code := .function fun _ n => (.ok (.value ()), n)
      fixed := by decide }
  req := ()
  async := false

/-- In the second request the one provider is called again, and the other one not. -/
theorem scopes_kept_diamond :
    ∃ l w, Run DiRequest.step (DiWorld.fresh 0) l w ∧ l.map Prod.snd =
    [diamondRequest, diamondRequest] ∧
      injections 0 w.log = [2, 2] ∧ injections 1 w.log = [1] ∧ calls 0 w.log ≤ 1 ∧
      (returns 1 (w.past ++ w.log)).length ≤ 1 := by
  have hrun : Run DiRequest.step (DiWorld.fresh 0)
      [(DiWorld.fresh 0, diamondRequest), (diamondRequest.serve (DiWorld.fresh 0), diamondRequest)]
      (diamondRequest.serve (diamondRequest.serve (DiWorld.fresh 0))) := .snoc (.snoc .nil rfl) rfl
  have hscoped := (scopes_kept diamond 0 hrun).1
  exact ⟨_, _, hrun, rfl, by decide +kernel, by decide +kernel, hscoped.request 0 rfl,
    hscoped.singleton 1 rfl⟩

end DependencyGraph

end Sovereign
