import Mathlib.Data.Fintype.Defs
import Mathlib.Logic.Function.Basic
import Sovereign.DependencyScopes

namespace Sovereign
set_option autoImplicit true

open DiEvent

/-- An unfinished call of `Router._invoke_provider_async`, or of `Router._call_handler_async`. -/
structure Frame (π ρ ν : Type) where
  /-- what the provider is invoked for -/
  marker : Option (Inject π)
  /-- the parameters that have not been passed yet, of which the first may be being resolved -/
  pending : List (Param π)
  kwargs : List (Str × Arg ρ ν)

def Frame.pass (arg : Option (Arg ρ ν)) (f : Frame π ρ ν) : Frame π ρ ν :=
  match f.pending with
  | [] => f
  | param :: params =>
    { f with
      pending := params
      kwargs := f.kwargs ++ (arg.map fun arg => (param.name, arg)).toList }

@[simp] theorem Frame.marker_pass (arg : Option (Arg ρ ν)) (f : Frame π ρ ν) :
    (f.pass arg).marker = f.marker := by
  rw [pass]
  split <;> rfl

@[simp] theorem Frame.pending_pass (arg : Option (Arg ρ ν)) (f : Frame π ρ ν) :
    (f.pass arg).pending = f.pending.tail := by
  rw [pass]
  split
  · next h => rw [h, List.tail_nil]
  · next h => rw [h, List.tail_cons]

/-- A request, the calls that are nested in it, and whether the innermost one awaits the code of its
provider, or of the handler. -/
structure DiTask (π ρ ν : Type) where
  req : ρ
  diCache : Dict π ν
  stack : List (Frame π ρ ν)
  awaiting : Bool

/-- The requests of a router, which an event loop takes in turns. -/
structure DiLoop (π ρ ν κ : Type) where
  singletonCache : Dict π ν
  tasks : κ → Option (DiTask π ρ ν)
  log : List (DiEvent π ν)

/-- A request arrives for a handler with these parameters, the router goes on with one, or the code
ends that one of them awaits. -/
inductive DiStep (π ρ ν κ : Type) where
  | arrive (k : κ) (params : List (Param π)) (req : ρ)
  | advance (k : κ)
  | finish (k : κ) (result : Except Exc ν)

namespace DiLoop

variable [DecidableEq π] [DecidableEq κ] (g : Dependencies π ρ ν σ)

/-- One request goes on. -/
def put (w : DiLoop π ρ ν κ) (k : κ) (task : DiTask π ρ ν) (events : List (DiEvent π ν)) :
    DiLoop π ρ ν κ :=
  { w with tasks := Function.update w.tasks k (some task), log := w.log ++ events }

omit [DecidableEq π] in
@[simp] theorem log_put (w : DiLoop π ρ ν κ) (k : κ) (task : DiTask π ρ ν)
    (l : List (DiEvent π ν)) :
    (w.put k task l).log = w.log ++ l := rfl

omit [DecidableEq π] in
theorem tasks_put_self (w : DiLoop π ρ ν κ) (k : κ) (task : DiTask π ρ ν) (l : List (DiEvent π ν)) :
    (w.put k task l).tasks k = some task := by
  simp only [put, Function.update_self]

omit [DecidableEq π] in
theorem tasks_put_of_ne (w : DiLoop π ρ ν κ) (task : DiTask π ρ ν) (l : List (DiEvent π ν))
    (h : k' ≠ k) : (w.put k task l).tasks k' = w.tasks k' := by
  simp only [put, Function.update_of_ne h]

def cached (w : DiLoop π ρ ν κ) (task : DiTask π ρ ν) (scope : Scope) (p : π) : Option ν :=
  match scope with
  | .singleton => w.singletonCache.get? p
  | .request => task.diCache.get? p
  | .transient | .scoped => none

/-- The next parameter is passed, or its provider invoked; after the last one the code is called. -/
def advance (w : DiLoop π ρ ν κ) (k : κ) : Option (DiLoop π ρ ν κ) := do
  let task ← w.tasks k
  match task.awaiting, task.stack with
  | false, f :: below =>
    match f.pending with
    | [] => some (w.put k { task with awaiting := true } [])
    | param :: _ =>
      if param.takesRequest then
        let arg := f.marker.map fun _ => Arg.request task.req
        some (w.put k { task with stack := f.pass arg :: below } [])
      else
        match param.default with
        | none => some (w.put k { task with stack := f.pass none :: below } [])
        | some marker =>
          let provider := g.overridden marker.provider
          match w.cached task (g.scope marker) provider with
          | some v =>
            some (w.put k { task with stack := f.pass (some (.value v)) :: below }
              [.injected provider v])
          | none =>
            let inner : Frame π ρ ν := ⟨some marker, (g.provider provider).params, []⟩
            some (w.put k { task with stack := inner :: f :: below } [])
  | _, _ => none

/-- The caches of the router and of the request, with what a provider has returned. -/
def kept (w : DiLoop π ρ ν κ) (task : DiTask π ρ ν) (scope : Scope) (p : π) (v : ν) :
    Dict π ν × Dict π ν :=
  match scope with
  | .singleton => (w.singletonCache.set p v, task.diCache)
  | .request => (w.singletonCache, task.diCache.set p v)
  | .transient | .scoped => (w.singletonCache, task.diCache)

omit [DecidableEq κ] in
theorem get?_kept {w : DiLoop π ρ ν κ} (task : DiTask π ρ ν) (scope : Scope) (v : ν) (h : q ≠ p) :
    (w.kept task scope q v).1.get? p = w.singletonCache.get? p := by
  cases scope with
  | singleton => exact (Dict.get?_set _ _ _ _).trans (if_neg h.symm)
  | _ => rfl

/-- What the provider returns is kept by its scope and passed on; an exception leaves all the calls. -/
def finish (w : DiLoop π ρ ν κ) (k : κ) (result : Except Exc ν) : Option (DiLoop π ρ ν κ) := do
  let task ← w.tasks k
  match task.awaiting, task.stack with
  | true, f :: below =>
    match f.marker, result with
    | some marker, .ok v =>
      let provider := g.overridden marker.provider
      let caches := w.kept task (g.scope marker) provider v
      let stack := below.modifyHead (Frame.pass (some (.value v)))
      let task := { task with diCache := caches.2, stack, awaiting := false }
      some ({ w with singletonCache := caches.1 }.put k task
        [.returned provider v, .injected provider v])
    | _, _ => some (w.put k { task with stack := [], awaiting := false } [])
  | _, _ => none

def step (w : DiLoop π ρ ν κ) : DiStep π ρ ν κ → Option (DiLoop π ρ ν κ)
  | .arrive k params req =>
    if (w.tasks k).isNone then some (w.put k ⟨req, ∅, [⟨none, params, []⟩], false⟩ []) else none
  | .advance k => w.advance g k
  | .finish k result => w.finish g k result

/-- A new router. -/
def fresh : DiLoop π ρ ν κ := ⟨∅, fun _ => none, []⟩

/-- The marker that the next step of the request evaluates. -/
def needs (w : DiLoop π ρ ν κ) (k : κ) : Option (Inject π) := do
  let task ← w.tasks k
  let f ← task.stack.head?
  let param ← f.pending.head?
  if task.awaiting then none else param.marker

end DiLoop

variable [DecidableEq π]

/-- Wherever the provider is injected among the parameters, it is a singleton. -/
def Dependencies.SingletonIn (g : Dependencies π ρ ν σ) (p : π) (params : List (Param π)) : Prop :=
  ∀ param ∈ params, ∀ marker ∈ param.marker, g.overridden marker.provider = p →
    g.scope marker = .singleton

namespace Frame

def invokes (g : Dependencies π ρ ν σ) (p : π) (f : Frame π ρ ν) : Bool :=
  f.marker.any fun marker => g.overridden marker.provider = p

structure SingletonIn (g : Dependencies π ρ ν σ) (p : π) (f : Frame π ρ ν) : Prop where
  pending : g.SingletonIn p f.pending
  marker : ∀ marker ∈ f.marker, g.overridden marker.provider = p → g.scope marker = .singleton

@[simp] theorem invokes_pass (g : Dependencies π ρ ν σ) (p : π) (arg : Option (Arg ρ ν))
    (f : Frame π ρ ν) :
    (f.pass arg).invokes g p = f.invokes g p := by
  rw [invokes, invokes, marker_pass]

theorem SingletonIn.pass {g : Dependencies π ρ ν σ} {f : Frame π ρ ν} (h : f.SingletonIn g p)
    (arg : Option (Arg ρ ν)) : (f.pass arg).SingletonIn g p where
  pending param hparam := by
    rw [pending_pass] at hparam
    exact h.pending param (List.mem_of_mem_tail hparam)
  marker := by
    rw [marker_pass]
    exact h.marker

theorem SingletonIn.passed {g : Dependencies π ρ ν σ} {stack : List (Frame π ρ ν)}
    (h : ∀ f ∈ stack, f.SingletonIn g p) (arg : Option (Arg ρ ν)) :
    ∀ f ∈ stack.modifyHead (Frame.pass arg), f.SingletonIn g p := by
  cases stack with
  | nil => exact h
  | cons caller callers =>
    intro f hf
    rcases List.mem_cons.1 hf with rfl | hf
    · exact (h caller List.mem_cons_self).pass arg
    · exact h f (List.mem_cons_of_mem caller hf)

theorem countP_passed (g : Dependencies π ρ ν σ) (p : π) (stack : List (Frame π ρ ν))
    (arg : Option (Arg ρ ν)) :
    (stack.modifyHead (Frame.pass arg)).countP (Frame.invokes g p) =
    stack.countP (Frame.invokes g p) := by
  cases stack with
  | nil => rfl
  | cons caller callers =>
    rw [List.modifyHead_cons, List.countP_cons, List.countP_cons, invokes_pass]

end Frame

/-- How many invocations of the provider are unfinished. -/
def DiTask.invocations (g : Dependencies π ρ ν σ) (p : π) (task : DiTask π ρ ν) : Nat :=
  task.stack.countP (Frame.invokes g p)

namespace DiLoop

variable [DecidableEq κ] (g : Dependencies π ρ ν σ) (p : π)

def invocations (w : DiLoop π ρ ν κ) (k : κ) : Nat :=
  ((w.tasks k).map (DiTask.invocations g p)).getD 0

/-- Where the step misses the provider in the cache, no invocation of it is unfinished. -/
def Alone (w : DiLoop π ρ ν κ) : DiStep π ρ ν κ → Prop
  | .advance k => ∀ marker ∈ w.needs k, g.overridden marker.provider = p →
      w.singletonCache.get? p = none → ∀ k', w.invocations g p k' = 0
  | .arrive .. | .finish .. => True

instance [Fintype κ] (w : DiLoop π ρ ν κ) : (a : DiStep π ρ ν κ) → Decidable (Alone g p w a)
  | .advance k => inferInstanceAs
      (Decidable (∀ marker ∈ w.needs k, g.overridden marker.provider = p →
      w.singletonCache.get? p = none → ∀ k', w.invocations g p k' = 0))
  | .arrive .. | .finish .. => inferInstanceAs (Decidable True)

/-- The provider is a singleton for the handler of a request that arrives. -/
def Handles : DiStep π ρ ν κ → Prop
  | .arrive _ params _ => g.SingletonIn p params
  | .advance _ | .finish .. => True

/-- Nothing of the provider is returned twice, and only one invocation of it goes on. -/
structure Single (w : DiLoop π ρ ν κ) : Prop where
  frames : ∀ k, ∀ task ∈ w.tasks k, ∀ f ∈ task.stack, f.SingletonIn g p
  alone : ∀ k, 0 < w.invocations g p k → w.singletonCache.get? p = none ∧
    w.invocations g p k = 1 ∧ ∀ k', k' ≠ k → w.invocations g p k' = 0
  once : (returns p w.log).length ≤ 1
  cached : ∀ v ∈ returns p w.log, w.singletonCache.get? p = some v
  injected : ∀ v ∈ injections p w.log, w.singletonCache.get? p = some v

variable {g p} {w u : DiLoop π ρ ν κ}

theorem invocations_put_self (w : DiLoop π ρ ν κ) (k : κ) (task : DiTask π ρ ν)
    (l : List (DiEvent π ν)) : (w.put k task l).invocations g p k = task.invocations g p := by
  rw [invocations, tasks_put_self]
  rfl

theorem invocations_put_of_ne (w : DiLoop π ρ ν κ) (task : DiTask π ρ ν) (l : List (DiEvent π ν))
    (h : k' ≠ k) : (w.put k task l).invocations g p k' = w.invocations g p k' := by
  rw [invocations, tasks_put_of_ne w task l h, invocations]

/-- What the router may do when it goes on with a request. -/
theorem advance_eq_some (h : w.advance g k = some u) :
    ∃ task f below, w.tasks k = some task ∧ task.stack = f :: below ∧
      (u = w.put k { task with awaiting := true } [] ∨
      (∃ arg, u = w.put k { task with stack := f.pass arg :: below } []) ∨
      ∃ marker, w.needs k = some marker ∧ (∃ param ∈ f.pending, marker ∈ param.marker) ∧
        ((∃ v, w.cached task (g.scope marker) (g.overridden marker.provider) = some v ∧
          u = w.put k { task with stack := f.pass (some (.value v)) :: below }
            [.injected (g.overridden marker.provider) v]) ∨
        (w.cached task (g.scope marker) (g.overridden marker.provider) = none ∧
          u = w.put k
            { task with
              stack := ⟨some marker, (g.provider (g.overridden marker.provider)).params, []⟩ :: f ::
                below }
            []))) := by
  obtain ⟨task, htask, h⟩ := Option.bind_eq_some_iff.1 h
  split at h
  · next f below hawaiting hstack =>
    refine ⟨task, f, below, htask, hstack, ?_⟩
    split at h
    · cases h
      exact .inl rfl
    · next param params hpending =>
      split at h
      · cases h
        exact .inr (.inl ⟨_, rfl⟩)
      · next hreq =>
        split at h
        · cases h
          exact .inr (.inl ⟨_, rfl⟩)
        · next marker hdefault =>
          have hmarker : param.marker = some marker := by rw [Param.marker, if_neg hreq, hdefault]
          have hneeds : w.needs k = some marker := by
            simp [needs, htask, hstack, hpending, hawaiting, hmarker]
          refine .inr (.inr ⟨marker, hneeds, ⟨param, by simp [hpending], hmarker⟩, ?_⟩)
          dsimp only at h
          split at h
          · next v hv =>
            cases h
            exact .inl ⟨v, hv, rfl⟩
          · next hv =>
            cases h
            exact .inr ⟨hv, rfl⟩
  · cases h

/-- How an invocation may end. -/
theorem finish_eq_some {result : Except Exc ν} (h : w.finish g k result = some u) :
    ∃ task f below, w.tasks k = some task ∧ task.stack = f :: below ∧
      (u = w.put k { task with stack := [], awaiting := false } [] ∨
      ∃ marker v, f.marker = some marker ∧
        u = { w with
          singletonCache := (w.kept task (g.scope marker) (g.overridden marker.provider) v).1 }.put
            k
          { task with
            diCache := (w.kept task (g.scope marker) (g.overridden marker.provider) v).2
            stack := below.modifyHead (Frame.pass (some (.value v)))
            awaiting := false }
          [.returned (g.overridden marker.provider) v,
          .injected (g.overridden marker.provider) v]) := by
  obtain ⟨task, htask, h⟩ := Option.bind_eq_some_iff.1 h
  split at h
  · next f below hawaiting hstack =>
    refine ⟨task, f, below, htask, hstack, ?_⟩
    split at h
    · next marker v hmarker _ =>
      cases h
      exact .inr ⟨marker, v, hmarker, rfl⟩
    · cases h
      exact .inl rfl
  · cases h

omit [DecidableEq κ] in
theorem invocations_eq (h : w.tasks k = some task) :
    w.invocations g p k = task.invocations g p := by
  rw [invocations, h]
  rfl

/-- A request that goes on without invoking the provider, or that is left. -/
theorem Single.put (h : Single g p w) (hframes : ∀ f ∈ task.stack, f.SingletonIn g p)
    (hle : task.invocations g p ≤ w.invocations g p k) (hreturns : returns p l = [])
    (hinjections : ∀ v ∈ injections p l, w.singletonCache.get? p = some v) :
    Single g p (w.put k task l) where
  frames k' task' htask := by
    by_cases hk : k' = k
    · subst hk
      rw [tasks_put_self] at htask
      cases htask
      exact hframes
    · rw [tasks_put_of_ne w task l hk] at htask
      exact h.frames k' task' htask
  alone k' hpos := by
    have hothers : ∀ k₁, (w.put k task l).invocations g p k₁ ≤ w.invocations g p k₁ := by
      intro k₁
      by_cases hk : k₁ = k
      · rw [hk, invocations_put_self]
        exact hle
      · rw [invocations_put_of_ne w task l hk]
    obtain ⟨hcache, hone, halone⟩ := h.alone k' (hpos.trans_le (hothers k'))
    refine ⟨hcache, ?_, ?_⟩
    · exact Nat.le_antisymm ((hothers k').trans_eq hone) hpos
    · intro k₁ hk
      exact Nat.eq_zero_of_le_zero ((hothers k₁).trans_eq (halone k₁ hk))
  once := by
    rw [log_put, returns_append, hreturns, List.append_nil]
    exact h.once
  cached := by
    rw [log_put, returns_append, hreturns, List.append_nil]
    exact h.cached
  injected v hv := by
    rw [log_put, injections_append] at hv
    rcases List.mem_append.1 hv with hv | hv
    · exact h.injected v hv
    · exact hinjections v hv

omit [DecidableEq κ] in
/-- The invariant reads one entry of the cache. -/
theorem Single.of_get? (h : Single g p w) {d : Dict π ν} (hd : d.get? p = w.singletonCache.get? p) :
    Single g p { w with singletonCache := d } where
  frames := h.frames
  alone k hpos := by
    dsimp only
    rw [hd]
    exact h.alone k hpos
  once := h.once
  cached := by
    dsimp only
    rw [hd]
    exact h.cached
  injected := by
    dsimp only
    rw [hd]
    exact h.injected

/-- The provider is invoked while no other invocation of it goes on. -/
theorem Single.invoke (h : Single g p w) (hframes : ∀ f ∈ task.stack, f.SingletonIn g p)
    (hone : task.invocations g p = 1) (hmiss : w.singletonCache.get? p = none)
    (halone : ∀ k', w.invocations g p k' = 0) : Single g p (w.put k task []) where
  frames k' task' htask := by
    by_cases hk : k' = k
    · subst hk
      rw [tasks_put_self] at htask
      cases htask
      exact hframes
    · rw [tasks_put_of_ne w task [] hk] at htask
      exact h.frames k' task' htask
  alone k' hpos := by
    by_cases hk : k' = k
    · subst hk
      refine ⟨hmiss, ?_, ?_⟩
      · rw [invocations_put_self, hone]
      · intro k₁ hk₁
        rw [invocations_put_of_ne w task [] hk₁, halone k₁]
    · rw [invocations_put_of_ne w task [] hk, halone k'] at hpos
      exact absurd hpos (Nat.lt_irrefl 0)
  once := by
    rw [log_put, List.append_nil]
    exact h.once
  cached := by
    rw [log_put, List.append_nil]
    exact h.cached
  injected := by
    rw [log_put, List.append_nil]
    exact h.injected

/-- The only invocation of the provider returns. -/
theorem Single.return (h : Single g p w) (hframes : ∀ f ∈ task.stack, f.SingletonIn g p)
    (hpos : 0 < w.invocations g p k) (hzero : task.invocations g p = 0) :
    Single g p ({ w with singletonCache := w.singletonCache.set p v }.put k task
      [.returned p v, .injected p v]) := by
  obtain ⟨hcache, -, halone⟩ := h.alone k hpos
  have hreturns : returns p w.log = [] := by
    apply List.eq_nil_iff_forall_not_mem.2
    intro u hu
    cases hcache.symm.trans (h.cached u hu)
  have hinjections : injections p w.log = [] := by
    apply List.eq_nil_iff_forall_not_mem.2
    intro u hu
    cases hcache.symm.trans (h.injected u hu)
  have hset : (w.singletonCache.set p v).get? p = some v :=
    (Dict.get?_set _ _ _ _).trans (if_pos rfl)
  have hreturned : returns p [DiEvent.returned p v, .injected p v] = [v] := by
    simp [returns, returnedBy]
  have hinjected : injections p [DiEvent.returned p v, .injected p v] = [v] := by
    simp [injections, List.filterMap_cons, injectedFrom]
  constructor
  case frames =>
    intro k' task' htask
    by_cases hk : k' = k
    · subst hk
      rw [tasks_put_self] at htask
      cases htask
      exact hframes
    · rw [tasks_put_of_ne _ task _ hk] at htask
      exact h.frames k' task' htask
  case alone =>
    intro k' hpos'
    by_cases hk : k' = k
    · subst hk
      rw [invocations_put_self, hzero] at hpos'
      exact absurd hpos' (Nat.lt_irrefl 0)
    · rw [invocations_put_of_ne _ task _ hk] at hpos'
      exact absurd hpos' (Nat.not_lt.2 (Nat.le_of_eq (halone k' hk)))
  case once =>
    rw [log_put, returns_append, hreturned, hreturns]
    exact Nat.le_refl 1
  case cached =>
    intro u hu
    rw [log_put, returns_append, hreturned, hreturns] at hu
    cases List.mem_singleton.1 hu
    exact hset
  case injected =>
    intro u hu
    rw [log_put, injections_append, hinjected, hinjections] at hu
    cases List.mem_singleton.1 hu
    exact hset

omit [DecidableEq κ] in
theorem Single.fresh : Single g p (fresh : DiLoop π ρ ν κ) where
  frames k task htask := by cases htask
  alone k hpos := absurd hpos (Nat.lt_irrefl 0)
  once := Nat.zero_le 1
  cached v hv := by cases hv
  injected v hv := by cases hv

theorem Single.advance (h : Single g p w)
    (hg : ∀ q, g.SingletonIn p (g.provider (g.overridden q)).params)
    (halone : Alone g p w (.advance k))
    (hstep : w.advance g k = some u) : Single g p u := by
  obtain ⟨task, f, below, htask, hstack, hu⟩ := advance_eq_some hstep
  have hinvocations := invocations_eq (g := g) (p := p) htask
  have hframes : ∀ f' ∈ f :: below, f'.SingletonIn g p := by
    rw [← hstack]
    exact h.frames k task htask
  have hf := hframes f List.mem_cons_self
  have hpass (arg : Option (Arg ρ ν)) : ∀ f' ∈ f.pass arg :: below, f'.SingletonIn g p :=
    Frame.SingletonIn.passed hframes arg
  have hsame (arg : Option (Arg ρ ν)) :
    DiTask.invocations g p { task with stack := f.pass arg :: below } =
      w.invocations g p k := by
    rw [hinvocations, DiTask.invocations, DiTask.invocations, hstack]
    exact Frame.countP_passed g p (f :: below) arg
  rcases hu with rfl | ⟨arg, rfl⟩
    | ⟨marker, hneeds, ⟨param, hparam, hmarker⟩, ⟨v, hv, rfl⟩ | ⟨hmiss, rfl⟩⟩
  · refine h.put (h.frames k task htask) (Nat.le_of_eq hinvocations.symm) rfl ?_
    intro v hv
    cases hv
  · refine h.put (hpass arg) (Nat.le_of_eq (hsame arg)) rfl ?_
    intro v hv
    cases hv
  · refine h.put (hpass _) (Nat.le_of_eq (hsame _)) rfl ?_
    intro u hu
    by_cases hp : g.overridden marker.provider = p
    · rw [hf.pending param hparam marker hmarker hp, DiLoop.cached, hp] at hv
      simp only [injections, List.filterMap_cons, injectedFrom, if_pos hp] at hu
      cases List.mem_singleton.1 hu
      exact hv
    · simp only [injections, List.filterMap_cons, injectedFrom, if_neg hp] at hu
      cases hu
  · have hinner : ∀ f' ∈ ⟨some marker, (g.provider (g.overridden marker.provider)).params, []⟩ ::
      f :: below,
        Frame.SingletonIn g p f' := by
      intro f' hf'
      rcases List.mem_cons.1 hf' with rfl | hf'
      · constructor
        · exact hg marker.provider
        · intro marker' hmarker'
          cases hmarker'
          exact hf.pending param hparam marker hmarker
      · exact hframes f' hf'
    by_cases hp : g.overridden marker.provider = p
    · rw [hf.pending param hparam marker hmarker hp, DiLoop.cached, hp] at hmiss
      have hnone := halone marker hneeds hp hmiss
      refine h.invoke hinner ?_ hmiss hnone
      have hzero := hinvocations.symm.trans (hnone k)
      rw [DiTask.invocations, hstack] at hzero
      rw [DiTask.invocations, List.countP_cons, hzero, if_pos (by simp [Frame.invokes, hp])]
    · refine h.put hinner ?_ rfl ?_
      · rw [hinvocations, DiTask.invocations, DiTask.invocations, hstack, List.countP_cons,
          if_neg (by simp [Frame.invokes, hp])]
        exact Nat.le_refl _
      · intro v hv
        cases hv

theorem Single.finish {result : Except Exc ν} (h : Single g p w)
    (hstep : w.finish g k result = some u) :
    Single g p u := by
  obtain ⟨task, f, below, htask, hstack, hu⟩ := finish_eq_some hstep
  have hinvocations := invocations_eq (g := g) (p := p) htask
  have hframes : ∀ f' ∈ f :: below, f'.SingletonIn g p := by
    rw [← hstack]
    exact h.frames k task htask
  rcases hu with rfl | ⟨marker, v, hmarker, rfl⟩
  · refine h.put ?_ (Nat.zero_le _) rfl ?_
    · intro f' hf'
      cases hf'
    · intro v hv
      cases hv
  · have hbelow : ∀ f' ∈ below.modifyHead (Frame.pass (some (.value v))), f'.SingletonIn g p :=
      Frame.SingletonIn.passed (fun f' hf' => hframes f' (List.mem_cons_of_mem f hf')) _
    have hcount := Frame.countP_passed g p below (some (.value v))
    by_cases hp : g.overridden marker.provider = p
    · have hcalls : w.invocations g p k = below.countP (Frame.invokes g p) + 1 := by
        rw [hinvocations, DiTask.invocations, hstack, List.countP_cons,
          if_pos (by simp [Frame.invokes, hmarker, hp])]
      have hpos : 0 < w.invocations g p k := by
        rw [hcalls]
        exact Nat.succ_pos _
      have hone := (h.alone k hpos).2.1
      have hscope := (hframes f List.mem_cons_self).marker marker hmarker hp
      rw [hp, hscope]
      refine h.return hbelow hpos ?_
      rw [DiTask.invocations, hcount]
      exact Nat.succ.inj (hcalls.symm.trans hone)
    · have hcalls : w.invocations g p k = below.countP (Frame.invokes g p) := by
        rw [hinvocations, DiTask.invocations, hstack, List.countP_cons,
          if_neg (by simp [Frame.invokes, hmarker, hp]), Nat.add_zero]
      have hget := get?_kept (w := w) task (g.scope marker) v hp
      refine (h.of_get? hget).put hbelow ?_ ?_ ?_
      · rw [DiTask.invocations, hcount, ← hcalls]
        exact Nat.le_refl _
      · simp [returns, List.filterMap_cons, returnedBy, hp]
      · intro u hu
        simp [injections, List.filterMap_cons, injectedFrom, hp] at hu

theorem Single.step (h : Single g p w)
    (hg : ∀ q, g.SingletonIn p (g.provider (g.overridden q)).params)
    (hhandles : Handles g p a) (halone : Alone g p w a) (hstep : step g w a = some u) :
    Single g p u := by
  cases a with
  | arrive k params req =>
    rw [DiLoop.step] at hstep
    split at hstep
    · cases hstep
      refine h.put ?_ (Nat.zero_le _) rfl ?_
      · intro f hf
        cases List.mem_singleton.1 hf
        refine ⟨hhandles, ?_⟩
        intro marker hmarker
        cases hmarker
      · intro v hv
        cases hv
    · cases hstep
  | advance k => exact h.advance hg halone hstep
  | finish k result => exact h.finish hstep

/-- Where a singleton is not missed while it is being made, all requests get the same one. -/
theorem instance_unique (hg : ∀ q, g.SingletonIn p (g.provider (g.overridden q)).params)
    (hrun : Run (DiLoop.step g) (DiLoop.fresh : DiLoop π ρ ν κ) l w)
    (hhandles : ∀ x ∈ l, Handles g p x.2)
    (halone : ∀ x ∈ l, Alone g p x.1 x.2) :
    (returns p w.log).length ≤ 1 ∧
      ∀ u ∈ injections p w.log, ∀ v ∈ injections p w.log, u = v := by
  have hsingle : Single g p w := by
    apply hrun.invariant Single.fresh
    intro x hx u hw hstep
    exact hw.step hg (hhandles x hx) (halone x hx) hstep
  refine ⟨hsingle.once, ?_⟩
  intro u hu v hv
  exact Option.some.inj ((hsingle.injected u hu).symm.trans (hsingle.injected v hv))

/-- A service that is to be made once. -/
def serviceDependencies : Dependencies Unit Unit Nat Nat where
  provider _ := ⟨[], some .singleton, .function fun _ made => (.ok (.value (made + 1)), made + 1)⟩
  dependencyOverrides := ∅

/-- `def handler(req, service=Inject(make_service))` -/
def serviceParams : List (Param Unit) :=
  [⟨"req".toList, false, none⟩, ⟨"service".toList, false, some ⟨(), none⟩⟩]

theorem service_singleton : serviceDependencies.SingletonIn () serviceParams := by
  intro param hparam marker hmarker hp
  rcases List.mem_cons.1 hparam with rfl | hparam
  · cases hmarker
  · cases List.mem_singleton.1 hparam
    cases hmarker
    rfl

/-- A request is handled after another. -/
def requestsInTurn : List (DiStep Unit Unit Nat Bool) :=
  [.arrive false serviceParams (), .advance false, .advance false, .advance false,
  .finish false (.ok 1),
    .advance false, .finish false (.ok 0), .arrive true serviceParams (),
    .advance true, .advance true]

/-- Two requests, of which one comes while the other awaits the service. -/
def requestsAtOnce : List (DiStep Unit Unit Nat Bool) :=
  [.arrive false serviceParams (), .advance false, .advance false, .advance false,
    .arrive true serviceParams (), .advance true, .advance true, .advance true,
    .finish false (.ok 1), .finish true (.ok 2)]

theorem requests_handle : ∀ a ∈ requestsInTurn ++ requestsAtOnce,
    Handles serviceDependencies () a := by
  intro a ha
  cases a with
  | arrive k params req =>
    have hparams : params = serviceParams := by
      simp only [requestsInTurn, requestsAtOnce, List.mem_append, List.mem_cons, List.not_mem_nil,
        reduceCtorEq, DiStep.arrive.injEq, or_false, false_or] at ha
      tauto
    rw [hparams]
    exact service_singleton
  | advance k => trivial
  | finish k result => trivial

theorem instance_unique_inTurn :
    ∃ w, requestsInTurn.foldlM (DiLoop.step serviceDependencies) DiLoop.fresh = some w ∧
      injections () w.log = [1, 1] ∧ (returns () w.log).length ≤ 1 ∧
      ∀ u ∈ injections () w.log, ∀ v ∈ injections () w.log, u = v := by
  obtain ⟨w, hw⟩ := Option.isSome_iff_exists.1 (show
    (requestsInTurn.foldlM (DiLoop.step serviceDependencies) DiLoop.fresh).isSome = true by decide)
  have hlog : (requestsInTurn.foldlM (DiLoop.step serviceDependencies) DiLoop.fresh).map
      (fun w => injections () w.log) = some [1, 1] := by decide
  rw [hw] at hlog
  refine ⟨w, hw, Option.some.inj hlog, ?_⟩
  apply instance_unique (g := serviceDependencies) (p := ()) ?_
    (Run.of_foldlM _ _ _ hw) ?_ (by decide)
  · intro q param hparam
    cases hparam
  · intro x hx
    exact requests_handle x.2 (List.mem_append_left _ (Run.mem_of_mem_trace hx))

theorem instance_returned_twice :
    (∀ q, serviceDependencies.SingletonIn () (serviceDependencies.provider q).params) ∧
      ∃ l w, Run (DiLoop.step serviceDependencies) (DiLoop.fresh : DiLoop Unit Unit Nat Bool) l w ∧
        (∀ x ∈ l, Handles serviceDependencies () x.2) ∧
        returns () w.log = [1, 2] ∧ injections () w.log = [1, 2] := by
  obtain ⟨w, hw⟩ := Option.isSome_iff_exists.1 (show
    (requestsAtOnce.foldlM (DiLoop.step serviceDependencies) DiLoop.fresh).isSome = true by decide)
  have hlog : (requestsAtOnce.foldlM (DiLoop.step serviceDependencies) DiLoop.fresh).map
      (fun w => (returns () w.log, injections () w.log)) = some ([1, 2], [1, 2]) := by decide
  rw [hw] at hlog
  have hlogs := Prod.mk.inj (Option.some.inj hlog)
  refine ⟨?_, _, w, Run.of_foldlM _ _ _ hw, ?_, hlogs.1, hlogs.2⟩
  · intro q param hparam
    cases hparam
  · intro x hx
    exact requests_handle x.2 (List.mem_append_right _ (Run.mem_of_mem_trace hx))

end DiLoop

end Sovereign
