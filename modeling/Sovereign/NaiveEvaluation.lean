import Sovereign.Dependencies

namespace Sovereign
set_option autoImplicit true

/-- An argument without the request. -/
def Arg.forget : Arg ρ ν → Option ν
  | .request _ => none
  | .value v => some v

/-- The argument of a parameter, where there may be no request to pass. -/
def Arg.restore (req : Option ρ) : Str × Option ν → Option (Str × Arg ρ ν)
  | (name, none) => req.map fun req => (name, .request req)
  | (name, some v) => some (name, .value v)

theorem Arg.forget_restore (req : ρ) (kwargs : List (Str × Option ν)) :
    (kwargs.filterMap (Arg.restore (some req))).map (fun kwarg => (kwarg.1, kwarg.2.forget)) =
      kwargs := by
  induction kwargs with
  | nil => rfl
  | cons kwarg kwargs ih =>
    obtain ⟨name, v⟩ := kwarg
    cases v with
    | none => exact congrArg ((name, none) :: ·) ih
    | some v => exact congrArg ((name, some v) :: ·) ih

namespace Dependencies

/-- The keyword arguments of a provider, when each provider gives one value. -/
def naiveArguments [DecidableEq π] (g : Dependencies π ρ ν σ) (eval : π → Except Exc ν) :
    List (Param π) → Except Exc (List (Str × Option ν))
  | [] => .ok []
  | param :: params =>
    if param.takesRequest then do
      let kwargs ← naiveArguments g eval params
      return (param.name, none) :: kwargs
    else
      match param.default with
      | some marker => do
        let v ← eval (g.overridden marker.provider)
        let kwargs ← naiveArguments g eval params
        return (param.name, some v) :: kwargs
      | none => naiveArguments g eval params

theorem naiveArguments_congr [DecidableEq π] (g : Dependencies π ρ ν σ)
    {eval eval' : π → Except Exc ν}
    {params : List (Param π)} (h : ∀ param ∈ params, ∀ marker ∈ param.marker,
      eval (g.overridden marker.provider) = eval' (g.overridden marker.provider)) :
    g.naiveArguments eval params = g.naiveArguments eval' params := by
  induction params with
  | nil => rfl
  | cons param params ih =>
    have hrest := ih fun p hp => h p (List.mem_cons_of_mem _ hp)
    rw [naiveArguments, naiveArguments, hrest]
    split
    · rfl
    · next hreq =>
      split
      · next marker hm =>
        rw [h param List.mem_cons_self marker (by rw [Param.marker, if_neg hreq, hm]; rfl)]
      · rfl

end Dependencies

namespace DependencyGraph

variable [DecidableEq π] (g : DependencyGraph π ρ ν σ)

/-- Providers without side effects, whose results do not depend on the request. -/
def Pure (f : π → List (Str × Option ν) → Except Exc ν) : Prop :=
  ∀ p kwargs s, ((g.provider p).code.call kwargs >>= fun result => result.await) s =
    (f p (kwargs.map fun kwarg => (kwarg.1, kwarg.2.forget)), s)

def naiveWithin (f : π → List (Str × Option ν) → Except Exc ν) : Nat → π → Except Exc ν
  | 0, _ => .error (.builtin .runtimeError)
  | n + 1, p => do
    let kwargs ← g.naiveArguments (naiveWithin f n) (g.provider p).params
    f p kwargs

/-- The value of a provider, evaluated without caches. -/
def naive (f : π → List (Str × Option ν) → Except Exc ν) (p : π) : Except Exc ν :=
  g.naiveWithin f (g.rank p + 1) p

variable {g} {f : π → List (Str × Option ν) → Except Exc ν}

theorem naiveWithin_eq {m n : Nat} {q : π} (hm : g.rank (g.overridden q) < m)
    (hn : g.rank (g.overridden q) < n) :
    g.naiveWithin f m (g.overridden q) = g.naiveWithin f n (g.overridden q) := by
  induction m generalizing n q with
  | zero => exact absurd hm (Nat.not_lt_zero _)
  | succ m ih =>
    cases n with
    | zero => exact absurd hn (Nat.not_lt_zero _)
    | succ n =>
      have hargs : g.naiveArguments (g.naiveWithin f m) (g.provider (g.overridden q)).params =
          g.naiveArguments (g.naiveWithin f n) (g.provider (g.overridden q)).params := by
        apply Dependencies.naiveArguments_congr
        intro param hp marker hmarker
        have hlt := g.acyclic q param hp marker hmarker
        apply ih
        · exact hlt.trans_le (Nat.le_of_lt_succ hm)
        · exact hlt.trans_le (Nat.le_of_lt_succ hn)
      rw [naiveWithin, naiveWithin, hargs]

/-- The recursion over the overridden graph. -/
theorem naive_eq (q : π) :
    g.naive f (g.overridden q) =
      (do let kwargs ← g.naiveArguments (g.naive f) (g.provider (g.overridden q)).params
          f (g.overridden q) kwargs) := by
  have hargs : g.naiveArguments (g.naiveWithin f (g.rank (g.overridden q)))
      (g.provider (g.overridden q)).params =
      g.naiveArguments (g.naive f) (g.provider (g.overridden q)).params := by
    apply Dependencies.naiveArguments_congr
    intro param hp marker hmarker
    exact naiveWithin_eq (g.acyclic q param hp marker hmarker) (Nat.lt_succ_self _)
  rw [naive, naiveWithin, hargs]

/-- What is cached or has been injected is what the provider evaluates to. -/
structure Naive (g : DependencyGraph π ρ ν σ) (f : π → List (Str × Option ν) → Except Exc ν)
    (w : DiWorld π ν σ) : Prop where
  cached : ∀ s p v, (w.cache s).get? p = some v → g.naive f p = .ok v
  injected : ∀ p v, .injected p v ∈ w.past ++ w.log → g.naive f p = .ok v

/-- Resolving keeps that, and gives this result. -/
def Evaluates (g : DependencyGraph π ρ ν σ) (f : π → List (Str × Option ν) → Except Exc ν)
    (x : Act (DiWorld π ν σ) α) (r : Except Exc α) : Prop :=
  ∀ w, g.Naive f w → g.Naive f (x w).2 ∧ (x w).1 = r

theorem Evaluates.bind {x : Act (DiWorld π ν σ) α} {k : α → Act (DiWorld π ν σ) β}
    {r : Except Exc α} {r' : α → Except Exc β} (hx : g.Evaluates f x r)
    (hk : ∀ a, r = .ok a → g.Evaluates f (k a) (r' a)) : g.Evaluates f (x >>= k) (r >>= r') := by
  intro w hw
  obtain ⟨hkept, hr⟩ := hx w hw
  rw [Act.bind_run]
  rcases hrun : x w with ⟨e | a, w'⟩
  · rw [hrun] at hkept hr
    subst hr
    exact ⟨hkept, rfl⟩
  · rw [hrun] at hkept hr
    exact hr ▸ hk a hr.symm w' hkept

theorem Evaluates.pure (a : α) : g.Evaluates f (pure a : Act (DiWorld π ν σ) α) (.ok a) :=
  fun _ hw => ⟨hw, rfl⟩

theorem Evaluates.congr {x : Act (DiWorld π ν σ) α} {r r' : Except Exc α} (h : g.Evaluates f x r)
    (hr : r = r') : g.Evaluates f x r' := hr ▸ h

theorem evaluates_arguments {resolve : Inject π → Act (DiWorld π ν σ) ν} (req : Option ρ)
    {params : List (Param π)} (h : ∀ param ∈ params, ∀ marker ∈ param.marker,
      g.Evaluates f (resolve marker) (g.naive f (g.overridden marker.provider))) :
    g.Evaluates f (Dependencies.arguments req resolve params)
      ((g.naiveArguments (g.naive f) params).map (List.filterMap (Arg.restore req))) := by
  induction params with
  | nil => exact Evaluates.pure _
  | cons param params ih =>
    have hrest := ih fun p hp => h p (List.mem_cons_of_mem _ hp)
    rw [Dependencies.arguments, Dependencies.naiveArguments]
    split
    · apply (hrest.bind fun kwargs _ => Evaluates.pure _).congr
      cases g.naiveArguments (g.naive f) params with
      | error e => rfl
      | ok kwargs =>
        cases req with
        | none => rfl
        | some req => rfl
    · next hreq =>
      cases hm : param.default with
      | some marker =>
        have hmarker : param.marker = some marker := by
          rw [Param.marker, if_neg hreq, hm]
        dsimp only
        apply ((h param List.mem_cons_self marker hmarker).bind fun v _ =>
          hrest.bind fun kwargs _ => Evaluates.pure _).congr
        cases g.naive f (g.overridden marker.provider) with
        | error e => rfl
        | ok v =>
          cases g.naiveArguments (g.naive f) params with
          | error e => rfl
          | ok kwargs => rfl
      | none => exact hrest

/-- Events other than an injection do not matter. -/
theorem Naive.note {w : DiWorld π ν σ} {l : List (DiEvent π ν)} (h : g.Naive f w)
    (hl : ∀ p v, .injected p v ∈ l → g.naive f p = .ok v) : g.Naive f (w.note l) := by
  constructor
  · intro s p v hv
    cases s with
    | singleton => exact h.cached .singleton p v hv
    | request => exact h.cached .request p v hv
    | _ => cases hv
  · intro p v hv
    rcases List.mem_append.1 hv with hv | hv
    · exact h.injected p v (List.mem_append_left _ hv)
    · rcases List.mem_append.1 hv with hv | hv
      · exact h.injected p v (List.mem_append_right _ hv)
      · exact hl p v hv

theorem evaluates_onWorld {x : Act σ α} (h : ∀ s, x s = (r, s)) :
    g.Evaluates f (onWorld x) r := by
  intro w hw
  rw [onWorld_eq w (h w.world)]
  exact ⟨hw, rfl⟩

theorem evaluates_calling (p : π) : g.Evaluates f (Dependencies.calling p) (.ok ()) :=
  fun _ hw => ⟨hw.note fun _ _ hv => (by cases List.mem_singleton.1 hv), rfl⟩

theorem Evaluates.noted {x : Act (DiWorld π ν σ) ν} {r : Except Exc ν}
    (h : g.Evaluates f x r) (p : π) :
    g.Evaluates f (Dependencies.noted p x) r := by
  intro w hw
  obtain ⟨hkept, hr⟩ := h w hw
  rw [Dependencies.noted]
  rcases hrun : x w with ⟨e | v, w'⟩
  · rw [hrun] at hkept hr
    exact ⟨hkept.note fun _ _ hv => (by cases List.mem_singleton.1 hv), hr⟩
  · rw [hrun] at hkept hr
    exact ⟨hkept.note fun _ _ hv => (by cases List.mem_singleton.1 hv), hr⟩

theorem evaluates_invokeProvider {resolve : Inject π → Act (DiWorld π ν σ) ν} (req : ρ) {q : π}
    (hf : g.Pure f) (h : ∀ param ∈ (g.provider (g.overridden q)).params, ∀ marker ∈ param.marker,
      g.Evaluates f (resolve marker) (g.naive f (g.overridden marker.provider))) :
    g.Evaluates f (g.invokeProvider req resolve (g.overridden q)) (g.naive f (g.overridden q)) := by
  rw [Dependencies.invokeProvider]
  apply Evaluates.noted
  have hargs := evaluates_arguments (some req) h
  have hcall : ∀ kwargs : List (Str × Arg ρ ν), g.Evaluates f
      (do Dependencies.calling (g.overridden q)
          let result ← onWorld ((g.provider (g.overridden q)).code.call kwargs)
          onWorld result.await)
      (.ok () >>= fun _ =>
        f (g.overridden q) (kwargs.map fun kwarg => (kwarg.1, kwarg.2.forget))) := by
    intro kwargs
    apply (evaluates_calling (g.overridden q)).bind
    intro _ _
    rw [onWorld_bind]
    exact evaluates_onWorld (hf (g.overridden q) kwargs)
  apply (hargs.bind fun kwargs _ => hcall kwargs).congr
  rw [naive_eq]
  cases g.naiveArguments (g.naive f) (g.provider (g.overridden q)).params with
  | error e => rfl
  | ok kwargs => exact congrArg (f _) (Arg.forget_restore req kwargs)

theorem evaluates_memoised {x : Act (DiWorld π ν σ) ν} {p : π} (h : g.Evaluates f x (g.naive f p))
    (s : Scope) : g.Evaluates f (Dependencies.memoised s p x) (g.naive f p) := by
  intro w hw
  rw [Dependencies.memoised]
  cases hc : (w.cache s).get? p with
  | some v => exact ⟨hw, (hw.cached s p v hc).symm⟩
  | none =>
    obtain ⟨hkept, hr⟩ := h w hw
    dsimp only
    rw [Act.bind_run]
    rcases hrun : x w with ⟨e | v, w'⟩
    · rw [hrun] at hkept hr
      exact ⟨hkept, hr⟩
    · rw [hrun] at hkept hr
      refine ⟨⟨fun s' q u hu => ?_, fun q u hu => ?_⟩, hr⟩
      · by_cases hqp : q = p ∧ s' = s
        · obtain ⟨rfl, rfl⟩ := hqp
          rw [DiWorld.get?_store_same hu]
          exact hr.symm
        · rw [DiWorld.get?_store _ _ _ _ _ _ (not_and_or.1 hqp)] at hu
          exact hkept.cached s' q u hu
      · rw [DiWorld.past_store, DiWorld.log_store] at hu
        exact hkept.injected q u hu

theorem Evaluates.injecting {x : Act (DiWorld π ν σ) ν} {p : π}
    (h : g.Evaluates f x (g.naive f p)) :
    g.Evaluates f (Dependencies.injecting p x) (g.naive f p) := by
  intro w hw
  have hw₀ : g.Naive f (w.note [.evaluated p]) :=
    hw.note fun _ _ hv => by cases List.mem_singleton.1 hv
  obtain ⟨hkept, hr⟩ := h _ hw₀
  rcases hrun : x (w.note [.evaluated p]) with ⟨e | v, w'⟩
  · rw [hrun] at hkept hr
    rw [Dependencies.injecting_error hrun]
    exact ⟨hkept, hr⟩
  · rw [hrun] at hkept hr
    rw [Dependencies.injecting_ok hrun]
    refine ⟨hkept.note fun q u hu => ?_, hr⟩
    cases List.mem_singleton.1 hu
    exact hr.symm

theorem evaluates_resolveWithin (req : ρ) (hf : g.Pure f) {n : Nat} {marker : Inject π}
    (hn : g.rank (g.overridden marker.provider) < n) :
    g.Evaluates f (g.resolveWithin req n marker) (g.naive f (g.overridden marker.provider)) := by
  induction n generalizing marker with
  | zero => exact absurd hn (Nat.not_lt_zero _)
  | succ n ih =>
    rw [Dependencies.resolveWithin, Dependencies.resolveDependency]
    have hinvoke := evaluates_invokeProvider (g := g) (f := f) req (q := marker.provider) hf
      fun param hp marker' hmarker =>
      ih ((g.acyclic marker.provider param hp marker' hmarker).trans_le
        (Nat.le_of_lt_succ hn))
    apply Evaluates.injecting
    cases g.scope marker with
    | singleton => exact evaluates_memoised hinvoke _
    | request => exact evaluates_memoised hinvoke _
    | _ => exact hinvoke

theorem naive_serve {α : Type} (hf : g.Pure f) (x : DiRequest g α) {w : DiWorld π ν σ}
    (hw : g.Naive f w) : g.Naive f (x.serve w) := by
  have hbegun : g.Naive f (DiRequest.begun w) := by
    constructor
    · intro s p v hv
      cases s with
      | singleton => exact hw.cached .singleton p v hv
      | _ => cases hv
    · intro p v hv
      have hpast : .injected p v ∈ (w.past ++ w.log) ++ [] := hv
      rw [List.append_nil] at hpast
      exact hw.injected p v hpast
  have hargs : g.Evaluates f
      (Dependencies.arguments (none : Option ρ) (g.resolve x.req) x.handler.params) _ :=
    evaluates_arguments none fun param hp marker hmarker =>
      evaluates_resolveWithin x.req hf (Nat.lt_succ_self _)
  obtain ⟨s, hs⟩ := x.serve_eq w
  rw [hs]
  obtain ⟨hcached, hinjected⟩ := (hargs _ hbegun).1
  exact ⟨hcached, hinjected⟩

theorem naive_fresh (s : σ) : g.Naive f (DiWorld.fresh s) := by
  constructor
  · intro s p v hv
    cases s <;> cases hv
  · intro p v hv
    cases hv

end DependencyGraph

end Sovereign
