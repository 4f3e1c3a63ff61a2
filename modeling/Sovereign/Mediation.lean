import Sovereign.CodeSafety
import Sovereign.Lib.History

namespace Sovereign
set_option autoImplicit true

/-- A record later than `before` in a chain of `n` global middlewares. -/
def Entry.Past (n : Nat) (before : List Entry) : Entry → Prop
  | application => ∀ i < n, .middleware i ∈ before
  | _ => True

/-- Application code is entered after every global middleware only. -/
def Mediated (n : Nat) (log : List Entry) : Prop := History.Each (Entry.Past n) log

def Entry.call? : Entry → Option TaskCall
  | task call => some call
  | _ => none

/-- The calls of `add_background_task`, in their order. -/
def callsOf (log : List Entry) : List TaskCall := log.filterMap Entry.call?

@[simp] theorem callsOf_append (log log' : List Entry) :
    callsOf (log ++ log') = callsOf log ++ callsOf log' := List.filterMap_append

@[simp] theorem callsOf_middleware (i : Nat) : callsOf [.middleware i] = [] := rfl

@[simp] theorem callsOf_application : callsOf [.application] = [] := rfl

/-- What holds from `l` on until its background tasks are handed over. -/
structure Since (n : Nat) (l w : Ledger σ) : Prop where
  log : ∃ es, w.log = l.log ++ es ∧ Mediated n es ∧
    w.backgroundTasks = l.backgroundTasks ++ (callsOf es).map TaskCall.entry
  enqueued : w.enqueued = l.enqueued
  submitted : w.submitted = l.submitted
  handOvers : w.handOvers = l.handOvers

/-- The first `i` global middlewares have been entered since `l`. -/
def Passed (i : Nat) (l w : Ledger σ) : Prop :=
  ∀ j < i, .middleware j ∈ w.log.drop l.log.length

theorem Passed.later {l w w' : Ledger σ} (h : Passed i l w) (hle : w ≤ w') : Passed i l w' := by
  intro j hj
  exact (List.IsPrefix.drop hle _).subset (h j hj)

theorem passed_zero (l w : Ledger σ) : Passed 0 l w := by
  intro j hj
  exact absurd hj (Nat.not_lt_zero j)

namespace Since

variable {l w : Ledger σ}

theorem refl (n : Nat) (l : Ledger σ) : Since n l l where
  log := ⟨[], (List.append_nil _).symm, History.each_nil, (List.append_nil _).symm⟩
  enqueued := rfl
  submitted := rfl
  handOvers := rfl

theorem write (h : Since n l w) (s : σ) : Since n l { w with state := s } :=
  ⟨h.log, h.enqueued, h.submitted, h.handOvers⟩

/-- One more record. -/
theorem record (h : Since n l w) (hpast : ∀ es, w.log = l.log ++ es → e.Past n es) :
    Since n l { w with log := w.log ++ [e]
                       backgroundTasks := w.backgroundTasks ++ (callsOf [e]).map TaskCall.entry } := by
  obtain ⟨es, hlog, hmed, htasks⟩ := h.log
  refine ⟨⟨es ++ [e], ?_, ?_, ?_⟩, h.enqueued, h.submitted, h.handOvers⟩
  · rw [hlog, List.append_assoc]
  · exact History.each_concat.2 ⟨hmed, hpast es hlog⟩
  · rw [htasks, callsOf_append, List.map_append, List.append_assoc]

theorem middleware (h : Since n l w) (i : Nat) :
    Since n l { w with log := w.log ++ [.middleware i] } := by
  have hr := h.record (e := .middleware i) fun _ _ => trivial
  rwa [callsOf_middleware, List.map_nil, List.append_nil] at hr

theorem task (h : Since n l w) (call : TaskCall) :
    Since n l { w with log := w.log ++ [.task call]
                       backgroundTasks := w.backgroundTasks ++ [call.entry] } :=
  h.record (e := .task call) fun _ _ => trivial

theorem application (h : Since n l w) (hp : Passed n l w) :
    Since n l { w with log := w.log ++ [.application] } := by
  have hr := h.record (e := .application) fun es hlog i hi => by
    have hm := hp i hi
    rwa [hlog, List.drop_left] at hm
  rwa [callsOf_application, List.map_nil, List.append_nil] at hr

end Since

section Application

variable {l w : Ledger σ}

theorem since_allowed (n : Nat) (l : Ledger σ) : Allowed (Since n l) where
  write _ s h := h.write s
  task _ call h := h.task call

theorem enter_middleware_keeps (n : Nat) (hw : Passed i l w) :
    Worlds.Keeps (Since n l) (fun v _ => Passed (i + 1) l v) w
      (enter (Entry.middleware i)) := by
  intro v hv hs
  refine ⟨List.prefix_append _ _, hs.middleware i, fun _ _ => ?_⟩
  obtain ⟨es, hlog, -⟩ := hs.log
  intro j hj
  change Entry.middleware j ∈ (v.log ++ [Entry.middleware i]).drop l.log.length
  rw [hlog, List.append_assoc, List.drop_left, List.mem_append]
  rcases Nat.lt_succ_iff_lt_or_eq.1 hj with hlt | rfl
  · have hm := hw.later hv j hlt
    rw [hlog, List.drop_left] at hm
    exact .inl hm
  · exact .inr (List.mem_singleton_self _)

theorem enter_application_keeps (hw : Passed n l w) :
    Worlds.Keeps (Since n l) (fun _ _ => True) w (enter Entry.application) := by
  intro v hv hs
  exact ⟨List.prefix_append _ _, hs.application (hw.later hv), fun _ _ => trivial⟩

theorem onApplication_keeps (n : Nat) (l w : Ledger σ) (x : Act σ α) :
    Worlds.Keeps (Since n l) (fun _ _ => True) w (onApplication x) := by
  intro v _ hs
  exact ⟨List.prefix_rfl, hs.write _, fun _ _ => trivial⟩

theorem served_keeps (hw : Passed n l w) (respond : Request → Act σ HandlerResult)
    (req : Request) :
    Worlds.Keeps (Since n l) (fun _ _ => True) w (Application.served respond req) := by
  apply (enter_application_keeps hw).bind
  intro v _ _ _
  exact onApplication_keeps n l v _

theorem global_moves (n i : Nat) (l : Ledger σ) (mw : AppMiddleware σ) :
    Moves (Since n l) (Passed i l) (Passed (i + 1) l) (mw.global i) := by
  intro w next req hw hnext
  apply (enter_middleware_keeps n hw).bind
  intro v _ _ hv
  exact (mw.code req).run_safely (since_allowed n l) (hnext v hv) fun i => i.elim0

theorem local_moves (n : Nat) (l : Ledger σ) (mw : AppMiddleware σ) :
    Moves (Since n l) P P mw.local := by
  intro w next req hw hnext
  exact (mw.code req).run_safely (since_allowed n l) (hnext w hw) fun i => i.elim0

theorem globals_path (n : Nat) (l : Ledger σ) (mws : List (AppMiddleware σ)) (i : Nat) :
    Path (Since n l) (Passed i l) (globalsFrom i mws) (Passed (i + mws.length) l) := by
  induction mws generalizing i with
  | nil => exact .nil
  | cons mw mws ih =>
    have hrest := ih (i + 1)
    rw [Nat.add_assoc, Nat.add_comm 1] at hrest
    exact .cons (global_moves n i l mw) hrest

theorem locals_path (n : Nat) (l : Ledger σ) (mws : List (AppMiddleware σ)) :
    Path (Since n l) P (mws.map AppMiddleware.local) P := by
  induction mws with
  | nil => exact .nil
  | cons mw mws ih => exact .cons (local_moves n l mw) ih

/-- A handler and the middlewares of its route: the handler may be called after all global
middlewares only. -/
def Mounted (n : Nat) (l : Ledger σ) (handler : Endpoint (Ledger σ))
    (mws : List (Middleware (Ledger σ))) : Prop :=
  (∀ v, Passed n l v → ∀ r, Safely (Since n l) v (handler r)) ∧
    Path (Since n l) (Passed n l) mws (Passed n l)

theorem Mounted.path {app : Application σ} (h : Mounted app.globals.length l handler mws) :
    Path (Since app.globals.length l) (Passed 0 l) (app.router.middlewares ++ mws)
      (Passed app.globals.length l) := by
  have hglobals := globals_path app.globals.length l app.globals 0
  rw [Nat.zero_add] at hglobals
  exact hglobals.append h.2

theorem Mounted.execute_safely {app : Application σ} (h : Mounted app.globals.length l handler mws)
    (w : Ledger σ) (req : Request) :
    Safely (Since app.globals.length l) w (app.router.execute req handler mws) :=
  h.path.build_safely h.1 w (passed_zero l w) req

theorem Mounted.executeAsync_safely {app : Application σ}
    (h : Mounted app.globals.length l handler mws) (w : Ledger σ) (req : Request) :
    Safely (Since app.globals.length l) w (app.router.executeAsync req handler mws) :=
  h.path.runner_safely h.1 w (passed_zero l w) req

theorem handler_call_safely (hw : Passed n l w) (route : AppRoute σ) (params : Dict Str Str)
    (req : Request) : Safely (Since n l) w (route.route.handler.call params req) := by
  have hbody : Safely (Since n l) w (route.route.handler.body params req) := by
    apply (enter_application_keeps hw).bind
    intro v _ _ _
    exact (route.code params req).start_safely (since_allowed n l)
  rw [Handler.call]
  split
  · exact safely_awaitable hbody
  · exact hbody

theorem callHandler_safely (hw : Passed n l w) (route : AppRoute σ) (params : Dict Str Str)
    (req : Request) : Safely (Since n l) w (callHandler route.route.handler params req) := by
  apply (handler_call_safely hw route params req).bind
  intro v result _ hsafe
  exact settle_safely hsafe

theorem callHandlerAsync_safely (hw : Passed n l w) (route : AppRoute σ) (params : Dict Str Str)
    (req : Request) : Safely (Since n l) w (callHandlerAsync route.route.handler params req) :=
  settle_twice_safely _ (handler_call_safely hw route params req)

theorem findRoute_mem {routes : List (Route σ)}
    (h : Router.findRoute method path routes allowed = .inr (route, groups)) : route ∈ routes := by
  induction routes generalizing allowed with
  | nil => cases h
  | cons r routes ih =>
    rw [Router.findRoute] at h
    split at h
    · exact List.mem_cons_of_mem _ (ih h)
    · split at h
      · cases h
        exact List.mem_cons_self
      · exact List.mem_cons_of_mem _ (ih h)

/-- How one of the two routers defines functions and calls handlers. -/
structure Defines (n : Nat) (l : Ledger σ) (define : Endpoint (Ledger σ) → Endpoint (Ledger σ))
    (call : Handler (Ledger σ) → Dict Str Str → Endpoint (Ledger σ)) : Prop where
  define : ∀ f v r, Safely (Since n l) v (f r) → Safely (Since n l) v (define f r)
  call : ∀ (route : AppRoute σ) params v r, Passed n l v →
    Safely (Since n l) v (call route.route.handler params r)

theorem defines_id (n : Nat) (l : Ledger σ) : Defines n l id callHandler where
  define _ _ _ h := h
  call route params _ r hv := callHandler_safely hv route params r

theorem defines_coroutineFunction (n : Nat) (l : Ledger σ) :
    Defines n l coroutineFunction callHandlerAsync where
  define _ _ _ h := safely_awaitable h
  call route params _ r hv := callHandlerAsync_safely hv route params r

theorem resolveWith_keeps {app : Application σ} (hd : Defines app.globals.length l define call)
    (w : Ledger σ) (method path : Str) :
    Worlds.Keeps (Since app.globals.length l)
      (fun _ found => Mounted app.globals.length l found.1 found.2) w
      (app.router.resolveWith define call method path) := by
  rw [Router.resolveWith]
  split
  · apply Worlds.Keeps.pure
    intro _ _
    refine ⟨fun v hv r => hd.define _ v r ?_, .nil⟩
    apply (served_keeps hv app.openapi r).bind
    intro _ _ _ _
    exact .pure fun _ _ => .result
  · split
    · next route groups hfound =>
      obtain ⟨appRoute, -, rfl⟩ := List.mem_map.1 (findRoute_mem hfound)
      apply Worlds.Keeps.pure
      intro _ _
      exact ⟨fun v hv r => hd.define _ v r (hd.call appRoute groups v r hv), locals_path _ l _⟩
    · split
      · apply Worlds.Keeps.pure
        intro _ _
        exact ⟨fun v _ r => hd.define _ v r (.pure fun _ _ => .result), .nil⟩
      · split
        · exact .throw _
        · exact .throw _

theorem produceWith_safely {app : Application σ} (methods : List Str)
    {resolve : Str → Str → Act (Ledger σ) (Endpoint (Ledger σ) × List (Middleware (Ledger σ)))}
    {execute : Request → Endpoint (Ledger σ) → List (Middleware (Ledger σ)) →
      Act (Ledger σ) (Val (Ledger σ))}
    (hresolve : ∀ method path, Worlds.Keeps (Since app.globals.length l)
      (fun _ found => Mounted app.globals.length l found.1 found.2) w (resolve method path))
    (hexecute : ∀ v req handler mws, Mounted app.globals.length l handler mws →
      Safely (Since app.globals.length l) v (execute req handler mws)) (req : Request) :
    Safely (Since app.globals.length l) w
      (produceWith app.program methods resolve execute req) := by
  rw [produceWith]
  split
  · apply hexecute
    exact ⟨fun v hv r => safely_result (served_keeps hv app.staticResponse r), .nil⟩
  · apply (hresolve req.method req.path).bind
    intro v found _ hm
    exact hexecute v req found.1 found.2 hm

theorem threaded_produce_since [Urllib] (app : Application σ) (req : Request) (l : Ledger σ) :
    Since app.globals.length l (app.threaded.server.produce req l).2 := by
  have hsafe : Safely (Since app.globals.length l) l (app.threaded.server.produce req) :=
    produceWith_safely _ (resolveWith_keeps (defines_id _ l) l)
      (fun v req _ _ hm => hm.execute_safely v req) req
  exact (hsafe l (le_refl l) (.refl _ l)).2.1

theorem async_produce_since [Urllib] (app : Application σ) (req : Request) (l : Ledger σ) :
    Since app.globals.length l
      ((AsyncSovereignServer.server app.program : Server (Ledger σ) (StreamReader cap)).produce
        req l).2 := by
  have hsafe : Safely (Since app.globals.length l) l
      ((AsyncSovereignServer.server app.program : Server (Ledger σ) (StreamReader cap)).produce
        req) :=
    produceWith_safely _ (resolveWith_keeps (defines_coroutineFunction _ l) l)
      (fun v req _ _ hm => hm.executeAsync_safely v req) req
  exact (hsafe l (le_refl l) (.refl _ l)).2.1

end Application

end Sovereign
