import Sovereign.Application
import Sovereign.OneResponse
import Mathlib.Data.List.Chain

namespace Sovereign
set_option autoImplicit true

/-- The two differ in the state of the application alone. -/
def Ledger.SameRecords (l l' : Ledger σ) : Prop := ∃ s, l' = { l with state := s }

namespace Ledger.SameRecords

variable {l l' l'' : Ledger σ}

theorem refl (l : Ledger σ) : l.SameRecords l := ⟨l.state, rfl⟩

theorem trans (h : l.SameRecords l') (h' : l'.SameRecords l'') : l.SameRecords l'' := by
  obtain ⟨s, rfl⟩ := h
  obtain ⟨s', rfl⟩ := h'
  exact ⟨s', rfl⟩

theorem log (h : l.SameRecords l') : l'.log = l.log := by
  obtain ⟨s, rfl⟩ := h
  rfl

theorem backgroundTasks (h : l.SameRecords l') : l'.backgroundTasks = l.backgroundTasks := by
  obtain ⟨s, rfl⟩ := h
  rfl

theorem enqueued (h : l.SameRecords l') : l'.enqueued = l.enqueued := by
  obtain ⟨s, rfl⟩ := h
  rfl

theorem submitted (h : l.SameRecords l') : l'.submitted = l.submitted := by
  obtain ⟨s, rfl⟩ := h
  rfl

end Ledger.SameRecords

namespace Server

variable {srv : Server (Ledger σ) R} {l : Ledger σ}

/-- The library functions that the server calls by itself record nothing. -/
structure Quiet (srv : Server (Ledger σ) R) : Prop where
  nowHttpDate : ∀ l : Ledger σ, l.SameRecords (srv.nowHttpDate l).2
  newRequestId : ∀ l : Ledger σ, l.SameRecords (srv.newRequestId l).2

/-- The state when the response has been written, if it is written successfully. A session begins
with the response to its handshake. -/
def written (srv : Server σ R) (req : Request) (keepAlive : Bool) (s : σ) : Option σ :=
  match srv.upgrade req with
  | some upgrade => if upgrade.handshake.isOk then some s else none
  | none =>
    match srv.produce req s with
    | (.ok (.result result), s) =>
      match srv.send req result keepAlive ⟨s, []⟩ with
      | (.ok _, w) => some w.state
      | (.error _, _) => none
    | _ => none

theorem send_sameRecords (hq : srv.Quiet) (req : Request) (result : HandlerResult)
    (keepAlive : Bool) (w : Wire (Ledger σ)) :
    w.state.SameRecords (srv.send req result keepAlive w).2.state := by
  rw [send_run, emit_run]
  exact hq.nowHttpDate w.state

theorem recover_sameRecords (hq : srv.Quiet) (req : Request) (e : Exc) (w : Wire (Ledger σ)) :
    w.state.SameRecords (srv.recover req e w).2.state := by
  cases he : errorResult e with
  | none =>
    rw [recover_none he]
    exact .refl _
  | some result =>
    rw [recover_some he]
    exact send_sameRecords hq ..

theorem identify_sameRecords (hq : srv.Quiet) (req : Request) (l : Ledger σ) :
    l.SameRecords (srv.identify req l).2 := by
  rw [Program.identify]
  split
  · exact .refl _
  · split
    · exact .refl _
    · exact hq.newRequestId l

/-- A request is given an id and nothing else. -/
theorem identify_request (srv : Server σ R) (req : Request) (s : σ) :
    ∃ requestId, (srv.identify req s).1 = { req with requestId } := by
  rw [Program.identify]
  split
  · exact ⟨_, rfl⟩
  · split
    · exact ⟨_, rfl⟩
    · exact ⟨_, rfl⟩

/-- The state after a request is that in which its `try` ends. -/
theorem answer_sameRecords (hq : srv.Quiet)
    (h : (srv.respond req keepAlive ⟨l, []⟩).2.state = l') :
    l'.SameRecords (srv.answer req keepAlive l).2.2 := by
  subst h
  rcases hr : srv.respond req keepAlive ⟨l, []⟩ with ⟨e | again, w⟩
  · simp only [answer, hr]
    exact recover_sameRecords hq req e w
  · rw [answer_ok hr]
    exact .refl _

/-- A request that opens a session. -/
theorem answer_session (hq : srv.Quiet) {upgrade : Upgrade (Ledger σ)}
    (hu : srv.upgrade req = some upgrade) (h : upgrade.handshake = .ok block) (keepAlive : Bool) :
    (upgrade.session l).2.SameRecords (srv.answer req keepAlive l).2.2 := by
  apply answer_sameRecords hq
  rw [respond_upgrade hu, openSession_run h]

/-- A request whose handshake fails. -/
theorem answer_noSession (hq : srv.Quiet) {upgrade : Upgrade (Ledger σ)}
    (hu : srv.upgrade req = some upgrade) (h : upgrade.handshake = .error e) (keepAlive : Bool) :
    l.SameRecords (srv.answer req keepAlive l).2.2 := by
  apply answer_sameRecords hq
  rw [respond_upgrade hu, openSession_refused h]

/-- A request whose response is not written successfully. -/
theorem answer_unwritten (hq : srv.Quiet) (hu : srv.upgrade req = none)
    (h : srv.written req keepAlive l = none) :
    (srv.produce req l).2.SameRecords (srv.answer req keepAlive l).2.2 := by
  simp only [written, hu] at h
  rcases hp : srv.produce req l with ⟨e | value, l'⟩
  · exact answer_sameRecords hq (by rw [respond_failed hu hp])
  · have hgo := respond_produced hu hp keepAlive
    cases value with
    | awaitable run => exact answer_sameRecords hq (by rw [hgo]; rfl)
    | result result =>
      have hsend := send_sameRecords hq req result keepAlive ⟨l', []⟩
      simp only [hp] at h
      rcases hs : srv.send req result keepAlive ⟨l', []⟩ with ⟨e | u, w⟩
      · rw [hs] at hsend
        apply hsend.trans
        apply answer_sameRecords hq
        rw [hgo, deliver, Act.bind_error _ hs]
      · rw [hs] at h
        cases h

/-- A request whose response is written successfully. -/
theorem answer_written (hq : srv.Quiet) (hu : srv.upgrade req = none)
    (h : srv.written req keepAlive l = some m) :
    (srv.produce req l).2.SameRecords m ∧
      (srv.background req m).2.SameRecords (srv.answer req keepAlive l).2.2 := by
  simp only [written, hu] at h
  rcases hp : srv.produce req l with ⟨e | value, l'⟩
  · rw [hp] at h
    cases h
  · have hgo := respond_produced hu hp keepAlive
    cases value with
    | awaitable run =>
      rw [hp] at h
      cases h
    | result result =>
      have hsend := send_sameRecords hq req result keepAlive ⟨l', []⟩
      simp only [hp] at h
      rcases hs : srv.send req result keepAlive ⟨l', []⟩ with ⟨e | u, w⟩
      · rw [hs] at h
        cases h
      · rw [hs] at h hsend
        cases h
        refine ⟨hsend, answer_sameRecords hq ?_⟩
        rw [hgo, deliver, Act.bind_ok _ hs, Act.bind_run, onState_run]
        rcases srv.background req w.state with ⟨_ | _, _⟩ <;> rfl

/-- The loop goes on only after a response that was written and background tasks that were run. -/
theorem answer_goesOn (h : (srv.answer req keepAlive l).2.1 = true) :
    ∃ m, srv.upgrade req = none ∧ srv.written req keepAlive l = some m ∧
      (srv.background req m).1 = .ok () ∧
      (srv.answer req keepAlive l).2.2 = (srv.background req m).2 := by
  rcases hr : srv.respond req keepAlive ⟨l, []⟩ with ⟨e | again, w⟩
  · rw [answer_stops hr] at h
    cases h
  · rw [answer_ok hr] at h ⊢
    cases h
    cases hu : srv.upgrade req with
    | some upgrade =>
      rw [respond_upgrade hu] at hr
      cases hh : upgrade.handshake with
      | error e =>
        rw [openSession_refused hh] at hr
        cases hr
      | ok block =>
        rw [openSession_run hh] at hr
        rcases hs : (upgrade.session l).1.2 with e | u
        · rw [hs] at hr
          cases hr
        · rw [hs] at hr
          cases hr
    | none =>
      simp only [written, hu]
      rcases hp : srv.produce req l with ⟨e | value, l'⟩
      · rw [respond_failed hu hp] at hr
        cases hr
      · rw [respond_produced hu hp] at hr
        cases value with
        | awaitable run => cases hr
        | result result =>
          rcases hs : srv.send req result keepAlive ⟨l', []⟩ with ⟨e | u, w'⟩
          · rw [deliver, Act.bind_error _ hs] at hr
            cases hr
          · rw [deliver, Act.bind_ok _ hs, Act.bind_run, onState_run] at hr
            refine ⟨w'.state, trivial, by simp only [hs], ?_⟩
            rcases hb : srv.background req w'.state with ⟨e | u', l''⟩
            · rw [hb] at hr
              cases hr
            · rw [hb] at hr
              cases hr
              exact ⟨rfl, rfl⟩

/-- What holds at the start of a connection and again after each pass after which the loop goes
on holds whenever a pass begins. -/
theorem connection_invariant {srv : Server σ R} {I : σ → Prop}
    (hstep : ∀ req keepAlive s, (srv.answer req keepAlive s).2.1 = true →
      I (srv.answer req keepAlive s).2.2) (hs : I s) :
    ∀ x ∈ srv.connection remoteAddr remaining reader s, I x.state := by
  induction remaining generalizing reader s with
  | zero =>
    intro x hx
    cases hx
  | succ remaining ih =>
    intro x hx
    rw [connection] at hx
    split at hx
    · cases hx
    · split at hx
      · cases List.mem_singleton.1 hx
        exact hs
      · rcases List.mem_cons.1 hx with rfl | hx
        · exact hs
        · split at hx
          · next hagain => exact ih (hstep _ _ _ hagain) x hx
          · cases hx

/-- Every pass of the loop either has refused a request or has served one. -/
theorem mem_connection {srv : Server σ R} (h : x ∈ srv.connection remoteAddr remaining reader s) :
    (∃ e s', x = srv.refuse remoteAddr e s') ∨
      ∃ req reader' remaining' s', x = (srv.serve req reader' remaining' s').1 := by
  induction remaining generalizing reader s with
  | zero => cases h
  | succ remaining ih =>
    rw [connection] at h
    split at h
    · cases h
    · split at h
      · exact .inl ⟨_, _, List.mem_singleton.1 h⟩
      · rcases List.mem_cons.1 h with h | h
        · exact .inr ⟨_, _, _, _, h⟩
        · split at h
          · exact ih h
          · cases h

theorem connection_head (h : x ∈ (srv.connection remoteAddr remaining reader l).head?) :
    x.state = l := by
  cases remaining with
  | zero => cases h
  | succ remaining =>
    rw [connection] at h
    split at h
    · cases h
    · split at h
      · cases h
        rfl
      · cases h
        rfl

/-- A pass begins in the state that the pass before it ends in. -/
theorem connection_isChain (srv : Server (Ledger σ) R) (remoteAddr : Str) (remaining : Nat)
    (reader : R) (l : Ledger σ) :
    (srv.connection remoteAddr remaining reader l).IsChain fun x y =>
      y.state = srv.after remoteAddr x := by
  induction remaining generalizing reader l with
  | zero => exact .nil
  | succ remaining ih =>
    rw [connection]
    split
    · exact .nil
    · split
      · exact .singleton _
      · next req reader' _ =>
        dsimp only
        split
        · apply List.isChain_cons.2
          constructor
          · intro y hy
            exact connection_head hy
          · exact ih reader' _
        · exact .singleton _

theorem after_serve (srv : Server σ R) (remoteAddr : Str) (req : Request) (reader : R)
    (remaining : Nat) (s : σ) :
    srv.after remoteAddr (srv.serve req reader remaining s).1 =
      (srv.serve req reader remaining s).2 := rfl

theorem entries_eq {srv : Server (Ledger σ) R} {x : Exchange (Ledger σ)}
    (h : (srv.after remoteAddr x).log = x.state.log ++ es) : srv.entries remoteAddr x = es := by
  rw [entries, h, List.drop_left]

/-- A pass that refuses a request enters nothing. -/
theorem entries_refuse (hq : srv.Quiet) (remoteAddr : Str) (e : Exc) (l : Ledger σ) :
    srv.entries remoteAddr (srv.refuse remoteAddr e l) = [] := by
  apply entries_eq
  rw [List.append_nil]
  have hrec := recover_sameRecords hq (srv.dummyRequest remoteAddr l).1 e
    ⟨(srv.dummyRequest remoteAddr l).2, []⟩
  exact hrec.log.trans (hq.newRequestId l).log

end Server

namespace TaskRuntime

variable (runtime : TaskRuntime)

theorem handOver_log (entry : Job) (l : Ledger σ) : (runtime.handOver entry l).2.log = l.log := by
  rw [handOver]
  split
  · rw [enqueue]
    split
    · rfl
    · split <;> rfl
  · rw [submitJob]
    split <;> rfl

theorem handOverAll_log (entries : List Job) (l : Ledger σ) :
    (runtime.handOverAll entries l).2.log = l.log := by
  induction entries generalizing l with
  | nil => rfl
  | cons entry entries ih =>
    have hone := runtime.handOver_log entry l
    rw [handOverAll, Act.bind_run]
    rcases hr : runtime.handOver entry l with ⟨e | u, l'⟩
    · rw [hr] at hone
      exact hone
    · rw [hr] at hone
      exact (ih l').trans hone

/-- The list is cleared if all its tasks could be handed over. -/
theorem runBackgroundTasks_run (req : Request) (l : Ledger σ) :
    runtime.runBackgroundTasks req l =
      match runtime.handOverAll l.backgroundTasks l with
      | (.ok _, l') => (.ok (), { l' with backgroundTasks := [] })
      | (.error e, l') => (.error e, l') := by
  have hrun : runtime.runBackgroundTasks req l = (do
    runtime.handOverAll l.backgroundTasks
    (fun l => (.ok (), { l with backgroundTasks := [] }) : Act (Ledger σ) Unit)) l := rfl
  rw [hrun, Act.bind_run]
  rcases runtime.handOverAll l.backgroundTasks l with ⟨e | u, l'⟩ <;> rfl

theorem runBackgroundTasks_log (req : Request) (l : Ledger σ) :
    (runtime.runBackgroundTasks req l).2.log = l.log := by
  have hall := runtime.handOverAll_log l.backgroundTasks l
  rw [runBackgroundTasks_run]
  rcases hr : runtime.handOverAll l.backgroundTasks l with ⟨e | u, l'⟩
  · rw [hr] at hall
    exact hall
  · rw [hr] at hall
    exact hall

theorem runBackgroundTasks_clears (req : Request) (l : Ledger σ)
    (h : (runtime.runBackgroundTasks req l).1 = .ok ()) :
    (runtime.runBackgroundTasks req l).2.backgroundTasks = [] := by
  rw [runBackgroundTasks_run] at h ⊢
  rcases hr : runtime.handOverAll l.backgroundTasks l with ⟨e | u, l'⟩
  · rw [hr] at h
    cases h
  · rfl

theorem runBackgroundTasks_kept (req : Request) (l : Ledger σ) :
    (runtime.runBackgroundTasks req l).2.enqueued =
        (runtime.handOverAll l.backgroundTasks l).2.enqueued ∧
      (runtime.runBackgroundTasks req l).2.submitted =
        (runtime.handOverAll l.backgroundTasks l).2.submitted := by
  rw [runBackgroundTasks_run]
  rcases runtime.handOverAll l.backgroundTasks l with ⟨e | u, l'⟩ <;> exact ⟨rfl, rfl⟩

end TaskRuntime

namespace Application

variable (app : Application σ)

theorem threaded_quiet [Urllib] : app.threaded.server.Quiet where
  nowHttpDate _ := ⟨_, rfl⟩
  newRequestId _ := ⟨_, rfl⟩

theorem async_quiet [Urllib] :
    (AsyncSovereignServer.server app.program : Server (Ledger σ) (StreamReader cap)).Quiet where
  nowHttpDate _ := ⟨_, rfl⟩
  newRequestId _ := ⟨_, rfl⟩

theorem threaded_upgrade_none [Urllib] (h : isWebsocketUpgrade req = false) :
    app.threaded.server.upgrade req = none := by
  change (if isWebsocketUpgrade req = true then _ else none) = none
  rw [if_neg (by rw [h]; exact Bool.false_ne_true)]

/-- The upgrade of a request with the session of the websocket handler. -/
def upgrade (req : Request) : Upgrade (Ledger σ) where
  handshake := handshake app.webSocketAccept req
  session :=
    match app.websocketHandler with
    | some handler => session handler req
    | none => fun l => (([], .ok ()), l)

theorem threaded_upgrade_some [Urllib] (h : isWebsocketUpgrade req = true) :
    app.threaded.server.upgrade req = some (app.upgrade req) := by
  change (if isWebsocketUpgrade req = true then _ else none) = _
  rw [if_pos h]
  obtain ⟨_, _, _, _, _, _, _, _, _, websocketHandler, _⟩ := app
  cases websocketHandler <;> rfl

theorem upgrade_session_none (h : app.websocketHandler = none) (req : Request) (l : Ledger σ) :
    (app.upgrade req).session l = (([], .ok ()), l) := by
  simp only [upgrade, h]

theorem upgrade_session_some (h : app.websocketHandler = some handler) (req : Request)
    (l : Ledger σ) : (app.upgrade req).session l = session handler req l := by
  simp only [upgrade, h]

/-- A session hands no task over. -/
theorem upgrade_kept (req : Request) (l : Ledger σ) :
    ((app.upgrade req).session l).2.enqueued = l.enqueued ∧
      ((app.upgrade req).session l).2.submitted = l.submitted := by
  cases hw : app.websocketHandler with
  | none =>
    rw [upgrade_session_none app hw]
    exact ⟨rfl, rfl⟩
  | some handler =>
    rw [upgrade_session_some app hw]
    exact ⟨rfl, rfl⟩

end Application

end Sovereign
