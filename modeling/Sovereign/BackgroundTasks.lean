import Sovereign.Exchanges
import Sovereign.Mediation

namespace Sovereign
set_option autoImplicit true

namespace TaskRuntime

variable (runtime : TaskRuntime)

/-- The call of the task without the keyword that carries the flag. -/
def stripped (call : TaskCall) : Job :=
  { call.job with kwargs := call.job.kwargs.erase persistentKey }

/-- The `n`th hand-over can hand over a task. -/
def Takes (n : Nat) (call : TaskCall) : Prop :=
  if call.persistent then (runtime.row n (stripped call)).isOk = true
  else (runtime.submit n).isOk = true

/-- From the `n`th hand-over on the tasks can be handed over, and none of them has a keyword that is
named as the flag is. -/
def Accepts : Nat → List TaskCall → Prop
  | _, [] => True
  | n, call :: calls =>
    call.job.kwargs.contains persistentKey = false ∧ runtime.Takes n call ∧ Accepts (n + 1) calls

end TaskRuntime

/-- Each of the tasks has been handed over once, in their order and after the response was written:
to the queue or to the executor as its flag says, with its arguments. -/
structure HandedOver (runtime : TaskRuntime) (before written after : Ledger σ)
    (calls : List TaskCall) : Prop where
  deferred : written.enqueued = before.enqueued ∧ written.submitted = before.submitted
  enqueued : ∃ rows, after.enqueued = before.enqueued ++ rows ∧
    rows.map Prod.fst = (calls.filter TaskCall.persistent).map TaskCall.job ∧
    ∀ r ∈ rows, ∃ n, runtime.row n r.1 = .ok r.2
  submitted : after.submitted = before.submitted ++
    (calls.filter fun call => !call.persistent).map TaskCall.job

namespace HandedOver

variable {runtime : TaskRuntime} {before written after after' : Ledger σ} {calls : List TaskCall}

theorem length
    (h : HandedOver runtime before written after calls) :
    after.enqueued.length + after.submitted.length =
      before.enqueued.length + before.submitted.length + calls.length := by
  obtain ⟨rows, hrows, hfst, -⟩ := h.enqueued
  have hlen := congrArg List.length hfst
  rw [List.length_map, List.length_map] at hlen
  have hpart := List.length_eq_length_filter_add (l := calls) TaskCall.persistent
  rw [hrows, h.submitted, List.length_append, List.length_append, List.length_map]
  omega

theorem congr (henq : after'.enqueued = after.enqueued)
    (hsub : after'.submitted = after.submitted) :
    HandedOver runtime before written after' calls ↔
      HandedOver runtime before written after calls := by
  constructor
  · intro h
    exact ⟨h.deferred, henq ▸ h.enqueued, hsub ▸ h.submitted⟩
  · intro h
    exact ⟨h.deferred, henq ▸ h.enqueued, hsub ▸ h.submitted⟩

/-- Where nothing is handed over, nothing was added. -/
theorem iff_nil
    (hwritten : written.enqueued = before.enqueued ∧ written.submitted = before.submitted)
    (henq : after.enqueued = before.enqueued) (hsub : after.submitted = before.submitted) :
    HandedOver runtime before written after calls ↔ calls = [] := by
  constructor
  · intro h
    have hlen := h.length
    rw [henq, hsub] at hlen
    apply List.length_eq_zero_iff.1
    omega
  · rintro rfl
    refine ⟨hwritten, ⟨[], by rw [henq, List.append_nil], rfl, ?_⟩, by rw [hsub]; simp⟩
    intro r hmem
    cases hmem

end HandedOver

namespace TaskRuntime

variable {runtime : TaskRuntime} {l : Ledger σ}

theorem handOver_entry (call : TaskCall) (l : Ledger σ) :
    runtime.handOver call.entry l =
      if call.persistent then runtime.enqueue (stripped call) l
      else runtime.submitJob (stripped call) l := by
  have hflag : call.entry.kwargs.get? persistentKey = some (.bool call.persistent) := by
    rw [TaskCall.entry, Dict.get?_set, if_pos rfl]
  have hrest : { call.entry with kwargs := call.entry.kwargs.erase persistentKey } =
      stripped call := by
    rw [TaskCall.entry, stripped, Dict.erase_set]
  rw [handOver, hflag, hrest]
  cases call.persistent <;> rfl

theorem stripped_keywords (call : TaskCall) (name : Str) (h : name ∈ taskParameters) :
    (stripped call).kwargs.contains name = false :=
  Dict.contains_erase_of_not (call.keywords name h) _

theorem stripped_eq {call : TaskCall} :
    stripped call = call.job ↔ call.job.kwargs.contains persistentKey = false := by
  rw [← Dict.erase_eq_self]
  constructor
  · intro h
    exact congrArg Job.kwargs h
  · intro h
    rw [stripped, h]

theorem enqueue_ok {call : TaskCall} (h : runtime.row l.handOvers (stripped call) = .ok task) :
    runtime.enqueue (stripped call) l =
      (.ok (), { l with handOvers := l.handOvers + 1
                        enqueued := l.enqueued ++ [(stripped call, task)] }) := by
  have hself := stripped_keywords call "self".toList (by decide)
  have hfunc := stripped_keywords call "func".toList (by decide)
  rw [enqueue, hself, hfunc, if_neg (by decide), h]

theorem enqueue_error {call : TaskCall} (h : runtime.row l.handOvers (stripped call) = .error e) :
    runtime.enqueue (stripped call) l = (.error e, { l with handOvers := l.handOvers + 1 }) := by
  have hself := stripped_keywords call "self".toList (by decide)
  have hfunc := stripped_keywords call "func".toList (by decide)
  rw [enqueue, hself, hfunc, if_neg (by decide), h]

/-- A task that can be handed over. -/
theorem handOver_takes {call : TaskCall} (h : runtime.Takes l.handOvers call) :
    ∃ l', runtime.handOver call.entry l = (.ok (), l') ∧ l'.handOvers = l.handOvers + 1 ∧
      (∃ rows, l'.enqueued = l.enqueued ++ rows ∧
        rows.map Prod.fst = ([call].filter TaskCall.persistent).map stripped ∧
        ∀ r ∈ rows, ∃ n, runtime.row n r.1 = .ok r.2) ∧
      l'.submitted = l.submitted ++ ([call].filter fun c => !c.persistent).map stripped := by
  rw [handOver_entry]
  rw [Takes] at h
  cases hp : call.persistent with
  | true =>
    simp only [hp, ↓reduceIte] at h ⊢
    cases hr : runtime.row l.handOvers (stripped call) with
    | error e =>
      rw [hr] at h
      cases h
    | ok task =>
      refine ⟨_, enqueue_ok hr, rfl, ⟨[(stripped call, task)], rfl, by simp [hp], ?_⟩, by simp [hp]⟩
      intro r hmem
      rw [List.mem_singleton.1 hmem]
      exact ⟨_, hr⟩
  | false =>
    simp only [hp, Bool.false_eq_true, ↓reduceIte] at h ⊢
    rw [submitJob]
    cases hr : runtime.submit l.handOvers with
    | error e =>
      rw [hr] at h
      cases h
    | ok u =>
      refine ⟨_, rfl, rfl, ⟨[], (List.append_nil _).symm, by simp [hp], ?_⟩, by simp [hp]⟩
      intro r hmem
      cases hmem

/-- A task that cannot be handed over is dropped. -/
theorem handOver_fails {call : TaskCall} (h : ¬ runtime.Takes l.handOvers call) :
    ∃ e l', runtime.handOver call.entry l = (.error e, l') ∧ l'.enqueued = l.enqueued ∧
      l'.submitted = l.submitted := by
  rw [handOver_entry]
  rw [Takes] at h
  cases hp : call.persistent with
  | true =>
    simp only [hp, ↓reduceIte] at h ⊢
    cases hr : runtime.row l.handOvers (stripped call) with
    | error e => exact ⟨e, _, enqueue_error hr, rfl, rfl⟩
    | ok task =>
      rw [hr] at h
      exact absurd rfl h
  | false =>
    simp only [hp, Bool.false_eq_true, ↓reduceIte] at h ⊢
    rw [submitJob]
    cases hr : runtime.submit l.handOvers with
    | error e => exact ⟨e, _, rfl, rfl, rfl⟩
    | ok u =>
      rw [hr] at h
      exact absurd rfl h

/-- From the `n`th hand-over on the tasks can be handed over. -/
def TakesAll (runtime : TaskRuntime) : Nat → List TaskCall → Prop
  | _, [] => True
  | n, call :: calls => runtime.Takes n call ∧ runtime.TakesAll (n + 1) calls

theorem accepts_iff (n : Nat) (calls : List TaskCall) :
    runtime.Accepts n calls ↔ runtime.TakesAll n calls ∧
      ∀ call ∈ calls, stripped call = call.job := by
  induction calls generalizing n with
  | nil => simp [Accepts, TakesAll]
  | cons call calls ih =>
    rw [Accepts, TakesAll, ih, List.forall_mem_cons, stripped_eq]
    tauto

/-- What handing over all tasks of a request comes to. -/
theorem handOverAll_takes (calls : List TaskCall) (h : runtime.TakesAll l.handOvers calls) :
    ∃ l', runtime.handOverAll (calls.map TaskCall.entry) l = (.ok (), l') ∧
      (∃ rows, l'.enqueued = l.enqueued ++ rows ∧
        rows.map Prod.fst = (calls.filter TaskCall.persistent).map stripped ∧
        ∀ r ∈ rows, ∃ n, runtime.row n r.1 = .ok r.2) ∧
      l'.submitted = l.submitted ++ (calls.filter fun c => !c.persistent).map stripped := by
  induction calls generalizing l with
  | nil =>
    refine ⟨l, rfl, ⟨[], (List.append_nil _).symm, rfl, ?_⟩, (List.append_nil _).symm⟩
    intro r hmem
    cases hmem
  | cons call calls ih =>
    obtain ⟨l₁, hrun, hcount, ⟨rows, hrows, hfst, hmade⟩, hsub⟩ := handOver_takes h.1
    obtain ⟨l', hrun', ⟨rows', hrows', hfst', hmade'⟩, hsub'⟩ := ih (l := l₁) (hcount ▸ h.2)
    have hsplit : ∀ p : TaskCall → Bool, (call :: calls).filter p =
        [call].filter p ++ calls.filter p := fun p => List.filter_append [call] calls
    refine ⟨l', ?_, ⟨rows ++ rows', ?_, ?_, ?_⟩, ?_⟩
    · rw [List.map_cons, handOverAll, Act.bind_ok _ hrun, hrun']
    · rw [hrows', hrows, List.append_assoc]
    · rw [List.map_append, hfst, hfst', hsplit, List.map_append]
    · intro r hmem
      rcases List.mem_append.1 hmem with hmem | hmem
      · exact hmade r hmem
      · exact hmade' r hmem
    · rw [hsub', hsub, hsplit, List.map_append, List.append_assoc]

/-- One task that cannot be handed over drops all that come after it too. -/
theorem handOverAll_fails (calls : List TaskCall) (h : ¬ runtime.TakesAll l.handOvers calls) :
    ∃ e l', runtime.handOverAll (calls.map TaskCall.entry) l = (.error e, l') ∧
      l'.enqueued.length + l'.submitted.length <
        l.enqueued.length + l.submitted.length + calls.length := by
  induction calls generalizing l with
  | nil => exact absurd trivial h
  | cons call calls ih =>
    by_cases hone : runtime.Takes l.handOvers call
    · obtain ⟨l₁, hrun, hcount, ⟨rows, hrows, hfst, -⟩, hsub⟩ := handOver_takes hone
      have hrest : ¬ runtime.TakesAll l₁.handOvers calls := by
        rw [hcount]
        exact fun hall => h ⟨hone, hall⟩
      obtain ⟨e, l', hrun', hlt⟩ := ih hrest
      refine ⟨e, l', ?_, ?_⟩
      · rw [List.map_cons, handOverAll, Act.bind_ok _ hrun, hrun']
      · have hlen := congrArg List.length hfst
        rw [hrows, hsub] at hlt
        simp only [List.length_map, List.length_append] at hlen hlt
        have hpart := List.length_eq_length_filter_add (l := [call]) TaskCall.persistent
        simp only [List.length_cons, List.length_nil] at hpart ⊢
        omega
    · obtain ⟨e, l', hrun, henq, hsub⟩ := handOver_fails hone
      refine ⟨e, l', ?_, ?_⟩
      · rw [List.map_cons, handOverAll, Act.bind_error _ hrun]
      · rw [henq, hsub, List.length_cons]
        omega

/-- Handing over all tasks from the state in which the response was written hands them over as they
were added exactly if they are accepted. -/
theorem handOverAll_iff (runtime : TaskRuntime) {before : Ledger σ} (calls : List TaskCall)
    (henq : l.enqueued = before.enqueued) (hsub : l.submitted = before.submitted) :
    HandedOver runtime before l (runtime.handOverAll (calls.map TaskCall.entry) l).2 calls ↔
      runtime.Accepts l.handOvers calls := by
  rw [accepts_iff]
  by_cases hall : runtime.TakesAll l.handOvers calls
  · obtain ⟨l', hrun, ⟨rows, hrows, hfst, hmade⟩, hsub'⟩ := handOverAll_takes calls hall
    rw [hrun]
    constructor
    · intro h
      refine ⟨hall, fun call hmem => ?_⟩
      obtain ⟨rows', hrows', hfst', -⟩ := h.enqueued
      rw [hrows, henq] at hrows'
      have hjobs := h.submitted
      rw [hsub', hsub] at hjobs
      rw [← List.append_cancel_left hrows', hfst] at hfst'
      cases hp : call.persistent with
      | true => exact List.map_inj_left.1 hfst' call (List.mem_filter.2 ⟨hmem, hp⟩)
      | false =>
        apply List.map_inj_left.1 (List.append_cancel_left hjobs) call
        exact List.mem_filter.2 ⟨hmem, by rw [hp]; rfl⟩
    · rintro ⟨-, hsame⟩
      have hmap : ∀ p : TaskCall → Bool,
          (calls.filter p).map stripped = (calls.filter p).map TaskCall.job := by
        intro p
        apply List.map_inj_left.2
        intro call hmem
        exact hsame call (List.mem_of_mem_filter hmem)
      refine ⟨⟨henq, hsub⟩, ⟨rows, by rw [hrows, henq], by rw [hfst, hmap], hmade⟩, ?_⟩
      rw [hsub', hsub, hmap]
  · obtain ⟨e, l', hrun, hlt⟩ := handOverAll_fails calls hall
    rw [hrun]
    constructor
    · intro h
      have hlen := h.length
      rw [henq, hsub] at hlt
      exact absurd hlen (Nat.ne_of_lt hlt)
    · rintro ⟨hyes, -⟩
      exact absurd hyes hall

end TaskRuntime

namespace Since

variable {l l' w w' : Ledger σ}

theorem ofSame (h : Since n l' w) (hsame : l.SameRecords l') : Since n l w := by
  obtain ⟨s, rfl⟩ := hsame
  exact ⟨h.log, h.enqueued, h.submitted, h.handOvers⟩

theorem toSame (h : Since n l w) (hsame : w.SameRecords w') : Since n l w' := by
  obtain ⟨s, rfl⟩ := hsame
  exact h.write s

end Since

/-- The program when a connection is accepted: there is no request yet. -/
def Ledger.accept (l : Ledger σ) : Ledger σ := { l with backgroundTasks := [] }

/-- The state in which the response of a pass was written, if it was written successfully. -/
def Server.writtenIn (srv : Server σ R) (req : Request) (x : Exchange σ) : Option σ :=
  srv.written (srv.identify req x.state).1 x.keepAlive (srv.identify req x.state).2

theorem Server.writtenIn_serve (srv : Server σ R) (req : Request) (reader : R) (remaining : Nat)
    (s : σ) :
    srv.writtenIn req (srv.serve req reader remaining s).1 =
      srv.written (srv.identify req s).1 (keepsAlive (srv.identify req s).1 remaining)
        (srv.identify req s).2 := rfl

theorem Server.serve_written {srv : Server (Ledger σ) R} (hq : srv.Quiet) {reader : R}
    (hu : srv.upgrade (srv.identify req l).1 = none)
    (hw : srv.writtenIn req (srv.serve req reader remaining l).1 = some m) :
    (srv.produce (srv.identify req l).1 (srv.identify req l).2).2.SameRecords m ∧
      (srv.background (srv.identify req l).1 m).2.SameRecords
        (srv.serve req reader remaining l).2 :=
  Server.answer_written hq hu hw

namespace Application

variable (app : Application σ)

/-- The tasks that the code of a request has added are handed over as they were added exactly if the
runtime accepts them. -/
theorem threaded_handedOver_routed [Urllib] {l m : Ledger σ} (hl : l.backgroundTasks = [])
    (hup : isWebsocketUpgrade req = false) (remoteAddr : Str) (reader : SocketReader)
    (remaining : Nat)
    (hw : app.threaded.server.writtenIn req (app.threaded.server.serve req reader remaining l).1 =
      some m) :
    HandedOver app.runtime l m (app.threaded.server.serve req reader remaining l).2
        (callsOf (app.threaded.server.entries remoteAddr
          (app.threaded.server.serve req reader remaining l).1)) ↔
      app.runtime.Accepts l.handOvers (callsOf (app.threaded.server.entries remoteAddr
        (app.threaded.server.serve req reader remaining l).1)) := by
  have hid := Server.identify_sameRecords app.threaded_quiet req l
  have hu : app.threaded.server.upgrade (app.threaded.server.identify req l).1 = none := by
    obtain ⟨requestId, hreq⟩ := Server.identify_request app.threaded.server req l
    apply threaded_upgrade_none
    rw [hreq]
    exact hup
  obtain ⟨hsend, hrest⟩ := Server.serve_written app.threaded_quiet hu hw
  have hm : Since app.globals.length l m :=
    ((threaded_produce_since app (app.threaded.server.identify req l).1 _).toSame hsend).ofSame hid
  obtain ⟨es, hlog, -, htasks⟩ := hm.log
  rw [hl, List.nil_append] at htasks
  have hes : app.threaded.server.entries remoteAddr
      (app.threaded.server.serve req reader remaining l).1 = es := by
    apply Server.entries_eq
    exact (hrest.log.trans (app.runtime.runBackgroundTasks_log
      (app.threaded.server.identify req l).1 m)).trans hlog
  have hiff := app.runtime.handOverAll_iff (callsOf es) hm.enqueued hm.submitted
  rw [← htasks, hm.handOvers] at hiff
  obtain ⟨henq, hsub⟩ := app.runtime.runBackgroundTasks_kept
    (app.threaded.server.identify req l).1 m
  rw [hes, ← hiff]
  exact HandedOver.congr (hrest.enqueued.trans henq) (hrest.submitted.trans hsub)

/-- No task that the websocket handler has added is handed over. -/
theorem threaded_handedOver_session [Urllib] {l m : Ledger σ}
    (hup : isWebsocketUpgrade req = true) (reader : SocketReader) (remaining : Nat)
    (calls : List TaskCall)
    (hw : app.threaded.server.writtenIn req (app.threaded.server.serve req reader remaining l).1 =
      some m) :
    HandedOver app.runtime l m (app.threaded.server.serve req reader remaining l).2 calls ↔
      calls = [] := by
  have hid := Server.identify_sameRecords app.threaded_quiet req l
  have hu : app.threaded.server.upgrade (app.threaded.server.identify req l).1 =
      some (app.upgrade (app.threaded.server.identify req l).1) := by
    obtain ⟨requestId, hreq⟩ := Server.identify_request app.threaded.server req l
    apply threaded_upgrade_some
    rw [hreq]
    exact hup
  rw [Server.writtenIn_serve, Server.written, hu] at hw
  cases hh : (app.upgrade (app.threaded.server.identify req l).1).handshake with
  | error e =>
    simp only [hh] at hw
    cases hw
  | ok block =>
    simp only [hh] at hw
    cases hw
    have hsame := Server.answer_session (l := (app.threaded.server.identify req l).2)
      app.threaded_quiet hu hh (keepsAlive (app.threaded.server.identify req l).1 remaining)
    obtain ⟨henq, hsub⟩ := app.upgrade_kept (app.threaded.server.identify req l).1
      (app.threaded.server.identify req l).2
    apply HandedOver.iff_nil
    · exact ⟨hid.enqueued, hid.submitted⟩
    · exact (hsame.enqueued.trans henq).trans hid.enqueued
    · exact (hsame.submitted.trans hsub).trans hid.submitted

/-- On the asynchronous server nothing is handed over. -/
theorem async_handedOver [Urllib] {l m : Ledger σ} (reader : StreamReader cap)
    (remaining : Nat) (calls : List TaskCall)
    (hw : (AsyncSovereignServer.server app.program : Server _ (StreamReader cap)).writtenIn req
      ((AsyncSovereignServer.server app.program).serve req reader remaining l).1 = some m) :
    HandedOver app.runtime l m
        ((AsyncSovereignServer.server app.program).serve req reader remaining l).2 calls ↔
      calls = [] := by
  have hquiet := @async_quiet _ app cap _
  have hid := Server.identify_sameRecords hquiet req l
  obtain ⟨hsend, hrest⟩ := Server.serve_written app.async_quiet rfl hw
  have hm : Since app.globals.length l m :=
    ((async_produce_since app _ _).toSame hsend).ofSame hid
  apply HandedOver.iff_nil
  · exact ⟨hm.enqueued, hm.submitted⟩
  · exact hrest.enqueued.trans hm.enqueued
  · exact hrest.submitted.trans hm.submitted

/-- A request begins with no background tasks. -/
theorem threaded_fresh [Urllib] (remoteAddr : Str) (client : SocketReader) (l : Ledger σ) :
    ∀ x ∈ handleConnection app.threaded remoteAddr client l.accept,
      x.state.backgroundTasks = [] := by
  unfold handleConnection
  apply Server.connection_invariant (I := fun s : Ledger σ => s.backgroundTasks = [])
  · intro req keepAlive s hagain
    obtain ⟨m, -, -, hok, hafter⟩ := Server.answer_goesOn hagain
    rw [hafter]
    exact app.runtime.runBackgroundTasks_clears req m hok
  · rfl

end Application

/-- On the threaded server the tasks of a request whose response was written are handed over as they
were added exactly if the runtime accepts all of them and no session was opened; the asynchronous
server hands none over. -/
theorem handedOver_iff [Urllib] (app : Application σ) (remoteAddr : Str) :
    (∀ (client : SocketReader) (l : Ledger σ),
      ∀ x ∈ handleConnection app.threaded remoteAddr client l.accept, ∀ req m,
        x.parsed = .ok req → app.threaded.server.writtenIn req x = some m →
        let calls := callsOf (app.threaded.server.entries remoteAddr x)
        (HandedOver app.runtime x.state m (app.threaded.server.after remoteAddr x) calls ↔
          if isWebsocketUpgrade req = true then calls = []
          else app.runtime.Accepts x.state.handOvers calls)) ∧
    ∀ (cap : Nat) (reader : StreamReader cap) (l : Ledger σ),
      let srv : Server (Ledger σ) (StreamReader cap) := AsyncSovereignServer.server app.program
      ∀ x ∈ handleClient app.program remoteAddr reader l.accept, ∀ req m,
        x.parsed = .ok req → srv.writtenIn req x = some m →
        let calls := callsOf (srv.entries remoteAddr x)
        (HandedOver app.runtime x.state m (srv.after remoteAddr x) calls ↔ calls = []) := by
  constructor
  · intro client l x hx req m hp hw
    have hfresh := app.threaded_fresh remoteAddr client l x hx
    rcases Server.mem_connection hx with ⟨e, s, rfl⟩ | ⟨req', reader', remaining, s, rfl⟩
    · cases hp
    · cases hp
      cases hup : isWebsocketUpgrade req with
      | true => exact app.threaded_handedOver_session hup reader' remaining _ hw
      | false => exact app.threaded_handedOver_routed hfresh hup remoteAddr reader' remaining hw
  · intro cap reader l srv x hx req m hp hw
    rcases Server.mem_connection hx with ⟨e, s, rfl⟩ | ⟨req', reader', remaining, s, rfl⟩
    · cases hp
    · cases hp
      exact app.async_handedOver reader' remaining _ hw

section Dropped

/-- An application that answers `GET /` and adds one task. -/
def tasked : Application Unit where
  globals := []
  routes := [⟨"GET".toList, fun _ => some ∅, false, fun _ _ =>
    .addTask ⟨⟨0, [], ∅⟩, false, by decide⟩ (.result (.response { body := [] })), []⟩]
  openapi _ := throw (.httpError 404 "Not Found")
  staticResponse _ := throw (.httpError 404 "Not Found")
  config := {}
  nowHttpDate := (oneRoute (.response { body := [] })).nowHttpDate
  newRequestId := (oneRoute (.response { body := [] })).newRequestId
  stopEvent _ := false
  webSocketAccept _ := none
  websocketHandler := none
  runtime := ⟨fun _ => .ok [], fun _ => .ok [], fun _ => .ok [], fun _ => .ok (), fun _ => .ok (),
    fun _ => 0, fun _ => .ok ()⟩

theorem parse_getStream {reader : StreamReader cap} (hu : reader.unread = plainGet.encode ++ []) :
    ∃ r', @parseAsyncRequest _ ⟨fun _ => true⟩ {} [] reader =
      .ok (@Message.request ⟨fun _ => true⟩ plainGet [] (.bytes []), r') := by
  obtain ⟨r', hr, -⟩ := @Message.parse_message _ _ _ _ _ _ _ ⟨fun _ => true⟩ _ _
    (StreamReader.reads plainGet_fitsStream) plainGet_fitsStream.toWithinLimits
    trivial hu []
  exact ⟨r', hr⟩

/-- The ledger before the request, and after its handler. -/
def blankLedger : Ledger Unit := ⟨(), [], [], [], [], 0⟩

def taskedLedger : Ledger Unit :=
  ⟨(), [.application, .task ⟨⟨0, [], ∅⟩, false, by decide⟩],
    [⟨0, [], (∅ : Dict Str PyObject).set persistentKey (.bool false)⟩], [], [], 0⟩

abbrev taskedServer : Server (Ledger Unit) (StreamReader 4096) :=
  @AsyncSovereignServer.server _ 4096 ⟨fun _ => true⟩ tasked.program

theorem tasked_produce : taskedServer.produce getRequest blankLedger =
    (.ok (.result (.response { body := [] })), taskedLedger) := rfl

theorem tasked_written : taskedServer.written getRequest true blankLedger = some taskedLedger := by
  have hs : taskedServer.Sendable getRequest (.response { body := [] }) true taskedLedger := by
    unfold Server.Sendable CleanHeaders Clean
    decide +kernel
  obtain ⟨sent, -, hsend⟩ := Server.send_started
    (@AsyncSovereignServer.writes _ 4096 ⟨fun _ => true⟩ tasked.program)
    (w := ⟨taskedLedger, []⟩) hs
  have hu : taskedServer.upgrade getRequest = none := rfl
  simp only [Server.written, hu, tasked_produce]
  rw [hsend]
  rfl

/-- The asynchronous server drops the task of a request that it has answered. -/
theorem not_handedOver_async :
    ¬ ∀ (app : Application Unit) (reader : StreamReader 4096) (l : Ledger Unit),
      let srv : Server (Ledger Unit) (StreamReader 4096) :=
        @AsyncSovereignServer.server _ _ ⟨fun _ => true⟩ app.program
      ∀ x ∈ @handleClient _ _ ⟨fun _ => true⟩ app.program [] reader l.accept, ∀ req m,
        x.parsed = .ok req → srv.writtenIn req x = some m →
        HandedOver app.runtime x.state m (srv.after [] x) (callsOf (srv.entries [] x)) := by
  intro h
  let req := @Message.request ⟨fun _ => true⟩ plainGet [] (.bytes [])
  let getStream : StreamReader 4096 := .ofSegments [⟨plainGet.encode, by decide, by decide⟩]
  have hu : getStream.unread = plainGet.encode ++ [] := rfl
  obtain ⟨r', hr⟩ := parse_getStream hu
  have hc := Server.connection_parsed (s := blankLedger) taskedServer getStream rfl hr 49
  have hm := hc ▸ List.mem_cons_self
  have hmem : (taskedServer.serve req r' 49 blankLedger).1 ∈
      @handleClient _ _ ⟨fun _ => true⟩ tasked.program [] getStream blankLedger.accept := hm
  have hk : keepsAlive getRequest 49 = true := by decide
  have hw : taskedServer.writtenIn req (taskedServer.serve req r' 49 blankLedger).1 =
      some taskedLedger := by
    rw [Server.writtenIn_serve]
    change taskedServer.written getRequest (keepsAlive getRequest 49) blankLedger = _
    rw [hk, tasked_written]
  have hquiet := @Application.async_quiet _ tasked 4096 ⟨fun _ => true⟩
  have hall := h tasked getStream blankLedger _ hmem req taskedLedger rfl hw
  rw [Server.after_serve] at hall
  have hnil := (@Application.async_handedOver _ tasked _ req ⟨fun _ => true⟩ blankLedger
    taskedLedger r' 49 _ hw).1 hall
  obtain ⟨-, hrest⟩ := Server.serve_written hquiet rfl hw
  have hafter := hrest.log
  have hlog : (taskedServer.background (taskedServer.identify req blankLedger).1 taskedLedger).2.log
      = taskedLedger.log := rfl
  rw [hlog] at hafter
  have hes : taskedServer.entries [] (taskedServer.serve req r' 49 blankLedger).1 =
      taskedLedger.log := by
    apply Server.entries_eq
    rw [Server.after_serve, hafter]
    rfl
  rw [hes] at hnil
  cases hnil

end Dropped

end Sovereign
