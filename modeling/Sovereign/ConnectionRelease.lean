import Sovereign.Server

namespace Sovereign
open Buffered
set_option autoImplicit true

/-- What ends a coroutine early: an exception that `except Exception` catches, or one that it does
not, such as a `CancelledError`. -/
inductive Fault where
  | exception (e : Exc)
  | baseException (tag : Nat)
deriving DecidableEq

def Fault.IsBase : Fault → Prop
  | exception _ => False
  | baseException _ => True

/-- A call that a coroutine awaits. -/
abbrev Coroutine (σ α : Type) := σ → Except Fault α × σ

/-- The calls that `handle_client` awaits. -/
inductive Await where
  /-- entering `async with self._connections` -/
  | permit
  /-- `parse_async_request` -/
  | request
  /-- `static_response`, or `resolve_async` and `execute_async` -/
  | dispatch
  /-- `write_response_async` inside the `try` -/
  | response
  /-- `write_response_async` in one of the `except` branches -/
  | errorResponse
  /-- `wait_closed` -/
  | closing
deriving DecidableEq

/-- An awaited call that has ended, and the fault it has ended with. -/
structure AwaitedCall where
  call : Await
  fault : Option Fault

/-- Nothing in `handle_client` catches what the call has raised. -/
def AwaitedCall.Escapes (event : AwaitedCall) : Prop :=
  match event.fault, event.call with
  | none, _ => False
  | some _, .permit => True
  | some _, .errorResponse => True
  | some _, .closing => False
  | some fault, _ => fault.IsBase

/-- A connection: the world around it, whether it holds a permit of `_connections`, whether
`writer.close()` has been called, and the calls that have been awaited for it. -/
structure ClientConn (σ : Type) where
  world : σ
  held : Bool := false
  closed : Bool := false
  events : List AwaitedCall := []

def faultOf : Except Fault α → Option Fault
  | .ok _ => none
  | .error fault => some fault

def ClientConn.await (call : Await) (coroutine : Coroutine σ α) (c : ClientConn σ) :
    Except Fault α × ClientConn σ :=
  let ended := coroutine c.world
  (ended.1, { c with world := ended.2, events := c.events ++ [⟨call, faultOf ended.1⟩] })

/-- What `handle_client` is made of. -/
structure ClientTask (σ : Type) where
  maxKeepaliveRequests : Nat
  acquire : Coroutine σ Unit
  parse : Coroutine σ Request
  /-- `req.header("x-request-id") or req.header("traceparent") or new_request_id()` -/
  identify : Request → σ → Request × σ
  dispatch : Request → Coroutine σ HandlerResult
  write : Request → HandlerResult → Bool → Coroutine σ Unit
  /-- the request that stands in for one that could not be parsed -/
  dummyRequest : σ → Request × σ
  waitClosed : Coroutine σ Unit

namespace ClientTask

variable (task : ClientTask σ)

/-- `req or Request(...)` -/
def standIn (req : Option Request) (world : σ) : Request × σ :=
  match req with
  | some req => (req, world)
  | none => task.dummyRequest world

/-- The `except` branches: whether the loop goes on. -/
def recover (req : Option Request) (fault : Fault) (c : ClientConn σ) :
    Except Fault Bool × ClientConn σ :=
  match fault with
  | .baseException tag => (.error (.baseException tag), c)
  | .exception e =>
    match errorResult e with
    | none => (.ok false, c)
    | some result =>
      let standIn := task.standIn req c.world
      match { c with world := standIn.2 }.await .errorResponse
          (task.write standIn.1 result false) with
      | (.ok (), c) => (.ok false, c)
      | (.error fault, c) => (.error fault, c)

/-- The rest of the `try` after parsing: whether the loop goes on. -/
def respond (req : Request) (keepAlive : Bool) (c : ClientConn σ) :
    Except Fault Bool × ClientConn σ :=
  match c.await .dispatch (task.dispatch req) with
  | (.error fault, c) => (.error fault, c)
  | (.ok result, c) =>
    match c.await .response (task.write req result keepAlive) with
    | (.error fault, c) => (.error fault, c)
    | (.ok (), c) => (.ok keepAlive, c)

/-- A turn of the loop once its request has been parsed. -/
def answer (req : Request) (keepAlive : Bool) (c : ClientConn σ) :
    Except Fault Bool × ClientConn σ :=
  match task.respond req keepAlive c with
  | (.error fault, c) => task.recover (some req) fault c
  | (.ok again, c) => (.ok again, c)

/-- One turn of the loop. -/
def turn (remaining : Nat) (c : ClientConn σ) : Except Fault Bool × ClientConn σ :=
  match c.await .request task.parse with
  | (.error fault, c) => task.recover none fault c
  | (.ok req, c) =>
    let identified := task.identify req c.world
    task.answer identified.1 (keepsAlive identified.1 remaining) { c with world := identified.2 }

def loop : (remaining : Nat) → ClientConn σ → Except Fault Unit × ClientConn σ
  | 0, c => (.ok (), c)
  | remaining + 1, c =>
    match task.turn remaining c with
    | (.error fault, c) => (.error fault, c)
    | (.ok true, c) => loop remaining c
    | (.ok false, c) => (.ok (), c)

/-- `async with self._connections`: the permit is given back however the block ends. -/
def withPermit (c : ClientConn σ) : Except Fault Unit × ClientConn σ :=
  match c.await .permit task.acquire with
  | (.error fault, c) => (.error fault, c)
  | (.ok (), c) =>
    let ended := task.loop task.maxKeepaliveRequests { c with held := true }
    (ended.1, { ended.2 with held := false })

/-- `handle_client` -/
def handleClient (world : σ) : Except Fault Unit × ClientConn σ :=
  match task.withPermit { world } with
  | (.error fault, c) => (.error fault, c)
  | (.ok (), c) =>
    match { c with closed := true }.await .closing task.waitClosed with
    | (.error (.baseException tag), c) => (.error (.baseException tag), c)
    | (.error (.exception _), c) => (.ok (), c)
    | (.ok (), c) => (.ok (), c)

/-- When `handle_client` has ended, the connection is closed and its permit is free. -/
def Releases (world : σ) : Prop :=
  (task.handleClient world).2.closed = true ∧ (task.handleClient world).2.held = false

/-! What the calls that have been awaited say about the end of each part. -/

/-- From one state to another calls have been awaited, and a fault among them escapes just if
`escaped` holds. -/
structure Leads (c c' : ClientConn σ) (escaped : Prop) : Prop where
  closed : c'.closed = c.closed
  events : ∃ more, c'.events = c.events ++ more ∧ ((∃ event ∈ more, event.Escapes) ↔ escaped)

theorem Leads.congr (h : Leads c c' escaped) (heq : escaped ↔ escaped') : Leads c c' escaped' := by
  obtain ⟨more, hmore, hescaped⟩ := h.events
  exact ⟨h.closed, more, hmore, hescaped.trans heq⟩

theorem Leads.trans (h : Leads c c₁ escaped) (h' : Leads c₁ c₂ escaped') :
    Leads c c₂ (escaped ∨ escaped') := by
  obtain ⟨more, hmore, hescaped⟩ := h.events
  obtain ⟨more', hmore', hescaped'⟩ := h'.events
  refine ⟨h'.closed.trans h.closed, more ++ more', ?_, ?_⟩
  · rw [hmore', hmore, List.append_assoc]
  · rw [← hescaped, ← hescaped']
    constructor
    · rintro ⟨event, hmem, hesc⟩
      rcases List.mem_append.1 hmem with hmem | hmem
      · exact .inl ⟨event, hmem, hesc⟩
      · exact .inr ⟨event, hmem, hesc⟩
    · rintro (⟨event, hmem, hesc⟩ | ⟨event, hmem, hesc⟩)
      · exact ⟨event, List.mem_append_left more' hmem, hesc⟩
      · exact ⟨event, List.mem_append_right more hmem, hesc⟩

/-- Where no call has been awaited, none has raised. -/
theorem leads_of_events (c c' : ClientConn σ) (hclosed : c'.closed = c.closed)
    (hevents : c'.events = c.events) : Leads c c' False := by
  refine ⟨hclosed, [], hevents.trans (List.append_nil _).symm, ?_⟩
  constructor
  · rintro ⟨event, hmem, -⟩
    cases hmem
  · exact False.elim

theorem await_state {call : Await} {coroutine : Coroutine σ α} {c c' : ClientConn σ}
    (h : c.await call coroutine = (ended, c')) :
    c'.closed = c.closed ∧ c'.held = c.held ∧ c'.events = c.events ++ [⟨call, faultOf ended⟩] := by
  cases h
  exact ⟨rfl, rfl, rfl⟩

theorem await_leads {call : Await} {coroutine : Coroutine σ α} {c c' : ClientConn σ}
    (h : c.await call coroutine = (ended, c')) :
    Leads c c' (AwaitedCall.Escapes ⟨call, faultOf ended⟩) := by
  obtain ⟨hclosed, -, hevents⟩ := await_state h
  refine ⟨hclosed, _, hevents, ?_⟩
  constructor
  · rintro ⟨event, hmem, hesc⟩
    cases List.mem_singleton.1 hmem
    exact hesc
  · exact fun hesc => ⟨_, List.mem_singleton_self _, hesc⟩

/-- A part of `handle_client` has ended in a fault that nothing around it catches. -/
def Raised (ended : Except Fault α) : Prop := ∃ fault, ended = .error fault

theorem raised_error (fault : Fault) : Raised (.error fault : Except Fault α) := ⟨fault, rfl⟩

theorem not_raised_ok (a : α) : ¬ Raised (.ok a) := fun ⟨_, h⟩ => (by cases h)


/-- What the `except` branches let through is what they do not catch and what they raise. -/
theorem recover_leads {req : Option Request} {fault : Fault} {c₀ c : ClientConn σ}
    (h : Leads c₀ c fault.IsBase) :
    Leads c₀ (task.recover req fault c).2 (Raised (task.recover req fault c).1) := by
  cases fault with
  | baseException tag => exact h.congr (iff_of_true trivial (raised_error _))
  | exception e =>
    rw [recover.eq_def]
    dsimp only
    split
    · exact h.congr (iff_of_false id (not_raised_ok false))
    · next result hresult =>
      have hstand : Leads c { c with world := (task.standIn req c.world).2 } False :=
        leads_of_events _ _ rfl rfl
      split
      · next c' hwrite =>
        have hleads := (h.trans hstand).trans (await_leads hwrite)
        refine hleads.congr (iff_of_false ?_ (not_raised_ok false))
        rintro ((hfalse | hfalse) | hfalse)
        · exact hfalse
        · exact hfalse
        · exact hfalse
      · next fault c' hwrite =>
        have hleads := (h.trans hstand).trans (await_leads hwrite)
        exact hleads.congr (iff_of_true (.inr trivial) (raised_error fault))

/-- A fault that the rest of the `try` ends in. -/
theorem respond_leads (req : Request) (keepAlive : Bool) (c : ClientConn σ) :
    Leads c (task.respond req keepAlive c).2
      (∃ fault, (task.respond req keepAlive c).1 = .error fault ∧ fault.IsBase) := by
  rw [respond]
  split
  · next fault c₁ hdispatch =>
    refine (await_leads hdispatch).congr ⟨fun h => ⟨fault, rfl, h⟩, ?_⟩
    rintro ⟨_, heq, h⟩
    cases heq
    exact h
  · next result c₁ hdispatch =>
    split
    · next fault c₂ hwrite =>
      refine ((await_leads hdispatch).trans (await_leads hwrite)).congr ⟨?_, ?_⟩
      · rintro (hfalse | h)
        · exact False.elim hfalse
        · exact ⟨fault, rfl, h⟩
      · rintro ⟨_, heq, h⟩
        cases heq
        exact .inr h
    · next c₂ hwrite =>
      refine ((await_leads hdispatch).trans (await_leads hwrite)).congr (iff_of_false ?_ ?_)
      · rintro (hfalse | hfalse)
        · exact hfalse
        · exact hfalse
      · rintro ⟨_, heq, -⟩
        cases heq

theorem answer_leads (req : Request) (keepAlive : Bool) (c : ClientConn σ) :
    Leads c (task.answer req keepAlive c).2 (Raised (task.answer req keepAlive c).1) := by
  have hrespond := respond_leads task req keepAlive c
  rw [answer]
  split
  · next fault c₁ hresult =>
    rw [hresult] at hrespond
    apply recover_leads task
    refine hrespond.congr ⟨?_, fun h => ⟨fault, rfl, h⟩⟩
    rintro ⟨_, heq, h⟩
    cases heq
    exact h
  · next again c₁ hresult =>
    rw [hresult] at hrespond
    refine hrespond.congr (iff_of_false ?_ (not_raised_ok again))
    rintro ⟨_, heq, -⟩
    cases heq

theorem turn_leads (remaining : Nat) (c : ClientConn σ) :
    Leads c (task.turn remaining c).2 (Raised (task.turn remaining c).1) := by
  rw [turn]
  split
  · next fault c₁ hparse => exact recover_leads task (await_leads hparse)
  · next req c₁ hparse =>
    have hstart := (await_leads hparse).trans
      (leads_of_events _ ({ c₁ with world := (task.identify req c₁.world).2 }) rfl rfl)
    refine (hstart.trans (answer_leads task _ _ _)).congr ⟨?_, .inr⟩
    rintro ((hfalse | hfalse) | h)
    · exact False.elim hfalse
    · exact False.elim hfalse
    · exact h

/-- The loop ends in a fault just if one has escaped from a turn. -/
theorem loop_leads (remaining : Nat) (c : ClientConn σ) :
    Leads c (task.loop remaining c).2 (Raised (task.loop remaining c).1) := by
  induction remaining generalizing c with
  | zero => exact (leads_of_events _ _ rfl rfl).congr (iff_of_false id (not_raised_ok ()))
  | succ remaining ih =>
    have hturn := turn_leads task remaining c
    rw [loop]
    split
    · next fault c₁ hresult =>
      rw [hresult] at hturn
      exact hturn.congr (iff_of_true (raised_error fault) (raised_error fault))
    · next c₁ hresult =>
      rw [hresult] at hturn
      refine (hturn.trans (ih c₁)).congr ⟨?_, .inr⟩
      exact fun h => h.resolve_left (not_raised_ok true)
    · next c₁ hresult =>
      rw [hresult] at hturn
      exact hturn.congr (iff_of_false (not_raised_ok false) (not_raised_ok ()))

theorem withPermit_leads (world : σ) :
    Leads { world } (task.withPermit { world }).2 (Raised (task.withPermit { world }).1) := by
  rw [withPermit]
  split
  · next fault c₁ hacquire =>
    exact (await_leads hacquire).congr (iff_of_true trivial (raised_error fault))
  · next c₁ hacquire =>
    have hstart := (await_leads hacquire).trans
      (leads_of_events _ ({ c₁ with held := true }) rfl rfl)
    obtain ⟨hclosed, more, hmore, hescaped⟩ :=
      hstart.trans (loop_leads task task.maxKeepaliveRequests _)
    refine Leads.congr ⟨hclosed, more, hmore, hescaped⟩ ⟨?_, .inr⟩
    rintro ((hfalse | hfalse) | h)
    · exact False.elim hfalse
    · exact False.elim hfalse
    · exact h

theorem withPermit_held (world : σ) : (task.withPermit { world }).2.held = false := by
  rw [withPermit]
  split
  · next fault c₁ hacquire => exact (await_state hacquire).2.1
  · rfl

end ClientTask

/-- A connection is closed and its permit released just if no call raises something that nothing in
`handle_client` catches. -/
theorem releases_iff (task : ClientTask σ) (world : σ) :
    task.Releases world ↔ ∀ event ∈ (task.handleClient world).2.events, ¬ event.Escapes := by
  obtain ⟨hclosed, more, hmore, hescaped⟩ := ClientTask.withPermit_leads task world
  have hheld := ClientTask.withPermit_held task world
  rw [List.nil_append] at hmore
  rw [ClientTask.Releases, ClientTask.handleClient]
  split
  · next fault c hresult =>
    rw [hresult] at hclosed hmore hescaped
    refine iff_of_false ?_ ?_
    · rintro ⟨hopen, -⟩
      rw [hclosed] at hopen
      cases hopen
    · intro hnone
      obtain ⟨event, hmem, hesc⟩ := hescaped.2 (ClientTask.raised_error fault)
      exact hnone event (hmore ▸ hmem) hesc
  · next c hresult =>
    rw [hresult] at hclosed hmore hescaped hheld
    have hwait : ∀ {ended c'}, { c with closed := true }.await .closing task.waitClosed =
        (ended, c') → (c'.closed = true ∧ c'.held = false) ∧
          ∀ event ∈ c'.events, ¬ event.Escapes := by
      intro ended c' hended
      obtain ⟨hclosed', hheld', hevents⟩ := ClientTask.await_state hended
      refine ⟨⟨hclosed', hheld'.trans hheld⟩, fun event hmem hesc => ?_⟩
      rw [hevents] at hmem
      rcases List.mem_append.1 hmem with hmem | hmem
      · exact ClientTask.not_raised_ok () (hescaped.1 ⟨event, hmore ▸ hmem, hesc⟩)
      · rw [List.mem_singleton.1 hmem] at hesc
        cases ended with
        | error fault => exact hesc
        | ok _ => exact hesc
    split
    · next tag c' hclosing => exact iff_of_true (hwait hclosing).1 (hwait hclosing).2
    · next e c' hclosing => exact iff_of_true (hwait hclosing).1 (hwait hclosing).2
    · next c' hclosing => exact iff_of_true (hwait hclosing).1 (hwait hclosing).2

/-! The calls of the server itself. -/

/-- How the calls end that wait for the event loop. -/
structure EventLoop (σ : Type) where
  acquire : Coroutine σ Unit
  drain : Coroutine σ Unit
  waitClosed : Coroutine σ Unit

/-- Nothing is in the way. -/
def EventLoop.calm : EventLoop σ where
  acquire s := (.ok (), s)
  drain s := (.ok (), s)
  waitClosed s := (.ok (), s)

structure AsyncWorld (σ : Type) (cap : Nat) where
  state : σ
  reader : StreamReader cap
  sent : List Sent := []

/-- A call that concerns the state of the program only. -/
def AsyncWorld.onState (x : Coroutine σ α) : Coroutine (AsyncWorld σ cap) α := fun w =>
  ((x w.state).1, { w with state := (x w.state).2 })

/-- Each write is followed by a `drain`. -/
def AsyncWorld.transmit (drain : Coroutine σ Unit) : List Sent → Coroutine (AsyncWorld σ cap) Unit
  | [] => fun w => (.ok (), w)
  | data :: rest => fun w =>
    match AsyncWorld.onState drain { w with sent := w.sent ++ [data] } with
    | (.error fault, w) => (.error fault, w)
    | (.ok (), w) => transmit drain rest w

/-- What is written is sent, and then the writing ends as it does. -/
def AsyncWorld.writeOut (drain : Coroutine σ Unit) (out : List Sent × Except Exc Unit) :
    Coroutine (AsyncWorld σ cap) Unit := fun w =>
  match transmit drain out.1 w with
  | (.error fault, w) => (.error fault, w)
  | (.ok (), w) => (out.2.mapError .exception, w)

/-- The parts of `handle_client` with a stream of this capacity. -/
abbrev asyncServer [Urllib] (cap : Nat) (srv : Program σ) : Server σ (StreamReader cap) :=
  AsyncSovereignServer.server srv

/-- The calls that `handle_client` makes. An awaitable in place of a response has no attributes. -/
def AsyncSovereignServer.task [Urllib] (srv : Program σ) (eventLoop : EventLoop σ)
    (remoteAddr : Str) : ClientTask (AsyncWorld σ cap) where
  maxKeepaliveRequests := srv.config.maxKeepaliveRequests
  acquire := AsyncWorld.onState eventLoop.acquire
  parse w :=
    match parseAsyncRequest srv.config remoteAddr w.reader with
    | .error e => (.error (.exception e), w)
    | .ok (req, reader) => (.ok req, { w with reader })
  identify req w := ((srv.identify req w.state).1, { w with state := (srv.identify req w.state).2 })
  dispatch req w :=
    match (asyncServer cap srv).produce req w.state with
    | (.error e, state) => (.error (.exception e), { w with state })
    | (.ok (.awaitable _), state) =>
      (.error (.exception (.builtin .attributeError)), { w with state })
    | (.ok (.result result), state) => (.ok result, { w with state })
  write req result keepAlive w :=
    AsyncWorld.writeOut eventLoop.drain
      (writeResponseAsync req srv.config (srv.nowHttpDate w.state).1.val result keepAlive)
      { w with state := (srv.nowHttpDate w.state).2 }
  dummyRequest w :=
    ((srv.dummyRequest remoteAddr w.state).1,
      { w with state := (srv.dummyRequest remoteAddr w.state).2 })
  waitClosed := AsyncWorld.onState eventLoop.waitClosed

section Calm

theorem AsyncWorld.transmit_calm (sent : List Sent) (w : AsyncWorld σ cap) :
    transmit EventLoop.calm.drain sent w = (.ok (), { w with sent := w.sent ++ sent }) := by
  induction sent generalizing w with
  | nil => rw [List.append_nil]; rfl
  | cons data rest ih =>
    rw [transmit]
    exact (ih _).trans (by rw [List.append_assoc]; rfl)

theorem AsyncWorld.writeOut_calm (out : List Sent × Except Exc Unit) (w : AsyncWorld σ cap) :
    writeOut EventLoop.calm.drain out w =
      (out.2.mapError .exception, { w with sent := w.sent ++ out.1 }) := by
  rw [writeOut, transmit_calm]

variable [Urllib] (srv : Program σ) (remoteAddr : Str)

/-- The world after what was done on a wire. -/
def AsyncWorld.after (w : AsyncWorld σ cap) (wire : Wire σ) : AsyncWorld σ cap :=
  { w with state := wire.state, sent := w.sent ++ wire.sent }

theorem write_calm (req : Request) (result : HandlerResult) (keepAlive : Bool)
    (w : AsyncWorld σ cap) :
    (AsyncSovereignServer.task srv .calm remoteAddr).write req result keepAlive w =
      (((asyncServer cap srv).send req result keepAlive
          ⟨w.state, []⟩).1.mapError .exception,
        w.after ((asyncServer cap srv).send req result keepAlive
          ⟨w.state, []⟩).2) := by
  rw [Server.send_run, emit_run, List.nil_append]
  exact AsyncWorld.writeOut_calm _ _

/-- The calls of a turn between parsing and the next turn do what is done on a wire. -/
theorem respond_calm (req : Request) (keepAlive : Bool) (c : ClientConn (AsyncWorld σ cap)) :
    ((AsyncSovereignServer.task srv .calm remoteAddr).respond req keepAlive c).1 =
        ((asyncServer cap srv).respond req keepAlive
          ⟨c.world.state, []⟩).1.mapError .exception ∧
      ((AsyncSovereignServer.task srv .calm remoteAddr).respond req keepAlive c).2.world =
        c.world.after ((asyncServer cap srv).respond req keepAlive
          ⟨c.world.state, []⟩).2 := by
  rcases hproduce : (asyncServer cap srv).produce req c.world.state with
    ⟨e | value, state⟩
  · have hdispatch : (AsyncSovereignServer.task srv .calm remoteAddr).dispatch req c.world =
        (.error (.exception e), { c.world with state }) := by
      rw [AsyncSovereignServer.task]
      dsimp only
      rw [hproduce]
    have hrespond : (asyncServer cap srv).respond req keepAlive
        ⟨c.world.state, []⟩ = (.error e, ⟨state, []⟩) :=
      Act.bind_error _ (by rw [onState_run, hproduce])
    rw [ClientTask.respond, ClientConn.await, hdispatch, hrespond]
    refine ⟨rfl, ?_⟩
    rw [AsyncWorld.after, List.append_nil]
  · have hrespond : (asyncServer cap srv).respond req keepAlive
        ⟨c.world.state, []⟩ =
          (asyncServer cap srv).deliver req keepAlive value ⟨state, []⟩ :=
      Act.bind_ok _ (by rw [onState_run, hproduce])
    cases value with
    | awaitable run =>
      have hdispatch : (AsyncSovereignServer.task srv .calm remoteAddr).dispatch req c.world =
          (.error (.exception (.builtin .attributeError)), { c.world with state }) := by
        rw [AsyncSovereignServer.task]
        dsimp only
        rw [hproduce]
      rw [ClientTask.respond, ClientConn.await, hdispatch, hrespond, Server.deliver, Act.throw_run]
      refine ⟨rfl, ?_⟩
      rw [AsyncWorld.after, List.append_nil]
    | result result =>
      have hdispatch : (AsyncSovereignServer.task srv .calm remoteAddr).dispatch req c.world =
          (.ok result, { c.world with state }) := by
        rw [AsyncSovereignServer.task]
        dsimp only
        rw [hproduce]
      rw [ClientTask.respond, ClientConn.await, hdispatch, hrespond, Server.deliver]
      dsimp only
      rw [ClientConn.await, write_calm, Act.bind_run]
      rcases (asyncServer cap srv).send req result keepAlive
        ⟨state, []⟩ with ⟨e | _, wire⟩
      · exact ⟨rfl, rfl⟩
      · exact ⟨rfl, rfl⟩

/-- What an `except` branch sends comes after what has been sent before. -/
theorem recover_sent (req : Request) (e : Exc) (wire : Wire σ) :
    ((asyncServer cap srv).recover req e wire).2.sent =
      wire.sent ++ ((asyncServer cap srv).recover req e
        ⟨wire.state, []⟩).2.sent := by
  rw [Server.recover]
  cases errorResult e with
  | none => exact (List.append_nil _).symm
  | some result =>
    dsimp only
    rw [Server.send_run, Server.send_run, emit_run, emit_run, List.nil_append]

theorem recover_calm (req : Option Request) (e : Exc) (c : ClientConn (AsyncWorld σ cap)) :
    ((AsyncSovereignServer.task srv .calm remoteAddr).recover req (.exception e) c).1 ≠ .ok true ∧
      ((AsyncSovereignServer.task srv .calm remoteAddr).recover req (.exception e) c).2.world.sent =
        c.world.sent ++ ((asyncServer cap srv).recover
          ((AsyncSovereignServer.task srv .calm remoteAddr).standIn req c.world).1 e
          ⟨((AsyncSovereignServer.task srv .calm remoteAddr).standIn req c.world).2.state,
            []⟩).2.sent := by
  rw [ClientTask.recover.eq_def, Server.recover]
  dsimp only
  cases errorResult e with
  | none => exact ⟨fun h => (by cases h), (List.append_nil _).symm⟩
  | some result =>
    dsimp only
    rw [ClientConn.await, write_calm]
    have hsent : ((AsyncSovereignServer.task srv .calm remoteAddr).standIn req c.world).2.sent =
        c.world.sent := by
      cases req with
      | none => rfl
      | some req => rfl
    rcases (asyncServer cap srv).send _ result false _ with ⟨e | _, wire⟩
    · exact ⟨fun h => (by cases h), congrArg (· ++ wire.sent) hsent⟩
    · exact ⟨fun h => (by cases h), congrArg (· ++ wire.sent) hsent⟩

theorem turn_refused {c : ClientConn (AsyncWorld σ cap)} (remaining : Nat)
    (h : parseAsyncRequest srv.config remoteAddr c.world.reader = .error e) :
    ((AsyncSovereignServer.task srv .calm remoteAddr).turn remaining c).1 ≠ .ok true ∧
      ((AsyncSovereignServer.task srv .calm remoteAddr).turn remaining c).2.world.sent =
        c.world.sent ++
          ((asyncServer cap srv).refuse remoteAddr e
          c.world.state).sent := by
  have hparse : (AsyncSovereignServer.task srv .calm remoteAddr).parse c.world =
      (.error (.exception e), c.world) := by
    rw [AsyncSovereignServer.task]
    dsimp only
    rw [h]
  rw [ClientTask.turn, ClientConn.await, hparse]
  exact recover_calm srv remoteAddr none e _

theorem answer_calm (req : Request) (keepAlive : Bool) (c : ClientConn (AsyncWorld σ cap)) :
    (((AsyncSovereignServer.task srv .calm remoteAddr).answer req keepAlive c).1 = .ok true ↔
        ((asyncServer cap srv).answer req keepAlive
          c.world.state).2.1 = true) ∧
      ((AsyncSovereignServer.task srv .calm remoteAddr).answer req keepAlive c).2.world.sent =
        c.world.sent ++ ((asyncServer cap srv).answer req keepAlive
          c.world.state).1 ∧
      (((asyncServer cap srv).answer req keepAlive
          c.world.state).2.1 = true →
        ((AsyncSovereignServer.task srv .calm remoteAddr).answer req keepAlive c).2.world.state =
            ((asyncServer cap srv).answer req keepAlive
              c.world.state).2.2 ∧
          ((AsyncSovereignServer.task srv .calm remoteAddr).answer req keepAlive c).2.world.reader =
            c.world.reader) := by
  obtain ⟨hended, hworld⟩ := respond_calm srv remoteAddr req keepAlive c
  rw [ClientTask.answer, Server.answer]
  rcases hrespond : (AsyncSovereignServer.task srv .calm remoteAddr).respond req keepAlive c with
    ⟨ended, c'⟩
  rw [hrespond] at hended hworld
  rcases hwire : (asyncServer cap srv).respond req keepAlive
    ⟨c.world.state, []⟩ with ⟨e | again, wire⟩
  · rw [hwire] at hended hworld
    obtain rfl : ended = .error (.exception e) := hended
    obtain ⟨hstop, hsent⟩ := recover_calm srv remoteAddr (some req) e c'
    refine ⟨iff_of_false hstop Bool.false_ne_true, ?_, fun h => (by cases h)⟩
    refine hsent.trans ?_
    dsimp only at hworld ⊢
    rw [recover_sent srv req e wire, ClientTask.standIn, hworld, AsyncWorld.after,
      List.append_assoc]
  · rw [hwire] at hended hworld
    obtain rfl : ended = .ok again := hended
    dsimp only at hworld
    rw [hworld]
    refine ⟨?_, rfl, fun _ => ⟨rfl, rfl⟩⟩
    constructor
    · intro h
      cases h
      rfl
    · rintro rfl
      rfl

theorem turn_served {c : ClientConn (AsyncWorld σ cap)} (remaining : Nat)
    (h : parseAsyncRequest srv.config remoteAddr c.world.reader = .ok (req, reader)) :
    (((AsyncSovereignServer.task srv .calm remoteAddr).turn remaining c).1 = .ok true ↔
        ((asyncServer cap srv).serve req reader remaining c.world.state).1.again =
          true) ∧
      ((AsyncSovereignServer.task srv .calm remoteAddr).turn remaining c).2.world.sent =
        c.world.sent ++
          ((asyncServer cap srv).serve req reader remaining c.world.state).1.sent ∧
      (((asyncServer cap srv).serve req reader remaining c.world.state).1.again = true →
        ((AsyncSovereignServer.task srv .calm remoteAddr).turn remaining c).2.world.state =
            ((asyncServer cap srv).serve req reader remaining c.world.state).2 ∧
          ((AsyncSovereignServer.task srv .calm remoteAddr).turn remaining c).2.world.reader =
            reader) := by
  have hparse : (AsyncSovereignServer.task srv .calm remoteAddr).parse c.world =
      (.ok req, { c.world with reader }) := by
    rw [AsyncSovereignServer.task]
    dsimp only
    rw [h]
  rw [ClientTask.turn, ClientConn.await, hparse]
  exact answer_calm srv remoteAddr _ _ _

/-- Where nothing but the program raises, the loop sends what its exchanges send. -/
theorem loop_calm (remaining : Nat) (c : ClientConn (AsyncWorld σ cap)) :
    ((AsyncSovereignServer.task srv .calm remoteAddr).loop remaining c).2.world.sent =
      c.world.sent ++ ((asyncServer cap srv).connection remoteAddr remaining
        c.world.reader c.world.state).flatMap Exchange.sent := by
  induction remaining generalizing c with
  | zero => exact (List.append_nil _).symm
  | succ remaining ih =>
    cases hparse : parseAsyncRequest srv.config remoteAddr c.world.reader with
    | error e =>
      obtain ⟨hstop, hsent⟩ := turn_refused srv remoteAddr remaining hparse
      rw [Server.connection_refused _ rfl hparse, List.flatMap_cons, List.flatMap_nil,
        List.append_nil, ← hsent, ClientTask.loop]
      split
      · next hturn => rw [hturn]
      · next hturn => exact absurd (congrArg Prod.fst hturn) hstop
      · next hturn => rw [hturn]
    | ok parsed =>
      obtain ⟨req, reader⟩ := parsed
      obtain ⟨hagain, hsent, hnext⟩ :=
        turn_served srv remoteAddr remaining hparse
      rw [Server.connection_parsed _ _ rfl hparse, List.flatMap_cons, ← List.append_assoc, ← hsent,
        ClientTask.loop]
      split
      · next fault c' hturn =>
        rw [hturn] at hagain
        rw [if_neg fun h => (by cases hagain.2 h), List.flatMap_nil, List.append_nil, hturn]
      · next c' hturn =>
        rw [hturn] at hagain hnext
        obtain ⟨hstate, hreader⟩ := hnext (hagain.1 rfl)
        rw [if_pos (hagain.1 rfl), ih c', hstate, hreader, hturn]
      · next c' hturn =>
        rw [hturn] at hagain
        rw [if_neg fun h => (by cases hagain.2 h), List.flatMap_nil, List.append_nil, hturn]

/-- Where nothing but the program raises, `handle_client` sends what the exchanges of its connection
send. -/
theorem handleClient_calm (reader : StreamReader cap) (s : σ) :
    ((AsyncSovereignServer.task srv .calm remoteAddr).handleClient
        { state := s, reader }).2.world.sent =
      (handleClient srv remoteAddr reader s).flatMap Exchange.sent := by
  have hloop := loop_calm srv remoteAddr srv.config.maxKeepaliveRequests
    { world := { state := s, reader }, held := true,
      events := [⟨.permit, none⟩] }
  rw [List.nil_append] at hloop
  rw [handleClient, ← hloop, ClientTask.handleClient]
  have hpermit : ((AsyncSovereignServer.task srv .calm remoteAddr).withPermit
      { world := { state := s, reader } }).2.world =
        ((AsyncSovereignServer.task srv .calm remoteAddr).loop srv.config.maxKeepaliveRequests
          { world := { state := s, reader }, held := true, events := [⟨.permit, none⟩] }).2.world :=
          rfl
  rw [← hpermit]
  split
  · next fault c hresult => rw [hresult]
  · next c hresult =>
    rw [hresult]
    rfl

end Calm

/-- The id of a request with a line feed in it is refused in the headers of its response, and in
those of the error response too. -/
theorem echoed_id_unclosed :
    ¬ (@AsyncSovereignServer.task Unit 4096 ⟨fun _ => true⟩
        (oneRoute (.response { body := [] })).toProgram .calm []).Releases
      { state := ()
        reader := .ofSegments
          [⟨ascii "GET / HTTP/1.1\r\nHost: h\r\nX-Request-Id: a\nb\r\n\r\n", by decide, by decide⟩]
          } := by
  intro h
  exact absurd h.1 (by decide +kernel)

end Sovereign
