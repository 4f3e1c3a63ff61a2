import Sovereign.Server
import Sovereign.TaskQueue
import Mathlib.Data.Fin.Tuple.Basic

namespace Sovereign
set_option autoImplicit true

/-- A value that a task is called with: of the type `bool`, or another object with its truth. -/
inductive PyObject where
  | bool (b : Bool)
  | object (id : Nat) (truth : Bool)
deriving DecidableEq

/-- `bool(value)` -/
def PyObject.truth : PyObject → Bool
  | bool b => b
  | object _ truth => truth

/-- A function with the arguments of a call: what `background_tasks` holds. -/
structure Job where
  func : Nat
  args : List PyObject
  kwargs : Dict Str PyObject
deriving DecidableEq

/-- The parameters of `add_background_task`, which no keyword of its `**kwargs` can name. -/
def taskParameters : List Str := ["self".toList, "func".toList, "persistent".toList]

/-- A call of `add_background_task`. -/
structure TaskCall where
  job : Job
  persistent : Bool
  keywords : ∀ name ∈ taskParameters, job.kwargs.contains name = false

/-- `"_persistent"` -/
def persistentKey : Str := "_persistent".toList

/-- `(func, args, {**kwargs, "_persistent": persistent})` -/
def TaskCall.entry (call : TaskCall) : Job :=
  { call.job with kwargs := call.job.kwargs.set persistentKey (.bool call.persistent) }

/-- What is recorded while a request is served. The global middlewares are numbered in the order of
the router. -/
inductive Entry where
  | middleware (i : Nat)
  /-- a route handler, a static response or the websocket handler is entered -/
  | application
  | task (call : TaskCall)

/-- The state of the application, with the background tasks of the request that is served and what
the program has done with those of all requests. -/
structure Ledger (σ : Type) where
  state : σ
  log : List Entry
  backgroundTasks : List Job
  /-- the calls of `task_queue.enqueue` that have returned, with the rows they have inserted -/
  enqueued : List (Job × Task)
  /-- the calls of `executor.submit` that have returned -/
  submitted : List Job
  /-- how many calls of the two there have been -/
  handOvers : Nat

/-- Code on the state of the application alone. -/
def onApplication (x : Act σ α) : Act (Ledger σ) α := fun l =>
  ((x l.state).1, { l with state := (x l.state).2 })

def enter (entry : Entry) : Act (Ledger σ) Unit := fun l =>
  (.ok (), { l with log := l.log ++ [entry] })

/-- `Request.add_background_task` -/
def addBackgroundTask (call : TaskCall) : Act (Ledger σ) Unit := fun l =>
  (.ok (), { l with log := l.log ++ [.task call]
                    backgroundTasks := l.backgroundTasks ++ [call.entry] })

/-- Application code, by what it does until it returns or raises. It holds `n` awaitables that
`call_next` has returned, the last one first. -/
inductive Code (σ : Type) : Nat → Type where
  | result (resp : HandlerResult) : Code σ n
  | raise (e : Exc) : Code σ n
  /-- it returns one of the awaitables -/
  | pass (i : Fin n) : Code σ n
  /-- it returns a coroutine of its own that has not run -/
  | coroutine (body : Code σ n) : Code σ n
  | read (next : σ → Code σ n) : Code σ n
  | write (s : σ) (next : Code σ n) : Code σ n
  | addTask (call : TaskCall) (next : Code σ n) : Code σ n
  /-- it calls `call_next` and goes on with what that returns or raises -/
  | callNext (req : Request) (next : Except Exc HandlerResult → Code σ n)
      (held : Code σ (n + 1)) : Code σ n
  /-- it awaits one of the awaitables -/
  | await (i : Fin n) (next : Except Exc HandlerResult → Code σ n)
      (held : Code σ (n + 1)) : Code σ n

/-- Go on with the outcome of a call. -/
def resume (outcome : Except Exc (Val σ) × σ) (next : Except Exc HandlerResult → Act σ (Val σ))
    (held : Act σ (Val σ) → Act σ (Val σ)) : Except Exc (Val σ) × σ :=
  match outcome with
  | (.error e, s) => next (.error e) s
  | (.ok (.result resp), s) => next (.ok resp) s
  | (.ok (.awaitable run), s) => held run s

/-- Run code that may call `call_next`. -/
def Code.run (callNext : Endpoint (Ledger σ)) :
    Code σ n → (Fin n → Act (Ledger σ) (Val (Ledger σ))) → Act (Ledger σ) (Val (Ledger σ))
  | result resp, _ => pure (.result resp)
  | raise e, _ => throw e
  | pass i, held => pure (.awaitable (held i))
  | coroutine body, held => pure (.awaitable (body.run callNext held))
  | read next, held => fun l => (next l.state).run callNext held l
  | write s next, held => fun l => next.run callNext held { l with state := s }
  | addTask call next, held => do
    addBackgroundTask call
    next.run callNext held
  | .callNext req next other, held => fun l =>
    resume (callNext req l) (fun out => (next out).run callNext held)
      fun run => other.run callNext (Fin.cons run held)
  | await i next other, held => fun l =>
    resume (held i l) (fun out => (next out).run callNext held)
      fun run => other.run callNext (Fin.cons run held)

/-- Code that has no `call_next`. -/
def Code.start (code : Code σ 0) : Act (Ledger σ) (Val (Ledger σ)) :=
  code.run (fun _ => throw (.builtin .typeError)) Fin.elim0

structure AppMiddleware (σ : Type) where
  isCoroutineFunction : Bool
  code : Request → Code σ 0

/-- A middleware of a route. -/
def AppMiddleware.local (mw : AppMiddleware σ) : Middleware (Ledger σ) where
  isCoroutineFunction := mw.isCoroutineFunction
  body req callNext := (mw.code req).run callNext Fin.elim0

/-- The `i`th middleware of the router. -/
def AppMiddleware.global (i : Nat) (mw : AppMiddleware σ) : Middleware (Ledger σ) where
  isCoroutineFunction := mw.isCoroutineFunction
  body req callNext := do
    enter (.middleware i)
    (mw.code req).run callNext Fin.elim0

/-- The middlewares of the router from the `i`th on. -/
def globalsFrom : Nat → List (AppMiddleware σ) → List (Middleware (Ledger σ))
  | _, [] => []
  | i, mw :: mws => mw.global i :: globalsFrom (i + 1) mws

structure AppRoute (σ : Type) where
  method : Str
  regex : Str → Option (Dict Str Str)
  isCoroutineFunction : Bool
  code : Dict Str Str → Request → Code σ 0
  middlewares : List (AppMiddleware σ)

def AppRoute.route (route : AppRoute σ) : Route (Ledger σ) where
  method := route.method
  regex := route.regex
  handler :=
    { isCoroutineFunction := route.isCoroutineFunction
      body := fun params req => do
        enter .application
        (route.code params req).start }
  middlewares := route.middlewares.map AppMiddleware.local

/-- What the websocket handler does in a session: what it sends, how it ends, the state after it,
and its calls of `add_background_task`. -/
structure Session (σ : Type) where
  frames : List Bytes
  ended : Except Exc Unit
  state : σ
  calls : List TaskCall

/-- What handing a task over takes from the function and the platform, by the number of the
hand-over where it can change. -/
structure TaskRuntime where
  /-- `f"{func.__module__}:{func.__qualname__}"` -/
  qualname : Nat → Except Exc Str
  dumpsArgs : List PyObject → Except Exc Str
  dumpsKwargs : Dict Str PyObject → Except Exc Str
  connect : Nat → Except Exc Unit
  execute : Nat → Except Exc Unit
  time : Nat → ℚ
  submit : Nat → Except Exc Unit

namespace TaskRuntime

variable (runtime : TaskRuntime)

/-- The row that `enqueue` inserts. -/
def row (n : Nat) (job : Job) : Except Exc Task := do
  let func ← runtime.qualname job.func
  runtime.connect n
  let args ← runtime.dumpsArgs job.args
  let kwargs ← runtime.dumpsKwargs job.kwargs
  runtime.execute n
  return { func, args, kwargs, nextRun := runtime.time n }

/-- `self.task_queue.enqueue(func, *args, **kwargs)` -/
def enqueue (job : Job) : Act (Ledger σ) Unit := fun l =>
  if job.kwargs.contains "self".toList = true ∨ job.kwargs.contains "func".toList = true then
    (.error (.builtin .typeError), { l with handOvers := l.handOvers + 1 })
  else
    match runtime.row l.handOvers job with
    | .error e => (.error e, { l with handOvers := l.handOvers + 1 })
    | .ok task => (.ok (), { l with handOvers := l.handOvers + 1
                                    enqueued := l.enqueued ++ [(job, task)] })

/-- `self.executor.submit(func, *args, **kwargs)` -/
def submitJob (job : Job) : Act (Ledger σ) Unit := fun l =>
  match runtime.submit l.handOvers with
  | .error e => (.error e, { l with handOvers := l.handOvers + 1 })
  | .ok _ => (.ok (), { l with handOvers := l.handOvers + 1, submitted := l.submitted ++ [job] })

/-- One pass of the loop of `_run_background_tasks`. -/
def handOver (entry : Job) : Act (Ledger σ) Unit :=
  let persistent := ((entry.kwargs.get? persistentKey).getD (.bool false)).truth
  let job := { entry with kwargs := entry.kwargs.erase persistentKey }
  if persistent then runtime.enqueue job else runtime.submitJob job

def handOverAll : List Job → Act (Ledger σ) Unit
  | [] => pure ()
  | entry :: entries => do
    runtime.handOver entry
    handOverAll entries

/-- `SovereignServer._run_background_tasks`. The request is done with then, and the next one has a
list of its own. -/
def runBackgroundTasks (_req : Request) : Act (Ledger σ) Unit := do
  let entries ← (fun l => (.ok l.backgroundTasks, l) : Act (Ledger σ) (List Job))
  runtime.handOverAll entries
  (fun l => (.ok (), { l with backgroundTasks := [] }) : Act (Ledger σ) Unit)

end TaskRuntime

/-- A program by the code that the application supplies. -/
structure Application (σ : Type) where
  globals : List (AppMiddleware σ)
  routes : List (AppRoute σ)
  openapi : Request → Act σ HandlerResult
  staticResponse : Request → Act σ HandlerResult
  config : ServerConfig
  nowHttpDate : σ → HeaderText × σ
  newRequestId : σ → HeaderText × σ
  stopEvent : σ → Bool
  webSocketAccept : Str → Option Str
  websocketHandler : Option (Request → σ → Session σ)
  runtime : TaskRuntime

namespace Application

variable (app : Application σ)

/-- A function of the library that stands where a handler does. -/
def served (respond : Request → Act σ HandlerResult) (req : Request) :
    Act (Ledger σ) HandlerResult := do
  enter .application
  onApplication (respond req)

def router : Router (Ledger σ) where
  routes := app.routes.map AppRoute.route
  middlewares := globalsFrom 0 app.globals
  openapi := served app.openapi

def program : Program (Ledger σ) where
  router := app.router
  config := app.config
  staticResponse := served app.staticResponse
  nowHttpDate l := ((app.nowHttpDate l.state).1, { l with state := (app.nowHttpDate l.state).2 })
  newRequestId l := ((app.newRequestId l.state).1, { l with state := (app.newRequestId l.state).2 })

/-- The session of the websocket handler. -/
def session (handler : Request → σ → Session σ) (req : Request) (l : Ledger σ) :
    (List Bytes × Except Exc Unit) × Ledger σ :=
  let session := handler req l.state
  ((session.frames, session.ended),
    { l with state := session.state
             log := l.log ++ .application :: session.calls.map .task
             backgroundTasks := l.backgroundTasks ++ session.calls.map TaskCall.entry })

/-- The application on the threaded server; `program` is what the asynchronous server runs. -/
def threaded : SovereignServer (Ledger σ) where
  toProgram := app.program
  stopEvent l := app.stopEvent l.state
  webSocketAccept := app.webSocketAccept
  websocketHandler := app.websocketHandler.map session
  runBackgroundTasks := app.runtime.runBackgroundTasks

end Application

/-- The state of the program after a pass of the loop. -/
def Server.after (srv : Server σ R) (remoteAddr : Str) (x : Exchange σ) : σ :=
  match x.parsed with
  | .ok req =>
    let (req, s) := srv.identify req x.state
    (srv.answer req x.keepAlive s).2.2
  | .error e =>
    let (req, s) := srv.dummyRequest remoteAddr x.state
    (srv.recover req e ⟨s, []⟩).2.state

/-- What a pass of the loop has recorded. -/
def Server.entries (srv : Server (Ledger σ) R) (remoteAddr : Str) (x : Exchange (Ledger σ)) :
    List Entry :=
  (srv.after remoteAddr x).log.drop x.state.log.length

end Sovereign
