import Sovereign.Lib.Run
import Sovereign.Python
import Mathlib.Algebra.Order.Field.Rat

namespace Sovereign
set_option autoImplicit true

/-- The column `status` of the table `tasks`. -/
inductive TaskStatus where
  | pending
  | running
  | done
  | dead
deriving DecidableEq

/-- A row of the table `tasks`, besides its `id`. -/
structure Task where
  func : Str
  args : Str
  kwargs : Str
  status : TaskStatus := .pending
  attempts : Nat := 0
  nextRun : ℚ
  lastError : Option Str := none
deriving DecidableEq

/-- The table `tasks`. An `id` is never given twice, so that rows come in the order of theirs. -/
structure TaskTable where
  rows : Dict Nat Task
  lastId : Nat
  ordered : rows.keys.Pairwise (· < ·)
  known : ∀ id ∈ rows.keys, id ≤ lastId

namespace TaskTable

def empty : TaskTable := ⟨∅, 0, .nil, by simp⟩

/-- `_init_db`: a table that exists is left as it is. -/
def initDb : Option TaskTable → TaskTable
  | none => empty
  | some table => table

theorem not_mem_keys (t : TaskTable) : t.lastId + 1 ∉ t.rows.keys := fun h => by
  have hle := t.known _ h
  omega

theorem keys_insert (t : TaskTable) (task : Task) :
    (t.rows.set (t.lastId + 1) task).keys = t.rows.keys ++ [t.lastId + 1] := by
  rw [Dict.keys_set, if_neg t.not_mem_keys]

/-- The `INSERT` of `enqueue`. -/
def insert (t : TaskTable) (task : Task) : TaskTable where
  rows := t.rows.set (t.lastId + 1) task
  lastId := t.lastId + 1
  ordered := by
    rw [keys_insert, List.pairwise_append]
    refine ⟨t.ordered, List.pairwise_singleton _ _, fun a ha b hb => ?_⟩
    rw [List.mem_singleton.1 hb]
    exact Nat.lt_succ_of_le (t.known a ha)
  known id h := by
    rw [keys_insert] at h
    rcases List.mem_append.1 h with h | h
    · exact Nat.le_succ_of_le (t.known id h)
    · exact Nat.le_of_eq (List.mem_singleton.1 h)

/-- An `UPDATE` with `WHERE id=?`. -/
def update (t : TaskTable) (id : Nat) (f : Task → Task) : TaskTable where
  rows := t.rows.modify id f
  lastId := t.lastId
  ordered := by rw [Dict.keys_modify]; exact t.ordered
  known := by rw [Dict.keys_modify]; exact t.known

/-- The `SELECT` of `run_once`: the first pending row that is due. -/
def selectDue (t : TaskTable) (now : ℚ) : Option (Nat × Task) :=
  t.rows.entries.find? fun row => row.2.status = .pending ∧ row.2.nextRun ≤ now

def row? (t : TaskTable) (id : Nat) : Option Task := t.rows.get? id

@[simp] theorem row?_insert (t : TaskTable) (task : Task) (id : Nat) :
    (t.insert task).row? id = if id = t.lastId + 1 then some task else t.row? id :=
  Dict.get?_set ..

@[simp] theorem row?_update (t : TaskTable) (id id' : Nat) (f : Task → Task) :
    (t.update id f).row? id' = if id' = id then (t.row? id).map f else t.row? id' :=
  Dict.get?_modify ..

theorem row?_le {t : TaskTable} (h : t.row? taskId = some task) : taskId ≤ t.lastId := by
  refine t.known taskId (Dict.mem_keys.2 ?_)
  rw [Dict.contains]
  exact Option.isSome_iff_exists.2 ⟨task, h⟩

/-- The row selected is pending and due, and no such row has a smaller `id`. -/
theorem selectDue_some {t : TaskTable} (h : t.selectDue now = some (taskId, task)) :
    t.row? taskId = some task ∧ task.status = .pending ∧ task.nextRun ≤ now ∧
      ∀ id' task', t.row? id' = some task' → task'.status = .pending → task'.nextRun ≤ now →
        taskId ≤ id' := by
  obtain ⟨hp, before, after, hsplit, hnot⟩ := List.find?_eq_some_iff_append.1 h
  obtain ⟨hs, hn⟩ := of_decide_eq_true hp
  have hmem : (taskId, task) ∈ t.rows.entries := by simp [hsplit]
  refine ⟨Dict.get?_eq_some.2 hmem, hs, hn, fun id' task' hrow hs' hn' => ?_⟩
  have hmem' : (id', task') ∈ t.rows.entries := Dict.get?_eq_some.1 hrow
  have hord := t.ordered
  rw [Dict.keys, hsplit, List.map_append, List.pairwise_append, List.map_cons,
    List.pairwise_cons] at hord
  rw [hsplit] at hmem'
  rcases List.mem_append.1 hmem' with hb | ha
  · have hno := hnot _ hb
    simp [hs', hn'] at hno
  · rcases List.mem_cons.1 ha with he | ha
    · cases he
      exact Nat.le_refl _
    · exact Nat.le_of_lt (hord.2.1.1 id' (List.mem_map_of_mem ha))

theorem selectDue_none {t : TaskTable} (h : t.selectDue now = none) (hr : t.row? taskId = some task)
    (hs : task.status = .pending) : now < task.nextRun := by
  have hmem : (taskId, task) ∈ t.rows.entries := Dict.get?_eq_some.1 hr
  have hno := List.find?_eq_none.1 h _ hmem
  by_contra hle
  exact hno (decide_eq_true ⟨hs, not_lt.1 hle⟩)

def status? (t : TaskTable) (taskId : Nat) : Option TaskStatus := (t.row? taskId).map Task.status

@[simp] theorem status?_insert (t : TaskTable) (task : Task) (taskId : Nat) :
    (t.insert task).status? taskId =
      if taskId = t.lastId + 1 then some task.status else t.status? taskId := by
  rw [status?, row?_insert]
  split <;> rfl

theorem status?_le {t : TaskTable} (h : t.status? taskId = some status) : taskId ≤ t.lastId := by
  obtain ⟨task, hrow, -⟩ := Option.map_eq_some_iff.1 h
  exact row?_le hrow

theorem status?_update_of_ne {t : TaskTable} (f : Task → Task) (hne : id' ≠ taskId) :
    (t.update taskId f).status? id' = t.status? id' := by
  rw [status?, row?_update, if_neg hne, status?]

theorem status?_update_self (t : TaskTable) (taskId : Nat) (f : Task → Task) :
    (t.update taskId f).status? taskId = (t.row? taskId).map fun task => (f task).status := by
  rw [status?, row?_update, if_pos rfl, Option.map_map]
  rfl

theorem row?_of_status? {t : TaskTable} (h : t.status? taskId = some status) :
    ∃ task, t.row? taskId = some task ∧ task.status = status :=
  Option.map_eq_some_iff.1 h

end TaskTable

/-- Where a worker stands in `run_once`. -/
inductive WorkerPc where
  | idle
  /-- the row has been fetched -/
  | selected (id : Nat) (task : Task)
  /-- the row is marked as running, and the function of the task is called -/
  | executing (id : Nat) (task : Task)
  /-- the function has ended, with the text of an `Exception` if it raised one -/
  | ended (id : Nat) (task : Task) (result : Except Str Unit)
deriving DecidableEq

/-- The worker has marked the row and not yet settled it. -/
def WorkerPc.AtWork (taskId : Nat) : WorkerPc → Prop
  | .executing id' _ | .ended id' _ _ => id' = taskId
  | _ => False

@[simp] theorem atWork_idle : ¬ WorkerPc.AtWork taskId .idle := id

@[simp] theorem atWork_selected : ¬ WorkerPc.AtWork taskId (.selected id' task) := id

@[simp] theorem atWork_executing : WorkerPc.AtWork taskId (.executing id' task) ↔ id' = taskId :=
  .rfl

/-- What happens to a task, in the order of time. -/
inductive TaskEvent where
  | started (id : Nat) (time : ℚ)
  | raised (id : Nat) (time : ℚ)
  | returned (id : Nat) (time : ℚ)
  /-- its row goes from running back to pending -/
  | requeued (id : Nat)
deriving DecidableEq

/-- A database file, the workers of all processes that have it open, and what has happened. -/
structure QueueState (W : Type) where
  table : TaskTable
  workers : W → WorkerPc
  clock : ℚ
  history : List TaskEvent

inductive QueueAction (W : Type) where
  | enqueue (func args kwargs : Str)
  | select (w : W)
  | claim (w : W)
  /-- the function of the task returns, or raises an `Exception` -/
  | finish (w : W) (result : Except Str Unit)
  | settle (w : W)
  /-- the function raises an exception of another kind, such as `SystemExit` -/
  | abort (w : W)
  /-- the process of the worker stops -/
  | halt (w : W)
  /-- a process opens the file -/
  | init
deriving DecidableEq

/-- An action and the time of the clock at it. -/
structure QueueStep (W : Type) where
  now : ℚ
  action : QueueAction W

namespace SQLiteTaskQueue

/-- The status after a failed attempt. -/
def nextStatus (maxRetries : Int) (attempts : Nat) : TaskStatus :=
  if maxRetries ≤ attempts then .dead else .pending

def retryDelay (attempts : Nat) : ℚ := min 60 (2 ^ attempts)

/-- The `UPDATE` at the end of `run_once`, for the row as it was fetched. -/
def settleRow (maxRetries : Int) (now : ℚ) (fetched : Task) (result : Except Str Unit)
    (task : Task) : Task :=
  match result with
  | .ok () => { task with status := .done }
  | .error text =>
    let attempts := fetched.attempts + 1
    { task with
      status := nextStatus maxRetries attempts, attempts, nextRun := now + retryDelay attempts
      lastError := some text }

theorem settleRow_status (maxRetries : Int) (now : ℚ) (fetched : Task) (result : Except Str Unit)
    (task : Task) : (settleRow maxRetries now fetched result task).status ≠ .running := by
  cases result with
  | ok => simp [settleRow]
  | error text =>
    simp only [settleRow, nextStatus]
    split <;> simp

/-- The row goes from running back to pending. -/
def requeues (table : TaskTable) (id : Nat) (settled : TaskTable) : Bool :=
  decide ((table.row? id).map Task.status = some .running ∧
    (settled.row? id).map Task.status = some .pending)

variable {W : Type} [DecidableEq W]

/-- One database statement of `enqueue` or `run_once`, or what happens between two of them. The
thread of `start` makes one pass after the other until `stop`, and `run_once` is called from
elsewhere as well, so that a pass may begin at any time. -/
def step (maxRetries : Int) (s : QueueState W) (x : QueueStep W) : Option (QueueState W) :=
  let s := { s with clock := x.now }
  match x.action with
  | .enqueue func args kwargs =>
    some { s with table := s.table.insert { func, args, kwargs, nextRun := x.now } }
  | .select w =>
    match s.workers w with
    | .idle =>
      match s.table.selectDue x.now with
      | none => some s
      | some (id, task) => some
          { s with workers := Function.update s.workers w (.selected id task) }
    | _ => none
  | .claim w =>
    match s.workers w with
    | .selected id task =>
      some { s with
        table := s.table.update id fun row => { row with status := .running }
        workers := Function.update s.workers w (.executing id task)
        history := s.history ++ [.started id x.now] }
    | _ => none
  | .finish w result =>
    match s.workers w with
    | .executing id task =>
      some { s with
        workers := Function.update s.workers w (.ended id task result)
        history := s.history ++ [match result with
          | .ok () => .returned id x.now
          | .error _ => .raised id x.now] }
    | _ => none
  | .settle w =>
    match s.workers w with
    | .ended id task result =>
      let table := s.table.update id (settleRow maxRetries x.now task result)
      some { s with
        table
        workers := Function.update s.workers w .idle
        history := s.history ++ if requeues s.table id table then [.requeued id] else [] }
    | _ => none
  | .abort w =>
    match s.workers w with
    | .executing _ _ => some { s with workers := Function.update s.workers w .idle }
    | _ => none
  | .halt w => some { s with workers := Function.update s.workers w .idle }
  | .init => some { s with table := .initDb (some s.table) }

/-- No worker is at work on a new file. -/
def start : QueueState W := ⟨.empty, fun _ => .idle, 0, []⟩

/-- What a step can do. -/
inductive Steps (maxRetries : Int) (s : QueueState W) (now : ℚ) :
    QueueAction W → QueueState W → Prop where
  | enqueue :
    Steps maxRetries s now (.enqueue func args kwargs) { s with
      clock := now
      table := s.table.insert { func, args, kwargs, nextRun := now } }
  | selectNone (hw : s.workers w = .idle) (hsel : s.table.selectDue now = none) :
    Steps maxRetries s now (.select w) { s with clock := now }
  | select (hw : s.workers w = .idle) (hsel : s.table.selectDue now = some (taskId, task)) :
    Steps maxRetries s now (.select w) { s with
      clock := now
      workers := Function.update s.workers w (.selected taskId task) }
  | claim (hw : s.workers w = .selected taskId task) :
    Steps maxRetries s now (.claim w) { s with
      clock := now
      table := s.table.update taskId fun row => { row with status := .running }
      workers := Function.update s.workers w (.executing taskId task)
      history := s.history ++ [.started taskId now] }
  | finish (hw : s.workers w = .executing taskId task) :
    Steps maxRetries s now (.finish w result) { s with
      clock := now
      workers := Function.update s.workers w (.ended taskId task result)
      history := s.history ++ [match result with
        | .ok () => .returned taskId now
        | .error _ => .raised taskId now] }
  | settle (hw : s.workers w = .ended taskId task result) :
    Steps maxRetries s now (.settle w) { s with
      clock := now
      table := s.table.update taskId (settleRow maxRetries now task result)
      workers := Function.update s.workers w .idle
      history := s.history ++
        if requeues s.table taskId
            (s.table.update taskId (settleRow maxRetries now task result)) then
          [.requeued taskId]
        else [] }
  | abort (hw : s.workers w = .executing taskId task) :
    Steps maxRetries s now (.abort w) { s with
      clock := now
      workers := Function.update s.workers w .idle }
  | halt :
    Steps maxRetries s now (.halt w) { s with
      clock := now
      workers := Function.update s.workers w .idle }
  | init : Steps maxRetries s now .init { s with clock := now }

theorem step_cases {s : QueueState W} (h : step maxRetries s x = some s') :
    Steps maxRetries s x.now x.action s' := by
  obtain ⟨now, action⟩ := x
  cases action <;> simp only [step] at h
  case enqueue =>
    cases h
    exact .enqueue
  case select w =>
    cases hw : s.workers w with
    | idle =>
      cases hsel : s.table.selectDue now with
      | none =>
        rw [hw, hsel] at h
        cases h
        exact .selectNone hw hsel
      | some row =>
        rw [hw, hsel] at h
        cases h
        exact .select hw hsel
    | _ => simp [hw] at h
  case claim w =>
    cases hw : s.workers w with
    | selected taskId task =>
      rw [hw] at h
      cases h
      exact .claim hw
    | _ => simp [hw] at h
  case finish w result =>
    cases hw : s.workers w with
    | executing taskId task =>
      rw [hw] at h
      cases h
      exact .finish hw
    | _ => simp [hw] at h
  case settle w =>
    cases hw : s.workers w with
    | ended taskId task result =>
      rw [hw] at h
      cases h
      exact .settle hw
    | _ => simp [hw] at h
  case abort w =>
    cases hw : s.workers w with
    | executing taskId task =>
      rw [hw] at h
      cases h
      exact .abort hw
    | _ => simp [hw] at h
  case halt w =>
    cases h
    exact .halt
  case init =>
    cases h
    exact .init

end SQLiteTaskQueue

end Sovereign
