import Sovereign.Lib.History
import Sovereign.TaskQueue
import Mathlib.Tactic.Linarith
import Mathlib.Tactic.Positivity

namespace Sovereign
set_option autoImplicit true

def TaskEvent.taskId : TaskEvent → Nat
  | .started taskId _ | .raised taskId _ | .returned taskId _ | .requeued taskId => taskId

def executions (h : List TaskEvent) (taskId : Nat) : Nat :=
  h.countP fun
    | .started id' _ => id' = taskId
    | _ => false

def failures (h : List TaskEvent) (taskId : Nat) : Nat :=
  h.countP fun
    | .raised id' _ => id' = taskId
    | _ => false

def returns (h : List TaskEvent) (taskId : Nat) : Nat :=
  h.countP fun
    | .returned id' _ => id' = taskId
    | _ => false

/-- The task has been executed `x` times, of which `f` failed and `r` returned. -/
def Tally (h : List TaskEvent) (taskId x f r : Nat) : Prop :=
  executions h taskId = x ∧ failures h taskId = f ∧ returns h taskId = r

theorem tally_nil : Tally [] taskId 0 0 0 := ⟨rfl, rfl, rfl⟩

theorem tally_other {l : List TaskEvent} (h : Tally hist taskId x f r)
    (hl : ∀ e ∈ l, e.taskId ≠ taskId) : Tally (hist ++ l) taskId x f r := by
  obtain ⟨hx, hf, hr⟩ := h
  refine ⟨?_, ?_, ?_⟩
  · rw [executions, List.countP_append, ← executions, hx, List.countP_eq_zero.2, Nat.add_zero]
    intro e he
    have hne := hl e he
    cases e <;> simp_all [TaskEvent.taskId]
  · rw [failures, List.countP_append, ← failures, hf, List.countP_eq_zero.2, Nat.add_zero]
    intro e he
    have hne := hl e he
    cases e <;> simp_all [TaskEvent.taskId]
  · rw [returns, List.countP_append, ← returns, hr, List.countP_eq_zero.2, Nat.add_zero]
    intro e he
    have hne := hl e he
    cases e <;> simp_all [TaskEvent.taskId]

theorem tally_started (h : Tally hist taskId x f r) (t : ℚ) :
    Tally (hist ++ [.started taskId t]) taskId (x + 1) f r := by
  simpa [Tally, executions, failures, returns] using h

theorem tally_raised (h : Tally hist taskId x f r) (t : ℚ) :
    Tally (hist ++ [.raised taskId t]) taskId x (f + 1) r := by
  simpa [Tally, executions, failures, returns] using h

theorem tally_returned (h : Tally hist taskId x f r) (t : ℚ) :
    Tally (hist ++ [.returned taskId t]) taskId x f (r + 1) := by
  simpa [Tally, executions, failures, returns] using h

theorem tally_requeued (h : Tally hist taskId x f r) {b : Bool} :
    Tally (hist ++ if b then [.requeued taskId] else []) taskId x f r := by
  cases b <;> simpa [Tally, executions, failures, returns] using h

/-- The `k`-th failure of the task came at least `min(60, 2 ** k)` before `time`. -/
def Due (h : List TaskEvent) (taskId : Nat) (time : ℚ) : Prop :=
  History.Each (fun before e => ∀ t, e = .raised taskId t →
    t + min 60 (2 ^ (failures before taskId + 1)) ≤ time) h

/-- Each execution of a task comes late enough after the failures of it. -/
def Spaced (h : List TaskEvent) : Prop :=
  History.Each (fun before e => ∀ taskId t, e = .started taskId t → Due before taskId t) h

theorem Due.mono (h : Due hist taskId t) (ht : t ≤ t') : Due hist taskId t' :=
  fun before e after hsplit u he => (h before e after hsplit u he).trans ht

theorem due_of_failures (h : failures hist taskId = 0) (t : ℚ) : Due hist taskId t := by
  intro before e after hsplit u he
  subst he hsplit
  simp [failures] at h

theorem Due.append (h : Due hist taskId t) {l : List TaskEvent}
    (hl : ∀ e ∈ l, ∀ u, e ≠ .raised taskId u) : Due (hist ++ l) taskId t := by
  induction l using List.reverseRecOn with
  | nil => rwa [List.append_nil]
  | append_singleton l e ih =>
    rw [← List.append_assoc, Due, History.each_concat]
    refine ⟨ih fun e he => hl e (by simp [he]), fun u he => ?_⟩
    exact absurd he (hl e (by simp) u)

theorem spaced_append (h : Spaced hist) {l : List TaskEvent}
    (hl : ∀ e ∈ l, ∀ taskId u, e ≠ .started taskId u) : Spaced (hist ++ l) := by
  induction l using List.reverseRecOn with
  | nil => rwa [List.append_nil]
  | append_singleton l e ih =>
    rw [← List.append_assoc, Spaced, History.each_concat]
    refine ⟨ih fun e he => hl e (by simp [he]), fun taskId u he => ?_⟩
    exact absurd he (hl e (by simp) taskId u)

/-- The worker has fetched the row and not yet settled it. -/
def WorkerPc.About (taskId : Nat) : WorkerPc → Prop
  | .idle => False
  | .selected id' _ | .executing id' _ | .ended id' _ _ => id' = taskId

@[simp] theorem not_about_idle : ¬ WorkerPc.About taskId .idle := id

@[simp] theorem about_selected : WorkerPc.About taskId (.selected id' task) ↔ id' = taskId := .rfl

@[simp] theorem about_executing : WorkerPc.About taskId (.executing id' task) ↔ id' = taskId := .rfl

@[simp] theorem about_ended : WorkerPc.About taskId (.ended id' task result) ↔ id' = taskId := .rfl

/-- A failed attempt more is not the last one. -/
def Below (maxRetries : Int) (attempts : Nat) : Prop := attempts = 0 ∨ (attempts : Int) < maxRetries

/-- How a task stands with one worker: its row and what has happened to it agree. -/
inductive Lawful (maxRetries : Int) (h : List TaskEvent) (clock : ℚ) (taskId : Nat) :
    WorkerPc → Option Task → Prop where
  | absent (hpc : ¬ pc.About taskId) (ht : Tally h taskId 0 0 0) :
    Lawful maxRetries h clock taskId pc none
  | pending (hpc : ¬ pc.AtWork taskId)
      (hsel : ∀ fetched, pc = .selected taskId fetched → fetched = task ∧ task.nextRun ≤ clock)
      (hs : task.status = .pending) (ht : Tally h taskId task.attempts task.attempts 0)
      (hb : Below maxRetries task.attempts) (hd : Due h taskId task.nextRun) :
    Lawful maxRetries h clock taskId pc (some task)
  | executing (ht : Tally h taskId (task.attempts + 1) task.attempts 0)
      (hb : Below maxRetries task.attempts) (hd : Due h taskId clock) :
    Lawful maxRetries h clock taskId (.executing taskId task)
      (some { task with status := .running })
  | returned (ht : Tally h taskId (task.attempts + 1) task.attempts 1)
      (hb : Below maxRetries task.attempts) :
    Lawful maxRetries h clock taskId (.ended taskId task (.ok ()))
      (some { task with status := .running })
  | raised (ht : Tally h taskId (task.attempts + 1) (task.attempts + 1) 0)
      (hb : Below maxRetries task.attempts)
      (hd : Due h taskId (clock + SQLiteTaskQueue.retryDelay (task.attempts + 1))) :
    Lawful maxRetries h clock taskId (.ended taskId task (.error text))
      (some { task with status := .running })
  | done (hpc : ¬ pc.About taskId) (hs : task.status = .done)
      (ht : Tally h taskId (task.attempts + 1) task.attempts 1)
      (hb : Below maxRetries task.attempts) :
    Lawful maxRetries h clock taskId pc (some task)
  | dead (hpc : ¬ pc.About taskId) (hs : task.status = .dead)
      (ht : Tally h taskId task.attempts task.attempts 0)
      (ha : (task.attempts : Int) = max 1 maxRetries) :
    Lawful maxRetries h clock taskId pc (some task)

namespace Lawful

/-- Time passes. -/
theorem tick (h : Lawful maxRetries hist clock taskId pc row) (hc : clock ≤ clock') :
    Lawful maxRetries hist clock' taskId pc row := by
  cases h with
  | absent hpc ht => exact .absent hpc ht
  | pending hpc hsel hs ht hb hd =>
    refine .pending hpc (fun fetched he => ?_) hs ht hb hd
    obtain ⟨hf, hn⟩ := hsel fetched he
    exact ⟨hf, hn.trans hc⟩
  | executing ht hb hd => exact .executing ht hb (hd.mono hc)
  | returned ht hb => exact .returned ht hb
  | raised ht hb hd => exact .raised ht hb (hd.mono (by linarith))
  | done hpc hs ht hb => exact .done hpc hs ht hb
  | dead hpc hs ht ha => exact .dead hpc hs ht ha

/-- What the worker does to another task. -/
theorem frame (h : Lawful maxRetries hist clock taskId pc row) (hn : ¬ pc.About taskId)
    (hn' : ¬ pc'.About taskId) {l : List TaskEvent} (hl : ∀ e ∈ l, e.taskId ≠ taskId)
    (clock' : ℚ) : Lawful maxRetries (hist ++ l) clock' taskId pc' row := by
  cases h with
  | absent hpc ht => exact .absent hn' (tally_other ht hl)
  | pending hpc hsel hs ht hb hd =>
    refine .pending (fun hw => hn' ?_) (fun fetched he => ?_) hs (tally_other ht hl) hb
      (hd.append fun e he u heq => hl e he (by rw [heq]; rfl))
    · cases pc' <;> first | exact hw | exact hw.elim
    · rw [he] at hn'
      exact absurd rfl hn'
  | executing ht hb hd => exact absurd rfl hn
  | returned ht hb => exact absurd rfl hn
  | raised ht hb hd => exact absurd rfl hn
  | done hpc hs ht hb => exact .done hn' hs (tally_other ht hl) hb
  | dead hpc hs ht ha => exact .dead hn' hs (tally_other ht hl) ha

theorem enqueue (h : Lawful maxRetries hist clock taskId pc none) (func args kwargs : Str)
    (now : ℚ) :
    Lawful maxRetries hist now taskId pc (some { func, args, kwargs, nextRun := now }) := by
  cases h with
  | absent hpc ht =>
    refine .pending (fun hw => hpc ?_) (fun fetched he => ?_) rfl ht (.inl rfl)
      (due_of_failures ht.2.1 now)
    · cases pc <;> first | exact hw | exact hw.elim
    · rw [he] at hpc
      exact absurd rfl hpc

theorem select (h : Lawful maxRetries hist clock taskId .idle (some task))
    (hp : task.status = .pending) (hn : task.nextRun ≤ now) :
    Lawful maxRetries hist now taskId (.selected taskId task) (some task) := by
  cases h with
  | pending hpc hsel hs ht hb hd =>
    refine .pending atWork_selected (fun fetched he => ?_) hs ht hb hd
    cases he
    exact ⟨rfl, hn⟩
  | done hpc hs => simp [hs] at hp
  | dead hpc hs => simp [hs] at hp

theorem claim (h : Lawful maxRetries hist clock taskId (.selected taskId task) row)
    (hc : clock ≤ now) :
    Lawful maxRetries (hist ++ [.started taskId now]) now taskId (.executing taskId task)
      (row.map fun row => { row with status := .running }) ∧ Due hist taskId now := by
  cases h with
  | absent hpc => exact absurd rfl hpc
  | pending hpc hsel hs ht hb hd =>
    obtain ⟨rfl, hn⟩ := hsel task rfl
    have hd' : Due hist taskId now := hd.mono (hn.trans hc)
    exact ⟨.executing (tally_started ht now) hb (hd'.append (by simp)), hd'⟩
  | done hpc => exact absurd rfl hpc
  | dead hpc => exact absurd rfl hpc

theorem finish (h : Lawful maxRetries hist clock taskId (.executing taskId task) row)
    (hc : clock ≤ now) (result : Except Str Unit) :
    Lawful maxRetries (hist ++ [match result with
      | .ok () => .returned taskId now
      | .error _ => .raised taskId now]) now taskId (.ended taskId task result) row := by
  cases h with
  | absent hpc => exact absurd rfl hpc
  | pending hpc => exact absurd rfl hpc
  | executing ht hb hd =>
    cases result with
    | ok => exact .returned (tally_returned ht now) hb
    | error text =>
      refine .raised (tally_raised ht now) hb ?_
      rw [Due, History.each_concat]
      constructor
      · refine hd.mono (hc.trans (le_add_of_nonneg_right ?_))
        rw [SQLiteTaskQueue.retryDelay]
        positivity
      · intro t he
        cases he
        rw [ht.2.1, SQLiteTaskQueue.retryDelay]
  | done hpc => exact absurd rfl hpc
  | dead hpc => exact absurd rfl hpc

theorem settle (h : Lawful maxRetries hist clock taskId (.ended taskId task result) row)
    (hc : clock ≤ now) (b : Bool) :
    Lawful maxRetries (hist ++ if b then [.requeued taskId] else []) now taskId .idle
      (row.map (SQLiteTaskQueue.settleRow maxRetries now task result)) := by
  cases h with
  | absent hpc => exact absurd rfl hpc
  | pending hpc => exact absurd rfl hpc
  | returned ht hb => exact .done id rfl (tally_requeued ht) hb
  | raised ht hb hd =>
    by_cases hm : maxRetries ≤ (task.attempts + 1 : ℕ)
    · refine .dead id ?_ (tally_requeued ht) ?_
      · exact if_pos hm
      · simp only [SQLiteTaskQueue.settleRow]
        rcases hb with h0 | hlt <;> omega
    · refine .pending atWork_idle (fun _ he => by cases he) ?_ (tally_requeued ht) (.inr ?_) ?_
      · exact if_neg hm
      · simp only [SQLiteTaskQueue.settleRow]
        omega
      · refine (hd.mono ?_).append (by cases b <;> simp)
        simp only [SQLiteTaskQueue.settleRow]
        linarith
  | done hpc => exact absurd rfl hpc
  | dead hpc => exact absurd rfl hpc

end Lawful

namespace SQLiteTaskQueue

/-- The clock does not go back, and the worker is not ended in the middle of a pass. -/
def Ordinary (s : QueueState Unit) (x : QueueStep Unit) : Prop :=
  s.clock ≤ x.now ∧ ∀ w, x.action ≠ .halt w ∧ x.action ≠ .abort w

structure Law (maxRetries : Int) (s : QueueState Unit) : Prop where
  lawful : ∀ taskId,
    Lawful maxRetries s.history s.clock taskId (s.workers ()) (s.table.row? taskId)
  spaced : Spaced s.history

theorem law_start (maxRetries : Int) (t₀ : ℚ) : Law maxRetries { start with clock := t₀ } where
  lawful _ := .absent id tally_nil
  spaced := History.each_nil

/-- What the worker does to its task, the others being left alone. -/
theorem law_worker (taskId : Nat) {s : QueueState Unit} (hs : Law maxRetries s) {pc : WorkerPc}
    (hold : ∀ id', (s.workers ()).About id' → id' = taskId)
    (hnew : ∀ id', pc.About id' → id' = taskId) {l : List TaskEvent}
    (hl : ∀ e ∈ l, e.taskId = taskId) {table : TaskTable}
    (htable : ∀ id', id' ≠ taskId → table.row? id' = s.table.row? id')
    (hself : Lawful maxRetries (s.history ++ l) now taskId pc (table.row? taskId))
    (hspaced : Spaced (s.history ++ l)) :
    Law maxRetries ⟨table, Function.update s.workers () pc, now, s.history ++ l⟩ := by
  refine ⟨fun id' => ?_, hspaced⟩
  simp only [Function.update_self]
  by_cases hne : id' = taskId
  · rw [hne]
    exact hself
  · rw [htable id' hne]
    refine (hs.lawful id').frame (mt (hold id') hne) (mt (hnew id') hne) (fun e he heq => ?_) now
    exact hne (heq.symm.trans (hl e he))

theorem law_step {s : QueueState Unit} (hs : Law maxRetries s)
    (h : step maxRetries s x = some s') (ho : Ordinary s x) : Law maxRetries s' := by
  obtain ⟨now, action⟩ := x
  obtain ⟨hc, hno⟩ := ho
  cases step_cases h with
  | @enqueue func args kwargs =>
    refine ⟨fun taskId => ?_, hs.spaced⟩
    rw [TaskTable.row?_insert]
    have hl := hs.lawful taskId
    split
    · have hnone : s.table.row? taskId = none := by
        cases hrow : s.table.row? taskId with
        | none => rfl
        | some task => exact absurd (TaskTable.row?_le hrow) (by omega)
      rw [hnone] at hl
      exact hl.enqueue func args kwargs now
    · exact hl.tick hc
  | selectNone hw hsel => exact ⟨fun taskId => (hs.lawful taskId).tick hc, hs.spaced⟩
  | @select w taskId task hw hsel =>
    obtain ⟨hrow, hp, hn, -⟩ := TaskTable.selectDue_some hsel
    have hl := hs.lawful taskId
    rw [hw, hrow] at hl
    rw [← List.append_nil s.history]
    refine law_worker taskId hs (fun id' he => ?_)
      (fun id' he => (about_selected.1 he).symm) (by simp) (fun _ _ => rfl) ?_ ?_
    · rw [hw] at he
      exact absurd he not_about_idle
    · rw [hrow, List.append_nil]
      exact hl.select hp hn
    · rw [List.append_nil]
      exact hs.spaced
  | @claim w taskId task hw =>
    have hl := hs.lawful taskId
    rw [hw] at hl
    obtain ⟨hl, hd⟩ := hl.claim hc
    refine law_worker taskId hs (fun id' he => ?_)
      (fun id' he => (about_executing.1 he).symm) (by simp [TaskEvent.taskId])
      (fun id' hne => ?_) ?_ ?_
    · rw [hw] at he
      exact (about_selected.1 he).symm
    · rw [TaskTable.row?_update, if_neg hne]
    · rw [TaskTable.row?_update, if_pos rfl]
      exact hl
    · rw [Spaced, History.each_concat]
      refine ⟨hs.spaced, fun id' t he => ?_⟩
      cases he
      exact hd
  | @finish w taskId task result hw =>
    have hl := hs.lawful taskId
    rw [hw] at hl
    refine law_worker taskId hs (fun id' he => ?_) (fun id' he => (about_ended.1 he).symm) ?_
      (fun _ _ => rfl) (hl.finish hc result) (spaced_append hs.spaced ?_)
    · rw [hw] at he
      exact (about_executing.1 he).symm
    · cases result <;> simp [TaskEvent.taskId]
    · cases result <;> simp
  | @settle w taskId task result hw =>
    have hl := hs.lawful taskId
    rw [hw] at hl
    refine law_worker taskId hs (fun id' he => ?_)
      (fun id' he => absurd he not_about_idle) ?_ (fun id' hne => ?_) ?_
      (spaced_append hs.spaced ?_)
    · rw [hw] at he
      exact (about_ended.1 he).symm
    · split <;> simp [TaskEvent.taskId]
    · rw [TaskTable.row?_update, if_neg hne]
    · rw [TaskTable.row?_update, if_pos rfl]
      exact hl.settle hc _
    · split <;> simp
  | abort hw => exact absurd rfl (hno _).2
  | halt => exact absurd rfl (hno _).1
  | init => exact ⟨fun taskId => (hs.lawful taskId).tick hc, hs.spaced⟩

/-- What holds of the tasks, those whose function has ended and whose row is not yet settled
apart. -/
structure RetryLaw (maxRetries : Int) (s : QueueState Unit) : Prop where
  executions_le : ∀ taskId, (executions s.history taskId : Int) ≤ max 1 maxRetries
  attempts : ∀ taskId task, s.table.row? taskId = some task →
    (∀ fetched result, s.workers () ≠ .ended taskId fetched result) →
      task.attempts = failures s.history taskId
  spaced : Spaced s.history
  dead : ∀ taskId task, s.table.row? taskId = some task →
    (task.status = .dead ↔ (task.attempts : Int) = max 1 maxRetries)
  done : ∀ taskId task, s.table.row? taskId = some task →
    (∀ fetched result, s.workers () ≠ .ended taskId fetched result) →
      (task.status = .done ↔ 0 < returns s.history taskId)

theorem Law.obeyed {s : QueueState Unit} (h : Law maxRetries s) : RetryLaw maxRetries s where
  executions_le taskId := by
    have hl := h.lawful taskId
    generalize s.workers () = pc, s.table.row? taskId = row at hl
    cases hl with
    | absent hpc ht => rw [ht.1]; omega
    | pending hpc hsel hs ht hb => rw [ht.1]; rcases hb with h0 | hlt <;> omega
    | executing ht hb => rw [ht.1]; rcases hb with h0 | hlt <;> omega
    | returned ht hb => rw [ht.1]; rcases hb with h0 | hlt <;> omega
    | raised ht hb => rw [ht.1]; rcases hb with h0 | hlt <;> omega
    | done hpc hs ht hb => rw [ht.1]; rcases hb with h0 | hlt <;> omega
    | dead hpc hs ht ha => rw [ht.1]; omega
  attempts taskId task hrow hend := by
    have hl := h.lawful taskId
    rw [hrow] at hl
    generalize s.workers () = pc at hl hend
    cases hl with
    | pending hpc hsel hs ht hb => exact ht.2.1.symm
    | executing ht hb => exact ht.2.1.symm
    | returned ht hb => exact absurd rfl (hend _ _)
    | raised ht hb => exact absurd rfl (hend _ _)
    | done hpc hs ht hb => exact ht.2.1.symm
    | dead hpc hs ht ha => exact ht.2.1.symm
  spaced := h.spaced
  dead taskId task hrow := by
    have hl := h.lawful taskId
    rw [hrow] at hl
    generalize s.workers () = pc at hl
    cases hl with
    | pending hpc hsel hs ht hb => simp only [hs]; rcases hb with h0 | hlt <;> simp <;> omega
    | executing ht hb => rcases hb with h0 | hlt <;> simp <;> omega
    | returned ht hb => rcases hb with h0 | hlt <;> simp <;> omega
    | raised ht hb => rcases hb with h0 | hlt <;> simp <;> omega
    | done hpc hs ht hb => simp only [hs]; rcases hb with h0 | hlt <;> simp <;> omega
    | dead hpc hs ht ha => exact iff_of_true hs ha
  done taskId task hrow hend := by
    have hl := h.lawful taskId
    rw [hrow] at hl
    generalize s.workers () = pc at hl hend
    cases hl with
    | pending hpc hsel hs ht hb => simp [hs, ht.2.2]
    | executing ht hb => simp [ht.2.2]
    | returned ht hb => exact absurd rfl (hend _ _)
    | raised ht hb => exact absurd rfl (hend _ _)
    | done hpc hs ht hb => simp [hs, ht.2.2]
    | dead hpc hs ht ha => simp [hs, ht.2.2]

/-- A row that is done or dead stays as it is. -/
theorem settled_step {s : QueueState Unit} (hs : Law maxRetries s)
    (h : step maxRetries s x = some s') (hrow : s.table.row? taskId = some task)
    (hd : task.status = .done ∨ task.status = .dead) : s'.table.row? taskId = some task := by
  have hfree : ¬ (s.workers ()).About taskId := by
    have hl := hs.lawful taskId
    rw [hrow] at hl
    generalize s.workers () = pc at hl
    cases hl with
    | pending hpc hsel hp => simp [hp] at hd
    | executing => simp at hd
    | returned => simp at hd
    | raised => simp at hd
    | done hpc => exact hpc
    | dead hpc => exact hpc
  obtain ⟨now, action⟩ := x
  cases step_cases h with
  | enqueue =>
    have hle := TaskTable.row?_le hrow
    rw [TaskTable.row?_insert, if_neg (by omega), hrow]
  | @claim w id' task hw =>
    rw [hw, about_selected] at hfree
    rw [TaskTable.row?_update, if_neg (Ne.symm hfree), hrow]
  | @settle w id' task result hw =>
    rw [hw, about_ended] at hfree
    rw [TaskTable.row?_update, if_neg (Ne.symm hfree), hrow]
  | _ => exact hrow

/-- The row and the executions of the task are as they were. -/
def Unchanged (s s' : QueueState Unit) (taskId : Nat) : Prop :=
  executions s'.history taskId = executions s.history taskId ∧
    ∀ task, s.table.row? taskId = some task → s'.table.row? taskId = some task

/-- At most one task is executed, once: the first that is pending and due. -/
def OnePass (s : QueueState Unit) (now : ℚ) (s' : QueueState Unit) : Prop :=
  (∀ taskId, Unchanged s s' taskId) ∨
    ∃ taskId task, s.table.row? taskId = some task ∧ task.status = .pending ∧ task.nextRun ≤ now ∧
      (∀ id' task', s.table.row? id' = some task' → task'.status = .pending →
        task'.nextRun ≤ now → taskId ≤ id') ∧
      executions s'.history taskId ≤ executions s.history taskId + 1 ∧
      ∀ id', id' ≠ taskId → Unchanged s s' id'

/-- In the middle of a pass that has selected the task `sel`. -/
structure InPass (s : QueueState Unit) (sel : Option Nat) (u : QueueState Unit) : Prop where
  others : ∀ taskId, sel ≠ some taskId → Unchanged s u taskId
  about : ∀ taskId, (u.workers ()).About taskId → sel = some taskId
  once : ∀ taskId, sel = some taskId →
    executions u.history taskId ≤ executions s.history taskId + 1 ∧
    ∀ task, u.workers () = .selected taskId task →
      executions u.history taskId = executions s.history taskId

theorem executions_append {l : List TaskEvent} (hl : ∀ e ∈ l, ∀ t, e ≠ .started taskId t) :
    executions (h ++ l) taskId = executions h taskId := by
  rw [executions, List.countP_append, ← executions, List.countP_eq_zero.2, Nat.add_zero]
  intro e he hstart
  have hne := hl e he
  cases e <;> simp_all

theorem inPass_step {s u v : QueueState Unit} (hu : InPass s sel u)
    (h : step maxRetries u x = some v) (ho : Ordinary u x) (hsel : x.action ≠ .select ()) :
    InPass s sel v := by
  obtain ⟨now, action⟩ := x
  cases step_cases h with
  | enqueue =>
    refine ⟨fun taskId hne => ⟨(hu.others taskId hne).1, fun task hrow => ?_⟩, hu.about, hu.once⟩
    have hrow' := (hu.others taskId hne).2 task hrow
    have hle := TaskTable.row?_le hrow'
    rw [TaskTable.row?_insert, if_neg (by omega), hrow']
  | selectNone => exact absurd rfl hsel
  | select => exact absurd rfl hsel
  | @claim w taskId task hw =>
    have hself := hu.about taskId (by rw [hw]; rfl)
    refine ⟨fun id' hne => ?_, fun id' he => ?_, fun id' he => ⟨?_, fun task' hpc => ?_⟩⟩
    · have hne' : id' ≠ taskId := by
        rintro rfl
        exact hne hself
      obtain ⟨hx, hrows⟩ := hu.others id' hne
      refine ⟨?_, fun task' hrow => ?_⟩
      · rw [executions_append, hx]
        simp [Ne.symm hne']
      · rw [TaskTable.row?_update, if_neg hne', hrows task' hrow]
    · simp only [Function.update_self, about_executing] at he
      rw [hself, he]
    · rw [hself] at he
      cases he
      rw [← (hu.once taskId hself).2 task hw]
      simp [executions]
    · simp at hpc
  | @finish w taskId task result hw =>
    have hself := hu.about taskId (by rw [hw]; rfl)
    refine ⟨fun id' hne => ⟨?_, (hu.others id' hne).2⟩, fun id' he => ?_,
      fun id' he => ⟨?_, fun task' hpc => ?_⟩⟩
    · exact (executions_append (by cases result <;> simp)).trans (hu.others id' hne).1
    · simp only [Function.update_self, about_ended] at he
      rw [hself, he]
    · refine le_of_eq_of_le (executions_append ?_) (hu.once id' he).1
      cases result <;> simp
    · simp at hpc
  | @settle w taskId task result hw =>
    have hself := hu.about taskId (by rw [hw]; rfl)
    refine ⟨fun id' hne => ⟨?_, fun task' hrow => ?_⟩, fun id' he => ?_,
      fun id' he => ⟨?_, fun task' hpc => ?_⟩⟩
    · exact (executions_append (by split <;> simp)).trans (hu.others id' hne).1
    · have hne' : id' ≠ taskId := by
        rintro rfl
        exact hne hself
      rw [TaskTable.row?_update, if_neg hne', (hu.others id' hne).2 task' hrow]
    · simp at he
    · refine le_of_eq_of_le (executions_append ?_) (hu.once id' he).1
      split <;> simp
    · simp at hpc
  | abort => exact absurd rfl (ho.2 _).2
  | halt => exact absurd rfl (ho.2 _).1
  | init => exact ⟨hu.others, hu.about, hu.once⟩

theorem inPass_select {s u : QueueState Unit} (h : step maxRetries s ⟨now, .select ()⟩ = some u) :
    InPass s ((s.table.selectDue now).map Prod.fst) u := by
  have hsame : ∀ taskId, Unchanged s s taskId := fun _ => ⟨rfl, fun _ hrow => hrow⟩
  have hstep := step_cases h
  generalize ha : QueueAction.select () = a at hstep
  cases hstep with
  | selectNone hw hsel =>
    refine ⟨fun taskId _ => hsame taskId, fun taskId he => ?_, fun taskId he => ?_⟩
    · rw [hw] at he
      exact absurd he not_about_idle
    · rw [hsel] at he
      cases he
  | @select w taskId task hw hsel =>
    refine ⟨fun taskId _ => hsame taskId, fun id' he => ?_,
      fun id' he => ⟨Nat.le_succ _, fun _ _ => rfl⟩⟩
    simp only [Function.update_self, about_selected] at he
    rw [hsel, ← he]
    rfl
  | _ => cases ha

theorem onePass_of_inPass {s u : QueueState Unit}
    (h : InPass s ((s.table.selectDue now).map Prod.fst) u) : OnePass s now u := by
  cases hsel : s.table.selectDue now with
  | none =>
    rw [hsel] at h
    exact .inl fun taskId => h.others taskId (by simp)
  | some row =>
    obtain ⟨taskId, task⟩ := row
    rw [hsel] at h
    obtain ⟨hrow, hp, hn, hleast⟩ := TaskTable.selectDue_some hsel
    refine .inr ⟨taskId, task, hrow, hp, hn, hleast, (h.once taskId rfl).1, fun id' hne => ?_⟩
    exact h.others id' fun he => hne (Option.some.inj he).symm

/-- One worker follows the retry law, leaves settled rows alone, and does one task in a pass. -/
theorem retryLaw (maxRetries : Int) (t₀ : ℚ) {l : List (QueueState Unit × QueueStep Unit)}
    {s : QueueState Unit} (h : Run (step maxRetries) { start with clock := t₀ } l s)
    (ho : ∀ x ∈ l, Ordinary x.1 x.2) :
    RetryLaw maxRetries s ∧
    (∀ l' s', Run (step maxRetries) s l' s' → (∀ x ∈ l', Ordinary x.1 x.2) →
      ∀ taskId task, s.table.row? taskId = some task → task.status = .done ∨ task.status = .dead →
        s'.table.row? taskId = some task) ∧
    ∀ now rest s', Run (step maxRetries) s ((s, ⟨now, .select ()⟩) :: rest) s' →
      (∀ x ∈ rest, Ordinary x.1 x.2 ∧ x.2.action ≠ .select ()) → OnePass s now s' := by
  have hlaw : Law maxRetries s := h.invariant (law_start maxRetries t₀) fun x hx _ hx' hstep =>
    law_step hx' hstep (ho x hx)
  refine ⟨hlaw.obeyed, fun l' s' h' ho' taskId task hrow hd => ?_, fun now rest s' h' hrest => ?_⟩
  · refine (h'.invariant (I := fun u => Law maxRetries u ∧ u.table.row? taskId = some task)
      ⟨hlaw, hrow⟩ fun x hx u hx' hstep => ?_).2
    exact ⟨law_step hx'.1 hstep (ho' x hx), settled_step hx'.1 hstep hx'.2 hd⟩
  · obtain ⟨-, u, hstep, hrun⟩ := h'.cons_inv
    refine onePass_of_inPass (hrun.invariant (inPass_select hstep) fun x hx v hx' hstep' => ?_)
    exact inPass_step hx' hstep' (hrest x hx).1 (hrest x hx).2

/-- A task that is enqueued and selected. -/
theorem retryLaw_select : ∃ (l : List (QueueState Unit × QueueStep Unit)) (s : QueueState Unit),
    l.map Prod.snd = [⟨1, .enqueue [] [] []⟩, ⟨2, .select ()⟩] ∧
      Run (step 3) { start with clock := 0 } l s ∧ RetryLaw 3 s := by
  have h := Run.of_foldlM (step 3) { start with clock := 0 }
    [⟨1, .enqueue [] [] []⟩, ⟨2, .select ()⟩] rfl
  refine ⟨_, _, rfl, h, (retryLaw 3 0 h fun x hx => ?_).1⟩
  have hmem : x ∈ [(_, _), (_, _)] := hx
  simp only [List.mem_cons, List.not_mem_nil, or_false] at hmem
  rcases hmem with rfl | rfl
  · exact ⟨by decide, by simp⟩
  · exact ⟨by decide, by simp⟩

end SQLiteTaskQueue

end Sovereign
