import Sovereign.TaskQueue

namespace Sovereign
set_option autoImplicit true

/-- The row is pending, and once it is due a pass finds it unless it finds one before it. -/
def TaskTable.Selectable (t : TaskTable) (taskId : Nat) (task : Task) : Prop :=
  task.status = .pending ∧ ∀ now, task.nextRun ≤ now →
    ∃ id' task', t.selectDue now = some (id', task') ∧ id' ≤ taskId

/-- With no worker at work, every row is pending, done or dead, and each that is neither done nor
dead is found after a restart on the same file. -/
def NoneLost (s : QueueState W) : Prop :=
  (∀ w taskId, ¬ (s.workers w).AtWork taskId) → ∀ taskId task, s.table.row? taskId = some task →
    task.status ∈ [.pending, .done, .dead] ∧ (task.status ∉ [.done, .dead] →
      (TaskTable.initDb (some s.table)).Selectable taskId task)

theorem TaskTable.selectable_of_pending {t : TaskTable} (h : t.row? taskId = some task)
    (hp : task.status = .pending) : t.Selectable taskId task := by
  refine ⟨hp, fun now hnow => ?_⟩
  cases hsel : t.selectDue now with
  | none => exact absurd (selectDue_none hsel h hp) (not_lt.2 hnow)
  | some row =>
    obtain ⟨-, -, -, hleast⟩ := selectDue_some hsel
    exact ⟨row.1, row.2, rfl, hleast taskId task h hp hnow⟩

namespace SQLiteTaskQueue

variable {W : Type} [DecidableEq W]

/-- No process stops and no `SystemExit` ends the thread while its worker is at work. -/
def Undisturbed (s : QueueState W) (x : QueueStep W) : Prop :=
  ∀ w, x.action = .halt w ∨ x.action = .abort w → ∀ taskId, ¬ (s.workers w).AtWork taskId

/-- A row that is running has a worker at work on it. -/
def Attended (s : QueueState W) : Prop :=
  ∀ taskId, s.table.status? taskId = some .running → ∃ w, (s.workers w).AtWork taskId

omit [DecidableEq W] in
theorem attended_start : Attended (start : QueueState W) := by
  intro taskId h
  cases h

theorem attended_setWorker {s : QueueState W} (h : Attended s) {pc : WorkerPc}
    (hwork : ∀ taskId, (s.workers w).AtWork taskId → pc.AtWork taskId) (now : ℚ)
    (history : List TaskEvent) :
    Attended { s with clock := now, workers := Function.update s.workers w pc, history } := by
  intro taskId hr
  obtain ⟨v, hv⟩ := h taskId hr
  refine ⟨v, ?_⟩
  by_cases hvw : v = w
  · subst hvw
    simp only [Function.update_self]
    exact hwork taskId hv
  · simpa only [Function.update_of_ne hvw] using hv

theorem attended_step {s : QueueState W} (hs : Attended s) (h : step maxRetries s x = some s')
    (hu : Undisturbed s x) : Attended s' := by
  obtain ⟨now, action⟩ := x
  cases step_cases h with
  | enqueue =>
    intro taskId hr
    rw [TaskTable.status?_insert] at hr
    split at hr
    · cases hr
    · exact hs taskId hr
  | selectNone hw hsel => exact hs
  | select hw hsel =>
    refine attended_setWorker hs (fun taskId hwork => ?_) now _
    rw [hw] at hwork
    exact absurd hwork atWork_idle
  | @claim w id task hw =>
    intro taskId hr
    by_cases hne : taskId = id
    · subst hne
      exact ⟨w, by simp⟩
    · rw [TaskTable.status?_update_of_ne _ hne] at hr
      obtain ⟨v, hv⟩ := hs taskId hr
      have hvw : v ≠ w := by
        rintro rfl
        rw [hw] at hv
        exact atWork_selected hv
      exact ⟨v, by simpa only [Function.update_of_ne hvw] using hv⟩
  | finish hw =>
    refine attended_setWorker hs (fun taskId hwork => ?_) now _
    rw [hw] at hwork
    exact hwork
  | @settle w id task result hw =>
    intro taskId hr
    have hne : taskId ≠ id := by
      rintro rfl
      rw [TaskTable.status?_update_self] at hr
      obtain ⟨row, -, hrow⟩ := Option.map_eq_some_iff.1 hr
      exact settleRow_status maxRetries now task result row hrow
    rw [TaskTable.status?_update_of_ne _ hne] at hr
    obtain ⟨v, hv⟩ := hs taskId hr
    have hvw : v ≠ w := by
      rintro rfl
      rw [hw] at hv
      exact hne hv.symm
    exact ⟨v, by simpa only [Function.update_of_ne hvw] using hv⟩
  | abort hw =>
    exact attended_setWorker hs (fun taskId hwork => absurd hwork (hu _ (.inr rfl) taskId)) now _
  | halt =>
    exact attended_setWorker hs (fun taskId hwork => absurd hwork (hu _ (.inl rfl) taskId)) now _
  | init => exact hs

omit [DecidableEq W] in
theorem noneLost_of_attended {s : QueueState W} (h : Attended s) : NoneLost s := by
  intro hidle taskId task hrow
  have hr : task.status ≠ .running := by
    intro hr
    obtain ⟨w, hw⟩ := h taskId (by rw [TaskTable.status?, hrow, Option.map_some, hr])
    exact hidle w taskId hw
  refine ⟨?_, fun hnot => ?_⟩
  · cases hs : task.status <;> simp_all
  · refine TaskTable.selectable_of_pending hrow ?_
    cases hs : task.status <;> simp_all

/-- No task is lost in a run in which no worker is disturbed at its work. -/
theorem noneLost_of_undisturbed (maxRetries : Int) {l : List (QueueState W × QueueStep W)}
    {s : QueueState W} (h : Run (step maxRetries) start l s)
    (hu : ∀ x ∈ l, Undisturbed x.1 x.2) : NoneLost s :=
  noneLost_of_attended (h.invariant attended_start fun x hx _ ht hstep =>
    attended_step ht hstep (hu x hx))

theorem noneLost_of_undisturbed_unit :
    ∃ (l : List (QueueState Unit × QueueStep Unit)) (s : QueueState Unit),
      l.map Prod.snd = [⟨0, .enqueue [] [] []⟩, ⟨0, .select ()⟩] ∧
      Run (step 3) start l s ∧ NoneLost s := by
  have h := Run.of_foldlM (step 3) (start : QueueState Unit)
    [⟨0, .enqueue [] [] []⟩, ⟨0, .select ()⟩] rfl
  refine ⟨_, _, rfl, h, noneLost_of_undisturbed 3 h fun x hx w hx' => ?_⟩
  have hmem : x ∈ [(_, _), (_, _)] := hx
  simp only [List.mem_cons, List.not_mem_nil, or_false] at hmem
  rcases hmem with rfl | rfl <;> simp at hx'

/-- The process stops after the `UPDATE` to running. -/
theorem not_noneLost_of_halt :
    ∃ (l : List (QueueState Unit × QueueStep Unit)) (s : QueueState Unit),
      l.map Prod.snd = [⟨0, .enqueue [] [] []⟩, ⟨0, .select ()⟩, ⟨0, .claim ()⟩, ⟨0, .halt ()⟩] ∧
      Run (step 3) start l s ∧ ¬ NoneLost s := by
  have h := Run.of_foldlM (step 3) (start : QueueState Unit)
    [⟨0, .enqueue [] [] []⟩, ⟨0, .select ()⟩, ⟨0, .claim ()⟩, ⟨0, .halt ()⟩] rfl
  refine ⟨_, _, rfl, h, fun hn => ?_⟩
  obtain ⟨hs, -⟩ := hn (fun w taskId hw => hw) 1 _ rfl
  revert hs
  decide

/-- A row that is running, and that no worker is at work on or has selected. -/
def Stranded (s : QueueState W) (taskId : Nat) : Prop :=
  s.table.status? taskId = some .running ∧
    ∀ w, ¬ (s.workers w).AtWork taskId ∧ ∀ task, s.workers w ≠ .selected taskId task

theorem stranded_setWorker {s : QueueState W} (h : Stranded s taskId) {pc : WorkerPc}
    (hwork : ¬ pc.AtWork taskId) (hsel : ∀ task, pc ≠ .selected taskId task) :
    ∀ v, ¬ (Function.update s.workers w pc v).AtWork taskId ∧
      ∀ task, Function.update s.workers w pc v ≠ .selected taskId task := by
  intro v
  by_cases hvw : v = w
  · subst hvw
    rw [Function.update_self]
    exact ⟨hwork, hsel⟩
  · rw [Function.update_of_ne hvw]
    exact h.2 v

theorem stranded_step {s : QueueState W} (hs : Stranded s taskId)
    (h : step maxRetries s x = some s') : Stranded s' taskId := by
  obtain ⟨now, action⟩ := x
  cases step_cases h with
  | enqueue =>
    have hle := TaskTable.status?_le hs.1
    refine ⟨?_, hs.2⟩
    rw [TaskTable.status?_insert, if_neg (by omega), hs.1]
  | selectNone hw hsel => exact hs
  | @select w id task hw hsel =>
    refine ⟨hs.1, stranded_setWorker hs atWork_selected fun task' he => ?_⟩
    cases he
    obtain ⟨hrow, hp, -⟩ := TaskTable.selectDue_some hsel
    have hr := hs.1
    rw [TaskTable.status?, hrow, Option.map_some, hp] at hr
    cases hr
  | @claim w id task hw =>
    have hne : taskId ≠ id := by
      rintro rfl
      exact (hs.2 w).2 task hw
    refine ⟨?_, stranded_setWorker hs (fun he => hne he.symm) (fun _ he => by cases he)⟩
    rw [TaskTable.status?_update_of_ne _ hne]
    exact hs.1
  | @finish w id task result hw =>
    have hne : id ≠ taskId := by
      rintro rfl
      exact (hs.2 w).1 (by rw [hw]; rfl)
    exact ⟨hs.1, stranded_setWorker hs hne (fun _ he => by cases he)⟩
  | @settle w id task result hw =>
    have hne : taskId ≠ id := by
      rintro rfl
      exact (hs.2 w).1 (by rw [hw]; rfl)
    refine ⟨?_, stranded_setWorker hs atWork_idle (fun _ he => by cases he)⟩
    rw [TaskTable.status?_update_of_ne _ hne]
    exact hs.1
  | abort hw => exact ⟨hs.1, stranded_setWorker hs atWork_idle (fun _ he => by cases he)⟩
  | halt => exact ⟨hs.1, stranded_setWorker hs atWork_idle (fun _ he => by cases he)⟩
  | init => exact hs

/-- Nothing that the code does takes up a stranded task again. -/
theorem not_noneLost_of_stranded {s : QueueState W} (hs : Stranded s taskId)
    (h : Run (step maxRetries) s l t) (hidle : ∀ w id', ¬ (t.workers w).AtWork id') :
    ¬ NoneLost t := by
  have ht : Stranded t taskId :=
    h.invariant (I := fun s => Stranded s taskId) hs fun _ _ _ hx hstep => stranded_step hx hstep
  obtain ⟨task, hrow, hr⟩ := TaskTable.row?_of_status? ht.1
  intro hn
  obtain ⟨hmem, -⟩ := hn hidle taskId task hrow
  rw [hr] at hmem
  revert hmem
  decide

end SQLiteTaskQueue

end Sovereign
