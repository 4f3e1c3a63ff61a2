import Sovereign.JsonReader
import Sovereign.TaskQueue

namespace Sovereign
set_option autoImplicit true

/-! The arguments of a persistent task, from `enqueue` to the call in `run_once`. -/

namespace SQLiteTaskQueue

/-- The action of `enqueue(func, *args, **kwargs)`, where the function has this name. -/
def enqueueCall (R : OrmRuntime κ φ) (func : Str) (args : List (DataValue κ φ))
    (kwargs : Dict Str (DataValue κ φ)) : Except PyError (QueueAction W) := do
  let args ← R.asciiDumps (.container .tuple args)
  let kwargs ← R.asciiDumps (.dict (kwargs.entries.map fun e => (.str e.1, e.2)))
  return .enqueue func args kwargs

/-- `json.loads(args_json)` and `json.loads(kwargs_json)` -/
def loadedArguments (R : OrmRuntime κ φ) (task : Task) :
    Except PyError (DataValue κ φ × DataValue κ φ) := do
  let args ← R.jsonLoads task.args
  let kwargs ← R.jsonLoads task.kwargs
  return (args, kwargs)

/-- The row that a worker has fetched. -/
def fetched : WorkerPc → Option (Nat × Task)
  | .idle => none
  | .selected id task => some (id, task)
  | .executing id task => some (id, task)
  | .ended id task _ => some (id, task)

variable {W : Type} [DecidableEq W]

/-- One of the steps has enqueued the task under this number. -/
def Enqueued (l : List (QueueState W × QueueStep W)) (id : Nat) (task : Task) : Prop :=
  ∃ x ∈ l, x.2.action = .enqueue task.func task.args task.kwargs ∧ id = x.1.table.lastId + 1

/-- Rows, and what workers have fetched of them, have what was enqueued. -/
structure Kept (l : List (QueueState W × QueueStep W)) (s : QueueState W) : Prop where
  rows : ∀ id task, s.table.row? id = some task → Enqueued l id task
  workers : ∀ w id task, fetched (s.workers w) = some (id, task) → Enqueued l id task

omit [DecidableEq W] in
theorem Enqueued.mono {l : List (QueueState W × QueueStep W)} (h : Enqueued l taskId task)
    (x : QueueState W × QueueStep W) : Enqueued (l ++ [x]) taskId task := by
  obtain ⟨y, hy, h⟩ := h
  exact ⟨y, List.mem_append_left _ hy, h⟩

omit [DecidableEq W] in
/-- An update that leaves the call as it is. -/
theorem Kept.update {l : List (QueueState W × QueueStep W)} {s : QueueState W} {f : Task → Task}
    (h : Kept l s)
    (hf : ∀ task, (f task).func = task.func ∧ (f task).args = task.args ∧
      (f task).kwargs = task.kwargs) (taskId : Nat) :
    ∀ id task, (s.table.update taskId f).row? id = some task → Enqueued l id task := by
  intro id task hrow
  rw [TaskTable.row?_update] at hrow
  split at hrow
  · next heq =>
    obtain ⟨row, hold, rfl⟩ := Option.map_eq_some_iff.1 hrow
    obtain ⟨x, hx, haction, hid⟩ := h.rows taskId row hold
    obtain ⟨hfunc, hargs, hkwargs⟩ := hf row
    refine ⟨x, hx, ?_, heq.trans hid⟩
    rw [haction, hfunc, hargs, hkwargs]
  · exact h.rows id task hrow

/-- What one worker fetches, and what the others have fetched before. -/
theorem Kept.become {l : List (QueueState W × QueueStep W)} {s : QueueState W} (h : Kept l s)
    (w : W) {pc : WorkerPc} (hpc : ∀ id task, fetched pc = some (id, task) → Enqueued l id task) :
    ∀ w' id task, fetched (Function.update s.workers w pc w') = some (id, task) →
      Enqueued l id task := by
  intro w' id task hfetched
  by_cases hw : w' = w
  · rw [hw, Function.update_self] at hfetched
    exact hpc id task hfetched
  · rw [Function.update_of_ne hw] at hfetched
    exact h.workers w' id task hfetched

theorem settleRow_call (maxRetries : Int) (now : ℚ) (fetched : Task) (result : Except Str Unit)
    (task : Task) :
    (settleRow maxRetries now fetched result task).func = task.func ∧
      (settleRow maxRetries now fetched result task).args = task.args ∧
      (settleRow maxRetries now fetched result task).kwargs = task.kwargs := by
  cases result with
  | ok => exact ⟨rfl, rfl, rfl⟩
  | error => exact ⟨rfl, rfl, rfl⟩

theorem Kept.step {l : List (QueueState W × QueueStep W)} {s s' : QueueState W} {x : QueueStep W}
    (h : Kept l s) (hstep : step maxRetries s x = some s') : Kept (l ++ [(s, x)]) s' := by
  have hidle : ∀ id task, fetched .idle = some (id, task) → Enqueued l id task :=
    fun id task h => by cases h
  have hrows : ∀ id task, s.table.row? id = some task → Enqueued (l ++ [(s, x)]) id task :=
    fun id task hrow => (h.rows id task hrow).mono _
  have hworkers : ∀ w id task, fetched (s.workers w) = some (id, task) →
      Enqueued (l ++ [(s, x)]) id task := fun w id task hw => (h.workers w id task hw).mono _
  have hcases := step_cases hstep
  generalize haction : x.action = action at hcases
  cases hcases with
  | enqueue =>
    refine ⟨fun id task hrow => ?_, hworkers⟩
    rw [TaskTable.row?_insert] at hrow
    split at hrow
    · next hid =>
      cases hrow
      exact ⟨_, List.mem_append_right _ List.mem_cons_self, haction, hid⟩
    · exact hrows id task hrow
  | selectNone => exact ⟨hrows, hworkers⟩
  | @select w taskId task hw hsel =>
    have hrow := (TaskTable.selectDue_some hsel).1
    refine ⟨hrows, fun w' id task hfetched => (h.become w ?_ w' id task hfetched).mono _⟩
    intro id' task' heq
    cases heq
    exact h.rows _ _ hrow
  | @claim w taskId task hw =>
    have hkept := h.update (f := fun row => { row with status := .running })
      (fun _ => ⟨rfl, rfl, rfl⟩) taskId
    refine ⟨fun id task hrow => (hkept id task hrow).mono _,
      fun w' id task hfetched => (h.become w ?_ w' id task hfetched).mono _⟩
    intro id' task' heq
    exact h.workers w id' task' (by rw [hw]; exact heq)
  | @finish w taskId task result hw =>
    refine ⟨hrows, fun w' id task hfetched => (h.become w ?_ w' id task hfetched).mono _⟩
    intro id' task' heq
    exact h.workers w id' task' (by rw [hw]; exact heq)
  | @settle w taskId task result hw =>
    exact ⟨fun id row hrow => (h.update (settleRow_call _ _ _ _) taskId id row hrow).mono _,
      fun w' id row hfetched => (h.become w hidle w' id row hfetched).mono _⟩
  | @abort w =>
    exact ⟨hrows, fun w' id row hfetched => (h.become w hidle w' id row hfetched).mono _⟩
  | @halt w =>
    exact ⟨hrows, fun w' id row hfetched => (h.become w hidle w' id row hfetched).mono _⟩
  | init => exact ⟨hrows, hworkers⟩

theorem kept_of_run {l : List (QueueState W × QueueStep W)} {s : QueueState W}
    (hrun : Run (step maxRetries) start l s) : Kept l s := by
  induction hrun with
  | nil =>
    refine ⟨fun id task h => ?_, fun w id task h => by cases h⟩
    cases h
  | snoc _ hstep ih => exact ih.step hstep

/-- The copies of the arguments of a call. -/
def CopiesOf (R : OrmRuntime κ φ) (args : List (DataValue κ φ)) (kwargs : Dict Str (DataValue κ φ))
    (loaded : DataValue κ φ × DataValue κ φ) : Prop :=
  ∃ items entries, loaded = (.container .list items, .dict entries) ∧
    List.Forall₂ (fun v copy => R.jsonCopy v = .ok copy) args items ∧
    List.Forall₂ (fun e copy => .str e.1 = copy.1 ∧ R.jsonCopy e.2 = .ok copy.2) kwargs.entries
      entries

theorem toJson_tuple {R : OrmRuntime κ φ} {args : List (DataValue κ φ)}
    (h : R.toJson (.container .tuple args) = .ok d) :
    ∃ copies, d.lastKeys = .container .list copies ∧
      List.Forall₂ (fun v copy => R.jsonCopy v = .ok copy) args copies := by
  rw [OrmRuntime.toJson] at h
  obtain ⟨ds, hds, rfl⟩ := except_map_eq_ok.1 h
  refine ⟨ds.map DataValue.lastKeys, ?_, ?_⟩
  · rw [DataValue.lastKeys, DataValue.lastKeysItems_eq]
  · rw [List.forall₂_map_right_iff]
    exact (OrmRuntime.toJsonItems_ok.1 hds).imp fun v d hd =>
      OrmRuntime.jsonCopy_eq_ok.2 ⟨d, hd, rfl⟩

theorem toJson_keywords {R : OrmRuntime κ φ} {kwargs : Dict Str (DataValue κ φ)}
    (h : R.toJson (.dict (kwargs.entries.map fun e => (.str e.1, e.2))) = .ok d) :
    ∃ copies, d.lastKeys = .dict copies ∧
      List.Forall₂ (fun e copy => .str e.1 = copy.1 ∧ R.jsonCopy e.2 = .ok copy.2) kwargs.entries
        copies := by
  rw [OrmRuntime.toJson] at h
  obtain ⟨ds, hds, rfl⟩ := except_map_eq_ok.1 h
  have hpairs : List.Forall₂ (fun e d => .str e.1 = d.1 ∧ R.toJson e.2 = .ok d.2) kwargs.entries
      ds := by
    have hentries := OrmRuntime.toJsonEntries_ok.1 hds
    rw [List.forall₂_map_left_iff] at hentries
    refine hentries.imp fun e d he => ?_
    obtain ⟨⟨text, htext, hkey⟩, hvalue⟩ := he
    cases htext
    exact ⟨hkey.symm, hvalue⟩
  have hkeys : (kwargs.entries.map fun e => (.str e.1 : DataValue κ φ)) = ds.map Prod.fst := by
    rw [← List.forall₂_eq_eq_eq, List.forall₂_map_left_iff, List.forall₂_map_right_iff]
    exact hpairs.imp fun e d he => he.1
  have hnodup : (ds.map Prod.fst).Nodup := by
    have hnames := OrmRuntime.nodup_names (κ := κ) (φ := φ) kwargs.nodup
    rw [List.map_map] at hnames
    rw [← hkeys]
    exact hnames
  have hstr : ∀ k ∈ ds.map Prod.fst, ∃ s, k = .str s := by
    rw [← hkeys]
    exact List.forall_mem_map.2 fun e _ => ⟨e.1, rfl⟩
  refine ⟨ds.map fun d => (d.1, d.2.lastKeys), ?_, ?_⟩
  · rw [DataValue.lastKeys, DataValue.lastKeysEntries_eq, dictOf_of_pairwise]
    rw [List.map_map]
    exact (OrmRuntime.pairwise_keys hstr).2 hnodup
  · rw [List.forall₂_map_right_iff]
    exact hpairs.imp fun e d he => ⟨he.1, OrmRuntime.jsonCopy_eq_ok.2 ⟨d.2, he.2, rfl⟩⟩

omit [DecidableEq W] in
theorem enqueueCall_loaded {R : OrmRuntime κ φ} (hR : R.ReadsFloats)
    (h : enqueueCall (W := W) R func args kwargs = .ok action) :
    ∃ argsText kwargsText, action = .enqueue func argsText kwargsText ∧
      ∀ task : Task, task.args = argsText → task.kwargs = kwargsText →
        ∃ loaded, loadedArguments R task = .ok loaded ∧ CopiesOf R args kwargs loaded := by
  obtain ⟨argsText, hargs, h⟩ := except_bind_eq_ok.1 h
  obtain ⟨kwargsText, hkwargs, h⟩ := except_bind_eq_ok.1 h
  cases h
  refine ⟨argsText, kwargsText, rfl, fun task htask htask' => ?_⟩
  obtain ⟨d, hd, hload⟩ := OrmRuntime.jsonLoads_asciiDumps hR hargs
  obtain ⟨d', hd', hload'⟩ := OrmRuntime.jsonLoads_asciiDumps hR hkwargs
  obtain ⟨copies, hcopies, hitems⟩ := toJson_tuple hd
  obtain ⟨entries, hentries, hpairs⟩ := toJson_keywords hd'
  refine ⟨(d.lastKeys, d'.lastKeys), ?_, copies, entries, by rw [hcopies, hentries], hitems, hpairs⟩
  rw [loadedArguments, htask, htask', hload, hload']
  rfl

/-- In every run of any workers, a task is executed with copies of the arguments that were given to
the call of `enqueue` it comes from. -/
theorem executed_arguments (R : OrmRuntime κ φ) (hR : R.ReadsFloats) (maxRetries : Int)
    (l : List (QueueState W × QueueStep W)) (s : QueueState W)
    (hrun : Run (step maxRetries) start l s)
    (hcalls : ∀ x ∈ l, ∀ func args kwargs, x.2.action = .enqueue func args kwargs →
      ∃ args kwargs, enqueueCall R func args kwargs = .ok x.2.action)
    (w : W) (id : Nat) (task : Task) (hw : s.workers w = .executing id task) :
    ∃ x ∈ l, ∃ args kwargs loaded, id = x.1.table.lastId + 1 ∧
      enqueueCall R task.func args kwargs = .ok x.2.action ∧
      loadedArguments R task = .ok loaded ∧ CopiesOf R args kwargs loaded := by
  obtain ⟨x, hx, haction, hid⟩ := (kept_of_run hrun).workers w id task (by rw [hw]; rfl)
  obtain ⟨args, kwargs, hcall⟩ := hcalls x hx _ _ _ haction
  obtain ⟨argsText, kwargsText, heq, hload⟩ := enqueueCall_loaded hR hcall
  rw [haction] at heq
  cases heq
  obtain ⟨loaded, hloaded, hcopies⟩ := hload task rfl rfl
  exact ⟨x, hx, args, kwargs, loaded, hid, hcall, hloaded, hcopies⟩

/-- A task is enqueued, fetched and executed. -/
def notifySteps : List (QueueStep Unit) :=
  [⟨0, .enqueue "app:notify".toList "[0.5, \"\\u00e4\"]".toList "\x7b\"n\": 1\x7d".toList⟩,
    ⟨1, .select ()⟩, ⟨1, .claim ()⟩]

def notifyTask : Task where
  func := "app:notify".toList
  args := "[0.5, \"\\u00e4\"]".toList
  kwargs := "\x7b\"n\": 1\x7d".toList
  nextRun := 0

theorem notify_call : enqueueCall starRuntime notifyTask.func [.float false, .str "ä".toList]
    ((∅ : Dict Str (DataValue Unit Bool)).set "n".toList (.int 1)) =
      .ok (.enqueue notifyTask.func notifyTask.args notifyTask.kwargs : QueueAction Unit) := rfl

theorem executed_arguments_notify :
    ∃ x ∈ Run.trace (step 3) start notifySteps, ∃ args kwargs loaded,
      1 = x.1.table.lastId + 1 ∧
      enqueueCall starRuntime notifyTask.func args kwargs = .ok x.2.action ∧
      loadedArguments starRuntime notifyTask = .ok loaded ∧
      CopiesOf starRuntime args kwargs loaded := by
  have hrun : Run (step 3) start (Run.trace (step 3) start notifySteps) _ :=
    Run.of_foldlM (step 3) start notifySteps rfl
  refine executed_arguments starRuntime starRuntime_floats 3 _ _ hrun ?_ () 1 notifyTask rfl
  intro x hx func args kwargs haction
  have hmem := Run.mem_of_mem_trace hx
  simp only [notifySteps, List.mem_cons, List.not_mem_nil, or_false] at hmem
  obtain heq | heq | heq := hmem
  · rw [heq] at haction ⊢
    cases haction
    exact ⟨_, _, notify_call⟩
  · rw [heq] at haction
    cases haction
  · rw [heq] at haction
    cases haction

end SQLiteTaskQueue

end Sovereign
