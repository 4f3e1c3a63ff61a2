import Sovereign.Lib.History
import Sovereign.TaskQueue

namespace Sovereign
set_option autoImplicit true

def TaskEvent.Starts (taskId : Nat) (e : TaskEvent) : Prop := ∃ time, e = .started taskId time

/-- Between two executions of the function of a task its row has gone from running back to
pending. -/
def NoDoubleExecution (history : List TaskEvent) : Prop :=
  ∀ taskId, History.Separated (TaskEvent.Starts taskId) (· = .requeued taskId) history

/-- An execution of the task has begun since its row last went back to pending. -/
def Attempted (history : List TaskEvent) (taskId : Nat) : Prop :=
  History.Open (TaskEvent.Starts taskId) (· = .requeued taskId) history

theorem not_attempted_nil : ¬ Attempted [] taskId := History.not_open_nil

theorem attempted_started {h : List TaskEvent} :
    Attempted (h ++ [.started taskId t]) id' ↔ id' = taskId ∨ Attempted h id' := by
  rw [Attempted, History.open_concat]
  simp [TaskEvent.Starts, Attempted, eq_comm]

theorem attempted_requeued {h : List TaskEvent} :
    Attempted (h ++ [.requeued taskId]) id' ↔ Attempted h id' ∧ id' ≠ taskId := by
  rw [Attempted, History.open_concat]
  simp [TaskEvent.Starts, Attempted, eq_comm]

theorem attempted_outcome {h : List TaskEvent} {result : Except Str Unit} :
    Attempted (h ++ [match result with
      | .ok () => .returned taskId t
      | .error _ => .raised taskId t]) id' ↔ Attempted h id' := by
  rw [Attempted, History.open_concat]
  cases result <;> simp [TaskEvent.Starts, Attempted]

theorem noDoubleExecution_nil : NoDoubleExecution [] := fun _ => History.separated_nil

theorem noDoubleExecution_started {h : List TaskEvent} :
    NoDoubleExecution (h ++ [.started taskId t]) ↔
      NoDoubleExecution h ∧ ¬ Attempted h taskId := by
  simp only [NoDoubleExecution, History.separated_concat, forall_and]
  refine and_congr_right fun _ => ⟨fun h' => h' taskId ⟨t, rfl⟩, fun h' id' hs => ?_⟩
  obtain ⟨t', he⟩ := hs
  cases he
  exact h'

theorem noDoubleExecution_requeued {h : List TaskEvent} :
    NoDoubleExecution (h ++ [.requeued taskId]) ↔ NoDoubleExecution h := by
  simp [NoDoubleExecution, History.separated_concat, TaskEvent.Starts]

theorem noDoubleExecution_outcome {h : List TaskEvent} {result : Except Str Unit} :
    NoDoubleExecution (h ++ [match result with
      | .ok () => .returned taskId t
      | .error _ => .raised taskId t]) ↔ NoDoubleExecution h := by
  cases result <;> simp [NoDoubleExecution, History.separated_concat, TaskEvent.Starts]

namespace SQLiteTaskQueue

variable {W : Type} [DecidableEq W]

/-- If the step marks a row as running, it finds it pending. -/
def ClaimsPending (s : QueueState W) (x : QueueStep W) : Prop :=
  ∀ w taskId task, x.action = .claim w → s.workers w = .selected taskId task →
    s.table.status? taskId = some .pending

/-- Each row has one worker at most, and is out of the pending state from its execution on until
it is settled as such. -/
structure Exclusive (s : QueueState W) : Prop where
  running : ∀ w taskId, (s.workers w).AtWork taskId → s.table.status? taskId = some .running
  one : ∀ w w' taskId, (s.workers w).AtWork taskId → (s.workers w').AtWork taskId → w = w'
  attempted : ∀ taskId, Attempted s.history taskId ↔
    ∃ status, s.table.status? taskId = some status ∧ status ≠ .pending
  selected : ∀ w taskId task, s.workers w = .selected taskId task →
    ∃ status, s.table.status? taskId = some status
  separated : NoDoubleExecution s.history

omit [DecidableEq W] in
theorem exclusive_start : Exclusive (start : QueueState W) where
  running _ _ h := h.elim
  one _ _ _ h := h.elim
  attempted taskId := iff_of_false not_attempted_nil (by rintro ⟨_, h, -⟩; cases h)
  selected _ _ _ h := by cases h
  separated := noDoubleExecution_nil

/-- A worker that is not at work afterwards changes nothing for the others. -/
theorem exclusive_setWorker {s : QueueState W} (h : Exclusive s) {pc : WorkerPc}
    (hwork : ∀ taskId, pc.AtWork taskId → (s.workers w).AtWork taskId)
    (hsel : ∀ taskId task, pc = .selected taskId task → ∃ status,
    s.table.status? taskId = some status)
    (hatt : ∀ taskId, Attempted history taskId ↔ Attempted s.history taskId)
    (hsep : NoDoubleExecution history) (now : ℚ) :
    Exclusive { s with clock := now, workers := Function.update s.workers w pc, history } := by
  have hold : ∀ v taskId, (Function.update s.workers w pc v).AtWork taskId →
      (s.workers v).AtWork taskId := by
    intro v taskId hv
    by_cases hvw : v = w
    · subst hvw
      simp only [Function.update_self] at hv
      exact hwork taskId hv
    · rwa [Function.update_of_ne hvw] at hv
  constructor
  · intro v taskId hv
    exact h.running v taskId (hold v taskId hv)
  · intro v v' taskId hv hv'
    exact h.one v v' taskId (hold v taskId hv) (hold v' taskId hv')
  · intro taskId
    rw [hatt taskId]
    exact h.attempted taskId
  · intro v taskId task hv
    by_cases hvw : v = w
    · subst hvw
      simp only [Function.update_self] at hv
      exact hsel taskId task hv
    · simp only [Function.update_of_ne hvw] at hv
      exact h.selected v taskId task hv
  · exact hsep

theorem exclusive_claim {s : QueueState W} (h : Exclusive s)
    (hw : s.workers w = .selected taskId task) (hp : s.table.status? taskId = some .pending)
    (now : ℚ) :
    Exclusive { s with
      clock := now
      table := s.table.update taskId fun row => { row with status := .running }
      workers := Function.update s.workers w (.executing taskId task)
      history := s.history ++ [.started taskId now] } := by
  have hnone : ∀ v, ¬ (s.workers v).AtWork taskId := by
    intro v hv
    rw [h.running v taskId hv] at hp
    cases hp
  have hself : (s.table.update taskId fun row => { row with status := .running }).status? taskId =
      some .running := by
    obtain ⟨row, hrow, -⟩ := TaskTable.row?_of_status? hp
    rw [TaskTable.status?_update_self, hrow]
    rfl
  constructor
  · intro v id' hv
    by_cases hvw : v = w
    · subst hvw
      simp only [Function.update_self, atWork_executing] at hv
      subst hv
      exact hself
    · simp only [Function.update_of_ne hvw] at hv
      have hne : id' ≠ taskId := by
        rintro rfl
        exact hnone v hv
      rw [TaskTable.status?_update_of_ne _ hne]
      exact h.running v id' hv
  · intro v v' id' hv hv'
    by_cases hvw : v = w
    · subst hvw
      by_cases hvw' : v' = v
      · exact hvw'.symm
      · simp only [Function.update_self, atWork_executing] at hv
        simp only [Function.update_of_ne hvw', ← hv] at hv'
        exact absurd hv' (hnone v')
    · by_cases hvw' : v' = w
      · subst hvw'
        simp only [Function.update_self, atWork_executing] at hv'
        simp only [Function.update_of_ne hvw, ← hv'] at hv
        exact absurd hv (hnone v)
      · simp only [Function.update_of_ne hvw] at hv
        simp only [Function.update_of_ne hvw'] at hv'
        exact h.one v v' id' hv hv'
  · intro id'
    rw [attempted_started]
    by_cases hne : id' = taskId
    · subst hne
      exact iff_of_true (.inl rfl) ⟨_, hself, by decide⟩
    · rw [TaskTable.status?_update_of_ne _ hne, ← h.attempted id']
      exact ⟨fun h' => h'.resolve_left hne, .inr⟩
  · intro v id' task' hv
    by_cases hvw : v = w
    · subst hvw
      simp only [Function.update_self] at hv
      cases hv
    · simp only [Function.update_of_ne hvw] at hv
      by_cases hne : id' = taskId
      · subst hne
        exact ⟨_, hself⟩
      · rw [TaskTable.status?_update_of_ne _ hne]
        exact h.selected v id' task' hv
  · rw [noDoubleExecution_started]
    refine ⟨h.separated, fun hatt => ?_⟩
    obtain ⟨status, hs, hne⟩ := (h.attempted taskId).1 hatt
    rw [hp] at hs
    cases hs
    exact hne rfl

omit [DecidableEq W] in
theorem requeues_iff {s : QueueState W} (hr : s.table.status? taskId = some .running) :
    requeues s.table taskId table = true ↔ table.status? taskId = some .pending := by
  rw [requeues, decide_eq_true_iff]
  exact ⟨And.right, fun h => ⟨hr, h⟩⟩

theorem exclusive_settle {s : QueueState W} (h : Exclusive s)
    (hw : s.workers w = .ended taskId task result) (maxRetries : Int) (now : ℚ) :
    Exclusive { s with
      clock := now
      table := s.table.update taskId (settleRow maxRetries now task result)
      workers := Function.update s.workers w .idle
      history := s.history ++
        if requeues s.table taskId
            (s.table.update taskId (settleRow maxRetries now task result)) then
          [.requeued taskId]
        else [] } := by
  have hwork : (s.workers w).AtWork taskId := by rw [hw]; rfl
  have hr := h.running w taskId hwork
  obtain ⟨row, hrow, -⟩ := TaskTable.row?_of_status? hr
  have hself := TaskTable.status?_update_self s.table taskId (settleRow maxRetries now task result)
  rw [hrow, Option.map_some] at hself
  have hother : ∀ v id', (Function.update s.workers w .idle v).AtWork id' →
      (s.workers v).AtWork id' ∧ id' ≠ taskId := by
    intro v id' hv
    by_cases hvw : v = w
    · rw [hvw, Function.update_self] at hv
      exact hv.elim
    · rw [Function.update_of_ne hvw] at hv
      refine ⟨hv, ?_⟩
      rintro rfl
      exact hvw (h.one v w id' hv hwork)
  constructor
  · intro v id' hv
    obtain ⟨hv, hne⟩ := hother v id' hv
    rw [TaskTable.status?_update_of_ne _ hne]
    exact h.running v id' hv
  · intro v v' id' hv hv'
    exact h.one v v' id' (hother v id' hv).1 (hother v' id' hv').1
  · intro id'
    have hatt : Attempted s.history taskId := (h.attempted taskId).2 ⟨_, hr, by decide⟩
    by_cases hne : id' = taskId
    · subst hne
      simp only [requeues_iff hr, hself, Option.some.injEq]
      split
      · next hp => simp [attempted_requeued, hp]
      · next hp => simp [hatt, hp]
    · rw [TaskTable.status?_update_of_ne _ hne, ← h.attempted id']
      split
      · rw [attempted_requeued]
        exact and_iff_left hne
      · rw [List.append_nil]
  · intro v id' task' hv
    by_cases hvw : v = w
    · simp [hvw] at hv
    · simp only [Function.update_of_ne hvw] at hv
      by_cases hne : id' = taskId
      · subst hne
        exact ⟨_, hself⟩
      · rw [TaskTable.status?_update_of_ne _ hne]
        exact h.selected v id' task' hv
  · show NoDoubleExecution _
    split
    · exact noDoubleExecution_requeued.2 h.separated
    · rw [List.append_nil]
      exact h.separated

omit [DecidableEq W] in
theorem exclusive_enqueue {s : QueueState W} (h : Exclusive s) {task : Task}
    (hp : task.status = .pending) (now : ℚ) :
    Exclusive { s with clock := now, table := s.table.insert task } := by
  have hold : ∀ id' status, s.table.status? id' = some status →
      (s.table.insert task).status? id' = some status := by
    intro id' status hs
    have hle := TaskTable.status?_le hs
    rw [TaskTable.status?_insert, if_neg (by omega), hs]
  constructor
  · exact fun v id' hv => hold id' _ (h.running v id' hv)
  · exact h.one
  · intro id'
    rw [TaskTable.status?_insert]
    split
    · next hne =>
      subst hne
      have hnone : s.table.status? (s.table.lastId + 1) = none := by
        cases hs : s.table.status? (s.table.lastId + 1) with
        | none => rfl
        | some status => exact absurd (TaskTable.status?_le hs) (by omega)
      rw [h.attempted, hnone, hp]
      simp
    · exact h.attempted id'
  · intro v id' task' hv
    obtain ⟨status, hs⟩ := h.selected v id' task' hv
    exact ⟨status, hold id' status hs⟩
  · exact h.separated

/-- A step keeps what has happened before it, so that it does not mend a double execution. -/
theorem noDoubleExecution_of_step {s : QueueState W} (h : step maxRetries s x = some s')
    (hn : NoDoubleExecution s'.history) : NoDoubleExecution s.history := by
  obtain ⟨now, action⟩ := x
  cases step_cases h with
  | claim hw => exact (noDoubleExecution_started.1 hn).1
  | finish hw => exact noDoubleExecution_outcome.1 hn
  | settle hw =>
    simp only at hn
    split at hn
    · exact noDoubleExecution_requeued.1 hn
    · rwa [List.append_nil] at hn
  | _ => exact hn

theorem exclusive_step {s : QueueState W} (hs : Exclusive s) (h : step maxRetries s x = some s')
    (hc : ClaimsPending s x) : Exclusive s' := by
  obtain ⟨now, action⟩ := x
  cases step_cases h with
  | enqueue => exact exclusive_enqueue hs rfl now
  | selectNone hw hsel => exact ⟨hs.running, hs.one, hs.attempted, hs.selected, hs.separated⟩
  | select hw hsel =>
    refine exclusive_setWorker hs (fun _ he => absurd he atWork_selected) (fun taskId task he => ?_)
      (fun _ => .rfl)
      hs.separated now
    cases he
    exact ⟨_, by rw [TaskTable.status?, (TaskTable.selectDue_some hsel).1]; rfl⟩
  | claim hw => exact exclusive_claim hs hw (hc _ _ _ rfl hw) now
  | finish hw =>
    refine exclusive_setWorker hs (fun taskId he => ?_) (fun _ _ he => by cases he)
      (fun _ => attempted_outcome) (noDoubleExecution_outcome.2 hs.separated) now
    rw [hw]
    exact he
  | settle hw => exact exclusive_settle hs hw maxRetries now
  | abort hw =>
    exact exclusive_setWorker hs (fun _ he => absurd he atWork_idle) (fun _ _ he => by cases he)
      (fun _ => .rfl)
      hs.separated now
  | halt =>
    exact exclusive_setWorker hs (fun _ he => absurd he atWork_idle) (fun _ _ he => by cases he)
      (fun _ => .rfl)
      hs.separated now
  | init => exact ⟨hs.running, hs.one, hs.attempted, hs.selected, hs.separated⟩

/-- A step that claims a row which is not pending executes its task twice. -/
theorem claimsPending_of_step {s : QueueState W} (hs : Exclusive s)
    (h : step maxRetries s x = some s') (hn : NoDoubleExecution s'.history) :
    ClaimsPending s x := by
  intro w taskId task hx hw
  obtain ⟨now, action⟩ := x
  cases hx
  have hs' : s'.history = s.history ++ [.started taskId now] := by
    simp only [step, hw, Option.some.injEq] at h
    rw [← h]
  rw [hs', noDoubleExecution_started, hs.attempted] at hn
  obtain ⟨status, hrow⟩ := hs.selected w taskId task hw
  rw [hrow]
  by_contra hne
  exact hn.2 ⟨status, hrow, fun he => hne (by rw [he])⟩

/-- No task is executed twice for one attempt, if and only if no `UPDATE` to running comes after
another worker's for the row it has selected. -/
theorem noDoubleExecution_iff_claimsPending (maxRetries : Int)
    {l : List (QueueState W × QueueStep W)}
    {s : QueueState W} (h : Run (step maxRetries) start l s) :
    NoDoubleExecution s.history ↔ ∀ x ∈ l, ClaimsPending x.1 x.2 := by
  have hrun : NoDoubleExecution s.history → Exclusive s ∧ ∀ x ∈ l, ClaimsPending x.1 x.2 := by
    induction h with
    | nil => exact fun _ => ⟨exclusive_start, by simp⟩
    | @snoc l t x u hl hstep ih =>
      intro hn
      obtain ⟨ht, hall⟩ := ih (noDoubleExecution_of_step hstep hn)
      have hx := claimsPending_of_step ht hstep hn
      refine ⟨exclusive_step ht hstep hx, fun y hy => ?_⟩
      rcases List.mem_append.1 hy with hy | hy
      · exact hall y hy
      · rwa [List.mem_singleton.1 hy]
  refine ⟨fun hn => (hrun hn).2, fun hall => ?_⟩
  exact (h.invariant exclusive_start fun x hx u ht hu =>
    exclusive_step ht hu (hall x hx)).separated

/-- A worker alone. -/
theorem noDoubleExecution_iff_claimsPending_unit :
    ∃ (l : List (QueueState Unit × QueueStep Unit)) (s : QueueState Unit),
      l.map Prod.snd = [⟨0, .enqueue [] [] []⟩, ⟨0, .select ()⟩, ⟨0, .claim ()⟩] ∧
        (NoDoubleExecution s.history ↔ ∀ x ∈ l, ClaimsPending x.1 x.2) :=
  ⟨_, _, rfl, noDoubleExecution_iff_claimsPending 3 (Run.of_foldlM _ _
    [⟨0, .enqueue [] [] []⟩, ⟨0, .select ()⟩, ⟨0, .claim ()⟩] rfl)⟩

/-- Two workers select the same row before the first of them has marked it. -/
theorem not_noDoubleExecution_of_two_selects :
    ∃ (l : List (QueueState Bool × QueueStep Bool)) (s : QueueState Bool),
      l.map Prod.snd = [⟨0, .enqueue [] [] []⟩, ⟨0, .select true⟩, ⟨0, .select false⟩,
        ⟨0, .claim true⟩, ⟨0, .claim false⟩] ∧
      Run (step 3) start l s ∧ ¬ NoDoubleExecution s.history := by
  have h := Run.of_foldlM (step 3) (start : QueueState Bool)
    [⟨0, .enqueue [] [] []⟩, ⟨0, .select true⟩, ⟨0, .select false⟩, ⟨0, .claim true⟩,
      ⟨0, .claim false⟩] rfl
  refine ⟨_, _, rfl, h, fun hn => ?_⟩
  obtain ⟨x, hx, -⟩ := hn 1 [] _ [] _ [] rfl ⟨0, rfl⟩ ⟨0, rfl⟩
  cases hx

end SQLiteTaskQueue

end Sovereign
