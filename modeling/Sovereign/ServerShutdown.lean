import Sovereign.ServerLifecycle

namespace Sovereign
set_option autoImplicit true

namespace ServerTurn

/-- A thread of the executor goes on with its work. -/
def isWork : ServerTurn ι τ → Bool
  | start | close _ | release _ | finish _ => true
  | _ => false

/-- A thread of the executor takes the turn. -/
def ByExecutor (turn : ServerTurn ι τ) : Prop :=
  turn.isWork = true ∨ ∃ client t, turn = background client t

end ServerTurn

/-- How many turns the work takes once it has begun. -/
def PoolWork.cost : PoolWork ι τ → Nat
  | handle _ => 2
  | release _ | task _ => 1

namespace ServerThreads

variable {s s' : ServerThreads ι τ}

/-- How many turns are left for the threads of the executor. -/
def remaining (s : ServerThreads ι τ) : Nat := s.executor.remaining PoolWork.cost

variable [DecidableEq ι] [DecidableEq τ]

/-- Once the executor has been shut down, its work becomes less. -/
theorem work_remaining (hshut : s.executor.shut = true) (hwork : turn.ByExecutor)
    (hstep : s.step turn = some s') :
    (if turn.isWork then 1 else 0) + s'.remaining ≤ s.remaining ∧ s'.loop = s.loop ∧
      s'.executor.shut = true := by
  cases turn with
  | start =>
    obtain ⟨executor, hstart, rfl⟩ := Option.map_eq_some_iff.1 hstep
    have hlt := ThreadPool.start_remaining PoolWork.cost hstart
    exact ⟨(Nat.add_comm _ _).trans_le hlt, rfl, (ThreadPool.start_ok hstart).1.trans hshut⟩
  | background client t =>
    change s.work (.background client t) = some s' at hstep
    rw [ServerThreads.work] at hstep
    split at hstep
    · rw [ThreadPool.submit_eq_none.2 hshut] at hstep
      cases hstep
      exact ⟨Nat.le_of_eq (Nat.zero_add _), rfl, hshut⟩
    · cases hstep
  | close client =>
    obtain ⟨executor, hproceed, rfl⟩ := Option.map_eq_some_iff.1 hstep
    have hlt := ThreadPool.proceed_remaining PoolWork.cost hproceed (Nat.lt_succ_self 1)
    exact ⟨(Nat.add_comm _ _).trans_le hlt, rfl, (ThreadPool.proceed_ok hproceed).1.trans hshut⟩
  | release client =>
    obtain ⟨executor, hproceed, rfl⟩ := Option.map_eq_some_iff.1 hstep
    have hlt := ThreadPool.proceed_remaining PoolWork.cost hproceed Nat.one_pos
    have hshut' := (ThreadPool.proceed_ok hproceed).1.trans hshut
    cases s.connectionSem.release with
    | none => exact ⟨(Nat.add_comm _ _).trans_le hlt, rfl, hshut'⟩
    | some connectionSem => exact ⟨(Nat.add_comm _ _).trans_le hlt, rfl, hshut'⟩
  | finish t =>
    obtain ⟨executor, hproceed, rfl⟩ := Option.map_eq_some_iff.1 hstep
    have hlt := ThreadPool.proceed_remaining PoolWork.cost hproceed Nat.one_pos
    exact ⟨(Nat.add_comm _ _).trans_le hlt, rfl, (ThreadPool.proceed_ok hproceed).1.trans hshut⟩
  | _ =>
    obtain hwork | ⟨_, _, hwork⟩ := hwork
    · cases hwork
    · cases hwork

theorem run_remaining (hshut : s.executor.shut = true) (h : Run step s l s')
    (hturns : ∀ x ∈ l, x.2.ByExecutor) :
    l.countP (fun x => x.2.isWork) + s'.remaining ≤ s.remaining ∧ s'.loop = s.loop ∧
      s'.executor.shut = true := by
  induction h with
  | nil => exact ⟨by rw [List.countP_nil, Nat.zero_add], rfl, hshut⟩
  | @snoc l t turn u _ hstep ih =>
    obtain ⟨hle, hloop, hshut'⟩ := ih fun x hx => hturns x (List.mem_append_left _ hx)
    obtain ⟨hle', hloop', hshut''⟩ :=
      work_remaining hshut' (hturns (t, turn) (List.mem_append_right _ List.mem_cons_self)) hstep
    refine ⟨?_, hloop'.trans hloop, hshut''⟩
    rw [List.countP_append, List.countP_singleton]
    dsimp only at hle' ⊢
    omega

/-- Where no thread of the executor can go on, there is nothing left to do. -/
theorem idle_of_stuck (hworkers : 0 < s.executor.maxWorkers)
    (hstuck : ∀ turn : ServerTurn ι τ, turn.isWork = true → s.step turn = none) :
    s.executor.work = 0 := by
  by_contra hwork
  obtain ⟨w, hmem⟩ | ⟨executor, hstart⟩ := ThreadPool.start_or_running hworkers hwork
  · cases w with
    | handle client =>
      obtain ⟨executor, hproceed⟩ := ThreadPool.proceed_of_mem hmem (some (.release client))
      have hnone := hstuck (.close client) rfl
      change s.work (.close client) = none at hnone
      rw [ServerThreads.work, hproceed] at hnone
      cases hnone
    | release client =>
      obtain ⟨executor, hproceed⟩ := ThreadPool.proceed_of_mem hmem none
      have hnone := hstuck (.release client) rfl
      change s.work (.release client) = none at hnone
      rw [ServerThreads.work, hproceed] at hnone
      cases hnone
    | task t =>
      obtain ⟨executor, hproceed⟩ := ThreadPool.proceed_of_mem hmem none
      have hnone := hstuck (.finish t) rfl
      change s.work (.finish t) = none at hnone
      rw [ServerThreads.work, hproceed] at hnone
      cases hnone
  · have hnone := hstuck .start rfl
    change s.work .start = none at hnone
    rw [ServerThreads.work, hstart] at hnone
    cases hnone

/-- Once `serve_forever` is in its `finally` and the executor has been shut down, every schedule of
the threads of the executor comes to an end, where all clients have been closed but one that was
dropped, all tasks have been run, and `serve_forever` returns. -/
theorem shutdown_drains (hworkers : 0 < workers)
    (h : Run step (opened maxConcurrentConnections workers : ServerThreads ι τ) l s)
    (hloop : s.loop = .ending) (hshut : s.executor.shut = true) (hrun : Run step s l' s')
    (hturns : ∀ x ∈ l', x.2.ByExecutor) :
    l'.countP (fun x => x.2.isWork) ≤ s.remaining ∧
      ((∀ turn : ServerTurn ι τ, turn.isWork = true → s'.step turn = none) →
        ∃ t, s'.step .joined = some t ∧ (t.closed ++ t.dropped).Perm t.accepted ∧
          t.finished.Perm t.submitted) := by
  obtain ⟨hle, hloop', hshut'⟩ := run_remaining hshut hrun hturns
  refine ⟨Nat.le_of_add_right_le hle, fun hstuck => ?_⟩
  obtain ⟨hsound, _, hworkers'⟩ := sound_of_run (h.append hrun)
  have hidle := idle_of_stuck (hworkers'.symm ▸ hworkers) hstuck
  have hjoined : s'.step .joined = some { s' with loop := .returned } := by
    change s'.serve .joined s'.loop = _
    rw [hloop', hloop, serve, if_pos ⟨hshut', hidle⟩]
  obtain ⟨hclosed, hfinished, _⟩ := (hsound.step hjoined).settled rfl
  exact ⟨_, hjoined, hclosed, hfinished⟩

/-- A client and its background task are still to be dealt with when the server is shut down. -/
def lateTurns : List (ServerTurn Nat Nat) :=
  [.check, .accept 1, .acquire, .submit, .start, .background 1 7, .check, .acceptFails, .setStop,
    .closeListener, .shutExecutor]

def drainingTurns : List (ServerTurn Nat Nat) :=
  [.background 1 8, .close 1, .release 1, .start, .finish 7]

theorem shutdown_drains_late : ∃ s s', lateTurns.foldlM step (opened 1 1) = some s ∧
    drainingTurns.foldlM step s = some s' ∧
    (Run.trace step s drainingTurns).countP (fun x => x.2.isWork) ≤ s.remaining ∧
    ∃ t, s'.step .joined = some t ∧ (t.closed ++ t.dropped).Perm t.accepted ∧
      t.finished.Perm t.submitted := by
  obtain ⟨s, s', hrun, hloop, hshut, hrun', hqueue, hrunning⟩ : ∃ s s',
      lateTurns.foldlM step (opened 1 1) = some s ∧ s.loop = .ending ∧ s.executor.shut = true ∧
      drainingTurns.foldlM step s = some s' ∧ s'.executor.queue = [] ∧ s'.executor.running = [] :=
    ⟨_, _, rfl, rfl, rfl, rfl, rfl, rfl⟩
  have hwork : ∀ turn ∈ ([.close 1, .release 1, .start, .finish 7] : List (ServerTurn Nat Nat)),
      turn.isWork = true := by decide
  have hturns : ∀ x ∈ Run.trace step s drainingTurns, x.2.ByExecutor := by
    intro x hx
    have hmem := Run.mem_of_mem_trace hx
    generalize x.2 = turn at hmem ⊢
    obtain rfl | hmem := List.mem_cons.1 hmem
    · exact .inr ⟨1, 8, rfl⟩
    · exact .inl (hwork turn hmem)
  obtain ⟨hcount, hjoined⟩ := shutdown_drains Nat.one_pos (Run.of_foldlM step _ _ hrun) hloop hshut
    (Run.of_foldlM step _ _ hrun') hturns
  refine ⟨s, s', hrun, hrun', hcount, hjoined fun turn hturn => ?_⟩
  have hproceed (w : PoolWork Nat Nat) (next : Option (PoolWork Nat Nat)) :
      s'.executor.proceed w next = none := by
    rw [ThreadPool.proceed, dif_neg]
    rw [hrunning]
    exact List.not_mem_nil
  cases turn with
  | start =>
    change s'.work .start = none
    rw [work, ThreadPool.start.eq_def, hqueue]
    rfl
  | close client =>
    change s'.work (.close client) = none
    rw [work, hproceed]
    rfl
  | release client =>
    change s'.work (.release client) = none
    rw [work, hproceed]
    rfl
  | finish t =>
    change s'.work (.finish t) = none
    rw [work, hproceed]
    rfl
  | _ => cases hturn

end ServerThreads

end Sovereign
