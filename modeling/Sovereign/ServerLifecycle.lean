import Mathlib.Algebra.BigOperators.Group.Multiset.Basic
import Mathlib.Tactic.Abel
import Sovereign.Lib.Run
import Sovereign.Lib.ThreadPool

namespace Sovereign
set_option autoImplicit true

/-- What a thread of the executor has before it: `handle_connection_safe`, its last line, or a
background task. -/
inductive PoolWork (ι τ : Type) where
  | handle (client : ι)
  /-- `self.connection_sem.release()`, after `client.close()` -/
  | release (client : ι)
  | task (t : τ)
deriving DecidableEq

/-- Where `serve_forever` is. -/
inductive ServeLoop (ι : Type) where
  /-- `while not self.stop_event.is_set()` -/
  | check
  | accept
  /-- `if not self.connection_sem.acquire(blocking=False)` -/
  | accepted (client : ι)
  | refused (client : ι)
  /-- `self.executor.submit(self.handle_connection_safe, client, addr)` -/
  | admitted (client : ι)
  /-- `finally: self.shutdown()` -/
  | ending
  | returned
deriving DecidableEq

namespace PoolWork

/-- The client that is to be closed. -/
def clients : PoolWork ι τ → Multiset ι
  | handle client => {client}
  | release _ | task _ => 0

def tasks : PoolWork ι τ → Multiset τ
  | task t => {t}
  | handle _ | release _ => 0

/-- The permits that come back at the end of it. -/
def permits : PoolWork ι τ → Nat
  | handle _ | release _ => 1
  | task _ => 0

end PoolWork

namespace ServeLoop

def clients : ServeLoop ι → Multiset ι
  | accepted client | refused client | admitted client => {client}
  | check | accept | ending | returned => 0

/-- The permits that the loop has. -/
def permits : ServeLoop ι → Nat
  | admitted _ => 1
  | check | accept | accepted _ | refused _ | ending | returned => 0

def Ended : ServeLoop ι → Prop
  | ending | returned => True
  | check | accept | accepted _ | refused _ | admitted _ => False

end ServeLoop

/-- The threads of a server, and what has come of its clients and of its background tasks. -/
structure ServerThreads (ι τ : Type) where
  loop : ServeLoop ι
  stopEvent : Bool
  listening : Bool
  connectionSem : BoundedSemaphore
  executor : ThreadPool (PoolWork ι τ)
  accepted : List ι
  closed : List ι
  /-- those that the executor did not take -/
  dropped : List ι
  submitted : List τ
  finished : List τ
  /-- how often `release` has failed -/
  overReleased : Nat

inductive ServerTurn (ι τ : Type) where
  | check
  | timeout
  | accept (client : ι)
  /-- an `OSError` -/
  | acceptFails
  | acquire
  /-- `client.close()`, which may raise -/
  | refuse (raises : Bool)
  | submit
  /-- The threads in `shutdown` take these three turns. -/
  | setStop
  | closeListener
  | shutExecutor
  | joined
  /-- A thread of the executor takes one of these. -/
  | start
  | background (client : ι) (t : τ)
  | close (client : ι)
  | release (client : ι)
  | finish (t : τ)

namespace ServerThreads

/-- `__init__`, and `make_socket` -/
def opened (maxConcurrentConnections workers : Nat) : ServerThreads ι τ where
  loop := .check
  stopEvent := false
  listening := true
  connectionSem := .ofLimit maxConcurrentConnections
  executor := .ofWorkers workers
  accepted := []
  closed := []
  dropped := []
  submitted := []
  finished := []
  overReleased := 0

section Turns

variable [DecidableEq ι] [DecidableEq τ]

/-- The next turn of the thread in `serve_forever`. -/
def serve (s : ServerThreads ι τ) : ServerTurn ι τ → ServeLoop ι → Option (ServerThreads ι τ)
  | .check, .check => some { s with loop := if s.stopEvent then .ending else .accept }
  | .timeout, .accept => some { s with loop := .check }
  | .accept client, .accept =>
    if s.listening ∧ client ∉ s.accepted then
      some { s with loop := .accepted client, accepted := s.accepted ++ [client] }
    else none
  | .acceptFails, .accept => some { s with loop := .ending }
  | .acquire, .accepted client =>
    match s.connectionSem.acquire with
    | none => some { s with loop := .refused client }
    | some connectionSem => some { s with loop := .admitted client, connectionSem }
  | .refuse raises, .refused client =>
    some { s with loop := if raises then .ending else .check, closed := s.closed ++ [client] }
  | .submit, .admitted client =>
    match s.executor.submit (.handle client) with
    | none => some { s with loop := .ending, dropped := s.dropped ++ [client] }
    | some executor => some { s with loop := .check, executor }
  | .joined, .ending =>
    if s.executor.shut ∧ s.executor.work = 0 then some { s with loop := .returned } else none
  | _, _ => none

/-- The next turn of a thread in `shutdown`. -/
def shutdown (s : ServerThreads ι τ) : ServerTurn ι τ → Option (ServerThreads ι τ)
  | .setStop => some { s with stopEvent := true }
  | .closeListener => if s.stopEvent then some { s with listening := false } else none
  | .shutExecutor =>
    if s.listening then none else some { s with executor := s.executor.shutdown }
  | _ => none

/-- The next turn of a thread of the executor. A background task that the executor does not take
raises in the handler. -/
def work (s : ServerThreads ι τ) : ServerTurn ι τ → Option (ServerThreads ι τ)
  | .start => s.executor.start.map fun executor => { s with executor }
  | .background client t =>
    if .handle client ∈ s.executor.running then
      match s.executor.submit (.task t) with
      | none => some s
      | some executor => some { s with executor, submitted := s.submitted ++ [t] }
    else none
  | .close client =>
    (s.executor.proceed (.handle client) (some (.release client))).map fun executor =>
      { s with executor, closed := s.closed ++ [client] }
  | .release client =>
    (s.executor.proceed (.release client) none).map fun executor =>
      match s.connectionSem.release with
      | none => { s with executor, overReleased := s.overReleased + 1 }
      | some connectionSem => { s with executor, connectionSem }
  | .finish t =>
    (s.executor.proceed (.task t) none).map fun executor =>
      { s with executor, finished := s.finished ++ [t] }
  | _ => none

def step (s : ServerThreads ι τ) (turn : ServerTurn ι τ) : Option (ServerThreads ι τ) :=
  match turn with
  | .check | .timeout | .accept _ | .acceptFails | .acquire | .refuse _ | .submit | .joined =>
    s.serve turn s.loop
  | .setStop | .closeListener | .shutExecutor => s.shutdown turn
  | .start | .background _ _ | .close _ | .release _ | .finish _ => s.work turn

end Turns

/-- The clients that are neither closed nor dropped. -/
def clients (s : ServerThreads ι τ) : Multiset ι :=
  s.loop.clients + (s.executor.work.map PoolWork.clients).sum

/-- The permits that somebody will give back. -/
def permits (s : ServerThreads ι τ) : Nat :=
  s.loop.permits + (s.executor.work.map PoolWork.permits).sum

/-- What becomes of the clients, the permits and the background tasks. -/
structure Sound (s : ServerThreads ι τ) : Prop where
  distinct : s.accepted.Nodup
  clients : (s.accepted : Multiset ι) = ↑s.closed + s.clients + ↑s.dropped
  tasks : (s.submitted : Multiset τ) = ↑s.finished + (s.executor.work.map PoolWork.tasks).sum
  permits : s.connectionSem.out = s.permits + s.dropped.length
  releases : s.overReleased = 0
  shut : s.executor.shut = true → s.listening = false
  stopping : s.listening = false → s.stopEvent = true
  dropped : s.dropped.length ≤ 1
  ended : s.dropped ≠ [] → s.executor.shut = true ∧ s.loop.Ended
  returned : s.loop = .returned → s.executor.shut = true ∧ s.executor.work = 0

variable {s s' : ServerThreads ι τ} {executor : ThreadPool (PoolWork ι τ)}

theorem opened_sound (maxConcurrentConnections workers : Nat) :
    (opened maxConcurrentConnections workers : ServerThreads ι τ).Sound where
  distinct := List.nodup_nil
  clients := rfl
  tasks := rfl
  permits := BoundedSemaphore.out_ofLimit maxConcurrentConnections
  releases := rfl
  shut := nofun
  stopping := nofun
  dropped := Nat.zero_le 1
  ended h := absurd rfl h
  returned := nofun

/-- While the executor takes work, no client has been dropped. -/
theorem Sound.dropped_nil (h : s.Sound) (hopen : s.executor.shut = false ∨ ¬ s.loop.Ended) :
    s.dropped = [] := by
  by_contra hne
  obtain ⟨hshut, hended⟩ := h.ended hne
  obtain hopen | hopen := hopen
  · rw [hshut] at hopen
    cases hopen
  · exact hopen hended

/-- The executor has gone on: what is gone from its work has been added to what has come of it. -/
theorem Sound.goOn (h : s.Sound) {connectionSem : BoundedSemaphore} {closed : List ι}
    {submitted finished : List τ} (hshut : executor.shut = s.executor.shut)
    (hreturned : s.loop = .returned → executor.work = 0)
    (hclients : (closed : Multiset ι) + (executor.work.map PoolWork.clients).sum =
      ↑s.closed + (s.executor.work.map PoolWork.clients).sum)
    (htasks : (submitted : Multiset τ) + ↑s.finished + (s.executor.work.map PoolWork.tasks).sum =
      ↑s.submitted + ↑finished + (executor.work.map PoolWork.tasks).sum)
    (hpermits : connectionSem.out + (s.executor.work.map PoolWork.permits).sum =
      s.connectionSem.out + (executor.work.map PoolWork.permits).sum) :
    { s with executor, connectionSem, closed, submitted, finished }.Sound where
  distinct := h.distinct
  clients := by
    have hsound := h.clients
    rw [ServerThreads.clients, add_left_comm, ← hclients, ← add_left_comm] at hsound
    exact hsound
  tasks := by
    rw [h.tasks] at htasks
    apply add_right_cancel (b := ↑s.finished + (s.executor.work.map PoolWork.tasks).sum)
    rw [← add_assoc, htasks]
    abel
  permits := by
    have hsound := h.permits
    simp only [ServerThreads.permits] at hsound ⊢
    omega
  releases := h.releases
  shut hexecutor := h.shut (hshut ▸ hexecutor)
  stopping := h.stopping
  dropped := h.dropped
  ended hne := ⟨hshut ▸ (h.ended hne).1, (h.ended hne).2⟩
  returned hloop := ⟨hshut ▸ (h.returned hloop).1, hreturned hloop⟩

/-- There is no work left for the executor of a server that has returned. -/
theorem Sound.not_returned (h : s.Sound) (hwork : s.executor.work = w ::ₘ rest) :
    s.loop ≠ .returned := by
  intro hloop
  have hnone := (h.returned hloop).2
  rw [hwork] at hnone
  exact Multiset.cons_ne_zero hnone

/-- A permit that comes back is one that is out. -/
theorem Sound.release (h : s.Sound) (hwork : s.executor.work = .release client ::ₘ rest) :
    ∃ connectionSem, s.connectionSem.release = some connectionSem ∧
      connectionSem.limit = s.connectionSem.limit ∧
      connectionSem.out + 1 = s.connectionSem.out := by
  have hpermits := h.permits
  simp only [ServerThreads.permits, hwork, Multiset.map_cons, Multiset.sum_cons,
    PoolWork.permits] at hpermits
  obtain ⟨n, hn⟩ : ∃ n, s.connectionSem.out = n + 1 :=
    Nat.exists_eq_succ_of_ne_zero (by omega)
  obtain ⟨connectionSem, hrelease, hlimit, hout⟩ := BoundedSemaphore.release_out hn
  exact ⟨connectionSem, hrelease, hlimit, by rw [hout, hn]⟩

variable [DecidableEq ι] [DecidableEq τ]

omit [DecidableEq ι] [DecidableEq τ] in
theorem Sound.shutdown (h : s.Sound) (hturn : s.shutdown turn = some s') : s'.Sound := by
  cases turn with
  | setStop =>
    cases hturn
    exact { h with stopping := fun _ => rfl }
  | closeListener =>
    rw [ServerThreads.shutdown] at hturn
    split at hturn
    · next hstop =>
      cases hturn
      exact { h with shut := fun _ => rfl, stopping := fun _ => hstop }
    · cases hturn
  | shutExecutor =>
    rw [ServerThreads.shutdown] at hturn
    split at hturn
    · cases hturn
    · next hlistening =>
      cases hturn
      exact { h with
        shut := fun _ => Bool.eq_false_iff.2 hlistening
        ended := fun hne => ⟨rfl, (h.ended hne).2⟩
        returned := fun hloop => ⟨rfl, (h.returned hloop).2⟩ }
  | _ => cases hturn

theorem Sound.work (h : s.Sound) (hturn : s.work turn = some s') : s'.Sound := by
  cases turn with
  | start =>
    obtain ⟨executor, hstart, rfl⟩ := Option.map_eq_some_iff.1 hturn
    obtain ⟨hshut, _, hwork⟩ := ThreadPool.start_ok hstart
    apply h.goOn hshut
    · intro hloop
      rw [hwork, (h.returned hloop).2]
    · rw [hwork]
    · rw [hwork]
    · rw [hwork]
  | background client t =>
    rw [ServerThreads.work] at hturn
    split at hturn
    · split at hturn
      · cases hturn
        exact h
      · next executor hsubmit =>
        cases hturn
        obtain ⟨hopen, hopen', _, hwork⟩ := ThreadPool.submit_ok hsubmit
        apply h.goOn (hopen'.trans hopen.symm)
        · intro hloop
          rw [(h.returned hloop).1] at hopen
          cases hopen
        · simp [hwork, PoolWork.clients]
        · simp only [hwork, Multiset.map_cons, Multiset.sum_cons, PoolWork.tasks,
            ← Multiset.coe_add, Multiset.coe_singleton]
          abel
        · simp [hwork, PoolWork.permits]
    · cases hturn
  | close client =>
    obtain ⟨executor, hproceed, rfl⟩ := Option.map_eq_some_iff.1 hturn
    obtain ⟨hshut, _, rest, hwork, hwork'⟩ := ThreadPool.proceed_ok hproceed
    apply h.goOn hshut fun hloop => absurd hloop (h.not_returned hwork)
    · simp only [hwork, hwork', Option.elim_some, Multiset.map_cons, Multiset.sum_cons,
        PoolWork.clients, ← Multiset.coe_add, Multiset.coe_singleton]
      abel
    · simp [hwork, hwork', PoolWork.tasks]
    · simp [hwork, hwork', PoolWork.permits]
  | release client =>
    obtain ⟨executor, hproceed, rfl⟩ := Option.map_eq_some_iff.1 hturn
    obtain ⟨hshut, _, rest, hwork, hwork'⟩ := ThreadPool.proceed_ok hproceed
    obtain ⟨connectionSem, hrelease, _, hout⟩ := h.release hwork
    rw [hrelease]
    apply h.goOn hshut fun hloop => absurd hloop (h.not_returned hwork)
    · simp [hwork, hwork', PoolWork.clients]
    · simp [hwork, hwork', PoolWork.tasks]
    · simp only [hwork, hwork', Option.elim_none, Multiset.map_cons, Multiset.sum_cons,
        PoolWork.permits]
      omega
  | finish t =>
    obtain ⟨executor, hproceed, rfl⟩ := Option.map_eq_some_iff.1 hturn
    obtain ⟨hshut, _, rest, hwork, hwork'⟩ := ThreadPool.proceed_ok hproceed
    apply h.goOn hshut fun hloop => absurd hloop (h.not_returned hwork)
    · simp [hwork, hwork', PoolWork.clients]
    · simp only [hwork, hwork', Option.elim_none, Multiset.map_cons, Multiset.sum_cons,
        PoolWork.tasks, ← Multiset.coe_add, Multiset.coe_singleton]
      abel
    · simp [hwork, hwork', PoolWork.permits]
  | _ => cases hturn

omit [DecidableEq ι] [DecidableEq τ] in
/-- The loop goes on with what it has. -/
theorem Sound.pass (h : s.Sound) {loop : ServeLoop ι} (hclients : loop.clients = s.loop.clients)
    (hpermits : loop.permits = s.loop.permits) (hended : s.loop.Ended → loop.Ended)
    (hreturned : loop = .returned → s.executor.shut = true ∧ s.executor.work = 0) :
    { s with loop }.Sound where
  distinct := h.distinct
  clients := by
    have hsound := h.clients
    rw [ServerThreads.clients, ← hclients] at hsound
    exact hsound
  tasks := h.tasks
  permits := by
    have hsound := h.permits
    rw [ServerThreads.permits, ← hpermits] at hsound
    exact hsound
  releases := h.releases
  shut := h.shut
  stopping := h.stopping
  dropped := h.dropped
  ended hne := ⟨(h.ended hne).1, hended (h.ended hne).2⟩
  returned := hreturned

omit [DecidableEq ι] [DecidableEq τ] in
/-- A turn of the loop that changes nothing else. -/
theorem Sound.goesTo (h : s.Sound) {loop : ServeLoop ι} (hloop : ¬ s.loop.Ended)
    (hclients : loop.clients = s.loop.clients) (hpermits : loop.permits = s.loop.permits)
    (hnot : loop ≠ .returned) : { s with loop }.Sound :=
  h.pass hclients hpermits (fun hended => absurd hended hloop) fun heq => absurd heq hnot

theorem Sound.serve (h : s.Sound) (hturn : s.serve turn s.loop = some s') : s'.Sound := by
  have hnone := fun hrunning : ¬ s.loop.Ended => h.dropped_nil (.inr hrunning)
  have hclients := h.clients
  have hpermits := h.permits
  rw [ServerThreads.clients] at hclients
  rw [ServerThreads.permits] at hpermits
  generalize hloop : s.loop = loop at *
  cases loop with
  | check =>
    cases turn with
    | check =>
      cases hturn
      apply h.goesTo
      · rw [hloop]
        exact id
      · rw [hloop]
        split
        · rfl
        · rfl
      · rw [hloop]
        split
        · rfl
        · rfl
      · split
        · exact nofun
        · exact nofun
    | _ => cases hturn
  | accept =>
    cases turn with
    | timeout =>
      cases hturn
      exact h.goesTo (hloop ▸ id) (hloop ▸ rfl) (hloop ▸ rfl) nofun
    | acceptFails =>
      cases hturn
      exact h.goesTo (hloop ▸ id) (hloop ▸ rfl) (hloop ▸ rfl) nofun
    | accept client =>
      rw [ServerThreads.serve] at hturn
      split at hturn
      · next hfresh =>
        cases hturn
        refine { h with
          distinct := ?_, clients := ?_, permits := ?_, ended := ?_, returned := nofun }
        · exact List.nodup_append.2 ⟨h.distinct, List.nodup_singleton _, by
            intro c hc c' hc' heq
            rw [List.mem_singleton.1 hc'] at heq
            exact hfresh.2 (heq ▸ hc)⟩
        · simp only [ServerThreads.clients, ← Multiset.coe_add, Multiset.coe_singleton, hclients,
            ServeLoop.clients]
          abel
        · exact hpermits
        · intro hne
          exact absurd (hnone id) hne
      · cases hturn
    | _ => cases hturn
  | accepted client =>
    cases turn with
    | acquire =>
      rw [ServerThreads.serve] at hturn
      split at hturn
      · cases hturn
        exact h.goesTo (hloop ▸ id) (hloop ▸ rfl) (hloop ▸ rfl) nofun
      · next connectionSem hacquire =>
        cases hturn
        refine { h with clients := hclients, permits := ?_, ended := ?_, returned := nofun }
        · rw [(BoundedSemaphore.acquire_out hacquire).2, hpermits, ServerThreads.permits]
          simp only [ServeLoop.permits]
          omega
        · intro hne
          exact absurd (hnone id) hne
    | _ => cases hturn
  | refused client =>
    cases turn with
    | refuse raises =>
      cases hturn
      refine { h with clients := ?_, permits := ?_, ended := ?_, returned := ?_ }
      · cases raises with
        | _ =>
          simp only [ServerThreads.clients, ← Multiset.coe_add, Multiset.coe_singleton, hclients,
            ServeLoop.clients, ↓reduceIte, Bool.false_eq_true]
          abel
      · rw [hpermits, ServerThreads.permits]
        cases raises with
        | _ => rfl
      · intro hne
        exact absurd (hnone id) hne
      · intro heq
        dsimp only at heq
        split at heq
        · cases heq
        · cases heq
    | _ => cases hturn
  | admitted client =>
    cases turn with
    | submit =>
      rw [ServerThreads.serve] at hturn
      split at hturn
      · next hsubmit =>
        cases hturn
        have hshut := ThreadPool.submit_eq_none.1 hsubmit
        have hnil := hnone id
        refine { h with
          clients := ?_, permits := ?_, dropped := ?_, ended := fun _ => ⟨hshut, trivial⟩
          returned := nofun }
        · simp only [ServerThreads.clients, ← Multiset.coe_add, Multiset.coe_singleton, hclients,
            ServeLoop.clients]
          abel
        · rw [hpermits, ServerThreads.permits]
          simp only [ServeLoop.permits, List.length_append, List.length_singleton]
          omega
        · rw [hnil]
          exact Nat.le_refl 1
      · next executor hsubmit =>
        cases hturn
        obtain ⟨hopen, hopen', _, hwork⟩ := ThreadPool.submit_ok hsubmit
        have htasks := h.tasks
        refine { h with
          clients := ?_, tasks := ?_, permits := ?_, shut := ?_, ended := ?_, returned := nofun }
        · simp only [ServerThreads.clients, hwork, Multiset.map_cons, Multiset.sum_cons, hclients,
            PoolWork.clients, ServeLoop.clients]
          abel
        · simp only [hwork, Multiset.map_cons, Multiset.sum_cons, PoolWork.tasks, zero_add]
          exact htasks
        · rw [hpermits, ServerThreads.permits]
          simp only [hwork, Multiset.map_cons, Multiset.sum_cons, PoolWork.permits,
            ServeLoop.permits]
          omega
        · intro hshut
          rw [hopen'] at hshut
          cases hshut
        · intro hne
          exact absurd (hnone id) hne
    | _ => cases hturn
  | ending =>
    cases turn with
    | joined =>
      rw [ServerThreads.serve] at hturn
      split at hturn
      · next hidle =>
        cases hturn
        exact h.pass (hloop ▸ rfl) (hloop ▸ rfl) (fun _ => trivial) fun _ => hidle
      · cases hturn
    | _ => cases hturn
  | returned =>
    cases turn with
    | _ => cases hturn

theorem step_cases (hstep : s.step turn = some s') :
    s.serve turn s.loop = some s' ∨ s.shutdown turn = some s' ∨ s.work turn = some s' := by
  cases turn with
  | setStop => exact .inr (.inl hstep)
  | closeListener => exact .inr (.inl hstep)
  | shutExecutor => exact .inr (.inl hstep)
  | start => exact .inr (.inr hstep)
  | background client t => exact .inr (.inr hstep)
  | close client => exact .inr (.inr hstep)
  | release client => exact .inr (.inr hstep)
  | finish t => exact .inr (.inr hstep)
  | _ => exact .inl hstep

theorem Sound.step (h : s.Sound) (hstep : s.step turn = some s') : s'.Sound := by
  obtain hturn | hturn | hturn := step_cases hstep
  · exact h.serve hturn
  · exact h.shutdown hturn
  · exact h.work hturn

/-- Nothing changes how many permits and threads there are. -/
def SameLimits (s s' : ServerThreads ι τ) : Prop :=
  s'.connectionSem.limit = s.connectionSem.limit ∧ s'.executor.maxWorkers = s.executor.maxWorkers

theorem serve_limits {loop : ServeLoop ι} (hturn : s.serve turn loop = some s') :
    SameLimits s s' := by
  rw [ServerThreads.serve.eq_def] at hturn
  split at hturn
  · cases hturn
    exact ⟨rfl, rfl⟩
  · cases hturn
    exact ⟨rfl, rfl⟩
  · split at hturn
    · cases hturn
      exact ⟨rfl, rfl⟩
    · cases hturn
  · cases hturn
    exact ⟨rfl, rfl⟩
  · split at hturn
    · cases hturn
      exact ⟨rfl, rfl⟩
    · next connectionSem hacquire =>
      cases hturn
      exact ⟨(BoundedSemaphore.acquire_out hacquire).1, rfl⟩
  · cases hturn
    exact ⟨rfl, rfl⟩
  · split at hturn
    · cases hturn
      exact ⟨rfl, rfl⟩
    · next executor hsubmit =>
      cases hturn
      exact ⟨rfl, (ThreadPool.submit_ok hsubmit).2.2.1⟩
  · split at hturn
    · cases hturn
      exact ⟨rfl, rfl⟩
    · cases hturn
  · cases hturn

theorem Sound.work_limits (h : s.Sound) (hturn : s.work turn = some s') : SameLimits s s' := by
  cases turn with
  | start =>
    obtain ⟨executor, hstart, rfl⟩ := Option.map_eq_some_iff.1 hturn
    exact ⟨rfl, (ThreadPool.start_ok hstart).2.1⟩
  | background client t =>
    rw [ServerThreads.work] at hturn
    split at hturn
    · split at hturn
      · cases hturn
        exact ⟨rfl, rfl⟩
      · next executor hsubmit =>
        cases hturn
        exact ⟨rfl, (ThreadPool.submit_ok hsubmit).2.2.1⟩
    · cases hturn
  | close client =>
    obtain ⟨executor, hproceed, rfl⟩ := Option.map_eq_some_iff.1 hturn
    exact ⟨rfl, (ThreadPool.proceed_ok hproceed).2.1⟩
  | release client =>
    obtain ⟨executor, hproceed, rfl⟩ := Option.map_eq_some_iff.1 hturn
    obtain ⟨_, hworkers, rest, hwork, _⟩ := ThreadPool.proceed_ok hproceed
    obtain ⟨connectionSem, hrelease, hlimit, _⟩ := h.release hwork
    rw [hrelease]
    exact ⟨hlimit, hworkers⟩
  | finish t =>
    obtain ⟨executor, hproceed, rfl⟩ := Option.map_eq_some_iff.1 hturn
    exact ⟨rfl, (ThreadPool.proceed_ok hproceed).2.1⟩
  | _ => cases hturn

theorem Sound.step_limits (h : s.Sound) (hstep : s.step turn = some s') : SameLimits s s' := by
  obtain hturn | hturn | hturn := step_cases hstep
  · exact serve_limits hturn
  · cases turn with
    | setStop =>
      cases hturn
      exact ⟨rfl, rfl⟩
    | closeListener =>
      rw [ServerThreads.shutdown] at hturn
      split at hturn
      · cases hturn
        exact ⟨rfl, rfl⟩
      · cases hturn
    | shutExecutor =>
      rw [ServerThreads.shutdown] at hturn
      split at hturn
      · cases hturn
      · cases hturn
        exact ⟨rfl, rfl⟩
    | _ => cases hturn
  · exact h.work_limits hturn

/-- Every state that the threads come to accounts for all clients, permits and tasks. -/
theorem sound_of_run
    (h : Run step (opened maxConcurrentConnections workers : ServerThreads ι τ) l s) :
    s.Sound ∧ s.connectionSem.limit = maxConcurrentConnections ∧
      s.executor.maxWorkers = workers := by
  apply h.invariant (I := fun s => s.Sound ∧ s.connectionSem.limit = maxConcurrentConnections ∧
    s.executor.maxWorkers = workers) ⟨opened_sound _ _, rfl, rfl⟩
  intro x _ s' h hstep
  obtain ⟨hsound, hlimit, hworkers⟩ := h
  obtain ⟨hlimit', hworkers'⟩ := hsound.step_limits hstep
  exact ⟨hsound.step hstep, hlimit'.trans hlimit, hworkers'.trans hworkers⟩

omit [DecidableEq ι] [DecidableEq τ] in
/-- A client that was accepted is waiting, closed or dropped, and only one of these. -/
theorem Sound.count [DecidableEq ι] (h : s.Sound) (client : ι) :
    s.closed.count client + s.clients.count client + s.dropped.count client =
      if client ∈ s.accepted then 1 else 0 := by
  have hcount := congrArg (Multiset.count client) h.clients
  simp only [Multiset.count_add, Multiset.coe_count] at hcount
  rw [← hcount]
  split
  · next hmem => exact List.count_eq_one_of_mem h.distinct hmem
  · next hmem => exact List.count_eq_zero_of_not_mem hmem

omit [DecidableEq ι] [DecidableEq τ] in
/-- What is left of the clients, the tasks and the permits once `serve_forever` has returned. -/
theorem Sound.settled (h : s.Sound) (hloop : s.loop = .returned) :
    (s.closed ++ s.dropped).Perm s.accepted ∧ s.finished.Perm s.submitted ∧
      s.connectionSem.out = s.dropped.length := by
  have hwork := (h.returned hloop).2
  refine ⟨?_, ?_, ?_⟩
  · have hclients := h.clients
    rw [ServerThreads.clients, hloop, hwork] at hclients
    apply Multiset.coe_eq_coe.1
    rw [hclients, ← Multiset.coe_add, Multiset.map_zero, Multiset.sum_zero]
    exact congrArg (· + _) (add_zero _).symm
  · have htasks := h.tasks
    rw [hwork] at htasks
    apply Multiset.coe_eq_coe.1
    rw [htasks]
    exact (add_zero _).symm
  · have hpermits := h.permits
    rw [ServerThreads.permits, hloop, hwork] at hpermits
    rw [hpermits]
    exact Nat.zero_add _

/-- Nobody but `serve_forever` has shut the executor down. -/
def Calm (s : ServerThreads ι τ) : Prop :=
  (s.executor.shut = true → s.loop.Ended) ∧ s.dropped = []

omit [DecidableEq ι] [DecidableEq τ] in
/-- What the loop does while it runs leaves the executor open. -/
theorem Calm.running (h : s.Calm) (hrunning : ¬ s.loop.Ended)
    (hexecutor : s'.executor.shut = s.executor.shut) (hdropped : s'.dropped = s.dropped) :
    s'.Calm := by
  refine ⟨fun hshut => ?_, hdropped.trans h.2⟩
  rw [hexecutor] at hshut
  exact absurd (h.1 hshut) hrunning

theorem Calm.serve (h : s.Calm) (hturn : s.serve turn s.loop = some s') : s'.Calm := by
  have hrunning {loop : ServeLoop ι} (hloop : s.loop = loop) (hnot : ¬ loop.Ended) :
      ¬ s.loop.Ended := hloop ▸ hnot
  generalize hloop : s.loop = loop at hturn
  rw [ServerThreads.serve.eq_def] at hturn
  split at hturn
  · cases hturn
    exact h.running (hrunning hloop id) rfl rfl
  · cases hturn
    exact h.running (hrunning hloop id) rfl rfl
  · split at hturn
    · cases hturn
      exact h.running (hrunning hloop id) rfl rfl
    · cases hturn
  · cases hturn
    exact h.running (hrunning hloop id) rfl rfl
  · split at hturn
    · cases hturn
      exact h.running (hrunning hloop id) rfl rfl
    · cases hturn
      exact h.running (hrunning hloop id) rfl rfl
  · cases hturn
    exact h.running (hrunning hloop id) rfl rfl
  · have hopen : s.executor.shut = false :=
      Bool.eq_false_iff.2 fun hshut => hrunning hloop id (h.1 hshut)
    split at hturn
    · next hsubmit =>
      rw [ThreadPool.submit_eq_none.1 hsubmit] at hopen
      cases hopen
    · next executor hsubmit =>
      cases hturn
      exact h.running (hrunning hloop id)
        ((ThreadPool.submit_ok hsubmit).2.1.trans hopen.symm) rfl
  · split at hturn
    · cases hturn
      exact ⟨fun _ => trivial, h.2⟩
    · cases hturn
  · cases hturn

omit [DecidableEq ι] [DecidableEq τ] in
theorem Calm.shutdown (h : s.Calm) (hended : turn = .shutExecutor → s.loop.Ended)
    (hturn : s.shutdown turn = some s') : s'.Calm := by
  cases turn with
  | setStop =>
    cases hturn
    exact h
  | closeListener =>
    rw [ServerThreads.shutdown] at hturn
    split at hturn
    · cases hturn
      exact h
    · cases hturn
  | shutExecutor =>
    rw [ServerThreads.shutdown] at hturn
    split at hturn
    · cases hturn
    · cases hturn
      exact ⟨fun _ => hended rfl, h.2⟩
  | _ => cases hturn

theorem Calm.work (h : s.Calm) (hturn : s.work turn = some s') : s'.Calm := by
  cases turn with
  | start =>
    obtain ⟨executor, hstart, rfl⟩ := Option.map_eq_some_iff.1 hturn
    exact ⟨(ThreadPool.start_ok hstart).1 ▸ h.1, h.2⟩
  | background client t =>
    rw [ServerThreads.work] at hturn
    split at hturn
    · split at hturn
      · cases hturn
        exact h
      · next executor hsubmit =>
        cases hturn
        obtain ⟨hopen, hopen', _⟩ := ThreadPool.submit_ok hsubmit
        exact ⟨hopen'.trans hopen.symm ▸ h.1, h.2⟩
    · cases hturn
  | close client =>
    obtain ⟨executor, hproceed, rfl⟩ := Option.map_eq_some_iff.1 hturn
    exact ⟨(ThreadPool.proceed_ok hproceed).1 ▸ h.1, h.2⟩
  | release client =>
    obtain ⟨executor, hproceed, rfl⟩ := Option.map_eq_some_iff.1 hturn
    have hshut := (ThreadPool.proceed_ok hproceed).1
    split
    · exact ⟨hshut ▸ h.1, h.2⟩
    · exact ⟨hshut ▸ h.1, h.2⟩
  | finish t =>
    obtain ⟨executor, hproceed, rfl⟩ := Option.map_eq_some_iff.1 hturn
    exact ⟨(ThreadPool.proceed_ok hproceed).1 ▸ h.1, h.2⟩
  | _ => cases hturn

theorem Calm.step (h : s.Calm) (hended : turn = .shutExecutor → s.loop.Ended)
    (hstep : s.step turn = some s') : s'.Calm := by
  obtain hturn | hturn | hturn := step_cases hstep
  · exact h.serve hturn
  · exact h.shutdown hended hturn
  · exact h.work hturn

/-- Whatever the threads of a server do, they are at most as many as its workers, no more permits
are out than there are, none of them comes back twice, and each client that was accepted is in one
place: it waits for its handler to end, it has been closed, or it has been dropped. At most one is
dropped, and none where only `serve_forever` shuts the executor down; all others have been closed,
and the tasks been run, when `serve_forever` returns. -/
theorem lifecycle (h : Run step (opened maxConcurrentConnections workers : ServerThreads ι τ) l s) :
    s.executor.running.length ≤ workers ∧ s.permits ≤ maxConcurrentConnections ∧
      s.overReleased = 0 ∧
      (∀ client, s.closed.count client + s.clients.count client + s.dropped.count client =
        if client ∈ s.accepted then 1 else 0) ∧
      s.dropped.length ≤ 1 ∧
      ((∀ x ∈ l, x.2 = .shutExecutor → x.1.loop.Ended) → s.dropped = []) ∧
      (s.loop = .returned → (s.closed ++ s.dropped).Perm s.accepted ∧
        s.finished.Perm s.submitted ∧ s.connectionSem.out = s.dropped.length) := by
  obtain ⟨hsound, hlimit, hworkers⟩ := sound_of_run h
  have hpermits : s.permits ≤ maxConcurrentConnections := by
    have hle := s.connectionSem.out_le
    rw [hsound.permits, hlimit] at hle
    exact Nat.le_of_add_right_le hle
  refine ⟨hworkers ▸ s.executor.bounded, hpermits, hsound.releases, hsound.count, hsound.dropped,
    fun hown => ?_, hsound.settled⟩
  have hcalm : s.Calm := by
    apply h.invariant (I := Calm) ⟨nofun, rfl⟩
    intro x hx s' h hstep
    exact h.step (hown x hx) hstep
  exact hcalm.2

/-- One client is served, and the next one refused; another thread shuts the executor down before
the third one gets there. -/
def droppingTurns : List (ServerTurn Nat Nat) :=
  [.check, .accept 1, .acquire, .submit, .check, .accept 2, .acquire, .refuse false, .start,
    .background 1 7, .close 1, .release 1, .check, .accept 3, .acquire, .setStop, .closeListener,
    .shutExecutor, .submit, .start, .finish 7, .joined]

theorem lifecycle_dropping : ∃ s, droppingTurns.foldlM step (opened 1 1) = some s ∧
    s.loop = .returned ∧ s.closed = [2, 1] ∧ s.dropped = [3] ∧
    (s.closed ++ s.dropped).Perm s.accepted ∧ s.connectionSem.out = 1 := by
  obtain ⟨s, hrun, hloop, hclosed, hdropped⟩ : ∃ s,
      droppingTurns.foldlM step (opened 1 1) = some s ∧ s.loop = .returned ∧
      s.closed = [2, 1] ∧ s.dropped = [3] := ⟨_, rfl, rfl, rfl, rfl⟩
  have hsettled := (lifecycle (Run.of_foldlM step (opened 1 1) _ hrun)).2.2.2.2.2.2 hloop
  refine ⟨s, hrun, hloop, hclosed, hdropped, hsettled.1, ?_⟩
  rw [hsettled.2.2, hdropped]
  rfl

end ServerThreads

end Sovereign
