import Mathlib.Logic.Function.Basic
import Sovereign.EventHub

namespace Sovereign
set_option autoImplicit true

/-- What a call of a hub does next. -/
inductive HubTask (π ω : Type) where
  | register (conn : Conn π ω) (userId : Option Str)
  | join (room : Str) (conn : Conn π ω)
  /-- the second time that `join` takes the lock -/
  | enter (room : Str) (conn : Conn π ω)
  | leave (room : Str) (conn : Conn π ω)
  | unregister (conn : Conn π ω)
  /-- `conn.close()`, for which `unregister` has given the lock back -/
  | close (conn : Conn π ω)

def HubCall.task : HubCall π ω → Option (HubTask π ω)
  | register conn userId => some (.register conn userId)
  | join room conn => some (.join room conn)
  | leave room conn => some (.leave room conn)
  | unregister conn => some (.unregister conn)
  | broadcastEvent .. | sendUser .. => none

/-- A hub and the calls that are in progress. -/
structure HubThreads (π ω κ : Type) where
  hub : EventHub π ω
  tasks : κ → Option (HubTask π ω)

/-- A call begins, or does what it does before it next gives the lock back. -/
inductive HubTurn (π ω κ : Type) where
  | begin (k : κ) (call : HubCall π ω)
  | advance (k : κ)

variable [DecidableEq π] [DecidableEq ω] [DecidableEq κ]

/-- The block that a call runs, and what it has left to do. -/
def HubTask.block (hub : EventHub π ω) : HubTask π ω → EventHub π ω × Option (HubTask π ω)
  | register conn userId => (hub.register conn userId, none)
  | join room conn =>
    let (conn, hub) := hub.adapt conn
    (hub.enroll conn none, some (.enter room conn))
  | enter room conn => (hub.enter room conn, none)
  | leave room conn => (hub.leave room conn, none)
  | unregister conn => (hub.drop conn, some (.close conn))
  | close conn => ({ hub with closed := Function.update hub.closed conn.closes true }, none)

namespace HubThreads

def step (s : HubThreads π ω κ) : HubTurn π ω κ → Option (HubThreads π ω κ)
  | .begin k call =>
    match s.tasks k with
    | some _ => none
    | none => call.task.map fun task => { s with tasks := Function.update s.tasks k (some task) }
  | .advance k =>
    (s.tasks k).map fun task =>
      ⟨(task.block s.hub).1, Function.update s.tasks k (task.block s.hub).2⟩

/-- No call is in progress. -/
def Quiet (s : HubThreads π ω κ) : Prop := ∀ k, s.tasks k = none

def Fresh (s : HubThreads π ω κ) : Prop := s.hub.Fresh ∧ s.Quiet

/-- A join that takes the lock for the second time finds its connection in the hub. -/
def Registered (s : HubThreads π ω κ) : HubTurn π ω κ → Prop
  | .begin .. => True
  | .advance k => ∀ room conn, s.tasks k = some (.enter room conn) → conn ∈ s.hub.sessions

/-- No connection is unregistered between the two blocks of a join of it. -/
def Undisturbed (s : HubThreads π ω κ) : HubTurn π ω κ → Prop
  | .begin .. => True
  | .advance k => ∀ conn, s.tasks k = some (.unregister conn) →
      ∀ k' room, s.tasks k' ≠ some (.enter room conn)

end HubThreads

/-- Whoever is in a room is in the hub. -/
def EventHub.RoomsKnown (hub : EventHub π ω) : Prop :=
  ∀ room, Index.members hub.rooms room ⊆ hub.sessions

namespace EventHub

variable {hub : EventHub π ω}

theorem RoomsKnown.enroll (h : hub.RoomsKnown) (conn : Conn π ω) (userId : Option Str) :
    (hub.enroll conn userId).RoomsKnown := by
  intro room c hc
  exact Finset.mem_insert_of_mem (h room hc)

theorem RoomsKnown.adapt (h : hub.RoomsKnown) (conn : Conn π ω) :
    (hub.adapt conn).2.RoomsKnown := by
  cases conn with
  | plain _ => exact h
  | session _ => exact h
  | adapter _ _ => exact h

theorem RoomsKnown.enter (h : hub.RoomsKnown) (room : Str) (hconn : conn ∈ hub.sessions) :
    (hub.enter room conn).RoomsKnown := by
  intro room' c hc
  rcases Index.mem_add.1 hc with ⟨-, rfl⟩ | hc
  · exact hconn
  · exact h room' hc

theorem RoomsKnown.leave (h : hub.RoomsKnown) (room : Str) (conn : Conn π ω) :
    (hub.leave room conn).RoomsKnown := by
  intro room' c hc
  exact h room' (Index.mem_discard.1 hc).1

theorem RoomsKnown.drop (h : hub.RoomsKnown) (conn : Conn π ω) : (hub.drop conn).RoomsKnown := by
  intro room c hc
  obtain ⟨hc, hne⟩ := Index.mem_discardAll.1 hc
  exact Finset.mem_erase.2 ⟨hne, h room hc⟩

end EventHub

namespace HubThreads

variable {s next : HubThreads π ω κ} {turn : HubTurn π ω κ}

theorem step_begin (h : s.step (.begin k call) = some next) : ∃ task, s.tasks k = none ∧
    call.task = some task ∧ next = { s with tasks := Function.update s.tasks k (some task) } := by
  rw [step] at h
  split at h
  · cases h
  · next hnone =>
    obtain ⟨task, htask, rfl⟩ := Option.map_eq_some_iff.1 h
    exact ⟨task, hnone, htask, rfl⟩

theorem step_advance (h : s.step (.advance k) = some next) : ∃ task, s.tasks k = some task ∧
    next = ⟨(task.block s.hub).1, Function.update s.tasks k (task.block s.hub).2⟩ := by
  obtain ⟨task, htask, rfl⟩ := Option.map_eq_some_iff.1 h
  exact ⟨task, htask, rfl⟩

theorem roomsKnown_step (h : s.hub.RoomsKnown) (hregistered : s.Registered turn)
    (hstep : s.step turn = some next) : next.hub.RoomsKnown := by
  cases turn with
  | begin k call =>
    obtain ⟨task, -, -, rfl⟩ := step_begin hstep
    exact h
  | advance k =>
    obtain ⟨task, htask, rfl⟩ := step_advance hstep
    cases task with
    | register conn userId => exact (h.adapt conn).enroll _ userId
    | join room conn => exact (h.adapt conn).enroll _ none
    | enter room conn => exact h.enter room (hregistered room conn htask)
    | leave room conn => exact h.leave room conn
    | unregister conn => exact h.drop conn
    | close conn => exact h

/-- What a join leaves behind that does not find its connection in the hub. -/
theorem unknown_of_unregistered (hunregistered : ¬ s.Registered turn)
    (hstep : s.step turn = some next) :
    ¬ next.hub.RoomsKnown := by
  intro hknown
  apply hunregistered
  cases turn with
  | begin k call => trivial
  | advance k =>
    intro room conn htask
    obtain ⟨task, htask', rfl⟩ := step_advance hstep
    cases htask.symm.trans htask'
    exact hknown room (Index.mem_add.2 (.inl ⟨rfl, rfl⟩))

/-- The joins that have registered their connection, and not put it into the room yet. -/
def JoinsKnown (s : HubThreads π ω κ) : Prop :=
  ∀ k room conn, s.tasks k = some (.enter room conn) → conn ∈ s.hub.sessions

omit [DecidableEq κ] in
/-- A block that is not one of `unregister` leaves every session in the hub. -/
theorem sessions_subset_block (hub : EventHub π ω) (task : HubTask π ω)
    (h : ∀ conn, task ≠ .unregister conn) : hub.sessions ⊆ (task.block hub).1.sessions := by
  have hadapt (conn : Conn π ω) : (hub.adapt conn).2.sessions = hub.sessions := by
    cases conn <;> rfl
  cases task with
  | register conn userId =>
    rw [← hadapt conn]
    exact Finset.subset_insert _ _
  | join room conn =>
    rw [← hadapt conn]
    exact Finset.subset_insert _ _
  | enter room conn => exact Finset.Subset.refl _
  | leave room conn => exact Finset.Subset.refl _
  | unregister conn => exact absurd rfl (h conn)
  | close conn => exact Finset.Subset.refl _

theorem block_enter {hub : EventHub π ω} {task : HubTask π ω}
    (h : (task.block hub).2 = some (.enter room conn)) : conn ∈ (task.block hub).1.sessions := by
  cases task with
  | join room' conn' =>
    cases h
    exact Finset.mem_insert_self _ _
  | register _ _ => cases h
  | enter _ _ => cases h
  | leave _ _ => cases h
  | unregister _ => cases h
  | close _ => cases h

theorem JoinsKnown.step (h : s.JoinsKnown) (hundisturbed : s.Undisturbed turn)
    (hstep : s.step turn = some next) : next.JoinsKnown := by
  cases turn with
  | begin k call =>
    obtain ⟨task, -, htask, rfl⟩ := step_begin hstep
    intro k' room conn henter
    by_cases hk : k' = k
    · subst hk
      dsimp only at henter
      rw [Function.update_self, Option.some.injEq] at henter
      subst henter
      cases call <;> cases htask
    · dsimp only at henter
      rw [Function.update_of_ne hk] at henter
      exact h k' room conn henter
  | advance k =>
    obtain ⟨task, htask, rfl⟩ := step_advance hstep
    intro k' room conn henter
    by_cases hk : k' = k
    · subst hk
      dsimp only at henter
      rw [Function.update_self] at henter
      exact block_enter henter
    · dsimp only at henter
      rw [Function.update_of_ne hk] at henter
      have hmem := h k' room conn henter
      by_cases hunregister : ∃ conn', task = .unregister conn'
      · obtain ⟨conn', rfl⟩ := hunregister
        refine Finset.mem_erase.2 ⟨?_, hmem⟩
        rintro rfl
        exact hundisturbed conn htask k' room henter
      · exact sessions_subset_block s.hub task (not_exists.1 hunregister) hmem

/-- Joins that no unregistering of the same connection disturbs find it in the hub. -/
theorem registered_of_undisturbed (hfresh : start.Fresh) (hrun : Run step start l s)
    (hundisturbed : ∀ x ∈ l, Undisturbed x.1 x.2) : ∀ x ∈ l, Registered x.1 x.2 := by
  have hstart : start.JoinsKnown := by
    intro k room conn henter
    rw [hfresh.2 k] at henter
    cases henter
  have halways : ∀ x ∈ l, x.1.JoinsKnown := by
    apply hrun.always hstart
    intro x hx next h hstep
    exact h.step (hundisturbed x hx) hstep
  rintro ⟨s, turn⟩ hx
  cases turn with
  | begin k call => trivial
  | advance k => exact halways _ hx k

/-- Where every join finds its connection in the hub, all members of rooms are sessions. -/
theorem rooms_known (hfresh : start.Fresh) (hrun : Run step start l s)
    (hregistered : ∀ x ∈ l, Registered x.1 x.2) :
    ∀ room, Index.members s.hub.rooms room ⊆ s.hub.sessions := by
  have hstart : start.hub.RoomsKnown := by
    intro room
    rw [hfresh.1.1, Index.members_empty]
    exact Finset.empty_subset _
  refine hrun.invariant (I := fun s => s.hub.RoomsKnown) hstart ?_
  intro x hx next h hstep
  exact roomsKnown_step h (hregistered x hx) hstep

/-- One call is in progress. -/
def Sole (s : HubThreads π ω κ) (k : κ) (task : HubTask π ω) : Prop :=
  s.tasks = Function.update (fun _ => none) k (some task)

theorem Sole.advance (h : s.Sole k task) : ∃ next, s.step (.advance k) = some next ∧
    next.hub = (task.block s.hub).1 ∧
    next.tasks = Function.update (fun _ => none) k (task.block s.hub).2 := by
  rw [step, show s.tasks = _ from h, Function.update_self, Option.map_some, Function.update_idem]
  exact ⟨_, rfl, rfl, rfl⟩

theorem Sole.last (h : s.Sole k task) (hlast : (task.block s.hub).2 = none) :
    ∃ next, s.step (.advance k) = some next ∧ next.hub = (task.block s.hub).1 ∧ next.Quiet := by
  obtain ⟨next, hstep, hhub, htasks⟩ := h.advance
  refine ⟨next, hstep, hhub, ?_⟩
  intro k'
  rw [htasks, hlast, Function.update_eq_self k (fun _ => none)]

/-- A call that is alone does what it does in a hub with one thread. -/
theorem alone (s : HubThreads π ω κ) (hquiet : s.Quiet) (k : κ) (htask : call.task = some task) :
    ∃ l next, Run step s l next ∧ next.Quiet ∧ s.hub.step call = some next.hub := by
  have hbegin : s.step (.begin k call) =
      some ⟨s.hub, Function.update s.tasks k (some task)⟩ := by
    rw [step, hquiet k]
    dsimp only
    rw [htask, Option.map_some]
  have hsole : Sole (⟨s.hub, Function.update s.tasks k (some task)⟩ : HubThreads π ω κ) k task := by
    rw [Sole, funext hquiet]
  cases call with
  | register conn userId =>
    cases htask
    obtain ⟨next, hstep, hhub, hnext⟩ := hsole.last rfl
    exact ⟨_, next, (Run.nil.snoc hbegin).snoc hstep, hnext, by rw [hhub]; rfl⟩
  | join room conn =>
    cases htask
    obtain ⟨mid, hstep, hmid, htasks⟩ := hsole.advance
    have hsole' : mid.Sole k (.enter room (s.hub.adapt conn).1) := htasks
    obtain ⟨next, hstep', hhub, hnext⟩ := hsole'.last rfl
    exact ⟨_, next, ((Run.nil.snoc hbegin).snoc hstep).snoc hstep', hnext, by rw [hhub, hmid]; rfl⟩
  | leave room conn =>
    cases htask
    obtain ⟨next, hstep, hhub, hnext⟩ := hsole.last rfl
    exact ⟨_, next, (Run.nil.snoc hbegin).snoc hstep, hnext, by rw [hhub]; rfl⟩
  | unregister conn =>
    cases htask
    obtain ⟨mid, hstep, hmid, htasks⟩ := hsole.advance
    have hsole' : mid.Sole k (.close conn) := htasks
    obtain ⟨next, hstep', hhub, hnext⟩ := hsole'.last rfl
    exact ⟨_, next, ((Run.nil.snoc hbegin).snoc hstep).snoc hstep', hnext, by rw [hhub, hmid]; rfl⟩
  | broadcastEvent room targets send => cases htask
  | sendUser u targets send => cases htask

/-- One connection without a user, of which nothing is in the hub. -/
def loneHub : HubThreads Unit Unit Bool :=
  ⟨⟨∅, ∅, ∅, fun _ => none, fun _ => false, 0⟩, fun _ => none⟩

def loneConn : Conn Unit Unit := .plain ()

def joinTurns : List (HubTurn Unit Unit Bool) :=
  [.begin true (.join "lobby".toList loneConn), .advance true, .advance true]

theorem rooms_known_join : ∃ s, joinTurns.foldlM step loneHub = some s ∧
    loneConn ∈ Index.members s.hub.rooms "lobby".toList ∧
    ∀ room, Index.members s.hub.rooms room ⊆ s.hub.sessions := by
  have hrun : joinTurns.foldlM step loneHub =
      some ⟨loneHub.hub.join "lobby".toList loneConn, _⟩ := rfl
  have hfresh : loneHub.Fresh := ⟨⟨rfl, rfl, rfl⟩, fun _ => rfl⟩
  refine ⟨_, hrun, by decide, rooms_known hfresh (Run.of_foldlM step loneHub _ hrun) ?_⟩
  intro x hx
  rcases List.mem_cons.1 hx with rfl | hx
  · trivial
  rcases List.mem_cons.1 hx with rfl | hx
  · intro room conn htask
    cases htask
  · cases List.mem_singleton.1 hx
    intro room conn htask
    cases htask
    decide

/-- A connection that is unregistered between the two blocks of a join stays in the room. -/
theorem ghost_member : ∃ s,
    [.begin true (.join "lobby".toList loneConn), .advance true,
    .begin false (.unregister loneConn),
      .advance false, .advance false, .advance true].foldlM step loneHub = some s ∧
      s.Quiet ∧ loneConn ∈ Index.members s.hub.rooms "lobby".toList ∧ s.hub.sessions = ∅ := by
  refine ⟨_, rfl, ?_, by decide, by decide⟩
  intro k
  cases k <;> rfl

end HubThreads

end Sovereign
