import Sovereign.EventHub

namespace Sovereign
set_option autoImplicit true

namespace HubCall

def conn? : HubCall π ω → Option (Conn π ω)
  | register conn _ | join _ conn | leave _ conn | unregister conn => some conn
  | broadcastEvent .. | sendUser .. => none

/-- The call is about a plain connection object, or about those that are in the hub. -/
def Plain (call : HubCall π ω) : Prop := ∀ conn ∈ call.conn?, ∃ c, conn = .plain c

end HubCall

namespace EventHub

variable [DecidableEq π] [DecidableEq ω]

/-- A connection with a user is not registered under another one. -/
def KeepsUser (hub : EventHub π ω) : HubCall π ω → Prop
  | .register conn userId => conn ∈ hub.sessions → ∀ u, hub.userId conn = some u → u ≠ [] →
      userId = none ∨ userId = some u
  | .join .. | .leave .. | .unregister _ | .broadcastEvent .. | .sendUser .. => True

structure Consistent (hub : EventHub π ω) : Prop where
  users : ∀ c u, c ∈ Index.members hub.users u ↔ c ∈ hub.sessions ∧ hub.userId c = some u ∧ u ≠ []
  rooms : ∀ room, Index.members hub.rooms room ⊆ hub.sessions
  usersNonempty : Index.NoneEmpty hub.users
  roomsNonempty : Index.NoneEmpty hub.rooms

variable {hub next : EventHub π ω} {conn c : Conn π ω} {call : HubCall π ω}

omit [DecidableEq π] [DecidableEq ω] in
theorem Fresh.consistent (h : hub.Fresh) : hub.Consistent := by
  obtain ⟨hrooms, husers, hsessions⟩ := h
  constructor
  · intro c u
    rw [husers, hsessions]
    simp [Index.members_empty]
  · intro room
    rw [hrooms, Index.members_empty]
    exact Finset.empty_subset _
  · rw [husers]
    exact Index.noneEmpty_empty
  · rw [hrooms]
    exact Index.noneEmpty_empty

theorem Consistent.enroll (h : hub.Consistent) (conn : Conn π ω) (userId : Option Str)
    (hkeeps : hub.KeepsUser (.register conn userId)) : (hub.enroll conn userId).Consistent := by
  constructor
  · intro c u
    rw [mem_users_enroll, h.users, truthy_eq_some]
    have hsession : c ∈ (hub.enroll conn userId).sessions ↔ c = conn ∨ c ∈ hub.sessions :=
      Finset.mem_insert
    rw [hsession]
    by_cases hc : c = conn
    · subst hc
      have hsame : c ∈ hub.sessions → hub.userId c = some u → u ≠ [] →
          (hub.enroll c userId).userId c = some u := by
        intro hmem hu hne
        rw [userId_enroll_self]
        rcases hkeeps hmem u hu hne with rfl | rfl
        · exact hu
        · rfl
      tauto
    · rw [userId_enroll_of_ne hub userId hc]
      tauto
  · intro room c hc
    exact Finset.mem_insert_of_mem (h.rooms room hc)
  · rw [EventHub.enroll]
    dsimp only
    cases truthy
      (((userId.map fun u => Function.update hub.userId conn (some u)).getD hub.userId) conn) with
    | none => exact h.usersNonempty
    | some u => exact h.usersNonempty.add u conn
  · exact h.roomsNonempty

theorem Consistent.enter (h : hub.Consistent) (room : Str) (hconn : conn ∈ hub.sessions) :
    (hub.enter room conn).Consistent where
  users := h.users
  rooms room' := by
    intro c hc
    rcases Index.mem_add.1 hc with ⟨-, rfl⟩ | hc
    · exact hconn
    · exact h.rooms room' hc
  usersNonempty := h.usersNonempty
  roomsNonempty := h.roomsNonempty.add room conn

theorem Consistent.leave (h : hub.Consistent) (room : Str) (conn : Conn π ω) :
    (hub.leave room conn).Consistent where
  users := h.users
  rooms room' := by
    intro c hc
    exact h.rooms room' (Index.mem_discard.1 hc).1
  usersNonempty := h.usersNonempty
  roomsNonempty := h.roomsNonempty.discard room conn

theorem Consistent.drop (h : hub.Consistent) (conn : Conn π ω) : (hub.drop conn).Consistent := by
  constructor
  · intro c u
    have hsession : c ∈ (hub.drop conn).sessions ↔ c ≠ conn ∧ c ∈ hub.sessions :=
      Finset.mem_erase
    have huser : (hub.drop conn).userId = hub.userId := rfl
    rw [mem_users_drop, hsession, huser, h.users, truthy_eq_some]
    constructor
    · rintro ⟨⟨hmem, hu⟩, hne⟩
      exact ⟨⟨fun he => hne ⟨he ▸ hu, he⟩, hmem⟩, hu⟩
    · rintro ⟨⟨hne, hmem⟩, hu⟩
      exact ⟨⟨hmem, hu⟩, fun he => hne he.2⟩
  · intro room c hc
    obtain ⟨hc, hne⟩ := Index.mem_discardAll.1 hc
    exact Finset.mem_erase.2 ⟨hne, h.rooms room hc⟩
  · rw [EventHub.drop]
    dsimp only
    cases truthy (hub.userId conn) with
    | none => exact h.usersNonempty
    | some u => exact h.usersNonempty.discard u conn
  · exact h.roomsNonempty.discardAll conn

theorem Consistent.unregister (h : hub.Consistent) (conn : Conn π ω) :
    (hub.unregister conn).Consistent := by
  obtain ⟨husers, hrooms, hne, hne'⟩ := h.drop conn
  exact ⟨husers, hrooms, hne, hne'⟩

theorem Consistent.sendMany (h : hub.Consistent) (targets : List (Conn π ω))
    (send : Conn π ω → Delivery) :
    (hub.sendMany targets send).Consistent := by
  apply sendMany_invariant h
  · intro hub closed h
    exact ⟨h.users, h.rooms, h.usersNonempty, h.roomsNonempty⟩
  · intro hub conn h
    exact h.unregister conn

theorem adapt_plain (h : ∃ c, conn = .plain c) (hub : EventHub π ω) :
    hub.adapt conn = (conn, hub) := by
  obtain ⟨c, rfl⟩ := h
  rfl

theorem Consistent.step (h : hub.Consistent) (hplain : call.Plain) (hkeeps : hub.KeepsUser call)
    (hstep : hub.step call = some next) : next.Consistent := by
  cases call with
  | register conn userId =>
    cases hstep
    rw [EventHub.register, adapt_plain (hplain conn rfl)]
    exact h.enroll conn userId hkeeps
  | join room conn =>
    cases hstep
    rw [EventHub.join, adapt_plain (hplain conn rfl)]
    have henrolled := h.enroll conn none fun _ _ _ _ => .inl rfl
    exact henrolled.enter room (Finset.mem_insert_self conn hub.sessions)
  | leave room conn =>
    cases hstep
    exact h.leave room conn
  | unregister conn =>
    cases hstep
    exact h.unregister conn
  | broadcastEvent room targets send =>
    rw [EventHub.step] at hstep
    split at hstep
    · cases hstep
      exact h.sendMany targets send
    · cases hstep
  | sendUser u targets send =>
    rw [EventHub.step] at hstep
    split at hstep
    · cases hstep
      exact h.sendMany targets send
    · cases hstep

/-- No index has the connection. -/
structure Absent (hub : EventHub π ω) (conn : Conn π ω) : Prop where
  sessions : conn ∉ hub.sessions
  rooms : ∀ room, conn ∉ Index.members hub.rooms room
  users : ∀ u, conn ∉ Index.members hub.users u

omit [DecidableEq π] [DecidableEq ω] in
theorem Consistent.absent (h : hub.Consistent) (hconn : conn ∉ hub.sessions) : hub.Absent conn where
  sessions := hconn
  rooms room hroom := hconn (h.rooms room hroom)
  users u hu := hconn ((h.users conn u).1 hu).1

theorem Consistent.isOnline (h : hub.Consistent) (u : Str) :
    hub.isOnline u = true ↔ u ≠ [] ∧ ∃ c ∈ hub.sessions, hub.userId c = some u := by
  rw [EventHub.isOnline, decide_eq_true_iff, ← Finset.nonempty_iff_ne_empty, Finset.Nonempty]
  simp only [h.users]
  tauto

omit [DecidableEq π] [DecidableEq ω] in
theorem Consistent.onlineUsers (h : hub.Consistent) (u : Str) :
    u ∈ hub.onlineUsers ↔ u ≠ [] ∧ ∃ c ∈ hub.sessions, hub.userId c = some u := by
  rw [EventHub.onlineUsers, List.mem_mergeSort, Index.mem_keys h.usersNonempty]
  simp only [h.users]
  tauto

/-- Where no connection changes its user while it is in the hub, the indexes agree. -/
theorem indexes_consistent (hfresh : start.Fresh) (hrun : Run step start l hub)
    (hplain : ∀ x ∈ l, HubCall.Plain x.2) (hkeeps : ∀ x ∈ l, x.1.KeepsUser x.2) :
    hub.Consistent ∧
      (∀ u, hub.isOnline u = true ↔ u ≠ [] ∧ ∃ c ∈ hub.sessions, hub.userId c = some u) ∧
      (∀ u, u ∈ hub.onlineUsers ↔ u ≠ [] ∧ ∃ c ∈ hub.sessions, hub.userId c = some u) ∧
      ∀ conn, (hub.unregister conn).Absent conn := by
  have h : hub.Consistent := by
    apply hrun.invariant hfresh.consistent
    intro x hx next hx' hstep
    exact hx'.step (hplain x hx) (hkeeps x hx) hstep
  refine ⟨h, h.isOnline, h.onlineUsers, ?_⟩
  intro conn
  exact (h.unregister conn).absent (Finset.notMem_erase conn hub.sessions)

/-- What is left behind when a connection changes its user. -/
theorem inconsistent_of_changed {userId : Option Str} (h : hub.Consistent)
    (hplain : ∃ c, conn = .plain c)
    (hchanged : ¬ hub.KeepsUser (.register conn userId)) :
    ¬ (hub.register conn userId).Consistent := by
  intro hnext
  apply hchanged
  intro hmem u hu hne
  rw [EventHub.register, adapt_plain hplain] at hnext
  have hleft : conn ∈ Index.members (hub.enroll conn userId).users u :=
    (mem_users_enroll hub conn userId u).2 (.inr ((h.users conn u).2 ⟨hmem, hu, hne⟩))
  have huser := ((hnext.users conn u).1 hleft).2.1
  rw [userId_enroll_self] at huser
  cases userId with
  | none => exact .inl rfl
  | some v =>
    cases huser
    exact .inr rfl

/-- Nothing is registered of one connection, which has no user. -/
def soloHub : EventHub Unit Unit := ⟨∅, ∅, ∅, fun _ => none, fun _ => false, 0⟩

def soloConn : Conn Unit Unit := .plain ()

def soloCalls : List (HubCall Unit Unit) :=
  [.register soloConn (some "alice".toList), .join "lobby".toList soloConn]

theorem soloCalls_plain : ∀ call ∈ soloCalls, call.Plain := by
  intro call hcall conn hconn
  rcases List.mem_cons.1 hcall with rfl | hcall
  · cases hconn
    exact ⟨(), rfl⟩
  · cases List.mem_singleton.1 hcall
    cases hconn
    exact ⟨(), rfl⟩

theorem indexes_consistent_solo : ∃ hub, soloCalls.foldlM step soloHub = some hub ∧
    soloConn ∈ Index.members hub.rooms "lobby".toList ∧ hub.Consistent := by
  have hrun : soloCalls.foldlM step soloHub =
      some ((soloHub.register soloConn (some "alice".toList)).join "lobby".toList soloConn) := rfl
  refine ⟨_, hrun, by decide,
    (indexes_consistent ⟨rfl, rfl, rfl⟩ (Run.of_foldlM step soloHub _ hrun) ?_ ?_).1⟩
  · intro x hx
    exact soloCalls_plain x.2 (Run.mem_of_mem_trace hx)
  · intro x hx
    rcases List.mem_cons.1 hx with rfl | hx
    · intro hmem
      simp [soloHub] at hmem
    · cases List.mem_singleton.1 hx
      trivial

/-- After a new registration the connection is found under both users, and stays under the old one. -/
theorem ghost_user : ∃ hub,
    [HubCall.register soloConn (some "alice".toList), .register soloConn (some "bob".toList),
      .unregister soloConn].foldlM step soloHub = some hub ∧
      hub.isOnline "alice".toList = true ∧ hub.sessions = ∅ := by
  exact ⟨_, rfl, by decide, by decide⟩

end EventHub

end Sovereign
