import Mathlib.Data.Finset.Card
import Mathlib.Data.List.Count
import Sovereign.EventHub

namespace Sovereign
set_option autoImplicit true

/-- The session itself, or a connection made of it. -/
def Conn.isOf [DecidableEq ω] (ws : ω) : Conn π ω → Bool
  | plain _ => false
  | session ws' | adapter ws' _ => ws' = ws

/-- The caller passes its own objects, not a `WebSocketConnection` that it has got back. -/
def HubCall.OwnObject : HubCall π ω → Prop
  | register conn _ | join _ conn | leave _ conn | unregister conn => ∀ ws n, conn ≠ .adapter ws n
  | broadcastEvent .. | sendUser .. => True

namespace EventHub

variable [DecidableEq π] [DecidableEq ω]

/-- A session is registered or joins only when the hub has no connection of it, and it leaves and is
unregistered only where there is none. -/
def FirstUse (hub : EventHub π ω) : HubCall π ω → Prop
  | .register (.session ws) _ | .join _ (.session ws) | .unregister (.session ws) =>
    ∀ c ∈ hub.sessions, c.isOf ws = false
  | .leave room (.session ws) => ∀ c ∈ Index.members hub.rooms room, c.isOf ws = false
  | _ => True

/-- The hub has each connection of a session in all indexes where it belongs, and only one of them. -/
structure Single (hub : EventHub π ω) : Prop where
  made : ∀ ws n, .adapter ws n ∈ hub.sessions → n < hub.made
  adapted : ∀ ws, .session ws ∉ hub.sessions
  one : ∀ ws m n, .adapter ws m ∈ hub.sessions → .adapter ws n ∈ hub.sessions → m = n
  rooms : ∀ room, Index.members hub.rooms room ⊆ hub.sessions
  users : ∀ ws n u, .adapter ws n ∈ Index.members hub.users u →
    .adapter ws n ∈ hub.sessions ∧ truthy (hub.userId (.adapter ws n)) = some u
  rawUsers : ∀ ws u, .session ws ∉ Index.members hub.users u

variable {hub next : EventHub π ω} {conn c : Conn π ω} {call : HubCall π ω}

omit [DecidableEq π] [DecidableEq ω] in
theorem Fresh.single (h : hub.Fresh) : hub.Single := by
  obtain ⟨hrooms, husers, hsessions⟩ := h
  constructor
  · intro ws n hmem
    rw [hsessions] at hmem
    simp at hmem
  · intro ws
    rw [hsessions]
    simp
  · intro ws m n hmem
    rw [hsessions] at hmem
    simp at hmem
  · intro room
    rw [hrooms, Index.members_empty]
    exact Finset.empty_subset _
  · intro ws n u hmem
    rw [husers, Index.members_empty] at hmem
    simp at hmem
  · intro ws u
    rw [husers, Index.members_empty]
    simp

/-- A connection may be registered that is not the second one of its session. -/
structure Admissible (hub : EventHub π ω) (conn : Conn π ω) : Prop where
  adapted : ∀ ws, conn ≠ .session ws
  made : ∀ ws n, conn = .adapter ws n → n < hub.made
  one : ∀ ws n, conn = .adapter ws n → ∀ m, .adapter ws m ∉ hub.sessions

omit [DecidableEq π] [DecidableEq ω] in
theorem admissible_plain (hub : EventHub π ω) (c : π) : hub.Admissible (.plain c) where
  adapted ws := nofun
  made ws n h := by cases h
  one ws n h := by cases h

theorem mem_sessions_enroll (userId : Option Str) :
    c ∈ (hub.enroll conn userId).sessions ↔ c = conn ∨ c ∈ hub.sessions :=
  Finset.mem_insert

theorem Single.enroll (h : hub.Single) (hconn : hub.Admissible conn) (userId : Option Str) :
    (hub.enroll conn userId).Single := by
  constructor
  · intro ws n hmem
    rcases (mem_sessions_enroll userId).1 hmem with heq | hmem
    · exact hconn.made ws n heq.symm
    · exact h.made ws n hmem
  · intro ws hmem
    rcases (mem_sessions_enroll userId).1 hmem with heq | hmem
    · exact hconn.adapted ws heq.symm
    · exact h.adapted ws hmem
  · intro ws m n hm hn
    rcases (mem_sessions_enroll userId).1 hm with hm | hm
    · rcases (mem_sessions_enroll userId).1 hn with hn | hn
      · cases hm.trans hn.symm
        rfl
      · exact absurd hn (hconn.one ws m hm.symm n)
    · rcases (mem_sessions_enroll userId).1 hn with hn | hn
      · exact absurd hm (hconn.one ws n hn.symm m)
      · exact h.one ws m n hm hn
  · intro room c hc
    exact Finset.mem_insert_of_mem (h.rooms room hc)
  · intro ws n u hmem
    rcases (mem_users_enroll hub conn userId u).1 hmem with ⟨hu, heq⟩ | hmem
    · rw [heq]
      exact ⟨Finset.mem_insert_self conn hub.sessions, hu⟩
    · obtain ⟨hin, hu⟩ := h.users ws n u hmem
      refine ⟨Finset.mem_insert_of_mem hin, ?_⟩
      have hne : Conn.adapter ws n ≠ conn := by
        intro heq
        exact hconn.one ws n heq.symm n hin
      rw [userId_enroll_of_ne hub userId hne]
      exact hu
  · intro ws u hmem
    rcases (mem_users_enroll hub conn userId u).1 hmem with ⟨-, heq⟩ | hmem
    · exact hconn.adapted ws heq.symm
    · exact h.rawUsers ws u hmem

/-- A connection is made of a session that the hub has none of. -/
theorem Single.adapt (h : hub.Single)
    (hfirst : ∀ ws, conn = .session ws → ∀ c ∈ hub.sessions, c.isOf ws = false)
    (hown : ∀ ws n, conn ≠ .adapter ws n) :
    (hub.adapt conn).2.Single ∧ (hub.adapt conn).2.Admissible (hub.adapt conn).1 := by
  cases conn with
  | plain c => exact ⟨h, hub.admissible_plain c⟩
  | adapter ws n => exact absurd rfl (hown ws n)
  | session ws =>
    constructor
    · constructor
      · intro ws' n hmem
        exact (h.made ws' n hmem).trans (Nat.lt_succ_self _)
      · exact h.adapted
      · exact h.one
      · exact h.rooms
      · intro ws' n u hmem
        obtain ⟨hin, hu⟩ := h.users ws' n u hmem
        refine ⟨hin, ?_⟩
        have hne : Conn.adapter ws' n ≠ (.adapter ws hub.made : Conn π ω) := by
          intro heq
          cases heq
          exact Nat.lt_irrefl _ (h.made ws hub.made hin)
        rw [EventHub.adapt]
        dsimp only
        rw [Function.update_of_ne hne]
        exact hu
      · exact h.rawUsers
    · constructor
      · intro ws'
        nofun
      · intro ws' n heq
        cases heq
        exact Nat.lt_succ_self _
      · intro ws' n heq m hmem
        cases heq
        have hno := hfirst ws rfl _ hmem
        simp [Conn.isOf] at hno

theorem Single.register (h : hub.Single) (userId : Option Str)
    (hfirst : ∀ ws, conn = .session ws → ∀ c ∈ hub.sessions, c.isOf ws = false)
    (hown : ∀ ws n, conn ≠ .adapter ws n) : (hub.register conn userId).Single := by
  obtain ⟨hadapted, hadmissible⟩ := h.adapt hfirst hown
  exact hadapted.enroll hadmissible userId

theorem Single.enter (h : hub.Single) (room : Str) (hconn : conn ∈ hub.sessions) :
    (hub.enter room conn).Single where
  made := h.made
  adapted := h.adapted
  one := h.one
  rooms room' := by
    intro c hc
    rcases Index.mem_add.1 hc with ⟨-, rfl⟩ | hc
    · exact hconn
    · exact h.rooms room' hc
  users := h.users
  rawUsers := h.rawUsers

theorem Single.join (h : hub.Single) (room : Str)
    (hfirst : ∀ ws, conn = .session ws → ∀ c ∈ hub.sessions, c.isOf ws = false)
    (hown : ∀ ws n, conn ≠ .adapter ws n) : (hub.join room conn).Single := by
  have hregistered := h.register none hfirst hown
  exact hregistered.enter room (Finset.mem_insert_self _ _)

theorem Single.leave (h : hub.Single) (room : Str) (conn : Conn π ω) :
    (hub.leave room conn).Single where
  made := h.made
  adapted := h.adapted
  one := h.one
  rooms room' := by
    intro c hc
    exact h.rooms room' (Index.mem_discard.1 hc).1
  users := h.users
  rawUsers := h.rawUsers

theorem Single.unregister (h : hub.Single) (conn : Conn π ω) : (hub.unregister conn).Single := by
  have hsession {c : Conn π ω} : c ∈ (hub.unregister conn).sessions → c ∈ hub.sessions :=
    Finset.mem_of_mem_erase
  have husers {c : Conn π ω} {u : Str} (hc : c ∈ Index.members (hub.unregister conn).users u) :=
    (mem_users_drop hub conn u).1 hc
  constructor
  · intro ws n hmem
    exact h.made ws n (hsession hmem)
  · intro ws hmem
    exact h.adapted ws (hsession hmem)
  · intro ws m n hm hn
    exact h.one ws m n (hsession hm) (hsession hn)
  · intro room c hc
    obtain ⟨hc, hne⟩ := Index.mem_discardAll.1 hc
    exact Finset.mem_erase.2 ⟨hne, h.rooms room hc⟩
  · intro ws n u hmem
    obtain ⟨hmem, hkept⟩ := husers hmem
    obtain ⟨hin, hu⟩ := h.users ws n u hmem
    refine ⟨Finset.mem_erase.2 ⟨?_, hin⟩, hu⟩
    intro heq
    exact hkept ⟨heq ▸ hu, heq⟩
  · intro ws u hmem
    exact h.rawUsers ws u (husers hmem).1

theorem Single.sendMany (h : hub.Single) (targets : List (Conn π ω)) (send : Conn π ω → Delivery) :
    (hub.sendMany targets send).Single := by
  apply sendMany_invariant h
  · intro hub closed h
    exact ⟨h.made, h.adapted, h.one, h.rooms, h.users, h.rawUsers⟩
  · intro hub conn h
    exact h.unregister conn

theorem Single.step (h : hub.Single) (hown : call.OwnObject) (hfirst : hub.FirstUse call)
    (hstep : hub.step call = some next) : next.Single := by
  cases call with
  | register conn userId =>
    cases hstep
    refine h.register userId ?_ hown
    rintro ws rfl
    exact hfirst
  | join room conn =>
    cases hstep
    refine h.join room ?_ hown
    rintro ws rfl
    exact hfirst
  | leave room conn =>
    cases hstep
    exact h.leave room conn
  | unregister conn =>
    cases hstep
    exact h.unregister conn
  | broadcastEvent room targets send =>
    rw [EventHub.step] at hstep
    split at hstep
    · cases hstep
      exact h.sendMany targets send
    · cases hstep
  | sendUser u targets send =>
    rw [EventHub.step] at hstep
    split at hstep
    · cases hstep
      exact h.sendMany targets send
    · cases hstep

/-- The connections of a session in a set. -/
def entries (ws : ω) (conns : Finset (Conn π ω)) : Finset (Conn π ω) :=
  conns.filter fun c => c.isOf ws = true

omit [DecidableEq π] in
theorem Single.entries_sessions (h : hub.Single) (ws : ω) : (entries ws hub.sessions).card ≤ 1 := by
  apply Finset.card_le_one.2
  intro a ha b hb
  obtain ⟨ha, hws⟩ := Finset.mem_filter.1 ha
  obtain ⟨hb, hws'⟩ := Finset.mem_filter.1 hb
  cases a with
  | plain a => cases hws
  | session ws₁ => exact absurd ha (h.adapted ws₁)
  | adapter ws₁ m =>
    cases b with
    | plain b => cases hws'
    | session ws₂ => exact absurd hb (h.adapted ws₂)
    | adapter ws₂ n =>
      cases of_decide_eq_true hws
      cases of_decide_eq_true hws'
      rw [h.one _ m n ha hb]

omit [DecidableEq π] in
theorem Single.entries_le (h : hub.Single) (ws : ω) {conns : Finset (Conn π ω)}
    (hsub : ∀ c ∈ conns, c.isOf ws = true → c ∈ hub.sessions) : (entries ws conns).card ≤ 1 := by
  refine le_trans (Finset.card_le_card ?_) (h.entries_sessions ws)
  intro c hc
  obtain ⟨hc, hws⟩ := Finset.mem_filter.1 hc
  exact Finset.mem_filter.2 ⟨hsub c hc hws, hws⟩

omit [DecidableEq π] in
theorem Single.users_sub (h : hub.Single) (ws : ω) (u : Str) :
    ∀ c ∈ Index.members hub.users u, c.isOf ws = true → c ∈ hub.sessions := by
  intro c hc hws
  cases c with
  | plain c => cases hws
  | session ws' => exact absurd hc (h.rawUsers ws' u)
  | adapter ws' n => exact (h.users ws' n u hc).1

/-- The hub has one connection of the session at most, and sends it an event once at most. -/
structure OneEntry (hub : EventHub π ω) (ws : ω) : Prop where
  sessions : (entries ws hub.sessions).card ≤ 1
  rooms : ∀ room, (entries ws (Index.members hub.rooms room)).card ≤ 1
  users : ∀ u, (entries ws (Index.members hub.users u)).card ≤ 1
  broadcastEvent : ∀ room targets send next,
    hub.step (.broadcastEvent room targets send) = some next →
    targets.countP (Conn.isOf ws) ≤ 1
  sendUser : ∀ u targets send next, hub.step (.sendUser u targets send) = some next →
    targets.countP (Conn.isOf ws) ≤ 1

/-- No index has a connection of the session. -/
structure NoEntry (hub : EventHub π ω) (ws : ω) : Prop where
  sessions : ∀ c ∈ hub.sessions, c.isOf ws = false
  rooms : ∀ room, ∀ c ∈ Index.members hub.rooms room, c.isOf ws = false
  users : ∀ u, ∀ c ∈ Index.members hub.users u, c.isOf ws = false

theorem countP_le {targets : List (Conn π ω)} {conns : Finset (Conn π ω)}
    (h : targets.Nodup ∧ targets.toFinset = conns) (hcard : (entries ws conns).card ≤ 1) :
    targets.countP (Conn.isOf ws) ≤ 1 := by
  obtain ⟨hnodup, rfl⟩ := h
  rw [List.countP_eq_length_filter, ← List.toFinset_card_of_nodup (hnodup.filter _),
    List.toFinset_filter]
  exact hcard

theorem Single.oneEntry (h : hub.Single) (ws : ω) : hub.OneEntry ws := by
  have hrooms (room : Str) : (entries ws (Index.members hub.rooms room)).card ≤ 1 :=
    h.entries_le ws fun c hc _ => h.rooms room hc
  have husers (u : Str) : (entries ws (Index.members hub.users u)).card ≤ 1 :=
    h.entries_le ws (h.users_sub ws u)
  refine ⟨h.entries_sessions ws, hrooms, husers, ?_, ?_⟩
  · intro room targets send next hstep
    rw [EventHub.step] at hstep
    split at hstep
    · next htargets => exact countP_le htargets (hrooms room)
    · cases hstep
  · intro u targets send next hstep
    rw [EventHub.step] at hstep
    split at hstep
    · next htargets => exact countP_le htargets (husers u)
    · cases hstep

omit [DecidableEq π] in
theorem Single.noEntry (h : hub.Single) (hnone : ∀ c ∈ hub.sessions, c.isOf ws = false) :
    hub.NoEntry ws where
  sessions := hnone
  rooms room c hc := hnone c (h.rooms room hc)
  users u c hc := by
    by_contra hws
    rw [Bool.not_eq_false] at hws
    exact absurd (hnone c (h.users_sub ws u c hc hws)) (by rw [hws]; nofun)

/-- A session has one entry where the application registers it once, and does not take it out. -/
theorem one_entry (hfresh : start.Fresh) (hrun : Run step start l hub)
    (hown : ∀ x ∈ l, HubCall.OwnObject x.2) (hfirst : ∀ x ∈ l, x.1.FirstUse x.2) (ws : ω) :
    hub.OneEntry ws ∧
      (hub.FirstUse (.unregister (.session ws)) → (hub.unregister (.session ws)).NoEntry ws) ∧
      ∀ room, hub.FirstUse (.leave room (.session ws)) →
        ∀ c ∈ Index.members (hub.leave room (.session ws)).rooms room, c.isOf ws = false := by
  have h : hub.Single := by
    apply hrun.invariant hfresh.single
    intro x hx next hx' hstep
    exact hx'.step (hown x hx) (hfirst x hx) hstep
  refine ⟨h.oneEntry ws, ?_, ?_⟩
  · intro hnone
    apply (h.unregister (.session ws)).noEntry
    intro c hc
    exact hnone c (Finset.mem_of_mem_erase hc)
  · intro room hnone c hc
    exact hnone c (Index.mem_discard.1 hc).1

/-- What unregistering a session leaves behind that the hub has. -/
theorem entry_left (h : hub.Single) (hc : c ∈ hub.sessions) (hws : c.isOf ws = true) :
    ¬ (hub.unregister (.session ws)).NoEntry ws := by
  intro hnone
  have hleft : c ∈ (hub.unregister (.session ws)).sessions := by
    refine Finset.mem_erase.2 ⟨?_, hc⟩
    rintro rfl
    exact h.adapted ws hc
  rw [hnone.sessions c hleft] at hws
  cases hws

/-- One session, of a user. -/
def socketHub : EventHub Unit Unit :=
  ⟨∅, ∅, ∅, fun _ => some "alice".toList, fun _ => false, 0⟩

def socket : Conn Unit Unit := .session ()

theorem one_entry_join : ∃ hub, [HubCall.join "lobby".toList socket].foldlM step
    socketHub = some hub ∧
    (entries () (Index.members hub.users "alice".toList)).card = 1 ∧ hub.OneEntry () := by
  have hrun : [HubCall.join "lobby".toList socket].foldlM step socketHub =
      some (socketHub.join "lobby".toList socket) := rfl
  refine ⟨_, hrun, by decide,
    (one_entry ⟨rfl, rfl, rfl⟩ (Run.of_foldlM step socketHub _ hrun) ?_ ?_ ()).1⟩
  · intro x hx
    cases List.mem_singleton.1 hx
    intro ws n
    nofun
  · intro x hx
    cases List.mem_singleton.1 hx
    intro c hc
    simp [socketHub] at hc

/-- A session that is registered and joins a room is there twice, and stays when it is unregistered. -/
theorem two_entries : ∃ hub,
    [HubCall.register socket none, .join "lobby".toList socket, .unregister socket].foldlM step
      socketHub = some hub ∧
      (entries () hub.sessions).card = 2 ∧
      (entries () (Index.members hub.users "alice".toList)).card = 2 ∧
      (entries () (Index.members hub.rooms "lobby".toList)).card = 1 := by
  exact ⟨_, rfl, by decide, by decide, by decide⟩

end EventHub

end Sovereign
