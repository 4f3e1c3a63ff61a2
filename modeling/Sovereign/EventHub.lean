import Mathlib.Data.Char
import Mathlib.Data.List.Lex
import Sovereign.Lib.Index
import Sovereign.Lib.Run
import Sovereign.Python

namespace Sovereign
set_option autoImplicit true

/-- The objects that a hub is called with. Two of them are the same only if they are one object. -/
inductive Conn (π ω : Type) where
  | plain (conn : π)
  /-- a `WebSocketSession` -/
  | session (ws : ω)
  /-- a `WebSocketConnection`; `n` says which one -/
  | adapter (ws : ω) (n : Nat)
deriving DecidableEq

/-- Where `conn.close()` sets `closed`. -/
def Conn.closes : Conn π ω → Conn π ω
  | adapter ws _ => session ws
  | conn => conn

/-- The indexes of an `EventHub` and the attributes of the objects that are used with it. -/
structure EventHub (π ω : Type) where
  rooms : Dict Str (Finset (Conn π ω))
  users : Dict Str (Finset (Conn π ω))
  sessions : Finset (Conn π ω)
  userId : Conn π ω → Option Str
  closed : Conn π ω → Bool
  /-- how many `WebSocketConnection`s have been made -/
  made : Nat

/-- What comes of `conn.send_event(event, data)`. -/
structure Delivery where
  raises : Bool
  /-- `conn.closed` is true afterwards -/
  closes : Bool

namespace EventHub

variable [DecidableEq π] [DecidableEq ω]

/-- `if isinstance(conn, WebSocketSession): conn = WebSocketConnection(conn)` -/
def adapt (hub : EventHub π ω) : Conn π ω → Conn π ω × EventHub π ω
  | .session ws =>
    let conn := .adapter ws hub.made
    (conn, { hub with
      made := hub.made + 1
      userId := Function.update hub.userId conn (hub.userId (.session ws))
      closed := Function.update hub.closed conn (hub.closed (.session ws)) })
  | conn => (conn, hub)

/-- `if uid:` -/
def truthy : Option Str → Option Str
  | some [] => none
  | uid => uid

/-- What `register` does under the lock. -/
def enroll (conn : Conn π ω) (userId : Option Str) (hub : EventHub π ω) : EventHub π ω :=
  let userIds := (userId.map fun u => Function.update hub.userId conn (some u)).getD hub.userId
  { hub with
    userId := userIds
    sessions := insert conn hub.sessions
    users := ((truthy (userIds conn)).map fun u => Index.add u conn hub.users).getD hub.users }

/-- `EventHub.register` -/
def register (conn : Conn π ω) (userId : Option Str) (hub : EventHub π ω) : EventHub π ω :=
  let (conn, hub) := hub.adapt conn
  hub.enroll conn userId

/-- What `join` does under the lock after it has registered the connection. -/
def enter (room : Str) (conn : Conn π ω) (hub : EventHub π ω) : EventHub π ω :=
  { hub with rooms := Index.add room conn hub.rooms }

/-- `EventHub.join` -/
def join (room : Str) (conn : Conn π ω) (hub : EventHub π ω) : EventHub π ω :=
  let (conn, hub) := hub.adapt conn
  (hub.enroll conn none).enter room conn

/-- `EventHub.leave` -/
def leave (room : Str) (conn : Conn π ω) (hub : EventHub π ω) : EventHub π ω :=
  { hub with rooms := Index.discard room conn hub.rooms }

/-- What `unregister` does under the lock. -/
def drop (conn : Conn π ω) (hub : EventHub π ω) : EventHub π ω :=
  { hub with
    sessions := hub.sessions.erase conn
    rooms := Index.discardAll conn hub.rooms
    users := ((truthy (hub.userId conn)).map fun u => Index.discard u conn hub.users).getD hub.users
      }

/-- `EventHub.unregister` -/
def unregister (conn : Conn π ω) (hub : EventHub π ω) : EventHub π ω :=
  { hub.drop conn with closed := Function.update hub.closed conn.closes true }

/-- `EventHub._send_many`, for connections in the order that a set has them in. -/
def sendMany (targets : List (Conn π ω)) (send : Conn π ω → Delivery) (hub : EventHub π ω) :
    EventHub π ω :=
  let dead := targets.filter fun conn => hub.closed conn || (send conn).raises
  let closed conn := hub.closed conn || decide (conn ∈ targets) && (send conn).closes
  dead.foldl (fun hub conn => hub.unregister conn) { hub with closed }

/-- `EventHub.online_users` -/
def onlineUsers (hub : EventHub π ω) : List Str :=
  hub.users.keys.mergeSort fun u v => decide (u ≤ v)

/-- `EventHub.is_online` -/
def isOnline (hub : EventHub π ω) (u : Str) : Bool := decide (Index.members hub.users u ≠ ∅)

/-- A hub is new: the objects may have any attributes. -/
def Fresh (hub : EventHub π ω) : Prop := hub.rooms = ∅ ∧ hub.users = ∅ ∧ hub.sessions = ∅

end EventHub

/-- A call of a method of the hub. -/
inductive HubCall (π ω : Type) where
  | register (conn : Conn π ω) (userId : Option Str)
  | join (room : Str) (conn : Conn π ω)
  | leave (room : Str) (conn : Conn π ω)
  | unregister (conn : Conn π ω)
  | broadcastEvent (room : Str) (targets : List (Conn π ω)) (send : Conn π ω → Delivery)
  | sendUser (userId : Str) (targets : List (Conn π ω)) (send : Conn π ω → Delivery)

namespace EventHub

variable [DecidableEq π] [DecidableEq ω]

/-- The calls are made one after another. -/
def step (hub : EventHub π ω) : HubCall π ω → Option (EventHub π ω)
  | .register conn userId => some (hub.register conn userId)
  | .join room conn => some (hub.join room conn)
  | .leave room conn => some (hub.leave room conn)
  | .unregister conn => some (hub.unregister conn)
  | .broadcastEvent room targets send =>
    if targets.Nodup ∧ targets.toFinset = Index.members hub.rooms room then
      some (hub.sendMany targets send)
    else none
  | .sendUser userId targets send =>
    if targets.Nodup ∧ targets.toFinset = Index.members hub.users userId then
      some (hub.sendMany targets send)
    else none

theorem truthy_eq_some {uid : Option Str} : truthy uid = some u ↔ uid = some u ∧ u ≠ [] := by
  cases uid with
  | none => simp [truthy]
  | some v =>
    cases v with
    | nil =>
      constructor
      · intro h
        cases h
      · rintro ⟨h, hne⟩
        cases h
        exact absurd rfl hne
    | cons a v =>
      constructor
      · intro h
        cases h
        exact ⟨rfl, List.cons_ne_nil a v⟩
      · intro h
        exact h.1

variable {hub : EventHub π ω} {conn c : Conn π ω}

theorem mem_users_enroll (hub : EventHub π ω) (conn : Conn π ω) (userId : Option Str) (u : Str) :
    c ∈ Index.members (hub.enroll conn userId).users u ↔
      truthy ((hub.enroll conn userId).userId conn) = some u ∧ c = conn ∨
      c ∈ Index.members hub.users u := by
  rw [enroll]
  dsimp only
  cases truthy
    (((userId.map fun u => Function.update hub.userId conn (some u)).getD hub.userId) conn) with
  | none => simp
  | some v =>
    rw [Option.map_some, Option.getD_some, Index.mem_add, Option.some.injEq]
    tauto

theorem mem_users_drop (hub : EventHub π ω) (conn : Conn π ω) (u : Str) :
    c ∈ Index.members (hub.drop conn).users u ↔
      c ∈ Index.members hub.users u ∧ ¬ (truthy (hub.userId conn) = some u ∧ c = conn) := by
  rw [drop]
  dsimp only
  cases truthy (hub.userId conn) with
  | none => simp
  | some v =>
    rw [Option.map_some, Option.getD_some, Index.mem_discard, Option.some.injEq]
    tauto

theorem userId_enroll_of_ne (hub : EventHub π ω) (userId : Option Str) (h : c ≠ conn) :
    (hub.enroll conn userId).userId c = hub.userId c := by
  cases userId with
  | none => rfl
  | some u => exact Function.update_of_ne h (some u) hub.userId

theorem userId_enroll_self (hub : EventHub π ω) (conn : Conn π ω) (userId : Option Str) :
    (hub.enroll conn userId).userId conn = userId.or (hub.userId conn) := by
  cases userId with
  | none => rfl
  | some u => exact Function.update_self conn (some u) hub.userId

/-- Dead connections are unregistered, and nothing else changes the indexes. -/
theorem sendMany_invariant {I : EventHub π ω → Prop} (hI : I hub)
    (hclosed : ∀ hub closed, I hub → I { hub with closed := closed })
    (hunregister : ∀ hub conn, I hub → I (hub.unregister conn)) (targets : List (Conn π ω))
    (send : Conn π ω → Delivery) : I (hub.sendMany targets send) := by
  rw [sendMany]
  generalize targets.filter (fun conn => hub.closed conn || (send conn).raises) = dead
  generalize (fun conn => hub.closed conn || decide (conn ∈ targets) && (send conn).closes) = closed
  have hstart := hclosed hub closed hI
  generalize { hub with closed := closed } = hub' at hstart
  induction dead generalizing hub' with
  | nil => exact hstart
  | cons conn dead ih => exact ih _ (hunregister _ conn hstart)

end EventHub

end Sovereign
