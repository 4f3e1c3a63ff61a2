import Sovereign.HubConsistency

namespace Sovereign
set_option autoImplicit true

/-- What a method raises: an `Exception`, or what `except Exception` does not catch. -/
inductive Raised where
  | exception
  | baseException
deriving DecidableEq

/-- The methods of the objects that a hub is used with, in a world `σ` that they may change. -/
structure ConnMethods (π ω σ δ : Type) where
  /-- `getattr(conn, "closed", False)` -/
  closed : Conn π ω → σ → Bool
  sendEvent : Conn π ω → Str → δ → σ → Option Raised × σ
  close : Conn π ω → σ → Option Raised × σ

/-- Where the first loop of `_send_many` stands: `calls` are those of `send_event`. -/
structure Round (π ω σ δ : Type) where
  world : σ
  dead : List (Conn π ω)
  calls : List (Conn π ω × Str × δ)

namespace ConnMethods

variable [DecidableEq π] [DecidableEq ω]

/-- The loop of `_send_many` that delivers the event. -/
def deliver (m : ConnMethods π ω σ δ) (event : Str) (data : δ) :
    List (Conn π ω) → Round π ω σ δ → Except Raised (Round π ω σ δ)
  | [], r => .ok r
  | conn :: targets, r =>
    if m.closed conn r.world then m.deliver event data targets { r with dead := r.dead ++ [conn] }
    else
      let (raised, world) := m.sendEvent conn event data r.world
      let calls := r.calls ++ [(conn, event, data)]
      match raised with
      | none => m.deliver event data targets ⟨world, r.dead, calls⟩
      | some .exception => m.deliver event data targets ⟨world, r.dead ++ [conn], calls⟩
      | some .baseException => .error .baseException

/-- `EventHub.unregister`, which calls `conn.close()` after it has changed the indexes. -/
def unregister (m : ConnMethods π ω σ δ) (conn : Conn π ω) (hub : EventHub π ω) (world : σ) :
    Except Raised (EventHub π ω × σ) :=
  match m.close conn world with
  | (some .baseException, _) => .error .baseException
  | (_, world) => .ok (hub.drop conn, world)

/-- The loop of `_send_many` that unregisters the dead connections. -/
def evict (m : ConnMethods π ω σ δ) :
    List (Conn π ω) → EventHub π ω → σ → Except Raised (EventHub π ω × σ)
  | [], hub, world => .ok (hub, world)
  | conn :: dead, hub, world => do
    let (hub, world) ← m.unregister conn hub world
    m.evict dead hub world

/-- `EventHub._send_many`, with the calls of `send_event` that it makes. -/
def sendMany (m : ConnMethods π ω σ δ) (targets : List (Conn π ω)) (event : Str) (data : δ)
    (hub : EventHub π ω) (world : σ) :
    Except Raised ((EventHub π ω × σ) × List (Conn π ω × Str × δ)) := do
  let r ← m.deliver event data targets ⟨world, [], []⟩
  let after ← m.evict r.dead hub r.world
  return (after, r.calls)

end ConnMethods

/-- Whom an event is for: `broadcast_event` has a room and `send_user` has a user. -/
inductive Audience where
  | room (room : Str)
  | user (userId : Str)

namespace EventHub

/-- The connections that an event goes to. -/
def audience (hub : EventHub π ω) : Audience → Finset (Conn π ω)
  | .room room => Index.members hub.rooms room
  | .user userId => Index.members hub.users userId

end EventHub

/-- A use of the hub, or a change of the objects that the hub has no part in. -/
inductive HubUse (π ω σ δ : Type) where
  | register (conn : Conn π ω) (userId : Option Str)
  | join (room : Str) (conn : Conn π ω)
  | leave (room : Str) (conn : Conn π ω)
  | unregister (conn : Conn π ω)
  | send (whom : Audience) (targets : List (Conn π ω)) (event : Str) (data : δ)
  | elsewhere (world : σ)

namespace HubUse

/-- The call that is made on a connection object. -/
def call? : HubUse π ω σ δ → Option (HubCall π ω)
  | register conn userId => some (.register conn userId)
  | join room conn => some (.join room conn)
  | leave room conn => some (.leave room conn)
  | unregister conn => some (.unregister conn)
  | send .. | elsewhere _ => none

end HubUse

namespace ConnMethods

variable [DecidableEq π] [DecidableEq ω]

/-- A use of the hub; `none` where something is raised that is not caught. -/
def step (m : ConnMethods π ω σ δ) :
    EventHub π ω × σ → HubUse π ω σ δ → Option (EventHub π ω × σ)
  | (hub, world), .register conn userId => some (hub.register conn userId, world)
  | (hub, world), .join room conn => some (hub.join room conn, world)
  | (hub, world), .leave room conn => some (hub.leave room conn, world)
  | (hub, world), .unregister conn => (m.unregister conn hub world).toOption
  | (hub, world), .send whom targets event data =>
    if targets.Nodup ∧ targets.toFinset = hub.audience whom then
      (m.sendMany targets event data hub world).toOption.map Prod.fst
    else none
  | (hub, _), .elsewhere world => some (hub, world)

/-- The world after a connection's turn in the first loop. -/
def after (m : ConnMethods π ω σ δ) (event : Str) (data : δ) (world : σ) (conn : Conn π ω) : σ :=
  if m.closed conn world then world else (m.sendEvent conn event data world).2

/-- The connections with the world at the turn of each. -/
def turns (m : ConnMethods π ω σ δ) (event : Str) (data : δ) :
    List (Conn π ω) → σ → List (Conn π ω × σ)
  | [], _ => []
  | conn :: targets, world =>
    (conn, world) :: m.turns event data targets (m.after event data world conn)

/-- The connection is closed at its turn, or raises. -/
def fails (m : ConnMethods π ω σ δ) (event : Str) (data : δ) (turn : Conn π ω × σ) : Bool :=
  m.closed turn.1 turn.2 || (m.sendEvent turn.1 event data turn.2).1.isSome

/-- No method raises anything but an `Exception`. -/
structure OnlyExceptions (m : ConnMethods π ω σ δ) : Prop where
  sendEvent : ∀ conn event data world, (m.sendEvent conn event data world).1 ≠ some .baseException
  close : ∀ conn world, (m.close conn world).1 ≠ some .baseException

variable {m : ConnMethods π ω σ δ} {hub : EventHub π ω} {conn c : Conn π ω}

omit [DecidableEq π] [DecidableEq ω] in
theorem turns_targets (event : Str) (data : δ) (targets : List (Conn π ω)) (world : σ) :
    (m.turns event data targets world).map Prod.fst = targets := by
  induction targets generalizing world with
  | nil => rfl
  | cons conn targets ih => rw [turns, List.map_cons, ih]

omit [DecidableEq π] [DecidableEq ω] in
/-- What the first loop comes to, whoever raises. -/
theorem deliver_eq (hm : m.OnlyExceptions) (event : Str) (data : δ) (targets : List (Conn π ω))
    (r : Round π ω σ δ) :
    m.deliver event data targets r = .ok ⟨targets.foldl (m.after event data) r.world,
      r.dead ++ ((m.turns event data targets r.world).filter (m.fails event data)).map Prod.fst,
      r.calls ++ ((m.turns event data targets r.world).filter fun t => !m.closed t.1 t.2).map
        fun t => (t.1, event, data)⟩ := by
  induction targets generalizing r with
  | nil => simp [deliver, turns]
  | cons conn targets ih =>
    rw [deliver, turns, List.foldl_cons]
    cases hc : m.closed conn r.world with
    | true =>
      have hfails : m.fails event data (conn, r.world) = true := by
        simp only [fails, hc, Bool.true_or]
      have hafter : m.after event data r.world conn = r.world := by simp only [after, hc, ↓reduceIte]
      simp only [↓reduceIte, ih, hafter, List.filter_cons, hfails, hc, Bool.not_true,
        Bool.false_eq_true, List.map_cons, List.append_assoc, List.singleton_append]
    | false =>
      have hafter : m.after event data r.world conn =
          (m.sendEvent conn event data r.world).2 := by
        simp only [after, hc, Bool.false_eq_true, ↓reduceIte]
      cases hs : m.sendEvent conn event data r.world with
      | mk raised world =>
      rw [hs] at hafter
      cases raised with
      | none =>
        have hfails : m.fails event data (conn, r.world) = false := by simp [fails, hc, hs]
        simp only [Bool.false_eq_true, ↓reduceIte, ih, hafter, List.filter_cons, hfails, hc,
          Bool.not_false, List.map_cons, List.append_assoc, List.singleton_append]
      | some raised =>
        have hfails : m.fails event data (conn, r.world) = true := by simp [fails, hc, hs]
        cases raised with
        | exception =>
          simp only [Bool.false_eq_true, ↓reduceIte, ih, hafter, List.filter_cons, hfails, hc,
            Bool.not_false, List.map_cons, List.append_assoc, List.singleton_append]
        | baseException =>
          have hnot := hm.sendEvent conn event data r.world
          rw [hs] at hnot
          exact absurd rfl hnot

theorem unregister_eq (hm : m.OnlyExceptions) (conn : Conn π ω) (hub : EventHub π ω) (world : σ) :
    m.unregister conn hub world = .ok (hub.drop conn, (m.close conn world).2) := by
  have hnot := hm.close conn world
  rw [unregister]
  cases hc : m.close conn world with
  | mk raised world' =>
  rw [hc] at hnot
  cases raised with
  | none => rfl
  | some raised =>
    cases raised with
    | exception => rfl
    | baseException => exact absurd rfl hnot

/-- What the second loop comes to, whoever raises. -/
theorem evict_eq (hm : m.OnlyExceptions) (dead : List (Conn π ω)) (hub : EventHub π ω)
    (world : σ) : ∃ world', m.evict dead hub world =
      .ok (dead.foldl (fun hub conn => hub.drop conn) hub, world') := by
  induction dead generalizing hub world with
  | nil => exact ⟨world, rfl⟩
  | cons conn dead ih =>
    obtain ⟨world', h⟩ := ih (hub.drop conn) (m.close conn world).2
    refine ⟨world', ?_⟩
    rw [evict, unregister_eq hm]
    exact h

theorem sendMany_eq (hm : m.OnlyExceptions) (targets : List (Conn π ω)) (event : Str) (data : δ)
    (hub : EventHub π ω) (world : σ) :
    ∃ world', m.sendMany targets event data hub world =
      .ok (((((m.turns event data targets world).filter (m.fails event data)).map Prod.fst).foldl
          (fun hub conn => hub.drop conn) hub, world'),
        ((m.turns event data targets world).filter fun t => !m.closed t.1 t.2).map
          fun t => (t.1, event, data)) := by
  obtain ⟨world', h⟩ := evict_eq hm
    (((m.turns event data targets world).filter (m.fails event data)).map Prod.fst) hub
    (targets.foldl (m.after event data) world)
  refine ⟨world', ?_⟩
  rw [sendMany, deliver_eq hm]
  simp only [List.nil_append, bind, Except.bind, h]
  rfl

omit [DecidableEq π] [DecidableEq ω] in
/-- Where no method closes another connection, a connection is closed at its turn if it was before. -/
theorem closed_turn (c : Conn π ω) (h : ∀ conn, conn ≠ c → ∀ event data world,
      m.closed c (m.sendEvent conn event data world).2 = m.closed c world)
    {event : Str} {data : δ} {targets : List (Conn π ω)} (hnodup : targets.Nodup) {world world' : σ}
    (hturn : (c, world') ∈ m.turns event data targets world) :
    m.closed c world' = m.closed c world := by
  induction targets generalizing world with
  | nil => cases hturn
  | cons conn targets ih =>
    obtain ⟨hnot, hnodup⟩ := List.nodup_cons.1 hnodup
    rcases List.mem_cons.1 hturn with heq | hturn
    · cases heq
      rfl
    · rw [ih hnodup hturn, after]
      have hne : conn ≠ c := by
        rintro rfl
        apply hnot
        rw [← turns_targets event data targets (m.after event data world conn)]
        exact List.mem_map_of_mem hturn
      split
      · rfl
      · exact h conn hne event data world

end ConnMethods

namespace EventHub

variable [DecidableEq π] [DecidableEq ω] {hub : EventHub π ω} {c : Conn π ω}

/-- Unregistering one connection after another takes these out of the indexes, and no others. -/
structure Dropped (dead : List (Conn π ω)) (hub next : EventHub π ω) : Prop where
  sessions : ∀ c, c ∈ next.sessions ↔ c ∈ hub.sessions ∧ c ∉ dead
  rooms : ∀ c room, c ∈ Index.members next.rooms room ↔
    c ∈ Index.members hub.rooms room ∧ c ∉ dead
  users : ∀ c u, c ∉ dead → (c ∈ Index.members next.users u ↔ c ∈ Index.members hub.users u)

theorem dropped_foldl (dead : List (Conn π ω)) (hub : EventHub π ω) :
    Dropped dead hub (dead.foldl (fun hub conn => hub.drop conn) hub) := by
  induction dead generalizing hub with
  | nil => exact ⟨by simp, by simp, by simp⟩
  | cons conn dead ih =>
    obtain ⟨hsessions, hrooms, husers⟩ := ih (hub.drop conn)
    rw [List.foldl_cons]
    constructor
    · intro c
      have hdrop : c ∈ (hub.drop conn).sessions ↔ c ≠ conn ∧ c ∈ hub.sessions := Finset.mem_erase
      rw [hsessions, hdrop, List.mem_cons]
      tauto
    · intro c room
      have hdrop : c ∈ Index.members (hub.drop conn).rooms room ↔
        c ∈ Index.members hub.rooms room ∧ c ≠ conn := Index.mem_discardAll
      rw [hrooms, hdrop, List.mem_cons]
      tauto
    · intro c u hc
      rw [List.mem_cons, not_or] at hc
      rw [husers c u hc.2, mem_users_drop]
      tauto

theorem Consistent.dropAll (h : hub.Consistent) (dead : List (Conn π ω)) :
    (dead.foldl (fun hub conn => hub.drop conn) hub).Consistent := by
  induction dead generalizing hub with
  | nil => exact h
  | cons conn dead ih => exact ih (h.drop conn)

/-- Apart from what is closed, unregistering changes what dropping changes. -/
theorem unregister_foldl (dead : List (Conn π ω)) (hub : EventHub π ω) (closed : Conn π ω → Bool) :
    ∃ closed', dead.foldl (fun hub conn => hub.unregister conn) { hub with closed := closed } =
      { dead.foldl (fun hub conn => hub.drop conn) hub with closed := closed' } := by
  induction dead generalizing hub closed with
  | nil => exact ⟨closed, rfl⟩
  | cons conn dead ih => exact ih (hub.drop conn) (Function.update closed conn.closes true)

end EventHub

namespace ConnMethods

variable [DecidableEq π] [DecidableEq ω] {m : ConnMethods π ω σ δ}

theorem filter_mem_filter {κ : Type} [DecidableEq κ] {turns : List (κ × σ)} (p : κ × σ → Bool)
    (h : (turns.map Prod.fst).Nodup) :
    (turns.map Prod.fst).filter (fun k => k ∈ (turns.filter p).map Prod.fst) =
      (turns.filter p).map Prod.fst := by
  induction turns with
  | nil => rfl
  | cons t turns ih =>
    rw [List.map_cons, List.nodup_cons] at h
    have hnot : t.1 ∉ (turns.filter p).map Prod.fst := by
      intro hm
      obtain ⟨u, hu, he⟩ := List.mem_map.1 hm
      exact h.1 (he ▸ List.mem_map_of_mem (List.mem_of_mem_filter hu))
    have hne : ∀ k ∈ turns.map Prod.fst, k ≠ t.1 := fun k hk he => h.1 (he ▸ hk)
    cases hp : p t with
    | true =>
      rw [List.filter_cons, if_pos hp, List.map_cons, List.map_cons, List.filter_cons,
        if_pos (by simp)]
      have hsame : (turns.map Prod.fst).filter
          (fun k => k ∈ t.1 :: (turns.filter p).map Prod.fst) =
            (turns.map Prod.fst).filter fun k => k ∈ (turns.filter p).map Prod.fst := by
        apply List.filter_congr
        intro k hk
        simp only [List.mem_cons, hne k hk, false_or]
      rw [hsame, ih h.2]
    | false =>
      rw [List.filter_cons, if_neg (by simp [hp]), List.map_cons, List.filter_cons,
        if_neg (by simpa using hnot), ih h.2]

/-- The two loops change the indexes as a step of the hub does, for some outcome of the calls. -/
theorem sendMany_refines (hm : m.OnlyExceptions) {targets : List (Conn π ω)} (hnodup : targets.Nodup)
    (event : Str) (data : δ) (hub : EventHub π ω) (world : σ) :
    ∃ next world' calls, m.sendMany targets event data hub world = .ok ((next, world'), calls) ∧
      ∃ send closed, EventHub.sendMany targets send { hub with closed := fun _ => false } =
        { next with closed := closed } := by
  obtain ⟨world', hs⟩ := sendMany_eq hm targets event data hub world
  refine ⟨_, world', _, hs, fun conn => ⟨decide (conn ∈
    ((m.turns event data targets world).filter (m.fails event data)).map Prod.fst), false⟩, ?_⟩
  have hturns := turns_targets (m := m) event data targets world
  have hkeys : ((m.turns event data targets world).map Prod.fst).Nodup := by
    rw [hturns]
    exact hnodup
  have hdead := filter_mem_filter (m.fails event data) hkeys
  rw [hturns] at hdead
  rw [EventHub.sendMany]
  simp only [Bool.false_or, hdead]
  exact EventHub.unregister_foldl _ hub _

theorem step_consistent (hm : m.OnlyExceptions) {s next : EventHub π ω × σ}
    {use : HubUse π ω σ δ} (h : s.1.Consistent) (hplain : ∀ call ∈ use.call?, call.Plain)
    (hkeeps : ∀ call ∈ use.call?, s.1.KeepsUser call) (hstep : m.step s use = some next) :
    next.1.Consistent := by
  obtain ⟨hub, world⟩ := s
  -- what the calls on an object do to the indexes is known from the steps of the hub alone
  have hcall : ∀ call next', use.call? = some call → hub.step call = some next' →
      next'.Consistent := fun call next' hc hs => h.step (hplain call hc) (hkeeps call hc) hs
  cases use with
  | register conn userId =>
    cases hstep
    exact hcall _ _ rfl rfl
  | join room conn =>
    cases hstep
    exact hcall _ _ rfl rfl
  | leave room conn =>
    cases hstep
    exact hcall _ _ rfl rfl
  | unregister conn =>
    rw [step, unregister_eq hm] at hstep
    cases hstep
    exact h.drop conn
  | send whom targets event data =>
    rw [step] at hstep
    split at hstep
    · obtain ⟨world', hs⟩ := sendMany_eq hm targets event data hub world
      rw [hs] at hstep
      cases hstep
      exact h.dropAll _
    · cases hstep
  | elsewhere world' =>
    cases hstep
    exact h

/-- Where every key has one turn, what is done at the turns that `p` selects is done once. -/
theorem filter_turn {κ : Type} [DecidableEq κ] {turns : List (κ × σ)} (p : κ × σ → Bool) (x : γ)
    (h : (turns.map Prod.fst).Nodup) : ∀ t ∈ turns,
      (((turns.filter p).map fun t => (t.1, x)).filter fun call => call.1 = t.1) =
        if p t then [(t.1, x)] else [] := by
  have hnone : ∀ (turns : List (κ × σ)) (k : κ), k ∉ turns.map Prod.fst →
      ((turns.filter p).map fun t => (t.1, x)).filter (fun call => call.1 = k) = [] := by
    intro turns k hk
    rw [List.filter_eq_nil_iff]
    intro call hcall
    obtain ⟨t, ht, rfl⟩ := List.mem_map.1 hcall
    simp only [decide_eq_true_eq]
    intro he
    exact hk (he ▸ List.mem_map_of_mem (List.mem_of_mem_filter ht))
  induction turns with
  | nil => intro t ht; cases ht
  | cons u turns ih =>
    rw [List.map_cons, List.nodup_cons] at h
    intro t ht
    rcases List.mem_cons.1 ht with rfl | ht
    · cases hp : p t with
      | true => simp [hp, hnone turns t.1 h.1]
      | false => simp [hp, hnone turns t.1 h.1]
    · have hne : u.1 ≠ t.1 := fun he => h.1 (he ▸ List.mem_map_of_mem ht)
      rw [← ih h.2 t ht, List.filter_cons]
      split
      · rw [List.map_cons, List.filter_cons, if_neg (by simpa using hne)]
      · rfl

/-- Sending an event to all of an audience, in a hub that has only been used with plain objects which
keep their users: each target that is not closed at its turn gets the event once, those that are
closed or raise are in no index afterwards, the others stay where they are, and nothing is raised. -/
theorem send_isolated (m : ConnMethods π ω σ δ) (hm : m.OnlyExceptions) (start s : EventHub π ω × σ)
    (l : List ((EventHub π ω × σ) × HubUse π ω σ δ)) (hfresh : start.1.Fresh)
    (hrun : Run m.step start l s) (hplain : ∀ x ∈ l, ∀ call ∈ x.2.call?, call.Plain)
    (hkeeps : ∀ x ∈ l, ∀ call ∈ x.2.call?, x.1.1.KeepsUser call) (whom : Audience)
    (targets : List (Conn π ω)) (hnodup : targets.Nodup)
    (htargets : targets.toFinset = s.1.audience whom) (event : Str) (data : δ) :
    ∃ hub world calls, m.sendMany targets event data s.1 s.2 = .ok ((hub, world), calls) ∧
      (∀ c, c ∈ s.1.audience whom ↔ ∃ t ∈ m.turns event data targets s.2, t.1 = c) ∧
      (∀ t ∈ m.turns event data targets s.2, calls.filter (·.1 = t.1) =
        if m.closed t.1 t.2 then [] else [(t.1, event, data)]) ∧
      (∀ call ∈ calls, call.1 ∈ s.1.audience whom) ∧
      (∀ t ∈ m.turns event data targets s.2, m.fails event data t = true → hub.Absent t.1) ∧
      ∀ c, (∀ t ∈ m.turns event data targets s.2, t.1 = c → m.fails event data t = false) →
        (c ∈ hub.sessions ↔ c ∈ s.1.sessions) ∧
        (∀ room, c ∈ Index.members hub.rooms room ↔ c ∈ Index.members s.1.rooms room) ∧
        ∀ u, c ∈ Index.members hub.users u ↔ c ∈ Index.members s.1.users u := by
  have h : s.1.Consistent := by
    apply hrun.invariant (I := fun s => s.1.Consistent) hfresh.consistent
    intro x hx next hx' hstep
    exact step_consistent hm hx' (hplain x hx) (hkeeps x hx) hstep
  obtain ⟨world, hs⟩ := sendMany_eq hm targets event data s.1 s.2
  obtain ⟨hsessions, hrooms, husers⟩ := EventHub.dropped_foldl
    (((m.turns event data targets s.2).filter (m.fails event data)).map Prod.fst) s.1
  have hturns : ((m.turns event data targets s.2).map Prod.fst).Nodup := by
    rw [turns_targets]
    exact hnodup
  have hdead : ∀ c, c ∈ ((m.turns event data targets s.2).filter (m.fails event data)).map Prod.fst ↔
      ∃ t ∈ m.turns event data targets s.2, t.1 = c ∧ m.fails event data t = true := by
    intro c
    simp only [List.mem_map, List.mem_filter]
    constructor
    · rintro ⟨t, ⟨ht, hf⟩, rfl⟩
      exact ⟨t, ht, rfl, hf⟩
    · rintro ⟨t, ht, rfl, hf⟩
      exact ⟨t, ⟨ht, hf⟩, rfl⟩
  have haudience : ∀ c, c ∈ s.1.audience whom ↔
      ∃ t ∈ m.turns event data targets s.2, t.1 = c := by
    intro c
    rw [← htargets, List.mem_toFinset, ← List.mem_map, turns_targets]
  refine ⟨_, world, _, hs, haudience, ?_, ?_, ?_, ?_⟩
  · intro t ht
    rw [filter_turn _ (event, data) hturns t ht]
    cases m.closed t.1 t.2 with
    | true => rfl
    | false => rfl
  · intro call hcall
    obtain ⟨t, ht, rfl⟩ := List.mem_map.1 hcall
    exact (haudience t.1).2 ⟨t, List.mem_of_mem_filter ht, rfl⟩
  · intro t ht hf
    have hgone := (hdead t.1).2 ⟨t, ht, rfl, hf⟩
    apply (h.dropAll _).absent
    rw [hsessions]
    exact fun hin => hin.2 hgone
  · intro c hc
    have hstays := (hdead c).not.2 fun ⟨t, ht, he, hf⟩ => by
      rw [hc t ht he] at hf
      cases hf
    refine ⟨?_, ?_, fun u => husers c u hstays⟩
    · rw [hsessions]
      exact and_iff_left hstays
    · intro room
      rw [hrooms]
      exact and_iff_left hstays

/-- Two objects of which one raises from `send_event` and from `close`. -/
def flaky : ConnMethods Bool Unit Unit Unit where
  closed _ _ := false
  sendEvent conn _ _ world := (if conn = .plain false then some .exception else none, world)
  close conn world := (if conn = .plain false then some .exception else none, world)

theorem flaky_onlyExceptions : flaky.OnlyExceptions := by
  constructor
  · intro conn event data world
    simp only [flaky]
    split <;> decide
  · intro conn world
    simp only [flaky]
    split <;> decide

def emptyHub : EventHub Bool Unit := ⟨∅, ∅, ∅, fun _ => none, fun _ => false, 0⟩

def twoJoins : List (HubUse Bool Unit Unit Unit) :=
  [.join "lobby".toList (.plain false), .join "lobby".toList (.plain true)]

def twoJoined : EventHub Bool Unit :=
  (emptyHub.join "lobby".toList (.plain false)).join "lobby".toList (.plain true)

/-- The one that raises is evicted and the other one gets the event and stays. -/
theorem send_isolated_two : ∃ hub world calls,
    flaky.sendMany [.plain false, .plain true] "news".toList () twoJoined () =
      .ok ((hub, world), calls) ∧
    calls.filter (·.1 = .plain true) = [(.plain true, "news".toList, ())] ∧
    hub.Absent (.plain false) ∧ .plain true ∈ Index.members hub.rooms "lobby".toList := by
  have hrun : twoJoins.foldlM flaky.step (emptyHub, ()) = some (twoJoined, ()) := rfl
  have hcalls : ∀ use ∈ twoJoins, ∀ call ∈ use.call?, call.Plain ∧
      ∀ hub : EventHub Bool Unit, hub.KeepsUser call := by
    intro use huse call hcall
    rcases List.mem_cons.1 huse with rfl | huse
    · cases hcall
      exact ⟨fun conn hconn => ⟨false, by cases hconn; rfl⟩, fun hub => trivial⟩
    · cases List.mem_singleton.1 huse
      cases hcall
      exact ⟨fun conn hconn => ⟨true, by cases hconn; rfl⟩, fun hub => trivial⟩
  obtain ⟨hub, world, calls, hs, -, honce, -, hgone, hstays⟩ := send_isolated flaky
    flaky_onlyExceptions (emptyHub, ()) (twoJoined, ()) _ ⟨rfl, rfl, rfl⟩
    (Run.of_foldlM flaky.step (emptyHub, ()) _ hrun)
    (fun x hx call hcall => (hcalls x.2 (Run.mem_of_mem_trace hx) call hcall).1)
    (fun x hx call hcall => (hcalls x.2 (Run.mem_of_mem_trace hx) call hcall).2 x.1.1)
    (.room "lobby".toList) [.plain false, .plain true] (by decide) (by decide) "news".toList ()
  refine ⟨hub, world, calls, hs, ?_, ?_, ?_⟩
  · exact honce (.plain true, ()) (by simp [turns])
  · exact hgone (.plain false, ()) (by simp [turns]) rfl
  · refine ((hstays (.plain true) ?_).2.1 "lobby".toList).2 (by decide)
    intro t ht he
    obtain ⟨c, w⟩ := t
    cases he
    rfl

end ConnMethods

end Sovereign
