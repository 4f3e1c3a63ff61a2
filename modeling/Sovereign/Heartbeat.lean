import Mathlib.Algebra.Order.Field.Rat
import Mathlib.Tactic.Linarith
import Sovereign.Lib.Run
import Sovereign.WebSocket

namespace Sovereign
set_option autoImplicit true

/-- How a turn of the loop of `heartbeat` ends. -/
inductive Beat where
  | stopped
  | timedOut
  | failed
  | pinged
deriving DecidableEq

/-- A turn of the loop of `heartbeat` after its sleep, with the payload that `ping` draws. -/
def WebSocketSession.beat (timeout now : ℚ) (payload : Bytes) (s : WebSocketSession) :
    Beat × WebSocketSession :=
  if s.closed then (.stopped, s)
  else if s.pendingPing ≠ none ∧ timeout < now - s.lastPong then
    (.timedOut, s.close 1002 "heartbeat timeout".toList)
  else
    match s.ping payload with
    | .ok s => (.pinged, s)
    | .error (_, s) => (.failed, s.close 1000 [])

/-- What can come of a turn. -/
theorem WebSocketSession.beat_cases {s s' : WebSocketSession} {timeout now : ℚ}
    (h : s.beat timeout now payload = (b, s')) :
    b = .stopped ∧ s.closed = true ∧ s' = s ∨
      b = .timedOut ∧ s.closed = false ∧ s.pendingPing ≠ none ∧ timeout < now - s.lastPong ∧
      s'.closed = true ∨
      b = .failed ∧ s'.closed = true ∨ b = .pinged ∧ s.ping payload = .ok s' := by
  rw [beat] at h
  split at h
  · next hclosed =>
    cases h
    exact .inl ⟨rfl, hclosed, rfl⟩
  split at h
  · next hopen hlate =>
    cases h
    exact .inr (.inl ⟨rfl, Bool.eq_false_of_not_eq_true hopen, hlate.1, hlate.2, close_closed ..⟩)
  split at h
  · next hping =>
    cases h
    exact .inr (.inr (.inr ⟨rfl, hping⟩))
  · cases h
    exact .inr (.inr (.inl ⟨rfl, close_closed ..⟩))

/-- A session over time, with a client that answers pings. -/
structure Heartbeat where
  session : WebSocketSession
  now : ℚ
  /-- when the sleep of `heartbeat` can end, as long as it runs -/
  wake : Option ℚ
  /-- when each ping was sent that the client has not answered, and with which payload -/
  outstanding : List (ℚ × Bytes)
  /-- the last ping that was sent -/
  latest : Option (ℚ × Bytes)
  /-- `heartbeat` has closed the session because of its timeout. -/
  timedOut : Bool
deriving DecidableEq

/-- What happens at a time. -/
inductive HeartbeatTurn where
  | beat (t : ℚ) (payload : Bytes)
  /-- the application calls `ping` -/
  | ping (t : ℚ) (payload : Bytes)
  /-- the client sends a pong, which `recv` processes -/
  | pong (t : ℚ) (data : Bytes)
  /-- the writer takes a frame from the queue -/
  | write (t : ℚ)

namespace Heartbeat

variable (interval timeout : ℚ)

/-- Time does not go back, and no ping is answered later than the timeout after it was sent. -/
def Timely (t : ℚ) (h : Heartbeat) : Prop := h.now ≤ t ∧ ∀ p ∈ h.outstanding, t ≤ p.1 + timeout

instance (t : ℚ) (h : Heartbeat) : Decidable (h.Timely timeout t) :=
  inferInstanceAs (Decidable (_ ∧ _))

/-- A ping has been sent. -/
def pinged (t : ℚ) (payload : Bytes) (h : Heartbeat) : Heartbeat :=
  { h with outstanding := h.outstanding ++ [(t, payload)], latest := some (t, payload) }

def step (h : Heartbeat) : HeartbeatTurn → Option Heartbeat
  | .beat t payload =>
    if h.Timely timeout t ∧ (∃ wake ∈ h.wake, wake ≤ t) ∧ payload.length = 8 then
      match h.session.beat timeout t payload with
      | (.stopped, session) => some { h with session, now := t, wake := none }
      | (.timedOut, session) => some { h with session, now := t, wake := none, timedOut := true }
      | (.failed, session) => some { h with session, now := t, wake := none }
      | (.pinged, session) => some
          ({ h with session, now := t, wake := some (t + interval) }.pinged t payload)
    else none
  | .ping t payload =>
    -- there are no longer byte strings
    if h.Timely timeout t ∧ payload.length < 2 ^ 64 then
      match h.session.ping payload with
      | .ok session => some ({ h with session, now := t }.pinged t payload)
      | .error (_, session) => some { h with session, now := t }
    else none
  | .pong t data =>
    if h.Timely timeout t then
      some { h with
        session := h.session.pong t data
        now := t
        outstanding := h.outstanding.filter fun p => p.2 ≠ data }
    else none
  | .write t =>
    if h.Timely timeout t then
      some { h with session := { h.session with sendQueue := h.session.sendQueue.tail }, now := t }
    else none

/-- A session is new. -/
structure Fresh (h : Heartbeat) : Prop where
  closed : h.session.closed = false
  pendingPing : h.session.pendingPing = none
  lastPong : h.session.lastPong = h.now
  wake : h.wake = some (h.now + interval)
  outstanding : h.outstanding = []
  latest : h.latest = none
  timedOut : h.timedOut = false

/-- When `heartbeat` wakes up within the timeout after the last ping of an open session, that ping has
been answered, or the last pong that counted is not older than the timeout. -/
def Settled (h : Heartbeat) : HeartbeatTurn → Prop
  | .beat t _ => h.session.closed = false → ∀ p ∈ h.latest, t ≤ p.1 + timeout → p ∈ h.outstanding →
      t - h.session.lastPong ≤ timeout
  | .ping .. | .pong .. | .write _ => True

instance (h : Heartbeat) : (turn : HeartbeatTurn) → Decidable (h.Settled timeout turn)
  | .beat t _ => inferInstanceAs
      (Decidable (h.session.closed = false → ∀ p ∈ h.latest, t ≤ p.1 + timeout →
      p ∈ h.outstanding → t - h.session.lastPong ≤ timeout))
  | .ping .. | .pong .. | .write _ => .isTrue trivial

/-- The payload of the last ping, if that has not been answered. -/
def unanswered (h : Heartbeat) : Option Bytes :=
  (h.latest.filter fun p => p ∈ h.outstanding).map Prod.snd

structure Sound (h : Heartbeat) : Prop where
  pending : h.session.closed = false → h.session.pendingPing = h.unanswered
  timedOut : h.timedOut = false

variable {interval timeout : ℚ} {h next : Heartbeat}

theorem Fresh.sound (hfresh : h.Fresh interval) : h.Sound where
  pending _ := by rw [hfresh.pendingPing, unanswered, hfresh.latest]; rfl
  timedOut := hfresh.timedOut

theorem unanswered_pinged (h : Heartbeat) (t : ℚ) (payload : Bytes) :
    (h.pinged t payload).unanswered = some payload := by
  have hmem : (t, payload) ∈ (h.pinged t payload).outstanding := by simp [pinged]
  rw [unanswered, show (h.pinged t payload).latest = some (t, payload) from rfl, Option.filter_some]
  simp [hmem]

/-- A pong clears the slot just if it answers the last ping. -/
theorem pending_pong (hpending : h.session.pendingPing = h.unanswered) (t : ℚ) (data : Bytes) :
    (h.session.pong t data).pendingPing =
      { h with outstanding := h.outstanding.filter fun p => p.2 ≠ data }.unanswered := by
  cases hlatest : h.latest with
  | none =>
    have hnone : h.session.pendingPing = none := by rw [hpending, unanswered, hlatest]; rfl
    rw [WebSocketSession.pong, if_pos (.inl hnone)]
    rfl
  | some p =>
    rw [unanswered, hlatest, Option.filter_some] at hpending
    rw [unanswered, Option.filter_some, WebSocketSession.pong]
    by_cases hmem : p ∈ h.outstanding
    · rw [if_pos (decide_eq_true hmem), Option.map_some] at hpending
      by_cases hdata : p.2 = data
      · rw [if_pos (.inr (by rw [hpending, hdata])), if_neg]
        · rfl
        · simp [hdata]
      · rw [if_neg, if_pos, hpending]
        · rfl
        · simp [hdata, hmem]
        · rw [hpending]
          rintro (hnone | hsome)
          · cases hnone
          · exact hdata (Option.some.inj hsome).symm
    · rw [if_neg (by simpa using hmem)] at hpending
      rw [if_pos (.inl hpending), if_neg]
      · rfl
      · simp [hmem]

theorem Sound.not_timedOut (hsound : h.Sound) (htimely : h.Timely timeout t)
    (hsettled : h.Settled timeout (.beat t payload)) (hopen : h.session.closed = false)
    (hpending : h.session.pendingPing ≠ none) : ¬ timeout < t - h.session.lastPong := by
  rw [hsound.pending hopen, unanswered, Ne, Option.map_eq_none_iff] at hpending
  obtain ⟨p, hp⟩ := Option.ne_none_iff_exists'.1 hpending
  obtain ⟨hlatest, hmem⟩ := Option.filter_eq_some_iff.1 hp
  have hin : p ∈ h.outstanding := of_decide_eq_true hmem
  exact not_lt.2 (hsettled hopen p hlatest (htimely.2 p hin) hin)

theorem Sound.pinged {session : WebSocketSession} (hsound : h.Sound)
    (hping : h.session.ping payload = .ok session)
    (now : ℚ) (wake : Option ℚ) (t : ℚ) :
    ({ h with session, now, wake }.pinged t payload).Sound where
  pending _ := by
    rw [unanswered_pinged]
    exact (WebSocketSession.ping_ok hping).2.2.1
  timedOut := hsound.timedOut

/-- A session that is closed, and not because of the timeout. -/
theorem Sound.closed {session : WebSocketSession} (hsound : h.Sound)
    (hclosed : session.closed = true) (now : ℚ)
    (wake : Option ℚ) : { h with session, now, wake }.Sound where
  pending hopen := absurd hclosed (Bool.eq_false_iff.1 hopen)
  timedOut := hsound.timedOut

theorem Sound.step (hsound : h.Sound) (hsettled : h.Settled timeout turn)
    (hstep : h.step interval timeout turn = some next) : next.Sound := by
  cases turn with
  | beat t payload =>
    rw [Heartbeat.step] at hstep
    split at hstep
    · next htimely =>
      generalize hbeat : h.session.beat timeout t payload = r at hstep
      obtain ⟨b, session⟩ := r
      rcases WebSocketSession.beat_cases hbeat with ⟨rfl, hclosed, rfl⟩
        | ⟨rfl, hopen, hpending, hlate, -⟩ |
        ⟨rfl, hclosed⟩ | ⟨rfl, hping⟩
      · cases hstep
        exact hsound.closed hclosed t none
      · exact absurd hlate (hsound.not_timedOut htimely.1 hsettled hopen hpending)
      · cases hstep
        exact hsound.closed hclosed t none
      · cases hstep
        exact hsound.pinged hping t (some (t + interval)) t
    · cases hstep
  | ping t payload =>
    rw [Heartbeat.step] at hstep
    split at hstep
    · next htimely =>
      split at hstep
      · next session hping =>
        cases hstep
        exact hsound.pinged hping t h.wake t
      · next session hping =>
        cases hstep
        exact hsound.closed (WebSocketSession.ping_error hping htimely.2) t h.wake
    · cases hstep
  | pong t data =>
    rw [Heartbeat.step] at hstep
    split at hstep
    · cases hstep
      refine ⟨fun hopen => ?_, hsound.timedOut⟩
      have hopen' : h.session.closed = false := by
        rw [← WebSocketSession.pong_closed t data h.session]
        exact hopen
      exact pending_pong (hsound.pending hopen') t data
    · cases hstep
  | write t =>
    rw [Heartbeat.step] at hstep
    split at hstep
    · cases hstep
      exact ⟨hsound.pending, hsound.timedOut⟩
    · cases hstep

/-- Where the last ping is settled whenever the heartbeat wakes up, it never times out. -/
theorem never_timedOut (hfresh : start.Fresh interval)
    (hrun : Run (step interval timeout) start l h)
    (hsettled : ∀ x ∈ l, Settled timeout x.1 x.2) : h.timedOut = false := by
  have hsound : h.Sound := by
    apply hrun.invariant hfresh.sound
    intro x hx next hsound hstep
    exact hsound.step (hsettled x hx) hstep
  exact hsound.timedOut

/-- A turn of the heartbeat that is not settled closes the session. -/
theorem timedOut_of_unsettled (hsound : h.Sound)
    (hunsettled : ¬ h.Settled timeout (.beat t payload))
    (hstep : h.step interval timeout (.beat t payload) = some next) : next.timedOut = true := by
  simp only [Settled, not_forall, not_le] at hunsettled
  obtain ⟨hopen, p, hlatest, -, hin, hlate⟩ := hunsettled
  have hpending : h.session.pendingPing ≠ none := by
    rw [hsound.pending hopen, unanswered, Option.mem_def.1 hlatest, Option.filter_some,
      if_pos (decide_eq_true hin)]
    nofun
  have hbeat : h.session.beat timeout t payload =
    (.timedOut, h.session.close 1002 "heartbeat timeout".toList) := by
    rw [WebSocketSession.beat, if_neg (Bool.eq_false_iff.1 hopen), if_pos ⟨hpending, hlate⟩]
  rw [Heartbeat.step] at hstep
  split at hstep
  · rw [hbeat] at hstep
    cases hstep
    rfl
  · cases hstep

/-- The last ping is one of the heartbeat, which sleeps for the interval after it. -/
def Spaced (interval : ℚ) (h : Heartbeat) : Prop :=
  ∀ p ∈ h.latest, ∀ wake ∈ h.wake, p.1 + interval ≤ wake

theorem Spaced.step (hspaced : h.Spaced interval) (hping : ∀ t payload, turn ≠ .ping t payload)
    (hstep : h.step interval timeout turn = some next) : next.Spaced interval := by
  cases turn with
  | beat t payload =>
    rw [Heartbeat.step] at hstep
    split at hstep
    · split at hstep
      · cases hstep
        intro p _ wake hwake
        cases hwake
      · cases hstep
        intro p _ wake hwake
        cases hwake
      · cases hstep
        intro p _ wake hwake
        cases hwake
      · cases hstep
        intro p hp wake hwake
        cases hp
        cases hwake
        exact le_refl _
    · cases hstep
  | ping t payload => exact absurd rfl (hping t payload)
  | pong t data =>
    rw [Heartbeat.step] at hstep
    split at hstep
    · cases hstep
      exact hspaced
    · cases hstep
  | write t =>
    rw [Heartbeat.step] at hstep
    split at hstep
    · cases hstep
      exact hspaced
    · cases hstep

/-- An application that does not ping leaves the heartbeat enough time, if the timeout is shorter than
the interval. -/
theorem settled_of_no_ping (hlt : timeout < interval) (hfresh : start.Fresh interval)
    (hrun : Run (step interval timeout) start l h)
    (hping : ∀ x ∈ l, ∀ t payload, x.2 ≠ .ping t payload) :
    ∀ x ∈ l, Settled timeout x.1 x.2 := by
  have hstart : start.Spaced interval := by
    intro p hp
    rw [hfresh.latest] at hp
    cases hp
  have hspaced : ∀ x ∈ l, Spaced interval x.1 := by
    apply hrun.always hstart
    intro x hx next h hstep
    exact h.step (hping x hx) hstep
  rintro ⟨h, turn⟩ hx
  cases turn with
  | beat t payload =>
    obtain ⟨next, hstep⟩ := hrun.enabled _ hx
    intro _ p hp hle
    simp only [Heartbeat.step] at hstep
    split at hstep
    · next hguard =>
      obtain ⟨wake, hwake, hawake⟩ := hguard.2.1
      have hlater := hspaced _ hx p hp wake hwake
      linarith
    · cases hstep
  | ping t payload => trivial
  | pong t data => trivial
  | write t => trivial

/-- A session at time 0 with the default interval. -/
def idleHeart : Heartbeat := ⟨⟨1024, 256, [], false, false, 0, none⟩, 0, some 25, [], none, false⟩

theorem idleHeart_fresh : idleHeart.Fresh 25 := ⟨rfl, rfl, rfl, by decide +kernel, rfl, rfl, rfl⟩

def calmTurns : List HeartbeatTurn :=
  [.beat 25 (ascii "8 octets"), .pong 26 (ascii "8 octets"), .beat 50 (ascii "8 others")]

theorem never_timedOut_calm : ∃ h, calmTurns.foldlM (step 25 10) idleHeart = some h ∧
    h.timedOut = false := by
  obtain ⟨h, hrun⟩ : ∃ h, calmTurns.foldlM (step 25 10) idleHeart = some h :=
    Option.isSome_iff_exists.1 (by decide +kernel)
  refine ⟨h, hrun, never_timedOut idleHeart_fresh (Run.of_foldlM (step 25 10) idleHeart _ hrun) ?_⟩
  decide +kernel

def busyTurns : List HeartbeatTurn :=
  [.beat 25 (ascii "8 octets"), .pong 26 (ascii "8 octets"), .ping 49 (ascii "hello"),
  .beat 50 (ascii "8 others"),
    .pong 51 (ascii "hello")]

/-- The application pings shortly before the heartbeat wakes up, and the client answers each ping within
two seconds. -/
theorem timedOut_live : ∃ h, busyTurns.foldlM (step 25 10) idleHeart = some h ∧ h.timedOut = true ∧
    h.outstanding = [] := by
  have hend : (busyTurns.foldlM (step 25 10) idleHeart).map (fun h => (h.timedOut, h.outstanding)) =
      some (true, []) := by decide +kernel
  obtain ⟨h, hrun, hh⟩ := Option.map_eq_some_iff.1 hend
  cases h
  cases hh
  exact ⟨_, hrun, rfl, rfl⟩

end Heartbeat

end Sovereign
