import Sovereign.WebSocketFrames

namespace Sovereign
open Buffered
set_option autoImplicit true

/-- In a close frame a code of two bytes comes before the reason. -/
def IsClosePayload (payload : Bytes) : Prop :=
  2 ≤ payload.length ∧ (decodeUtf8 (payload.drop 2)).isSome = true

/-- A control frame of a server. -/
def IsControlFrame (bytes : Bytes) : Prop :=
  ∃ opcode payload, bytes = (0x80 ||| opcode) :: UInt8.ofNat payload.length :: payload ∧
    opcode ∈ [(8 : UInt8), 9, 10] ∧ payload.length ≤ 125 ∧ (opcode = 8 → IsClosePayload payload)

namespace WebSocketSession

/-- `close`, of which the code is any integer: `to_bytes` fails on one that needs more than two
bytes. -/
def closeWith (code : Int) (reason : Str) (s : WebSocketSession) : WebSocketSession :=
  if 0 ≤ code ∧ code < 65536 then s.close code.toNat reason
  else if s.closed then s
  else
    let s := { s with closed := true }
    let s := (s.putNowait none).getD s
    { s with shutDown := true }

/-- A frame would be accepted. -/
def Accepts (s : WebSocketSession) : Prop :=
  s.closed = false ∧ (s.queueSize = 0 ∨ s.sendQueue.length < s.queueSize)

instance (s : WebSocketSession) : Decidable s.Accepts := inferInstanceAs (Decidable (_ ∧ _))

/-- The frames that have come into the queue of a session since it was `s`. -/
def added (s s' : WebSocketSession) : List Bytes :=
  (s'.sendQueue.drop s.sendQueue.length).filterMap id

/-- The session after a call, whether it raised or not. -/
def after : Except (WsExc × WebSocketSession) WebSocketSession → WebSocketSession
  | .ok s => s
  | .error (_, s) => s

end WebSocketSession

/-- What happens to a session: one turn of `recv`, whatever the socket has for it, a call of `ping`
or `close` by the application or by the heartbeat, or the writer takes from the queue. -/
inductive WsEvent where
  | recv {cap : Nat} (sock : WsSocket cap) (monotonic : WsSocket cap → ℚ)
  | ping (payload : Bytes)
  | close (code : Int) (reason : Str)
  | write

namespace WsEvent

open WebSocketSession

def apply (s : WebSocketSession) : WsEvent → WebSocketSession
  | recv sock monotonic =>
    match recvTurn monotonic (s, sock) with
    | .error (_, s') => s'
    | .ok (.inl (s', _)) => s'
    | .ok (.inr (_, _, s', _)) => s'
  | ping payload => after (s.ping payload)
  | close code reason => s.closeWith code reason
  | write => { s with sendQueue := s.sendQueue.tail }

/-- The frames that a sequence of events brings into the queue. -/
def enqueued (s : WebSocketSession) : List WsEvent → List Bytes
  | [] => []
  | event :: events => added s (event.apply s) ++ enqueued (event.apply s) events

/-- What is given for a control frame fits into one. It matters only while frames are accepted. -/
def Legal (s : WebSocketSession) : WsEvent → Prop
  | recv sock _ => s.Accepts → ∀ data sock', s.readFrame sock = .ok (9, data, sock') →
      data.length < 2 ^ 64 → data.length ≤ 125
  | ping payload => s.Accepts → payload.length < 2 ^ 64 → payload.length ≤ 125
  | close code reason => s.Accepts → 0 ≤ code ∧ code < 65536 →
      (decodeUtf8 ((utf8 reason).take 120)).isSome = true
  | write => True

/-- Each event is legal when it happens. -/
def AllLegal (s : WebSocketSession) : List WsEvent → Prop
  | [] => True
  | event :: events => event.Legal s ∧ AllLegal (event.apply s) events

end WsEvent

section Frames

theorem ofNat_eq_of_le {n : Nat} (h : n ≤ 125) : UInt8.ofNat n ≠ 126 ∧ UInt8.ofNat n ≠ 127 := by
  have hnat : (UInt8.ofNat n).toNat = n := by
    rw [UInt8.toNat_ofNat']
    exact Nat.mod_eq_of_lt (Nat.lt_of_le_of_lt h (by decide))
  constructor
  · intro he
    rw [he] at hnat
    subst hnat
    exact absurd h (by decide)
  · intro he
    rw [he] at hnat
    subst hnat
    exact absurd h (by decide)

/-- A ping or a pong is a control frame just if it has the short length. -/
theorem isControlFrame_send (hop : opcode = 9 ∨ opcode = 10) {payload : Bytes}
    (hheader : WebSocketSession.frameHeader opcode payload.length = some header) :
    IsControlFrame (header ++ payload) ↔ payload.length ≤ 125 := by
  rw [WebSocketSession.frameHeader] at hheader
  constructor
  · rintro ⟨op, data, hbytes, -, hlength, -⟩
    obtain ⟨hne, hne'⟩ := ofNat_eq_of_le hlength
    by_contra hlong
    rw [if_neg (by omega)] at hheader
    split at hheader
    · cases hheader
      exact hne (List.cons.inj (List.cons.inj hbytes).2).1.symm
    split at hheader
    · cases hheader
      exact hne' (List.cons.inj (List.cons.inj hbytes).2).1.symm
    · cases hheader
  · intro hlength
    rw [if_pos (by omega)] at hheader
    cases hheader
    refine ⟨opcode, payload, rfl, ?_, hlength, ?_⟩
    · rcases hop with rfl | rfl <;> decide
    · rintro rfl
      rcases hop with h | h <;> cases h

/-- A close frame is a control frame just if its reason has not been cut within a character. -/
theorem isControlFrame_close (code : Nat) (reason : Str) :
    IsControlFrame (WebSocketSession.closeFrame code reason) ↔
      (decodeUtf8 ((utf8 reason).take 120)).isSome = true := by
  have hlength : (BigEndian.encode 2 code ++ (utf8 reason).take 120).length ≤ 125 := by
    rw [List.length_append, BigEndian.length_encode, List.length_take]
    omega
  have hdrop : (BigEndian.encode 2 code ++ (utf8 reason).take 120).drop 2 =
      (utf8 reason).take 120 := List.drop_left' (BigEndian.length_encode 2 code)
  constructor
  · rintro ⟨opcode, payload, hbytes, hop, -, hclose⟩
    obtain ⟨hfirst, hrest⟩ := List.cons.inj hbytes
    obtain ⟨-, rfl⟩ := List.cons.inj hrest
    have hop8 : opcode = 8 := by
      simp only [List.mem_cons, List.not_mem_nil, or_false] at hop
      rcases hop with rfl | rfl | rfl
      · rfl
      · cases hfirst
      · cases hfirst
    rw [← hdrop]
    exact (hclose hop8).2
  · intro hutf8
    refine ⟨8, _, rfl, by decide, hlength, fun _ => ⟨?_, ?_⟩⟩
    · rw [List.length_append, BigEndian.length_encode]
      exact Nat.le_add_right _ _
    · rw [hdrop]
      exact hutf8

end Frames

namespace WebSocketSession

variable {s : WebSocketSession}

theorem putNowait_eq (item : Option Bytes) (s : WebSocketSession) :
    s.putNowait item =
      if s.queueSize = 0 ∨ s.sendQueue.length < s.queueSize then
        some { s with sendQueue := s.sendQueue ++ [item] }
      else none := by
  rw [putNowait]
  by_cases h : s.queueSize = 0 ∨ s.sendQueue.length < s.queueSize
  · rw [if_pos h, if_neg (by omega)]
  · rw [if_neg h, if_pos (by omega)]

theorem added_append {s' : WebSocketSession} {l : List (Option Bytes)}
    (h : s'.sendQueue = s.sendQueue ++ l) : added s s' = l.filterMap id := by
  rw [added, h, List.drop_left]

theorem added_same {s' : WebSocketSession} (h : s'.sendQueue = s.sendQueue) : added s s' = [] := by
  rw [added, h, List.drop_length, List.filterMap_nil]

/-- The sentinel that `close` puts into the queue is no frame. -/
theorem sentinel_queue (s : WebSocketSession) :
    ∃ l, ((s.putNowait none).getD s).sendQueue = s.sendQueue ++ l ∧ l.filterMap id = [] := by
  rw [putNowait_eq]
  split
  · exact ⟨[none], rfl, rfl⟩
  · exact ⟨[], (List.append_nil _).symm, rfl⟩

theorem not_accepts_of_closed (h : s.closed = true) : ¬ s.Accepts := by
  intro haccepts
  rw [haccepts.1] at h
  cases h

theorem accepts_iff (h : ¬ s.closed = true) :
    s.Accepts ↔ s.queueSize = 0 ∨ s.sendQueue.length < s.queueSize :=
  and_iff_right (Bool.eq_false_iff.2 h)

theorem added_close (code : Nat) (reason : Str) (s : WebSocketSession) :
    added s (s.close code reason) = if s.Accepts then [closeFrame code reason] else [] := by
  rw [close]
  by_cases hclosed : s.closed = true
  · rw [if_pos hclosed, if_neg (not_accepts_of_closed hclosed)]
    exact added_same rfl
  · rw [if_neg hclosed]
    dsimp only
    rw [putNowait_eq (some (closeFrame code reason))]
    by_cases hroom : s.queueSize = 0 ∨ s.sendQueue.length < s.queueSize
    · obtain ⟨l, hl, hnone⟩ := sentinel_queue { s with
        closed := true, sendQueue := s.sendQueue ++ [some (closeFrame code reason)] }
      rw [if_pos ((accepts_iff hclosed).2 hroom), if_pos hroom, Option.getD_some]
      refine (added_append (hl.trans (List.append_assoc _ _ _))).trans ?_
      rw [List.filterMap_append, hnone]
      rfl
    · obtain ⟨l, hl, hnone⟩ := sentinel_queue { s with closed := true }
      rw [if_neg (mt (accepts_iff hclosed).1 hroom), if_neg hroom, Option.getD_none, ← hnone]
      exact added_append hl

theorem added_closeWith (code : Int) (reason : Str) (s : WebSocketSession) :
    added s (s.closeWith code reason) =
      if s.Accepts ∧ 0 ≤ code ∧ code < 65536 then [closeFrame code.toNat reason] else [] := by
  rw [closeWith]
  by_cases hcode : 0 ≤ code ∧ code < 65536
  · rw [if_pos hcode, added_close]
    simp only [hcode, and_true]
  · rw [if_neg hcode, if_neg fun h : s.Accepts ∧ _ => hcode h.2]
    by_cases hclosed : s.closed = true
    · rw [if_pos hclosed]
      exact added_same rfl
    · obtain ⟨l, hl, hnone⟩ := sentinel_queue { s with closed := true }
      rw [if_neg hclosed, ← hnone]
      exact added_append hl

theorem added_enqueueFrame (frame : Bytes) (s : WebSocketSession) :
    added s (after (s.enqueueFrame frame)) = if s.Accepts then [frame] else [] := by
  rw [enqueueFrame, putNowait_eq]
  by_cases hclosed : s.closed = true
  · rw [if_pos hclosed, if_neg (not_accepts_of_closed hclosed)]
    exact added_same rfl
  · rw [if_neg hclosed]
    by_cases hroom : s.queueSize = 0 ∨ s.sendQueue.length < s.queueSize
    · rw [if_pos hroom, if_pos ((accepts_iff hclosed).2 hroom)]
      exact added_append (l := [some frame]) rfl
    · have hfull : ¬ s.Accepts := mt (accepts_iff hclosed).1 hroom
      rw [if_neg hroom, if_neg hfull]
      -- The close frame for a full queue finds the queue full.
      exact (added_close _ _ s).trans (if_neg hfull)

/-- A frame is added whose length can be written. -/
theorem added_sendFrame (opcode : UInt8) (payload : Bytes) (s : WebSocketSession) :
    added s (after (s.sendFrame opcode payload)) =
      if s.Accepts then ((frameHeader opcode payload.length).map (· ++ payload)).toList
      else [] := by
  rw [sendFrame]
  cases frameHeader opcode payload.length with
  | none =>
    rw [Option.map_none, Option.toList_none, ite_self]
    exact added_same rfl
  | some header => exact added_enqueueFrame (header ++ payload) s

theorem frameHeader_isSome (opcode : UInt8) (n : Nat) :
    (frameHeader opcode n).isSome = true ↔ n < 2 ^ 64 := by
  rw [frameHeader]
  split
  · exact iff_of_true rfl (by omega)
  split
  · exact iff_of_true rfl (by omega)
  split
  · next h => exact iff_of_true rfl h
  · next h => exact iff_of_false Bool.false_ne_true h

/-- The pings and pongs that are added are legal just if they are short. -/
theorem sendFrame_legal (hop : opcode = 9 ∨ opcode = 10) (payload : Bytes) (s : WebSocketSession) :
    (∀ frame ∈ added s (after (s.sendFrame opcode payload)), IsControlFrame frame) ↔
      (s.Accepts → payload.length < 2 ^ 64 → payload.length ≤ 125) := by
  rw [added_sendFrame]
  by_cases haccepts : s.Accepts
  · rw [if_pos haccepts]
    cases hheader : frameHeader opcode payload.length with
    | none =>
      have hlong : ¬ payload.length < 2 ^ 64 := by
        rw [← frameHeader_isSome opcode, hheader]
        exact Bool.false_ne_true
      exact iff_of_true (fun _ h => absurd h List.not_mem_nil) fun _ h => absurd h hlong
    | some header =>
      have hshort : payload.length < 2 ^ 64 := by
        rw [← frameHeader_isSome opcode, hheader]
        rfl
      rw [Option.map_some, Option.toList_some, List.forall_mem_singleton,
        isControlFrame_send hop hheader]
      exact ⟨fun h _ _ => h, fun h => h haccepts hshort⟩
  · rw [if_neg haccepts]
    exact iff_of_true (fun _ h => absurd h List.not_mem_nil) fun h => absurd h haccepts

/-- Where no frame is read, the session is as before, or it is closed with a short reason. -/
theorem readFrame_error {sock : WsSocket cap} (h : s.readFrame sock = .error (e, s')) :
    s' = s ∨ s' = s.close 1002 "client frames must be masked".toList ∨
      s' = s.close 1009 "message too large".toList := by
  rw [readFrame] at h
  cases hhead : sock.readExact 2 with
  | error e =>
    rw [hhead] at h
    cases h
    exact .inl rfl
  | ok r =>
    rw [hhead] at h
    change (if _ then _ else _) = _ at h
    split at h
    · cases h
      exact .inr (.inl rfl)
    cases hlength : readLength (r.1.getD 1 0 &&& 0x7F) r.2 with
    | error e =>
      rw [hlength] at h
      cases h
      exact .inl rfl
    | ok r' =>
      rw [hlength] at h
      change (if _ then _ else _) = _ at h
      split at h
      · cases h
        exact .inr (.inr rfl)
      cases hpayload : readPayload r'.1 r'.2 with
      | error e =>
        rw [hpayload] at h
        cases h
        exact .inl rfl
      | ok r'' =>
        rw [hpayload] at h
        cases h

/-- What `recv` does with a frame that it has read. -/
theorem recvTurn_eq {sock sock' : WsSocket cap} (h : s.readFrame sock = .ok (opcode, data, sock'))
    (monotonic : WsSocket cap → ℚ) :
    recvTurn monotonic (s, sock) =
      if opcode = 8 then .error (.webSocketClosed, s.close 1000 [])
      else if opcode = 9 then do
        let s ← s.sendFrame 10 data
        .ok (.inl (s, sock'))
      else if opcode = 10 then .ok (.inl (s.pong (monotonic sock') data, sock'))
      else .ok (.inr (opcode, data, s, sock')) := by
  rw [recvTurn, h]
  rfl

theorem pong_queue (now : ℚ) (data : Bytes) (s : WebSocketSession) :
    (s.pong now data).sendQueue = s.sendQueue := by
  rw [pong]
  split <;> rfl

theorem close_legal (code : Nat) (reason : Str) (s : WebSocketSession)
    (h : (decodeUtf8 ((utf8 reason).take 120)).isSome = true) :
    ∀ frame ∈ added s (s.close code reason), IsControlFrame frame := by
  rw [added_close]
  split
  · rw [List.forall_mem_singleton, isControlFrame_close]
    exact h
  · exact fun _ h => absurd h List.not_mem_nil

end WebSocketSession

namespace WsEvent

open WebSocketSession

variable {s : WebSocketSession}

theorem nothing_added {s' : WebSocketSession} (h : s'.sendQueue = s.sendQueue) :
    ∀ frame ∈ added s s', IsControlFrame frame := by
  rw [added_same h]
  exact fun _ h => absurd h List.not_mem_nil

/-- One turn of `recv`. -/
theorem recv_legal (sock : WsSocket cap) (monotonic : WsSocket cap → ℚ) (s : WebSocketSession) :
    (∀ frame ∈ added s ((recv sock monotonic).apply s), IsControlFrame frame) ↔
      (recv sock monotonic).Legal s := by
  cases hread : s.readFrame sock with
  | error r =>
    obtain ⟨e, s'⟩ := r
    have hturn : (recv sock monotonic).apply s = s' := by
      rw [apply, recvTurn, hread]
      rfl
    refine iff_of_true ?_ fun _ data sock' h => ?_
    · rw [hturn]
      rcases readFrame_error hread with rfl | rfl | rfl
      · exact nothing_added rfl
      · exact close_legal _ _ s (by decide +kernel)
      · exact close_legal _ _ s (by decide +kernel)
    · rw [hread] at h
      cases h
  | ok r =>
    obtain ⟨opcode, data, sock'⟩ := r
    have hturn := recvTurn_eq hread monotonic
    by_cases hping : opcode = 9
    · subst hping
      have hafter : (recv sock monotonic).apply s = after (s.sendFrame 10 data) := by
        rw [apply, hturn, if_neg (by decide), if_pos rfl]
        cases s.sendFrame 10 data <;> rfl
      rw [hafter, sendFrame_legal (.inr rfl)]
      refine ⟨fun h haccepts _ _ hdata => ?_, fun h haccepts => h haccepts data sock' hread⟩
      rw [hread] at hdata
      cases hdata
      exact h haccepts
    · refine iff_of_true ?_ fun _ data' sock'' h => ?_
      · rw [apply, hturn, if_neg hping]
        by_cases hclose : opcode = 8
        · rw [if_pos hclose]
          exact close_legal 1000 [] s (by decide +kernel)
        rw [if_neg hclose]
        by_cases hpong : opcode = 10
        · rw [if_pos hpong]
          exact nothing_added (pong_queue _ data s)
        · rw [if_neg hpong]
          exact nothing_added rfl
      · rw [hread] at h
        cases h
        exact absurd rfl hping

/-- An event is legal just if it brings no illegal control frame into the queue. -/
theorem legal_iff (event : WsEvent) (s : WebSocketSession) :
    (∀ frame ∈ added s (event.apply s), IsControlFrame frame) ↔ event.Legal s := by
  cases event with
  | recv sock monotonic => exact recv_legal sock monotonic s
  | ping payload => exact sendFrame_legal (.inl rfl) payload { s with pendingPing := some payload }
  | close code reason =>
    rw [apply, added_closeWith, Legal]
    by_cases h : s.Accepts ∧ 0 ≤ code ∧ code < 65536
    · rw [if_pos h, List.forall_mem_singleton, isControlFrame_close]
      exact ⟨fun hreason _ _ => hreason, fun hreason => hreason h.1 h.2⟩
    · rw [if_neg h]
      exact iff_of_true (fun _ h => absurd h List.not_mem_nil)
        fun haccepts hcode => absurd ⟨haccepts, hcode⟩ h
  | write =>
    refine iff_of_true ?_ trivial
    have hnone : added s { s with sendQueue := s.sendQueue.tail } = [] := by
      rw [added, List.drop_eq_nil_of_le, List.filterMap_nil]
      rw [List.length_tail]
      exact Nat.sub_le _ _
    rw [apply, hnone]
    exact fun _ h => absurd h List.not_mem_nil

/-- All the control frames that a session puts into its queue are legal just if each ping of the
client, each payload for `ping` and each reason for `close` is legal when it comes. -/
theorem controlFrames_iff (s : WebSocketSession) (events : List WsEvent) :
    (∀ frame ∈ enqueued s events, IsControlFrame frame) ↔ AllLegal s events := by
  induction events generalizing s with
  | nil => exact iff_of_true (fun _ h => absurd h List.not_mem_nil) trivial
  | cons event events ih =>
    rw [enqueued, List.forall_mem_append, legal_iff, ih, AllLegal]

/-- The reason is cut within its last character. -/
theorem closeReason_cut :
    ¬ ∀ frame ∈ enqueued openSession [.close 1000 ('a' :: List.replicate 40 '€')],
      IsControlFrame frame := by
  intro h
  have hframe := h (closeFrame 1000 ('a' :: List.replicate 40 '€')) (by
    rw [enqueued, apply, added_closeWith, if_pos (by decide)]
    exact List.mem_append_left _ List.mem_cons_self)
  rw [isControlFrame_close] at hframe
  revert hframe
  decide +kernel

end WsEvent

end Sovereign
