import Mathlib.Data.Rat.Defs
import Sovereign.Lib.BigEndian
import Sovereign.Lib.Buffered
import Sovereign.Lib.Machine
import Sovereign.Python

namespace Sovereign
open Buffered
set_option autoImplicit true

/-- Why `recv` on the socket of a session may fail. -/
inductive WsOutage where
  | timeout
  | osError
deriving DecidableEq

inductive WsExc where
  | webSocketClosed
  | osError
  | overflowError
  | unicodeDecodeError
deriving DecidableEq

/-- What the threads of a `WebSocketSession` share. -/
structure WebSocketSession where
  maxPayload : Nat
  /-- the `maxsize` of `send_queue`, which is unbounded if it is 0 -/
  queueSize : Nat
  sendQueue : List (Option Bytes)
  closed : Bool
  /-- `shutdown` of the socket has been called. -/
  shutDown : Bool
  lastPong : ℚ
  pendingPing : Option Bytes
deriving DecidableEq

namespace WebSocketSession

/-- `send_queue.put_nowait(item)`; `none` is `queue.Full`. -/
def putNowait (item : Option Bytes) (s : WebSocketSession) : Option WebSocketSession :=
  if s.queueSize ≠ 0 ∧ s.queueSize ≤ s.sendQueue.length then none
  else some { s with sendQueue := s.sendQueue ++ [item] }

def closeFrame (code : Nat) (reason : Str) : Bytes :=
  let payload := BigEndian.encode 2 code ++ (utf8 reason).take 120
  136 :: UInt8.ofNat payload.length :: payload

/-- `WebSocketSession.close` -/
def close (code : Nat) (reason : Str) (s : WebSocketSession) : WebSocketSession :=
  if s.closed then s
  else
    let s := { s with closed := true }
    let s := (s.putNowait (some (closeFrame code reason))).getD s
    let s := (s.putNowait none).getD s
    { s with shutDown := true }

/-- `WebSocketSession._enqueue_frame` -/
def enqueueFrame (frame : Bytes) (s : WebSocketSession) :
    Except (WsExc × WebSocketSession) WebSocketSession :=
  if s.closed then .error (.webSocketClosed, s)
  else
    match s.putNowait (some frame) with
    | some s => .ok s
    | none => .error (.webSocketClosed, s.close 1008 "send queue full".toList)

theorem putNowait_some {s s' : WebSocketSession} (h : s.putNowait item = some s') :
    s' = { s with sendQueue := s.sendQueue ++ [item] } := by
  rw [putNowait] at h
  split at h
  · cases h
  · cases h
    rfl

theorem enqueueFrame_ok {s s' : WebSocketSession} :
    s.enqueueFrame frame = .ok s' ↔ s.closed = false ∧ s.putNowait (some frame) = some s' := by
  rw [enqueueFrame]
  cases s.closed with
  | true =>
    constructor
    · intro h
      cases h
    · rintro ⟨h, -⟩
      cases h
  | false =>
    cases s.putNowait (some frame) with
    | none =>
      constructor
      · intro h
        cases h
      · rintro ⟨-, h⟩
        cases h
    | some s₁ =>
      constructor
      · intro h
        cases h
        exact ⟨rfl, rfl⟩
      · rintro ⟨-, h⟩
        cases h
        rfl

@[simp] theorem close_closed (code : Nat) (reason : Str) (s : WebSocketSession) :
    (s.close code reason).closed = true := by
  have hput (item : Option Bytes) (s : WebSocketSession) :
    ((s.putNowait item).getD s).closed = s.closed := by
    cases hput : s.putNowait item with
    | none => rfl
    | some s' =>
      rw [putNowait_some hput]
      rfl
  rw [close]
  split
  · assumption
  · simp only [hput]

theorem enqueueFrame_error {s s' : WebSocketSession} (h : s.enqueueFrame frame = .error (e, s')) :
    s'.closed = true := by
  rw [enqueueFrame] at h
  split at h
  · cases h
    assumption
  split at h
  · cases h
  · cases h
    exact close_closed ..

/-- The header that `_send_frame` makes; `none` is the `OverflowError` of `to_bytes`. -/
def frameHeader (opcode : UInt8) (n : Nat) : Option Bytes :=
  let first := 0x80 ||| opcode
  if n < 126 then some [first, UInt8.ofNat n]
  else if n ≤ 0xFFFF then some (first :: 126 :: BigEndian.encode 2 n)
  else if n < 2 ^ 64 then some (first :: 127 :: BigEndian.encode 8 n)
  else none

/-- `WebSocketSession._send_frame` -/
def sendFrame (opcode : UInt8) (payload : Bytes) (s : WebSocketSession) :
    Except (WsExc × WebSocketSession) WebSocketSession :=
  match frameHeader opcode payload.length with
  | none => .error (.overflowError, s)
  | some header => s.enqueueFrame (header ++ payload)

/-- `WebSocketSession.ping`, with the payload that is given or drawn. -/
def ping (payload : Bytes) (s : WebSocketSession) :
    Except (WsExc × WebSocketSession) WebSocketSession :=
  { s with pendingPing := some payload }.sendFrame 9 payload

theorem ping_ok {s s' : WebSocketSession} (h : s.ping payload = .ok s') :
    s.closed = false ∧ s'.closed = false ∧ s'.pendingPing = some payload ∧ s'.lastPong =
    s.lastPong := by
  rw [ping, sendFrame] at h
  split at h
  · cases h
  · obtain ⟨hclosed, hput⟩ := enqueueFrame_ok.1 h
    rw [putNowait_some hput]
    exact ⟨hclosed, hclosed, rfl, rfl⟩

/-- A ping that is not sent finds or leaves the session closed. -/
theorem ping_error {s s' : WebSocketSession} (h : s.ping payload = .error (e, s'))
    (hlen : payload.length < 2 ^ 64) : s'.closed = true := by
  rw [ping, sendFrame] at h
  split at h
  · next hheader =>
    rw [frameHeader] at hheader
    split at hheader
    · cases hheader
    split at hheader
    · cases hheader
    · cases hheader
  · exact enqueueFrame_error h

/-- What `recv` does with a pong. -/
def pong (now : ℚ) (data : Bytes) (s : WebSocketSession) : WebSocketSession :=
  if s.pendingPing = none ∨ some data = s.pendingPing then
  { s with lastPong := now, pendingPing := none }
  else s

theorem pong_closed (now : ℚ) (data : Bytes) (s : WebSocketSession) :
    (s.pong now data).closed = s.closed := by
  rw [pong]
  split <;> rfl

end WebSocketSession

/-- `_read_exact`: what a `recv` that gets no bytes means. -/
def recvFailure : WsOutage → WsExc
  | .timeout => .webSocketClosed
  | .osError => .osError

abbrev WsSocket (cap : Nat) := Source UInt8 cap WsOutage

namespace WsSocket

/-- A turn of the loop of `_read_exact`. -/
def readTurn (n : Nat) : Bytes × WsSocket cap →
    Except WsExc ((Bytes × WsSocket cap) ⊕ (Bytes × WsSocket cap))
  | (buf, sock) =>
    if buf.length < n then
      match sock.recv (n - buf.length) with
      | .error outage => .error (recvFailure outage)
      | .ok ([], _) => .error .webSocketClosed
      | .ok (b :: bs, sock) => .ok (.inl (buf ++ b :: bs, sock))
    else .ok (.inr (buf, sock))

def reading (n : Nat) : Machine (Bytes × WsSocket cap) WsExc (Bytes × WsSocket cap) where
  step := readTurn n
  size := fun (buf, _) => n - buf.length
  decreasing := by
    rintro ⟨buf, sock⟩ ⟨buf', sock'⟩ h
    rw [readTurn] at h
    split at h
    · next hlt =>
      split at h
      · cases h
      · cases h
      · next b bs sock'' _ =>
        cases h
        simp only [List.length_append, List.length_cons]
        omega
    · cases h

/-- `WebSocketSession._read_exact` -/
def readExact (n : Nat) (sock : WsSocket cap) : Except WsExc (Bytes × WsSocket cap) :=
  (reading n).run ([], sock)

theorem run_reading (n : Nat) (buf : Bytes) (sock : WsSocket cap) :
    (reading n).run (buf, sock) =
      if n - buf.length ≤ sock.unread.length then
        .ok (buf ++ sock.unread.take (n - buf.length), sock.advance (n - buf.length))
      else .error ((sock.ending.map recvFailure).getD .webSocketClosed) := by
  generalize hm : n - buf.length = m
  induction m using Nat.strongRecOn generalizing buf sock with
  | ind m ih =>
    by_cases hlt : buf.length < n
    · by_cases hnil : sock.unread = []
      · have hstep : (reading n).step (buf, sock) =
            .error ((sock.ending.map recvFailure).getD .webSocketClosed) := by
          simp only [reading, readTurn, if_pos hlt, Source.recv_of_unread_nil hnil]
          cases sock.ending with
          | none => rfl
          | some o => rfl
        rw [Machine.run_of_error hstep, hnil, if_neg]
        rw [List.length_nil]
        omega
      · obtain ⟨k, hpos, hk, hle, hrecv⟩ := Source.recv_of_unread (Nat.sub_pos_of_lt hlt) hnil
        have hstep : (reading n).step (buf, sock) =
            .ok (.inl (buf ++ sock.unread.take k, sock.advance k)) := by
          simp only [reading, readTurn, if_pos hlt, hrecv]
          cases htake : sock.unread.take k with
          | nil =>
            have hlen := congrArg List.length htake
            rw [List.length_take, List.length_nil] at hlen
            omega
          | cons b bs => rfl
        have hlen : (buf ++ sock.unread.take k).length = buf.length + k := by
          rw [List.length_append, List.length_take, Nat.min_eq_left hle]
        have hm' : n - (buf ++ sock.unread.take k).length = m - k := by
          rw [hlen]
          omega
        rw [Machine.run_of_moves hstep, ih (m - k) (by omega) _ _ hm', Source.advance_unread hle,
          List.length_drop, Source.advance_advance, List.append_assoc, ← List.take_add]
        have hsum : k + (m - k) = m := by omega
        rw [hsum]
        split
        · rw [if_pos (by omega)]
        · rw [if_neg (by omega), Source.advance_ending]
    · have hzero : m = 0 := by omega
      subst hzero
      have hstep : (reading n).step (buf, sock) = .ok (.inr (buf, sock)) := by
        simp only [reading, readTurn, if_neg hlt]
      rw [Machine.run_of_done hstep, if_pos (Nat.zero_le _), List.take_zero, List.append_nil,
        Source.advance_zero]

/-- However the bytes arrive, `_read_exact` takes the next ones. -/
theorem readExact_eq (n : Nat) (sock : WsSocket cap) :
    readExact n sock =
      if n ≤ sock.unread.length then .ok (sock.unread.take n, sock.advance n)
      else .error ((sock.ending.map recvFailure).getD .webSocketClosed) :=
  run_reading n [] sock

theorem readExact_of_append {sock : WsSocket cap} (h : sock.unread = x ++ y) (hx : x.length = n) :
    readExact n sock = .ok (x, sock.advance n) ∧ (sock.advance n).unread = y := by
  subst hx
  refine ⟨?_, Source.advance_of_append h⟩
  rw [readExact_eq, if_pos (by rw [h, List.length_append]; exact Nat.le_add_right _ _), h,
    List.take_left]

theorem length_readExact {sock sock' : WsSocket cap} (h : readExact n sock = .ok (x, sock')) :
    sock'.unread.length + n = sock.unread.length := by
  rw [readExact_eq] at h
  split at h
  · next hle =>
    cases h
    rw [Source.advance_unread hle, List.length_drop]
    omega
  · cases h

end WsSocket

/-- `payload[i] ^= mask[i % 4]` for each `i`. -/
def unmask (mask payload : Bytes) : Bytes := payload.mapIdx fun i b => b ^^^ mask.getD (i % 4) 0

namespace WebSocketSession

/-- The length of a frame, of which the second byte has the lower seven bits. -/
def readLength (field : UInt8) (sock : WsSocket cap) : Except WsExc (Nat × WsSocket cap) :=
  if field = 126 then do
    let (ext, sock) ← sock.readExact 2
    .ok (BigEndian.decode ext, sock)
  else if field = 127 then do
    let (ext, sock) ← sock.readExact 8
    .ok (BigEndian.decode ext, sock)
  else .ok (field.toNat, sock)

def readPayload (length : Nat) (sock : WsSocket cap) : Except WsExc (Bytes × WsSocket cap) := do
  let (mask, sock) ← sock.readExact 4
  let (payload, sock) ← sock.readExact length
  .ok (unmask mask payload, sock)

/-- The part of `recv` that reads a frame: its opcode and its payload. -/
def readFrame (s : WebSocketSession) (sock : WsSocket cap) :
    Except (WsExc × WebSocketSession) (UInt8 × Bytes × WsSocket cap) := do
  let (h, sock) ← (sock.readExact 2).mapError (·, s)
  let b1 := h.getD 0 0
  let b2 := h.getD 1 0
  if b2 &&& 0x80 = 0 then .error (.webSocketClosed, s.close 1002 "client frames must be masked".toList)
  else do
    let (length, sock) ← (readLength (b2 &&& 0x7F) sock).mapError (·, s)
    if s.maxPayload < length then .error (.webSocketClosed, s.close 1009 "message too large".toList)
    else do
      let (data, sock) ← (readPayload length sock).mapError (·, s)
      .ok (b1 &&& 0x0F, data, sock)

/-- `recv` up to its result or to the call of itself. `monotonic` is the clock at a pong, after which
so much is left on the socket. -/
def recvTurn (monotonic : WsSocket cap → ℚ) : WebSocketSession × WsSocket cap →
    Except (WsExc × WebSocketSession)
      ((WebSocketSession × WsSocket cap) ⊕ (UInt8 × Bytes × WebSocketSession × WsSocket cap))
  | (s, sock) => do
    let (opcode, data, sock) ← s.readFrame sock
    if opcode = 8 then .error (.webSocketClosed, s.close 1000 [])
    else if opcode = 9 then do
      let s ← s.sendFrame 10 data
      .ok (.inl (s, sock))
    else if opcode = 10 then .ok (.inl (s.pong (monotonic sock) data, sock))
    else .ok (.inr (opcode, data, s, sock))

theorem length_readLength {sock sock' : WsSocket cap} (h : readLength field sock = .ok (n, sock')) :
    sock'.unread.length ≤ sock.unread.length := by
  rw [readLength] at h
  split at h
  · obtain ⟨⟨ext, sock₁⟩, hread, hr⟩ := except_bind_eq_ok.1 h
    cases hr
    have hlen := WsSocket.length_readExact hread
    omega
  split at h
  · obtain ⟨⟨ext, sock₁⟩, hread, hr⟩ := except_bind_eq_ok.1 h
    cases hr
    have hlen := WsSocket.length_readExact hread
    omega
  · cases h
    exact le_refl _

theorem length_readPayload {sock sock' : WsSocket cap}
    (h : readPayload n sock = .ok (data, sock')) :
    sock'.unread.length ≤ sock.unread.length := by
  obtain ⟨⟨mask, sock₁⟩, hmask, h₁⟩ := except_bind_eq_ok.1 h
  obtain ⟨⟨payload, sock₂⟩, hpayload, hr⟩ := except_bind_eq_ok.1 h₁
  cases hr
  have hlen := WsSocket.length_readExact hmask
  have hlen' := WsSocket.length_readExact hpayload
  omega

/-- A frame takes two bytes at least. -/
theorem length_readFrame {s : WebSocketSession} {sock sock' : WsSocket cap}
    (h : s.readFrame sock = .ok (opcode, data, sock')) :
    sock'.unread.length < sock.unread.length := by
  obtain ⟨⟨h₀, sock₁⟩, hread, h₁⟩ := except_bind_eq_ok.1 h
  have hlen := WsSocket.length_readExact (mapError_eq_ok.1 hread)
  dsimp only at h₁
  split at h₁
  · cases h₁
  obtain ⟨⟨n, sock₂⟩, hlength, h₂⟩ := except_bind_eq_ok.1 h₁
  have hlen' := length_readLength (mapError_eq_ok.1 hlength)
  dsimp only at h₂
  split at h₂
  · cases h₂
  obtain ⟨⟨payload, sock₃⟩, hpayload, hr⟩ := except_bind_eq_ok.1 h₂
  have hlen'' := length_readPayload (mapError_eq_ok.1 hpayload)
  dsimp only at hr
  cases hr
  omega

theorem recvTurn_moves {monotonic : WsSocket cap → ℚ} {s s' : WebSocketSession}
    {sock sock' : WsSocket cap}
    (h : recvTurn monotonic (s, sock) = .ok (.inl (s', sock'))) :
    ∃ opcode data, s.readFrame sock = .ok (opcode, data, sock') := by
  obtain ⟨⟨opcode, data, sock₁⟩, hframe, h₁⟩ := except_bind_eq_ok.1 h
  refine ⟨opcode, data, ?_⟩
  dsimp only at h₁
  split at h₁
  · cases h₁
  split at h₁
  · obtain ⟨s₂, -, hr⟩ := except_bind_eq_ok.1 h₁
    cases hr
    exact hframe
  split at h₁
  · cases h₁
    exact hframe
  · cases h₁

def receiving (monotonic : WsSocket cap → ℚ) :
    Machine (WebSocketSession × WsSocket cap) (WsExc × WebSocketSession)
      (UInt8 × Bytes × WebSocketSession × WsSocket cap) where
  step := recvTurn monotonic
  size := fun (_, sock) => sock.unread.length
  decreasing := by
    rintro ⟨s, sock⟩ ⟨s', sock'⟩ h
    obtain ⟨opcode, data, hframe⟩ := recvTurn_moves h
    exact length_readFrame hframe

/-- `WebSocketSession.recv` -/
def recv (monotonic : WsSocket cap → ℚ) (s : WebSocketSession) (sock : WsSocket cap) :
    Except (WsExc × WebSocketSession) (UInt8 × Bytes × WebSocketSession × WsSocket cap) :=
  (receiving monotonic).run (s, sock)

/-- `WebSocketSession.receive_text` -/
def receiveText (monotonic : WsSocket cap → ℚ) (s : WebSocketSession) (sock : WsSocket cap) :
    Except (WsExc × WebSocketSession) (Str × WebSocketSession × WsSocket cap) := do
  let (opcode, payload, s, sock) ← s.recv monotonic sock
  if opcode ≠ 1 then .error (.webSocketClosed, s)
  else
    match decodeUtf8 payload with
    | none => .error (.unicodeDecodeError, s)
    | some text => .ok (text, s, sock)

end WebSocketSession

end Sovereign
