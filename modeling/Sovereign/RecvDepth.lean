import Sovereign.ControlFrames

namespace Sovereign
open Buffered
set_option autoImplicit true

/-- What `recv` may raise in an interpreter that limits the depth of calls. -/
inductive RecvExc where
  | raised (e : WsExc)
  | recursionError

namespace WebSocketSession

/-- The writer takes some items from the queue. -/
def drained (n : Nat) (s : WebSocketSession) : WebSocketSession :=
  { s with sendQueue := s.sendQueue.drop n }

/-- `recv`, with room for `limit` calls of itself, one within the other. `taken` says how many items
the writer takes from the queue before each of them. -/
def recvNested (monotonic : WsSocket cap → ℚ) : (limit : Nat) → (taken : List Nat) →
    WebSocketSession × WsSocket cap →
      Except (RecvExc × WebSocketSession) (UInt8 × Bytes × WebSocketSession × WsSocket cap)
  | 0, _, (s, _) => .error (.recursionError, s)
  | limit + 1, taken, (s, sock) =>
    match recvTurn monotonic (s.drained (taken.headD 0), sock) with
    | .error (e, s) => .error (.raised e, s)
    | .ok (.inl st) => recvNested monotonic limit taken.tail st
    | .ok (.inr r) => .ok r

/-- A queue of some length has room for the pong of every ping when it is sent. -/
def HasRoom (size : Nat) : (taken : List Nat) → (length : Nat) →
    List WebSocketFrame.Control → Prop
  | _, _, [] => True
  | taken, length, c :: controls =>
    if c.pong then HasRoom size taken.tail (length - taken.headD 0) controls
    else (size = 0 ∨ length - taken.headD 0 < size) ∧
      HasRoom size taken.tail (length - taken.headD 0 + 1) controls

variable {monotonic : WsSocket cap → ℚ}

/-- What is returned within the limit is what `recv` returns. -/
theorem recv_of_recvNested {s : WebSocketSession} {sock : WsSocket cap}
    (h : recvNested monotonic limit [] (s, sock) = .ok r) : s.recv monotonic sock = .ok r := by
  induction limit generalizing s sock with
  | zero => cases h
  | succ limit ih =>
    rw [recvNested] at h
    split at h
    · cases h
    · next st hturn =>
      have hmoves : (receiving monotonic).Moves (s, sock) st := hturn
      rw [recv, Machine.run_of_moves hmoves]
      exact ih h
    · next r' hturn =>
      have hdone : (receiving monotonic).step (s, sock) = .ok (.inr r') := hturn
      cases h
      exact Machine.run_of_done hdone

/-- A control frame of a client is taken in one turn, after which the session is still open. -/
theorem recvTurn_control (monotonic : WsSocket cap → ℚ) {s : WebSocketSession}
    {sock : WsSocket cap} (c : WebSocketFrame.Control)
    (hopen : s.closed = false) (hsize : c.payload.length ≤ s.maxPayload)
    (hroom : c.pong = false → s.queueSize = 0 ∨ s.sendQueue.length < s.queueSize)
    (hsock : sock.unread = WebSocketFrame.encode c.frame ++ rest) :
    ∃ s' sock', recvTurn monotonic (s, sock) = .ok (.inl (s', sock')) ∧ sock'.unread = rest ∧
      s'.closed = false ∧ s'.maxPayload = s.maxPayload ∧ s'.queueSize = s.queueSize ∧
      s'.sendQueue.length = s.sendQueue.length + if c.pong then 0 else 1 := by
  have hdecode := WebSocketFrame.decode_encode c.frame
    (Nat.lt_of_le_of_lt c.short (by decide)) rest
  rw [← hsock] at hdecode
  obtain ⟨sock', hunread, -, hread⟩ := s.readFrame_of_decode hdecode (Option.some_ne_none c.key)
  have hfits : ¬ s.maxPayload < c.frame.payload.length := Nat.not_lt.2 hsize
  rw [if_neg hfits] at hread
  have hturn := recvTurn_eq hread monotonic
  cases hpong : c.pong with
  | true =>
    have hopcode : c.frame.opcode = 10 := if_pos hpong
    rw [hopcode, if_neg (by decide), if_neg (by decide), if_pos rfl] at hturn
    refine ⟨_, sock', hturn, hunread, ?_⟩
    rw [pong_closed, pong_queue, pong]
    refine ⟨hopen, ?_, ?_, rfl⟩
    · split <;> rfl
    · split <;> rfl
  | false =>
    have hopcode : c.frame.opcode = 9 := by
      change (if c.pong = true then _ else _) = _
      rw [hpong]
      rfl
    have hheader : frameHeader 10 c.payload.length = some [138, UInt8.ofNat c.payload.length] := by
      have hshort := c.short
      rw [frameHeader, if_pos (by omega)]
      rfl
    have hsend : s.sendFrame 10 c.payload =
        .ok { s with sendQueue := s.sendQueue ++
          [some ([138, UInt8.ofNat c.payload.length] ++ c.payload)] } := by
      rw [sendFrame, hheader]
      refine enqueueFrame_ok.2 ⟨hopen, ?_⟩
      rw [putNowait_eq, if_pos (hroom hpong)]
    rw [hopcode, if_neg (by decide), if_pos rfl] at hturn
    have hpayload : c.frame.payload = c.payload := rfl
    rw [hpayload, hsend] at hturn
    refine ⟨_, sock', hturn, hunread, hopen, rfl, rfl, ?_⟩
    rw [List.length_append]
    rfl

variable {s : WebSocketSession} {sock : WsSocket cap} {controls : List WebSocketFrame.Control}

/-- Each control frame before the data frame takes one call more. -/
theorem recvNested_controls (monotonic : WsSocket cap → ℚ) (limit : Nat) (hop : opcode < 8)
    (hlen : payload.length < 2 ^ 64) (hopen : s.closed = false)
    (hsizes : ∀ c ∈ controls, c.payload.length ≤ s.maxPayload)
    (hsize : payload.length ≤ s.maxPayload)
    (hroom : HasRoom s.queueSize taken s.sendQueue.length controls)
    (hsock : sock.unread = (controls.map WebSocketFrame.Control.frame).flatMap
      WebSocketFrame.encode ++ (WebSocketFrame.encode (clientFrame fin opcode key payload hop) ++
        rest)) :
    ∃ s' sock', sock'.unread = rest ∧ recvNested monotonic limit taken (s, sock) =
      if controls.length < limit then .ok (opcode, payload, s', sock')
      else .error (.recursionError, s') := by
  induction controls generalizing s sock limit taken with
  | nil =>
    obtain ⟨sock', hunread, -, hread⟩ :=
      (s.drained (taken.headD 0)).readFrame_clientFrame hlen hsock
    have hfits : ¬ (s.drained (taken.headD 0)).maxPayload < payload.length := Nat.not_lt.2 hsize
    rw [if_neg hfits] at hread
    cases limit with
    | zero => exact ⟨s, sock', hunread, rfl⟩
    | succ limit =>
      have hne {n : UInt8} (hn : ¬ n < 8) : opcode ≠ n := by
        rintro rfl
        exact hn hop
      have hturn := recvTurn_eq hread monotonic
      rw [if_neg (hne (by decide)), if_neg (hne (by decide)), if_neg (hne (by decide))] at hturn
      refine ⟨s.drained (taken.headD 0), sock', hunread, ?_⟩
      rw [recvNested, hturn]
      exact (if_pos (Nat.succ_pos limit)).symm
  | cons c controls ih =>
    rw [List.forall_mem_cons] at hsizes
    rw [List.map_cons, List.flatMap_cons, List.append_assoc] at hsock
    rw [HasRoom] at hroom
    have hlength : (s.drained (taken.headD 0)).sendQueue.length =
        s.sendQueue.length - taken.headD 0 := List.length_drop
    have hfirst : c.pong = false → (s.drained (taken.headD 0)).queueSize = 0 ∨
        (s.drained (taken.headD 0)).sendQueue.length < (s.drained (taken.headD 0)).queueSize := by
      intro hpong
      rw [hpong, if_neg Bool.false_ne_true] at hroom
      rw [hlength]
      exact hroom.1
    obtain ⟨s₁, sock₁, hturn, hunread₁, hopen₁, hmax₁, hqueue₁, hlength₁⟩ :=
      recvTurn_control monotonic c (s := s.drained (taken.headD 0)) hopen hsizes.1 hfirst hsock
    have hroom₁ : HasRoom s₁.queueSize taken.tail s₁.sendQueue.length controls := by
      rw [hqueue₁, hlength₁, hlength]
      cases hpong : c.pong with
      | true =>
        rw [hpong] at hroom
        exact hroom
      | false =>
        rw [hpong, if_neg Bool.false_ne_true] at hroom
        exact hroom.2
    have hsizes₁ : ∀ c ∈ controls, c.payload.length ≤ s₁.maxPayload := hmax₁ ▸ hsizes.2
    have hsize₁ : payload.length ≤ s₁.maxPayload := hmax₁ ▸ hsize
    cases limit with
    | zero =>
      obtain ⟨-, sock', hunread, -⟩ := ih 0 hopen₁ hsizes₁ hsize₁ hroom₁ hunread₁
      exact ⟨s, sock', hunread, rfl⟩
    | succ limit =>
      obtain ⟨s', sock', hunread, hnested⟩ := ih limit hopen₁ hsizes₁ hsize₁ hroom₁ hunread₁
      refine ⟨s', sock', hunread, ?_⟩
      rw [recvNested, hturn]
      simp only [List.length_cons, Nat.add_lt_add_iff_right]
      exact hnested

/-- Behind pings and pongs the data frame is returned just if the interpreter allows a call of
`recv` for each of them and one more. -/
theorem recv_returns_iff (monotonic : WsSocket cap → ℚ) (limit : Nat) (taken : List Nat)
    (s : WebSocketSession) (sock : WsSocket cap) (controls : List WebSocketFrame.Control)
    (fin : Bool) (key : WebSocketFrame.Key) (payload rest : Bytes) (hop : opcode < 8)
    (hlen : payload.length < 2 ^ 64) (hopen : s.closed = false)
    (hsizes : ∀ c ∈ controls, c.payload.length ≤ s.maxPayload)
    (hsize : payload.length ≤ s.maxPayload)
    (hroom : HasRoom s.queueSize taken s.sendQueue.length controls)
    (hsock : sock.unread = (controls.map WebSocketFrame.Control.frame).flatMap
      WebSocketFrame.encode ++ (WebSocketFrame.encode (clientFrame fin opcode key payload hop) ++
        rest)) :
    ((∃ s' sock', recvNested monotonic limit taken (s, sock) = .ok (opcode, payload, s', sock')) ↔
      controls.length < limit) ∧
    ((∃ s', recvNested monotonic limit taken (s, sock) = .error (.recursionError, s')) ↔
      limit ≤ controls.length) := by
  obtain ⟨s', sock', -, hnested⟩ := recvNested_controls monotonic limit hop hlen hopen hsizes
    hsize hroom hsock
  rw [hnested]
  by_cases hlimit : controls.length < limit
  · rw [if_pos hlimit]
    refine ⟨iff_of_true ⟨s', sock', rfl⟩ hlimit, iff_of_false ?_ (Nat.not_le.2 hlimit)⟩
    rintro ⟨s'', h⟩
    cases h
  · rw [if_neg hlimit]
    refine ⟨iff_of_false ?_ hlimit, iff_of_true ⟨s', rfl⟩ (Nat.not_lt.1 hlimit)⟩
    rintro ⟨s'', sock'', h⟩
    cases h

/-- A client sends control frames and then a text, and waits. -/
def controlSock (controls : List WebSocketFrame.Control) (text : Bytes) :
    WsSocket ((controls.map WebSocketFrame.Control.frame).flatMap WebSocketFrame.encode ++
      (WebSocketFrame.encode (clientFrame true 1 sampleKey text sampleOpcode_lt) ++ [])).length :=
  ⟨[], [.data ⟨(controls.map WebSocketFrame.Control.frame).flatMap WebSocketFrame.encode ++
    (WebSocketFrame.encode (clientFrame true 1 sampleKey text sampleOpcode_lt) ++ []),
      List.append_ne_nil_of_right_ne_nil _ (List.cons_ne_nil _ _), le_refl _⟩]⟩

theorem controlSock_unread (controls : List WebSocketFrame.Control) (text : Bytes) :
    (controlSock controls text).unread =
      (controls.map WebSocketFrame.Control.frame).flatMap WebSocketFrame.encode ++
        (WebSocketFrame.encode (clientFrame true 1 sampleKey text sampleOpcode_lt) ++ []) :=
  List.append_nil _

def samplePing : WebSocketFrame.Control := ⟨false, sampleKey, [97], by decide⟩

def samplePong : WebSocketFrame.Control := ⟨true, sampleKey, [], by decide⟩

theorem recv_returns_iff_ping :
    ((∃ s' sock', recvNested (fun _ => 0) 1000 []
        (openSession, controlSock [samplePing] [104, 105]) = .ok (1, [104, 105], s', sock')) ↔
      [samplePing].length < 1000) ∧
    ((∃ s', recvNested (fun _ => 0) 1000 []
        (openSession, controlSock [samplePing] [104, 105]) = .error (.recursionError, s')) ↔
      1000 ≤ [samplePing].length) :=
  recv_returns_iff (fun _ => 0) 1000 [] openSession _ [samplePing] true sampleKey [104, 105] []
    sampleOpcode_lt (by decide) rfl (by decide) (by decide) ⟨.inr (by decide), trivial⟩
    (controlSock_unread _ _)

theorem hasRoom_pongs (n size length : Nat) (taken : List Nat) :
    HasRoom size taken length (List.replicate n samplePong) := by
  induction n generalizing taken length with
  | zero => trivial
  | succ n ih =>
    rw [List.replicate_succ, HasRoom, if_pos (show samplePong.pong = true from rfl)]
    exact ih _ _

/-- However many calls the interpreter allows, so many pongs exhaust them. -/
theorem exhausted (limit : Nat) :
    ∃ s', recvNested (fun _ => 0) limit []
      (openSession, controlSock (List.replicate limit samplePong) [104, 105]) =
        .error (.recursionError, s') := by
  have hsizes : ∀ c ∈ List.replicate limit samplePong,
      c.payload.length ≤ openSession.maxPayload := by
    intro c hc
    rw [List.eq_of_mem_replicate hc]
    decide
  have hfits : ([104, 105] : Bytes).length ≤ openSession.maxPayload := by decide
  obtain ⟨s', sock', -, hnested⟩ := recvNested_controls (fun _ => 0) limit sampleOpcode_lt
    (by decide) rfl hsizes hfits (hasRoom_pongs limit _ _ []) (controlSock_unread _ _)
  rw [List.length_replicate, if_neg (lt_irrefl limit)] at hnested
  exact ⟨s', hnested⟩

theorem recv_exhausted :
    ∃ s', recvNested (fun _ => 0) 1000 []
      (openSession, controlSock (List.replicate 1000 samplePong) [104, 105]) =
        .error (.recursionError, s') :=
  exhausted 1000

end WebSocketSession

end Sovereign
