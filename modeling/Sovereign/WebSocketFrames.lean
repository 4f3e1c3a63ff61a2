import Sovereign.Lib.WebSocketFrame
import Sovereign.WebSocket

namespace Sovereign
open Buffered
set_option autoImplicit true

namespace WsSocket

theorem readExact_of_split {sock : WsSocket cap}
    (h : WebSocketFrame.split n sock.unread = some (x, y)) :
    ∃ sock', readExact n sock = .ok (x, sock') ∧ sock'.unread = y ∧ sock'.ending = sock.ending := by
  rw [WebSocketFrame.split] at h
  split at h
  · next hle =>
    cases h
    refine ⟨sock.advance n, ?_, Source.advance_unread hle, Source.advance_ending sock n⟩
    rw [readExact_eq, if_pos hle]
  · cases h

end WsSocket

namespace WebSocketSession

theorem readLength_of_decodeLength {sock : WsSocket cap}
    (h : WebSocketFrame.decodeLength field sock.unread = some (n, y)) :
    ∃ sock', readLength field sock = .ok (n, sock') ∧ sock'.unread = y ∧ sock'.ending =
    sock.ending := by
  rw [WebSocketFrame.decodeLength] at h
  rw [readLength]
  split at h
  · next hfield =>
    obtain ⟨⟨ext, y'⟩, hext, h⟩ := Option.bind_eq_some_iff.1 h
    obtain ⟨sock', hread, hunread, hending⟩ := WsSocket.readExact_of_split hext
    dsimp only at h
    split at h
    · cases h
    · cases h
      exact ⟨sock', by rw [if_pos hfield, hread]; rfl, hunread, hending⟩
  split at h
  · next hne hfield =>
    obtain ⟨⟨ext, y'⟩, hext, h⟩ := Option.bind_eq_some_iff.1 h
    obtain ⟨sock', hread, hunread, hending⟩ := WsSocket.readExact_of_split hext
    dsimp only at h
    split at h
    · cases h
    · cases h
      exact ⟨sock', by rw [if_neg hne, if_pos hfield, hread]; rfl, hunread, hending⟩
  · next hne hne' =>
    cases h
    exact ⟨sock, by rw [if_neg hne, if_neg hne'], rfl, rfl⟩

theorem unmask_eq (mask payload : Bytes) :
    unmask mask payload = WebSocketFrame.transform (fun i => mask.getD i 0) payload := rfl

theorem readPayload_of_split {sock : WsSocket cap}
    (hmask : WebSocketFrame.split 4 sock.unread = some (mask, y))
    (hdata : WebSocketFrame.split n y = some (data, z)) :
    ∃ sock', readPayload n sock = .ok (unmask mask data, sock') ∧ sock'.unread = z ∧
      sock'.ending = sock.ending := by
  obtain ⟨sock₁, hread, hunread, hending⟩ := WsSocket.readExact_of_split hmask
  rw [← hunread] at hdata
  obtain ⟨sock₂, hread', hunread', hending'⟩ := WsSocket.readExact_of_split hdata
  refine ⟨sock₂, ?_, hunread', hending'.trans hending⟩
  exact except_bind_eq_ok.2 ⟨_, hread, except_bind_eq_ok.2 ⟨_, hread', rfl⟩⟩

/-- `recv` reads every frame that a decoder accepts, where it is masked and not too long. -/
theorem readFrame_of_decode (s : WebSocketSession) {sock : WsSocket cap}
    (h : WebSocketFrame.decode sock.unread = some (f, y)) (hkey : f.key ≠ none) :
    ∃ sock', sock'.unread = y ∧ sock'.ending = sock.ending ∧
      s.readFrame sock =
        if s.maxPayload < f.payload.length then
          .error (.webSocketClosed, s.close 1009 "message too large".toList)
        else .ok (f.opcode, f.payload, sock') := by
  rw [WebSocketFrame.decode.eq_def] at h
  split at h
  · next b₁ b₂ bytes hunread =>
    split at h
    · cases h
    obtain ⟨⟨n, bytes₁⟩, hlength, h₁⟩ := Option.bind_eq_some_iff.1 h
    obtain ⟨⟨key, bytes₂⟩, hkeys, h₂⟩ := Option.bind_eq_some_iff.1 h₁
    obtain ⟨⟨data, bytes₃⟩, hdata, h₃⟩ := Option.bind_eq_some_iff.1 h₂
    cases h₃
    rw [WebSocketFrame.decodeKey] at hkeys
    split at hkeys
    · next hmasked =>
      obtain ⟨⟨mask, bytes₄⟩, hmask, h₄⟩ := Option.bind_eq_some_iff.1 hkeys
      cases h₄
      obtain ⟨hread, hrest⟩ := WsSocket.readExact_of_append (n := 2) (x := [b₁, b₂]) hunread rfl
      rw [← hrest] at hlength
      obtain ⟨sock₂, hread₂, hunread₂, hending₂⟩ := readLength_of_decodeLength hlength
      rw [← hunread₂] at hmask
      obtain ⟨sock₃, hread₃, hunread₃, hending₃⟩ := readPayload_of_split hmask hdata
      have hn : data.length = n := WebSocketFrame.length_of_split hdata
      refine ⟨sock₃, hunread₃, ?_, ?_⟩
      · rw [hending₃, hending₂, Source.advance_ending]
      · have hpayload : ((some fun i : Fin 4 => mask.getD i 0).map fun key =>
            WebSocketFrame.transform key data).getD data = unmask mask data := rfl
        have hlen : (unmask mask data).length = n := by
          rw [unmask_eq, WebSocketFrame.length_transform, hn]
        rw [readFrame, hread]
        change (if b₂ &&& 128 = 0 then _ else _) = _
        rw [if_neg (of_decide_eq_true hmasked)]
        have hread₂' : readLength ([b₁, b₂].getD 1 0 &&& 127) (sock.advance 2) = .ok (n, sock₂) :=
          hread₂
        rw [hread₂', hpayload, hlen]
        change (if s.maxPayload < n then _ else _) = _
        split
        · rfl
        · rw [hread₃]
          rfl
    · cases hkeys
      exact absurd rfl hkey
  · cases h

/-- An opcode below 8 is not one of a control frame. -/
theorem recv_of_readFrame {s : WebSocketSession} {sock sock' : WsSocket cap} (hop : opcode < 8)
    (h : s.readFrame sock = .ok (opcode, data, sock')) (monotonic : WsSocket cap → ℚ) :
    s.recv monotonic sock = .ok (opcode, data, s, sock') := by
  have hne {n : UInt8} (hn : ¬ n < 8) : opcode ≠ n := by
    rintro rfl
    exact hn hop
  have hstep : (receiving monotonic).step (s, sock) = .ok (.inr (opcode, data, s, sock')) := by
    refine except_bind_eq_ok.2 ⟨_, h, ?_⟩
    dsimp only
    rw [if_neg (hne (by decide)), if_neg (hne (by decide)), if_neg (hne (by decide))]
  exact Machine.run_of_done hstep

/-- The frame that `_send_frame` sends. -/
def serverFrame (opcode : UInt8) (payload : Bytes) (hop : opcode < 8) : WebSocketFrame.Frame :=
  ⟨true, opcode, none, payload, UInt8.lt_trans hop (by decide)⟩

theorem sendFrame_eq (hop : opcode < 8) (payload : Bytes) (h : payload.length < 2 ^ 64)
    (s : WebSocketSession) :
    s.sendFrame opcode payload =
    s.enqueueFrame (WebSocketFrame.encode (serverFrame opcode payload hop)) := by
  have hheader : frameHeader opcode payload.length =
      some ((128 ||| opcode) :: WebSocketFrame.lengthField false payload.length) := by
    rw [frameHeader, WebSocketFrame.lengthField]
    have hflag (b : UInt8) : WebSocketFrame.flag false ||| b = b := UInt8.zero_or
    simp only [hflag]
    split
    · rfl
    split
    · next hle => rw [if_pos (by omega)]
    · next hle => rw [if_neg (by omega)]
  rw [sendFrame, hheader]
  rfl

/-- A frame of a client that is not a control frame. -/
def clientFrame (fin : Bool) (opcode : UInt8) (key : WebSocketFrame.Key) (payload : Bytes)
    (hop : opcode < 8) :
    WebSocketFrame.Frame :=
  ⟨fin, opcode, some key, payload, UInt8.lt_trans hop (by decide)⟩

theorem readFrame_clientFrame (s : WebSocketSession) {sock : WsSocket cap}
    (hlen : payload.length < 2 ^ 64)
    (hsock : sock.unread = WebSocketFrame.encode (clientFrame fin opcode key payload hop) ++ rest) :
    ∃ sock', sock'.unread = rest ∧ sock'.ending = sock.ending ∧
      s.readFrame sock =
        if s.maxPayload < payload.length then
          .error (.webSocketClosed, s.close 1009 "message too large".toList)
        else .ok (opcode, payload, sock') := by
  have hdecode := WebSocketFrame.decode_encode (clientFrame fin opcode key payload hop) hlen rest
  rw [← hsock] at hdecode
  exact s.readFrame_of_decode hdecode (Option.some_ne_none key)

/-- Client frames are received and server frames are sent as the protocol has it. -/
theorem frame_codec (hop : opcode < 8) (payload : Bytes) (hlen : payload.length < 2 ^ 64) :
    (∀ (s : WebSocketSession) (cap : Nat) (sock : WsSocket cap)
    (monotonic : WsSocket cap → ℚ) (fin : Bool)
        (key : WebSocketFrame.Key) (rest : Bytes), payload.length ≤ s.maxPayload →
        sock.unread = WebSocketFrame.encode (clientFrame fin opcode key payload hop) ++ rest →
        ∃ sock', s.recv monotonic sock = .ok (opcode, payload, s, sock') ∧ sock'.unread = rest ∧
          sock'.ending = sock.ending) ∧
      ∃ bytes, (∀ s : WebSocketSession, s.sendFrame opcode payload = s.enqueueFrame bytes) ∧
        (∀ s s' : WebSocketSession, s.enqueueFrame bytes = .ok s' →
          s'.sendQueue = s.sendQueue ++ [some bytes]) ∧
        WebSocketFrame.decode bytes = some (serverFrame opcode payload hop, []) ∧
        ∃ first, bytes = first :: (WebSocketFrame.lengthField false payload.length ++ payload) := by
  constructor
  · intro s cap sock monotonic fin key rest hsize hsock
    obtain ⟨sock', hunread, hending, hread⟩ := s.readFrame_clientFrame hlen hsock
    rw [if_neg (Nat.not_lt.2 hsize)] at hread
    exact ⟨sock', recv_of_readFrame hop hread monotonic, hunread, hending⟩
  · refine ⟨_, sendFrame_eq hop payload hlen, ?_, ?_, _, rfl⟩
    · intro s s' h
      obtain ⟨-, hput⟩ := enqueueFrame_ok.1 h
      rw [putNowait] at hput
      split at hput
      · cases hput
      · cases hput
        rfl
    · have hdecode := WebSocketFrame.decode_encode (serverFrame opcode payload hop) hlen []
      rwa [List.append_nil] at hdecode

def openSession : WebSocketSession := ⟨1024, 256, [], false, false, 0, none⟩

def sampleKey : WebSocketFrame.Key := fun i => UInt8.ofNat (i + 7)

/-- A frame arrives in three segments, of which two begin within the masking key. -/
def hiSock : WsSocket 4 :=
  ⟨[], [.data ⟨[129, 130, 7], by decide, by decide⟩, .data ⟨[8, 9, 10, 111], by decide, by decide⟩,
    .data ⟨[97], by decide, by decide⟩]⟩

theorem sampleOpcode_lt : (1 : UInt8) < 8 := by decide

theorem frame_codec_hi : ∃ sock', openSession.recv (fun _ => 0) hiSock =
    .ok (1, [104, 105], openSession, sock') ∧ sock'.unread = [] ∧ sock'.ending = none :=
  (frame_codec sampleOpcode_lt [104, 105] (by decide)).1 openSession 4 hiSock (fun _ => 0) true
    sampleKey [] (by decide) (by decide)

end WebSocketSession

end Sovereign
