import Sovereign.WebSocketFrames

namespace Sovereign
open Buffered
set_option autoImplicit true

theorem textOpcode_lt : (1 : UInt8) < 16 := by decide

namespace WebSocketSession

variable {s : WebSocketSession} {sock : WsSocket cap} {m : WebSocketFrame.Message}

/-- `receive_text` returns what the first frame of the message has. -/
theorem receiveText_eq (monotonic : WsSocket cap → ℚ)
    (hsock : sock.unread = m.encode 1 textOpcode_lt ++ rest) :
    ∃ sock', s.receiveText monotonic sock =
      if s.maxPayload < m.first.payload.length then
        .error (.webSocketClosed, s.close 1009 "message too large".toList)
      else
        match decodeUtf8 m.first.payload with
        | none => .error (.unicodeDecodeError, s)
        | some text => .ok (text, s, sock') := by
  have hfirst : sock.unread =
      WebSocketFrame.encode (clientFrame m.rest.isEmpty 1 m.first.key m.first.payload
      (by decide)) ++
        ((WebSocketFrame.continuation m.rest).flatMap WebSocketFrame.encode ++ rest) := by
    rw [hsock, ← List.append_assoc]
    rfl
  obtain ⟨sock', -, -, hread⟩ := s.readFrame_clientFrame m.first.length_lt hfirst
  refine ⟨sock', ?_⟩
  split
  · next hsize =>
    rw [if_pos hsize] at hread
    have hrecv : s.recv monotonic sock =
        .error (.webSocketClosed, s.close 1009 "message too large".toList) := by
      apply Machine.run_of_error
      simp only [receiving, recvTurn, hread]
      rfl
    rw [receiveText, hrecv]
    rfl
  · next hsize =>
    rw [if_neg hsize] at hread
    rw [receiveText, recv_of_readFrame (by decide) hread monotonic]
    rfl

/-- A text message is received as a whole just if it is in its first frame, and that is not too long. -/
theorem receiveText_whole (monotonic : WsSocket cap → ℚ) (htext : m.payload = utf8 text)
    (hsock : sock.unread = m.encode 1 textOpcode_lt ++ rest) :
    (∃ s' sock', s.receiveText monotonic sock = .ok (text, s', sock')) ↔
      m.first.payload.length ≤ s.maxPayload ∧ ∀ f ∈ m.rest, f.2.payload = [] := by
  obtain ⟨sock₁, hreceive⟩ := receiveText_eq (s := s) monotonic hsock
  rw [WebSocketFrame.Message.payload] at htext
  constructor
  · rintro ⟨s', sock', h⟩
    rw [hreceive] at h
    split at h
    · cases h
    · next hsize =>
      split at h
      · cases h
      · next hdecode =>
        cases h
        have hfirst := utf8_of_decodeUtf8 hdecode
        rw [← hfirst, List.append_right_eq_self, List.flatMap_eq_nil_iff] at htext
        exact ⟨Nat.not_lt.1 hsize, htext⟩
  · rintro ⟨hsize, hempty⟩
    rw [List.flatMap_eq_nil_iff.2 hempty, List.append_nil] at htext
    rw [if_neg (Nat.not_lt.2 hsize), htext, decodeUtf8_utf8] at hreceive
    exact ⟨s, sock₁, hreceive⟩

def helloMessage : WebSocketFrame.Message :=
  ⟨⟨sampleKey, utf8 "hel".toList, by decide⟩, [([], ⟨sampleKey, utf8 "lo".toList, by decide⟩)]⟩

/-- A client sends the message and then waits. -/
def messageSock (m : WebSocketFrame.Message) : WsSocket (m.encode 1 textOpcode_lt).length :=
  ⟨[], [.data ⟨m.encode 1 textOpcode_lt, List.cons_ne_nil _ _, le_refl _⟩]⟩

theorem messageSock_unread (m : WebSocketFrame.Message) :
    (messageSock m).unread = m.encode 1 textOpcode_lt ++ [] := rfl

/-- The first of two fragments is received for the whole. -/
theorem receiveText_fragment : helloMessage.payload = utf8 "hello".toList ∧
    ∃ s' sock', openSession.receiveText (fun _ => 0) (messageSock helloMessage) =
      .ok ("hel".toList, s', sock') := by
  refine ⟨rfl, openSession, ?_⟩
  obtain ⟨sock', h⟩ := receiveText_eq (s := openSession) (fun _ => 0)
    (messageSock_unread helloMessage)
  refine ⟨sock', ?_⟩
  rw [h, if_neg (by decide)]
  have hdecode : decodeUtf8 helloMessage.first.payload = some "hel".toList := decodeUtf8_utf8 _
  rw [hdecode]

def hiMessage : WebSocketFrame.Message := ⟨⟨sampleKey, utf8 "hi".toList, by decide⟩, []⟩

theorem receiveText_whole_hi :
    ∃ s' sock', openSession.receiveText (fun _ => 0) (messageSock hiMessage) =
    .ok ("hi".toList, s', sock') :=
  (receiveText_whole (fun _ => 0) rfl (messageSock_unread hiMessage)).2 ⟨by decide, by
    intro f hf
    cases hf⟩

end WebSocketSession

end Sovereign
