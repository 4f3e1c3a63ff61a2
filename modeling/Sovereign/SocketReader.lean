import Sovereign.Lib.Buffered
import Sovereign.Request

namespace Sovereign
open Buffered
set_option autoImplicit true

/-- Why a `recv` on a client socket may fail. -/
inductive Outage where
  /-- nothing arrives within the idle timeout in force -/
  | idle
  /-- the absolute deadline of the request has passed -/
  | deadline
  /-- the operating system reports an error -/
  | reset
deriving DecidableEq

/-- `SocketReader`: its buffer, and what successive calls of `recv(4096)` on its socket yield. -/
abbrev SocketReader := Source UInt8 4096 Outage

/-- The exception `_recv_some` raises at an outage, or when `recv` returns no bytes. -/
def recvError : Option Outage → Exc
  | none => .clientClosed
  | some .idle => .httpError 408 "Request Timeout"
  | some .deadline => .httpError 408 "Absolute request timeout exceeded"
  | some .reset => .builtin .osError

namespace SocketReader

/-- `_read_until`: its loop ends with the marker in the buffer, or with a buffer over the limit. -/
def readUntil (marker : Bytes) (limit : Nat) (r : SocketReader) : Read (Bytes × SocketReader) :=
  match (r.seek marker limit).mapError recvError with
  | .error e => .error e
  | .ok (none, _) => .error (.httpError 431 "Read limit exceeded")
  | .ok (some data, r') => .ok (data, r')

def readHeaders (cfg : ServerConfig) (r : SocketReader) : Read (Bytes × SocketReader) :=
  r.readUntil headEnd (cfg.maxHeaderBytes + 4)

/-- `read_exact`. With a negative count the slice `buffer[:n]` is all but the last `-n` bytes of
the buffer, and nothing is received. -/
def readExact (n : Int) (r : SocketReader) : Read (Bytes × SocketReader) :=
  match n with
  | .ofNat n => (r.takeExact n).mapError recvError
  | .negSucc k =>
    let take := r.buffer.length - (k + 1)
    .ok (r.buffer.take take, ⟨r.buffer.drop take, r.pending⟩)

/-- The loop of `read_exact_body` that copies a large body into the spool. -/
def spoolParts : (fuel remaining : Nat) → (spool : Bytes) → SocketReader →
    Read (Bytes × SocketReader)
  | 0, _, spool, r => .ok (spool, r)
  | fuel + 1, remaining, spool, r =>
    if remaining = 0 then .ok (spool, r)
    else do
      let (part, r') ← r.readExact (min 65536 remaining : Nat)
      spoolParts fuel (remaining - part.length) (spool ++ part) r'

def readExactBody (cfg : ServerConfig) (length : Nat) (r : SocketReader) :
    Read (Body × SocketReader) :=
  if cfg.maxBodyBytes < length then .error (.httpError 413 "Payload Too Large")
  else if length ≤ cfg.maxMemoryBody then do
    let (content, r') ← r.readExact length
    return (.bytes content, r')
  else do
    let (content, r') ← spoolParts length length [] r
    return (.spool content, r')

theorem readExact_ofNat (n : Nat) (r : SocketReader) :
    r.readExact n = if n ≤ r.unread.length then .ok (r.unread.take n, r.advance n)
      else .error (recvError r.ending) := by
  change (r.takeExact n).mapError recvError = _
  rw [r.takeExact_eq]
  split <;> rfl

theorem readUntil_ok {marker data : Bytes} {r r' : SocketReader}
    (h : r.readUntil marker limit = .ok (data, r')) :
    ∃ b a, Marker.breakOn marker r.unread = some (b, a) ∧ data = b ++ marker ∧
      r' = r.advance (b.length + marker.length) := by
  simp only [readUntil] at h
  cases hs : r.seek marker limit with
  | error o => rw [hs] at h; cases h
  | ok res =>
    obtain ⟨_ | line, t⟩ := res
    · rw [hs] at h
      cases h
    · rw [hs] at h
      cases h
      exact Source.seek_ok hs

theorem readUntil_found {marker : Bytes} {r : SocketReader}
    (h : Marker.breakOn marker r.unread = some (b, a)) (hl : b.length + marker.length ≤ limit + 1) :
    r.readUntil marker limit = .ok (b ++ marker, r.advance (b.length + marker.length)) := by
  simp only [readUntil, Source.seek_found h hl, Except.mapError]

theorem readUntil_missing {marker : Bytes} {r : SocketReader}
    (h : Marker.breakOn marker r.unread = none) (hl : r.unread.length ≤ limit) :
    r.readUntil marker limit = .error (recvError r.ending) := by
  rcases r.seek_missing limit h with ⟨-, he⟩ | ⟨hlt, -⟩
  · simp only [readUntil, he, Except.mapError]
  · omega

theorem readUntil_over {marker : Bytes} {r : SocketReader}
    (h : Marker.breakOn marker r.unread = none) (hl : limit < r.unread.length) :
    r.readUntil marker limit = .error (.httpError 431 "Read limit exceeded") := by
  rcases r.seek_missing limit h with ⟨hle, -⟩ | ⟨-, t, ht⟩
  · omega
  · simp only [readUntil, ht, Except.mapError]

/-- A read consumes at least the marker. -/
theorem readUntil_length {marker data : Bytes} {r r' : SocketReader}
    (h : r.readUntil marker limit = .ok (data, r')) :
    r'.unread.length + marker.length ≤ r.unread.length := by
  obtain ⟨b, a, hb, rfl, rfl⟩ := readUntil_ok h
  have hl := congrArg List.length (Marker.breakOn_eq hb)
  simp only [List.length_append] at hl
  rw [r.advance_unread (by omega), List.length_drop]
  omega

theorem readExact_length {r r' : SocketReader} (h : r.readExact n = .ok (part, r')) :
    r'.unread.length ≤ r.unread.length := by
  cases n with
  | ofNat n =>
    rw [Int.ofNat_eq_natCast, readExact_ofNat] at h
    split at h
    · cases h
      rw [r.advance_unread (by assumption), List.length_drop]
      omega
    · cases h
  | negSucc k =>
    cases h
    simp only [Source.unread, List.length_append, List.length_drop]
    omega

/-- Reading a body in parts is reading it at once. -/
theorem spoolParts_eq {fuel remaining : Nat} (h : remaining ≤ fuel) (spool : Bytes)
    (r : SocketReader) :
    spoolParts fuel remaining spool r =
      if remaining ≤ r.unread.length then
        .ok (spool ++ r.unread.take remaining, r.advance remaining)
      else .error (recvError r.ending) := by
  induction fuel generalizing remaining spool r with
  | zero =>
    obtain rfl : remaining = 0 := by omega
    simp [spoolParts]
  | succ fuel ih =>
    by_cases h0 : remaining = 0
    · simp [spoolParts, h0]
    · simp only [spoolParts, h0, ↓reduceIte, readExact_ofNat, bind, Except.bind]
      by_cases hm : min 65536 remaining ≤ r.unread.length
      · have hlen : (r.unread.take (min 65536 remaining)).length = min 65536 remaining := by
          simp only [List.length_take]
          omega
        have hle : remaining - min 65536 remaining ≤ r.unread.length - min 65536 remaining ↔
            remaining ≤ r.unread.length := by omega
        simp only [hm, ↓reduceIte, hlen]
        rw [ih (by omega), r.advance_unread hm, List.length_drop, r.advance_ending]
        simp only [hle, r.advance_advance]
        split
        · have hsum : min 65536 remaining + (remaining - min 65536 remaining) = remaining := by
            omega
          rw [List.append_assoc, ← List.take_add, hsum]
        · rfl
      · have hr : ¬ remaining ≤ r.unread.length := by omega
        simp only [hm, hr, ↓reduceIte]

/-- The body is the next `length` bytes whether it is kept in memory or spooled. -/
theorem readExactBody_eq (cfg : ServerConfig) (length : Nat) (r : SocketReader) :
    r.readExactBody cfg length =
      if cfg.maxBodyBytes < length then .error (.httpError 413 "Payload Too Large")
      else if length ≤ r.unread.length then
        .ok (if length ≤ cfg.maxMemoryBody then .bytes (r.unread.take length)
          else .spool (r.unread.take length), r.advance length)
      else .error (recvError r.ending) := by
  simp only [readExactBody, readExact_ofNat, spoolParts_eq (Nat.le_refl length),
    List.nil_append]
  by_cases hr : length ≤ r.unread.length
  · by_cases hm : length ≤ cfg.maxMemoryBody <;> simp only [hr, hm, ↓reduceIte] <;> rfl
  · by_cases hm : length ≤ cfg.maxMemoryBody <;> simp only [hr, hm, ↓reduceIte] <;> rfl

end SocketReader

end Sovereign
