import Sovereign.ChunkedBody
import Sovereign.Framing
import Sovereign.Lib.Buffered

namespace Sovereign
open Buffered
set_option autoImplicit true

/-- Why a `StreamReader` may stop delivering before the peer closes. -/
inductive StreamOutage where
  /-- the timeout of the `wait_for` in force passes -/
  | timeout
  | reset
deriving DecidableEq

/-- `asyncio.StreamReader`. Deliveries have any length; a reset is met where the reader waits. -/
abbrev StreamReader (cap : Nat) := Source UInt8 cap StreamOutage

/-- What `readuntil` raises. -/
inductive StreamError where
  | incompleteRead
  | limitOverrun
  | outage (o : StreamOutage)
deriving DecidableEq

/-- The exception an outage shows as where nothing catches it. -/
def StreamOutage.exc : StreamOutage → Exc
  | .timeout => .builtin .timeoutError
  | .reset => .builtin .osError

/-- The default `limit` of a `StreamReader`. -/
def streamLimit : Nat := 65536

namespace StreamReader

def ended : Option StreamOutage → StreamError
  | none => .incompleteRead
  | some o => .outage o

/-- `StreamReader.readuntil`: an occurrence of the separator must start within the limit. -/
def readuntil (sep : Bytes) (r : StreamReader cap) :
    Except StreamError (Bytes × StreamReader cap) :=
  match r.seek sep (streamLimit + sep.length - 1) with
  | .error o => .error (ended o)
  | .ok (none, _) => .error .limitOverrun
  | .ok (some data, r') =>
    if streamLimit + sep.length < data.length then .error .limitOverrun else .ok (data, r')

/-- `StreamReader.readline`, which returns what there is when the peer has closed. -/
def readline (r : StreamReader cap) : Read (Bytes × StreamReader cap) :=
  match r.readuntil [10] with
  | .ok res => .ok res
  | .error .incompleteRead => .ok (r.unread, ⟨[], []⟩)
  | .error .limitOverrun => .error (.builtin .valueError)
  | .error (.outage o) => .error o.exc

/-- `AsyncBodyReader.read_headers` -/
def readHeaders (cfg : ServerConfig) (r : StreamReader cap) : Read (Bytes × StreamReader cap) :=
  match r.readuntil headEnd with
  | .error .incompleteRead => .error .clientClosed
  | .error .limitOverrun => .error (.httpError 431 "Read limit exceeded")
  | .error (.outage .timeout) => .error (.httpError 408 "Request Timeout")
  | .error (.outage .reset) => .error (.builtin .osError)
  | .ok (data, r') =>
    if cfg.maxHeaderBytes + 4 < data.length then
      .error (.httpError 431 "Header block too large")
    else .ok (data, r')

/-- What `read_exact` raises when `readexactly` does not get the bytes it asks for. -/
def exactError : Option StreamOutage → Exc
  | none => .clientClosed
  | some .timeout => .httpError 408 "Request Timeout"
  | some .reset => .builtin .osError

/-- `AsyncBodyReader.read_exact`: `readexactly` refuses a negative count. -/
def readExact (n : Int) (r : StreamReader cap) : Read (Bytes × StreamReader cap) :=
  match n with
  | .ofNat n => (r.takeExact n).mapError exactError
  | .negSucc _ => .error (.builtin .valueError)

def readExactBody (cfg : ServerConfig) (length : Nat) (r : StreamReader cap) :
    Read (Body × StreamReader cap) :=
  if cfg.maxBodyBytes < length then .error (.httpError 413 "Payload Too Large")
  else (r.readExact length).map fun (content, r') => (.bytes content, r')

/-- `bytes.rstrip(b"\r\n")` -/
def rstripLineEnd (line : Bytes) : Bytes := line.rdropWhile fun b => b = 13 ∨ b = 10

/-- A size line of `AsyncBodyReader.read_chunked_body`. -/
def readSizeLine (r : StreamReader cap) : Read (Bytes × StreamReader cap) :=
  match r.readline with
  | .error e => .error e
  | .ok ([], _) => .error .clientClosed
  | .ok (line, r') => .ok (rstripLineEnd line, r')

theorem readExact_ofNat (n : Nat) (r : StreamReader cap) :
    r.readExact n = if n ≤ r.unread.length then .ok (r.unread.take n, r.advance n)
      else .error (exactError r.ending) := by
  change (r.takeExact n).mapError exactError = _
  rw [r.takeExact_eq]
  split <;> rfl

/-- The outcome does not depend on how the bytes were delivered. -/
theorem readuntil_eq {sep : Bytes} (hs : sep ≠ []) (r : StreamReader cap) :
    r.readuntil sep = match Marker.breakOn sep r.unread with
      | some (b, _) =>
        if b.length ≤ streamLimit then .ok (b ++ sep, r.advance (b.length + sep.length))
        else .error .limitOverrun
      | none =>
        if r.unread.length < streamLimit + sep.length then .error (ended r.ending)
        else .error .limitOverrun := by
  have hpos : 0 < sep.length := List.length_pos_iff.2 hs
  cases hb : Marker.breakOn sep r.unread with
  | some res =>
    obtain ⟨b, a⟩ := res
    rcases r.seek_of_found (streamLimit + sep.length - 1) hb with h | ⟨hlt, t, h⟩
    · by_cases hl : b.length ≤ streamLimit
      · simp only [readuntil, h, hl, ↓reduceIte, List.length_append]
        rw [if_neg (by omega)]
      · simp only [readuntil, h, hl, ↓reduceIte, List.length_append]
        rw [if_pos (by omega)]
    · have hl : ¬ b.length ≤ streamLimit := by omega
      simp only [readuntil, h, hl, ↓reduceIte]
  | none =>
    rcases r.seek_missing (streamLimit + sep.length - 1) hb with ⟨hl, h⟩ | ⟨hl, t, h⟩
    · have hlt : r.unread.length < streamLimit + sep.length := by omega
      simp only [readuntil, h, hlt, ↓reduceIte]
    · have hlt : ¬ r.unread.length < streamLimit + sep.length := by omega
      simp only [readuntil, h, hlt, ↓reduceIte]

theorem readline_eq (r : StreamReader cap) :
    r.readline = match Marker.breakOn [10] r.unread with
      | some (b, _) =>
        if b.length ≤ streamLimit then .ok (b ++ [10], r.advance (b.length + 1))
        else .error (.builtin .valueError)
      | none =>
        if r.unread.length ≤ streamLimit then
          match r.ending with
          | none => .ok (r.unread, ⟨[], []⟩)
          | some o => .error o.exc
        else .error (.builtin .valueError) := by
  simp only [readline, readuntil_eq (List.cons_ne_nil 10 []), List.length_singleton]
  cases hb : Marker.breakOn [10] r.unread with
  | some res =>
    obtain ⟨b, a⟩ := res
    by_cases hl : b.length ≤ streamLimit <;> simp only [hl, ↓reduceIte]
  | none =>
    have hlt : r.unread.length < streamLimit + 1 ↔ r.unread.length ≤ streamLimit := Nat.lt_succ_iff
    by_cases hl : r.unread.length ≤ streamLimit
    · simp only [hlt, hl, ↓reduceIte]
      cases r.ending <;> rfl
    · simp only [hlt, hl, ↓reduceIte]

/-- Reading a line ends at a line feed, or takes everything up to the end of the stream. -/
theorem readline_ok {r r' : StreamReader cap} (h : r.readline = .ok (line, r')) :
    (∃ b a, Marker.breakOn [10] r.unread = some (b, a) ∧ b.length ≤ streamLimit ∧
      line = b ++ [10] ∧ r' = r.advance (b.length + 1)) ∨
    (Marker.breakOn [10] r.unread = none ∧ r.unread.length ≤ streamLimit ∧ r.ending = none ∧
      line = r.unread ∧ r' = ⟨[], []⟩) := by
  rw [readline_eq] at h
  split at h
  · next b a hb =>
    split at h
    · next hl =>
      cases h
      exact .inl ⟨b, a, hb, hl, rfl, rfl⟩
    · cases h
  · next hb =>
    split at h
    · next hl =>
      split at h
      · next he =>
        cases h
        exact .inr ⟨hb, hl, he, rfl, rfl⟩
      · cases h
    · cases h

/-- Before the end of the stream only an overlong line stops `readline`. -/
theorem readline_error {r : StreamReader cap} (hw : r.ending = none) (h : r.readline = .error e) :
    e = .builtin .valueError := by
  rw [readline_eq, hw] at h
  split at h
  · split at h <;> cases h
    rfl
  · split at h <;> cases h
    rfl

theorem readline_length {r r' : StreamReader cap} (h : r.readline = .ok (line, r')) :
    r'.unread.length + line.length = r.unread.length := by
  rcases readline_ok h with ⟨b, a, hb, -, rfl, rfl⟩ | ⟨-, -, -, rfl, rfl⟩
  · have hl := congrArg List.length (Marker.breakOn_eq hb)
    simp only [List.length_append, List.length_singleton] at hl
    rw [r.advance_unread (by omega), List.length_drop]
    simp only [List.length_append, List.length_singleton]
    omega
  · simp [Source.unread, avail]

theorem readSizeLine_of {r r' : StreamReader cap} (hne : text ≠ [])
    (h : r.readline = .ok (text, r')) : r.readSizeLine = .ok (rstripLineEnd text, r') := by
  cases text with
  | nil => exact absurd rfl hne
  | cons b text => simp only [readSizeLine, h]

theorem readSizeLine_ok {r r' : StreamReader cap} (h : r.readSizeLine = .ok (line, r')) :
    ∃ text, text ≠ [] ∧ r.readline = .ok (text, r') ∧ line = rstripLineEnd text := by
  simp only [readSizeLine] at h
  split at h
  · cases h
  · cases h
  · next text t hne ht =>
    cases h
    exact ⟨text, hne, ht, rfl⟩

theorem readExact_length {r r' : StreamReader cap} (h : r.readExact n = .ok (part, r')) :
    r'.unread.length ≤ r.unread.length := by
  cases n with
  | ofNat n =>
    rw [Int.ofNat_eq_natCast, readExact_ofNat] at h
    split at h
    · cases h
      rw [r.advance_unread (by assumption), List.length_drop]
      omega
    · cases h
  | negSucc k => cases h

/-- The reads of `AsyncBodyReader.read_chunked_body`. -/
def chunkSource (cap : Nat) : ChunkSource (StreamReader cap) where
  readSizeLine := readSizeLine
  readTrailer := readline
  readExact := readExact
  unread r := r.unread
  sizeLine_shrinks h := by
    obtain ⟨text, hne, ht, -⟩ := readSizeLine_ok h
    have hl := readline_length ht
    have hpos := List.length_pos_iff.2 hne
    omega
  exact_shrinks h := readExact_length h

/-- `AsyncBodyReader.read_chunked_body` -/
def readChunkedBody (cfg : ServerConfig) (r : StreamReader cap) :
    Read (Body × Int × StreamReader cap) := do
  let (chunks, total, r) ← (ChunkLoop.machine (chunkSource cap) cfg).run (.start r)
  return (.bytes chunks, total, r)

def frontEnd (cap : Nat) : FrontEnd (StreamReader cap) where
  readHeaders := readHeaders
  readChunkedBody := readChunkedBody
  readExactBody := readExactBody

end StreamReader

/-- `parse_async_request` -/
def parseAsyncRequest [Urllib] (cfg : ServerConfig) (remoteAddr : Str) (reader : StreamReader cap) :
    Read (Request × StreamReader cap) :=
  (StreamReader.frontEnd cap).parse cfg remoteAddr reader

end Sovereign
