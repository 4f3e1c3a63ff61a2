import Sovereign.SocketReader

namespace Sovereign
open Buffered
set_option autoImplicit true

/-- `_read_until` with any limit. Every buffer without the marker is over a negative one. -/
def SocketReader.readUntilWithin (marker : Bytes) (limit : Int) (r : SocketReader) :
    Read (Bytes × SocketReader) :=
  match limit with
  | .ofNat limit => r.readUntil marker limit
  | .negSucc _ =>
    if Marker.breakOn marker r.buffer = none then .error (.httpError 431 "Read limit exceeded")
    else r.readUntil marker 0

/-- A call of a method of `SocketReader` that returns bytes. -/
inductive ReaderCall where
  | readHeaders
  | readUntil (marker : Bytes) (nonempty : marker ≠ []) (limit : Int)
  | readExact (n : Nat)
  | readExactBody (length : Nat)

/-- A text ends with a marker, and no shorter beginning of the stream does. -/
structure ShortestEnding (marker stream data : Bytes) : Prop where
  begins : data <+: stream
  ends : marker <:+ data
  shortest : ∀ other, other <+: stream → marker <:+ other → data.length ≤ other.length

namespace ReaderCall

/-- The call on a reader. -/
def run (cfg : ServerConfig) (r : SocketReader) : ReaderCall → Read (Body × SocketReader)
  | readHeaders => (r.readHeaders cfg).map fun (data, r') => (.bytes data, r')
  | readUntil marker _ limit =>
    (r.readUntilWithin marker limit).map fun (data, r') => (.bytes data, r')
  | readExact n => (r.readExact n).map fun (data, r') => (.bytes data, r')
  | readExactBody length => r.readExactBody cfg length

/-- What the call may return in front of a stream. -/
def Returns (cfg : ServerConfig) (stream : Bytes) : ReaderCall → Body → Prop
  | readHeaders, body => ∃ data, body = .bytes data ∧ ShortestEnding headEnd stream data
  | readUntil marker _ _, body => ∃ data, body = .bytes data ∧ ShortestEnding marker stream data
  | readExact n, body => n ≤ stream.length ∧ body = .bytes (stream.take n)
  | readExactBody length, body => length ≤ stream.length ∧
      body = if length ≤ cfg.maxMemoryBody then .bytes (stream.take length)
        else .spool (stream.take length)

end ReaderCall

/-- Calls one after the other, as long as they succeed. -/
def runReader (cfg : ServerConfig) : List ReaderCall → SocketReader → Read (List Body × SocketReader)
  | [], r => .ok ([], r)
  | call :: calls, r => do
    let (body, r) ← call.run cfg r
    let (bodies, r) ← runReader cfg calls r
    return (body :: bodies, r)

/-- What some calls return in front of a stream, each in front of what the ones before have left. -/
inductive Answers (cfg : ServerConfig) : List ReaderCall → Bytes → List Body → Bytes → Prop
  | nil (stream : Bytes) : Answers cfg [] stream [] stream
  | cons {call calls body bodies stream left rest} (returns : call.Returns cfg stream body)
      (split : stream = body.toBytes ++ left) (answers : Answers cfg calls left bodies rest) :
      Answers cfg (call :: calls) stream (body :: bodies) rest

theorem ShortestEnding.unique (h : ShortestEnding marker stream data)
    (h' : ShortestEnding marker stream data') : data = data' := by
  have hle := h.shortest data' h'.begins h'.ends
  have hge := h'.shortest data h.begins h.ends
  exact (List.prefix_of_prefix_length_le h.begins h'.begins hle).eq_of_length (by omega)

/-- The text up to the first occurrence of a marker is the shortest that ends with it. -/
theorem shortestEnding_of_breakOn {marker stream : Bytes}
    (h : Marker.breakOn marker stream = some (b, a)) : ShortestEnding marker stream (b ++ marker) where
  begins := ⟨a, (Marker.breakOn_eq h).symm⟩
  ends := List.suffix_append b marker
  shortest other hbegins hends := by
    rw [List.length_append]
    exact (Marker.infix_prefix_iff h hbegins).1 hends.isInfix

/-- A call that succeeds takes what it returns off the stream. -/
theorem ReaderCall.run_ok {cfg : ServerConfig} {r r' : SocketReader} {call : ReaderCall}
    (h : call.run cfg r = .ok (body, r')) :
    r.unread = body.toBytes ++ r'.unread ∧ call.Returns cfg r.unread body := by
  have huntil : ∀ {marker limit data}, r.readUntil marker limit = .ok (data, r') →
      r.unread = data ++ r'.unread ∧ ShortestEnding marker r.unread data := by
    intro marker limit data hread
    obtain ⟨b, a, hbreak, rfl, rfl⟩ := SocketReader.readUntil_ok hread
    have hsplit := Marker.breakOn_eq hbreak
    refine ⟨?_, shortestEnding_of_breakOn hbreak⟩
    rw [← List.length_append, Source.advance_of_append hsplit]
    exact hsplit
  have htake : ∀ {n : Nat}, n ≤ r.unread.length →
      r.unread = r.unread.take n ++ (r.advance n).unread := by
    intro n hn
    rw [Source.advance_unread hn, List.take_append_drop]
  cases call with
  | readHeaders =>
    obtain ⟨⟨data, r'⟩, hread, heq⟩ := except_map_eq_ok.1 h
    cases heq
    exact ⟨(huntil hread).1, data, rfl, (huntil hread).2⟩
  | readUntil marker hne limit =>
    obtain ⟨⟨data, r'⟩, hread, heq⟩ := except_map_eq_ok.1 h
    cases heq
    cases limit with
    | ofNat limit => exact ⟨(huntil hread).1, data, rfl, (huntil hread).2⟩
    | negSucc limit =>
      rw [SocketReader.readUntilWithin] at hread
      split at hread
      · cases hread
      · exact ⟨(huntil hread).1, data, rfl, (huntil hread).2⟩
  | readExact n =>
    obtain ⟨⟨data, r'⟩, hread, heq⟩ := except_map_eq_ok.1 h
    cases heq
    rw [SocketReader.readExact_ofNat] at hread
    split at hread
    · next hn =>
      cases hread
      exact ⟨htake hn, hn, rfl⟩
    · cases hread
  | readExactBody length =>
    have hread : r.readExactBody cfg length = .ok (body, r') := h
    rw [SocketReader.readExactBody_eq] at hread
    split at hread
    · cases hread
    · split at hread
      · next hn =>
        cases hread
        refine ⟨?_, hn, rfl⟩
        have hbytes : (if length ≤ cfg.maxMemoryBody then Body.bytes (r.unread.take length)
            else .spool (r.unread.take length)).toBytes = r.unread.take length := by
          split
          · rfl
          · rfl
        rw [hbytes]
        exact htake hn
      · cases hread

/-- Calls that succeed return what is expected in front of the stream of their reader. -/
theorem answers_of_run {cfg : ServerConfig} {calls : List ReaderCall} {r r' : SocketReader}
    (h : runReader cfg calls r = .ok (bodies, r')) : Answers cfg calls r.unread bodies r'.unread := by
  induction calls generalizing r bodies with
  | nil =>
    cases h
    exact .nil _
  | cons call calls ih =>
    rw [runReader, except_bind_eq_ok] at h
    obtain ⟨⟨body, r₁⟩, hcall, h⟩ := h
    rw [except_bind_eq_ok] at h
    obtain ⟨⟨bodies', r₂⟩, hcalls, h⟩ := h
    cases h
    obtain ⟨hsplit, hreturns⟩ := ReaderCall.run_ok hcall
    exact .cons hreturns hsplit (ih hcalls)

/-- The results and what is left make up the stream. -/
theorem Answers.conserves (h : Answers cfg calls stream bodies rest) :
    bodies.flatMap Body.toBytes ++ rest = stream := by
  induction h with
  | nil stream => rfl
  | cons returns split answers ih =>
    rw [List.flatMap_cons, List.append_assoc, ih, ← split]

theorem ReaderCall.Returns.unique {call : ReaderCall} (h : call.Returns cfg stream body)
    (h' : call.Returns cfg stream body') : body = body' := by
  cases call with
  | readHeaders =>
    obtain ⟨data, rfl, hdata⟩ := h
    obtain ⟨data', rfl, hdata'⟩ := h'
    rw [hdata.unique hdata']
  | readUntil marker hne limit =>
    obtain ⟨data, rfl, hdata⟩ := h
    obtain ⟨data', rfl, hdata'⟩ := h'
    rw [hdata.unique hdata']
  | readExact n => rw [h.2, h'.2]
  | readExactBody length => rw [h.2, h'.2]

/-- There is only one way to answer in front of a stream. -/
theorem Answers.unique (h : Answers cfg calls stream bodies rest)
    (h' : Answers cfg calls stream bodies' rest') : bodies = bodies' := by
  induction h generalizing bodies' with
  | nil stream =>
    cases h'
    rfl
  | cons returns split answers ih =>
    cases h' with
    | cons returns' split' answers' =>
      obtain rfl := returns.unique returns'
      obtain rfl := List.append_cancel_left (split.symm.trans split')
      rw [ih answers']

/-- Successful calls of a reader conserve the bytes of its connection, return the parts of the stream
that they ask for, and return the same for every division of the stream into segments. -/
theorem reader_conserves (cfg : ServerConfig) (calls : List ReaderCall) (stream : Bytes)
    (segs : List (Segment UInt8 4096)) (hsegs : segs.flatMap Segment.items = stream)
    (hrun : runReader cfg calls (.ofSegments segs) = .ok (bodies, r)) :
    bodies.flatMap Body.toBytes ++ (r.buffer ++ avail r.pending) = stream ∧
      Answers cfg calls stream bodies (r.buffer ++ avail r.pending) ∧
      ∀ (segs' : List (Segment UInt8 4096)) bodies' r', segs'.flatMap Segment.items = stream →
        runReader cfg calls (.ofSegments segs') = .ok (bodies', r') → bodies' = bodies := by
  have hanswers := answers_of_run hrun
  rw [Source.ofSegments_unread, hsegs] at hanswers
  refine ⟨hanswers.conserves, hanswers, ?_⟩
  intro segs' bodies' r' hsegs' hrun'
  have hanswers' := answers_of_run hrun'
  rw [Source.ofSegments_unread, hsegs'] at hanswers'
  exact hanswers'.unique hanswers

/-- Three bytes up to a marker that comes in two deliveries, and one more. -/
theorem reader_conserves_split :
    ∃ r, runReader {} [.readUntil crlf (by decide) 8, .readExact 1]
        (.ofSegments [⟨[1, 13], by decide, by decide⟩, ⟨[10, 2, 3], by decide, by decide⟩]) =
          .ok ([.bytes [1, 13, 10], .bytes [2]], r) ∧
      [1, 13, 10, 2] ++ (r.buffer ++ avail r.pending) = [1, 13, 10, 2, 3] := by
  have hrun : runReader {} [.readUntil crlf (by decide) 8, .readExact 1]
      (.ofSegments [⟨[1, 13], by decide, by decide⟩, ⟨[10, 2, 3], by decide, by decide⟩]) =
        .ok ([.bytes [1, 13, 10], .bytes [2]], ⟨[3], []⟩) := by
    decide +kernel
  exact ⟨_, hrun, (reader_conserves {} _ [1, 13, 10, 2, 3] _ rfl hrun).1⟩

end Sovereign
