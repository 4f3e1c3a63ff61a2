import Sovereign.SocketReader

namespace Sovereign
open Buffered
set_option autoImplicit true

/-- What `read_headers` returns or raises when a stream arrives in these segments. -/
def headersOutcome (cfg : ServerConfig) (segs : List (Segment UInt8 4096)) : Except Exc Bytes :=
  (SocketReader.readHeaders cfg (.ofSegments segs)).map Prod.fst

/-- The limit of `read_headers`. -/
def headerLimit (cfg : ServerConfig) : Nat := cfg.maxHeaderBytes + 4

/-- The first empty line of a stream ends after this many bytes. -/
def HeadEnds (stream : Bytes) (n : Nat) : Prop :=
  ∃ b a, Marker.breakOn headEnd stream = some (b, a) ∧ n = b.length + headEnd.length

/-- The outcome of reading headers is a matter of the stream, not of its segments, and it is success
just if the headers are within the limit. -/
structure LimitedByBytes (cfg : ServerConfig) (stream : Bytes) : Prop where
  alike : ∀ segs segs', segs.flatMap Segment.items = stream → segs'.flatMap Segment.items = stream →
    headersOutcome cfg segs = headersOutcome cfg segs'
  succeeds : ∀ segs, segs.flatMap Segment.items = stream →
    ((∃ data, headersOutcome cfg segs = .ok data) ↔ ∃ n, HeadEnds stream n ∧ n ≤ headerLimit cfg)
  refused : ∀ segs e, segs.flatMap Segment.items = stream → headersOutcome cfg segs = .error e →
    e = .httpError 431 "Read limit exceeded" ∨
      e = .clientClosed ∧ (¬ ∃ n, HeadEnds stream n) ∧ stream.length ≤ headerLimit cfg

theorem HeadEnds.unique (h : HeadEnds stream n) (h' : HeadEnds stream n') : n = n' := by
  obtain ⟨b, a, hb, rfl⟩ := h
  obtain ⟨b', a', hb', rfl⟩ := h'
  rw [hb] at hb'
  cases hb'
  rfl

section Outcomes

variable {cfg : ServerConfig} {segs : List (Segment UInt8 4096)} {stream : Bytes}

theorem unread_segments (hstream : segs.flatMap Segment.items = stream) :
    (Source.ofSegments (ω := Outage) segs).unread = stream :=
  (Source.ofSegments_unread segs).trans hstream

theorem outcome_seek (segs : List (Segment UInt8 4096)) :
    headersOutcome cfg segs =
      match (Source.ofSegments segs).seek headEnd (headerLimit cfg) with
      | .error o => .error (recvError o)
      | .ok (none, _) => .error (.httpError 431 "Read limit exceeded")
      | .ok (some data, _) => .ok data := by
  rw [headersOutcome, SocketReader.readHeaders, SocketReader.readUntil, ← headerLimit]
  cases (Source.ofSegments segs).seek headEnd (headerLimit cfg) with
  | error o => rfl
  | ok found =>
    obtain ⟨_ | data, t⟩ := found
    · rfl
    · rfl

/-- Headers within the limit are read, however they arrive. -/
theorem outcome_within (hstream : segs.flatMap Segment.items = stream)
    (hb : Marker.breakOn headEnd stream = some (b, a))
    (hle : b.length + headEnd.length ≤ headerLimit cfg) :
    headersOutcome cfg segs = .ok (b ++ headEnd) := by
  rw [← unread_segments hstream] at hb
  have hread := SocketReader.readUntil_found hb (Nat.le_succ_of_le hle)
  rw [headersOutcome, SocketReader.readHeaders]
  exact congrArg (Except.map Prod.fst) hread

/-- Without an empty line the stream is refused at the limit, or the client has closed before. -/
theorem outcome_missing (hstream : segs.flatMap Segment.items = stream)
    (hb : Marker.breakOn headEnd stream = none) :
    headersOutcome cfg segs =
      if headerLimit cfg < stream.length then .error (.httpError 431 "Read limit exceeded")
      else .error .clientClosed := by
  rw [← unread_segments hstream] at hb ⊢
  rw [headersOutcome, SocketReader.readHeaders]
  split
  · next hlt => exact congrArg (Except.map Prod.fst) (SocketReader.readUntil_over hb hlt)
  · next hle =>
    have hread := SocketReader.readUntil_missing hb (Nat.not_lt.1 hle)
    rw [Source.ofSegments_ending] at hread
    exact congrArg (Except.map Prod.fst) hread

/-- Headers beyond the limit are read just if the delivery that exceeds the limit completes them. -/
theorem outcome_cut (hstream : segs.flatMap Segment.items = stream)
    (hb : Marker.breakOn headEnd stream = some (b, a))
    (hlt : headerLimit cfg < b.length + headEnd.length) :
    ∃ g rest, segs = g ++ rest ∧ headerLimit cfg < (g.flatMap Segment.items).length ∧
      (∀ g' seg, g = g' ++ [seg] → (g'.flatMap Segment.items).length ≤ headerLimit cfg) ∧
      headersOutcome cfg segs =
        if b.length + headEnd.length ≤ (g.flatMap Segment.items).length then .ok (b ++ headEnd)
        else .error (.httpError 431 "Read limit exceeded") := by
  subst hstream
  obtain ⟨g, rest, hsegs, hmin, hlast, hseek⟩ :=
    Source.seek_cut (ω := Outage) (headerLimit cfg) hb
  refine ⟨g, rest, hsegs, by omega, hlast, ?_⟩
  by_cases hfound : b.length + headEnd.length ≤ (g.flatMap Segment.items).length
  · rw [if_pos hfound] at hseek ⊢
    rw [outcome_seek, hseek]
  · rw [if_neg hfound] at hseek ⊢
    obtain ⟨t, hseek⟩ := hseek
    rw [outcome_seek, hseek]

/-- No delivery carries more than the socket is asked for, so that far beyond the limit all headers are
refused. -/
theorem outcome_beyond (hstream : segs.flatMap Segment.items = stream)
    (hb : Marker.breakOn headEnd stream = some (b, a))
    (hfar : headerLimit cfg + 4096 < b.length + headEnd.length) :
    headersOutcome cfg segs = .error (.httpError 431 "Read limit exceeded") := by
  have hover : headerLimit cfg < b.length + headEnd.length := by omega
  obtain ⟨g, rest, -, hlong, hlast, houtcome⟩ := outcome_cut hstream hb hover
  rw [houtcome, if_neg]
  rcases List.eq_nil_or_concat g with rfl | ⟨g', seg, rfl⟩
  · rw [List.flatMap_nil, List.length_nil]
    omega
  · have hbefore := hlast g' seg List.concat_eq_append
    have hbounded := seg.bounded
    rw [List.concat_eq_append, List.flatMap_append, List.length_append, List.flatMap_singleton]
    omega

end Outcomes

/-- Up to one delivery beyond the limit, headers can arrive so that they are read. -/
theorem exists_success {cfg : ServerConfig} {stream : Bytes}
    (hb : Marker.breakOn headEnd stream = some (b, a))
    (hlt : headerLimit cfg < b.length + headEnd.length)
    (hnear : b.length + headEnd.length ≤ headerLimit cfg + 4096) :
    ∃ segs : List (Segment UInt8 4096), segs.flatMap Segment.items = stream ∧
      headersOutcome cfg segs = .ok (b ++ headEnd) := by
  have hlength : (b ++ headEnd).length = b.length + headEnd.length := List.length_append
  have hpos : 0 < headEnd.length := by decide
  obtain ⟨before, hbefore⟩ := exists_segments (by decide : 0 < 4096)
    ((b ++ headEnd).take ((b ++ headEnd).length - 4096))
  obtain ⟨after, hafter⟩ := exists_segments (by decide : 0 < 4096) a
  -- The delivery that completes the headers begins within the limit.
  have hitems : ((b ++ headEnd).drop ((b ++ headEnd).length - 4096)).length =
      (b ++ headEnd).length - ((b ++ headEnd).length - 4096) := List.length_drop
  have hne : (b ++ headEnd).drop ((b ++ headEnd).length - 4096) ≠ [] := by
    apply List.ne_nil_of_length_pos
    omega
  have hbounded : ((b ++ headEnd).drop ((b ++ headEnd).length - 4096)).length ≤ 4096 := by
    omega
  have hflat : (before ++ ⟨_, hne, hbounded⟩ :: after).flatMap Segment.items = stream := by
    rw [List.flatMap_append, List.flatMap_cons, hbefore, hafter, ← List.append_assoc,
      List.take_append_drop]
    exact (Marker.breakOn_eq hb).symm
  refine ⟨_, hflat, ?_⟩
  obtain ⟨g, rest, hsegs, hlong, -, houtcome⟩ := outcome_cut hflat hb hlt
  rw [houtcome, if_pos]
  have hshort : (before.flatMap Segment.items).length ≤ headerLimit cfg := by
    rw [hbefore, List.length_take]
    omega
  rcases List.append_eq_append_iff.1 hsegs with ⟨more, rfl, hmore⟩ | ⟨more, rfl, -⟩
  · cases more with
    | nil =>
      rw [List.append_nil] at hlong
      omega
    | cons seg more =>
      rw [List.cons_append, List.cons.injEq] at hmore
      rw [← hmore.1, List.flatMap_append, List.flatMap_cons, hbefore, ← List.append_assoc,
        List.take_append_drop, List.length_append, hlength]
      exact Nat.le_add_right _ _
  · rw [List.flatMap_append, List.length_append] at hshort
    omega

/-- The outcome of reading headers is a matter of the bytes just if they do not end beyond the limit by
no more than one delivery. -/
theorem limitedByBytes_iff (cfg : ServerConfig) (stream : Bytes) :
    LimitedByBytes cfg stream ↔
      ¬ ∃ n, HeadEnds stream n ∧ headerLimit cfg < n ∧ n ≤ headerLimit cfg + 4096 := by
  constructor
  · rintro h ⟨n, ⟨b, a, hb, rfl⟩, hlt, hnear⟩
    obtain ⟨segs, hsegs, hok⟩ := exists_success hb hlt hnear
    obtain ⟨n, hends, hle⟩ := (h.succeeds segs hsegs).1 ⟨_, hok⟩
    rw [hends.unique ⟨b, a, hb, rfl⟩] at hle
    omega
  · intro hnot
    cases hb : Marker.breakOn headEnd stream with
    | none =>
      have hmissing : ¬ ∃ n, HeadEnds stream n := by
        rintro ⟨n, b, a, hb', -⟩
        rw [hb] at hb'
        cases hb'
      constructor
      · intro segs segs' hsegs hsegs'
        rw [outcome_missing hsegs hb, outcome_missing hsegs' hb]
      · intro segs hsegs
        rw [outcome_missing hsegs hb]
        constructor
        · rintro ⟨data, hdata⟩
          split at hdata
          · cases hdata
          · cases hdata
        · rintro ⟨n, hends, -⟩
          exact absurd ⟨n, hends⟩ hmissing
      · intro segs e hsegs he
        rw [outcome_missing hsegs hb] at he
        split at he
        · cases he
          exact .inl rfl
        · next hshort =>
          cases he
          exact .inr ⟨rfl, hmissing, Nat.not_lt.1 hshort⟩
    | some p =>
      obtain ⟨b, a⟩ := p
      have hends : HeadEnds stream (b.length + headEnd.length) := ⟨b, a, hb, rfl⟩
      by_cases hle : b.length + headEnd.length ≤ headerLimit cfg
      · constructor
        · intro segs segs' hsegs hsegs'
          rw [outcome_within hsegs hb hle, outcome_within hsegs' hb hle]
        · intro segs hsegs
          exact ⟨fun _ => ⟨_, hends, hle⟩, fun _ => ⟨_, outcome_within hsegs hb hle⟩⟩
        · intro segs e hsegs he
          rw [outcome_within hsegs hb hle] at he
          cases he
      · have hfar : headerLimit cfg + 4096 < b.length + headEnd.length := by
          by_contra hnear
          exact hnot ⟨_, hends, Nat.not_le.1 hle, Nat.not_lt.1 hnear⟩
        constructor
        · intro segs segs' hsegs hsegs'
          rw [outcome_beyond hsegs hb hfar, outcome_beyond hsegs' hb hfar]
        · intro segs hsegs
          rw [outcome_beyond hsegs hb hfar]
          constructor
          · rintro ⟨data, hdata⟩
            cases hdata
          · rintro ⟨n, hends', hle'⟩
            rw [hends'.unique hends] at hle'
            exact absurd hle' hle
        · intro segs e hsegs he
          rw [outcome_beyond hsegs hb hfar] at he
          cases he
          exact .inl rfl

/-- With a limit of 16 bytes, a request line and an empty line of 18 bytes are read when they come at
once, and refused when they come in two deliveries. -/
theorem limit_exceeded_unseen :
    ¬ LimitedByBytes { maxHeaderBytes := 12 } (ascii "GET / HTTP/1.1\r\n\r\n") := by
  intro h
  have halike := h.alike [⟨ascii "GET / HTTP/1.1\r\n\r\n", by decide, by decide⟩]
    [⟨ascii "GET / HTTP/1.1\r\n\r", by decide, by decide⟩, ⟨ascii "\n", by decide, by decide⟩]
    (by decide) (by decide)
  have hwhole : headersOutcome { maxHeaderBytes := 12 }
      [⟨ascii "GET / HTTP/1.1\r\n\r\n", by decide, by decide⟩] =
        .ok (ascii "GET / HTTP/1.1\r\n\r\n") := by
    decide +kernel
  have hcut : headersOutcome { maxHeaderBytes := 12 }
      [⟨ascii "GET / HTTP/1.1\r\n\r", by decide, by decide⟩, ⟨ascii "\n", by decide, by decide⟩] =
        .error (.httpError 431 "Read limit exceeded") := by
    decide +kernel
  rw [hwhole, hcut] at halike
  cases halike

end Sovereign
