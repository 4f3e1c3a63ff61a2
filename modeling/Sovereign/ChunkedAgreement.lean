import Sovereign.Parser
import Sovereign.StreamReader

namespace Sovereign
open Buffered
set_option autoImplicit true

/-- What the caller of a reading function can tell of its end. -/
inductive Outcome (β : Type) where
  | done (value : β)
  | refused (status : Int)
  | closed

def Outcome.map (f : β → γ) : Outcome β → Outcome γ
  | .done value => .done (f value)
  | .refused status => .refused status
  | .closed => .closed

/-- The outcome of a read: there is none for exceptions of other kinds. -/
def outcome (view : ρ → β) : Read ρ → Option (Outcome β)
  | .ok res => some (.done (view res))
  | .error (.http err) => some (.refused err.status)
  | .error .clientClosed => some .closed
  | .error _ => none

/-- The longest line that the threaded server is sure to read. -/
def lineMax : Nat := 8191

/-- A line of a stream that both servers delimit alike, and what follows it. -/
structure Line (line u v : Bytes) : Prop where
  split : u = line ++ crlf ++ v
  one : 10 ∉ line
  short : line.length ≤ lineMax

/-- The reading of a chunked body on which both servers agree, with the content and the total so
far, and its outcome. -/
inductive InStep (cfg : ServerConfig) :
    Bytes → Int → Bytes → Outcome (Bytes × Int × Bytes) → Prop where
  | empty : InStep cfg spool total [] .closed
  /-- the stream ends in a size line, and so announces bytes that cannot come -/
  | cut {n : Nat} : Marker.breakOn [10] u = none → u.length ≤ lineMax + 1 →
      chunkSize u = some (n : Int) → 0 < n → total + (n : Int) ≤ cfg.maxBodyBytes →
      InStep cfg spool total u .closed
  | badSize : Line line u v → chunkSize line = none → InStep cfg spool total u (.refused 400)
  | last : Line line u v → chunkSize line = some 0 → Line trailer v w →
      InStep cfg spool total u (.done (spool, total, w))
  | tooLarge {n : Nat} : Line line u v → chunkSize line = some (n : Int) → 0 < n →
      (cfg.maxBodyBytes : Int) < total + n → InStep cfg spool total u (.refused 413)
  | truncated {n : Nat} : Line line u v → chunkSize line = some (n : Int) → 0 < n →
      total + (n : Int) ≤ cfg.maxBodyBytes → v.length < n + 2 → InStep cfg spool total u .closed
  | badEnd : Line line u (data ++ terminator ++ w) → chunkSize line = some (data.length : Int) →
      data ≠ [] → total + (data.length : Int) ≤ cfg.maxBodyBytes → terminator.length = 2 →
      terminator ≠ crlf → InStep cfg spool total u (.refused 400)
  | chunk : Line line u (data ++ crlf ++ w) → chunkSize line = some (data.length : Int) →
      data ≠ [] → total + (data.length : Int) ≤ cfg.maxBodyBytes →
      InStep cfg (spool ++ data) (total + data.length) w o → InStep cfg spool total u o

/-- The streams on which the servers come to a line that they may delimit differently: a bare line
feed ends it for one of them, or it is too long for the other. -/
inductive Ambiguous (cfg : ServerConfig) : Int → Bytes → Prop where
  | bare : Marker.breakOn [10] u = some (b, v) → (∀ line, b ≠ line ++ [13]) → Ambiguous cfg total u
  | long : u = line ++ crlf ++ v → 10 ∉ line → lineMax < line.length → Ambiguous cfg total u
  | trailer : Line line u v → chunkSize line = some 0 → v = trailer ++ crlf ++ w →
      10 ∉ trailer → lineMax < trailer.length → Ambiguous cfg total u
  | chunk : Line line u (data ++ crlf ++ w) → chunkSize line = some (data.length : Int) →
      data ≠ [] → total + (data.length : Int) ≤ cfg.maxBodyBytes →
      Ambiguous cfg (total + data.length) w → Ambiguous cfg total u

/-- Line ends and blanks at the end of a size line make no difference. -/
theorem chunkSize_append {s t : Bytes} (h : ∀ b ∈ t, isSpaceByte b = true) :
    chunkSize (s ++ t) = chunkSize s := by
  have ht : 59 ∉ t := fun hm => absurd (h 59 hm) (by decide)
  cases hs : splitFirst 59 s with
  | some parts =>
    obtain ⟨a, b⟩ := parts
    have hst : splitFirst 59 (s ++ t) = some (a, b ++ t) := Marker.breakOn_append hs t
    simp only [chunkSize, hs, hst, Option.map_some, Option.getD_some]
  | none =>
    have hst : splitFirst 59 (s ++ t) = none := by
      rw [splitFirst, Marker.breakOn_eq_none] at hs ⊢
      intro hin
      rcases List.mem_append.1 (hin.subset List.mem_cons_self) with hm | hm
      · obtain ⟨a, b, rfl⟩ := List.append_of_mem hm
        exact hs ⟨a, b, by simp⟩
      · exact ht hm
    simp only [chunkSize, hs, hst, Option.map_none, Option.getD_none, strip_append h]

theorem chunkSize_rstrip (text : Bytes) :
    chunkSize (StreamReader.rstripLineEnd text) = chunkSize text := by
  have hs : ∀ b ∈ text.rtakeWhile fun b => decide (b = 13 ∨ b = 10), isSpaceByte b = true := by
    intro b hb
    have hp := List.mem_rtakeWhile_imp hb
    rcases of_decide_eq_true hp with rfl | rfl <;> decide
  have happ := chunkSize_append (s := StreamReader.rstripLineEnd text) hs
  rw [StreamReader.rstripLineEnd, List.rdropWhile_append_rtakeWhile] at happ
  exact happ.symm

/-- Where a line that both delimit alike stands, a line feed ends it and none comes before. -/
theorem Line.breakOn (h : Line line u v) : Marker.breakOn [10] u = some (line ++ [13], v) := by
  have hmem : 10 ∉ line ++ [13] := by
    rw [List.mem_append, List.mem_singleton]
    exact fun hm => hm.elim h.one (by decide)
  have hfirst := Marker.breakOn_first (m := []) (a := v) hmem
  rw [h.split]
  simpa [crlf] using hfirst

/-- What both readers do with the lines and the counts on which they agree, on a connection that is
not interrupted before its end. -/
structure ChunkSource.Delimits (src : ChunkSource R) (whole : R → Prop) : Prop where
  sizeLine : whole r → Line text (src.unread r) v → ∃ line r',
    src.readSizeLine r = .ok (line, r') ∧ chunkSize line = chunkSize text ∧ src.unread r' = v ∧
      whole r'
  trailer : whole r → Line text (src.unread r) v → ∃ line r',
    src.readTrailer r = .ok (line, r') ∧ src.unread r' = v
  exact : whole r → src.unread r = data ++ u → ∃ r',
    src.readExact (data.length : Nat) r = .ok (data, r') ∧ src.unread r' = u ∧ whole r'
  short : whole r → (src.unread r).length < n → src.readExact (n : Nat) r = .error .clientClosed
  empty : whole r → src.unread r = [] → src.readSizeLine r = .error .clientClosed
  cut : whole r → Marker.breakOn [10] (src.unread r) = none →
    (src.unread r).length ≤ lineMax + 1 → src.unread r ≠ [] →
    src.readSizeLine r = .error .clientClosed ∨ ∃ line r', src.readSizeLine r = .ok (line, r') ∧
      chunkSize line = chunkSize (src.unread r) ∧ src.unread r' = [] ∧ whole r'

theorem SocketReader.delimits :
    chunkSource.Delimits fun r : SocketReader => r.ending = none := by
  have hline {r : SocketReader} {text v : Bytes} (hl : Line text r.unread v) :
      r.readUntil crlf 8192 = .ok (text ++ crlf, r.advance (text.length + 2)) ∧
        (r.advance (text.length + 2)).unread = v := by
    have hshort := hl.short
    rw [lineMax] at hshort
    constructor
    · have hb : Marker.breakOn crlf r.unread = some (text, v) := by
        rw [hl.split]
        exact Marker.breakOn_pair (by decide) hl.one v
      exact readUntil_found hb (by simp only [crlf, List.length_cons, List.length_nil]; omega)
    · have hu : r.unread = (text ++ crlf) ++ v := hl.split
      have hadv := Source.advance_of_append hu
      simpa [crlf] using hadv
  constructor
  case sizeLine =>
    intro r text v hw hl
    obtain ⟨hr, hu⟩ := hline hl
    refine ⟨text, r.advance (text.length + 2), ?_, rfl, hu, by rw [Source.advance_ending, hw]⟩
    simp only [chunkSource, hr, Except.map]
    simp [crlf]
  case trailer =>
    intro r text v _ hl
    obtain ⟨hr, hu⟩ := hline hl
    exact ⟨text ++ crlf, _, hr, hu⟩
  case exact =>
    intro r data u hw hu
    refine ⟨r.advance data.length, ?_, Source.advance_of_append hu, by
      rw [Source.advance_ending, hw]⟩
    exact congrArg (Except.mapError recvError) (Source.takeExact_of_append hu)
  case short =>
    intro r n hw hlt
    have hlt' : ¬ n ≤ r.unread.length := Nat.not_le.2 hlt
    have hr := readExact_ofNat n r
    rw [if_neg hlt', hw] at hr
    exact hr
  case empty =>
    intro r hw hu
    have hu' : r.unread = [] := hu
    have hr : r.readUntil crlf 8192 = .error (recvError r.ending) :=
      readUntil_missing (by rw [hu']; decide) (by rw [hu']; exact Nat.zero_le _)
    simp only [chunkSource, hr, hw]
    rfl
  case cut =>
    intro r hw hb hl _
    left
    have hr : r.readUntil crlf 8192 = .error (recvError r.ending) :=
      readUntil_missing (Marker.breakOn_pair_none hb) hl
    simp only [chunkSource, hr, hw]
    rfl

theorem StreamReader.delimits :
    (chunkSource cap).Delimits fun r : StreamReader cap => r.ending = none := by
  have hline {r : StreamReader cap} {text v : Bytes} (hl : Line text r.unread v) :
      r.readline = .ok (text ++ crlf, r.advance (text.length + 2)) ∧
        (r.advance (text.length + 2)).unread = v := by
    have hshort := hl.short
    rw [lineMax] at hshort
    constructor
    · have hlen : (text ++ [13]).length ≤ streamLimit := by
        rw [List.length_append, streamLimit, List.length_singleton]
        omega
      simp only [readline_eq, hl.breakOn, hlen, ↓reduceIte]
      simp [crlf]
    · have hu : r.unread = (text ++ crlf) ++ v := hl.split
      have hadv := Source.advance_of_append hu
      simpa [crlf] using hadv
  constructor
  case sizeLine =>
    intro r text v hw hl
    obtain ⟨hr, hu⟩ := hline hl
    refine ⟨_, _, readSizeLine_of (by simp [crlf]) hr, ?_, hu, by
      rw [Source.advance_ending, hw]⟩
    rw [chunkSize_rstrip, chunkSize_append (by decide)]
  case trailer =>
    intro r text v _ hl
    obtain ⟨hr, hu⟩ := hline hl
    exact ⟨text ++ crlf, _, hr, hu⟩
  case exact =>
    intro r data u hw hu
    refine ⟨r.advance data.length, ?_, Source.advance_of_append hu, by
      rw [Source.advance_ending, hw]⟩
    exact congrArg (Except.mapError exactError) (Source.takeExact_of_append hu)
  case short =>
    intro r n hw hlt
    have hlt' : ¬ n ≤ r.unread.length := Nat.not_le.2 hlt
    have hr := readExact_ofNat n r
    rw [if_neg hlt', hw] at hr
    exact hr
  case empty =>
    intro r hw hu
    have hu' : r.unread = [] := hu
    have hr : r.readline = .ok ([], ⟨[], []⟩) := by
      simp only [readline_eq, hu', hw]
      rfl
    simp only [chunkSource, readSizeLine, hr]
  case cut =>
    intro r hw hb hl hne
    right
    have hlen : r.unread.length ≤ streamLimit := by
      have hl' : r.unread.length ≤ 8192 := hl
      rw [streamLimit]
      omega
    have hr : r.readline = .ok (r.unread, ⟨[], []⟩) := by
      have hb' : Marker.breakOn [10] r.unread = none := hb
      simp only [readline_eq, hb', hlen, ↓reduceIte, hw]
    exact ⟨_, _, readSizeLine_of hne hr, chunkSize_rstrip _, rfl, rfl⟩

section Delimits

variable {R : Type} {src : ChunkSource R} {whole : R → Prop} {cfg : ServerConfig}

/-- The view of a body that has been read. -/
def bodyView (src : ChunkSource R) (res : Bytes × Int × R) : Bytes × Int × Bytes :=
  (res.1, res.2.1, src.unread res.2.2)

/-- The loop at a size line of which the number is known. -/
theorem run_line {line : Bytes} (h : src.readSizeLine r = .ok (line, r₁))
    (hs : chunkSize line = some n) (h0 : n ≠ 0) (spool : Bytes) (total : Int) :
    (ChunkLoop.machine src cfg).run ⟨.sizeLine, r, spool, total⟩ =
      if (cfg.maxBodyBytes : Int) < total + n then .error (.httpError 413 "Payload Too Large")
      else (do
        let (data, r₂) ← src.readExact n r₁
        (ChunkLoop.machine src cfg).run ⟨.written, r₂, spool ++ data, total + n⟩) := by
  simp only [ChunkLoop.run_sizeLine, h, bind, Except.bind, hs, h0, ↓reduceIte,
    ChunkLoop.run_counted]

/-- The loop at the last size line. -/
theorem run_last {line : Bytes} (h : src.readSizeLine r = .ok (line, r₁))
    (hs : chunkSize line = some 0) (spool : Bytes) (total : Int) :
    (ChunkLoop.machine src cfg).run ⟨.sizeLine, r, spool, total⟩ =
      (src.readTrailer r₁).map fun res => (spool, total, res.2) := by
  simp only [ChunkLoop.run_sizeLine, h, bind, Except.bind, hs, ↓reduceIte]
  cases src.readTrailer r₁ <;> rfl

/-- Past a chunk that is complete, both loops stand before the next size line. -/
theorem run_chunk (cfg : ServerConfig) (law : src.Delimits whole) {r : R} (hw : whole r)
    (hl : Line line (src.unread r) (data ++ crlf ++ w))
    (hs : chunkSize line = some (data.length : Int)) (hne : data ≠ []) {total : Int}
    (hm : total + (data.length : Int) ≤ cfg.maxBodyBytes) (spool : Bytes) :
    ∃ r', whole r' ∧ src.unread r' = w ∧
      (ChunkLoop.machine src cfg).run ⟨.sizeLine, r, spool, total⟩ =
        (ChunkLoop.machine src cfg).run ⟨.sizeLine, r', spool ++ data, total + data.length⟩ := by
  obtain ⟨line', r₁, hr, hline, hu₁, hw₁⟩ := law.sizeLine hw hl
  have hpos := List.length_pos_iff.2 hne
  rw [List.append_assoc] at hu₁
  obtain ⟨r₂, hr₂, hu₂, hw₂⟩ := law.exact hw₁ hu₁
  obtain ⟨r₃, hr₃, hu₃, hw₃⟩ := law.exact hw₂ hu₂
  have hr₃' : src.readExact 2 r₂ = .ok (crlf, r₃) := hr₃
  refine ⟨r₃, hw₃, hu₃, ?_⟩
  rw [run_line hr (hline.trans hs) (by omega), if_neg (by omega)]
  simp only [hr₂, bind, Except.bind, ChunkLoop.run_written, hr₃', ne_eq, not_true_eq_false,
    ↓reduceIte]

/-- The readers do what the reading says. -/
theorem outcome_of_inStep (law : src.Delimits whole) (h : InStep cfg spool total u o) {r : R}
    (hw : whole r) (hu : src.unread r = u) :
    outcome (bodyView src) ((ChunkLoop.machine src cfg).run ⟨.sizeLine, r, spool, total⟩) =
      some o := by
  induction h generalizing r with
  | empty =>
    simp only [ChunkLoop.run_sizeLine, law.empty hw hu, bind, Except.bind]
    rfl
  | @cut u n total spool hb hl hs hn hm =>
    subst hu
    have hne : src.unread r ≠ [] := by
      intro he
      rw [he] at hs
      have hnone : chunkSize [] = none := by decide
      rw [hnone] at hs
      cases hs
    rcases law.cut hw hb hl hne with hr | ⟨line, r₁, hr, hline, hu₁, hw₁⟩
    · simp only [ChunkLoop.run_sizeLine, hr, bind, Except.bind]
      rfl
    · rw [run_line hr (hline.trans hs) (by omega), if_neg (by omega),
        law.short hw₁ (by rw [hu₁]; exact hn)]
      rfl
  | badSize hl hs =>
    subst hu
    obtain ⟨line', r₁, hr, hline, -, -⟩ := law.sizeLine hw hl
    simp only [ChunkLoop.run_sizeLine, hr, bind, Except.bind, hline, hs]
    rfl
  | last hl hs ht =>
    subst hu
    obtain ⟨line', r₁, hr, hline, hu₁, hw₁⟩ := law.sizeLine hw hl
    rw [← hu₁] at ht
    obtain ⟨text, r₂, hr₂, hu₂⟩ := law.trailer hw₁ ht
    simp only [ChunkLoop.run_sizeLine, hr, bind, Except.bind, hline, hs, ↓reduceIte, hr₂, pure,
      Except.pure, outcome, bodyView, hu₂]
  | tooLarge hl hs hn hm =>
    subst hu
    obtain ⟨line', r₁, hr, hline, -, -⟩ := law.sizeLine hw hl
    rw [run_line hr (hline.trans hs) (by omega), if_pos hm]
    rfl
  | @truncated line u v total spool n hl hs hn hm hv =>
    subst hu
    obtain ⟨line', r₁, hr, hline, hu₁, hw₁⟩ := law.sizeLine hw hl
    rw [run_line hr (hline.trans hs) (by omega), if_neg (by omega)]
    by_cases hlen : v.length < n
    · rw [law.short hw₁ (by rw [hu₁]; exact hlen)]
      rfl
    · have htake : (v.take n).length = n := by
        rw [List.length_take]
        omega
      obtain ⟨r₂, hr₂, hu₂, hw₂⟩ := law.exact hw₁ (hu₁.trans (List.take_append_drop n v).symm)
      have hshort : src.readExact 2 r₂ = .error .clientClosed :=
        law.short (n := 2) hw₂ (by rw [hu₂, List.length_drop]; omega)
      rw [htake] at hr₂
      simp only [hr₂, bind, Except.bind, ChunkLoop.run_written, hshort]
      rfl
  | @badEnd line u data terminator w total spool hl hs hne hm ht hc =>
    subst hu
    obtain ⟨line', r₁, hr, hline, hu₁, hw₁⟩ := law.sizeLine hw hl
    have hpos := List.length_pos_iff.2 hne
    rw [List.append_assoc] at hu₁
    obtain ⟨r₂, hr₂, hu₂, hw₂⟩ := law.exact hw₁ hu₁
    obtain ⟨r₃, hr₃, -, -⟩ := law.exact hw₂ hu₂
    rw [ht] at hr₃
    have hr₃' : src.readExact 2 r₂ = .ok (terminator, r₃) := hr₃
    rw [run_line hr (hline.trans hs) (by omega), if_neg (by omega)]
    simp only [hr₂, bind, Except.bind, ChunkLoop.run_written, hr₃', if_pos hc]
    rfl
  | chunk hl hs hne hm _ ih =>
    subst hu
    obtain ⟨r', hw', hu', hrun⟩ := run_chunk cfg law hw hl hs hne hm _
    rw [hrun]
    exact ih hw' hu'

end Delimits

theorem outcome_done {view : ρ → β} {res : Read ρ} (h : outcome view res = some (.done x)) :
    ∃ y, res = .ok y ∧ view y = x := by
  match res with
  | .ok y =>
    cases h
    exact ⟨y, rfl, rfl⟩
  | .error (.http err) => cases h
  | .error .clientClosed => cases h

/-- Where the two readers take the same bytes for a trailer section, it is one line for both. -/
theorem line_of_trailer {r s : SocketReader} {r' s' : StreamReader cap} (hu : r.unread = v)
    (hu' : r'.unread = v) (h : r.readUntil crlf 8192 = .ok (text, s))
    (h' : r'.readline = .ok (text', s')) (hsame : s.unread = s'.unread)
    (hshort : ∀ trailer w, v = trailer ++ crlf ++ w → 10 ∉ trailer → trailer.length ≤ lineMax) :
    ∃ trailer, Line trailer v s.unread := by
  obtain ⟨q, z, hq, -, rfl⟩ := SocketReader.readUntil_ok h
  rw [hu] at hq
  have hz : (r.advance (q.length + crlf.length)).unread = z := by
    have hsplit : r.unread = (q ++ crlf) ++ z := hu.trans (Marker.breakOn_eq hq)
    have hadv := Source.advance_of_append hsplit
    simpa using hadv
  rcases StreamReader.readline_ok h' with ⟨b, a, hb, -, -, rfl⟩ | ⟨hb, -⟩
  · have ha : (r'.advance (b.length + 1)).unread = a := by
      have hadv := Source.advance_of_append (Marker.breakOn_eq hb)
      simpa using hadv
    rw [hu'] at hb
    have hza : z = a := by rw [← hz, ← ha, hsame]
    by_cases hcr : ∃ trailer, b = trailer ++ [13]
    · obtain ⟨trailer, rfl⟩ := hcr
      have hone : 10 ∉ trailer := by
        intro hm
        exact Marker.not_mem_of_breakOn hb (List.mem_append_left _ hm)
      have hsplit : v = trailer ++ crlf ++ a := by simpa [crlf] using Marker.breakOn_eq hb
      rw [hz, hza]
      exact ⟨trailer, hsplit, hone, hshort trailer a hsplit hone⟩
    · have hlt := Marker.breakOn_pair_later hb (not_exists.1 hcr) hq
      rw [hza] at hlt
      omega
  · rw [hu'] at hb
    have hnone : Marker.breakOn crlf v = none := Marker.breakOn_pair_none hb
    rw [hnone] at hq
    cases hq

/-- What `StreamReader` makes of a stream that ends in its size line. -/
theorem StreamReader.outcome_cut {cfg : ServerConfig} {total : Int} {r : StreamReader cap}
    (hw : r.ending = none) (hb : Marker.breakOn [10] r.unread = none) (hne : r.unread ≠ [])
    (h : outcome (bodyView (chunkSource cap))
      ((ChunkLoop.machine (chunkSource cap) cfg).run ⟨.sizeLine, r, spool, total⟩) = some o) :
    o = .refused 400 ∨ o = .refused 413 ∨ (∃ x, o = .done x) ∨ o = .closed ∧
      ∃ n : Nat, chunkSize r.unread = some (n : Int) ∧ 0 < n ∧ total + n ≤ cfg.maxBodyBytes := by
  have hsize : (chunkSource cap).readSizeLine r = .ok (rstripLineEnd r.unread, ⟨[], []⟩) ∨
      (chunkSource cap).readSizeLine r = .error (.builtin .valueError) := by
    by_cases hl : r.unread.length ≤ streamLimit
    · left
      refine readSizeLine_of hne ?_
      simp only [readline_eq, hb, hl, ↓reduceIte, hw]
    · right
      simp only [chunkSource, readSizeLine, readline_eq, hb, hl, ↓reduceIte]
  rcases hsize with hr | hr
  · have hline := chunkSize_rstrip r.unread
    cases hs : chunkSize r.unread with
    | none =>
      simp only [ChunkLoop.run_sizeLine, hr, bind, Except.bind, hline, hs] at h
      cases h
      exact .inl rfl
    | some n =>
      rw [hs] at hline
      by_cases h0 : n = 0
      · have ht : (chunkSource cap).readTrailer ⟨[], []⟩ = .ok ([], ⟨[], []⟩) := by
          simp only [chunkSource, readline_eq]
          rfl
        simp only [ChunkLoop.run_sizeLine, hr, bind, Except.bind, hline, h0, ↓reduceIte, ht] at h
        cases h
        exact .inr (.inr (.inl ⟨_, rfl⟩))
      · rw [run_line hr hline h0] at h
        split at h
        · cases h
          exact .inr (.inl rfl)
        · next hm =>
          cases n with
          | ofNat n =>
            have hpos : 0 < n := Nat.pos_of_ne_zero fun he => h0 (by rw [he]; rfl)
            have hr' : (chunkSource cap).readExact (Int.ofNat n) ⟨[], []⟩ = .error .clientClosed :=
              delimits.short rfl hpos
            rw [hr'] at h
            cases h
            exact .inr (.inr (.inr ⟨rfl, n, rfl, hpos, Int.not_lt.1 hm⟩))
          | negSucc k => cases h
  · simp only [ChunkLoop.run_sizeLine, hr, bind, Except.bind] at h
    cases h

/-- Where the two copies of the loop come to the same outcome at the trailer section, it is one
line for both. -/
theorem trailer_of_outcome {r : SocketReader} {r' : StreamReader cap} {spool : Bytes} {total : Int}
    (hu : r.unread = v) (hu' : r'.unread = v) (hw' : r'.ending = none)
    (h : outcome (bodyView SocketReader.chunkSource)
      ((r.readUntil crlf 8192).map fun res => (spool, total, res.2)) = some o)
    (h' : outcome (bodyView (StreamReader.chunkSource cap))
      (r'.readline.map fun res => (spool, total, res.2)) = some o)
    (hshort : ∀ trailer w, v = trailer ++ crlf ++ w → 10 ∉ trailer → trailer.length ≤ lineMax) :
    ∃ trailer w, Line trailer v w := by
  cases hr' : r'.readline with
  | error e =>
    rw [hr', StreamReader.readline_error hw' hr'] at h'
    cases h'
  | ok res =>
    obtain ⟨text', s'⟩ := res
    rw [hr'] at h'
    cases h'
    obtain ⟨y, hy, hview⟩ := outcome_done h
    cases hr : r.readUntil crlf 8192 with
    | error e =>
      rw [hr] at hy
      cases hy
    | ok res =>
      obtain ⟨text, s⟩ := res
      rw [hr] at hy
      cases hy
      have hsame : s.unread = s'.unread := congrArg (fun x => x.2.2) hview
      obtain ⟨trailer, ht⟩ := line_of_trailer hu hu' hr hr' hsame hshort
      exact ⟨trailer, _, ht⟩

/-- Where both readers come to the same outcome without meeting a line they may delimit
differently, they agree at every step. -/
theorem inStep_of_outcome {cfg : ServerConfig} {total : Int} {r : SocketReader}
    {s : StreamReader cap} (hamb : ¬ Ambiguous cfg total r.unread)
    (hsum : total ≤ cfg.maxBodyBytes) (hw : r.ending = none) (hw' : s.ending = none)
    (hu : s.unread = r.unread) {spool : Bytes}
    (h : outcome (bodyView SocketReader.chunkSource)
      ((ChunkLoop.machine SocketReader.chunkSource cfg).run ⟨.sizeLine, r, spool, total⟩) = some o)
    (h' : outcome (bodyView (StreamReader.chunkSource cap))
      ((ChunkLoop.machine (StreamReader.chunkSource cap) cfg).run ⟨.sizeLine, s, spool, total⟩) =
        some o) : InStep cfg spool total r.unread o := by
  induction hn : r.unread.length using Nat.strongRecOn generalizing r s spool total with
  | ind k ih =>
    have hstep {o' : Outcome (Bytes × Int × Bytes)} (hi : InStep cfg spool total r.unread o') :
        InStep cfg spool total r.unread o := by
      have ho := outcome_of_inStep SocketReader.delimits hi hw rfl
      rw [h] at ho
      cases ho
      exact hi
    cases hb : Marker.breakOn [10] r.unread with
    | none =>
      by_cases hne : r.unread = []
      · exact hstep (by rw [hne]; exact .empty)
      · have hcut := StreamReader.outcome_cut hw' (by rw [hu, hb]) (by rwa [hu]) h'
        rw [hu] at hcut
        by_cases hl : r.unread.length ≤ lineMax + 1
        · rcases SocketReader.delimits.cut hw hb hl hne with hr | ⟨line, r₁, hr, -⟩
          · simp only [ChunkLoop.run_sizeLine, hr, bind, Except.bind] at h
            cases h
            rcases hcut with he | he | ⟨x, he⟩ | ⟨-, n, hs, hpos, hm⟩
            · cases he
            · cases he
            · cases he
            · exact .cut hb hl hs hpos hm
          · have hmissing : r.readUntil crlf 8192 = .error (recvError r.ending) :=
              SocketReader.readUntil_missing (Marker.breakOn_pair_none hb) hl
            simp only [SocketReader.chunkSource, hmissing, Except.map] at hr
            cases hr
        · have hr : r.readUntil crlf 8192 = .error (.httpError 431 "Read limit exceeded") :=
            SocketReader.readUntil_over (Marker.breakOn_pair_none hb) (Nat.not_le.1 hl)
          have hr' : SocketReader.chunkSource.readSizeLine r =
              .error (.httpError 431 "Read limit exceeded") := by
            simp only [SocketReader.chunkSource, hr, Except.map]
          simp only [ChunkLoop.run_sizeLine, hr', bind, Except.bind] at h
          cases h
          rcases hcut with he | he | ⟨x, he⟩ | ⟨he, -⟩ <;> cases he
    | some res =>
      obtain ⟨b, v⟩ := res
      by_cases hcr : ∃ line, b = line ++ [13]
      · obtain ⟨line, rfl⟩ := hcr
        have hone : 10 ∉ line := fun hm =>
          Marker.not_mem_of_breakOn hb (List.mem_append_left _ hm)
        have hsplit : r.unread = line ++ crlf ++ v := by simpa [crlf] using Marker.breakOn_eq hb
        have hshort : line.length ≤ lineMax := by
          by_contra hlong
          exact hamb (.long hsplit hone (Nat.not_le.1 hlong))
        have hl : Line line r.unread v := ⟨hsplit, hone, hshort⟩
        have hl' : Line line s.unread v := by rwa [hu]
        cases hs : chunkSize line with
        | none => exact hstep (.badSize hl hs)
        | some n =>
          match n with
          | .ofNat 0 =>
            obtain ⟨line₁, r₁, hr₁, hline₁, hu₁, -⟩ := SocketReader.delimits.sizeLine hw hl
            obtain ⟨line₂, r₂, hr₂, hline₂, hu₂, hw₂⟩ := StreamReader.delimits.sizeLine hw' hl'
            rw [run_last hr₁ (hline₁.trans hs)] at h
            rw [run_last hr₂ (hline₂.trans hs)] at h'
            obtain ⟨trailer, w, ht⟩ :=
              trailer_of_outcome hu₁ hu₂ hw₂ h h' fun trailer w hsplit hone => by
              by_contra hlong
              exact hamb (.trailer hl hs hsplit hone (Nat.not_le.1 hlong))
            exact hstep (.last hl hs ht)
          | .ofNat (n + 1) =>
            by_cases hm : (cfg.maxBodyBytes : Int) < total + (n + 1 : Nat)
            · exact hstep (.tooLarge hl hs (Nat.succ_pos n) hm)
            · by_cases hv : v.length < n + 1 + 2
              · exact hstep (.truncated hl hs (Nat.succ_pos n) (Int.not_lt.1 hm) hv)
              · obtain ⟨data, terminator, w, rfl, hdata, ht⟩ :
                    ∃ data terminator w, v = data ++ terminator ++ w ∧ data.length = n + 1 ∧
                      terminator.length = 2 := by
                  refine ⟨v.take (n + 1), (v.drop (n + 1)).take 2,
                    (v.drop (n + 1)).drop 2, ?_, ?_, ?_⟩
                  · rw [List.append_assoc, List.take_append_drop, List.take_append_drop]
                  · rw [List.length_take]
                    omega
                  · rw [List.length_take, List.length_drop]
                    omega
                have hne : data ≠ [] := List.ne_nil_of_length_pos (by omega)
                have hs' : chunkSize line = some (data.length : Int) := by
                  rw [hs, hdata]
                  rfl
                have hm' : total + (data.length : Int) ≤ cfg.maxBodyBytes := by
                  rw [hdata]
                  omega
                by_cases hc : terminator = crlf
                · subst hc
                  obtain ⟨r₁, hw₁, hu₁, hrun₁⟩ :=
                    run_chunk cfg SocketReader.delimits hw hl hs' hne hm' spool
                  obtain ⟨r₂, hw₂, hu₂, hrun₂⟩ :=
                    run_chunk cfg StreamReader.delimits hw' hl' hs' hne hm' spool
                  have hu₁' : r₁.unread = w := hu₁
                  have hu₂' : r₂.unread = w := hu₂
                  rw [hrun₁] at h
                  rw [hrun₂] at h'
                  have hlen : w.length < k := by
                    rw [← hn, hsplit]
                    simp only [List.length_append]
                    omega
                  have hrest := ih w.length hlen (r := r₁) (s := r₂)
                    (by rw [hu₁']; exact fun ha => hamb (.chunk hl hs' hne hm' ha)) hm' hw₁ hw₂
                    (by rw [hu₁', hu₂']) h h' (by rw [hu₁'])
                  rw [hu₁'] at hrest
                  exact .chunk hl hs' hne hm' hrest
                · exact hstep (.badEnd hl hs' hne hm' ht hc)
          | .negSucc j =>
            -- a negative count is a `ValueError` of `readexactly`
            obtain ⟨line₂, r₂, hr₂, hline₂, -, -⟩ := StreamReader.delimits.sizeLine hw' hl'
            rw [run_line hr₂ (hline₂.trans hs) (Int.negSucc_ne_zero j),
              if_neg (by have := Int.negSucc_lt_zero j; omega)] at h'
            cases h'
      · exact absurd (.bare hb (not_exists.1 hcr)) hamb

end Sovereign
