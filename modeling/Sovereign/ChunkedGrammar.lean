import Sovereign.Lib.Chunked
import Sovereign.Parser
import Sovereign.StreamReader

namespace Sovereign
open Buffered Chunked
set_option autoImplicit true

/-- A size line of the grammar is read as the size it spells. -/
theorem chunkSize_sizeLine (h : SizeLine n line) : chunkSize line = some (n : Int) := by
  obtain ⟨digits, ext, rfl, hp, he⟩ := h
  have hsize : parseInt16 (strip isSpaceByte digits) = some (n : Int) := by
    rw [strip_digits hp, parseInt16_digits hp]
  have hfirst : ((splitFirst 59 (digits ++ ext)).map Prod.fst).getD (digits ++ ext) = digits := by
    have hd : 59 ∉ digits := not_mem_digits (by decide) hp
    rcases he with rfl | ⟨text, rfl, -⟩
    · have hn : splitFirst 59 (digits ++ []) = none := by
        rw [splitFirst, Marker.breakOn_eq_none, List.append_nil]
        exact fun hi => hd (hi.subset List.mem_cons_self)
      rw [hn, Option.map_none, Option.getD_none, List.append_nil]
    · have hs : splitFirst 59 (digits ++ 59 :: text) = some (digits, text) := by
        simpa [splitFirst] using Marker.breakOn_first (m := []) (a := text) hd
      rw [hs, Option.map_some, Option.getD_some]
  rw [chunkSize, hfirst, hsize]

/-- What both readers guarantee for the lines and the counts of the grammar. -/
structure ChunkSource.Lawful (src : ChunkSource R) (limit : Nat) : Prop where
  sizeLine_of : OneLine line → line.length ≤ limit → src.unread r = line ++ lineEnd ++ u →
    ∃ r', src.readSizeLine r = .ok (line, r') ∧ src.unread r' = u
  sizeLine_ok : OneLine line → src.unread r = line ++ lineEnd ++ u →
    src.readSizeLine r = .ok (line', r') → line' = line ∧ src.unread r' = u
  trailer_of : OneLine line → line.length ≤ limit → src.unread r = line ++ lineEnd ++ u →
    ∃ text r', src.readTrailer r = .ok (text, r') ∧ src.unread r' = u
  trailer_ok : OneLine line → src.unread r = line ++ lineEnd ++ u →
    src.readTrailer r = .ok (text, r') → src.unread r' = u
  exact_of : src.unread r = data ++ u →
    ∃ r', src.readExact data.length r = .ok (data, r') ∧ src.unread r' = u
  exact_ok : src.readExact (n : Nat) r = .ok (data, r') →
    data.length = n ∧ src.unread r = data ++ src.unread r'

/-- Between two readers stands a size line of the grammar. -/
def PlainLine (src : ChunkSource R) (p : R × R) : Prop :=
  ∃ n line, SizeLine n line ∧ src.unread p.1 = line ++ lineEnd ++ src.unread p.2

/-- Whenever the loop decodes what it is given, it does so through size lines of the grammar and
takes an empty line for the trailer section. -/
def Strict (src : ChunkSource R) (cfg : ServerConfig) (r : R) : Prop :=
  ∀ lines trailer content total, Decodes src cfg r 0 lines trailer content total →
    (∀ p ∈ lines, PlainLine src p) ∧ src.unread trailer.1 = lineEnd ++ src.unread trailer.2

/-- A reader of chunked bodies succeeds on those of the grammar and consumes exactly those. -/
def AcceptsGrammar (unread : R → Bytes) (read : R → Read (Body × Int × R)) (limit maxBody : Nat)
    (r : R) : Prop :=
  (∀ body total r', read r = .ok (body, total, r') →
    Chunked.Body (fun _ => True) (unread r) body.toBytes (unread r')) ∧
  (∀ content rest, Chunked.Body (·.length ≤ limit) (unread r) content rest →
    content.length ≤ maxBody →
    ∃ body total r', read r = .ok (body, total, r') ∧ body.toBytes = content ∧ unread r' = rest)

section Lawful

variable {R : Type} {src : ChunkSource R} {cfg : ServerConfig} {limit : Nat}

theorem body_of_decodes (law : src.Lawful limit)
    (h : Decodes src cfg r sum lines trailer content sum') (hl : ∀ p ∈ lines, PlainLine src p)
    (ht : src.unread trailer.1 = lineEnd ++ src.unread trailer.2) :
    Chunked.Body (fun _ => True) (src.unread r) content (src.unread trailer.2) := by
  induction h with
  | last hr hs _ =>
    obtain ⟨n, line, hline, hu⟩ := hl _ List.mem_cons_self
    obtain ⟨rfl, -⟩ := law.sizeLine_ok hline.oneLine hu hr
    rw [chunkSize_sizeLine hline] at hs
    obtain rfl : n = 0 := by simpa using hs
    rw [hu]
    refine .last hline trivial ?_
    simp only at ht
    rw [ht]
    exact .done
  | chunk hr hs h0 _ hd hc _ ih =>
    obtain ⟨n, line, hline, hu⟩ := hl _ List.mem_cons_self
    obtain ⟨rfl, -⟩ := law.sizeLine_ok hline.oneLine hu hr
    rw [chunkSize_sizeLine hline] at hs
    cases hs
    obtain ⟨hlen, hdata⟩ := law.exact_ok hd
    obtain ⟨-, hend⟩ := law.exact_ok hc
    have hbody := ih (fun p hp => hl p (List.mem_cons_of_mem _ hp)) ht
    simp only at hu
    rw [hu, hdata, hend]
    exact Chunks.chunk hline trivial (by omega) hlen hbody

/-- The loop passes over the chunks of the grammar, whichever trailer sections are considered. -/
theorem decodes_of_chunks (cfg : ServerConfig) (sum : Int) (law : src.Lawful limit)
    (h : Chunks (·.length ≤ limit) ends u content rest)
    (he : ∀ u, ends u rest → Trailers (·.length ≤ limit) u rest) (hu : src.unread r = u)
    (hm : sum + content.length ≤ cfg.maxBodyBytes) :
    ∃ lines trailer, Decodes src cfg r sum lines trailer content (sum + content.length) ∧
      ends (src.unread trailer.1) rest := by
  induction h generalizing r sum with
  | last hs hfit ht =>
    obtain ⟨r₁, hr, hu₁⟩ := law.sizeLine_of hs.oneLine hfit hu
    have hnext : ∃ text r₂, src.readTrailer r₁ = .ok (text, r₂) := by
      cases he _ ht with
      | done =>
        obtain ⟨text, r₂, h₂, -⟩ := law.trailer_of oneLine_nil (Nat.zero_le _)
          (hu₁.trans (List.nil_append _).symm)
        exact ⟨text, r₂, h₂⟩
      | field hf hfit' _ =>
        obtain ⟨text, r₂, h₂, -⟩ := law.trailer_of hf.oneLine hfit' hu₁
        exact ⟨text, r₂, h₂⟩
    obtain ⟨text, r₂, h₂⟩ := hnext
    have hlast : Decodes src cfg r sum [(r, r₁)] (r₁, r₂) [] sum :=
      .last hr (chunkSize_sizeLine hs) h₂
    exact ⟨[(r, r₁)], (r₁, r₂), by simpa using hlast, hu₁ ▸ ht⟩
  | @chunk n line w content rest data hs hfit hn hd hb ih =>
    obtain ⟨r₁, hr, hu₁⟩ := law.sizeLine_of hs.oneLine hfit hu
    obtain ⟨r₂, h₂, hu₂⟩ := law.exact_of hu₁
    obtain ⟨r₃, h₃, hu₃⟩ := law.exact_of hu₂
    rw [List.length_append, Nat.cast_add, ← Int.add_assoc, hd] at hm ⊢
    obtain ⟨lines, trailer, hdec, ht⟩ := ih _ he hu₃ hm
    have hle : sum + (n : Int) ≤ cfg.maxBodyBytes := by omega
    exact ⟨_, _, .chunk hr (chunkSize_sizeLine hs) (by omega) hle (hd ▸ h₂) h₃ hdec, ht⟩

/-- A body without trailer fields is decoded and consumed. -/
theorem run_of_plain (law : src.Lawful limit)
    (h : Chunks (·.length ≤ limit) (fun u rest => u = lineEnd ++ rest) (src.unread r) content rest)
    (hm : content.length ≤ cfg.maxBodyBytes) :
    ∃ r', (ChunkLoop.machine src cfg).run (.start r) = .ok (content, content.length, r') ∧
      src.unread r' = rest := by
  obtain ⟨lines, trailer, hdec, ht⟩ := decodes_of_chunks cfg 0 law h
    (fun u hu => hu ▸ .done) rfl (by omega)
  obtain ⟨text, hr⟩ := hdec.readTrailer
  refine ⟨trailer.2, ?_, law.trailer_ok oneLine_nil (ht.trans (by simp)) hr⟩
  rw [ChunkLoop.start, ChunkLoop.run_of_decodes hdec []]
  simp

/-- If the grammar agrees with a pass of the loop about what follows the body, the pass met only
lines of the grammar. -/
theorem strict_of_body (law : src.Lawful limit)
    (h : Decodes src cfg r sum lines trailer content sum')
    (hb : Chunked.Body (fun _ => True) (src.unread r) content' (src.unread trailer.2)) :
    (∀ p ∈ lines, PlainLine src p) ∧
      src.unread trailer.1 = lineEnd ++ src.unread trailer.2 := by
  induction h generalizing content' with
  | @last r line r₁ text r₂ total hr hs ht =>
    generalize hu : src.unread r = u at hb
    generalize hv : src.unread r₂ = v at hb
    cases hb with
    | @last line' u' rest hline _ htr =>
      obtain ⟨rfl, hu₁⟩ := law.sizeLine_ok hline.oneLine hu hr
      refine ⟨fun p hp => ?_, ?_⟩
      · rw [List.mem_singleton.1 hp]
        exact ⟨0, line, hline, by rw [hu, hu₁]⟩
      · simp only [hu₁]
        cases htr with
        | done => rfl
        | field hf _ htr =>
          have hlen := htr.length
          rw [← law.trailer_ok hf.oneLine hu₁ ht, hv] at hlen
          omega
    | chunk hline _ hn _ _ =>
      obtain ⟨rfl, -⟩ := law.sizeLine_ok hline.oneLine hu hr
      rw [chunkSize_sizeLine hline] at hs
      simp only [Option.some.injEq] at hs
      omega
  | @chunk r line r₁ n total data r₂ r₃ lines trailer content total' hr hs h0 _ hd hc _ ih =>
    generalize hu : src.unread r = u at hb
    generalize hv : src.unread trailer.2 = v at hb ih
    cases hb with
    | last hline _ _ =>
      obtain ⟨rfl, -⟩ := law.sizeLine_ok hline.oneLine hu hr
      rw [chunkSize_sizeLine hline] at hs
      simp only [Option.some.injEq] at hs
      omega
    | @chunk m line' w content'' _ data' hline _ hm hlen hbody =>
      obtain ⟨rfl, hu₁⟩ := law.sizeLine_ok hline.oneLine hu hr
      rw [chunkSize_sizeLine hline] at hs
      cases hs
      obtain ⟨hlen', hdata⟩ := law.exact_ok hd
      obtain ⟨-, hend⟩ := law.exact_ok hc
      rw [hu₁] at hdata
      obtain ⟨rfl, hrest⟩ := List.append_inj hdata (hlen.trans hlen'.symm)
      rw [hend] at hrest
      obtain ⟨-, rfl⟩ := List.append_inj hrest rfl
      obtain ⟨hlines, htrailer⟩ := ih hbody
      refine ⟨fun p hp => ?_, htrailer⟩
      rcases List.mem_cons.1 hp with rfl | hp
      · exact ⟨m, line, hline, by rw [hu, hu₁]⟩
      · exact hlines p hp

/-- A reader built on the loop decodes the grammar exactly where the loop is strict. -/
theorem acceptsGrammar_iff (law : src.Lawful limit) (read : R → Read (Body × Int × R))
    (wrap : Bytes → Int → Sovereign.Body)
    (hw : ∀ content total, (wrap content total).toBytes = content)
    (hread : ∀ r, read r = ((ChunkLoop.machine src cfg).run (.start r)).map
      fun res => (wrap res.1 res.2.1, res.2.1, res.2.2)) :
    AcceptsGrammar src.unread read limit cfg.maxBodyBytes r ↔ Strict src cfg r := by
  constructor
  · intro h lines trailer content total hdec
    have hok := ChunkLoop.run_of_decodes hdec []
    have hr : read r = .ok (wrap content total, total, trailer.2) := by
      rw [hread, ChunkLoop.start, hok]
      rfl
    exact strict_of_body law hdec (h.1 _ _ _ hr)
  · intro h
    refine ⟨fun body total r' hr => ?_, fun content rest hb hm => ?_⟩
    · rw [hread] at hr
      cases hrun : (ChunkLoop.machine src cfg).run (.start r) with
      | error e =>
        rw [hrun] at hr
        cases hr
      | ok res =>
        obtain ⟨content, total', r''⟩ := res
        rw [hrun] at hr
        cases hr
        obtain ⟨lines, trailer, content', hdec, rfl, rfl⟩ := ChunkLoop.decodes_of_run hrun
        obtain ⟨hl, ht⟩ := h _ _ _ _ hdec
        rw [hw]
        exact body_of_decodes law hdec hl ht
    · obtain ⟨lines, trailer, hdec, ht⟩ := decodes_of_chunks (r := r) cfg 0 law hb
        (fun _ h => h) rfl (by omega)
      obtain ⟨-, htr⟩ := h _ _ _ _ hdec
      rw [htr] at ht
      have hrest : src.unread trailer.2 = rest := by
        rcases ht.cases_line oneLine_nil with ⟨-, he⟩ | ⟨hf, -, -⟩
        · exact he
        · exact absurd rfl hf.ne_nil
      have hr :
        read r = .ok (wrap content (0 + content.length), 0 + content.length, trailer.2) := by
        rw [hread, ChunkLoop.start, ChunkLoop.run_of_decodes hdec []]
        rfl
      exact ⟨_, _, _, hr, hw _ _, hrest⟩

end Lawful

namespace SocketReader

/-- The longest line `_read_until` is sure to deliver, however it arrives. -/
def lineLimit : Nat := 8191

theorem readUntil_line {r : SocketReader} (hl : OneLine line) (hm : line.length ≤ lineLimit)
    (hu : r.unread = line ++ lineEnd ++ u) :
    r.readUntil crlf 8192 = .ok (line ++ crlf, r.advance (line.length + 2)) :=
  readUntil_found (b := line) (a := u) (hu ▸ breakOn_line hl u)
    (by simp only [lineLimit, crlf, List.length_cons, List.length_nil] at hm ⊢; omega)

theorem unread_line {r : SocketReader} (hu : r.unread = line ++ lineEnd ++ u) :
    (r.advance (line.length + 2)).unread = u := by
  simpa [lineEnd] using Source.advance_of_append hu

theorem readUntil_line_ok {r r' : SocketReader} (hl : OneLine line)
    (hu : r.unread = line ++ lineEnd ++ u) (h : r.readUntil crlf limit = .ok (data, r')) :
    data = line ++ crlf ∧ r'.unread = u := by
  obtain ⟨b, a, hb, rfl, rfl⟩ := readUntil_ok h
  have hb' := breakOn_line hl u
  rw [← hu] at hb'
  cases hb.symm.trans hb'
  exact ⟨rfl, unread_line hu⟩

theorem lawful : chunkSource.Lawful lineLimit where
  sizeLine_of hl hm hu := by
    refine ⟨_, ?_, unread_line hu⟩
    simp only [chunkSource, readUntil_line hl hm hu, Except.map]
    simp [crlf]
  sizeLine_ok {line r u line' r'} hl hu h := by
    simp only [chunkSource] at h
    cases hr : r.readUntil crlf 8192 with
    | error e =>
      rw [hr] at h
      cases h
    | ok res =>
      rw [hr] at h
      cases h
      obtain ⟨hd, hu'⟩ := readUntil_line_ok hl hu hr
      exact ⟨by simp [hd, crlf], hu'⟩
  trailer_of hl hm hu := ⟨_, _, readUntil_line hl hm hu, unread_line hu⟩
  trailer_ok hl hu h := (readUntil_line_ok hl hu h).2
  exact_of {r data u} hu := by
    have hu' : r.unread = data ++ u := hu
    refine ⟨r.advance data.length, ?_, Source.advance_of_append hu'⟩
    exact congrArg (Except.mapError recvError) (Source.takeExact_of_append hu')
  exact_ok {n r data r'} h := by
    have h' : (r.takeExact n).mapError recvError = .ok (data, r') := h
    cases ht : r.takeExact n with
    | error e =>
      rw [ht] at h'
      cases h'
    | ok res =>
      rw [ht] at h'
      cases h'
      exact ⟨(Source.takeExact_ok ht).1, (Source.takeExact_ok ht).2.1⟩

end SocketReader

namespace StreamReader

/-- The longest line `readline` delivers: its line feed must start within the stream limit. -/
def lineLimit : Nat := 65535

theorem breakOn_lineFeed (hl : OneLine line) (u : Bytes) :
    Marker.breakOn [10] (line ++ lineEnd ++ u) = some (line ++ [13], u) := by
  have hn : 10 ∉ line ++ [13] := by simp [hl.2]
  simpa [lineEnd] using Marker.breakOn_first (m := []) (a := u) hn

theorem rstripLineEnd_line (hl : OneLine line) : rstripLineEnd (line ++ [13] ++ [10]) = line := by
  have h13 := List.rdropWhile_concat_pos (fun b : UInt8 => decide (b = 13 ∨ b = 10))
    (line ++ [13]) 10
    (by decide)
  have h10 := List.rdropWhile_concat_pos (fun b : UInt8 => decide (b = 13 ∨ b = 10)) line 13
    (by decide)
  rw [rstripLineEnd, h13, h10, List.rdropWhile_eq_self_iff]
  intro hne hlast
  have hm := List.getLast_mem hne
  rcases of_decide_eq_true hlast with he | he
  · exact hl.1 (he ▸ hm)
  · exact hl.2 (he ▸ hm)

theorem readline_line {r : StreamReader cap} (hl : OneLine line) (hm : line.length ≤ lineLimit)
    (hu : r.unread = line ++ lineEnd ++ u) :
    r.readline = .ok (line ++ [13] ++ [10], r.advance (line.length + 2)) := by
  have hlen : (line ++ [13]).length ≤ streamLimit := by
    simp only [lineLimit, streamLimit, List.length_append, List.length_singleton] at hm ⊢
    omega
  rw [readline_eq, hu, breakOn_lineFeed hl]
  simp only [hlen, ↓reduceIte]
  simp

theorem unread_line {r : StreamReader cap} (hu : r.unread = line ++ lineEnd ++ u) :
    (r.advance (line.length + 2)).unread = u := by
  simpa [lineEnd] using Source.advance_of_append hu

theorem readline_line_ok {r r' : StreamReader cap} (hl : OneLine line)
    (hu : r.unread = line ++ lineEnd ++ u) (h : r.readline = .ok (text, r')) :
    text = line ++ [13] ++ [10] ∧ r'.unread = u := by
  have hb' := breakOn_lineFeed hl u
  rw [← hu] at hb'
  rcases readline_ok h with ⟨b, a, hb, -, rfl, rfl⟩ | ⟨hb, -⟩
  · cases hb.symm.trans hb'
    refine ⟨rfl, ?_⟩
    rw [List.length_append, List.length_singleton]
    exact unread_line hu
  · rw [hb] at hb'
    cases hb'

theorem lawful (cap : Nat) : (chunkSource cap).Lawful lineLimit where
  sizeLine_of {line r u} hl hm hu := by
    have h := readSizeLine_of (by simp) (readline_line hl hm hu)
    rw [rstripLineEnd_line hl] at h
    exact ⟨_, h, unread_line hu⟩
  sizeLine_ok hl hu h := by
    obtain ⟨text, -, ht, rfl⟩ := readSizeLine_ok h
    obtain ⟨rfl, hu'⟩ := readline_line_ok hl hu ht
    exact ⟨rstripLineEnd_line hl, hu'⟩
  trailer_of hl hm hu := ⟨_, _, readline_line hl hm hu, unread_line hu⟩
  trailer_ok hl hu h := (readline_line_ok hl hu h).2
  exact_of {r data u} hu := by
    have hu' : r.unread = data ++ u := hu
    refine ⟨r.advance data.length, ?_, Source.advance_of_append hu'⟩
    exact congrArg (Except.mapError exactError) (Source.takeExact_of_append hu')
  exact_ok {n r data r'} h := by
    have h' : (r.takeExact n).mapError exactError = .ok (data, r') := h
    cases ht : r.takeExact n with
    | error e =>
      rw [ht] at h'
      cases h'
    | ok res =>
      rw [ht] at h'
      cases h'
      exact ⟨(Source.takeExact_ok ht).1, (Source.takeExact_ok ht).2.1⟩

end StreamReader

theorem SocketReader.acceptsGrammar_iff (cfg : ServerConfig) (r : SocketReader) :
    AcceptsGrammar Source.unread (readChunkedBody cfg) lineLimit cfg.maxBodyBytes r ↔
      Strict chunkSource cfg r := by
  refine Sovereign.acceptsGrammar_iff lawful (readChunkedBody cfg)
    (fun spool total =>
      if total ≤ (cfg.maxMemoryBody : Int) then .bytes spool else .spool spool) ?_ fun r => ?_
  · intro content total
    split <;> rfl
  · unfold readChunkedBody
    cases (ChunkLoop.machine chunkSource cfg).run (.start r) <;> rfl

theorem StreamReader.acceptsGrammar_iff (cfg : ServerConfig) (r : StreamReader cap) :
    AcceptsGrammar Source.unread (readChunkedBody cfg) lineLimit cfg.maxBodyBytes r ↔
      Strict (chunkSource cap) cfg r := by
  refine Sovereign.acceptsGrammar_iff (lawful cap) (readChunkedBody cfg)
    (fun chunks _ => .bytes chunks) (fun _ _ => rfl) fun r => ?_
  unfold readChunkedBody
  cases (ChunkLoop.machine (chunkSource cap) cfg).run (.start r) <;> rfl

/-- Either server decodes exactly the chunked grammar, and consumes exactly the body, where no
pass of its loop takes a loose size line or a trailer field. -/
theorem readChunkedBody_grammar (cfg : ServerConfig) :
    (∀ r : SocketReader,
      AcceptsGrammar Source.unread (SocketReader.readChunkedBody cfg) SocketReader.lineLimit
        cfg.maxBodyBytes r ↔ Strict SocketReader.chunkSource cfg r) ∧
    ∀ (cap : Nat) (r : StreamReader cap),
      AcceptsGrammar Source.unread (StreamReader.readChunkedBody cfg) StreamReader.lineLimit
        cfg.maxBodyBytes r ↔ Strict (StreamReader.chunkSource cap) cfg r :=
  ⟨SocketReader.acceptsGrammar_iff cfg, fun _ => StreamReader.acceptsGrammar_iff cfg⟩

/-- One trailer field is enough: the empty line after it stays in the stream. -/
theorem readChunkedBody_trailer_field :
    ¬ ((∀ (cfg : ServerConfig) (r : SocketReader),
      AcceptsGrammar Source.unread (SocketReader.readChunkedBody cfg) SocketReader.lineLimit
        cfg.maxBodyBytes r) ∧
    ∀ (cap : Nat) (cfg : ServerConfig) (r : StreamReader cap),
      AcceptsGrammar Source.unread (StreamReader.readChunkedBody cfg) StreamReader.lineLimit
        cfg.maxBodyBytes r) := by
  intro h
  have hstrict := (SocketReader.acceptsGrammar_iff {} ⟨ascii "0\r\nX: y\r\n\r\n", []⟩).1 (h.1 _ _)
  have hpass : Decodes SocketReader.chunkSource {} ⟨ascii "0\r\nX: y\r\n\r\n", []⟩ 0
      [(⟨ascii "0\r\nX: y\r\n\r\n", []⟩, ⟨ascii "X: y\r\n\r\n", []⟩)]
      (⟨ascii "X: y\r\n\r\n", []⟩, ⟨ascii "\r\n", []⟩) [] 0 :=
    .last rfl (by decide : chunkSize (ascii "0") = some 0) rfl
  exact absurd (hstrict _ _ _ _ hpass).2 (by decide)

end Sovereign
