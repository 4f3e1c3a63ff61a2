import Sovereign.ParserAgreement

namespace Sovereign
open Buffered
set_option autoImplicit true

/-- A read that fails does so with an `HTTPError`, or because the client has gone. -/
def InTerms (res : Read ρ) : Prop := ∀ e, res = .error e → IsHttp e ∨ e = .clientClosed

theorem inTerms_ok (x : ρ) : InTerms (.ok x) := fun _ h => (by cases h)

theorem inTerms_error {e : Exc} : InTerms (.error e : Read ρ) ↔ IsHttp e ∨ e = .clientClosed :=
  ⟨fun h => h e rfl, fun h _ he => (by cases he; exact h)⟩

theorem inTerms_http (status : Int) (message : String) :
    InTerms (.error (.httpError status message) : Read ρ) :=
  inTerms_error.2 (.inl (isHttp_httpError status message))

/-- The caller can tell how such a read has ended. -/
theorem inTerms_iff (view : ρ → β) (res : Read ρ) :
    InTerms res ↔ (outcome view res).isSome = true := by
  cases res with
  | ok x => exact iff_of_true (inTerms_ok x) rfl
  | error e =>
    rw [inTerms_error]
    cases e with
    | http err => exact iff_of_true (.inl ⟨err, rfl⟩) rfl
    | clientClosed => exact iff_of_true (.inr rfl) rfl
    | builtin err =>
      refine iff_of_false ?_ Bool.false_ne_true
      rintro (⟨_, h⟩ | h)
      · cases h
      · cases h
    | app tag =>
      refine iff_of_false ?_ Bool.false_ne_true
      rintro (⟨_, h⟩ | h)
      · cases h
      · cases h

/-! The loop over the chunks. -/

/-- The loop comes to a line that is too long for its reader, or to a size that the total allows and
the reader refuses. -/
inductive ChunkFault (src : ChunkSource R) (cfg : ServerConfig) (overlong : R → Prop)
    (refused : Int → Prop) : R → Int → Prop
  | sizeLine : overlong r → ChunkFault src cfg overlong refused r total
  | trailer : src.readSizeLine r = .ok (line, r₁) → chunkSize line = some 0 → overlong r₁ →
      ChunkFault src cfg overlong refused r total
  | size : src.readSizeLine r = .ok (line, r₁) → chunkSize line = some n → n ≠ 0 →
      total + n ≤ cfg.maxBodyBytes → refused n → ChunkFault src cfg overlong refused r total
  | chunk : src.readSizeLine r = .ok (line, r₁) → chunkSize line = some n → n ≠ 0 →
      total + n ≤ cfg.maxBodyBytes → src.readExact n r₁ = .ok (data, r₂) →
      src.readExact 2 r₂ = .ok (crlf, r₃) → ChunkFault src cfg overlong refused r₃ (total + n) →
      ChunkFault src cfg overlong refused r total

/-- On a connection that is not interrupted before its end, what each read of the loop does with a
line that is too long and a count that is refused is the only way in which it leaves its terms. -/
structure ChunkSource.Terms (src : ChunkSource R) (whole : R → Prop) (overlong : R → Prop)
    (refused : Int → Prop) : Prop where
  sizeLine : whole r → (InTerms (src.readSizeLine r) ↔ ¬ overlong r)
  trailer : whole r → (InTerms (src.readTrailer r) ↔ ¬ overlong r)
  exact : whole r → (InTerms (src.readExact n r) ↔ ¬ refused n)
  terminator : ¬ refused 2
  sizeLine_whole : whole r → src.readSizeLine r = .ok (line, r') → whole r'
  exact_whole : whole r → src.readExact n r = .ok (part, r') → whole r'

section Loop

variable {R : Type} {src : ChunkSource R} {whole overlong : R → Prop} {refused : Int → Prop}
  {cfg : ServerConfig}

/-- A fault is the line itself, or it follows a size line that has been read. -/
theorem chunkFault_iff :
    ChunkFault src cfg overlong refused r total ↔ overlong r ∨ ∃ line r₁ n,
      src.readSizeLine r = .ok (line, r₁) ∧ chunkSize line = some n ∧ ((n = 0 ∧ overlong r₁) ∨
        (n ≠ 0 ∧ total + n ≤ cfg.maxBodyBytes ∧ (refused n ∨
          ∃ data r₂ r₃, src.readExact n r₁ = .ok (data, r₂) ∧ src.readExact 2 r₂ = .ok (crlf, r₃) ∧
            ChunkFault src cfg overlong refused r₃ (total + n)))) := by
  constructor
  · intro h
    cases h with
    | sizeLine hover => exact .inl hover
    | trailer hl hs hover => exact .inr ⟨_, _, 0, hl, hs, .inl ⟨rfl, hover⟩⟩
    | size hl hs h0 hm hrefused => exact .inr ⟨_, _, _, hl, hs, .inr ⟨h0, hm, .inl hrefused⟩⟩
    | chunk hl hs h0 hm hd ht hrest =>
      exact .inr ⟨_, _, _, hl, hs, .inr ⟨h0, hm, .inr ⟨_, _, _, hd, ht, hrest⟩⟩⟩
  · rintro (hover | ⟨line, r₁, n, hl, hs, ⟨rfl, hover⟩ |
      ⟨h0, hm, hrefused | ⟨data, r₂, r₃, hd, ht, hrest⟩⟩⟩)
    · exact .sizeLine hover
    · exact .trailer hl hs hover
    · exact .size hl hs h0 hm hrefused
    · exact .chunk hl hs h0 hm hd ht hrest

/-- Where a size line has been read, a fault lies in what follows. -/
theorem chunkFault_line {line : Bytes} (hl : src.readSizeLine r = .ok (line, r₁))
    (hr : ¬ overlong r) (hs : chunkSize line = some n) :
    ChunkFault src cfg overlong refused r total ↔
      (n = 0 ∧ overlong r₁) ∨ (n ≠ 0 ∧ total + n ≤ cfg.maxBodyBytes ∧ (refused n ∨
        ∃ data r₂ r₃, src.readExact n r₁ = .ok (data, r₂) ∧ src.readExact 2 r₂ = .ok (crlf, r₃) ∧
          ChunkFault src cfg overlong refused r₃ (total + n))) := by
  rw [chunkFault_iff, or_iff_right hr]
  constructor
  · rintro ⟨line', r₁', n', hl', hs', h⟩
    cases hl.symm.trans hl'
    cases hs.symm.trans hs'
    exact h
  · exact fun h => ⟨line, r₁, n, hl, hs, h⟩

/-- Past a chunk that the loop has accepted, a fault lies in what follows. -/
theorem chunkFault_chunk {line : Bytes} (hl : src.readSizeLine r = .ok (line, r₁))
    (hr : ¬ overlong r) (hs : chunkSize line = some n) (h0 : n ≠ 0)
    (hm : total + n ≤ cfg.maxBodyBytes) (hn : ¬ refused n) :
    ChunkFault src cfg overlong refused r total ↔
      ∃ data r₂ r₃, src.readExact n r₁ = .ok (data, r₂) ∧ src.readExact 2 r₂ = .ok (crlf, r₃) ∧
        ChunkFault src cfg overlong refused r₃ (total + n) := by
  rw [chunkFault_line hl hr hs, or_iff_right fun h => h0 h.1, and_iff_right h0, and_iff_right hm,
    or_iff_right hn]

/-- The loop keeps to the parser's terms just if it does not come to a fault. -/
theorem run_inTerms (law : src.Terms whole overlong refused) {r : R} (hw : whole r) (spool : Bytes)
    (total : Int) :
    InTerms ((ChunkLoop.machine src cfg).run ⟨.sizeLine, r, spool, total⟩) ↔
      ¬ ChunkFault src cfg overlong refused r total := by
  induction hn : (src.unread r).length using Nat.strongRecOn generalizing r spool total with
  | ind k ih =>
    have hline := law.sizeLine hw
    rw [ChunkLoop.run_sizeLine]
    cases hl : src.readSizeLine r with
    | error e =>
      rw [hl, inTerms_error] at hline
      refine inTerms_error.trans (hline.trans (not_congr ?_))
      rw [chunkFault_iff]
      refine ⟨.inl, fun h => h.resolve_right ?_⟩
      rintro ⟨_, _, _, hl', -⟩
      rw [hl] at hl'
      cases hl'
    | ok res =>
      obtain ⟨line, r₁⟩ := res
      have hr : ¬ overlong r := by
        rw [← hline, hl]
        exact inTerms_ok _
      rw [ok_bind]
      dsimp only
      cases hs : chunkSize line with
      | none =>
        refine iff_of_true (inTerms_http _ _) ?_
        rw [chunkFault_iff, or_iff_right hr]
        rintro ⟨_, _, _, hl', hs', -⟩
        cases hl.symm.trans hl'
        rw [hs] at hs'
        cases hs'
      | some n =>
        have hw₁ := law.sizeLine_whole hw hl
        dsimp only
        by_cases h0 : n = 0
        · subst h0
          have htrailer := law.trailer hw₁
          rw [if_pos rfl, chunkFault_line hl hr hs,
            or_iff_left fun h => h.1 rfl, and_iff_right rfl, ← htrailer]
          cases src.readTrailer r₁ with
          | error e => exact inTerms_error.trans inTerms_error.symm
          | ok res => exact iff_of_true (inTerms_ok _) (inTerms_ok _)
        · rw [if_neg h0, ChunkLoop.run_counted]
          by_cases hm : (cfg.maxBodyBytes : Int) < total + n
          · rw [if_pos hm, chunkFault_line hl hr hs]
            refine iff_of_true (inTerms_http _ _) ?_
            rintro (h | h)
            · exact h0 h.1
            · exact Int.not_lt.2 h.2.1 hm
          · rw [if_neg hm]
            have hexact := law.exact (n := n) hw₁
            cases hd : src.readExact n r₁ with
            | error e =>
              rw [hd, inTerms_error] at hexact
              refine inTerms_error.trans (hexact.trans (not_congr ?_))
              rw [chunkFault_line hl hr hs, or_iff_right fun h => h0 h.1, and_iff_right h0,
                and_iff_right (Int.not_lt.1 hm)]
              refine ⟨.inl, fun h => h.resolve_right ?_⟩
              rintro ⟨_, _, _, hd', -⟩
              rw [hd] at hd'
              cases hd'
            | ok res =>
              obtain ⟨data, r₂⟩ := res
              have hn' : ¬ refused n := by
                rw [← hexact, hd]
                exact inTerms_ok _
              have hw₂ := law.exact_whole hw₁ hd
              have htwo := (law.exact (n := 2) hw₂).2 law.terminator
              rw [ok_bind]
              dsimp only
              rw [ChunkLoop.run_written, chunkFault_chunk hl hr hs h0 (Int.not_lt.1 hm) hn']
              cases ht : src.readExact 2 r₂ with
              | error e =>
                rw [ht] at htwo
                refine iff_of_true (inTerms_error.2 (inTerms_error.1 htwo)) ?_
                rintro ⟨_, _, _, hd', ht', -⟩
                cases hd.symm.trans hd'
                rw [ht] at ht'
                cases ht'
              | ok res =>
                obtain ⟨terminator, r₃⟩ := res
                rw [ok_bind]
                dsimp only
                by_cases hc : terminator = crlf
                · subst hc
                  have h₁ := src.sizeLine_shrinks hl
                  have h₂ := src.exact_shrinks hd
                  have h₃ := src.exact_shrinks ht
                  rw [if_neg fun h => h rfl,
                    ih _ (by omega) (law.exact_whole hw₂ ht) (spool ++ data) (total + n) rfl]
                  refine not_congr ⟨fun h => ⟨data, r₂, r₃, hd, ht, h⟩, ?_⟩
                  rintro ⟨_, _, _, hd', ht', h⟩
                  cases hd.symm.trans hd'
                  cases ht.symm.trans ht'
                  exact h
                · rw [if_pos hc]
                  refine iff_of_true (inTerms_http _ _) ?_
                  rintro ⟨_, _, _, hd', ht', -⟩
                  cases hd.symm.trans hd'
                  cases ht.symm.trans ht'
                  exact hc rfl

end Loop

/-! The two parsers. -/

/-- The announced body arrives whole. -/
inductive BodyArrives (src : ChunkSource R) (cfg : ServerConfig) (headers : Headers) (r : R) : Prop
  | length {n : Nat} : ¬ ChunkedBody headers → isDigit (announced headers) = true →
      parseInt (announced headers) = some n → n ≤ cfg.maxBodyBytes → n ≤ (src.unread r).length →
      BodyArrives src cfg headers r
  | chunks : ChunkedBody headers → Decodes src cfg r 0 lines trailer content total →
      BodyArrives src cfg headers r

/-- The length of a body has digits that are no number for `int`, or the chunks have a fault. -/
inductive BodyFault (chunkFault : R → Prop) (headers : Headers) (r : R) : Prop
  | length : ¬ ChunkedBody headers → isDigit (announced headers) = true →
      parseInt (announced headers) = none → BodyFault chunkFault headers r
  | chunks : ChunkedBody headers → chunkFault r → BodyFault chunkFault headers r

/-- What the two front ends have in common. -/
structure FrontEnd.Terms (fe : FrontEnd R) (src : ChunkSource R) (whole : R → Prop)
    (cfg : ServerConfig) : Prop where
  headers : whole r → InTerms (fe.readHeaders cfg r)
  headers_whole : whole r → fe.readHeaders cfg r = .ok (raw, r') → whole r'
  counts : whole r → fe.Counts src.unread cfg r
  chunks : outcome (contentView src.unread) (fe.readChunkedBody cfg r) =
    outcome (bodyView src) ((ChunkLoop.machine src cfg).run (.start r))

/-- A parser comes to a length, to chunks or to a target that it has no exception for. -/
inductive ParserFault [Urllib] (fe : FrontEnd R) (src : ChunkSource R) (chunkFault : R → Prop)
    (cfg : ServerConfig) (r : R) : Prop
  | body : fe.readHeaders cfg r = .ok (raw, r₁) → parseHeaderBlock raw cfg = .ok head →
      BodyFault chunkFault head.headers r₁ → ParserFault fe src chunkFault cfg r
  | target : fe.readHeaders cfg r = .ok (raw, r₁) → parseHeaderBlock raw cfg = .ok head →
      BodyArrives src cfg head.headers r₁ → urlsplit head.target = none →
      ParserFault fe src chunkFault cfg r

section FrontEnd

variable {R : Type} {fe : FrontEnd R} {src : ChunkSource R} {whole chunkFault : R → Prop}
  {cfg : ServerConfig} {headers : Headers} {r : R}

theorem outcome_chunked (hfe : fe.Terms src whole cfg) (hc : ChunkedBody headers) (r : R) :
    outcome (contentView src.unread) (fe.readBody cfg headers r) =
      outcome (bodyView src) ((ChunkLoop.machine src cfg).run (.start r)) :=
  (congrArg _ (if_pos hc)).trans hfe.chunks

/-- A body is read just if it arrives whole. -/
theorem outcome_done_iff (hfe : fe.Terms src whole cfg) (hw : whole r) :
    (∃ x, outcome (contentView src.unread) (fe.readBody cfg headers r) = some (.done x)) ↔
      BodyArrives src cfg headers r := by
  by_cases hc : ChunkedBody headers
  · rw [outcome_chunked hfe hc r]
    constructor
    · rintro ⟨x, hx⟩
      cases hrun : (ChunkLoop.machine src cfg).run (.start r) with
      | error e =>
        rw [hrun] at hx
        cases e with
        | http err => cases hx
        | clientClosed => cases hx
        | builtin err => cases hx
        | app tag => cases hx
      | ok res =>
        obtain ⟨body, sum, r'⟩ := res
        obtain ⟨lines, trailer, content, hdecodes, -, -⟩ := ChunkLoop.decodes_of_run hrun
        exact .chunks hc hdecodes
    · intro h
      cases h with
      | length hn => exact absurd hc hn
      | chunks _ hdecodes =>
        have hrun := ChunkLoop.run_of_decodes hdecodes []
        exact ⟨_, congrArg (outcome (bodyView src)) hrun⟩
  · rw [outcome_readBody (hfe.counts hw) hc, lengthOutcome]
    constructor
    · rintro ⟨x, hx⟩
      split at hx
      · cases hx
      · next hd =>
        obtain ⟨n, hn, hx⟩ := Option.map_eq_some_iff.1 hx
        split at hx
        · cases hx
        · next hm =>
          split at hx
          · next hl =>
            rw [Bool.not_eq_false] at hd
            exact .length hc hd hn (Nat.not_lt.1 hm) hl
          · cases hx
    · intro h
      cases h with
      | length _ hd hn hm hl =>
        have hd' : ¬ isDigit (announced headers) = false := by
          rw [hd]
          exact Bool.noConfusion
        rw [if_neg hd', hn, Option.map_some, if_neg (Nat.not_lt.2 hm), if_pos hl]
        exact ⟨_, rfl⟩
      | chunks hc' => exact absurd hc' hc

/-- Reading a body leaves the parser's terms just at a fault. -/
theorem outcome_none_iff (hfe : fe.Terms src whole cfg)
    (hchunks : InTerms ((ChunkLoop.machine src cfg).run (.start r)) ↔ ¬ chunkFault r)
    (hw : whole r) :
    outcome (contentView src.unread) (fe.readBody cfg headers r) = none ↔
      BodyFault chunkFault headers r := by
  by_cases hc : ChunkedBody headers
  · have hrun := hchunks
    rw [inTerms_iff (bodyView src), ← not_iff_not, not_not, Bool.not_eq_true,
      Option.isSome_eq_false_iff, Option.isNone_iff_eq_none] at hrun
    rw [outcome_chunked hfe hc r]
    refine hrun.trans ⟨fun h => .chunks hc h, fun h => ?_⟩
    cases h with
    | length hn => exact absurd hc hn
    | chunks _ hfault => exact hfault
  · rw [outcome_readBody (hfe.counts hw) hc, lengthOutcome]
    constructor
    · intro h
      split at h
      · cases h
      · next hd =>
        rw [Bool.not_eq_false] at hd
        exact .length hc hd (Option.map_eq_none_iff.1 h)
    · intro h
      cases h with
      | length _ hd hn =>
        have hd' : ¬ isDigit (announced headers) = false := by
          rw [hd]
          exact Bool.noConfusion
        rw [if_neg hd', hn, Option.map_none]
      | chunks hc' => exact absurd hc' hc

theorem finish_none_iff [Urllib] {head : Head} {o : Outcome (Bytes × Int × Bytes)} :
    finish head o = none ↔ (∃ x, o = .done x) ∧ urlsplit head.target = none := by
  cases o with
  | done x =>
    rw [finish]
    split
    · next hsome =>
      refine iff_of_false (fun h => (by cases h)) ?_
      rintro ⟨-, hnone⟩
      rw [hnone] at hsome
      cases hsome
    · next hnone =>
      rw [Option.not_isSome_iff_eq_none] at hnone
      exact iff_of_true rfl ⟨⟨x, rfl⟩, hnone⟩
  | refused status =>
    refine iff_of_false (fun h => (by cases h)) ?_
    rintro ⟨⟨x, h⟩, -⟩
    cases h
  | closed =>
    refine iff_of_false (fun h => (by cases h)) ?_
    rintro ⟨⟨x, h⟩, -⟩
    cases h

/-- A parser keeps to its terms just if it does not come to a fault. -/
theorem parse_inTerms [Urllib] (hfe : fe.Terms src whole cfg)
    (hchunks : ∀ r, whole r →
      (InTerms ((ChunkLoop.machine src cfg).run (.start r)) ↔ ¬ chunkFault r))
    (hw : whole r) (remoteAddr : Str) :
    InTerms (fe.parse cfg remoteAddr r) ↔ ¬ ParserFault fe src chunkFault cfg r := by
  have hheaders := hfe.headers hw
  cases hr : fe.readHeaders cfg r with
  | error e =>
    have hparse : fe.parse cfg remoteAddr r = .error e := by
      rw [FrontEnd.parse, hr]
      rfl
    rw [hr, inTerms_error] at hheaders
    rw [hparse, inTerms_error]
    refine iff_of_true hheaders fun h => ?_
    cases h with
    | body hr' => rw [hr] at hr'; cases hr'
    | target hr' => rw [hr] at hr'; cases hr'
  | ok res =>
    obtain ⟨raw, r₁⟩ := res
    cases hh : parseHeaderBlock raw cfg with
    | error e =>
      have hparse : fe.parse cfg remoteAddr r = .error e := by
        rw [FrontEnd.parse, hr, ok_bind]
        dsimp only
        rw [hh]
        rfl
      rw [hparse, inTerms_error]
      refine iff_of_true (.inl (parseHeaderBlock_error hh)) fun h => ?_
      cases h with
      | body hr' hh' =>
        cases hr.symm.trans hr'
        rw [hh] at hh'
        cases hh'
      | target hr' hh' =>
        cases hr.symm.trans hr'
        rw [hh] at hh'
        cases hh'
    | ok head =>
      have hw₁ := hfe.headers_whole hw hr
      have hfault : ParserFault fe src chunkFault cfg r ↔
          BodyFault chunkFault head.headers r₁ ∨
            BodyArrives src cfg head.headers r₁ ∧ urlsplit head.target = none := by
        constructor
        · intro h
          cases h with
          | body hr' hh' hbody =>
            cases hr.symm.trans hr'
            cases hh.symm.trans hh'
            exact .inl hbody
          | target hr' hh' harrives htarget =>
            cases hr.symm.trans hr'
            cases hh.symm.trans hh'
            exact .inr ⟨harrives, htarget⟩
        · rintro (hbody | ⟨harrives, htarget⟩)
          · exact .body hr hh hbody
          · exact .target hr hh harrives htarget
      rw [inTerms_iff (requestView src.unread), outcome_parse src.unread remoteAddr hr hh,
        hfault, ← outcome_none_iff hfe (hchunks r₁ hw₁) hw₁, ← outcome_done_iff hfe hw₁]
      cases ho : outcome (contentView src.unread) (fe.readBody cfg head.headers r₁) with
      | none => exact iff_of_false Bool.false_ne_true fun h => h (.inl rfl)
      | some o =>
        rw [Option.bind_some, ← not_iff_not, not_not, Bool.not_eq_true,
          Option.isSome_eq_false_iff, Option.isNone_iff_eq_none, finish_none_iff]
        constructor
        · rintro ⟨⟨x, rfl⟩, htarget⟩
          exact .inr ⟨⟨x, rfl⟩, htarget⟩
        · rintro (h | ⟨⟨x, hx⟩, htarget⟩)
          · cases h
          · cases hx
            exact ⟨⟨x, rfl⟩, htarget⟩

end FrontEnd

/-- The line at the start of a stream is longer than a `StreamReader` takes. -/
def Overlong (u : Bytes) : Prop := streamLimit < (u.takeWhile fun b => b ≠ 10).length

theorem readUntil_inTerms {r : SocketReader} (hw : r.ending = none) (marker : Bytes) (limit : Nat) :
    InTerms (r.readUntil marker limit) := by
  have hclosed : InTerms (.error (recvError r.ending) : Read (Bytes × SocketReader)) := by
    rw [hw]
    exact inTerms_error.2 (.inr rfl)
  cases hb : Marker.breakOn marker r.unread with
  | none =>
    by_cases hl : r.unread.length ≤ limit
    · rw [SocketReader.readUntil_missing hb hl]
      exact hclosed
    · rw [SocketReader.readUntil_over hb (Nat.not_le.1 hl)]
      exact inTerms_http _ _
  | some res =>
    obtain ⟨b, a⟩ := res
    rcases r.seek_of_found limit hb with h | ⟨-, t, h⟩
    · rw [SocketReader.readUntil, h]
      exact inTerms_ok _
    · rw [SocketReader.readUntil, h]
      exact inTerms_http _ _

theorem readUntil_whole {r r' : SocketReader} {marker data : Bytes} (hw : r.ending = none)
    (h : r.readUntil marker limit = .ok (data, r')) : r'.ending = none := by
  obtain ⟨b, a, -, -, rfl⟩ := SocketReader.readUntil_ok h
  rw [Source.advance_ending, hw]

/-- The reads of the threaded server raise nothing of their own. -/
theorem SocketReader.terms :
    chunkSource.Terms (fun r : SocketReader => r.ending = none) (fun _ => False)
      fun _ => False where
  sizeLine {r} hw := by
    refine iff_of_true ?_ id
    have hread := readUntil_inTerms hw crlf 8192
    intro e he
    cases hr : r.readUntil crlf 8192 with
    | error e' =>
      rw [hr] at hread
      rw [chunkSource] at he
      dsimp only at he
      rw [hr] at he
      cases he
      exact inTerms_error.1 hread
    | ok res =>
      rw [chunkSource] at he
      dsimp only at he
      rw [hr] at he
      cases he
  trailer hw := iff_of_true (readUntil_inTerms hw crlf 8192) id
  exact {r n} hw := by
    refine iff_of_true ?_ id
    cases n with
    | ofNat n =>
      have hexact := readExact_ofNat n r
      rw [hw] at hexact
      intro e he
      have he' : r.readExact n = .error e := he
      rw [hexact] at he'
      split at he'
      · cases he'
      · cases he'
        exact .inr rfl
    | negSucc k => exact inTerms_ok _
  terminator := id
  sizeLine_whole {r line r'} hw h := by
    obtain ⟨⟨data, r''⟩, hread, heq⟩ := except_map_eq_ok.1 h
    cases heq
    exact readUntil_whole hw hread
  exact_whole {r n part r'} hw h := by
    cases n with
    | ofNat n =>
      have hread : r.readExact n = .ok (part, r') := h
      rw [readExact_ofNat] at hread
      split at hread
      · cases hread
        rw [Source.advance_ending, hw]
      · cases hread
    | negSucc k =>
      cases h
      exact hw

theorem SocketReader.frontEnd_terms (cfg : ServerConfig) :
    frontEnd.Terms chunkSource (fun r : SocketReader => r.ending = none) cfg where
  headers hw := readUntil_inTerms hw headEnd _
  headers_whole hw h := readUntil_whole hw h
  counts hw := counts cfg hw
  chunks := readChunkedBody_view cfg _

theorem takeWhile_of_breakOn {u b v : Bytes} (h : Marker.breakOn [10] u = some (b, v)) :
    (u.takeWhile fun x => x ≠ 10) = b := by
  have hmem := Marker.not_mem_of_breakOn h
  have hall : ∀ x ∈ b, decide (x ≠ 10) = true := by
    intro x hx
    refine decide_eq_true ?_
    rintro rfl
    exact hmem hx
  rw [Marker.breakOn_eq h, List.append_assoc, List.takeWhile_append_of_pos hall]
  exact List.append_nil b

theorem takeWhile_of_missing {u : Bytes} (h : Marker.breakOn [10] u = none) :
    (u.takeWhile fun x => x ≠ 10) = u := by
  rw [List.takeWhile_eq_self_iff]
  intro x hx
  refine decide_eq_true ?_
  rintro rfl
  rw [Marker.breakOn_eq_none] at h
  exact h ((List.singleton_infix_iff 10 u).2 hx)

/-- Only an overlong line makes `readline` raise. -/
theorem readline_overlong {r : StreamReader cap} (hw : r.ending = none) :
    (Overlong r.unread ∧ r.readline = .error (.builtin .valueError)) ∨
      (¬ Overlong r.unread ∧ ∃ res, r.readline = .ok res ∧ res.2.ending = none) := by
  rw [StreamReader.readline_eq, hw, Overlong]
  cases hb : Marker.breakOn [10] r.unread with
  | some res =>
    obtain ⟨b, v⟩ := res
    rw [takeWhile_of_breakOn hb]
    by_cases hl : b.length ≤ streamLimit
    · refine .inr ⟨Nat.not_lt.2 hl, _, if_pos hl, ?_⟩
      exact (Source.advance_ending _ _).trans hw
    · exact .inl ⟨Nat.not_le.1 hl, if_neg hl⟩
  | none =>
    rw [takeWhile_of_missing hb]
    by_cases hl : r.unread.length ≤ streamLimit
    · exact .inr ⟨Nat.not_lt.2 hl, _, if_pos hl, rfl⟩
    · exact .inl ⟨Nat.not_le.1 hl, if_neg hl⟩

/-- The reads of the asynchronous server raise something of their own at an overlong line, and when
they are asked for less than nothing. -/
theorem StreamReader.terms (cap : Nat) :
    (chunkSource cap).Terms (fun r : StreamReader cap => r.ending = none)
      (fun r => Overlong r.unread) fun n => n < 0 where
  sizeLine {r} hw := by
    have hline : (chunkSource cap).readSizeLine r = r.readSizeLine := rfl
    rw [hline]
    rcases readline_overlong hw with ⟨hover, hread⟩ | ⟨hshort, ⟨text, r'⟩, hread, -⟩
    · have hsize : r.readSizeLine = .error (.builtin .valueError) := by rw [readSizeLine, hread]
      rw [hsize, inTerms_error]
      refine iff_of_false ?_ fun h => h hover
      rintro (⟨_, h⟩ | h)
      · cases h
      · cases h
    · refine iff_of_true ?_ hshort
      cases text with
      | nil =>
        have hsize : r.readSizeLine = .error .clientClosed := by rw [readSizeLine, hread]
        rw [hsize]
        exact inTerms_error.2 (.inr rfl)
      | cons b text =>
        rw [readSizeLine_of (List.cons_ne_nil b text) hread]
        exact inTerms_ok _
  trailer {r} hw := by
    have hline : (chunkSource cap).readTrailer r = r.readline := rfl
    rw [hline]
    rcases readline_overlong hw with ⟨hover, hread⟩ | ⟨hshort, res, hread, -⟩
    · rw [hread, inTerms_error]
      refine iff_of_false ?_ fun h => h hover
      rintro (⟨_, h⟩ | h)
      · cases h
      · cases h
    · rw [hread]
      exact iff_of_true (inTerms_ok _) hshort
  exact {r n} hw := by
    cases n with
    | ofNat n =>
      have hexact := readExact_ofNat n r
      rw [hw] at hexact
      refine iff_of_true (fun e he => ?_) (Int.not_lt.2 (Int.natCast_nonneg n))
      have he' : r.readExact n = .error e := he
      rw [hexact] at he'
      split at he'
      · cases he'
      · cases he'
        exact .inr rfl
    | negSucc k =>
      refine iff_of_false (fun h => ?_) fun h => h (Int.negSucc_lt_zero k)
      rcases h (.builtin .valueError) rfl with ⟨_, he⟩ | he
      · cases he
      · cases he
  terminator := by decide
  sizeLine_whole {r line r'} hw h := by
    obtain ⟨text, -, hread, -⟩ := readSizeLine_ok h
    rcases readline_overlong hw with ⟨-, hread'⟩ | ⟨-, res, hread', hres⟩
    · rw [hread] at hread'
      cases hread'
    · rw [hread] at hread'
      cases hread'
      exact hres
  exact_whole {r n part r'} hw h := by
    cases n with
    | ofNat n =>
      have hread : r.readExact n = .ok (part, r') := h
      rw [readExact_ofNat] at hread
      split at hread
      · cases hread
        rw [Source.advance_ending, hw]
      · cases hread
    | negSucc k => cases h

theorem readuntil_error {r : StreamReader cap} {sep : Bytes} (hs : sep ≠ []) (hw : r.ending = none)
    (h : r.readuntil sep = .error e) : e = .incompleteRead ∨ e = .limitOverrun := by
  rw [StreamReader.readuntil_eq hs, hw] at h
  split at h
  · split at h
    · cases h
    · cases h
      exact .inr rfl
  · split at h
    · cases h
      exact .inl rfl
    · cases h
      exact .inr rfl

theorem readuntil_whole {r r' : StreamReader cap} {sep data : Bytes} (hs : sep ≠ [])
    (hw : r.ending = none) (h : r.readuntil sep = .ok (data, r')) : r'.ending = none := by
  rw [StreamReader.readuntil_eq hs] at h
  split at h
  · split at h
    · cases h
      rw [Source.advance_ending, hw]
    · cases h
  · split at h
    · cases h
    · cases h

theorem StreamReader.frontEnd_terms (cap : Nat) (cfg : ServerConfig) :
    (frontEnd cap).Terms (chunkSource cap) (fun r : StreamReader cap => r.ending = none) cfg where
  headers {r} hw := by
    have hread : (frontEnd cap).readHeaders cfg r = r.readHeaders cfg := rfl
    rw [hread, readHeaders]
    cases huntil : r.readuntil headEnd with
    | error e =>
      rcases readuntil_error (by decide) hw huntil with rfl | rfl
      · exact inTerms_error.2 (.inr rfl)
      · exact inTerms_http _ _
    | ok res =>
      dsimp only
      split
      · exact inTerms_http _ _
      · exact inTerms_ok _
  headers_whole {r raw r'} hw h := by
    have hread : r.readHeaders cfg = .ok (raw, r') := h
    rw [readHeaders] at hread
    cases huntil : r.readuntil headEnd with
    | error e =>
      rw [huntil] at hread
      rcases readuntil_error (by decide) hw huntil with rfl | rfl
      · cases hread
      · cases hread
    | ok res =>
      obtain ⟨data, r''⟩ := res
      rw [huntil] at hread
      dsimp only at hread
      split at hread
      · cases hread
      · cases hread
        exact readuntil_whole (by decide) hw huntil
  counts hw := counts cfg hw
  chunks := readChunkedBody_view cfg _

/-- Without lines and sizes that its reader raises for, the loop comes to no fault. -/
theorem no_chunkFault {R : Type} {src : ChunkSource R} {cfg : ServerConfig} {r : R} {total : Int} :
    ¬ ChunkFault src cfg (fun _ => False) (fun _ => False) r total := by
  intro h
  induction h with
  | sizeLine hover => exact hover
  | trailer _ _ hover => exact hover
  | size _ _ _ _ hrefused => exact hrefused
  | chunk _ _ _ _ _ _ _ ih => exact ih

/-- The threaded parser comes to a fault. The chunks of a body have none. -/
def SocketFault [Urllib] (cfg : ServerConfig) (segs : List (Segment UInt8 4096)) : Prop :=
  ParserFault SocketReader.frontEnd SocketReader.chunkSource (fun _ => False) cfg
    (.ofSegments segs)

/-- The asynchronous parser comes to a fault. -/
def StreamFault [Urllib] (cfg : ServerConfig) (segs : List (Segment UInt8 cap)) : Prop :=
  ParserFault (StreamReader.frontEnd cap) (StreamReader.chunkSource cap)
    (fun r => ChunkFault (StreamReader.chunkSource cap) cfg (fun r => Overlong r.unread)
      (fun n => n < 0) r 0) cfg (.ofSegments segs)

/-- Both parsers return a request or raise one of their exceptions just if they come to none of the
faults. -/
theorem parsers_inTerms [Urllib] (cfg : ServerConfig) (remoteAddr : Str) :
    (∀ segs : List (Segment UInt8 4096),
      InTerms (parseRequest cfg remoteAddr (.ofSegments segs)) ↔ ¬ SocketFault cfg segs) ∧
    ∀ (cap : Nat) (segs : List (Segment UInt8 cap)),
      InTerms (parseAsyncRequest cfg remoteAddr (.ofSegments segs)) ↔ ¬ StreamFault cfg segs := by
  constructor
  · intro segs
    refine parse_inTerms (SocketReader.frontEnd_terms cfg) ?_ (Source.ofSegments_ending segs)
      remoteAddr
    intro r hw
    refine (run_inTerms SocketReader.terms hw [] 0).trans (not_congr ?_)
    exact iff_of_false no_chunkFault id
  · intro cap segs
    refine parse_inTerms (StreamReader.frontEnd_terms cap cfg) ?_ (Source.ofSegments_ending segs)
      remoteAddr
    intro r hw
    exact run_inTerms (StreamReader.terms cap) hw [] 0

/-- A superscript two is a digit for `isdigit`, and not for `int`. -/
def superscriptLength : Bytes :=
  ascii "POST / HTTP/1.1\r\nHost: h\r\nContent-Length: " ++ 178 :: ascii "\r\n\r\n"

theorem superscript_length :
    ¬ InTerms (@parseRequest ⟨fun _ => true⟩ {} []
        (.ofSegments [⟨superscriptLength, by decide, by decide⟩])) ∧
      ¬ InTerms (@parseAsyncRequest 4096 ⟨fun _ => true⟩ {} []
        (.ofSegments [⟨superscriptLength, by decide, by decide⟩])) := by
  have hforeign : ¬ (IsHttp (.builtin .valueError) ∨ Exc.builtin .valueError = .clientClosed) := by
    rintro (⟨_, h⟩ | h)
    · cases h
    · cases h
  constructor
  · intro h
    exact hforeign (h _ (by decide +kernel))
  · intro h
    exact hforeign (h _ (by decide +kernel))

end Sovereign
