import Sovereign.Parser
import Sovereign.StreamReader

namespace Sovereign
open Buffered
set_option autoImplicit true

/-- Reading a body of known length takes exactly the bytes that come next. -/
def FrontEnd.Exact (fe : FrontEnd R) (unread : R → Bytes) : Prop :=
  ∀ {cfg n r body r'}, fe.readExactBody cfg n r = .ok (body, r') →
    body.toBytes.length = n ∧ unread r = body.toBytes ++ unread r'

/-- How a request was framed, given the reader after its header block. -/
inductive Framed (fe : FrontEnd R) (unread : R → Bytes) (cfg : ServerConfig) (r₁ : R)
    (req : Request) (r' : R) : Prop where
  | empty (noCoding : req.headers.get? "transfer-encoding".toList = none)
      (noLength : req.headers.get? "content-length".toList = none)
      (body : req.body.toBytes = []) (rest : r' = r₁)
  | length (noCoding : req.headers.get? "transfer-encoding".toList = none)
      (value : req.headers.get? "content-length".toList = some cl) (digits : isDigit cl = true)
      (number : parseInt cl = some n) (size : req.body.toBytes.length = n)
      (next : unread r₁ = req.body.toBytes ++ unread r')
  | chunked (value : req.headers.get? "transfer-encoding".toList = some coding)
      (name : lower coding = "chunked".toList)
      (noLength : req.headers.get? "content-length".toList = none)
      (decoded : fe.readChunkedBody cfg r₁ = .ok (req.body, req.bodySize, r'))

/-- An accepted header block starts the stream of `r`. -/
def HasHead (fe : FrontEnd R) (cfg : ServerConfig) (r : R) (head : Head) (r₁ : R) : Prop :=
  ∃ raw, fe.readHeaders cfg r = .ok (raw, r₁) ∧ parseHeaderBlock raw cfg = .ok head

/-- Every request returned is framed in one of three ways, and a request with any other transfer
coding is rejected. -/
def DecidesFraming [Urllib] (fe : FrontEnd R) (unread : R → Bytes) (cfg : ServerConfig)
    (remoteAddr : Str) (r : R) : Prop :=
  (∀ req r', fe.parse cfg remoteAddr r = .ok (req, r') →
    ∃ head r₁, HasHead fe cfg r head r₁ ∧ head.headers = req.headers ∧
      Framed fe unread cfg r₁ req r') ∧
  ∀ head r₁ coding, HasHead fe cfg r head r₁ →
    head.headers.get? "transfer-encoding".toList = some coding →
    lower coding ≠ "chunked".toList → ∃ err, fe.parse cfg remoteAddr r = .error (.http err)

/-- An accepted header block names no transfer coding but `chunked`. -/
def OnlyChunked (fe : FrontEnd R) (cfg : ServerConfig) (r : R) : Prop :=
  ∀ head r₁ coding, HasHead fe cfg r head r₁ →
    head.headers.get? "transfer-encoding".toList = some coding → lower coding = "chunked".toList

theorem contains_eq_false {d : Headers} : d.contains k = false ↔ d.get? k = none := by
  rw [Dict.contains, Option.isSome_eq_false_iff, Option.isNone_iff_eq_none]

/-- No accepted header block has both framing fields. -/
theorem parseHeaderBlock_framing (h : parseHeaderBlock raw cfg = .ok head)
    (hc : head.headers.get? "transfer-encoding".toList = some coding) :
    head.headers.get? "content-length".toList = none := by
  simp only [parseHeaderBlock] at h
  split at h
  · cases h
  · split at h
    · cases h
    · cases h
    · have hf := (parseLines_ok h).framing
      rw [← contains_eq_false, Bool.eq_false_iff]
      intro hl
      exact hf ⟨hl, by rw [Dict.contains, hc]; rfl⟩

section FrontEnd

variable {R : Type} {fe : FrontEnd R} {unread : R → Bytes} {cfg : ServerConfig}

theorem framed_of_parse [Urllib] (hx : fe.Exact unread) (ho : OnlyChunked fe cfg r)
    (h : fe.parse cfg remoteAddr r = .ok (req, r')) :
    ∃ head r₁, HasHead fe cfg r head r₁ ∧ head.headers = req.headers ∧
      Framed fe unread cfg r₁ req r' := by
  obtain ⟨raw, r₁, head, body, size, hr, hh, hb, hm⟩ := FrontEnd.parse_ok h
  obtain ⟨-, -, hheaders, -, rfl, rfl⟩ := requestMake_ok hm
  refine ⟨head, r₁, ⟨raw, hr, hh⟩, hheaders.symm, ?_⟩
  rw [← hheaders] at hb
  cases hc : req.headers.get? "transfer-encoding".toList with
  | some coding =>
    have hname := ho head r₁ coding ⟨raw, hr, hh⟩ (hheaders ▸ hc)
    have hnone := parseHeaderBlock_framing hh (hheaders ▸ hc)
    rw [FrontEnd.readBody_chunked hc hname] at hb
    exact .chunked hc hname (hheaders ▸ hnone) hb
  | none =>
    cases hl : req.headers.get? "content-length".toList with
    | none =>
      rw [FrontEnd.readBody_unchunked (fun _ h => by rw [hc] at h; cases h) hl] at hb
      simp only [Except.ok.injEq, Prod.mk.injEq] at hb
      exact .empty hc hl (by rw [← hb.1]; rfl) hb.2.2.symm
    | some cl =>
      rw [FrontEnd.readBody_length hc hl] at hb
      split at hb
      · cases hb
      · next hd =>
        have hdigit : isDigit cl = true := by simpa using hd
        split at hb
        · cases hb
        · next hn =>
          simp only [Except.ok.injEq, Prod.mk.injEq] at hb
          refine .length hc hl hdigit hn (by rw [← hb.1]; rfl) ?_
          rw [← hb.1, ← hb.2.2]
          rfl
        · next n hn =>
          cases he : fe.readExactBody cfg (n + 1) r₁ with
          | error e =>
            rw [he] at hb
            cases hb
          | ok res =>
            rw [he] at hb
            simp only [Except.map, Except.ok.injEq, Prod.mk.injEq] at hb
            obtain ⟨hlen, hnext⟩ := hx he
            refine .length hc hl hdigit hn (by rw [← hb.1, hlen]) ?_
            rw [← hb.1, ← hb.2.2, hnext]

/-- A request with another transfer coding is never rejected for it. -/
theorem not_http_of_coding [Urllib] (h : HasHead fe cfg r head r₁)
    (hc : head.headers.get? "transfer-encoding".toList = some coding)
    (hn : lower coding ≠ "chunked".toList) (err : HTTPError) :
    fe.parse cfg remoteAddr r ≠ .error (.http err) := by
  obtain ⟨raw, hr, hh⟩ := h
  have hl := parseHeaderBlock_framing hh hc
  rw [FrontEnd.parse_of_head hr hh, FrontEnd.readBody_unchunked _ hl]
  · simp only [bind, Except.bind, Request.make]
    split
    · next he =>
      split at he
      · cases he
        simp
      · cases he
    · simp [pure, Except.pure]
  · intro coding' hc'
    rw [hc] at hc'
    cases hc'
    exact hn

theorem decidesFraming_iff [Urllib] (hx : fe.Exact unread) :
    DecidesFraming fe unread cfg remoteAddr r ↔ OnlyChunked fe cfg r := by
  constructor
  · rintro ⟨-, h⟩ head r₁ coding hh hc
    by_contra hn
    obtain ⟨err, he⟩ := h head r₁ coding hh hc hn
    exact not_http_of_coding hh hc hn err he
  · intro ho
    exact ⟨fun req r' h => framed_of_parse hx ho h,
      fun head r₁ coding hh hc hn => absurd (ho head r₁ coding hh hc) hn⟩

end FrontEnd

theorem SocketReader.exact : frontEnd.Exact Source.unread := by
  intro cfg n r body r' h
  have h' : r.readExactBody cfg n = .ok (body, r') := h
  rw [readExactBody_eq] at h'
  split at h'
  · cases h'
  · split at h'
    · next hn =>
      simp only [Except.ok.injEq, Prod.mk.injEq] at h'
      have hb : body.toBytes = r.unread.take n := by
        rw [← h'.1]
        split <;> rfl
      rw [hb, ← h'.2, Source.advance_unread hn, List.length_take, Nat.min_eq_left hn,
        List.take_append_drop]
      exact ⟨rfl, rfl⟩
    · cases h'

theorem StreamReader.exact : (frontEnd cap).Exact Source.unread := by
  intro cfg n r body r' h
  have h' : r.readExactBody cfg n = .ok (body, r') := h
  simp only [readExactBody, readExact_ofNat] at h'
  split at h'
  · cases h'
  · split at h'
    · next hn =>
      cases h'
      rw [Body.toBytes, Source.advance_unread hn, List.length_take, Nat.min_eq_left hn,
        List.take_append_drop]
      exact ⟨rfl, rfl⟩
    · cases h'

/-- Both servers decide the framing as promised exactly on the streams whose header block, if it
is accepted, has no transfer coding other than `chunked`. -/
theorem parse_decidesFraming [Urllib] :
    (∀ (cfg : ServerConfig) (remoteAddr : Str) (r : SocketReader),
      DecidesFraming SocketReader.frontEnd Source.unread cfg remoteAddr r ↔
        OnlyChunked SocketReader.frontEnd cfg r) ∧
    ∀ (cap : Nat) (cfg : ServerConfig) (remoteAddr : Str) (r : StreamReader cap),
      DecidesFraming (StreamReader.frontEnd cap) Source.unread cfg remoteAddr r ↔
        OnlyChunked (StreamReader.frontEnd cap) cfg r :=
  ⟨fun _ _ _ => decidesFraming_iff SocketReader.exact,
    fun _ _ _ _ => decidesFraming_iff StreamReader.exact⟩

/-- A list of codings that ends in `chunked` is taken for no body, and the payload stays unread. -/
theorem parse_decidesFraming_list :
    ¬ ∀ _ : Urllib,
      (∀ (cfg : ServerConfig) (remoteAddr : Str) (r : SocketReader),
        DecidesFraming SocketReader.frontEnd Source.unread cfg remoteAddr r) ∧
      ∀ (cap : Nat) (cfg : ServerConfig) (remoteAddr : Str) (r : StreamReader cap),
        DecidesFraming (StreamReader.frontEnd cap) Source.unread cfg remoteAddr r := by
  intro h
  let r : SocketReader := ⟨ascii
    "POST / HTTP/1.1\r\nHost: h\r\nTransfer-Encoding: gzip, chunked\r\n\r\n0\r\n\r\n", []⟩
  have hd := (h ⟨fun _ => true⟩).1 {} [] r
  have ho := (@decidesFraming_iff _ _ _ {} [] r ⟨fun _ => true⟩ SocketReader.exact).1 hd
  have hc : lower "gzip, chunked".toList = "chunked".toList :=
    ho ⟨"POST".toList, "/".toList, "HTTP/1.1".toList,
      ((∅ : Headers).set "host".toList "h".toList).set "transfer-encoding".toList
        "gzip, chunked".toList,
      [("host".toList, "h".toList), ("transfer-encoding".toList, "gzip, chunked".toList)]⟩
      ⟨ascii "0\r\n\r\n", []⟩ _ ⟨_, rfl, by decide⟩ rfl
  exact absurd hc (by decide)

end Sovereign
