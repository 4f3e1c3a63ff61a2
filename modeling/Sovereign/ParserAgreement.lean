import Sovereign.ChunkedAgreement

namespace Sovereign
open Buffered
set_option autoImplicit true

/-- What a parser returns, and the bytes it leaves unread. -/
structure RequestView where
  method : Str
  target : Str
  headers : Headers
  rawHeaders : List (Str × Str)
  body : Bytes
  bodySize : Int
  unread : Bytes
deriving DecidableEq

def requestView (unread : R → Bytes) (res : Request × R) : RequestView :=
  { method := res.1.method, target := res.1.target, headers := res.1.headers
    rawHeaders := res.1.rawHeaders, body := res.1.body.toBytes, bodySize := res.1.bodySize
    unread := unread res.2 }

/-- The two parsers return equal requests and leave the same bytes, or both raise an `HTTPError`
with the same status, or both find the connection closed. -/
def ParsersAgree [Urllib] (cfg : ServerConfig) (remoteAddr : Str) (r : SocketReader)
    (r' : StreamReader cap) : Prop :=
  ∃ o, outcome (requestView Source.unread) (parseRequest cfg remoteAddr r) = some o ∧
    outcome (requestView Source.unread) (parseAsyncRequest cfg remoteAddr r') = some o

/-- A header block announces a chunked body. -/
def ChunkedBody (headers : Headers) : Prop :=
  lower ((headers.get? "transfer-encoding".toList).getD []) = "chunked".toList

instance (headers : Headers) : Decidable (ChunkedBody headers) :=
  inferInstanceAs (Decidable (_ = _))

/-- The length that a header block announces otherwise. -/
def announced (headers : Headers) : Str :=
  (headers.get? "content-length".toList).getD ['0']

/-- The reading of a body on which both servers agree, and its outcome. -/
inductive BodyInStep (cfg : ServerConfig) (headers : Headers) (u : Bytes) :
    Outcome (Bytes × Int × Bytes) → Prop where
  | chunked : ChunkedBody headers → InStep cfg [] 0 u o → BodyInStep cfg headers u o
  | notDigits : ¬ ChunkedBody headers → isDigit (announced headers) = false →
      BodyInStep cfg headers u (.refused 400)
  | tooLarge {n : Nat} : ¬ ChunkedBody headers → isDigit (announced headers) = true →
      parseInt (announced headers) = some n → cfg.maxBodyBytes < n →
      BodyInStep cfg headers u (.refused 413)
  | truncated {n : Nat} : ¬ ChunkedBody headers → isDigit (announced headers) = true →
      parseInt (announced headers) = some n → n ≤ cfg.maxBodyBytes → u.length < n →
      BodyInStep cfg headers u .closed
  | complete {n : Nat} : ¬ ChunkedBody headers → isDigit (announced headers) = true →
      parseInt (announced headers) = some n → n ≤ cfg.maxBodyBytes → n ≤ u.length →
      BodyInStep cfg headers u (.done (u.take n, n, u.drop n))

/-- Both servers come to the same end of a request: a refused header block with the same status, or
a body they read alike and, where it is complete, a target that `urlsplit` accepts. -/
def Aligned [Urllib] (cfg : ServerConfig) (block u : Bytes) : Prop :=
  match parseHeaderBlock (block ++ headEnd) cfg with
  | .error (.http err) => block.length ≤ streamLimit ∨ err.status = 431
  | .error _ => False
  | .ok head => block.length ≤ streamLimit ∧ ∃ o, BodyInStep cfg head.headers u o ∧
      ((∃ x, o = .done x) → (urlsplit head.target).isSome = true)

/-- A chunked body, if there is one, has no line that one server alone delimits. -/
def Unambiguous (cfg : ServerConfig) (block u : Bytes) : Prop :=
  ∀ head, parseHeaderBlock (block ++ headEnd) cfg = .ok head → ChunkedBody head.headers →
    block.length ≤ streamLimit ∧ ¬ Ambiguous cfg 0 u

/-- The outcome of a parser, from the outcome of its reading of the body. -/
def finish [Urllib] (head : Head) : Outcome (Bytes × Int × Bytes) → Option (Outcome RequestView)
  | .refused status => some (.refused status)
  | .closed => some .closed
  | .done (body, bodySize, unread) =>
    if (urlsplit head.target).isSome = true then
      some (.done { method := head.method, target := head.target, headers := head.headers
                    rawHeaders := head.rawPairs, body, bodySize, unread })
    else none

theorem finish_isSome [Urllib] {head : Head} {o : Outcome (Bytes × Int × Bytes)}
    (h : (∃ x, o = .done x) → (urlsplit head.target).isSome = true) :
    ∃ y, finish head o = some y := by
  cases o with
  | done x => exact ⟨_, if_pos (h ⟨x, rfl⟩)⟩
  | refused status => exact ⟨_, rfl⟩
  | closed => exact ⟨_, rfl⟩

theorem finish_done [Urllib] {head : Head} (h : finish head (.done x) = some y) :
    (urlsplit head.target).isSome = true := by
  simp only [finish] at h
  split at h
  · assumption
  · cases h

theorem finish_inj [Urllib] {head : Head} {o o' : Outcome (Bytes × Int × Bytes)}
    (h : finish head o = some x) (h' : finish head o' = some x) : o = o' := by
  cases o with
  | done a =>
    simp only [finish] at h
    split at h
    · next ht =>
      cases h
      cases o' with
      | done a' =>
        simp only [finish, ht, ↓reduceIte, Option.some.injEq, Outcome.done.injEq,
          RequestView.mk.injEq, true_and] at h'
        obtain ⟨h₁, h₂, h₃⟩ := h'
        obtain ⟨_, _, _⟩ := a
        obtain ⟨_, _, _⟩ := a'
        simp_all
      | refused status => cases h'
      | closed => cases h'
    · cases h
  | refused status =>
    cases h
    cases o' with
    | done a' =>
      simp only [finish] at h'
      split at h' <;> cases h'
    | refused status' => cases h'; rfl
    | closed => cases h'
  | closed =>
    cases h
    cases o' with
    | done a' =>
      simp only [finish] at h'
      split at h' <;> cases h'
    | refused status' => cases h'
    | closed => rfl

/-- A pure step after a read does not change how it ends. -/
theorem outcome_bind (view : ρ' → β) (view' : ρ → γ) (f : ρ → ρ') (g : γ → β)
    (h : ∀ x, view (f x) = g (view' x)) (res : Read ρ) :
    outcome view (res >>= fun x => pure (f x)) = (outcome view' res).map (Outcome.map g) := by
  match res with
  | .ok x => exact congrArg (fun y => some (Outcome.done y)) (h x)
  | .error e => cases e <;> rfl

section FrontEnd

variable {R : Type} {fe : FrontEnd R} {unread : R → Bytes} {cfg : ServerConfig}

/-- The view of a body that a front end has read. -/
def contentView (unread : R → Bytes) (res : Body × Int × R) : Bytes × Int × Bytes :=
  (res.1.toBytes, res.2.1, unread res.2.2)

theorem outcome_parse [Urllib] (unread : R → Bytes) (remoteAddr : Str)
    (hr : fe.readHeaders cfg r = .ok (raw, r₁))
    (hh : parseHeaderBlock raw cfg = .ok head) :
    outcome (requestView unread) (fe.parse cfg remoteAddr r) =
      (outcome (contentView unread) (fe.readBody cfg head.headers r₁)).bind (finish head) := by
  rw [FrontEnd.parse_of_head hr hh]
  cases hb : fe.readBody cfg head.headers r₁ with
  | error e =>
    match e with
    | .http err | .clientClosed | .builtin err | .app tag => rfl
  | ok res =>
    obtain ⟨body, size, r₂⟩ := res
    simp only [bind, Except.bind, outcome, Option.bind, finish, contentView, Request.make]
    cases hs : urlsplit head.target with
    | none => rfl
    | some parts => rfl

/-- What both front ends guarantee for bodies of a known length. -/
def FrontEnd.Counts (fe : FrontEnd R) (unread : R → Bytes) (cfg : ServerConfig) (r : R) : Prop :=
  ∀ n : Nat, outcome (fun res => (res.1.toBytes, unread res.2)) (fe.readExactBody cfg n r) =
    some (if cfg.maxBodyBytes < n then .refused 413
      else if n ≤ (unread r).length then .done ((unread r).take n, (unread r).drop n)
      else .closed)

/-- The outcome of reading a body of a known length. -/
def lengthOutcome (cfg : ServerConfig) (headers : Headers) (u : Bytes) :
    Option (Outcome (Bytes × Int × Bytes)) :=
  if isDigit (announced headers) = false then some (.refused 400)
  else (parseInt (announced headers)).map fun n =>
    if cfg.maxBodyBytes < n then .refused 413
    else if n ≤ u.length then .done (u.take n, n, u.drop n)
    else .closed

theorem outcome_readBody (hc : fe.Counts unread cfg r) {headers : Headers}
    (hn : ¬ ChunkedBody headers) :
    outcome (contentView unread) (fe.readBody cfg headers r) =
      lengthOutcome cfg headers (unread r) := by
  rw [ChunkedBody] at hn
  simp only [FrontEnd.readBody, hn, ↓reduceIte, lengthOutcome]
  rw [← announced]
  split
  · rfl
  · cases parseInt (announced headers) with
    | none => rfl
    | some n =>
      cases n with
      | zero => rfl
      | succ n =>
        have hview := outcome_bind (contentView unread)
          (fun res : Body × R => (res.1.toBytes, unread res.2))
          (fun res : Body × R => (res.1, ((n + 1 : Nat) : Int), res.2))
          (fun x : Bytes × Bytes => (x.1, ((n + 1 : Nat) : Int), x.2)) (fun _ => rfl)
          (fe.readExactBody cfg (n + 1) r)
        rw [hc (n + 1)] at hview
        refine hview.trans ?_
        simp only [Option.map_some]
        split
        · rfl
        · split <;> rfl

theorem bodyInStep_length {headers : Headers} (hn : ¬ ChunkedBody headers) :
    BodyInStep cfg headers u o ↔ lengthOutcome cfg headers u = some o := by
  constructor
  · intro h
    cases h with
    | chunked hc => exact absurd hc hn
    | notDigits _ hd => rw [lengthOutcome, if_pos hd]
    | tooLarge _ hd hp hm => simp [lengthOutcome, hd, hp, hm]
    | truncated _ hd hp hm hl =>
      simp [lengthOutcome, hd, hp, Nat.not_lt.2 hm, Nat.not_le.2 hl]
    | complete _ hd hp hm hl => simp [lengthOutcome, hd, hp, Nat.not_lt.2 hm, hl]
  · intro h
    rw [lengthOutcome] at h
    split at h
    · next hd =>
      cases h
      exact .notDigits hn hd
    · next hd =>
      have hd' : isDigit (announced headers) = true := by simpa using hd
      obtain ⟨n, hp, ho⟩ := Option.map_eq_some_iff.1 h
      split at ho
      · next hm =>
        subst ho
        exact .tooLarge hn hd' hp hm
      · next hm =>
        split at ho
        · next hl =>
          subst ho
          exact .complete hn hd' hp (Nat.not_lt.1 hm) hl
        · next hl =>
          subst ho
          exact .truncated hn hd' hp (Nat.not_lt.1 hm) (Nat.not_le.1 hl)

theorem lengthOutcome_ne (cfg : ServerConfig) (headers : Headers) (u : Bytes) :
    lengthOutcome cfg headers u ≠ some (.refused 431) := by
  rw [lengthOutcome]
  split
  · simp
  · cases parseInt (announced headers) with
    | none => simp
    | some n =>
      simp only [Option.map_some]
      split
      · simp
      · split <;> simp

/-- A reading in step is the only one. -/
theorem bodyInStep_chunked {headers : Headers} (hc : ChunkedBody headers)
    (h : BodyInStep cfg headers u o) : InStep cfg [] 0 u o := by
  cases h with
  | chunked _ h => exact h
  | notDigits hn | tooLarge hn | truncated hn | complete hn => exact absurd hc hn

end FrontEnd

theorem SocketReader.counts (cfg : ServerConfig) {r : SocketReader} (hw : r.ending = none) :
    frontEnd.Counts Source.unread cfg r := by
  intro n
  simp only [frontEnd, readExactBody_eq, hw]
  split
  · rfl
  · split
    · next hl => split <;> simp only [outcome, Body.toBytes, Source.advance_unread hl]
    · rfl

theorem StreamReader.counts (cfg : ServerConfig) {r : StreamReader cap} (hw : r.ending = none) :
    (frontEnd cap).Counts Source.unread cfg r := by
  intro n
  simp only [frontEnd, readExactBody, readExact_ofNat, hw]
  split
  · rfl
  · split
    · next hl => simp only [Except.map, outcome, Body.toBytes, Source.advance_unread hl]
    · rfl

theorem SocketReader.readChunkedBody_view (cfg : ServerConfig) (r : SocketReader) :
    outcome (contentView Source.unread) (frontEnd.readChunkedBody cfg r) =
      outcome (bodyView chunkSource) ((ChunkLoop.machine chunkSource cfg).run (.start r)) := by
  simp only [frontEnd, readChunkedBody]
  match (ChunkLoop.machine chunkSource cfg).run (.start r) with
  | .ok res =>
    simp only [bind, Except.bind, pure, Except.pure, outcome, contentView, bodyView, chunkSource]
    split <;> rfl
  | .error e => cases e <;> rfl

theorem StreamReader.readChunkedBody_view (cfg : ServerConfig) (r : StreamReader cap) :
    outcome (contentView Source.unread) ((frontEnd cap).readChunkedBody cfg r) =
      outcome (bodyView (chunkSource cap))
        ((ChunkLoop.machine (chunkSource cap) cfg).run (.start r)) := by
  simp only [frontEnd, readChunkedBody]
  match (ChunkLoop.machine (chunkSource cap) cfg).run (.start r) with
  | .ok res => rfl
  | .error e => cases e <;> rfl

section Agreement

variable {cfg : ServerConfig} {r : SocketReader} {r' : StreamReader cap} {block u : Bytes}

theorem SocketReader.readHeaders_block (hb : Marker.breakOn headEnd r.unread = some (block, u))
    (hl : block.length ≤ cfg.maxHeaderBytes) :
    r.readHeaders cfg = .ok (block ++ headEnd, r.advance (block.length + headEnd.length)) :=
  readUntil_found hb (by rw [show headEnd.length = 4 from rfl]; omega)

theorem StreamReader.readHeaders_block (hb : Marker.breakOn headEnd r'.unread = some (block, u))
    (hl : block.length ≤ cfg.maxHeaderBytes) :
    r'.readHeaders cfg =
      if block.length ≤ streamLimit then
        .ok (block ++ headEnd, r'.advance (block.length + headEnd.length))
      else .error (.httpError 431 "Read limit exceeded") := by
  simp only [readHeaders, readuntil_eq (show headEnd ≠ [] by decide), hb]
  have hlen : (block ++ headEnd).length ≤ cfg.maxHeaderBytes + 4 := by
    rw [List.length_append, show headEnd.length = 4 from rfl]
    omega
  by_cases hs : block.length ≤ streamLimit
  · simp only [hs, ↓reduceIte, if_neg (Nat.not_lt.2 hlen)]
  · simp only [hs, ↓reduceIte]

/-- Both servers read the body alike exactly where the body is in step. -/
theorem readBody_agree (cfg : ServerConfig) (headers : Headers) (r : SocketReader)
    (r' : StreamReader cap) (hu : r'.unread = r.unread) (hw : r.ending = none)
    (hw' : r'.ending = none) :
    (∀ o, BodyInStep cfg headers r.unread o →
      outcome (contentView Source.unread) (SocketReader.frontEnd.readBody cfg headers r) = some o ∧
      outcome (contentView Source.unread) ((StreamReader.frontEnd cap).readBody cfg headers r') =
        some o) ∧
    ((ChunkedBody headers → ¬ Ambiguous cfg 0 r.unread) → ∀ o,
      outcome (contentView Source.unread) (SocketReader.frontEnd.readBody cfg headers r) = some o →
      outcome (contentView Source.unread) ((StreamReader.frontEnd cap).readBody cfg headers r') =
        some o → BodyInStep cfg headers r.unread o) := by
  by_cases hc : ChunkedBody headers
  · have hview : outcome (contentView Source.unread)
      (SocketReader.frontEnd.readBody cfg headers r) = _ :=
      (congrArg _ (if_pos hc)).trans (SocketReader.readChunkedBody_view cfg r)
    have hview' : outcome (contentView Source.unread)
        ((StreamReader.frontEnd cap).readBody cfg headers r') = _ :=
      (congrArg _ (if_pos hc)).trans (StreamReader.readChunkedBody_view cfg r')
    constructor
    · intro o h
      have hs := bodyInStep_chunked hc h
      rw [hview, hview']
      exact ⟨outcome_of_inStep SocketReader.delimits hs hw rfl,
        outcome_of_inStep StreamReader.delimits hs hw' hu⟩
    · intro ha o h h'
      rw [hview] at h
      rw [hview'] at h'
      exact .chunked hc (inStep_of_outcome (ha hc) (Int.natCast_nonneg _) hw hw' hu h h')
  · have hview := outcome_readBody (SocketReader.counts cfg hw) hc
    have hview' := outcome_readBody (StreamReader.counts cfg hw') hc
    rw [hu] at hview'
    rw [hview, hview']
    exact ⟨fun o h => ⟨(bodyInStep_length hc).1 h, (bodyInStep_length hc).1 h⟩,
      fun _ o h _ => (bodyInStep_length hc).2 h⟩

/-- The two parsers agree on every request that they read in step, and on no other whose lines both
delimit alike. -/
theorem parsersAgree [Urllib] (remoteAddr : Str)
    (hb : Marker.breakOn headEnd r.unread = some (block, u))
    (hl : block.length ≤ cfg.maxHeaderBytes) (hu : r'.unread = r.unread) (hw : r.ending = none)
    (hw' : r'.ending = none) :
    (Aligned cfg block u → ParsersAgree cfg remoteAddr r r') ∧
    (Unambiguous cfg block u → ParsersAgree cfg remoteAddr r r' → Aligned cfg block u) := by
  have hr : SocketReader.frontEnd.readHeaders cfg r = _ := SocketReader.readHeaders_block hb hl
  have hr' : (StreamReader.frontEnd cap).readHeaders cfg r' = _ :=
    StreamReader.readHeaders_block (by rw [hu]; exact hb) hl
  have hsplit : r.unread = (block ++ headEnd) ++ u := Marker.breakOn_eq hb
  have hrest : (r.advance (block.length + headEnd.length)).unread = u := by
    simpa using Source.advance_of_append hsplit
  have hrest' : (r'.advance (block.length + headEnd.length)).unread = u := by
    simpa using Source.advance_of_append (hu.trans hsplit)
  unfold Aligned Unambiguous ParsersAgree parseRequest parseAsyncRequest
  cases hh : parseHeaderBlock (block ++ headEnd) cfg with
  | error e =>
    obtain ⟨err, rfl⟩ := parseHeaderBlock_error hh
    have hp : SocketReader.frontEnd.parse cfg remoteAddr r = .error (.http err) := by
      simp only [FrontEnd.parse, hr, bind, Except.bind, hh]
    by_cases hs : block.length ≤ streamLimit
    · have hp' : (StreamReader.frontEnd cap).parse cfg remoteAddr r' = .error (.http err) := by
        simp only [FrontEnd.parse, hr', hs, ↓reduceIte, bind, Except.bind, hh]
      exact ⟨fun _ => ⟨_, by rw [hp]; rfl, by rw [hp']; rfl⟩, fun _ _ => .inl hs⟩
    · have hp' : (StreamReader.frontEnd cap).parse cfg remoteAddr r' =
          .error (.httpError 431 "Read limit exceeded") := by
        simp only [FrontEnd.parse, hr', hs, ↓reduceIte, bind, Except.bind]
      rw [hp, hp']
      constructor
      · rintro (h | h)
        · exact absurd h hs
        · exact ⟨.refused 431, by rw [← h]; rfl, rfl⟩
      · rintro - ⟨o, ho, ho'⟩
        cases ho'
        simp only [outcome, Option.some.injEq, Outcome.refused.injEq] at ho
        exact .inr ho
  | ok head =>
    have hp := outcome_parse Source.unread remoteAddr hr hh
    rw [hp]
    by_cases hs : block.length ≤ streamLimit
    · rw [if_pos hs] at hr'
      have hp' := outcome_parse Source.unread remoteAddr hr' hh
      rw [hp']
      obtain ⟨hto, hfrom⟩ := readBody_agree cfg head.headers
        (r.advance (block.length + headEnd.length))
        (r'.advance (block.length + headEnd.length)) (by rw [hrest, hrest'])
        (by rw [Source.advance_ending, hw]) (by rw [Source.advance_ending, hw'])
      rw [hrest] at hto hfrom
      constructor
      · rintro ⟨-, o, hi, htarget⟩
        obtain ⟨ho, ho'⟩ := hto o hi
        obtain ⟨y, hy⟩ := finish_isSome htarget
        exact ⟨y, by rw [ho, Option.bind_some, hy], by rw [ho', Option.bind_some, hy]⟩
      · rintro hamb ⟨o, ho, ho'⟩
        obtain ⟨x, hx, hf⟩ := Option.bind_eq_some_iff.1 ho
        obtain ⟨x', hx', hf'⟩ := Option.bind_eq_some_iff.1 ho'
        obtain rfl := finish_inj hf hf'
        refine ⟨hs, x, hfrom (fun hc => (hamb head rfl hc).2) x hx hx', ?_⟩
        rintro ⟨y, rfl⟩
        exact finish_done hf
    · rw [if_neg hs] at hr'
      constructor
      · rintro ⟨h, -⟩
        exact absurd h hs
      · rintro hamb ⟨o, ho, ho'⟩
        have hp' : (StreamReader.frontEnd cap).parse cfg remoteAddr r' =
            .error (.httpError 431 "Read limit exceeded") := by
          simp only [FrontEnd.parse, hr', bind, Except.bind]
        rw [hp'] at ho'
        cases ho'
        -- only a header block or a chunked body is refused with 431
        obtain ⟨x, hx, hf⟩ := Option.bind_eq_some_iff.1 ho
        have hnot : ¬ ChunkedBody head.headers := fun hc => hs (hamb head rfl hc).1
        rw [outcome_readBody (SocketReader.counts cfg (by rw [Source.advance_ending, hw]))
          hnot] at hx
        obtain rfl : x = .refused 431 := finish_inj hf rfl
        exact absurd hx (lengthOutcome_ne _ _ _)

end Agreement

theorem line_of (line v : Bytes) (h : 10 ∉ line) (hl : line.length ≤ lineMax) :
    Line line (line ++ crlf ++ v) v := ⟨rfl, h, hl⟩

/-- One chunk of five bytes, and nothing after it. -/
theorem parsersAgree_hello :
    let text := ascii
      "POST / HTTP/1.1\r\nHost: h\r\nTransfer-Encoding: chunked\r\n\r\n5\r\nhello\r\n0\r\n\r\n"
    @ParsersAgree 4096 ⟨fun _ => true⟩ {} [] ⟨text, []⟩ ⟨text, []⟩ := by
  intro text
  let head : Head := ⟨"POST".toList, "/".toList, "HTTP/1.1".toList,
    ((∅ : Headers).set "host".toList "h".toList).set "transfer-encoding".toList "chunked".toList,
    [("host".toList, "h".toList), ("transfer-encoding".toList, "chunked".toList)]⟩
  let block := ascii "POST / HTTP/1.1\r\nHost: h\r\nTransfer-Encoding: chunked"
  have hh : parseHeaderBlock (block ++ headEnd) {} = .ok head := by decide
  have hlast : InStep {} (ascii "hello") 5 (ascii "0\r\n\r\n") (.done (ascii "hello", 5, [])) :=
    .last (line_of (ascii "0") crlf (by decide) (by decide)) (by decide)
      (line_of [] [] (by decide) (by decide))
  have hbody : InStep {} [] 0 (ascii "5\r\nhello\r\n0\r\n\r\n") (.done (ascii "hello", 5, [])) :=
    .chunk (line_of (ascii "5") (ascii "hello" ++ crlf ++ ascii "0\r\n\r\n") (by decide)
      (by decide)) (by decide) (by decide) (by decide) hlast
  have haligned : @Aligned ⟨fun _ => true⟩ {} block (ascii "5\r\nhello\r\n0\r\n\r\n") := by
    simp only [Aligned, hh]
    exact ⟨by decide, _, .chunked (by decide) hbody, fun _ => by decide⟩
  exact (@parsersAgree 4096 {} ⟨text, []⟩ ⟨text, []⟩ block (ascii "5\r\nhello\r\n0\r\n\r\n")
    ⟨fun _ => true⟩ [] (by decide) (by decide) rfl rfl rfl).1 haligned

/-- A chunked body that ends after its last size line is a closed connection for one server and a
complete request for the other. -/
theorem parsersAgree_last_line :
    ¬ ∀ (_ : Urllib) (cap : Nat) (cfg : ServerConfig) (remoteAddr : Str) (r : SocketReader)
      (r' : StreamReader cap) (block u : Bytes),
      Marker.breakOn headEnd r.unread = some (block, u) → block.length ≤ cfg.maxHeaderBytes →
      r'.unread = r.unread → r.ending = none → r'.ending = none →
      ParsersAgree cfg remoteAddr r r' := by
  intro h
  let text := ascii "POST / HTTP/1.1\r\nHost: h\r\nTransfer-Encoding: chunked\r\n\r\n0\r\n"
  let block := ascii "POST / HTTP/1.1\r\nHost: h\r\nTransfer-Encoding: chunked"
  obtain ⟨o, ho, ho'⟩ := h ⟨fun _ => true⟩ 4096 {} [] ⟨text, []⟩ ⟨text, []⟩ block (ascii "0\r\n")
    (by decide) (by decide) rfl rfl rfl
  have hp : @parseRequest ⟨fun _ => true⟩ {} [] ⟨text, []⟩ = .error .clientClosed := by decide
  have hp' : (@parseAsyncRequest 4096 ⟨fun _ => true⟩ {} [] ⟨text, []⟩).isOk = true := by decide
  rw [hp] at ho
  cases ho
  match hr : @parseAsyncRequest 4096 ⟨fun _ => true⟩ {} [] ⟨text, []⟩ with
  | .ok res =>
    rw [hr] at ho'
    cases ho'
  | .error e =>
    rw [hr] at hp'
    cases hp'

end Sovereign
