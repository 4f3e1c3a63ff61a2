import Sovereign.HeaderBlock
import Sovereign.Lib.HttpClient
import Sovereign.Writer

namespace Sovereign
open HttpClient
set_option autoImplicit true

/-- A header entry as it stands on its line. -/
def clientLine (e : Str × Str) : Bytes := latin1 (headerLine e)

/-- The entry as a client reads it. -/
def fieldOf (e : Str × Str) : Bytes × Bytes := (parseField (clientLine e)).getD ([], [])

/-- The content that a client is to get in answer to a request. -/
def bodyFor (method : Str) (result : HandlerResult) : Bytes :=
  if method = "HEAD".toList ∨ Bodyless result.status then [] else result.content

/-- The bytes are exactly one response, with this status and the content for the request method,
and the framing fields agree with it. -/
structure WellFramed (method : Str) (result : HandlerResult) (sent : Bytes) : Prop where
  reads : ∀ rest, Reads method (sent ++ rest) result.status (bodyFor method result) rest
  fields : ∃ head after, parseHead sent = some (head, after) ∧
    (head.values contentLength).length ≤ 1 ∧ (head.values transferEncoding).length ≤ 1 ∧
    (head.values contentLength = [] ∨ head.values transferEncoding = []) ∧
    ∀ v ∈ head.values contentLength, lengthValue v = some (bodyFor "GET".toList result).length

/-- The value that the framing field goes out with: the handler may have replaced it. -/
def framingValue (own : Headers) (result : HandlerResult) : Bytes :=
  trim (latin1 ((own.get? (framingEntry result).1).getD (framingEntry result).2))

/-- The condition on a status and a handler's mapping under which the framing is kept. -/
def Framable (sendsContent : Bool) (method : Str) (own : Headers) (result : HandlerResult) : Prop :=
  (100 ≤ result.status ∧ result.status ≤ 999) ∧
  (∀ e ∈ own.entries, (parseField (clientLine e)).isSome) ∧
  match result with
  | .response resp =>
    (∀ e ∈ own.entries, (fieldOf e).1 = contentLength → e.1 = "Content-Length".toList) ∧
    (∀ e ∈ own.entries, (fieldOf e).1 ≠ transferEncoding) ∧
    lengthValue (framingValue own result) = some (bodyFor "GET".toList result).length ∧
    (NoBody method resp.status → resp.body = [] ∨ sendsContent = false)
  | .stream resp =>
    (∀ e ∈ own.entries, (fieldOf e).1 ≠ contentLength) ∧
    (∀ e ∈ own.entries, (fieldOf e).1 = transferEncoding → e.1 = "Transfer-Encoding".toList) ∧
    codings [framingValue own result] = [chunkedCoding] ∧
    ¬ NoBody method resp.status

/-! How a client reads the lines of a header block. -/

theorem tchar_tokenChar (h : tokenChar c = true) : Chunked.tchar (UInt8.ofNat c.toNat) = true := by
  have hall : ∀ n < 127, tokenChar (Char.ofNat n) = true →
      Chunked.tchar (UInt8.ofNat n) = true := by decide +kernel
  have hc := hall c.toNat (by have := tokenChar_visible h; omega)
  rw [Char.ofNat_toNat] at hc
  exact hc h

/-- An entry whose name is a token is read as that name and its value. -/
theorem parseField_token {k : Str} (hne : k ≠ []) (hk : ∀ c ∈ k, tokenChar c = true) (v : Str) :
    parseField (clientLine (k, v)) = some ((latin1 k).map lowerByte, trim (latin1 (' ' :: v))) := by
  have hc : 58 ∉ latin1 k := by
    rw [show (58 : UInt8) = UInt8.ofNat ':'.toNat from rfl, mem_latin1 (by decide) fun d hd => by
      have := tokenChar_visible (hk d hd); omega]
    exact not_mem_token hk (by decide)
  have hl : clientLine (k, v) = latin1 k ++ [58] ++ latin1 (' ' :: v) := by
    rw [clientLine, headerLine, latin1_append, latin1_append, List.append_assoc, List.append_assoc]
    rfl
  have ht : (latin1 k).all Chunked.tchar = true := by
    rw [List.all_eq_true]
    intro b hb
    obtain ⟨c, hc, rfl⟩ := List.mem_map.1 hb
    exact tchar_tokenChar (hk c hc)
  have hn : latin1 k ≠ [] := by simpa [latin1] using hne
  rw [parseField, hl, Marker.breakOn_first hc]
  simp only [hn, ht, ne_eq, not_false_eq_true, and_self, ↓reduceIte]

theorem fieldOf_token {k : Str} (hne : k ≠ []) (hk : ∀ c ∈ k, tokenChar c = true) (v : Str) :
    fieldOf (k, v) = ((latin1 k).map lowerByte, trim (latin1 v)) := by
  rw [fieldOf, parseField_token hne hk, Option.getD_some]
  rfl

theorem mapM_parseField {entries : List (Str × Str)} {fields : List (Bytes × Bytes)} :
    (entries.map clientLine).mapM parseField = some fields ↔
      (∀ e ∈ entries, (parseField (clientLine e)).isSome) ∧ fields = entries.map fieldOf := by
  induction entries generalizing fields with
  | nil =>
    rw [List.map_nil, List.mapM_nil, Option.pure_def, Option.some.injEq]
    exact ⟨fun h => ⟨fun _ he => absurd he List.not_mem_nil, h.symm⟩, fun h => h.2.symm⟩
  | cons e entries ih =>
    rw [List.map_cons, List.mapM_cons]
    cases he : parseField (clientLine e) with
    | none =>
      simp only [Option.bind_eq_bind, Option.bind_none, reduceCtorEq, List.forall_mem_cons, he,
        Option.isSome_none, Bool.false_eq_true, false_and]
    | some f =>
      have hf : fieldOf e = f := by rw [fieldOf, he, Option.getD_some]
      simp only [Option.pure_def, Option.bind_eq_bind, Option.bind_some, Option.bind_eq_some_iff,
        ih, List.forall_mem_cons, he, Option.isSome_some, true_and, List.map_cons, hf]
      constructor
      · rintro ⟨fs, ⟨hall, rfl⟩, h⟩
        exact ⟨hall, (Option.some.inj h).symm⟩
      · rintro ⟨hall, rfl⟩
        exact ⟨_, ⟨hall, rfl⟩, rfl⟩

theorem chars_latin1 {s : Str} (h : Clean s) : Chunked.chars (latin1 s) = s :=
  decodeLatin1_latin1 fun c hc => (h c hc).1

theorem not_mem_digits (n : Nat) : ' ' ∉ Nat.toDigits 10 n := fun h => by
  have hd := Nat.isDigit_of_mem_toDigits (by decide) (by decide) h
  revert hd
  decide

theorem blank_not_mem_decimal (status : Int) : 32 ∉ latin1 (decimal status) := by
  rw [show (32 : UInt8) = UInt8.ofNat ' '.toNat from rfl,
    mem_latin1 (by decide) fun d hd => (clean_decimal status d hd).1]
  cases status with
  | ofNat n => exact not_mem_digits n
  | negSucc n =>
    intro h
    rcases List.mem_cons.1 h with h | h
    · revert h
      decide
    · exact not_mem_digits _ h

/-- A client accepts the status lines with three-digit codes. -/
theorem parseStatusLine_iff {status : Int} {n : Nat} :
    parseStatusLine (latin1 (statusLine status)) = some n ↔
      (100 ≤ status ∧ status ≤ 999) ∧ (n : Int) = status := by
  have hsplit : latin1 (statusLine status) = [72, 84, 84, 80, 47, 49, 46, 49, 32] ++
      (latin1 (decimal status) ++ 32 :: latin1 (reasonPhrase status)) := by
    have hp : latin1 "HTTP/1.1 ".toList = [72, 84, 84, 80, 47, 49, 46, 49, 32] := by decide
    unfold statusLine
    rw [List.append_assoc, latin1_append, latin1_append, hp, latin1_cons]
    rfl
  rw [hsplit, parseStatusLine_append (blank_not_mem_decimal status), latin1_length,
    chars_latin1 (clean_decimal status)]
  cases status with
  | ofNat k =>
    have hp := parse_decimal k
    have h₁ := Nat.length_toDigits_le_iff (b := 10) (n := k) (k := 3) (by decide) (by decide)
    have h₂ := Nat.length_toDigits_le_iff (b := 10) (n := k) (k := 2) (by decide) (by decide)
    have hd : decimal (Int.ofNat k) = Nat.toDigits 10 k := rfl
    rw [Int.ofNat_eq_natCast, hp]
    rw [← Int.ofNat_eq_natCast, hd]
    split
    · rw [Option.some.injEq]
      simp only [Int.ofNat_eq_natCast]
      omega
    · simp only [reduceCtorEq, false_iff, Int.ofNat_eq_natCast]
      omega
  | negSucc k =>
    have hneg : ∀ m, Numeral.parse 10 (decimal (Int.negSucc k)) ≠ some m := by
      intro m hm
      obtain ⟨d, -, hd⟩ := Numeral.digit_of_parse hm '-' List.mem_cons_self
      cases hd
    constructor
    · intro h
      split at h
      · exact absurd h (hneg n)
      · cases h
    · omega

/-- What a client makes of a header block. -/
theorem parseHead_block {status : Int} {merged : Headers} (h : CleanHeaders merged)
    {u after : Bytes}
    {head : HttpClient.Head} :
    parseHead (latin1 (headerText status merged) ++ u) = some (head, after) ↔
      (100 ≤ status ∧ status ≤ 999) ∧ (∀ e ∈ merged.entries, (parseField (clientLine e)).isSome) ∧
      (head.status : Int) = status ∧ head.fields = merged.entries.map fieldOf ∧ after = u := by
  have hc := block_clean status h
  have hb : Marker.breakOn (Chunked.lineEnd ++ Chunked.lineEnd)
      (latin1 (headerText status merged) ++ u) = some (latin1 (Marker.joinPair '\r' '\n'
        (statusLine status :: merged.entries.map headerLine)), u) := by
    rw [headerText_eq]
    exact breakOn_blockText hc (List.cons_ne_nil _ _) u
  have hs : Marker.splitPair 13 10 (latin1 (Marker.joinPair '\r' '\n'
      (statusLine status :: merged.entries.map headerLine))) =
      latin1 (statusLine status) :: merged.entries.map clientLine := by
    rw [latin1_joinPair, Marker.splitPair_joinPair _ (by simp), List.map_cons, List.map_map]
    · rfl
    · intro l hl
      obtain ⟨line, hline, rfl⟩ := List.mem_map.1 hl
      exact not_mem_latin1 (hc line hline).1
  rw [parseHead, hb]
  simp only [hs]
  constructor
  · intro hp
    split at hp
    · next n fields hn hf =>
      cases hp
      obtain ⟨hr, hn⟩ := parseStatusLine_iff.1 hn
      obtain ⟨hv, rfl⟩ := mapM_parseField.1 hf
      exact ⟨hr, hv, hn, rfl, rfl⟩
    · cases hp
  · rintro ⟨hr, hv, hn, hf, rfl⟩
    obtain ⟨n, fields⟩ := head
    simp only at hn hf
    rw [parseStatusLine_iff.2 ⟨hr, hn⟩, mapM_parseField.2 ⟨hv, hf⟩]

/-- The values of a field among the entries that are sent. -/
theorem values_entries {head : HttpClient.Head} {entries : List (Str × Str)}
    (h : head.fields = entries.map fieldOf) (name : Bytes) :
    head.values name =
      (entries.filter fun e => (fieldOf e).1 = name).map fun e => (fieldOf e).2 := by
  rw [Head.values, h, List.filter_map, List.map_map]
  rfl

theorem values_eq_nil {head : HttpClient.Head} {entries : List (Str × Str)} {name : Bytes}
    (h : head.fields = entries.map fieldOf) :
    head.values name = [] ↔ ∀ e ∈ entries, (fieldOf e).1 ≠ name := by
  rw [values_entries h, List.map_eq_nil_iff, List.filter_eq_nil_iff]
  simp only [decide_eq_true_eq]

/-- A field is sent once exactly when only one entry has its name. -/
theorem values_once {head : HttpClient.Head} {merged : Headers} {name : Bytes} {e₀ : Str × Str}
    (h : head.fields = merged.entries.map fieldOf) (he₀ : e₀ ∈ merged.entries)
    (hn : (fieldOf e₀).1 = name) :
    (head.values name).length ≤ 1 ↔ ∀ e ∈ merged.entries, (fieldOf e).1 = name → e.1 = e₀.1 := by
  have hnodup : merged.entries.Nodup := List.Nodup.of_map _ merged.nodup
  have hmem : e₀ ∈ merged.entries.filter fun e => (fieldOf e).1 = name := by simp [he₀, hn]
  rw [values_entries h, List.length_map]
  constructor
  · intro hl e he hname
    have hin : e ∈ merged.entries.filter fun e => (fieldOf e).1 = name := by simp [he, hname]
    match hf : merged.entries.filter fun e => (fieldOf e).1 = name with
    | [] => simp [hf] at hin
    | [x] =>
      rw [hf, List.mem_singleton] at hin hmem
      rw [hin, hmem]
    | _ :: _ :: _ => simp [hf] at hl
  · intro hall
    have hsub : ∀ e ∈ merged.entries.filter fun e => (fieldOf e).1 = name, e = e₀ := by
      intro e he
      simp only [List.mem_filter, decide_eq_true_eq] at he
      exact Dict.entries_inj he.1 he₀ (hall e he.1 he.2)
    have hnd := hnodup.filter fun e => (fieldOf e).1 = name
    match hf : merged.entries.filter fun e => (fieldOf e).1 = name with
    | [] => simp
    | [x] => simp
    | x :: y :: l =>
      rw [hf] at hsub hnd
      have hxy : x = y := (hsub x (by simp)).trans (hsub y (by simp)).symm
      simp [hxy] at hnd

theorem values_single {head : HttpClient.Head} {merged : Headers} {name : Bytes} {e₀ : Str × Str}
    (h : head.fields = merged.entries.map fieldOf) (he₀ : e₀ ∈ merged.entries)
    (hn : (fieldOf e₀).1 = name) (hl : (head.values name).length ≤ 1) :
    head.values name = [(fieldOf e₀).2] := by
  have hmem : (fieldOf e₀).2 ∈ head.values name := by
    rw [values_entries h]
    exact List.mem_map_of_mem (by simp [he₀, hn])
  match hv : head.values name with
  | [] => simp [hv] at hmem
  | [x] =>
    rw [hv, List.mem_singleton] at hmem
    rw [hmem]
  | _ :: _ :: _ => simp [hv] at hl

/-! The entries that are sent. -/

/-- The names that the server adds by itself, framing aside. -/
def serverNames : List Str :=
  ["Date".toList, "Server".toList, "Connection".toList, "X-Content-Type-Options".toList,
    "X-Frame-Options".toList, "Referrer-Policy".toList, "Content-Security-Policy".toList,
    "Content-Type".toList]

theorem serverNames_plain : ∀ k ∈ serverNames, (k ≠ [] ∧ ∀ c ∈ k, tokenChar c = true) ∧
    (latin1 k).map lowerByte ≠ contentLength ∧ (latin1 k).map lowerByte ≠ transferEncoding := by
  decide

theorem get?_responseHeaders (req : Request) (result : HandlerResult) (k : Str) :
    (responseHeaders req result).get? k = ((ownHeaders req result).get? k).or
      (if k = (framingEntry result).1 then some (framingEntry result).2
        else if k = "Content-Type".toList then some (contentType result) else none) := by
  have hcons : responseHeaders req result =
      (((∅ : Headers).set "Content-Type".toList (contentType result)).set (framingEntry result).1
        (framingEntry result).2).update (ownHeaders req result).entries := rfl
  rw [hcons, Dict.get?_update_entries, Dict.get?_set, Dict.get?_set, Dict.get?_empty]

variable {cfg : ServerConfig} {date : Str} {req : Request} {result : HandlerResult}
  {keepAlive : Bool}

theorem get?_sentHeaders {k : Str} {v : Str} (h : (responseHeaders req result).get? k = some v) :
    (sentHeaders cfg date req result keepAlive).get? k = some v := by
  rw [sentHeaders, mergedHeaders]
  simp only [Dict.get?_update_entries, h, Option.some_or]

theorem mem_sentHeaders_own (he : e ∈ (ownHeaders req result).entries) :
    e ∈ (sentHeaders cfg date req result keepAlive).entries := by
  rw [Dict.mem_entries_iff] at he ⊢
  exact get?_sentHeaders (by rw [get?_responseHeaders, he, Option.some_or])

/-- The framing field, with the value it goes out with. -/
theorem framing_mem : ((framingEntry result).1,
    ((ownHeaders req result).get? (framingEntry result).1).getD (framingEntry result).2) ∈
      (sentHeaders cfg date req result keepAlive).entries := by
  rw [Dict.mem_entries_iff]
  refine get?_sentHeaders ?_
  rw [get?_responseHeaders, if_pos rfl]
  cases (ownHeaders req result).get? (framingEntry result).1 <;> rfl

/-- Every entry that is sent is the handler's, or one that the server adds. -/
theorem mem_sentHeaders_cases (he : e ∈ (sentHeaders cfg date req result keepAlive).entries) :
    e ∈ (ownHeaders req result).entries ∨ e.1 ∈ serverNames ∨ e.1 = (framingEntry result).1 := by
  have hk : e.1 ∈ (sentHeaders cfg date req result keepAlive).keys := List.mem_map_of_mem he
  rw [Dict.mem_entries_iff] at he
  have hkeys : e.1 ∈ serverNames ∨ e.1 ∈ (responseHeaders req result).keys := by
    rw [sentHeaders, mergedHeaders] at hk
    simp only [Dict.mem_keys_update] at hk
    rcases hk with hk | hk
    · left
      split at hk
      · rw [Dict.mem_keys_update, Dict.mem_keys_update] at hk
        have hsub : ∀ k ∈ ["Date".toList, "Server".toList, "Connection".toList] ++
            securityHeaders.map Prod.fst, k ∈ serverNames := by decide
        refine hsub _ ?_
        rcases hk with (hk | hk) | hk
        · cases hk
        · exact List.mem_append_left _ hk
        · exact List.mem_append_right _ hk
      · rw [Dict.mem_keys_update] at hk
        have hsub : ∀ k ∈ ["Date".toList, "Server".toList, "Connection".toList],
          k ∈ serverNames := by decide
        refine hsub _ ?_
        rcases hk with hk | hk
        · cases hk
        · exact hk
    · exact .inr hk
  rcases hkeys with hs | hr
  · exact .inr (.inl hs)
  · rw [Dict.mem_keys, Dict.contains, Option.isSome_iff_exists] at hr
    obtain ⟨v, hv⟩ := hr
    rw [get?_sentHeaders hv, Option.some.injEq] at he
    rw [get?_responseHeaders] at hv
    cases ho : (ownHeaders req result).get? e.1 with
    | some w =>
      rw [ho, Option.some_or, Option.some.injEq] at hv
      left
      rw [Dict.mem_entries_iff, ho, hv, he]
    | none =>
      rw [ho, Option.none_or] at hv
      split at hv
      · next hf => exact .inr (.inr hf)
      · split at hv
        · next hct => exact .inr (.inl (hct ▸ by decide))
        · cases hv

/-- What follows the header block when writing succeeds. -/
def sentContent (sendsContent : Bool) : HandlerResult → Bytes
  | .response resp => if sendsContent = true then resp.body else []
  | .stream resp => sentBytes (sendChunks resp.chunks) ++ ascii "0\r\n\r\n"

theorem writeWith_ok {sendsContent : Bool}
    (h : writeWith sendsContent req cfg date result keepAlive = (sent, .ok ())) :
    CleanHeaders (sentHeaders cfg date req result keepAlive) ∧
      sentBytes sent = latin1 (headerText result.status
        (sentHeaders cfg date req result keepAlive)) ++ sentContent sendsContent result := by
  cases result with
  | response resp =>
    rw [writeWith_response] at h
    split at h
    · cases h
    · next block hb =>
      obtain ⟨hc, rfl⟩ := sendHeaders_ok.1 hb
      refine ⟨hc, ?_⟩
      split at h
      · next hbody =>
        cases h
        simp [sentBytes, Sent.bytes, sentContent, hbody.2, sentHeaders, HandlerResult.status]
      · next hbody =>
        cases h
        have hnil : (if sendsContent = true then resp.body else []) = [] := by
          split
          · next hs => simpa [hs] using hbody
          · rfl
        simp [sentBytes, Sent.bytes, sentContent, hnil, sentHeaders, HandlerResult.status]
  | stream resp =>
    rw [writeWith_stream] at h
    split at h
    · cases h
    · next block hb =>
      obtain ⟨hc, rfl⟩ := sendHeaders_ok.1 hb
      refine ⟨hc, ?_⟩
      split at h
      · cases h
      · cases h
        simp [sentBytes, Sent.bytes, sentContent, sentHeaders, HandlerResult.status]

theorem parse_hexUpper (n : Nat) : Numeral.parse 16 (hexUpper n) = some n :=
  Numeral.parse_toDigits Char.toUpper (by decide) (by decide)
    (fun d hd => Numeral.digitVal_toUpper hd) n

/-- The chunks of a stream are in the grammar, with its content, where the size lines fit. -/
theorem chunks_sendChunks {fits : Bytes → Prop} {ends : Bytes → Bytes → Prop} {rest : Bytes}
    (hz : fits (latin1 ['0'])) (hends : ends (Chunked.lineEnd ++ rest) rest)
    {chunks : List StreamChunk} (h : ∀ c ∈ chunks, fits (latin1 (hexUpper c.encode.length))) :
    Chunked.Chunks fits ends (sentBytes (sendChunks chunks) ++ ascii "0\r\n\r\n" ++ rest)
      (chunks.flatMap StreamChunk.encode) rest := by
  induction chunks with
  | nil => exact .last (u := Chunked.lineEnd ++ rest) (sizeLine_digits (by decide)) hz hends
  | cons c chunks ih =>
    have hrest := ih fun d hd => h d (List.mem_cons_of_mem _ hd)
    by_cases hc : c.encode = []
    · have hs : sendChunks (c :: chunks) = sendChunks chunks := by simp [sendChunks, hc]
      rw [hs, List.flatMap_cons, hc, List.nil_append]
      exact hrest
    · have hs : sendChunks (c :: chunks) =
          .content (encodeStreamChunk c.encode) :: sendChunks chunks := by simp [sendChunks, hc]
      have hchunk := Chunked.Chunks.chunk (sizeLine_digits (parse_hexUpper c.encode.length))
        (h c List.mem_cons_self) (List.length_pos_iff.2 hc) rfl hrest
      have hb : sentBytes (sendChunks (c :: chunks)) ++ ascii "0\r\n\r\n" ++ rest =
          latin1 (hexUpper c.encode.length) ++ Chunked.lineEnd ++ (c.encode ++ (Chunked.lineEnd ++
            (sentBytes (sendChunks chunks) ++ ascii "0\r\n\r\n" ++ rest))) := by
        rw [hs, sentBytes, List.flatMap_cons, Sent.bytes, encodeStreamChunk]
        simp only [List.append_assoc]
        rfl
      rw [hb, List.flatMap_cons]
      exact hchunk

/-- The chunks of a stream are a chunked body with its content. -/
theorem body_sendChunks (chunks : List StreamChunk) (rest : Bytes) :
    Chunked.Body (fun _ => True) (sentBytes (sendChunks chunks) ++ ascii "0\r\n\r\n" ++ rest)
      (chunks.flatMap StreamChunk.encode) rest :=
  chunks_sendChunks trivial .done fun _ _ => trivial

theorem framingKey_token : (framingEntry result).1 ≠ [] ∧
    ∀ c ∈ (framingEntry result).1, tokenChar c = true := by
  have hl : "Content-Length".toList ≠ [] ∧ ∀ c ∈ "Content-Length".toList, tokenChar c = true := by
    decide
  have ht : "Transfer-Encoding".toList ≠ [] ∧
    ∀ c ∈ "Transfer-Encoding".toList, tokenChar c = true := by decide
  cases result with
  | response resp => exact hl
  | stream resp => exact ht

/-- The name under which a client looks for the framing field. -/
def framingName : HandlerResult → Bytes
  | .response _ => contentLength
  | .stream _ => transferEncoding

/-- The framing entry is read as its field. -/
theorem fieldOf_framing (v : Str) :
    fieldOf ((framingEntry result).1, v) = (framingName result, trim (latin1 v)) := by
  rw [fieldOf_token framingKey_token.1 framingKey_token.2]
  have hl : (latin1 "Content-Length".toList).map lowerByte = contentLength := by decide
  have ht : (latin1 "Transfer-Encoding".toList).map lowerByte = transferEncoding := by decide
  cases result with
  | response resp => exact Prod.ext hl rfl
  | stream resp => exact Prod.ext ht rfl

theorem valid_sentHeaders :
    (∀ e ∈ (sentHeaders cfg date req result keepAlive).entries,
      (parseField (clientLine e)).isSome) ↔
    ∀ e ∈ (ownHeaders req result).entries, (parseField (clientLine e)).isSome := by
  constructor
  · exact fun h e he => h e (mem_sentHeaders_own he)
  · intro h e he
    rcases mem_sentHeaders_cases he with ho | hs | hf
    · exact h e ho
    · obtain ⟨⟨hne, hk⟩, -⟩ := serverNames_plain _ hs
      obtain ⟨k, v⟩ := e
      rw [parseField_token hne hk]
      rfl
    · obtain ⟨k, v⟩ := e
      simp only at hf
      subst hf
      rw [parseField_token framingKey_token.1 framingKey_token.2]
      rfl

/-- A field name that neither the server nor the framing entry uses is the handler's. -/
theorem own_of_name {name : Bytes} (hn : name = contentLength ∨ name = transferEncoding)
    (he : e ∈ (sentHeaders cfg date req result keepAlive).entries) (hname : (fieldOf e).1 = name) :
    e ∈ (ownHeaders req result).entries ∨ e.1 = (framingEntry result).1 := by
  rcases mem_sentHeaders_cases he with ho | hs | hf
  · exact .inl ho
  · obtain ⟨⟨hne, hk⟩, hl, ht⟩ := serverNames_plain _ hs
    obtain ⟨k, v⟩ := e
    rw [fieldOf_token hne hk] at hname
    simp only at hname
    rcases hn with rfl | rfl
    · exact absurd hname hl
    · exact absurd hname ht
  · exact .inr hf

section Fields

variable {head : HttpClient.Head}
  (hf : head.fields = (sentHeaders cfg date req result keepAlive).entries.map fieldOf)

include hf

theorem framing_once : (head.values (framingName result)).length ≤ 1 ↔
    ∀ e ∈ (ownHeaders req result).entries, (fieldOf e).1 = framingName result →
      e.1 = (framingEntry result).1 := by
  rw [values_once hf framing_mem (by rw [fieldOf_framing])]
  constructor
  · exact fun h e he hn => h e (mem_sentHeaders_own he) hn
  · intro h e he hn
    have hname : framingName result = contentLength ∨ framingName result = transferEncoding := by
      cases result
      · exact .inl rfl
      · exact .inr rfl
    rcases own_of_name hname he hn with ho | hk
    · exact h e ho hn
    · exact hk

theorem framing_values (hl : (head.values (framingName result)).length ≤ 1) :
    head.values (framingName result) = [framingValue (ownHeaders req result) result] := by
  rw [values_single hf framing_mem (by rw [fieldOf_framing]) hl, fieldOf_framing]
  rfl

theorem other_values {name : Bytes} (hn : name = contentLength ∨ name = transferEncoding)
    (hne : framingName result ≠ name) :
    head.values name = [] ↔ ∀ e ∈ (ownHeaders req result).entries, (fieldOf e).1 ≠ name := by
  rw [values_eq_nil hf]
  constructor
  · exact fun h e he => h e (mem_sentHeaders_own he)
  · intro h e he hname
    rcases own_of_name hn he hname with ho | hk
    · exact h e ho hname
    · obtain ⟨k, v⟩ := e
      simp only at hk
      subst hk
      rw [fieldOf_framing] at hname
      exact hne hname

end Fields

theorem response_wellFramed {resp : Response} {sent : Bytes} {sendsContent : Bool} {method : Str}
    (hm : sendsContent = false → method = "HEAD".toList)
    (hc : CleanHeaders (sentHeaders cfg date req (.response resp) keepAlive))
    (hs : sent = latin1 (headerText resp.status (sentHeaders cfg date req (.response resp)
      keepAlive)) ++ sentContent sendsContent (.response resp)) :
    WellFramed method (.response resp) sent ↔
      Framable sendsContent method (ownHeaders req (.response resp)) (.response resp) := by
  have hne : contentLength ≠ transferEncoding := by decide
  constructor
  · rintro ⟨hreads, head, after, hp, hl, -, hor, hlen⟩
    rw [hs, parseHead_block hc] at hp
    obtain ⟨hr, hv, -, hf, rfl⟩ := hp
    have hvals := framing_values hf hl
    simp only [framingName] at hvals
    have hte : head.values transferEncoding = [] := by
      rcases hor with h | h
      · rw [hvals] at h
        cases h
      · exact h
    refine ⟨hr, valid_sentHeaders.1 hv, (framing_once hf).1 hl,
      (other_values hf (.inr rfl) hne).1 hte, hlen _ (hvals ▸ List.mem_singleton_self _), ?_⟩
    intro hno
    obtain ⟨head', after', hp', hst, ht⟩ := hreads []
    rw [List.append_nil, hs, parseHead_block hc] at hp'
    obtain ⟨-, -, hst', -, rfl⟩ := hp'
    rw [framing, if_pos (hst ▸ hno)] at ht
    have hnil := ht.2
    cases sendsContent with
    | true => exact .inl hnil.symm
    | false => exact .inr rfl
  · rintro ⟨hr, hv, hone, hnone, hlen, hno⟩
    have hr' : 100 ≤ resp.status ∧ resp.status ≤ 999 := hr
    obtain ⟨n, hn⟩ := Int.eq_ofNat_of_zero_le (by omega : 0 ≤ resp.status)
    let head : HttpClient.Head :=
      ⟨n, (sentHeaders cfg date req (.response resp) keepAlive).entries.map fieldOf⟩
    have hf : head.fields =
        (sentHeaders cfg date req (.response resp) keepAlive).entries.map fieldOf := rfl
    have hp : ∀ u, parseHead (latin1 (headerText resp.status
        (sentHeaders cfg date req (.response resp) keepAlive)) ++ u) = some (head, u) := fun u =>
      (parseHead_block hc).2 ⟨hr, valid_sentHeaders.2 hv, hn.symm, rfl, rfl⟩
    have hl := (framing_once hf).2 hone
    have hvals := framing_values hf hl
    have hte := (other_values hf (.inr rfl) hne).2 hnone
    simp only [framingName] at hl hvals
    refine ⟨fun rest => ?_, head, _, hs ▸ hp _, hl, ?_, .inr hte, ?_⟩
    · refine ⟨head, sentContent sendsContent (.response resp) ++ rest, ?_, hn.symm, ?_⟩
      · rw [hs, List.append_assoc]
        exact hp _
      · rw [framing]
        by_cases hb : NoBody method resp.status
        · rw [if_pos (hn ▸ hb)]
          have hcontent : sentContent sendsContent (.response resp) = [] := by
            rcases hno hb with h | h
            · simp [sentContent, h]
            · simp [sentContent, h]
          have hbody : bodyFor method (.response resp) = [] := by
            rw [bodyFor]
            split
            · rfl
            · next hnb =>
              rcases hno hb with h | h
              · exact h
              · exact absurd (.inl (hm h)) hnb
          exact ⟨hbody, by rw [hcontent, List.nil_append]⟩
        · rw [if_neg (hn ▸ hb), if_neg (by simp [hte]), hvals]
          have hnb : ¬ Bodyless resp.status := fun h => hb (.inr (.inl h))
          have hnh : method ≠ "HEAD".toList := fun h => hb (.inl h)
          have hget : bodyFor "GET".toList (.response resp) = resp.body := by
            rw [bodyFor, if_neg]
            · rfl
            · rintro (h | h)
              · revert h
                decide
              · exact hnb h
          have hbody : bodyFor method (.response resp) = resp.body := by
            rw [bodyFor, if_neg]
            · rfl
            · rintro (h | h)
              · exact hnh h
              · exact hnb h
          have hsends : sendsContent = true := by
            cases sendsContent with
            | true => rfl
            | false => exact absurd (hm rfl) hnh
          simp only [hlen, hget, hbody, sentContent, hsends, ↓reduceIte]
          exact ⟨rfl, rfl⟩
    · rw [hte]
      exact Nat.zero_le _
    · intro v hmem
      rw [hvals, List.mem_singleton] at hmem
      rw [hmem]
      exact hlen

theorem stream_wellFramed {resp : StreamResponse} {sent : Bytes}
    {sendsContent : Bool} {method : Str}
    (hc : CleanHeaders (sentHeaders cfg date req (.stream resp) keepAlive))
    (hs : sent = latin1 (headerText resp.status (sentHeaders cfg date req (.stream resp)
      keepAlive)) ++ sentContent sendsContent (.stream resp)) :
    WellFramed method (.stream resp) sent ↔
      Framable sendsContent method (ownHeaders req (.stream resp)) (.stream resp) := by
  have hne : transferEncoding ≠ contentLength := by decide
  constructor
  · rintro ⟨hreads, head, after, hp, -, hl, hor, -⟩
    rw [hs, parseHead_block hc] at hp
    obtain ⟨hr, hv, -, hf, rfl⟩ := hp
    have hvals := framing_values hf hl
    simp only [framingName] at hvals
    have hcl : head.values contentLength = [] := by
      rcases hor with h | h
      · exact h
      · rw [hvals] at h
        cases h
    obtain ⟨head', after', hp', hst, ht⟩ := hreads [0]
    rw [hs, List.append_assoc, parseHead_block hc] at hp'
    obtain ⟨-, -, -, hf', rfl⟩ := hp'
    have hvals' : head'.values transferEncoding = 
        [framingValue (ownHeaders req (.stream resp)) (.stream resp)] := by
      rw [values_entries hf', ← values_entries hf]
      exact hvals
    have hno : ¬ NoBody method resp.status := by
      intro hno
      rw [framing, if_pos (hst ▸ hno)] at ht
      have hlen := congrArg List.length ht.2
      simp [sentContent, ascii] at hlen
    refine ⟨hr, valid_sentHeaders.1 hv, (other_values hf (.inl rfl) hne).1 hcl,
      (framing_once hf).1 hl, ?_, hno⟩
    rw [framing, if_neg (hst ▸ hno), if_pos (by simp [hvals']), hvals'] at ht
    by_contra hcod
    rw [if_neg hcod] at ht
    split at ht
    · exact ht
    · exact absurd ht.2 (by simp)
  · rintro ⟨hr, hv, hnone, hone, hcod, hno⟩
    have hr' : 100 ≤ resp.status ∧ resp.status ≤ 999 := hr
    obtain ⟨n, hn⟩ := Int.eq_ofNat_of_zero_le (by omega : 0 ≤ resp.status)
    let head : HttpClient.Head :=
      ⟨n, (sentHeaders cfg date req (.stream resp) keepAlive).entries.map fieldOf⟩
    have hf : head.fields =
        (sentHeaders cfg date req (.stream resp) keepAlive).entries.map fieldOf := rfl
    have hp : ∀ u, parseHead (latin1 (headerText resp.status
        (sentHeaders cfg date req (.stream resp) keepAlive)) ++ u) = some (head, u) := fun u =>
      (parseHead_block hc).2 ⟨hr, valid_sentHeaders.2 hv, hn.symm, rfl, rfl⟩
    have hl := (framing_once hf).2 hone
    have hvals := framing_values hf hl
    have hcl := (other_values hf (.inl rfl) hne).2 hnone
    simp only [framingName] at hl hvals
    refine ⟨fun rest => ?_, head, _, hs ▸ hp _, ?_, hl, .inl hcl, by simp [hcl]⟩
    · refine ⟨head, sentContent sendsContent (.stream resp) ++ rest, ?_, hn.symm, ?_⟩
      · rw [hs, List.append_assoc]
        exact hp _
      · rw [framing, if_neg (hn ▸ hno), if_pos (by simp [hvals]), hvals, if_pos hcod]
        have hbody : bodyFor method (.stream resp) = resp.chunks.flatMap StreamChunk.encode := by
          rw [bodyFor, if_neg]
          · rfl
          · rintro (h | h)
            · exact hno (.inl h)
            · exact hno (.inr (.inl h))
        rw [hbody]
        exact body_sendChunks resp.chunks rest
    · rw [hcl]
      exact Nat.zero_le _

theorem wellFramed_iff {sendsContent : Bool}
    (hm : sendsContent = false → req.method = "HEAD".toList)
    (h : writeWith sendsContent req cfg date result keepAlive = (sent, .ok ())) :
    WellFramed req.method result (sentBytes sent) ↔
      Framable sendsContent req.method (ownHeaders req result) result := by
  obtain ⟨hc, hs⟩ := writeWith_ok h
  cases result with
  | response resp => exact response_wellFramed hm hc hs
  | stream resp => exact stream_wellFramed hc hs

/-- When writing succeeds, the bytes are exactly one response with its content exactly where the
status has three digits, the handler's own fields have proper names and leave the framing field
right, and no content follows where none may. -/
theorem writeResponse_wellFramed (cfg : ServerConfig) (date : Str) (req : Request)
    (result : HandlerResult) (keepAlive : Bool) :
    (∀ sent, writeResponse req cfg date result keepAlive = (sent, .ok ()) →
      (WellFramed req.method result (sentBytes sent) ↔
        Framable (decide (req.method ≠ "HEAD".toList)) req.method (ownHeaders req result) result)) ∧
    ∀ sent, writeResponseAsync req cfg date result keepAlive = (sent, .ok ()) →
      (WellFramed req.method result (sentBytes sent) ↔
        Framable true req.method (ownHeaders req result) result) :=
  ⟨fun _ h => wellFramed_iff (fun hf => by simpa using hf) h,
    fun _ h => wellFramed_iff (fun hf => by cases hf) h⟩

def helloResult : HandlerResult := .response { body := ascii "hello" }

theorem hello_clean (method : Str) :
    CleanHeaders (sentHeaders {} epoch (plainRequest method) helloResult true) := by
  have h : sentHeaders {} epoch (plainRequest method) helloResult true =
    sentHeaders {} epoch (plainRequest []) helloResult true := rfl
  rw [h]
  unfold CleanHeaders Clean
  decide

/-- A plain response to `GET` is well framed. -/
theorem writeResponse_hello_get : ∃ sent,
    writeResponse (plainRequest "GET".toList) {} epoch helloResult true = (sent, .ok ()) ∧
    WellFramed "GET".toList helloResult (sentBytes sent) := by
  obtain ⟨sent, -, hw⟩ := writeWith_started _ (hello_clean "GET".toList)
  refine ⟨sent, hw, ((writeResponse_wellFramed {} epoch _ helloResult true).1 sent hw).2 ?_⟩
  exact ⟨by decide, by decide, by decide, by decide, by decide, fun hno => absurd hno (by decide)⟩

/-- The asynchronous writer sends the content in answer to `HEAD`. -/
theorem writeResponseAsync_hello_head : ∃ sent,
    writeResponseAsync (plainRequest "HEAD".toList) {} epoch helloResult true = (sent, .ok ()) ∧
    ¬ WellFramed "HEAD".toList helloResult (sentBytes sent) := by
  obtain ⟨sent, -, hw⟩ := writeWith_started true (hello_clean "HEAD".toList)
  refine ⟨sent, hw, fun h => ?_⟩
  have hf := (wellFramed_iff (fun hf => by cases hf) hw).1 h
  have hno := hf.2.2.2.2.2 (.inl rfl)
  revert hno
  decide

end Sovereign
