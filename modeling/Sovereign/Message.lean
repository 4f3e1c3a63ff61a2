import Sovereign.Lib.Chunked
import Sovereign.Framing
import Sovereign.Latin1

namespace Sovereign
open Chunked
set_option autoImplicit true

/-- A header field as it is sent, with the blanks around its value. -/
structure Field where
  name : Str
  value : Str
  name_token : name ≠ [] ∧ ∀ c ∈ name, tokenChar c = true
  value_clean : Clean value

namespace Field

def line (f : Field) : Str := f.name ++ ':' :: f.value

/-- The name and the value as the server knows them. -/
def key (f : Field) : Str := lower f.name

def text (f : Field) : Str := strStrip f.value

end Field

/-- The values that fields of one name have. -/
def valuesOf (fields : List Field) (key : Str) : List Str :=
  (fields.filter fun f => f.key = key).map Field.text

/-- A chunk: its size in hexadecimal digits, and its data. -/
structure Chunk where
  size : Str
  data : Bytes
  nonempty : data ≠ []
  spelled : Numeral.parse 16 size = some data.length

inductive Payload where
  | none
  | length (content : Bytes)
  | chunked (chunks : List Chunk) (zeros : Str) (spelled : Numeral.parse 16 zeros = some 0)

namespace Payload

def content : Payload → Bytes
  | none => []
  | length content => content
  | chunked chunks _ _ => chunks.flatMap Chunk.data

def encodeChunk (c : Chunk) : Bytes := latin1 c.size ++ crlf ++ (c.data ++ crlf)

def encode : Payload → Bytes
  | none => []
  | length content => content
  | chunked chunks zeros _ => chunks.flatMap encodeChunk ++ (latin1 zeros ++ crlf ++ crlf)

/-- The header fields announce the framing of the payload. -/
def Announced (fields : List Field) : Payload → Prop
  | none => valuesOf fields "content-length".toList = [] ∧
      valuesOf fields "transfer-encoding".toList = []
  | length content => valuesOf fields "transfer-encoding".toList = [] ∧
      ∃ cl, valuesOf fields "content-length".toList = [cl] ∧
        Numeral.parse 10 cl = some content.length
  | chunked _ _ _ => valuesOf fields "content-length".toList = [] ∧
      ∃ coding, valuesOf fields "transfer-encoding".toList = [coding] ∧
        lower coding = "chunked".toList

end Payload

/-- The characters of a request target in origin form, and some more. -/
def targetChar (c : Char) : Bool := decide (33 ≤ c.toNat ∧ c.toNat ≤ 126 ∧ c ≠ '[' ∧ c ≠ ']')

/-- A well-formed HTTP/1.1 request. -/
structure Message where
  method : Str
  target : Str
  fields : List Field
  payload : Payload
  method_token : method ≠ [] ∧ ∀ c ∈ method, tokenChar c = true
  target_origin : startsWith "/".toList target = true ∧ ∀ c ∈ target, targetChar c = true
  one_host : ∃ host, valuesOf fields "host".toList = [host]
  announced : payload.Announced fields

namespace Message

def requestLine (m : Message) : Str := m.method ++ ' ' :: (m.target ++ ' ' :: "HTTP/1.1".toList)

def lines (m : Message) : List Str := m.requestLine :: m.fields.map Field.line

/-- The header block, up to and including the empty line. -/
def head (m : Message) : Str := blockText m.lines

def encode (m : Message) : Bytes := latin1 m.head ++ m.payload.encode

def headers (m : Message) : Headers :=
  m.fields.foldl (fun d f => mergeHeader d f.key f.text) ∅

def rawPairs (m : Message) : List (Str × Str) := m.fields.map fun f => (f.key, f.text)

/-- The request a message stands for, in the form the server gives it: the method in upper case,
names in lower case, values without surrounding blanks, repeated fields joined. -/
def request [Urllib] (m : Message) (remoteAddr : Str) (body : Body) : Request where
  method := upper m.method
  target := m.target
  version := "HTTP/1.1".toList
  headers := m.headers
  rawHeaders := m.rawPairs
  body := body
  bodySize := m.payload.content.length
  path := if ((urlsplit m.target).getD ([], [])).1 = [] then ['/']
    else ((urlsplit m.target).getD ([], [])).1
  queryString := ((urlsplit m.target).getD ([], [])).2
  remoteAddr := remoteAddr
  cookies := parseCookies m.headers

/-- The limits that the header block and the body of a request are held to. -/
structure WithinLimits (cfg : ServerConfig) (m : Message) : Prop where
  requestLine : m.requestLine.length ≤ cfg.maxRequestLine
  count : m.fields.length ≤ cfg.maxHeaders
  names : ∀ f ∈ m.fields, f.name.length ≤ cfg.maxHeaderName
  values : ∀ f ∈ m.fields, f.text.length ≤ cfg.maxHeaderValue
  head : m.head.length ≤ cfg.maxHeaderBytes + 4
  digits : ∀ cl ∈ valuesOf m.fields "content-length".toList, cl.length ≤ maxStrDigits
  body : m.payload.content.length ≤ cfg.maxBodyBytes

end Message

namespace Field

theorem key_ne_nil (f : Field) : f.key ≠ [] := by
  simpa [key, lower] using f.name_token.1

theorem key_token (f : Field) : ∀ c ∈ f.key, tokenChar c = true := by
  intro c hc
  obtain ⟨b, hb, rfl⟩ := List.mem_map.1 hc
  exact tokenChar_lowerChar (f.name_token.2 b hb)

theorem line_ne_nil (f : Field) : f.line ≠ [] := by simp [line]

theorem line_clean (f : Field) : Clean f.line := by
  intro c hc
  rcases List.mem_append.1 hc with hc | hc
  · have hv := tokenChar_visible (f.name_token.2 c hc)
    refine ⟨by omega, ?_, ?_⟩ <;> rintro rfl <;> revert hv <;> decide
  · rcases List.mem_cons.1 hc with rfl | hc
    · decide
    · exact f.value_clean c hc

/-- The line of a field is read as its key and its text. -/
theorem parse_line {cfg : ServerConfig} {acc : Headers × List (Str × Str)} (f : Field)
    (hn : f.name.length ≤ cfg.maxHeaderName) (hv : f.text.length ≤ cfg.maxHeaderValue)
    (hs : ¬ (acc.1.contains f.key = true ∧ f.key ∈ singletons)) :
    parseHeaderLine cfg acc f.line =
      .ok (mergeHeader acc.1 f.key f.text, acc.2 ++ [(f.key, f.text)]) := by
  have hsplit : splitFirst ':' f.line = some (f.name, f.value) := by
    have hc : ':' ∉ f.name := not_mem_token f.name_token.2 (by decide)
    simpa [splitFirst, line] using Marker.breakOn_first (m := []) (a := f.value) hc
  have hkey : lower (strStrip f.name) = f.key := by rw [strStrip_token f.name_token.2, key]
  have hlen : ¬ (cfg.maxHeaderName < f.key.length ∨ cfg.maxHeaderValue < f.text.length) := by
    simp only [key, lower, List.length_map]
    omega
  obtain ⟨c, r, hcr⟩ := List.exists_cons_of_ne_nil f.name_token.1
  have hline : f.line = c :: (r ++ ':' :: f.value) := by rw [line, hcr, List.cons_append]
  have hfold : ¬ (c = ' ' ∨ c = '\t') := by
    have hc : c ∈ f.name := hcr ▸ List.mem_cons_self
    rintro (rfl | rfl)
    · exact not_mem_token f.name_token.2 (b := ' ') (by decide) hc
    · exact not_mem_token f.name_token.2 (b := '\t') (by decide) hc
  have hname : ¬ (f.key = [] ∨ tokenMatch f.key = false) := by
    rw [tokenMatch_token f.key_ne_nil f.key_token]
    simp [f.key_ne_nil]
  rw [hline] at hsplit ⊢
  simp only [parseHeaderLine, hfold, ↓reduceIte, hsplit, hkey, hname]
  rw [show strStrip f.value = f.text from rfl, if_neg hlen, if_neg hs]

end Field

/-- The header mapping after more fields have been merged into it. -/
def mergeFields (d : Headers) (fields : List Field) : Headers :=
  fields.foldl (fun d f => mergeHeader d f.key f.text) d

theorem valuesOf_cons (f : Field) (fields : List Field) (key : Str) :
    valuesOf (f :: fields) key =
      if f.key = key then f.text :: valuesOf fields key else valuesOf fields key := by
  simp only [valuesOf, List.filter_cons, decide_eq_true_eq]
  split <;> rfl

theorem get?_mergeFields_none {fields : List Field} (h : valuesOf fields key = []) (d : Headers) :
    (mergeFields d fields).get? key = d.get? key := by
  induction fields generalizing d with
  | nil => rfl
  | cons f fields ih =>
    rw [valuesOf_cons] at h
    split at h
    · cases h
    · next hk =>
      rw [mergeFields, List.foldl_cons, ← mergeFields, ih h, get?_mergeHeader,
        if_neg fun he => hk he.symm]

theorem get?_mergeFields_one {fields : List Field} (h : valuesOf fields key = [value])
    {d : Headers} (hd : d.get? key = none) : (mergeFields d fields).get? key = some value := by
  induction fields generalizing d with
  | nil => cases h
  | cons f fields ih =>
    rw [mergeFields, List.foldl_cons, ← mergeFields]
    rw [valuesOf_cons] at h
    split at h
    · next hk =>
      simp only [List.cons.injEq] at h
      rw [get?_mergeFields_none h.2, get?_mergeHeader, if_pos hk.symm, hk, hd, h.1]
    · next hk => exact ih h (by rw [get?_mergeHeader, if_neg fun he => hk he.symm, hd])

/-- Fields that repeat no singleton are all taken. -/
theorem foldlM_fields {cfg : ServerConfig} (acc : Headers × List (Str × Str)) {fields : List Field}
    (hn : ∀ f ∈ fields, f.name.length ≤ cfg.maxHeaderName)
    (hv : ∀ f ∈ fields, f.text.length ≤ cfg.maxHeaderValue)
    (hs : ∀ key ∈ singletons, (valuesOf fields key).length ≤ 1 ∧
      (acc.1.contains key = true → valuesOf fields key = [])) :
    (fields.map Field.line).foldlM (parseHeaderLine cfg) acc =
      .ok (mergeFields acc.1 fields, acc.2 ++ fields.map fun f => (f.key, f.text)) := by
  induction fields generalizing acc with
  | nil => simp [mergeFields, pure, Except.pure]
  | cons f fields ih =>
    have hline : ¬ (acc.1.contains f.key = true ∧ f.key ∈ singletons) := by
      rintro ⟨hc, hk⟩
      have hnil := (hs _ hk).2 hc
      rw [valuesOf_cons, if_pos rfl] at hnil
      cases hnil
    have hrest : ∀ key ∈ singletons, (valuesOf fields key).length ≤ 1 ∧
        ((mergeHeader acc.1 f.key f.text).contains key = true → valuesOf fields key = []) := by
      intro key hk
      obtain ⟨hlen, hnil⟩ := hs key hk
      rw [valuesOf_cons] at hlen hnil
      rw [Dict.contains, get?_mergeHeader]
      by_cases hf : f.key = key
      · rw [if_pos hf, List.length_cons] at hlen
        exact ⟨by omega, fun _ => List.length_eq_zero_iff.1 (by omega)⟩
      · rw [if_neg hf] at hlen hnil
        rw [if_neg fun he => hf he.symm]
        exact ⟨hlen, hnil⟩
    rw [List.map_cons, List.foldlM_cons,
      f.parse_line (hn f List.mem_cons_self) (hv f List.mem_cons_self) hline]
    simp only [bind, Except.bind]
    rw [ih _ (fun g hg => hn g (List.mem_cons_of_mem _ hg))
      (fun g hg => hv g (List.mem_cons_of_mem _ hg)) hrest]
    simp [mergeFields]

/-- A target in origin form without brackets is split without an error. -/
theorem urlsplit_isSome [Urllib] {target : Str} (h : ∀ c ∈ target, targetChar c = true) :
    (urlsplit target).isSome = true := by
  have hno : ∀ b : Char, targetChar b = false → ∀ l : Str, l.Sublist target → b ∉ l := by
    intro b hb l hl hm
    rw [h b (hl.subset hm)] at hb
    cases hb
  have hsub : ∀ (k : Nat) (p q : Char → Bool),
      (((target.filter q).drop k).takeWhile p).Sublist target := fun k p q =>
    (List.takeWhile_sublist _).trans ((List.drop_sublist _ _).trans List.filter_sublist)
  have hopen := fun k p q => hno '[' (by decide) _ (hsub k p q)
  have hclose := fun k p q => hno ']' (by decide) _ (hsub k p q)
  unfold urlsplit
  by_cases hs : startsWith "//".toList (target.filter fun c => !(c ∈ ['\t', '\r', '\n'])) = true
  · simp only [hs, ↓reduceIte]
    rw [if_neg (by simp [hopen, hclose]), if_neg (by simp [hopen])]
    rfl
  · simp only [hs]
    rfl

theorem Payload.Announced.once {p : Payload} (h : p.Announced fields) :
    (valuesOf fields "content-length".toList).length ≤ 1 ∧
      (valuesOf fields "transfer-encoding".toList).length ≤ 1 ∧
      (valuesOf fields "content-length".toList = [] ∨
        valuesOf fields "transfer-encoding".toList = []) := by
  cases p with
  | none =>
    obtain ⟨hl, ht⟩ := h
    rw [hl, ht]
    exact ⟨Nat.zero_le _, Nat.zero_le _, .inl rfl⟩
  | length content =>
    obtain ⟨ht, cl, hl, -⟩ := h
    rw [hl, ht]
    exact ⟨Nat.le_refl _, Nat.zero_le _, .inr rfl⟩
  | chunked chunks zeros hz =>
    obtain ⟨hl, coding, ht, -⟩ := h
    rw [hl, ht]
    exact ⟨Nat.zero_le _, Nat.le_refl _, .inl rfl⟩

namespace Message

variable (m : Message)

theorem method_split : m.requestLine.splitOn ' ' = [m.method, m.target, "HTTP/1.1".toList] := by
  have ht : ' ' ∉ m.target := by
    intro hm
    have hc := m.target_origin.2 _ hm
    revert hc
    decide
  rw [requestLine, List.splitOn_append_cons_self_of_not_mem
      (not_mem_token m.method_token.2 (by decide)),
    List.splitOn_append_cons_self_of_not_mem ht]
  rfl

theorem requestLine_clean : Clean m.requestLine := by
  intro c hc
  simp only [requestLine, List.mem_append, List.mem_cons] at hc
  rcases hc with hc | rfl | hc | rfl | hc
  · have hv := tokenChar_visible (m.method_token.2 c hc)
    refine ⟨by omega, ?_, ?_⟩ <;> rintro rfl <;> revert hv <;> decide
  · decide
  · have hv := of_decide_eq_true (m.target_origin.2 c hc)
    refine ⟨by omega, ?_, ?_⟩ <;> rintro rfl <;> revert hv <;> decide
  · decide
  · revert c
    decide

theorem lines_clean : ∀ line ∈ m.lines, Clean line ∧ line ≠ [] := by
  intro line hl
  rcases List.mem_cons.1 hl with rfl | hl
  · exact ⟨m.requestLine_clean, by simp [requestLine]⟩
  · obtain ⟨f, -, rfl⟩ := List.mem_map.1 hl
    exact ⟨f.line_clean, f.line_ne_nil⟩

theorem lines_break : ∀ line ∈ m.lines, '\r' ∉ line := fun line hl hc =>
  ((m.lines_clean line hl).1 '\r' hc).2.1 rfl

theorem head_latin : ∀ c ∈ m.head, c.toNat < 256 :=
  blockText_latin fun line hl c hc => ((m.lines_clean line hl).1 c hc).1

/-- Each singleton is sent at most once. -/
theorem singletons_once : ∀ key ∈ singletons, (valuesOf m.fields key).length ≤ 1 := by
  intro key hk
  obtain ⟨host, hh⟩ := m.one_host
  obtain ⟨hl, ht, -⟩ := m.announced.once
  simp only [singletons, List.mem_cons, List.not_mem_nil, or_false] at hk
  rcases hk with rfl | rfl | rfl
  · rw [hh, List.length_singleton]
  · exact hl
  · exact ht

/-- Not both framing fields are sent. -/
theorem framing_once : ¬ (m.headers.contains "content-length".toList = true ∧
    m.headers.contains "transfer-encoding".toList = true) := by
  have hnone : ∀ key, valuesOf m.fields key = [] → m.headers.contains key = false := by
    intro key hk
    have hg : m.headers.get? key = none := get?_mergeFields_none hk ∅
    rw [Dict.contains, hg]
    rfl
  rintro ⟨hl, ht⟩
  rcases m.announced.once.2.2 with h | h
  · rw [hnone _ h] at hl
    cases hl
  · rw [hnone _ h] at ht
    cases ht

/-- What `parse_header_block` makes of the message. -/
def toHead : Head :=
  ⟨upper m.method, m.target, "HTTP/1.1".toList, m.headers, m.rawPairs⟩

theorem parseLines_message {cfg : ServerConfig} (h : m.WithinLimits cfg) :
    parseLines cfg m.requestLine (m.fields.map Field.line) = .ok m.toHead := by
  obtain ⟨host, hh⟩ := m.one_host
  have hfields := foldlM_fields (∅, []) h.names h.values fun key hk =>
    ⟨m.singletons_once key hk, fun hc => by cases hc⟩
  have hhost : m.headers.contains "host".toList = true := by
    have hg : m.headers.get? "host".toList = some host := get?_mergeFields_one hh rfl
    rw [Dict.contains, hg]
    rfl
  have hline := h.requestLine
  have hcount := h.count
  simp only [parseLines, method_split, tokenMatch_token m.method_token.1 m.method_token.2,
    m.target_origin.1, List.length_map]
  rw [if_neg (by omega), if_neg (by simp), if_neg (by simp), if_neg (by simp), if_neg (by omega),
    hfields]
  simp only [bind, Except.bind]
  rw [if_neg, if_neg]
  · rfl
  · exact m.framing_once
  · rw [show mergeFields ∅ m.fields = m.headers from rfl, hhost]
    simp

theorem breakOn_head (rest : Str) :
    Marker.breakOn "\r\n\r\n".toList (m.head ++ rest) =
      some (Marker.joinPair '\r' '\n' m.lines, rest) :=
  Marker.breakOn_joinPair (by decide)
    (fun line hl => ⟨m.lines_break line hl, (m.lines_clean line hl).2⟩) (List.cons_ne_nil _ _) rest

/-- The header block of a message within the limits is accepted as what it says. -/
theorem parseHeaderBlock_message {cfg : ServerConfig} (h : m.WithinLimits cfg) :
    parseHeaderBlock (latin1 m.head) cfg = .ok m.toHead := by
  have hin : contains "\r\n\r\n".toList m.head = true := by
    have hb := m.breakOn_head []
    rw [List.append_nil] at hb
    rw [contains, hb]
    rfl
  have htake : m.head.take (m.head.length - 4) = Marker.joinPair '\r' '\n' m.lines := by
    have hl : m.head.length - 4 = (Marker.joinPair '\r' '\n' m.lines).length := by
      simp only [head, blockText, List.length_append]
      exact Nat.add_sub_cancel _ 4
    rw [hl, head, blockText, List.take_left]
  simp only [parseHeaderBlock, decodeLatin1_latin1 m.head_latin, hin, htake,
    Marker.splitPair_joinPair m.lines_break (List.cons_ne_nil _ _)]
  rw [if_neg (by simp)]
  obtain ⟨c, r, hr⟩ := List.exists_cons_of_ne_nil (m.lines_clean m.requestLine List.mem_cons_self).2
  simp only [lines, hr]
  rw [← hr]
  exact m.parseLines_message h

end Message

/-- `GET /` -/
def plainGet : Message where
  method := "GET".toList
  target := "/".toList
  fields := [⟨"Host".toList, " h".toList, by decide, by decide⟩]
  payload := .none
  method_token := by decide
  target_origin := by decide
  one_host := ⟨['h'], by decide⟩
  announced := ⟨by decide, by decide⟩

/-- `POST /` with one chunk. -/
def chunkedPost : Message where
  method := "POST".toList
  target := "/".toList
  fields := [⟨"Host".toList, " h".toList, by decide, by decide⟩,
    ⟨"Transfer-Encoding".toList, " chunked".toList, by decide, by decide⟩]
  payload := .chunked [⟨['5'], ascii "hello", by decide, by decide⟩] ['0'] (by decide)
  method_token := by decide
  target_origin := by decide
  one_host := ⟨['h'], by decide⟩
  announced := ⟨by decide, "chunked".toList, by decide, by decide⟩

end Sovereign
