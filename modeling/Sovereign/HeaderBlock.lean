import Sovereign.Request

namespace Sovereign
set_option autoImplicit true

/-- The characters of `_TOKEN`. -/
def tokenChar (c : Char) : Bool :=
  decide ('0' ≤ c ∧ c ≤ '9' ∨ 'a' ≤ c ∧ c ≤ 'z' ∨ 'A' ≤ c ∧ c ≤ 'Z') ||
    "!#$%&'*+.^_`|~-".toList.contains c

/-- `_TOKEN.match`: the `$` of the pattern also matches just before a final newline. -/
def tokenMatch (s : Str) : Bool :=
  let body := if s.getLast? = some '\n' then s.dropLast else s
  !body.isEmpty && body.all tokenChar

/-- What `parse_header_block` returns. -/
structure Head where
  method : Str
  target : Str
  version : Str
  headers : Headers
  rawPairs : List (Str × Str)
deriving DecidableEq

/-- The fields that may not be repeated. -/
def singletons : List Str :=
  ["host".toList, "content-length".toList, "transfer-encoding".toList]

/-- A repeated field is joined to the earlier ones with a comma. -/
def mergeHeader (headers : Headers) (name value : Str) : Headers :=
  headers.set name (match headers.get? name with
    | none => value
    | some old => old ++ ", ".toList ++ value)

theorem get?_mergeHeader (d : Headers) (name value key : Str) :
    (mergeHeader d name value).get? key =
      if key = name then some (match d.get? name with
        | none => value
        | some old => old ++ ", ".toList ++ value) else d.get? key := by
  exact Dict.get?_set ..

/-- One turn of the loop over the header lines. -/
def parseHeaderLine (cfg : ServerConfig) (acc : Headers × List (Str × Str)) (line : Str) :
    Except Exc (Headers × List (Str × Str)) :=
  match line with
  | [] => .ok acc
  | c :: _ =>
    if c = ' ' ∨ c = '\t' then .error (.httpError 400 "Folded headers rejected")
    else
      match splitFirst ':' line with
      | none => .error (.httpError 400 "Malformed header")
      | some (name, value) =>
        let name := lower (strStrip name)
        let value := strStrip value
        if name = [] ∨ tokenMatch name = false then .error (.httpError 400 "Invalid header name")
        else if cfg.maxHeaderName < name.length ∨ cfg.maxHeaderValue < value.length then
          .error (.httpError 431 "Header field too large")
        else if acc.1.contains name = true ∧ name ∈ singletons then
          .error (.http (.make 400 ("Duplicate ".toList ++ name ++ " rejected".toList)))
        else .ok (mergeHeader acc.1 name value, acc.2 ++ [(name, value)])

/-- The part of `parse_header_block` after the block has been divided into lines. -/
def parseLines (cfg : ServerConfig) (requestLine : Str) (lines : List Str) : Except Exc Head :=
  if cfg.maxRequestLine < requestLine.length then
    .error (.httpError 414 "Request line too long")
  else
    match requestLine.splitOn ' ' with
    | [method, target, version] =>
      if tokenMatch method = false then .error (.httpError 400 "Invalid method")
      else if version ≠ "HTTP/1.1".toList then
        .error (.httpError 505 "Only HTTP/1.1 supported")
      else if startsWith "/".toList target = false then
        .error (.httpError 400 "Only origin-form request target supported")
      else if cfg.maxHeaders < lines.length then .error (.httpError 431 "Too many headers")
      else do
        let (headers, rawPairs) ← lines.foldlM (parseHeaderLine cfg) (∅, [])
        if headers.contains "host".toList = false then
          .error (.httpError 400 "Host header required")
        else if headers.contains "content-length".toList = true ∧
            headers.contains "transfer-encoding".toList = true then
          .error (.httpError 400 "Content-Length with Transfer-Encoding rejected")
        else .ok { method := upper method, target, version, headers, rawPairs }
    | _ => .error (.httpError 400 "Invalid request line")

def parseHeaderBlock (raw : Bytes) (cfg : ServerConfig) : Except Exc Head :=
  let text := decodeLatin1 raw
  if contains "\r\n\r\n".toList text = false then .error (.httpError 400 "Malformed headers")
  else
    match Marker.splitPair '\r' '\n' (text.take (text.length - 4)) with
    | [] | [] :: _ => .error (.httpError 400 "Missing request line")
    | requestLine :: lines => parseLines cfg requestLine lines

/-- The framing-relevant facts about an accepted head. -/
structure Accepted (cfg : ServerConfig) (requestLine : Str) (lines : List Str) (h : Head) :
    Prop where
  requestLine : ∃ method, requestLine.splitOn ' ' = [method, h.target, h.version] ∧
    tokenMatch method = true ∧ h.method = upper method
  version : h.version = "HTTP/1.1".toList
  target : startsWith "/".toList h.target = true
  fields : lines.foldlM (parseHeaderLine cfg) (∅, []) = .ok (h.headers, h.rawPairs)
  framing : ¬ (h.headers.contains "content-length".toList = true ∧
    h.headers.contains "transfer-encoding".toList = true)

theorem parseLines_ok {cfg : ServerConfig} {requestLine : Str} {lines : List Str} {h : Head}
    (hp : parseLines cfg requestLine lines = .ok h) : Accepted cfg requestLine lines h := by
  simp only [parseLines] at hp
  split at hp
  · cases hp
  · split at hp
    · next method target version hs =>
      split at hp
      · cases hp
      · split at hp
        · cases hp
        · split at hp
          · cases hp
          · split at hp
            · cases hp
            · next hm hv ht hl =>
              cases hf : lines.foldlM (parseHeaderLine cfg) (∅, []) with
              | error e =>
                rw [hf] at hp
                cases hp
              | ok res =>
                obtain ⟨headers, rawPairs⟩ := res
                rw [hf] at hp
                simp only [bind, Except.bind] at hp
                split at hp
                · cases hp
                · split at hp
                  · cases hp
                  · next hh hc =>
                    cases hp
                    exact ⟨⟨method, hs, by simpa using hm, rfl⟩, by simpa using hv,
                      by simpa using ht, hf, hc⟩
    · cases hp

/-- Where parsing fails, it fails with an `HTTPError`. -/
def IsHttp (e : Exc) : Prop := ∃ err, e = .http err

theorem isHttp_httpError (status : Int) (message : String) :
    IsHttp (.httpError status message) := ⟨_, rfl⟩

theorem parseHeaderLine_error {cfg : ServerConfig} {acc : Headers × List (Str × Str)}
    {line : Str} (h : parseHeaderLine cfg acc line = .error e) : IsHttp e := by
  simp only [parseHeaderLine] at h
  split at h
  · cases h
  · split at h
    · cases h; exact isHttp_httpError _ _
    · split at h
      · cases h; exact isHttp_httpError _ _
      · split at h
        · cases h; exact isHttp_httpError _ _
        · split at h
          · cases h; exact isHttp_httpError _ _
          · split at h <;> cases h
            exact ⟨_, rfl⟩

theorem foldlM_parseHeaderLine_error {cfg : ServerConfig} {acc : Headers × List (Str × Str)}
    {lines : List Str} (h : lines.foldlM (parseHeaderLine cfg) acc = .error e) : IsHttp e := by
  induction lines generalizing acc with
  | nil => cases h
  | cons line lines ih =>
    rw [List.foldlM_cons] at h
    cases hl : parseHeaderLine cfg acc line with
    | error e' =>
      rw [hl] at h
      cases h
      exact parseHeaderLine_error hl
    | ok acc' =>
      rw [hl] at h
      exact ih h

theorem parseLines_error {cfg : ServerConfig} {requestLine : Str} {lines : List Str}
    (h : parseLines cfg requestLine lines = .error e) : IsHttp e := by
  simp only [parseLines] at h
  split at h
  · cases h; exact isHttp_httpError _ _
  · split at h
    · split at h
      · cases h; exact isHttp_httpError _ _
      · split at h
        · cases h; exact isHttp_httpError _ _
        · split at h
          · cases h; exact isHttp_httpError _ _
          · split at h
            · cases h; exact isHttp_httpError _ _
            · cases hf : lines.foldlM (parseHeaderLine cfg) (∅, []) with
              | error e' =>
                rw [hf] at h
                cases h
                exact foldlM_parseHeaderLine_error hf
              | ok res =>
                rw [hf] at h
                simp only [bind, Except.bind] at h
                split at h
                · cases h; exact isHttp_httpError _ _
                · split at h <;> cases h
                  exact isHttp_httpError _ _
    · cases h; exact isHttp_httpError _ _

theorem parseHeaderBlock_error {raw : Bytes} {cfg : ServerConfig}
    (h : parseHeaderBlock raw cfg = .error e) : IsHttp e := by
  simp only [parseHeaderBlock] at h
  split at h
  · cases h; exact isHttp_httpError _ _
  · split at h
    · cases h; exact isHttp_httpError _ _
    · cases h; exact isHttp_httpError _ _
    · exact parseLines_error h

theorem tokenChar_visible (h : tokenChar c = true) : 33 ≤ c.toNat ∧ c.toNat ≤ 126 ∧ c ≠ ':' := by
  rcases Bool.or_eq_true .. ▸ h with h | h
  · have hr := of_decide_eq_true h
    have hr' : 48 ≤ c.toNat ∧ c.toNat ≤ 57 ∨ 97 ≤ c.toNat ∧ c.toNat ≤ 122 ∨
        65 ≤ c.toNat ∧ c.toNat ≤ 90 := hr
    refine ⟨by omega, by omega, ?_⟩
    rintro rfl
    revert hr'
    decide
  · have hm : c ∈ "!#$%&'*+.^_`|~-".toList := by simpa using h
    have hall : ∀ c ∈ "!#$%&'*+.^_`|~-".toList, 33 ≤ c.toNat ∧ c.toNat ≤ 126 ∧ c ≠ ':' := by decide
    exact hall c hm

theorem tokenChar_lowerChar (h : tokenChar c = true) : tokenChar (lowerChar c) = true := by
  have hall : ∀ n < 127, tokenChar (Char.ofNat n) = true →
      tokenChar (lowerChar (Char.ofNat n)) = true := by decide +kernel
  have hc := hall c.toNat (by have := tokenChar_visible h; omega)
  rw [Char.ofNat_toNat] at hc
  exact hc h

theorem not_mem_token {s : Str} (h : ∀ c ∈ s, tokenChar c = true)
    (hb : tokenChar b = false) : b ∉ s := by
  intro hm
  rw [h b hm] at hb
  cases hb

theorem tokenMatch_token {s : Str} (hne : s ≠ []) (h : ∀ c ∈ s, tokenChar c = true) :
    tokenMatch s = true := by
  have hlast : s.getLast? ≠ some '\n' := by
    intro hl
    exact not_mem_token h (b := '\n') (by decide) (List.mem_of_getLast? hl)
  simp only [tokenMatch, hlast, ↓reduceIte, Bool.and_eq_true, Bool.not_eq_true',
    List.isEmpty_eq_false_iff]
  exact ⟨hne, List.all_eq_true.2 h⟩

theorem isSpace_token (h : tokenChar c = true) : isSpace c = false := by
  have hall : ∀ n < 127, tokenChar (Char.ofNat n) = true → isSpace (Char.ofNat n) = false := by
    decide +kernel
  have hc := hall c.toNat (by have := tokenChar_visible h; omega)
  rw [Char.ofNat_toNat] at hc
  exact hc h

theorem strStrip_token {s : Str} (h : ∀ c ∈ s, tokenChar c = true) : strStrip s = s :=
  strip_eq_self fun c hc => isSpace_token (h c hc)

end Sovereign
