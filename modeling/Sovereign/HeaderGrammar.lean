import Sovereign.HeaderChecks

namespace Sovereign
set_option autoImplicit true

/-- A text in which nobody can take a line or a string to end. -/
def Inert (s : Str) : Prop := ∀ c ∈ s, c ≠ '\r' ∧ c ≠ '\n' ∧ c ≠ '\x00'

/-- The lines that `parse_header_block` divides a block into. -/
def dividedLines (raw : Bytes) : List Str :=
  Marker.splitPair '\r' '\n' ((decodeLatin1 raw).take ((decodeLatin1 raw).length - 4))

/-- A header line as the grammar has it. `valueOf` says what of the text after the colon is the
value: all of it, or what is left of it without the blanks at its ends. -/
structure FieldLine (valueOf : Str → Str) (line name value : Str) : Prop where
  line : line = name ++ ':' :: value
  token : IsToken name
  name : Inert name
  value : Inert (valueOf value)

/-- An accepted header block that follows the grammar. -/
structure Grammatical (valueOf : Str → Str) (raw : Bytes) (h : Head) : Prop where
  token : IsToken h.method
  fields : ∀ line ∈ (dividedLines raw).tail, line ≠ [] →
    ∃ name value, FieldLine valueOf line name value
  method : Inert h.method
  target : Inert h.target

/-- What `parse_header_block` does not check: that the method does not end in a newline, that the
names have no blanks at their ends, and which characters the target and the values are of. -/
structure Unchecked (valueOf : Str → Str) (raw : Bytes) : Prop where
  request : ∀ method target version, ((dividedLines raw).headD []).splitOn ' ' =
    [method, target, version] →
    method.getLast? ≠ some '\n' ∧ Inert target
  fields : ∀ line ∈ (dividedLines raw).tail, ∀ before after,
    splitFirst ':' line = some (before, after) → strStrip before = before ∧ Inert (valueOf after)

theorem IsToken.inert (h : IsToken s) : Inert s := by
  have hnot : ∀ c, tokenChar c = false → ∀ d ∈ s, d ≠ c := by
    rintro c hc d hd rfl
    exact not_mem_token h.2 hc hd
  intro c hc
  exact ⟨hnot '\r' (by decide) c hc, hnot '\n' (by decide) c hc, hnot '\x00' (by decide) c hc⟩

theorem tokenChar_toUpper {c : Char} (h : tokenChar c = true) : tokenChar c.toUpper = true := by
  have hall : ∀ n < 127, tokenChar (Char.ofNat n) = true →
      tokenChar (Char.ofNat n).toUpper = true := by decide +kernel
  have hc := hall c.toNat (by have := tokenChar_visible h; omega)
  rw [Char.ofNat_toNat] at hc
  exact hc h

theorem IsToken.upper (h : IsToken s) : IsToken (upper s) := by
  constructor
  · intro hnil
    exact h.1 (List.map_eq_nil_iff.1 hnil)
  · intro c hc
    obtain ⟨d, hd, rfl⟩ := List.mem_map.1 hc
    exact tokenChar_toUpper (h.2 d hd)

/-- Lower case makes a token of nothing else. -/
theorem tokenChar_of_lowerChar {c : Char} (h : tokenChar (lowerChar c) = true) :
    tokenChar c = true := by
  have hall : ∀ n < 223, tokenChar (lowerChar (Char.ofNat n)) = true →
      tokenChar (Char.ofNat n) = true := by decide +kernel
  rcases lowerChar_eq_or c with hsame | ⟨hsmall, -⟩
  · rwa [hsame] at h
  · have hc := hall c.toNat hsmall
    rw [Char.ofNat_toNat] at hc
    exact hc h

theorem isToken_of_lower (h : IsToken (lower s)) : IsToken s := by
  constructor
  · rintro rfl
    exact h.1 rfl
  · intro c hc
    exact tokenChar_of_lowerChar (h.2 _ (List.mem_map_of_mem hc))

theorem upper_last (h : s.getLast? = some '\n') : (upper s).getLast? = some '\n' := by
  rw [upper, List.getLast?_map, h]
  rfl

theorem splitFirst_line {name value : Str} (h : IsToken name) :
    splitFirst ':' (name ++ ':' :: value) = some (name, value) :=
  splitFirst_append (not_mem_token h.2 (by decide)) value

theorem exists_field {R : α → β → Prop} {as : List α} {bs : List β} (h : List.Forall₂ R as bs)
    (ha : a ∈ as) : ∃ b ∈ bs, R a b := by
  induction h with
  | nil => cases ha
  | cons hfirst _ ih =>
    cases ha with
    | head => exact ⟨_, List.mem_cons_self, hfirst⟩
    | tail _ ha =>
      obtain ⟨b, hb, hrel⟩ := ih ha
      exact ⟨b, List.mem_cons_of_mem _ hb, hrel⟩

/-- Each header line of an accepted block that is not empty has been read as a field. -/
theorem PassedBlock.field (hp : PassedBlock cfg raw requestLine lines method h) {line : Str}
    (hl : line ∈ lines) (hne : line ≠ []) : ∃ field, LineField cfg line field := by
  obtain ⟨field, -, hfield⟩ := exists_field hp.read.1 (List.mem_filter.2 ⟨hl, decide_eq_true hne⟩)
  exact ⟨field, hfield⟩

/-- An accepted block follows the grammar just if it meets what is not checked. -/
theorem grammatical_iff (valueOf : Str → Str) {raw : Bytes} {cfg : ServerConfig} {h : Head}
    (hp : parseHeaderBlock raw cfg = .ok h) : Grammatical valueOf raw h ↔
    Unchecked valueOf raw := by
  obtain ⟨requestLine, lines, method, hpassed⟩ := parseHeaderBlock_ok_iff.1 hp
  have hblock : dividedLines raw = requestLine :: lines := hpassed.divided
  constructor
  · intro hg
    have hfields := hg.fields
    rw [hblock] at hfields
    constructor
    · rw [hblock]
      intro method' target version hparts
      have hboth := hpassed.parts.symm.trans hparts
      cases hboth
      refine ⟨?_, hg.target⟩
      intro hlast
      have hupper := upper_last hlast
      rw [← hpassed.method] at hupper
      exact (hg.method '\n' (List.mem_of_getLast? hupper)).2.1 rfl
    · rw [hblock]
      intro line hline before after hsplit
      have hne : line ≠ [] := by
        rintro rfl
        cases hsplit
      obtain ⟨name, value, hfield⟩ := hfields line hline hne
      rw [hfield.line, splitFirst_line hfield.token] at hsplit
      cases hsplit
      exact ⟨strStrip_token hfield.token.2, hfield.value⟩
  · rintro ⟨hrequest, hfields⟩
    rw [hblock] at hrequest hfields
    obtain ⟨hlast, htarget⟩ := hrequest method h.target h.version hpassed.parts
    have htoken : IsToken h.method := by
      rw [hpassed.method]
      exact ((tokenMatch_iff hlast).1 hpassed.token).upper
    refine ⟨htoken, ?_, htoken.inert, htarget⟩
    rw [hblock]
    intro line hline hne
    obtain ⟨field, hfield⟩ := hpassed.field hline hne
    obtain ⟨before, after, hsplit, rfl⟩ := hfield.split
    obtain ⟨hstrip, hvalue⟩ := hfields line hline before after hsplit
    have htoken := hfield.token
    rw [hstrip] at htoken
    have hname := isToken_of_lower htoken
    have hbreak := Marker.breakOn_eq hsplit
    rw [List.append_assoc] at hbreak
    exact ⟨before, after, hbreak, hname, hname.inert, hvalue⟩

theorem grammatical_iff_plain :
    Grammatical id (ascii "GET / HTTP/1.1\r\nHost: h\r\n\r\n")
      ⟨"GET".toList, "/".toList, "HTTP/1.1".toList, Dict.set ∅ "host".toList "h".toList,
        [("host".toList, "h".toList)]⟩ ↔
    Unchecked id (ascii "GET / HTTP/1.1\r\nHost: h\r\n\r\n") :=
  grammatical_iff id
    (show parseHeaderBlock (ascii "GET / HTTP/1.1\r\nHost: h\r\n\r\n") {} = _ by decide +kernel)

/-- A blank before the colon is stripped before the name is checked. -/
theorem blank_accepted : ¬ ∀ (raw : Bytes) (cfg : ServerConfig) (h : Head),
    parseHeaderBlock raw cfg = .ok h → Grammatical strStrip raw h := by
  intro hall
  have hg := hall (ascii "GET / HTTP/1.1\r\nHost : h\r\n\r\n") {}
    ⟨"GET".toList, "/".toList, "HTTP/1.1".toList, Dict.set ∅ "host".toList "h".toList,
        [("host".toList, "h".toList)]⟩ (by decide +kernel)
  obtain ⟨name, value, hfield⟩ := hg.fields "Host : h".toList (by decide +kernel) (by decide)
  have hsplit : splitFirst ':' (name ++ ':' :: value) = some (name, value) :=
    splitFirst_line hfield.token
  rw [← hfield.line] at hsplit
  have hname : name = "Host ".toList := by
    have hcode : splitFirst ':' "Host : h".toList = some ("Host ".toList, " h".toList) := by
      decide +kernel
    rw [hcode] at hsplit
    cases hsplit
    rfl
  have htoken := hfield.token
  rw [hname] at htoken
  exact absurd htoken (by decide)

end Sovereign
