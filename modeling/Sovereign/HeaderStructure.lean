import Sovereign.HeaderGrammar
import Sovereign.Latin1

namespace Sovereign
set_option autoImplicit true

/-- The structure of the headers that `parse_header_block` returns. -/
structure Structured (cfg : ServerConfig) (h : Head) : Prop where
  keys : ∀ name, name ∈ h.headers.keys ↔ name ∈ h.rawPairs.map Prod.fst
  joined : ∀ name ∈ h.headers.keys,
    h.headers.get? name = some (", ".toList.intercalate (pairValues h.rawPairs name))
  names : ∀ p ∈ h.rawPairs, IsToken p.1 ∧ lower p.1 = p.1
  values : ∀ p ∈ h.rawPairs, strStrip p.2 = p.2
  host : (pairValues h.rawPairs "host".toList).length = 1
  contentLength : (pairValues h.rawPairs "content-length".toList).length ≤ 1
  transferEncoding : (pairValues h.rawPairs "transfer-encoding".toList).length ≤ 1
  framing : pairValues h.rawPairs "content-length".toList = [] ∨
    pairValues h.rawPairs "transfer-encoding".toList = []
  count : h.rawPairs.length ≤ cfg.maxHeaders
  lengths : ∀ p ∈ h.rawPairs, p.1.length ≤ cfg.maxHeaderName ∧ p.2.length ≤ cfg.maxHeaderValue
  line : (h.method ++ ' ' :: (h.target ++ ' ' :: h.version)).length ≤ cfg.maxRequestLine

/-- A field on a line of its own. -/
def fieldText (p : Str × Str) : Str := p.1 ++ ':' :: ' ' :: p.2

/-- A head written out again in the plainest form. -/
def canonicalText (h : Head) : Str :=
  blockText ((h.method ++ ' ' :: (h.target ++ ' ' :: h.version)) ::
    h.rawPairs.map fieldText)

/-! What the merged mapping holds. -/

/-- A value joined to those that a name has already. -/
def joinTo (old : Option Str) (values : List Str) : Option Str :=
  values.foldl (fun old value => some (match old with
    | none => value
    | some old => old ++ ", ".toList ++ value)) old

theorem joinTo_some (old : Str) (values : List Str) :
    joinTo (some old) values = some (", ".toList.intercalate (old :: values)) := by
  induction values generalizing old with
  | nil => rw [List.intercalate_singleton]; rfl
  | cons value values ih =>
    have hstep : joinTo (some old) (value :: values) =
        joinTo (some (old ++ ", ".toList ++ value)) values := rfl
    rw [hstep, ih, List.intercalate_cons_cons]
    cases values with
    | nil =>
      rw [List.intercalate_singleton, List.intercalate_singleton]
    | cons next values =>
      rw [List.intercalate_cons_cons, List.intercalate_cons_cons]
      simp only [List.append_assoc]

theorem joinTo_none (values : List Str) (hne : values ≠ []) :
    joinTo none values = some (", ".toList.intercalate values) := by
  cases values with
  | nil => exact absurd rfl hne
  | cons value values => exact joinTo_some value values

/-- Each name has the values of its pairs, joined in order. -/
theorem get?_mergePairs (d : Headers) (pairs : List (Str × Str)) (name : Str) :
    (mergePairs d pairs).get? name = joinTo (d.get? name) (pairValues pairs name) := by
  induction pairs generalizing d with
  | nil => rfl
  | cons p pairs ih =>
    rw [mergePairs_cons, ih, pairValues_cons, get?_mergeHeader]
    by_cases hp : p.1 = name
    · rw [if_pos hp, if_pos hp.symm, hp]
      rfl
    · rw [if_neg hp, if_neg fun h => hp h.symm]

theorem pairValues_eq_nil {pairs : List (Str × Str)} {name : Str} :
    pairValues pairs name = [] ↔ name ∉ pairs.map Prod.fst := by
  induction pairs with
  | nil => exact ⟨fun _ => List.not_mem_nil, fun _ => rfl⟩
  | cons p pairs ih =>
    rw [pairValues_cons, List.map_cons, List.mem_cons, not_or]
    by_cases hp : p.1 = name
    · rw [if_pos hp]
      exact ⟨fun h => (by cases h), fun h => absurd hp.symm h.1⟩
    · rw [if_neg hp, ih]
      exact ⟨fun h => ⟨fun heq => hp heq.symm, h⟩, And.right⟩

theorem contains_mergePairs (pairs : List (Str × Str)) (name : Str) :
    (mergePairs ∅ pairs).contains name = true ↔ pairValues pairs name ≠ [] := by
  rw [Dict.contains, get?_mergePairs, Dict.get?_empty]
  cases hvalues : pairValues pairs name with
  | nil => exact ⟨fun h => (by cases h), fun h => absurd rfl h⟩
  | cons value values =>
    rw [joinTo_none _ (List.cons_ne_nil value values)]
    exact ⟨fun _ => List.cons_ne_nil value values, fun _ => rfl⟩

/-! What trimming and changing the case leave alone. -/

theorem strip_idem (space : α → Bool) (l : List α) :
    strip space (strip space l) = strip space l := by
  by_cases hnil : strip space l = []
  · rw [hnil]
    rfl
  · obtain ⟨x, rest, hfirst⟩ := List.exists_cons_of_ne_nil hnil
    have hlast := List.dropLast_append_getLast hnil
    refine strip_ends hfirst ?_ hlast.symm (strip_last (List.getLast?_eq_some_getLast hnil))
    have hbegins : x :: rest <+: l.dropWhile space := hfirst ▸ List.rdropWhile_prefix space _
    obtain ⟨more, hmore⟩ := hbegins
    have hdrop : l.dropWhile space = x :: (rest ++ more) := hmore.symm
    have hhead := List.head?_dropWhile_not space l
    rw [hdrop] at hhead
    simpa using hhead

theorem infix_of_strip (space : α → Bool) (l : List α) : strip space l <:+: l :=
  (List.rdropWhile_prefix space _).isInfix.trans (List.dropWhile_suffix space).isInfix

theorem lower_idem (s : Str) : lower (lower s) = lower s := by
  have hchar : ∀ c, lowerChar (lowerChar c) = lowerChar c := by
    intro c
    have hall : ∀ n < 223, lowerChar (lowerChar (Char.ofNat n)) = lowerChar (Char.ofNat n) := by
      decide +kernel
    rcases lowerChar_eq_or c with hsame | ⟨hsmall, -⟩
    · rw [hsame, hsame]
    · have hc := hall c.toNat hsmall
      rwa [Char.ofNat_toNat] at hc
  rw [lower, lower, List.map_map]
  exact List.map_congr_left fun c _ => hchar c

/-- A method is a token, or one with a newline after it. -/
theorem tokenMatch_cases {s : Str} (h : tokenMatch s = true) :
    IsToken s ∨ ∃ t, IsToken t ∧ s = t ++ ['\n'] := by
  by_cases hlast : s.getLast? = some '\n'
  · right
    rw [tokenMatch, if_pos hlast, Bool.and_eq_true, Bool.not_eq_true', List.isEmpty_eq_false_iff,
      List.all_eq_true] at h
    refine ⟨s.dropLast, h, ?_⟩
    exact (List.dropLast_append_getLast? '\n' hlast).symm
  · exact .inl ((tokenMatch_iff hlast).1 h)

theorem tokenMatch_newline {t : Str} (h : IsToken t) : tokenMatch (t ++ ['\n']) = true := by
  rw [tokenMatch, if_pos List.getLast?_concat, List.dropLast_concat, Bool.and_eq_true,
    Bool.not_eq_true', List.isEmpty_eq_false_iff, List.all_eq_true]
  exact h

theorem upper_upper (h : IsToken s) : upper (upper s) = upper s := by
  have hall : ∀ n < 127, (Char.ofNat n).toUpper.toUpper = (Char.ofNat n).toUpper := by
    decide +kernel
  rw [upper, upper, List.map_map]
  refine List.map_congr_left fun c hc => ?_
  have hvisible := tokenChar_visible (h.2 c hc)
  have hupper := hall c.toNat (by omega)
  rwa [Char.ofNat_toNat] at hupper

/-- What is left of a method in the result of the parser. -/
structure SentMethod (method : Str) : Prop where
  matched : tokenMatch method = true
  fixed : upper method = method
  chars : ∀ c ∈ method, c.toNat < 127 ∧ c ≠ '\r' ∧ c ≠ ' '

theorem IsToken.chars (h : IsToken s) : ∀ c ∈ s, c.toNat < 127 ∧ c ≠ '\r' ∧ c ≠ ' ' := by
  intro c hc
  have hvisible := tokenChar_visible (h.2 c hc)
  refine ⟨by omega, (h.inert c hc).1, ?_⟩
  rintro rfl
  exact absurd (h.2 ' ' hc) (by decide)

theorem method_upper {method : Str} (h : tokenMatch method = true) : SentMethod (upper method) := by
  rcases tokenMatch_cases h with htoken | ⟨t, htoken, rfl⟩
  · exact ⟨tokenMatch_token htoken.upper.1 htoken.upper.2, upper_upper htoken, htoken.upper.chars⟩
  · have hconcat : upper (t ++ ['\n']) = upper t ++ ['\n'] := List.map_append
    rw [hconcat]
    refine ⟨tokenMatch_newline htoken.upper, ?_, ?_⟩
    · have hconcat' : upper (upper t ++ ['\n']) = upper (upper t) ++ ['\n'] := List.map_append
      rw [hconcat', upper_upper htoken]
    · intro c hc
      rcases List.mem_append.1 hc with hc | hc
      · exact htoken.upper.chars c hc
      · rw [List.mem_singleton.1 hc]
        decide

/-- What is known of each pair that the parser returns. -/
structure KeptPair (cfg : ServerConfig) (p : Str × Str) : Prop where
  token : IsToken p.1
  lowered : lower p.1 = p.1
  stripped : strStrip p.2 = p.2
  nameLength : p.1.length ≤ cfg.maxHeaderName
  valueLength : p.2.length ≤ cfg.maxHeaderValue
  chars : ∀ c ∈ p.2, c.toNat < 256
  unbroken : ¬ ['\r', '\n'] <:+: p.2

section Block

variable {cfg : ServerConfig} {raw : Bytes} {requestLine : Str} {lines : List Str} {method : Str}
  {h : Head}

theorem decodeLatin1_chars (raw : Bytes) : ∀ c ∈ decodeLatin1 raw, c.toNat < 256 := by
  intro c hc
  obtain ⟨b, -, rfl⟩ := List.mem_map.1 hc
  have hall : ∀ n < 256, (Char.ofNat n).toNat < 256 := by decide +kernel
  exact hall _ b.toNat_lt

/-- The lines of a block are of its characters and do not contain its separator. -/
theorem PassedBlock.pieces (hp : PassedBlock cfg raw requestLine lines method h) :
    ∀ line ∈ requestLine :: lines,
      (¬ ['\r', '\n'] <:+: line) ∧ ∀ c ∈ line, c.toNat < 256 := by
  intro line hline
  obtain ⟨hno, hsub⟩ := (Marker.splitPair_pieces hp.divided).2 line hline
  exact ⟨hno, fun c hc => decodeLatin1_chars raw c (List.mem_of_mem_take (hsub hc))⟩

theorem LineField.kept {line : Str} {p : Str × Str} (hfield : LineField cfg line p)
    (hline : (¬ ['\r', '\n'] <:+: line) ∧ ∀ c ∈ line, c.toNat < 256) : KeptPair cfg p := by
  obtain ⟨before, after, hsplit, rfl⟩ := hfield.split
  have hafter : strStrip after <:+: line := by
    refine (infix_of_strip isSpace after).trans ?_
    rw [Marker.breakOn_eq hsplit]
    exact (List.suffix_append _ after).isInfix
  exact {
    token := hfield.token
    lowered := lower_idem _
    stripped := strip_idem isSpace after
    nameLength := hfield.nameLength
    valueLength := hfield.valueLength
    chars := fun c hc => hline.2 c (hafter.subset hc)
    unbroken := fun hin => hline.1 (hin.trans hafter) }

/-- A kept pair is read back from its own line. -/
theorem KeptPair.lineField {p : Str × Str} (hp : KeptPair cfg p) :
    LineField cfg (fieldText p) p where
  split := by
    refine ⟨p.1, ' ' :: p.2, splitFirst_line hp.token, ?_⟩
    have hvalue : strStrip (' ' :: p.2) = p.2 := (strip_cons rfl p.2).trans hp.stripped
    rw [strStrip_token hp.token.2, hp.lowered, hvalue]
  unfolded := by
    intro c hc hblank
    obtain ⟨d, rest, hname⟩ := List.exists_cons_of_ne_nil hp.token.1
    have htoken := hp.token.2 d (hname ▸ List.mem_cons_self)
    rw [fieldText, hname] at hc
    cases hc
    rcases hblank with rfl | rfl
    · exact absurd htoken (by decide)
    · exact absurd htoken (by decide)
  token := hp.token
  nameLength := hp.nameLength
  valueLength := hp.valueLength

theorem KeptPair.text {p : Str × Str} (hp : KeptPair cfg p) :
    (¬ ['\r', '\n'] <:+: fieldText p) ∧ ∀ c ∈ fieldText p, c.toNat < 256 := by
  constructor
  · intro hin
    rcases Marker.infix_append_cons (by decide) hin with hin | hin
    · have hmem : '\r' ∈ p.1 := hin.subset List.mem_cons_self
      exact (hp.token.inert '\r' hmem).1 rfl
    · rcases Marker.infix_append_cons (b := []) (by decide) hin with hin | hin
      · cases List.infix_nil.1 hin
      · exact hp.unbroken hin
  · intro c hc
    rw [fieldText, List.mem_append, List.mem_cons, List.mem_cons] at hc
    rcases hc with hc | rfl | rfl | hc
    · exact Nat.lt_trans (hp.token.chars c hc).1 (by decide)
    · decide
    · decide
    · exact hp.chars c hc

theorem PassedBlock.kept (hp : PassedBlock cfg raw requestLine lines method h) :
    ∀ p ∈ h.rawPairs, KeptPair cfg p := by
  intro p hmem
  obtain ⟨line, hline, hfield⟩ := exists_field
    (List.Forall₂.flip (R := fun p line => LineField cfg line p) hp.read.1) hmem
  exact hfield.kept (hp.pieces line (List.mem_cons_of_mem _ (List.mem_of_mem_filter hline)))

theorem PassedBlock.requestLine_eq (hp : PassedBlock cfg raw requestLine lines method h) :
    requestLine = method ++ ' ' :: (h.target ++ ' ' :: h.version) := by
  have hjoined : [' '].intercalate (requestLine.splitOn ' ') = requestLine :=
    List.intercalate_splitOn ' '
  rw [hp.parts, List.intercalate_cons_cons, List.intercalate_cons_cons,
    List.intercalate_singleton] at hjoined
  rw [← hjoined]
  simp only [List.append_assoc]
  rfl

/-- The pairs of one field are what is joined under its name. -/
theorem PassedBlock.structured (hp : PassedBlock cfg raw requestLine lines method h) :
    Structured cfg h := by
  obtain ⟨hfields, honce, hheaders⟩ := hp.read
  have hcontains : ∀ name, h.headers.contains name = true ↔ pairValues h.rawPairs name ≠ [] := by
    rw [hheaders]
    exact contains_mergePairs h.rawPairs
  have hhost : (pairValues h.rawPairs "host".toList).length ≠ 0 := by
    intro hzero
    exact (hcontains _).1 hp.host (List.length_eq_zero_iff.1 hzero)
  constructor
  case keys =>
    intro name
    rw [Dict.mem_keys, hcontains, Ne, pairValues_eq_nil, not_not]
  case joined =>
    intro name hname
    rw [Dict.mem_keys, hcontains] at hname
    rw [hheaders, get?_mergePairs, Dict.get?_empty, joinTo_none _ hname]
  case names => exact fun p hp' => ⟨(hp.kept p hp').token, (hp.kept p hp').lowered⟩
  case values => exact fun p hp' => (hp.kept p hp').stripped
  case host =>
    have hle := (honce "host".toList (by decide)).1
    omega
  case contentLength => exact (honce "content-length".toList (by decide)).1
  case transferEncoding => exact (honce "transfer-encoding".toList (by decide)).1
  case framing =>
    by_contra hboth
    rw [not_or] at hboth
    exact hp.framing ⟨(hcontains _).2 hboth.1, (hcontains _).2 hboth.2⟩
  case count =>
    rw [← hfields.length_eq]
    exact Nat.le_trans (List.length_filter_le _ lines) hp.count
  case lengths => exact fun p hp' => ⟨(hp.kept p hp').nameLength, (hp.kept p hp').valueLength⟩
  case line =>
    have hlength := hp.lineLength
    rw [hp.requestLine_eq, List.length_append] at hlength
    rw [hp.method, upper, List.length_append, List.length_map]
    exact hlength

/-- The request line that is written out has the parts it is written from. -/
theorem PassedBlock.rewritten (hp : PassedBlock cfg raw requestLine lines method h) :
    (h.method ++ ' ' :: (h.target ++ ' ' :: h.version)).splitOn ' ' =
      [h.method, h.target, h.version] := by
  have hparts := Marker.splitOn_part ' ' requestLine
  rw [hp.parts] at hparts
  have hmethod : ' ' ∉ h.method := by
    intro hmem
    rw [hp.method] at hmem
    exact ((method_upper hp.token).chars ' ' hmem).2.2 rfl
  have htarget : ' ' ∉ h.target := (hparts h.target (List.mem_cons_of_mem _ List.mem_cons_self)).1
  rw [List.splitOn_append_cons_self_of_not_mem hmethod,
    List.splitOn_append_cons_self_of_not_mem htarget, hp.version]
  rfl

theorem PassedBlock.request_text (hp : PassedBlock cfg raw requestLine lines method h) :
    (¬ ['\r', '\n'] <:+: h.method ++ ' ' :: (h.target ++ ' ' :: h.version)) ∧
      ∀ c ∈ h.method ++ ' ' :: (h.target ++ ' ' :: h.version), c.toNat < 256 := by
  have hsent := method_upper hp.token
  rw [← hp.method] at hsent
  have hline := hp.pieces requestLine List.mem_cons_self
  rw [hp.requestLine_eq] at hline
  have hrest : h.target ++ ' ' :: h.version <:+: method ++ ' ' :: (h.target ++ ' ' :: h.version) :=
    ⟨method ++ [' '], [], by simp only [List.append_assoc, List.singleton_append, List.append_nil]⟩
  constructor
  · intro hin
    rcases Marker.infix_append_cons (by decide) hin with hin | hin
    · exact (hsent.chars '\r' (hin.subset List.mem_cons_self)).2.1 rfl
    · exact hline.1 (hin.trans hrest)
  · intro c hc
    rw [List.mem_append, List.mem_cons] at hc
    rcases hc with hc | rfl | hc
    · exact Nat.lt_trans (hsent.chars c hc).1 (by decide)
    · decide
    · exact hline.2 c (hrest.subset hc)

/-- A head written out again is encoded, and parsed as the same head. -/
theorem PassedBlock.canonical (hp : PassedBlock cfg raw requestLine lines method h) :
    encodeLatin1 (canonicalText h) = some (latin1 (canonicalText h)) ∧
      parseHeaderBlock (latin1 (canonicalText h)) cfg = .ok h := by
  obtain ⟨hfields, honce, hheaders⟩ := hp.read
  have htext : ∀ line ∈ (h.method ++ ' ' :: (h.target ++ ' ' :: h.version)) ::
      h.rawPairs.map fieldText, (¬ ['\r', '\n'] <:+: line) ∧ ∀ c ∈ line, c.toNat < 256 := by
    intro line hline
    rcases List.mem_cons.1 hline with rfl | hline
    · exact hp.request_text
    · obtain ⟨p, hp', rfl⟩ := List.mem_map.1 hline
      exact (hp.kept p hp').text
  have hlatin : ∀ c ∈ canonicalText h, c.toNat < 256 :=
    blockText_latin fun line hline => (htext line hline).2
  have hdecoded : decodeLatin1 (latin1 (canonicalText h)) = canonicalText h :=
    decodeLatin1_latin1 hlatin
  have hsent := method_upper hp.token
  rw [← hp.method] at hsent
  have hread : (h.rawPairs.map fieldText).foldlM (parseHeaderLine cfg) (∅, []) =
      .ok (h.headers, h.rawPairs) := by
    have hnonempty : (h.rawPairs.map fieldText).filter (fun line => line ≠ []) =
        h.rawPairs.map fieldText := by
      refine List.filter_eq_self.2 fun line hline => ?_
      obtain ⟨p, hp', rfl⟩ := List.mem_map.1 hline
      refine decide_eq_true fun hnil => ?_
      exact (hp.kept p hp').token.1 (List.append_eq_nil_iff.1 hnil).1
    refine foldlM_lines_iff.2 ⟨h.rawPairs, ?_, honce, ?_⟩
    · rw [hnonempty, List.forall₂_map_left_iff, List.forall₂_same]
      exact fun p hp' => (hp.kept p hp').lineField
    · rw [hheaders]
      rfl
  refine ⟨?_, parseHeaderBlock_ok_iff.2 ⟨h.method ++ ' ' :: (h.target ++ ' ' :: h.version),
    h.rawPairs.map fieldText, h.method, {
      lineLength := hp.structured.line
      parts := hp.rewritten
      token := hsent.matched
      version := hp.version
      target := hp.target
      count := ?_
      fields := hread
      host := hp.host
      framing := hp.framing
      method := hsent.fixed.symm
      complete := ?_
      divided := ?_
      nonempty := ?_ }⟩⟩
  · rw [encodeLatin1_eq, if_pos hlatin]
  · rw [List.length_map]
    exact hp.structured.count
  · rw [hdecoded, contains, Marker.breakOn_isSome]
    exact (List.suffix_append _ _).isInfix
  · have htake : (canonicalText h).take ((canonicalText h).length - 4) =
        Marker.joinPair '\r' '\n' ((h.method ++ ' ' :: (h.target ++ ' ' :: h.version)) ::
          h.rawPairs.map fieldText) := by
      refine List.take_left' ?_
      rw [canonicalText, blockText, List.length_append]
      rfl
    rw [hdecoded, htake]
    exact Marker.splitPair_lines (by decide) (fun line hline => (htext line hline).1)
      (List.cons_ne_nil _ _)
  · exact List.append_ne_nil_of_right_ne_nil _ (List.cons_ne_nil _ _)

end Block

/-- The headers of an accepted block have their structure, and the block is read back from the
plainest form of its head. -/
theorem parseHeaderBlock_stable {raw : Bytes} {cfg : ServerConfig} {h : Head}
    (hp : parseHeaderBlock raw cfg = .ok h) :
    Structured cfg h ∧ ∃ raw', encodeLatin1 (canonicalText h) = some raw' ∧
      parseHeaderBlock raw' cfg = .ok h := by
  obtain ⟨requestLine, lines, method, hpassed⟩ := parseHeaderBlock_ok_iff.1 hp
  exact ⟨hpassed.structured, _, hpassed.canonical⟩

/-- A head with two fields of one name. -/
def joinedHead : Head where
  method := "GET".toList
  target := "/a".toList
  version := "HTTP/1.1".toList
  headers := (Dict.set ∅ "host".toList "h".toList).set "x".toList "1, 2".toList
  rawPairs := [("host".toList, "h".toList), ("x".toList, "1".toList), ("x".toList, "2".toList)]

/-- Blanks around the values go, and the fields of one name are joined. -/
theorem parseHeaderBlock_stable_joined :
    ∃ raw', encodeLatin1 "GET /a HTTP/1.1\r\nhost: h\r\nx: 1\r\nx: 2\r\n\r\n".toList = some raw' ∧
      parseHeaderBlock raw' {} = .ok joinedHead := by
  have hparse : parseHeaderBlock
      (ascii "get /a HTTP/1.1\r\nHost:h \r\nX : 1\r\nx:\t2\r\n\r\n") {} = .ok joinedHead := by
    decide +kernel
  exact (parseHeaderBlock_stable hparse).2

end Sovereign
