import Sovereign.HeaderBlock

namespace Sovereign
set_option autoImplicit true

/-- The checks that an accepted header block has passed, in the order of `parse_header_block`. -/
structure PassedLines (cfg : ServerConfig) (requestLine : Str) (lines : List Str) (method : Str)
    (h : Head) : Prop where
  lineLength : requestLine.length ≤ cfg.maxRequestLine
  parts : requestLine.splitOn ' ' = [method, h.target, h.version]
  token : tokenMatch method = true
  version : h.version = "HTTP/1.1".toList
  target : startsWith "/".toList h.target = true
  count : lines.length ≤ cfg.maxHeaders
  fields : lines.foldlM (parseHeaderLine cfg) (∅, []) = .ok (h.headers, h.rawPairs)
  host : h.headers.contains "host".toList = true
  framing : ¬ (h.headers.contains "content-length".toList = true ∧
    h.headers.contains "transfer-encoding".toList = true)
  method : h.method = upper method

theorem passedLines_of_parseLines {cfg : ServerConfig} {requestLine : Str}
    {lines : List Str} {h : Head}
    (hp : parseLines cfg requestLine lines = .ok h) :
    ∃ method, PassedLines cfg requestLine lines method h := by
  rw [parseLines] at hp
  split at hp
  · cases hp
  · next hlength =>
    split at hp
    · next method target version hsplit =>
      split at hp
      · cases hp
      · next htoken =>
        split at hp
        · cases hp
        · next hversion =>
          split at hp
          · cases hp
          · next htarget =>
            split at hp
            · cases hp
            · next hcount =>
              rw [except_bind_eq_ok] at hp
              obtain ⟨⟨headers, rawPairs⟩, hfields, hp⟩ := hp
              dsimp only at hp
              split at hp
              · cases hp
              · next hhost =>
                split at hp
                · cases hp
                · next hframing =>
                  cases hp
                  exact ⟨method, {
                    lineLength := Nat.not_lt.1 hlength
                    parts := hsplit
                    token := by rwa [Bool.not_eq_false] at htoken
                    version := not_not.1 hversion
                    target := by rwa [Bool.not_eq_false] at htarget
                    count := Nat.not_lt.1 hcount
                    fields := hfields
                    host := by rwa [Bool.not_eq_false] at hhost
                    framing := hframing
                    method := rfl }⟩
    · cases hp

theorem parseLines_of_passedLines {cfg : ServerConfig} {requestLine : Str}
    {lines : List Str} {h : Head}
    {method : Str} (hp : PassedLines cfg requestLine lines method h) :
    parseLines cfg requestLine lines = .ok h := by
  have htoken : ¬ tokenMatch method = false := by
    rw [hp.token]
    exact Bool.noConfusion
  have htarget : ¬ startsWith "/".toList h.target = false := by
    rw [hp.target]
    exact Bool.noConfusion
  have hhost : ¬ h.headers.contains "host".toList = false := by
    rw [hp.host]
    exact Bool.noConfusion
  rw [parseLines, if_neg (Nat.not_lt.2 hp.lineLength), hp.parts]
  dsimp only
  rw [if_neg htoken, if_neg (not_not.2 hp.version), if_neg htarget,
    if_neg (Nat.not_lt.2 hp.count), hp.fields, ok_bind]
  dsimp only
  rw [if_neg hhost, if_neg hp.framing, ← hp.method]

/-- What an accepted header block is. -/
structure PassedBlock (cfg : ServerConfig) (raw : Bytes) (requestLine : Str) (lines : List Str)
    (method : Str) (h : Head) : Prop extends PassedLines cfg requestLine lines method h where
  complete : contains "\r\n\r\n".toList (decodeLatin1 raw) = true
  divided : Marker.splitPair '\r' '\n' ((decodeLatin1 raw).take ((decodeLatin1 raw).length - 4)) =
    requestLine :: lines
  nonempty : requestLine ≠ []

theorem parseHeaderBlock_ok_iff {raw : Bytes} {cfg : ServerConfig} {h : Head} :
    parseHeaderBlock raw cfg = .ok h ↔
      ∃ requestLine lines method, PassedBlock cfg raw requestLine lines method h := by
  constructor
  · intro hp
    rw [parseHeaderBlock] at hp
    split at hp
    · cases hp
    · next hcomplete =>
      split at hp
      · cases hp
      · cases hp
      · next requestLine lines hnonempty hdivided =>
        obtain ⟨method, hpassed⟩ := passedLines_of_parseLines hp
        refine ⟨requestLine, lines, method, ⟨hpassed, ?_, hdivided, ?_⟩⟩
        · rwa [Bool.not_eq_false] at hcomplete
        · rintro rfl
          exact hnonempty rfl
  · rintro ⟨requestLine, lines, method, hp⟩
    obtain ⟨c, rest, rfl⟩ := List.exists_cons_of_ne_nil hp.nonempty
    have hcomplete : ¬ contains "\r\n\r\n".toList (decodeLatin1 raw) = false := by
      rw [hp.complete]
      exact Bool.noConfusion
    rw [parseHeaderBlock, if_neg hcomplete, hp.divided]
    exact parseLines_of_passedLines hp.toPassedLines

/-- A text that is a token. -/
def IsToken (s : Str) : Prop := s ≠ [] ∧ ∀ c ∈ s, tokenChar c = true

instance (s : Str) : Decidable (IsToken s) := inferInstanceAs (Decidable (_ ∧ _))

theorem tokenMatch_iff {s : Str} (h : s.getLast? ≠ some '\n') :
    tokenMatch s = true ↔ IsToken s := by
  rw [tokenMatch, if_neg h, Bool.and_eq_true, Bool.not_eq_true', List.isEmpty_eq_false_iff,
    List.all_eq_true]
  rfl

/-- The field that a line of a header block is read as. -/
structure LineField (cfg : ServerConfig) (line : Str) (field : Str × Str) : Prop where
  split : ∃ before after, splitFirst ':' line = some (before, after) ∧
    field = (lower (strStrip before), strStrip after)
  unfolded : ∀ c, line.head? = some c → ¬ (c = ' ' ∨ c = '\t')
  token : IsToken field.1
  nameLength : field.1.length ≤ cfg.maxHeaderName
  valueLength : field.2.length ≤ cfg.maxHeaderValue

theorem strip_last {space : α → Bool} {l : List α} (h : (strip space l).getLast? = some x) :
    space x = false := by
  have hne : (l.dropWhile space).rdropWhile space ≠ [] := by
    intro hnil
    rw [strip, hnil] at h
    cases h
  have hlast := List.rdropWhile_last_not space (l.dropWhile space) hne
  rw [strip, List.getLast?_eq_some_getLast hne, Option.some.injEq] at h
  rw [h, Bool.not_eq_true] at hlast
  exact hlast

/-- Only letters change their case. -/
theorem lowerChar_eq_or (c : Char) : lowerChar c = c ∨ c.toNat < 223 ∧
    96 < (lowerChar c).toNat := by
  rw [lowerChar]
  split
  · next h =>
    have hrange : 65 ≤ c.toNat ∧ c.toNat < 223 := by
      rcases h with ⟨hlow, hhigh⟩ | ⟨hlow, hhigh, -⟩
      · have hlow' : 65 ≤ c.toNat := hlow
        have hhigh' : c.toNat ≤ 90 := hhigh
        omega
      · omega
    have hvalue : ∀ n < 223, 65 ≤ n → 96 < (Char.ofNat (n + 32)).toNat := by decide +kernel
    exact .inr ⟨hrange.2, hvalue _ hrange.2 hrange.1⟩
  · exact .inl rfl

theorem lowerChar_newline {c : Char} (h : lowerChar c = '\n') : c = '\n' := by
  rcases lowerChar_eq_or c with hsame | ⟨-, hlarge⟩
  · rw [← hsame, h]
  · rw [h] at hlarge
    exact absurd hlarge (by decide)

theorem lower_strip_last (s : Str) : (lower (strStrip s)).getLast? ≠ some '\n' := by
  intro h
  rw [lower, List.getLast?_map] at h
  obtain ⟨c, hc, hlower⟩ := Option.map_eq_some_iff.1 h
  have hspace := strip_last hc
  rw [lowerChar_newline hlower] at hspace
  revert hspace
  decide

theorem parseHeaderLine_ok_iff {cfg : ServerConfig} {acc acc' : Headers × List (Str × Str)}
    {line : Str} (hne : line ≠ []) :
    parseHeaderLine cfg acc line = .ok acc' ↔
      ∃ field, LineField cfg line field ∧
        ¬ (acc.1.contains field.1 = true ∧ field.1 ∈ singletons) ∧
        acc' = (mergeHeader acc.1 field.1 field.2, acc.2 ++ [field]) := by
  obtain ⟨c, rest, rfl⟩ := List.exists_cons_of_ne_nil hne
  rw [parseHeaderLine]
  constructor
  · intro h
    split at h
    · cases h
    · next hfolded =>
      split at h
      · cases h
      · next before after hsplit =>
        dsimp only at h
        split at h
        · cases h
        · next hname =>
          split at h
          · cases h
          · next hlengths =>
            split at h
            · cases h
            · next hdouble =>
              cases h
              rw [not_or, Bool.not_eq_false, tokenMatch_iff (lower_strip_last before)] at hname
              rw [not_or, Nat.not_lt, Nat.not_lt] at hlengths
              refine ⟨_, ⟨⟨before, after, hsplit, rfl⟩, ?_, hname.2, hlengths.1, hlengths.2⟩,
                hdouble, rfl⟩
              intro d hd
              cases hd
              exact hfolded
  · rintro ⟨field, hfield, hdouble, rfl⟩
    obtain ⟨before, after, hsplit, rfl⟩ := hfield.split
    have hname :
      ¬ (lower (strStrip before) = [] ∨ tokenMatch (lower (strStrip before)) = false) := by
      rw [not_or, Bool.not_eq_false, tokenMatch_iff (lower_strip_last before)]
      exact ⟨hfield.token.1, hfield.token⟩
    have hlengths : ¬ (cfg.maxHeaderName < (lower (strStrip before)).length ∨
        cfg.maxHeaderValue < (strStrip after).length) := by
      rw [not_or, Nat.not_lt, Nat.not_lt]
      exact ⟨hfield.nameLength, hfield.valueLength⟩
    rw [if_neg (hfield.unfolded c rfl), hsplit]
    dsimp only
    rw [if_neg hname, if_neg hlengths, if_neg hdouble]

/-- The values that pairs of one name have, in order. -/
def pairValues (pairs : List (Str × Str)) (name : Str) : List Str :=
  (pairs.filter fun p => p.1 = name).map Prod.snd

/-- The header mapping after more pairs have been merged into it. -/
def mergePairs (d : Headers) (pairs : List (Str × Str)) : Headers :=
  pairs.foldl (fun d p => mergeHeader d p.1 p.2) d

theorem pairValues_cons (p : Str × Str) (pairs : List (Str × Str)) (name : Str) :
    pairValues (p :: pairs) name =
      if p.1 = name then p.2 :: pairValues pairs name else pairValues pairs name := by
  rw [pairValues, List.filter_cons]
  by_cases h : p.1 = name
  · rw [if_pos (decide_eq_true h), if_pos h]
    rfl
  · rw [if_neg (by rw [decide_eq_false h]; exact Bool.false_ne_true), if_neg h]
    rfl

theorem mergePairs_cons (d : Headers) (p : Str × Str) (pairs : List (Str × Str)) :
    mergePairs d (p :: pairs) = mergePairs (mergeHeader d p.1 p.2) pairs := rfl

theorem contains_mergeHeader (d : Headers) (name value key : Str) :
    (mergeHeader d name value).contains key = true ↔ key = name ∨ d.contains key = true := by
  rw [← Dict.mem_keys, mergeHeader, Dict.mem_keys_set, Dict.mem_keys]

/-- The fields that may not be repeated are not, given those that are there. -/
def Once (d : Headers) (pairs : List (Str × Str)) : Prop :=
  ∀ name ∈ singletons, (pairValues pairs name).length ≤ 1 ∧
    (d.contains name = true → pairValues pairs name = [])

theorem once_cons {d : Headers} {p : Str × Str} {pairs : List (Str × Str)} :
    Once d (p :: pairs) ↔
      ¬ (d.contains p.1 = true ∧ p.1 ∈ singletons) ∧ Once (mergeHeader d p.1 p.2) pairs := by
  constructor
  · intro h
    constructor
    · rintro ⟨hcontains, hsingle⟩
      have hnil := (h p.1 hsingle).2 hcontains
      rw [pairValues_cons, if_pos rfl] at hnil
      cases hnil
    · intro name hname
      obtain ⟨hlength, hnil⟩ := h name hname
      rw [pairValues_cons] at hlength hnil
      rw [contains_mergeHeader]
      by_cases hp : p.1 = name
      · rw [if_pos hp, List.length_cons] at hlength
        have hempty : pairValues pairs name = [] := List.length_eq_zero_iff.1 (by omega)
        rw [hempty]
        exact ⟨Nat.zero_le 1, fun _ => rfl⟩
      · rw [if_neg hp] at hlength hnil
        exact ⟨hlength, fun hmem => hnil (hmem.resolve_left fun heq => hp heq.symm)⟩
  · rintro ⟨hfresh, h⟩ name hname
    obtain ⟨hlength, hnil⟩ := h name hname
    rw [contains_mergeHeader] at hnil
    rw [pairValues_cons]
    by_cases hp : p.1 = name
    · rw [if_pos hp, hnil (.inl hp.symm)]
      refine ⟨Nat.le_refl 1, fun hcontains => ?_⟩
      rw [← hp] at hcontains hname
      exact absurd ⟨hcontains, hname⟩ hfresh
    · rw [if_neg hp]
      exact ⟨hlength, fun hcontains => hnil (.inr hcontains)⟩

/-- The loop over the header lines reads one field from each line that is not empty. -/
theorem foldlM_lines_iff {cfg : ServerConfig} {lines : List Str}
    {acc acc' : Headers × List (Str × Str)} :
    lines.foldlM (parseHeaderLine cfg) acc = .ok acc' ↔
      ∃ pairs, List.Forall₂ (LineField cfg) (lines.filter fun line => line ≠ []) pairs ∧
        Once acc.1 pairs ∧ acc' = (mergePairs acc.1 pairs, acc.2 ++ pairs) := by
  induction lines generalizing acc with
  | nil =>
    constructor
    · intro h
      cases h
      refine ⟨[], .nil, fun name _ => ⟨Nat.zero_le 1, fun _ => rfl⟩, ?_⟩
      rw [List.append_nil]
      rfl
    · rintro ⟨pairs, hfields, -, rfl⟩
      cases hfields
      rw [List.append_nil]
      rfl
  | cons line lines ih =>
    rw [List.foldlM_cons]
    by_cases hempty : line = []
    · subst hempty
      have hskip : parseHeaderLine cfg acc [] = .ok acc := rfl
      rw [hskip, ok_bind, ih]
      rfl
    · have hfilter : (line :: lines).filter (fun line => line ≠ []) =
          line :: lines.filter fun line => line ≠ [] :=
        List.filter_cons_of_pos (decide_eq_true hempty)
      rw [hfilter, except_bind_eq_ok]
      constructor
      · rintro ⟨acc₁, hline, h⟩
        obtain ⟨field, hfield, hfresh, rfl⟩ := (parseHeaderLine_ok_iff hempty).1 hline
        obtain ⟨pairs, hfields, honce, rfl⟩ := ih.1 h
        refine ⟨field :: pairs, .cons hfield hfields, once_cons.2 ⟨hfresh, honce⟩, ?_⟩
        rw [mergePairs_cons, List.append_assoc]
        rfl
      · rintro ⟨pairs, hfields, honce, rfl⟩
        cases hfields with
        | cons hfield hfields =>
          obtain ⟨hfresh, honce⟩ := once_cons.1 honce
          refine ⟨_, (parseHeaderLine_ok_iff hempty).2 ⟨_, hfield, hfresh, rfl⟩, ih.2 ⟨_, hfields,
            honce, ?_⟩⟩
          rw [mergePairs_cons, List.append_assoc]
          rfl

/-- The pairs of an accepted head are the fields of its lines, and its mapping is made of them. -/
theorem PassedLines.read {cfg : ServerConfig} {requestLine : Str} {lines : List Str} {method : Str}
    {h : Head} (hp : PassedLines cfg requestLine lines method h) :
    List.Forall₂ (LineField cfg) (lines.filter fun line => line ≠ []) h.rawPairs ∧
      Once ∅ h.rawPairs ∧ h.headers = mergePairs ∅ h.rawPairs := by
  obtain ⟨pairs, hfields, honce, heq⟩ := foldlM_lines_iff.1 hp.fields
  obtain ⟨hheaders, hpairs⟩ := Prod.mk.inj heq
  rw [List.nil_append] at hpairs
  rw [hpairs]
  exact ⟨hfields, honce, hheaders⟩

end Sovereign
