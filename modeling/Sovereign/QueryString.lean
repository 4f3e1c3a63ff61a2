import Sovereign.Quote
import Sovereign.Request

namespace Sovereign
set_option autoImplicit true

/-! The query of a request, and the form data that a client writes into it. -/

/-- `urllib.parse.quote_plus` for one character. -/
def quotePlusChar (c : Char) : Str :=
  if c = ' ' then ['+'] else if c = '/' then "%2F".toList else quoteChar c

/-- `urllib.parse.quote_plus` -/
def quotePlus (s : Str) : Str := s.flatMap quotePlusChar

/-- A name and its value. -/
def pairText (e : Str × Str) : Str := quotePlus e.1 ++ '=' :: quotePlus e.2

/-- `urllib.parse.urlencode` -/
def urlencode (pairs : List (Str × Str)) : Str := ['&'].intercalate (pairs.map pairText)

/-- `s.replace("+", " ")` -/
def plusToSpace (s : Str) : Str := s.map fun c => if c = '+' then ' ' else c

/-- A part of the query between its `&`. A name without a value has the empty one. -/
def readPair (part : Str) : Str × Str :=
  let e := (splitFirst '=' part).getD (part, [])
  (unquote (plusToSpace e.1), unquote (plusToSpace e.2))

/-- `urllib.parse.parse_qsl(qs, keep_blank_values=True)` -/
def parseQsl (qs : Str) : List (Str × Str) :=
  ((qs.splitOn '&').filter fun part => !part.isEmpty).map readPair

/-- The values of each name, in the order of the pairs. -/
def groupPairs (pairs : List (Str × Str)) : Dict Str (List Str) :=
  pairs.foldl (fun out e => out.set e.1 ((out.get? e.1).getD [] ++ [e.2])) ∅

/-- `urllib.parse.parse_qs(qs, keep_blank_values=True)` -/
def parseQs (qs : Str) : Dict Str (List Str) := groupPairs (parseQsl qs)

/-- What a name stands for in a query. -/
inductive QueryValue where
  | one (value : Str)
  | many (values : List Str)
deriving DecidableEq

/-- `v[0] if len(v) == 1 else v` -/
def QueryValue.ofList : List Str → QueryValue
  | [value] => one value
  | values => many values

/-- `Request.query` -/
def Request.query (req : Request) : Dict Str QueryValue :=
  (parseQs req.queryString).map QueryValue.ofList

/-- The values of a name. -/
def queryValues (pairs : List (Str × Str)) (name : Str) : List Str :=
  (pairs.filter fun e => decide (e.1 = name)).map Prod.snd

/-- The characters that `urlencode` writes. -/
def isEncoded (c : Char) : Bool := isQuoted c && decide (c ≠ '/') || decide (c = '+')

theorem quoteChar_quoted {c d : Char} (h : d ∈ quoteChar c) : isQuoted d = true :=
  quote_quoted [c] d (List.mem_flatMap.2 ⟨c, List.mem_singleton_self c, h⟩)

theorem quotePlusChar_encoded {c d : Char} (h : d ∈ quotePlusChar c) : isEncoded d = true := by
  rw [quotePlusChar] at h
  split at h
  · rw [List.mem_singleton.1 h]
    rfl
  · split at h
    · have hall : ∀ d ∈ "%2F".toList, isEncoded d = true := by decide
      exact hall d h
    · next hslash =>
      have hne : d ≠ '/' := by
        rintro rfl
        exact quoteChar_no_slash hslash h
      rw [isEncoded, quoteChar_quoted h, decide_eq_true hne]
      rfl

theorem quotePlus_encoded (s : Str) : ∀ d ∈ quotePlus s, isEncoded d = true := by
  intro d hd
  obtain ⟨c, -, hc⟩ := List.mem_flatMap.1 hd
  exact quotePlusChar_encoded hc

theorem not_mem_quotePlus {d : Char} (h : isEncoded d = false) (s : Str) : d ∉ quotePlus s := by
  intro hd
  rw [quotePlus_encoded s d hd] at h
  cases h

theorem not_mem_pairText {d : Char} (h : isEncoded d = false) (hne : d ≠ '=') (e : Str × Str) :
    d ∉ pairText e := by
  rw [pairText, List.mem_append, List.mem_cons]
  rintro (hd | hd | hd)
  · exact not_mem_quotePlus h e.1 hd
  · exact hne hd
  · exact not_mem_quotePlus h e.2 hd

theorem plusToSpace_append (s t : Str) : plusToSpace (s ++ t) = plusToSpace s ++ plusToSpace t :=
  List.map_append

theorem plusToSpace_quoted {s : Str} (h : ∀ c ∈ s, isQuoted c = true) : plusToSpace s = s := by
  have hkept : s.map (fun c => if c = '+' then ' ' else c) = s.map id := by
    apply List.map_congr_left
    intro c hc
    have hne : c ≠ '+' := by
      rintro rfl
      exact absurd (h _ hc) (by decide)
    exact if_neg hne
  rw [plusToSpace, hkept, List.map_id]

/-- A character is read back from its bytes. -/
theorem unquoteToBytes_quotePlusChar (c : Char) (s : Str) :
    unquoteToBytes (plusToSpace (quotePlusChar c) ++ s) =
      String.utf8EncodeChar c ++ unquoteToBytes s := by
  rw [quotePlusChar]
  split
  · next hspace =>
    subst hspace
    exact unquoteToBytes_cons (by decide) s
  · split
    · next hslash =>
      subst hslash
      exact unquoteToBytes_percentByte 47 s
    · rw [plusToSpace_quoted fun d hd => quoteChar_quoted hd, quoteChar]
      split
      · next hplain =>
        obtain ⟨hlow, hhigh⟩ := isUnquoted_range hplain
        have hne : c ≠ '%' := by
          rintro rfl
          revert hlow
          decide
        rw [List.singleton_append, unquoteToBytes_cons hne, utf8EncodeChar_ascii hhigh]
        rfl
      · exact unquoteToBytes_percentBytes _ s

theorem unquoteToBytes_quotePlus (s : Str) :
    unquoteToBytes (plusToSpace (quotePlus s)) = utf8 s := by
  induction s with
  | nil => rfl
  | cons c s ih =>
    have hquote : quotePlus (c :: s) = quotePlusChar c ++ quotePlus s := List.flatMap_cons
    have hutf8 : utf8 (c :: s) = String.utf8EncodeChar c ++ utf8 s := List.flatMap_cons
    rw [hquote, hutf8, plusToSpace_append, unquoteToBytes_quotePlusChar, ih]

theorem isEncoded_ascii {c : Char} (h : isEncoded c = true) : isAscii c = true := by
  rw [isEncoded, Bool.or_eq_true, Bool.and_eq_true] at h
  rcases h with h | h
  · exact isQuoted_ascii h.1
  · rw [of_decide_eq_true h]
    rfl

theorem unquote_quotePlus (s : Str) : unquote (plusToSpace (quotePlus s)) = s := by
  rw [unquote_ascii, unquoteToBytes_quotePlus, decodeReplace_utf8]
  intro c hc
  obtain ⟨d, hd, rfl⟩ := List.mem_map.1 hc
  split
  · rfl
  · exact isEncoded_ascii (quotePlus_encoded s d hd)

theorem readPair_pairText (e : Str × Str) : readPair (pairText e) = e := by
  have hsplit : splitFirst '=' (pairText e) = some (quotePlus e.1, quotePlus e.2) :=
    splitFirst_append (not_mem_quotePlus (by decide) e.1) (quotePlus e.2)
  rw [readPair, hsplit, Option.getD_some, unquote_quotePlus, unquote_quotePlus]

theorem pairText_ne_nil (e : Str × Str) : pairText e ≠ [] := by
  intro h
  have hmem : '=' ∈ pairText e := List.mem_append_right _ List.mem_cons_self
  rw [h] at hmem
  cases hmem

/-- The pairs are read back as they were written. -/
theorem parseQsl_urlencode (pairs : List (Str × Str)) : parseQsl (urlencode pairs) = pairs := by
  by_cases hnil : pairs = []
  · subst hnil
    rfl
  · have hclean : ∀ part ∈ pairs.map pairText, '&' ∉ part := by
      intro part hpart
      obtain ⟨e, -, rfl⟩ := List.mem_map.1 hpart
      exact not_mem_pairText (by decide) (by decide) e
    have hkept : (pairs.map pairText).filter (fun part => !part.isEmpty) = pairs.map pairText := by
      apply List.filter_eq_self.2
      intro part hpart
      obtain ⟨e, -, rfl⟩ := List.mem_map.1 hpart
      rw [Bool.not_eq_true', List.isEmpty_eq_false_iff]
      exact pairText_ne_nil e
    rw [parseQsl, urlencode, List.splitOn_intercalate '&' hclean
      (fun h => hnil (List.map_eq_nil_iff.1 h)), hkept, List.map_map,
      funext (f := readPair ∘ pairText) (g := id) readPair_pairText, List.map_id]

theorem queryValues_cons (e : Str × Str) (pairs : List (Str × Str)) (name : Str) :
    queryValues (e :: pairs) name =
      if e.1 = name then e.2 :: queryValues pairs name else queryValues pairs name := by
  rw [queryValues, List.filter_cons]
  by_cases hname : e.1 = name
  · rw [if_pos (decide_eq_true hname), if_pos hname]
    rfl
  · rw [if_neg (by simpa using hname), if_neg hname]
    rfl

theorem get?_group (pairs : List (Str × Str)) (out : Dict Str (List Str)) (name : Str) :
    (pairs.foldl (fun out e => out.set e.1 ((out.get? e.1).getD [] ++ [e.2])) out).get? name =
      if queryValues pairs name = [] then out.get? name
      else some ((out.get? name).getD [] ++ queryValues pairs name) := by
  induction pairs generalizing out with
  | nil => rfl
  | cons e pairs ih =>
    rw [List.foldl_cons, ih, Dict.get?_set, queryValues_cons]
    by_cases hname : e.1 = name
    · subst hname
      rw [if_pos rfl, if_pos rfl, if_neg (List.cons_ne_nil _ _), Option.getD_some]
      split
      · next hnone => rw [hnone]
      · rw [List.append_assoc]
        rfl
    · rw [if_neg (Ne.symm hname), if_neg hname]

/-- A name has the values that the pairs give it. -/
theorem get?_groupPairs (pairs : List (Str × Str)) (name : Str) :
    (groupPairs pairs).get? name =
      if queryValues pairs name = [] then none else some (queryValues pairs name) := by
  rw [groupPairs, get?_group, Dict.get?_empty]
  rfl

/-- The characters that divide a target or are dropped from it. -/
def divides (c : Char) : Bool := decide (c ∈ ['\t', '\r', '\n', '#', '?'])

theorem not_divides_quoted {c : Char} (h : isQuoted c = true) : divides c = false := by
  rw [divides, decide_eq_false_iff_not]
  intro hmem
  have hall : ∀ d ∈ ['\t', '\r', '\n', '#', '?'], isQuoted d = false := by decide
  rw [hall c hmem] at h
  cases h

theorem not_divides_pairText (e : Str × Str) : ∀ c ∈ pairText e, divides c = false := by
  intro c hc
  rw [divides, decide_eq_false_iff_not]
  intro hmem
  have hall : ∀ d ∈ ['\t', '\r', '\n', '#', '?'], isEncoded d = false ∧ d ≠ '=' := by decide
  exact not_mem_pairText (hall c hmem).1 (hall c hmem).2 e hc

theorem not_divides_urlencode (pairs : List (Str × Str)) :
    ∀ c ∈ urlencode pairs, divides c = false := by
  intro c hc
  rcases Marker.mem_intercalate hc with rfl | ⟨part, hpart, hin⟩
  · rfl
  · obtain ⟨e, -, rfl⟩ := List.mem_map.1 hpart
    exact not_divides_pairText e c hin

/-- A path that stands in a target as it is. -/
structure PlainPath (path : Str) : Prop where
  nonempty : path ≠ []
  quoted : ∀ c ∈ path, isQuoted c = true
  single : startsWith "//".toList path = false

theorem startsWith_query {path : Str} (h : PlainPath path) (query : Str) :
    startsWith "//".toList (path ++ '?' :: query) = false := by
  obtain ⟨c, rest, rfl⟩ := List.exists_cons_of_ne_nil h.nonempty
  cases rest with
  | nil =>
    have hsecond : ('/' == '?') = false := rfl
    rw [startsWith, List.singleton_append]
    simp [List.isPrefixOf, hsecond]
  | cons d rest =>
    have hsingle := h.single
    rw [startsWith] at hsingle ⊢
    exact hsingle

/-- The target of a form is divided into its path and its query. -/
theorem urlsplit_query [Urllib] {path : Str} (h : PlainPath path) (pairs : List (Str × Str)) :
    urlsplit (path ++ '?' :: urlencode pairs) = some (path, urlencode pairs) := by
  have hplain : ∀ c ∈ path ++ '?' :: urlencode pairs, divides c = false ∨ c = '?' := by
    intro c hc
    rcases List.mem_append.1 hc with hc | hc
    · exact Or.inl (not_divides_quoted (h.quoted c hc))
    · rcases List.mem_cons.1 hc with rfl | hc
      · exact Or.inr rfl
      · exact Or.inl (not_divides_urlencode pairs c hc)
  have hkept : (path ++ '?' :: urlencode pairs).filter (fun c => !(c ∈ ['\t', '\r', '\n'])) =
      path ++ '?' :: urlencode pairs := by
    apply List.filter_eq_self.2
    intro c hc
    rw [Bool.not_eq_true', decide_eq_false_iff_not]
    intro hmem
    rcases hplain c hc with hdivides | rfl
    · rw [divides, decide_eq_false_iff_not] at hdivides
      exact hdivides (List.mem_append_left ['#', '?'] hmem)
    · exact absurd hmem (by decide)
  have hfragment : '#' ∉ path ++ '?' :: urlencode pairs := by
    intro hmem
    rcases hplain _ hmem with hdivides | heq
    · cases hdivides
    · cases heq
  have hquery : splitFirst '?' (path ++ '?' :: urlencode pairs) = some (path, urlencode pairs) := by
    apply splitFirst_append
    intro hmem
    exact absurd (not_divides_quoted (h.quoted _ hmem)) (by decide)
  rw [urlsplit.eq_def, hkept]
  dsimp only
  rw [startsWith_query h, if_neg Bool.false_ne_true]
  dsimp only
  rw [splitFirst_none hfragment]
  dsimp only [Option.map_none, Option.getD_none]
  rw [hquery]
  rfl

/-- The request for such a target. -/
theorem make_query [Urllib] {path : Str} (h : PlainPath path) (pairs : List (Str × Str))
    (method version : Str) (headers : Headers) (rawHeaders : List (Str × Str)) (body : Body)
    (bodySize : Int) (remoteAddr : Str) :
    Request.make method (path ++ '?' :: urlencode pairs) version headers rawHeaders body bodySize
        remoteAddr =
      .ok { method, target := path ++ '?' :: urlencode pairs, version, headers, rawHeaders, body,
            bodySize, path, queryString := urlencode pairs, remoteAddr,
            cookies := parseCookies headers } := by
  rw [Request.make, urlsplit_query h]
  dsimp only
  rw [if_neg h.nonempty]

theorem get?_query {req : Request} (h : req.queryString = urlencode pairs) (name : Str) :
    req.query.get? name =
      if queryValues pairs name = [] then none
      else some (QueryValue.ofList (queryValues pairs name)) := by
  rw [Request.query, Dict.get?_map, h, parseQs, parseQsl_urlencode, get?_groupPairs]
  split
  · rfl
  · rfl

/-- Form data that a client writes into the target of a request is the query of the request: a name
with one value stands for it, and a name with several for all of them in their order. -/
theorem query_urlencode [Urllib] {path : Str} (h : PlainPath path) (pairs : List (Str × Str))
    (method version : Str) (headers : Headers) (rawHeaders : List (Str × Str)) (body : Body)
    (bodySize : Int) (remoteAddr : Str) :
    ∃ req, Request.make method (path ++ '?' :: urlencode pairs) version headers rawHeaders body
        bodySize remoteAddr = .ok req ∧
      req.path = path ∧ ∀ name, req.query.get? name =
        if queryValues pairs name = [] then none
        else some (QueryValue.ofList (queryValues pairs name)) :=
  ⟨_, make_query h pairs method version headers rawHeaders body bodySize remoteAddr, rfl,
    get?_query rfl⟩

/-- The form of a search for two words and a page. -/
def searchForm : List (Str × Str) :=
  [("q".toList, "a&b =".toList), ("page".toList, "2".toList), ("q".toList, "é+".toList)]

theorem query_urlencode_search : ∃ (_ : Urllib) (req : Request),
    Request.make "GET".toList "/search?q=a%26b+%3D&page=2&q=%C3%A9%2B".toList "HTTP/1.1".toList ∅ []
      (.bytes []) 0 [] = .ok req ∧
    req.path = "/search".toList ∧
    req.query.get? "q".toList = some (.many ["a&b =".toList, "é+".toList]) ∧
    req.query.get? "page".toList = some (.one "2".toList) := by
  let _ : Urllib := ⟨fun _ => true⟩
  have hpath : PlainPath "/search".toList := ⟨by decide, by decide, by decide⟩
  have htarget : "/search?q=a%26b+%3D&page=2&q=%C3%A9%2B".toList =
    "/search".toList ++ '?' :: urlencode searchForm := by decide
  obtain ⟨req, hreq, hreqpath, hquery⟩ := query_urlencode hpath searchForm "GET".toList
    "HTTP/1.1".toList ∅ [] (.bytes []) 0 []
  exact ⟨inferInstance, req, htarget ▸ hreq, hreqpath, hquery "q".toList, hquery "page".toList⟩

end Sovereign
