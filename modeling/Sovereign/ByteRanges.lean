import Sovereign.StaticFiles

namespace Sovereign
set_option autoImplicit true

/-- The text of digits writes a number, and `int` reads no fewer of them. -/
def Writes (s : Str) (n : Nat) : Prop := s.length ≤ maxStrDigits ∧ Numeral.parse 10 s = some n

instance : Decidable (Writes s n) := inferInstanceAs (Decidable (_ ∧ _))

theorem writes_decimal (h : n < 10 ^ maxStrDigits) : Writes (decimal (n : Nat)) n :=
  ⟨(Nat.length_toDigits_le_iff (by decide) (by decide)).2 h, parse_decimal n⟩

namespace Writes

theorem digit (h : Writes s n) (hc : c ∈ s) : '0' ≤ c ∧ c ≤ '9' := by
  obtain ⟨d, hd, hval⟩ := Numeral.digit_of_parse h.2 c hc
  exact (Numeral.toNat_of_digitVal hval).2 hd

theorem ne_nil (h : Writes s n) : s ≠ [] := Numeral.ne_nil_of_parse h.2

theorem not_mem (h : Writes s n) (hc : ¬ ('0' ≤ c ∧ c ≤ '9')) : c ∉ s := fun hm => hc (h.digit hm)

theorem strip_eq (h : Writes s n) : strip Json.isIntSpace s = s := by
  apply strip_eq_self
  intro c hc
  obtain ⟨hlow, hhigh⟩ := h.digit hc
  have hlow' : 48 ≤ c.toNat := hlow
  have hhigh' : c.toNat ≤ 57 := hhigh
  apply decide_eq_false
  omega

/-- A row of digits has no blanks and no underscores. -/
theorem unsigned_eq (h : Writes s n) :
    (if (s.splitOn '_').all fun g => !g.isEmpty then parseInt (s.splitOn '_').flatten else none) =
      some n := by
  have hgroups : s.splitOn '_' = [s] := List.splitOn_eq_singleton (h.not_mem (by decide))
  have hread : parseInt s = some n := by
    rw [parseInt, if_pos h.1]
    exact h.2
  have hall : [s].all (fun g => !g.isEmpty) = true := by
    rw [List.all_cons, List.all_nil, Bool.and_true, Bool.not_eq_true', List.isEmpty_eq_false_iff]
    exact h.ne_nil
  rw [hgroups, if_pos hall, List.flatten_singleton, hread]

/-- A row of digits is read as the number that it writes. -/
theorem intOfStr_eq (h : Writes s n) : Json.intOfStr s = some (n : Int) := by
  rw [Json.intOfStr]
  dsimp only
  rw [h.strip_eq]
  split
  · exact absurd List.mem_cons_self (h.not_mem (c := '+') (by decide))
  · exact absurd List.mem_cons_self (h.not_mem (c := '-') (by decide))
  · rw [h.unsigned_eq]
    rfl

end Writes

/-- The bounds that are accepted, and what they have been written as. -/
def boundsWithin (start last size : Int) : Option (Int × Int) :=
  if start < 0 ∨ last < start ∨ size ≤ start then none else some (start, min last (size - 1))

theorem splitFirst_dash (h : Writes s n) (t : Str) : splitFirst '-' (s ++ '-' :: t) = some (s, t) :=
  splitFirst_append (h.not_mem (by decide)) t

/-- `a-b` -/
theorem rangeBounds_closed (ha : Writes s a) (hb : Writes t b) (size : Int) :
    rangeBounds (s ++ '-' :: t) size = boundsWithin a b size := by
  rw [rangeBounds, splitFirst_dash ha]
  simp [ha.ne_nil, hb.ne_nil, ha.intOfStr_eq, hb.intOfStr_eq, boundsWithin]

/-- `a-` -/
theorem rangeBounds_open (ha : Writes s a) (size : Int) :
    rangeBounds (s ++ ['-']) size = boundsWithin a (size - 1) size := by
  rw [rangeBounds, splitFirst_dash ha]
  simp [ha.ne_nil, ha.intOfStr_eq, boundsWithin]

/-- `-n` -/
theorem rangeBounds_suffix (hn : Writes s n) (size : Int) :
    rangeBounds ('-' :: s) size = boundsWithin (max (size - n) 0) (size - 1) size := by
  have hsplit : splitFirst '-' ('-' :: s) = some ([], s) := Marker.breakOn_start ⟨s, rfl⟩
  rw [rangeBounds, hsplit]
  simp [hn.intOfStr_eq, boundsWithin]

theorem boundsWithin_eq_some :
    boundsWithin start last size = some p ↔
      (0 ≤ start ∧ start ≤ last ∧ start < size) ∧ p = (start, min last (size - 1)) := by
  rw [boundsWithin]
  split
  · next h =>
    constructor
    · intro h'
      cases h'
    · rintro ⟨h', -⟩
      omega
  · next h =>
    constructor
    · intro h'
      cases h'
      exact ⟨by omega, rfl⟩
    · rintro ⟨-, rfl⟩
      rfl

/-- Bounds that are found lie within the body. -/
theorem rangeBounds_within (h : rangeBounds value size = some p) :
    0 ≤ p.1 ∧ p.1 ≤ p.2 ∧ p.2 < size := by
  have hbounds : ∃ start last, boundsWithin start last size = some p := by
    rw [rangeBounds] at h
    obtain ⟨⟨rawStart, rawEnd⟩, -, h⟩ := Option.bind_eq_some_iff.1 h
    dsimp only at h
    split at h
    · obtain ⟨length, -, h⟩ := Option.bind_eq_some_iff.1 h
      exact ⟨_, _, h⟩
    · obtain ⟨start, -, h⟩ := Option.bind_eq_some_iff.1 h
      split at h
      · obtain ⟨last, -, h⟩ := Option.bind_eq_some_iff.1 h
        exact ⟨_, _, h⟩
      · exact ⟨_, _, h⟩
  obtain ⟨start, last, hbounds⟩ := hbounds
  obtain ⟨hstart, rfl⟩ := boundsWithin_eq_some.1 hbounds
  dsimp only
  omega

/-- The answer with the bytes from one place of a body to another. -/
structure SendsPart (body : Bytes) (start last : Nat) (resp : Response) : Prop where
  ordered : start ≤ last
  inside : last < body.length
  status : resp.status = 206
  content : resp.body = (body.drop start).take (last - start + 1)
  length : resp.headers.get? "Content-Length".toList = some (decimal ((last - start + 1 : Nat) : Int))
  range : resp.headers.get? "Content-Range".toList =
    some ("bytes ".toList ++ decimal start ++ '-' :: decimal last ++ '/' :: decimal body.length)

/-- The refusal of a range that the body does not have. -/
def unsatisfiable (body : Bytes) : Exc :=
  .http (.make 416 "Requested Range Not Satisfiable".toList
    ((∅ : Headers).set "Content-Range".toList ("bytes */".toList ++ decimal body.length)))

section Responses

variable {req : Request} {body : Bytes} (headers : Headers) (contentType : Str)

/-- A request without a range is not answered here. -/
theorem rangeResponse_absent (h : startsWith "bytes=".toList (req.header "range".toList) = false) :
    rangeResponse req body headers contentType = .ok none := by
  rw [rangeResponse]
  exact if_pos (.inr h)

theorem rangeResponse_present (h : req.header "range".toList = "bytes=".toList ++ value) :
    rangeResponse req body headers contentType =
      match rangeBounds value body.length with
      | none => .error (unsatisfiable body)
      | some (start, last) =>
        let chunk := (body.drop start.toNat).take (last - start + 1).toNat
        .ok (some {
          body := chunk
          status := 206
          headers := headers.update
            [("Content-Range".toList, "bytes ".toList ++ decimal start ++ '-' :: decimal last ++
                '/' :: decimal body.length),
              ("Content-Length".toList, decimal chunk.length)]
          contentType := contentType }) := by
  have hstarts : ¬ ("bytes=".toList ++ value = [] ∨
      startsWith "bytes=".toList ("bytes=".toList ++ value) = false) := by
    have hbegin : startsWith "bytes=".toList ("bytes=".toList ++ value) = true :=
      List.isPrefixOf_iff_prefix.2 (List.prefix_append _ _)
    rw [hbegin]
    rintro (h | h)
    · cases h
    · cases h
  rw [rangeResponse, h]
  exact if_neg hstarts

theorem rangeResponse_refused (h : req.header "range".toList = "bytes=".toList ++ value)
    (hbounds : rangeBounds value body.length = none) :
    rangeResponse req body headers contentType = .error (unsatisfiable body) := by
  rw [rangeResponse_present headers contentType h, hbounds]

/-- Bounds that are found are what the answer holds. -/
theorem rangeResponse_delivers (h : req.header "range".toList = "bytes=".toList ++ value)
    {start last : Nat}
    (hbounds : rangeBounds value body.length = some ((start : Int), (last : Int))) :
    ∃ resp, rangeResponse req body headers contentType = .ok (some resp) ∧
      SendsPart body start last resp := by
  obtain ⟨-, hordered, hinside⟩ := rangeBounds_within hbounds
  have hle : start ≤ last := Int.ofNat_le.1 hordered
  have hlt : last < body.length := Int.ofNat_lt.1 hinside
  have hcount : ((last : Int) - start + 1).toNat = last - start + 1 := by omega
  rw [rangeResponse_present headers contentType h, hbounds]
  dsimp only
  refine ⟨_, rfl, hle, hlt, rfl, ?_, ?_, ?_⟩
  · rw [hcount, Int.toNat_natCast]
  · have hlength : ((body.drop (start : Int).toNat).take ((last : Int) - start + 1).toNat).length =
        last - start + 1 := by
      rw [List.length_take, List.length_drop, Int.toNat_natCast, hcount]
      omega
    rw [hlength]
    exact Dict.get?_set_self _ _ _
  · have hother : "Content-Range".toList ≠ "Content-Length".toList := by decide
    exact (Dict.get?_set_of_ne _ hother _).trans (Dict.get?_set_self _ _ _)

/-- The three ends of a call of `_range_response`. -/
theorem rangeResponse_cases (req : Request) (body : Bytes) (headers : Headers) (contentType : Str) :
    (startsWith "bytes=".toList (req.header "range".toList) = false ∧
        rangeResponse req body headers contentType = .ok none) ∨
      rangeResponse req body headers contentType = .error (unsatisfiable body) ∨
      ∃ resp start last, rangeResponse req body headers contentType = .ok (some resp) ∧
        SendsPart body start last resp := by
  cases hstarts : startsWith "bytes=".toList (req.header "range".toList) with
  | false => exact .inl ⟨rfl, rangeResponse_absent headers contentType hstarts⟩
  | true =>
    obtain ⟨value, hvalue⟩ := List.isPrefixOf_iff_prefix.1 hstarts
    cases hbounds : rangeBounds value body.length with
    | none => exact .inr (.inl (rangeResponse_refused headers contentType hvalue.symm hbounds))
    | some p =>
      obtain ⟨start, last⟩ := p
      obtain ⟨hstart, hordered, -⟩ := rangeBounds_within hbounds
      obtain ⟨start, rfl⟩ := Int.eq_ofNat_of_zero_le hstart
      obtain ⟨last, rfl⟩ := Int.eq_ofNat_of_zero_le (hstart.trans hordered)
      obtain ⟨resp, hresp⟩ := rangeResponse_delivers headers contentType hvalue.symm hbounds
      exact .inr (.inr ⟨resp, start, last, hresp⟩)

theorem closed_delivers (ha : Writes s a) (hb : Writes t b) (hle : a ≤ b) (hlt : a < body.length)
    (h : req.header "range".toList = "bytes=".toList ++ (s ++ '-' :: t)) :
    ∃ resp, rangeResponse req body headers contentType = .ok (some resp) ∧
      SendsPart body a (min b (body.length - 1)) resp := by
  apply rangeResponse_delivers headers contentType h
  rw [rangeBounds_closed ha hb, boundsWithin_eq_some]
  refine ⟨⟨by omega, by omega, by omega⟩, ?_⟩
  congr 1
  omega

theorem open_delivers (ha : Writes s a) (hlt : a < body.length)
    (h : req.header "range".toList = "bytes=".toList ++ (s ++ ['-'])) :
    ∃ resp, rangeResponse req body headers contentType = .ok (some resp) ∧
      SendsPart body a (body.length - 1) resp := by
  apply rangeResponse_delivers headers contentType h
  rw [rangeBounds_open ha, boundsWithin_eq_some]
  refine ⟨⟨by omega, by omega, by omega⟩, ?_⟩
  congr 1
  omega

theorem suffix_delivers (hn : Writes s n) (hpos : 0 < n) (hne : 0 < body.length)
    (h : req.header "range".toList = "bytes=".toList ++ '-' :: s) :
    ∃ resp, rangeResponse req body headers contentType = .ok (some resp) ∧
      SendsPart body (body.length - n) (body.length - 1) resp := by
  apply rangeResponse_delivers headers contentType h
  rw [rangeBounds_suffix hn, boundsWithin_eq_some]
  refine ⟨⟨by omega, by omega, by omega⟩, ?_⟩
  congr 1 <;> omega

/-- The first and the last place of each piece, where a body is cut into pieces of these lengths. -/
def consecutive (start : Nat) : List Nat → List (Nat × Nat)
  | [] => []
  | n :: lengths => (start, start + n - 1) :: consecutive (start + n) lengths

/-- The answers to requests for consecutive ranges hold the rest of the body. -/
theorem consecutive_deliver {request : Nat × Nat → Request} (hshort : body.length ≤ 10 ^ maxStrDigits)
    (hrequest : ∀ range : Nat × Nat, (request range).header "range".toList =
      "bytes=".toList ++ (decimal range.1 ++ '-' :: decimal range.2)) {lengths : List Nat}
    (hpos : ∀ n ∈ lengths, 0 < n) {start : Nat} (hsum : start + lengths.sum = body.length) :
    ∃ responses : List Response,
      (consecutive start lengths).mapM (fun range =>
        rangeResponse (request range) body headers contentType) = .ok (responses.map some) ∧
      (responses.map fun resp => resp.body).flatten = body.drop start := by
  induction lengths generalizing start with
  | nil =>
    refine ⟨[], rfl, ?_⟩
    rw [List.sum_nil] at hsum
    exact (List.drop_of_length_le (by omega)).symm
  | cons n lengths ih =>
    have hn := hpos n List.mem_cons_self
    rw [List.sum_cons] at hsum
    have hstart : start < body.length := by omega
    have hlast : start + n - 1 < body.length := by omega
    have hnext : start + n + lengths.sum = body.length := by omega
    obtain ⟨responses, hrest, hbodies⟩ :=
      ih (fun m hm => hpos m (List.mem_cons_of_mem n hm)) hnext
    obtain ⟨resp, hresp, hdelivers⟩ := closed_delivers headers contentType
      (writes_decimal (hstart.trans_le hshort)) (writes_decimal (hlast.trans_le hshort)) (by omega)
      hstart (hrequest (start, start + n - 1))
    refine ⟨resp :: responses, ?_, ?_⟩
    · rw [consecutive, List.mapM_cons, hresp, hrest]
      rfl
    · have hcount : min (start + n - 1) (body.length - 1) - start + 1 = n := by omega
      rw [List.map_cons, List.flatten_cons, hbodies, hdelivers.content, hcount,
        ← List.drop_drop, List.take_append_drop]

end Responses

/-- A request for a range is answered with that range, or refused, and the answers for a division of
a body make up the body. -/
theorem rangeResponse_correct (body : Bytes) (headers : Headers) (contentType : Str) :
    (∀ req : Request,
      (startsWith "bytes=".toList (req.header "range".toList) = false ∧
          rangeResponse req body headers contentType = .ok none) ∨
        (∃ e, rangeResponse req body headers contentType = .error (.http e) ∧ e.status = 416 ∧
          e.headers.get? "Content-Range".toList =
            some ("bytes */".toList ++ decimal body.length)) ∨
        ∃ resp start last, rangeResponse req body headers contentType = .ok (some resp) ∧
          SendsPart body start last resp) ∧
    (∀ (req : Request) (s t : Str) (a b : Nat), Writes s a → Writes t b → a ≤ b →
      a < body.length → req.header "range".toList = "bytes=".toList ++ (s ++ '-' :: t) →
      ∃ resp, rangeResponse req body headers contentType = .ok (some resp) ∧
        SendsPart body a (min b (body.length - 1)) resp) ∧
    (∀ (req : Request) (s : Str) (a : Nat), Writes s a → a < body.length →
      req.header "range".toList = "bytes=".toList ++ (s ++ ['-']) →
      ∃ resp, rangeResponse req body headers contentType = .ok (some resp) ∧
        SendsPart body a (body.length - 1) resp) ∧
    (∀ (req : Request) (s : Str) (n : Nat), Writes s n → 0 < n → 0 < body.length →
      req.header "range".toList = "bytes=".toList ++ '-' :: s →
      ∃ resp, rangeResponse req body headers contentType = .ok (some resp) ∧
        SendsPart body (body.length - min n body.length) (body.length - 1) resp) ∧
    ∀ (request : Nat × Nat → Request) (lengths : List Nat), body.length ≤ 10 ^ maxStrDigits →
      (∀ range : Nat × Nat, (request range).header "range".toList =
        "bytes=".toList ++ (decimal range.1 ++ '-' :: decimal range.2)) →
      (∀ n ∈ lengths, 0 < n) → lengths.sum = body.length →
      ∃ responses : List Response,
        (consecutive 0 lengths).mapM (fun range =>
          rangeResponse (request range) body headers contentType) = .ok (responses.map some) ∧
        (responses.map fun resp => resp.body).flatten = body := by
  refine ⟨fun req => ?_, fun _ _ _ _ _ => closed_delivers headers contentType,
    fun _ _ _ => open_delivers headers contentType, fun req s n hn hpos hne h => ?_,
    fun request lengths hshort hrequest hpos hsum => ?_⟩
  · rcases rangeResponse_cases req body headers contentType with h | h | h
    · exact .inl h
    · exact .inr (.inl ⟨_, h, rfl, Dict.get?_set_self _ _ _⟩)
    · exact .inr (.inr h)
  · have hmin : body.length - min n body.length = body.length - n := by omega
    rw [hmin]
    exact suffix_delivers headers contentType hn hpos hne h
  · have hzero : 0 + lengths.sum = body.length := by omega
    obtain ⟨responses, hresponses, hbodies⟩ :=
      consecutive_deliver headers contentType hshort hrequest hpos hzero
    rw [List.drop_zero] at hbodies
    exact ⟨responses, hresponses, hbodies⟩

/-- A request with this range. -/
def rangeRequest (value : Str) : Request :=
  { plainRequest "GET".toList with headers := (∅ : Headers).set "range".toList value }

theorem rangeRequest_header (value : Str) : (rangeRequest value).header "range".toList = value := by
  have hget := Dict.get?_set_self (∅ : Headers) "range".toList value
  exact congrArg (fun found => found.getD []) hget

/-- The requests for the places 1 to 9, for those from 1, and for the last two bytes of three bytes, and
the bytes in two pieces. -/
theorem rangeResponse_correct_three :
    (∃ resp, rangeResponse (rangeRequest "bytes=1-9".toList) [7, 8, 9] ∅ [] = .ok (some resp) ∧
      SendsPart [7, 8, 9] 1 2 resp) ∧
    (∃ resp, rangeResponse (rangeRequest "bytes=1-".toList) [7, 8, 9] ∅ [] = .ok (some resp) ∧
      SendsPart [7, 8, 9] 1 2 resp) ∧
    (∃ resp, rangeResponse (rangeRequest "bytes=-2".toList) [7, 8, 9] ∅ [] = .ok (some resp) ∧
      SendsPart [7, 8, 9] 1 2 resp) ∧
    ∃ responses : List Response,
      (consecutive 0 [1, 2]).mapM (fun range =>
        rangeResponse (rangeRequest ("bytes=".toList ++ (decimal range.1 ++ '-' :: decimal range.2)))
          [7, 8, 9] ∅ []) = .ok (responses.map some) ∧
      (responses.map fun resp => resp.body).flatten = [7, 8, 9] := by
  obtain ⟨-, hclosed, hopen, hsuffix, hdivision⟩ := rangeResponse_correct [7, 8, 9] ∅ []
  have hone : Writes "1".toList 1 := by decide
  refine ⟨?_, ?_, ?_, ?_⟩
  · exact hclosed _ "1".toList "9".toList 1 9 hone (by decide) (by decide) (by decide)
      (rangeRequest_header _)
  · exact hopen _ "1".toList 1 hone (by decide) (rangeRequest_header _)
  · exact hsuffix _ "2".toList 2 (by decide) (by decide) (by decide) (rangeRequest_header _)
  · have hshort : 3 ≤ 10 ^ maxStrDigits :=
      (by decide : 3 ≤ 10).trans (Nat.le_self_pow (by decide) 10)
    exact hdivision _ [1, 2] hshort (fun _ => rangeRequest_header _) (by decide) rfl

end Sovereign
