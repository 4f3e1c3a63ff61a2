import Sovereign.Multipart

namespace Sovereign.Multipart
set_option autoImplicit true

/-- The characters of simple texts. -/
def isSimple (c : Char) : Bool :=
  decide ('a' ≤ c ∧ c ≤ 'z' ∨ 'A' ≤ c ∧ c ≤ 'Z' ∨ '0' ≤ c ∧ c ≤ '9' ∨ c ∈ "_.+/-".toList)

/-- Names, file names and media types that need no quoting and have no two dashes in a row. -/
abbrev Simple := { s : Str // (∀ c ∈ s, isSimple c = true) ∧ contains "--".toList s = false }

abbrev Boundary := { b : Str // b ≠ [] ∧ b.length ≤ 200 ∧
  ∀ c ∈ b, c.toNat < 128 ∧ c ≠ '"' ∧ c ≠ ';' ∧ c ≠ '\r' ∧ c ≠ '\n' }

/-- A part of a form: a text field, or a file with the media type that is declared for it. -/
inductive Part where
  | field (name : Simple) (text : Str)
  | file (name filename : Simple) (contentType : Option Simple) (content : Bytes)

namespace Part

def name : Part → Simple
  | field name _ | file name _ _ _ => name

def isFile : Part → Bool
  | field _ _ => false
  | file _ _ _ _ => true

/-- A parameter in a header. -/
def param (k v : Str) : Str := k ++ '=' :: '"' :: (v ++ ['"'])

def disposition : Part → Str
  | field name _ => "form-data".toList ++ ';' :: ' ' :: param "name".toList name.val
  | file name filename _ _ => "form-data".toList ++ ';' :: ' ' :: (param "name".toList name.val ++
    ';' :: ' ' :: param "filename".toList filename.val)

def lines (p : Part) : List Str :=
  ("Content-Disposition".toList ++ ':' :: ' ' :: p.disposition) ::
    match p with
    | field _ _ | file _ _ none _ => []
    | file _ _ (some contentType) _ => ["Content-Type".toList ++ ':' :: ' ' :: contentType.val]

def content : Part → Bytes
  | field _ text => utf8 text
  | file _ _ _ content => content

/-- The headers and the content of a part. -/
def encode (p : Part) : Bytes := latin1 (blockText p.lines) ++ p.content

/-- The type that is declared for a file. -/
def declared (contentType : Option Simple) : Str :=
  lower ((contentType.map Subtype.val).getD "application/octet-stream".toList)

/-- What a part means: an entry of the fields or of the files. -/
def field? : Part → Option (Str × Str)
  | field name text => some (name.val, text)
  | file _ _ _ _ => none

def file? : Part → Option (Str × UploadedFile)
  | field _ _ => none
  | file name filename contentType content => some (name.val, ⟨name.val, filename.val,
    declared contentType, content.length, content, sniffMime (content.take 8)⟩)

/-- A file that is not too large and does not look like a dangerous type or another one than is
declared for it. -/
def Harmless (parser : MultipartParser) : Part → Prop
  | field _ _ => True
  | file _ _ contentType content => content.length ≤ parser.maxFileSize ∧
    ∀ sniffed ∈ sniffMime (content.take 8), sniffed ∉ dangerous ∧
      ¬ (mimeMismatch (declared contentType) sniffed ∧ parser.allowedMimeMismatch = false)

end Part

/-- The body of a form. -/
def encode (boundary : Boundary) (parts : List Part) : Bytes :=
  parts.flatMap (fun p => delimiter boundary.val ++ crlf ++ p.encode ++ crlf) ++
    delimiter boundary.val ++ dashes ++ crlf

/-- The two forms of the header that announces a boundary. -/
def announces (boundary : Boundary) (ctype : Str) : Prop :=
  ctype = "multipart/form-data; boundary=".toList ++ boundary.val ∨
    ctype = "multipart/form-data; boundary=".toList ++ '"' :: (boundary.val ++ ['"'])

open Multipart.Part

theorem simple_range {c : Char} (h : isSimple c = true) : 43 ≤ c.toNat ∧ c.toNat ≤ 122 ∧
    c.toNat ≠ 58 ∧ c.toNat ≠ 59 ∧ c.toNat ≠ 61 := by
  have hle : ∀ a b : Char, a ≤ b ↔ a.toNat ≤ b.toNat := fun a b => by
    rw [Char.le_def, UInt32.le_iff_toNat_le]
    rfl
  simp only [isSimple, decide_eq_true_eq, hle] at h
  rcases h with ⟨h₁, h₂⟩ | ⟨h₁, h₂⟩ | ⟨h₁, h₂⟩ | h
  · have h₃ : 97 ≤ c.toNat := h₁
    have h₄ : c.toNat ≤ 122 := h₂
    omega
  · have h₃ : 65 ≤ c.toNat := h₁
    have h₄ : c.toNat ≤ 90 := h₂
    omega
  · have h₃ : 48 ≤ c.toNat := h₁
    have h₄ : c.toNat ≤ 57 := h₂
    omega
  · have hall : ∀ d ∈ "_.+/-".toList, 43 ≤ d.toNat ∧ d.toNat ≤ 122 ∧ d.toNat ≠ 58 ∧
        d.toNat ≠ 59 ∧ d.toNat ≠ 61 := by decide
    exact hall c h

/-- What separates the pieces of a header does not stand in a simple text. -/
theorem not_mem_simple (s : Simple) (h : isSimple c = false) : c ∉ s.val := by
  intro hmem
  rw [s.property.1 c hmem] at h
  cases h

theorem simple_clean (s : Simple) : Clean s.val := by
  intro c hc
  obtain ⟨hlow, hhigh, -⟩ := simple_range (s.property.1 c hc)
  refine ⟨by omega, ?_, ?_⟩
  · rintro rfl
    revert hlow
    decide
  · rintro rfl
    revert hlow
    decide

theorem simple_isSpace {c : Char} (h : isSimple c = true) : isSpace c = false := by
  obtain ⟨hlow, hhigh, -⟩ := simple_range h
  rw [isSpace, decide_eq_false_iff_not]
  omega

theorem strStrip_simple (s : Simple) : strStrip s.val = s.val :=
  strip_eq_self fun c hc => simple_isSpace (s.property.1 c hc)

/-- The name of a parameter as it is read back. -/
structure Key (k : Str) : Prop where
  first : ∃ c rest, k = c :: rest ∧ isSpace c = false
  plain : '=' ∉ k ∧ ';' ∉ k
  lower : lower (strStrip k) = k

theorem key_name : Key "name".toList :=
  ⟨⟨'n', "ame".toList, by decide, by decide⟩, by decide, by decide +kernel⟩

theorem key_filename : Key "filename".toList :=
  ⟨⟨'f', "ilename".toList, by decide, by decide⟩, by decide, by decide +kernel⟩

/-- A parameter is read back. -/
theorem addParam_param (hk : Key k) (hv : '"' ∉ v) (params : Dict Str Str) :
    addParam params (param k v) = params.set k v := by
  have hsplit : splitFirst '=' (param k v) = some (k, '"' :: (v ++ ['"'])) :=
    splitFirst_append hk.plain.1 _
  have hquotes : strip (· = '"') ('"' :: (v ++ ['"'])) = v := by
    have hplain : ∀ c ∈ v, decide (c = '"') = false := by
      intro c hc
      rw [decide_eq_false_iff_not]
      rintro rfl
      exact hv hc
    have hquote : ∀ c ∈ ['"'], decide (c = '"') = true := by decide
    rw [strip_cons (by decide), strip_append hquote, strip_eq_self hplain]
  have hspace : strStrip ('"' :: (v ++ ['"'])) = '"' :: (v ++ ['"']) :=
    strip_ends rfl (by decide) (rfl : _ = ('"' :: v) ++ ['"']) (by decide)
  rw [addParam, hsplit]
  dsimp only
  rw [hspace, hquotes, hk.lower]

theorem param_last (k v : Str) : param k v = (k ++ '=' :: '"' :: v) ++ ['"'] := by
  rw [param, List.append_assoc]
  rfl

theorem strStrip_param (hk : Key k) (v : Str) : strStrip (' ' :: param k v) = param k v := by
  obtain ⟨c, rest, hfirst, hc⟩ := hk.first
  have hparam : param k v = c :: (rest ++ '=' :: '"' :: (v ++ ['"'])) := by
    rw [param, hfirst]
    rfl
  rw [strStrip, strip_cons (by decide)]
  exact strip_ends hparam hc (param_last k v) (by decide)

theorem not_mem_param (hk : Key k) (hv : ';' ∉ v) : ';' ∉ ' ' :: param k v := by
  have hne : ';' ≠ ' ' ∧ ';' ≠ '=' ∧ ';' ≠ '"' := by decide
  simp only [param, List.mem_append, List.mem_cons, List.not_mem_nil, or_false, not_or]
  exact ⟨hne.1, hk.plain.2, hne.2.1, hne.2.2, hv, hne.2.2⟩

theorem parseContentDisposition_cons {kind : Str} (h : ';' ∉ kind) (rest : Str) :
    parseContentDisposition (kind ++ ';' :: rest) =
      (lower (strStrip kind), ((rest.splitOn ';').map strStrip).foldl addParam ∅) := by
  rw [parseContentDisposition, List.splitOn_append_cons_self_of_not_mem h, List.map_cons]

theorem semicolon_form : ';' ∉ "form-data".toList := by decide

theorem strip_form : lower (strStrip "form-data".toList) = "form-data".toList := by decide +kernel

/-- A value that needs no escaping between quotes, and has no semicolon. -/
def PlainValue (v : Str) : Prop := '"' ∉ v ∧ ';' ∉ v

theorem plainValue_simple (s : Simple) : PlainValue s.val :=
  ⟨not_mem_simple s (by decide), not_mem_simple s (by decide)⟩

/-- One parameter at the end of a header. -/
theorem foldl_param (hk : Key k) (hv : PlainValue v) (acc : Dict Str Str) :
    (((' ' :: param k v).splitOn ';').map strStrip).foldl addParam acc = acc.set k v := by
  rw [List.splitOn_eq_singleton (not_mem_param hk hv.2), List.map_singleton, strStrip_param hk,
    List.foldl_cons, List.foldl_nil, addParam_param hk hv.1]

/-- A parameter with another one after it. -/
theorem foldl_param_cons (hk : Key k) (hv : PlainValue v) (acc : Dict Str Str) (rest : Str) :
    (((' ' :: (param k v ++ ';' :: rest)).splitOn ';').map strStrip).foldl addParam acc =
      ((rest.splitOn ';').map strStrip).foldl addParam (acc.set k v) := by
  rw [← List.cons_append, List.splitOn_append_cons_self_of_not_mem (not_mem_param hk hv.2),
    List.map_cons, strStrip_param hk, List.foldl_cons, addParam_param hk hv.1]

/-- The kind of a form's part, and a parameter after it. -/
theorem parseContentDisposition_field {name : Str} (hv : PlainValue name) :
    parseContentDisposition ("form-data".toList ++ ';' :: ' ' :: param "name".toList name) =
      ("form-data".toList, (∅ : Dict Str Str).set "name".toList name) := by
  have hparse := parseContentDisposition_cons semicolon_form (' ' :: param "name".toList name)
  rw [strip_form, foldl_param key_name hv ∅] at hparse
  exact hparse

theorem parseContentDisposition_file {name filename : Str} (hname : PlainValue name)
    (hfilename : PlainValue filename) :
    parseContentDisposition ("form-data".toList ++ ';' :: ' ' :: (param "name".toList name ++
      ';' :: ' ' :: param "filename".toList filename)) =
      ("form-data".toList,
        ((∅ : Dict Str Str).set "name".toList name).set "filename".toList filename) := by
  have hparse := parseContentDisposition_cons semicolon_form (' ' :: (param "name".toList name ++
    ';' :: ' ' :: param "filename".toList filename))
  rw [strip_form, foldl_param_cons key_name hname ∅ (' ' :: param "filename".toList filename),
    foldl_param key_filename hfilename] at hparse
  exact hparse

/-- The parameters of a part. -/
def params : Part → Dict Str Str
  | .field name _ => (∅ : Dict Str Str).set "name".toList name.val
  | .file name filename _ _ =>
    ((∅ : Dict Str Str).set "name".toList name.val).set "filename".toList filename.val

theorem parseContentDisposition_part (p : Part) :
    parseContentDisposition p.disposition = ("form-data".toList, params p) := by
  cases p with
  | field name text => exact parseContentDisposition_field (plainValue_simple name)
  | file name filename contentType content =>
    exact parseContentDisposition_file (plainValue_simple name) (plainValue_simple filename)

/-- A header line of a part is read back. -/
theorem addHeader_line {k v : Str} (hk : ':' ∉ k) (hclean : Clean k) (hv : Clean v)
    (hne : k ≠ []) (headers : Headers) :
    addHeader headers (k ++ ':' :: ' ' :: v) =
      .ok (headers.set (lower (strStrip k)) (strStrip v)) := by
  have hline : Clean (k ++ ':' :: ' ' :: v) := by
    intro c hc
    simp only [List.mem_append, List.mem_cons] at hc
    rcases hc with hc | rfl | rfl | hc
    · exact hclean c hc
    · decide
    · decide
    · exact hv c hc
  have hsplit : splitFirst ':' (k ++ ':' :: ' ' :: v) = some (k, ' ' :: v) := by
    have h := Marker.breakOn_first (m := []) (a := ' ' :: v) hk
    rw [List.append_assoc] at h
    exact h
  have hbreak : ¬ ('\r' ∈ k ++ ':' :: ' ' :: v ∨ '\n' ∈ k ++ ':' :: ' ' :: v) := by
    rintro (hmem | hmem)
    · exact (hline _ hmem).2.1 rfl
    · exact (hline _ hmem).2.2 rfl
  have hspace : strStrip (' ' :: v) = strStrip v := strip_cons (by decide) v
  rw [addHeader, if_neg (List.append_ne_nil_of_left_ne_nil hne _), if_neg hbreak, hsplit]
  dsimp only
  rw [hspace]

theorem param_clean (hk : Clean k) (s : Simple) : Clean (param k s.val) := by
  intro c hc
  simp only [param, List.mem_append, List.mem_cons, List.not_mem_nil, or_false] at hc
  rcases hc with hc | rfl | rfl | hc | rfl
  · exact hk c hc
  · decide
  · decide
  · exact simple_clean s c hc
  · decide

theorem disposition_clean (p : Part) : Clean p.disposition := by
  have hform : Clean "form-data".toList := by decide
  have hname : ∀ s : Simple, Clean (param "name".toList s.val) := param_clean (by decide)
  have hfilename : ∀ s : Simple, Clean (param "filename".toList s.val) := param_clean (by decide)
  have hblank : ∀ s, Clean s → Clean (';' :: ' ' :: s) := by
    rintro s hs c (_ | ⟨_, _ | ⟨_, hc⟩⟩)
    · decide
    · decide
    · exact hs c hc
  cases p with
  | field name text => exact clean_append hform (hblank _ (hname name))
  | file name filename contentType content =>
    exact clean_append hform (hblank _ (clean_append (hname name) (hblank _ (hfilename filename))))

theorem strStrip_disposition (p : Part) : strStrip p.disposition = p.disposition := by
  have hform : "form-data".toList = 'f' :: "orm-data".toList := by decide
  -- stated of any texts, so that the literals are not unfolded
  have hcons : ∀ k t : Str, k = 'f' :: "orm-data".toList → ∃ more, k ++ t = 'f' :: more := by
    rintro _ t rfl
    exact ⟨_, rfl⟩
  have hone : ∀ s k v : Str, ∃ init, s ++ ';' :: ' ' :: param k v = init ++ ['"'] := by
    intro s k v
    rw [param_last]
    exact ⟨s ++ ';' :: ' ' :: (k ++ '=' :: '"' :: v), (List.append_assoc s (';' :: ' ' :: (k ++ '=' :: '"' :: v)) ['"']).symm⟩
  have htwo : ∀ s t k v : Str, ∃ init,
      s ++ ';' :: ' ' :: (t ++ ';' :: ' ' :: param k v) = init ++ ['"'] := by
    intro s t k v
    obtain ⟨init, hinit⟩ := hone t k v
    rw [hinit]
    exact ⟨s ++ ';' :: ' ' :: init, (List.append_assoc s (';' :: ' ' :: init) ['"']).symm⟩
  have hends : ∃ rest init, p.disposition = 'f' :: rest ∧ p.disposition = init ++ ['"'] := by
    cases p with
    | field name text =>
      obtain ⟨rest, hrest⟩ := hcons _ (';' :: ' ' :: param "name".toList name.val) hform
      obtain ⟨init, hinit⟩ := hone "form-data".toList "name".toList name.val
      exact ⟨rest, init, hrest, hinit⟩
    | file name filename contentType content =>
      obtain ⟨rest, hrest⟩ := hcons _ (';' :: ' ' :: (param "name".toList name.val ++
        ';' :: ' ' :: param "filename".toList filename.val)) hform
      obtain ⟨init, hinit⟩ := htwo "form-data".toList (param "name".toList name.val)
        "filename".toList filename.val
      exact ⟨rest, init, hrest, hinit⟩
  obtain ⟨rest, init, hfirst, hlast⟩ := hends
  exact strip_ends hfirst (by decide) hlast (by decide)

/-- The headers of a part. -/
def partHeaders : Part → Headers
  | p@(.field _ _) | p@(.file _ _ none _) =>
    (∅ : Headers).set "content-disposition".toList p.disposition
  | p@(.file _ _ (some contentType) _) =>
    ((∅ : Headers).set "content-disposition".toList p.disposition).set "content-type".toList
      contentType.val

theorem foldlM_lines (p : Part) : p.lines.foldlM addHeader ∅ = .ok (partHeaders p) := by
  have hdisposition : addHeader ∅ ("Content-Disposition".toList ++ ':' :: ' ' :: p.disposition) =
      .ok ((∅ : Headers).set "content-disposition".toList p.disposition) := by
    have hkey : lower (strStrip "Content-Disposition".toList) = "content-disposition".toList := by
      decide +kernel
    have h := addHeader_line (k := "Content-Disposition".toList) (by decide) (by decide)
      (disposition_clean p) (by decide) ∅
    rw [hkey, strStrip_disposition] at h
    exact h
  have htype : ∀ (headers : Headers) (contentType : Simple),
      addHeader headers ("Content-Type".toList ++ ':' :: ' ' :: contentType.val) =
        .ok (headers.set "content-type".toList contentType.val) := by
    intro headers contentType
    have hkey : lower (strStrip "Content-Type".toList) = "content-type".toList := by decide +kernel
    have h := addHeader_line (k := "Content-Type".toList) (by decide) (by decide)
      (simple_clean contentType) (by decide) headers
    rw [hkey, strStrip_simple] at h
    exact h
  have hone : [("Content-Disposition".toList ++ ':' :: ' ' :: p.disposition)].foldlM addHeader ∅ =
      .ok ((∅ : Headers).set "content-disposition".toList p.disposition) := by
    rw [List.foldlM_cons, hdisposition]
    rfl
  have htwo : ∀ contentType : Simple,
      [("Content-Disposition".toList ++ ':' :: ' ' :: p.disposition),
        ("Content-Type".toList ++ ':' :: ' ' :: contentType.val)].foldlM addHeader ∅ =
      .ok (((∅ : Headers).set "content-disposition".toList p.disposition).set
        "content-type".toList contentType.val) := by
    intro contentType
    rw [List.foldlM_cons, hdisposition]
    exact (List.foldlM_cons (m := Except Exc)).trans (by rw [htype]; rfl)
  cases p with
  | field name text => exact hone
  | file name filename contentType content =>
    cases contentType with
    | none => exact hone
    | some contentType => exact htwo contentType

theorem headerLine_clean {k v : Str} (hk : Clean k) (hv : Clean v) :
    Clean (k ++ ':' :: ' ' :: v) ∧ k ++ ':' :: ' ' :: v ≠ [] := by
  refine ⟨fun c hc => ?_, List.append_ne_nil_of_right_ne_nil _ (List.cons_ne_nil _ _)⟩
  simp only [List.mem_append, List.mem_cons] at hc
  rcases hc with hc | rfl | rfl | hc
  · exact hk c hc
  · decide
  · decide
  · exact hv c hc

theorem lines_clean (p : Part) : ∀ line ∈ p.lines, Clean line ∧ line ≠ [] := by
  have hdisposition := headerLine_clean (k := "Content-Disposition".toList) (by decide)
    (disposition_clean p)
  have htype : ∀ contentType : Simple, _ := fun contentType =>
    headerLine_clean (k := "Content-Type".toList) (by decide) (simple_clean contentType)
  have hone : ∀ line ∈ [("Content-Disposition".toList ++ ':' :: ' ' :: p.disposition)],
      Clean line ∧ line ≠ [] := List.forall_mem_singleton.2 hdisposition
  cases p with
  | field name text => exact hone
  | file name filename contentType content =>
    cases contentType with
    | none => exact hone
    | some contentType =>
      exact List.forall_mem_cons.2 ⟨hdisposition, List.forall_mem_singleton.2 (htype contentType)⟩

theorem lines_ne_nil (p : Part) : p.lines ≠ [] := List.cons_ne_nil _ _

theorem parseHeaders_part (p : Part) :
    parseHeaders (latin1 (Marker.joinPair '\r' '\n' p.lines)) = .ok (partHeaders p) := by
  have hlatin : ∀ c ∈ Marker.joinPair '\r' '\n' p.lines, c.toNat < 256 := by
    intro c hc
    rcases mem_joinPair hc with rfl | rfl | ⟨line, hline, hc⟩
    · decide
    · decide
    · exact ((lines_clean p line hline).1 c hc).1
  have hplain : ∀ line ∈ p.lines, '\r' ∉ line := fun line hline hmem =>
    ((lines_clean p line hline).1 _ hmem).2.1 rfl
  rw [parseHeaders, decodeLatin1_latin1 hlatin,
    Marker.splitPair_joinPair hplain (lines_ne_nil p), foldlM_lines]

/-- What a part adds to the data that have been read. -/
def State.add (st : State) (p : Part) : State where
  fields := st.fields.update p.field?.toList
  files := st.files.update p.file?.toList
  fileCount := if p.isFile then st.fileCount + 1 else st.fileCount
  partCount := st.partCount + 1

theorem checkFile_harmless {parser : MultipartParser} {contentType : Str} {content : Bytes}
    (hsize : content.length ≤ parser.maxFileSize)
    (hsniff : ∀ sniffed ∈ sniffMime (content.take 8), sniffed ∉ dangerous ∧
      ¬ (mimeMismatch contentType sniffed ∧ parser.allowedMimeMismatch = false)) :
    checkFile parser contentType content = .ok (sniffMime (content.take 8)) := by
  rw [checkFile, if_neg (Nat.not_lt.2 hsize)]
  cases hsniffed : sniffMime (content.take 8) with
  | none => rfl
  | some sniffed =>
    obtain ⟨hdangerous, hmismatch⟩ := hsniff sniffed hsniffed
    dsimp only
    rw [if_neg hdangerous, if_neg hmismatch]

theorem get?_disposition (p : Part) :
    (partHeaders p).get? "content-disposition".toList = some p.disposition := by
  have hne : "content-disposition".toList ≠ "content-type".toList := by decide
  have hone : ((∅ : Headers).set "content-disposition".toList p.disposition).get?
      "content-disposition".toList = some p.disposition := Dict.get?_set_self _ _ _
  cases p with
  | field name text => exact hone
  | file name filename contentType content =>
    cases contentType with
    | none => exact hone
    | some contentType => exact (Dict.get?_set_of_ne _ hne _).trans hone

theorem get?_contentType (name filename : Simple) (contentType : Option Simple) (content : Bytes) :
    (partHeaders (.file name filename contentType content)).get? "content-type".toList =
      contentType.map Subtype.val := by
  have hne : "content-type".toList ≠ "content-disposition".toList := by decide
  cases contentType with
  | none => exact Dict.get?_set_of_ne _ hne _
  | some contentType => exact Dict.get?_set_self _ _ _

theorem get?_name (p : Part) : (params p).get? "name".toList = some p.name.val := by
  have hne : "name".toList ≠ "filename".toList := by decide
  have hone : ((∅ : Dict Str Str).set "name".toList p.name.val).get? "name".toList =
      some p.name.val := Dict.get?_set_self _ _ _
  cases p with
  | field name text => exact hone
  | file name filename contentType content => exact (Dict.get?_set_of_ne _ hne _).trans hone

/-- A part is read as what it means. -/
theorem addPart_encode {parser : MultipartParser} {p : Part} {st : State}
    (hparts : st.partCount + 1 ≤ parser.maxParts)
    (hfiles : p.isFile = true → st.fileCount + 1 ≤ parser.maxFiles)
    (hharmless : p.Harmless parser) : addPart parser st p.encode = .ok (st.add p) := by
  have hbreak : Marker.breakOn headEnd p.encode =
      some (latin1 (Marker.joinPair '\r' '\n' p.lines), p.content) :=
    breakOn_blockText (lines_clean p) (lines_ne_nil p) p.content
  have hform : ¬ ("form-data".toList ≠ "form-data".toList) := fun h => h rfl
  have hdisposition : parseContentDisposition
      (((partHeaders p).get? "content-disposition".toList).getD []) =
        ("form-data".toList, params p) := by
    rw [get?_disposition, Option.getD_some, parseContentDisposition_part]
  rw [addPart]
  dsimp only
  rw [if_neg (Nat.not_lt.2 hparts), hbreak]
  dsimp only
  rw [parseHeaders_part, ok_bind, hdisposition]
  dsimp only
  refine (if_neg hform).trans ?_
  -- the keys are literals, which `simp` tells apart without unfolding them
  cases p with
  | field name text =>
    have hne : "filename".toList ≠ "name".toList := by decide
    have hfilename : (params (.field name text)).get? "filename".toList = none :=
      Dict.get?_set_of_ne _ hne _
    simp only [get?_name, hfilename, Part.content, decodeReplace_utf8]
    rfl
  | file name filename contentType content =>
    obtain ⟨hsize, hsniff⟩ := hharmless
    have hfilename : (params (.file name filename contentType content)).get? "filename".toList =
        some filename.val := Dict.get?_set_self _ _ _
    have hcheck : checkFile parser (lower ((contentType.map Subtype.val).getD
        "application/octet-stream".toList)) content = .ok (sniffMime (content.take 8)) :=
      checkFile_harmless hsize hsniff
    simp only [get?_name, hfilename, get?_contentType, Part.content,
      if_neg (Nat.not_lt.2 (hfiles rfl)), hcheck, ok_bind]
    rfl

/-- A part between its line breaks, as the delimiters leave it. -/
def framed (p : Part) : Bytes := crlf ++ p.encode ++ crlf

theorem trimPart_framed (p : Part) : trimPart (framed p) = p.encode := by
  have hfront : crlf.isPrefixOf (framed p) = true :=
    List.isPrefixOf_iff_prefix.2 ((List.prefix_append crlf p.encode).trans (List.prefix_append _ _))
  have hdrop : (framed p).drop 2 = p.encode ++ crlf := rfl
  have hback : crlf.isSuffixOf (p.encode ++ crlf) = true :=
    List.isSuffixOf_iff_suffix.2 (List.suffix_append _ _)
  rw [trimPart, if_pos hfront, hdrop, if_pos hback, List.length_append]
  exact List.take_left

theorem encode_ne_nil (p : Part) : p.encode ≠ [] := by
  have hblock : latin1 (blockText p.lines) ≠ [] := by
    rw [blockText, latin1_append]
    exact List.append_ne_nil_of_right_ne_nil _ (by decide)
  exact List.append_ne_nil_of_left_ne_nil hblock _

/-- The parts of a form are read up to the closing delimiter. -/
theorem parseParts_framed {parser : MultipartParser} (parts : List Part) {st : State}
    (hparts : st.partCount + parts.length ≤ parser.maxParts)
    (hfiles : st.fileCount + parts.countP Part.isFile ≤ parser.maxFiles)
    (hharmless : ∀ p ∈ parts, p.Harmless parser) :
    parseParts parser (parts.map framed ++ [dashes ++ crlf]) st =
      .ok (parts.foldl State.add st) := by
  induction parts generalizing st with
  | nil => rfl
  | cons p parts ih =>
    have hnot : ¬ dashes.isPrefixOf (framed p) = true := by
      rw [framed, crlf, dashes]
      exact Bool.false_ne_true
    have hadd : addPart parser st p.encode = .ok (st.add p) := by
      refine addPart_encode ?_ (fun hfile => ?_) (hharmless p List.mem_cons_self)
      · rw [List.length_cons] at hparts
        omega
      · rw [List.countP_cons_of_pos hfile] at hfiles
        omega
    have hrest : parseParts parser (parts.map framed ++ [dashes ++ crlf]) (st.add p) =
        .ok (parts.foldl State.add (st.add p)) := by
      refine ih ?_ ?_ fun other hother => hharmless other (List.mem_cons_of_mem p hother)
      · rw [List.length_cons] at hparts
        rw [State.add]
        dsimp only
        omega
      · rw [State.add]
        dsimp only
        by_cases hfile : p.isFile = true
        · rw [List.countP_cons_of_pos hfile] at hfiles
          rw [if_pos hfile]
          omega
        · rw [List.countP_cons_of_neg hfile] at hfiles
          rw [if_neg hfile]
          exact hfiles
    rw [List.map_cons, List.cons_append, parseParts, if_neg hnot, trimPart_framed,
      if_neg (encode_ne_nil p), hadd, ok_bind, hrest]
    rfl

/-- What the loop has read in the end. -/
theorem foldl_add (parts : List Part) (st : State) :
    (parts.foldl State.add st).data =
      ⟨st.fields.update (parts.filterMap Part.field?),
        st.files.update (parts.filterMap Part.file?)⟩ := by
  induction parts generalizing st with
  | nil => rfl
  | cons p parts ih =>
    rw [List.foldl_cons, ih]
    cases p with
    | field name text => rfl
    | file name filename contentType content => rfl

section Delimiter

variable (boundary : Boundary)

theorem delimiter_cons (b : Str) : delimiter b = 45 :: 45 :: latin1 b := rfl

theorem delimiter_ne_nil (b : Str) : delimiter b ≠ [] := List.cons_ne_nil _ _

theorem boundary_clean : Clean boundary.val := fun c hc =>
  have hc := boundary.property.2.2 c hc
  ⟨by omega, hc.2.2.2⟩

theorem not_mem_delimiter : 13 ∉ delimiter boundary.val ∧ 10 ∉ delimiter boundary.val := by
  have hclean := boundary_clean boundary
  have hlatin : ∀ d ∈ boundary.val, d.toNat < 256 := fun d hd => (hclean d hd).1
  have hcr : 13 ∉ latin1 boundary.val := not_mem_latin1 hclean
  have hlf : 10 ∉ latin1 boundary.val := fun hmem =>
    (hclean '\n' ((mem_latin1 (c := '\n') (by decide) hlatin).1 hmem)).2.2 rfl
  have hne : (13 : UInt8) ≠ 45 ∧ (10 : UInt8) ≠ 45 := by decide
  rw [delimiter_cons, List.mem_cons, List.mem_cons, List.mem_cons, List.mem_cons, not_or, not_or,
    not_or, not_or]
  exact ⟨⟨hne.1, hne.1, hcr⟩, hne.2, hne.2, hlf⟩

/-- A text without two dashes in a row. -/
def NoDashes (s : Str) : Prop := ¬ "--".toList <:+: s

theorem NoDashes.append_cons {c : Char} {s t : Str} (hs : NoDashes s) (hc : c ≠ '-')
    (ht : NoDashes t) : NoDashes (s ++ c :: t) := by
  have hmem : c ∉ "--".toList := by
    have hall : ∀ d ∈ "--".toList, d = '-' := by decide
    exact fun hmem => hc (hall c hmem)
  intro hin
  rcases Marker.infix_append_cons hmem hin with hin | hin
  · exact hs hin
  · exact ht hin

theorem noDashes_nil : NoDashes [] := fun hin => absurd (List.infix_nil.1 hin) (by decide)

theorem noDashes_iff {s : Str} : contains "--".toList s = false ↔ NoDashes s := by
  rw [contains, Option.isSome_eq_false_iff, Option.isNone_iff_eq_none, Marker.breakOn_eq_none,
    NoDashes]

theorem noDashes_simple (s : Simple) : NoDashes s.val := noDashes_iff.1 s.property.2

theorem noDashes_param (hk : NoDashes k) (s : Simple) : NoDashes (param k s.val) :=
  hk.append_cons (by decide) (noDashes_nil.append_cons (by decide)
    ((noDashes_simple s).append_cons (by decide) noDashes_nil))

theorem noDashes_blank {c : Char} {s t : Str} (hs : NoDashes s) (hc : c ≠ '-') (ht : NoDashes t) :
    NoDashes (s ++ c :: ' ' :: t) :=
  hs.append_cons hc (noDashes_nil.append_cons (by decide) ht)

theorem noDashes_lines (p : Part) : ∀ line ∈ p.lines, NoDashes line := by
  have hform : NoDashes "form-data".toList := noDashes_iff.1 (by decide +kernel)
  have hname := noDashes_param (noDashes_iff.1 (by decide +kernel : contains "--".toList
    "name".toList = false))
  have hfilename := noDashes_param (noDashes_iff.1 (by decide +kernel : contains "--".toList
    "filename".toList = false))
  have hkey : NoDashes "Content-Disposition".toList := noDashes_iff.1 (by decide +kernel)
  have hkey' : NoDashes "Content-Type".toList := noDashes_iff.1 (by decide +kernel)
  have hdisposition : NoDashes p.disposition := by
    cases p with
    | field name text => exact noDashes_blank hform (by decide) (hname name)
    | file name filename contentType content =>
      exact noDashes_blank hform (by decide)
        (noDashes_blank (hname name) (by decide) (hfilename filename))
  have hone : ∀ line ∈ [("Content-Disposition".toList ++ ':' :: ' ' :: p.disposition)],
      NoDashes line := List.forall_mem_singleton.2 (noDashes_blank hkey (by decide) hdisposition)
  cases p with
  | field name text => exact hone
  | file name filename contentType content =>
    cases contentType with
    | none => exact hone
    | some contentType =>
      exact List.forall_mem_cons.2 ⟨noDashes_blank hkey (by decide) hdisposition,
        List.forall_mem_singleton.2 (noDashes_blank hkey' (by decide) (noDashes_simple contentType))⟩

/-- No delimiter begins in a part, up to its last line break. -/
theorem not_infix_framed {p : Part} (h : ¬ delimiter boundary.val <:+: p.content) :
    ¬ delimiter boundary.val <:+: crlf ++ p.encode ++ [13] := by
  obtain ⟨hcr, hlf⟩ := not_mem_delimiter boundary
  have hempty : ¬ delimiter boundary.val <:+: [] := fun hin =>
    delimiter_ne_nil _ (List.infix_nil.1 hin)
  have hlines : ¬ delimiter boundary.val <:+:
      Marker.joinPair 13 10 (p.lines.map latin1) := by
    refine Marker.not_infix_joinPair (delimiter_ne_nil _) hcr hlf fun l hl => ?_
    obtain ⟨line, hline, rfl⟩ := List.mem_map.1 hl
    have hclean := (lines_clean p line hline).1
    intro hin
    have hdashes : dashes <:+: latin1 line := (List.prefix_append _ _).isInfix.trans hin
    have hdecode := hdashes.map fun x : UInt8 => Char.ofNat x.toNat
    have htext : (latin1 line).map (fun x : UInt8 => Char.ofNat x.toNat) = line :=
      decodeLatin1_latin1 fun c hc => (hclean c hc).1
    rw [htext] at hdecode
    exact noDashes_lines p line hline hdecode
  have hencode : p.encode = Marker.joinPair 13 10 (p.lines.map latin1) ++
      13 :: 10 :: 13 :: 10 :: p.content := by
    have hend : latin1 "\r\n\r\n".toList = [13, 10, 13, 10] := by decide
    rw [Part.encode, blockText, latin1_append, latin1_joinPair, hend, List.append_assoc]
    rfl
  have hframe : crlf ++ p.encode ++ [13] = [] ++ 13 :: ([] ++ 10 ::
      (Marker.joinPair 13 10 (p.lines.map latin1) ++ 13 :: ([] ++ 10 :: ([] ++ 13 :: ([] ++ 10 ::
        (p.content ++ 13 :: [])))))) := by
    rw [hencode, crlf]
    simp only [List.cons_append, List.nil_append, List.append_assoc]
  rw [hframe]
  intro hin
  rcases Marker.infix_append_cons hcr hin with hin | hin
  · exact hempty hin
  rcases Marker.infix_append_cons hlf hin with hin | hin
  · exact hempty hin
  rcases Marker.infix_append_cons hcr hin with hin | hin
  · exact hlines hin
  rcases Marker.infix_append_cons hlf hin with hin | hin
  · exact hempty hin
  rcases Marker.infix_append_cons hcr hin with hin | hin
  · exact hempty hin
  rcases Marker.infix_append_cons hlf hin with hin | hin
  · exact hempty hin
  rcases Marker.infix_append_cons hcr hin with hin | hin
  · exact h hin
  · exact hempty hin

/-- What follows a delimiter. -/
def tailOf (parts : List Part) : Bytes :=
  parts.foldr (fun p rest => framed p ++ delimiter boundary.val ++ rest) (dashes ++ crlf)

theorem encode_eq (parts : List Part) :
    encode boundary parts = delimiter boundary.val ++ tailOf boundary parts := by
  induction parts with
  | nil => rw [encode, List.flatMap_nil, List.nil_append, List.append_assoc]; rfl
  | cons p parts ih =>
    have hcons : encode boundary (p :: parts) =
        delimiter boundary.val ++ framed p ++ encode boundary parts := by
      simp only [encode, List.flatMap_cons, framed, List.append_assoc]
    have htail : tailOf boundary (p :: parts) =
        framed p ++ delimiter boundary.val ++ tailOf boundary parts := rfl
    rw [hcons, ih, htail]
    simp only [List.append_assoc]

/-- The delimiters divide a body into its parts. -/
theorem splitAll_tail (parts : List Part)
    (h : ∀ p ∈ parts, ¬ delimiter boundary.val <:+: p.content) :
    Marker.splitAll (delimiter boundary.val) 0 (tailOf boundary parts) =
      parts.map framed ++ [dashes ++ crlf] := by
  obtain ⟨hcr, hlf⟩ := not_mem_delimiter boundary
  induction parts with
  | nil =>
    have hlength : 2 < (delimiter boundary.val).length := by
      have hpos := List.length_pos_iff.2 boundary.property.1
      rw [delimiter_cons, List.length_cons, List.length_cons, latin1_length]
      omega
    refine Marker.splitAll_single fun hin => ?_
    rcases Marker.infix_append_cons (b := dashes) (r := [10]) hcr hin with hin | hin
    · exact Nat.not_le.2 hlength hin.length_le
    · exact Nat.not_le.2 hlength (hin.length_le.trans (by decide))
  | cons p parts ih =>
    have hrest := ih fun other hother => h other (List.mem_cons_of_mem p hother)
    have htail : tailOf boundary (p :: parts) = (crlf ++ p.encode ++ [13]) ++
        10 :: (delimiter boundary.val ++ tailOf boundary parts) := by
      have hcons : tailOf boundary (p :: parts) =
        framed p ++ delimiter boundary.val ++ tailOf boundary parts := rfl
      rw [hcons, framed]
      simp only [crlf, List.append_assoc, List.cons_append, List.nil_append]
    have hbreak := Marker.breakOn_after (delimiter_ne_nil boundary.val) hlf
      (not_infix_framed boundary (h p List.mem_cons_self)) (tailOf boundary parts)
    rw [htail, Marker.splitAll_of_breakOn (delimiter_ne_nil _) hbreak, hrest, List.map_cons,
      List.cons_append, framed]
    simp only [crlf, List.append_assoc, List.cons_append, List.nil_append]

theorem breakOn_encode (parts : List Part) :
    Marker.breakOn (delimiter boundary.val) (encode boundary parts) =
      some ([], tailOf boundary parts) := by
  rw [encode_eq, Marker.breakOn_start (List.prefix_append _ _), List.drop_left]

/-- The pieces between the delimiters of a form. -/
theorem splitAll_encode (parts : List Part)
    (h : ∀ p ∈ parts, ¬ delimiter boundary.val <:+: p.content) :
    (Marker.splitAll (delimiter boundary.val) 0 (encode boundary parts)).drop 1 =
      parts.map framed ++ [dashes ++ crlf] := by
  rw [Marker.splitAll_of_breakOn (delimiter_ne_nil _) (breakOn_encode boundary parts),
    List.drop_one, List.tail_cons, splitAll_tail boundary parts h]

/-- No match begins before the first `b`. -/
theorem searchBoundary_append {before : Str} (h : 'b' ∉ before) (s : Str) :
    searchBoundary (before ++ s) = searchBoundary s := by
  induction before with
  | nil => rfl
  | cons c before ih =>
    rw [List.mem_cons, not_or] at h
    have hstart : startsWith "boundary=".toList (c :: (before ++ s)) = false := by
      rw [startsWith, Bool.eq_false_iff]
      intro hstarts
      obtain ⟨more, hmore⟩ := List.isPrefixOf_iff_prefix.1 hstarts
      exact h.1 (List.cons.inj hmore).1
    rw [List.cons_append, searchBoundary, matchBoundary, if_pos hstart, Option.none_or, ih h.2]

theorem searchBoundary_start {s text : Str}
    (h : matchBoundary ("boundary=".toList ++ s) = some text) :
    searchBoundary ("boundary=".toList ++ s) = some text := by
  have hcons : "boundary=".toList ++ s = 'b' :: ("oundary=".toList ++ s) := rfl
  rw [hcons] at h ⊢
  rw [searchBoundary, h, Option.some_or]

theorem takeWhile_boundary :
    boundary.val.takeWhile (fun c => c ≠ '"' ∧ c ≠ ';') = boundary.val ∧
      (boundary.val ++ ['"']).takeWhile (fun c => c ≠ '"' ∧ c ≠ ';') = boundary.val := by
  have hall : ∀ c ∈ boundary.val, decide (c ≠ '"' ∧ c ≠ ';') = true := fun c hc =>
    have hc := boundary.property.2.2 c hc
    decide_eq_true ⟨hc.2.1, hc.2.2.1⟩
  refine ⟨List.takeWhile_eq_self_iff.2 hall, ?_⟩
  rw [List.takeWhile_append_of_pos hall]
  exact List.append_nil _

theorem matchBoundary_announced :
    matchBoundary ("boundary=".toList ++ boundary.val) = some boundary.val ∧
      matchBoundary ("boundary=".toList ++ '"' :: (boundary.val ++ ['"'])) =
        some boundary.val := by
  obtain ⟨hplain, hquoted⟩ := takeWhile_boundary boundary
  have hne := boundary.property.1
  have hstart : ∀ s, startsWith "boundary=".toList ("boundary=".toList ++ s) = true := fun s =>
    List.isPrefixOf_iff_prefix.2 (List.prefix_append _ _)
  have hnot : ∀ s, ¬ startsWith "boundary=".toList ("boundary=".toList ++ s) = false := by
    intro s h
    rw [hstart] at h
    cases h
  have hdrop : ∀ s, ("boundary=".toList ++ s).drop 9 = s := fun s => List.drop_left' (by decide)
  constructor
  · have hquote : startsWith ['"'] boundary.val = false := by
      rw [startsWith, Bool.eq_false_iff]
      intro hstarts
      obtain ⟨more, hmore⟩ := List.isPrefixOf_iff_prefix.1 hstarts
      have hmem : '"' ∈ boundary.val := by
        rw [← hmore]
        exact List.mem_cons_self
      exact (boundary.property.2.2 _ hmem).2.1 rfl
    rw [matchBoundary, if_neg (hnot _), hdrop]
    dsimp only
    rw [hquote, if_neg Bool.false_ne_true, hplain, if_neg]
    rintro (hnil | ⟨hfalse, -⟩)
    · exact hne hnil
    · cases hfalse
  · have hquote : startsWith ['"'] ('"' :: (boundary.val ++ ['"'])) = true := rfl
    rw [matchBoundary, if_neg (hnot _), hdrop]
    dsimp only
    rw [hquote, if_pos rfl, List.drop_one, List.tail_cons, hquoted, List.drop_left, if_neg]
    rintro (hnil | ⟨-, hend⟩)
    · exact hne hnil
    · revert hend
      decide

theorem searchBoundary_announced {ctype : Str} (h : announces boundary ctype) :
    searchBoundary ctype = some boundary.val ∧
      contains "multipart/form-data".toList ctype = true := by
  have hsplit : "multipart/form-data; boundary=".toList =
      "multipart/form-data".toList ++ ("; ".toList ++ "boundary=".toList) := by decide
  have hskip : 'b' ∉ "multipart/form-data".toList ∧ 'b' ∉ "; ".toList := by decide
  have hsearch : ∀ s text, matchBoundary ("boundary=".toList ++ s) = some text →
      searchBoundary ("multipart/form-data; boundary=".toList ++ s) = some text := by
    intro s text hmatch
    rw [hsplit, List.append_assoc, List.append_assoc, searchBoundary_append hskip.1,
      searchBoundary_append hskip.2, searchBoundary_start hmatch]
  have hcontains : ∀ s, contains "multipart/form-data".toList
      ("multipart/form-data; boundary=".toList ++ s) = true := by
    intro s
    rw [contains, Marker.breakOn_isSome, hsplit, List.append_assoc]
    exact (List.prefix_append _ _).isInfix
  obtain ⟨hplain, hquoted⟩ := matchBoundary_announced boundary
  rcases h with rfl | rfl
  · exact ⟨hsearch _ _ hplain, hcontains _⟩
  · exact ⟨hsearch _ _ hquoted, hcontains _⟩

end Delimiter

theorem field?_name (p : Part) (entry : Str × Str) (h : p.field? = some entry) :
    entry.1 = p.name.val := by
  cases p with
  | field name text =>
    cases h
    rfl
  | file name filename contentType content => cases h

theorem file?_name (p : Part) (entry : Str × UploadedFile) (h : p.file? = some entry) :
    entry.1 = p.name.val := by
  cases p with
  | field name text => cases h
  | file name filename contentType content =>
    cases h
    rfl

/-- The names of entries that some of the parts have are the names of these parts. -/
theorem nodup_entries {f : Part → Option (Str × β)}
    (hf : ∀ p entry, f p = some entry → entry.1 = p.name.val) {parts : List Part}
    (h : (parts.map fun p => p.name.val).Nodup) :
    ((parts.filterMap f).map Prod.fst).Nodup := by
  have hsub : ((parts.filterMap f).map Prod.fst).Sublist (parts.map fun p => p.name.val) := by
    clear h
    induction parts with
    | nil => exact List.Sublist.refl _
    | cons p parts ih =>
      rw [List.map_cons]
      cases hentry : f p with
      | none =>
        rw [List.filterMap_cons_none hentry]
        exact ih.cons _
      | some entry =>
        rw [List.filterMap_cons_some hentry, List.map_cons, hf p entry hentry]
        exact ih.cons_cons _
  exact h.sublist hsub

/-- A request with this form in it. -/
def formRequest (boundary : Boundary) (parts : List Part) : Request :=
  { plainRequest "POST".toList with
    headers := (∅ : Headers).set "content-type".toList
      ("multipart/form-data; boundary=".toList ++ boundary.val)
    body := .bytes (encode boundary parts) }

def shortBoundary : Boundary := ⟨"b".toList, by decide⟩

def simpleName : Simple := ⟨"a".toList, by decide +kernel⟩

def simpleName' : Simple := ⟨"a.png".toList, by decide +kernel⟩

/-- A form whose contents have no delimiter in them is read as what it is. -/
theorem parse_encode (parser : MultipartParser) (boundary : Boundary) (parts : List Part)
    (hnames : (parts.map fun p => p.name.val).Nodup) (hparts : parts.length ≤ parser.maxParts)
    (hfiles : parts.countP Part.isFile ≤ parser.maxFiles)
    (hharmless : ∀ p ∈ parts, p.Harmless parser)
    (hcontent : ∀ p ∈ parts, ¬ delimiter boundary.val <:+: p.content) {req : Request}
    (hctype : announces boundary (req.header "content-type".toList))
    (hbody : req.body.toBytes = encode boundary parts) :
    ∃ data, parse parser req = .ok data ∧
      data.fields.entries = parts.filterMap Part.field? ∧
      data.files.entries = parts.filterMap Part.file? := by
  obtain ⟨hsearch, hmultipart⟩ := searchBoundary_announced boundary hctype
  obtain ⟨hne, hlength, hchars⟩ := boundary.property
  have hascii : ¬ boundary.val.all isAscii = false := by
    have hall : boundary.val.all isAscii = true :=
      List.all_eq_true.2 fun c hc => decide_eq_true (hchars c hc).1
    rw [hall]
    exact Bool.noConfusion
  have hvalid : ¬ (boundary.val = [] ∨ 200 < boundary.val.length ∨ '\r' ∈ boundary.val ∨
      '\n' ∈ boundary.val) := by
    rintro (h | h | h | h)
    · exact hne h
    · exact Nat.not_lt.2 hlength h
    · exact (hchars _ h).2.2.2.1 rfl
    · exact (hchars _ h).2.2.2.2 rfl
  have hloop : parseParts parser (parts.map framed ++ [dashes ++ crlf]) {} =
      .ok (parts.foldl State.add {}) :=
    parseParts_framed parts ((Nat.zero_add _).le.trans hparts) ((Nat.zero_add _).le.trans hfiles)
      hharmless
  have hform : ¬ true = false := Bool.noConfusion
  have hparse : parse parser req = .ok (parts.foldl State.add {}).data := by
    rw [parse]
    dsimp only
    rw [hsearch]
    dsimp only
    rw [hmultipart, if_neg hform, if_neg hascii, if_neg hvalid, hbody,
      breakOn_encode, splitAll_encode boundary parts hcontent, hloop]
    rfl
  refine ⟨_, hparse, ?_, ?_⟩
  · rw [foldl_add]
    exact Dict.entries_update (nodup_entries field?_name hnames)
  · rw [foldl_add]
    exact Dict.entries_update (nodup_entries file?_name hnames)

theorem parse_encode_form :
    ∃ data, parse {} (formRequest shortBoundary [.field simpleName "x\r\n".toList,
        .file simpleName' simpleName' none [45, 45]]) = .ok data ∧
      data.fields.entries = [("a".toList, "x\r\n".toList)] ∧
      data.files.entries = [("a.png".toList,
        ⟨"a.png".toList, "a.png".toList, "application/octet-stream".toList, 2, [45, 45], none⟩)] :=
  parse_encode {} shortBoundary [.field simpleName "x\r\n".toList,
    .file simpleName' simpleName' none [45, 45]] (by decide) (by decide) (by decide)
    (by
      intro p hp
      simp only [List.mem_cons, List.not_mem_nil, or_false] at hp
      rcases hp with rfl | rfl
      · trivial
      · exact ⟨by decide, by decide +kernel⟩)
    (by
      intro p hp
      simp only [List.mem_cons, List.not_mem_nil, or_false] at hp
      rcases hp with rfl | rfl
      · exact Marker.breakOn_eq_none.1 (by decide +kernel)
      · exact Marker.breakOn_eq_none.1 (by decide +kernel))
    (.inl (by decide +kernel)) rfl

/-- A delimiter in the middle of a line divides a content, and one file can be too many. -/
theorem form_not_parsed :
    Marker.breakOn (crlf ++ delimiter shortBoundary.val) (utf8 "x--by".toList) = none ∧
      parse {} (formRequest shortBoundary [.field simpleName "x--by".toList]) =
        .error (.httpError 400 "Malformed multipart part") ∧
      parse { maxFiles := 1 } (formRequest shortBoundary [.file simpleName simpleName none [],
          .file simpleName' simpleName' none []]) =
        .error (.httpError 413 "Too many uploaded files") := by
  refine ⟨?_, ?_, ?_⟩
  · decide +kernel
  · decide +kernel
  · decide +kernel

end Sovereign.Multipart
