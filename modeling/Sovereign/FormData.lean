import Sovereign.MultipartLimits

namespace Sovereign.Multipart
set_option autoImplicit true

/-! What a form sends, and what of it is in the data that are returned. -/

/-- What a file that is returned says of the part that it came from. -/
def SentPart.ofFile (file : UploadedFile) : SentPart where
  name := file.name
  filename := some file.filename
  contentType := file.contentType
  content := file.file

/-- The parts of a body that are not empty. -/
def sentParts (req : Request) : List SentPart :=
  match searchBoundary (req.header "content-type".toList) with
  | none => []
  | some boundary => (nonEmptyParts boundary req.body.toBytes).filterMap readPart

def sentFields (sents : List SentPart) : List SentPart := sents.filter fun sent => !sent.isFile

def sentFiles (sents : List SentPart) : List SentPart := sents.filter SentPart.isFile

/-- All that was sent under a name is in the data. -/
structure NothingLost (sents : List SentPart) (data : MultipartData) : Prop where
  fields : ∀ name, ((data.fields.get? name).map utf8).toList =
    ((sentFields sents).filter fun sent => decide (sent.name = name)).map SentPart.content
  files : ∀ name, ((data.files.get? name).map SentPart.ofFile).toList =
    ((sentFiles sents).filter fun sent => decide (sent.name = name))

/-- No two fields have one name, nor do two files, and the values of the fields are texts. -/
structure Distinct (sents : List SentPart) : Prop where
  fields : ((sentFields sents).map SentPart.name).Nodup
  files : ((sentFiles sents).map SentPart.name).Nodup
  texts : ∀ sent ∈ sentFields sents, (decodeUtf8 sent.content).isSome

theorem filterMap_field (sents : List SentPart) :
    sents.filterMap SentPart.field? =
      (sentFields sents).map fun sent => (sent.name, decodeReplace sent.content) := by
  induction sents with
  | nil => rfl
  | cons sent sents ih =>
    rw [List.filterMap_cons, sentFields, List.filter_cons, SentPart.field?, SentPart.isFile, ih]
    cases sent.filename with
    | none => rfl
    | some filename => rfl

theorem filterMap_file (sents : List SentPart) :
    sents.filterMap SentPart.file? =
      (sentFiles sents).map fun sent => (sent.name, sent.upload (sent.filename.getD [])) := by
  induction sents with
  | nil => rfl
  | cons sent sents ih =>
    rw [List.filterMap_cons, sentFiles, List.filter_cons, SentPart.file?, SentPart.isFile, ih]
    cases hfilename : sent.filename with
    | none => rfl
    | some filename =>
      rw [Option.map_some, Option.isSome_some, if_pos rfl, List.map_cons, hfilename]
      rfl

/-- A part with a filename is found again in the file that is made of it. -/
theorem ofFile_upload (h : sent.isFile = true) :
    SentPart.ofFile (sent.upload (sent.filename.getD [])) = sent := by
  obtain ⟨name, filename, contentType, content⟩ := sent
  cases filename with
  | none => cases h
  | some filename => rfl

/-- A value can be encoded again just if it was UTF-8. -/
theorem utf8_decodeReplace (b : Bytes) :
    utf8 (decodeReplace b) = b ↔ (decodeUtf8 b).isSome = true := by
  constructor
  · intro h
    rw [← h, decodeUtf8_utf8]
    rfl
  · intro h
    obtain ⟨s, hs⟩ := Option.isSome_iff_exists.1 h
    rw [← utf8_of_decodeUtf8 hs, decodeReplace_utf8]

/-- What is sent with a part of a form. -/
def Part.sent : Part → SentPart
  | .field name text => ⟨name.val, none, "application/octet-stream".toList, utf8 text⟩
  | .file name filename contentType content =>
    ⟨name.val, some filename.val, Part.declared contentType, content⟩

/-- A part of a form is read as it was meant. -/
theorem readPart_encode (p : Part) : readPart p.encode = some p.sent := by
  have hbreak : Marker.breakOn headEnd p.encode =
      some (latin1 (Marker.joinPair '\r' '\n' p.lines), p.content) :=
    breakOn_blockText (lines_clean p) (lines_ne_nil p) p.content
  have hdisposition : parseContentDisposition
      (((partHeaders p).get? "content-disposition".toList).getD []) =
        ("form-data".toList, params p) := by
    rw [get?_disposition, Option.getD_some, parseContentDisposition_part]
  have hname : (parseContentDisposition (((partHeaders p).get?
      "content-disposition".toList).getD [])).2.get? "name".toList = some p.name.val := by
    rw [hdisposition, get?_name]
  obtain ⟨sent, hread, hsentName, hsentContent, hfilename, htype⟩ :=
    readPart_eq hbreak (parseHeaders_part p) (congrArg Prod.fst hdisposition) hname
  rw [hdisposition] at hfilename
  rw [hread]
  obtain ⟨name, filename, contentType, content⟩ := sent
  subst hsentName hsentContent
  cases p with
  | field name text =>
    have hne : "filename".toList ≠ "name".toList := by decide
    have hne' : "content-type".toList ≠ "content-disposition".toList := by decide
    have hnone : (params (.field name text)).get? "filename".toList = none :=
      Dict.get?_set_of_ne _ hne _
    have hdefault : (partHeaders (.field name text)).get? "content-type".toList = none :=
      Dict.get?_set_of_ne _ hne' _
    have hlower : lower "application/octet-stream".toList = "application/octet-stream".toList := by
      decide
    have hnoFile : filename = none := hfilename.trans hnone
    rw [hdefault, Option.getD_none, hlower] at htype
    rw [Part.sent, hnoFile]
    exact congrArg (fun t => some (SentPart.mk name.val none t (utf8 text))) htype
  | file name filename' contentType' content =>
    have hsome : (params (.file name filename' contentType' content)).get? "filename".toList =
        some filename'.val := Dict.get?_set_self _ _ _
    have hfile : filename = some filename'.val := hfilename.trans hsome
    rw [get?_contentType] at htype
    rw [Part.sent, hfile]
    exact congrArg (fun t => some (SentPart.mk name.val (some filename'.val) t content)) htype

theorem nonEmpty_framed (parts : List Part) :
    nonEmpty (parts.map framed ++ [dashes ++ crlf]) = parts.map Part.encode := by
  induction parts with
  | nil => exact nonEmpty_closed rfl []
  | cons p parts ih =>
    have hopen : dashes.isPrefixOf (framed p) = false := by
      rw [framed, crlf, dashes]
      rfl
    rw [List.map_cons, List.cons_append, nonEmpty_cons hopen, trimPart_framed,
      if_neg (encode_ne_nil p), ih, List.map_cons]

/-- The parts of a form are read as they were meant. -/
theorem sentParts_encode {boundary : Boundary} {parts : List Part} {req : Request}
    (hcontent : ∀ p ∈ parts, ¬ delimiter boundary.val <:+: p.content)
    (hctype : announces boundary (req.header "content-type".toList))
    (hbody : req.body.toBytes = encode boundary parts) : sentParts req = parts.map Part.sent := by
  rw [sentParts, (searchBoundary_announced boundary hctype).1]
  dsimp only
  rw [hbody, nonEmptyParts, splitAll_encode boundary parts hcontent, nonEmpty_framed,
    List.filterMap_map]
  have hread : readPart ∘ Part.encode = fun p => some p.sent := funext readPart_encode
  rw [hread, List.filterMap_eq_map']

end Sovereign.Multipart
