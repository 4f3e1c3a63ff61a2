import Sovereign.MultipartRoundTrip
import Sovereign.Lib.Traverse

namespace Sovereign.Multipart
set_option autoImplicit true

/-- What a part says of itself, and holds. -/
structure SentPart where
  name : Str
  filename : Option Str
  contentType : Str
  content : Bytes

/-- A part as its headers describe it. -/
def readPart (part : Bytes) : Option SentPart :=
  match Marker.breakOn headEnd part with
  | none => none
  | some (headerBlock, content) =>
    match parseHeaders headerBlock with
    | .error _ => none
    | .ok headers =>
      let (disp, params) :=
        parseContentDisposition ((headers.get? "content-disposition".toList).getD [])
      if disp = "form-data".toList then
        (params.get? "name".toList).map fun name =>
          { name, content
            filename := params.get? "filename".toList
            contentType := lower ((headers.get? "content-type".toList).getD
              "application/octet-stream".toList) }
      else none

def SentPart.isFile (sent : SentPart) : Bool := sent.filename.isSome

/-- What the parser makes of a part with a filename. -/
def SentPart.upload (sent : SentPart) (filename : Str) : UploadedFile where
  name := sent.name
  filename := filename
  contentType := sent.contentType
  size := sent.content.length
  file := sent.content
  sniffedType := sniffMime (sent.content.take 8)

def SentPart.field? (sent : SentPart) : Option (Str × Str) :=
  if sent.filename = none then some (sent.name, decodeReplace sent.content) else none

def SentPart.file? (sent : SentPart) : Option (Str × UploadedFile) :=
  sent.filename.map fun filename => (sent.name, sent.upload filename)

/-- The local variables after a part that is kept. -/
def State.record (st : State) (sent : SentPart) : State where
  fields := st.fields.update sent.field?.toList
  files := st.files.update sent.file?.toList
  fileCount := st.fileCount + if sent.isFile then 1 else 0
  partCount := st.partCount + 1

/-- The pieces of a body before the closing delimiter that are not empty. -/
def nonEmpty (pieces : List Bytes) : List Bytes :=
  ((pieces.takeWhile fun piece => !dashes.isPrefixOf piece).map trimPart).filter fun part =>
    decide (part ≠ [])

/-- The parts of a body before the closing delimiter that are not empty. -/
def nonEmptyParts (boundary : Str) (raw : Bytes) : List Bytes :=
  nonEmpty ((Marker.splitAll (delimiter boundary) 0 raw).drop 1)

def hasFilename (part : Bytes) : Bool := (readPart part).any SentPart.isFile

/-- The beginnings of contents that `sniff_mime` knows. -/
def signatures : List (Bytes × Str) :=
  magic ++ [(ascii "<?xml", "application/xml".toList), (ascii "<svg", "application/xml".toList)]

def Recognised (content : Bytes) (mime : Str) : Prop :=
  ∃ e ∈ signatures, e.1 <+: content ∧ e.2 = mime

theorem sniffMime_eq (head : Bytes) :
    sniffMime head = (signatures.find? fun e => e.1.isPrefixOf head).map Prod.snd := by
  rw [sniffMime, signatures, List.find?_append]
  cases magic.find? fun e => e.1.isPrefixOf head with
  | some e => rfl
  | none =>
    rw [Option.none_or, List.find?_cons, List.find?_cons, List.find?_nil]
    cases (ascii "<?xml").isPrefixOf head <;> cases (ascii "<svg").isPrefixOf head <;> rfl

/-- No two signatures of different types begin the same content. -/
theorem signatures_distinct : ∀ e ∈ signatures, ∀ e' ∈ signatures,
    e.1.isPrefixOf e'.1 = true → e.2 = e'.2 := by decide +kernel

theorem length_signature : ∀ e ∈ signatures, e.1.length ≤ 8 := by decide +kernel

/-- Eight bytes are enough to recognise a content. -/
theorem sniffMime_of_recognised (h : Recognised content mime) :
    sniffMime (content.take 8) = some mime := by
  obtain ⟨e, he, hbegins, rfl⟩ := h
  have hhead : e.1 <+: content.take 8 :=
    List.prefix_take_iff.2 ⟨hbegins, length_signature e he⟩
  rw [sniffMime_eq]
  cases hfind : signatures.find? fun e => e.1.isPrefixOf (content.take 8) with
  | none =>
    have hno := List.find?_eq_none.1 hfind e he
    exact absurd (List.isPrefixOf_iff_prefix.2 hhead) hno
  | some e' =>
    have hmem := List.mem_of_find?_eq_some hfind
    have hfound : e'.1.isPrefixOf (content.take 8) = true :=
      List.find?_some (p := fun e : Bytes × Str => e.1.isPrefixOf (content.take 8)) hfind
    have hbegins' := List.isPrefixOf_iff_prefix.1 hfound
    rw [Option.map_some, Option.some.injEq]
    rcases List.prefix_or_prefix_of_prefix hbegins' hhead with hle | hle
    · exact signatures_distinct e' hmem e he (List.isPrefixOf_iff_prefix.2 hle)
    · exact (signatures_distinct e he e' hmem (List.isPrefixOf_iff_prefix.2 hle)).symm

/-- The declared types that are compared with the content. -/
def Compared (contentType : Str) : Prop :=
  "image/".toList <+: contentType ∨ "application/pdf".toList <+: contentType ∨
    "application/zip".toList <+: contentType

/-- A file that the filter lets through. -/
structure PassesFilter (parser : MultipartParser) (file : UploadedFile) : Prop where
  size_eq : file.size = file.file.length
  size_le : file.size ≤ parser.maxFileSize
  not_executable : ¬ ascii "MZ" <+: file.file
  not_script : ¬ ascii "#!" <+: file.file
  declared : parser.allowedMimeMismatch = false → Compared file.contentType →
    ∀ mime, Recognised file.file mime → mime = file.contentType

section

variable {parser : MultipartParser}

theorem checkFile_ok {contentType : Str} {content : Bytes}
    (h : checkFile parser contentType content = .ok sniffed) :
    sniffed = sniffMime (content.take 8) ∧ content.length ≤ parser.maxFileSize ∧
      ∀ mime, sniffed = some mime → mime ∉ dangerous ∧
        ¬ (mimeMismatch contentType mime ∧ parser.allowedMimeMismatch = false) := by
  rw [checkFile] at h
  split at h
  · cases h
  · next hsize =>
    refine ⟨?_, Nat.not_lt.1 hsize, fun mime hmime => ?_⟩
    · split at h
      · next hnone => cases h; exact hnone.symm
      · next mime hsome =>
        split at h
        · cases h
        · split at h
          · cases h
          · cases h; exact hsome.symm
    · subst hmime
      split at h
      · cases h
      · split at h
        · cases h
        · next hdangerous =>
          split at h
          · cases h
          · next hmatch => cases h; exact ⟨hdangerous, hmatch⟩

theorem passesFilter_upload (sent : SentPart) (filename : Str)
    (h : checkFile parser sent.contentType sent.content = .ok sniffed) :
    PassesFilter parser (sent.upload filename) := by
  obtain ⟨rfl, hsize, hsniffed⟩ := checkFile_ok h
  have hharmless : ∀ mime, Recognised sent.content mime → mime ∉ dangerous :=
    fun mime hmime => (hsniffed mime (sniffMime_of_recognised hmime)).1
  refine ⟨rfl, hsize, fun hmagic => ?_, fun hmagic => ?_, fun hallowed hcompared mime hmime => ?_⟩
  · exact hharmless _ ⟨(ascii "MZ", "application/vnd.microsoft.portable-executable".toList),
      by decide +kernel, hmagic, rfl⟩ (by decide)
  · exact hharmless _ ⟨(ascii "#!", "text/x-shellscript".toList), by decide +kernel, hmagic, rfl⟩
      (by decide)
  · by_contra hne
    have hmismatch : mimeMismatch sent.contentType mime := by
      refine ⟨?_, hne⟩
      simp only [List.isPrefixOf_iff_prefix]
      exact hcompared
    exact (hsniffed mime (sniffMime_of_recognised hmime)).2 ⟨hmismatch, hallowed⟩

theorem record_field (h : sent.filename = none) (st : State) :
    st.record sent = { st with
      partCount := st.partCount + 1
      fields := st.fields.set sent.name (decodeReplace sent.content) } := by
  rw [State.record, SentPart.field?, SentPart.file?, SentPart.isFile, if_pos h, h]
  rfl

theorem record_file (h : sent.filename = some filename) (st : State) :
    st.record sent = { st with
      partCount := st.partCount + 1
      fileCount := st.fileCount + 1
      files := st.files.set sent.name (sent.upload filename) } := by
  have hne : ¬ sent.filename = none := by
    rw [h]
    exact Option.some_ne_none filename
  rw [State.record, SentPart.field?, SentPart.file?, SentPart.isFile, if_neg hne, h]
  rfl

theorem readPart_eq {headers : Headers}
    (hbreak : Marker.breakOn headEnd part = some (block, content))
    (hheaders : parseHeaders block = .ok headers)
    (hdisp : (parseContentDisposition
      ((headers.get? "content-disposition".toList).getD [])).1 = "form-data".toList)
    (hname : (parseContentDisposition
      ((headers.get? "content-disposition".toList).getD [])).2.get? "name".toList = some name) :
    ∃ sent, readPart part = some sent ∧ sent.name = name ∧ sent.content = content ∧
      sent.filename = (parseContentDisposition
        ((headers.get? "content-disposition".toList).getD [])).2.get? "filename".toList ∧
      sent.contentType = lower ((headers.get? "content-type".toList).getD
        "application/octet-stream".toList) := by
  refine ⟨⟨name, _, _, content⟩, ?_, rfl, rfl, rfl, rfl⟩
  rw [readPart, hbreak]
  dsimp only
  rw [hheaders]
  dsimp only
  rw [if_pos hdisp, hname]
  rfl

/-- What one turn of the loop does with a part that is not empty. -/
theorem addPart_ok (h : addPart parser st part = .ok st') :
    ∃ sent, readPart part = some sent ∧ st' = st.record sent ∧ st'.partCount ≤ parser.maxParts ∧
      ∀ filename, sent.filename = some filename →
        st'.fileCount ≤ parser.maxFiles ∧ PassesFilter parser (sent.upload filename) := by
  rw [addPart] at h
  dsimp only at h
  split at h
  · cases h
  · next hparts =>
    split at h
    · cases h
    · next headerBlock content hbreak =>
      obtain ⟨headers, hheaders, h⟩ := except_bind_eq_ok.1 h
      split at h
      · cases h
      · next hdisp =>
        rw [ne_eq, not_not] at hdisp
        split at h
        · cases h
        · next name hname =>
          obtain ⟨sent, hread, rfl, rfl, hsent, htype⟩ := readPart_eq hbreak hheaders hdisp hname
          refine ⟨sent, hread, ?_⟩
          split at h
          · next hfilename =>
            have hfield : sent.filename = none := hsent.trans hfilename
            cases h
            rw [record_field hfield]
            refine ⟨rfl, Nat.not_lt.1 hparts, fun filename hsome => ?_⟩
            rw [hfield] at hsome
            cases hsome
          · next filename hfilename =>
            have hfile : sent.filename = some filename := hsent.trans hfilename
            split at h
            · cases h
            · next hfiles =>
              obtain ⟨sniffed, hcheck, h⟩ := except_bind_eq_ok.1 h
              rw [← htype] at hcheck h
              have hsniffed := (checkFile_ok hcheck).1
              cases h
              rw [record_file hfile, SentPart.upload, ← hsniffed]
              refine ⟨rfl, Nat.not_lt.1 hparts, fun filename' hsome => ⟨Nat.not_lt.1 hfiles, ?_⟩⟩
              exact passesFilter_upload sent filename' hcheck

theorem nonEmpty_cons {piece : Bytes} (h : dashes.isPrefixOf piece = false) (pieces : List Bytes) :
    nonEmpty (piece :: pieces) =
      if trimPart piece = [] then nonEmpty pieces else trimPart piece :: nonEmpty pieces := by
  rw [nonEmpty, List.takeWhile_cons_of_pos (by rw [h]; rfl), List.map_cons, List.filter_cons]
  split
  · next hne => rw [if_neg (of_decide_eq_true hne)]; rfl
  · next he => rw [if_pos (not_not.1 fun hne => he (decide_eq_true hne))]; rfl

theorem nonEmpty_closed {piece : Bytes} (h : dashes.isPrefixOf piece = true)
    (pieces : List Bytes) : nonEmpty (piece :: pieces) = [] := by
  rw [nonEmpty, List.takeWhile_cons_of_neg (by rw [h]; exact Bool.noConfusion)]
  rfl

/-- The loop keeps the parts one after the other, and its counters stay within the limits. -/
theorem parseParts_ok (h : parseParts parser pieces st = .ok st') :
    ∃ sents, (nonEmpty pieces).mapM readPart = some sents ∧ st' = sents.foldl State.record st ∧
      (st.partCount ≤ parser.maxParts → st'.partCount ≤ parser.maxParts) ∧
      (st.fileCount ≤ parser.maxFiles → st'.fileCount ≤ parser.maxFiles) ∧
      ∀ sent ∈ sents, ∀ filename, sent.filename = some filename →
        PassesFilter parser (sent.upload filename) := by
  induction pieces generalizing st with
  | nil =>
    cases h
    exact ⟨[], rfl, rfl, id, id, fun sent hsent => absurd hsent List.not_mem_nil⟩
  | cons piece pieces ih =>
    rw [parseParts] at h
    split at h
    · next hclosed =>
      cases h
      rw [nonEmpty_closed hclosed]
      exact ⟨[], rfl, rfl, id, id, fun sent hsent => absurd hsent List.not_mem_nil⟩
    · next hopen =>
      rw [nonEmpty_cons (Bool.eq_false_of_not_eq_true hopen)]
      split at h
      · next hempty =>
        rw [if_pos hempty]
        exact ih h
      · next hpart =>
        obtain ⟨next, hadd, h⟩ := except_bind_eq_ok.1 h
        obtain ⟨sent, hread, rfl, hparts, hfile⟩ := addPart_ok hadd
        obtain ⟨sents, hsents, rfl, hpartCount, hfileCount, hpasses⟩ := ih h
        rw [if_neg hpart, List.mapM_cons, hread, hsents]
        refine ⟨sent :: sents, rfl, rfl, fun _ => hpartCount hparts, fun hcount => ?_, ?_⟩
        · apply hfileCount
          cases hfilename : sent.filename with
          | none =>
            rw [record_field hfilename]
            exact hcount
          | some filename => exact (hfile filename hfilename).1
        · intro other hother filename hfilename
          rcases List.mem_cons.1 hother with rfl | hother
          · exact (hfile filename hfilename).2
          · exact hpasses other hother filename hfilename

end

theorem foldl_record (sents : List SentPart) (st : State) :
    sents.foldl State.record st =
      { fields := st.fields.update (sents.filterMap SentPart.field?)
        files := st.files.update (sents.filterMap SentPart.file?)
        fileCount := st.fileCount + sents.countP SentPart.isFile
        partCount := st.partCount + sents.length } := by
  induction sents generalizing st with
  | nil => rfl
  | cons sent sents ih =>
    rw [List.foldl_cons, ih]
    cases hfilename : sent.filename with
    | none =>
      have hfield : sent.field? = some (sent.name, decodeReplace sent.content) := if_pos hfilename
      have hfile : sent.file? = none := by rw [SentPart.file?, hfilename, Option.map_none]
      have hno : ¬ sent.isFile = true := by
        rw [SentPart.isFile, hfilename]
        exact Bool.false_ne_true
      rw [record_field hfilename, List.filterMap_cons_some hfield, List.filterMap_cons_none hfile,
        List.countP_cons_of_neg hno, List.length_cons, Nat.add_assoc, Nat.add_comm 1]
      rfl
    | some filename =>
      have hfield : sent.field? = none := if_neg (by rw [hfilename]; exact Option.some_ne_none _)
      have hfile : sent.file? = some (sent.name, sent.upload filename) := by
        rw [SentPart.file?, hfilename, Option.map_some]
      have hyes : sent.isFile = true := by
        rw [SentPart.isFile, hfilename]
        rfl
      rw [record_file hfilename, List.filterMap_cons_none hfield, List.filterMap_cons_some hfile,
        List.countP_cons_of_pos hyes, List.length_cons, Nat.add_assoc, Nat.add_assoc,
        Nat.add_comm 1, Nat.add_comm 1]
      rfl

theorem readParts_counts {parts : List Bytes} (h : parts.mapM readPart = some sents) :
    parts.length = sents.length ∧ parts.countP hasFilename = sents.countP SentPart.isFile := by
  rw [Traverse.option_iff] at h
  refine ⟨h.length_eq, ?_⟩
  induction h with
  | nil => rfl
  | cons hsent _ ih => rw [List.countP_cons, List.countP_cons, ih, hasFilename, hsent]; rfl

/-- What `parse` returns, in terms of the parts of the body. -/
theorem parse_ok {parser : MultipartParser} {req : Request} (h : parse parser req = .ok data) :
    ∃ boundary sents, searchBoundary (req.header "content-type".toList) = some boundary ∧
      (nonEmptyParts boundary req.body.toBytes).mapM readPart = some sents ∧
      sents.length ≤ parser.maxParts ∧ sents.countP SentPart.isFile ≤ parser.maxFiles ∧
      (∀ sent ∈ sents, ∀ filename, sent.filename = some filename →
        PassesFilter parser (sent.upload filename)) ∧
      data.fields = (∅ : Dict Str Str).update (sents.filterMap SentPart.field?) ∧
      data.files = (∅ : Dict Str UploadedFile).update (sents.filterMap SentPart.file?) := by
  rw [parse] at h
  dsimp only at h
  split at h
  · cases h
  · next boundary hboundary =>
    split at h
    · cases h
    · split at h
      · cases h
      · split at h
        · cases h
        · split at h
          · cases h
          · obtain ⟨st, hloop, rfl⟩ := except_map_eq_ok.1 h
            obtain ⟨sents, hsents, rfl, hparts, hfiles, hpasses⟩ := parseParts_ok hloop
            have hparts := hparts (Nat.zero_le _)
            have hfiles := hfiles (Nat.zero_le _)
            rw [foldl_record] at hparts hfiles ⊢
            exact ⟨boundary, sents, hboundary, hsents, (Nat.zero_add _).symm.le.trans hparts,
              (Nat.zero_add _).symm.le.trans hfiles, hpasses, rfl, rfl⟩

/-- A body that is parsed has no more parts than are allowed and no more files, and every file has
passed the filter. -/
theorem parse_limited (parser : MultipartParser) (req : Request) (data : MultipartData)
    (h : parse parser req = .ok data) :
    ∃ boundary, searchBoundary (req.header "content-type".toList) = some boundary ∧
      (nonEmptyParts boundary req.body.toBytes).length ≤ parser.maxParts ∧
      (nonEmptyParts boundary req.body.toBytes).countP hasFilename ≤ parser.maxFiles ∧
      ∀ e ∈ data.files.entries, PassesFilter parser e.2 := by
  obtain ⟨boundary, sents, hboundary, hsents, hparts, hfiles, hpasses, -, hdata⟩ := parse_ok h
  obtain ⟨hlength, hcount⟩ := readParts_counts hsents
  refine ⟨boundary, hboundary, hlength.le.trans hparts, hcount.le.trans hfiles, fun e he => ?_⟩
  rw [Dict.mem_entries_iff, hdata] at he
  obtain ⟨sent, hsent, hfile⟩ := List.mem_filterMap.1 (Dict.mem_of_get?_update he)
  obtain ⟨filename, hfilename, hentry⟩ := Option.map_eq_some_iff.1 hfile
  rw [← (Prod.mk.inj hentry).2]
  exact hpasses sent hsent filename hfilename

/-- A form of a field and a file, which is a bitmap by its name only. -/
theorem parse_limited_form : ∃ boundary,
    searchBoundary "multipart/form-data; boundary=b".toList = some boundary ∧
      (nonEmptyParts boundary (encode shortBoundary [.field simpleName "x".toList,
        .file simpleName' simpleName' none [45, 45]])).length ≤ 64 ∧
      (nonEmptyParts boundary (encode shortBoundary [.field simpleName "x".toList,
        .file simpleName' simpleName' none [45, 45]])).countP hasFilename ≤ 8 ∧
      ∀ e ∈ ((∅ : Dict Str UploadedFile).set "a.png".toList ⟨"a.png".toList, "a.png".toList,
        "application/octet-stream".toList, 2, [45, 45], none⟩).entries, PassesFilter {} e.2 :=
  parse_limited {} (formRequest shortBoundary [.field simpleName "x".toList,
      .file simpleName' simpleName' none [45, 45]])
    ⟨(∅ : Dict Str Str).set "a".toList "x".toList, (∅ : Dict Str UploadedFile).set "a.png".toList
      ⟨"a.png".toList, "a.png".toList, "application/octet-stream".toList, 2, [45, 45], none⟩⟩
    (by decide +kernel)

end Sovereign.Multipart
