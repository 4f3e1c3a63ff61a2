import Sovereign.ByteRanges
import Sovereign.VaryHeader

namespace Sovereign
open PosixPath
set_option autoImplicit true

/-- The coding that a stack has for a content: the first one from the inside. -/
def layersCoding (req : Request) (size : Nat) (contentType : Str) :
    List CompressionLayer → Option Coding
  | [] => none
  | layer :: layers =>
    (layersCoding req size contentType layers).or (layer.coding req size contentType)

/-- A response whose body has been coded, or has not. -/
def Response.after (runtime : Runtime) (resp : Response) (call : Nat) : Option Coding → Response
  | none => resp
  | some coding =>
    CompressionMiddleware.encoded resp coding.name (coding.compress runtime resp.body call)

/-- A handler behind a stack of compression middlewares. -/
def throughLayers (runtime : Runtime) (layers : List CompressionLayer)
    (handler : Endpoint (World α)) :
    Endpoint (World α) :=
  build (layers.map fun layer => layer.middleware runtime) handler

variable {runtime : Runtime} {req : Request} {handler : Endpoint (World α)} {resp : Response}
  {w w₁ : World α}

theorem encoded_encoding (resp : Response) (coding : Coding) (body : Bytes) :
    (CompressionMiddleware.encoded resp coding.name body).encoding = some coding.name := by
  rw [Response.encoding, CompressionMiddleware.encoded, Dict.get?_update]
  rfl

/-- A layer behind a stack. -/
theorem build_layer (layer : CompressionLayer) (layers : List CompressionLayer)
    {value : Val (World α)}
    (h : throughLayers runtime layers handler req w = (.ok value, w₁)) :
    throughLayers runtime (layer :: layers) handler req w =
      layer.finish runtime req value w₁ := by
  have hcall : throughLayers runtime (layer :: layers) handler req w =
      (do let value ← throughLayers runtime layers handler req
          layer.finish runtime req value) w := by
    cases layer <;> rfl
  rw [hcall, Act.bind_run, h]

/-- A stack codes a response at most once. -/
theorem build_response (runtime : Runtime)
    (hrun : handler req w = (.ok (.result (.response resp)), w₁))
    (hplain : ¬ resp.Coded) (layers : List CompressionLayer) :
    ∃ w₂, throughLayers runtime layers handler req w =
        (.ok (.result (.response (resp.after runtime w₁.calls
          (layersCoding req resp.body.length resp.contentType layers)))), w₂) ∧
      (layersCoding req resp.body.length resp.contentType layers = none → w₂ = w₁) := by
  induction layers with
  | nil => exact ⟨w₁, hrun, fun _ => rfl⟩
  | cons layer layers ih =>
    obtain ⟨w₂, hbuild, hcalls⟩ := ih
    rw [build_layer layer layers hbuild, layersCoding]
    cases hinside : layersCoding req resp.body.length resp.contentType layers with
    | some coding =>
      refine ⟨w₂, ?_, nofun⟩
      exact layer.finish_none w₂ fun hno =>
        absurd (Response.coded_of_encoding (encoded_encoding resp coding _)) hno
    | none =>
      have hcall : w₂ = w₁ := hcalls hinside
      subst hcall
      rw [Option.none_or]
      cases hown : layer.coding req resp.body.length resp.contentType with
      | none => exact ⟨w₂, layer.finish_none w₂ fun _ => hown, fun _ => rfl⟩
      | some coding => exact ⟨_, layer.finish_some w₂ hplain hown, nofun⟩

/-- A stack leaves a stream as it is. -/
theorem build_stream {stream : StreamResponse}
    (hrun : handler req w = (.ok (.result (.stream stream)), w₁)) (layers : List CompressionLayer) :
    throughLayers runtime layers handler req w =
      (.ok (.result (.stream stream)), w₁) := by
  induction layers with
  | nil => exact hrun
  | cons layer layers ih =>
    rw [build_layer layer layers ih]
    cases layer <;> rfl

/-- The headers that a coding assigns. -/
def codingNames : List Str :=
  ["Content-Encoding".toList, "Content-Length".toList, "Vary".toList]

/-- A response with the content of another one in one coding that the request names. -/
structure CodedOnce (gunzip inflate : Bytes → Bytes) (req : Request) (resp out : Response) :
    Prop where
  content :
    (out.encoding = some "gzip".toList ∧
        contains "gzip".toList (lower (req.header "accept-encoding".toList)) = true ∧
        gunzip out.body = resp.body) ∨
      out.encoding = some "deflate".toList ∧
        contains "deflate".toList (lower (req.header "accept-encoding".toList)) = true ∧
        inflate out.body = resp.body
  single : ∀ name ∈ out.headers.keys, lower name = "content-encoding".toList →
    name = "Content-Encoding".toList
  length : out.headers.get? "Content-Length".toList = some (decimal out.body.length)
  status : out.status = resp.status
  contentType : out.contentType = resp.contentType
  others : ∀ name ∉ codingNames, out.headers.get? name = resp.headers.get? name

/-- The coding of a layer is one that the request names. -/
theorem CompressionLayer.coding_named {layer : CompressionLayer} {coding : Coding}
    (h : layer.coding req size contentType = some coding) :
    contains coding.name (lower (req.header "accept-encoding".toList)) = true := by
  rw [CompressionLayer.coding.eq_def] at h
  dsimp only at h
  split at h
  · cases h
  · split at h
    · next hgzip =>
      cases h
      exact hgzip
    · cases layer with
      | gzip m => cases h
      | compression m =>
        dsimp only at h
        split at h
        · next hdeflate =>
          cases h
          exact hdeflate
        · cases h

theorem layersCoding_named {layers : List CompressionLayer} {coding : Coding}
    (h : layersCoding req size contentType layers = some coding) :
    contains coding.name (lower (req.header "accept-encoding".toList)) = true := by
  induction layers with
  | nil => cases h
  | cons layer layers ih =>
    rw [layersCoding, Option.or_eq_some_iff] at h
    obtain h | ⟨-, h⟩ := h
    · exact ih h
    · exact layer.coding_named h

theorem get?_encoded_of_not_mem {name : Str} (h : name ∉ codingNames) (resp : Response)
    (coding : Coding) (body : Bytes) :
    (CompressionMiddleware.encoded resp coding.name body).headers.get? name =
      resp.headers.get? name := by
  simp only [codingNames, List.mem_cons, List.not_mem_nil, or_false, not_or] at h
  obtain ⟨hencoding, hlength, hvary⟩ := h
  rw [HandlerResult.get?_encoded, if_neg hvary, Coding.assoc_headers, if_neg hencoding,
    if_neg hlength, Option.none_or]

/-- A response without a `Content-Encoding`, whatever the case of its letters. -/
def Response.Plain (resp : Response) : Prop :=
  ∀ name ∈ resp.headers.keys, lower name ≠ "content-encoding".toList

theorem Response.Plain.not_coded (h : resp.Plain) : ¬ resp.Coded := by
  rw [Response.Coded, Response.encoding, not_not]
  cases hget : resp.headers.get? "Content-Encoding".toList with
  | none => rfl
  | some value =>
    have hmem : "Content-Encoding".toList ∈ resp.headers.keys := by
      rw [Dict.mem_keys, Dict.contains, hget]
      rfl
    have hname : lower "Content-Encoding".toList = "content-encoding".toList := by decide
    exact absurd hname (h _ hmem)

/-- A response that is coded. -/
theorem codedOnce_after {gunzip inflate : Bytes → Bytes} {coding : Coding} (hplain : resp.Plain)
    (hgzip : ∀ level call, gunzip (runtime.gzip resp.body level call) = resp.body)
    (hdeflate : ∀ level, inflate (runtime.zlib resp.body level) = resp.body)
    (hnamed : contains coding.name (lower (req.header "accept-encoding".toList)) = true)
    (call : Nat) :
    CodedOnce gunzip inflate req resp (resp.after runtime call (some coding)) where
  content := by
    have hencoding := encoded_encoding resp coding (coding.compress runtime resp.body call)
    cases coding with
    | gzip level => exact .inl ⟨hencoding, hnamed, hgzip level call⟩
    | deflate level => exact .inr ⟨hencoding, hnamed, hdeflate level⟩
  single name hname hlower := by
    by_contra hne
    have hother : name ∉ codingNames := by
      simp only [codingNames, List.mem_cons, List.not_mem_nil, or_false, not_or]
      refine ⟨hne, ?_, ?_⟩
      · rintro rfl
        revert hlower
        decide
      · rintro rfl
        revert hlower
        decide
    rw [Dict.mem_keys, Dict.contains, Response.after, get?_encoded_of_not_mem hother,
      ← Dict.contains, ← Dict.mem_keys] at hname
    exact hplain name hname hlower
  length := by
    have hlength : ¬ "Content-Length".toList = "Vary".toList := by decide
    have hencoding : ¬ "Content-Length".toList = "Content-Encoding".toList := by decide
    rw [Response.after, HandlerResult.get?_encoded, if_neg hlength, Coding.assoc_headers,
      if_neg hencoding, if_pos rfl, Option.some_or]
    rfl
  status := rfl
  contentType := rfl
  others _ hname := get?_encoded_of_not_mem hname _ _ _

/-- A stack of compression middlewares leaves a response as it is, or codes it once, and it leaves a
stream as it is. -/
theorem layers_transparent (runtime : Runtime) (layers : List CompressionLayer)
    (handler : Endpoint (World α)) (req : Request) (w w₁ : World α) :
    (∀ (resp : Response) (gunzip inflate : Bytes → Bytes),
      (∀ level call, gunzip (runtime.gzip resp.body level call) = resp.body) →
      (∀ level, inflate (runtime.zlib resp.body level) = resp.body) →
      handler req w = (.ok (.result (.response resp)), w₁) → resp.Plain →
      ∃ out w₂, throughLayers runtime layers handler req w = (.ok (.result (.response out)), w₂) ∧
        (out = resp ∨ CodedOnce gunzip inflate req resp out)) ∧
    ∀ stream : StreamResponse, handler req w = (.ok (.result (.stream stream)), w₁) →
      throughLayers runtime layers handler req w = (.ok (.result (.stream stream)), w₁) := by
  constructor
  · intro resp gunzip inflate hgzip hdeflate hrun hplain
    obtain ⟨w₂, hbuild, -⟩ := build_response runtime hrun hplain.not_coded layers
    refine ⟨_, w₂, hbuild, ?_⟩
    cases hcoding : layersCoding req resp.body.length resp.contentType layers with
    | none => exact .inl rfl
    | some coding =>
      exact .inr (codedOnce_after hplain hgzip hdeflate (layersCoding_named hcoding) w₁.calls)
  · intro stream hrun
    exact build_stream hrun layers

/-- A handler that sends the byte, and one that sends a stream. -/
def noteHandler : Endpoint (World Unit) := fun _ => pure (.result (.response plainNote))

def streamHandler : Endpoint (World Unit) := fun _ =>
  pure (.result (.stream { chunks := [] }))

theorem layers_transparent_note :
    (∃ out w₂, throughLayers noteRuntime [.compression ⟨0, 6⟩, .gzip ⟨1, 6⟩] noteHandler
        (noteRequest [("accept-encoding".toList, "gzip".toList)]) noteWorld =
          (.ok (.result (.response out)), w₂) ∧
      (out = plainNote ∨ CodedOnce (fun _ => [97]) (fun _ => [97])
        (noteRequest [("accept-encoding".toList, "gzip".toList)]) plainNote out)) ∧
    throughLayers noteRuntime [.compression ⟨0, 6⟩, .gzip ⟨1, 6⟩] streamHandler (noteRequest [])
      noteWorld = (.ok (.result (.stream { chunks := [] })), noteWorld) := by
  have hplain : plainNote.Plain := by
    rw [Response.Plain]
    decide +kernel
  constructor
  · exact (layers_transparent noteRuntime _ noteHandler _ noteWorld noteWorld).1 plainNote _ _
      (fun _ _ => rfl) (fun _ => rfl) rfl hplain
  · exact (layers_transparent noteRuntime _ streamHandler _ noteWorld noteWorld).2 _ rfl

/-- `Content-Range` of a part of a content. -/
def contentRange (start last size : Nat) : Str :=
  "bytes ".toList ++ decimal start ++ '-' :: decimal last ++ '/' :: decimal size

/-- The body of a partial response is the part of the content that its `Content-Range` names. -/
def RangeKept (content : Bytes) (resp : Response) : Prop :=
  ∃ start last : Nat, resp.headers.get? "Content-Range".toList =
      some (contentRange start last content.length) ∧
    start ≤ last ∧ resp.body.length = last - start + 1 ∧
    resp.body = (content.drop start).take (last - start + 1)

theorem not_mem_decimal {c : Char} (hc : ¬ ('0' ≤ c ∧ c ≤ '9')) (n : Nat) : c ∉ decimal n := by
  intro hmem
  obtain ⟨d, hd, hval⟩ := Numeral.digit_of_parse (parse_decimal n) c hmem
  exact hc ((Numeral.toNat_of_digitVal hval).2 hd)

theorem decimal_injective {m n : Nat} (h : decimal m = decimal n) : m = n := by
  have hparse := parse_decimal m
  rw [h, parse_decimal n] at hparse
  exact (Option.some.inj hparse).symm

/-- A number ends where a character follows that is not a digit. -/
theorem decimal_separated {c : Char} (hc : ¬ ('0' ≤ c ∧ c ≤ '9')) {m n : Nat} {s t : Str}
    (h : decimal m ++ c :: s = decimal n ++ c :: t) : m = n ∧ s = t := by
  have hm := Marker.breakOn_first (m := []) (a := s) (not_mem_decimal hc m)
  have hn := Marker.breakOn_first (m := []) (a := t) (not_mem_decimal hc n)
  rw [List.append_assoc, List.singleton_append] at hm hn
  rw [h, hn, Option.some.injEq, Prod.mk.injEq] at hm
  exact ⟨decimal_injective hm.1.symm, hm.2.symm⟩

theorem range_text (pre t : Str) (a b : Nat) :
    pre ++ decimal a ++ '-' :: decimal b ++ '/' :: t =
      pre ++ (decimal a ++ '-' :: (decimal b ++ '/' :: t)) := by
  simp only [List.append_assoc, List.cons_append]

theorem range_separated {pre s t : Str} {a b a' b' : Nat}
    (h : pre ++ decimal a ++ '-' :: decimal b ++ '/' :: s =
      pre ++ decimal a' ++ '-' :: decimal b' ++ '/' :: t) : a = a' ∧ b = b' := by
  rw [range_text, range_text] at h
  obtain ⟨ha, hrest⟩ := decimal_separated (by decide) (List.append_cancel_left h)
  obtain ⟨hb, -⟩ := decimal_separated (by decide) hrest
  exact ⟨ha, hb⟩

/-- A `Content-Range` names one part. -/
theorem contentRange_inj {a b a' b' size : Nat}
    (h : contentRange a b size = contentRange a' b' size) : a = a' ∧ b = b' :=
  range_separated h

section Parts

variable {lib : FileLibrary} {tree : FileTree} {opts : Html5Options} {root : List Str}
  {assetPath : Str} {part : Response}

/-- What a partial response of `serve_html5_file` is made from. -/
structure PartOf (lib : FileLibrary) (req : Request) (path : List Str) (data : FileData)
    (start last : Nat) (part : Response) : Prop where
  bounds : rangeBounds ((req.header "range".toList).drop 6) data.content.length =
    some ((start : Int), (last : Int))
  sends : SendsPart data.content start last part
  contentType : part.contentType = lib.guessHtml5Type (fileName path)
  uncoded : part.encoding = none

theorem rangeResponse_part {headers : Headers} {data : FileData}
    (hheaders : headers.get? "Content-Encoding".toList = none)
    (h : rangeResponse req data.content headers (lib.guessHtml5Type (fileName path)) =
      .ok (some part)) : ∃ start last, PartOf lib req path data start last part := by
  cases hstarts : startsWith "bytes=".toList (req.header "range".toList) with
  | false =>
    rw [rangeResponse_absent _ _ hstarts] at h
    cases h
  | true =>
    obtain ⟨value, hvalue⟩ := List.isPrefixOf_iff_prefix.1 hstarts
    have hdrop : (req.header "range".toList).drop 6 = value := by
      rw [← hvalue]
      exact List.drop_left' rfl
    cases hbounds : rangeBounds value data.content.length with
    | none =>
      rw [rangeResponse_refused _ _ hvalue.symm hbounds] at h
      cases h
    | some p =>
      obtain ⟨start, last⟩ := p
      obtain ⟨hstart, hordered, -⟩ := rangeBounds_within hbounds
      obtain ⟨start, rfl⟩ := Int.eq_ofNat_of_zero_le hstart
      obtain ⟨last, rfl⟩ := Int.eq_ofNat_of_zero_le (hstart.trans hordered)
      obtain ⟨resp, hresp, hsends⟩ := rangeResponse_delivers headers
        (lib.guessHtml5Type (fileName path)) hvalue.symm hbounds
      rw [h] at hresp
      cases hresp
      refine ⟨start, last, ?_, hsends, ?_, ?_⟩
      · rw [hdrop]
        exact hbounds
      · rw [rangeResponse_present _ _ hvalue.symm, hbounds] at h
        cases h
        rfl
      · rw [rangeResponse_present _ _ hvalue.symm, hbounds] at h
        cases h
        rw [Response.encoding, Dict.get?_update, hheaders]
        rfl

theorem assetHeaders_uncoded (candidate : List Str) (data : FileData) :
    (assetHeaders lib opts root candidate data).get? "Content-Encoding".toList = none := by
  rw [assetHeaders, Dict.get?_update]
  rfl

/-- A response with status 206 has been made from a range of the file. -/
theorem serveHtml5File_part
    (h : serveHtml5File runtime lib tree opts root req assetPath w =
      (.ok (.result (.response part)), w₁)) (hstatus : part.status = 206) :
    w₁ = w ∧ ∃ path data start last, findAsset tree opts root req assetPath = .ok (path, data) ∧
      PartOf lib req path data start last part := by
  rw [serveHtml5File] at h
  cases hfind : findAsset tree opts root req assetPath with
  | error e =>
    rw [hfind] at h
    cases h
  | ok found =>
    obtain ⟨path, data⟩ := found
    rw [hfind] at h
    dsimp only at h
    rw [serveAsset] at h
    by_cases hmatch : req.header "if-none-match".toList = lib.etag data
    · rw [if_pos hmatch] at h
      cases h
      cases hstatus
    · rw [if_neg hmatch] at h
      cases hrange : rangeResponse req data.content (assetHeaders lib opts root path data)
        (lib.guessHtml5Type (fileName path)) with
      | error e =>
        rw [hrange] at h
        cases h
      | ok ranged =>
        rw [hrange] at h
        cases ranged with
        | some ranged =>
          cases h
          obtain ⟨start, last, hpart⟩ := rangeResponse_part (assetHeaders_uncoded path data) hrange
          exact ⟨rfl, path, data, start, last, rfl, hpart⟩
        | none =>
          dsimp only at h
          split at h
          · rw [Act.bind_run, sample_run] at h
            cases h
            cases hstatus
          · cases h
            cases hstatus

theorem SendsPart.length_body {content : Bytes} (h : SendsPart content start last part) :
    part.body.length = last - start + 1 := by
  have hinside := h.inside
  have hordered := h.ordered
  rw [h.content, List.length_take, List.length_drop]
  omega

/-- The `Content-Range` stays when a response is coded. -/
theorem after_contentRange (call : Nat) (coding : Option Coding) :
    (resp.after runtime call coding).headers.get? "Content-Range".toList =
      resp.headers.get? "Content-Range".toList := by
  cases coding with
  | none => rfl
  | some coding =>
    have hother : "Content-Range".toList ∉ codingNames := by decide
    exact get?_encoded_of_not_mem hother resp coding _

/-- A coded part is the part that its `Content-Range` names just if the compressor has changed
nothing. -/
theorem rangeKept_after_iff {content : Bytes} (h : SendsPart content start last part)
    (call : Nat) (coding : Option Coding) :
    RangeKept content (part.after runtime call coding) ↔
      ∀ c, coding = some c → c.compress runtime part.body call = part.body := by
  have hrange : (part.after runtime call coding).headers.get? "Content-Range".toList =
      some (contentRange start last content.length) :=
      (after_contentRange call coding).trans h.range
  constructor
  · rintro ⟨start', last', hrange', -, -, hbody⟩ c rfl
    rw [hrange, Option.some.injEq] at hrange'
    obtain ⟨rfl, rfl⟩ := contentRange_inj hrange'
    rw [h.content]
    rw [← h.content] at hbody ⊢
    exact hbody
  · intro hsame
    have hbody : (part.after runtime call coding).body = part.body := by
      cases coding with
      | none => rfl
      | some c => exact hsame c rfl
    refine ⟨start, last, hrange, h.ordered, ?_, ?_⟩
    · rw [hbody]
      exact h.length_body
    · rw [hbody]
      exact h.content

end Parts

/-- A partial response behind a stack is the part of the file that its `Content-Range` names just if
no layer has a coding for a content of the length of the part, or the coding changes nothing. -/
theorem range_kept_iff (runtime : Runtime) (lib : FileLibrary) (tree : FileTree)
    (opts : Html5Options)
    (root : List Str) (assetPath : Str) (layers : List CompressionLayer) {req : Request}
    {w w₁ : World α} {part : Response}
    (hserve : serveHtml5File runtime lib tree opts root req assetPath w =
      (.ok (.result (.response part)), w₁)) (hstatus : part.status = 206) :
    ∃ (path : List Str) (data : FileData) (start last : Nat) (out : Response) (w₂ : World α),
      findAsset tree opts root req assetPath = .ok (path, data) ∧
      rangeBounds ((req.header "range".toList).drop 6) data.content.length =
        some ((start : Int), (last : Int)) ∧
      serveBehind runtime lib tree (.html5 opts root assetPath) layers req w =
        (.ok (.result (.response out)), w₂) ∧
      (RangeKept data.content out ↔
        ∀ coding, layersCoding req (last - start + 1) (lib.guessHtml5Type (fileName path)) layers =
          some coding →
          coding.compress runtime ((data.content.drop start).take (last - start + 1)) w.calls =
            (data.content.drop start).take (last - start + 1)) := by
  obtain ⟨rfl, path, data, start, last, hfind, hpart⟩ := serveHtml5File_part hserve hstatus
  have hrun : (FileSource.html5 opts root assetPath).serve runtime lib tree req w₁ =
      (.ok (.result (.response part)), w₁) := hserve
  obtain ⟨w₂, hbuild, -⟩ := build_response runtime hrun (Response.not_coded hpart.uncoded) layers
  refine ⟨path, data, start, last, _, w₂, hfind, hpart.bounds, hbuild, ?_⟩
  rw [rangeKept_after_iff hpart.sends, hpart.sends.length_body, hpart.contentType,
    hpart.sends.content]

/-- A request for the first byte of the file. -/
def firstByte (headers : List (Str × Str)) : Request :=
  noteRequest (("range".toList, "bytes=0-0".toList) :: headers)

/-- The part that holds it. -/
def firstPart : Response where
  body := [97]
  status := 206
  headers := (assetHeaders noteLibrary {} [] ["a.txt".toList] ⟨[97], 0⟩).update
    [("Content-Range".toList, contentRange 0 0 1), ("Content-Length".toList, "1".toList)]
  contentType := "text/plain; charset=utf-8".toList

theorem range_kept_iff_plain :
    ∃ (path : List Str) (data : FileData) (start last : Nat) (out : Response) (w₂ : World Unit),
      findAsset noteTree {} [] (firstByte []) "a.txt".toList = .ok (path, data) ∧
      rangeBounds (((firstByte []).header "range".toList).drop 6) data.content.length =
        some ((start : Int), (last : Int)) ∧
      serveBehind noteRuntime noteLibrary noteTree (.html5 {} [] "a.txt".toList) [.gzip ⟨1, 6⟩]
        (firstByte []) noteWorld = (.ok (.result (.response out)), w₂) ∧
      (RangeKept data.content out ↔
        ∀ coding, layersCoding (firstByte []) (last - start + 1)
            (noteLibrary.guessHtml5Type (fileName path)) [.gzip ⟨1, 6⟩] = some coding →
          coding.compress noteRuntime ((data.content.drop start).take (last - start + 1)) 0 =
            (data.content.drop start).take (last - start + 1)) := by
  have hserve : serveHtml5File noteRuntime noteLibrary noteTree {} [] (firstByte [])
      "a.txt".toList noteWorld = (.ok (.result (.response firstPart)), noteWorld) := rfl
  exact range_kept_iff noteRuntime noteLibrary noteTree {} [] "a.txt".toList
    [.gzip ⟨1, 6⟩] hserve rfl

/-- The one byte of a part becomes the 21 bytes of its coding, and its `Content-Range` names one byte. -/
theorem range_recoded :
    serveHtml5File noteRuntime noteLibrary noteTree {} []
        (firstByte [("accept-encoding".toList, "gzip".toList)]) "a.txt".toList noteWorld =
      (.ok (.result (.response firstPart)), noteWorld) ∧ firstPart.status = 206 ∧
    ∃ out w₂, serveBehind noteRuntime noteLibrary noteTree (.html5 {} [] "a.txt".toList)
        [.gzip ⟨1, 6⟩] (firstByte [("accept-encoding".toList, "gzip".toList)]) noteWorld =
          (.ok (.result (.response out)), w₂) ∧ ¬ RangeKept [97] out := by
  refine ⟨rfl, rfl, CompressionMiddleware.encoded firstPart "gzip".toList
    (noteRuntime.gzip [97] 6 0), { noteWorld with calls := 1 }, rfl, ?_⟩
  rintro ⟨start, last, -, -, hlength, hbody⟩
  have hshort := congrArg List.length hbody
  rw [List.length_take, List.length_drop] at hshort
  change 21 = _ at hlength
  change 21 = min _ (1 - start) at hshort
  omega

end Sovereign
