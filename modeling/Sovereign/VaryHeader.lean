import Sovereign.StrongEtag

namespace Sovereign
open PosixPath
set_option autoImplicit true

/-- A layer that writes `Vary`. -/
inductive VaryLayer where
  | cors (m : CORSMiddleware)
  | compression (layer : CompressionLayer)

def VaryLayer.middleware (runtime : Runtime) : VaryLayer → Middleware (World α)
  | cors m => ⟨false, m.call⟩
  | compression layer => layer.middleware runtime

/-- Two requests that are the same but for headers of these names. -/
structure SameBut (names : List Str) (req₁ req₂ : Request) : Prop where
  header : ∀ name ∉ names, req₁.headers.get? name = req₂.headers.get? name
  rawHeaders : req₁.rawHeaders.filter (fun h => decide (lower h.1 ∉ names)) =
    req₂.rawHeaders.filter fun h => decide (lower h.1 ∉ names)
  rest : { req₁ with headers := ∅, rawHeaders := [] } =
    { req₂ with headers := ∅, rawHeaders := [] }

/-- The two request headers that the layers read. -/
def negotiated : List Str := ["origin".toList, "accept-encoding".toList]

def HandlerResult.isStream : HandlerResult → Bool
  | response _ => false
  | stream _ => true

def HandlerResult.contentType : HandlerResult → Str
  | response resp => resp.contentType
  | stream resp => resp.contentType

/-- What a response has apart from `Vary`. -/
@[ext] structure View where
  content : Bytes
  contentType : Str
  header : Str → Option Str

def HandlerResult.view (result : HandlerResult) : View where
  content := result.content
  contentType := result.contentType
  header name := if lower name = "vary".toList then none else result.headers.get? name

/-- A value of `Vary` names a request header. -/
def namesHeader (value header : Str) : Prop :=
  ∃ field ∈ value.splitOn ',', strStrip field = ['*'] ∨ lower (strStrip field) = header

/-- The `Vary` of a response names a request header. -/
def HandlerResult.varies (result : HandlerResult) (header : Str) : Prop :=
  ∃ name value, result.headers.get? name = some value ∧ lower name = "vary".toList ∧
    namesHeader value header

/-- The headers of a `CORSMiddleware` that its settings determine. -/
def CORSMiddleware.fixed (m : CORSMiddleware) : List (Str × Str) :=
  [("Access-Control-Allow-Methods".toList, m.allowMethods),
    ("Access-Control-Allow-Headers".toList, m.allowHeaders),
    ("Access-Control-Max-Age".toList, m.maxAge)] ++
  if m.allowCredentials then [("Access-Control-Allow-Credentials".toList, "true".toList)] else []

/-- The headers that a `CORSMiddleware` gives apart from `Vary`. -/
def CORSMiddleware.granted (m : CORSMiddleware) (origin : Str) : List (Str × Str) :=
  ("Access-Control-Allow-Origin".toList, origin) :: m.fixed

/-- The headers that the CORS layers of a stack give, the outermost first. -/
def grants : List VaryLayer → Request → List (Str × Str)
  | [], _ => []
  | .cors m :: layers, req =>
    (if m.origin req ≠ [] then m.granted (m.origin req) else []) ++ grants layers req
  | .compression _ :: layers, req => grants layers req

/-- The coding that a layer has for a result of the handler. -/
def CompressionLayer.codingFor (layer : CompressionLayer) (req : Request)
    (result : HandlerResult) : Option Coding :=
  if result.isStream = true ∨
      (result.headers.get? "Content-Encoding".toList).getD [] ≠ [] then none
  else layer.coding req result.content.length result.contentType

/-- The coding that a stack has for a result of the handler: the first one from the inside. -/
def codingOf : List VaryLayer → Request → HandlerResult → Option Coding
  | [], _, _ => none
  | .cors _ :: layers, req, result => codingOf layers req result
  | .compression layer :: layers, req, result =>
    (codingOf layers req result).or (layer.codingFor req result)

/-- The `Vary` that a stack writes: each layer that writes it replaces it. -/
def varyWritten : List VaryLayer → Request → HandlerResult → Option Str
  | [], _, _ => none
  | .cors m :: layers, req, result =>
    if m.origin req ≠ [] then some "Origin".toList else varyWritten layers req result
  | .compression layer :: layers, req, result =>
    if codingOf layers req result = none ∧ layer.codingFor req result ≠ none then
      some "Accept-Encoding".toList
    else varyWritten layers req result

/-- The headers of a coded body apart from `Vary`. -/
def Coding.headers (coding : Coding) (body : Bytes) : List (Str × Str) :=
  [("Content-Encoding".toList, coding.name), ("Content-Length".toList, decimal body.length)]

theorem Coding.assoc_headers (coding : Coding) (body : Bytes) (name : Str) :
    Dict.assoc (coding.headers body) name =
      if name = "Content-Encoding".toList then some coding.name
      else if name = "Content-Length".toList then some (decimal body.length) else none := by
  rw [headers, Dict.assoc_cons, Dict.assoc_cons]
  rfl

theorem Coding.headers_not_vary (coding : Coding) (body : Bytes) {name : Str}
    (h : lower name = "vary".toList) : Dict.assoc (coding.headers body) name = none := by
  rw [assoc_headers]
  have hencoding : ¬ name = "Content-Encoding".toList := by
    rintro rfl
    revert h
    decide
  have hlength : ¬ name = "Content-Length".toList := by
    rintro rfl
    revert h
    decide
  rw [if_neg hencoding, if_neg hlength]

namespace View

/-- The content is coded. -/
def coded (runtime : Runtime) (call : Nat) (view : View) : Option Coding → View
  | none => view
  | some coding =>
    let body := coding.compress runtime view.content call
    { view with
      content := body
      header := fun name => (Dict.assoc (coding.headers body) name).or (view.header name) }

/-- These headers are given. -/
def given (view : View) (headers : List (Str × Str)) : View :=
  { view with header := fun name => (Dict.assoc headers name).or (view.header name) }

end View

/-- What the CORS decisions for one request and the coding for another one make of the result that
the handler has for the latter. -/
def decided (runtime : Runtime) (layers : List VaryLayer) (req req' : Request)
    (result : HandlerResult) (call : Nat) : View :=
  (result.view.coded runtime call (codingOf layers req' result)).given (grants layers req)

/-- The middlewares of a stack. -/
def varyStack (runtime : Runtime) (layers : List VaryLayer) : List (Middleware (World α)) :=
  layers.map fun layer => layer.middleware runtime

/-- The result of a stack over a handler. -/
def respond (runtime : Runtime) (layers : List VaryLayer) (handler : Endpoint (World α))
    (w : World α) (req : Request) : Option HandlerResult :=
  match (build (varyStack runtime layers) handler req w).1 with
  | .ok (.result result) => some result
  | _ => none

/-- The handler does not look at `Origin`. -/
def IgnoresOrigin (handler : Endpoint (World α)) : Prop :=
  ∀ req₁ req₂ w, SameBut ["origin".toList] req₁ req₂ → handler req₁ w = handler req₂ w

/-- The difference of two responses depends on one of the two request headers: to change this header
alone makes a difference, before the other one is changed or after it. -/
def DependsOn (serve : Request → Option HandlerResult) (header : Str) (req₁ req₂ : Request) : Prop :=
  ∃ req,
    SameBut [header] req₁ req ∧ SameBut (negotiated.erase header) req req₂ ∧
        (serve req₁).map HandlerResult.view ≠ (serve req).map HandlerResult.view ∨
      SameBut (negotiated.erase header) req₁ req ∧ SameBut [header] req req₂ ∧
        (serve req).map HandlerResult.view ≠ (serve req₂).map HandlerResult.view

/-- The `Vary` of two responses names what their difference depends on. -/
def VaryComplete (serve : Request → Option HandlerResult) (req₁ req₂ : Request) : Prop :=
  ∀ result₁ result₂, serve req₁ = some result₁ → serve req₂ = some result₂ →
    result₁.view ≠ result₂.view → ∀ header ∈ negotiated, DependsOn serve header req₁ req₂ →
      result₁.varies header ∧ result₂.varies header

/-- The outermost layer that writes `Vary` names the header, or none writes it and the handler has
named it. -/
def VaryKept (layers : List VaryLayer) (req : Request) (result : HandlerResult) (header : Str) :
    Prop :=
  (∃ value, varyWritten layers req result = some value ∧ lower value = header) ∨
    ∃ name value, result.headers.get? name = some value ∧ lower name = "vary".toList ∧
      (name = "Vary".toList → varyWritten layers req result = none) ∧ namesHeader value header

/-- A request with the result that the handler has for it, and the number of calls to the runtime
until then. -/
structure Asked where
  req : Request
  result : HandlerResult
  call : Nat

/-- The view that the CORS decisions for the one and the coding for the other lead to. -/
def Asked.view (runtime : Runtime) (layers : List VaryLayer) (a b : Asked) : View :=
  decided runtime layers a.req b.req b.result b.call

/-- The CORS decisions for the two differ in what they come to. -/
def OriginMatters (runtime : Runtime) (layers : List VaryLayer) (a b : Asked) : Prop :=
  a.view runtime layers a ≠ b.view runtime layers a ∨
    a.view runtime layers b ≠ b.view runtime layers b

/-- The results of the handler or the codings for the two differ in what they come to. -/
def AcceptMatters (runtime : Runtime) (layers : List VaryLayer) (a b : Asked) : Prop :=
  a.view runtime layers a ≠ a.view runtime layers b ∨
    b.view runtime layers a ≠ b.view runtime layers b

/-- The last word on `Vary` has, for both, each of the two request headers that matters. -/
def VaryReliable (runtime : Runtime) (layers : List VaryLayer) (a b : Asked) : Prop :=
  a.view runtime layers a ≠ b.view runtime layers b →
    (OriginMatters runtime layers a b → VaryKept layers a.req a.result "origin".toList ∧
      VaryKept layers b.req b.result "origin".toList) ∧
    (AcceptMatters runtime layers a b → VaryKept layers a.req a.result "accept-encoding".toList ∧
      VaryKept layers b.req b.result "accept-encoding".toList)

/-- The names of the headers that a `CORSMiddleware` gives. -/
def corsNames : List Str :=
  ["Access-Control-Allow-Origin".toList, "Access-Control-Allow-Methods".toList,
    "Access-Control-Allow-Headers".toList, "Access-Control-Max-Age".toList,
    "Access-Control-Allow-Credentials".toList]

theorem corsNames_apart : ∀ name ∈ corsNames, lower name ≠ "vary".toList ∧
    name ≠ "Content-Encoding".toList ∧ name ≠ "Content-Length".toList := by
  decide

theorem CORSMiddleware.fixed_names (m : CORSMiddleware) :
    m.fixed.map Prod.fst = ["Access-Control-Allow-Methods".toList,
      "Access-Control-Allow-Headers".toList, "Access-Control-Max-Age".toList] ++
      if m.allowCredentials then ["Access-Control-Allow-Credentials".toList] else [] := by
  rw [fixed]
  split
  · rfl
  · rfl

theorem CORSMiddleware.granted_names {m : CORSMiddleware} {origin : Str} :
    (m.granted origin).map Prod.fst ⊆ corsNames := by
  rw [granted, List.map_cons, m.fixed_names]
  dsimp only
  split
  · decide
  · decide

theorem grants_names (layers : List VaryLayer) (req : Request) :
    (grants layers req).map Prod.fst ⊆ corsNames := by
  induction layers with
  | nil => exact List.nil_subset _
  | cons layer layers ih =>
    cases layer with
    | cors m =>
      rw [grants, List.map_append, List.append_subset]
      refine ⟨?_, ih⟩
      split
      · exact CORSMiddleware.granted_names
      · exact List.nil_subset _
    | compression layer => exact ih

theorem assoc_of_apart {headers : List (Str × Str)} (hcors : headers.map Prod.fst ⊆ corsNames)
    (hname : name ∉ corsNames) : Dict.assoc headers name = none :=
  Dict.assoc_eq_none fun h => hname (hcors h)

theorem not_corsNames_of_vary (h : lower name = "vary".toList) : name ∉ corsNames :=
  fun hname => (corsNames_apart name hname).1 h

/-- What `CORSMiddleware` assigns. -/
theorem CORSMiddleware.get?_allow (m : CORSMiddleware) (origin : Str) (headers : Headers)
    (name : Str) : (m.allow origin headers).get? name =
      if name = "Vary".toList then some "Origin".toList
      else (Dict.assoc (m.granted origin) name).or (headers.get? name) := by
  have hallow : m.allow origin headers = headers.update
      (("Access-Control-Allow-Origin".toList, origin) :: ("Vary".toList, "Origin".toList) ::
        m.fixed) := by
    rw [allow, fixed]
    split
    · rfl
    · rfl
  have hnodup : ((("Access-Control-Allow-Origin".toList, origin) ::
      ("Vary".toList, "Origin".toList) :: m.fixed).map Prod.fst).Nodup := by
    rw [List.map_cons, List.map_cons, m.fixed_names]
    dsimp only
    split
    · decide
    · decide
  have hsecond : "Access-Control-Allow-Origin".toList ≠ "Vary".toList := by decide
  rw [hallow, headers.get?_update_nodup hnodup, Dict.assoc_second hsecond]
  split
  · rfl
  · rfl

namespace View

theorem given_given (view : View) (headers headers' : List (Str × Str)) :
    (view.given headers).given headers' = view.given (headers' ++ headers) := by
  simp only [given, Dict.assoc_append, Option.or_assoc]

theorem given_nil (view : View) : view.given [] = view := rfl

/-- It does not matter whether the content is coded before the CORS headers are given. -/
theorem coded_given {runtime : Runtime} (view : View) (coding : Coding)
    {headers : List (Str × Str)} (hcors : headers.map Prod.fst ⊆ corsNames) :
    (view.given headers).coded runtime call (some coding) =
      (view.coded runtime call (some coding)).given headers := by
  have hencoding : Dict.assoc headers "Content-Encoding".toList = none :=
    assoc_of_apart hcors fun h => (corsNames_apart _ h).2.1 rfl
  have hlength : Dict.assoc headers "Content-Length".toList = none :=
    assoc_of_apart hcors fun h => (corsNames_apart _ h).2.2 rfl
  ext1
  · rfl
  · rfl
  · funext name
    dsimp only [coded, given]
    rw [Coding.assoc_headers]
    by_cases he : name = "Content-Encoding".toList
    · rw [if_pos he, he, hencoding]
      rfl
    · rw [if_neg he]
      by_cases hl : name = "Content-Length".toList
      · rw [if_pos hl, hl, hlength]
        rfl
      · rw [if_neg hl]
        rfl

end View

namespace HandlerResult

/-- The view after the assignments of a `CORSMiddleware`. -/
theorem view_allow (m : CORSMiddleware) (origin : Str) (result : HandlerResult) :
    (result.withHeaders (m.allow origin)).view = result.view.given (m.granted origin) := by
  have hheaders : (result.withHeaders (m.allow origin)).headers = m.allow origin result.headers := by
    cases result <;> rfl
  ext1
  · cases result <;> rfl
  · cases result <;> rfl
  · funext name
    dsimp only [view, View.given]
    rw [hheaders, m.get?_allow]
    by_cases hvary : lower name = "vary".toList
    · rw [if_pos hvary, if_pos hvary,
        assoc_of_apart CORSMiddleware.granted_names (not_corsNames_of_vary hvary)]
      rfl
    · have hname : name ≠ "Vary".toList := fun h => hvary (h ▸ rfl)
      rw [if_neg hvary, if_neg hvary, if_neg hname]

theorem get?_encoded (resp : Response) (coding : Coding) (body : Bytes) (name : Str) :
    (CompressionMiddleware.encoded resp coding.name body).headers.get? name =
      if name = "Vary".toList then some "Accept-Encoding".toList
      else (Dict.assoc (coding.headers body) name).or (resp.headers.get? name) := by
  have hnodup : ([("Content-Encoding".toList, coding.name),
      ("Vary".toList, "Accept-Encoding".toList),
      ("Content-Length".toList, decimal body.length)].map Prod.fst).Nodup := by
    rw [List.map_cons, List.map_cons, List.map_cons, List.map_nil]
    dsimp only
    decide
  have hsecond : "Content-Encoding".toList ≠ "Vary".toList := by decide
  rw [CompressionMiddleware.encoded, Dict.get?_update_nodup _ hnodup, Dict.assoc_second hsecond]
  split
  · rfl
  · rfl

/-- The view after a layer has coded the content. -/
theorem view_encoded (runtime : Runtime) (resp : Response) (coding : Coding) (call : Nat) :
    (response (CompressionMiddleware.encoded resp coding.name
      (coding.compress runtime resp.body call))).view =
      (response resp).view.coded runtime call (some coding) := by
  ext1
  · rfl
  · rfl
  · funext name
    dsimp only [view, View.coded, headers]
    rw [get?_encoded]
    by_cases hvary : lower name = "vary".toList
    · have hnone := coding.headers_not_vary (coding.compress runtime resp.body call) hvary
      rw [if_pos hvary, if_pos hvary, Option.or_none]
      exact hnone.symm
    · have hname : name ≠ "Vary".toList := fun h => hvary (h ▸ rfl)
      rw [if_neg hvary, if_neg hvary, if_neg hname]
      rfl

end HandlerResult

/-- What a stack makes of the result of the handler. -/
structure StackOutcome (runtime : Runtime) (layers : List VaryLayer) (req : Request)
    (result out : HandlerResult) (call : Nat) : Prop where
  isStream : out.isStream = result.isStream
  view : out.view = decided runtime layers req req result call
  vary : ∀ name, lower name = "vary".toList → out.headers.get? name =
    if name = "Vary".toList then (varyWritten layers req result).or (result.headers.get? name)
    else result.headers.get? name

namespace CompressionLayer

theorem codingFor_view (layer : CompressionLayer) (req : Request) (result : HandlerResult) :
    layer.codingFor req result =
      if result.isStream = true ∨
          (result.view.header "Content-Encoding".toList).getD [] ≠ [] then none
      else layer.coding req result.view.content.length result.view.contentType := by
  have hheader : result.view.header "Content-Encoding".toList =
      result.headers.get? "Content-Encoding".toList := by
    have hname : ¬ lower "Content-Encoding".toList = "vary".toList := by decide
    dsimp only [HandlerResult.view]
    rw [if_neg hname]
  rw [codingFor, hheader]
  rfl

/-- What a layer makes of a result that it has no coding for. -/
theorem finish_codingFor_none {layer : CompressionLayer} {result : HandlerResult}
    (h : layer.codingFor req result = none) (w : World α) :
    layer.finish runtime req (.result result) w = (.ok (.result result), w) := by
  cases result with
  | stream resp => cases layer <;> rfl
  | response resp =>
    apply layer.finish_none w
    intro hplain
    have hno : ¬ ((HandlerResult.response resp).isStream = true ∨
        ((HandlerResult.response resp).headers.get? "Content-Encoding".toList).getD [] ≠ []) :=
      not_or_intro Bool.false_ne_true hplain
    rw [codingFor, if_neg hno] at h
    exact h

theorem finish_codingFor_some {layer : CompressionLayer} {result : HandlerResult}
    {coding : Coding} (h : layer.codingFor req result = some coding) (w : World α) :
    ∃ resp, result = .response resp ∧
      layer.finish runtime req (.result result) w =
        (.ok (.result (.response (CompressionMiddleware.encoded resp coding.name
          (coding.compress runtime resp.body w.calls)))), coding.advance w) := by
  rw [codingFor] at h
  split at h
  · cases h
  · next hplain =>
    cases result with
    | stream resp => exact absurd (.inl rfl) hplain
    | response resp => exact ⟨resp, rfl, layer.finish_some w (fun hc => hplain (.inr hc)) h⟩

end CompressionLayer

namespace StackOutcome

variable {layers : List VaryLayer} {result out : HandlerResult}

/-- A layer has the coding for what comes out of a stack that it has for the result of the handler,
unless the stack has coded that. -/
theorem codingFor_eq (h : StackOutcome runtime layers req result out call) (layer : CompressionLayer) :
    layer.codingFor req out =
      if codingOf layers req result = none then layer.codingFor req result else none := by
  have hgrants : Dict.assoc (grants layers req) "Content-Encoding".toList = none :=
    assoc_of_apart (grants_names layers req) fun hname => (corsNames_apart _ hname).2.1 rfl
  rw [layer.codingFor_view, layer.codingFor_view, h.isStream, h.view, decided]
  cases codingOf layers req result with
  | none =>
    have hheader : ((result.view.coded runtime call none).given (grants layers req)).header
        "Content-Encoding".toList = result.view.header "Content-Encoding".toList := by
      dsimp only [View.coded, View.given]
      rw [hgrants, Option.none_or]
    rw [if_pos rfl, hheader]
    rfl
  | some coding =>
    have hcoded : ((result.view.coded runtime call (some coding)).given (grants layers req)).header
        "Content-Encoding".toList = some coding.name := by
      dsimp only [View.coded, View.given]
      rw [hgrants, Option.none_or, Coding.assoc_headers, if_pos rfl, Option.some_or]
    have hne : coding.name ≠ [] := by
      cases coding with
      | gzip level => exact List.cons_ne_nil _ _
      | deflate level => exact List.cons_ne_nil _ _
    rw [hcoded, if_pos (.inr hne), if_neg (Option.some_ne_none _)]

theorem nil : StackOutcome runtime [] req result result call where
  isStream := rfl
  view := rfl
  vary name hname := by
    split
    · rfl
    · rfl

/-- A CORS layer that does not allow the origin. -/
theorem cors_skip (h : StackOutcome runtime layers req result out call) {m : CORSMiddleware}
    (horigin : ¬ m.origin req ≠ []) :
    StackOutcome runtime (.cors m :: layers) req result out call where
  isStream := h.isStream
  view := by
    rw [h.view, decided, decided, codingOf, grants, if_neg horigin, List.nil_append]
  vary name hname := by
    rw [h.vary name hname, varyWritten, if_neg horigin]

/-- A CORS layer that allows the origin. -/
theorem cors_allow (h : StackOutcome runtime layers req result out call) {m : CORSMiddleware}
    (horigin : m.origin req ≠ []) :
    StackOutcome runtime (.cors m :: layers) req result
      (out.withHeaders (m.allow (m.origin req))) call where
  isStream := by
    rw [← h.isStream]
    cases out <;> rfl
  view := by
    rw [HandlerResult.view_allow, h.view, decided, View.given_given, decided, codingOf, grants,
      if_pos horigin]
  vary name hname := by
    have hheaders : (out.withHeaders (m.allow (m.origin req))).headers =
        m.allow (m.origin req) out.headers := by
      cases out <;> rfl
    rw [hheaders, m.get?_allow, varyWritten, if_pos horigin, Option.some_or]
    by_cases hvary : name = "Vary".toList
    · rw [if_pos hvary, if_pos hvary]
    · have hnone : Dict.assoc (m.granted (m.origin req)) name = none :=
        assoc_of_apart CORSMiddleware.granted_names (not_corsNames_of_vary hname)
      rw [if_neg hvary, if_neg hvary, hnone, Option.none_or, h.vary name hname, if_neg hvary]

/-- A compression layer that leaves the result alone. -/
theorem compression_skip (h : StackOutcome runtime layers req result out call)
    {layer : CompressionLayer} (hnone : layer.codingFor req out = none) :
    StackOutcome runtime (.compression layer :: layers) req result out call where
  isStream := h.isStream
  view := by
    rw [h.codingFor_eq layer] at hnone
    rw [h.view, decided, decided, codingOf, grants]
    cases hcoding : codingOf layers req result with
    | some coding => rfl
    | none =>
      rw [hcoding, if_pos rfl] at hnone
      rw [hnone, Option.or_none]
  vary name hname := by
    rw [h.codingFor_eq layer] at hnone
    have hskip : ¬ (codingOf layers req result = none ∧ layer.codingFor req result ≠ none) := by
      rintro ⟨hcoding, hsome⟩
      rw [if_pos hcoding] at hnone
      exact hsome hnone
    rw [h.vary name hname, varyWritten, if_neg hskip]

/-- A compression layer that codes the result. -/
theorem compression_code {resp : Response} {coding : Coding}
    (h : StackOutcome runtime layers req result (.response resp) call) {layer : CompressionLayer}
    (hsome : layer.codingFor req (.response resp) = some coding) :
    codingOf layers req result = none ∧
      StackOutcome runtime (.compression layer :: layers) req result
        (.response (CompressionMiddleware.encoded resp coding.name
          (coding.compress runtime resp.body call))) call := by
  rw [h.codingFor_eq layer] at hsome
  split at hsome
  · next hplain =>
    refine ⟨hplain, h.isStream, ?_, ?_⟩
    · have hview := h.view
      rw [decided, hplain] at hview
      rw [HandlerResult.view_encoded, hview, decided, codingOf, hplain, hsome, Option.none_or, grants]
      exact View.coded_given result.view coding (grants_names layers req)
    · intro name hname
      have hwrite : codingOf layers req result = none ∧ layer.codingFor req result ≠ none :=
        ⟨hplain, hsome ▸ Option.some_ne_none coding⟩
      rw [varyWritten, if_pos hwrite, Option.some_or]
      have hout := HandlerResult.get?_encoded resp coding
        (coding.compress runtime resp.body call) name
      by_cases hvary : name = "Vary".toList
      · rw [if_pos hvary] at hout ⊢
        exact hout
      · have hold := h.vary name hname
        rw [if_neg hvary] at hold hout ⊢
        rw [← hold]
        rw [coding.headers_not_vary _ hname, Option.none_or] at hout
        exact hout
  · cases hsome

end StackOutcome

/-- A stack turns a result of the handler into its outcome. -/
theorem build_outcome (runtime : Runtime) {handler : Endpoint (World α)} {result : HandlerResult} {w w₁ : World α}
    (hmethod : req.method ≠ "OPTIONS".toList) (hrun : handler req w = (.ok (.result result), w₁))
    (layers : List VaryLayer) :
    ∃ out w₂, build (varyStack runtime layers) handler req w = (.ok (.result out), w₂) ∧
      StackOutcome runtime layers req result out w₁.calls ∧
      (codingOf layers req result = none → w₂ = w₁) := by
  induction layers with
  | nil => exact ⟨result, w₁, hrun, .nil, fun _ => rfl⟩
  | cons layer layers ih =>
    obtain ⟨out, w₂, hbuild, hout, hcalls⟩ := ih
    cases layer with
    | cors m =>
      have hcall : build (varyStack runtime (.cors m :: layers)) handler req w =
          m.finish req (.result out) w₂ := by
        have hmw : build (varyStack runtime (.cors m :: layers)) handler req w =
            m.call req (build (varyStack runtime layers) handler) w := rfl
        rw [hmw, CORSMiddleware.call, if_neg hmethod, Act.bind_run, hbuild]
      rw [hcall, CORSMiddleware.finish]
      by_cases horigin : m.origin req ≠ []
      · rw [if_pos horigin]
        exact ⟨_, w₂, rfl, hout.cors_allow horigin, hcalls⟩
      · rw [if_neg horigin]
        exact ⟨out, w₂, rfl, hout.cors_skip horigin, hcalls⟩
    | compression layer =>
      have hcall : build (varyStack runtime (.compression layer :: layers)) handler req w =
          layer.finish runtime req (.result out) w₂ := by
        have hmw : build (varyStack runtime (.compression layer :: layers)) handler req w =
            (do let value ← build (varyStack runtime layers) handler req
                layer.finish runtime req value) w := by
          cases layer <;> rfl
        rw [hmw, Act.bind_run, hbuild]
      rw [hcall]
      cases hcoding : layer.codingFor req out with
      | none =>
        refine ⟨out, w₂, CompressionLayer.finish_codingFor_none hcoding w₂,
          hout.compression_skip hcoding, fun hnone => hcalls ?_⟩
        rw [codingOf, Option.or_eq_none_iff] at hnone
        exact hnone.1
      | some coding =>
        obtain ⟨resp, rfl, hfinish⟩ := CompressionLayer.finish_codingFor_some hcoding w₂
        obtain ⟨hplain, hcoded⟩ := hout.compression_code hcoding
        rw [hcalls hplain] at hfinish ⊢
        refine ⟨_, _, hfinish, hcoded, fun hnone => ?_⟩
        rw [hout.codingFor_eq layer, if_pos hplain] at hcoding
        rw [codingOf, hplain, hcoding] at hnone
        cases hnone

theorem respond_outcome (runtime : Runtime) {handler : Endpoint (World α)} {result : HandlerResult} {w w₁ : World α}
    (hmethod : req.method ≠ "OPTIONS".toList) (hrun : handler req w = (.ok (.result result), w₁))
    (layers : List VaryLayer) : ∃ out, respond runtime layers handler w req = some out ∧
      StackOutcome runtime layers req result out w₁.calls := by
  obtain ⟨out, w₂, hbuild, hout, -⟩ := build_outcome runtime hmethod hrun layers
  refine ⟨out, ?_, hout⟩
  rw [respond, hbuild]

namespace SameBut

variable {names : List Str} {req₁ req₂ : Request}

theorem method (h : SameBut names req₁ req₂) : req₁.method = req₂.method :=
  (congrArg Request.method h.rest :)

theorem header_eq (h : SameBut names req₁ req₂) {name : Str} (hname : lower name ∉ names) :
    req₁.header name = req₂.header name := by
  rw [Request.header, Request.header, headerOf, headerOf, h.header _ hname]

theorem symm (h : SameBut names req₁ req₂) : SameBut names req₂ req₁ :=
  ⟨fun name hname => (h.header name hname).symm, h.rawHeaders.symm, h.rest.symm⟩

theorem refl (names : List Str) (req : Request) : SameBut names req req :=
  ⟨fun _ _ => rfl, rfl, rfl⟩

end SameBut

/-- Two lists agree on what they have in common: one list has both as its parts. -/
theorem exists_merge {p q : α → Bool} {l₁ l₂ : List α} (hp : ∀ x ∈ l₁, p x = true)
    (hq : ∀ x ∈ l₂, q x = true) (h : l₁.filter q = l₂.filter p) :
    ∃ l : List α, l.filter p = l₁ ∧ l.filter q = l₂ := by
  induction l₁ generalizing l₂ with
  | nil => exact ⟨l₂, h.symm, List.filter_eq_self.2 hq⟩
  | cons x l₁ ih =>
    have hpx : p x = true := hp x List.mem_cons_self
    have hp' : ∀ y ∈ l₁, p y = true := fun y hy => hp y (List.mem_cons_of_mem x hy)
    by_cases hqx : q x = true
    · rw [List.filter_cons_of_pos hqx, eq_comm, List.filter_eq_cons_iff] at h
      obtain ⟨before, after, rfl, hbefore, -, hafter⟩ := h
      have hq' : ∀ y ∈ after, q y = true := fun y hy =>
        hq y (List.mem_append_right before (List.mem_cons_of_mem x hy))
      obtain ⟨l, hlp, hlq⟩ := ih hp' hq' hafter.symm
      refine ⟨before ++ x :: l, ?_, ?_⟩
      · rw [List.filter_append, List.filter_cons_of_pos hpx, hlp,
          List.filter_eq_nil_iff.2 hbefore, List.nil_append]
      · have hself : before.filter q = before := List.filter_eq_self.2 fun y hy =>
          hq y (List.mem_append_left _ hy)
        rw [List.filter_append, List.filter_cons_of_pos hqx, hlq, hself]
    · rw [List.filter_cons_of_neg hqx] at h
      obtain ⟨l, hlp, hlq⟩ := ih hp' hq h
      exact ⟨x :: l, by rw [List.filter_cons_of_pos hpx, hlp],
        by rw [List.filter_cons_of_neg hqx, hlq]⟩

/-- A request that has one of two headers from one request and the other from the other one. -/
theorem SameBut.exists_mixed {req₁ req₂ : Request} {a b : Str}
    (h : SameBut [a, b] req₁ req₂) : ∃ req, SameBut [a] req₁ req ∧ SameBut [b] req req₂ := by
  have hmem : ∀ name : Str, decide (name ∉ [a, b]) =
      (decide (name ∉ [a]) && decide (name ∉ [b])) := by
    intro name
    simp
  have hraw := h.rawHeaders
  simp only [hmem] at hraw
  have hcommon : (req₁.rawHeaders.filter fun e => decide (lower e.1 ∉ [a])).filter
      (fun e => decide (lower e.1 ∉ [b])) =
        (req₂.rawHeaders.filter fun e => decide (lower e.1 ∉ [b])).filter
          fun e => decide (lower e.1 ∉ [a]) := by
    rw [List.filter_filter, List.filter_filter]
    exact (List.filter_congr fun e _ => Bool.and_comm _ _).trans hraw
  obtain ⟨raw, hraw₁, hraw₂⟩ := exists_merge (fun _ he => (List.mem_filter.1 he).2)
    (fun _ he => (List.mem_filter.1 he).2) hcommon
  have hheaders : ∃ headers : Headers, ∀ name, headers.get? name =
      if name = a then req₂.headers.get? a else req₁.headers.get? name := by
    cases hvalue : req₂.headers.get? a with
    | none => exact ⟨req₁.headers.erase a, fun name => Dict.get?_erase _ _ _⟩
    | some value => exact ⟨req₁.headers.set a value, fun name => Dict.get?_set _ _ _ _⟩
  obtain ⟨headers, hheaders⟩ := hheaders
  refine ⟨{ req₁ with headers := headers, rawHeaders := raw }, ⟨?_, hraw₁.symm, rfl⟩,
    ⟨?_, hraw₂, h.rest⟩⟩
  · intro name hname
    rw [List.mem_singleton] at hname
    rw [hheaders, if_neg hname]
  · intro name hname
    rw [List.mem_singleton] at hname
    rw [hheaders]
    split
    · next hna => rw [hna]
    · next hna => exact h.header name (by simp [hna, hname])

theorem grants_congr {req₁ req₂ : Request} (h : SameBut ["accept-encoding".toList] req₁ req₂)
    (layers : List VaryLayer) : grants layers req₁ = grants layers req₂ := by
  have hheader : req₁.header "origin".toList = req₂.header "origin".toList :=
    h.header_eq (by decide)
  induction layers with
  | nil => rfl
  | cons layer layers ih =>
    cases layer with
    | cors m =>
      have horigin : m.origin req₁ = m.origin req₂ := by
        rw [CORSMiddleware.origin, CORSMiddleware.origin, hheader]
      rw [grants, grants, ih, horigin]
    | compression layer => exact ih

theorem codingOf_congr {req₁ req₂ : Request} (h : SameBut ["origin".toList] req₁ req₂)
    (layers : List VaryLayer) (result : HandlerResult) :
    codingOf layers req₁ result = codingOf layers req₂ result := by
  have hheader : req₁.header "accept-encoding".toList = req₂.header "accept-encoding".toList :=
    h.header_eq (by decide)
  induction layers with
  | nil => rfl
  | cons layer layers ih =>
    cases layer with
    | cors m => exact ih
    | compression layer =>
      have hcoding : layer.codingFor req₁ result = layer.codingFor req₂ result := by
        have hown : ∀ size contentType, layer.coding req₁ size contentType =
            layer.coding req₂ size contentType := by
          intro size contentType
          rw [CompressionLayer.coding.eq_def, CompressionLayer.coding.eq_def, hheader]
        rw [CompressionLayer.codingFor, CompressionLayer.codingFor, hown]
      rw [codingOf, codingOf, ih, hcoding]

/-- The view of the response to a request that is like the one request apart from `Origin` and like
the other one apart from `Accept-Encoding`. -/
theorem view_mixed (runtime : Runtime) (layers : List VaryLayer) {handler : Endpoint (World α)}
    (hfree : IgnoresOrigin handler) {req₁ req₂ : Request} {result : HandlerResult} {w w₁ : World α}
    (hmethod : req₂.method ≠ "OPTIONS".toList) (hrun : handler req₂ w = (.ok (.result result), w₁))
    (hcoding : SameBut ["origin".toList] req₂ req)
    (hgrants : SameBut ["accept-encoding".toList] req₁ req) :
    (respond runtime layers handler w req).map HandlerResult.view =
      some (decided runtime layers req₁ req₂ result w₁.calls) := by
  rw [hcoding.method] at hmethod
  rw [hfree _ _ w hcoding] at hrun
  obtain ⟨out, hrespond, hout⟩ := respond_outcome runtime hmethod hrun layers
  rw [hrespond, Option.map_some, hout.view, decided, decided, grants_congr hgrants,
    codingOf_congr hcoding]

theorem namesHeader_of_plain {value : Str} (hsplit : value.splitOn ',' = [value])
    (hstrip : strStrip value = value) (hstar : value ≠ ['*']) (header : Str) :
    namesHeader value header ↔ lower value = header := by
  rw [namesHeader, hsplit]
  simp only [List.mem_singleton, exists_eq_left, hstrip, hstar, false_or]

/-- What a layer writes names one header. -/
theorem varyWritten_names {layers : List VaryLayer} {result : HandlerResult} {value : Str}
    (h : varyWritten layers req result = some value) (header : Str) :
    namesHeader value header ↔ lower value = header := by
  have horigin : namesHeader "Origin".toList header ↔ lower "Origin".toList = header :=
    namesHeader_of_plain (by decide) (by decide) (by decide) header
  have haccept : namesHeader "Accept-Encoding".toList header ↔
      lower "Accept-Encoding".toList = header :=
    namesHeader_of_plain (by decide) (by decide) (by decide) header
  induction layers with
  | nil => cases h
  | cons layer layers ih =>
    cases layer with
    | cors m =>
      rw [varyWritten] at h
      split at h
      · cases h
        exact horigin
      · exact ih h
    | compression layer =>
      rw [varyWritten] at h
      split at h
      · cases h
        exact haccept
      · exact ih h

/-- The `Vary` of the outcome of a stack. -/
theorem StackOutcome.varies_iff {layers : List VaryLayer} {result out : HandlerResult}
    (h : StackOutcome runtime layers req result out call) (header : Str) :
    out.varies header ↔ VaryKept layers req result header := by
  constructor
  · rintro ⟨name, value, hget, hname, hnames⟩
    rw [h.vary name hname] at hget
    cases hwritten : varyWritten layers req result with
    | none =>
      rw [hwritten, Option.none_or, ite_self] at hget
      exact .inr ⟨name, value, hget, hname, fun _ => hwritten, hnames⟩
    | some written =>
      rw [hwritten, Option.some_or] at hget
      split at hget
      · cases hget
        exact .inl ⟨value, hwritten, (varyWritten_names hwritten header).1 hnames⟩
      · next hvary => exact .inr ⟨name, value, hget, hname, fun h => absurd h hvary, hnames⟩
  · rintro (⟨value, hwritten, hvalue⟩ | ⟨name, value, hget, hname, hnone, hnames⟩)
    · refine ⟨"Vary".toList, value, ?_, by decide, (varyWritten_names hwritten header).2 hvalue⟩
      rw [h.vary _ (by decide), if_pos rfl, hwritten, Option.some_or]
    · refine ⟨name, value, ?_, hname, hnames⟩
      rw [h.vary name hname]
      split
      · next hvary => rw [hnone hvary, Option.none_or, hget]
      · exact hget

section Pair

variable (runtime : Runtime) (layers : List VaryLayer) {handler : Endpoint (World α)}
  {req₁ req₂ : Request} {result₁ result₂ : HandlerResult} {w w₁ w₂ : World α}

theorem dependsOn_origin (hfree : IgnoresOrigin handler)
    (hmethod : req₁.method ≠ "OPTIONS".toList) (hsame : SameBut negotiated req₁ req₂)
    (hrun₁ : handler req₁ w = (.ok (.result result₁), w₁))
    (hrun₂ : handler req₂ w = (.ok (.result result₂), w₂)) :
    DependsOn (respond runtime layers handler w) "origin".toList req₁ req₂ ↔
      OriginMatters runtime layers ⟨req₁, result₁, w₁.calls⟩ ⟨req₂, result₂, w₂.calls⟩ := by
  have hmethod₂ : req₂.method ≠ "OPTIONS".toList := hsame.method ▸ hmethod
  have herase : negotiated.erase "origin".toList = ["accept-encoding".toList] := rfl
  have hview₁ := view_mixed runtime layers hfree hmethod hrun₁ (.refl _ _) (.refl _ _)
  have hview₂ := view_mixed runtime layers hfree hmethod₂ hrun₂ (.refl _ _) (.refl _ _)
  rw [DependsOn, herase]
  constructor
  · rintro ⟨req, ⟨horigin, haccept, hne⟩ | ⟨haccept, horigin, hne⟩⟩
    · rw [hview₁, view_mixed runtime layers hfree hmethod hrun₁ horigin haccept.symm] at hne
      exact .inl fun h => hne (congrArg some h)
    · rw [hview₂, view_mixed runtime layers hfree hmethod₂ hrun₂ horigin.symm haccept] at hne
      exact .inr fun h => hne (congrArg some h)
  · rintro (hne | hne)
    · obtain ⟨req, horigin, haccept⟩ := hsame.exists_mixed
      refine ⟨req, .inl ⟨horigin, haccept, fun h => hne ?_⟩⟩
      rw [hview₁, view_mixed runtime layers hfree hmethod hrun₁ horigin haccept.symm] at h
      exact Option.some.inj h
    · obtain ⟨req, horigin, haccept⟩ := hsame.symm.exists_mixed
      refine ⟨req, .inr ⟨haccept.symm, horigin.symm, fun h => hne ?_⟩⟩
      rw [hview₂, view_mixed runtime layers hfree hmethod₂ hrun₂ horigin haccept.symm] at h
      exact Option.some.inj h

theorem dependsOn_accept (hfree : IgnoresOrigin handler)
    (hmethod : req₁.method ≠ "OPTIONS".toList) (hsame : SameBut negotiated req₁ req₂)
    (hrun₁ : handler req₁ w = (.ok (.result result₁), w₁))
    (hrun₂ : handler req₂ w = (.ok (.result result₂), w₂)) :
    DependsOn (respond runtime layers handler w) "accept-encoding".toList req₁ req₂ ↔
      AcceptMatters runtime layers ⟨req₁, result₁, w₁.calls⟩ ⟨req₂, result₂, w₂.calls⟩ := by
  have hmethod₂ : req₂.method ≠ "OPTIONS".toList := hsame.method ▸ hmethod
  have herase : negotiated.erase "accept-encoding".toList = ["origin".toList] := rfl
  have hview₁ := view_mixed runtime layers hfree hmethod hrun₁ (.refl _ _) (.refl _ _)
  have hview₂ := view_mixed runtime layers hfree hmethod₂ hrun₂ (.refl _ _) (.refl _ _)
  rw [DependsOn, herase]
  constructor
  · rintro ⟨req, ⟨haccept, horigin, hne⟩ | ⟨horigin, haccept, hne⟩⟩
    · rw [hview₁, view_mixed runtime layers hfree hmethod₂ hrun₂ horigin.symm haccept] at hne
      exact .inl fun h => hne (congrArg some h)
    · rw [hview₂, view_mixed runtime layers hfree hmethod hrun₁ horigin haccept.symm] at hne
      exact .inr fun h => hne (congrArg some h)
  · rintro (hne | hne)
    · obtain ⟨req, horigin, haccept⟩ := hsame.symm.exists_mixed
      refine ⟨req, .inl ⟨haccept.symm, horigin.symm, fun h => hne ?_⟩⟩
      rw [hview₁, view_mixed runtime layers hfree hmethod₂ hrun₂ horigin haccept.symm] at h
      exact Option.some.inj h
    · obtain ⟨req, horigin, haccept⟩ := hsame.exists_mixed
      refine ⟨req, .inr ⟨horigin, haccept, fun h => hne ?_⟩⟩
      rw [hview₂, view_mixed runtime layers hfree hmethod hrun₁ horigin haccept.symm] at h
      exact Option.some.inj h

/-- `Vary` is complete for two requests exactly where the outermost layer that writes it names what
the responses depend on. -/
theorem varyComplete_iff (hfree : IgnoresOrigin handler) (hmethod : req₁.method = "GET".toList)
    (hsame : SameBut negotiated req₁ req₂) (hrun₁ : handler req₁ w = (.ok (.result result₁), w₁))
    (hrun₂ : handler req₂ w = (.ok (.result result₂), w₂)) :
    VaryComplete (respond runtime layers handler w) req₁ req₂ ↔
      VaryReliable runtime layers ⟨req₁, result₁, w₁.calls⟩ ⟨req₂, result₂, w₂.calls⟩ := by
  have hmethod₁ : req₁.method ≠ "OPTIONS".toList := by
    rw [hmethod]
    decide
  have hmethod₂ : req₂.method ≠ "OPTIONS".toList := hsame.method ▸ hmethod₁
  have horigin := dependsOn_origin runtime layers hfree hmethod₁ hsame hrun₁ hrun₂
  have haccept := dependsOn_accept runtime layers hfree hmethod₁ hsame hrun₁ hrun₂
  obtain ⟨out₁, hrespond₁, hout₁⟩ := respond_outcome runtime hmethod₁ hrun₁ layers
  obtain ⟨out₂, hrespond₂, hout₂⟩ := respond_outcome runtime hmethod₂ hrun₂ layers
  have hdiffer : out₁.view ≠ out₂.view ↔
      Asked.view runtime layers ⟨req₁, result₁, w₁.calls⟩ ⟨req₁, result₁, w₁.calls⟩ ≠
        Asked.view runtime layers ⟨req₂, result₂, w₂.calls⟩ ⟨req₂, result₂, w₂.calls⟩ := by
    rw [hout₁.view, hout₂.view, Asked.view, Asked.view]
  constructor
  · intro h hne
    have hnames := h out₁ out₂ hrespond₁ hrespond₂ (hdiffer.2 hne)
    simp only [hout₁.varies_iff, hout₂.varies_iff] at hnames
    constructor
    · intro hmatters
      exact hnames _ (List.mem_cons_self) (horigin.2 hmatters)
    · intro hmatters
      exact hnames _ (List.mem_cons_of_mem _ List.mem_cons_self) (haccept.2 hmatters)
  · intro h result₁' result₂' hresult₁ hresult₂ hne header hheader hdepends
    rw [hrespond₁] at hresult₁
    rw [hrespond₂] at hresult₂
    cases hresult₁
    cases hresult₂
    obtain ⟨hkept₁, hkept₂⟩ := h (hdiffer.1 hne)
    rw [hout₁.varies_iff, hout₂.varies_iff]
    rcases List.mem_pair.1 hheader with rfl | rfl
    · exact hkept₁ (horigin.1 hdepends)
    · exact hkept₂ (haccept.1 hdepends)

end Pair

/-- `serve_html5_file` does not look at `Origin`. -/
theorem serveHtml5File_ignoresOrigin (runtime : Runtime) (lib : FileLibrary) (tree : FileTree)
    (opts : Html5Options) (root : List Str) (assetPath : Str) :
    IgnoresOrigin (α := α) fun req => serveHtml5File runtime lib tree opts root req assetPath := by
  intro req₁ req₂ w h
  have hfind : findAsset tree opts root req₁ assetPath = findAsset tree opts root req₂ assetPath := by
    have haccept : req₁.header "accept".toList = req₂.header "accept".toList :=
      h.header_eq (by decide)
    rw [findAsset, findAsset, haccept, h.method]
  have hserve : ∀ path data, serveAsset (α := α) runtime lib opts root req₁ path data =
      serveAsset runtime lib opts root req₂ path data := by
    intro path data
    have hmatch : req₁.header "if-none-match".toList = req₂.header "if-none-match".toList :=
      h.header_eq (by decide)
    have hrange : req₁.header "range".toList = req₂.header "range".toList :=
      h.header_eq (by decide)
    have haccept : req₁.header "accept-encoding".toList = req₂.header "accept-encoding".toList :=
      h.header_eq (by decide)
    rw [serveAsset, serveAsset, rangeResponse, rangeResponse, hmatch, hrange, haccept]
  dsimp only
  rw [serveHtml5File, serveHtml5File, hfind]
  cases findAsset tree opts root req₂ assetPath with
  | error e => rfl
  | ok found => exact congrFun (hserve found.1 found.2) w

/-- `a.txt` from `serve_html5_file`. -/
def noteAsset : Endpoint (World Unit) := fun req =>
  serveHtml5File noteRuntime noteLibrary noteTree {} [] req "a.txt".toList

/-- The byte is sent as it is. -/
def plainAsset : Response where
  body := [97]
  headers := assetHeaders noteLibrary {} [] ["a.txt".toList] ⟨[97], 0⟩
  contentType := "text/plain; charset=utf-8".toList

theorem sameBut_note {headers₁ headers₂ : List (Str × Str)} {names : List Str}
    (h : ∀ name ∉ names, ((∅ : Headers).update headers₁).get? name =
      ((∅ : Headers).update headers₂).get? name) :
    SameBut names (noteRequest headers₁) (noteRequest headers₂) :=
  ⟨h, rfl, rfl⟩

theorem varyComplete_iff_note :
    VaryComplete (respond noteRuntime [.compression (.gzip ⟨1, 6⟩)] noteAsset noteWorld)
        (noteRequest []) (noteRequest [("accept-encoding".toList, "gzip".toList)]) ↔
      VaryReliable noteRuntime [.compression (.gzip ⟨1, 6⟩)]
        ⟨noteRequest [], .response plainAsset, 0⟩
        ⟨noteRequest [("accept-encoding".toList, "gzip".toList)], .response plainAsset, 0⟩ := by
  have hsame : SameBut negotiated (noteRequest [])
      (noteRequest [("accept-encoding".toList, "gzip".toList)]) := by
    apply sameBut_note
    intro name hname
    have hne : ¬ name = "accept-encoding".toList := fun h => hname (h ▸ by decide)
    exact ((Dict.get?_set _ _ _ _).trans (if_neg hne)).symm
  have hplain : noteAsset (noteRequest []) noteWorld =
      (.ok (.result (.response plainAsset)), noteWorld) := rfl
  have hgzip : noteAsset (noteRequest [("accept-encoding".toList, "gzip".toList)]) noteWorld =
      (.ok (.result (.response plainAsset)), noteWorld) := rfl
  exact varyComplete_iff noteRuntime _ (serveHtml5File_ignoresOrigin _ _ _ _ _ _) rfl hsame
    hplain hgzip

/-- A page of one byte. -/
def notePage : Endpoint (World Unit) := fun _ => return .result (.response { body := [97] })

/-- A `CORSMiddleware` that allows one origin. -/
def noteOrigins : CORSMiddleware :=
  ⟨["https://a".toList], "GET".toList, "Content-Type".toList, false, "86400".toList⟩

/-- The page for the origin that is allowed, and for another one. -/
def allowedPage : HandlerResult :=
  .response { body := [97], headers := noteOrigins.allow "https://a".toList ∅ }

def otherPage : HandlerResult := .response { body := [97] }

/-- A request for the page from the origin that is allowed, and one from another origin: a cache may
use the response to the second one for the first one. -/
theorem vary_of_another_origin :
    IgnoresOrigin notePage ∧
      SameBut ["origin".toList] (noteRequest [("origin".toList, "https://a".toList)])
        (noteRequest [("origin".toList, "https://b".toList)]) ∧
      ¬ VaryComplete (respond noteRuntime [.cors noteOrigins] notePage noteWorld)
        (noteRequest [("origin".toList, "https://a".toList)])
        (noteRequest [("origin".toList, "https://b".toList)]) := by
  have hsame : SameBut ["origin".toList] (noteRequest [("origin".toList, "https://a".toList)])
      (noteRequest [("origin".toList, "https://b".toList)]) := by
    apply sameBut_note
    intro name hname
    have hne : ¬ name = "origin".toList := fun h => hname (List.mem_singleton.2 h)
    exact ((Dict.get?_set _ _ _ _).trans (if_neg hne)).trans
      ((Dict.get?_set _ _ _ _).trans (if_neg hne)).symm
  refine ⟨fun _ _ _ _ => rfl, hsame, fun h => ?_⟩
  have hallowed : allowedPage.view ≠ otherPage.view := by
    intro hview
    have hheader := congrFun (congrArg View.header hview) "Access-Control-Allow-Origin".toList
    revert hheader
    decide
  obtain ⟨-, name, value, hget, -⟩ := h allowedPage otherPage rfl rfl hallowed "origin".toList
    (by decide) ⟨_, .inl ⟨hsame, .refl _ _, fun hview => hallowed (Option.some.inj hview)⟩⟩
  cases hget

end Sovereign
