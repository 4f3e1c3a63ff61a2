import Sovereign.JsonText
import Sovereign.Lib.EventSource
import Sovereign.Response
import Sovereign.Unquote

namespace Sovereign
open EventSource
set_option autoImplicit true

/-- The data of an event: a string stays as it is. -/
inductive EventData (φ : Type) where
  | str (s : Str)
  | json (data : JsonData φ)

/-- `data if isinstance(data, str) else json.dumps(data, ensure_ascii=False)` -/
def EventData.payload (floatRepr : φ → Str) : EventData φ → Str
  | str s => s
  | json data => data.dumps floatRepr

/-- `f"event: {event}\ndata: {payload}\n\n"` -/
def eventText (event payload : Str) : Str :=
  "event: ".toList ++ event ++ "\ndata: ".toList ++ payload ++ "\n\n".toList

/-- `SSEResponse` -/
def sseResponse (floatRepr : φ → Str) (events : List (Str × EventData φ)) (status : Int)
    (headers : Headers) : StreamResponse where
  chunks := events.map fun e => .bytes (utf8 (eventText e.1 (e.2.payload floatRepr)))
  status := status
  headers := (∅ : Headers).update ([("Cache-Control".toList, "no-cache".toList),
    ("X-Accel-Buffering".toList, "no".toList)] ++ headers.entries)
  contentType := "text/event-stream; charset=utf-8".toList

/-- What an `EventSource` makes of the bytes of a stream; a byte order mark at the beginning is left
out. -/
def eventsOf (bytes : Bytes) : List EventSource.Event :=
  match decodeReplace bytes with
  | '\uFEFF' :: stream => parse stream
  | stream => parse stream

/-- The events that were given to the response. -/
def given (floatRepr : φ → Str) (events : List (Str × EventData φ)) : List EventSource.Event :=
  events.map fun e => ⟨e.1, e.2.payload floatRepr⟩

/-- The text of the stream. -/
def streamText (events : List EventSource.Event) : Str :=
  events.flatMap fun e => eventText e.name e.data

theorem utf8_flatten (texts : List Str) : texts.flatMap utf8 = utf8 texts.flatten := by
  induction texts with
  | nil => rfl
  | cons text texts ih =>
    rw [List.flatMap_cons, ih, List.flatten_cons, utf8, utf8, utf8, List.flatMap_append]

theorem eventText_eq (event payload : Str) :
    eventText event payload = ("event: ".toList ++ event) ++
      '\n' :: (("data: ".toList ++ payload) ++ ['\n', '\n']) := by
  have hdata : "\ndata: ".toList = '\n' :: "data: ".toList := by decide
  have hend : "\n\n".toList = ['\n', '\n'] := by decide
  unfold eventText
  rw [hdata, hend]
  generalize "event: ".toList = nameField
  generalize "data: ".toList = dataField
  simp only [List.append_assoc, List.cons_append]

theorem streamText_cons (e : EventSource.Event) (events : List EventSource.Event) :
    streamText (e :: events) = ("event: ".toList ++ e.name) ++
      '\n' :: (("data: ".toList ++ e.data) ++ '\n' :: ([] ++ '\n' :: streamText events)) := by
  rw [streamText, List.flatMap_cons, eventText_eq, ← streamText]
  generalize "event: ".toList = nameField
  generalize "data: ".toList = dataField
  simp only [List.append_assoc, List.cons_append, List.nil_append]

theorem eventsOf_utf8 {stream : Str} (h : stream.head? ≠ some '\uFEFF') :
    eventsOf (utf8 stream) = parse stream := by
  rw [eventsOf, decodeReplace_utf8]
  split
  · exact absurd rfl h
  · rfl

/-- What is read is the text of the events. -/
theorem eventsOf_sseResponse (floatRepr : φ → Str) (events : List (Str × EventData φ))
    (status : Int) (headers : Headers) :
    eventsOf (HandlerResult.stream (sseResponse floatRepr events status headers)).content =
      parse (streamText (given floatRepr events)) := by
  have hcontent : (HandlerResult.stream (sseResponse floatRepr events status headers)).content =
      utf8 (streamText (given floatRepr events)) := by
    have htexts := utf8_flatten (events.map fun e => eventText e.1 (e.2.payload floatRepr))
    rw [List.flatMap_map] at htexts
    have hchunks : (HandlerResult.stream (sseResponse floatRepr events status headers)).content =
        events.flatMap fun e => utf8 (eventText e.1 (e.2.payload floatRepr)) :=
      List.flatMap_map _ _ events
    rw [hchunks, htexts, streamText, given, List.flatMap_map, List.flatMap_def]
  have hhead : (streamText (given floatRepr events)).head? ≠ some '\uFEFF' := by
    cases events with
    | nil => exact nofun
    | cons e events =>
      rw [given, List.map_cons, streamText_cons]
      exact (by decide : some 'e' ≠ some '\uFEFF')
  rw [hcontent, eventsOf_utf8 hhead]

/-- An event that is one block of three lines. -/
def Plain (e : EventSource.Event) : Prop := e.name ≠ [] ∧ OneLine e.name ∧ OneLine e.data

theorem parse_streamText {events : List EventSource.Event} (h : ∀ e ∈ events, Plain e) :
    parse (streamText events) = events := by
  induction events with
  | nil => rfl
  | cons e events ih =>
    obtain ⟨hne, hname, hdata⟩ := h e List.mem_cons_self
    have hrest := ih fun d hd => h d (List.mem_cons_of_mem e hd)
    rw [streamText_cons, List.nil_append, parse_block hne hname hdata, hrest]

/-- The room that the data of an event finds in its own lines. -/
def room (e : EventSource.Event) : Nat :=
  if '\n' ∈ e.data then e.data.length else e.data.length + 1

theorem streamText_weight {events : List EventSource.Event}
    (h : ∀ e ∈ events, OneLine e.name ∧ '\r' ∉ e.data) :
    ((Lines.split '\r' '\n' false (streamText events)).1.map weight).sum ≤
      (events.map room).sum := by
  have hne : '\r' ≠ '\n' := by decide
  induction events with
  | nil => exact Nat.le_refl _
  | cons e events ih =>
    obtain ⟨hname, hdata⟩ := h e List.mem_cons_self
    have hrest := ih fun d hd => h d (List.mem_cons_of_mem e hd)
    have hevent : OneLine ("event: ".toList ++ e.name) := .append (by decide) hname
    have hfield : '\r' ∉ "data: ".toList ++ e.data := by
      rw [List.mem_append, not_or]
      exact ⟨by decide, hdata⟩
    have hlines := weight_data_lines e.data
    have hzero : weight ("event: ".toList ++ e.name) = 0 := rfl
    have hempty : weight [] = 0 := rfl
    rw [streamText_cons, Lines.split_line hne hevent, Lines.split_feeds hne hfield,
      Lines.split_line hne Lines.within_nil]
    simp only [List.map_cons, List.map_append, List.sum_cons, List.sum_append, hzero, hempty]
    rw [← room] at hlines
    omega

/-- Data with a line feed in it does not find its room. -/
theorem feed_of_room {events : List EventSource.Event}
    (h : (events.map fun e => e.data.length + 1).sum ≤ (events.map room).sum) :
    ∀ e ∈ events, '\n' ∉ e.data := by
  have hle : ∀ events : List EventSource.Event,
      (events.map room).sum ≤ (events.map fun e => e.data.length + 1).sum := by
    intro events
    induction events with
    | nil => exact Nat.le_refl _
    | cons e events ih =>
      have he : room e ≤ e.data.length + 1 := by
        rw [room]
        split <;> omega
      rw [List.map_cons, List.map_cons, List.sum_cons, List.sum_cons]
      omega
  induction events with
  | nil => intro e he; cases he
  | cons d events ih =>
    have hrest := hle events
    rw [List.map_cons, List.map_cons, List.sum_cons, List.sum_cons] at h
    have hd : '\n' ∉ d.data := by
      intro hmem
      rw [room, if_pos hmem] at h
      omega
    rw [room, if_neg hd] at h
    intro e he
    rcases List.mem_cons.1 he with rfl | he
    · exact hd
    · exact ih (by omega) e he

/-- Events that are read as they were given are plain. -/
theorem plain_of_parse {events : List EventSource.Event} (h : parse (streamText events) = events) :
    ∀ e ∈ events, Plain e := by
  have hlines : ∀ line ∈ (Lines.split '\r' '\n' false (streamText events)).1,
      Lines.Within '\r' '\n' line := Lines.split_within (streamText events) false
  have hname : ∀ e ∈ events, e.name ≠ [] ∧ OneLine e.name := by
    have hall := events_name hlines (b := {}) Lines.within_nil
    rw [← parse, h] at hall
    exact hall
  have hreturn : ∀ e ∈ events, '\r' ∉ e.data := by
    have hall := events_data hlines (b := {}) fun value hv => absurd hv List.not_mem_nil
    rw [← parse, h] at hall
    exact hall
  have hroom := events_weight {} (Lines.split '\r' '\n' false (streamText events)).1
  rw [← parse, h] at hroom
  have hweight := streamText_weight fun e he => ⟨(hname e he).2, hreturn e he⟩
  have hfeed : ∀ e ∈ events, '\n' ∉ e.data := by
    apply feed_of_room
    refine hroom.trans ?_
    simpa using hweight
  exact fun e he => ⟨(hname e he).1, (hname e he).2, hreturn e he, hfeed e he⟩

/-- A stream of events is read back as these events exactly where each has a name, and neither a name
nor a string has a line end in it. -/
theorem sse_read_back (floatRepr : φ → Str) (hfloat : ∀ x, OneLine (floatRepr x))
    (events : List (Str × EventData φ)) (status : Int) (headers : Headers) :
    eventsOf (HandlerResult.stream (sseResponse floatRepr events status headers)).content =
        given floatRepr events ↔
      ∀ e ∈ events, e.1 ≠ [] ∧ OneLine e.1 ∧ ∀ s, e.2 = .str s → OneLine s := by
  have hplain : (∀ e ∈ given floatRepr events, Plain e) ↔
      ∀ e ∈ events, e.1 ≠ [] ∧ OneLine e.1 ∧ ∀ s, e.2 = .str s → OneLine s := by
    rw [given, List.forall_mem_map]
    apply forall₂_congr
    intro e he
    obtain ⟨name, data⟩ := e
    cases data with
    | str s => simp [Plain, EventData.payload]
    | json data => simp [Plain, EventData.payload, data.dumps_within hfloat]
  rw [eventsOf_sseResponse, ← hplain]
  constructor
  · exact plain_of_parse
  · exact parse_streamText

/-- `Unit` for the floats: all of them are 0.5. -/
def halfRepr (_ : Unit) : Str := "0.5".toList

def plainEvents : List (Str × EventData Unit) :=
  [("message".toList, .str "data: 1".toList),
    ("tick".toList, .json (.dict [(.str "a\n".toList, .list [.scalar (.float ()), .scalar .null])]))]

theorem sse_read_back_plain :
    eventsOf (HandlerResult.stream (sseResponse halfRepr plainEvents 200 ∅)).content =
      [⟨"message".toList, "data: 1".toList⟩,
        ⟨"tick".toList, "\x7b\"a\\n\": [0.5, null]\x7d".toList⟩] := by
  refine ((sse_read_back halfRepr
    (fun _ => (by decide : OneLine "0.5".toList)) plainEvents 200 ∅).2 ?_).trans (by decide)
  intro e he
  rcases List.mem_cons.1 he with rfl | he
  · refine ⟨by decide, by decide, fun s hs => ?_⟩
    cases hs
    decide
  · rw [List.mem_singleton.1 he]
    exact ⟨by decide, by decide, nofun⟩

def brokenEvents : List (Str × EventData Unit) := [("message".toList, .str "a\nb".toList)]

/-- What follows a line feed in a string is lost. -/
theorem sse_line_feed :
    eventsOf (HandlerResult.stream (sseResponse halfRepr brokenEvents 200 ∅)).content =
        [⟨"message".toList, "a".toList⟩] ∧
      eventsOf (HandlerResult.stream (sseResponse halfRepr brokenEvents 200 ∅)).content ≠
        given halfRepr brokenEvents := by
  decide +kernel

end Sovereign
