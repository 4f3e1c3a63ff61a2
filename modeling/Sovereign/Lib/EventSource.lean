import Mathlib.Algebra.BigOperators.Group.List.Basic
import Sovereign.Lib.Lines
import Sovereign.Lib.Marker

set_option autoImplicit true

/-! The reading of an event stream, as the `EventSource` of a browser does it. -/

namespace EventSource

/-- An event as it is dispatched. -/
structure Event where
  name : List Char
  data : List Char
deriving DecidableEq

/-- What the lines since the last event come to: the event type, and the values of the data fields. -/
structure Buffers where
  name : List Char := []
  data : List (List Char) := []

def dropSpace : List Char → List Char
  | ' ' :: value => value
  | value => value

/-- The name of a field and its value. The name of a comment is empty. -/
def field (line : List Char) : List Char × List Char :=
  (line.takeWhile (· ≠ ':'), dropSpace (line.dropWhile (· ≠ ':')).tail)

/-- An empty line dispatches an event where there has been a data field. -/
def dispatch (b : Buffers) (line : List Char) : Option Event :=
  if line ≠ [] ∨ b.data = [] then none
  else some ⟨if b.name = [] then "message".toList else b.name, ['\n'].intercalate b.data⟩

/-- Fields other than `event` and `data` make no event. -/
def step (b : Buffers) (line : List Char) : Buffers :=
  if line = [] then {}
  else if (field line).1 = "event".toList then { b with name := (field line).2 }
  else if (field line).1 = "data".toList then { b with data := b.data ++ [(field line).2] }
  else b

/-- The events of some lines. -/
def events (b : Buffers) : List (List Char) → List Event
  | [] => []
  | line :: lines => (dispatch b line).toList ++ events (step b line) lines

/-- The events of a stream. A line without an end and an event without an empty line are dropped. -/
def parse (stream : List Char) : List Event := events {} (Lines.split '\r' '\n' false stream).1

abbrev OneLine (s : List Char) : Prop := Lines.Within '\r' '\n' s

theorem field_event (name : List Char) :
    field ("event: ".toList ++ name) = ("event".toList, name) := rfl

theorem field_data (value : List Char) :
    field ("data: ".toList ++ value) = ("data".toList, value) := rfl

/-- A block of an event field, a data field and an empty line, in front of other lines. -/
theorem events_block {name : List Char} (hname : name ≠ []) (data : List Char)
    (lines : List (List Char)) :
    events {} (("event: ".toList ++ name) :: ("data: ".toList ++ data) :: [] :: lines) =
      ⟨name, data⟩ :: events {} lines := by
  have hevent : step {} ("event: ".toList ++ name) = ⟨name, []⟩ := rfl
  have hdata : step ⟨name, []⟩ ("data: ".toList ++ data) = ⟨name, [data]⟩ := rfl
  have hdispatch : dispatch ⟨name, [data]⟩ [] = some ⟨name, data⟩ := by
    simp [dispatch, hname]
  rw [events, hevent, events, hdata, events, hdispatch]
  rfl

theorem parse_block {name data : List Char} (hne : name ≠ []) (hname : OneLine name)
    (hdata : OneLine data) (s : List Char) :
    parse (("event: ".toList ++ name) ++ '\n' :: (("data: ".toList ++ data) ++ '\n' :: '\n' :: s)) =
      ⟨name, data⟩ :: parse s := by
  have hlf : '\r' ≠ '\n' := by decide
  have hevent : OneLine "event: ".toList := by decide
  have hfield : OneLine "data: ".toList := by decide
  have hempty := Lines.split_line hlf Lines.within_nil s
  rw [parse, Lines.split_line hlf (hevent.append hname), Lines.split_line hlf (hfield.append hdata)]
  rw [List.nil_append] at hempty
  rw [hempty]
  exact events_block hne data _

theorem dropSpace_suffix (value : List Char) : dropSpace value <:+ value := by
  unfold dropSpace
  split
  · exact List.suffix_cons _ _
  · exact List.suffix_refl _

theorem field_suffix (line : List Char) : (field line).2 <:+ line.dropWhile (· ≠ ':') :=
  (dropSpace_suffix _).trans (List.tail_suffix _)

theorem field_length (line : List Char) :
    (field line).1.length + (field line).2.length ≤ line.length := by
  have hvalue := (field_suffix line).length_le
  have hline := congrArg List.length (List.takeWhile_append_dropWhile (p := (· ≠ ':')) (l := line))
  rw [List.length_append] at hline
  rw [field] at hvalue ⊢
  dsimp only at hvalue ⊢
  omega

theorem field_within {line : List Char} (h : OneLine line) : OneLine (field line).2 := by
  have hsub : (field line).2 ⊆ line :=
    ((field_suffix line).trans (List.dropWhile_suffix _)).subset
  exact ⟨fun hc => h.1 (hsub hc), fun hc => h.2 (hsub hc)⟩

/-! What no event can have, whatever is in the lines. -/

theorem events_name {lines : List (List Char)} (h : ∀ line ∈ lines, OneLine line) {b : Buffers}
    (hb : OneLine b.name) : ∀ e ∈ events b lines, e.name ≠ [] ∧ OneLine e.name := by
  induction lines generalizing b with
  | nil => intro e he; cases he
  | cons line lines ih =>
    have hrest := fun l hl => h l (List.mem_cons_of_mem line hl)
    have hstep : OneLine (step b line).name := by
      rw [step]
      split
      · exact Lines.within_nil
      · split
        · exact field_within (h line List.mem_cons_self)
        · split
          · exact hb
          · exact hb
    intro e he
    rw [events, List.mem_append] at he
    rcases he with he | he
    · rw [Option.mem_toList, dispatch] at he
      split at he
      · cases he
      · cases he
        dsimp only
        split
        · decide
        · next hne => exact ⟨hne, hb⟩
    · exact ih hrest hstep e he

theorem events_data {lines : List (List Char)} (h : ∀ line ∈ lines, OneLine line) {b : Buffers}
    (hb : ∀ value ∈ b.data, '\r' ∉ value) : ∀ e ∈ events b lines, '\r' ∉ e.data := by
  induction lines generalizing b with
  | nil => intro e he; cases he
  | cons line lines ih =>
    have hrest := fun l hl => h l (List.mem_cons_of_mem line hl)
    have hstep : ∀ value ∈ (step b line).data, '\r' ∉ value := by
      rw [step]
      split
      · intro value hv
        cases hv
      · split
        · exact hb
        · split
          · intro value hv
            rcases List.mem_append.1 hv with hv | hv
            · exact hb value hv
            · rw [List.mem_singleton.1 hv]
              exact (field_within (h line List.mem_cons_self)).1
          · exact hb
    intro e he
    rw [events, List.mem_append] at he
    rcases he with he | he
    · rw [Option.mem_toList, dispatch] at he
      split at he
      · cases he
      · cases he
        dsimp only
        intro hc
        rcases Marker.mem_intercalate hc with hc | ⟨value, hv, hc⟩
        · revert hc
          decide
        · exact hb value hv hc
    · exact ih hrest hstep e he

/-! Every line end inside of a text costs the name of a field and a colon. -/

/-- The room that a line takes in the data of the events: that of its value and a line end. -/
def weight (line : List Char) : Nat :=
  if (field line).1 = "data".toList then (field line).2.length + 1 else 0

theorem weight_le (line : List Char) : weight line ≤ line.length := by
  have hl := field_length line
  rw [weight]
  split
  · next hname =>
    rw [hname] at hl
    have h4 : "data".toList.length = 4 := rfl
    omega
  · exact Nat.zero_le _

theorem weight_data (value : List Char) :
    weight ("data: ".toList ++ value) = value.length + 1 := by
  rw [weight, field_data]
  rfl

theorem dispatch_weight (b : Buffers) (line : List Char) :
    ((dispatch b line).toList.map fun e => e.data.length + 1).sum +
      ((step b line).data.map fun v => v.length + 1).sum ≤
        (b.data.map fun v => v.length + 1).sum + weight line := by
  by_cases hl : line = []
  · subst hl
    have hnil : ((step b []).data.map fun v => v.length + 1).sum = 0 := rfl
    rw [hnil]
    by_cases hb : b.data = []
    · simp [dispatch, hb]
    · simp [dispatch, hb, Marker.length_intercalate '\n' hb]
  · have hnone : dispatch b line = none := by simp [dispatch, hl]
    rw [hnone, step, if_neg hl, weight]
    by_cases he : (field line).1 = "event".toList
    · rw [if_pos he]
      simp
    · rw [if_neg he]
      by_cases hd : (field line).1 = "data".toList
      · rw [if_pos hd, if_pos hd]
        simp
      · rw [if_neg hd, if_neg hd]
        simp

/-- The events have no more room than the lines. -/
theorem events_weight (b : Buffers) (lines : List (List Char)) :
    ((events b lines).map fun e => e.data.length + 1).sum ≤
      (b.data.map fun v => v.length + 1).sum + (lines.map weight).sum := by
  induction lines generalizing b with
  | nil => simp [events]
  | cons line lines ih =>
    have hrest := ih (step b line)
    have hline := dispatch_weight b line
    rw [events, List.map_append, List.sum_append, List.map_cons, List.sum_cons]
    omega

theorem weight_splitOn (text : List Char) :
    ((text.splitOn '\n').map weight).sum ≤ text.length := by
  have hlength := Marker.length_intercalate '\n' (List.splitOn_ne_nil '\n' text)
  rw [List.intercalate_splitOn] at hlength
  have hle : ∀ lines : List (List Char), lines ≠ [] →
      (lines.map weight).sum + 1 ≤ (lines.map fun line => line.length + 1).sum := by
    intro lines hne
    induction lines with
    | nil => exact absurd rfl hne
    | cons line lines ih =>
      have hline := weight_le line
      rw [List.map_cons, List.map_cons, List.sum_cons, List.sum_cons]
      cases lines with
      | nil =>
        simp only [List.map_nil, List.sum_nil]
        omega
      | cons l lines =>
        have hrest := ih (List.cons_ne_nil l lines)
        omega
  have hsum := hle _ (List.splitOn_ne_nil '\n' text)
  omega

/-- A data field with the lines of a text, the first after the name, has room for the text only where
this is one line. -/
theorem weight_data_lines (text : List Char) :
    ((("data: ".toList ++ text).splitOn '\n').map weight).sum ≤
      if '\n' ∈ text then text.length else text.length + 1 := by
  have hfield : '\n' ∉ "data: ".toList := by decide
  split
  · next hmem =>
    obtain ⟨first, rest, rfl, hfirst⟩ := List.eq_append_cons_of_mem hmem
    have hnot : '\n' ∉ "data: ".toList ++ first := by
      rw [List.mem_append, not_or]
      exact ⟨hfield, hfirst⟩
    have hrest := weight_splitOn rest
    rw [← List.append_assoc, List.splitOn_append_cons_self_of_not_mem hnot, List.map_cons,
      List.sum_cons, weight_data, List.length_append, List.length_cons]
    omega
  · next hmem =>
    have hnot : '\n' ∉ "data: ".toList ++ text := by
      rw [List.mem_append, not_or]
      exact ⟨hfield, hmem⟩
    rw [List.splitOn_eq_singleton hnot, List.map_singleton, List.sum_singleton, weight_data]

end EventSource
