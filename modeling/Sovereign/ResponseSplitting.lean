import Sovereign.Lib.Lines
import Sovereign.Writer

namespace Sovereign
set_option autoImplicit true

/-- The loop of `send_headers` over the merged entries: the text after them, or what it raises at the
first one that has a line break in it. -/
def appendLines (raw : Str) : List (Str × Str) → Except Exc Str
  | [] => .ok raw
  | entry :: entries =>
    if hasLineBreak entry.1 || hasLineBreak entry.2 then
      .error (.httpError 500 "Invalid characters in response headers")
    else appendLines (raw ++ (headerLine entry ++ "\r\n".toList)) entries

/-- `send_headers` and `send_headers_async` as they run, with what has been written on the connection:
the encoding is done before the only write. -/
def sendHeadersOn (sent : List Sent) (cfg : ServerConfig) (date : Str) (status : Int)
    (headers : Headers) (keepAlive : Bool) : List Sent × Except Exc Unit :=
  match appendLines (statusLine status ++ "\r\n".toList)
      (mergedHeaders cfg date status headers keepAlive).entries with
  | .error e => (sent, .error e)
  | .ok raw =>
    match encodeLatin1 (raw ++ "\r\n".toList) with
    | none => (sent, .error (.builtin .unicodeEncodeError))
    | some block => (sent ++ [.head block], .ok ())

theorem appendLines_eq (raw : Str) (entries : List (Str × Str)) :
    appendLines raw entries =
      if entries.any (fun entry => hasLineBreak entry.1 || hasLineBreak entry.2) then
        .error (.httpError 500 "Invalid characters in response headers")
      else .ok (raw ++ entries.flatMap fun entry => headerLine entry ++ "\r\n".toList) := by
  induction entries generalizing raw with
  | nil => simp [appendLines]
  | cons entry entries ih =>
    rw [appendLines, ih]
    cases hb : hasLineBreak entry.1 || hasLineBreak entry.2 with
    | true => simp only [List.any_cons, hb, Bool.true_or, ↓reduceIte]
    | false =>
      simp only [List.any_cons, hb, Bool.false_or, Bool.false_eq_true, ↓reduceIte,
        List.flatMap_cons, List.append_assoc]

variable {cfg : ServerConfig} {headers : Headers}

/-- The run writes the block of `sendHeaders`, or nothing. -/
theorem sendHeadersOn_ok (h : sendHeaders cfg date status headers keepAlive = .ok block) :
    sendHeadersOn sent cfg date status headers keepAlive = (sent ++ [.head block], .ok ()) := by
  simp only [sendHeaders] at h
  rw [sendHeadersOn, appendLines_eq]
  split at h
  · cases h
  · next hb =>
    rw [if_neg hb]
    dsimp only
    split at h
    · next b he =>
      cases h
      rw [headerText] at he
      rw [he]
    · cases h

theorem sendHeadersOn_error (h : sendHeaders cfg date status headers keepAlive = .error e) :
    sendHeadersOn sent cfg date status headers keepAlive = (sent, .error e) := by
  simp only [sendHeaders] at h
  rw [sendHeadersOn, appendLines_eq]
  split at h
  · next hb =>
    cases h
    rw [if_pos hb]
  · next hb =>
    rw [if_neg hb]
    dsimp only
    split at h
    · cases h
    · next he =>
      cases h
      rw [headerText] at he
      rw [he]

/-- The division of a block into lines, at the bytes of a carriage return and a line feed. -/
def blockLines (block : Bytes) : List Bytes × Bytes := Lines.split 13 10 false block

theorem within_latin1 {line : Str} (h : Clean line) : Lines.Within 13 10 (latin1 line) := by
  have hlatin : ∀ d ∈ line, d.toNat < 256 := fun d hd => (h d hd).1
  constructor
  · exact not_mem_latin1 h
  · rw [show (10 : UInt8) = UInt8.ofNat '\n'.toNat from rfl, mem_latin1 (by decide) hlatin]
    exact fun hc => (h _ hc).2.2 rfl

theorem latin1_flatMap (lines : List Str) :
    latin1 (lines.flatMap fun line => line ++ "\r\n".toList) =
      (lines.map latin1).flatMap fun line => line ++ [13, 10] := by
  induction lines with
  | nil => rfl
  | cons line lines ih =>
    rw [List.flatMap_cons, latin1_append, ih, latin1_append, List.map_cons, List.flatMap_cons]
    rfl

/-- The lines of a header block. -/
def headerLines (status : Int) (merged : Headers) : List Str :=
  statusLine status :: merged.entries.map headerLine ++ [[]]

theorem headerLines_clean {merged : Headers} (h : CleanHeaders merged) :
    ∀ line ∈ headerLines status merged, Clean line := by
  intro line hl
  rcases List.mem_append.1 hl with hl | hl
  · exact (block_clean status h line hl).1
  · rw [List.mem_singleton] at hl
    rw [hl]
    exact fun c hc => absurd hc List.not_mem_nil

theorem headerText_lines (status : Int) (merged : Headers) :
    headerText status merged =
      (headerLines status merged).flatMap fun line => line ++ "\r\n".toList := by
  rw [headerText, headerLines, List.cons_append, List.flatMap_cons, List.flatMap_append,
    List.flatMap_map, List.append_assoc]
  rfl

theorem blockLines_headerText {status : Int} {merged : Headers} (h : CleanHeaders merged) :
    blockLines (latin1 (headerText status merged)) =
      ((headerLines status merged).map latin1, []) := by
  rw [headerText_lines, latin1_flatMap]
  refine Lines.split_lines (by decide) fun line hl => ?_
  obtain ⟨text, ht, rfl⟩ := List.mem_map.1 hl
  exact within_latin1 (headerLines_clean h text ht)

/-- A header block is written as a whole or not at all, and what is written divides into the status
line, a line for each entry in order and the empty line, whatever the names and the values are. -/
theorem sendHeadersOn_lines (sent : List Sent) (cfg : ServerConfig) (date : Str) (status : Int)
    (headers : Headers) (keepAlive : Bool) :
    (∃ e, sendHeadersOn sent cfg date status headers keepAlive = (sent, .error e)) ∨
    ∃ block, sendHeadersOn sent cfg date status headers keepAlive =
        (sent ++ [.head block], .ok ()) ∧
      (blockLines block).1.map decodeLatin1 = statusLine status ::
        ((mergedHeaders cfg date status headers keepAlive).entries.map fun entry =>
          entry.1 ++ ": ".toList ++ entry.2) ++ [[]] ∧
      (blockLines block).2 = [] ∧ block = (blockLines block).1.flatMap fun line => line ++ crlf := by
  cases hs : sendHeaders cfg date status headers keepAlive with
  | error e => exact .inl ⟨e, sendHeadersOn_error hs⟩
  | ok block =>
    obtain ⟨hc, rfl⟩ := sendHeaders_ok.1 hs
    refine .inr ⟨_, sendHeadersOn_ok hs, ?_, ?_, ?_⟩
    · rw [blockLines_headerText hc, List.map_map]
      have hid : ∀ line ∈ headerLines status (mergedHeaders cfg date status headers keepAlive),
          (decodeLatin1 ∘ latin1) line = id line := fun line hl =>
        decodeLatin1_latin1 fun c hm => (headerLines_clean hc line hl c hm).1
      rw [List.map_congr_left hid, List.map_id]
      rfl
    · rw [blockLines_headerText hc]
    · rw [blockLines_headerText hc, headerText_lines, latin1_flatMap]
      rfl

end Sovereign
