import Sovereign.Lib.Chunked
import Mathlib.Data.List.DropRight

/-! How a client reads one response from a connection, following the message format of HTTP/1.1. -/

namespace HttpClient
open Chunked
set_option autoImplicit true

/-- The blanks that may surround a field value. -/
def trim (value : List UInt8) : List UInt8 :=
  (value.dropWhile fun b => b = 32 ∨ b = 9).rdropWhile fun b => b = 32 ∨ b = 9

def lowerByte (b : UInt8) : UInt8 := if 65 ≤ b ∧ b ≤ 90 then b + 32 else b

/-- A field line as its name in lower case and its value. -/
def parseField (line : List UInt8) : Option (List UInt8 × List UInt8) :=
  match Marker.breakOn [58] line with
  | some (name, value) =>
    if name ≠ [] ∧ name.all tchar = true then some (name.map lowerByte, trim value) else none
  | none => none

/-- The status code of a status line. -/
def parseStatusLine (line : List UInt8) : Option Nat :=
  if line.take 9 = [72, 84, 84, 80, 47, 49, 46, 49, 32] ∧ (line.drop 12).head? = some 32 then
    if ((line.drop 9).take 3).length = 3 then Numeral.parse 10 (chars ((line.drop 9).take 3))
    else none
  else none

theorem parse_blank {text : List UInt8} (h : 32 ∈ text) : Numeral.parse 10 (chars text) = none := by
  cases hp : Numeral.parse 10 (chars text) with
  | none => rfl
  | some n =>
    obtain ⟨d, -, hd⟩ := Numeral.digit_of_parse hp _ (List.mem_map_of_mem h)
    have hn : Numeral.digitVal (Char.ofNat (32 : UInt8).toNat) = none := by decide
    rw [hn] at hd
    cases hd

/-- Only a code of three digits is accepted. -/
theorem parseStatusLine_append {code reason : List UInt8} (h : 32 ∉ code) :
    parseStatusLine ([72, 84, 84, 80, 47, 49, 46, 49, 32] ++ (code ++ 32 :: reason)) =
      if code.length = 3 then Numeral.parse 10 (chars code) else none := by
  match code, h with
  | [], _ | [_], _ | [_, _], _ =>
    simp only [parseStatusLine, List.cons_append, List.nil_append, List.drop_succ_cons,
      List.drop_zero, List.take_succ_cons, List.take_zero]
    rw [parse_blank (by simp)]
    simp
  | [_, _, _], _ => simp [parseStatusLine]
  | _ :: _ :: _ :: d :: _, h =>
    have hd : d ≠ 32 := fun he => h (by simp [he])
    simp [parseStatusLine, hd]

structure Head where
  status : Nat
  fields : List (List UInt8 × List UInt8)

/-- The header block of a response, and what follows it. -/
def parseHead (input : List UInt8) : Option (Head × List UInt8) :=
  match Marker.breakOn (lineEnd ++ lineEnd) input with
  | none => none
  | some (block, after) =>
    match Marker.splitPair 13 10 block with
    | [] => none
    | first :: lines =>
      match parseStatusLine first, lines.mapM parseField with
      | some status, some fields => some (⟨status, fields⟩, after)
      | _, _ => none

/-- The values of the fields of one name. -/
def Head.values (h : Head) (name : List UInt8) : List (List UInt8) :=
  (h.fields.filter fun f => f.1 = name).map Prod.snd

/-- `content-length` -/
def contentLength : List UInt8 :=
  [99, 111, 110, 116, 101, 110, 116, 45, 108, 101, 110, 103, 116, 104]

/-- `transfer-encoding` -/
def transferEncoding : List UInt8 :=
  [116, 114, 97, 110, 115, 102, 101, 114, 45, 101, 110, 99, 111, 100, 105, 110, 103]

/-- `chunked` -/
def chunkedCoding : List UInt8 := [99, 104, 117, 110, 107, 101, 100]

/-- The transfer codings that field values list, empty elements left out. -/
def codings (values : List (List UInt8)) : List (List UInt8) :=
  ((values.flatMap fun v => v.splitOn 44).map fun c => (trim c).map lowerByte).filter (· ≠ [])

/-- The number a `Content-Length` value stands for. -/
def lengthValue (value : List UInt8) : Option Nat := Numeral.parse 10 (chars value)

/-- Statuses whose responses have no content. -/
def Bodyless (status : Int) : Prop :=
  100 ≤ status ∧ status < 200 ∨ status = 204 ∨ status = 304

instance : Decidable (Bodyless status) := inferInstanceAs (Decidable (_ ∨ _))

/-- Requests and statuses after whose header block no body follows. -/
def NoBody (method : List Char) (status : Int) : Prop :=
  method = "HEAD".toList ∨ Bodyless status ∨ method = "CONNECT".toList ∧ 200 ≤ status ∧ status < 300

instance : Decidable (NoBody method status) := inferInstanceAs (Decidable (_ ∨ _))

inductive Framing where
  | none
  | length (n : Nat)
  | chunked
  /-- everything up to the end of the connection -/
  | untilClose
  /-- an invalid length, or a coding the client does not know -/
  | refused
deriving DecidableEq

def framing (method : List Char) (h : Head) : Framing :=
  if NoBody method h.status then .none
  else if h.values transferEncoding ≠ [] then
    if codings (h.values transferEncoding) = [chunkedCoding] then .chunked
    else if (codings (h.values transferEncoding)).getLast? = some chunkedCoding then .refused
    else .untilClose
  else
    match h.values contentLength with
    | [] => .untilClose
    | [value] =>
      match lengthValue value with
      | some n => .length n
      | none => .refused
    | _ => .refused

/-- The body that a framing finds at the front of the input, and what is left. -/
def TakesBody (after body rest : List UInt8) : Framing → Prop
  | .none => body = [] ∧ rest = after
  | .length n => after = body ++ rest ∧ body.length = n
  | .chunked => Body (fun _ => True) after body rest
  | .untilClose => body = after ∧ rest = []
  | .refused => False

/-- A client that knows the request method reads one response from the front of the input. -/
def Reads (method : List Char) (input : List UInt8) (status : Int) (body rest : List UInt8) :
    Prop :=
  ∃ head after, parseHead input = some (head, after) ∧ (head.status : Int) = status ∧
    TakesBody after body rest (framing method head)

end HttpClient
