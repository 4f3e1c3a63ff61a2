import Sovereign.Lib.Dict
import Sovereign.Lib.Marker
import Sovereign.Lib.Numeral
import Mathlib.Data.List.DropRight

namespace Sovereign
set_option autoImplicit true

abbrev Bytes := List UInt8
abbrev Str := List Char

instance (priority := high) lawfulBEqStr : LawfulBEq Str := inferInstance

/-- Statements about the members of a list are decided by going through the list. -/
instance (priority := high) decidableForallMem {p : α → Prop} [DecidablePred p] (l : List α) :
    Decidable (∀ a ∈ l, p a) :=
  List.decidableBAll p l

/-- A computation ends well just if its two parts do. -/
theorem except_bind_eq_ok {x : Except ε α} {f : α → Except ε β} :
    x >>= f = .ok b ↔ ∃ a, x = .ok a ∧ f a = .ok b := by
  cases x with
  | error e => exact ⟨fun h => (by cases h), fun ⟨_, h, _⟩ => (by cases h)⟩
  | ok a => exact ⟨fun h => ⟨a, rfl, h⟩, fun ⟨_, h, h'⟩ => (by cases h; exact h')⟩

theorem mapError_eq_ok {x : Except ε α} {f : ε → ε'} : x.mapError f = .ok a ↔ x = .ok a := by
  cases x with
  | error e => exact ⟨fun h => (by cases h), fun h => (by cases h)⟩
  | ok b => exact ⟨fun h => (by cases h; rfl), fun h => (by cases h; rfl)⟩

theorem except_map_eq_ok {x : Except ε α} {f : α → β} :
    x.map f = .ok b ↔ ∃ a, x = .ok a ∧ f a = b := by
  cases x with
  | error e => exact ⟨fun h => (by cases h), fun ⟨_, h, _⟩ => (by cases h)⟩
  | ok a => exact ⟨fun h => (by cases h; exact ⟨a, rfl, rfl⟩), fun ⟨_, h, h'⟩ => (by cases h; rw [← h']; rfl)⟩

/-! The built-in operations on `bytes` and `str` that the server relies on. -/

/-- `bytes.decode("iso-8859-1")`: every byte is the character with its number. -/
def decodeLatin1 (b : Bytes) : Str := b.map fun x => Char.ofNat x.toNat

/-- `str.encode("iso-8859-1")`, which fails on characters above 255. -/
def encodeLatin1 (s : Str) : Option Bytes :=
  s.mapM fun c => if c.toNat < 256 then some (UInt8.ofNat c.toNat) else none

/-- A bytes literal. -/
def ascii (s : String) : Bytes := s.toList.map fun c => UInt8.ofNat c.toNat

def crlf : Bytes := [13, 10]

def headEnd : Bytes := [13, 10, 13, 10]

def strip (space : α → Bool) (l : List α) : List α := (l.dropWhile space).rdropWhile space

/-- `str.isspace` for one character. -/
def isSpace (c : Char) : Bool :=
  decide (9 ≤ c.toNat ∧ c.toNat ≤ 13 ∨ 28 ≤ c.toNat ∧ c.toNat ≤ 32 ∨ c.toNat = 133 ∨
    c.toNat = 160 ∨ c.toNat = 5760 ∨ 8192 ≤ c.toNat ∧ c.toNat ≤ 8202 ∨ c.toNat = 8232 ∨
    c.toNat = 8233 ∨ c.toNat = 8239 ∨ c.toNat = 8287 ∨ c.toNat = 12288)

/-- The blanks that `bytes.strip` removes. -/
def isSpaceByte (b : UInt8) : Bool := decide (9 ≤ b ∧ b ≤ 13 ∨ b = 32)

def strStrip (s : Str) : Str := strip isSpace s

/-- `str.lower` on the characters a header block can hold. -/
def lowerChar (c : Char) : Char :=
  if 'A' ≤ c ∧ c ≤ 'Z' ∨ 192 ≤ c.toNat ∧ c.toNat ≤ 222 ∧ c.toNat ≠ 215 then
    Char.ofNat (c.toNat + 32)
  else c

def lower (s : Str) : Str := s.map lowerChar

/-- `str.upper` on ASCII, the only letters a request method can have. -/
def upper (s : Str) : Str := s.map Char.toUpper

def startsWith (pre s : Str) : Bool := pre.isPrefixOf s

/-- `needle in s` for strings. -/
def contains (needle s : Str) : Bool := (Marker.breakOn needle s).isSome

/-- `s.split(c, 1)` when `c` occurs, as the two parts. -/
def splitFirst [DecidableEq α] (c : α) (s : List α) : Option (List α × List α) :=
  Marker.breakOn [c] s

/-- `str.isdigit` on Latin-1 text, which also knows the superscripts two, three and one. -/
def isDigit (s : Str) : Bool :=
  !s.isEmpty && s.all fun c => decide ('0' ≤ c ∧ c ≤ '9' ∨ c.toNat ∈ [178, 179, 185])

/-- The most digits `int` reads in base ten (`sys.int_info.default_max_str_digits`). -/
def maxStrDigits : Nat := 4300

/-- `int(s)` for a string of which `isDigit` holds; `none` is a `ValueError`. -/
def parseInt (s : Str) : Option Nat :=
  if s.length ≤ maxStrDigits then Numeral.parse 10 s else none

/-- Digits in base sixteen with single underscores between them. -/
def parseUnderscored (b : Bytes) : Option Nat :=
  let groups := b.splitOn 95
  if groups.all fun g => !g.isEmpty then Numeral.parse 16 (decodeLatin1 groups.flatten) else none

/-- The optional `0x` prefix, after which one underscore is allowed. -/
def dropHexPrefix : Bytes → Bytes
  | 48 :: x :: 95 :: rest => if x = 120 ∨ x = 88 then rest else 48 :: x :: 95 :: rest
  | 48 :: x :: rest => if x = 120 ∨ x = 88 then rest else 48 :: x :: rest
  | b => b

/-- `int(b, 16)` for bytes; `none` is a `ValueError`. -/
def parseInt16 (b : Bytes) : Option Int :=
  match strip isSpaceByte b with
  | 43 :: rest => (parseUnderscored (dropHexPrefix rest)).map Int.ofNat
  | 45 :: rest => (parseUnderscored (dropHexPrefix rest)).map fun n => -Int.ofNat n
  | rest => (parseUnderscored (dropHexPrefix rest)).map Int.ofNat

/-- `str(n)`. -/
def decimal : Int → Str
  | .ofNat n => Nat.toDigits 10 n
  | .negSucc n => '-' :: Nat.toDigits 10 (n + 1)

/-- `str.encode()`, in UTF-8. -/
def utf8 (s : Str) : Bytes := s.flatMap String.utf8EncodeChar

/-- `bytes.decode("utf-8")`; `none` is a `UnicodeDecodeError`. -/
def decodeUtf8 (b : Bytes) : Option Str := b.toByteArray.utf8Decode?.map Array.toList

theorem decodeUtf8_utf8 (s : Str) : decodeUtf8 (utf8 s) = some s := by
  have h : (utf8 s).toByteArray = s.utf8Encode := rfl
  rw [decodeUtf8, h, List.utf8Decode?_utf8Encode]
  rfl

theorem utf8_of_decodeUtf8 (h : decodeUtf8 b = some s) : utf8 s = b := by
  obtain ⟨chars, hchars, rfl⟩ := Option.map_eq_some_iff.1 h
  have hsome : b.toByteArray.utf8Decode?.isSome = true := by rw [hchars, Option.isSome_some]
  have hencode := ByteArray.utf8Encode_get_utf8Decode? (h := hsome)
  simp only [hchars, Option.get_some] at hencode
  exact List.toByteArray_inj.1 hencode

/-- `f"{n:X}"`. -/
def hexUpper (n : Nat) : Str := (Nat.toDigits 16 n).map Char.toUpper

theorem splitFirst_append [DecidableEq α] {c : α} {s : List α} (h : c ∉ s) (t : List α) :
    splitFirst c (s ++ c :: t) = some (s, t) := by
  have hbreak := Marker.breakOn_first (m := []) (a := t) h
  rwa [List.append_assoc] at hbreak

theorem splitFirst_none [DecidableEq α] {c : α} {s : List α} (h : c ∉ s) : splitFirst c s = none := by
  rw [splitFirst, Marker.breakOn_eq_none]
  rintro ⟨before, after, rfl⟩
  exact h (List.mem_append_left _ (List.mem_append_right _ List.mem_cons_self))

theorem strip_eq_self {space : α → Bool} {l : List α} (h : ∀ x ∈ l, space x = false) :
    strip space l = l := by
  have hd : l.dropWhile space = l := by
    cases l with
    | nil => rfl
    | cons x xs => exact List.dropWhile_cons_of_neg (by simp [h x List.mem_cons_self])
  rw [strip, hd, List.rdropWhile_eq_self_iff]
  intro hl
  simp [h _ (List.getLast_mem hl)]

theorem strip_cons {space : α → Bool} (hx : space x = true) (l : List α) :
    strip space (x :: l) = strip space l := by
  rw [strip, List.dropWhile_cons_of_pos hx]
  rfl

/-- Nothing is stripped where the first item and the last one stay. -/
theorem strip_ends {space : α → Bool} (hfirst : l = x :: rest) (hx : space x = false)
    (hlast : l = init ++ [y]) (hy : space y = false) : strip space l = l := by
  have hfront : ¬ space x = true := by
    rw [hx]
    exact Bool.false_ne_true
  have hback : ¬ space y = true := by
    rw [hy]
    exact Bool.false_ne_true
  rw [strip, hfirst, List.dropWhile_cons_of_neg hfront, ← hfirst, hlast,
    List.rdropWhile_concat_neg _ _ _ hback]

/-- Blanks at the end make no difference to what is left. -/
theorem strip_append {space : α → Bool} {s t : List α} (h : ∀ x ∈ t, space x = true) :
    strip space (s ++ t) = strip space s := by
  have hr : ∀ l : List α, (l ++ t).rdropWhile space = l.rdropWhile space := by
    intro l
    rw [List.rdropWhile, List.reverse_append, List.dropWhile_append_of_pos
      fun x hx => h x (List.mem_reverse.1 hx), List.rdropWhile]
  rw [strip, strip, List.dropWhile_append]
  split
  · next he =>
    have ht : t.dropWhile space = [] := List.dropWhile_eq_nil_iff.2 h
    rw [List.isEmpty_iff.1 he, ht]
  · rw [hr]

theorem parse_decimal (n : Nat) : Numeral.parse 10 (decimal n) = some n := by
  have h := Numeral.parse_toDigits id (by decide : 1 < 10) (by decide)
    (fun d hd => Numeral.digitVal_digitChar hd) n
  rwa [List.map_id] at h

theorem not_mem_of_parse {b : Bytes} (h : Numeral.parse 16 (decodeLatin1 b) = some n) {x : UInt8}
    (hx : Numeral.digitVal (Char.ofNat x.toNat) = none) : x ∉ b := by
  intro hm
  have hs := Numeral.isSome_digitVal_of_parse h _ (List.mem_map_of_mem hm)
  rw [hx] at hs
  cases hs

theorem strip_digits {b : Bytes} (h : Numeral.parse 16 (decodeLatin1 b) = some n) :
    strip isSpaceByte b = b := by
  refine strip_eq_self fun x hx => ?_
  by_contra hb
  have hr := of_decide_eq_true (Bool.not_eq_false _ ▸ hb)
  refine not_mem_of_parse h ?_ hx
  rcases hr with ⟨h₁, h₂⟩ | rfl
  · have h₁' : 9 ≤ x.toNat := h₁
    have h₂' : x.toNat ≤ 13 := h₂
    interval_cases x.toNat <;> decide
  · decide

/-- A row of hexadecimal digits is read as it stands. -/
theorem parseInt16_digits {b : Bytes} (h : Numeral.parse 16 (decodeLatin1 b) = some n) :
    parseInt16 b = some (n : Int) := by
  have hsplit : b.splitOn 95 = [b] := List.splitOn_eq_singleton (not_mem_of_parse h (by decide))
  have hne : b ≠ [] := by
    rintro rfl
    exact Numeral.ne_nil_of_parse h rfl
  have hpre : dropHexPrefix b = b := by
    unfold dropHexPrefix
    have hx : ∀ x ∈ b, ¬ (x = 120 ∨ x = 88) := by
      rintro x hx (rfl | rfl)
      · exact not_mem_of_parse h (x := 120) (by decide) hx
      · exact not_mem_of_parse h (x := 88) (by decide) hx
    split
    · rw [if_neg (hx _ (by simp))]
    · rw [if_neg (hx _ (by simp))]
    · rfl
  have hread : parseUnderscored b = some n := by
    simp [parseUnderscored, hsplit, hne, h]
  unfold parseInt16
  rw [strip_digits h]
  split
  · exact absurd List.mem_cons_self (not_mem_of_parse h (x := 43) (by decide))
  · exact absurd List.mem_cons_self (not_mem_of_parse h (x := 45) (by decide))
  · rw [hpre, hread]
    rfl

example : parseInt16 [45, 48, 120, 95, 49, 95, 48] = some (-16) := by decide

end Sovereign
