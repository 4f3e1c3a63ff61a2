import Mathlib.Data.List.DropRight
import Mathlib.Tactic.Common

set_option autoImplicit true

/-! Bytes written as text, six bits a character. -/

namespace Base64

abbrev Text := List Char

/-- A digit of the alphabet that is safe in a URL. -/
def digit (n : Nat) : Char :=
  if n < 26 then Char.ofNat (n + 65)
  else if n < 52 then Char.ofNat (n + 71)
  else if n < 62 then Char.ofNat (n - 4)
  else if n = 62 then '-'
  else '_'

/-- The value of a digit, in either of the two alphabets. -/
def value (c : Char) : Option Nat :=
  if 'A' ≤ c ∧ c ≤ 'Z' then some (c.toNat - 65)
  else if 'a' ≤ c ∧ c ≤ 'z' then some (c.toNat - 71)
  else if '0' ≤ c ∧ c ≤ '9' then some (c.toNat + 4)
  else if c = '-' ∨ c = '+' then some 62
  else if c = '_' ∨ c = '/' then some 63
  else none

theorem value_digit (h : n < 64) : value (digit n) = some n := by
  revert n
  decide +kernel

/-- A character without a value is no digit. -/
theorem digit_ne (h : n < 64) (hc : value c = none) : digit n ≠ c := by
  rintro rfl
  rw [value_digit h] at hc
  cases hc

theorem digit_ne_pad (h : n < 64) : digit n ≠ '=' := digit_ne h rfl

theorem digit_ascii (h : n < 64) : (digit n).toNat < 128 := by
  revert n
  decide +kernel

/-- The digits of some bytes, of which `pos` have been read of a group of three and have left some
bits over. -/
def digitsFrom : (pos leftbits : Nat) → List UInt8 → Text
  | 0, _, [] => []
  | 1, leftbits, [] => [digit (leftbits * 16)]
  | _, leftbits, [] => [digit (leftbits * 4)]
  | 0, _, a :: rest => digit (a.toNat / 4) :: digitsFrom 1 (a.toNat % 4) rest
  | 1, leftbits, a :: rest => digit (leftbits * 16 + a.toNat / 16) :: digitsFrom 2
      (a.toNat % 16) rest
  | _, leftbits, a :: rest =>
    digit (leftbits * 4 + a.toNat / 64) :: digit (a.toNat % 64) :: digitsFrom 0 0 rest

/-- The digits of some bytes, without padding. -/
def digits (data : List UInt8) : Text := digitsFrom 0 0 data

theorem digits_one (a : UInt8) : digits [a] = [digit (a.toNat / 4), digit (a.toNat % 4 * 16)] := rfl

theorem digits_two (a b : UInt8) : digits [a, b] =
    [digit (a.toNat / 4), digit (a.toNat % 4 * 16 + b.toNat / 16), digit (b.toNat % 16 * 4)] := rfl

theorem digits_group (a b c : UInt8) (rest : List UInt8) : digits (a :: b :: c :: rest) =
    digit (a.toNat / 4) :: digit (a.toNat % 4 * 16 + b.toNat / 16) ::
      digit (b.toNat % 16 * 4 + c.toNat / 64) :: digit (c.toNat % 64) :: digits rest := rfl

/-- How many signs of padding a text of a length needs. -/
def missing (length : Nat) : Nat := ((-(length : Int)) % 4).toNat

def padded (s : Text) : Text := s ++ List.replicate (missing s.length) '='

def encode (data : List UInt8) : Text := padded (digits data)

/-- The state of a decoder: the digits of the group read so far, the bits they have left over, and
the signs of padding since then. -/
structure Decoder where
  quadPos : Nat := 0
  leftchar : Nat := 0
  pads : Nat := 0

/-- A decoder that passes over foreign characters and stops at the padding of a group. -/
def decodeFrom (d : Decoder) : Text → Option (List UInt8)
  | [] => if d.quadPos = 0 then some [] else none
  | c :: rest =>
    if c = '=' then
      if d.quadPos < 2 then decodeFrom d rest
      else if 4 ≤ d.quadPos + (d.pads + 1) then some []
      else decodeFrom { d with pads := d.pads + 1 } rest
    else
      match value c with
      | none => decodeFrom d rest
      | some v =>
        match d.quadPos with
        | 0 => decodeFrom { quadPos := 1, leftchar := v } rest
        | 1 => (UInt8.ofNat (d.leftchar * 4 + v / 16) :: ·) <$>
          decodeFrom { quadPos := 2, leftchar := v % 16 } rest
        | 2 => (UInt8.ofNat (d.leftchar * 16 + v / 4) :: ·) <$>
          decodeFrom { quadPos := 3, leftchar := v % 4 } rest
        | _ => (UInt8.ofNat (d.leftchar * 64 + v) :: ·) <$> decodeFrom {} rest

def decode (s : Text) : Option (List UInt8) := decodeFrom {} s

section

variable (h : n < 64) (left pads : Nat) (rest : Text)
include h

theorem decodeFrom_digit₀ : decodeFrom { quadPos := 0, leftchar := left, pads } (digit n :: rest) =
    decodeFrom { quadPos := 1, leftchar := n } rest := by
  rw [decodeFrom, if_neg (digit_ne_pad h), value_digit h]
  rfl

theorem decodeFrom_digit₁ : decodeFrom { quadPos := 1, leftchar := left, pads } (digit n :: rest) =
    (UInt8.ofNat (left * 4 + n / 16) :: ·) <$>
      decodeFrom { quadPos := 2, leftchar := n % 16 } rest := by
  rw [decodeFrom, if_neg (digit_ne_pad h), value_digit h]
  rfl

theorem decodeFrom_digit₂ : decodeFrom { quadPos := 2, leftchar := left, pads } (digit n :: rest) =
    (UInt8.ofNat (left * 16 + n / 4) :: ·) <$>
      decodeFrom { quadPos := 3, leftchar := n % 4 } rest := by
  rw [decodeFrom, if_neg (digit_ne_pad h), value_digit h]
  rfl

theorem decodeFrom_digit₃ : decodeFrom { quadPos := 3, leftchar := left, pads } (digit n :: rest) =
    (UInt8.ofNat (left * 64 + n) :: ·) <$> decodeFrom {} rest := by
  rw [decodeFrom, if_neg (digit_ne_pad h), value_digit h]
  rfl

end

theorem ofNat_eq {a : UInt8} (h : n = a.toNat) : UInt8.ofNat n = a := by
  rw [h, UInt8.ofNat_toNat]

theorem missing_add_four (n : Nat) : missing (n + 4) = missing n := by
  rw [missing, missing]
  omega

/-- Decoding the padded digits of some bytes gives the bytes back. -/
theorem decode_padded_digits : ∀ data : List UInt8, decode (padded (digits data)) = some data
  | [] => rfl
  | [a] => by
    have ha := a.toNat_lt
    have hpad : padded (digits [a]) =
        [digit (a.toNat / 4), digit (a.toNat % 4 * 16), '=', '='] := rfl
    rw [decode, hpad, decodeFrom_digit₀ (by omega), decodeFrom_digit₁ (by omega), ofNat_eq]
    · rfl
    · omega
  | [a, b] => by
    have ha := a.toNat_lt
    have hb := b.toNat_lt
    have hpad : padded (digits [a, b]) = [digit (a.toNat / 4),
        digit (a.toNat % 4 * 16 + b.toNat / 16), digit (b.toNat % 16 * 4), '='] := rfl
    have h₁ : a.toNat / 4 * 4 + (a.toNat % 4 * 16 + b.toNat / 16) / 16 = a.toNat := by omega
    have h₂ : (a.toNat % 4 * 16 + b.toNat / 16) % 16 * 16 + b.toNat % 16 * 4 / 4 = b.toNat := by
      omega
    rw [decode, hpad, decodeFrom_digit₀ (by omega), decodeFrom_digit₁ (by omega),
      decodeFrom_digit₂ (by omega), ofNat_eq h₁, ofNat_eq h₂]
    rfl
  | a :: b :: c :: rest => by
    have ih := decode_padded_digits rest
    have ha := a.toNat_lt
    have hb := b.toNat_lt
    have hc := c.toNat_lt
    have hpad : padded (digits (a :: b :: c :: rest)) = digit (a.toNat / 4) ::
        digit (a.toNat % 4 * 16 + b.toNat / 16) :: digit (b.toNat % 16 * 4 + c.toNat / 64) ::
        digit (c.toNat % 64) :: padded (digits rest) := by
      rw [digits_group]
      simp only [padded, List.length_cons, missing_add_four, List.cons_append]
    have h₁ : a.toNat / 4 * 4 + (a.toNat % 4 * 16 + b.toNat / 16) / 16 = a.toNat := by omega
    have h₂ : (a.toNat % 4 * 16 + b.toNat / 16) % 16 * 16 +
        (b.toNat % 16 * 4 + c.toNat / 64) / 4 = b.toNat := by omega
    have h₃ : (b.toNat % 16 * 4 + c.toNat / 64) % 4 * 64 + c.toNat % 64 = c.toNat := by omega
    rw [decode] at ih ⊢
    rw [hpad, decodeFrom_digit₀ (by omega), decodeFrom_digit₁ (by omega),
      decodeFrom_digit₂ (by omega), decodeFrom_digit₃ (by omega), ih, ofNat_eq h₁, ofNat_eq h₂,
      ofNat_eq h₃]
    rfl

theorem digits_injective : Function.Injective digits := by
  intro data data' h
  have hd := decode_padded_digits data
  rw [h, decode_padded_digits] at hd
  exact (Option.some.inj hd).symm

/-- Each character of the digits of some bytes is a digit. -/
theorem mem_digits : ∀ {data : List UInt8}, c ∈ digits data → ∃ n < 64, c = digit n
  | [], h => by cases h
  | [a], h => by
    have ha := a.toNat_lt
    simp only [digits_one, List.mem_cons, List.not_mem_nil, or_false] at h
    rcases h with rfl | rfl
    · exact ⟨_, by omega, rfl⟩
    · exact ⟨_, by omega, rfl⟩
  | [a, b], h => by
    have ha := a.toNat_lt
    have hb := b.toNat_lt
    simp only [digits_two, List.mem_cons, List.not_mem_nil, or_false] at h
    rcases h with rfl | rfl | rfl
    · exact ⟨_, by omega, rfl⟩
    · exact ⟨_, by omega, rfl⟩
    · exact ⟨_, by omega, rfl⟩
  | a :: b :: c' :: rest, h => by
    have ha := a.toNat_lt
    have hb := b.toNat_lt
    have hc := c'.toNat_lt
    simp only [digits_group, List.mem_cons] at h
    rcases h with rfl | rfl | rfl | rfl | h
    · exact ⟨_, by omega, rfl⟩
    · exact ⟨_, by omega, rfl⟩
    · exact ⟨_, by omega, rfl⟩
    · exact ⟨_, by omega, rfl⟩
    · exact mem_digits h

/-- The signs of padding are what `rstrip` takes off. -/
theorem rdropWhile_encode (data : List UInt8) :
    (encode data).rdropWhile (fun c => decide (c = '=')) = digits data := by
  have hno : (digits data).rdropWhile (fun c => decide (c = '=')) = digits data := by
    rw [List.rdropWhile_eq_self_iff]
    intro hne
    obtain ⟨n, hn, hc⟩ := mem_digits (List.getLast_mem hne)
    rw [hc]
    simpa using digit_ne_pad hn
  rw [encode, padded]
  induction missing (digits data).length with
  | zero => rw [List.replicate_zero, List.append_nil, hno]
  | succ k ih =>
    rw [List.replicate_succ', ← List.append_assoc, List.rdropWhile_concat_pos _ _ _ (by simp), ih]

end Base64
