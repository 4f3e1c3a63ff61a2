import Sovereign.Lib.Scan
import Sovereign.Python

namespace Sovereign
set_option autoImplicit true

/-! `urllib.parse.unquote`, and the decoding of UTF-8 with replacement characters that it rests on. -/

/-- For the first byte of a character: its bits, how many bytes are to follow, and the bounds of the
first of these. -/
def utf8Lead (b : UInt8) : Option (Nat × Nat × UInt8 × UInt8) :=
  if 0xC2 ≤ b ∧ b ≤ 0xDF then some (b.toNat - 0xC0, 1, 0x80, 0xBF)
  else if b = 0xE0 then some (b.toNat - 0xE0, 2, 0xA0, 0xBF)
  else if b = 0xED then some (b.toNat - 0xE0, 2, 0x80, 0x9F)
  else if 0xE1 ≤ b ∧ b ≤ 0xEF then some (b.toNat - 0xE0, 2, 0x80, 0xBF)
  else if b = 0xF0 then some (b.toNat - 0xF0, 3, 0x90, 0xBF)
  else if 0xF1 ≤ b ∧ b ≤ 0xF3 then some (b.toNat - 0xF0, 3, 0x80, 0xBF)
  else if b = 0xF4 then some (b.toNat - 0xF0, 3, 0x80, 0x8F)
  else none

/-- The bytes that follow, as far as they are right. -/
def continuation (lo hi : UInt8) : (count : Nat) → Bytes → Bytes
  | 0, _ => []
  | _ + 1, [] => []
  | count + 1, b :: s => if lo ≤ b ∧ b ≤ hi then b :: continuation 0x80 0xBF count s else []

/-- The character at the beginning, and how many bytes it has after the first. A character that breaks
off is replaced as a whole. -/
def utf8Char : Bytes → Option (Nat × Char)
  | [] => none
  | b :: s =>
    if b < 0x80 then some (0, Char.ofNat b.toNat)
    else
      match utf8Lead b with
      | none => some (0, Char.ofNat 0xFFFD)
      | some (bits, count, lo, hi) =>
        let more := continuation lo hi count s
        some (more.length, if more.length = count then
          Char.ofNat (more.foldl (fun n b => n * 64 + (b.toNat - 0x80)) bits)
          else Char.ofNat 0xFFFD)

/-- `bytes.decode("utf-8", "replace")` -/
def decodeReplace (b : Bytes) : Str := Scan.findAll utf8Char b

theorem toNat_byte {n : Nat} (h : n < 256) : (UInt8.ofNat n).toNat = n := by
  rw [UInt8.toNat_ofNat', Nat.mod_eq_of_lt h]

theorem continuation_cons {lo hi b : UInt8} (h : lo ≤ b ∧ b ≤ hi) (count : Nat) (s : Bytes) :
    continuation lo hi (count + 1) (b :: s) = b :: continuation 0x80 0xBF count s := by
  rw [continuation, if_pos h]

theorem continuation_zero (lo hi : UInt8) (s : Bytes) : continuation lo hi 0 s = [] := by
  cases s <;> rfl

theorem byte_between {lo hi : UInt8} {n : Nat} (hn : n < 256) (h : lo.toNat ≤ n ∧ n ≤ hi.toNat) :
    lo ≤ UInt8.ofNat n ∧ UInt8.ofNat n ≤ hi := by
  rw [UInt8.le_iff_toNat_le, UInt8.le_iff_toNat_le, toNat_byte hn]
  exact h

theorem low_byte (n : Nat) : (0x80 : UInt8) ≤ UInt8.ofNat (n % 64 + 128) ∧
    UInt8.ofNat (n % 64 + 128) ≤ 0xBF := by
  apply byte_between (by omega)
  have hlo : (0x80 : UInt8).toNat = 128 := rfl
  have hhi : (0xBF : UInt8).toNat = 191 := rfl
  omega

/-- What the first byte of a character says about a character with this many bytes. -/
theorem utf8Lead_two {n : Nat} (h : 2 ≤ n ∧ n < 32) :
    utf8Lead (UInt8.ofNat (n + 192)) = some (n, 1, 0x80, 0xBF) := by
  have hall : ∀ n < 30, utf8Lead (UInt8.ofNat (n + 2 + 192)) = some (n + 2, 1, 0x80, 0xBF) := by
    decide
  obtain ⟨m, rfl⟩ := Nat.exists_eq_add_of_le' h.1
  exact hall m (by omega)

theorem utf8Lead_three {n : Nat} (h : n < 16) :
    utf8Lead (UInt8.ofNat (n + 224)) = some (n, 2, if n = 0 then 0xA0 else 0x80,
      if n = 13 then 0x9F else 0xBF) := by
  have hall : ∀ n < 16, utf8Lead (UInt8.ofNat (n + 224)) = some (n, 2,
    if n = 0 then 0xA0 else 0x80, if n = 13 then 0x9F else 0xBF) := by decide
  exact hall n h

theorem utf8Lead_four {n : Nat} (h : n < 5) :
    utf8Lead (UInt8.ofNat (n + 240)) = some (n, 3, if n = 0 then 0x90 else 0x80,
      if n = 4 then 0x8F else 0xBF) := by
  have hall : ∀ n < 5, utf8Lead (UInt8.ofNat (n + 240)) = some (n, 3,
    if n = 0 then 0x90 else 0x80, if n = 4 then 0x8F else 0xBF) := by decide
  exact hall n h

/-- A lead byte with the right bytes after it is a character. -/
theorem utf8Char_lead {b lo hi : UInt8} {bits count : Nat} {more s : Bytes} (hb : 128 ≤ b.toNat)
    (hlead : utf8Lead b = some (bits, count, lo, hi))
    (hmore : continuation lo hi count (more ++ s) = more) (hcount : more.length = count) :
    utf8Char (b :: (more ++ s)) =
      some (more.length, Char.ofNat (more.foldl (fun n b => n * 64 + (b.toNat - 0x80)) bits)) := by
  have hnot : ¬ b < 0x80 := by
    rw [UInt8.lt_iff_toNat_lt, Nat.not_lt]
    exact hb
  rw [utf8Char, if_neg hnot, hlead]
  simp only [hmore, hcount, ↓reduceIte]

theorem utf8Char_encode (c : Char) (s : Bytes) : ∃ b more, String.utf8EncodeChar c = b :: more ∧
    utf8Char (b :: (more ++ s)) = some (more.length, c) := by
  have hvalid := c.valid
  have hv : c.toNat = c.val.toNat := rfl
  simp only [UInt32.isValidChar, Nat.isValidChar] at hvalid
  rw [← hv] at hvalid
  have hchar : ∀ n, n = c.toNat → Char.ofNat n = c := fun n hn => by rw [hn, Char.ofNat_toNat]
  unfold String.utf8EncodeChar
  simp only [← hv]
  split
  · refine ⟨_, [], rfl, ?_⟩
    have hlt : UInt8.ofNat c.toNat < 0x80 := by
      rw [UInt8.lt_iff_toNat_lt, toNat_byte (by omega)]
      have h80 : (0x80 : UInt8).toNat = 128 := rfl
      omega
    rw [utf8Char, if_pos hlt, toNat_byte (by omega), hchar _ rfl]
    rfl
  · split
    · refine ⟨_, [_], rfl, ?_⟩
      have hlow := low_byte c.toNat
      rw [Nat.mod_eq_of_lt (by omega : c.toNat / 64 < 32)]
      rw [utf8Char_lead (by rw [toNat_byte (by omega)]; omega)
        (utf8Lead_two (by omega : 2 ≤ c.toNat / 64 ∧ c.toNat / 64 < 32))
        (by rw [List.singleton_append, continuation_cons hlow, continuation_zero]) rfl]
      simp only [List.foldl_cons, List.foldl_nil]
      rw [hchar]
      rw [toNat_byte (by omega)]
      omega
    · split
      · refine ⟨_, [_, _], rfl, ?_⟩
        have hlow := low_byte c.toNat
        have hfirst : (if c.toNat / 4096 = 0 then (0xA0 : UInt8) else 0x80) ≤
              UInt8.ofNat (c.toNat / 64 % 64 + 128) ∧
            UInt8.ofNat (c.toNat / 64 % 64 + 128) ≤
              if c.toNat / 4096 = 13 then (0x9F : UInt8) else 0xBF := by
          apply byte_between (by omega)
          rw [apply_ite UInt8.toNat, apply_ite UInt8.toNat]
          simp only [UInt8.reduceToNat]
          constructor
          · split <;> omega
          · split <;> omega
        rw [Nat.mod_eq_of_lt (by omega : c.toNat / 4096 < 16)]
        rw [utf8Char_lead (by rw [toNat_byte (by omega)]; omega)
          (utf8Lead_three (by omega : c.toNat / 4096 < 16))
          (by rw [List.cons_append, continuation_cons hfirst, List.singleton_append,
            continuation_cons hlow, continuation_zero]) rfl]
        simp only [List.foldl_cons, List.foldl_nil]
        rw [hchar]
        rw [toNat_byte (by omega), toNat_byte (by omega)]
        omega
      · refine ⟨_, [_, _, _], rfl, ?_⟩
        have hlow := low_byte c.toNat
        have hmid := low_byte (c.toNat / 64)
        have hfirst : (if c.toNat / 262144 = 0 then (0x90 : UInt8) else 0x80) ≤
              UInt8.ofNat (c.toNat / 4096 % 64 + 128) ∧
            UInt8.ofNat (c.toNat / 4096 % 64 + 128) ≤
              if c.toNat / 262144 = 4 then (0x8F : UInt8) else 0xBF := by
          apply byte_between (by omega)
          rw [apply_ite UInt8.toNat, apply_ite UInt8.toNat]
          simp only [UInt8.reduceToNat]
          constructor
          · split <;> omega
          · split <;> omega
        rw [Nat.mod_eq_of_lt (by omega : c.toNat / 262144 < 8)]
        rw [utf8Char_lead (by rw [toNat_byte (by omega)]; omega)
          (utf8Lead_four (by omega : c.toNat / 262144 < 5))
          (by rw [List.cons_append, continuation_cons hfirst, List.cons_append,
            continuation_cons hmid, List.singleton_append, continuation_cons hlow,
            continuation_zero]) rfl]
        simp only [List.foldl_cons, List.foldl_nil]
        rw [hchar]
        rw [toNat_byte (by omega), toNat_byte (by omega), toNat_byte (by omega)]
        omega

theorem decodeReplace_utf8 (s : Str) : decodeReplace (utf8 s) = s := by
  induction s with
  | nil => rfl
  | cons c s ih =>
    obtain ⟨b, more, he, hc⟩ := utf8Char_encode c (utf8 s)
    have hs : utf8 (c :: s) = b :: (more ++ utf8 s) := by
      rw [utf8, List.flatMap_cons, he]
      rfl
    rw [hs, decodeReplace, Scan.findAll_match _ _ hc]
    exact congrArg (c :: ·) ih

/-- `unquote_to_bytes` on ASCII text. -/
def unquoteToBytes : Str → Bytes
  | '%' :: a :: b :: s =>
    match Numeral.digitVal a, Numeral.digitVal b with
    | some m, some n => UInt8.ofNat (m * 16 + n) :: unquoteToBytes s
    | _, _ => UInt8.ofNat '%'.toNat :: unquoteToBytes (a :: b :: s)
  | c :: s => UInt8.ofNat c.toNat :: unquoteToBytes s
  | [] => []

def isAscii (c : Char) : Bool := decide (c.toNat < 128)

/-- `unquote`: the stretches of ASCII are decoded each for itself. -/
def unquote (s : Str) : Str :=
  if '%' ∈ s then
    (s.splitBy fun a b => isAscii a == isAscii b).flatMap fun part =>
      if part.all isAscii then decodeReplace (unquoteToBytes part) else part
  else s

example : unquote "a%2Fb%c3%A9%zz%e2%82é%41".toList = "a/bé%zz\uFFFDéA".toList := by decide +kernel

end Sovereign
