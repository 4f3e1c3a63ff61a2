import Mathlib.Data.List.OfFn
import Sovereign.Lib.BigEndian

set_option autoImplicit true

/-! The base framing protocol of WebSockets, without extensions. -/

namespace WebSocketFrame

/-- A statement about bytes is decided by going through them. -/
theorem forall_byte {P : UInt8 → Prop} (h : ∀ n : Fin 256, P (UInt8.ofNat n)) (b : UInt8) :
    P b := by
  rw [← UInt8.ofNat_toNat (x := b)]
  exact h ⟨b.toNat, b.toNat_lt⟩

/-- A masking key. -/
abbrev Key := Fin 4 → UInt8

/-- Each octet is combined with the octet of the key at its index modulo four. -/
def transform (key : Key) (data : List UInt8) : List UInt8 :=
  data.mapIdx fun i b => b ^^^ key (Fin.ofNat 4 i)

structure Frame where
  fin : Bool
  opcode : UInt8
  key : Option Key
  payload : List UInt8
  opcode_lt : opcode < 16

def flag (b : Bool) : UInt8 := if b then 128 else 0

theorem flag_and (m : Bool) (b : UInt8) : b < 128 → (flag m ||| b) &&& 127 = b := by
  apply forall_byte (b := b)
  cases m <;> decide +kernel

theorem flag_bit (m : Bool) (b : UInt8) : b < 128 → decide ((flag m ||| b) &&& 128 ≠ 0) = m := by
  apply forall_byte (b := b)
  cases m <;> decide +kernel

theorem flag_opcode (m : Bool) (b : UInt8) :
    b < 16 → (flag m ||| b) &&& 15 = b ∧ (flag m ||| b) &&& 112 = 0 := by
  apply forall_byte (b := b)
  cases m <;> decide +kernel

theorem and_lt (b : UInt8) : b &&& 15 < 16 := by
  apply forall_byte (b := b)
  decide +kernel

/-- The mask bit and the payload length in the shortest form. -/
def lengthField (masked : Bool) (n : Nat) : List UInt8 :=
  if n < 126 then [flag masked ||| UInt8.ofNat n]
  else if n < 65536 then (flag masked ||| 126) :: BigEndian.encode 2 n
  else (flag masked ||| 127) :: BigEndian.encode 8 n

/-- The masking key, if there is one, and the payload. -/
def content : Option Key → List UInt8 → List UInt8
  | none, payload => payload
  | some key, payload => List.ofFn key ++ transform key payload

def encode (f : Frame) : List UInt8 :=
  (flag f.fin ||| f.opcode) ::
  (lengthField f.key.isSome f.payload.length ++ content f.key f.payload)

/-- The first `n` bytes, if there are so many. -/
def split (n : Nat) (bytes : List UInt8) : Option (List UInt8 × List UInt8) :=
  if n ≤ bytes.length then some (bytes.take n, bytes.drop n) else none

/-- The length that a field of seven bits begins, which has to be in the shortest form. -/
def decodeLength (field : UInt8) (bytes : List UInt8) : Option (Nat × List UInt8) :=
  if field = 126 then do
    let (ext, bytes) ← split 2 bytes
    if BigEndian.decode ext < 126 then none else some (BigEndian.decode ext, bytes)
  else if field = 127 then do
    let (ext, bytes) ← split 8 bytes
    if BigEndian.decode ext < 65536 then none else some (BigEndian.decode ext, bytes)
  else some (field.toNat, bytes)

def decodeKey (masked : Bool) (bytes : List UInt8) : Option (Option Key × List UInt8) :=
  if masked then do
    let (key, bytes) ← split 4 bytes
    some (some fun i => key.getD i 0, bytes)
  else some (none, bytes)

/-- The frame that the bytes begin with, and the bytes after it. The reserved bits have to be zero. -/
def decode : List UInt8 → Option (Frame × List UInt8)
  | b₁ :: b₂ :: bytes =>
    if b₁ &&& 112 ≠ 0 then none
    else do
      let (n, bytes) ← decodeLength (b₂ &&& 127) bytes
      let (key, bytes) ← decodeKey (decide (b₂ &&& 128 ≠ 0)) bytes
      let (data, bytes) ← split n bytes
      some (⟨decide (b₁ &&& 128 ≠ 0), b₁ &&& 15, key,
        (key.map fun key => transform key data).getD data,
        and_lt b₁⟩, bytes)
  | _ => none

theorem transform_transform (key : Key) (data : List UInt8) :
    transform key (transform key data) = data := by
  rw [transform, transform, List.mapIdx_mapIdx]
  apply List.ext_getElem (List.length_mapIdx)
  intro i h _
  rw [List.getElem_mapIdx]
  rw [Function.comp_apply, UInt8.xor_assoc, UInt8.xor_self, UInt8.xor_zero]

@[simp] theorem length_transform (key : Key) (data : List UInt8) :
    (transform key data).length = data.length :=
  List.length_mapIdx

theorem split_append {x : List UInt8} (hx : x.length = n) (y : List UInt8) :
    split n (x ++ y) = some (x, y) := by
  subst hx
  rw [split, if_pos (by rw [List.length_append]; exact Nat.le_add_right _ _), List.take_left,
    List.drop_left]

theorem length_of_split {x y bytes : List UInt8} (h : split n bytes = some (x, y)) :
    x.length = n := by
  rw [split] at h
  split at h
  · next hle =>
    cases h
    rw [List.length_take, Nat.min_eq_left hle]
  · cases h

/-- What follows the second byte of a frame spells the length. -/
theorem decodeLength_lengthField (masked : Bool) (h : n < 2 ^ 64) (bytes : List UInt8) :
    ∃ b ext, lengthField masked n = b :: ext ∧ decide (b &&& 128 ≠ 0) = masked ∧
      decodeLength (b &&& 127) (ext ++ bytes) = some (n, bytes) := by
  rw [lengthField]
  split
  · next hn =>
    have hlt : UInt8.ofNat n < 128 := by
      rw [UInt8.lt_iff_toNat_lt, UInt8.toNat_ofNat']
      exact Nat.lt_of_le_of_lt (Nat.mod_le _ _) (Nat.lt_trans hn (by decide))
    have hnat : (UInt8.ofNat n).toNat = n := by
      rw [UInt8.toNat_ofNat']
      exact Nat.mod_eq_of_lt (Nat.lt_trans hn (by decide))
    refine ⟨_, [], rfl, flag_bit masked _ hlt, ?_⟩
    rw [flag_and masked _ hlt, decodeLength, if_neg, if_neg, hnat]
    · rfl
    · intro he
      rw [he] at hnat
      subst hnat
      exact absurd hn (by decide)
    · intro he
      rw [he] at hnat
      subst hnat
      exact absurd hn (by decide)
  split
  · next hn hn' =>
    refine ⟨_, _, rfl, flag_bit masked 126 (by decide), ?_⟩
    rw [flag_and masked 126 (by decide), decodeLength, if_pos rfl,
      split_append (BigEndian.length_encode 2 n), Option.bind_eq_bind, Option.bind_some]
    dsimp only
    rw [BigEndian.decode_encode hn', if_neg hn]
  · next hn hn' =>
    refine ⟨_, _, rfl, flag_bit masked 127 (by decide), ?_⟩
    rw [flag_and masked 127 (by decide), decodeLength, if_neg (by decide), if_pos rfl,
      split_append (BigEndian.length_encode 8 n), Option.bind_eq_bind, Option.bind_some]
    dsimp only
    rw [BigEndian.decode_encode h, if_neg hn']

theorem getD_ofFn (key : Key) (i : Fin 4) : (List.ofFn key).getD i 0 = key i := by
  rw [List.getD_eq_getElem?_getD, List.getElem?_ofFn, dif_pos i.isLt, Option.getD_some]

theorem decodeKey_content (key : Option Key) (payload bytes : List UInt8) :
    ∃ data, decodeKey key.isSome (content key payload ++ bytes) = some (key, data ++ bytes) ∧
      data.length = payload.length ∧ (key.map fun key => transform key data).getD
      data = payload := by
  cases key with
  | none => exact ⟨payload, rfl, rfl, rfl⟩
  | some key =>
    refine ⟨transform key payload, ?_, length_transform key payload,
      transform_transform key payload⟩
    rw [decodeKey, Option.isSome_some, if_pos rfl, content, List.append_assoc,
      split_append List.length_ofFn,
      Option.bind_eq_bind, Option.bind_some]
    simp only [getD_ofFn]

theorem decode_encode (f : Frame) (h : f.payload.length < 2 ^ 64) (bytes : List UInt8) :
    decode (encode f ++ bytes) = some (f, bytes) := by
  obtain ⟨fin, opcode, key, payload, hop⟩ := f
  obtain ⟨hop', hzero⟩ := flag_opcode fin opcode hop
  obtain ⟨data, hkey, hdata, hpayload⟩ := decodeKey_content key payload bytes
  obtain ⟨b, ext, hfield, hmask, hlength⟩ :=
    decodeLength_lengthField key.isSome h (content key payload ++ bytes)
  have hfin : decide ((flag fin ||| opcode) &&& 128 ≠ 0) = fin :=
    flag_bit fin opcode (UInt8.lt_trans hop (by decide))
  rw [encode]
  dsimp only at *
  rw [hfield, List.cons_append, List.cons_append, List.cons_append, List.append_assoc, decode,
    if_neg (not_not_intro hzero), hlength, hmask, Option.bind_eq_bind, Option.bind_some]
  dsimp only
  rw [hkey, Option.bind_eq_bind, Option.bind_some]
  dsimp only
  rw [split_append hdata]
  simp only [Option.bind_eq_bind, Option.bind_some, hfin, hop', hpayload]

/-- A part of a message, as a client sends it. -/
structure Fragment where
  key : Key
  payload : List UInt8
  length_lt : payload.length < 2 ^ 64

/-- A ping or a pong of a client. -/
structure Control where
  pong : Bool
  key : Key
  payload : List UInt8
  short : payload.length ≤ 125

def Control.frame (c : Control) : Frame :=
  ⟨true, if c.pong then 10 else 9, some c.key, c.payload, by cases c.pong <;> decide⟩

/-- A message in fragments, with the control frames before each of them but the first. -/
structure Message where
  first : Fragment
  rest : List (List Control × Fragment)

def Message.payload (m : Message) : List UInt8 :=
  m.first.payload ++ m.rest.flatMap fun f => f.2.payload

/-- Only the last frame of a message is final. -/
def continuation : List (List Control × Fragment) → List Frame
  | [] => []
  | (controls, f) :: rest =>
    controls.map Control.frame ++ ⟨rest.isEmpty, 0, some f.key, f.payload, by decide⟩ ::
      continuation rest

def Message.frames (opcode : UInt8) (hop : opcode < 16) (m : Message) : List Frame :=
  ⟨m.rest.isEmpty, opcode, some m.first.key, m.first.payload, hop⟩ :: continuation m.rest

def Message.encode (opcode : UInt8) (hop : opcode < 16) (m : Message) : List UInt8 :=
  (m.frames opcode hop).flatMap WebSocketFrame.encode

end WebSocketFrame
