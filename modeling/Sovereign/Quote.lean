import Mathlib.Data.List.SplitBy
import Sovereign.Unquote

namespace Sovereign
set_option autoImplicit true

/-- The characters that `urllib.parse.quote` leaves as they are. -/
def isUnquoted (c : Char) : Bool :=
  decide ('a' ≤ c ∧ c ≤ 'z' ∨ 'A' ≤ c ∧ c ≤ 'Z' ∨ '0' ≤ c ∧ c ≤ '9' ∨ c ∈ "_.-~/".toList)

/-- `f"%{byte:02X}"` -/
def percentByte (b : UInt8) : Str :=
  ['%', (Nat.digitChar (b.toNat / 16)).toUpper, (Nat.digitChar (b.toNat % 16)).toUpper]

def quoteChar (c : Char) : Str :=
  if isUnquoted c = true then [c] else (String.utf8EncodeChar c).flatMap percentByte

/-- `urllib.parse.quote` -/
def quote (s : Str) : Str := s.flatMap quoteChar

theorem isUnquoted_range {c : Char} (h : isUnquoted c = true) :
    45 ≤ c.toNat ∧ c.toNat < 128 := by
  have hle : ∀ a b : Char, a ≤ b ↔ a.toNat ≤ b.toNat := fun a b => by
    rw [Char.le_def, UInt32.le_iff_toNat_le]
    rfl
  simp only [isUnquoted, decide_eq_true_eq, hle] at h
  rcases h with ⟨h₁, h₂⟩ | ⟨h₁, h₂⟩ | ⟨h₁, h₂⟩ | h
  · have h₃ : 97 ≤ c.toNat := h₁
    have h₄ : c.toNat ≤ 122 := h₂
    omega
  · have h₃ : 65 ≤ c.toNat := h₁
    have h₄ : c.toNat ≤ 90 := h₂
    omega
  · have h₃ : 48 ≤ c.toNat := h₁
    have h₄ : c.toNat ≤ 57 := h₂
    omega
  · have hall : ∀ d ∈ "_.-~/".toList, 45 ≤ d.toNat ∧ d.toNat < 128 := by decide
    exact hall c h

/-- What `quote` writes. -/
def isQuoted (c : Char) : Bool := isUnquoted c || decide (c = '%')

theorem digit_unquoted {d : Nat} (h : d < 16) : isUnquoted (Nat.digitChar d).toUpper = true := by
  interval_cases d <;> decide

theorem percentByte_quoted (b : UInt8) : ∀ c ∈ percentByte b, isQuoted c = true := by
  have hb := b.toNat_lt
  intro c hc
  rw [percentByte] at hc
  simp only [List.mem_cons, List.not_mem_nil, or_false] at hc
  rw [isQuoted]
  rcases hc with rfl | rfl | rfl
  · rfl
  · rw [digit_unquoted (by omega), Bool.true_or]
  · rw [digit_unquoted (by omega), Bool.true_or]

theorem quote_quoted (s : Str) : ∀ c ∈ quote s, isQuoted c = true := by
  intro c hc
  obtain ⟨d, -, hd⟩ := List.mem_flatMap.1 hc
  rw [quoteChar] at hd
  split at hd
  · next hplain =>
    rw [List.mem_singleton] at hd
    rw [isQuoted, hd, hplain, Bool.true_or]
  · obtain ⟨b, -, hb⟩ := List.mem_flatMap.1 hd
    exact percentByte_quoted b c hb

theorem isQuoted_ascii {c : Char} (h : isQuoted c = true) : isAscii c = true := by
  rw [isQuoted, Bool.or_eq_true] at h
  rcases h with h | h
  · exact decide_eq_true (isUnquoted_range h).2
  · rw [of_decide_eq_true h]
    rfl

theorem unquoteToBytes_cons {c : Char} (h : c ≠ '%') (s : Str) :
    unquoteToBytes (c :: s) = UInt8.ofNat c.toNat :: unquoteToBytes s := by
  rw [unquoteToBytes]
  intro a b t hc
  exact absurd hc h

theorem unquoteToBytes_percentByte (b : UInt8) (s : Str) :
    unquoteToBytes (percentByte b ++ s) = b :: unquoteToBytes s := by
  have hb := b.toNat_lt
  have hvalue : b.toNat / 16 * 16 + b.toNat % 16 = b.toNat := Nat.div_add_mod' _ _
  rw [percentByte, List.cons_append, List.cons_append, List.cons_append, List.nil_append,
    unquoteToBytes, Numeral.digitVal_toUpper (by omega), Numeral.digitVal_toUpper (by omega)]
  dsimp only
  rw [hvalue, UInt8.ofNat_toNat]

theorem unquoteToBytes_percentBytes (bytes : Bytes) (s : Str) :
    unquoteToBytes (bytes.flatMap percentByte ++ s) = bytes ++ unquoteToBytes s := by
  induction bytes with
  | nil => rfl
  | cons b bytes ih =>
    rw [List.flatMap_cons, List.append_assoc, unquoteToBytes_percentByte, ih, List.cons_append]

theorem utf8EncodeChar_ascii {c : Char} (h : c.toNat < 128) :
    String.utf8EncodeChar c = [UInt8.ofNat c.toNat] := by
  have hval : c.val.toNat ≤ 127 := Nat.le_of_lt_succ h
  rw [String.utf8EncodeChar.eq_def, if_pos hval]
  rfl

theorem unquoteToBytes_quote (s : Str) : unquoteToBytes (quote s) = utf8 s := by
  induction s with
  | nil => rfl
  | cons c s ih =>
    have hquote : quote (c :: s) = quoteChar c ++ quote s := List.flatMap_cons
    have hutf8 : utf8 (c :: s) = String.utf8EncodeChar c ++ utf8 s := List.flatMap_cons
    rw [hquote, hutf8, quoteChar]
    split
    · next hplain =>
      obtain ⟨hlow, hhigh⟩ := isUnquoted_range hplain
      have hne : c ≠ '%' := by
        rintro rfl
        revert hlow
        decide
      rw [List.singleton_append, unquoteToBytes_cons hne, ih, utf8EncodeChar_ascii hhigh]
      rfl
    · rw [unquoteToBytes_percentBytes, ih]

theorem utf8_cons_ascii {c : Char} {s : Str} (h : isAscii c = true) :
    utf8 (c :: s) = UInt8.ofNat c.toNat :: utf8 s := by
  have hutf8 : utf8 (c :: s) = String.utf8EncodeChar c ++ utf8 s := List.flatMap_cons
  rw [hutf8, utf8EncodeChar_ascii (of_decide_eq_true h)]
  rfl

/-- Text without percent signs stands for itself. -/
theorem unquoteToBytes_plain {s : Str} (h : ∀ c ∈ s, isAscii c = true) (hplain : '%' ∉ s) :
    unquoteToBytes s = utf8 s := by
  induction s with
  | nil => rfl
  | cons c s ih =>
    rw [List.mem_cons, not_or] at hplain
    rw [unquoteToBytes_cons (Ne.symm hplain.1), utf8_cons_ascii (h c List.mem_cons_self),
      ih (fun d hd => h d (List.mem_cons_of_mem c hd)) hplain.2]

/-- ASCII text is decoded as a whole. -/
theorem unquote_ascii {s : Str} (h : ∀ c ∈ s, isAscii c = true) :
    unquote s = decodeReplace (unquoteToBytes s) := by
  rw [unquote]
  split
  · next hmem =>
    have hchain : s.IsChain fun a b => (isAscii a == isAscii b) = true := by
      apply List.Pairwise.isChain
      apply List.pairwise_of_forall_mem_list
      intro a ha b hb
      rw [h a ha, h b hb]
      rfl
    rw [List.splitBy_of_isChain (List.ne_nil_of_mem hmem) hchain, List.flatMap_singleton,
      if_pos (List.all_eq_true.2 h)]
  · next hplain => rw [unquoteToBytes_plain h hplain, decodeReplace_utf8]

/-- What has been quoted is read back. -/
theorem unquote_quote (s : Str) : unquote (quote s) = s := by
  rw [unquote_ascii fun c hc => isQuoted_ascii (quote_quoted s c hc), unquoteToBytes_quote,
    decodeReplace_utf8]

/-- ASCII text does not get longer where it is decoded, and shorter where something is decoded. -/
theorem length_unquoteToBytes {s : Str} (h : ∀ c ∈ s, isAscii c = true) :
    (unquoteToBytes s).length ≤ s.length ∧
      ((unquoteToBytes s).length = s.length → unquoteToBytes s = utf8 s) := by
  induction s using unquoteToBytes.induct with
  | case1 a b s m n hm hn ih =>
    have hs : ∀ c ∈ s, isAscii c = true := fun c hc => h c (by simp [hc])
    obtain ⟨hle, -⟩ := ih hs
    rw [unquoteToBytes, hm, hn]
    simp only [List.length_cons]
    exact ⟨by omega, fun h => absurd h (by omega)⟩
  | case2 a b s hno ih =>
    have hs : ∀ c ∈ a :: b :: s, isAscii c = true := fun c hc => h c (List.mem_cons_of_mem _ hc)
    obtain ⟨hle, heq⟩ := ih hs
    have hself : unquoteToBytes ('%' :: a :: b :: s) =
        UInt8.ofNat '%'.toNat :: unquoteToBytes (a :: b :: s) := by
      rw [unquoteToBytes]
      split
      · next m n hm hn => exact absurd hn (hno m n hm)
      · rfl
    rw [hself, utf8_cons_ascii rfl, List.length_cons, List.length_cons]
    exact ⟨Nat.succ_le_succ hle, fun h => by rw [heq (Nat.succ.inj h)]⟩
  | case3 c s hno ih =>
    have hs : ∀ d ∈ s, isAscii d = true := fun d hd => h d (List.mem_cons_of_mem c hd)
    obtain ⟨hle, heq⟩ := ih hs
    rw [unquoteToBytes.eq_2 _ _ hno, utf8_cons_ascii (h c List.mem_cons_self), List.length_cons,
      List.length_cons]
    exact ⟨Nat.succ_le_succ hle, fun h => by rw [heq (Nat.succ.inj h)]⟩
  | case4 => exact ⟨Nat.le_refl _, fun _ => rfl⟩

theorem length_decodeReplace (b : Bytes) : (decodeReplace b).length ≤ b.length :=
  Scan.length_findAll b

/-- Parts that do not get longer, and shorter where they change. -/
theorem length_flatMap_parts {f : List α → List α} (parts : List (List α))
    (h : ∀ part ∈ parts, (f part).length ≤ part.length ∧
      ((f part).length = part.length → f part = part)) :
    (parts.flatMap f).length ≤ parts.flatten.length ∧
      ((parts.flatMap f).length = parts.flatten.length → parts.flatMap f = parts.flatten) := by
  induction parts with
  | nil => exact ⟨Nat.le_refl _, fun _ => rfl⟩
  | cons part parts ih =>
    obtain ⟨hle, heq⟩ := ih fun other hother => h other (List.mem_cons_of_mem part hother)
    obtain ⟨hpart, hsame⟩ := h part List.mem_cons_self
    rw [List.flatMap_cons, List.flatten_cons, List.length_append, List.length_append]
    refine ⟨Nat.add_le_add hpart hle, fun h => ?_⟩
    rw [hsame (by omega), heq (by omega)]

/-- Text does not get longer where it is decoded, and shorter where something is decoded. -/
theorem length_unquote (s : Str) :
    (unquote s).length ≤ s.length ∧ ((unquote s).length = s.length → unquote s = s) := by
  rw [unquote]
  split
  · generalize hparts : (s.splitBy fun a b => isAscii a == isAscii b) = parts
    have hflat : parts.flatten = s := hparts ▸ List.flatten_splitBy _ _
    have hall := length_flatMap_parts (f := fun part =>
      if part.all isAscii = true then decodeReplace (unquoteToBytes part) else part) parts
    rw [hflat] at hall
    apply hall
    intro part _
    split
    · next hascii =>
      obtain ⟨hle, heq⟩ := length_unquoteToBytes (List.all_eq_true.1 hascii)
      have hdecode := length_decodeReplace (unquoteToBytes part)
      refine ⟨hdecode.trans hle, fun h => ?_⟩
      rw [heq (by omega), decodeReplace_utf8]
    · exact ⟨Nat.le_refl _, fun _ => rfl⟩
  · exact ⟨Nat.le_refl _, fun _ => rfl⟩

theorem percentByte_no_slash (b : UInt8) : '/' ∉ percentByte b := by
  have hdigit : ∀ d < 16, '/' ≠ (Nat.digitChar d).toUpper := by
    intro d hd
    interval_cases d <;> decide
  have hb := b.toNat_lt
  rw [percentByte]
  simp only [List.mem_cons, List.not_mem_nil, or_false, not_or]
  exact ⟨by decide, hdigit _ (by omega), hdigit _ (by omega)⟩

theorem quoteChar_no_slash (h : c ≠ '/') : '/' ∉ quoteChar c := by
  rw [quoteChar]
  split
  · exact fun hmem => h (List.mem_singleton.1 hmem).symm
  · intro hmem
    obtain ⟨b, -, hb⟩ := List.mem_flatMap.1 hmem
    exact percentByte_no_slash b hb

theorem quoteChar_ne_nil (c : Char) : quoteChar c ≠ [] := by
  rw [quoteChar]
  split
  · exact List.cons_ne_nil _ _
  · obtain ⟨b, more, hbytes, -⟩ := utf8Char_encode c []
    rw [hbytes]
    exact List.cons_ne_nil _ _

/-- A quoted text ends with a slash only where the text does. -/
theorem quote_last {s : Str} (h : ∃ init c, s = init ++ [c] ∧ c ≠ '/') :
    ∃ init c, quote s = init ++ [c] ∧ c ≠ '/' := by
  obtain ⟨init, c, rfl, hc⟩ := h
  have hne := quoteChar_ne_nil c
  have hquote : quote (init ++ [c]) = quote init ++ quoteChar c := by
    rw [quote, List.flatMap_append, List.flatMap_singleton]
    rfl
  refine ⟨quote init ++ (quoteChar c).dropLast, (quoteChar c).getLast hne, ?_, ?_⟩
  · rw [hquote, List.append_assoc, List.dropLast_concat_getLast]
  · intro hslash
    apply quoteChar_no_slash hc
    rw [← hslash]
    exact List.getLast_mem hne

/-- A quoted text begins with a slash only where the text does. -/
theorem quote_first {s : Str} (h : ∃ c rest, s = c :: rest ∧ c ≠ '/') :
    ∃ c rest, quote s = c :: rest ∧ c ≠ '/' := by
  obtain ⟨c, rest, rfl, hc⟩ := h
  obtain ⟨d, more, hchar⟩ := List.exists_cons_of_ne_nil (quoteChar_ne_nil c)
  have hquote : quote (c :: rest) = quoteChar c ++ quote rest := List.flatMap_cons
  refine ⟨d, more ++ quote rest, by rw [hquote, hchar]; rfl, fun hd => ?_⟩
  apply quoteChar_no_slash hc
  rw [hchar, hd]
  exact List.mem_cons_self

/-- Where a quoted text begins without a percent sign, so does the text. -/
theorem quote_eq_append {s before after : Str} (hplain : '%' ∉ before)
    (h : quote s = before ++ after) : ∃ more, s = before ++ more ∧ after = quote more := by
  induction before generalizing s with
  | nil => exact ⟨s, rfl, h.symm⟩
  | cons c before ih =>
    rw [List.mem_cons, not_or] at hplain
    cases s with
    | nil => cases h
    | cons d s =>
      have hquote : quote (d :: s) = quoteChar d ++ quote s := List.flatMap_cons
      rw [hquote, quoteChar] at h
      split at h
      · obtain ⟨rfl, hrest⟩ := List.cons.inj h
        obtain ⟨more, rfl, hafter⟩ := ih hplain.2 hrest
        exact ⟨more, rfl, hafter⟩
      · obtain ⟨b, bytes, hbytes, -⟩ := utf8Char_encode d []
        rw [hbytes] at h
        exact absurd (List.cons.inj h).1 hplain.1

end Sovereign
