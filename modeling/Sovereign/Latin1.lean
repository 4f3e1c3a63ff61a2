import Sovereign.Lib.Chunked
import Sovereign.Python

namespace Sovereign
set_option autoImplicit true

/-- The bytes of Latin-1 text. -/
def latin1 (s : Str) : Bytes := s.map fun c => UInt8.ofNat c.toNat

/-- Text that can stand on one line of a Latin-1 header block. -/
def Clean (s : Str) : Prop := ∀ c ∈ s, c.toNat < 256 ∧ c ≠ '\r' ∧ c ≠ '\n'

instance : Decidable (Clean s) := inferInstanceAs (Decidable (∀ c ∈ s, _))

theorem clean_append {s t : Str} (hs : Clean s) (ht : Clean t) : Clean (s ++ t) := fun c hc =>
  (List.mem_append.1 hc).elim (hs c) (ht c)

theorem latin1_length (s : Str) : (latin1 s).length = s.length := List.length_map _

theorem latin1_append (s t : Str) : latin1 (s ++ t) = latin1 s ++ latin1 t := List.map_append

theorem latin1_cons (c : Char) (s : Str) : latin1 (c :: s) = UInt8.ofNat c.toNat :: latin1 s := rfl

theorem toNat_latin1 {c : Char} (h : c.toNat < 256) : (UInt8.ofNat c.toNat).toNat = c.toNat := by
  rw [UInt8.toNat_ofNat', Nat.mod_eq_of_lt h]

theorem decodeLatin1_latin1 {s : Str} (h : ∀ c ∈ s, c.toNat < 256) :
    decodeLatin1 (latin1 s) = s := by
  rw [decodeLatin1, latin1, List.map_map]
  refine (List.map_congr_left fun c hc => ?_).trans (List.map_id s)
  simp only [Function.comp, toNat_latin1 (h c hc), Char.ofNat_toNat, id]

/-- Hexadecimal digits make a chunk-size line. -/
theorem sizeLine_digits (h : Numeral.parse 16 s = some n) : Chunked.SizeLine n (latin1 s) := by
  have hs : Chunked.chars (latin1 s) = s := by
    refine decodeLatin1_latin1 fun c hc => ?_
    obtain ⟨d, -, hd⟩ := Numeral.digit_of_parse h c hc
    exact Nat.lt_trans (Numeral.toNat_of_digitVal hd).1 (by decide)
  exact ⟨latin1 s, [], (List.append_nil _).symm, by rw [hs, h], .inl rfl⟩

theorem encodeLatin1_eq (s : Str) :
    encodeLatin1 s = if ∀ c ∈ s, c.toNat < 256 then some (latin1 s) else none := by
  induction s with
  | nil => rfl
  | cons c s ih =>
    simp only [encodeLatin1, List.mapM_cons] at ih ⊢
    rw [ih]
    by_cases hc : c.toNat < 256
    · by_cases hs : ∀ d ∈ s, d.toNat < 256
      · simp only [hc, ↓reduceIte, if_pos hs]
        rw [if_pos (by simpa [hc] using hs)]
        rfl
      · simp only [hc, ↓reduceIte, if_neg hs]
        rw [if_neg fun h => hs fun d hd => h d (List.mem_cons_of_mem _ hd)]
        rfl
    · have hn : ¬ ∀ d ∈ c :: s, d.toNat < 256 := fun h => hc (h c List.mem_cons_self)
      simp only [hc, hn, ↓reduceIte]
      rfl

/-- A character keeps its identity as a byte. -/
theorem mem_latin1 {c : Char} {s : Str} (hc : c.toNat < 256) (hs : ∀ d ∈ s, d.toNat < 256) :
    UInt8.ofNat c.toNat ∈ latin1 s ↔ c ∈ s := by
  constructor
  · intro h
    obtain ⟨d, hd, he⟩ := List.mem_map.1 h
    have hn := congrArg UInt8.toNat he
    rw [toNat_latin1 hc, toNat_latin1 (hs d hd)] at hn
    obtain rfl : d = c := Char.ext (UInt32.toNat_inj.1 hn)
    exact hd
  · exact List.mem_map_of_mem

theorem mem_joinPair {a b c : Char} {ls : List Str} (h : c ∈ Marker.joinPair a b ls) :
    c = a ∨ c = b ∨ ∃ l ∈ ls, c ∈ l := by
  induction ls with
  | nil => cases h
  | cons l ls ih =>
    cases ls with
    | nil => exact .inr (.inr ⟨l, List.mem_cons_self, h⟩)
    | cons l' ls =>
      rw [Marker.joinPair, List.mem_append, List.mem_cons, List.mem_cons] at h
      · rcases h with h | h | h | h
        · exact .inr (.inr ⟨l, List.mem_cons_self, h⟩)
        · exact .inl h
        · exact .inr (.inl h)
        · rcases ih h with h | h | ⟨x, hx, hc⟩
          · exact .inl h
          · exact .inr (.inl h)
          · exact .inr (.inr ⟨x, List.mem_cons_of_mem _ hx, hc⟩)
      · exact List.cons_ne_nil _ _

/-- The lines of a header block with the empty line after them. -/
def blockText (lines : List Str) : Str := Marker.joinPair '\r' '\n' lines ++ "\r\n\r\n".toList

theorem blockText_latin {lines : List Str} (h : ∀ line ∈ lines, ∀ c ∈ line, c.toNat < 256) :
    ∀ c ∈ blockText lines, c.toNat < 256 := by
  intro c hc
  rcases List.mem_append.1 hc with hc | hc
  · rcases mem_joinPair hc with rfl | rfl | ⟨line, hl, hc⟩
    · decide
    · decide
    · exact h line hl c hc
  · have hall : ∀ c ∈ "\r\n\r\n".toList, c.toNat < 256 := by decide
    exact hall c hc

theorem latin1_joinPair (lines : List Str) :
    latin1 (Marker.joinPair '\r' '\n' lines) = Marker.joinPair 13 10 (lines.map latin1) :=
  Marker.map_joinPair _ _ _ _

theorem not_mem_latin1 {line : Str} (h : Clean line) : 13 ∉ latin1 line := fun hm =>
  (h '\r' ((mem_latin1 (c := '\r') (by decide) fun d hd => (h d hd).1).1 hm)).2.1 rfl

/-- The first empty line of a stream that starts with a header block is the block's own. -/
theorem breakOn_blockText {lines : List Str} (h : ∀ line ∈ lines, Clean line ∧ line ≠ [])
    (hne : lines ≠ []) (u : Bytes) :
    Marker.breakOn headEnd (latin1 (blockText lines) ++ u) =
      some (latin1 (Marker.joinPair '\r' '\n' lines), u) := by
  have hb : latin1 (blockText lines) =
      Marker.joinPair 13 10 (lines.map latin1) ++ [13, 10, 13, 10] := by
    rw [blockText, latin1_append, latin1_joinPair]
    rfl
  rw [hb, latin1_joinPair]
  refine Marker.breakOn_joinPair (by decide) (fun l hl => ?_) (by simpa using hne) u
  obtain ⟨line, hline, rfl⟩ := List.mem_map.1 hl
  exact ⟨not_mem_latin1 (h line hline).1, by simpa [latin1] using (h line hline).2⟩

end Sovereign
