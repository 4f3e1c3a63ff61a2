import Sovereign.Lib.Marker
import Sovereign.Lib.Numeral

/-! The chunked transfer coding of HTTP/1.1, as a grammar over bytes. -/

namespace Chunked
set_option autoImplicit true

def lineEnd : List UInt8 := [13, 10]

/-- Text that holds neither a carriage return nor a line feed. -/
def OneLine (text : List UInt8) : Prop := 13 ∉ text ∧ 10 ∉ text

instance : Decidable (OneLine text) := inferInstanceAs (Decidable (_ ∧ _))

def chars (text : List UInt8) : List Char := text.map fun b => Char.ofNat b.toNat

/-- A chunk size in hexadecimal digits, and perhaps an extension after a semicolon. -/
def SizeLine (n : Nat) (line : List UInt8) : Prop :=
  ∃ digits ext, line = digits ++ ext ∧ Numeral.parse 16 (chars digits) = some n ∧
    (ext = [] ∨ ∃ text, ext = 59 :: text ∧ OneLine text)

/-- The characters of a token, as bytes. -/
def tchar (b : UInt8) : Bool :=
  decide (48 ≤ b ∧ b ≤ 57 ∨ 65 ≤ b ∧ b ≤ 90 ∨ 97 ≤ b ∧ b ≤ 122) ||
    [33, 35, 36, 37, 38, 39, 42, 43, 45, 46, 94, 95, 96, 124, 126].contains b

def FieldLine (line : List UInt8) : Prop :=
  ∃ name value, line = name ++ 58 :: value ∧ name ≠ [] ∧ name.all tchar = true ∧ OneLine value

/-- Trailer fields up to and including the empty line: the input, and what follows them. -/
inductive Trailers (fits : List UInt8 → Prop) : List UInt8 → List UInt8 → Prop where
  | done : Trailers fits (lineEnd ++ rest) rest
  | field : FieldLine line → fits line → Trailers fits u rest →
      Trailers fits (line ++ lineEnd ++ u) rest

/-- Chunks whose lines all fit, up to the last chunk and what `ends` accepts after it: the input,
the content, and what follows. -/
inductive Chunks (fits : List UInt8 → Prop) (ends : List UInt8 → List UInt8 → Prop) :
    List UInt8 → List UInt8 → List UInt8 → Prop where
  | last : SizeLine 0 line → fits line → ends u rest →
      Chunks fits ends (line ++ lineEnd ++ u) [] rest
  | chunk : SizeLine n line → fits line → 0 < n → data.length = n →
      Chunks fits ends u content rest →
      Chunks fits ends (line ++ lineEnd ++ (data ++ (lineEnd ++ u))) (data ++ content) rest

/-- A chunked body. -/
abbrev Body (fits : List UInt8 → Prop) := Chunks fits (Trailers fits)

theorem OneLine.append (hs : OneLine s) (ht : OneLine t) : OneLine (s ++ t) :=
  ⟨fun h => (List.mem_append.1 h).elim hs.1 ht.1, fun h => (List.mem_append.1 h).elim hs.2 ht.2⟩

theorem OneLine.cons (hb : b ≠ 13 ∧ b ≠ 10) (ht : OneLine t) : OneLine (b :: t) :=
  ⟨fun h => (List.mem_cons.1 h).elim (fun he => hb.1 he.symm) ht.1,
    fun h => (List.mem_cons.1 h).elim (fun he => hb.2 he.symm) ht.2⟩

theorem oneLine_nil : OneLine [] := ⟨List.not_mem_nil, List.not_mem_nil⟩

/-- No hexadecimal digit is one of the bytes that the grammar gives a meaning to. -/
theorem not_mem_digits {b : UInt8} (h : Numeral.digitVal (Char.ofNat b.toNat) = none)
    (hp : Numeral.parse 16 (chars digits) = some n) : b ∉ digits := by
  intro hb
  have hs := Numeral.isSome_digitVal_of_parse hp _ (List.mem_map_of_mem hb)
  rw [h] at hs
  cases hs

theorem SizeLine.oneLine (h : SizeLine n line) : OneLine line := by
  obtain ⟨digits, ext, rfl, hp, he⟩ := h
  have hd : OneLine digits := ⟨not_mem_digits (by decide) hp, not_mem_digits (by decide) hp⟩
  rcases he with rfl | ⟨text, rfl, ht⟩
  · exact hd.append oneLine_nil
  · exact hd.append (ht.cons (by decide))

theorem FieldLine.oneLine (h : FieldLine line) : OneLine line := by
  obtain ⟨name, value, rfl, -, hn, hv⟩ := h
  have hm : ∀ b : UInt8, tchar b = false → b ∉ name := by
    intro b hb hmem
    rw [List.all_eq_true.1 hn b hmem] at hb
    cases hb
  exact OneLine.append ⟨hm _ (by decide), hm _ (by decide)⟩ (hv.cons (by decide))

theorem FieldLine.ne_nil (h : FieldLine line) : line ≠ [] := by
  obtain ⟨name, value, rfl, -⟩ := h
  simp

/-- A line is what stands before the first line end. -/
theorem breakOn_line (h : OneLine line) (u : List UInt8) :
    Marker.breakOn lineEnd (line ++ lineEnd ++ u) = some (line, u) :=
  Marker.breakOn_first h.1

theorem line_unique (h : OneLine line) (h' : OneLine line')
    (he : line ++ lineEnd ++ u = line' ++ lineEnd ++ u') : line = line' ∧ u = u' := by
  have hb := breakOn_line h u
  rw [he, breakOn_line h' u'] at hb
  cases hb
  exact ⟨rfl, rfl⟩

theorem SizeLine.unique (h : SizeLine n line) (h' : SizeLine m line) : n = m := by
  obtain ⟨digits, ext, rfl, hp, he⟩ := h
  obtain ⟨digits', ext', hl, hp', he'⟩ := h'
  have hd : ∀ {d e : List UInt8} {k : Nat}, Numeral.parse 16 (chars d) = some k →
      (e = [] ∨ ∃ text, e = 59 :: text ∧ OneLine text) →
      (d ++ e).takeWhile (· ≠ 59) = d := by
    intro d e k hk hor
    have hall : ∀ x ∈ d, (decide (x ≠ (59 : UInt8))) = true := fun x hx =>
      decide_eq_true fun hx' => not_mem_digits (by decide) hk (hx' ▸ hx)
    rw [List.takeWhile_append_of_pos hall]
    rcases hor with rfl | ⟨text, rfl, -⟩ <;> simp
  have hdd : digits = digits' := by rw [← hd hp he, hl, hd hp' he']
  subst hdd
  rw [hp] at hp'
  exact Option.some.inj hp'

theorem Trailers.length (h : Trailers fits u rest) : rest.length + 2 ≤ u.length := by
  induction h with
  | done => simp [lineEnd]
  | field _ _ _ ih =>
    simp only [List.length_append]
    omega

theorem Trailers.cases_line (h : Trailers fits (line ++ lineEnd ++ u) rest) (hl : OneLine line) :
    line = [] ∧ u = rest ∨ FieldLine line ∧ fits line ∧ Trailers fits u rest := by
  generalize hv : line ++ lineEnd ++ u = v at h
  cases h with
  | done =>
    obtain ⟨rfl, rfl⟩ := line_unique hl oneLine_nil
      (by simpa using hv : line ++ lineEnd ++ u = [] ++ lineEnd ++ rest)
    exact .inl ⟨rfl, rfl⟩
  | field hf hfit ht =>
    obtain ⟨rfl, rfl⟩ := line_unique hl hf.oneLine hv
    exact .inr ⟨hf, hfit, ht⟩

end Chunked
