import Sovereign.MultipartRoundTrip

namespace Sovereign.Multipart
set_option autoImplicit true

/-! The parameters of a header are separated before the quotes are looked at. -/

/-- A text that may stand between quotes as it is. -/
def Quotable (s : Str) : Prop := ∀ c ∈ s, c ≠ '"' ∧ c ≠ '\\' ∧ c ≠ '\r' ∧ c ≠ '\n'

/-- `form-data; name="..."; filename="..."` -/
def fileDisposition (name filename : Str) : Str :=
  "form-data".toList ++ ';' :: ' ' :: (Part.param "name".toList name ++
    ';' :: ' ' :: Part.param "filename".toList filename)

/-- What is expected of the header of a file. -/
def filed (name filename : Str) : Str × Dict Str Str :=
  ("form-data".toList,
    ((∅ : Dict Str Str).set "name".toList name).set "filename".toList filename)

/-- No value of the mapping has a semicolon. -/
def Unseparated (params : Dict Str Str) : Prop := ∀ k v, params.get? k = some v → ';' ∉ v

theorem strip_subset (space : α → Bool) (l : List α) : strip space l ⊆ l :=
  List.Subset.trans (List.rdropWhile_prefix _ _).subset (List.dropWhile_suffix _).subset

theorem unseparated_addParam {params : Dict Str Str} (h : Unseparated params) (hp : ';' ∉ p) :
    Unseparated (addParam params p) := by
  rw [addParam]
  split
  · exact h
  · next key value hsplit =>
    intro k v hv
    rw [Dict.get?_set] at hv
    split at hv
    · cases hv
      intro hmem
      apply hp
      rw [Marker.breakOn_eq hsplit]
      exact List.mem_append_right _ (strip_subset _ _ (strip_subset _ _ hmem))
    · exact h k v hv

theorem unseparated_foldl {params : Dict Str Str} {pieces : List Str} (h : Unseparated params)
    (hp : ∀ p ∈ pieces, ';' ∉ p) : Unseparated (pieces.foldl addParam params) := by
  induction pieces generalizing params with
  | nil => exact h
  | cons p pieces ih =>
    exact ih (unseparated_addParam h (hp p List.mem_cons_self))
      fun q hq => hp q (List.mem_cons_of_mem p hq)

/-- No parameter of a header has a semicolon in its value. -/
theorem unseparated_params (value : Str) : Unseparated (parseContentDisposition value).2 := by
  have hempty : Unseparated ∅ := fun k v hv => nomatch hv
  have hpieces : ∀ p ∈ (value.splitOn ';').map strStrip, ';' ∉ p := by
    intro p hp hmem
    obtain ⟨piece, hpiece, rfl⟩ := List.mem_map.1 hp
    exact Marker.not_mem_splitOn hpiece (strip_subset _ _ hmem)
  rw [parseContentDisposition]
  cases hsplit : (value.splitOn ';').map strStrip with
  | nil => exact hempty
  | cons kind params =>
    rw [hsplit] at hpieces
    exact unseparated_foldl hempty fun p hp => hpieces p (List.mem_cons_of_mem kind hp)

/-- The names of a file are read as they were written just if there is no semicolon in them. -/
theorem parseContentDisposition_iff (name filename : Str) (hname : Quotable name)
    (hfilename : Quotable filename) :
    parseContentDisposition (fileDisposition name filename) = filed name filename ↔
      ';' ∉ name ∧ ';' ∉ filename := by
  constructor
  · intro h
    have hclean := unseparated_params (fileDisposition name filename)
    rw [h] at hclean
    have hne : "name".toList ≠ "filename".toList := by decide
    exact ⟨hclean _ name ((Dict.get?_set_of_ne _ hne filename).trans (Dict.get?_set_self _ _ _)),
      hclean _ filename (Dict.get?_set_self _ _ _)⟩
  · rintro ⟨hsemi, hsemi'⟩
    exact parseContentDisposition_file ⟨fun hq => (hname _ hq).1 rfl, hsemi⟩
      ⟨fun hq => (hfilename _ hq).1 rfl, hsemi'⟩

theorem quotable_iff (s : Str) :
    (s.all fun c => decide (c ≠ '"' ∧ c ≠ '\\' ∧ c ≠ '\r' ∧ c ≠ '\n')) = true ↔ Quotable s := by
  rw [List.all_eq_true]
  exact forall₂_congr fun c _ => decide_eq_true_iff

instance (s : Str) : Decidable (Quotable s) := decidable_of_iff _ (quotable_iff s)

/-- Blanks and equals signs are kept. -/
theorem parseContentDisposition_iff_spaced :
    parseContentDisposition (fileDisposition "a=".toList " b c ".toList) =
        filed "a=".toList " b c ".toList ↔
      ';' ∉ "a=".toList ∧ ';' ∉ " b c ".toList :=
  parseContentDisposition_iff "a=".toList " b c ".toList (by decide) (by decide)

/-- A file name with a semicolon gives the part another name. -/
theorem filename_renames :
    Quotable "a".toList ∧ Quotable "x; name=b".toList ∧
      parseContentDisposition (fileDisposition "a".toList "x; name=b".toList) =
        filed "b".toList "x".toList ∧
      parseContentDisposition (fileDisposition "a".toList "x; name=b".toList) ≠
        filed "a".toList "x; name=b".toList := by
  refine ⟨by decide, by decide, ?_, ?_⟩
  · decide +kernel
  · decide +kernel

end Sovereign.Multipart
