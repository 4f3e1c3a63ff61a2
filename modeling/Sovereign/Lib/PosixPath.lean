import Mathlib.Algebra.BigOperators.Group.List.Basic
import Sovereign.Lib.Marker

set_option autoImplicit true

/-! Paths of a file system as lists of names. -/

namespace PosixPath

/-- A name that a file can have. -/
def ValidName (name : List Char) : Prop :=
  name ≠ [] ∧ name ≠ ['.'] ∧ name ≠ ['.', '.'] ∧ '/' ∉ name ∧ Char.ofNat 0 ∉ name

instance (name : List Char) : Decidable (ValidName name) :=
  inferInstanceAs (Decidable (_ ∧ _))

/-- One part of an absolute path that is normalized: `..` goes back, but not above the root. -/
def enter (path : List (List Char)) (part : List Char) : List (List Char) :=
  if part = [] ∨ part = ['.'] then path
  else if part = ['.', '.'] then path.dropLast
  else path ++ [part]

/-- `posixpath.normpath` of a text that is made absolute. -/
def normalize (text : List Char) : List (List Char) := (text.splitOn '/').foldl enter []

/-- `Path.as_posix` of a relative path. -/
def text (path : List (List Char)) : List Char := ['/'].intercalate path

theorem splitOn_text {path : List (List Char)} (hne : path ≠ []) (h : ∀ name ∈ path, '/' ∉ name) :
    (text path).splitOn '/' = path :=
  List.splitOn_intercalate '/' h hne

theorem text_splitOn (s : List Char) : text (s.splitOn '/') = s := List.intercalate_splitOn '/'

theorem text_cons_cons (name other : List Char) (path : List (List Char)) :
    text (name :: other :: path) = name ++ '/' :: text (other :: path) := by
  rw [text, List.intercalate_cons_cons, List.append_assoc]
  rfl

theorem mem_text {path : List (List Char)} {c : Char} (h : c ∈ text path) :
    c = '/' ∨ ∃ name ∈ path, c ∈ name := by
  induction path with
  | nil => cases h
  | cons name path ih =>
    cases path with
    | nil =>
      have hsingle : text [name] = name := by simp [text]
      rw [hsingle] at h
      exact .inr ⟨name, List.mem_cons_self, h⟩
    | cons other path =>
      rw [text_cons_cons, List.mem_append, List.mem_cons] at h
      rcases h with h | h | h
      · exact .inr ⟨name, List.mem_cons_self, h⟩
      · exact .inl h
      · rcases ih h with h | ⟨found, hfound, h⟩
        · exact .inl h
        · exact .inr ⟨found, List.mem_cons_of_mem name hfound, h⟩

/-- A path of names that a file can have neither begins nor ends with a slash. -/
theorem text_ends {path : List (List Char)} (hne : path ≠ []) (h : ∀ name ∈ path, ValidName name) :
    (∃ c rest, text path = c :: rest ∧ c ≠ '/') ∧ ∃ init c, text path = init ++ [c] ∧ c ≠ '/' := by
  induction path with
  | nil => exact absurd rfl hne
  | cons name path ih =>
    obtain ⟨hname, -, -, hslash, -⟩ := h name List.mem_cons_self
    obtain ⟨c, rest, rfl⟩ := List.exists_cons_of_ne_nil hname
    have hfirst : c ≠ '/' := fun hc => hslash (hc ▸ List.mem_cons_self)
    cases path with
    | nil =>
      have hsingle : text [c :: rest] = c :: rest := by simp [text]
      rw [hsingle]
      refine ⟨⟨c, rest, rfl, hfirst⟩, (c :: rest).dropLast, (c :: rest).getLast hname,
        (List.dropLast_concat_getLast hname).symm, fun hlast => hslash ?_⟩
      rw [← hlast]
      exact List.getLast_mem hname
    | cons other path =>
      obtain ⟨-, init, d, hlast, hd⟩ := ih (List.cons_ne_nil other path) fun name' hname' =>
        h name' (List.mem_cons_of_mem _ hname')
      rw [text_cons_cons, hlast]
      exact ⟨⟨c, _, rfl, hfirst⟩, (c :: rest) ++ '/' :: init, d, by simp, hd⟩

theorem normalize_cons (s : List Char) : normalize ('/' :: s) = (s.splitOn '/').foldl enter [] := by
  have hsplit : ('/' :: s).splitOn '/' = [] :: s.splitOn '/' := by
    have hempty : '/' ∉ ([] : List Char) := List.not_mem_nil
    exact List.splitOn_append_cons_self_of_not_mem hempty s
  rw [normalize, hsplit]
  rfl

/-- A part that is kept as it stands. -/
def Plain (part : List Char) : Prop := part ≠ [] ∧ part ≠ ['.'] ∧ part ≠ ['.', '.']

theorem ValidName.plain {name : List Char} (h : ValidName name) : Plain name :=
  ⟨h.1, h.2.1, h.2.2.1⟩

theorem enter_plain {part : List Char} (h : Plain part) (path : List (List Char)) :
    enter path part = path ++ [part] := by
  rw [enter, if_neg (not_or_intro h.1 h.2.1), if_neg h.2.2]

theorem foldl_enter_plain {parts : List (List Char)} (h : ∀ part ∈ parts, Plain part)
    (path : List (List Char)) : parts.foldl enter path = path ++ parts := by
  induction parts generalizing path with
  | nil => exact (List.append_nil path).symm
  | cons part parts ih =>
    rw [List.foldl_cons, enter_plain (h part List.mem_cons_self),
      ih fun other hother => h other (List.mem_cons_of_mem part hother), List.append_assoc]
    rfl

/-- A path is entered by the parts that are kept, and none of them goes back. -/
theorem mem_enter {path : List (List Char)} {part name : List Char} (h : name ∈ enter path part) :
    name ∈ path ∨ name = part ∧ Plain part := by
  rw [enter] at h
  split at h
  · exact .inl h
  · next hplace =>
    split at h
    · exact .inl (List.dropLast_subset path h)
    · next hback =>
      rcases List.mem_append.1 h with h | h
      · exact .inl h
      · exact .inr ⟨List.mem_singleton.1 h,
          fun heq => hplace (.inl heq), fun heq => hplace (.inr heq), hback⟩

theorem mem_foldl_enter {parts path : List (List Char)} {name : List Char}
    (h : name ∈ parts.foldl enter path) : name ∈ path ∨ name ∈ parts ∧ Plain name := by
  induction parts generalizing path with
  | nil => exact .inl h
  | cons part parts ih =>
    rcases ih h with h | ⟨hmem, hplain⟩
    · rcases mem_enter h with h | ⟨rfl, hplain⟩
      · exact .inl h
      · exact .inr ⟨List.mem_cons_self, hplain⟩
    · exact .inr ⟨List.mem_cons_of_mem part hmem, hplain⟩

/-- What is left of a path goes nowhere back. -/
theorem plain_of_mem_normalize {s name : List Char} (h : name ∈ normalize s) :
    Plain name ∧ '/' ∉ name ∧ name ⊆ s := by
  rcases mem_foldl_enter h with h | ⟨hmem, hplain⟩
  · cases h
  · exact ⟨hplain, Marker.splitOn_part '/' s name hmem⟩

/-- A path of names that a file can have is normalized. -/
theorem normalize_text {path : List (List Char)} (hne : path ≠ [])
    (h : ∀ name ∈ path, ValidName name) : normalize ('/' :: text path) = path := by
  rw [normalize_cons, splitOn_text hne fun name hname => (h name hname).2.2.2.1,
    foldl_enter_plain fun name hname => (h name hname).plain, List.nil_append]

/-- The characters of a path, with one slash for each name. -/
def weight (path : List (List Char)) : Nat := (path.map fun name => name.length + 1).sum

theorem weight_append (path more : List (List Char)) :
    weight (path ++ more) = weight path + weight more := by
  rw [weight, List.map_append, List.sum_append]
  rfl

theorem length_text {path : List (List Char)} (hne : path ≠ []) :
    (text path).length + 1 = weight path :=
  Marker.length_intercalate '/' hne

theorem weight_dropLast (path : List (List Char)) : weight path.dropLast ≤ weight path := by
  rcases List.eq_nil_or_concat path with rfl | ⟨init, last, rfl⟩
  · exact Nat.le_refl _
  · rw [List.concat_eq_append, List.dropLast_concat, weight_append]
    exact Nat.le_add_right _ _

/-- Only a part that is kept as a name adds all of its characters. -/
theorem weight_enter (path : List (List Char)) (part : List Char) :
    weight (enter path part) ≤ weight path + (part.length + 1) ∧
      (weight (enter path part) = weight path + (part.length + 1) →
        enter path part = path ++ [part]) := by
  rw [enter]
  split
  · exact ⟨Nat.le_add_right _ _, fun h => absurd h (by omega)⟩
  · split
    · have hdrop := weight_dropLast path
      exact ⟨by omega, fun h => absurd h (by omega)⟩
    · rw [weight_append]
      exact ⟨Nat.le_refl _, fun _ => rfl⟩

theorem weight_foldl_enter (parts path : List (List Char)) :
    weight (parts.foldl enter path) ≤ weight path + weight parts ∧
      (weight (parts.foldl enter path) = weight path + weight parts →
        parts.foldl enter path = path ++ parts) := by
  induction parts generalizing path with
  | nil => exact ⟨Nat.le_refl _, fun _ => (List.append_nil path).symm⟩
  | cons part parts ih =>
    have hweight : weight (part :: parts) = part.length + 1 + weight parts := rfl
    obtain ⟨hle, heq⟩ := ih (enter path part)
    obtain ⟨hpart, hkept⟩ := weight_enter path part
    rw [List.foldl_cons, hweight]
    refine ⟨by omega, fun h => ?_⟩
    rw [heq (by omega), hkept (by omega), List.append_assoc]
    rfl

/-- A text that is as long as its normalized path is that path. -/
theorem text_normalize {s : List Char} (hne : normalize ('/' :: s) ≠ [])
    (h : s.length ≤ (text (normalize ('/' :: s))).length) : text (normalize ('/' :: s)) = s := by
  have hparts := length_text (List.splitOn_ne_nil '/' s)
  have hlength := length_text hne
  rw [text_splitOn] at hparts
  rw [normalize_cons] at h hlength ⊢
  obtain ⟨hle, heq⟩ := weight_foldl_enter (s.splitOn '/') []
  have hzero : weight [] = 0 := rfl
  rw [heq (by omega), List.nil_append, text_splitOn]

end PosixPath
