import Sovereign.Lib.Regex

set_option autoImplicit true

/-! The text of a regular expression, for the part of the syntax that `Regex` covers. -/

namespace Regex

/-- The characters that are not themselves in a regular expression. -/
def specials : List Char := ".^$*+?\x7b[\\|()".toList

def isNameStart (c : Char) : Bool := decide ('a' ≤ c ∧ c ≤ 'z' ∨ 'A' ≤ c ∧ c ≤ 'Z' ∨ c = '_')

def isNameChar (c : Char) : Bool := isNameStart c || decide ('0' ≤ c ∧ c ≤ '9')

/-- `[a-zA-Z_][a-zA-Z0-9_]*` at the beginning of a text: the name, and what follows it. -/
def identifier (s : List Char) : Option (List Char × List Char) :=
  if (s.head?.map isNameStart).getD false then some (s.takeWhile isNameChar, s.dropWhile isNameChar)
  else none

/-- A class of characters: any but a newline, any but one, or one. -/
def charClass : List Char → Option ((Char → Bool) × List Char)
  | '.' :: s => some (fun x => decide (x ≠ '\n'), s)
  | '[' :: '^' :: c :: ']' :: s => if c ∈ ']' :: specials then none
      else some (fun x => decide (x ≠ c), s)
  | c :: s => if c ∈ specials then none else some (fun x => decide (x = c), s)
  | [] => none

def quantifier : List Char → (Nat × Option Nat) × List Char
  | '*' :: s => ((0, none), s)
  | '+' :: s => ((1, none), s)
  | '?' :: s => ((0, some 1), s)
  | s => ((1, some 1), s)

/-- A sequence up to the end of the text or to a closing parenthesis. -/
def parseSequence : (fuel : Nat) → List Char → Option (Regex Char (List Char) × List Char)
  | 0, _ => none
  | _ + 1, [] => some (.empty, [])
  | _ + 1, ')' :: s => some (.empty, ')' :: s)
  | n + 1, '^' :: s => (parseSequence n s).map fun (r, s) => (.seq .start r, s)
  | n + 1, '$' :: s => (parseSequence n s).map fun (r, s) =>
      (.seq (.stop fun x => decide (x = '\n')) r, s)
  | n + 1, '(' :: '?' :: 'P' :: '<' :: s => do
    let (name, s) ← identifier s
    let s ← if s.head? = some '>' then some s.tail else none
    let (body, s) ← parseSequence n s
    let s ← if s.head? = some ')' then some s.tail else none
    let (r, s) ← parseSequence n s
    some (.seq (.group name body) r, s)
  | n + 1, s => do
    let (accepts, s) ← charClass s
    let ((least, most), s) := quantifier s
    let (r, s) ← parseSequence n s
    some (.seq (.rep accepts least most) r, s)

/-- `none` is for a text outside this part of the syntax. -/
def parse (s : List Char) : Option (Regex Char (List Char)) :=
  match parseSequence (s.length + 1) s with
  | some (r, []) => some r
  | _ => none

/-- An identifier. -/
structure Name where
  text : List Char
  valid : (text.head?.map isNameStart).getD false = true ∧ ∀ c ∈ text, isNameChar c = true
deriving DecidableEq

theorem identifier_append (name : Name) (h : isNameChar c = false) (s : List Char) :
    identifier (name.text ++ c :: s) = some (name.text, c :: s) := by
  obtain ⟨text, hhead, hall⟩ := name
  have htake : (text ++ c :: s).takeWhile isNameChar = text := by
    rw [List.takeWhile_append_of_pos hall,
      List.takeWhile_cons_of_neg (by rw [h]; exact Bool.false_ne_true),
      List.append_nil]
  have hdrop : (text ++ c :: s).dropWhile isNameChar = c :: s := by
    rw [List.dropWhile_append_of_pos hall,
      List.dropWhile_cons_of_neg (by rw [h]; exact Bool.false_ne_true)]
  have hhead' : ((text ++ c :: s).head?.map isNameStart).getD false = true := by
    cases text with
    | nil => cases hhead
    | cons a text => exact hhead
  rw [identifier, if_pos hhead', htake, hdrop]

/-- A name that ends before the end of the text is not affected by what follows the text. -/
theorem identifier_extend (h : identifier s = some (name, c :: rest)) (t : List Char) :
    identifier (s ++ t) = some (name, c :: rest ++ t) := by
  rw [identifier] at h
  split at h
  · next hhead =>
    obtain ⟨hname, hrest⟩ := Prod.mk.inj (Option.some.inj h)
    have hs : s = name ++ c :: rest := by rw [← hname, ← hrest, List.takeWhile_append_dropWhile]
    have hc : ¬ isNameChar c = true := by
      have hnot := List.head?_dropWhile_not isNameChar s
      rw [hrest] at hnot
      simpa using hnot
    have hall : ∀ a ∈ name, isNameChar a = true := by
      intro a ha
      rw [← hname] at ha
      exact List.mem_takeWhile_imp ha
    have hhead' : ((s ++ t).head?.map isNameStart).getD false = true := by
      cases s with
      | nil => cases hhead
      | cons a s => exact hhead
    rw [identifier, if_pos hhead', hs, List.append_assoc, List.takeWhile_append_of_pos hall,
      List.dropWhile_append_of_pos hall, List.cons_append, List.takeWhile_cons_of_neg hc,
      List.dropWhile_cons_of_neg hc, List.append_nil]
  · cases h

theorem charClass_literal (h : c ∉ specials) :
    charClass (c :: s) = some (fun x => decide (x = c), s) := by
  rw [charClass.eq_def]
  split
  · next heq =>
    cases heq
    exact absurd (by decide) h
  · next heq =>
    cases heq
    exact absurd (by decide) h
  · next heq =>
    cases heq
    rw [if_neg h]
  · next heq => cases heq

theorem quantifier_once (h : ∀ d ∈ s.head?, d ∉ specials ∨ d = '(') :
    quantifier s = ((1, some 1), s) := by
  rw [quantifier.eq_def]
  split
  · exact absurd (h '*' rfl) (by decide)
  · exact absurd (h '+' rfl) (by decide)
  · exact absurd (h '?' rfl) (by decide)
  · rfl

/-- Where nothing else begins, a sequence goes on with a class of characters. -/
theorem parseSequence_charClass (hc : c ∉ ")^$(".toList)
    (hclass : charClass (c :: s) = some (accepts, s'))
    (hquantifier : quantifier s' = ((least, most), s'')) (h : parseSequence n s'' = some (r, t)) :
    parseSequence (n + 1) (c :: s) = some (.seq (.rep accepts least most) r, t) := by
  rw [parseSequence.eq_def]
  split
  · next heq => cases heq
  · next heq => cases heq
  · next heq =>
    cases heq
    exact absurd (by decide) hc
  · next heq =>
    cases heq
    exact absurd (by decide) hc
  · next heq =>
    cases heq
    exact absurd (by decide) hc
  · next heq =>
    cases heq
    exact absurd (by decide) hc
  · next hn _ _ _ _ _ =>
    cases hn
    rw [hclass]
    simp only [Option.bind_eq_bind, Option.bind_some, hquantifier, h]

/-- A literal character before something that is no quantifier. -/
theorem parseSequence_literal (hc : c ∉ specials) (hs : ∀ d ∈ s.head?, d ∉ specials ∨ d = '(')
    (h : parseSequence n s = some (r, t)) :
    parseSequence (n + 1) (c :: s) =
      some (.seq (.rep (fun x => decide (x = c)) 1 (some 1)) r, t) := by
  have hspecial : (")^$(".toList.all fun d => decide (d ∈ specials)) = true := by decide
  have hplain : c ∉ ")^$(".toList :=
    fun hmem => hc (of_decide_eq_true (List.all_eq_true.1 hspecial c hmem))
  exact parseSequence_charClass hplain (charClass_literal hc) (quantifier_once hs) h

theorem parseSequence_group (name : Name)
    (hbody : parseSequence n (body ++ ')' :: s) = some (r, ')' :: s))
    (h : parseSequence n s = some (r', t)) :
    parseSequence (n + 1) ("(?P<".toList ++ (name.text ++ '>' :: (body ++ ')' :: s))) =
      some (.seq (.group name.text r) r', t) := by
  have htext : "(?P<".toList ++ (name.text ++ '>' :: (body ++ ')' :: s)) =
      '(' :: '?' :: 'P' :: '<' :: (name.text ++ '>' :: (body ++ ')' :: s)) := rfl
  rw [htext, parseSequence, identifier_append name (by decide)]
  simp only [Option.bind_eq_bind, Option.bind_some, List.head?_cons, List.tail_cons,
    if_true, hbody, h]

end Regex
