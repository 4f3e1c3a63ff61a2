import Sovereign.Basic
import Sovereign.Lib.RegexSyntax
import Sovereign.Lib.Scan
import Sovereign.Lib.Traverse

namespace Sovereign.Template
set_option autoImplicit true

/-! ## HTML -/

/-- `s.replace(c, text)` -/
def replaceChar (c : Char) (text s : Str) : Str := s.flatMap fun d => if d = c then text else [d]

/-- `html.escape(s, quote=True)` -/
def htmlEscape (s : Str) : Str :=
  replaceChar '\'' "&#x27;".toList (replaceChar '"' "&quot;".toList
    (replaceChar '>' "&gt;".toList (replaceChar '<' "&lt;".toList
      (replaceChar '&' "&amp;".toList s))))

/-- What a reference stands for that is found after an ampersand. -/
structure CharRefs where
  replace : Str → Str
  amp : replace "amp;".toList = ['&']
  lt : replace "lt;".toList = ['<']
  gt : replace "gt;".toList = ['>']
  quot : replace "quot;".toList = ['"']
  apostrophe : replace "#x27;".toList = ['\'']

def isRefChar (c : Char) : Bool := decide (c ∉ "\t\n\x0c <&#;".toList)

def isHexDigit (c : Char) : Bool :=
  decide ('0' ≤ c ∧ c ≤ '9' ∨ 'a' ≤ c ∧ c ≤ 'f' ∨ 'A' ≤ c ∧ c ≤ 'F')

/-- One or more characters at the beginning of a text, and a semicolon where one follows. -/
def refBody (accepts : Char → Bool) (most : Nat) (s : Str) : Option Str :=
  let body := (s.takeWhile accepts).take most
  if body = [] then none
  else if startsWith [';'] (s.drop body.length) then some (body ++ [';']) else some body

/-- The pattern of `html.unescape`: a reference in decimal, in base sixteen or by its name. -/
def charRef : Str → Option (Nat × Str)
  | '&' :: '#' :: s =>
    match refBody (fun c => decide ('0' ≤ c ∧ c ≤ '9')) s.length s with
    | some body => some (body.length + 1, '#' :: body)
    | none =>
      match s with
      | x :: s =>
        if x = 'x' ∨ x = 'X' then
          (refBody isHexDigit s.length s).map fun body => (body.length + 2, '#' :: x :: body)
        else none
      | [] => none
  | '&' :: s => (refBody isRefChar 32 s).map fun body => (body.length, body)
  | _ => none

/-- `html.unescape` -/
def htmlUnescape (refs : CharRefs) (s : Str) : Str := Scan.substitute charRef refs.replace s

/-! ## Templates -/

/-- What stands between the braces of an expression. -/
structure Expression where
  name : Str
  safe : Bool

def isExprChar (c : Char) : Bool := Regex.isNameChar c || decide (c = '.')

def skipBlanks (s : Str) : Str := s.dropWhile isSpace

/-- `[a-zA-Z_][a-zA-Z0-9_.]*` -/
def exprName (s : Str) : Option (Str × Str) :=
  if (s.head?.map Regex.isNameStart).getD false then
    some (s.takeWhile isExprChar, s.dropWhile isExprChar)
  else none

/-- `(?:\s*\|\s*(safe))?` -/
def exprFilter (s : Str) : Bool × Str :=
  match skipBlanks s with
  | '|' :: rest =>
    if startsWith "safe".toList (skipBlanks rest) then (true, (skipBlanks rest).drop 4)
    else (false, s)
  | _ => (false, s)

/-- `Template._expr` at the beginning of a text. Each part of it can be taken in one way only, for
what may follow a part cannot begin with what the part takes. -/
def expression : Str → Option (Nat × Expression)
  | '{' :: '{' :: s =>
    match exprName (skipBlanks s) with
    | none => none
    | some (name, rest) =>
      let (safe, rest) := exprFilter rest
      match skipBlanks rest with
      | '}' :: '}' :: rest => some (s.length + 1 - rest.length, ⟨name, safe⟩)
      | _ => none
  | _ => none

/-- The objects that a template shows, as it uses them. -/
structure Objects (ω : Type) where
  /-- `isinstance(cur, Mapping)` -/
  isMapping : ω → Bool
  getitem : ω → Str → Except Exc ω
  getattr : ω → Str → Except Exc ω
  str : ω → Except Exc Str
  /-- `isinstance(value, SafeString)` -/
  isSafeString : ω → Bool

section

variable (objects : Objects ω)

/-- One turn of the loop in `lookup`. -/
def Objects.step (cur : ω) (part : Str) : Except Exc ω :=
  if objects.isMapping cur then objects.getitem cur part else objects.getattr cur part

/-- `lookup`. The data are a mapping themselves. -/
def lookup (data : Dict Str ω) (name : Str) : Except Exc ω :=
  match name.splitOn '.' with
  | [] => .error (.builtin .keyError)
  | part :: parts =>
    match data.get? part with
    | none => .error (.builtin .keyError)
    | some cur => parts.foldlM objects.step cur

/-- `repl` -/
def repl (data : Dict Str ω) (e : Expression) : Except Exc Str := do
  let value ← lookup objects data e.name
  let text ← objects.str value
  return if e.safe || objects.isSafeString value then text else htmlEscape text

/-- The context, and the keyword arguments over it. -/
def dataOf (context : Option (Dict Str ω)) (kwargs : Dict Str ω) : Dict Str ω :=
  (context.getD ∅).update kwargs.entries

/-- `Template.render` -/
def render (source : Str) (context : Option (Dict Str ω)) (kwargs : Dict Str ω) :
    Except Exc Str := do
  let pieces ← (Scan.scan expression 0 source).mapM
    (Sum.elim (fun c => .ok [c]) (repl objects (dataOf context kwargs)))
  return pieces.flatten

end

/-! ## What escaping does -/

/-- What `html.escape` writes for a character. -/
def escapedChar (c : Char) : Str :=
  if c = '&' then "&amp;".toList
  else if c = '<' then "&lt;".toList
  else if c = '>' then "&gt;".toList
  else if c = '"' then "&quot;".toList
  else if c = '\'' then "&#x27;".toList
  else [c]

theorem replaceChar_flatMap (c : Char) (text : Str) (f : Char → Str) (s : Str) :
    replaceChar c text (s.flatMap f) = s.flatMap fun d => replaceChar c text (f d) :=
  List.flatMap_assoc

theorem replaceChar_ne (h : d ≠ c) (text : Str) : replaceChar c text [d] = [d] := by
  rw [replaceChar, List.flatMap_singleton, if_neg h]

/-- The five replacements are one: none of them changes what another one has written. -/
theorem htmlEscape_eq (s : Str) : htmlEscape s = s.flatMap escapedChar := by
  have hfirst : replaceChar '&' "&amp;".toList s = s.flatMap fun c =>
      replaceChar '&' "&amp;".toList [c] := by
    rw [replaceChar]
    congr 1
    funext c
    rw [replaceChar, List.flatMap_singleton]
  rw [htmlEscape, hfirst, replaceChar_flatMap, replaceChar_flatMap, replaceChar_flatMap,
    replaceChar_flatMap]
  congr 1
  funext c
  by_cases hamp : c = '&'
  · subst hamp; decide
  by_cases hlt : c = '<'
  · subst hlt; decide
  by_cases hgt : c = '>'
  · subst hgt; decide
  by_cases hquot : c = '"'
  · subst hquot; decide
  by_cases hap : c = '\''
  · subst hap; decide
  rw [escapedChar, if_neg hamp, if_neg hlt, if_neg hgt, if_neg hquot, if_neg hap,
    replaceChar_ne hamp, replaceChar_ne hlt, replaceChar_ne hgt, replaceChar_ne hquot,
    replaceChar_ne hap]

/-- The references that `html.escape` writes. -/
def entities : List Str :=
  ["amp;".toList, "lt;".toList, "gt;".toList, "quot;".toList, "#x27;".toList]

/-- A character that is written as it is, or as one of the references. -/
theorem escapedChar_cases (c : Char) :
    (escapedChar c = [c] ∧ c ≠ '&' ∧ c ≠ '<' ∧ c ≠ '>' ∧ c ≠ '"' ∧ c ≠ '\'') ∨
      ∃ name ∈ entities, escapedChar c = '&' :: name ∧
        ∀ refs : CharRefs, refs.replace name = [c] := by
  rw [escapedChar]
  by_cases hamp : c = '&'
  · subst hamp
    exact .inr ⟨_, by decide, rfl, CharRefs.amp⟩
  by_cases hlt : c = '<'
  · subst hlt
    exact .inr ⟨"lt;".toList, by decide, rfl, CharRefs.lt⟩
  by_cases hgt : c = '>'
  · subst hgt
    exact .inr ⟨"gt;".toList, by decide, rfl, CharRefs.gt⟩
  by_cases hquot : c = '"'
  · subst hquot
    exact .inr ⟨"quot;".toList, by decide, rfl, CharRefs.quot⟩
  by_cases hap : c = '\''
  · subst hap
    exact .inr ⟨"#x27;".toList, by decide, rfl, CharRefs.apostrophe⟩
  rw [if_neg hamp, if_neg hlt, if_neg hgt, if_neg hquot, if_neg hap]
  exact .inl ⟨rfl, hamp, hlt, hgt, hquot, hap⟩

/-- The characters of HTML's own. -/
def isMarkup (c : Char) : Bool := decide (c = '<' ∨ c = '>' ∨ c = '"' ∨ c = '\'')

/-- A text of which `t` is the escaped form. -/
structure Escaped (refs : CharRefs) (v t : Str) : Prop where
  markup : ∀ c ∈ t, isMarkup c = false
  /-- no ampersand is bare -/
  references : ∀ after, ('&' :: after) <:+ t → ∃ name ∈ entities, name <+: after
  unescaped : htmlUnescape refs t = v

theorem entity_plain : ∀ name ∈ entities, ∀ c ∈ name, isMarkup c = false ∧ c ≠ '&' := by decide

theorem charRef_entity (name : Str) (hname : name ∈ entities) (rest : Str) :
    charRef ('&' :: (name ++ rest)) = some (name.length, name) := by
  simp only [entities, List.mem_cons, List.not_mem_nil, or_false] at hname
  rcases hname with rfl | rfl | rfl | rfl | rfl <;> rfl

theorem charRef_none (h : c ≠ '&') (s : Str) : charRef (c :: s) = none := by
  rw [charRef.eq_def]
  split
  · next heq => exact absurd (List.cons.inj heq).1 h
  · next heq => exact absurd (List.cons.inj heq).1 h
  · rfl

/-- A bare ampersand would begin among the characters that are written for a character. -/
theorem suffix_entity {name rest after : Str} (hplain : ∀ c ∈ name, c ≠ '&')
    (h : ('&' :: after) <:+ name ++ rest) : ('&' :: after) <:+ rest := by
  induction name with
  | nil => exact h
  | cons c name ih =>
    rcases List.suffix_cons_iff.1 h with heq | h
    · exact absurd (List.cons.inj heq).1.symm (hplain c List.mem_cons_self)
    · exact ih (fun d hd => hplain d (List.mem_cons_of_mem c hd)) h

theorem markup_escapedChar (c : Char) : ∀ d ∈ escapedChar c, isMarkup d = false := by
  intro d hd
  rcases escapedChar_cases c with ⟨hc, -, hlt, hgt, hquot, hap⟩ | ⟨name, hname, hc, -⟩
  · rw [hc, List.mem_singleton] at hd
    rw [hd, isMarkup, decide_eq_false_iff_not]
    rintro (h | h | h | h)
    · exact hlt h
    · exact hgt h
    · exact hquot h
    · exact hap h
  · rw [hc] at hd
    rcases List.mem_cons.1 hd with rfl | hd
    · rfl
    · exact (entity_plain name hname d hd).1

theorem markup_htmlEscape (v : Str) : ∀ c ∈ htmlEscape v, isMarkup c = false := by
  intro c hc
  rw [htmlEscape_eq] at hc
  obtain ⟨d, -, hd⟩ := List.mem_flatMap.1 hc
  exact markup_escapedChar d c hd

theorem references_htmlEscape (v : Str) (h : ('&' :: after) <:+ htmlEscape v) :
    ∃ name ∈ entities, name <+: after := by
  rw [htmlEscape_eq] at h
  induction v with
  | nil => exact absurd (List.suffix_nil.1 h) (List.cons_ne_nil _ _)
  | cons c v ih =>
    rw [List.flatMap_cons] at h
    rcases escapedChar_cases c with ⟨hc, hamp, -⟩ | ⟨name, hname, hc, -⟩
    · rw [hc] at h
      exact ih (suffix_entity (List.forall_mem_singleton.2 hamp) h)
    · rw [hc, List.cons_append] at h
      rcases List.suffix_cons_iff.1 h with heq | h
      · rw [(List.cons.inj heq).2]
        exact ⟨name, hname, List.prefix_append _ _⟩
      · exact ih (suffix_entity (fun d hd => (entity_plain name hname d hd).2) h)

theorem htmlUnescape_htmlEscape (refs : CharRefs) (v : Str) :
    htmlUnescape refs (htmlEscape v) = v := by
  rw [htmlEscape_eq]
  induction v with
  | nil => rfl
  | cons c v ih =>
    rw [List.flatMap_cons]
    rcases escapedChar_cases c with ⟨hc, hamp, -⟩ | ⟨name, hname, hc, hreplace⟩
    · rw [hc]
      exact (Scan.substitute_cons (charRef_none hamp _)).trans (congrArg _ ih)
    · rw [hc, List.cons_append, htmlUnescape,
        Scan.substitute_match name _ (charRef_entity name hname _), hreplace refs]
      exact congrArg _ ih

theorem escaped_htmlEscape (refs : CharRefs) (v : Str) : Escaped refs v (htmlEscape v) :=
  ⟨markup_htmlEscape v, fun _ => references_htmlEscape v, htmlUnescape_htmlEscape refs v⟩

/-! ## What a template is -/

def Blank (w : Str) : Prop := ∀ c ∈ w, isSpace c = true

/-- An identifier with points after its first character. -/
def IsExprName (name : Str) : Prop :=
  (name.head?.map Regex.isNameStart).getD false = true ∧ ∀ c ∈ name, isExprChar c = true

/-- No filter, or the filter `| safe`. -/
inductive FilterText : Bool → Str → Prop
  | absent : FilterText false []
  | safe : Blank w → Blank w' → FilterText true (w ++ '|' :: (w' ++ "safe".toList))

/-- The text of an expression. -/
inductive IsExpression : Expression → Str → Prop
  | mk : Blank w → IsExprName name → FilterText safe filter → Blank w' →
    IsExpression ⟨name, safe⟩
      ('{' :: '{' :: (w ++ (name ++ (filter ++ (w' ++ ['}', '}'])))))

theorem skipBlanks_append (hw : Blank w) (s : Str) : skipBlanks (w ++ s) = skipBlanks s :=
  List.dropWhile_append_of_pos hw

theorem skipBlanks_cons (hc : isSpace c = false) (s : Str) : skipBlanks (c :: s) = c :: s :=
  List.dropWhile_cons_of_neg (by rw [hc]; exact Bool.false_ne_true)

theorem skipBlanks_eq (s : Str) : ∃ w, Blank w ∧ s = w ++ skipBlanks s :=
  ⟨s.takeWhile isSpace, fun _ hc => List.mem_takeWhile_imp hc,
    List.takeWhile_append_dropWhile.symm⟩

theorem isExprChar_of_start (h : Regex.isNameStart c = true) : isExprChar c = true := by
  rw [isExprChar, Regex.isNameChar, h]
  rfl

/-- A blank is no part of a name. -/
theorem isExprChar_blank (h : isSpace c = true) : isExprChar c = false := by
  have hspace := of_decide_eq_true h
  by_contra hchar
  rw [Bool.not_eq_false, isExprChar, Bool.or_eq_true, Regex.isNameChar, Bool.or_eq_true] at hchar
  rcases hchar with (hstart | hdigit) | hpoint
  · rcases of_decide_eq_true hstart with ⟨hlow, hhigh⟩ | ⟨hlow, hhigh⟩ | hline
    · have hlow' : 97 ≤ c.toNat := hlow
      have hhigh' : c.toNat ≤ 122 := hhigh
      omega
    · have hlow' : 65 ≤ c.toNat := hlow
      have hhigh' : c.toNat ≤ 90 := hhigh
      omega
    · rw [hline] at h
      exact absurd h (by decide)
  · obtain ⟨hlow, hhigh⟩ := of_decide_eq_true hdigit
    have hlow' : 48 ≤ c.toNat := hlow
    have hhigh' : c.toNat ≤ 57 := hhigh
    omega
  · rw [of_decide_eq_true hpoint] at h
    exact absurd h (by decide)

theorem exprName_begins (h : IsExprName name) : ∃ c rest, name = c :: rest ∧ isSpace c = false := by
  obtain ⟨hhead, -⟩ := h
  cases name with
  | nil => cases hhead
  | cons c rest =>
    refine ⟨c, rest, rfl, ?_⟩
    by_contra hspace
    have hblank := isExprChar_blank (Bool.eq_true_of_not_eq_false hspace)
    rw [isExprChar_of_start hhead] at hblank
    cases hblank

theorem exprName_sound (h : exprName s = some (name, rest)) :
    IsExprName name ∧ s = name ++ rest := by
  rw [exprName] at h
  split at h
  · next hstart =>
    cases h
    refine ⟨⟨?_, fun c hc => List.mem_takeWhile_imp hc⟩, List.takeWhile_append_dropWhile.symm⟩
    cases s with
    | nil => exact hstart
    | cons c s =>
      rw [List.takeWhile_cons_of_pos (isExprChar_of_start hstart)]
      exact hstart
  · cases h

/-- A name is taken as a whole where what follows is no part of one. -/
theorem exprName_complete (h : IsExprName name)
    (hrest : ∀ c t, rest = c :: t → isExprChar c = false) :
    exprName (name ++ rest) = some (name, rest) := by
  have htake : rest.takeWhile isExprChar = [] ∧ rest.dropWhile isExprChar = rest := by
    cases rest with
    | nil => exact ⟨rfl, rfl⟩
    | cons c t =>
      have hc : ¬ isExprChar c = true := by
        rw [hrest c t rfl]
        exact Bool.false_ne_true
      exact ⟨List.takeWhile_cons_of_neg hc, List.dropWhile_cons_of_neg hc⟩
  have hstart : ((name ++ rest).head?.map Regex.isNameStart).getD false = true := by
    obtain ⟨hhead, -⟩ := h
    cases name with
    | nil => cases hhead
    | cons c name => exact hhead
  rw [exprName, if_pos hstart, List.takeWhile_append_of_pos h.2, List.dropWhile_append_of_pos h.2,
    htake.1, htake.2, List.append_nil]

theorem exprFilter_sound (h : exprFilter s = (safe, rest)) :
    ∃ filter, FilterText safe filter ∧ s = filter ++ rest := by
  rw [exprFilter] at h
  split at h
  · next bar hbar =>
    split at h
    · next hsafe =>
      cases h
      obtain ⟨w, hw, hs⟩ := skipBlanks_eq s
      obtain ⟨w', hw', hs'⟩ := skipBlanks_eq bar
      have hdrop := List.prefix_iff_eq_append.1 (List.isPrefixOf_iff_prefix.1 hsafe)
      refine ⟨_, .safe hw hw', ?_⟩
      rw [hbar, hs', ← hdrop] at hs
      rw [hs, List.append_assoc, List.cons_append, List.append_assoc]
      rfl
    · cases h
      exact ⟨[], .absent, rfl⟩
  · cases h
    exact ⟨[], .absent, rfl⟩

theorem exprFilter_complete (h : FilterText safe filter) (hw : Blank w) (t : Str) :
    exprFilter (filter ++ (w ++ '}' :: t)) = (safe, w ++ '}' :: t) := by
  cases h with
  | absent =>
    have hskip : skipBlanks ([] ++ (w ++ '}' :: t)) = '}' :: t :=
      (skipBlanks_append hw _).trans (skipBlanks_cons (by decide) t)
    rw [exprFilter, hskip]
    rfl
  | @safe w₁ w₂ hw₁ hw₂ =>
    have hbar : skipBlanks (w₁ ++ '|' :: (w₂ ++ "safe".toList) ++ (w ++ '}' :: t)) =
        '|' :: (w₂ ++ ("safe".toList ++ (w ++ '}' :: t))) := by
      rw [List.append_assoc, skipBlanks_append hw₁, List.cons_append, List.append_assoc,
        skipBlanks_cons (by decide)]
    have hsafe : skipBlanks (w₂ ++ ("safe".toList ++ (w ++ '}' :: t))) =
        "safe".toList ++ (w ++ '}' :: t) :=
      (skipBlanks_append hw₂ _).trans (skipBlanks_cons (by decide) _)
    rw [exprFilter, hbar]
    change (if startsWith "safe".toList (skipBlanks (w₂ ++ ("safe".toList ++ (w ++ '}' :: t)))) then
      (true, (skipBlanks (w₂ ++ ("safe".toList ++ (w ++ '}' :: t)))).drop 4) else _) = _
    rw [hsafe]
    rfl

theorem expression_sound (h : expression s = some (n, e)) :
    ∃ text rest, IsExpression e text ∧ s = text ++ rest ∧ text.length = n + 1 := by
  rw [expression.eq_def] at h
  split at h
  · next s =>
    cases hname : exprName (skipBlanks s) with
    | none => rw [hname] at h; cases h
    | some p =>
      rw [hname] at h
      dsimp only at h
      split at h
      · next rest hclose =>
        cases h
        obtain ⟨w, hw, hs⟩ := skipBlanks_eq s
        obtain ⟨hn, hs'⟩ := exprName_sound hname
        have hfiltered : ∃ filter, FilterText (exprFilter p.2).1 filter ∧
            p.2 = filter ++ (exprFilter p.2).2 := exprFilter_sound rfl
        obtain ⟨filter, hfilter, hrest⟩ := hfiltered
        obtain ⟨w', hw', hrest'⟩ := skipBlanks_eq (exprFilter p.2).2
        rw [hclose] at hrest'
        have htext : '{' :: '{' :: s =
            ('{' :: '{' :: (w ++ (p.1 ++ (filter ++ (w' ++ ['}', '}']))))) ++ rest := by
          rw [hs, hs', hrest, hrest']
          simp only [List.cons_append, List.append_assoc, List.nil_append]
        refine ⟨_, rest, .mk hw hn hfilter hw', htext, ?_⟩
        have hlength := congrArg List.length htext
        rw [List.length_append] at hlength
        simp only [List.length_cons] at hlength ⊢
        omega
      · cases h
  · cases h

theorem expression_eq (hname : exprName (skipBlanks s) = some (name, rest))
    (hclose : skipBlanks (exprFilter rest).2 = '}' :: '}' :: after) :
    expression ('{' :: '{' :: s) =
      some (s.length + 1 - after.length, ⟨name, (exprFilter rest).1⟩) := by
  simp only [expression, hname, hclose]

/-- A character that cannot stand in a name begins what follows one. -/
theorem exprName_ends {w' : Str} (hfilter : FilterText safe filter) (hw' : Blank w') (rest : Str) :
    ∀ c t, filter ++ (w' ++ '}' :: rest) = c :: t → isExprChar c = false := by
  have hblank (w u : Str) (d : Char) (hw : Blank w) (hd : isExprChar d = false) :
      ∀ c t, w ++ d :: u = c :: t → isExprChar c = false := by
    intro c t h
    cases w with
    | nil => rwa [← (List.cons.inj h).1]
    | cons x w =>
      rw [← (List.cons.inj h).1]
      exact isExprChar_blank (hw x List.mem_cons_self)
  cases hfilter with
  | absent => exact hblank w' rest '}' hw' (by decide)
  | @safe w₁ w₂ hw₁ hw₂ =>
    rw [List.append_assoc, List.cons_append]
    exact hblank w₁ _ '|' hw₁ (by decide)

theorem expression_complete (h : IsExpression e text) (rest : Str) :
    expression (text ++ rest) = some (text.length - 1, e) := by
  cases h with
  | @mk w name safe filter w' hw hname hfilter hw' =>
    have htext : ('{' :: '{' :: (w ++ (name ++ (filter ++ (w' ++ ['}', '}']))))) ++ rest =
        '{' :: '{' :: (w ++ (name ++ (filter ++ (w' ++ '}' :: '}' :: rest)))) := by
      simp only [List.cons_append, List.append_assoc, List.nil_append]
    have hblank : skipBlanks (w ++ (name ++ (filter ++ (w' ++ '}' :: '}' :: rest)))) =
        name ++ (filter ++ (w' ++ '}' :: '}' :: rest)) := by
      obtain ⟨c, name', hcons, hc⟩ := exprName_begins hname
      rw [skipBlanks_append hw, hcons]
      exact skipBlanks_cons hc _
    have hread : exprName (skipBlanks (w ++ (name ++ (filter ++ (w' ++ '}' :: '}' :: rest))))) =
        some (name, filter ++ (w' ++ '}' :: '}' :: rest)) := by
      rw [hblank]
      exact exprName_complete hname (exprName_ends hfilter hw' _)
    have hfiltered := exprFilter_complete hfilter hw' ('}' :: rest)
    have hclose : skipBlanks (exprFilter (filter ++ (w' ++ '}' :: '}' :: rest))).2 =
        '}' :: '}' :: rest := by
      rw [hfiltered]
      exact (skipBlanks_append hw' _).trans (skipBlanks_cons (by decide) _)
    rw [htext, expression_eq hread hclose, hfiltered, Option.some.injEq, Prod.mk.injEq]
    refine ⟨?_, rfl⟩
    simp only [List.length_cons, List.length_append, List.length_nil]
    omega

/-! ## What is rendered -/

/-- The source with the texts of its expressions in place of these, escaped: from the left, an
expression is taken where one begins, and any other character as it is. -/
inductive Rendered (value : Str → Except Exc Str) : (source out : Str) → Prop
  | done : Rendered value [] []
  | verbatim : (∀ e text, IsExpression e text → ¬ text <+: c :: source) →
      Rendered value source out → Rendered value (c :: source) (c :: out)
  | filled : IsExpression e text → value e.name = .ok v → Rendered value source out →
      Rendered value (text ++ source) (htmlEscape v ++ out)

section

variable (objects : Objects ω)

/-- The text of a name's value. -/
def valueText (data : Dict Str ω) (name : Str) : Except Exc Str :=
  lookup objects data name >>= objects.str

/-- No expression that is met has the filter, and no value is a `SafeString`. -/
structure AutoEscaped (source : Str) (data : Dict Str ω) : Prop where
  filters : ∀ e ∈ Scan.findAll expression source, e.safe = false
  values : ∀ e ∈ Scan.findAll expression source, ∀ v, lookup objects data e.name = .ok v →
    objects.isSafeString v = false

variable {objects}

theorem repl_ok {data : Dict Str ω} (h : repl objects data e = .ok t) (hsafe : e.safe = false)
    (hvalue : ∀ v, lookup objects data e.name = .ok v → objects.isSafeString v = false) :
    ∃ v, valueText objects data e.name = .ok v ∧ t = htmlEscape v := by
  obtain ⟨value, hlookup, h⟩ := except_bind_eq_ok.1 h
  obtain ⟨text, htext, h⟩ := except_bind_eq_ok.1 h
  refine ⟨text, except_bind_eq_ok.2 ⟨value, hlookup, htext⟩, ?_⟩
  rw [hsafe, hvalue value hlookup] at h
  cases h
  rfl

theorem rendered_of_scan {data : Dict Str ω} (source : Str) :
    ∀ pieces, (Scan.scan expression 0 source).mapM
        (Sum.elim (fun c => .ok [c]) (repl objects data)) = .ok pieces →
      (∀ e ∈ (Scan.scan expression 0 source).filterMap Sum.getRight?, e.safe = false ∧
        ∀ v, lookup objects data e.name = .ok v → objects.isSafeString v = false) →
      Rendered (valueText objects data) source pieces.flatten := by
  apply Scan.scan_induction (motive := fun source parts =>
    ∀ pieces, parts.mapM (Sum.elim (fun c => .ok [c]) (repl objects data)) = .ok pieces →
      (∀ e ∈ parts.filterMap Sum.getRight?, e.safe = false ∧
        ∀ v, lookup objects data e.name = .ok v → objects.isSafeString v = false) →
      Rendered (valueText objects data) source pieces.flatten)
  · intro pieces hpieces _
    cases hpieces
    exact .done
  · intro c s hnone ih pieces hpieces hescaped
    rw [List.mapM_cons] at hpieces
    obtain ⟨piece, hpiece, h⟩ := except_bind_eq_ok.1 hpieces
    obtain ⟨rest, hrest, hcons⟩ := except_bind_eq_ok.1 h
    cases hpiece
    cases hcons
    rw [List.flatten_cons]
    refine .verbatim (fun e text htext hbegins => ?_) (ih rest hrest hescaped)
    obtain ⟨after, hafter⟩ := hbegins
    rw [← hafter, expression_complete htext after] at hnone
    cases hnone
  · intro c s n e hfound ih pieces hpieces hescaped
    rw [List.mapM_cons] at hpieces
    obtain ⟨piece, hpiece, h⟩ := except_bind_eq_ok.1 hpieces
    obtain ⟨rest, hrest, hcons⟩ := except_bind_eq_ok.1 h
    cases hcons
    obtain ⟨text, after, htext, hs, hlength⟩ := expression_sound hfound
    have hdrop : s.drop n = after := by
      have hdrop' : (c :: s).drop (n + 1) = after := by
        rw [hs, ← hlength, List.drop_left]
      exact hdrop'
    have hhead := hescaped e List.mem_cons_self
    obtain ⟨v, hv, ht⟩ := repl_ok hpiece hhead.1 hhead.2
    rw [List.flatten_cons, hs, ht]
    refine .filled htext hv (hdrop ▸ ih rest hrest fun e' he' => ?_)
    exact hescaped e' (List.mem_cons_of_mem e he')

/-- The markup in what is rendered is the markup of the template. -/
theorem filter_markup {data : Dict Str ω} {parts : List (Char ⊕ Expression)} {pieces : List Str}
    (h : parts.mapM (Sum.elim (fun c => .ok [c]) (repl objects data)) = .ok pieces)
    (hescaped : ∀ e ∈ parts.filterMap Sum.getRight?, e.safe = false ∧
      ∀ v, lookup objects data e.name = .ok v → objects.isSafeString v = false) :
    pieces.flatten.filter isMarkup = (parts.filterMap Sum.getLeft?).filter isMarkup := by
  rw [Traverse.except_iff] at h
  induction h with
  | nil => rfl
  | @cons part piece parts _ hpiece _ ih =>
    rw [List.flatten_cons, List.filter_append]
    cases part with
    | inl c =>
      cases hpiece
      rw [ih hescaped, ← List.filter_append]
      rfl
    | inr e =>
      have hhead := hescaped e List.mem_cons_self
      obtain ⟨v, -, rfl⟩ := repl_ok hpiece hhead.1 hhead.2
      have hplain : (htmlEscape v).filter isMarkup = [] := by
        rw [List.filter_eq_nil_iff]
        intro c hc
        rw [markup_htmlEscape v c hc]
        exact Bool.false_ne_true
      rw [hplain, List.nil_append, ih fun e' he' => hescaped e' (List.mem_cons_of_mem e he')]
      rfl

end

/-- Without the filter and without safe strings, what is rendered is the template with its
expressions replaced by escaped texts. No value changes the markup. -/
theorem render_escapes (objects : Objects ω) (refs : CharRefs) (source : Str)
    (context : Option (Dict Str ω)) (kwargs : Dict Str ω) (out : Str)
    (hescaped : AutoEscaped objects source (dataOf context kwargs))
    (h : render objects source context kwargs = .ok out) :
    Rendered (valueText objects (dataOf context kwargs)) source out ∧
      (∀ v, Escaped refs v (htmlEscape v)) ∧
      ∀ (context' : Option (Dict Str ω)) (kwargs' : Dict Str ω) (out' : Str),
        AutoEscaped objects source (dataOf context' kwargs') →
        render objects source context' kwargs' = .ok out' →
          out.filter isMarkup = out'.filter isMarkup := by
  obtain ⟨pieces, hpieces, hout⟩ := except_bind_eq_ok.1 h
  cases hout
  have hexprs := fun e he => And.intro (hescaped.filters e he) (hescaped.values e he)
  refine ⟨rendered_of_scan source pieces hpieces hexprs, escaped_htmlEscape refs, ?_⟩
  intro context' kwargs' out' hescaped' h'
  obtain ⟨pieces', hpieces', hout'⟩ := except_bind_eq_ok.1 h'
  cases hout'
  have hexprs' := fun e he => And.intro (hescaped'.filters e he) (hescaped'.values e he)
  rw [filter_markup hpieces hexprs, filter_markup hpieces' hexprs']

/-- Objects that are strings, and have no attributes. -/
def plainObjects : Objects Str where
  isMapping _ := false
  getitem _ _ := .error (.builtin .typeError)
  getattr _ _ := .error (.builtin .attributeError)
  str s := .ok s
  isSafeString _ := false

/-- The references of `html.escape` and no others. -/
def plainRefs : CharRefs where
  replace name :=
    if name = "amp;".toList then ['&']
    else if name = "lt;".toList then ['<']
    else if name = "gt;".toList then ['>']
    else if name = "quot;".toList then ['"']
    else if name = "#x27;".toList then ['\'']
    else '&' :: name
  amp := rfl
  lt := rfl
  gt := rfl
  quot := rfl
  apostrophe := rfl

def userData : Dict Str Str := (∅ : Dict Str Str).set "user".toList "<Ada>".toList

/-- A name with markup, shown in a paragraph. -/
theorem render_escapes_user :
    Rendered (valueText plainObjects (dataOf (some userData) ∅))
        "<p>\x7b\x7b user \x7d\x7d</p>".toList "<p>&lt;Ada&gt;</p>".toList ∧
      (∀ v, Escaped plainRefs v (htmlEscape v)) ∧
      ∀ (context' : Option (Dict Str Str)) (kwargs' : Dict Str Str) (out' : Str),
        AutoEscaped plainObjects "<p>\x7b\x7b user \x7d\x7d</p>".toList (dataOf context' kwargs') →
        render plainObjects "<p>\x7b\x7b user \x7d\x7d</p>".toList context' kwargs' = .ok out' →
          "<p>&lt;Ada&gt;</p>".toList.filter isMarkup = out'.filter isMarkup :=
  render_escapes plainObjects plainRefs _ (some userData) ∅ _
    ⟨by decide +kernel, fun _ _ _ _ => rfl⟩ (by decide +kernel)

end Sovereign.Template
