import Mathlib.Data.List.Basic
import Mathlib.Tactic.Common

set_option autoImplicit true

/-! # The syntax of JSON: documents, how they are written and how they are read -/

namespace JsonSyntax

abbrev Text := List Char

/-- A document. An atom is a number, or `null` or another name. -/
inductive Doc where
  | atom (t : Text)
  | str (s : Text)
  | list (items : List Doc)
  | dict (entries : List (Text × Doc))

/-- The blanks between the parts of a document -/
def isBlank (c : Char) : Bool := c = ' ' || c = '\t' || c = '\n' || c = '\r'

def isAtomChar (c : Char) : Bool := c.isAlphanum || c = '+' || c = '-' || c = '.'

def skip (s : Text) : Text := s.dropWhile isBlank

section Strings

def hexDigit (c : Char) : Option Nat :=
  if c.isDigit then some (c.toNat - 48)
  else if 'a' ≤ c ∧ c ≤ 'f' then some (c.toNat - 87)
  else if 'A' ≤ c ∧ c ≤ 'F' then some (c.toNat - 55)
  else none

def hex4 (a b c d : Char) : Option Nat := do
  let a ← hexDigit a
  let b ← hexDigit b
  let c ← hexDigit c
  let d ← hexDigit d
  return ((a * 16 + b) * 16 + c) * 16 + d

/-- What a character stands for after a backslash. -/
def simpleEscape (c : Char) : Option Char :=
  if c = '"' ∨ c = '\\' ∨ c = '/' then some c
  else if c = 'b' then some (Char.ofNat 8)
  else if c = 'f' then some (Char.ofNat 12)
  else if c = 'n' then some '\n'
  else if c = 'r' then some '\r'
  else if c = 't' then some '\t'
  else none

/-- The character of two code units. -/
def surrogatePair (high low : Nat) : Option Char :=
  if 0xD800 ≤ high ∧ high < 0xDC00 ∧ 0xDC00 ≤ low ∧ low < 0xE000 then
    some (Char.ofNat (0x10000 + ((high - 0xD800) * 0x400 + (low - 0xDC00))))
  else none

/-- The rest of a string, after its opening quote. Without a character for half a surrogate pair,
there is no string with one. -/
def readString : Text → Option (Text × Text)
  | [] => none
  | '"' :: rest => some ([], rest)
  | '\\' :: 'u' :: a :: b :: c :: d :: s =>
    match hex4 a b c d with
    | none => none
    | some n =>
      if n.isValidChar then (readString s).map fun r => (Char.ofNat n :: r.1, r.2)
      else
        match s with
        | '\\' :: 'u' :: e :: f :: g :: h :: s =>
          match (hex4 e f g h).bind (surrogatePair n) with
          | none => none
          | some c => (readString s).map fun r => (c :: r.1, r.2)
        | _ => none
  | '\\' :: c :: s =>
    match simpleEscape c with
    | none => none
    | some c => (readString s).map fun r => (c :: r.1, r.2)
  | c :: s => if c.toNat < 32 then none else (readString s).map fun r => (c :: r.1, r.2)

end Strings

section Reader

mutual

/-- A document at the start of a text, and the rest. The depth is bounded. -/
def readDoc : Nat → Text → Option (Doc × Text)
  | 0, _ => none
  | depth + 1, s =>
    match s with
    | '"' :: s => (readString s).map fun r => (.str r.1, r.2)
    | '[' :: s =>
      match skip s with
      | ']' :: rest => some (.list [], rest)
      | s => (readItems depth s).map fun r => (.list r.1, r.2)
    | '\x7b' :: s =>
      match skip s with
      | '\x7d' :: rest => some (.dict [], rest)
      | s => (readEntries depth s).map fun r => (.dict r.1, r.2)
    | s =>
      if (s.takeWhile isAtomChar).isEmpty then none
      else some (.atom (s.takeWhile isAtomChar), s.dropWhile isAtomChar)

/-- The items of a list, up to its closing bracket. -/
def readItems : Nat → Text → Option (List Doc × Text)
  | 0, _ => none
  | depth + 1, s =>
    match readDoc depth s with
    | none => none
    | some (d, rest) =>
      match skip rest with
      | ',' :: rest => (readItems depth (skip rest)).map fun r => (d :: r.1, r.2)
      | ']' :: rest => some ([d], rest)
      | _ => none

/-- The entries of a dict, up to its closing brace. -/
def readEntries : Nat → Text → Option (List (Text × Doc) × Text)
  | 0, _ => none
  | depth + 1, s =>
    match s with
    | '"' :: s =>
      match readString s with
      | none => none
      | some (key, rest) =>
        match skip rest with
        | ':' :: rest =>
          match readDoc depth (skip rest) with
          | none => none
          | some (d, rest) =>
            match skip rest with
            | ',' :: rest => (readEntries depth (skip rest)).map fun r => ((key, d) :: r.1, r.2)
            | '\x7d' :: rest => some ([(key, d)], rest)
            | _ => none
        | _ => none
    | _ => none

end

/-- The document of a text -/
def parse (s : Text) : Option Doc :=
  match readDoc (s.length + 1) (skip s) with
  | none => none
  | some (d, rest) => if (skip rest).isEmpty then some d else none

end Reader

section Writer

variable (escape : Char → Text) (blank : Text)

def quote (s : Text) : Text := '"' :: (s.flatMap escape ++ ['"'])

def join (texts : List Text) : Text := (',' :: blank).intercalate texts

mutual

/-- The text of a document, with blanks after commas and colons. -/
def Doc.write : Doc → Text
  | .atom t => t
  | .str s => quote escape s
  | .list items => '[' :: (join blank (writeItems items) ++ [']'])
  | .dict entries => '\x7b' :: (join blank (writeEntries entries) ++ ['\x7d'])

def writeItems : List Doc → List Text
  | [] => []
  | d :: items => d.write :: writeItems items

def writeEntries : List (Text × Doc) → List Text
  | [] => []
  | (key, d) :: entries => (quote escape key ++ ':' :: (blank ++ d.write)) :: writeEntries entries

end

end Writer

mutual

/-- The depth that is enough to read a document. -/
def Doc.weight : Doc → Nat
  | .atom _ => 1
  | .str _ => 1
  | .list items => 1 + weightItems items
  | .dict entries => 1 + weightEntries entries

def weightItems : List Doc → Nat
  | [] => 0
  | d :: items => 1 + d.weight + weightItems items

def weightEntries : List (Text × Doc) → Nat
  | [] => 0
  | (_, d) :: entries => 1 + d.weight + weightEntries entries

end

/-- The atoms of the document can be told from what stands around them. -/
inductive Doc.Plain : Doc → Prop where
  | atom (hne : t ≠ []) (h : ∀ c ∈ t, isAtomChar c = true) : Plain (.atom t)
  | str : Plain (.str s)
  | list (h : ∀ d ∈ items, Plain d) : Plain (.list items)
  | dict (h : ∀ e ∈ entries, Plain e.2) : Plain (.dict entries)

/-- An escaping is one that is undone. -/
def Escaping (escape : Char → Text) : Prop :=
  ∀ c s, readString (escape c ++ s) = (readString s).map fun r => (c :: r.1, r.2)

/-- An atom ends before this text. -/
def Delimits (rest : Text) : Prop := ∀ c ∈ rest.head?, isAtomChar c = false

section RoundTrip

variable {escape : Char → Text} {blank : Text}

theorem readString_quoted (hescape : Escaping escape) (s rest : Text) :
    readString (s.flatMap escape ++ '"' :: rest) = some (s, rest) := by
  induction s with
  | nil => rfl
  | cons c s ih =>
    rw [List.flatMap_cons, List.append_assoc, hescape, ih]
    rfl

theorem skip_blank (hblank : ∀ c ∈ blank, isBlank c = true) (s : Text) :
    skip (blank ++ s) = skip s := by
  induction blank with
  | nil => rfl
  | cons c blank ih =>
    rw [List.forall_mem_cons] at hblank
    rw [List.cons_append, skip, List.dropWhile_cons_of_pos hblank.1]
    exact ih hblank.2

theorem isBlank_of_isAtomChar {c : Char} (h : isAtomChar c = true) : isBlank c = false := by
  rw [Bool.eq_false_iff]
  intro hb
  simp only [isBlank, Bool.or_eq_true, decide_eq_true_eq] at hb
  obtain ((rfl | rfl) | rfl) | rfl := hb
  all_goals exact absurd h (by decide)

/-- A document does not start with a blank. -/
theorem skip_write {d : Doc} (h : d.Plain) (rest : Text) :
    skip (d.write escape blank ++ rest) = d.write escape blank ++ rest := by
  cases h with
  | @atom t hne h =>
    rw [Doc.write]
    cases t with
    | nil => exact absurd rfl hne
    | cons c t =>
      have hc := isBlank_of_isAtomChar (h c List.mem_cons_self)
      rw [List.cons_append, skip, List.dropWhile_cons_of_neg (by rw [hc]; decide)]
  | str =>
    rw [Doc.write, quote]
    rfl
  | list =>
    rw [Doc.write]
    rfl
  | dict =>
    rw [Doc.write]
    rfl

theorem writeItems_map {f : α → Doc} {l : List α} :
    writeItems escape blank (l.map f) = l.map fun a => (f a).write escape blank := by
  induction l with
  | nil => rfl
  | cons a l ih => rw [List.map_cons, writeItems, ih, List.map_cons]

theorem writeEntries_map {f : α → Text × Doc} {l : List α} :
    writeEntries escape blank (l.map f) = l.map fun a =>
      quote escape (f a).1 ++ ':' :: (blank ++ (f a).2.write escape blank) := by
  induction l with
  | nil => rfl
  | cons a l ih => rw [List.map_cons, writeEntries, ih, List.map_cons]

theorem join_cons_cons (t t' : Text) (texts : List Text) :
    join blank (t :: t' :: texts) = t ++ ',' :: (blank ++ join blank (t' :: texts)) := by
  rw [join, List.intercalate_cons_cons, List.append_assoc]
  rfl

theorem skip_of_ne {c : Char} (h : isBlank c = false) (s : Text) : skip (c :: s) = c :: s := by
  rw [skip, List.dropWhile_cons_of_neg (by rw [h]; decide)]

theorem delimits_comma {s : Text} : Delimits (',' :: s) := by
  intro c hc
  obtain rfl := Option.some.inj hc
  decide

theorem delimits_bracket {s : Text} : Delimits (']' :: s) := by
  intro c hc
  obtain rfl := Option.some.inj hc
  decide

theorem delimits_brace {s : Text} : Delimits ('\x7d' :: s) := by
  intro c hc
  obtain rfl := Option.some.inj hc
  decide

/-- Reading undoes writing, for a document with some text after it. -/
def Reads (escape : Char → Text) (blank : Text) (d : Doc) : Prop :=
  ∀ depth rest, d.weight ≤ depth → Delimits rest →
    readDoc depth (d.write escape blank ++ rest) = some (d, rest)

theorem join_cons (blank t : Text) (texts : List Text) (rest : Text) :
    ∃ rest', join blank (t :: texts) ++ rest = t ++ rest' := by
  cases texts with
  | nil =>
    refine ⟨rest, ?_⟩
    rw [join, List.intercalate_singleton]
  | cons t' texts =>
    refine ⟨',' :: (blank ++ join blank (t' :: texts)) ++ rest, ?_⟩
    rw [join_cons_cons, List.append_assoc]

theorem skip_items (hblank : ∀ c ∈ blank, isBlank c = true) {d : Doc} (h : d.Plain)
    (items : List Doc) (rest : Text) :
    skip (blank ++ (join blank (writeItems escape blank (d :: items)) ++ rest)) =
      join blank (writeItems escape blank (d :: items)) ++ rest := by
  obtain ⟨rest', heq⟩ := join_cons blank (d.write escape blank)
    (writeItems escape blank items) rest
  rw [writeItems, skip_blank hblank, heq]
  exact skip_write h rest'

theorem readItems_join (hblank : ∀ c ∈ blank, isBlank c = true) {d : Doc} {items : List Doc}
    (hplain : ∀ d' ∈ d :: items, d'.Plain) (ih : ∀ d' ∈ d :: items, Reads escape blank d')
    (depth : Nat) (rest : Text) (hdepth : weightItems (d :: items) ≤ depth) :
    readItems depth (join blank (writeItems escape blank (d :: items)) ++ ']' :: rest) =
      some (d :: items, rest) := by
  induction items generalizing d depth with
  | nil =>
    rw [weightItems, weightItems] at hdepth
    obtain ⟨depth, rfl⟩ : ∃ n, depth = n + 1 := ⟨depth - 1, by omega⟩
    have hd := ih d List.mem_cons_self depth (']' :: rest) (by omega) delimits_bracket
    rw [writeItems, writeItems, join, List.intercalate_singleton, readItems, hd]
    rfl
  | cons d' items ih' =>
    rw [weightItems] at hdepth
    obtain ⟨depth, rfl⟩ : ∃ n, depth = n + 1 := ⟨depth - 1, by omega⟩
    have hrest := ih' (fun e he => hplain e (List.mem_cons_of_mem d he))
      (fun e he => ih e (List.mem_cons_of_mem d he)) depth (by omega)
    have hd := ih d List.mem_cons_self depth
      (',' :: (blank ++ (join blank (writeItems escape blank (d' :: items)) ++ ']' :: rest)))
      (by omega) delimits_comma
    have hskip := @skip_items escape blank hblank d'
      (hplain d' (List.mem_cons_of_mem d List.mem_cons_self)) items (']' :: rest)
    have hcomma (s : Text) : skip (',' :: s) = ',' :: s := skip_of_ne (by decide) s
    rw [writeItems, writeItems, join_cons_cons, ← writeItems, List.append_assoc, List.cons_append,
      List.append_assoc, readItems, hd]
    simp only [hcomma, hskip, hrest]
    rfl

theorem quote_append (s rest : Text) :
    quote escape s ++ rest = '"' :: (s.flatMap escape ++ '"' :: rest) := by
  rw [quote, List.cons_append, List.append_assoc]
  rfl

theorem skip_entries (hblank : ∀ c ∈ blank, isBlank c = true) (e : Text × Doc)
    (entries : List (Text × Doc)) (rest : Text) :
    skip (blank ++ (join blank (writeEntries escape blank (e :: entries)) ++ rest)) =
      join blank (writeEntries escape blank (e :: entries)) ++ rest := by
  obtain ⟨key, d⟩ := e
  obtain ⟨rest', heq⟩ := join_cons blank
    (quote escape key ++ ':' :: (blank ++ d.write escape blank))
    (writeEntries escape blank entries) rest
  rw [writeEntries, skip_blank hblank, heq]
  rfl

/-- One entry is read, and what is left is what follows it. -/
theorem readEntries_write (hescape : Escaping escape) (hblank : ∀ c ∈ blank, isBlank c = true)
    {key : Text} {d : Doc} (hplain : d.Plain) (ih : Reads escape blank d) {depth : Nat}
    {rest : Text} (hdepth : d.weight ≤ depth) (hrest : Delimits rest) :
    readEntries (depth + 1)
        ((quote escape key ++ ':' :: (blank ++ d.write escape blank)) ++ rest) =
      match skip rest with
      | ',' :: rest => (readEntries depth (skip rest)).map fun r => ((key, d) :: r.1, r.2)
      | '\x7d' :: rest => some ([(key, d)], rest)
      | _ => none := by
  have hcolon (s : Text) : skip (':' :: s) = ':' :: s := skip_of_ne (by decide) s
  have hskip : skip (blank ++ (d.write escape blank ++ rest)) = d.write escape blank ++ rest := by
    rw [skip_blank hblank, skip_write hplain]
  rw [List.append_assoc, quote_append, readEntries]
  simp only [readString_quoted hescape, List.cons_append, hcolon, List.append_assoc, hskip,
    ih depth rest hdepth hrest]

theorem readEntries_join (hescape : Escaping escape) (hblank : ∀ c ∈ blank, isBlank c = true)
    {e : Text × Doc} {entries : List (Text × Doc)} (hplain : ∀ e' ∈ e :: entries, e'.2.Plain)
    (ih : ∀ e' ∈ e :: entries, Reads escape blank e'.2) (depth : Nat) (rest : Text)
    (hdepth : weightEntries (e :: entries) ≤ depth) :
    readEntries depth (join blank (writeEntries escape blank (e :: entries)) ++ '\x7d' :: rest) =
      some (e :: entries, rest) := by
  induction entries generalizing e depth with
  | nil =>
    obtain ⟨key, d⟩ := e
    rw [weightEntries, weightEntries] at hdepth
    obtain ⟨depth, rfl⟩ : ∃ n, depth = n + 1 := ⟨depth - 1, by omega⟩
    have hd : d.Plain := hplain (key, d) List.mem_cons_self
    have hreads : Reads escape blank d := ih (key, d) List.mem_cons_self
    rw [writeEntries, writeEntries, join, List.intercalate_singleton,
      readEntries_write hescape hblank hd hreads (by omega) delimits_brace]
    rfl
  | cons e' entries ih' =>
    obtain ⟨key, d⟩ := e
    rw [weightEntries] at hdepth
    obtain ⟨depth, rfl⟩ : ∃ n, depth = n + 1 := ⟨depth - 1, by omega⟩
    have hd : d.Plain := hplain (key, d) List.mem_cons_self
    have hreads : Reads escape blank d := ih (key, d) List.mem_cons_self
    have hrest := ih' (fun e he => hplain e (List.mem_cons_of_mem _ he))
      (fun e he => ih e (List.mem_cons_of_mem _ he)) depth (by omega)
    have hskip := @skip_entries escape blank hblank e' entries ('\x7d' :: rest)
    have hcomma (s : Text) : skip (',' :: s) = ',' :: s := skip_of_ne (by decide) s
    have hjoin : join blank (writeEntries escape blank ((key, d) :: e' :: entries)) ++
        '\x7d' :: rest = (quote escape key ++ ':' :: (blank ++ d.write escape blank)) ++
          ',' :: (blank ++ (join blank (writeEntries escape blank (e' :: entries)) ++
            '\x7d' :: rest)) := by
      rw [writeEntries, writeEntries, join_cons_cons]
      simp only [List.append_assoc, List.cons_append]
    rw [hjoin, readEntries_write hescape hblank hd hreads (by omega) delimits_comma]
    simp only [hcomma, hskip, hrest]
    rfl

theorem readDoc_atom {t : Text} (hne : t ≠ []) (h : ∀ c ∈ t, isAtomChar c = true) (depth : Nat)
    {rest : Text} (hrest : Delimits rest) :
    readDoc (depth + 1) (t ++ rest) = some (.atom t, rest) := by
  have htake : (t ++ rest).takeWhile isAtomChar = t := by
    rw [List.takeWhile_append_of_pos h]
    cases rest with
    | nil => exact List.append_nil t
    | cons c rest =>
      rw [List.takeWhile_cons_of_neg (by rw [hrest c rfl]; decide), List.append_nil]
  have hdrop : (t ++ rest).dropWhile isAtomChar = rest := by
    rw [List.dropWhile_append_of_pos h]
    cases rest with
    | nil => rfl
    | cons c rest => rw [List.dropWhile_cons_of_neg (by rw [hrest c rfl]; decide)]
  rw [← htake] at hne
  cases ht : t ++ rest with
  | nil =>
    rw [ht] at hne
    exact absurd rfl hne
  | cons c s =>
    have hc : isAtomChar c = true := by
      by_contra hc
      rw [ht, List.takeWhile_cons_of_neg hc] at hne
      exact hne rfl
    rw [ht] at htake hdrop hne
    have hbool : ((c :: s).takeWhile isAtomChar).isEmpty = false := by
      rw [List.isEmpty_eq_false_iff]
      exact hne
    unfold readDoc
    split
    · next heq =>
      rw [(List.cons.inj heq).1] at hc
      exact absurd hc (by decide)
    · next heq =>
      rw [(List.cons.inj heq).1] at hc
      exact absurd hc (by decide)
    · next heq =>
      rw [(List.cons.inj heq).1] at hc
      exact absurd hc (by decide)
    · rw [hbool, htake, hdrop]
      rfl

/-- A document does not start with what ends a list. -/
theorem write_ne {d : Doc} (h : d.Plain) (s s' : Text) :
    d.write escape blank ++ s ≠ ']' :: s' := by
  intro heq
  cases h with
  | @atom t hne h =>
    rw [Doc.write] at heq
    cases t with
    | nil => exact hne rfl
    | cons c t =>
      have hc := h c List.mem_cons_self
      rw [(List.cons.inj heq).1] at hc
      exact absurd hc (by decide)
  | str =>
    rw [Doc.write, quote] at heq
    exact absurd (List.cons.inj heq).1 (by decide)
  | list =>
    rw [Doc.write] at heq
    exact absurd (List.cons.inj heq).1 (by decide)
  | dict =>
    rw [Doc.write] at heq
    exact absurd (List.cons.inj heq).1 (by decide)

theorem readDoc_list (hblank : ∀ c ∈ blank, isBlank c = true) {d : Doc} {items : List Doc}
    (hplain : ∀ d' ∈ d :: items, d'.Plain) (ih : ∀ d' ∈ d :: items, Reads escape blank d')
    (depth : Nat) (rest : Text) (hdepth : weightItems (d :: items) ≤ depth) :
    readDoc (depth + 1)
        ('[' :: (join blank (writeItems escape blank (d :: items)) ++ ']' :: rest)) =
      some (.list (d :: items), rest) := by
  have hd : d.Plain := hplain d List.mem_cons_self
  obtain ⟨rest', heq⟩ := join_cons blank (d.write escape blank)
    (writeItems escape blank items) (']' :: rest)
  have hskip : skip (join blank (writeItems escape blank (d :: items)) ++ ']' :: rest) =
      join blank (writeItems escape blank (d :: items)) ++ ']' :: rest := by
    rw [writeItems, heq, skip_write hd]
  rw [readDoc, hskip]
  split
  · next hne =>
    rw [writeItems, heq] at hne
    exact absurd hne (write_ne hd _ _)
  · rw [readItems_join hblank hplain ih depth rest hdepth]
    rfl

theorem readDoc_dict (hescape : Escaping escape) (hblank : ∀ c ∈ blank, isBlank c = true)
    {e : Text × Doc} {entries : List (Text × Doc)} (hplain : ∀ e' ∈ e :: entries, e'.2.Plain)
    (ih : ∀ e' ∈ e :: entries, Reads escape blank e'.2) (depth : Nat) (rest : Text)
    (hdepth : weightEntries (e :: entries) ≤ depth) :
    readDoc (depth + 1)
        ('\x7b' :: (join blank (writeEntries escape blank (e :: entries)) ++ '\x7d' :: rest)) =
      some (.dict (e :: entries), rest) := by
  obtain ⟨key, d⟩ := e
  obtain ⟨rest', heq⟩ := join_cons blank
    (quote escape key ++ ':' :: (blank ++ d.write escape blank))
    (writeEntries escape blank entries) ('\x7d' :: rest)
  have hquote : join blank (writeEntries escape blank ((key, d) :: entries)) ++ '\x7d' :: rest =
      '"' :: (key.flatMap escape ++ '"' :: (':' :: (blank ++ d.write escape blank) ++ rest')) := by
    rw [writeEntries, heq, List.append_assoc, quote_append]
  have hskip :
      skip (join blank (writeEntries escape blank ((key, d) :: entries)) ++ '\x7d' :: rest) =
      join blank (writeEntries escape blank ((key, d) :: entries)) ++ '\x7d' :: rest := by
    rw [hquote]
    rfl
  rw [readDoc, hskip]
  split
  · next hne =>
    rw [hquote] at hne
    exact absurd (List.cons.inj hne).1 (by decide)
  · rw [readEntries_join hescape hblank hplain ih depth rest hdepth]
    rfl

/-- Reading undoes writing. -/
theorem Doc.Plain.reads (hescape : Escaping escape) (hblank : ∀ c ∈ blank, isBlank c = true)
    {d : Doc} (h : d.Plain) : Reads escape blank d := by
  induction h with
  | atom hne h =>
    intro depth rest hdepth hrest
    rw [weight] at hdepth
    obtain ⟨depth, rfl⟩ : ∃ n, depth = n + 1 := ⟨depth - 1, by omega⟩
    rw [write]
    exact readDoc_atom hne h depth hrest
  | str =>
    intro depth rest hdepth hrest
    rw [weight] at hdepth
    obtain ⟨depth, rfl⟩ : ∃ n, depth = n + 1 := ⟨depth - 1, by omega⟩
    rw [write, quote_append, readDoc, readString_quoted hescape]
    rfl
  | @list items h ih =>
    intro depth rest hdepth hrest
    rw [weight] at hdepth
    obtain ⟨depth, rfl⟩ : ∃ n, depth = n + 1 := ⟨depth - 1, by omega⟩
    rw [write, List.cons_append, List.append_assoc, List.singleton_append]
    cases items with
    | nil => rfl
    | cons d items => exact readDoc_list hblank h ih depth rest (by omega)
  | @dict entries h ih =>
    intro depth rest hdepth hrest
    rw [weight] at hdepth
    obtain ⟨depth, rfl⟩ : ∃ n, depth = n + 1 := ⟨depth - 1, by omega⟩
    rw [write, List.cons_append, List.append_assoc, List.singleton_append]
    cases entries with
    | nil => rfl
    | cons e entries => exact readDoc_dict hescape hblank h ih depth rest (by omega)

theorem weightItems_le {items : List Doc}
    (ih : ∀ d ∈ items, d.weight ≤ (d.write escape blank).length) :
    weightItems items ≤ (join blank (writeItems escape blank items)).length + 1 := by
  induction items with
  | nil =>
    rw [weightItems]
    omega
  | cons d items ih' =>
    have hd := ih d List.mem_cons_self
    have hitems := ih' fun e he => ih e (List.mem_cons_of_mem d he)
    rw [weightItems]
    cases items with
    | nil =>
      rw [weightItems, writeItems, writeItems, join, List.intercalate_singleton]
      omega
    | cons d' items =>
      rw [writeItems, writeItems, join_cons_cons, ← writeItems]
      simp only [List.length_append, List.length_cons]
      omega

theorem weightEntries_le {entries : List (Text × Doc)}
    (ih : ∀ e ∈ entries, e.2.weight ≤ (e.2.write escape blank).length) :
    weightEntries entries ≤ (join blank (writeEntries escape blank entries)).length + 1 := by
  induction entries with
  | nil =>
    rw [weightEntries]
    omega
  | cons e entries ih' =>
    obtain ⟨key, d⟩ := e
    have hd : d.weight ≤ (d.write escape blank).length := ih (key, d) List.mem_cons_self
    have hentries := ih' fun e he => ih e (List.mem_cons_of_mem _ he)
    rw [weightEntries]
    cases entries with
    | nil =>
      rw [weightEntries, writeEntries, writeEntries, join, List.intercalate_singleton]
      simp only [List.length_append, List.length_cons]
      omega
    | cons e' entries =>
      obtain ⟨key', d'⟩ := e'
      rw [writeEntries, writeEntries, join_cons_cons, ← writeEntries]
      simp only [List.length_append, List.length_cons]
      omega

/-- The text of a document is as long as reading it takes. -/
theorem Doc.Plain.weight_le {d : Doc} (h : d.Plain) :
    d.weight ≤ (d.write escape blank).length := by
  induction h with
  | atom hne =>
    rw [weight, write]
    exact List.length_pos_of_ne_nil hne
  | str =>
    rw [weight, write, quote, List.length_cons]
    omega
  | list h ih =>
    have hitems := weightItems_le ih
    rw [weight, write, List.length_cons, List.length_append, List.length_singleton]
    omega
  | dict h ih =>
    have hentries := weightEntries_le ih
    rw [weight, write, List.length_cons, List.length_append, List.length_singleton]
    omega

theorem parse_write (hescape : Escaping escape) (hblank : ∀ c ∈ blank, isBlank c = true)
    {d : Doc} (h : d.Plain) : parse (d.write escape blank) = some d := by
  have hskip := @skip_write escape blank d h []
  have hreads := h.reads hescape hblank ((d.write escape blank).length + 1) []
    (Nat.le_succ_of_le h.weight_le) fun _ hc => (by cases hc)
  rw [List.append_nil] at hskip hreads
  rw [parse, hskip, hreads]
  rfl

end RoundTrip

section Characters

variable {escape : Char → Text} {blank : Text} {p : Char → Prop}

theorem forall_mem_quote (hquote : p '"') (hescape : ∀ c, ∀ x ∈ escape c, p x) (s : Text) :
    ∀ x ∈ quote escape s, p x := by
  intro x hx
  obtain rfl | hx := List.mem_cons.1 hx
  · exact hquote
  · obtain hx | hx := List.mem_append.1 hx
    · obtain ⟨c, _, hx⟩ := List.mem_flatMap.1 hx
      exact hescape c x hx
    · exact List.mem_singleton.1 hx ▸ hquote

theorem forall_mem_join (hcomma : p ',') (hblank : ∀ x ∈ blank, p x) {texts : List Text}
    (h : ∀ t ∈ texts, ∀ x ∈ t, p x) : ∀ x ∈ join blank texts, p x := by
  induction texts with
  | nil => exact fun x hx => absurd hx List.not_mem_nil
  | cons t texts ih =>
    rw [List.forall_mem_cons] at h
    cases texts with
    | nil =>
      rw [join, List.intercalate_singleton]
      exact h.1
    | cons t' texts =>
      intro x hx
      rw [join_cons_cons, List.mem_append, List.mem_cons, List.mem_append] at hx
      obtain hx | rfl | hx | hx := hx
      · exact h.1 x hx
      · exact hcomma
      · exact hblank x hx
      · exact ih h.2 x hx

/-- A document is made of its punctuation, blanks, atoms and escaped characters. -/
theorem Doc.Plain.forall_mem_write {d : Doc} (h : d.Plain)
    (hmarks : ∀ x ∈ ['"', ',', ':', '[', ']', '\x7b', '\x7d'], p x) (hblank : ∀ x ∈ blank, p x)
    (hatom : ∀ x, isAtomChar x = true → p x) (hescape : ∀ c, ∀ x ∈ escape c, p x) :
    ∀ x ∈ d.write escape blank, p x := by
  have hquote : p '"' := hmarks _ (by decide)
  induction h with
  | atom hne h =>
    rw [write]
    exact fun x hx => hatom x (h x hx)
  | str =>
    rw [write]
    exact forall_mem_quote hquote hescape _
  | @list items h ih =>
    have hitems : ∀ t ∈ writeItems escape blank items, ∀ x ∈ t, p x := by
      have heq : writeItems escape blank (items.map id) = _ := writeItems_map
      rw [List.map_id] at heq
      rw [heq]
      exact List.forall_mem_map.2 ih
    have hjoin := forall_mem_join (hmarks _ (by decide)) hblank hitems
    intro x hx
    rw [write, List.mem_cons, List.mem_append, List.mem_singleton] at hx
    obtain rfl | hx | rfl := hx
    · exact hmarks _ (by decide)
    · exact hjoin x hx
    · exact hmarks _ (by decide)
  | @dict entries h ih =>
    have hentries : ∀ t ∈ writeEntries escape blank entries, ∀ x ∈ t, p x := by
      have heq : writeEntries escape blank (entries.map id) = _ := writeEntries_map
      rw [List.map_id] at heq
      rw [heq]
      refine List.forall_mem_map.2 fun e he x hx => ?_
      rw [List.mem_append, List.mem_cons, List.mem_append] at hx
      obtain hx | rfl | hx | hx := hx
      · exact forall_mem_quote hquote hescape _ x hx
      · exact hmarks _ (by decide)
      · exact hblank x hx
      · exact ih e he x hx
    have hjoin := forall_mem_join (hmarks _ (by decide)) hblank hentries
    intro x hx
    rw [write, List.mem_cons, List.mem_append, List.mem_singleton] at hx
    obtain rfl | hx | rfl := hx
    · exact hmarks _ (by decide)
    · exact hjoin x hx
    · exact hmarks _ (by decide)

end Characters

section Escapings

theorem hexDigit_digitChar : ∀ k < 16, hexDigit (Nat.digitChar k) = some k := by
  decide

/-- Four hexadecimal digits -/
def hexText (n : Nat) : Text :=
  [Nat.digitChar (n / 4096 % 16), Nat.digitChar (n / 256 % 16), Nat.digitChar (n / 16 % 16),
    Nat.digitChar (n % 16)]

theorem hex4_hexText {n : Nat} (h : n < 65536) :
    hex4 (Nat.digitChar (n / 4096 % 16)) (Nat.digitChar (n / 256 % 16))
      (Nat.digitChar (n / 16 % 16)) (Nat.digitChar (n % 16)) = some n := by
  have hmod (k : Nat) : k % 16 < 16 := Nat.mod_lt k (by decide)
  rw [hex4, hexDigit_digitChar _ (hmod _), hexDigit_digitChar _ (hmod _),
    hexDigit_digitChar _ (hmod _), hexDigit_digitChar _ (hmod _)]
  change some (((n / 4096 % 16 * 16 + n / 256 % 16) * 16 + n / 16 % 16) * 16 + n % 16) = some n
  congr 1
  omega

theorem readString_hex {c : Char} (h : c.toNat < 65536) (s : Text) :
    readString ('\\' :: 'u' :: (hexText c.toNat ++ s)) =
      (readString s).map fun r => (c :: r.1, r.2) := by
  have hvalid : c.toNat.isValidChar := c.valid
  rw [hexText, List.cons_append, List.cons_append, List.cons_append, List.cons_append,
    List.nil_append, readString, hex4_hexText h]
  simp only [hvalid, if_true, Char.ofNat_toNat]

/-- The code units of a character that has two -/
def highUnit (n : Nat) : Nat := 0xD800 + (n - 0x10000) / 0x400

def lowUnit (n : Nat) : Nat := 0xDC00 + (n - 0x10000) % 0x400

theorem units_lt {c : Char} (h : 65536 ≤ c.toNat) :
    0xD800 ≤ highUnit c.toNat ∧ highUnit c.toNat < 0xDC00 ∧ 0xDC00 ≤ lowUnit c.toNat ∧
      lowUnit c.toNat < 0xE000 := by
  have hvalid : c.toNat.isValidChar := c.valid
  rw [Nat.isValidChar] at hvalid
  rw [highUnit, lowUnit]
  omega

theorem surrogatePair_units {c : Char} (h : 65536 ≤ c.toNat) :
    surrogatePair (highUnit c.toNat) (lowUnit c.toNat) = some c := by
  have hsum : 0x10000 + ((highUnit c.toNat - 0xD800) * 0x400 + (lowUnit c.toNat - 0xDC00)) =
      c.toNat := by
    rw [highUnit, lowUnit]
    omega
  rw [surrogatePair, if_pos (units_lt h), hsum, Char.ofNat_toNat]

theorem readString_units {n : Nat} {c : Char} {a b c₁ d e f g h : Char}
    (hhigh : hex4 a b c₁ d = some n) (hvalid : ¬n.isValidChar)
    (hlow : (hex4 e f g h).bind (surrogatePair n) = some c) (s : Text) :
    readString ('\\' :: 'u' :: a :: b :: c₁ :: d :: '\\' :: 'u' :: e :: f :: g :: h :: s) =
      (readString s).map fun r => (c :: r.1, r.2) := by
  rw [readString, hhigh]
  simp only [if_neg hvalid, hlow]

theorem readString_pair {c : Char} (h : 65536 ≤ c.toNat) (s : Text) :
    readString ('\\' :: 'u' :: (hexText (highUnit c.toNat) ++
        '\\' :: 'u' :: (hexText (lowUnit c.toNat) ++ s))) =
      (readString s).map fun r => (c :: r.1, r.2) := by
  obtain ⟨hhigh, hhigh', hlow, hlow'⟩ := units_lt h
  have hvalid : ¬(highUnit c.toNat).isValidChar := by
    rw [Nat.isValidChar]
    omega
  have hlast := hex4_hexText (Nat.lt_trans hlow' (by decide))
  refine readString_units (hex4_hexText (Nat.lt_trans hhigh' (by decide))) hvalid ?_ s
  rw [hlast, Option.bind_some]
  exact surrogatePair_units h

theorem readString_simple {e c : Char} (h : simpleEscape e = some c) (s : Text) :
    readString ('\\' :: e :: s) = (readString s).map fun r => (c :: r.1, r.2) := by
  have hne : e ≠ 'u' := by
    rintro rfl
    have hnone : simpleEscape 'u' = none := by decide
    rw [hnone] at h
    cases h
  rw [readString]
  · rw [h]
  · intro a b c d s heq
    exact absurd heq hne

theorem readString_plain {c : Char} (hquote : c ≠ '"') (hslash : c ≠ '\\') (h : 32 ≤ c.toNat)
    (s : Text) : readString (c :: s) = (readString s).map fun r => (c :: r.1, r.2) := by
  rw [readString]
  · rw [if_neg (Nat.not_lt.2 h)]
  · exact hquote
  · intro a b c d s heq
    exact absurd heq hslash
  · intro a s heq
    exact absurd heq hslash

end Escapings

end JsonSyntax
