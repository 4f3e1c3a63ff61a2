import Sovereign.Lib.JsonSyntax
import Sovereign.OrmStructured

namespace Sovereign
open JsonSyntax (Doc Escaping)
set_option autoImplicit true

/-! `json.loads`, and that it reads what `json.dumps` writes. -/

section Numbers

def isDigits (t : Str) : Bool := !t.isEmpty && t.all Char.isDigit

/-- `0|[1-9]\d*` -/
def isNatural (t : Str) : Bool := isDigits t && (t = ['0'] || t.head? ≠ some '0')

/-- `([eE][-+]?\d+)?` -/
def isExponent : Str → Bool
  | [] => true
  | e :: '+' :: t => (e = 'e' || e = 'E') && isDigits t
  | e :: '-' :: t => (e = 'e' || e = 'E') && isDigits t
  | e :: t => (e = 'e' || e = 'E') && isDigits t

/-- `(\.\d+)?([eE][-+]?\d+)?` -/
def isFraction : Str → Bool
  | '.' :: t => isDigits (t.takeWhile Char.isDigit) && isExponent (t.dropWhile Char.isDigit)
  | t => isExponent t

/-- The parts of `NUMBER_RE`: whether there is a sign, the integer, and what comes after it. -/
def numberParts : Str → Bool × Str × Str
  | '-' :: t => (true, t.takeWhile Char.isDigit, t.dropWhile Char.isDigit)
  | t => (false, t.takeWhile Char.isDigit, t.dropWhile Char.isDigit)

/-- A number with a fraction or an exponent -/
def isFloatText (t : Str) : Bool :=
  isNatural (numberParts t).2.1 && !(numberParts t).2.2.isEmpty && isFraction (numberParts t).2.2

/-- `_CONSTANTS`: the names of the other floats, and the texts that `float` takes for them -/
def floatNames : List (Str × Str) :=
  [("NaN".toList, "nan".toList), ("Infinity".toList, "inf".toList),
    ("-Infinity".toList, "-inf".toList)]

end Numbers

namespace Interpreter

variable (env : Interpreter κ φ)

/-- The number of this text; `none` is a `ValueError`. -/
def readNumber (t : Str) : Option (DataValue κ φ) :=
  if isNatural (numberParts t).2.1 then
    if (numberParts t).2.2.isEmpty then
      (parseInt (numberParts t).2.1).map fun n : Nat => .int (if (numberParts t).1 then -n else n)
    else if isFraction (numberParts t).2.2 then (env.floatOfStr t).map .float
    else none
  else none

/-- `scan_once`, where there is no string, list or dict -/
def readAtom (t : Str) : Option (DataValue κ φ) :=
  if t = "null".toList then some .none
  else if t = "true".toList then some (.bool true)
  else if t = "false".toList then some (.bool false)
  else
    match floatNames.lookup t with
    | some name => (env.floatOfStr name).map .float
    | none => env.readNumber t

mutual

/-- The value of a document. -/
def valueOf : Doc → Option (DataValue κ φ)
  | .atom t => env.readAtom t
  | .str s => some (.str s)
  | .list items => (valuesOf items).map (.container .list)
  | .dict entries => (entriesOf entries).map fun es => .dict (dictOf Interpreter.plainSame es)

def valuesOf : List Doc → Option (List (DataValue κ φ))
  | [] => some []
  | d :: items => do
    let v ← valueOf d
    let vs ← valuesOf items
    return v :: vs

def entriesOf : List (Str × Doc) → Option (List (DataValue κ φ × DataValue κ φ))
  | [] => some []
  | (key, d) :: entries => do
    let v ← valueOf d
    let es ← entriesOf entries
    return (.str key, v) :: es

end

/-- `json.loads(text)`. A `JSONDecodeError` is a `ValueError`. -/
def jsonLoads (text : Str) : Except PyError (DataValue κ φ) :=
  match (JsonSyntax.parse text).bind env.valueOf with
  | none => .error .valueError
  | some v => .ok v

end Interpreter

/-- The text is the one `json` writes for the float, and `float` reads it. -/
inductive Interpreter.ReadsFloat (env : Interpreter κ φ) (text : Str) (x : φ) : Prop where
  | finite (h : isFloatText text = true) (hread : env.floatOfStr text = some x)
  | named (h : (text, name) ∈ floatNames) (hread : env.floatOfStr name = some x)

section Atoms

variable {env : Interpreter κ φ}

theorem isAtomChar_of_isDigit {c : Char} (h : c.isDigit = true) :
    JsonSyntax.isAtomChar c = true := by
  rw [JsonSyntax.isAtomChar, Char.isAlphanum, h]
  simp only [Bool.or_true, Bool.true_or]

theorem isDigits_atom {t : Str} (h : isDigits t = true) :
    t ≠ [] ∧ ∀ c ∈ t, JsonSyntax.isAtomChar c = true := by
  rw [isDigits, Bool.and_eq_true, List.all_eq_true] at h
  refine ⟨?_, fun c hc => isAtomChar_of_isDigit (h.2 c hc)⟩
  rintro rfl
  cases h.1

theorem isExponent_atom {t : Str} (h : isExponent t = true) :
    ∀ c ∈ t, JsonSyntax.isAtomChar c = true := by
  have hletter {e : Char} (he : (e = 'e' || e = 'E') = true) :
      JsonSyntax.isAtomChar e = true := by
    rw [Bool.or_eq_true, decide_eq_true_eq, decide_eq_true_eq] at he
    obtain rfl | rfl := he
    · decide
    · decide
  unfold isExponent at h
  split at h
  · exact fun c hc => absurd hc List.not_mem_nil
  · rw [Bool.and_eq_true] at h
    exact List.forall_mem_cons.2 ⟨hletter h.1, List.forall_mem_cons.2
      ⟨by decide, (isDigits_atom h.2).2⟩⟩
  · rw [Bool.and_eq_true] at h
    exact List.forall_mem_cons.2 ⟨hletter h.1, List.forall_mem_cons.2
      ⟨by decide, (isDigits_atom h.2).2⟩⟩
  · rw [Bool.and_eq_true] at h
    exact List.forall_mem_cons.2 ⟨hletter h.1, (isDigits_atom h.2).2⟩

theorem mem_digits_or {c : Char} {t : Str} (h : c ∈ t) :
    c ∈ t.takeWhile Char.isDigit ∨ c ∈ t.dropWhile Char.isDigit := by
  rw [← List.mem_append, List.takeWhile_append_dropWhile]
  exact h

theorem isFraction_atom {t : Str} (h : isFraction t = true) :
    ∀ c ∈ t, JsonSyntax.isAtomChar c = true := by
  unfold isFraction at h
  split at h
  · next t =>
    rw [Bool.and_eq_true] at h
    intro c hc
    obtain rfl | hc := List.mem_cons.1 hc
    · decide
    · exact (mem_digits_or hc).elim ((isDigits_atom h.1).2 c) (isExponent_atom h.2 c)
  · exact isExponent_atom h

theorem numberParts_cases (t : Str) :
    (∃ s, t = '-' :: s ∧
      numberParts t = (true, s.takeWhile Char.isDigit, s.dropWhile Char.isDigit)) ∨
      numberParts t = (false, t.takeWhile Char.isDigit, t.dropWhile Char.isDigit) := by
  unfold numberParts
  split
  · exact .inl ⟨_, rfl, rfl⟩
  · exact .inr rfl

/-- A number is an atom. -/
theorem number_atom {t : Str} (h : isNatural (numberParts t).2.1 = true)
    (hrest : ∀ c ∈ (numberParts t).2.2, JsonSyntax.isAtomChar c = true) :
    t ≠ [] ∧ ∀ c ∈ t, JsonSyntax.isAtomChar c = true := by
  rw [isNatural, Bool.and_eq_true] at h
  have hdigits := isDigits_atom h.1
  have hunsigned {s : Str} (h : s.takeWhile Char.isDigit ≠ [] ∧
      ∀ c ∈ s.takeWhile Char.isDigit, JsonSyntax.isAtomChar c = true)
      (hrest : ∀ c ∈ s.dropWhile Char.isDigit, JsonSyntax.isAtomChar c = true) :
      s ≠ [] ∧ ∀ c ∈ s, JsonSyntax.isAtomChar c = true := by
    refine ⟨?_, fun c hc => (mem_digits_or hc).elim (h.2 c) (hrest c)⟩
    rintro rfl
    exact h.1 rfl
  obtain ⟨s, rfl, hparts⟩ | hparts := numberParts_cases t
  · rw [hparts] at hdigits hrest
    have hs := hunsigned hdigits hrest
    exact ⟨List.cons_ne_nil _ _, List.forall_mem_cons.2 ⟨by decide, hs.2⟩⟩
  · rw [hparts] at hdigits hrest
    exact hunsigned hdigits hrest

theorem isFloatText_atom {t : Str} (h : isFloatText t = true) :
    t ≠ [] ∧ ∀ c ∈ t, JsonSyntax.isAtomChar c = true := by
  rw [isFloatText, Bool.and_eq_true, Bool.and_eq_true] at h
  exact number_atom h.1.1 (isFraction_atom h.2)

/-- A name of a float is no other atom. -/
theorem readAtom_named {name : Str} (h : (t, name) ∈ floatNames) :
    env.readAtom t = (env.floatOfStr name).map .float := by
  simp only [floatNames, List.mem_cons, List.not_mem_nil, or_false, Prod.mk.injEq] at h
  obtain ⟨rfl, rfl⟩ | ⟨rfl, rfl⟩ | ⟨rfl, rfl⟩ := h
  · rfl
  · rfl
  · rfl

/-- What is written as a number is no name. -/
theorem readAtom_number {t : Str} (h : isNatural (numberParts t).2.1 = true) :
    env.readAtom t = env.readNumber t := by
  have hne {name : Str} (hname : isNatural (numberParts name).2.1 = false) : t ≠ name := by
    rintro rfl
    rw [hname] at h
    cases h
  have hlookup : floatNames.lookup t = none := by
    rw [List.lookup_eq_none_iff]
    intro e he
    simp only [floatNames, List.mem_cons, List.not_mem_nil, or_false] at he
    rw [bne_iff_ne]
    obtain rfl | rfl | rfl := he
    · exact hne (by decide)
    · exact hne (by decide)
    · exact hne (by decide)
  rw [Interpreter.readAtom, if_neg (hne (by decide)), if_neg (hne (by decide)),
    if_neg (hne (by decide)), hlookup]

theorem Interpreter.ReadsFloat.readAtom {text : Str} (h : env.ReadsFloat text x) :
    env.readAtom text = some (.float x) := by
  cases h with
  | finite h hread =>
    rw [isFloatText, Bool.and_eq_true, Bool.and_eq_true, Bool.not_eq_true'] at h
    rw [readAtom_number h.1.1, Interpreter.readNumber, if_pos h.1.1, h.1.2, h.2, hread]
    rfl
  | named h hread =>
    rw [readAtom_named h, hread]
    rfl

theorem Interpreter.ReadsFloat.atom {text : Str} (h : env.ReadsFloat text x) :
    text ≠ [] ∧ ∀ c ∈ text, JsonSyntax.isAtomChar c = true := by
  cases h with
  | finite h => exact isFloatText_atom h
  | named h =>
    simp only [floatNames, List.mem_cons, List.not_mem_nil, or_false, Prod.mk.injEq] at h
    obtain ⟨rfl, _⟩ | ⟨rfl, _⟩ | ⟨rfl, _⟩ := h
    · decide
    · decide
    · decide

theorem head_toDigits {n : Nat} (h : 0 < n) : (Nat.toDigits 10 n).head? ≠ some '0' := by
  induction n using Nat.strong_induction_on with
  | _ n ih =>
    rw [Nat.toDigits_eq_if (by decide)]
    split
    · next hlt =>
      interval_cases n <;> decide
    · have hhead := ih (n / 10) (by omega) (by omega)
      rw [List.head?_append_of_ne_nil _ (by simp)]
      exact hhead

theorem isNatural_toDigits (n : Nat) : isNatural (Nat.toDigits 10 n) = true := by
  have hdigits : isDigits (Nat.toDigits 10 n) = true := by
    rw [isDigits, Bool.and_eq_true, List.all_eq_true]
    exact ⟨by simp, fun c hc => Nat.isDigit_of_mem_toDigits (by decide) (by decide) hc⟩
  rw [isNatural, hdigits, Bool.true_and, Bool.or_eq_true, decide_eq_true_eq, decide_eq_true_eq]
  obtain rfl | hpos := Nat.eq_zero_or_pos n
  · exact .inl rfl
  · exact .inr (head_toDigits hpos)

theorem numberParts_decimal (n : Int) :
    numberParts (decimal n) = (decide (n < 0), Nat.toDigits 10 n.natAbs, []) := by
  have hdigit (m : Nat) : ∀ c ∈ Nat.toDigits 10 m, c.isDigit = true :=
    fun c hc => Nat.isDigit_of_mem_toDigits (by decide) (by decide) hc
  cases n with
  | negSucc m =>
    rw [decimal, numberParts, List.takeWhile_eq_self_iff.2 (hdigit _),
      List.dropWhile_eq_nil_iff.2 (hdigit _), decide_eq_true (Int.negSucc_lt_zero m)]
    rfl
  | ofNat m =>
    obtain ⟨s, heq, _⟩ | hparts := numberParts_cases (decimal (.ofNat m))
    · have hminus := hdigit m '-' (by rw [show Nat.toDigits 10 m = '-' :: s from heq]; simp)
      exact absurd hminus (by decide)
    · rw [hparts, decimal, List.takeWhile_eq_self_iff.2 (hdigit _),
        List.dropWhile_eq_nil_iff.2 (hdigit _)]
      rfl

theorem readAtom_decimal {n : Int} (h : (Nat.toDigits 10 n.natAbs).length ≤ maxStrDigits) :
    env.readAtom (decimal n) = some (.int n) := by
  have hparts := numberParts_decimal n
  have hnatural : isNatural (numberParts (decimal n)).2.1 = true := by
    rw [hparts]
    exact isNatural_toDigits _
  have hparse : parseInt (Nat.toDigits 10 n.natAbs) = some n.natAbs := by
    rw [parseInt, if_pos h]
    exact parse_decimal n.natAbs
  rw [readAtom_number hnatural, Interpreter.readNumber, if_pos hnatural, hparts]
  have hsign : (if n < 0 then -(n.natAbs : Int) else n.natAbs) = n := by omega
  simp only [hparse, List.isEmpty_nil, if_true, decide_eq_true_eq]
  rw [Option.map_some, hsign]

end Atoms

section Documents

/-- A character in a string of a document, where only ASCII is written:
`json.dumps(data)` -/
def asciiEscape (c : Char) : Str :=
  if c = '"' then "\\\"".toList
  else if c = '\\' then "\\\\".toList
  else if c = '\n' then "\\n".toList
  else if c = '\r' then "\\r".toList
  else if c = '\t' then "\\t".toList
  else if c = Char.ofNat 12 then "\\f".toList
  else if c = Char.ofNat 8 then "\\b".toList
  else if 32 ≤ c.toNat ∧ c.toNat < 127 then [c]
  else if c.toNat < 65536 then '\\' :: 'u' :: JsonSyntax.hexText c.toNat
  else '\\' :: 'u' :: (JsonSyntax.hexText (JsonSyntax.highUnit c.toNat) ++
    '\\' :: 'u' :: JsonSyntax.hexText (JsonSyntax.lowUnit c.toNat))

theorem escaping_escapeChar : Escaping escapeChar := by
  intro c s
  unfold escapeChar
  split
  · next h => exact h ▸ JsonSyntax.readString_simple (by decide) s
  · next hquote =>
    split
    · next h => exact h ▸ JsonSyntax.readString_simple (by decide) s
    · next hslash =>
      repeat' split
      · next h => exact h ▸ JsonSyntax.readString_simple (by decide) s
      · next h => exact h ▸ JsonSyntax.readString_simple (by decide) s
      · next h => exact h ▸ JsonSyntax.readString_simple (by decide) s
      · next h => exact h ▸ JsonSyntax.readString_simple (by decide) s
      · next h => exact h ▸ JsonSyntax.readString_simple (by decide) s
      · next hlt =>
        have hhex : "\\u00".toList ++ [Nat.digitChar (c.toNat / 16), Nat.digitChar (c.toNat % 16)] =
            '\\' :: 'u' :: JsonSyntax.hexText c.toNat := by
          rw [JsonSyntax.hexText, show c.toNat / 4096 % 16 = 0 by omega,
            show c.toNat / 256 % 16 = 0 by omega, show c.toNat / 16 % 16 = c.toNat / 16 by omega]
          rfl
        rw [hhex]
        exact JsonSyntax.readString_hex (by omega) s
      · next hge => exact JsonSyntax.readString_plain hquote hslash (Nat.not_lt.1 hge) s

theorem escaping_asciiEscape : Escaping asciiEscape := by
  intro c s
  unfold asciiEscape
  split
  · next h => exact h ▸ JsonSyntax.readString_simple (by decide) s
  · next hquote =>
    split
    · next h => exact h ▸ JsonSyntax.readString_simple (by decide) s
    · next hslash =>
      repeat' split
      · next h => exact h ▸ JsonSyntax.readString_simple (by decide) s
      · next h => exact h ▸ JsonSyntax.readString_simple (by decide) s
      · next h => exact h ▸ JsonSyntax.readString_simple (by decide) s
      · next h => exact h ▸ JsonSyntax.readString_simple (by decide) s
      · next h => exact h ▸ JsonSyntax.readString_simple (by decide) s
      · next h => exact JsonSyntax.readString_plain hquote hslash h.1 s
      · next hlt => exact JsonSyntax.readString_hex hlt s
      · next hge =>
        have hpair := JsonSyntax.readString_pair (Nat.not_lt.1 hge) s
        simp only [List.cons_append, List.append_assoc]
        exact hpair

variable {R : OrmRuntime κ φ}

/-- `float` reads every float that `json` writes. -/
def OrmRuntime.ReadsFloats (R : OrmRuntime κ φ) : Prop := ∀ x, R.ReadsFloat (R.floatText x) x

namespace OrmRuntime

/-- The key of an entry of a document. -/
def entryKey : DataValue κ φ → Str
  | .str s => s
  | _ => []

mutual

/-- The syntax of a document. -/
def syntaxOf (R : OrmRuntime κ φ) : DataValue κ φ → Doc
  | .none => .atom "null".toList
  | .bool b => .atom (if b then "true".toList else "false".toList)
  | .int n => .atom (decimal n)
  | .float x => .atom (R.floatText x)
  | .str s => .str s
  | .container _ items => .list (itemSyntax R items)
  | .dict entries => .dict (entrySyntax R entries)
  | _ => .atom []

def itemSyntax (R : OrmRuntime κ φ) : List (DataValue κ φ) → List Doc
  | [] => []
  | v :: vs => syntaxOf R v :: itemSyntax R vs

def entrySyntax (R : OrmRuntime κ φ) : List (DataValue κ φ × DataValue κ φ) → List (Str × Doc)
  | [] => []
  | (k, v) :: es => (entryKey k, syntaxOf R v) :: entrySyntax R es

end

/-- `json.dumps(value)`, with the separators `", "` and `": "` and nothing but ASCII -/
def asciiDumps (R : OrmRuntime κ φ) (value : DataValue κ φ) : Except PyError Str :=
  (R.toJson value).map fun document => (R.syntaxOf document).write asciiEscape [' ']

/-- What `json.dumps` makes of a value: its ints have at most 4300 digits, its sequences are lists,
and the keys of its dicts are strings. -/
inductive Document : DataValue κ φ → Prop where
  | none : Document .none
  | bool : Document (.bool b)
  | int (h : (Nat.toDigits 10 n.natAbs).length ≤ maxStrDigits) : Document (.int n)
  | float : Document (.float x)
  | str : Document (.str s)
  | list (h : ∀ v ∈ items, Document v) : Document (.container .list items)
  | dict {entries : List (DataValue κ φ × DataValue κ φ)}
      (hkeys : ∀ e ∈ entries, ∃ s, e.1 = .str s) (h : ∀ e ∈ entries, Document e.2) :
      Document (.dict entries)

theorem document_toJson (h : R.toJson v = .ok d) : Document d := by
  induction v using DataValue.induction generalizing d with
  | none =>
    cases h
    exact .none
  | bool =>
    cases h
    exact .bool
  | int n =>
    rw [toJson, intText] at h
    split at h
    · next hdigits =>
      cases h
      exact .int hdigits
    · cases h
  | float =>
    cases h
    exact .float
  | str =>
    cases h
    exact .str
  | bytes => cases h
  | container kind items ih =>
    have hitems {ds : List (DataValue κ φ)} (hds : R.toJsonItems items = .ok ds) :
        Document (.container .list ds) := by
      refine .list fun d hd => ?_
      obtain ⟨v, hv, hvd⟩ := Traverse.partner (toJsonItems_ok.1 hds).flip hd
      exact ih v hv hvd
    cases kind with
    | list =>
      rw [toJson] at h
      obtain ⟨ds, hds, rfl⟩ := except_map_eq_ok.1 h
      exact hitems hds
    | tuple =>
      rw [toJson] at h
      obtain ⟨ds, hds, rfl⟩ := except_map_eq_ok.1 h
      exact hitems hds
    | set => cases h
    | frozenset => cases h
  | dict entries ih =>
    rw [toJson] at h
    obtain ⟨ds, hds, rfl⟩ := except_map_eq_ok.1 h
    have hpairs := (toJsonEntries_ok.1 hds).flip
    refine .dict (fun d hd => ?_) fun d hd => ?_
    · obtain ⟨e, _, ⟨text, _, htext⟩, _⟩ := Traverse.partner hpairs hd
      exact ⟨text, htext⟩
    · obtain ⟨e, he, _, hed⟩ := Traverse.partner hpairs hd
      exact (ih e he).2 hed
  | object => cases h

theorem itemSyntax_eq (items : List (DataValue κ φ)) :
    R.itemSyntax items = items.map R.syntaxOf := by
  induction items with
  | nil => rfl
  | cons v vs ih => rw [itemSyntax, ih, List.map_cons]

theorem entrySyntax_eq (entries : List (DataValue κ φ × DataValue κ φ)) :
    R.entrySyntax entries = entries.map fun e => (entryKey e.1, R.syntaxOf e.2) := by
  induction entries with
  | nil => rfl
  | cons e es ih => rw [entrySyntax, ih, List.map_cons]

theorem decimal_atom (n : Int) :
    decimal n ≠ [] ∧ ∀ c ∈ decimal n, JsonSyntax.isAtomChar c = true := by
  have hparts := numberParts_decimal n
  apply number_atom
  · rw [hparts]
    exact isNatural_toDigits _
  · rw [hparts]
    exact fun _ h => absurd h List.not_mem_nil

theorem Document.plain (hR : R.ReadsFloats) (h : Document d) : (R.syntaxOf d).Plain := by
  induction h with
  | none => exact .atom (by decide) (by decide)
  | @bool b =>
    cases b with
    | false => exact .atom (by decide) (by decide)
    | true => exact .atom (by decide) (by decide)
  | @int n => exact .atom (decimal_atom n).1 (decimal_atom n).2
  | @float x => exact .atom (hR x).atom.1 (hR x).atom.2
  | str => exact .str
  | list _ ih =>
    rw [syntaxOf, itemSyntax_eq]
    exact .list (List.forall_mem_map.2 ih)
  | dict _ _ ih =>
    rw [syntaxOf, entrySyntax_eq]
    exact .dict (List.forall_mem_map.2 ih)

theorem itemTexts_eq (items : List (DataValue κ φ)) :
    R.itemTexts items = items.map R.documentText := by
  induction items with
  | nil => rfl
  | cons v vs ih => rw [itemTexts, ih, List.map_cons]

theorem entryTexts_eq (entries : List (DataValue κ φ × DataValue κ φ)) :
    R.entryTexts entries = entries.map fun e =>
      R.documentText e.1 ++ ':' :: R.documentText e.2 := by
  induction entries with
  | nil => rfl
  | cons e es ih =>
    obtain ⟨k, v⟩ := e
    rw [entryTexts, ih, List.map_cons]

/-- The text of a document is how its syntax is written. -/
theorem Document.text_eq (h : Document d) :
    R.documentText d = (R.syntaxOf d).write escapeChar [] := by
  induction h with
  | none => rfl
  | bool => rfl
  | int => rfl
  | float => rfl
  | str => rfl
  | @list items _ ih =>
    have hitems : JsonSyntax.writeItems escapeChar [] (R.itemSyntax items) = R.itemTexts items := by
      rw [itemTexts_eq, itemSyntax_eq]
      exact JsonSyntax.writeItems_map.trans (List.map_congr_left fun v hv => (ih v hv).symm)
    rw [syntaxOf, Doc.write, hitems]
    rfl
  | @dict entries hkeys _ ih =>
    have hentries : JsonSyntax.writeEntries escapeChar [] (R.entrySyntax entries) =
        R.entryTexts entries := by
      rw [entryTexts_eq, entrySyntax_eq]
      refine JsonSyntax.writeEntries_map.trans (List.map_congr_left fun e he => ?_)
      obtain ⟨s, hs⟩ := hkeys e he
      rw [ih e he, hs]
      rfl
    rw [syntaxOf, Doc.write, hentries]
    rfl

theorem valuesOf_map {docs : List (DataValue κ φ)}
    (h : ∀ d ∈ docs, R.valueOf (R.syntaxOf d) = some d.lastKeys) :
    R.valuesOf (docs.map R.syntaxOf) = some (docs.map DataValue.lastKeys) := by
  induction docs with
  | nil => rfl
  | cons d docs ih =>
    rw [List.forall_mem_cons] at h
    rw [List.map_cons, Interpreter.valuesOf, h.1, ih h.2]
    rfl

theorem entriesOf_map {entries : List (DataValue κ φ × DataValue κ φ)}
    (hkeys : ∀ e ∈ entries, ∃ s, e.1 = .str s)
    (h : ∀ e ∈ entries, R.valueOf (R.syntaxOf e.2) = some e.2.lastKeys) :
    R.entriesOf (entries.map fun e => (entryKey e.1, R.syntaxOf e.2)) =
      some (entries.map fun e => (e.1, e.2.lastKeys)) := by
  induction entries with
  | nil => rfl
  | cons e entries ih =>
    obtain ⟨k, v⟩ := e
    rw [List.forall_mem_cons] at h hkeys
    obtain ⟨s, hs⟩ := hkeys.1
    cases hs
    have hv : R.valueOf (R.syntaxOf v) = some v.lastKeys := h.1
    rw [List.map_cons, Interpreter.entriesOf, hv, ih hkeys.2 h.2]
    rfl

/-- The value of a document is what is left of it when each dict keeps the last value for a key. -/
theorem Document.value (hR : R.ReadsFloats) (h : Document d) :
    R.valueOf (R.syntaxOf d) = some d.lastKeys := by
  induction h with
  | none => rfl
  | @bool b =>
    cases b with
    | false => rfl
    | true => rfl
  | int h =>
    rw [syntaxOf, Interpreter.valueOf, readAtom_decimal h]
    rfl
  | @float x =>
    rw [syntaxOf, Interpreter.valueOf, (hR x).readAtom]
    rfl
  | str => rfl
  | list _ ih =>
    rw [syntaxOf, itemSyntax_eq, Interpreter.valueOf, valuesOf_map ih, DataValue.lastKeys,
      DataValue.lastKeysItems_eq]
    rfl
  | dict hkeys _ ih =>
    rw [syntaxOf, entrySyntax_eq, Interpreter.valueOf, entriesOf_map hkeys ih, DataValue.lastKeys,
      DataValue.lastKeysEntries_eq]
    rfl

theorem Document.loads (hR : R.ReadsFloats) (h : Document d) {escape : Char → Str} {blank : Str}
    (hescape : Escaping escape) (hblank : ∀ c ∈ blank, JsonSyntax.isBlank c = true) :
    R.jsonLoads ((R.syntaxOf d).write escape blank) = .ok d.lastKeys := by
  rw [Interpreter.jsonLoads, JsonSyntax.parse_write hescape hblank (h.plain hR), Option.bind_some,
    h.value hR]

/-- `json.loads` reads what `json.dumps` has written. -/
theorem jsonLoads_documentText (hR : R.ReadsFloats) (h : R.toJson v = .ok d) :
    R.jsonLoads (R.documentText d) = .ok d.lastKeys := by
  have hd := document_toJson h
  rw [hd.text_eq]
  exact hd.loads hR escaping_escapeChar fun _ hc => absurd hc List.not_mem_nil

theorem jsonLoads_asciiDumps (hR : R.ReadsFloats) (h : R.asciiDumps v = .ok text) :
    ∃ d, R.toJson v = .ok d ∧ R.jsonLoads text = .ok d.lastKeys := by
  obtain ⟨d, hd, rfl⟩ := except_map_eq_ok.1 h
  have hblank : ∀ c ∈ [' '], JsonSyntax.isBlank c = true := by decide
  exact ⟨d, hd, (document_toJson hd).loads hR escaping_asciiEscape hblank⟩

/-- What `json.loads` makes of what `json.dumps` writes for the value. -/
def jsonCopy (R : OrmRuntime κ φ) (data : DataValue κ φ) : Except PyError (DataValue κ φ) :=
  (R.toJson data).map DataValue.lastKeys

theorem jsonCopy_eq_ok : R.jsonCopy data = .ok copy ↔
    ∃ d, R.toJson data = .ok d ∧ copy = d.lastKeys := by
  rw [jsonCopy, except_map_eq_ok]
  exact exists_congr fun d => and_congr_right fun _ => eq_comm

/-- A value that documents give back is its own copy. -/
theorem Storable.jsonCopy (h : R.Storable data) : R.jsonCopy data = .ok data := by
  rw [jsonCopy_eq_ok]
  exact ⟨data, h.toJson, h.lastKeys.symm⟩

end OrmRuntime

end Documents

/-- A class with a title and a list. -/
def starFields : List (DataField Unit Bool) :=
  [{ name := "title".toList, hint := .str },
    { name := "stars".toList, hint := .int, default := some (.int 0) }]

/-- An application with this class, where the only floats are 0.5 and 1.5. -/
def starInterpreter : Interpreter Unit Bool where
  fields := fun _ => starFields
  className := fun _ => "Note".toList
  isInstance := fun _ _ => false
  hashRule := fun _ => .never
  same := Interpreter.plainSame
  repr := fun _ => .error .valueError
  decimalDigit := fun _ => none
  truncate := fun x => .ok (if x then 1 else 0)
  floatOfInt := fun _ => none
  floatOfStr := fun s =>
    if s = "0.5".toList then some false else if s = "1.5".toList then some true else none
  isInteger := fun _ => false
  truncate_isInteger := fun h => absurd h Bool.false_ne_true

def starRuntime : OrmRuntime Unit Bool where
  toInterpreter := starInterpreter
  conv.convert
    | .text, .integer n => .text (decimal n)
    | _, v => v
  conv.equals := fun _ _ => false
  conv.reals := compare
  conv.mixed := fun n x => if n ≤ (if x then 1 else 0) then .lt else .gt
  isNaN := fun _ => false
  nonzero := fun _ => true
  floatText := fun x => if x then "1.5".toList else "0.5".toList
  loads
    | .str s => starInterpreter.jsonLoads s
    | _ => .error .typeError
  isAlnum := Char.isAlphanum
  reserved := fun name => name = "order".toList
  distinctNames := fun {_} => (by decide : ["title".toList, "stars".toList].Nodup)
  keepsBracket := fun {_ affinity _} _ => by
    cases affinity with
    | _ => rfl

theorem starRuntime_floats : starRuntime.ReadsFloats := by
  intro x
  cases x with
  | false => exact .finite (by decide) (by decide)
  | true => exact .finite (by decide) (by decide)

end Sovereign
