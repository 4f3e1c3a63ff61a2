import Sovereign.Lib.Lines
import Sovereign.Python

namespace Sovereign
set_option autoImplicit true

/-! `json.dumps(data, ensure_ascii=False)`. -/

/-- A value that has no parts; `φ` are the floats. -/
inductive JsonScalar (φ : Type) where
  | null
  | bool (b : Bool)
  | int (n : Int)
  | float (x : φ)
  | str (s : Str)

/-- A value that `json.dumps` takes. The keys of a dict may be scalars of any kind. -/
inductive JsonData (φ : Type) where
  | scalar (v : JsonScalar φ)
  | list (items : List (JsonData φ))
  | dict (entries : List (JsonScalar φ × JsonData φ))

/-- `ESCAPE_DCT`: quotes, backslashes and control characters are escaped. -/
def escapeChar (c : Char) : Str :=
  if c = '"' then "\\\"".toList
  else if c = '\\' then "\\\\".toList
  else if c = '\n' then "\\n".toList
  else if c = '\r' then "\\r".toList
  else if c = '\t' then "\\t".toList
  else if c = Char.ofNat 12 then "\\f".toList
  else if c = Char.ofNat 8 then "\\b".toList
  else if c.toNat < 32 then
    "\\u00".toList ++ [Nat.digitChar (c.toNat / 16), Nat.digitChar (c.toNat % 16)]
  else [c]

/-- `encode_basestring` -/
def encodeBasestring (s : Str) : Str := '"' :: (s.flatMap escapeChar ++ ['"'])

/-- The text of a scalar, as the key of a dict has it. -/
def JsonScalar.key (floatRepr : φ → Str) : JsonScalar φ → Str
  | null => "null".toList
  | bool b => if b then "true".toList else "false".toList
  | int n => decimal n
  | float x => floatRepr x
  | str s => s

def JsonScalar.dumps (floatRepr : φ → Str) : JsonScalar φ → Str
  | str s => encodeBasestring s
  | v => v.key floatRepr

def joinItems (items : List Str) : Str := ", ".toList.intercalate items

mutual

/-- `json.dumps(data, ensure_ascii=False)` -/
def JsonData.dumps (floatRepr : φ → Str) : JsonData φ → Str
  | .scalar v => v.dumps floatRepr
  | .list items => '[' :: (joinItems (dumpsItems floatRepr items) ++ [']'])
  | .dict entries => '\x7b' :: (joinItems (dumpsEntries floatRepr entries) ++ ['\x7d'])

def JsonData.dumpsItems (floatRepr : φ → Str) : List (JsonData φ) → List Str
  | [] => []
  | item :: items => item.dumps floatRepr :: dumpsItems floatRepr items

def JsonData.dumpsEntries (floatRepr : φ → Str) : List (JsonScalar φ × JsonData φ) → List Str
  | [] => []
  | (k, v) :: entries =>
    (encodeBasestring (k.key floatRepr) ++ ": ".toList ++ v.dumps floatRepr) ::
      dumpsEntries floatRepr entries

end

/-! The text stands on one line, whatever the strings in the value are. -/

theorem escapeChar_within (c : Char) : Lines.Within '\r' '\n' (escapeChar c) := by
  have hdigit : ∀ n < 16, Nat.digitChar n ≠ '\r' ∧ Nat.digitChar n ≠ '\n' := by decide
  unfold escapeChar
  split
  · decide
  · split
    · decide
    · split
      · decide
      · next hlf =>
        split
        · decide
        · next hcr =>
          repeat' (split <;> try decide)
          · have hfirst := hdigit (c.toNat / 16) (by omega)
            have hsecond := hdigit (c.toNat % 16) (by omega)
            exact .append (by decide) (.cons hfirst (.cons hsecond Lines.within_nil))
          · exact .cons ⟨hcr, hlf⟩ Lines.within_nil

theorem encodeBasestring_within (s : Str) : Lines.Within '\r' '\n' (encodeBasestring s) := by
  have hs : Lines.Within '\r' '\n' (s.flatMap escapeChar) := by
    induction s with
    | nil => exact Lines.within_nil
    | cons c s ih =>
      rw [List.flatMap_cons]
      exact (escapeChar_within c).append ih
  exact .cons (by decide) (hs.append (by decide))

theorem toDigits_within (n : Nat) : Lines.Within '\r' '\n' (Nat.toDigits 10 n) := by
  constructor
  · intro hc
    have hdigit := Nat.isDigit_of_mem_toDigits (by decide) (by decide) hc
    revert hdigit
    decide
  · intro hc
    have hdigit := Nat.isDigit_of_mem_toDigits (by decide) (by decide) hc
    revert hdigit
    decide

theorem decimal_within (n : Int) : Lines.Within '\r' '\n' (decimal n) := by
  cases n with
  | ofNat n => exact toDigits_within n
  | negSucc n => exact .cons (by decide) (toDigits_within _)

variable {floatRepr : φ → Str}

theorem JsonScalar.dumps_within (hfloat : ∀ x, Lines.Within '\r' '\n' (floatRepr x))
    (v : JsonScalar φ) : Lines.Within '\r' '\n' (v.dumps floatRepr) := by
  cases v with
  | null => exact (by decide : Lines.Within '\r' '\n' "null".toList)
  | bool b =>
    cases b with
    | false => exact (by decide : Lines.Within '\r' '\n' "false".toList)
    | true => exact (by decide : Lines.Within '\r' '\n' "true".toList)
  | int n => exact decimal_within n
  | float x => exact hfloat x
  | str s => exact encodeBasestring_within s

theorem joinItems_within {items : List Str} (h : ∀ item ∈ items, Lines.Within '\r' '\n' item) :
    Lines.Within '\r' '\n' (joinItems items) := by
  induction items with
  | nil => exact Lines.within_nil
  | cons item items ih =>
    have hrest := ih fun i hi => h i (List.mem_cons_of_mem item hi)
    have hitem := h item List.mem_cons_self
    rw [joinItems] at hrest ⊢
    cases items with
    | nil =>
      rw [List.intercalate_singleton]
      exact hitem
    | cons i items =>
      rw [List.intercalate_cons_cons]
      exact .append (.append hitem (by decide)) hrest

mutual

theorem JsonData.dumps_within (hfloat : ∀ x, Lines.Within '\r' '\n' (floatRepr x)) :
    ∀ data : JsonData φ, Lines.Within '\r' '\n' (data.dumps floatRepr)
  | .scalar v => v.dumps_within hfloat
  | .list items => by
    rw [dumps]
    exact .cons (by decide) (.append (joinItems_within (dumpsItems_within hfloat items)) (by decide))
  | .dict entries => by
    rw [dumps]
    exact .cons (by decide) (.append (joinItems_within (dumpsEntries_within hfloat entries)) (by decide))

theorem JsonData.dumpsItems_within (hfloat : ∀ x, Lines.Within '\r' '\n' (floatRepr x)) :
    ∀ items : List (JsonData φ), ∀ text ∈ dumpsItems floatRepr items,
      Lines.Within '\r' '\n' text
  | [], text, h => by cases h
  | item :: items, text, h => by
    rw [dumpsItems] at h
    rcases List.mem_cons.1 h with rfl | h
    · exact item.dumps_within hfloat
    · exact dumpsItems_within hfloat items text h

theorem JsonData.dumpsEntries_within (hfloat : ∀ x, Lines.Within '\r' '\n' (floatRepr x)) :
    ∀ entries : List (JsonScalar φ × JsonData φ), ∀ text ∈ dumpsEntries floatRepr entries,
      Lines.Within '\r' '\n' text
  | [], text, h => by cases h
  | (k, v) :: entries, text, h => by
    rw [dumpsEntries] at h
    rcases List.mem_cons.1 h with rfl | h
    · have hvalue := v.dumps_within hfloat
      have hsep : Lines.Within '\r' '\n' ": ".toList := by decide
      exact .append (.append (encodeBasestring_within _) hsep) hvalue
    · exact dumpsEntries_within hfloat entries text h

end

end Sovereign
