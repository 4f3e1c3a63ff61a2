import Mathlib.Data.Nat.Digits.Defs
import Mathlib.Tactic.IntervalCases

namespace Numeral
set_option autoImplicit true

/-- The value of a digit of either letter case in bases up to sixteen. -/
def digitVal (c : Char) : Option Nat :=
  if '0' ≤ c ∧ c ≤ '9' then some (c.toNat - 48)
  else if 'a' ≤ c ∧ c ≤ 'f' then some (c.toNat - 87)
  else if 'A' ≤ c ∧ c ≤ 'F' then some (c.toNat - 55)
  else none

/-- Read digits most significant first, continuing the number read so far. -/
def parseFrom (base acc : Nat) : List Char → Option Nat
  | [] => some acc
  | c :: cs =>
    match digitVal c with
    | some d => if d < base then parseFrom base (acc * base + d) cs else none
    | none => none

/-- The number written by a non-empty row of digits. -/
def parse (base : Nat) (s : List Char) : Option Nat :=
  if s = [] then none else parseFrom base 0 s

theorem parseFrom_append (base acc : Nat) (s t : List Char) :
    parseFrom base acc (s ++ t) = (parseFrom base acc s).bind fun n => parseFrom base n t := by
  induction s generalizing acc with
  | nil => rfl
  | cons c cs ih =>
    simp only [List.cons_append, parseFrom]
    split
    · split
      · exact ih _
      · rfl
    · rfl

theorem digitVal_digitChar {d : Nat} (h : d < 16) : digitVal (Nat.digitChar d) = some d := by
  interval_cases d <;> decide

theorem digitVal_toUpper {d : Nat} (h : d < 16) :
    digitVal (Nat.digitChar d).toUpper = some d := by
  interval_cases d <;> decide

/-- Any spelling of the digits of a printed number is read back as that number. -/
theorem parseFrom_toDigits {base : Nat} (spell : Char → Char) (hb : 1 < base) (hb' : base ≤ 16)
    (hs : ∀ d < 16, digitVal (spell (Nat.digitChar d)) = some d) (n : Nat) :
    parseFrom base 0 ((Nat.toDigits base n).map spell) = some n := by
  induction n using Nat.strong_induction_on with
  | _ n ih =>
    rw [Nat.toDigits_eq_if hb]
    by_cases hn : n < base
    · simp [hn, parseFrom, hs n (by omega)]
    · have hd : n / base < n := Nat.div_lt_self (by omega) hb
      have hm : n % base < base := Nat.mod_lt _ (by omega)
      simp only [hn, ↓reduceIte, List.map_append, List.map_cons, List.map_nil, parseFrom_append,
        ih _ hd, Option.bind_some, parseFrom, hs (n % base) (by omega), hm]
      rw [Nat.div_add_mod']

theorem parse_toDigits {base : Nat} (spell : Char → Char) (hb : 1 < base) (hb' : base ≤ 16)
    (hs : ∀ d < 16, digitVal (spell (Nat.digitChar d)) = some d) (n : Nat) :
    parse base ((Nat.toDigits base n).map spell) = some n := by
  rw [parse, if_neg (by simp)]
  exact parseFrom_toDigits spell hb hb' hs n

/-- Only digits of the base are read. -/
theorem digit_of_parseFrom {base acc n : Nat} {s : List Char}
    (h : parseFrom base acc s = some n) : ∀ c ∈ s, ∃ d < base, digitVal c = some d := by
  induction s generalizing acc with
  | nil => simp
  | cons c cs ih =>
    simp only [parseFrom] at h
    split at h
    · next d hd =>
      split at h
      · next hb =>
        intro x hx
        rcases List.mem_cons.1 hx with rfl | hx
        · exact ⟨d, hb, hd⟩
        · exact ih h x hx
      · cases h
    · cases h

theorem digit_of_parse {base n : Nat} {s : List Char} (h : parse base s = some n) :
    ∀ c ∈ s, ∃ d < base, digitVal c = some d := by
  simp only [parse] at h
  split at h
  · cases h
  · exact digit_of_parseFrom h

theorem isSome_digitVal_of_parse {base n : Nat} {s : List Char} (h : parse base s = some n) :
    ∀ c ∈ s, (digitVal c).isSome := by
  intro c hc
  obtain ⟨d, -, hd⟩ := digit_of_parse h c hc
  rw [hd]
  rfl

theorem toNat_of_digitVal {c : Char} {d : Nat} (h : digitVal c = some d) :
    c.toNat < 128 ∧ (d < 10 → '0' ≤ c ∧ c ≤ '9') := by
  simp only [digitVal] at h
  split at h
  · next hc =>
    have hc' : 48 ≤ c.toNat ∧ c.toNat ≤ 57 := hc
    exact ⟨by omega, fun _ => hc⟩
  · split at h
    · next hc =>
      have hc' : 97 ≤ c.toNat ∧ c.toNat ≤ 102 := hc
      simp only [Option.some.injEq] at h
      exact ⟨by omega, fun hd => by omega⟩
    · split at h
      · next hc =>
        have hc' : 65 ≤ c.toNat ∧ c.toNat ≤ 70 := hc
        simp only [Option.some.injEq] at h
        exact ⟨by omega, fun hd => by omega⟩
      · cases h

theorem ne_nil_of_parse {base n : Nat} {s : List Char} (h : parse base s = some n) : s ≠ [] := by
  rintro rfl
  cases h

end Numeral
