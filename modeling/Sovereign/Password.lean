import Sovereign.ByteRanges
import Sovereign.JwtRoundTrip
import Sovereign.Lib.Traverse
import Mathlib.Algebra.Order.Ring.Int

namespace Sovereign
set_option autoImplicit true

/-- What a digest is made with, beside the password and the salt. -/
structure ScryptCost where
  n : Int
  r : Int
  p : Int
  dklen : Int

structure ScryptParams extends ScryptCost where
  n := 2 ^ 14
  r := 8
  p := 1
  dklen := 64
  saltBytes : Int := 32
  maxmem : Int := 64 * 1024 * 1024

namespace ScryptCost

/-- Whether `hashlib.scrypt` makes a digest at this cost in so much memory. -/
def Fits (cost : ScryptCost) (maxmem : Int) : Prop :=
  1 < cost.n ∧ cost.n.toNat.isPowerOfTwo ∧ 128 * cost.r * (cost.n + cost.p + 2) ≤ maxmem ∧
    0 < maxmem ∧ maxmem ≤ 2 ^ 31 - 1

instance (cost : ScryptCost) (maxmem : Int) : Decidable (cost.Fits maxmem) :=
  inferInstanceAs (Decidable (_ ∧ _ ∧ _ ∧ _ ∧ _))

/-- The memory that `verify_password` asks for. -/
def verifyMemory (cost : ScryptCost) : Int :=
  max (64 * 1024 * 1024) (cost.n * cost.r * cost.p * 256)

def items (cost : ScryptCost) : List (Str × Int) :=
  [("n".toList, cost.n), ("r".toList, cost.r), ("p".toList, cost.p), ("dklen".toList, cost.dklen)]

end ScryptCost

/-- A password. -/
inductive PlainText where
  | str (s : Str)
  | bytes (b : Bytes)

def PlainText.encode : PlainText → Bytes
  | str s => utf8 s
  | bytes b => b

/-- `f"{n}"`, which fails on a number of too many digits. -/
def formatInt (n : Int) : Option Str :=
  if (Nat.toDigits 10 n.natAbs).length ≤ maxStrDigits then some (decimal n) else none

/-- `key=value` -/
def writeParam (item : Str × Int) : Option Str := (formatInt item.2).map fun s => item.1 ++ '=' :: s

/-- The parameters, with commas between them. -/
def writeParams (items : List (Str × Int)) : Option Str :=
  (items.mapM writeParam).map [','].intercalate

/-- `dict(part.split("=", 1) for part in text.split(","))` -/
def readParams (text : Str) : Option (Dict Str Str) :=
  ((text.splitOn ',').mapM (splitFirst '=')).map (∅ : Dict Str Str).update

/-- `int(parsed[key])` -/
def param (parsed : Dict Str Str) (key : Str) : Option Int := (parsed.get? key).bind Json.intOfStr

structure HashedPassword where
  scheme : Str
  paramText : Str
  salt : Str
  digest : Str

/-- `_, scheme, param_text, salt, digest = hashed.split("$", 4)` -/
def splitHash (hashed : Str) : Option HashedPassword := do
  let (_, rest) ← splitFirst '$' hashed
  let (scheme, rest) ← splitFirst '$' rest
  let (paramText, rest) ← splitFirst '$' rest
  let (salt, digest) ← splitFirst '$' rest
  some { scheme, paramText, salt, digest }

/-- The cost that a string names. -/
def readCost (paramText : Str) : Option ScryptCost := do
  let parsed ← readParams paramText
  let n ← param parsed "n".toList
  let r ← param parsed "r".toList
  let p ← param parsed "p".toList
  let dklen ← param parsed "dklen".toList
  some { n, r, p, dklen }

section

variable (derive : Bytes → Bytes → ScryptCost → Bytes)

/-- `hashlib.scrypt` -/
def scrypt (plain salt : Bytes) (cost : ScryptCost) (maxmem : Int) : Option Bytes :=
  if cost.Fits maxmem then some (derive plain salt cost) else none

/-- `none` is an exception. -/
def hashPassword (urandom : Nat → Bytes) (plain : PlainText) (params : ScryptParams) :
    Option Str := do
  guard (0 ≤ params.saltBytes)
  let salt := urandom params.saltBytes.toNat
  let digest ← scrypt derive plain.encode salt params.toScryptCost params.maxmem
  let text ← writeParams params.items
  some ('$' :: ("scrypt".toList ++ '$' :: (text ++ '$' :: (b64e salt ++ '$' :: b64e digest))))

def verifyPassword (plain : PlainText) (hashed : Str) : Bool :=
  let verified : Option Bool := do
    let parts ← splitHash hashed
    if parts.scheme ≠ "scrypt".toList then
      return false
    let cost ← readCost parts.paramText
    let salt ← b64d parts.salt
    let expected ← b64d parts.digest
    let actual ← scrypt derive plain.encode salt cost cost.verifyMemory
    return actual = expected
  verified.getD false

end

/-- `any(int(parsed[k]) != v for k, v in items)`, which stops at the first difference. -/
def anyDiffers (parsed : Dict Str Str) : List (Str × Int) → Option Bool
  | [] => some false
  | (k, v) :: items => do
    let n ← param parsed k
    if n ≠ v then some true else anyDiffers parsed items

def needsRehash (hashed : Str) (params : ScryptParams) : Bool :=
  let stale : Option Bool := do
    let parts ← splitHash hashed
    if parts.scheme ≠ "scrypt".toList then
      return true
    let parsed ← readParams parts.paramText
    anyDiffers parsed params.items
  stale.getD true

theorem writes_toDigits (h : (Nat.toDigits 10 n).length ≤ maxStrDigits) :
    Writes (Nat.toDigits 10 n) n :=
  ⟨h, parse_decimal n⟩

theorem intOfStr_neg (h : Writes s n) : Json.intOfStr ('-' :: s) = some (-(n : Int)) := by
  have hstrip : strip Json.isIntSpace ('-' :: s) = '-' :: s := by
    apply strip_eq_self
    intro c hc
    rcases List.mem_cons.1 hc with rfl | hc
    · rfl
    · obtain ⟨hlow, hhigh⟩ := h.digit hc
      have hlow' : 48 ≤ c.toNat := hlow
      have hhigh' : c.toNat ≤ 57 := hhigh
      apply decide_eq_false
      omega
  rw [Json.intOfStr]
  dsimp only
  rw [hstrip]
  exact congrArg (Option.map fun n : Nat => -Int.ofNat n) h.unsigned_eq

/-- A number that can be printed is read again. -/
theorem intOfStr_formatInt (h : formatInt n = some s) : Json.intOfStr s = some n := by
  rw [formatInt] at h
  split at h
  · next hlength =>
    cases h
    cases n with
    | ofNat n => exact (writes_toDigits hlength).intOfStr_eq
    | negSucc n => exact intOfStr_neg (writes_toDigits hlength)
  · cases h

/-- A printed number consists of digits, after a sign at most. -/
theorem not_mem_formatInt (h : formatInt n = some s) (hc : ¬ ('0' ≤ c ∧ c ≤ '9'))
    (hsign : c ≠ '-') : c ∉ s := by
  rw [formatInt] at h
  split at h
  · next hlength =>
    cases h
    cases n with
    | ofNat n => exact (writes_toDigits hlength).not_mem hc
    | negSucc n =>
      intro hmem
      rcases List.mem_cons.1 hmem with rfl | hmem
      · exact hsign rfl
      · exact (writes_toDigits hlength).not_mem hc hmem
  · cases h

section

variable {items : List (Str × Int)}

/-- No piece contains a mark that is in no key. -/
theorem not_mem_parts (hc : ¬ ('0' ≤ c ∧ c ≤ '9') ∧ c ≠ '-' ∧ c ≠ '=')
    (hkeys : ∀ item ∈ items, c ∉ item.1) (h : items.mapM writeParam = some parts) :
    ∀ part ∈ parts, c ∉ part := by
  rw [Traverse.option_iff] at h
  induction h with
  | nil => exact fun part hpart => absurd hpart List.not_mem_nil
  | cons hpart _ ih =>
    rw [List.forall_mem_cons] at hkeys ⊢
    refine ⟨?_, ih hkeys.2⟩
    obtain ⟨s, hs, rfl⟩ := Option.map_eq_some_iff.1 hpart
    rw [List.mem_append, List.mem_cons]
    rintro (hmem | hmem | hmem)
    · exact hkeys.1 hmem
    · exact hc.2.2 hmem
    · exact not_mem_formatInt hs hc.1 hc.2.1 hmem

/-- The pieces that are written, as they are read. -/
theorem readParts (hkeys : ∀ item ∈ items, '=' ∉ item.1) (h : items.mapM writeParam = some parts) :
    parts.length = items.length ∧ ∃ pairs : List (Str × Str),
      parts.mapM (splitFirst '=') = some pairs ∧ pairs.map Prod.fst = items.map Prod.fst ∧
        ∀ key, (Dict.assoc pairs key).bind Json.intOfStr = Dict.assoc items key := by
  rw [Traverse.option_iff] at h
  refine ⟨h.length_eq.symm, ?_⟩
  induction h with
  | nil => exact ⟨[], rfl, rfl, fun key => rfl⟩
  | @cons item part _ _ hpart _ ih =>
    rw [List.forall_mem_cons] at hkeys
    obtain ⟨s, hs, rfl⟩ := Option.map_eq_some_iff.1 hpart
    obtain ⟨pairs, hpairs, hfst, hread⟩ := ih hkeys.2
    refine ⟨(item.1, s) :: pairs, ?_, ?_, ?_⟩
    · rw [List.mapM_cons, splitFirst_append hkeys.1, hpairs]
      rfl
    · rw [List.map_cons, List.map_cons, hfst]
    · intro key
      rw [Dict.assoc_cons, Dict.assoc_cons]
      split
      · exact intOfStr_formatInt hs
      · exact hread key

/-- The items that are written are found again. -/
theorem readParams_writeParams (hcomma : ∀ item ∈ items, ',' ∉ item.1)
    (hequals : ∀ item ∈ items, '=' ∉ item.1) (hnodup : (items.map Prod.fst).Nodup)
    (hne : items ≠ []) (h : writeParams items = some text) :
    ∃ parsed, readParams text = some parsed ∧ ∀ key, param parsed key = Dict.assoc items key := by
  obtain ⟨parts, hparts, rfl⟩ := Option.map_eq_some_iff.1 h
  obtain ⟨hlength, pairs, hpairs, hfst, hread⟩ := readParts hequals hparts
  have hclean := not_mem_parts (by decide) hcomma hparts
  have hsome : parts ≠ [] := by
    rintro rfl
    exact hne (List.length_eq_zero_iff.1 hlength.symm)
  refine ⟨(∅ : Dict Str Str).update pairs, ?_, fun key => ?_⟩
  · rw [readParams, List.splitOn_intercalate ',' hclean hsome, hpairs]
    rfl
  · rw [param, Dict.get?_update_nodup _ (hfst ▸ hnodup), Dict.get?_empty, Option.or_none, hread]

/-- The sign that ends the parameters is not in them. -/
theorem not_mem_writeParams (hkeys : ∀ item ∈ items, '$' ∉ item.1)
    (h : writeParams items = some text) : '$' ∉ text := by
  obtain ⟨parts, hparts, rfl⟩ := Option.map_eq_some_iff.1 h
  intro hmem
  rcases Marker.mem_intercalate hmem with hsep | ⟨part, hpart, hin⟩
  · exact absurd hsep (by decide)
  · exact not_mem_parts (by decide) hkeys hparts part hpart hin

end

namespace ScryptCost

variable {cost : ScryptCost}

theorem readParams_items (h : writeParams cost.items = some text) :
    ∃ parsed, readParams text = some parsed ∧
      ∀ key, param parsed key = Dict.assoc cost.items key := by
  apply readParams_writeParams _ _ _ (List.cons_ne_nil _ _) h
  · simp
  · simp
  · simp

theorem readCost_writeParams (h : writeParams cost.items = some text) :
    readCost text = some cost := by
  obtain ⟨parsed, hparsed, hparam⟩ := readParams_items h
  rw [readCost, hparsed]
  simp only [Option.bind_eq_bind, Option.bind_some, hparam]
  rfl

end ScryptCost

theorem splitHash_parts (hscheme : '$' ∉ scheme) (htext : '$' ∉ text) (hsalt : '$' ∉ salt)
    (digest : Str) :
    splitHash ('$' :: (scheme ++ '$' :: (text ++ '$' :: (salt ++ '$' :: digest)))) =
      some ⟨scheme, text, salt, digest⟩ := by
  have hstart (rest : Str) : splitFirst '$' ('$' :: rest) = some ([], rest) :=
    splitFirst_append List.not_mem_nil rest
  rw [splitHash, hstart]
  simp only [Option.bind_eq_bind, Option.bind_some, splitFirst_append hscheme,
    splitFirst_append htext, splitFirst_append hsalt]

/-- Parameters that can all be read are compared one by one. -/
theorem anyDiffers_eq {items : List (Str × Int)} (value : Str → Int)
    (h : ∀ item ∈ items, param parsed item.1 = some (value item.1)) :
    anyDiffers parsed items = some (items.any fun item => decide (value item.1 ≠ item.2)) := by
  induction items with
  | nil => rfl
  | cons item items ih =>
    have hrest := ih fun item hitem => h item (List.mem_cons_of_mem _ hitem)
    rw [anyDiffers, h item List.mem_cons_self, List.any_cons]
    by_cases hne : value item.1 = item.2
    · simp [hne, hrest]
    · simp [hne]

/-- How a string came about that `hash_password` returned. -/
structure Hashes (derive : Bytes → Bytes → ScryptCost → Bytes) (plain : PlainText)
    (cost : ScryptCost) (salt : Bytes) (text hashed : Str) : Prop where
  power : 1 < cost.n ∧ cost.n.toNat.isPowerOfTwo
  written : writeParams cost.items = some text
  split : splitHash hashed =
    some ⟨"scrypt".toList, text, b64e salt, b64e (derive plain.encode salt cost)⟩

section

variable {derive : Bytes → Bytes → ScryptCost → Bytes}

theorem hashPassword_eq_some {urandom : Nat → Bytes} {plain : PlainText} {params : ScryptParams}
    (h : hashPassword derive urandom plain params = some hashed) :
    ∃ text, Hashes derive plain params.toScryptCost (urandom params.saltBytes.toNat) text
      hashed := by
  obtain ⟨-, -, h⟩ := Option.bind_eq_some_iff.1 h
  obtain ⟨digest, hdigest, h⟩ := Option.bind_eq_some_iff.1 h
  obtain ⟨text, htext, h⟩ := Option.bind_eq_some_iff.1 h
  cases h
  rw [scrypt] at hdigest
  split at hdigest
  · next hfits =>
    cases hdigest
    have hdollar : '$' ∉ text := not_mem_writeParams (by simp [ScryptCost.items]) htext
    exact ⟨text, ⟨hfits.1, hfits.2.1⟩, htext,
      splitHash_parts (by decide) hdollar (not_mem_b64e rfl _) _⟩
  · cases hdigest

namespace Hashes

variable {plain : PlainText} {cost : ScryptCost}

/-- The password is verified just if the memory that is asked for is enough, and can be had. -/
theorem verify_iff (h : Hashes derive plain cost salt text hashed) :
    verifyPassword derive plain hashed = true ↔
      128 * cost.r * (cost.n + cost.p + 2) ≤ cost.verifyMemory ∧
        cost.verifyMemory ≤ 2 ^ 31 - 1 := by
  have hmemory : 0 < cost.verifyMemory := lt_max_of_lt_left (by decide)
  have hfits : cost.Fits cost.verifyMemory ↔
      128 * cost.r * (cost.n + cost.p + 2) ≤ cost.verifyMemory ∧
        cost.verifyMemory ≤ 2 ^ 31 - 1 :=
    ⟨fun hf => ⟨hf.2.2.1, hf.2.2.2.2⟩, fun hf => ⟨h.power.1, h.power.2, hf.1, hmemory, hf.2⟩⟩
  rw [← hfits, verifyPassword, h.split]
  simp only [Option.bind_eq_bind, Option.bind_some, ne_eq, not_true_eq_false, ↓reduceIte,
    ScryptCost.readCost_writeParams h.written, b64d_b64e, scrypt]
  split
  · next hf => simp [hf]
  · next hf => simp [hf]

/-- A string is stale just if it was made at another cost. -/
theorem needsRehash_iff (h : Hashes derive plain cost salt text hashed) (other : ScryptParams) :
    needsRehash hashed other = true ↔
      cost.n ≠ other.n ∨ cost.r ≠ other.r ∨ cost.p ≠ other.p ∨ cost.dklen ≠ other.dklen := by
  obtain ⟨parsed, hparsed, hparam⟩ := ScryptCost.readParams_items h.written
  have hread : ∀ item ∈ other.items,
      param parsed item.1 = some ((Dict.assoc cost.items item.1).getD 0) := by
    intro item hitem
    rw [hparam]
    simp only [ScryptCost.items, List.mem_cons, List.not_mem_nil, or_false] at hitem
    rcases hitem with rfl | rfl | rfl | rfl <;> rfl
  rw [needsRehash, h.split]
  simp only [Option.bind_eq_bind, Option.bind_some, ne_eq, not_true_eq_false, ↓reduceIte, hparsed,
    anyDiffers_eq (fun key => (Dict.assoc cost.items key).getD 0) hread, Option.getD_some]
  change (decide (cost.n ≠ other.n) || (decide (cost.r ≠ other.r) || (decide (cost.p ≠ other.p) ||
    (decide (cost.dklen ≠ other.dklen) || false)))) = true ↔ _
  simp only [Bool.or_eq_true, decide_eq_true_eq, Bool.false_eq_true, or_false]

end Hashes

end

/-- What is expected of a string that stands for a password. -/
structure RoundTrips (derive : Bytes → Bytes → ScryptCost → Bytes) (plain : PlainText)
    (params : ScryptParams) (hashed : Str) : Prop where
  verifies : verifyPassword derive plain hashed = true
  current : needsRehash hashed params = false
  stale : ∀ other : ScryptParams, needsRehash hashed other = true ↔
    params.n ≠ other.n ∨ params.r ≠ other.r ∨ params.p ≠ other.p ∨ params.dklen ≠ other.dklen

/-- A password that was hashed is verified just if the memory that the verifier asks for is enough
for its cost, and no more than can be had. -/
theorem roundTrips_iff (derive : Bytes → Bytes → ScryptCost → Bytes) (urandom : Nat → Bytes)
    (plain : PlainText) (params : ScryptParams) (hashed : Str)
    (h : hashPassword derive urandom plain params = some hashed) :
    RoundTrips derive plain params hashed ↔
      params.n * params.r * params.p * 256 ≤ 2 ^ 31 - 1 ∧
        128 * params.r * (params.n + params.p + 2) ≤
          max (64 * 1024 * 1024) (params.n * params.r * params.p * 256) := by
  obtain ⟨text, hhashes⟩ := hashPassword_eq_some h
  have hstale := hhashes.needsRehash_iff
  have hcurrent : needsRehash hashed params = false := by
    rw [Bool.eq_false_iff, ne_eq, hstale]
    simp
  have hbound : params.verifyMemory ≤ 2 ^ 31 - 1 ↔
      params.n * params.r * params.p * 256 ≤ 2 ^ 31 - 1 :=
    max_le_iff.trans (and_iff_right (by decide))
  rw [← hbound, and_comm]
  exact ⟨fun hround => hhashes.verify_iff.1 hround.verifies,
    fun hmemory => ⟨hhashes.verify_iff.2 hmemory, hcurrent, hstale⟩⟩

/-- The digests of the password `pw` without a salt, of four bytes at two costs. -/
def sampleDerive (_ _ : Bytes) (cost : ScryptCost) : Bytes :=
  if cost.p = 64 then [145, 222, 198, 35] else [40, 117, 254, 196]

/-- At a low cost the memory is enough. -/
theorem roundTrips_iff_cheap :
    RoundTrips sampleDerive (.str "pw".toList)
        { n := 2, r := 1, p := 1, dklen := 4, saltBytes := 0 }
        "$scrypt$n=2,r=1,p=1,dklen=4$$KHX-xA".toList ↔
      (2 * 1 * 1 * 256 : Int) ≤ 2 ^ 31 - 1 ∧
        (128 * 1 * (2 + 1 + 2) : Int) ≤ max (64 * 1024 * 1024) (2 * 1 * 1 * 256) :=
  roundTrips_iff sampleDerive (fun k => List.replicate k 0) (.str "pw".toList)
    { n := 2, r := 1, p := 1, dklen := 4, saltBytes := 0 } _ (by decide +kernel)

/-- At the usual cost and a higher parallelization the verifier asks for more memory than can be
had, so that the password is refused. -/
theorem parallel_refused :
    hashPassword sampleDerive (fun k => List.replicate k 0) (.str "pw".toList)
        { p := 64, dklen := 4, saltBytes := 0 } =
          some "$scrypt$n=16384,r=8,p=64,dklen=4$$kd7GIw".toList ∧
      ¬ RoundTrips sampleDerive (.str "pw".toList) { p := 64, dklen := 4, saltBytes := 0 }
        "$scrypt$n=16384,r=8,p=64,dklen=4$$kd7GIw".toList := by
  have hrefused : verifyPassword sampleDerive (.str "pw".toList)
      "$scrypt$n=16384,r=8,p=64,dklen=4$$kd7GIw".toList = false := by decide +kernel
  refine ⟨by decide +kernel, fun hround => ?_⟩
  rw [hround.verifies] at hrefused
  cases hrefused

end Sovereign
