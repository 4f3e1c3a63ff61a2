import Sovereign.Lib.Dict
import Sovereign.Lib.Marker
import Mathlib.Data.List.DropRight

set_option autoImplicit true

/-! The cookies of one host that a user agent keeps until it is closed, whatever attributes they
were set with. -/

namespace Cookie

/-- `cookie-octet` -/
def isOctet (c : Char) : Bool :=
  decide (33 ≤ c.toNat ∧ c.toNat ≤ 126) && decide (c ∉ ['"', ',', ';', '\\'])

/-- A name and a value that the grammar allows. -/
def isPair (e : List Char × List Char) : Bool :=
  (e.1.all fun c => isOctet c && decide (c ≠ '=')) && e.2.all isOctet

def isBlank (c : Char) : Bool := decide (c ∈ [' ', '\t'])

def trim (s : List Char) : List Char := (s.dropWhile isBlank).rdropWhile isBlank

/-- The name and the value of the cookie that a `Set-Cookie` line sets. -/
def pairOf (line : List Char) : Option (List Char × List Char) :=
  (Marker.breakOn ['='] (line.takeWhile fun c => decide (c ≠ ';'))).map fun e =>
    (trim e.1, trim e.2)

def nameOf (line : List Char) : Option (List Char) := (pairOf line).map Prod.fst

/-- A cookie as a `Cookie` line shows it. -/
def text (e : List Char × List Char) : List Char := e.1 ++ '=' :: e.2

theorem octet_of_name {e : List Char × List Char} (h : isPair e = true) :
    ∀ c ∈ e.1, isOctet c = true ∧ c ≠ '=' := by
  intro c hc
  have hname := List.all_eq_true.1 (Bool.and_eq_true_iff.1 h).1 c hc
  exact ⟨(Bool.and_eq_true_iff.1 hname).1, of_decide_eq_true (Bool.and_eq_true_iff.1 hname).2⟩

theorem octet_of_value {e : List Char × List Char} (h : isPair e = true) :
    ∀ c ∈ e.2, isOctet c = true :=
  List.all_eq_true.1 (Bool.and_eq_true_iff.1 h).2

theorem octet_range {c : Char} (h : isOctet c = true) : 33 ≤ c.toNat ∧ c.toNat ≤ 126 :=
  of_decide_eq_true (Bool.and_eq_true_iff.1 h).1

theorem octet_ne_semicolon {c : Char} (h : isOctet c = true) : c ≠ ';' := by
  rintro rfl
  cases h

theorem octet_not_blank {c : Char} (h : isOctet c = true) : isBlank c = false := by
  rw [isBlank, decide_eq_false_iff_not]
  intro hc
  rcases List.mem_cons.1 hc with rfl | hc
  · cases h
  · rw [List.mem_singleton.1 hc] at h
    cases h

theorem trim_octets {s : List Char} (h : ∀ c ∈ s, isOctet c = true) : trim s = s := by
  have hfront : s.dropWhile isBlank = s := by
    cases s with
    | nil => rfl
    | cons c s =>
      apply List.dropWhile_cons_of_neg
      rw [octet_not_blank (h c List.mem_cons_self)]
      exact Bool.false_ne_true
  rw [trim, hfront, List.rdropWhile_eq_self_iff]
  intro hne
  rw [octet_not_blank (h _ (List.getLast_mem hne))]
  exact Bool.false_ne_true

theorem semicolon_not_mem_text {e : List Char × List Char} (h : isPair e = true) :
    ';' ∉ text e := by
  intro hmem
  rcases List.mem_append.1 hmem with hmem | hmem
  · exact octet_ne_semicolon (octet_of_name h _ hmem).1 rfl
  · rcases List.mem_cons.1 hmem with heq | hmem
    · cases heq
    · exact octet_ne_semicolon (octet_of_value h _ hmem) rfl

theorem breakOn_text {e : List Char × List Char} (h : isPair e = true) :
    Marker.breakOn ['='] (text e) = some e := by
  have hname : '=' ∉ e.1 := fun hmem => (octet_of_name h _ hmem).2 rfl
  have hbreak := Marker.breakOn_first (m := []) (a := e.2) hname
  rwa [List.append_assoc] at hbreak

/-- A pair that the grammar allows is read from the line as it was written, whatever attributes come
after it. -/
theorem pairOf_text {e : List Char × List Char} (h : isPair e = true) (attributes : List Char) :
    pairOf (text e ++ ';' :: attributes) = some e := by
  have htake : (text e ++ ';' :: attributes).takeWhile (fun c => decide (c ≠ ';')) = text e := by
    have hkeep : ∀ c ∈ text e, decide (c ≠ ';') = true := by
      intro c hc
      apply decide_eq_true
      rintro rfl
      exact semicolon_not_mem_text h hc
    rw [List.takeWhile_append_of_pos hkeep, List.takeWhile_cons_of_neg (by decide),
      List.append_nil]
  rw [pairOf, htake, breakOn_text h, Option.map_some,
    trim_octets fun c hc => (octet_of_name h c hc).1, trim_octets (octet_of_value h)]

/-- The parts of a list that is put together with two separators, where it is cut at the first. -/
theorem splitOn_joinPair [DecidableEq α] {a b : α} (hab : b ≠ a) {l : List α} {ls : List (List α)}
    (h : ∀ x ∈ l :: ls, a ∉ x) :
    (Marker.joinPair a b (l :: ls)).splitOn a = l :: ls.map (b :: ·) := by
  induction ls generalizing l with
  | nil => exact List.splitOn_eq_singleton (h l List.mem_cons_self)
  | cons l' ls ih =>
    have hrest := ih fun x hx => h x (List.mem_cons_of_mem l hx)
    have hjoin : Marker.joinPair a b (l :: l' :: ls) =
      l ++ a :: b :: Marker.joinPair a b (l' :: ls) := rfl
    rw [hjoin, List.splitOn_append_cons_self_of_not_mem (h l List.mem_cons_self),
      List.splitOn_cons_eq_if_modifyHead, if_neg (by simpa using hab), hrest]
    rfl

end Cookie

structure CookieJar where
  cookies : Dict (List Char) (List Char)
  clean : ∀ e ∈ cookies.entries, Cookie.isPair e = true

namespace CookieJar

theorem clean_set {cookies : Dict (List Char) (List Char)}
    (h : ∀ e ∈ cookies.entries, Cookie.isPair e = true) {e : List Char × List Char}
    (he : Cookie.isPair e = true) :
    ∀ e' ∈ (cookies.set e.1 e.2).entries, Cookie.isPair e' = true := by
  intro e' hmem
  rw [Dict.mem_entries_iff, Dict.get?_set] at hmem
  split at hmem
  · next hkey =>
    have heq : e' = e := Prod.ext hkey (Option.some.inj hmem).symm
    rwa [heq]
  · exact h e' (Dict.mem_entries_iff.2 hmem)

/-- Keep the cookie of a `Set-Cookie` line, if the grammar allows it. -/
def store (jar : CookieJar) (line : List Char) : CookieJar :=
  match Cookie.pairOf line with
  | some e =>
    if he : Cookie.isPair e = true then ⟨jar.cookies.set e.1 e.2, clean_set jar.clean he⟩ else jar
  | none => jar

/-- Keep the cookies of all the lines of a message. -/
def receive (jar : CookieJar) (lines : List (List Char)) : CookieJar := lines.foldl store jar

/-- The `Cookie` line of a message. -/
def header (jar : CookieJar) : List Char :=
  Marker.joinPair ';' ' ' (jar.cookies.entries.map Cookie.text)

def get? (jar : CookieJar) (name : List Char) : Option (List Char) := jar.cookies.get? name

variable {jar : CookieJar}

theorem get?_store (h : Cookie.pairOf line = some e) (he : Cookie.isPair e = true)
    (name : List Char) :
    (jar.store line).get? name = if name = e.1 then some e.2 else jar.get? name := by
  rw [store, h]
  simp only
  rw [dif_pos he]
  exact Dict.get?_set jar.cookies e.1 name e.2

/-- A line that is about another cookie. -/
theorem get?_store_other (h : Cookie.nameOf line ≠ some name) :
    (jar.store line).get? name = jar.get? name := by
  cases hpair : Cookie.pairOf line with
  | none => rw [store, hpair]
  | some e =>
    by_cases he : Cookie.isPair e = true
    · have hname : name ≠ e.1 := by
        rintro rfl
        rw [Cookie.nameOf, hpair] at h
        exact h rfl
      rw [get?_store hpair he, if_neg hname]
    · rw [store, hpair]
      simp only
      rw [dif_neg he]

theorem get?_receive_others (h : ∀ line ∈ lines, Cookie.nameOf line ≠ some name) :
    (jar.receive lines).get? name = jar.get? name := by
  induction lines generalizing jar with
  | nil => rfl
  | cons line lines ih =>
    have hrest := @ih (jar.store line) fun l hl => h l (List.mem_cons_of_mem line hl)
    exact hrest.trans (get?_store_other (h line List.mem_cons_self))

/-- Lines of which those about a cookie all set it to one value. -/
theorem get?_receive_value (he : Cookie.isPair (name, value) = true)
    (h : ∀ line ∈ lines, Cookie.nameOf line = some name → Cookie.pairOf line = some (name, value)) :
    (jar.receive lines).get? name =
      if ∃ line ∈ lines, Cookie.nameOf line = some name then some value else jar.get? name := by
  induction lines generalizing jar with
  | nil => rfl
  | cons line lines ih =>
    have hrest := @ih (jar.store line) fun l hl => h l (List.mem_cons_of_mem line hl)
    have hcons : jar.receive (line :: lines) = (jar.store line).receive lines := rfl
    rw [hcons, hrest]
    by_cases hname : Cookie.nameOf line = some name
    · have hstore : (jar.store line).get? name = some value := by
        rw [get?_store (h line List.mem_cons_self hname) he, if_pos rfl]
      rw [hstore, ite_self, if_pos ⟨line, List.mem_cons_self, hname⟩]
    · rw [get?_store_other hname]
      simp only [List.exists_mem_cons_iff, hname, false_or]

theorem get?_clean (h : jar.get? name = some value) : Cookie.isPair (name, value) = true :=
  jar.clean _ (Dict.mem_entries_iff.2 h)

/-- The parts of the line between its semicolons. -/
theorem splitOn_header (h : jar.cookies.entries = e :: rest) :
    jar.header.splitOn ';' = Cookie.text e :: rest.map fun e' => ' ' :: Cookie.text e' := by
  have hparts : ∀ x ∈ Cookie.text e :: rest.map Cookie.text, ';' ∉ x := by
    intro x hx
    rw [← List.map_cons, ← h] at hx
    obtain ⟨e', he', rfl⟩ := List.mem_map.1 hx
    exact Cookie.semicolon_not_mem_text (jar.clean e' he')
  rw [header, h, List.map_cons, Cookie.splitOn_joinPair (by decide) hparts, List.map_map]
  rfl

end CookieJar
