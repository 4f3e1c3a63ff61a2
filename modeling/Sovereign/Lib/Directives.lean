import Sovereign.Lib.CookieJar

set_option autoImplicit true

/-! Directives as text, each a name and its values: `name value value; name value`. -/

namespace Directives

section Words

variable {space : α → Bool}

/-- What stands between the spaces of a text. -/
def words (space : α → Bool) (s : List α) : List (List α) :=
  (s.splitOnP space).filter fun w => !w.isEmpty

def IsWord (space : α → Bool) (w : List α) : Prop := w ≠ [] ∧ ∀ c ∈ w, space c = false

theorem IsWord.kept {w : List α} (h : IsWord space w) : (!w.isEmpty) = true := by
  rw [Bool.not_eq_true', List.isEmpty_eq_false_iff]
  exact h.1

theorem words_space (hb : space b = true) (s : List α) :
    words space (b :: s) = words space s := by
  have hsplit : (b :: s).splitOnP space = [] :: s.splitOnP space :=
    List.splitOnP_append_cons_of_forall_mem (List.forall_mem_nil _) b hb s
  rw [words, hsplit, List.filter_cons_of_neg (by exact Bool.false_ne_true)]
  rfl

theorem words_word {w : List α} (hw : IsWord space w) (hb : space b = true) (s : List α) :
    words space (w ++ b :: s) = w :: words space s := by
  rw [words, List.splitOnP_append_cons_of_forall_mem hw.2 b hb s,
    List.filter_cons_of_pos (by exact hw.kept)]
  rfl

theorem words_one {w : List α} (hw : IsWord space w) : words space w = [w] := by
  rw [words, List.splitOnP_eq_singleton hw.2, List.filter_cons_of_pos (by exact hw.kept),
    List.filter_nil]

theorem words_intercalate {ws : List (List α)} (hb : space b = true)
    (h : ∀ w ∈ ws, IsWord space w) : words space ([b].intercalate ws) = ws := by
  induction ws with
  | nil => rfl
  | cons w ws ih =>
    have hw := h w List.mem_cons_self
    cases ws with
    | nil => rw [List.intercalate_singleton, words_one hw]
    | cons w' ws =>
      have hrest := ih fun v hv => h v (List.mem_cons_of_mem w hv)
      rw [List.intercalate_cons_cons, List.append_assoc, List.singleton_append,
        words_word hw hb, hrest]

end Words

variable {space : α → Bool} {a b : α} {e : List α × List (List α)}

def writeOne (b : α) (e : List α × List (List α)) : List α := e.1 ++ b :: [b].intercalate e.2

/-- The text of some directives, with `a` and `b` between them. -/
def write (a b : α) (directives : List (List α × List (List α))) : List α :=
  [a, b].intercalate (directives.map (writeOne b))

/-- A part of the text without words is no directive. -/
def readOne (space : α → Bool) (part : List α) : Option (List α × List (List α)) :=
  match words space part with
  | [] => none
  | name :: values => some (name, values)

def read [DecidableEq α] (space : α → Bool) (a : α) (s : List α) : List (List α × List (List α)) :=
  (s.splitOn a).filterMap (readOne space)

/-- The name and the values are words without the character that ends a directive. -/
def Clean (space : α → Bool) (a : α) (e : List α × List (List α)) : Prop :=
  ∀ w ∈ e.1 :: e.2, IsWord space w ∧ a ∉ w

theorem readOne_writeOne (hb : space b = true) (h : Clean space a e) :
    readOne space (writeOne b e) = some e := by
  have hname := (h e.1 List.mem_cons_self).1
  have hvalues : ∀ v ∈ e.2, IsWord space v := fun v hv => (h v (List.mem_cons_of_mem _ hv)).1
  rw [readOne, writeOne, words_word hname hb, words_intercalate hb hvalues]

theorem readOne_space (hb : space b = true) (part : List α) :
    readOne space (b :: part) = readOne space part := by
  rw [readOne, words_space hb, readOne]

theorem not_mem_writeOne (hab : a ≠ b) (h : Clean space a e) : a ∉ writeOne b e := by
  rw [writeOne, List.mem_append, List.mem_cons, not_or, not_or]
  refine ⟨(h e.1 List.mem_cons_self).2, hab, fun hmem => ?_⟩
  rcases Marker.mem_intercalate hmem with hsep | ⟨v, hv, hin⟩
  · exact hab hsep
  · exact (h v (List.mem_cons_of_mem _ hv)).2 hin

theorem joinPair_eq (a b : α) (parts : List (List α)) :
    Marker.joinPair a b parts = [a, b].intercalate parts := by
  induction parts with
  | nil => rfl
  | cons part parts ih =>
    cases parts with
    | nil => exact List.intercalate_singleton.symm
    | cons part' parts =>
      rw [List.intercalate_cons_cons, ← ih, List.append_assoc]
      rfl

/-- Directives are read as they were written. -/
theorem read_write [DecidableEq α] {directives : List (List α × List (List α))}
    (hb : space b = true) (hab : a ≠ b) (h : ∀ e ∈ directives, Clean space a e) :
    read space a (write a b directives) = directives := by
  have hrest (es : List (List α × List (List α))) (hes : ∀ e ∈ es, Clean space a e) :
      ((es.map (writeOne b)).map (b :: ·)).filterMap (readOne space) = es := by
    induction es with
    | nil => rfl
    | cons e es ih =>
      have he := hes e List.mem_cons_self
      rw [List.map_cons, List.map_cons, List.filterMap_cons, readOne_space hb,
        readOne_writeOne hb he]
      exact congrArg (e :: ·) (ih fun e' he' => hes e' (List.mem_cons_of_mem e he'))
  cases directives with
  | nil => rfl
  | cons e es =>
    have he := h e List.mem_cons_self
    have hclean : ∀ part ∈ writeOne b e :: es.map (writeOne b), a ∉ part := by
      rw [← List.map_cons, List.forall_mem_map]
      exact fun e' he' => not_mem_writeOne hab (h e' he')
    rw [read, write, List.map_cons, ← joinPair_eq, Cookie.splitOn_joinPair hab.symm hclean,
      List.filterMap_cons, readOne_writeOne hb he]
    exact congrArg (e :: ·) (hrest es fun e' he' => h e' (List.mem_cons_of_mem e he'))

end Directives
