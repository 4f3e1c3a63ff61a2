import Sovereign.Lib.RegexSyntax
import Sovereign.Routing
import Sovereign.Unquote

namespace Sovereign
set_option autoImplicit true

/-- `_ROUTE_PARAM`, which matches `<name>`. -/
def angleParam : Str → Option (Nat × Str)
  | '<' :: s =>
    match Regex.identifier s with
    | some (name, '>' :: _) => some (name.length + 1, name)
    | _ => none
  | _ => none

/-- The regular expression for `{name}` and `{name:path}`: the name, and whether it is a path. -/
def braceParam : Str → Option (Nat × Str × Bool)
  | '{' :: s =>
    match Regex.identifier s with
    | some (name, rest) =>
      if startsWith "\x7d".toList rest then some (name.length + 1, name, false)
      else if startsWith ":path\x7d".toList rest then some (name.length + 6, name, true)
      else none
    | none => none
  | _ => none

/-- `f"(?P<{name}>{body})"` -/
def namedGroup (name body : Str) : Str := "(?P<".toList ++ (name ++ '>' :: (body ++ [')']))

/-- The function `convert` of `Router.add`. -/
def convert (m : Str × Bool) : Str :=
  if m.2 then namedGroup m.1 ".*".toList else namedGroup m.1 "[^/]+".toList

/-- The text that `Router.add` compiles. -/
def routeExpr (p : Str) : Str :=
  let expr := Scan.substitute angleParam (fun name => namedGroup name "[^/]+".toList) p
  let expr := Scan.substitute braceParam convert expr
  '^' :: (expr ++ "/?$".toList)

/-- `re.compile` and the `match` of its result. A text outside the syntax that is modelled is left to
`other`; a name that is used twice is an error. -/
def compileRoute (other : Str → Option Match) (p : Str) : Option Match :=
  match Regex.parse (routeExpr p) with
  | some r => if r.names.Nodup then some fun path =>
      (r.firstMatch path).map (∅ : Dict Str Str).update else none
  | none => other (routeExpr p)

/-- `req.route_params` -/
def routeParams (groups : Dict Str Str) : Dict Str Str := groups.map unquote

/-- What a pattern is made of. -/
inductive Piece where
  | lit (c : Char)
  /-- `<name>` -/
  | angle (name : Regex.Name)
  /-- `{name}` -/
  | brace (name : Regex.Name)
  /-- `{name:path}` -/
  | bracePath (name : Regex.Name)
deriving DecidableEq

namespace Piece

def text : Piece → Str
  | lit c => [c]
  | angle name => '<' :: (name.text ++ ['>'])
  | brace name => '{' :: (name.text ++ "\x7d".toList)
  | bracePath name => '{' :: (name.text ++ ":path\x7d".toList)

def name? : Piece → Option Str
  | lit _ => none
  | angle name | brace name | bracePath name => some name.text

/-- The piece with the value of its parameter in its place. -/
def fill (value : Str → Str) : Piece → Str
  | lit c => [c]
  | angle name | brace name | bracePath name => value name.text

/-- The parameter may have its value. -/
def Allows (value : Str → Str) : Piece → Prop
  | lit _ | bracePath _ => True
  | angle name | brace name => value name.text ≠ [] ∧ '/' ∉ value name.text

instance (value : Str → Str) : (p : Piece) → Decidable (p.Allows value)
  | lit _ | bracePath _ => .isTrue trivial
  | angle name | brace name =>
    inferInstanceAs (Decidable (value name.text ≠ [] ∧ '/' ∉ value name.text))

end Piece

def patternText (ps : List Piece) : Str := ps.flatMap Piece.text

def paramNames (ps : List Piece) : List Str := ps.filterMap Piece.name?

def fill (value : Str → Str) (ps : List Piece) : Str := ps.flatMap (Piece.fill value)

/-- The pattern with these values for its parameters is the path, up to one more slash at its end. -/
def Stands (ps : List Piece) (path : Str) (value : Str → Str) : Prop :=
  (path = fill value ps ∨ path = fill value ps ++ ['/']) ∧ ∀ p ∈ ps, p.Allows value

/-- No `<` among the literal characters begins a parameter. -/
def Legible : List Piece → Prop
  | [] => True
  | .lit c :: ps => angleParam (c :: patternText ps) = none ∧ Legible ps
  | .angle _ :: ps | .brace _ :: ps | .bracePath _ :: ps => Legible ps

/-- The literal characters stand for themselves in a regular expression, too. -/
def Readable : List Piece → Prop
  | [] => True
  | .lit c :: ps => c ∉ Regex.specials ∧ angleParam (c :: patternText ps) = none ∧ Readable ps
  | .angle _ :: ps | .brace _ :: ps | .bracePath _ :: ps => Readable ps

instance decidableReadable : (ps : List Piece) → Decidable (Readable ps)
  | [] => .isTrue trivial
  | .lit c :: ps =>
    have := decidableReadable ps
    inferInstanceAs
      (Decidable (c ∉ Regex.specials ∧ angleParam (c :: patternText ps) = none ∧ Readable ps))
  | .angle _ :: ps | .brace _ :: ps | .bracePath _ :: ps => decidableReadable ps

/-- `pattern.rstrip("/") or "/"` on the pieces of a pattern. -/
def trimPieces (ps : List Piece) : List Piece :=
  if ps.rdropWhile (· = .lit '/') = [] then [.lit '/'] else ps.rdropWhile (· = .lit '/')

theorem patternText_append (ps qs : List Piece) : patternText (ps ++ qs) = patternText ps ++
    patternText qs :=
  List.flatMap_append

/-- A piece that is no slash ends with a character that is none. -/
theorem text_last {p : Piece} (h : p ≠ .lit '/') : ∃ init c, p.text = init ++ [c] ∧ c ≠ '/' := by
  cases p with
  | lit c => exact ⟨[], c, rfl, fun hc => h (hc ▸ rfl)⟩
  | angle name => exact ⟨'<' :: name.text, '>', rfl, by decide⟩
  | brace name => exact ⟨'{' :: name.text, '}', rfl, by decide⟩
  | bracePath name =>
      exact ⟨'{' :: (name.text ++ ":path".toList), '}', by simp [Piece.text], by decide⟩

theorem patternText_rdropWhile (ps : List Piece) :
    (patternText ps).rdropWhile (· = '/') = patternText (ps.rdropWhile (· = .lit '/')) := by
  induction ps using List.reverseRecOn with
  | nil => rfl
  | append_singleton ps p ih =>
    have htext : patternText (ps ++ [p]) = patternText ps ++ p.text := by
      rw [patternText_append, patternText, patternText, List.flatMap_singleton]
    by_cases hp : p = .lit '/'
    · subst hp
      rw [htext, Piece.text, List.rdropWhile_concat_pos _ _ _ (by decide),
      List.rdropWhile_concat_pos _ _ _ (by decide), ih]
    · obtain ⟨init, c, hc, hne⟩ := text_last hp
      rw [htext, hc, ← List.append_assoc, List.rdropWhile_concat_neg _ _ _ (by simpa using hne),
        List.rdropWhile_concat_neg _ _ _ (by simpa using hp), htext, hc, List.append_assoc]

theorem patternText_eq_nil {ps : List Piece} : patternText ps = [] ↔ ps = [] := by
  constructor
  · intro h
    cases ps with
    | nil => rfl
    | cons p ps =>
      rw [patternText, List.flatMap_cons] at h
      cases p with
      | lit | angle | brace | bracePath => cases h
  · rintro rfl
    rfl

theorem trimPattern_patternText (ps : List Piece) :
    trimPattern (patternText ps) = patternText (trimPieces ps) := by
  rw [trimPattern, trimPieces, patternText_rdropWhile]
  by_cases h : ps.rdropWhile (· = .lit '/') = []
  · rw [if_pos (patternText_eq_nil.2 h), if_pos h]
    rfl
  · rw [if_neg (mt patternText_eq_nil.1 h), if_neg h]

theorem paramNames_append (ps qs : List Piece) : paramNames (ps ++ qs) = paramNames ps ++
    paramNames qs :=
  List.filterMap_append

theorem paramNames_trimPieces (ps : List Piece) : paramNames (trimPieces ps) = paramNames ps := by
  have hdrop : paramNames (ps.rdropWhile (· = .lit '/')) = paramNames ps := by
    induction ps using List.reverseRecOn with
    | nil => rfl
    | append_singleton ps p ih =>
      by_cases hp : p = .lit '/'
      · subst hp
        rw [List.rdropWhile_concat_pos _ _ _ (by decide), ih, paramNames_append]
        exact (List.append_nil _).symm
      · rw [List.rdropWhile_concat_neg _ _ _ (by simpa using hp)]
  rw [trimPieces]
  split
  · next h =>
    rw [← hdrop, h]
    rfl
  · exact hdrop

/-- A parameter that is complete is not affected by what follows. -/
theorem angleParam_append (h : angleParam s = some m) (t : Str) : angleParam (s ++ t) = some m := by
  cases s with
  | nil => cases h
  | cons c s =>
    rw [angleParam.eq_def] at h
    split at h
    · next heq =>
      cases heq
      split at h
      · next name rest hname =>
        cases h
        rw [List.cons_append, angleParam, Regex.identifier_extend hname]
        rfl
      · cases h
    · cases h

theorem Readable.left {ps qs : List Piece} (h : Readable (ps ++ qs)) : Readable ps := by
  induction ps with
  | nil => trivial
  | cons p ps ih =>
    cases p with
    | lit c =>
      obtain ⟨hc, hparam, hps⟩ := h
      refine ⟨hc, ?_, ih hps⟩
      cases hm : angleParam (c :: patternText ps) with
      | none => rfl
      | some m =>
        have hmore := angleParam_append hm (patternText qs)
        rw [List.cons_append, ← patternText_append] at hmore
        exact absurd (hparam.symm.trans hmore) nofun
    | angle name => exact ih h
    | brace name => exact ih h
    | bracePath name => exact ih h

theorem Readable.trimPieces {ps : List Piece} (h : Readable ps) : Readable (trimPieces ps) := by
  rw [Sovereign.trimPieces]
  split
  · exact ⟨by decide, rfl, trivial⟩
  · obtain ⟨qs, hqs⟩ := List.rdropWhile_prefix (· = Piece.lit '/') (l := ps)
    rw [← hqs] at h
    exact h.left

theorem Readable.legible {ps : List Piece} (h : Readable ps) : Legible ps := by
  induction ps with
  | nil => trivial
  | cons p ps ih =>
    cases p with
    | lit c => exact ⟨h.2.1, ih h.2.2⟩
    | angle name | brace name | bracePath name => exact ih h

/-- A piece where `<name>` is replaced. -/
def Piece.angleText (replace : Str → Str) : Piece → Str
  | .angle name => replace name.text
  | p => p.text

/-- A piece in the regular expression. -/
def Piece.expr : Piece → Str
  | .lit c => [c]
  | .angle name | .brace name => namedGroup name.text "[^/]+".toList
  | .bracePath name => namedGroup name.text ".*".toList

theorem angleParam_cons (h : c ≠ '<') (s : Str) : angleParam (c :: s) = none := by
  rw [angleParam.eq_def]
  split
  · next heq =>
    cases heq
    exact absurd rfl h
  · rfl

theorem braceParam_cons (h : c ≠ '{') (s : Str) : braceParam (c :: s) = none := by
  rw [braceParam.eq_def]
  split
  · next heq =>
    cases heq
    exact absurd rfl h
  · rfl

theorem angleParam_text (name : Regex.Name) (s : Str) :
    angleParam ('<' :: ((name.text ++ ['>']) ++ s)) =
    some ((name.text ++ ['>']).length, name.text) := by
  rw [List.append_assoc, angleParam, List.singleton_append,
    Regex.identifier_append name (by decide), List.length_append]
  rfl

theorem braceParam_text (name : Regex.Name) (s : Str) :
    braceParam ('{' :: ((name.text ++ "\x7d".toList) ++ s)) =
      some ((name.text ++ "\x7d".toList).length, name.text, false) := by
  have htext : "\x7d".toList ++ s = '}' :: s := rfl
  rw [List.append_assoc, braceParam, htext, Regex.identifier_append name (by decide),
    List.length_append]
  rfl

theorem braceParam_pathText (name : Regex.Name) (s : Str) :
    braceParam ('{' :: ((name.text ++ ":path\x7d".toList) ++ s)) =
      some ((name.text ++ ":path\x7d".toList).length, name.text, true) := by
  have htext : ":path\x7d".toList ++ s = ':' :: ("path\x7d".toList ++ s) := rfl
  rw [List.append_assoc, braceParam, htext, Regex.identifier_append name (by decide),
    List.length_append]
  rfl

/-- A character that no name has is not met in a name and what is around it. -/
theorem not_mem_around (hd : Regex.isNameChar d = false) (name : Regex.Name) {before after : Str}
    (hbefore : d ∉ before) (hafter : d ∉ after) : d ∉ before ++ (name.text ++ after) := by
  rw [List.mem_append, List.mem_append]
  rintro (h | h | h)
  · exact hbefore h
  · exact Bool.false_ne_true (hd.symm.trans (name.valid.2 d h))
  · exact hafter h

theorem substitute_angle (replace : Str → Str) {ps : List Piece} (h : Legible ps) :
    Scan.substitute angleParam replace (patternText ps) = ps.flatMap (Piece.angleText replace) := by
  induction ps with
  | nil => rfl
  | cons p ps ih =>
    rw [patternText, List.flatMap_cons, List.flatMap_cons]
    cases p with
    | lit c => exact (Scan.substitute_cons h.1).trans (congrArg _ (ih h.2))
    | angle name => exact (Scan.substitute_match _ _ (angleParam_text name _)).trans (congrArg _ (ih h))
    | brace name =>
      have hplain : '<' ∉ Piece.text (.brace name) :=
        @not_mem_around '<' (by decide) name ['{'] _ (by decide) (by decide)
      exact (Scan.substitute_append _ _ fun c hc => angleParam_cons
        (ne_of_mem_of_not_mem hc hplain)).trans
        (congrArg _ (ih h))
    | bracePath name =>
      have hplain : '<' ∉ Piece.text (.bracePath name) :=
        @not_mem_around '<' (by decide) name ['{'] _ (by decide) (by decide)
      exact (Scan.substitute_append _ _ fun c hc => angleParam_cons
        (ne_of_mem_of_not_mem hc hplain)).trans
        (congrArg _ (ih h))

theorem substitute_brace {ps : List Piece} (h : Readable ps) :
    Scan.substitute braceParam convert
    (ps.flatMap (Piece.angleText fun name => namedGroup name "[^/]+".toList)) =
      ps.flatMap Piece.expr := by
  induction ps with
  | nil => rfl
  | cons p ps ih =>
    rw [List.flatMap_cons, List.flatMap_cons]
    cases p with
    | lit c =>
      have hc : c ≠ '{' := by
        rintro rfl
        exact h.1 (by decide)
      exact (Scan.substitute_cons (braceParam_cons hc _)).trans (congrArg _ (ih h.2.2))
    | angle name =>
      have hplain : '{' ∉ namedGroup name.text "[^/]+".toList :=
        not_mem_around (by decide) name (by decide) (by decide)
      exact (Scan.substitute_append _ _ fun c hc => braceParam_cons (ne_of_mem_of_not_mem hc hplain)).trans
        (congrArg _ (ih h))
    | brace name => exact (Scan.substitute_match _ _ (braceParam_text name _)).trans (congrArg _ (ih h))
    | bracePath name => exact (Scan.substitute_match _ _ (braceParam_pathText name _)).trans (congrArg _ (ih h))

theorem routeExpr_patternText {ps : List Piece} (h : Readable ps) :
    routeExpr (patternText ps) = '^' :: (ps.flatMap Piece.expr ++ "/?$".toList) := by
  rw [routeExpr, substitute_angle _ h.legible, substitute_brace h]

section Compiled

open Regex

def Piece.regex : Piece → Regex Char Str
  | .lit c => .rep (fun x => decide (x = c)) 1 (some 1)
  | .angle name | .brace name =>
      .group name.text (.seq (.rep (fun x => decide (x ≠ '/')) 1 none) .empty)
  | .bracePath name => .group name.text (.seq (.rep (fun x => decide (x ≠ '\n')) 0 none) .empty)

def tailRegex : Regex Char Str :=
  .seq (.rep (fun x => decide (x = '/')) 0 (some 1))
  (.seq (.stop fun x => decide (x = '\n')) .empty)

def bodyRegex (ps : List Piece) : Regex Char Str := ps.foldr (fun p r => .seq p.regex r) tailRegex

/-- What follows a literal character is no quantifier. -/
theorem expr_head {ps : List Piece} (h : Readable ps) :
    ∀ d ∈ (ps.flatMap Piece.expr ++ "/?$".toList).head?, d ∉ specials ∨ d = '(' := by
  intro d hd
  cases ps with
  | nil =>
    cases hd
    exact .inl (by decide)
  | cons p ps =>
    cases p with
    | lit c =>
      cases hd
      exact .inl h.1
    | angle | brace | bracePath =>
      cases hd
      exact .inr rfl

theorem parseSequence_plainBody (n : Nat) (s : Str) :
    parseSequence (n + 2) ("[^/]+".toList ++ ')' :: s) =
    some (.seq (.rep (fun x => decide (x ≠ '/')) 1 none) .empty, ')' :: s) :=
  parseSequence_charClass (by decide) rfl rfl rfl

theorem parseSequence_pathBody (n : Nat) (s : Str) :
    parseSequence (n + 2) (".*".toList ++ ')' :: s) =
    some (.seq (.rep (fun x => decide (x ≠ '\n')) 0 none) .empty, ')' :: s) :=
  parseSequence_charClass (by decide) rfl rfl rfl

theorem parseSequence_tail (n : Nat) : parseSequence (n + 3) "/?$".toList = some (tailRegex, []) :=
  parseSequence_charClass (by decide) rfl rfl rfl

theorem namedGroup_append (name body s : Str) :
    namedGroup name body ++ s = "(?P<".toList ++ (name ++ '>' :: (body ++ ')' :: s)) := by
  simp only [namedGroup, List.append_assoc, List.cons_append, List.nil_append]

theorem Piece.expr_ne_nil (p : Piece) : 0 < p.expr.length := by
  cases p with
  | lit | angle | brace | bracePath => exact Nat.succ_pos _

theorem parseSequence_expr {ps : List Piece} (h : Readable ps)
    (hn : (ps.flatMap Piece.expr).length + 3 ≤ n) :
    parseSequence n (ps.flatMap Piece.expr ++ "/?$".toList) = some (bodyRegex ps, []) := by
  induction ps generalizing n with
  | nil =>
    obtain ⟨n, rfl⟩ := Nat.exists_eq_add_of_le' hn
    exact parseSequence_tail n
  | cons p ps ih =>
    rw [List.flatMap_cons, List.length_append] at hn
    have hpos := p.expr_ne_nil
    obtain ⟨n, rfl⟩ : ∃ m, n = m + 4 := ⟨n - 4, by omega⟩
    have hlen : (ps.flatMap Piece.expr).length + 3 ≤ n + 3 := by omega
    rw [List.flatMap_cons, List.append_assoc]
    cases p with
    | lit c => exact parseSequence_literal h.1 (expr_head h.2.2) (ih h.2.2 hlen)
    | angle name | brace name =>
      rw [Piece.expr, namedGroup_append]
      exact parseSequence_group name (parseSequence_plainBody _ _) (ih h hlen)
    | bracePath name =>
      rw [Piece.expr, namedGroup_append]
      exact parseSequence_group name (parseSequence_pathBody _ _) (ih h hlen)

/-- The regular expression of a pattern is the one that its pieces stand for. -/
theorem parse_routeExpr {ps : List Piece} (h : Readable ps) :
    parse (routeExpr (patternText ps)) = some (.seq .start (bodyRegex ps)) := by
  have hlen : (ps.flatMap Piece.expr).length + 3 ≤ (ps.flatMap Piece.expr ++ "/?$".toList).length +
    1 := by
    rw [List.length_append]
    exact Nat.le_succ _
  rw [routeExpr_patternText h, parse, List.length_cons, parseSequence, parseSequence_expr h hlen]
  rfl

theorem names_bodyRegex (ps : List Piece) : (bodyRegex ps).names = paramNames ps := by
  induction ps with
  | nil => rfl
  | cons p ps ih =>
    have hnames : (bodyRegex (p :: ps)).names = p.regex.names ++ (bodyRegex ps).names := rfl
    rw [hnames, ih]
    cases p with
    | lit | angle | brace | bracePath => rfl

theorem compileRoute_patternText (other : Str → Option Match) {ps : List Piece} (h : Readable ps)
    (hnames : (paramNames ps).Nodup) : compileRoute other (patternText ps) =
      some fun path => ((Regex.seq .start (bodyRegex ps)).firstMatch path).map
      (∅ : Dict Str Str).update := by
  have hseq : (Regex.seq .start (bodyRegex ps)).names = paramNames ps := names_bodyRegex ps
  rw [compileRoute, parse_routeExpr h]
  dsimp only
  rw [if_pos (by rw [hseq]; exact hnames)]

/-- The groups of a match with these values for the parameters. -/
def captures (value : Str → Str) (ps : List Piece) : List (Str × Str) :=
  (paramNames ps).map fun name => (name, value name)

theorem takes_lit {caps : List (Str × Str)} {taken : Str}
    (h : Takes (Piece.lit c).regex b caps taken rest) :
    caps = [] ∧ taken = [c] := by
  obtain ⟨hcaps, hall, hleast, hmost⟩ := takes_rep.1 h
  obtain ⟨d, rfl⟩ := List.length_eq_one_iff.1 (Nat.le_antisymm (hmost 1 rfl) hleast)
  exact ⟨hcaps, congrArg (fun c => [c]) (of_decide_eq_true (hall d List.mem_cons_self))⟩

theorem takes_param {caps : List (Str × Str)} {taken : Str} {accepts : Char → Bool} :
    Takes (.group name (.seq (.rep accepts least none) .empty)) b caps taken rest ↔
      caps = [(name, taken)] ∧ (∀ a ∈ taken, accepts a = true) ∧ least ≤ taken.length := by
  rw [takes_group]
  constructor
  · rintro ⟨inner, rfl, h⟩
    obtain ⟨rfl, hall, hleast, -⟩ := takes_rep.1 (takes_seq_empty.1 h)
    exact ⟨rfl, hall, hleast⟩
  · rintro ⟨rfl, hall, hleast⟩
    exact ⟨[], rfl, takes_seq_empty.2 (takes_rep.2 ⟨rfl, hall, hleast, nofun⟩)⟩

/-- The end of a pattern takes at most a slash. -/
theorem takes_tail {caps : List (Str × Str)} {taken rest : Str}
    (h : Takes tailRegex b caps taken rest)
    (hline : '\n' ∉ rest) : caps = [] ∧ (taken ++ rest = [] ∨ taken ++ rest = ['/']) := by
  obtain ⟨_, _, slashes, _, rfl, rfl, hslash, hstop⟩ := takes_seq.1 h
  obtain ⟨rfl, hall, -, hmost⟩ := takes_rep.1 hslash
  cases takes_seq_empty.1 hstop with
  | stop =>
    refine ⟨rfl, ?_⟩
    rw [List.append_nil, List.append_nil]
    cases slashes with
    | nil => exact .inl rfl
    | cons c slashes =>
      have hnil : slashes = [] :=
        List.length_eq_zero_iff.1 (Nat.le_zero.1 (Nat.le_of_succ_le_succ (hmost 1 rfl)))
      have hc : c = '/' := of_decide_eq_true (hall c List.mem_cons_self)
      rw [hc, hnil]
      exact .inr rfl
  | stopNewline hc =>
    rw [of_decide_eq_true hc] at hline
    exact absurd List.mem_cons_self hline

theorem paramNames_cons (p : Piece) (ps : List Piece) : paramNames (p :: ps) = p.name?.toList ++
    paramNames ps := by
  rw [paramNames, List.filterMap_cons]
  cases p with
  | lit | angle | brace | bracePath => rfl

theorem captures_cons (value : Str → Str) (p : Piece) (ps : List Piece) :
    captures value (p :: ps) = p.name?.toList.map (fun name => (name, value name)) ++
    captures value ps := by
  rw [captures, paramNames_cons, List.map_append]
  rfl

theorem fill_cons (value : Str → Str) (p : Piece) (ps : List Piece) :
    fill value (p :: ps) = p.fill value ++ fill value ps :=
  List.flatMap_cons

/-- Only the values of the parameters matter. -/
theorem fill_congr {ps : List Piece} (h : ∀ name ∈ paramNames ps, value name = value' name) :
    fill value ps = fill value' ps ∧ captures value ps = captures value' ps ∧
      ∀ p ∈ ps, p.Allows value ↔ p.Allows value' := by
  induction ps with
  | nil => exact ⟨rfl, rfl, nofun⟩
  | cons p ps ih =>
    simp only [paramNames_cons, List.mem_append] at h
    obtain ⟨hfill, hcaptures, hallows⟩ := ih fun name hname => h name (.inr hname)
    have hp : p.fill value = p.fill value' ∧ (p.Allows value ↔ p.Allows value') ∧
        p.name?.toList.map (fun name => (name, value name)) = p.name?.toList.map fun name =>
        (name, value' name) := by
      cases p with
      | lit c => exact ⟨rfl, .rfl, rfl⟩
      | angle name | brace name | bracePath name =>
        have hv : value name.text = value' name.text := h name.text (.inl List.mem_cons_self)
        simp only [Piece.fill, Piece.Allows, Piece.name?, Option.toList_some, List.map_cons,
          List.map_nil, hv, and_self]
    refine ⟨?_, ?_, ?_⟩
    · rw [fill_cons, fill_cons, hp.1, hfill]
    · rw [captures_cons, captures_cons, hp.2.2, hcaptures]
    · exact List.forall_mem_cons.2 ⟨hp.2.1, hallows⟩

/-- A piece takes just what can stand in its place. -/
theorem takes_piece {p : Piece} {caps : List (Str × Str)} {taken rest : Str}
    (h : Takes p.regex b caps taken rest) :
    ∀ value : Str → Str, (∀ name ∈ p.name?, value name = taken) → taken = p.fill value ∧
    p.Allows value ∧
      caps = p.name?.toList.map fun name => (name, value name) := by
  intro value hvalue
  cases p with
  | lit c =>
    obtain ⟨rfl, rfl⟩ := takes_lit h
    exact ⟨rfl, trivial, rfl⟩
  | angle name | brace name =>
    obtain ⟨rfl, hall, hleast⟩ := takes_param.1 h
    cases hvalue name.text rfl
    exact ⟨rfl, ⟨List.ne_nil_of_length_pos hleast, fun hmem => of_decide_eq_true (hall _ hmem) rfl⟩,
      rfl⟩
  | bracePath name =>
    obtain ⟨rfl, -, -⟩ := takes_param.1 h
    cases hvalue name.text rfl
    exact ⟨rfl, trivial, rfl⟩

/-- What the regular expression of a pattern takes is a decomposition of the path. -/
theorem stands_of_takes {ps : List Piece} {caps : List (Str × Str)} {taken rest : Str}
    (h : Takes (bodyRegex ps) b caps taken rest) (hline : '\n' ∉ rest)
    (hnames : (paramNames ps).Nodup) :
    ∃ value, caps = captures value ps ∧ Stands ps (taken ++ rest) value := by
  induction ps generalizing b caps taken with
  | nil =>
    obtain ⟨rfl, htext⟩ := takes_tail h hline
    exact ⟨fun _ => [], rfl, htext, nofun⟩
  | cons p ps ih =>
    obtain ⟨caps₁, caps₂, taken₁, taken₂, rfl, rfl, hp, hps⟩ := takes_seq.1 h
    rw [paramNames_cons, List.nodup_append] at hnames
    obtain ⟨value, rfl, htext, hall⟩ := ih hps hnames.2.1
    let value' : Str → Str := fun name => if name ∈ p.name? then taken₁ else value name
    have hkeep : ∀ name ∈ paramNames ps, value name = value' name := by
      intro name hname
      have hnot : name ∉ p.name? :=
        fun hmem => hnames.2.2 name (Option.mem_toList.2 hmem) name hname rfl
      exact (if_neg hnot).symm
    obtain ⟨hfill, hcaptures, hallows⟩ := fill_congr hkeep
    obtain ⟨htaken, hallowed, hcaps⟩ := takes_piece hp value' fun name hname => if_pos hname
    refine ⟨value', ?_, ?_, ?_⟩
    · rw [captures_cons, hcaps, hcaptures]
    · rw [fill_cons, ← htaken, ← hfill, List.append_assoc, List.append_assoc]
      exact htext.imp (congrArg _) (congrArg _)
    · exact List.forall_mem_cons.2 ⟨hallowed, fun q hq => (hallows q hq).1 (hall q hq)⟩

/-- A piece takes what stands in its place. -/
theorem piece_takes {p : Piece} {value : Str → Str} (hallowed : p.Allows value)
    (hline : '\n' ∉ p.fill value) :
    Takes p.regex b (p.name?.toList.map fun name => (name, value name)) (p.fill value) rest := by
  cases p with
  | lit c =>
    refine .rep (fun a ha => ?_) (Nat.le_refl 1) fun m hm => ?_
    · exact decide_eq_true (List.mem_singleton.1 ha)
    · cases hm
      exact Nat.le_refl 1
  | angle name | brace name =>
    refine takes_param.2 ⟨rfl, fun a ha => decide_eq_true fun he => ?_,
      List.length_pos_of_ne_nil hallowed.1⟩
    exact hallowed.2 (he ▸ ha)
  | bracePath name =>
    refine takes_param.2 ⟨rfl, fun a ha => decide_eq_true fun he => ?_, Nat.zero_le _⟩
    exact hline (he ▸ ha)

theorem tail_takes (h : slash = [] ∨ slash = ['/']) : Takes tailRegex b [] slash [] := by
  have hslash : Takes (.rep (fun x => decide (x = '/')) 0 (some 1) : Regex Char Str) b
    [] slash [] := by
    refine .rep (fun a ha => ?_) (Nat.zero_le _) fun m hm => ?_
    · obtain rfl | rfl := h
      · cases ha
      · exact decide_eq_true (List.mem_singleton.1 ha)
    · cases hm
      obtain rfl | rfl := h
      · exact Nat.zero_le 1
      · exact Nat.le_refl 1
  exact takes_seq.2 ⟨[], [], slash, [], rfl, (List.append_nil slash).symm, hslash,
    takes_seq_empty.2 .stop⟩

/-- A decomposition of the path is taken. -/
theorem takes_of_stands {ps : List Piece} (hallows : ∀ p ∈ ps, p.Allows value)
    (hline : '\n' ∉ fill value ps)
    (hslash : slash = [] ∨ slash = ['/']) :
    Takes (bodyRegex ps) b (captures value ps) (fill value ps ++ slash) [] := by
  induction ps generalizing b with
  | nil => exact tail_takes hslash
  | cons p ps ih =>
    rw [fill_cons] at hline
    rw [captures_cons, fill_cons, List.append_assoc]
    have hp : '\n' ∉ p.fill value := fun hmem => hline (List.mem_append_left _ hmem)
    have hps : '\n' ∉ fill value ps := fun hmem => hline (List.mem_append_right _ hmem)
    exact .seq (piece_takes (hallows p List.mem_cons_self) hp)
      (ih (fun q hq => hallows q (List.mem_cons_of_mem p hq)) hps)

theorem takes_start {r : Regex Char Str} {caps : List (Str × Str)} {taken rest : Str} :
    Takes (.seq .start r) true caps taken rest ↔ Takes r true caps taken rest := by
  rw [takes_seq]
  constructor
  · rintro ⟨_, _, _, _, rfl, rfl, hstart, hr⟩
    cases hstart
    exact hr
  · intro h
    exact ⟨[], caps, [], taken, rfl, rfl, .start, h⟩

/-- A match is a decomposition of the path, with the values that it captures. -/
theorem firstMatch_stands {ps : List Piece} (hline : '\n' ∉ path) (hnames : (paramNames ps).Nodup)
    (h : (Regex.seq .start (bodyRegex ps)).firstMatch path = some caps) :
    ∃ value, caps = captures value ps ∧ Stands ps path value := by
  obtain ⟨taken, rest, rfl, htakes⟩ := firstMatch_eq_some h
  exact stands_of_takes (takes_start.1 htakes) (fun hmem => hline (List.mem_append_right _ hmem))
    hnames

theorem firstMatch_iff {ps : List Piece} (hline : '\n' ∉ path) (hnames : (paramNames ps).Nodup) :
    ((Regex.seq .start (bodyRegex ps)).firstMatch path).isSome = true ↔ ∃ value,
    Stands ps path value := by
  constructor
  · intro h
    obtain ⟨caps, hcaps⟩ := Option.isSome_iff_exists.1 h
    obtain ⟨value, -, hstands⟩ := firstMatch_stands hline hnames hcaps
    exact ⟨value, hstands⟩
  · rintro ⟨value, htext, hallows⟩
    obtain ⟨slash, hslash, rfl⟩ : ∃ slash, (slash = [] ∨ slash = ['/']) ∧
    path = fill value ps ++ slash := by
      obtain rfl | rfl := htext
      · exact ⟨[], .inl rfl, (List.append_nil _).symm⟩
      · exact ⟨['/'], .inr rfl, rfl⟩
    have htakes := takes_of_stands (b := true) hallows
      (fun hmem => hline (List.mem_append_left _ hmem)) hslash
    exact firstMatch_isSome.2 ⟨_, _, [], (List.append_nil _).symm, takes_start.2 htakes⟩

end Compiled

theorem splitFirst_sublist (c : Char) (s : Str) :
    (((splitFirst c s).map Prod.fst).getD s).Sublist s := by
  cases h : splitFirst c s with
  | none => exact List.Sublist.refl s
  | some p =>
    obtain ⟨b, a⟩ := p
    rw [Marker.breakOn_eq h, List.append_assoc]
    exact List.sublist_append_left b _

theorem urlsplit_sublist [Urllib] (h : urlsplit target = some (path, query)) :
    path.Sublist (target.filter fun c => !(c ∈ ['\t', '\r', '\n'])) := by
  have hpath : ∀ url : Str, ((splitFirst '?' url).getD (url, [])).1.Sublist url := by
    intro url
    have hsub := splitFirst_sublist '?' url
    cases hsplit : splitFirst '?' url with
    | none => exact List.Sublist.refl url
    | some p =>
      rw [hsplit] at hsub
      exact hsub
  rw [urlsplit.eq_def] at h
  dsimp only at h
  generalize hp : ite (startsWith _ _ = true) _ _ = p at h
  have hurl : p.2.Sublist (target.filter fun c => !(c ∈ ['\t', '\r', '\n'])) := by
    rw [← hp]
    split
    · exact (List.dropWhile_sublist _).trans (List.drop_sublist _ _)
    · exact List.Sublist.refl _
  split at h
  · cases h
  · split at h
    · cases h
    · have heq : _ = path := congrArg Prod.fst (Option.some.inj h)
      rw [← heq]
      exact ((hpath _).trans (splitFirst_sublist '#' p.2)).trans hurl

/-- The path of a request has no line breaks. -/
theorem path_no_newline [Urllib]
    (h : Request.make method target version headers rawHeaders body bodySize remoteAddr = .ok req) :
    '\n' ∉ req.path := by
  rw [Request.make] at h
  split at h
  · cases h
  · next path query hsplit =>
    cases h
    dsimp only
    split
    · decide
    · intro hmem
      have hfilter := List.mem_filter.1 ((urlsplit_sublist hsplit).subset hmem)
      cases hfilter.2

theorem get?_captures {ps : List Piece} (hnames : (paramNames ps).Nodup)
    (value : Str → Str) (name : Str) :
    (routeParams ((∅ : Dict Str Str).update (captures value ps))).get? name =
      if name ∈ paramNames ps then some (unquote (value name)) else none := by
  rw [routeParams, Dict.get?_map, captures, Dict.get?_update_graph hnames]
  split
  · rfl
  · rfl

/-- A pattern without its trailing slashes matches what it says. -/
theorem add_pattern [Urllib] (other : Str → Option Match) (routes : List (TableRoute σ μ))
    (call : AddCall σ μ)
    {ps : List Piece} (hpattern : call.pattern = patternText ps) (hread : Readable ps)
    (hnames : (paramNames ps).Nodup) :
    ∃ regex, call.run (compileRoute other) routes = some (routes ++ [call.entry regex]) ∧
      ∀ {method target version headers rawHeaders body bodySize remoteAddr req},
        Request.make method target version headers rawHeaders body bodySize remoteAddr = .ok req →
        ((regex req.path).isSome = true ↔ ∃ value, Stands (trimPieces ps) req.path value) ∧
        ∀ groups, regex req.path = some groups → ∃ value, Stands (trimPieces ps) req.path value ∧
          ∀ name, (routeParams groups).get? name =
            if name ∈ paramNames ps then some (unquote (value name)) else none := by
  rw [← paramNames_trimPieces] at hnames
  refine ⟨fun path => ((Regex.seq .start (bodyRegex (trimPieces ps))).firstMatch path).map
    (∅ : Dict Str Str).update,
    ?_, fun {_ _ _ _ _ _ _ _ req} hreq => ?_⟩
  · rw [AddCall.run, hpattern, trimPattern_patternText, compileRoute_patternText other
      hread.trimPieces hnames,
      AddCall.entry, hpattern, trimPattern_patternText]
    rfl
  · have hline := path_no_newline hreq
    rw [Option.isSome_map, firstMatch_iff hline hnames]
    refine ⟨.rfl, fun groups hgroups => ?_⟩
    obtain ⟨caps, hcaps, rfl⟩ := Option.map_eq_some_iff.1 hgroups
    obtain ⟨value, rfl, hstands⟩ := firstMatch_stands hline hnames hcaps
    refine ⟨value, hstands, fun name => ?_⟩
    rw [get?_captures hnames, paramNames_trimPieces]

/-- A call for a pattern of its own. -/
def patternCall (pattern : String) : AddCall Unit Unit :=
  ⟨"get".toList, pattern.toList, Router.plainHandler "f", []⟩

def samplePieces : List Piece :=
  [.lit '/', .lit 'f', .lit '/', .angle ⟨"id".toList, by decide⟩, .lit '/',
  .bracePath ⟨"rest".toList, by decide⟩]

/-- A request as the parser could make it for a path. -/
def pathRequest (path : Str) : Request where
  method := "GET".toList
  target := path
  version := "HTTP/1.1".toList
  headers := ∅
  rawHeaders := []
  body := .bytes []
  bodySize := 0
  path := path
  queryString := []
  remoteAddr := []
  cookies := ∅

theorem add_pattern_file : ∃ regex,
    (patternCall "/f/<id>/\x7brest:path\x7d").run (compileRoute fun _ => none) [] =
      some [(patternCall "/f/<id>/\x7brest:path\x7d").entry regex] ∧
    (regex "/f/7/a/b%20c".toList).isSome = true := by
  let _ : Urllib := ⟨fun _ => true⟩
  have htext : (patternCall "/f/<id>/\x7brest:path\x7d").pattern =
    patternText samplePieces := by decide
  obtain ⟨regex, hrun, hmatch⟩ :=
    add_pattern (fun _ => none) [] (patternCall "/f/<id>/\x7brest:path\x7d") htext
    (by decide) (by decide)
  have hreq : Request.make "GET".toList "/f/7/a/b%20c".toList "HTTP/1.1".toList ∅ []
    (.bytes []) 0 [] =
      .ok (pathRequest "/f/7/a/b%20c".toList) := rfl
  let value : Str → Str := fun name => if name = "id".toList then "7".toList else "a/b%20c".toList
  exact ⟨regex, hrun, (hmatch hreq).1.2 ⟨value, .inl rfl, by decide⟩⟩

/-- A pattern with a slash at its end matches the path without it, and one with a dot matches another
character in its place. -/
theorem add_pattern_literal :
    (∃ regex, (patternCall "/a/").run (compileRoute fun _ => none) [] =
    some [(patternCall "/a/").entry regex] ∧
      (regex "/a".toList).isSome = true ∧ "/a/".toList =
      patternText [.lit '/', .lit 'a', .lit '/'] ∧
      ¬ ∃ value, Stands [.lit '/', .lit 'a', .lit '/'] "/a".toList value) ∧
    ∃ regex, (patternCall "/a.b").run (compileRoute fun _ => none) [] =
    some [(patternCall "/a.b").entry regex] ∧
      (regex "/axb".toList).isSome = true ∧ "/a.b".toList =
      patternText [.lit '/', .lit 'a', .lit '.', .lit 'b'] ∧
      ¬ ∃ value, Stands [.lit '/', .lit 'a', .lit '.', .lit 'b'] "/axb".toList value := by
  refine ⟨⟨_, rfl, by decide, rfl, ?_⟩, ⟨_, rfl, by decide, rfl, ?_⟩⟩
  · rintro ⟨value, h | h, -⟩
    · cases h
    · cases h
  · rintro ⟨value, h | h, -⟩
    · cases h
    · cases h

end Sovereign
