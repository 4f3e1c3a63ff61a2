import Sovereign.FileUrls

namespace Sovereign
set_option autoImplicit true

theorem pagePath_valid :
    ("page_path".toList.head?.map Regex.isNameStart).getD false = true ∧
      ∀ c ∈ "page_path".toList, Regex.isNameChar c = true := by
  decide

/-- The parameter at the end of the pattern for pages. -/
def pageParam : Piece := .bracePath ⟨"page_path".toList, pagePath_valid⟩

namespace HTML5App

variable (app : HTML5App) (runtime : Runtime) (lib : FileLibrary) (tree : FileTree)
  (other : Str → Option Match)

/-- What the pattern for pages has before its parameter. -/
def stem : Str := if app.mountPrefix ≠ [] then app.mountPrefix else "/".toList

/-- The characters of the prefix stand for themselves in a pattern. -/
def LiteralPrefix : Prop := Readable (app.stem.map .lit ++ [pageParam])

instance : Decidable app.LiteralPrefix := inferInstanceAs (Decidable (Readable _))

/-- The registration of `html5_page`, the last one that `mount` makes. -/
def pageRegistration : Registration (World α) μ :=
  .route app.pagePattern ["GET".toList, "HEAD".toList] [] (app.html5Page runtime lib tree)

/-- The routes for pages, as far as their pattern is accepted. -/
def pageRoutes : List (AddCall (World α) μ × Match) :=
  (app.pageRegistration runtime lib tree).accepted (compileRoute other)

theorem pageRegistration_mem (assetsManifest : AppHandler (World α) μ) :
    app.pageRegistration runtime lib tree ∈ app.mount runtime lib tree assetsManifest :=
  List.mem_append_right _ (List.mem_cons_of_mem _ List.mem_cons_self)

/-- The prefix is the root, or the path is the prefix or goes on below it. -/
def Below (path : Str) : Prop :=
  app.mountPrefix = [] ∨ path = app.mountPrefix ∨ app.mountPrefix ++ ['/'] <+: path

/-- What a path has after the prefix, with or without a slash at its end. -/
def Remainder (path page : Str) : Prop :=
  path = app.stem ++ page ∨ path = app.stem ++ page ++ ['/']

/-- The routes for pages serve nothing but what is below the prefix. -/
structure StaysUnder (α μ : Type) (path : Str) : Prop where
  below : ∀ c ∈ (app.pageRoutes runtime lib tree other : List (AddCall (World α) μ × Match)),
    (c.2 path).isSome = true → app.Below path
  received : ∀ c ∈ (app.pageRoutes runtime lib tree other : List (AddCall (World α) μ × Match)),
    ∀ groups, c.2 path = some groups → ∃ page, app.Remainder path page ∧
      ∀ req, c.1.handler.body groups req = serveHtml5File runtime lib tree
        (app.options app.spaFallback) app.root req (unquote page)
  left : ¬ app.Below path → ∀ (later : List (AddCall (World α) μ × Match)) (method : Str),
    decision (app.pageRoutes runtime lib tree other ++ later) method path =
      decision later method path

end HTML5App

/-- Routes that do not match leave a path to those after them. -/
theorem decision_skip {accepted : List (AddCall σ μ × Match)}
    (h : ∀ c ∈ accepted, (c.2 path).isSome = false) (later : List (AddCall σ μ × Match))
    (method : Str) : decision (accepted ++ later) method path = decision later method path := by
  have hnone : accepted.find? (serves method path) = none := by
    rw [List.find?_eq_none]
    intro c hc hserves
    rw [serves, h c hc, Bool.false_and] at hserves
    cases hserves
  have hany : (accepted ++ later).any (fun c => (c.2 path).isSome) =
      later.any fun c => (c.2 path).isSome := by
    have hfalse : accepted.any (fun c => (c.2 path).isSome) = false := by
      rw [List.any_eq_false]
      intro c hc hsome
      rw [h c hc] at hsome
      cases hsome
    rw [List.any_append, hfalse, Bool.false_or]
  rw [decision, decision, List.find?_append, hnone, Option.none_or, hany]

theorem trimPieces_concat {p : Piece} (h : p ≠ .lit '/') (ps : List Piece) :
    trimPieces (ps ++ [p]) = ps ++ [p] := by
  have hlast : (ps ++ [p]).rdropWhile (· = .lit '/') = ps ++ [p] :=
    List.rdropWhile_concat_neg _ _ _ (by simpa using h)
  rw [trimPieces, hlast, if_neg (List.append_ne_nil_of_right_ne_nil ps (List.cons_ne_nil p []))]

section Pages

variable {app : HTML5App} (runtime : Runtime) (lib : FileLibrary) (tree : FileTree)
  (other : Str → Option Match) {ps : List Piece}

/-- The routes for pages where the pattern is accepted. -/
theorem pageRoutes_eq (hstem : app.stem = patternText ps) (hread : Readable (ps ++ [pageParam]))
    (hnames : (paramNames (ps ++ [pageParam])).Nodup) :
    (app.pageRoutes runtime lib tree other : List (AddCall (World α) μ × Match)) =
      ["GET".toList, "HEAD".toList].map fun method =>
        (⟨method, app.pagePattern, app.html5Page runtime lib tree, []⟩,
          mountMatch (ps ++ [pageParam])) := by
  have hpattern : app.pagePattern = patternText (ps ++ [pageParam]) := by
    rw [HTML5App.pagePattern, patternText_append, ← hstem]
    rfl
  have hcompile : compileRoute other (trimPattern app.pagePattern) =
      some (mountMatch (ps ++ [pageParam])) := by
    have hparam : pageParam ≠ .lit '/' := Piece.noConfusion
    rw [hpattern, trimPattern_patternText, trimPieces_concat hparam,
      compileRoute_patternText other hread hnames]
    rfl
  rw [HTML5App.pageRoutes, HTML5App.pageRegistration, Registration.accepted, Registration.calls]
  simp only [List.map_cons, List.map_nil, hcompile]
  rfl

/-- Where the pattern uses a name twice there are no routes for pages. -/
theorem pageRoutes_eq_nil (hstem : app.stem = patternText ps) (hread : Readable (ps ++ [pageParam]))
    (hnames : ¬ (paramNames (ps ++ [pageParam])).Nodup) :
    (app.pageRoutes runtime lib tree other : List (AddCall (World α) μ × Match)) = [] := by
  have hpattern : app.pagePattern = patternText (ps ++ [pageParam]) := by
    rw [HTML5App.pagePattern, patternText_append, ← hstem]
    rfl
  have hcompile : compileRoute other (trimPattern app.pagePattern) = none := by
    have hparam : pageParam ≠ .lit '/' := Piece.noConfusion
    have hseq : (Regex.seq .start (bodyRegex (ps ++ [pageParam]))).names =
        paramNames (ps ++ [pageParam]) := names_bodyRegex _
    rw [hpattern, trimPattern_patternText, trimPieces_concat hparam, compileRoute,
      parse_routeExpr hread]
    dsimp only
    rw [if_neg (by rw [hseq]; exact hnames)]
  rw [HTML5App.pageRoutes, HTML5App.pageRegistration, Registration.accepted, Registration.calls]
  simp only [List.map_cons, List.map_nil, hcompile]
  rfl

theorem fill_append (value : Str → Str) (ps qs : List Piece) :
    fill value (ps ++ qs) = fill value ps ++ fill value qs := List.flatMap_append

theorem fill_pageParam (value : Str → Str) : fill value [pageParam] = value "page_path".toList :=
  List.append_nil _

/-- A path without line breaks is matched just if it stands for the pattern. -/
theorem mountMatch_isSome (hline : '\n' ∉ path) (hnames : (paramNames ps).Nodup) :
    (mountMatch ps path).isSome = true ↔ ∃ value, Stands ps path value := by
  rw [mountMatch, Option.isSome_map, firstMatch_iff hline hnames]

/-- Without routes for pages nothing is served. -/
theorem staysUnder_of_none
    (hnone : (app.pageRoutes runtime lib tree other : List (AddCall (World α) μ × Match)) = [])
    (path : Str) : app.StaysUnder runtime lib tree other α μ path where
  below c hc := by
    rw [hnone] at hc
    cases hc
  received c hc := by
    rw [hnone] at hc
    cases hc
  left _ later method := by rw [hnone, List.nil_append]

section Literal

theorem patternText_lits (s : Str) : patternText (s.map .lit) = s := by
  induction s with
  | nil => rfl
  | cons c s ih => exact congrArg (c :: ·) ih

theorem paramNames_lits (s : Str) : paramNames (s.map .lit ++ [pageParam]) =
    ["page_path".toList] := by
  induction s with
  | nil => rfl
  | cons c s ih => exact ih

theorem stands_lits {value : Str → Str} :
    Stands (app.stem.map .lit ++ [pageParam]) path value ↔
      app.Remainder path (value "page_path".toList) := by
  have hallows : ∀ p ∈ app.stem.map .lit ++ [pageParam], p.Allows value := by
    intro p hp
    rcases List.mem_append.1 hp with hp | hp
    · obtain ⟨c, -, rfl⟩ := List.mem_map.1 hp
      trivial
    · rw [List.mem_singleton.1 hp]
      trivial
  rw [Stands, fill_lits, fill_pageParam, HTML5App.Remainder]
  exact and_iff_left hallows

theorem pageRoutes_lits (hliteral : app.LiteralPrefix) :
    (app.pageRoutes runtime lib tree other : List (AddCall (World α) μ × Match)) =
      ["GET".toList, "HEAD".toList].map fun method =>
        (⟨method, app.pagePattern, app.html5Page runtime lib tree, []⟩,
          mountMatch (app.stem.map .lit ++ [pageParam])) := by
  apply pageRoutes_eq
  · exact (patternText_lits app.stem).symm
  · exact hliteral
  · rw [paramNames_lits]
    exact List.nodup_singleton _

/-- Every route for pages matches the same paths. -/
theorem regex_of_pageRoute (hliteral : app.LiteralPrefix) {c : AddCall (World α) μ × Match}
    (hc : c ∈ app.pageRoutes runtime lib tree other) :
    c.2 = mountMatch (app.stem.map .lit ++ [pageParam]) ∧
      c.1.handler = app.html5Page runtime lib tree := by
  rw [pageRoutes_lits runtime lib tree other hliteral] at hc
  obtain ⟨method, -, rfl⟩ := List.mem_map.1 hc
  exact ⟨rfl, rfl⟩

/-- What a route for pages hands to `serve_html5_file`. -/
theorem pageRoute_received (hliteral : app.LiteralPrefix) (hline : '\n' ∉ path)
    {c : AddCall (World α) μ × Match}
    (hc : c ∈ app.pageRoutes runtime lib tree other) (hgroups : c.2 path = some groups) :
    ∃ page, app.Remainder path page ∧
      ∀ req, c.1.handler.body groups req = serveHtml5File runtime lib tree
        (app.options app.spaFallback) app.root req (unquote page) := by
  obtain ⟨hregex, hhandler⟩ := regex_of_pageRoute runtime lib tree other hliteral hc
  have hnames : (paramNames (app.stem.map .lit ++ [pageParam])).Nodup := by
    rw [paramNames_lits]
    exact List.nodup_singleton _
  rw [hregex] at hgroups
  obtain ⟨caps, hcaps, rfl⟩ := Option.map_eq_some_iff.1 hgroups
  obtain ⟨value, rfl, hstands⟩ := firstMatch_stands hline hnames hcaps
  refine ⟨value "page_path".toList, stands_lits.1 hstands, fun req => ?_⟩
  have hparam : "page_path".toList ∈ paramNames (app.stem.map .lit ++ [pageParam]) := by
    rw [paramNames_lits]
    exact List.mem_singleton_self _
  rw [hhandler, HTML5App.html5Page]
  dsimp only
  rw [get?_captures hnames, if_pos hparam, Option.getD_some]

theorem stem_eq (hne : app.mountPrefix ≠ []) : app.stem = app.mountPrefix := if_pos hne

/-- What is matched goes on after the prefix in some way, and it is below the prefix just if the prefix
is not followed by another character than a slash. -/
theorem below_iff {page : Str} (hremainder : app.Remainder path page) :
    app.Below path ↔
      app.mountPrefix = [] ∨ ¬ ∃ c rest, path = app.mountPrefix ++ c :: rest ∧ c ≠ '/' := by
  by_cases hempty : app.mountPrefix = []
  · exact ⟨fun _ => .inl hempty, fun _ => .inl hempty⟩
  · constructor
    · rintro (h | rfl | ⟨more, rfl⟩)
      · exact absurd h hempty
      · refine .inr ?_
        rintro ⟨c, rest, h, -⟩
        have hlength := congrArg List.length h
        rw [List.length_append, List.length_cons] at hlength
        omega
      · refine .inr ?_
        rintro ⟨c, rest, h, hc⟩
        rw [List.append_assoc, List.append_cancel_left_eq] at h
        exact hc (List.cons.inj h).1.symm
    · rintro (h | hother)
      · exact absurd h hempty
      · obtain ⟨rest, rfl⟩ : ∃ rest, path = app.mountPrefix ++ rest := by
          rw [HTML5App.Remainder, stem_eq hempty] at hremainder
          rcases hremainder with h | h
          · exact ⟨page, h⟩
          · exact ⟨page ++ ['/'], by rw [h, List.append_assoc]⟩
        cases rest with
        | nil => exact .inr (.inl (List.append_nil _))
        | cons c rest =>
          have hc : c = '/' := by
            by_contra hc
            exact hother ⟨c, rest, rfl, hc⟩
          rw [hc]
          exact .inr (.inr ⟨rest, by rw [List.append_assoc]; rfl⟩)

/-- A path that is not served is left to the routes that come later. -/
theorem staysUnder_of_below (hliteral : app.LiteralPrefix) (hline : '\n' ∉ path)
    (hbelow : ∀ page, app.Remainder path page → app.Below path) :
    app.StaysUnder runtime lib tree other α μ path where
  below c hc hsome := by
    obtain ⟨groups, hgroups⟩ := Option.isSome_iff_exists.1 hsome
    obtain ⟨page, hremainder, -⟩ :=
      pageRoute_received runtime lib tree other hliteral hline hc hgroups
    exact hbelow page hremainder
  received c hc groups hgroups :=
    pageRoute_received runtime lib tree other hliteral hline hc hgroups
  left hnot later method := by
    apply decision_skip
    intro c hc
    rw [Option.isSome_eq_false_iff, Option.isNone_iff_eq_none]
    cases hgroups : c.2 path with
    | none => rfl
    | some groups =>
      obtain ⟨page, hremainder, -⟩ :=
        pageRoute_received runtime lib tree other hliteral hline hc hgroups
      exact absurd (hbelow page hremainder) hnot

/-- Whatever goes on after the prefix is served. -/
theorem below_of_staysUnder (hliteral : app.LiteralPrefix) (hline : '\n' ∉ path)
    (h : app.StaysUnder runtime lib tree other α μ path) {page : Str}
    (hremainder : app.Remainder path page) : app.Below path := by
  have hnames : (paramNames (app.stem.map .lit ++ [pageParam])).Nodup := by
    rw [paramNames_lits]
    exact List.nodup_singleton _
  have hmatch : (mountMatch (app.stem.map .lit ++ [pageParam]) path).isSome = true :=
    (mountMatch_isSome hline hnames).2 ⟨fun _ => page, stands_lits.2 hremainder⟩
  have hmem : (⟨"GET".toList, app.pagePattern, app.html5Page runtime lib tree, []⟩,
      mountMatch (app.stem.map .lit ++ [pageParam])) ∈
        (app.pageRoutes runtime lib tree other : List (AddCall (World α) μ × Match)) := by
    rw [pageRoutes_lits runtime lib tree other hliteral]
    exact List.mem_map_of_mem List.mem_cons_self
  exact h.below _ hmem hmatch

/-- The routes for pages keep to the prefix for the paths that do not go on after it with another
character than a slash. -/
theorem staysUnder_iff (hliteral : app.LiteralPrefix) (hline : '\n' ∉ path) :
    app.StaysUnder runtime lib tree other α μ path ↔
      app.mountPrefix = [] ∨ ¬ ∃ c rest, path = app.mountPrefix ++ c :: rest ∧ c ≠ '/' := by
  constructor
  · intro h
    by_cases hempty : app.mountPrefix = []
    · exact .inl hempty
    · right
      rintro ⟨c, rest, rfl, hc⟩
      have hremainder : app.Remainder (app.mountPrefix ++ c :: rest) (c :: rest) := by
        left
        rw [stem_eq hempty]
      have hbelow := below_of_staysUnder runtime lib tree other hliteral hline h hremainder
      rcases (below_iff hremainder).1 hbelow with hempty' | hnot
      · exact hempty hempty'
      · exact hnot ⟨c, rest, rfl, hc⟩
  · intro hcondition
    exact staysUnder_of_below runtime lib tree other hliteral hline fun page hremainder =>
      (below_iff hremainder).2 hcondition

end Literal

section Parameters

/-- Each parameter has the value `x`. -/
def plainValue : Str → Str := fun _ => ['x']

theorem plainValue_allowed (p : Piece) : p.Allows plainValue := by
  have hvalue : ['x'] ≠ [] ∧ '/' ∉ ['x'] := by decide
  cases p with
  | lit c => trivial
  | angle name => exact hvalue
  | brace name => exact hvalue
  | bracePath name => trivial

/-- A pattern that is found in front of a path with other values has no parameters. -/
theorem lits_of_prefix {ps : List Piece} (h : patternText ps <+: fill plainValue ps ++ s) :
    ∃ t : Str, ps = t.map .lit := by
  induction ps with
  | nil => exact ⟨[], rfl⟩
  | cons p ps ih =>
    rw [fill_cons] at h
    cases p with
    | lit c =>
      obtain ⟨t, rfl⟩ := ih (List.cons_prefix_cons.1 h).2
      exact ⟨c :: t, rfl⟩
    | angle name =>
      have hfirst : '<' = 'x' := (List.cons_prefix_cons.1 h).1
      exact absurd hfirst (by decide)
    | brace name =>
      have hfirst : '{' = 'x' := (List.cons_prefix_cons.1 h).1
      exact absurd hfirst (by decide)
    | bracePath name =>
      have hfirst : '{' = 'x' := (List.cons_prefix_cons.1 h).1
      exact absurd hfirst (by decide)

theorem newline_of_fill {ps : List Piece} (h : '\n' ∈ fill plainValue ps) :
    '\n' ∈ patternText ps := by
  obtain ⟨p, hp, hmem⟩ := List.mem_flatMap.1 h
  have hvalue : '\n' ∉ ['x'] := by decide
  refine List.mem_flatMap.2 ⟨p, hp, ?_⟩
  cases p with
  | lit c => exact hmem
  | angle name => exact absurd hmem hvalue
  | brace name => exact absurd hmem hvalue
  | bracePath name => exact absurd hmem hvalue

/-- A parameter is written without line breaks. -/
theorem lit_of_newline {p : Piece} (h : '\n' ∈ p.text) : p = .lit '\n' := by
  have hname : Regex.isNameChar '\n' = false := by decide
  cases p with
  | lit c => rw [List.mem_singleton.1 h]
  | angle name =>
    exact absurd h (not_mem_around hname name (by decide : '\n' ∉ ['<']) (by decide : '\n' ∉ ['>']))
  | brace name =>
    exact absurd h (not_mem_around hname name (by decide : '\n' ∉ ['{'])
      (by decide : '\n' ∉ "\x7d".toList))
  | bracePath name =>
    exact absurd h (not_mem_around hname name (by decide : '\n' ∉ ['{'])
      (by decide : '\n' ∉ ":path\x7d".toList))

/-- A line break in the prefix is one in every path that is matched. -/
theorem newline_of_stands {ps : List Piece} (h : '\n' ∈ patternText ps)
    (hstands : Stands (ps ++ [pageParam]) path value) : '\n' ∈ path := by
  have hfill : '\n' ∈ fill value ps := by
    obtain ⟨p, hp, hmem⟩ := List.mem_flatMap.1 h
    rw [lit_of_newline hmem] at hp
    exact List.mem_flatMap.2 ⟨_, hp, List.mem_singleton_self _⟩
  have hboth : '\n' ∈ fill value (ps ++ [pageParam]) := by
    rw [fill_append]
    exact List.mem_append_left _ hfill
  rcases hstands.1 with rfl | rfl
  · exact hboth
  · exact List.mem_append_left _ hboth

/-- A path that is served and not below the prefix, where the prefix is not the root. -/
theorem not_below_plain (hstem : app.stem = patternText ps) (hne : app.mountPrefix ≠ []) :
    ¬ app.Below (fill plainValue ps ++ ['x']) := by
  have htext : app.mountPrefix = patternText ps := (stem_eq hne).symm.trans hstem
  have hlits : patternText ps <+: fill plainValue ps ++ ['x'] →
      fill plainValue ps = patternText ps := by
    intro h
    obtain ⟨t, rfl⟩ := lits_of_prefix h
    have hfill := fill_lits plainValue t []
    rw [List.append_nil] at hfill
    rw [hfill, patternText_lits]
    exact List.append_nil t
  rintro (h | h | h)
  · exact hne h
  · rw [htext] at h
    rw [hlits (h ▸ List.prefix_rfl)] at h
    exact absurd (congrArg List.length h) (by rw [List.length_append, List.length_singleton]; omega)
  · rw [htext] at h
    have hbefore := hlits ((List.prefix_append _ _).trans h)
    rw [hbefore, List.prefix_append_right_inj] at h
    exact absurd (List.cons_prefix_cons.1 h).1 (by decide)

/-- The routes for pages keep to the prefix for every path where it is the root, where it has a line
break, or where there are no routes. -/
theorem staysUnder_all_iff (hstem : app.stem = patternText ps)
    (hread : Readable (ps ++ [pageParam])) :
    (∀ path, '\n' ∉ path → app.StaysUnder runtime lib tree other α μ path) ↔
      app.mountPrefix = [] ∨ '\n' ∈ app.mountPrefix ∨
        ¬ (paramNames (ps ++ [pageParam])).Nodup := by
  constructor
  · intro h
    by_contra hother
    rw [not_or, not_or, not_not] at hother
    obtain ⟨hne, hnewline, hnames⟩ := hother
    have htext : app.mountPrefix = patternText ps := (stem_eq hne).symm.trans hstem
    have hline : '\n' ∉ fill plainValue ps ++ ['x'] := by
      intro hmem
      rcases List.mem_append.1 hmem with hmem | hmem
      · rw [htext] at hnewline
        exact hnewline (newline_of_fill hmem)
      · revert hmem
        decide
    have hstands : Stands (ps ++ [pageParam]) (fill plainValue ps ++ ['x']) plainValue := by
      refine ⟨.inl ?_, fun p _ => plainValue_allowed p⟩
      rw [fill_append, fill_pageParam]
      rfl
    have hmatch := (mountMatch_isSome hline hnames).2 ⟨plainValue, hstands⟩
    have hmem : (⟨"GET".toList, app.pagePattern, app.html5Page runtime lib tree, []⟩,
        mountMatch (ps ++ [pageParam])) ∈
          (app.pageRoutes runtime lib tree other : List (AddCall (World α) μ × Match)) := by
      rw [pageRoutes_eq runtime lib tree other hstem hread hnames]
      exact List.mem_map_of_mem List.mem_cons_self
    exact not_below_plain hstem hne ((h _ hline).below _ hmem hmatch)
  · rintro (hempty | hnewline | hnames) path hline
    · have hliteral : app.LiteralPrefix := by
        rw [HTML5App.LiteralPrefix, HTML5App.stem, hempty]
        decide
      exact (staysUnder_iff runtime lib tree other hliteral hline).2 (.inl hempty)
    · have hne : app.mountPrefix ≠ [] := List.ne_nil_of_mem hnewline
      have htext : '\n' ∈ patternText ps := by
        rw [← hstem, stem_eq hne]
        exact hnewline
      by_cases hnames : (paramNames (ps ++ [pageParam])).Nodup
      · have hnone : ∀ c ∈ (app.pageRoutes runtime lib tree other :
            List (AddCall (World α) μ × Match)), (c.2 path).isSome = false := by
          intro c hc
          rw [pageRoutes_eq runtime lib tree other hstem hread hnames] at hc
          obtain ⟨method, -, rfl⟩ := List.mem_map.1 hc
          rw [← Bool.not_eq_true, mountMatch_isSome hline hnames]
          rintro ⟨value, hstands⟩
          exact hline (newline_of_stands htext hstands)
        constructor
        · intro c hc hsome
          rw [hnone c hc] at hsome
          cases hsome
        · intro c hc groups hgroups
          have hsome := hnone c hc
          rw [hgroups] at hsome
          cases hsome
        · exact fun _ later method => decision_skip hnone later method
      · exact staysUnder_of_none runtime lib tree other
          (pageRoutes_eq_nil runtime lib tree other hstem hread hnames) path
    · exact staysUnder_of_none runtime lib tree other
        (pageRoutes_eq_nil runtime lib tree other hstem hread hnames) path

end Parameters

/-- The routes for pages keep to a prefix of plain characters for exactly the paths that do not go on
after it with another character than a slash, and to a prefix with parameters not for every path. -/
theorem page_routes_stay_iff (app : HTML5App) :
    (∀ path, app.LiteralPrefix → '\n' ∉ path →
      (app.StaysUnder runtime lib tree other α μ path ↔
        app.mountPrefix = [] ∨ ¬ ∃ c rest, path = app.mountPrefix ++ c :: rest ∧ c ≠ '/')) ∧
    ∀ ps, app.stem = patternText ps → Readable (ps ++ [pageParam]) →
      ((∀ path, '\n' ∉ path → app.StaysUnder runtime lib tree other α μ path) ↔
        app.mountPrefix = [] ∨ '\n' ∈ app.mountPrefix ∨
          ¬ (paramNames (ps ++ [pageParam])).Nodup) :=
  ⟨fun _ hliteral hline => staysUnder_iff runtime lib tree other hliteral hline,
    fun _ hstem hread => staysUnder_all_iff runtime lib tree other hstem hread⟩

end Pages

/-- An application below `/app`. -/
def appApp : HTML5App where
  root := []
  pathPrefix := "app".toList

/-- The paths `/app/x` and `/x` are treated alike for this prefix, and not every path is. -/
theorem page_routes_stay_app :
    appApp.StaysUnder noteRuntime noteLibrary twinTree (fun _ => none) Unit Unit "/app/x".toList ∧
      appApp.StaysUnder noteRuntime noteLibrary twinTree (fun _ => none) Unit Unit "/x".toList ∧
      ¬ ∀ path, '\n' ∉ path →
        appApp.StaysUnder noteRuntime noteLibrary twinTree (fun _ => none) Unit Unit path := by
  have hmount : appApp.mountPrefix = "/app".toList := by decide
  have hstem : appApp.stem = "/app".toList := by decide
  have hliteral : appApp.LiteralPrefix := by decide
  obtain ⟨hone, hall⟩ :=
    page_routes_stay_iff noteRuntime noteLibrary twinTree (fun _ => none) appApp
  refine ⟨(hone _ hliteral (by decide)).2 (.inr ?_), (hone _ hliteral (by decide)).2 (.inr ?_),
    ?_⟩
  · rintro ⟨c, rest, h, hc⟩
    rw [hmount] at h
    have hpath : "/app/x".toList = "/app".toList ++ "/x".toList := rfl
    have hrest : "/x".toList = c :: rest := List.append_cancel_left (hpath.symm.trans h)
    exact hc (List.cons.inj hrest).1.symm
  · rintro ⟨c, rest, h, -⟩
    rw [hmount] at h
    have hlength : 2 = 4 + (rest.length + 1) := by
      have := congrArg List.length h
      rwa [List.length_append, List.length_cons] at this
    omega
  · have hread : Readable ("/app".toList.map .lit ++ [pageParam]) := by decide
    rw [hall _ (hstem.trans (patternText_lits _).symm) hread, hmount, paramNames_lits]
    decide

/-- The path `/apple` is served by the application below `/app`, and not by a route of its own that
comes later. -/
theorem apple_served :
    ¬ appApp.Below "/apple".toList ∧
      ∀ later : List (AddCall (World Unit) Unit × Match), ∃ call groups,
        decision (appApp.pageRoutes noteRuntime noteLibrary twinTree (fun _ => none) ++ later)
          "GET".toList "/apple".toList = .serve call groups ∧
        call.handler.name = "html5_page".toList := by
  constructor
  · rw [HTML5App.Below]
    decide
  · intro later
    have hline : '\n' ∉ "/apple".toList := by decide
    have hliteral : appApp.LiteralPrefix := by decide
    have hnames : (paramNames (appApp.stem.map .lit ++ [pageParam])).Nodup := by decide
    have hremainder : appApp.Remainder "/apple".toList "le".toList := .inl (by decide)
    have hmatch := (mountMatch_isSome hline hnames).2
      ⟨fun _ => "le".toList, stands_lits.2 hremainder⟩
    rw [decision, pageRoutes_lits noteRuntime noteLibrary twinTree (fun _ => none) hliteral,
      List.map_cons, List.cons_append, List.find?_cons_of_pos]
    · exact ⟨_, _, rfl, rfl⟩
    · rw [serves, hmatch]
      decide

end Sovereign
