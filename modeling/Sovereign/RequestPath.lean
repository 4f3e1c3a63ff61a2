import Sovereign.HeaderChecks

namespace Sovereign
set_option autoImplicit true

/-- The characters that `urlsplit` removes. -/
def isUnsafe (c : Char) : Bool := decide (c ∈ ['\t', '\r', '\n'])

/-- A character of the path, or one before the path. -/
def isPathChar (c : Char) : Bool := !decide (c ∈ ['?', '#'])

/-- The part of a target before its first question mark or number sign. -/
def targetPath (target : Str) : Str := target.takeWhile isPathChar

/-- The target as `urlsplit` goes through it. -/
def cleaned (target : Str) : Str := target.filter fun c => !isUnsafe c

theorem targetPath_cleaned (target : Str) :
    targetPath (cleaned target) = (targetPath target).filter fun c => !isUnsafe c := by
  have hpath : (fun c => !!isUnsafe c || isPathChar c) = isPathChar := by
    funext c
    cases hc : isUnsafe c with
    | false => rfl
    | true =>
      have hmem := of_decide_eq_true hc
      simp only [List.mem_cons, List.not_mem_nil, or_false] at hmem
      rcases hmem with rfl | rfl | rfl <;> rfl
  rw [targetPath, cleaned, List.takeWhile_filter, hpath]
  rfl

/-- Only a path that is clean is left as it is. -/
theorem targetPath_cleaned_iff {target : Str} :
    targetPath (cleaned target) = targetPath target ↔ ∀ c ∈ targetPath target, isUnsafe c = false := by
  rw [targetPath_cleaned, List.filter_eq_self]
  exact forall₂_congr fun c _ => by rw [Bool.not_eq_true']

/-- What comes before the first occurrence of a character, or everything. -/
theorem splitFirst_fst (c : Char) (s : Str) :
    ((splitFirst c s).map Prod.fst).getD s = s.takeWhile fun d => !decide (d = c) := by
  cases h : splitFirst c s with
  | none =>
    have hmem : c ∉ s := by
      intro hmem
      obtain ⟨before, after, rfl⟩ := List.append_of_mem hmem
      rw [splitFirst, Marker.breakOn_eq_none] at h
      exact h ⟨before, after, by simp⟩
    refine (List.takeWhile_eq_self_iff.2 fun d hd => ?_).symm
    rw [Bool.not_eq_true', decide_eq_false_iff_not]
    rintro rfl
    exact hmem hd
  | some p =>
    obtain ⟨before, after⟩ := p
    have hbefore := Marker.not_mem_of_breakOn h
    rw [Marker.breakOn_eq h, List.append_assoc, List.takeWhile_append_of_pos]
    · rw [List.singleton_append, List.takeWhile_cons_of_neg (by simp), List.append_nil]
      rfl
    · intro d hd
      rw [Bool.not_eq_true', decide_eq_false_iff_not]
      rintro rfl
      exact hbefore hd

/-- The path that `urlsplit` finds in what follows the network location. -/
theorem path_of_url (url : Str) :
    ((splitFirst '?' (((splitFirst '#' url).map Prod.fst).getD url)).getD
      (((splitFirst '#' url).map Prod.fst).getD url, [])).1 = targetPath url := by
  have hquery : ∀ s : Str, ((splitFirst '?' s).getD (s, [])).1 =
      ((splitFirst '?' s).map Prod.fst).getD s := by
    intro s
    cases splitFirst '?' s with
    | none => rfl
    | some p => rfl
  have hboth : (fun c : Char => decide ((!decide (c = '?')) = true ∧ (!decide (c = '#')) = true)) =
      isPathChar := by
    funext c
    simp [isPathChar]
  rw [hquery, splitFirst_fst, splitFirst_fst, List.takeWhile_takeWhile, hboth]
  rfl

/-- A character of a network location. -/
def isHostChar (c : Char) : Bool := !decide (c ∈ ['/', '?', '#'])

theorem targetPath_location (location : Str) :
    targetPath ("//".toList ++ location) =
      "//".toList ++ location.takeWhile isHostChar ++ targetPath (location.dropWhile isHostChar) := by
  have hpos : ∀ c ∈ "//".toList ++ location.takeWhile isHostChar, isPathChar c = true := by
    intro c hc
    rcases List.mem_append.1 hc with hc | hc
    · exact (by decide : ∀ c ∈ "//".toList, isPathChar c = true) c hc
    · have hhost := List.mem_takeWhile_imp hc
      rw [isHostChar, Bool.not_eq_true', decide_eq_false_iff_not] at hhost
      rw [isPathChar, Bool.not_eq_true', decide_eq_false_iff_not]
      exact fun hmem => hhost (List.mem_cons_of_mem '/' hmem)
  have hlocation : "//".toList ++ location =
      ("//".toList ++ location.takeWhile isHostChar) ++ location.dropWhile isHostChar := by
    rw [List.append_assoc, List.takeWhile_append_dropWhile]
  rw [hlocation, targetPath, List.takeWhile_append_of_pos hpos]
  rfl

/-- A network location is skipped, and what follows it is the path. -/
theorem urlsplit_skips [Urllib] (h : urlsplit target = some (path, query)) :
    ∃ skipped, targetPath (cleaned target) = skipped ++ path ∧
      (startsWith "//".toList (cleaned target) = false ∧ skipped = [] ∨
        startsWith "//".toList (cleaned target) = true ∧ 2 ≤ skipped.length) := by
  rw [urlsplit.eq_def] at h
  dsimp only at h
  generalize hp : ite (startsWith _ _ = true) _ _ = p at h
  split at h
  · cases h
  · split at h
    · cases h
    · have hpath : targetPath p.2 = path :=
        (path_of_url p.2).symm.trans (congrArg Prod.fst (Option.some.inj h))
      cases hdouble : startsWith "//".toList (cleaned target) with
      | false =>
        have hurl : p.2 = cleaned target := by
          rw [← hp]
          exact congrArg Prod.snd (if_neg (ne_of_eq_of_ne hdouble Bool.false_ne_true))
        rw [← hpath, hurl]
        exact ⟨[], rfl, .inl ⟨rfl, rfl⟩⟩
      | true =>
        obtain ⟨location, hlocation⟩ := List.isPrefixOf_iff_prefix.1 hdouble
        have hurl : p.2 = location.dropWhile isHostChar := by
          have hdrop : (cleaned target).drop 2 = location := by
            rw [← hlocation]
            rfl
          rw [← hp, ← hdrop]
          exact congrArg Prod.snd (if_pos hdouble)
        have hlength : 2 ≤ ("//".toList ++ location.takeWhile isHostChar).length := by
          rw [List.length_append]
          exact Nat.le_add_right 2 _
        refine ⟨_, ?_, .inr ⟨rfl, hlength⟩⟩
        rw [← hlocation, ← hpath, hurl]
        exact targetPath_location location

theorem not_unsafe_of_urlsplit [Urllib] (h : urlsplit target = some (path, query)) :
    ∀ c ∈ path, isUnsafe c = false := by
  intro c hc
  obtain ⟨skipped, hskipped, -⟩ := urlsplit_skips h
  have hmem : c ∈ targetPath (cleaned target) := by
    rw [hskipped]
    exact List.mem_append_right skipped hc
  have hclean := List.mem_filter.1 ((List.takeWhile_sublist _).subset hmem)
  rw [← Bool.not_eq_true']
  exact hclean.2

/-- A target that is clean up to its query begins like what is left of it. -/
theorem startsWith_cleaned {target : Str} (h : ∀ c ∈ targetPath target, isUnsafe c = false) :
    startsWith "//".toList (cleaned target) = startsWith "//".toList target := by
  have hslashes : ∀ s : Str, startsWith "//".toList s = startsWith "//".toList (targetPath s) := by
    intro s
    rw [startsWith, startsWith, Bool.eq_iff_iff, List.isPrefixOf_iff_prefix,
      List.isPrefixOf_iff_prefix]
    constructor
    · rintro ⟨location, rfl⟩
      rw [targetPath_location, List.append_assoc]
      exact List.prefix_append _ _
    · exact fun hbegin => hbegin.trans (List.takeWhile_prefix _)
  rw [hslashes, hslashes target, targetPath_cleaned_iff.2 h]

/-- A request that is made has the path that `urlsplit` finds, or a slash. -/
theorem path_of_make [Urllib]
    (h : Request.make method target version headers rawHeaders body bodySize remoteAddr = .ok req) :
    ∃ path query, urlsplit target = some (path, query) ∧
      req.path = if path = [] then ['/'] else path := by
  rw [Request.make] at h
  split at h
  · cases h
  · next path query hsplit =>
    cases h
    exact ⟨path, query, hsplit, rfl⟩

theorem targetPath_origin {target : Str} (h : startsWith "/".toList target = true) :
    ∃ rest, targetPath target = '/' :: rest := by
  obtain ⟨rest, rfl⟩ := List.isPrefixOf_iff_prefix.1 h
  exact ⟨_, List.takeWhile_cons_of_pos (by decide)⟩

/-- The path of a request is the path of its target just if the target neither begins with two slashes
nor has a character in its path that is removed. -/
theorem path_eq_iff [Urllib] (hblock : parseHeaderBlock raw cfg = .ok head)
    (hreq : Request.make head.method head.target head.version head.headers head.rawPairs body
      bodySize remoteAddr = .ok req) :
    req.path = targetPath head.target ↔
      startsWith "//".toList head.target = false ∧
        ∀ c ∈ targetPath head.target, isUnsafe c = false := by
  obtain ⟨requestLine, lines, method, hpassed⟩ := parseHeaderBlock_ok_iff.1 hblock
  obtain ⟨rest, hrest⟩ := targetPath_origin hpassed.target
  obtain ⟨path, query, hsplit, hpath⟩ := path_of_make hreq
  obtain ⟨skipped, hskipped, hslashes⟩ := urlsplit_skips hsplit
  constructor
  · intro heq
    have hclean : ∀ c ∈ targetPath head.target, isUnsafe c = false := by
      rw [← heq, hpath]
      split
      · decide
      · exact not_unsafe_of_urlsplit hsplit
    rw [targetPath_cleaned_iff.2 hclean] at hskipped
    refine ⟨?_, hclean⟩
    rcases hslashes with ⟨hsingle, -⟩ | ⟨-, hlength⟩
    · rwa [startsWith_cleaned hclean] at hsingle
    · -- The network location makes the path of the target longer than that of the request.
      have hlong : (targetPath head.target).length = skipped.length + path.length := by
        rw [hskipped, List.length_append]
      rw [← heq, hpath] at hlong
      split at hlong
      · rw [List.length_singleton] at hlong
        omega
      · omega
  · rintro ⟨hsingle, hclean⟩
    rw [targetPath_cleaned_iff.2 hclean] at hskipped
    rw [startsWith_cleaned hclean, hsingle] at hslashes
    rcases hslashes with ⟨-, rfl⟩ | ⟨htrue, -⟩
    · rw [List.nil_append] at hskipped
      rw [hpath, ← hskipped, hrest, if_neg (List.cons_ne_nil _ _)]
    · cases htrue

/-- The head of a request for this target. -/
def originHead (target : Str) : Head where
  method := "GET".toList
  target := target
  version := "HTTP/1.1".toList
  headers := (∅ : Headers).set "host".toList "h".toList
  rawPairs := [("host".toList, "h".toList)]

/-- The request for `/x/admin?q` has the path of its target. -/
theorem path_eq_iff_origin :
    ({ plainRequest "GET".toList with
        target := "/x/admin?q".toList, path := "/x/admin".toList, queryString := "q".toList } :
      Request).path = targetPath "/x/admin?q".toList := by
  let _ : Urllib := ⟨fun _ => true⟩
  have hblock : parseHeaderBlock (ascii "GET /x/admin?q HTTP/1.1\r\nHost: h\r\n\r\n") {} =
      .ok (originHead "/x/admin?q".toList) := by decide +kernel
  have hmake : Request.make "GET".toList "/x/admin?q".toList "HTTP/1.1".toList
      ((∅ : Headers).set "host".toList "h".toList) [("host".toList, "h".toList)] (.bytes []) 0 [] =
        .ok { plainRequest "GET".toList with
          target := "/x/admin?q".toList, path := "/x/admin".toList, queryString := "q".toList } := by
    decide +kernel
  exact (path_eq_iff hblock hmake).2 (by decide +kernel)

/-- The target `//x/admin` is routed as `/admin`. -/
theorem double_slash_path :
    parseHeaderBlock (ascii "GET //x/admin HTTP/1.1\r\nHost: h\r\n\r\n") {} =
        .ok (originHead "//x/admin".toList) ∧
      targetPath "//x/admin".toList = "//x/admin".toList ∧
      ∀ checkBracketedNetloc : Str → Bool,
        @Request.make ⟨checkBracketedNetloc⟩ "GET".toList "//x/admin".toList "HTTP/1.1".toList
          (originHead "//x/admin".toList).headers (originHead "//x/admin".toList).rawPairs
          (.bytes []) 0 [] =
            .ok { plainRequest "GET".toList with
              target := "//x/admin".toList, path := "/admin".toList } := by
  refine ⟨by decide +kernel, by decide +kernel, fun _ => rfl⟩

end Sovereign
