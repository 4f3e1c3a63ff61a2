import Sovereign.StaticFiles

namespace Sovereign
open PosixPath
set_option autoImplicit true

/-- `Path.parents` of an absolute path. -/
def parents (path : List Str) : List (List Str) := path.inits.dropLast

/-- The error that `safe_join` raises. -/
def traversalBlocked : Exc := .httpError 403 "Path traversal blocked"

/-- `safe_join`, for any way of resolving an absolute path. -/
def safeJoinVia (resolve : List Str → Except Exc (List Str)) (base : List Str) (userPath : Str) :
    Except Exc (List Str) := do
  let base ← resolve base
  let target ← resolve (base ++ joinedNames userPath)
  if base ≠ target ∧ base ∉ parents target then throw traversalBlocked
  return target

/-- `Path.resolve` of an absolute path where there are no symbolic links. -/
def resolvePlain (path : List Str) : Except Exc (List Str) :=
  if hasNul path then .error (.builtin .valueError) else .ok (path.foldl enter [])

theorem inits_eq (path : List Str) : path.inits = parents path ++ [path] := by
  have hends : ∃ init, path.inits = init ++ [path] := by
    induction path with
    | nil => exact ⟨[], rfl⟩
    | cons name path ih =>
      obtain ⟨init, hinit⟩ := ih
      have hcons : (name :: path).inits = [] :: path.inits.map (name :: ·) :=
        List.inits_cons name path
      rw [hcons, hinit, List.map_append]
      exact ⟨[] :: init.map (name :: ·), rfl⟩
  obtain ⟨init, hinit⟩ := hends
  rw [parents, hinit, List.dropLast_concat]

/-- A path is what it is compared with, or is above it, just if it is a prefix. -/
theorem prefix_iff_parents {base target : List Str} :
    base <+: target ↔ base = target ∨ base ∈ parents target := by
  rw [← List.mem_inits, inits_eq, List.mem_append, List.mem_singleton]
  exact or_comm

/-- What is returned is the resolved base or lies below it. -/
theorem safeJoinVia_cases (resolve : List Str → Except Exc (List Str)) (base : List Str)
    (userPath : Str) :
    (∃ e path, resolve path = .error e ∧ safeJoinVia resolve base userPath = .error e) ∨
      safeJoinVia resolve base userPath = .error traversalBlocked ∨
      ∃ base' target, resolve base = .ok base' ∧ safeJoinVia resolve base userPath = .ok target ∧
        base' <+: target := by
  rw [safeJoinVia]
  cases hbase : resolve base with
  | error e => exact .inl ⟨e, base, hbase, rfl⟩
  | ok base' =>
    rw [ok_bind]
    cases htarget : resolve (base' ++ joinedNames userPath) with
    | error e => exact .inl ⟨e, _, htarget, rfl⟩
    | ok target =>
      rw [ok_bind]
      by_cases hbelow : base' <+: target
      · have hpass : ¬ (base' ≠ target ∧ base' ∉ parents target) := by
          rintro ⟨hne, hmem⟩
          exact (prefix_iff_parents.1 hbelow).elim hne hmem
        rw [if_neg hpass]
        exact .inr (.inr ⟨base', target, rfl, rfl, hbelow⟩)
      · have hblock : base' ≠ target ∧ base' ∉ parents target := by
          constructor
          · exact fun heq => hbelow (prefix_iff_parents.2 (.inl heq))
          · exact fun hmem => hbelow (prefix_iff_parents.2 (.inr hmem))
        rw [if_pos hblock]
        exact .inr (.inl rfl)

theorem resolvePlain_eq {path : List Str} (h : hasNul path = false) :
    resolvePlain path = .ok (path.foldl enter []) := by
  rw [resolvePlain, h]
  rfl

theorem joinedNames_plain (userPath : Str) : ∀ name ∈ joinedNames userPath, PosixPath.Plain name :=
  fun _ hname => (plain_of_mem_normalize hname).1

/-- What names are appended to is still its beginning, where the path is resolved. -/
theorem foldl_enter_append {names : List Str} (h : ∀ name ∈ names, PosixPath.Plain name)
    (base : List Str) :
    (base.foldl enter [] ++ names).foldl enter [] = base.foldl enter [] ++ names := by
  have hbase : ∀ name ∈ base.foldl enter [], PosixPath.Plain name := by
    intro name hname
    rcases mem_foldl_enter hname with hname | ⟨-, hplain⟩
    · cases hname
    · exact hplain
  rw [List.foldl_append, foldl_enter_plain hbase, foldl_enter_plain h]
  rfl

theorem hasNul_append (path names : List Str) :
    hasNul (path ++ names) = (hasNul path || hasNul names) := List.any_append

/-- Resolving a path adds nothing to it. -/
theorem hasNul_resolved {base : List Str} (h : hasNul base = false) :
    hasNul (base.foldl enter []) = false := by
  rw [hasNul_iff] at h ⊢
  intro name hname
  rcases mem_foldl_enter hname with hname | ⟨hmem, -⟩
  · cases hname
  · exact h name hmem

/-- Without symbolic links `safe_join` goes below its base. -/
theorem safeJoinVia_plain {base : List Str} (hbase : hasNul base = false) (userPath : Str) :
    safeJoinVia resolvePlain base userPath = safeJoin (base.foldl enter []) userPath := by
  rw [safeJoinVia, resolvePlain_eq hbase, ok_bind, safeJoin]
  dsimp only
  have hnul := hasNul_append (base.foldl enter []) (joinedNames userPath)
  rw [hasNul_resolved hbase, Bool.false_or] at hnul
  have hbelow := List.prefix_append (base.foldl enter []) (joinedNames userPath)
  cases hnames : hasNul (joinedNames userPath) with
  | true =>
    rw [resolvePlain, hnul, hnames]
    rfl
  | false =>
    have hpass : ¬ (base.foldl enter [] ≠ base.foldl enter [] ++ joinedNames userPath ∧
        base.foldl enter [] ∉ parents (base.foldl enter [] ++ joinedNames userPath)) := by
      rintro ⟨hne, hmem⟩
      exact (prefix_iff_parents.1 hbelow).elim hne hmem
    rw [hnames] at hnul
    rw [resolvePlain_eq hnul, ok_bind, foldl_enter_append (joinedNames_plain userPath),
      if_neg hpass,
      if_neg Bool.false_ne_true, if_pos hbelow]
    rfl

theorem hasNul_joinedNames {userPath : Str}
    (h : Char.ofNat 0 ∉ unquote (userPath.map fun c => if c = '\\' then '/' else c)) :
    hasNul (joinedNames userPath) = false := by
  rw [hasNul_iff]
  intro name hname hnul
  have hsub := (plain_of_mem_normalize hname).2.2
  rcases List.mem_cons.1 (hsub hnul) with hslash | htext
  · revert hslash
    decide
  · exact h htext

/-- `safe_join` stays below its base. -/
theorem safeJoin_confined :
    (∀ (base : List Str) (userPath : Str), hasNul base = false →
      Char.ofNat 0 ∉ unquote (userPath.map fun c => if c = '\\' then '/' else c) →
      ∃ names, safeJoinVia resolvePlain base userPath = .ok (base.foldl enter [] ++ names) ∧
        ['.', '.'] ∉ names ∧ ∀ name ∈ names, ValidName name) ∧
    ∀ (resolve : List Str → List Str) (base : List Str) (userPath : Str),
      safeJoinVia (fun path => .ok (resolve path)) base userPath = .error traversalBlocked ∨
        ∃ target, safeJoinVia (fun path => .ok (resolve path)) base userPath = .ok target ∧
          resolve base <+: target := by
  constructor
  · intro base userPath hbase htext
    have hnames := hasNul_joinedNames htext
    refine ⟨joinedNames userPath, ?_, ?_, ?_⟩
    · rw [safeJoinVia_plain hbase, safeJoin, hnames]
      dsimp only
      rw [if_neg Bool.false_ne_true, if_pos (List.prefix_append _ _)]
    · exact fun hmem => (joinedNames_plain userPath _ hmem).2.2 rfl
    · intro name hname
      obtain ⟨⟨hne, hdot, hback⟩, hslash, -⟩ := plain_of_mem_normalize hname
      exact ⟨hne, hdot, hback, hslash, hasNul_iff.1 hnames name hname⟩
  · intro resolve base userPath
    rcases safeJoinVia_cases (fun path => .ok (resolve path)) base userPath with
      ⟨e, path, herror, -⟩ | hblocked | ⟨base', target, hbase, htarget, hbelow⟩
    · cases herror
    · exact .inl hblocked
    · cases hbase
      exact .inr ⟨target, htarget, hbelow⟩

/-- From `/srv/../www`, climbing with escapes and backslashes leads no further than `/www`. -/
theorem safeJoin_confined_climb :
    ∃ names, safeJoinVia resolvePlain ["srv".toList, "..".toList, "www".toList]
        "..\\%2e%2e/a//./%5Cb".toList = .ok (["www".toList] ++ names) ∧
      ['.', '.'] ∉ names ∧ ∀ name ∈ names, ValidName name :=
  safeJoin_confined.1 _ _ (by decide) (by decide +kernel)

end Sovereign
