import Sovereign.Verdict

namespace Sovereign
set_option autoImplicit true

/-- A value has one way to inhabit the annotation: a union has one member besides `None`, a tuple
one type for all its items, and a dict has strings as keys. -/
inductive TypeHint.Direct : TypeHint κ → Prop where
  | any : Direct .any
  | bool : Direct .bool
  | int : Direct .int
  | float : Direct .float
  | str : Direct .str
  | bytes : Direct .bytes
  | none : Direct (.plain .none)
  | union (hmembers : candidates members = [m]) (h : Direct m) : Direct (.union members)
  | container (h : Direct item) : Direct (.container kind item)
  | dict (h : Direct val) : Direct (.dict .str val)

section Dicts

variable {same : α → α → Bool}

theorem dictOf_append (entries : List (α × β)) (entry : α × β) :
    dictOf same (entries ++ [entry]) = setKey same (dictOf same entries) entry := by
  rw [dictOf, dictOf, List.foldl_append]
  rfl

theorem dictOf_of_pairwise {entries : List (α × β)}
    (h : (entries.map Prod.fst).Pairwise fun k l => same k l = false) :
    dictOf same entries = entries := by
  induction entries using List.reverseRecOn with
  | nil => rfl
  | append_singleton entries entry ih =>
    rw [List.map_append, List.pairwise_append] at h
    obtain ⟨hentries, _, hnew⟩ := h
    have hany : ¬ (entries.any fun e => same e.1 entry.1) = true := by
      rw [List.any_eq_true]
      intro ⟨e, he, hsame⟩
      have hdistinct := hnew e.1 (List.mem_map_of_mem he) entry.1 (List.mem_singleton_self _)
      rw [hdistinct] at hsame
      cases hsame
    rw [dictOf_append, ih hentries, setKey, if_neg hany]

theorem dictOf_length_le (entries : List (α × β)) :
    (dictOf same entries).length ≤ entries.length := by
  induction entries using List.reverseRecOn with
  | nil => exact Nat.le_refl _
  | append_singleton entries entry ih =>
    rw [dictOf_append, setKey, List.length_append]
    split
    · rw [List.length_map]
      exact Nat.le_add_right_of_le ih
    · rw [List.length_append]
      exact Nat.add_le_add_right ih _

/-- A dict that has lost no entry had no key twice. -/
theorem pairwise_of_dictOf {entries : List (α × β)}
    (h : entries.length ≤ (dictOf same entries).length) :
    (entries.map Prod.fst).Pairwise fun k l => same k l = false := by
  induction entries using List.reverseRecOn with
  | nil => exact .nil
  | append_singleton entries entry ih =>
    have hle : (dictOf same entries).length ≤ entries.length := dictOf_length_le entries
    rw [dictOf_append, setKey, List.length_append, List.length_singleton] at h
    split at h
    · rw [List.length_map] at h
      omega
    · next hany =>
      rw [List.length_append, List.length_singleton] at h
      have hentries := ih (by omega)
      rw [dictOf_of_pairwise hentries] at hany
      rw [List.map_append, List.pairwise_append]
      refine ⟨hentries, List.pairwise_singleton _ _, fun k hk l hl => ?_⟩
      obtain ⟨e, he, rfl⟩ := List.mem_map.1 hk
      obtain rfl := List.mem_singleton.1 hl
      rw [← Bool.not_eq_true]
      exact fun hsame => hany (List.any_eq_true.2 ⟨e, he, hsame⟩)

theorem map_fst_unit (items : List α) : (items.map fun v => (v, ())).map Prod.fst = items := by
  rw [List.map_map]
  exact List.map_id _

theorem setOf_of_pairwise {items : List α} (h : items.Pairwise fun v w => same v w = false) :
    setOf same items = items := by
  rw [← map_fst_unit items] at h
  rw [setOf, dictOf_of_pairwise h, map_fst_unit]

theorem pairwise_of_setOf {items : List α} (h : items.length ≤ (setOf same items).length) :
    items.Pairwise fun v w => same v w = false := by
  rw [setOf, List.length_map] at h
  have hlength : (items.map fun v => (v, ())).length ≤
      (dictOf same (items.map fun v => (v, ()))).length := by
    rw [List.length_map]
    exact h
  have hpairwise := pairwise_of_dictOf hlength
  rwa [map_fst_unit] at hpairwise

end Dicts

namespace Interpreter

variable (R : Interpreter κ φ)

/-- The value inhabits the annotation. The elements of a set and the keys of a dict can be hashed
and are not the same. -/
inductive Inhabits : TypeHint κ → DataValue κ φ → Prop where
  | any : Inhabits .any v
  | bool : Inhabits .bool (.bool b)
  | int : Inhabits .int (.int n)
  | float : Inhabits .float (.float x)
  | str : Inhabits .str (.str s)
  | bytes : Inhabits .bytes (.bytes b)
  | none : Inhabits (.plain .none) .none
  | union (hm : m ∈ members) (h : Inhabits m v) : Inhabits (.union members) v
  | container (hset : kind.isSet = true → items.all R.hashable = true ∧
        items.Pairwise fun v w => R.same v w = false)
      (h : ∀ w ∈ items, Inhabits item w) :
      Inhabits (.container kind item) (.container kind items)
  | fixedTuple (hlength : items.length = types.length)
      (h : ∀ p ∈ types.zip items, Inhabits p.1 p.2) :
      Inhabits (.fixedTuple types) (.container .tuple items)
  | dict (hkeys : (entries.map Prod.fst).Pairwise fun k l => R.same k l = false)
      (hhash : ∀ e ∈ entries, R.hashable e.1 = true)
      (hkey : ∀ e ∈ entries, Inhabits key e.1) (hval : ∀ e ∈ entries, Inhabits val e.2) :
      Inhabits (.dict key val) (.dict entries)

/-- `coerce_value` has no reason to change the value: the members of a union before the one that
the value is left to refuse it, all items of a tuple are of its first type, and the keys of a dict
can be printed. -/
inductive Kept : TypeHint κ → DataValue κ φ → Prop where
  | any : Kept .any v
  | bool : Kept .bool (.bool b)
  | int : Kept .int (.int n)
  | float : Kept .float (.float x)
  | str : Kept .str (.str s)
  | bytes : Kept .bytes (.bytes b)
  | plain (h : R.isInstanceOf v cls = true) : Kept (.plain cls) v
  | none (h : members.any TypeHint.isNone = true) : Kept (.union members) .none
  | member (hnone : (members.any TypeHint.isNone && v.isNone) = false)
      (hmembers : TypeHint.candidates members = before ++ m :: after)
      (hbefore : ∀ b ∈ before, R.verdict v b = .error .refused) (h : Kept m v) :
      Kept (.union members) v
  | container (hset : kind.isSet = true → items.all R.hashable = true ∧
        items.Pairwise fun v w => R.same v w = false)
      (h : ∀ w ∈ items, Kept item w) :
      Kept (.container kind item) (.container kind items)
  | fixedTuple (h : ∀ w ∈ items, Kept (TypeHint.itemType types) w) :
      Kept (.fixedTuple types) (.container .tuple items)
  | dict (hkeys : (entries.map Prod.fst).Pairwise fun k l => R.same k l = false)
      (hhash : ∀ e ∈ entries, R.hashable e.1 = true)
      (hprint : ∀ e ∈ entries, ∃ text, R.toStr e.1 = .ok text)
      (hkey : ∀ e ∈ entries, Kept key e.1) (hval : ∀ e ∈ entries, Kept val e.2) :
      Kept (.dict key val) (.dict entries)

variable {R}

theorem coerce_of_refused (name : Str) (h : R.verdict v tp = .error .refused) :
    ∃ message, R.coerceValue v tp name = .error (.validation message) := by
  rw [← R.abstract_coerceValue v tp name] at h
  cases hc : R.coerceValue v tp name with
  | ok r =>
    rw [hc] at h
    cases h
  | error err =>
    cases err with
    | validation message => exact ⟨message, rfl⟩
    | raised err =>
      rw [hc] at h
      cases h

theorem refused_of_coerce (h : R.coerceValue v tp name = .error (.validation message)) :
    R.verdict v tp = .error .refused := by
  rw [← R.abstract_coerceValue v tp name, h]
  rfl

theorem kept_scalar {v : DataValue κ φ} {tp : TypeHint κ} (htp : tp.isScalar = true) :
    R.coerceScalar v tp name = .ok v ↔ R.Kept tp v := by
  constructor
  · intro h
    cases tp with
    | any => exact .any
    | bool =>
      cases v with
      | bool b => exact .bool
      | str s =>
        rw [coerceScalar] at h
        split at h
        · cases h
        · split at h
          · cases h
          · cases h
      | _ => cases h
    | int =>
      rw [coerceScalar] at h
      split at h
      · cases h
      · obtain ⟨n, _, rfl⟩ := except_map_eq_ok.1 h
        exact .int
    | float =>
      rw [coerceScalar] at h
      split at h
      · cases h
      · obtain ⟨x, _, rfl⟩ := except_map_eq_ok.1 h
        exact .float
    | str =>
      obtain ⟨s, _, rfl⟩ := except_map_eq_ok.1 h
      exact .str
    | bytes =>
      cases v with
      | bytes b => exact .bytes
      | str s => cases h
      | _ => cases h
    | plain cls =>
      rw [coerceScalar] at h
      split at h
      · next hinstance => exact .plain hinstance
      · cases h
    | _ => cases htp
  · intro h
    cases h with
    | plain h => rw [coerceScalar, if_pos h]
    | none | member | container | fixedTuple | dict => cases htp
    | _ => rfl

theorem kept_container {v : DataValue κ φ} {kind : ContainerKind} {item : TypeHint κ}
    (ih : ∀ w ∈ v.items, ∀ name, R.coerceValue w item name = .ok w ↔ R.Kept item w) :
    R.coerceValue v (.container kind item) name = .ok v ↔
      ∃ items, v = .container kind items ∧ (∀ w ∈ items, R.Kept item w) ∧
        (kind.isSet = true → items.all R.hashable = true ∧
          items.Pairwise fun v w => R.same v w = false) := by
  rw [coerceValue_container, except_bind_eq_ok]
  constructor
  · intro ⟨results, hresults, h⟩
    obtain ⟨hhash, hv⟩ := R.collect_ok.1 h
    have hmade := Traverse.except_iff.1 hresults
    have hitems : v.items = if kind.isSet then setOf R.same results else results := by
      rw [hv]
      rfl
    have hkept : results = v.items ∧
        (kind.isSet = true → results.Pairwise fun v w => R.same v w = false) := by
      split at hitems
      · have hpairwise : results.Pairwise fun v w => R.same v w = false :=
          pairwise_of_setOf (by rw [← hitems, hmade.length_eq])
        rw [setOf_of_pairwise hpairwise] at hitems
        exact ⟨hitems.symm, fun _ => hpairwise⟩
      · next hset => exact ⟨hitems.symm, fun h => absurd h hset⟩
    obtain ⟨rfl, hpairwise⟩ := hkept
    refine ⟨v.items, ?_, fun w hw => ?_, fun hset => ⟨hhash hset, hpairwise hset⟩⟩
    · exact hv.trans (congrArg _ hitems.symm)
    · exact (ih w hw _).1 (List.forall₂_same.1 hmade w hw)
  · intro ⟨items, hv, hkept, hset⟩
    subst hv
    refine ⟨items, Traverse.except_iff.2 (List.forall₂_same.2 fun w hw => ?_), ?_⟩
    · exact (ih w hw _).2 (hkept w hw)
    · refine R.collect_ok.2 ⟨fun h => (hset h).1, ?_⟩
      split
      · next h => rw [setOf_of_pairwise (hset h).2]
      · rfl

theorem kept_dict {entries : List (DataValue κ φ × DataValue κ φ)} {key val : TypeHint κ}
    (ih : ∀ e ∈ entries,
      (∀ name, R.coerceValue e.1 key name = .ok e.1 ↔ R.Kept key e.1) ∧
      ∀ name, R.coerceValue e.2 val name = .ok e.2 ↔ R.Kept val e.2) :
    R.coerceValue (.dict entries) (.dict key val) name = .ok (.dict entries) ↔
      R.Kept (.dict key val) (.dict entries) := by
  rw [coerceValue_dict, except_map_eq_ok]
  constructor
  · intro ⟨out, hout, h⟩
    have hdict : dictOf R.same out = entries := DataValue.dict.inj h
    have hmade := Traverse.except_iff.1 hout
    have hlength : out.length ≤ (dictOf R.same out).length := by rw [hdict, hmade.length_eq]
    have hpairwise := pairwise_of_dictOf hlength
    rw [dictOf_of_pairwise hpairwise] at hdict
    subst hdict
    have hentry := List.forall₂_same.1 hmade
    refine .dict hpairwise (fun e he => ?_) (fun e he => ?_) (fun e he => ?_) (fun e he => ?_)
    · exact ((R.coerceEntry_ok _).1 (hentry e he)).2.2
    · obtain ⟨_, ⟨text, htext, _⟩, _⟩ := (R.coerceEntry_ok _).1 (hentry e he)
      exact ⟨text, htext⟩
    · exact ((ih e he).1 _).1 ((R.coerceEntry_ok _).1 (hentry e he)).1
    · obtain ⟨_, ⟨text, _, hv⟩, _⟩ := (R.coerceEntry_ok _).1 (hentry e he)
      exact ((ih e he).2 _).1 hv
  · intro h
    cases h with
    | dict hkeys hhash hprint hkey hval =>
      refine ⟨entries, Traverse.except_iff.2 (List.forall₂_same.2 fun e he => ?_), ?_⟩
      · obtain ⟨text, htext⟩ := hprint e he
        refine (R.coerceEntry_ok _).2 ⟨((ih e he).1 _).2 (hkey e he), ?_, hhash e he⟩
        exact ⟨text, htext, ((ih e he).2 _).2 (hval e he)⟩
      · rw [dictOf_of_pairwise hkeys]

theorem kept_union {v : DataValue κ φ} {members : List (TypeHint κ)}
    (ih : ∀ m ∈ TypeHint.candidates members, ∀ name,
      R.coerceValue v m name = .ok v ↔ R.Kept m v) :
    R.coerceValue v (.union members) name = .ok v ↔ R.Kept (.union members) v := by
  rw [coerceValue_union]
  constructor
  · intro h
    split at h
    · next hnone =>
      rw [Bool.and_eq_true] at hnone
      cases h
      exact .none hnone.1
    · next hnone =>
      obtain ⟨before, after, hattempts, hbefore⟩ := firstMatch_ok.1 h
      obtain ⟨refusing, rest, hmembers, rfl, hrest⟩ := List.map_eq_append_iff.1 hattempts
      obtain ⟨m, others, rfl, hm, _⟩ := List.map_eq_cons_iff.1 hrest
      have hmem : m ∈ TypeHint.candidates members :=
        hmembers ▸ List.mem_append_right _ List.mem_cons_self
      refine .member (Bool.not_eq_true _ ▸ hnone) hmembers (fun b hb => ?_) ((ih m hmem name).1 hm)
      obtain ⟨message, hmessage⟩ := hbefore _ (List.mem_map_of_mem hb)
      exact refused_of_coerce hmessage
  · intro h
    cases h with
    | none hmember => rw [hmember]; rfl
    | member hnone hmembers hbefore hm =>
      rename_i before m after
      rw [hnone, if_neg Bool.false_ne_true, firstMatch_ok, hmembers, List.map_append, List.map_cons]
      have hmem : m ∈ TypeHint.candidates members :=
        hmembers ▸ List.mem_append_right _ List.mem_cons_self
      rw [(ih m hmem name).2 hm]
      refine ⟨_, _, rfl, List.forall_mem_map.2 fun b hb => ?_⟩
      exact coerce_of_refused name (hbefore b hb)

variable (R)

/-- `coerce_value` returns the value that it is given just if it has no reason to change it. -/
theorem coerceValue_keeps_iff (v : DataValue κ φ) (tp : TypeHint κ) :
    ∀ name, R.coerceValue v tp name = .ok v ↔ R.Kept tp v := by
  induction v, tp using coercion_induction with
  | scalar v tp h =>
    intro name
    rw [coerceValue_scalar _ _ _ h]
    exact kept_scalar h
  | union v members ih =>
    intro name
    exact kept_union ih
  | container v kind item ih =>
    intro name
    rw [kept_container ih]
    constructor
    · intro ⟨items, hv, hkept, hset⟩
      subst hv
      exact .container hset hkept
    · intro h
      cases h with
      | container hset hkept => exact ⟨_, rfl, hkept, hset⟩
  | fixedTuple v types ih =>
    intro name
    rw [coerceValue_fixedTuple, kept_container ih]
    constructor
    · intro ⟨items, hv, hkept, _⟩
      subst hv
      exact .fixedTuple hkept
    · intro h
      cases h with
      | fixedTuple hkept => exact ⟨_, rfl, hkept, fun h => (by cases h)⟩
  | dict entries key val ih =>
    intro name
    exact kept_dict ih
  | model entries cls _ =>
    intro name
    rw [coerceValue_model, validateModel_ok]
    constructor
    · intro ⟨_, _, h, _⟩
      cases h
    · intro h
      cases h
  | noDict v tp hobject hdict =>
    intro name
    rw [coerceValue_noDict _ _ _ hobject hdict]
    constructor
    · intro h
      cases h
    · intro h
      cases h with
      | dict => cases hdict
      | _ => cases hobject

variable {R}

theorem Inhabits.of_union (h : R.Inhabits (.union members) v) :
    ∃ m ∈ members, R.Inhabits m v := by
  cases h with
  | union hm h => exact ⟨_, hm, h⟩

theorem Inhabits.of_none (h : R.Inhabits tp v) (htp : tp.isNone = true) : v.isNone = true := by
  cases h with
  | none => rfl
  | _ => cases htp

theorem Inhabits.of_str (h : R.Inhabits .str v) : ∃ s, v = .str s := by
  cases h with
  | str => exact ⟨_, rfl⟩

theorem kept_of_direct (hdirect : tp.Direct) (h : R.Inhabits tp v) : R.Kept tp v := by
  induction hdirect generalizing v with
  | any => exact .any
  | bool =>
    cases h
    exact .bool
  | int =>
    cases h
    exact .int
  | float =>
    cases h
    exact .float
  | str =>
    cases h
    exact .str
  | bytes =>
    cases h
    exact .bytes
  | none =>
    cases h
    exact .plain rfl
  | union hmembers hm ih =>
    rename_i members m
    cases hnone : members.any TypeHint.isNone && v.isNone with
    | true =>
      rw [Bool.and_eq_true, DataValue.isNone_iff] at hnone
      obtain ⟨hmember, rfl⟩ := hnone
      exact .none hmember
    | false =>
      have hsplit : TypeHint.candidates members = [] ++ m :: [] := hmembers
      refine .member hnone hsplit (fun b hb => absurd hb List.not_mem_nil) (ih ?_)
      obtain ⟨m', hm', h⟩ := h.of_union
      have hcandidate : m' ∈ TypeHint.candidates members := by
        refine List.mem_filter.2 ⟨hm', ?_⟩
        cases hprim : m'.isNone with
        | false => rfl
        | true =>
          have hmember := List.any_eq_true.2 ⟨m', hm', hprim⟩
          rw [hmember, Bool.true_and, h.of_none hprim] at hnone
          cases hnone
      rw [hmembers, List.mem_singleton] at hcandidate
      exact hcandidate ▸ h
  | container _ ih =>
    cases h with
    | container hset h => exact .container hset fun w hw => ih (h w hw)
  | dict _ ih =>
    cases h with
    | dict hkeys hhash hkey hval =>
      refine .dict hkeys hhash (fun e he => ?_) (fun e he => ?_) fun e he => ih (hval e he)
      · obtain ⟨s, hs⟩ := (hkey e he).of_str
        exact ⟨s, hs ▸ rfl⟩
      · obtain ⟨s, hs⟩ := (hkey e he).of_str
        exact hs ▸ .str

def plainInterpreter : Interpreter Unit ℚ := ofFields (fun _ => []) fun _ => []

/-- The text of a number becomes a number where a union has `int` before `str`, and a pair of
different types is refused. -/
theorem coerceValue_converts :
    (plainInterpreter.Inhabits (.union [.int, .str]) (.str "5".toList) ∧
      plainInterpreter.coerceValue (.str "5".toList) (.union [.int, .str]) "value".toList =
        .ok (.int 5)) ∧
    plainInterpreter.Inhabits (.fixedTuple [.int, .str])
        (.container .tuple [.int 1, .str "x".toList]) ∧
      plainInterpreter.coerceValue (.container .tuple [.int 1, .str "x".toList])
        (.fixedTuple [.int, .str]) "value".toList =
          .error (.validation "value[]: expected int".toList) := by
  have hnumber (name : Str) : plainInterpreter.coerceValue (.str "5".toList) .int name =
      .ok (.int 5) := by
    have hdigits : Json.intOfStr ("5".toList.map plainInterpreter.asciiDigit) = some 5 := by decide
    rw [coerceValue_scalar _ _ _ rfl, coerceScalar, toInt, hdigits]
    rfl
  have htext (name : Str) : plainInterpreter.coerceValue (.str "x".toList) .int name =
      .error (expected name "int".toList) := by
    have hdigits : Json.intOfStr ("x".toList.map plainInterpreter.asciiDigit) = none := by decide
    rw [coerceValue_scalar _ _ _ rfl, coerceScalar, toInt, hdigits]
    rfl
  have hone (name : Str) : plainInterpreter.coerceValue (.int 1) .int name = .ok (.int 1) :=
    coerceValue_scalar _ _ _ rfl
  refine ⟨⟨.union (List.mem_cons_of_mem _ List.mem_cons_self) .str, ?_⟩, .fixedTuple rfl ?_, ?_⟩
  · rw [coerceValue_union]
    change firstMatch _ [] [plainInterpreter.coerceValue (.str "5".toList) .int _, _] = _
    rw [hnumber]
    rfl
  · intro p hp
    obtain rfl | hp := List.mem_cons.1 hp
    · exact .int
    · obtain rfl := List.mem_singleton.1 hp
      exact .str
  · rw [coerceValue_fixedTuple, coerceValue_container]
    change ([DataValue.int 1, .str "x".toList].mapM fun v =>
      plainInterpreter.coerceValue v .int "value[]".toList) >>= _ = _
    rw [List.mapM_cons, hone, List.mapM_cons, htext]
    rfl

end Interpreter

end Sovereign
