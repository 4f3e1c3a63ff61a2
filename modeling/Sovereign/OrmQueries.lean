import Sovereign.OrmAnswers
import Sovereign.OrmFindable

namespace Sovereign
set_option autoImplicit true

/-- A statement that only reads leaves the table as it is. -/
theorem runStatement_table {params : Except PyError π} {t : Sqlite.Relation φ}
    {statement : π → Sqlite.Relation φ → Except Sqlite.Error (Sqlite.Relation φ × α)}
    (h : ∀ params t' a, statement params t = .ok (t', a) → t' = t) :
    (runStatement params statement (some t)).2 = some t := by
  cases params with
  | error => rfl
  | ok params =>
    rw [runStatement]
    cases hstatement : statement params t with
    | error => rfl
    | ok result => exact congrArg some (h params result.1 result.2 hstatement)

theorem raising_run (x : Except PyError α) (s : σ) : (raising x : Act σ α) s = (x.mapError .builtin, s) := by
  cases x with
  | _ => rfl

namespace Query

/-- A call on a query that is no call to the database. -/
def step (R : OrmRuntime κ φ) (q : Query κ φ) : QueryCall κ φ → Query κ φ
  | .where_ given => { q with filters := q.filters.update given.entries }
  | .limit n => { q with bound := some n }
  | .orderBy field descending =>
    if R.orderable field then { q with ordering := some (field, descending) } else q
  | .first => { q with bound := some 1 }
  | .all => q

variable {R : OrmRuntime κ φ} {M : OrmModel R} {t : Sqlite.Relation φ}

variable [DecidableEq φ]

theorem select_table (cond : ObjectFields κ φ) (limit : Option Int) (order : Option (Str × Bool)) :
    (M.select_ cond limit order (some t)).2 = some t := by
  rw [OrmModel.select_, Act.bind_run]
  have hrun : (runStatement (do
      let given ← R.bindParams cond
      let limit ← OrmRuntime.bindLimit limit
      return (given, limit)) (fun params t => do
        let rows ← t.select R.conv params.1 order params.2
        return (t, rows)) (some t)).2 = some t := by
    apply runStatement_table
    intro params t' rows h
    obtain ⟨_, _, h⟩ := except_bind_eq_ok.1 h
    cases h
    rfl
  split
  · next rows db h =>
    rw [h] at hrun
    rw [raising_run]
    exact hrun
  · next e db h =>
    rw [h] at hrun
    exact hrun

theorem call_eq (q : Query κ φ) (c : QueryCall κ φ) :
    call M (q, some t) c = (q.step R c, some t) := by
  cases c with
  | where_ given => rfl
  | limit n => rfl
  | orderBy field descending =>
    rw [call, orderBy, step]
    split
    · rfl
    · rfl
  | first =>
    have hall : (all M ({ q with bound := some 1 }, some t)).2 =
        ({ q with bound := some 1 }, some t) := congrArg (Prod.mk _) (select_table _ _ _)
    change ((all M >>= fun rows => pure rows.head?) _).2 = _
    rw [Act.bind_run]
    split
    · next h =>
      change (all M ({ q with bound := some 1 }, some t)) = _ at h
      rw [h] at hall
      exact hall
    · next h =>
      change (all M ({ q with bound := some 1 }, some t)) = _ at h
      rw [h] at hall
      exact hall
  | all =>
    exact congrArg (Prod.mk q) (select_table _ _ _)

theorem after_eq (calls : List (QueryCall κ φ)) :
    after M calls (some t) = (calls.foldl (step R) {}, some t) := by
  rw [after]
  generalize ({} : Query κ φ) = q
  induction calls generalizing q with
  | nil => rfl
  | cons c calls ih => rw [List.foldl_cons, call_eq, ih, List.foldl_cons]

end Query

theorem mem_limited {l : List α} {limit : Option Int} (h : a ∈ Sqlite.Table.limited limit l) :
    a ∈ l := by
  cases limit with
  | none => exact h
  | some n =>
    rw [Sqlite.Table.limited] at h
    split at h
    · exact h
    · exact List.mem_of_mem_take h

theorem limited_map {sel : Selection κ φ} {l : List α} {f : α → DataValue κ φ}
    (h : ∀ n ∈ sel.limit, 0 ≤ n) :
    (Sqlite.Table.limited sel.limit l).map f = sel.cut (l.map f) := by
  rw [Selection.cut]
  cases hlimit : sel.limit with
  | none => rfl
  | some n =>
    have hn := h n hlimit
    rw [Sqlite.Table.limited, if_neg (by omega)]
    exact List.map_take

/-- The rows that a `SELECT` finds, before they are cut. -/
def OrmRuntime.found [DecidableEq φ] (R : OrmRuntime κ φ) (t : Sqlite.Relation φ)
    (cond : ObjectFields κ φ) (order : Option (Str × Bool)) : List (Int × List (Sqlite.Value φ)) :=
  t.sorted R.conv order
    (t.scan.filter (t.holds R.conv.toConversions (cond.map fun e => (e.1, R.boundValue e.2))))

namespace OrmModel

variable {R : OrmRuntime κ φ} {M : OrmModel R} {t : Sqlite.Relation φ} {cond : ObjectFields κ φ}
  {order : Option (Str × Bool)} {sel : Selection κ φ}

/-- Whether the limit is the one of a `first`, after another call. -/
def cutByFirst (cut : Bool) : QueryCall κ φ → Bool
  | .limit _ => false
  | .first => true
  | _ => cut

/-- The call keeps to what a query does: it filters by values that SQLite compares with the fields
as they are, and by one value for each field, it sorts by a field, its limit is one of SQLite, and
it reads no more than one object after a `first`. -/
def Allows (M : OrmModel R) (t : Sqlite.Relation φ) (sel : Selection κ φ) (cut : Bool) :
    QueryCall κ φ → Prop
  | .where_ given => ∀ e ∈ given.entries, M.Filters e ∧ ∀ v, (e.1, v) ∈ sel.filters → v = e.2
  | .limit n => 0 ≤ n ∧ Fits64 n
  | .orderBy field _ => R.orderable field = true → field ∈ (R.fields M.cls).map DataField.name
  | .first => True
  | .all => cut = true → sel.limit = some 1 ∨
      sel.limit ≠ some 0 ∧ ∀ objs, M.Answers t { sel with limit := none } objs → objs.length ≤ 1

/-- All calls keep to it. -/
def Allowed (M : OrmModel R) (t : Sqlite.Relation φ) (calls : List (QueryCall κ φ)) : Prop :=
  ∀ earlier c later, calls = earlier ++ c :: later →
    M.Allows t (Selection.ofCalls R earlier) (earlier.foldl cutByFirst false) c

/-- A query and what has been asked for. -/
structure Asked (M : OrmModel R) (q : Query κ φ) (sel : Selection κ φ) (cut : Bool) : Prop where
  filters : ∀ e, e ∈ q.filters.entries ↔ e ∈ sel.filters
  ordering : q.ordering = sel.order
  bound : q.bound = if cut then some 1 else sel.limit
  typed : ∀ e ∈ sel.filters, M.Filters e
  named : ∀ o ∈ sel.order, o.1 ∈ (R.fields M.cls).map DataField.name
  limit : ∀ n ∈ sel.limit, 0 ≤ n ∧ Fits64 n

theorem Asked.where_ (h : M.Asked q sel cut) {given : Dict Str (DataValue κ φ)}
    (hgiven : M.Allows t sel cut (.where_ given)) :
    M.Asked (q.step R (.where_ given)) (sel.add R (.where_ given)) cut where
  filters := by
    intro e
    have hupdate : (q.filters.update given.entries).get? e.1 =
        (given.get? e.1).or (q.filters.get? e.1) := Dict.get?_update_nodup _ given.nodup e.1
    change e ∈ (q.filters.update given.entries).entries ↔ e ∈ sel.filters ++ given.entries
    rw [Dict.mem_entries_iff, hupdate, List.mem_append, ← h.filters, Dict.mem_entries_iff,
      Dict.mem_entries_iff]
    cases hnew : given.get? e.1 with
    | none =>
      rw [Option.none_or]
      exact ⟨.inl, fun h => h.elim id fun h => (by cases h)⟩
    | some v =>
      rw [Option.some_or]
      refine ⟨.inr, fun h' => h'.elim (fun h' => ?_) id⟩
      have hmem : (e.1, v) ∈ given.entries := Dict.mem_entries_iff.2 hnew
      have hold : (e.1, e.2) ∈ sel.filters := (h.filters e).1 (Dict.mem_entries_iff.2 h')
      rw [(hgiven _ hmem).2 e.2 hold]
  ordering := h.ordering
  bound := h.bound
  typed := by
    intro e he
    obtain he | he := List.mem_append.1 he
    · exact h.typed e he
    · exact (hgiven e he).1
  named := h.named
  limit := h.limit

/-- A call that keeps to it keeps the query at what has been asked for. -/
theorem Asked.step (h : M.Asked q sel cut) (hc : M.Allows t sel cut c) :
    M.Asked (q.step R c) (sel.add R c) (cutByFirst cut c) := by
  cases c with
  | where_ given => exact h.where_ hc
  | limit n =>
    refine ⟨h.filters, h.ordering, rfl, h.typed, h.named, ?_⟩
    intro m hm
    cases hm
    exact hc
  | orderBy field descending =>
    rw [Query.step, Selection.add]
    split
    · next hfield =>
      refine ⟨h.filters, rfl, h.bound, h.typed, ?_, h.limit⟩
      intro o ho
      cases ho
      exact hc hfield
    · exact h
  | first => exact ⟨h.filters, h.ordering, rfl, h.typed, h.named, h.limit⟩
  | all => exact h

theorem asked_of_allowed (h : M.Allowed t calls) :
    M.Asked (calls.foldl (Query.step R) {}) (Selection.ofCalls R calls)
      (calls.foldl cutByFirst false) := by
  induction calls using List.reverseRecOn with
  | nil =>
    refine ⟨fun _ => Iff.rfl, rfl, rfl, ?_, ?_, ?_⟩
    · exact fun _ h => absurd h List.not_mem_nil
    · exact fun _ h => by cases h
    · exact fun _ h => by cases h
  | append_singleton calls c ih =>
    have hcalls : M.Allowed t calls := by
      intro earlier c' later hsplit
      apply h earlier c' (later ++ [c])
      rw [hsplit, List.append_assoc, List.cons_append]
    rw [Selection.ofCalls, List.foldl_append, List.foldl_append, List.foldl_append]
    exact (ih hcalls).step (h calls c [] rfl)

theorem allowed_concat (h : M.Allowed t calls)
    (hc : M.Allows t (Selection.ofCalls R calls) (calls.foldl cutByFirst false) c) :
    M.Allowed t (calls ++ [c]) := by
  intro earlier c' later hsplit
  induction later using List.reverseRecOn with
  | nil =>
    obtain ⟨rfl, hlast⟩ := List.append_inj' hsplit rfl
    cases hlast
    exact hc
  | append_singleton later last _ =>
    rw [← List.cons_append, ← List.append_assoc] at hsplit
    obtain ⟨rfl, _⟩ := List.append_inj' hsplit rfl
    exact h earlier c' later rfl

/-- The queries differ in their limits only: one has the limit that is asked for. -/
structure Unlimited (q q' : Query κ φ) (sel : Selection κ φ) : Prop where
  filters : q'.filters = q.filters
  ordering : q'.ordering = q.ordering
  bound : q'.bound = sel.limit

theorem Unlimited.step (R : OrmRuntime κ φ) (h : Unlimited q q' sel) (hc : c.isFirst = false) :
    Unlimited (q.step R c) (q'.step R c) (sel.add R c) := by
  cases c with
  | where_ given => exact ⟨congrArg (Dict.update · given.entries) h.filters, h.ordering, h.bound⟩
  | limit n => exact ⟨h.filters, h.ordering, rfl⟩
  | orderBy field descending =>
    rw [Query.step, Query.step, Selection.add]
    split
    · exact ⟨h.filters, rfl, h.bound⟩
    · exact h
  | first => cases hc
  | all => exact h

/-- What the calls other than `first` make of a query. -/
theorem without_first (R : OrmRuntime κ φ) (calls : List (QueryCall κ φ)) :
    Unlimited (calls.foldl (Query.step R) {})
      ((calls.filter fun c => !c.isFirst).foldl (Query.step R) {}) (Selection.ofCalls R calls) := by
  induction calls using List.reverseRecOn with
  | nil => exact ⟨rfl, rfl, rfl⟩
  | append_singleton calls c ih =>
    rw [Selection.ofCalls, List.filter_append, List.foldl_append, List.foldl_append,
      List.foldl_append]
    cases hc : c.isFirst with
    | false =>
      rw [List.filter_cons_of_pos (by rw [hc]; rfl)]
      exact ih.step R hc
    | true =>
      rw [List.filter_cons_of_neg (by rw [hc]; decide)]
      cases c with
      | first => exact ⟨ih.filters, ih.ordering, ih.bound⟩
      | _ => cases hc

variable [DecidableEq φ]

theorem mem_found (h : row ∈ R.found t cond order) : row ∈ t.rows.entries := by
  have hmem := (Sqlite.Relation.sorted_perm order).subset h
  exact t.scan_perm.subset (List.mem_of_mem_filter hmem)

/-- `_select` from typed columns -/
theorem Typed.select (h : M.Typed t) (ht : M.Made t) (hcond : ∀ e ∈ cond, M.Filters e)
    {limit : Option Int} (hlimit : ∀ n ∈ limit, Fits64 n)
    (horder : ∀ o ∈ order, o.1 ∈ (R.fields M.cls).map DataField.name) :
    M.select_ cond limit order (some t) =
      (.ok ((Sqlite.Table.limited limit (R.found t cond order)).map (M.objectOf t)), some t) := by
  apply select_run.2
  refine ⟨_, (Sqlite.Table.limited limit (R.found t cond order)).map t.cells,
    bindParams_filters hcond, hlimit, ?_, ?_, rfl⟩
  · rw [Sqlite.Relation.select, if_pos]
    · rfl
    · rw [Bool.and_eq_true, List.all_eq_true, List.forall_mem_map]
      refine ⟨fun e he => (ht.affinity (hcond e he).1).1, ?_⟩
      cases order with
      | none => rfl
      | some o => exact (ht.affinity (horder o rfl)).1
  · rw [List.mapM_map]
    apply Traverse.except_map
    intro row hrow
    have hfound : row ∈ R.found t cond order := mem_limited hrow
    exact h.ofRow ht (mem_found hfound)

/-- What `SELECT` finds is what is asked for. -/
theorem Typed.answers (h : M.Typed t) (ht : M.Made t) (hordered : R.conv.Ordered)
    (hcond : ∀ e ∈ cond, M.Filters e) (hfilters : ∀ e, e ∈ cond ↔ e ∈ sel.filters)
    (horder : ∀ o ∈ sel.order, o.1 ∈ (R.fields M.cls).map DataField.name)
    (hlimit : ∀ n ∈ sel.limit, 0 ≤ n) :
    M.Answers t sel
      ((Sqlite.Table.limited sel.limit (R.found t cond sel.order)).map (M.objectOf t)) := by
  have hstored := h.stored ht fun row (hrow : row ∈ t.rows.entries) => hrow
  refine ⟨_, (R.found t cond sel.order).map (M.objectOf t), hstored, ?_, ?_, ?_⟩
  · rw [List.filter_map]
    apply List.Perm.map
    apply (Sqlite.Relation.sorted_perm sel.order).trans
    apply (t.scan_perm.filter _).trans
    apply List.Perm.of_eq
    apply List.filter_congr
    intro row hrow
    rw [Bool.eq_iff_iff, h.holds_iff ht hcond hrow]
    classical
    rw [Function.comp_apply, decide_eq_true_iff]
    exact forall_congr' fun e => imp_congr_left (hfilters e)
  · intro field descending hfield
    have hname := horder _ hfield
    rw [List.pairwise_map, OrmRuntime.found, hfield]
    refine (Sqlite.Relation.sorted_pairwise hordered field descending).imp_of_mem ?_
    intro row row' hrow hrow' hbefore
    rw [← hfield] at hrow hrow'
    obtain ⟨s, hscalar, hcell, hvalue⟩ := h.field (mem_found hrow) hname
    obtain ⟨s', hscalar', hcell', hvalue'⟩ := h.field (mem_found hrow') hname
    cases hscalar.unique hscalar'
    rw [attribute_objectOf hname, attribute_objectOf hname, hvalue, hvalue', OrmRuntime.precedes,
      ← OrmRuntime.order_cell hcell hcell']
    cases descending with
    | false => exact bne_iff_ne.1 hbefore
    | true => exact bne_iff_ne.1 hbefore
  · exact limited_map hlimit

/-- `all` on a query that keeps to what has been asked for -/
theorem Typed.all (h : M.Typed t) (ht : M.Made t) (hasked : M.Asked q sel cut) :
    Query.all M (q, some t) =
      (.ok ((Sqlite.Table.limited q.bound (R.found t q.filters.entries sel.order)).map
        (M.objectOf t)), (q, some t)) := by
  have hcond : ∀ e ∈ q.filters.entries, M.Filters e := by
    intro e he
    exact hasked.typed e ((hasked.filters e).1 he)
  have hbound : ∀ n ∈ q.bound, Fits64 n := by
    intro n hn
    rw [hasked.bound] at hn
    cases cut with
    | true =>
      cases hn
      decide
    | false => exact (hasked.limit n hn).2
  have hselect := h.select ht hcond hbound hasked.named
  rw [← hasked.ordering] at hselect ⊢
  rw [Query.all]
  dsimp only
  rw [hselect]

/-- Where it makes no difference, the limit of a `first` is as good as the one that is asked for. -/
theorem Asked.limited (h : M.Typed t) (ht : M.Made t) (hordered : R.conv.Ordered)
    (hasked : M.Asked q sel cut) (hall : M.Allows t sel cut .all) :
    (Sqlite.Table.limited q.bound (R.found t q.filters.entries sel.order)).map (M.objectOf t) =
      (Sqlite.Table.limited sel.limit (R.found t q.filters.entries sel.order)).map
        (M.objectOf t) := by
  rw [hasked.bound]
  cases cut with
  | false => rfl
  | true =>
    rw [if_pos rfl]
    obtain hone | ⟨hzero, hshort⟩ := hall rfl
    · rw [hone]
    · have hlength : (R.found t q.filters.entries sel.order).length ≤ 1 := by
        have hanswers : M.Answers t { sel with limit := none } _ := h.answers ht hordered
          (fun e he => hasked.typed e ((hasked.filters e).1 he)) hasked.filters hasked.named
          (fun n hn => by cases hn)
        have hle := hshort _ hanswers
        rwa [List.length_map] at hle
      cases hlimit : sel.limit with
      | none =>
        change List.map _ (List.take 1 _) = List.map _ _
        rw [List.take_of_length_le hlength]
        rfl
      | some n =>
        have hn := (hasked.limit n hlimit).1
        have hne : n ≠ 0 := fun h0 => hzero (by rw [hlimit, h0])
        have hlong : (R.found t q.filters.entries sel.order).length ≤ n.toNat := by omega
        rw [Sqlite.Table.limited, Sqlite.Table.limited, if_neg (by decide), if_neg (by omega),
          List.take_of_length_le hlong]
        exact congrArg _ (List.take_of_length_le hlength)

end OrmModel

/-- The numbers of SQLite where the reals are rational. -/
def ratNumber : Sqlite.Value ℚ → ℚ
  | .integer n => n
  | .real x => x
  | _ => 0

def ratOrder (x y : ℚ) : Ordering := if x < y then .lt else if x = y then .eq else .gt

theorem ratOrder_swap (x y : ℚ) : ratOrder y x = (ratOrder x y).swap := by
  rw [ratOrder, ratOrder]
  rcases lt_trichotomy x y with h | h | h
  · rw [if_neg h.not_gt, if_neg h.ne', if_pos h]
    rfl
  · rw [if_neg h.not_gt, if_pos h.symm, if_neg h.not_lt, if_pos h]
    rfl
  · rw [if_pos h, if_neg h.not_gt, if_neg h.ne']
    rfl

theorem ratOrder_le (x y : ℚ) : ratOrder x y ≠ .gt ↔ x ≤ y := by
  rw [ratOrder]
  rcases lt_trichotomy x y with h | h | h
  · rw [if_pos h]
    exact ⟨fun _ => h.le, fun _ h => by cases h⟩
  · rw [if_neg h.not_lt, if_pos h]
    exact ⟨fun _ => h.le, fun _ h => by cases h⟩
  · rw [if_neg h.not_gt, if_neg h.ne']
    exact ⟨fun h' => absurd rfl h', fun h' => absurd h' h.not_ge⟩

section Rationals

variable {fields : κ → List (DataField κ ℚ)} {className : κ → Str}
  {loads : DataValue κ ℚ → Except PyError (DataValue κ ℚ)}
  {hnames : ∀ cls, ((fields cls).map DataField.name).Nodup}

theorem numbers_le {a b : Sqlite.Value ℚ} (ha : a.rank = 1) (hb : b.rank = 1) :
    (OrmRuntime.ofFields fields className loads hnames).conv.order a b ≠ .gt ↔
      ratNumber a ≤ ratNumber b := by
  cases a with
  | integer m =>
    cases b with
    | integer n =>
      change compare m n ≠ .gt ↔ (m : ℚ) ≤ n
      rw [Int.cast_le]
      exact compare_le_iff_le
    | real y => exact ratOrder_le m y
    | _ => cases hb
  | real x =>
    cases b with
    | integer n =>
      change (ratOrder n x).swap ≠ .gt ↔ x ≤ n
      rw [← ratOrder_swap]
      exact ratOrder_le x n
    | real y => exact ratOrder_le x y
    | _ => cases hb
  | _ => cases ha

theorem OrmRuntime.ofFields_ordered :
    (OrmRuntime.ofFields fields className loads hnames).conv.Ordered where
  reals_swap := ratOrder_swap
  numbers_trans := by
    intro a b c ha hb hc hab hbc
    rw [numbers_le ha hb] at hab
    rw [numbers_le hb hc] at hbc
    rw [numbers_le ha hc]
    exact hab.trans hbc

end Rationals

/-- A table with one page. -/
def pageTable (slug : Sqlite.Value ℚ) : Sqlite.Relation ℚ :=
  Sqlite.Relation.put
    ⟨pageColumns, "slug".toList, .unique, ∅, 0, Sqlite.Relation.no_rows_known,
      Sqlite.Relation.no_rows_positive⟩
    1 [slug, .text "Start".toList]

theorem pageTable_made (slug : Sqlite.Value ℚ) : pageModel.Made (pageTable slug) :=
  ⟨pageModel_creates, rfl, rfl⟩

theorem pageTable_typed (hslug : ScalarType.Cell pageRuntime .str slug) :
    pageModel.Typed (pageTable slug) := by
  intro row hrow f hf
  obtain rfl := List.mem_singleton.1 hrow
  refine ⟨.str, ?_⟩
  obtain rfl | hf := List.mem_cons.1 hf
  · exact ⟨.optional rfl rfl, hslug⟩
  · obtain rfl := List.mem_singleton.1 hf
    exact ⟨.plain, .str⟩

namespace OrmModel

/-- The pages with a title, by their slugs. -/
def startPages : List (QueryCall Unit ℚ) :=
  [.where_ (Dict.empty.set "title".toList (.str "Start".toList)), .orderBy "slug".toList false]

theorem startPages_allowed (t : Sqlite.Relation ℚ) :
    pageModel.Allowed t (startPages ++ [.all]) := by
  have hnone : pageModel.Allowed t [] := by
    intro earlier c later hsplit
    cases earlier with
    | _ => cases hsplit
  have hfilter := allowed_concat (c := .where_ (Dict.empty.set "title".toList
    (.str "Start".toList))) hnone ?_
  · have horder := allowed_concat (c := .orderBy "slug".toList false) hfilter ?_
    · exact allowed_concat (c := .all) horder fun h => by cases h
    · intro _
      exact List.mem_cons_self
  · intro e he
    obtain rfl := List.mem_singleton.1 he
    refine ⟨⟨List.mem_cons_of_mem _ List.mem_cons_self, .str, _, .plain, .str, rfl⟩, ?_⟩
    intro v hv
    cases hv

/-- The pages without a slug. -/
def unnamedPages : List (QueryCall Unit ℚ) := [.where_ (Dict.empty.set "slug".toList .none)]

end OrmModel

end Sovereign
