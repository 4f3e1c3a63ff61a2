import Sovereign.OrmCells

namespace Sovereign
set_option autoImplicit true

/-- `getattr(obj, name)` -/
def DataValue.attribute (name : Str) : DataValue κ φ → DataValue κ φ
  | .object _ fields => ((fields.find? fun e => decide (e.1 = name)).map Prod.snd).getD .none
  | _ => .none

/-- Whether a value may come before another where they are in order. -/
def OrmRuntime.precedes (R : OrmRuntime κ φ) (descending : Bool) (v w : DataValue κ φ) : Prop :=
  if descending then R.compareValues v w ≠ .lt else R.compareValues v w ≠ .gt

/-- What the calls on a query ask for. -/
structure Selection (κ φ : Type) where
  filters : ObjectFields κ φ := []
  limit : Option Int := none
  order : Option (Str × Bool) := none

namespace Selection

variable (R : OrmRuntime κ φ) (sel : Selection κ φ)

def add : QueryCall κ φ → Selection κ φ
  | .where_ given => { sel with filters := sel.filters ++ given.entries }
  | .limit n => { sel with limit := some n }
  | .orderBy field descending =>
    if R.orderable field then { sel with order := some (field, descending) } else sel
  | .first => sel
  | .all => sel

/-- What the calls ask for together. Only `limit` says how many objects there may be. -/
def ofCalls (calls : List (QueryCall κ φ)) : Selection κ φ := calls.foldl (add R) {}

/-- The fields of an object equal all filter values. -/
def Matches (obj : DataValue κ φ) : Prop := ∀ e ∈ sel.filters, R.Equal (obj.attribute e.1) e.2

def cut (l : List α) : List α :=
  match sel.limit with
  | none => l
  | some n => l.take n.toNat

end Selection

namespace OrmModel

variable {R : OrmRuntime κ φ} (M : OrmModel R) (t : Sqlite.Relation φ)

open Classical in
/-- The objects are the stored ones that match, in the order that is asked for, cut to the limit. -/
def Answers (sel : Selection κ φ) (objs : List (DataValue κ φ)) : Prop :=
  ∃ stored wanted, t.rows.entries.mapM (fun row => M.ofRow (t.cells row)) = .ok stored ∧
    wanted.Perm (stored.filter fun obj => decide (sel.Matches R obj)) ∧
    (∀ field descending, sel.order = some (field, descending) →
      wanted.Pairwise fun obj obj' =>
        R.precedes descending (obj.attribute field) (obj'.attribute field)) ∧
    objs = sel.cut wanted

/-- The columns have values of the types of their fields, which are scalar or `Optional` of one. -/
def Typed : Prop :=
  ∀ row ∈ t.rows.entries, ∀ f ∈ R.fields M.cls, ∃ s, f.hint.Scalar s ∧ s.Cell R (t.value row f.name)

/-- A filter on a field, with a value that SQLite compares with it as it is. -/
def Filters (e : Str × DataValue κ φ) : Prop :=
  e.1 ∈ (R.fields M.cls).map DataField.name ∧ ∃ s b, (M.hint e.1).Scalar s ∧ R.Binds e.2 b ∧
    R.conv.compared s.affinity b = b

/-- The value of a field in a row. -/
def fieldValue (row : Int × List (Sqlite.Value φ)) (name : Str) : DataValue κ φ :=
  match R.decode (.fetch (t.value row name)) (M.hint name) with
  | .ok v => v
  | .error _ => .none

/-- The object of a row. -/
def objectOf (row : Int × List (Sqlite.Value φ)) : DataValue κ φ :=
  .object M.cls ((R.fields M.cls).map fun f => (f.name, M.fieldValue t row f.name))

variable {M t}

theorem attribute_objectOf (hname : name ∈ (R.fields M.cls).map DataField.name)
    (row : Int × List (Sqlite.Value φ)) :
    (M.objectOf t row).attribute name = M.fieldValue t row name := by
  obtain ⟨f, hf, rfl⟩ := List.mem_map.1 hname
  have hfind : (R.fields M.cls).find? (fun g => decide (g.name = f.name)) = some f :=
    Dict.find_key_nodup R.distinctNames hf
  rw [objectOf, DataValue.attribute, List.find?_map]
  exact congrArg (fun o => ((o.map fun f : DataField κ φ =>
    (f.name, M.fieldValue t row f.name)).map Prod.snd).getD .none) hfind

/-- The fields of a row of typed columns. -/
theorem Typed.field (h : M.Typed t) (hrow : row ∈ t.rows.entries)
    (hname : name ∈ (R.fields M.cls).map DataField.name) :
    ∃ s, (M.hint name).Scalar s ∧ s.Cell R (t.value row name) ∧
      M.fieldValue t row name = s.read (t.value row name) := by
  obtain ⟨f, hf, rfl⟩ := List.mem_map.1 hname
  obtain ⟨s, hscalar, hcell⟩ := h row hrow f hf
  rw [← M.hint_field hf] at hscalar
  refine ⟨s, hscalar, hcell, ?_⟩
  rw [fieldValue, OrmRuntime.decode_cell hscalar hcell]

theorem Typed.ofRow (h : M.Typed t) (ht : M.Made t) (hrow : row ∈ t.rows.entries) :
    M.ofRow (t.cells row) = .ok (M.objectOf t row) := by
  have hblank : M.IsInstance ((R.fields M.cls).map fun f => (f.name, .none)) := by
    rw [IsInstance, List.map_map]
    rfl
  rw [ofRow_ok ht hblank]
  refine ⟨_, rfl, ?_⟩
  rw [List.forall₂_map_left_iff, List.forall₂_map_right_iff]
  apply List.forall₂_same.2
  intro f hf
  obtain ⟨s, hscalar, hcell, hvalue⟩ := h.field hrow (List.mem_map_of_mem hf)
  refine ⟨rfl, ?_⟩
  rw [hvalue]
  exact OrmRuntime.decode_cell hscalar hcell

theorem Typed.stored (h : M.Typed t) (ht : M.Made t) {rows : List (Int × List (Sqlite.Value φ))}
    (hrows : ∀ row ∈ rows, row ∈ t.rows.entries) :
    rows.mapM (fun row => M.ofRow (t.cells row)) = .ok (rows.map (M.objectOf t)) := by
  apply Traverse.except_map
  intro row hrow
  exact h.ofRow ht (hrows row hrow)

/-- A scalar is its own copy. -/
theorem boundValue_of_binds {v : DataValue κ φ} {b : Sqlite.Value φ} (h : R.Binds v b) :
    R.boundValue v = b := by
  apply OrmRuntime.boundValue_of_bound
  have hbound := h.bound
  cases h with
  | _ => exact hbound

/-- What is bound for filters. -/
theorem bindParams_filters {cond : ObjectFields κ φ} (h : ∀ e ∈ cond, M.Filters e) :
    R.bindParams cond = .ok (cond.map fun e => (e.1, R.boundValue e.2)) := by
  apply Traverse.except_map
  intro e he
  obtain ⟨_, s, b, _, hb, _⟩ := h e he
  obtain ⟨v, hv, hbind⟩ := except_bind_eq_ok.1 hb.bound
  refine except_bind_eq_ok.2 ⟨v, hv, except_bind_eq_ok.2 ⟨b, hbind, ?_⟩⟩
  rw [boundValue_of_binds hb]
  rfl

theorem Made.affinity (ht : M.Made t) (hname : name ∈ (R.fields M.cls).map DataField.name) :
    t.has name = true ∧ t.affinity name = M.affinityOf name := by
  have hblank : M.IsInstance ((R.fields M.cls).map fun f => (f.name, .none)) := by
    rw [IsInstance, List.map_map]
    rfl
  obtain ⟨f, hf, rfl⟩ := List.mem_map.1 hname
  have hmem := List.mem_map_of_mem (f := fun f => (f.name, (.none : DataValue κ φ))) hf
  exact ⟨(ht.shaped hblank).has hmem, (ht.shaped hblank).affinity hmem⟩

variable [DecidableEq φ]

/-- `WHERE` finds the rows whose objects match. -/
theorem Typed.holds_iff (h : M.Typed t) (ht : M.Made t) {cond : ObjectFields κ φ}
    (hcond : ∀ e ∈ cond, M.Filters e) (hrow : row ∈ t.rows.entries) :
    t.holds R.conv.toConversions (cond.map fun e => (e.1, R.boundValue e.2)) row = true ↔
      ∀ e ∈ cond, R.Equal ((M.objectOf t row).attribute e.1) e.2 := by
  rw [Sqlite.Relation.holds, List.all_map, List.all_eq_true]
  apply forall₂_congr
  intro e he
  obtain ⟨hname, s, b, hscalar, hb, hkept⟩ := hcond e he
  obtain ⟨s', hscalar', hcell, hvalue⟩ := h.field hrow hname
  cases hscalar.unique hscalar'
  change R.conv.equal _ (R.conv.compared (t.affinity e.1) (R.boundValue e.2)) = true ↔ _
  rw [attribute_objectOf hname, hvalue, (ht.affinity hname).2, affinityOf_scalar hscalar,
    boundValue_of_binds hb, hkept]
  exact OrmRuntime.equal_cell hcell hb

end OrmModel

end Sovereign
