import Sovereign.Orm
import Sovereign.Lib.Traverse

namespace Sovereign
set_option autoImplicit true

namespace Model

variable (M : Model φ)

/-- SQLite tells the columns apart. -/
def Distinct : Prop := (Sqlite.fold idField :: M.columns.map fun c => Sqlite.fold c.name).Nodup

/-- Every field has a value of its type. -/
def Typed (values : List (PyValue φ)) : Prop :=
  List.Forall₂ (fun f v => f.type.Accepts v) M.fields values

end Model

section Fields

variable {fields : List (ModelField φ)} {values : List (PyValue φ)}

theorem bindParams_zip
    (h : List.Forall₂ (fun f v => f.type.Accepts v) fields values) :
    bindParams (((fields.map ModelField.name).zip values).map fun e => (e.1, encode e.2)) =
      .ok ((fields.map ModelField.name).zip (values.map cell)) := by
  rw [bindParams, Traverse.except_iff]
  induction h with
  | nil => exact .nil
  | cons hv _ ih =>
    refine .cons ?_ ih
    rw [bindValue_encode hv]
    rfl

/-- A name that differs from the first one is looked for among the others. -/
theorem named_cons_of_ne {e : Str × Sqlite.Value φ} {given : List (Str × Sqlite.Value φ)}
    {name : Str} (h : Sqlite.fold e.1 ≠ Sqlite.fold name) :
    Sqlite.named (e :: given) name = Sqlite.named given name := by
  rw [Sqlite.named, Sqlite.named, List.find?_cons_of_neg (by simpa using h)]

theorem named_eq_none {given : List (Str × Sqlite.Value φ)} {name : Str}
    (h : ∀ e ∈ given, Sqlite.fold e.1 ≠ Sqlite.fold name) : Sqlite.named given name = none := by
  rw [Sqlite.named, List.find?_eq_none.2 fun e he => by simpa using h e he]
  rfl

/-- Every field is found under its name. -/
theorem named_zip (hnames : (fields.map fun f => Sqlite.fold f.name).Nodup)
    (h : List.Forall₂ (fun f v => f.type.Accepts v) fields values) :
    List.Forall₂ (fun f v => f.type.Accepts v ∧
      Sqlite.named ((fields.map ModelField.name).zip (values.map cell)) f.name = some (cell v))
      fields values := by
  induction h with
  | nil => exact .nil
  | cons hv _ ih =>
    obtain ⟨hfirst, hrest⟩ := List.nodup_cons.1 hnames
    have hrest' := (List.forall₂_and_left _ _).2 ⟨fun f hf => hf, ih hrest⟩
    refine .cons ⟨hv, by simp [Sqlite.named]⟩ (hrest'.imp fun f v h => ⟨h.2.1, ?_⟩)
    rw [List.map_cons, List.map_cons, List.zip_cons_cons, named_cons_of_ne, h.2.2]
    exact fun heq => hfirst (List.mem_map.2 ⟨f, h.1, heq.symm⟩)

/-- Assigning all the fields makes the row that holds their values. -/
theorem assign_named (conv : Sqlite.Conversions φ) {given : List (Str × Sqlite.Value φ)}
    (h : List.Forall₂ (fun f v => f.type.Accepts v ∧
      Sqlite.named given f.name = some (cell v)) fields values)
    {old : List (Sqlite.Value φ)} (hold : old.length = fields.length) :
    (fields.map fun f => (⟨f.name, sqliteType f.type⟩ : Sqlite.Column)).zipWith
      (fun c v => ((Sqlite.named given c.name).map (conv.store c.affinity)).getD v) old =
        values.map cell := by
  induction h generalizing old with
  | nil => rfl
  | cons hv _ ih =>
    cases old with
    | nil => cases hold
    | cons v old =>
      rw [List.map_cons, List.zipWith_cons_cons, ih (Nat.succ.inj hold), hv.2, Option.map_some,
        store_cell conv hv.1]
      rfl

theorem lookup_zip (hnames : (fields.map ModelField.name).Nodup)
    (h : List.Forall₂ (fun f v => f.type.Accepts v) fields values) :
    List.Forall₂ (fun f v => ((fields.map ModelField.name).zip values).lookup f.name = some v)
      fields values := by
  induction h with
  | nil => exact .nil
  | cons hv _ ih =>
    obtain ⟨hfirst, hrest⟩ := List.nodup_cons.1 hnames
    have hrest' := (List.forall₂_and_left _ _).2 ⟨fun f hf => hf, ih hrest⟩
    refine .cons List.lookup_cons_self (hrest'.imp fun f v h => ?_)
    rw [List.map_cons, List.zip_cons_cons, List.lookup_cons, beq_false_of_ne]
    · exact h.2
    · exact fun heq => hfirst (List.mem_map.2 ⟨f, h.1, heq⟩)

theorem mapM_decodeColumn (cast : Cast φ) {M : Model φ}
    (hhint : ∀ f ∈ fields, M.hint f.name = some f.type)
    (h : List.Forall₂ (fun f v => f.type.Accepts v) fields values) :
    ((fields.map ModelField.name).zip (values.map cell)).mapM (SQLiteORM.decodeColumn cast M) =
      .ok ((fields.map ModelField.name).zip values) := by
  rw [Traverse.except_iff]
  induction h with
  | nil => exact .nil
  | cons hv _ ih =>
    rw [List.forall_mem_cons] at hhint
    refine .cons ?_ (ih hhint.2)
    rw [SQLiteORM.decodeColumn, hhint.1]
    simp only [decode_cell cast hv]
    rfl

end Fields

section Rows

variable {M : Model φ} {values : List (PyValue φ)}

theorem Model.Distinct.columns (h : M.Distinct) :
    (M.fields.map fun f => Sqlite.fold f.name).Nodup := by
  rw [Model.Distinct, Model.columns, List.map_map] at h
  exact (List.nodup_cons.1 h).2

theorem Model.Distinct.fold_ne (h : M.Distinct) {f : ModelField φ} (hf : f ∈ M.fields) :
    Sqlite.fold idField ≠ Sqlite.fold f.name := by
  rw [Model.Distinct, Model.columns, List.map_map] at h
  intro heq
  exact (List.nodup_cons.1 h).1 (List.mem_map.2 ⟨f, hf, heq.symm⟩)

theorem Model.Distinct.ne_id (h : M.Distinct) {f : ModelField φ} (hf : f ∈ M.fields) :
    f.name ≠ idField := fun heq => h.fold_ne hf (congrArg Sqlite.fold heq.symm)

theorem Model.Distinct.fieldNames (h : M.Distinct) : M.fieldNames.Nodup := by
  refine List.Nodup.of_map Sqlite.fold ?_
  rw [Model.fieldNames, List.map_map]
  exact h.columns

theorem Model.Distinct.hint (h : M.Distinct) {f : ModelField φ} (hf : f ∈ M.fields) :
    M.hint f.name = some f.type := by
  rw [Model.hint, if_neg (h.ne_id hf), Dict.find_key_nodup h.fieldNames hf, Option.map_some]

/-- The parameters for the fields of an object, under their names. -/
def Model.given (M : Model φ) (values : List (PyValue φ)) : List (Str × Sqlite.Value φ) :=
  M.fieldNames.zip (values.map cell)

theorem mem_fields_of_mem_zip {e : Str × α} {l : List α} (h : e ∈ M.fieldNames.zip l) :
    ∃ f ∈ M.fields, f.name = e.1 :=
  List.mem_map.1 (List.of_mem_zip h).1

theorem Model.Distinct.mem_given (h : M.Distinct) (e : Str × PyValue φ)
    (he : e ∈ M.fieldNames.zip values) : e.1 ≠ idField := by
  obtain ⟨f, hf, hname⟩ := mem_fields_of_mem_zip he
  exact hname ▸ h.ne_id hf

theorem Model.Distinct.named_id (h : M.Distinct) :
    Sqlite.named (M.given values) idField = none := by
  refine named_eq_none fun e he heq => ?_
  obtain ⟨f, hf, hname⟩ := mem_fields_of_mem_zip he
  exact h.fold_ne hf (hname ▸ heq.symm)

theorem Model.Distinct.given_named (h : M.Distinct) (hv : M.Typed values) :
    List.Forall₂ (fun f v => f.type.Accepts v ∧
      Sqlite.named (M.given values) f.name = some (cell v)) M.fields values :=
  named_zip h.columns hv

theorem Model.Distinct.keyed_named (h : M.Distinct) (hv : M.Typed values) (v : Sqlite.Value φ) :
    List.Forall₂ (fun f v' => f.type.Accepts v' ∧
      Sqlite.named ((idField, v) :: M.given values) f.name = some (cell v')) M.fields values := by
  have hgiven := (List.forall₂_and_left _ _).2 ⟨fun f hf => hf, h.given_named hv⟩
  refine hgiven.imp fun f v' hf => ⟨hf.2.1, ?_⟩
  rw [named_cons_of_ne (h.fold_ne hf.1), hf.2.2]

theorem Model.Distinct.filter_zip (h : M.Distinct) {p : Str × PyValue φ → Bool}
    (hp : ∀ e, e.1 ≠ idField → p e = true) :
    (M.fieldNames.zip values).filter p = M.fieldNames.zip values :=
  List.filter_eq_self.2 fun e he => hp e (h.mem_given e he)

/-- The columns of an `INSERT` for an object without a key are the fields. -/
theorem Model.Distinct.asdict_fresh [DecidableEq φ] (h : M.Distinct) :
    ((M.asdict ⟨.none, values⟩).filter fun e => ¬ (e.1 = idField ∧ e.2 = .none)) =
      M.fieldNames.zip values := by
  rw [Model.asdict, List.filter_cons_of_neg (by simp)]
  exact h.filter_zip fun e he => decide_eq_true fun heq => he heq.1

theorem Model.Distinct.asdict_keyed [DecidableEq φ] (h : M.Distinct) (n : Int) :
    ((M.asdict ⟨.int n, values⟩).filter fun e => ¬ (e.1 = idField ∧ e.2 = .none)) =
      (idField, .int n) :: M.fieldNames.zip values := by
  rw [Model.asdict, List.filter_cons_of_pos (by simp)]
  exact congrArg _ (h.filter_zip fun e he => decide_eq_true fun heq => he heq.1)

theorem Model.Distinct.asdict_fields (h : M.Distinct) (id : PyValue φ) :
    ((M.asdict ⟨id, values⟩).filter fun e => e.1 ≠ idField) = M.fieldNames.zip values := by
  rw [Model.asdict, List.filter_cons_of_neg (by simp)]
  exact h.filter_zip fun e he => decide_eq_true he

theorem bindParams_given (hv : M.Typed values) :
    bindParams ((M.fieldNames.zip values).map fun e => (e.1, encode e.2)) =
      .ok (M.given values) :=
  bindParams_zip hv

theorem bindParams_cons {n : Int} (hn : Fits64 n) {params : List (Str × PyValue φ)}
    {given : List (Str × Sqlite.Value φ)}
    (h : bindParams (params.map fun e => (e.1, encode e.2)) = .ok given) :
    bindParams (((idField, .int n) :: params).map fun e => (e.1, encode e.2)) =
      .ok ((idField, .integer n) :: given) := by
  rw [bindParams, Traverse.except_iff] at h ⊢
  refine .cons ?_ h
  change (do
    let v ← bindValue (.int n : PyValue φ)
    return (idField, v)) = _
  rw [bindValue_int hn]
  rfl

/-- The object that comes back from the row of some values. -/
theorem ofRow_cells (cast : Cast φ) (h : M.Distinct) (hv : M.Typed values) {t : Sqlite.Table φ}
    (hkey : t.key = idField) (hcolumns : t.columns = M.columns) (n : Int) :
    SQLiteORM.ofRow cast M (t.cells n (values.map cell)) = .ok ⟨.int n, values⟩ := by
  have hcells : t.cells n (values.map cell) = (idField, .integer n) :: M.given values := by
    rw [Sqlite.Table.cells, Sqlite.Table.names, hkey, hcolumns, Model.columns, List.map_map]
    rfl
  have hdata : (t.cells n (values.map cell)).mapM (SQLiteORM.decodeColumn cast M) =
      .ok ((idField, .int n) :: M.fieldNames.zip values) := by
    rw [hcells, List.mapM_cons, Model.given, Model.fieldNames,
      mapM_decodeColumn cast (fun f hf => h.hint hf) hv]
    rfl
  have hnames : (((idField, .int n) :: M.fieldNames.zip values).all fun e =>
      decide (e.1 ∈ idField :: M.fieldNames)) = true := by
    rw [List.all_cons, List.all_eq_true.2 fun e he =>
      decide_eq_true (List.mem_cons_of_mem _ (List.of_mem_zip he).1)]
    simp
  have hlookup : List.Forall₂ (fun f v =>
      ((idField, .int n) :: M.fieldNames.zip values).lookup f.name = some v) M.fields values := by
    have hzip := (List.forall₂_and_left _ _).2 ⟨fun f hf => hf, lookup_zip h.fieldNames hv⟩
    refine hzip.imp fun f v hf => ?_
    rw [List.lookup_cons, beq_false_of_ne (h.ne_id hf.1)]
    exact hf.2
  have harguments : M.fields.mapM (Model.argument ((idField, .int n) :: M.fieldNames.zip values)) =
      .ok values := by
    rw [Traverse.except_iff]
    refine hlookup.imp fun f v hf => ?_
    rw [Model.argument, hf]
    rfl
  rw [SQLiteORM.ofRow, hdata, ok_bind, Model.construct, if_pos hnames, harguments,
    List.lookup_cons_self]
  rfl

end Rows

end Sovereign
