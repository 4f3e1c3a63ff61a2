import Sovereign.OrmQuery

namespace Sovereign
set_option autoImplicit true

/-- The values that a column of the type has. -/
inductive ScalarType.Cell (R : OrmRuntime κ φ) : ScalarType → Sqlite.Value φ → Prop where
  | null : Cell R s .null
  | int : Cell R .int (.integer n)
  | bool (b : Bool) : Cell R .bool (.integer (if b then 1 else 0))
  | float (h : R.isNaN x = false) : Cell R .float (.real x)
  | str : Cell R .str (.text s)
  | bytes : Cell R .bytes (.blob b)

/-- What a column of the type gives back. -/
def ScalarType.read (s : ScalarType) : Sqlite.Value φ → DataValue κ φ
  | .null => .none
  | .integer n => if s = .bool then .bool (n ≠ 0) else .int n
  | .real x => .float x
  | .text text => .str text
  | .blob b => .bytes b

theorem TypeHint.Scalar.unique {tp : TypeHint κ} (h : tp.Scalar s) (h' : tp.Scalar s') :
    s = s' := by
  have hhint : (s.hint : TypeHint κ) = s'.hint := Except.ok.inj (h.stripped.symm.trans h'.stripped)
  cases s with
  | _ =>
    cases s' with
    | _ => first | rfl | cases hhint

namespace OrmRuntime

variable {R : OrmRuntime κ φ} {s : ScalarType} {c c' : Sqlite.Value φ} {v : DataValue κ φ}
  {tp : TypeHint κ}

theorem decode_cell (hscalar : tp.Scalar s) (hc : s.Cell R c) :
    R.decode (.fetch c) tp = .ok (s.read c) := by
  cases hc with
  | null => rfl
  | bool b =>
    rw [hscalar.decode R (by intro h; cases h)]
    rfl
  | _ =>
    rw [hscalar.decode R (by intro h; cases h)]
    rfl

/-- A scalar other than `None` and what is bound for it. -/
inductive Binds (R : OrmRuntime κ φ) : DataValue κ φ → Sqlite.Value φ → Prop where
  | bool (b : Bool) : Binds R (.bool b) (.integer (if b then 1 else 0))
  | int (h : Fits64 n) : Binds R (.int n) (.integer n)
  | float (h : R.isNaN x = false) : Binds R (.float x) (.real x)
  | str : Binds R (.str text) (.text text)
  | bytes : Binds R (.bytes b) (.blob b)

theorem Binds.bound {b : Sqlite.Value φ} (h : R.Binds v b) :
    (R.encode v >>= R.bind) = .ok b := by
  cases h with
  | bool b =>
    cases b with
    | true => exact OrmModel.bind_int (by decide)
    | false => exact OrmModel.bind_int (by decide)
  | int h => exact OrmModel.bind_int h
  | @float x h =>
    change R.bind (.float x) = _
    rw [OrmRuntime.bind, h]
    rfl
  | str => rfl
  | bytes => rfl

theorem equal_number {w : DataValue κ φ} (h : number w = some a) :
    R.Equal w v ↔ ∃ y, number v = some y ∧ R.sameNumber a y := by
  cases w with
  | bool b =>
    cases h
    rw [Equal]
  | int n =>
    cases h
    rw [Equal]
  | float x =>
    cases h
    rw [Equal]
  | _ => cases h

theorem equal_both {w : DataValue κ φ} (h : number w = some a) (hv : number v = some a') :
    R.Equal w v ↔ R.sameNumber a a' := by
  rw [equal_number h]
  constructor
  · intro h'
    obtain ⟨y, hy, hsame⟩ := h'
    cases hv.symm.trans hy
    exact hsame
  · intro h'
    exact ⟨a', hv, h'⟩

theorem not_equal_number {w : DataValue κ φ} (h : number w = some a) (hv : number v = none) :
    ¬ R.Equal w v := by
  rw [equal_number h]
  intro h'
  obtain ⟨y, hy, _⟩ := h'
  cases hv.symm.trans hy

variable [DecidableEq φ]

/-- An integer in a column is compared as the number that is read from it. -/
theorem equal_integer {w : DataValue κ φ} {b : Sqlite.Value φ} (hw : number w = some (.inl n))
    (hb : R.Binds v b) : R.conv.equal (.integer n) b = true ↔ R.Equal w v := by
  cases hb with
  | bool b =>
    rw [equal_both hw rfl]
    exact decide_eq_true_iff
  | int =>
    rw [equal_both hw rfl]
    exact decide_eq_true_iff
  | float h =>
    rw [equal_both hw rfl]
    exact ⟨fun h' => ⟨h, h'⟩, And.right⟩
  | str => exact ⟨fun h => (by cases h), fun h => absurd h (not_equal_number hw rfl)⟩
  | bytes => exact ⟨fun h => (by cases h), fun h => absurd h (not_equal_number hw rfl)⟩

/-- A column is compared as what is read from it. -/
theorem equal_cell {b : Sqlite.Value φ} (hc : s.Cell R c) (hb : R.Binds v b) :
    R.conv.equal c b = true ↔ R.Equal (s.read c) v := by
  cases hc with
  | null =>
    have hequal : R.conv.equal .null b = false := Sqlite.Conversions.equal_null _ b
    rw [hequal]
    refine ⟨fun h => (by cases h), fun h => ?_⟩
    change R.Equal .none v at h
    rw [Equal] at h
    subst h
    cases hb
  | int => exact equal_integer rfl hb
  | bool b =>
    cases b with
    | true => exact equal_integer rfl hb
    | false => exact equal_integer rfl hb
  | @float x h =>
    have hx : number (.float x : DataValue κ φ) = some (.inr x) := rfl
    cases hb with
    | bool b =>
      refine Iff.trans ?_ (equal_both hx rfl).symm
      exact ⟨fun h' => ⟨h, h'⟩, And.right⟩
    | int =>
      refine Iff.trans ?_ (equal_both hx rfl).symm
      exact ⟨fun h' => ⟨h, h'⟩, And.right⟩
    | float =>
      refine Iff.trans ?_ (equal_both hx rfl).symm
      exact decide_eq_true_iff.trans ⟨fun h' => ⟨h, h'⟩, And.right⟩
    | str => exact ⟨fun h => (by cases h), fun h => absurd h (not_equal_number hx rfl)⟩
    | bytes => exact ⟨fun h => (by cases h), fun h => absurd h (not_equal_number hx rfl)⟩
  | @str text =>
    have hequal : R.Equal (.str text) v ↔ v = .str text := by rw [Equal]
    refine Iff.trans ?_ hequal.symm
    cases hb with
    | @str text' =>
      refine decide_eq_true_iff.trans ⟨fun h => ?_, fun h => ?_⟩
      · rw [h]
      · cases h
        rfl
    | _ => exact ⟨fun h => (by cases h), fun h => (by cases h)⟩
  | @bytes blob =>
    have hequal : R.Equal (.bytes blob) v ↔ v = .bytes blob := by rw [Equal]
    refine Iff.trans ?_ hequal.symm
    cases hb with
    | @bytes blob' =>
      refine decide_eq_true_iff.trans ⟨fun h => ?_, fun h => ?_⟩
      · rw [h]
      · cases h
        rfl
    | _ => exact ⟨fun h => (by cases h), fun h => (by cases h)⟩

end OrmRuntime

/-- How values of one field are ordered: `None` comes first. -/
def OrmRuntime.compareValues (R : OrmRuntime κ φ) : DataValue κ φ → DataValue κ φ → Ordering
  | .none, .none => .eq
  | .none, _ => .lt
  | _, .none => .gt
  | .bool b, .bool b' => compare b b'
  | .int m, .int n => compare m n
  | .float x, .float y => R.conv.reals x y
  | .str s, .str t => Sqlite.lexicographic Char.toNat s t
  | .bytes b, .bytes c => Sqlite.lexicographic UInt8.toNat b c
  | _, _ => .eq

theorem OrmRuntime.order_cell {R : OrmRuntime κ φ} {s : ScalarType} (hc : s.Cell R c) (hc' : s.Cell R c') :
    R.conv.order c c' = R.compareValues (s.read c) (s.read c') := by
  cases hc with
  | null =>
    cases hc' with
    | bool b =>
      cases b with
      | _ => rfl
    | _ => rfl
  | bool b =>
    cases hc' with
    | null =>
      cases b with
      | _ => rfl
    | bool b' =>
      cases b with
      | _ =>
        cases b' with
        | _ => rfl
  | _ =>
    cases hc' with
    | _ => rfl

end Sovereign
