import Sovereign.Lib.SqliteOrder
import Sovereign.OrmKeys

namespace Sovereign
set_option autoImplicit true

/-- The attributes of a `Query`: its filters, `_limit` and `_order`. -/
structure Query (κ φ : Type) where
  filters : Dict Str (DataValue κ φ) := ∅
  bound : Option Int := none
  ordering : Option (Str × Bool) := none

/-- A call of a method of a `Query`. -/
inductive QueryCall (κ φ : Type) where
  | where_ (given : Dict Str (DataValue κ φ))
  | limit (n : Int)
  | orderBy (field : Str) (descending : Bool)
  | first
  | all

def QueryCall.isFirst : QueryCall κ φ → Bool
  | .first => true
  | _ => false

/-- `field.replace("_", "").isalnum()` -/
def OrmRuntime.orderable (R : OrmRuntime κ φ) (field : Str) : Bool :=
  let letters := field.filter (· ≠ '_')
  !letters.isEmpty && letters.all R.isAlnum

namespace Query

/-- A query and the table of its model. -/
abbrev State (κ φ : Type) := Query κ φ × TableState φ

variable {R : OrmRuntime κ φ} (M : OrmModel R)

/-- `where` -/
def where_ (given : Dict Str (DataValue κ φ)) : Act (State κ φ) Unit := fun s =>
  (.ok (), ({ s.1 with filters := s.1.filters.update given.entries }, s.2))

/-- `limit` -/
def limit (n : Int) : Act (State κ φ) Unit := fun s =>
  (.ok (), ({ s.1 with bound := some n }, s.2))

/-- `order_by` -/
def orderBy (R : OrmRuntime κ φ) (field : Str) (descending : Bool) : Act (State κ φ) Unit :=
  fun s =>
    if R.orderable field then (.ok (), ({ s.1 with ordering := some (field, descending) }, s.2))
    else (.error (.builtin .valueError), s)

variable [DecidableEq φ]

/-- `all` -/
def all : Act (State κ φ) (List (DataValue κ φ)) := fun s =>
  let result := M.select_ s.1.filters.entries s.1.bound s.1.ordering s.2
  (result.1, (s.1, result.2))

/-- `first` -/
def first : Act (State κ φ) (Option (DataValue κ φ)) := do
  limit 1
  let rows ← all M
  return rows.head?

/-- The state after a call, whether or not it raises. -/
def call (s : State κ φ) : QueryCall κ φ → State κ φ
  | .where_ given => (where_ given s).2
  | .limit n => (limit n s).2
  | .orderBy field descending => (orderBy R field descending s).2
  | .first => (first M s).2
  | .all => (all M s).2

/-- The state after calls on a new query. -/
def after (calls : List (QueryCall κ φ)) (db : TableState φ) : State κ φ :=
  calls.foldl (call M) ({}, db)

/-- The query of `get` -/
theorem get_eq {t : Sqlite.Relation φ} (ht : M.Made t) (key : DataValue κ φ) :
    M.get key (some t) =
      ((first M (where_ (Dict.empty.set M.primaryKey key) ({}, some t)).2).1,
        (first M (where_ (Dict.empty.set M.primaryKey key) ({}, some t)).2).2.2) := by
  have hfirst : first M (where_ (Dict.empty.set M.primaryKey key) ({}, some t)).2 =
      (all M >>= fun rows => pure rows.head?)
        ({ filters := Dict.empty.set M.primaryKey key, bound := some 1 }, some t) := rfl
  rw [OrmModel.get, Act.bind_ok _ (OrmModel.createTable_made ht), hfirst]
  cases hselect : M.select_ [(M.primaryKey, key)] (some 1) none (some t) with
  | mk result db =>
    have hall : all M ({ filters := Dict.empty.set M.primaryKey key, bound := some 1 }, some t) =
        (result, ({ filters := Dict.empty.set M.primaryKey key, bound := some 1 }, db)) := by
      change (let result := M.select_ [(M.primaryKey, key)] (some 1) none (some t)
        (result.1, (_, result.2))) = _
      rw [hselect]
    cases result with
    | ok rows =>
      rw [Act.bind_ok _ hselect, Act.bind_ok _ hall]
      rfl
    | error e => rw [Act.bind_error _ hselect, Act.bind_error _ hall]

end Query

end Sovereign
