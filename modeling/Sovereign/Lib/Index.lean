import Mathlib.Data.Finset.Basic
import Sovereign.Lib.Dict

set_option autoImplicit true

/-! Sets under keys, such as a `defaultdict(set)`, of which an empty one is removed. -/

namespace Index

variable [DecidableEq κ] [DecidableEq γ]

/-- The set under a key, empty where there is none. -/
def members (d : Dict κ (Finset γ)) (k : κ) : Finset γ := (d.get? k).getD ∅

/-- `d[k].add(c)` -/
def add (k : κ) (c : γ) (d : Dict κ (Finset γ)) : Dict κ (Finset γ) :=
  d.set k (insert c (members d k))

/-- `d.get(k, set()).discard(c)`, after which an empty set is popped. -/
def discard (k : κ) (c : γ) (d : Dict κ (Finset γ)) : Dict κ (Finset γ) :=
  match d.get? k with
  | none => d
  | some s => if s.erase c = ∅ then d.erase k else d.set k (s.erase c)

/-- From the sets under all keys. -/
def discardAll (c : γ) (d : Dict κ (Finset γ)) : Dict κ (Finset γ) :=
  d.keys.foldl (fun d k => discard k c d) d

/-- No key has an empty set. -/
def NoneEmpty (d : Dict κ (Finset γ)) : Prop := ∀ k s, d.get? k = some s → s ≠ ∅

variable {d : Dict κ (Finset γ)} {k k' : κ} {c c' : γ}

omit [DecidableEq γ] in
theorem members_empty (k : κ) : members (∅ : Dict κ (Finset γ)) k = ∅ := rfl

omit [DecidableEq γ] in
theorem noneEmpty_empty : NoneEmpty (∅ : Dict κ (Finset γ)) := by
  intro k s hs
  cases hs

theorem mem_add : c' ∈ members (add k c d) k' ↔ k' = k ∧ c' = c ∨ c' ∈ members d k' := by
  rw [members, add, Dict.get?_set]
  by_cases hk : k' = k
  · rw [if_pos hk, Option.getD_some, Finset.mem_insert, hk]
    simp
  · rw [if_neg hk]
    simp [hk, members]

theorem mem_discard : c' ∈ members (discard k c d) k' ↔ c' ∈ members d k' ∧
    ¬ (k' = k ∧ c' = c) := by
  rw [discard]
  split
  · next hnone =>
    by_cases hk : k' = k
    · simp [members, hk, hnone]
    · simp [hk]
  · next s hs =>
    by_cases hk : k' = k
    · subst hk
      have hmembers : members d k' = s := by rw [members, hs, Option.getD_some]
      split
      · next hempty =>
        rw [members, Dict.get?_erase, if_pos rfl, hmembers]
        have hall : c' ∈ s → c' = c := by
          intro hc'
          by_contra hne
          have hmem : c' ∈ s.erase c := Finset.mem_erase.2 ⟨hne, hc'⟩
          rw [hempty] at hmem
          simp at hmem
        simpa using hall
      · rw [members, Dict.get?_set, if_pos rfl, Option.getD_some, Finset.mem_erase, hmembers]
        tauto
    · have hother : members (if s.erase c = ∅ then d.erase k else d.set k (s.erase c)) k' =
          members d k' := by
        split
        · rw [members, Dict.get?_erase, if_neg hk, members]
        · rw [members, Dict.get?_set, if_neg hk, members]
      rw [hother]
      simp [hk]

theorem NoneEmpty.add (h : NoneEmpty d) (k : κ) (c : γ) : NoneEmpty (add k c d) := by
  intro k' s hs
  rw [Index.add, Dict.get?_set] at hs
  split at hs
  · cases hs
    exact Finset.insert_ne_empty c _
  · exact h k' s hs

theorem NoneEmpty.discard (h : NoneEmpty d) (k : κ) (c : γ) : NoneEmpty (discard k c d) := by
  rw [Index.discard]
  split
  · exact h
  · split
    · intro k' s hs
      rw [Dict.get?_erase] at hs
      split at hs
      · cases hs
      · exact h k' s hs
    · next hne =>
      intro k' s hs
      rw [Dict.get?_set] at hs
      split at hs
      · cases hs
        exact hne
      · exact h k' s hs

omit [DecidableEq γ] in
theorem mem_keys (h : NoneEmpty d) : k ∈ d.keys ↔ ∃ c, c ∈ members d k := by
  rw [Dict.mem_keys, Dict.contains, members]
  cases hs : d.get? k with
  | none => simp
  | some s =>
    obtain ⟨c, hc⟩ := Finset.nonempty_iff_ne_empty.2 (h k s hs)
    simpa using ⟨c, hc⟩

theorem discard_each (keys : List κ) (c : γ) (d : Dict κ (Finset γ)) :
    (NoneEmpty d → NoneEmpty (keys.foldl (fun d k => discard k c d) d)) ∧
      ∀ k c', c' ∈ members (keys.foldl (fun d k => discard k c d) d) k ↔
        c' ∈ members d k ∧ ¬ (k ∈ keys ∧ c' = c) := by
  induction keys generalizing d with
  | nil => simp
  | cons k₀ keys ih =>
    obtain ⟨hempty, hmem⟩ := ih (discard k₀ c d)
    constructor
    · intro h
      exact hempty (h.discard k₀ c)
    · intro k c'
      rw [List.foldl_cons, hmem, mem_discard, List.mem_cons]
      tauto

theorem NoneEmpty.discardAll (h : NoneEmpty d) (c : γ) : NoneEmpty (discardAll c d) :=
  (discard_each d.keys c d).1 h

theorem mem_discardAll : c' ∈ members (discardAll c d) k ↔ c' ∈ members d k ∧ c' ≠ c := by
  rw [discardAll, (discard_each d.keys c d).2]
  have hkey : c' ∈ members d k → k ∈ d.keys := by
    intro hc'
    rw [Dict.mem_keys, Dict.contains]
    cases hs : d.get? k with
    | none => simp [members, hs] at hc'
    | some s => rfl
  tauto

end Index
