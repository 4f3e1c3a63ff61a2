import Mathlib

set_option autoImplicit true

/-! Permits that are given out and come back, and threads that share their work. -/

/-- A semaphore that has no more permits than it was made with. -/
structure BoundedSemaphore where
  limit : Nat
  value : Nat
  bounded : value ≤ limit

namespace BoundedSemaphore

def ofLimit (limit : Nat) : BoundedSemaphore := ⟨limit, limit, Nat.le_refl limit⟩

variable (s : BoundedSemaphore)

theorem pred_le : s.value - 1 ≤ s.limit := Nat.le_trans (Nat.sub_le _ _) s.bounded

/-- `acquire(blocking=False)` -/
def acquire : Option BoundedSemaphore :=
  if s.value = 0 then none else some ⟨s.limit, s.value - 1, s.pred_le⟩

/-- `release`, which fails where no permit is out. -/
def release : Option BoundedSemaphore :=
  if h : s.value < s.limit then some ⟨s.limit, s.value + 1, h⟩ else none

/-- The permits that are out. -/
def out : Nat := s.limit - s.value

theorem out_ofLimit (limit : Nat) : (ofLimit limit).out = 0 := Nat.sub_self limit

theorem out_le : s.out ≤ s.limit := Nat.sub_le _ _

variable {s s' : BoundedSemaphore}

theorem acquire_out (h : s.acquire = some s') : s'.limit = s.limit ∧ s'.out = s.out + 1 := by
  rw [acquire] at h
  split at h
  · cases h
  · next hvalue =>
    cases h
    have hbounded := s.bounded
    refine ⟨rfl, ?_⟩
    simp only [out]
    omega

/-- A permit that is out comes back. -/
theorem release_out (h : s.out = n + 1) :
    ∃ s', s.release = some s' ∧ s'.limit = s.limit ∧ s'.out = n := by
  have hlt : s.value < s.limit := by
    rw [out] at h
    omega
  refine ⟨⟨s.limit, s.value + 1, hlt⟩, by rw [release, dif_pos hlt], rfl, ?_⟩
  rw [out] at h ⊢
  dsimp only
  omega

end BoundedSemaphore

/-- Work that waits, and work that the threads are at. -/
structure ThreadPool (ω : Type) where
  maxWorkers : Nat
  queue : List ω
  running : List ω
  shut : Bool
  bounded : running.length ≤ maxWorkers

namespace ThreadPool

def ofWorkers (maxWorkers : Nat) : ThreadPool ω := ⟨maxWorkers, [], [], false, Nat.zero_le _⟩

variable (p : ThreadPool ω)

def submit (w : ω) : Option (ThreadPool ω) :=
  if p.shut then none else some { p with queue := p.queue ++ [w] }

/-- A thread that is free takes what has waited longest. -/
def start : Option (ThreadPool ω) :=
  match p.queue with
  | [] => none
  | w :: queue =>
    if h : p.running.length < p.maxWorkers then
      some { p with queue, running := w :: p.running, bounded := h }
    else none

def shutdown : ThreadPool ω := { p with shut := true }

/-- All the work there is. -/
def work : Multiset ω := ↑p.running + ↑p.queue

section Proceed

variable [DecidableEq ω]

theorem bounded_proceed (h : w ∈ p.running) (next : Option ω) :
    (next.toList ++ p.running.erase w).length ≤ p.maxWorkers := by
  have hbounded := p.bounded
  have hpos := List.length_pos_of_mem h
  rw [List.length_append, List.length_erase_of_mem h]
  cases next with
  | none =>
    rw [Option.toList_none, List.length_nil]
    omega
  | some w' =>
    rw [Option.toList_some, List.length_singleton]
    omega

/-- A thread has done its work, or a part after which it goes on with the next one. -/
def proceed (w : ω) (next : Option ω) : Option (ThreadPool ω) :=
  if h : w ∈ p.running then
    some { p with running := next.toList ++ p.running.erase w, bounded := p.bounded_proceed h next }
  else none

end Proceed

variable {p p' : ThreadPool ω}

theorem submit_ok (h : p.submit w = some p') :
    p.shut = false ∧ p'.shut = false ∧ p'.maxWorkers = p.maxWorkers ∧ p'.work = w ::ₘ p.work := by
  rw [submit] at h
  split at h
  · cases h
  · next hshut =>
    cases h
    have hopen : p.shut = false := Bool.eq_false_iff.2 hshut
    refine ⟨hopen, hopen, rfl, ?_⟩
    rw [work, work, ← Multiset.coe_add, Multiset.coe_singleton, add_comm (p.queue : Multiset ω),
      add_left_comm, Multiset.singleton_add]

theorem submit_eq_none : p.submit w = none ↔ p.shut = true := by
  rw [submit]
  split
  · next hshut => exact ⟨fun _ => hshut, fun _ => rfl⟩
  · next hshut => exact ⟨fun h => (by cases h), fun h => absurd h hshut⟩

theorem start_ok (h : p.start = some p') :
    p'.shut = p.shut ∧ p'.maxWorkers = p.maxWorkers ∧ p'.work = p.work := by
  rw [start] at h
  split at h
  · cases h
  · next w queue hqueue =>
    split at h
    · cases h
      refine ⟨rfl, rfl, ?_⟩
      rw [work, work, hqueue, ← Multiset.cons_coe, ← Multiset.cons_coe, Multiset.cons_add,
        Multiset.add_cons]
    · cases h

/-- What each piece of work costs, and what it costs to begin it. -/
def remaining (cost : ω → Nat) (p : ThreadPool ω) : Nat :=
  (p.running.map cost).sum + (p.queue.map fun w => cost w + 1).sum

theorem start_remaining (cost : ω → Nat) (h : p.start = some p') :
    p'.remaining cost < p.remaining cost := by
  rw [start] at h
  split at h
  · cases h
  · next w queue hqueue =>
    split at h
    · cases h
      simp only [remaining, hqueue, List.map_cons, List.sum_cons]
      omega
    · cases h

/-- Where there is work and a thread, one of them goes on. -/
theorem start_or_running (hworkers : 0 < p.maxWorkers) (hwork : p.work ≠ 0) :
    (∃ w, w ∈ p.running) ∨ ∃ p', p.start = some p' := by
  cases hrunning : p.running with
  | cons w running => exact .inl ⟨w, List.mem_cons_self⟩
  | nil =>
    cases hqueue : p.queue with
    | nil =>
      rw [work, hrunning, hqueue] at hwork
      exact absurd rfl hwork
    | cons w queue =>
      have hlt : p.running.length < p.maxWorkers := by
        rw [hrunning]
        exact hworkers
      rw [start, hqueue]
      exact .inr ⟨_, dif_pos hlt⟩

variable [DecidableEq ω]

theorem proceed_ok (h : p.proceed w next = some p') :
    p'.shut = p.shut ∧ p'.maxWorkers = p.maxWorkers ∧
      ∃ rest, p.work = w ::ₘ rest ∧ p'.work = next.elim rest fun w' => w' ::ₘ rest := by
  rw [proceed] at h
  split at h
  · next hmem =>
    cases h
    refine ⟨rfl, rfl, ↑(p.running.erase w) + ↑p.queue, ?_, ?_⟩
    · have hcons : (p.running : Multiset ω) = w ::ₘ ↑(p.running.erase w) :=
        Multiset.coe_eq_coe.2 (List.perm_cons_erase hmem)
      rw [work, hcons, Multiset.cons_add]
    · cases next with
      | none => rfl
      | some w' =>
        rw [Option.elim_some, ← Multiset.cons_add]
        rfl
  · cases h

theorem proceed_of_mem (hmem : w ∈ p.running) (next : Option ω) :
    ∃ p', p.proceed w next = some p' := ⟨_, dif_pos hmem⟩

theorem proceed_remaining (cost : ω → Nat) (h : p.proceed w next = some p')
    (hcost : (next.toList.map cost).sum < cost w) : p'.remaining cost < p.remaining cost := by
  rw [proceed] at h
  split at h
  · next hmem =>
    cases h
    have hsum := ((List.perm_cons_erase hmem).map cost).sum_eq
    rw [List.map_cons, List.sum_cons] at hsum
    simp only [remaining, List.map_append, List.sum_append, hsum]
    omega
  · cases h

end ThreadPool
