import Sovereign.BruteForce
import Sovereign.Lib.Run

namespace Sovereign
set_option autoImplicit true

open BruteForceProtector

/-- Where a request stands in `BruteForceProtector.__call__`. Its downstream ends in a failure. -/
inductive LoginPhase where
  /-- `status` has read the clock -/
  | asked (seen : ℚ)
  /-- `status` has found a block that is over -/
  | clearing
  /-- `status` has returned -/
  | standing (attempts : Int) (blockedUntil : ℚ)
  /-- it sleeps, and is let through then -/
  | waiting
  | inside
  /-- `record_failure` has read the clock -/
  | failing (seen : ℚ)
  | done
deriving DecidableEq

/-- The next step of a request, of which those that use the table are done under the lock. -/
def LoginPhase.next (g : BruteForceProtector) (key : Str) (now : ℚ) (rows : Dict Str AttemptRow) :
    LoginPhase → Option (LoginPhase × Dict Str AttemptRow)
  | asked seen =>
    match rows.get? key with
    | none => some (standing 0 0, rows)
    | some row =>
      if expired row seen then some (clearing, rows)
      else some (standing row.attempts row.blockedUntil, rows)
  | clearing => some (standing 0 0, rows.erase key)
  | standing attempts blockedUntil =>
    if now < blockedUntil ∨ g.delayFor attempts < 0 then some (done, rows) else some (waiting, rows)
  | waiting => some (inside, rows)
  | inside => some (failing now, rows)
  | failing seen =>
    some (done, g.pruned (rows.set key (g.failedRow (rows.get? key) seen)) seen)
  | done => none

/-- The downstream has been entered, and its failure is not recorded yet. -/
def LoginPhase.pending : LoginPhase → Bool
  | inside | failing _ => true
  | _ => false

/-- Without other requests in between, the first steps are `BruteForceProtector.status`. -/
theorem next_status (g : BruteForceProtector) (clock : Clock) (key : Str) (now : ℚ)
    (w : GuardWorld α) :
    let answer := BruteForceProtector.standing clock key w
    let after := some (LoginPhase.standing answer.1 answer.2, checked clock key w)
    (LoginPhase.asked (clock.read w.calls)).next g key now w.rows = after ∨
      (LoginPhase.asked (clock.read w.calls)).next g key now w.rows = some (.clearing, w.rows) ∧
        LoginPhase.clearing.next g key now w.rows = after := by
  simp only [LoginPhase.next, BruteForceProtector.standing, checked]
  cases w.rows.get? key with
  | none => exact .inl rfl
  | some row =>
    by_cases hexp : expired row (clock.read w.calls)
    · exact .inr (by simp [hexp])
    · exact .inl (by simp [hexp])

/-- The last one leaves the table as `BruteForceProtector.__call__` does after a failure. -/
theorem next_failing (g : BruteForceProtector) (clock : Clock) (key : Str) (now : ℚ)
    {out : Except Exc (Val (GuardWorld α))} (h : g.isFailure out = true) (w : GuardWorld α) :
    (LoginPhase.failing (clock.read w.calls)).next g key now w.rows =
      some (.done, g.concluded clock key out w) := by
  rw [concluded, if_pos h]
  rfl

/-- Requests with one key at one protector, in the order of their arrival, and how often the
downstream has been entered. -/
structure LoginState where
  rows : Dict Str AttemptRow
  now : ℚ
  phases : List LoginPhase
  entered : Nat
deriving DecidableEq

/-- The clock goes on, a request arrives, or one of them takes its next step. -/
inductive LoginStep where
  | tick (now : ℚ)
  | arrive
  | advance (i : Nat)
deriving DecidableEq

namespace LoginState

variable (g : BruteForceProtector) (key : Str)

def step (s : LoginState) : LoginStep → Option LoginState
  | .tick now => if s.now ≤ now then some { s with now } else none
  | .arrive => some { s with phases := s.phases ++ [.asked s.now] }
  | .advance i => do
    let phase ← s.phases[i]?
    let (phase', rows) ← phase.next g key s.now s.rows
    return { s with
      rows
      phases := s.phases.set i phase'
      entered := if phase = .waiting then s.entered + 1 else s.entered }

/-- No request has arrived, and nothing is recorded of the key. -/
def Fresh (s : LoginState) : Prop := s.rows.get? key = none ∧ s.phases = [] ∧ s.entered = 0

/-- The key is not blocked, or its block lasts. -/
def Unexpired (s : LoginState) : Prop := ∀ row ∈ s.rows.get? key, ¬ expired row s.now

instance (s : LoginState) : Decidable (s.Unexpired key) :=
  inferInstanceAs (Decidable (∀ row ∈ s.rows.get? key, ¬ expired row s.now))

def recorded (s : LoginState) : Int := ((s.rows.get? key).map AttemptRow.attempts).getD 0

def pending (s : LoginState) : Nat := s.phases.countP LoginPhase.pending

/-- The next step of the request is to enter the downstream. -/
def Admits (s : LoginState) : LoginStep → Prop
  | .advance i => s.phases[i]? = some .waiting
  | _ => False

instance (s : LoginState) : (a : LoginStep) → Decidable (s.Admits a)
  | .advance i => inferInstanceAs (Decidable (s.phases[i]? = some .waiting))
  | .tick _ | .arrive => inferInstanceAs (Decidable False)

variable {g key} {s u : LoginState}

/-- What a step of a request does. -/
theorem advance_eq_some (h : step g key s (.advance i) = some u) :
    ∃ phase phase' rows, s.phases[i]? = some phase ∧
      phase.next g key s.now s.rows = some (phase', rows) ∧
      u = { s with
        rows
        phases := s.phases.set i phase'
        entered := if phase = .waiting then s.entered + 1 else s.entered } := by
  obtain ⟨phase, hphase, h⟩ := Option.bind_eq_some_iff.1 h
  obtain ⟨⟨phase', rows⟩, hnext, h⟩ := Option.bind_eq_some_iff.1 h
  cases h
  exact ⟨phase, phase', rows, hphase, hnext, rfl⟩

theorem pending_set {phases : List LoginPhase} (h : phases[i]? = some phase) (phase' : LoginPhase) :
    (phases.set i phase').countP LoginPhase.pending + phase.pending.toNat =
      phases.countP LoginPhase.pending + phase'.pending.toNat := by
  obtain ⟨hi, rfl⟩ := List.getElem?_eq_some_iff.1 h
  have hle := List.boole_getElem_le_countP (p := LoginPhase.pending) hi
  rw [List.countP_set hi]
  generalize phases[i].pending = a at hle ⊢
  generalize phase'.pending = b
  cases a with
  | false => cases b <;> simp
  | true =>
    rw [if_pos rfl] at hle ⊢
    cases b <;> simp <;> omega

/-- The clock was read in the past, and no block was over then. -/
def PhaseOk (now : ℚ) : LoginPhase → Prop
  | .asked seen => seen ≤ now
  | .clearing => False
  | _ => True

/-- Every time that the downstream was entered a failure is recorded, or still to come. -/
structure Tallied (key : Str) (s : LoginState) : Prop where
  entered : (s.entered : Int) = s.recorded key + s.pending
  phases : ∀ phase ∈ s.phases, PhaseOk s.now phase

theorem tallied_tick {now : ℚ} (h : s.Tallied key) (hle : s.now ≤ now) :
    Tallied key { s with now } where
  entered := h.entered
  phases phase hp := by
    have hok := h.phases phase hp
    cases phase with
    | asked seen => exact le_trans hok hle
    | _ => exact hok

theorem tallied_arrive (h : s.Tallied key) :
    Tallied key { s with phases := s.phases ++ [.asked s.now] } where
  entered := by
    rw [h.entered, pending, pending, List.countP_append]
    rfl
  phases phase hp := by
    rcases List.mem_append.1 hp with hp | hp
    · exact h.phases phase hp
    · rw [List.mem_singleton.1 hp]
      exact le_refl s.now

theorem recorded_failing (rows : Dict Str AttemptRow) (seen : ℚ) :
    (((g.pruned (rows.set key (g.failedRow (rows.get? key) seen)) seen).get? key).map
      AttemptRow.attempts).getD 0 = ((rows.get? key).map AttemptRow.attempts).getD 0 + 1 := by
  rw [g.get?_recorded]
  rfl

/-- What the next step of a request adds to the tally. -/
theorem next_tally {now : ℚ} {rows rows' : Dict Str AttemptRow} (hok : PhaseOk now phase)
    (hlive : ∀ row, rows.get? key = some row → ¬ expired row now)
    (h : phase.next g key now rows = some (phase', rows')) :
    PhaseOk now phase' ∧
      ((rows'.get? key).map AttemptRow.attempts).getD 0 + phase'.pending.toNat =
        ((rows.get? key).map AttemptRow.attempts).getD 0 + phase.pending.toNat +
          (if phase = .waiting then 1 else 0 : Nat) := by
  cases phase with
  | asked seen =>
    have hpast : ∀ row, rows.get? key = some row → ¬ expired row seen :=
      fun row hrow hexp => hlive row hrow ⟨hexp.1, hexp.2.trans hok⟩
    simp only [LoginPhase.next] at h
    split at h
    · cases h
      exact ⟨trivial, by simp [LoginPhase.pending]⟩
    · next row hrow =>
      rw [if_neg (hpast row hrow)] at h
      cases h
      exact ⟨trivial, by simp [LoginPhase.pending]⟩
  | clearing => exact hok.elim
  | standing attempts blockedUntil =>
    simp only [LoginPhase.next] at h
    split at h
    · cases h
      exact ⟨trivial, by simp [LoginPhase.pending]⟩
    · cases h
      exact ⟨trivial, by simp [LoginPhase.pending]⟩
  | waiting =>
    cases h
    exact ⟨trivial, by simp [LoginPhase.pending]⟩
  | inside =>
    cases h
    exact ⟨trivial, by simp [LoginPhase.pending]⟩
  | failing seen =>
    cases h
    refine ⟨trivial, ?_⟩
    rw [recorded_failing]
    simp [LoginPhase.pending]
  | done => cases h

theorem tallied_step (h : s.Tallied key) (hlive : s.Unexpired key)
    (hstep : step g key s a = some u) :
    u.Tallied key := by
  cases a with
  | tick now =>
    simp only [step] at hstep
    split at hstep
    · next hle =>
      cases hstep
      exact tallied_tick h hle
    · cases hstep
  | arrive =>
    cases hstep
    exact tallied_arrive h
  | advance i =>
    obtain ⟨phase, phase', rows, hphase, hnext, rfl⟩ := advance_eq_some hstep
    have hmem := List.mem_of_getElem? hphase
    obtain ⟨hok, htally⟩ := next_tally (h.phases phase hmem) hlive hnext
    have hset := pending_set hphase phase'
    have hentered := h.entered
    constructor
    · rw [recorded, pending] at hentered ⊢
      by_cases hw : phase = .waiting
      · rw [if_pos hw] at htally
        simp only [if_pos hw]
        omega
      · rw [if_neg hw] at htally
        simp only [if_neg hw]
        omega
    · intro q hq
      rcases List.mem_or_eq_of_mem_set hq with hq | rfl
      · exact h.phases q hq
      · exact hok

theorem entered_step (hstep : step g key s a = some u) :
    u.entered = s.entered + 1 ∧ s.Admits a ∨ u.entered = s.entered ∧ ¬ s.Admits a := by
  cases a with
  | tick now =>
    simp only [step] at hstep
    split at hstep
    · cases hstep
      exact .inr ⟨rfl, id⟩
    · cases hstep
  | arrive =>
    cases hstep
    exact .inr ⟨rfl, id⟩
  | advance i =>
    obtain ⟨phase, phase', rows, hphase, hnext, rfl⟩ := advance_eq_some hstep
    by_cases hw : phase = .waiting
    · subst hw
      exact .inl ⟨rfl, hphase⟩
    · refine .inr ⟨by simp only [if_neg hw], fun hwait => ?_⟩
      rw [Admits, hphase] at hwait
      exact hw (Option.some.inj hwait)

theorem tallied_fresh (h : s.Fresh key) : s.Tallied key := by
  obtain ⟨hrow, hphases, hentered⟩ := h
  constructor
  · rw [recorded, pending, hrow, hphases, hentered]
    rfl
  · intro phase hp
    rw [hphases] at hp
    cases hp

end LoginState

end Sovereign
