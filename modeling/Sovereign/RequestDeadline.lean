import Mathlib.Algebra.Order.Field.Basic
import Mathlib.Tactic.Linarith
import Mathlib.Tactic.NormNum
import Sovereign.TimedParser

namespace Sovereign
open Buffered
set_option autoImplicit true

namespace Reading

/-- At no time after the absolute timeout, and the least timeout of a socket, is the request still
being read. -/
def InTime (cfg : TimedConfig) (s : Reading) : Prop :=
  ∀ t, s.began ≤ t → t < s.now → t ≤ s.began + cfg.absoluteRequestTimeout + 1 / 1000

/-- Where time passes in a read, its idle timeout ends before the absolute one. -/
def Early (cfg : TimedConfig) (s : Reading) : ReadStep cap → Prop
  | .compute => True
  | .deliver .. | .close _ | .abort _ | .expire => ∀ pc ∈ s.phase.getLeft?,
      s.since + pc.idleTimeout cfg ≤ s.began + cfg.absoluteRequestTimeout + 1 / 1000

instance (cfg : TimedConfig) (s : Reading) : (a : ReadStep cap) → Decidable (s.Early cfg a)
  | .compute => inferInstanceAs (Decidable True)
  | .deliver .. | .close _ | .abort _ | .expire =>
      inferInstanceAs (Decidable (∀ pc ∈ s.phase.getLeft?,
      s.since + pc.idleTimeout cfg ≤ s.began + cfg.absoluteRequestTimeout + 1 / 1000))

variable {front : TimedFront cap ω} {cfg : TimedConfig} {remoteAddr : Str} {s u : Reading}
  {a : ReadStep cap}

theorem start_inTime (cfg : TimedConfig) (buffer : Bytes) (now : ℚ) :
    (start buffer now).InTime cfg := by
  intro t hbegan hnow
  exact absurd hnow (not_lt.2 hbegan)

theorem woken_eq_some {t : Reading} (h : s.woken front cfg pc time t = some u) :
    s.now ≤ time ∧ time ≤ front.waitEnd cfg pc s.began s.since s.now ∧
    u = { t with now := time } := by
  rw [woken] at h
  split at h
  · next htime =>
    cases h
    exact ⟨htime.1, htime.2, rfl⟩
  · cases h

section

variable [Urllib]

theorem proceed_times (front : TimedFront cap ω) (cfg : TimedConfig) (remoteAddr : Str)
    (s : Reading) (pc : ParsePc) (out : Except Exc (Bytes × Bytes)) :
    (s.proceed front cfg remoteAddr pc out).began = s.began ∧
      (s.proceed front cfg remoteAddr pc out).now = s.now := by
  cases out with
  | error e => exact ⟨rfl, rfl⟩
  | ok res =>
    rw [proceed]
    split
    · exact ⟨rfl, rfl⟩
    · exact ⟨rfl, rfl⟩
    · exact ⟨rfl, rfl⟩

/-- Time passes in a wait only, until it is over at the latest. -/
theorem step_times (h : s.step front cfg remoteAddr a = some u) :
    u.began = s.began ∧ (u.now = s.now ∨
      ∃ pc, s.phase = .inl pc ∧ a ≠ .compute ∧ front.overdue cfg s.began s.now = none ∧
        u.now ≤ front.waitEnd cfg pc s.began s.since s.now) := by
  rw [step] at h
  split at h
  · cases h
  · next pc hphase =>
    split at h
    · next out _ =>
      split at h
      · cases h
        obtain ⟨hbegan, hnow⟩ := proceed_times front cfg remoteAddr s pc out
        exact ⟨hbegan, .inl hnow⟩
      · cases h
    · split at h
      · cases h
        exact ⟨rfl, .inl rfl⟩
      · next hdue =>
        obtain ⟨-, hend, rfl⟩ := woken_eq_some h
        exact ⟨rfl, .inr ⟨pc, hphase, nofun, hdue, hend⟩⟩
      · next hdue =>
        obtain ⟨-, hend, rfl⟩ := woken_eq_some h
        exact ⟨rfl, .inr ⟨pc, hphase, nofun, hdue, hend⟩⟩
      · next hdue =>
        obtain ⟨-, hend, rfl⟩ := woken_eq_some h
        exact ⟨rfl, .inr ⟨pc, hphase, nofun, hdue, hend⟩⟩
      · next hdue =>
        cases h
        exact ⟨rfl, .inr ⟨pc, hphase, nofun, hdue, le_refl _⟩⟩
      · cases h

/-- A `recv` is begun before the deadline, and does not wait much beyond it. -/
theorem recv_inTime {s u : Reading} {a : ReadStep 4096} (hs : s.InTime cfg)
    (h : s.step SocketReader.timed cfg remoteAddr a = some u) : u.InTime cfg := by
  obtain ⟨hbegan, hnow | ⟨pc, hphase, -, hdue, hend⟩⟩ := step_times h
  · intro t ht htu
    rw [hbegan] at ht ⊢
    exact hs t ht (hnow ▸ htu)
  · have hpos : 0 < s.began + cfg.absoluteRequestTimeout - s.now := by
      by_contra hle
      rw [SocketReader.timed] at hdue
      dsimp only at hdue
      rw [if_pos (not_lt.1 hle)] at hdue
      cases hdue
    intro t ht htu
    rw [hbegan]
    have hwait : max (1 / 1000) (min (pc.idleTimeout cfg)
        (s.began + cfg.absoluteRequestTimeout - s.now)) ≤
        s.began + cfg.absoluteRequestTimeout - s.now + 1 / 1000 := by
      apply max_le
      · linarith
      · exact (min_le_right _ _).trans (by linarith)
    have hlast : u.now ≤ s.now + max (1 / 1000) (min (pc.idleTimeout cfg)
        (s.began + cfg.absoluteRequestTimeout - s.now)) := hend
    linarith

/-- A `wait_for` ends in time that is begun early enough. -/
theorem waitFor_inTime {s u : Reading} {a : ReadStep cap} (hs : s.InTime cfg)
    (hearly : s.Early cfg a)
    (h : s.step (StreamReader.timed cap) cfg remoteAddr a = some u) : u.InTime cfg := by
  obtain ⟨hbegan, hnow | ⟨pc, hphase, ha, -, hend⟩⟩ := step_times h
  · intro t ht htu
    rw [hbegan] at ht ⊢
    exact hs t ht (hnow ▸ htu)
  · have hpc : pc ∈ s.phase.getLeft? := by
      rw [hphase]
      rfl
    have hlimit : s.since + pc.idleTimeout cfg ≤ s.began +
      cfg.absoluteRequestTimeout + 1 / 1000 := by
      cases a with
      | compute => exact absurd rfl ha
      | deliver time seg => exact hearly pc hpc
      | close time => exact hearly pc hpc
      | abort time => exact hearly pc hpc
      | expire => exact hearly pc hpc
    intro t ht htu
    rw [hbegan] at ht ⊢
    rcases lt_max_iff.1 (htu.trans_le hend) with hlt | hlt
    · exact hs t ht hlt
    · exact hlt.le.trans hlimit

/-- As long as a request is read, the parser can compute or its wait can time out. -/
theorem progress (hphase : s.phase = .inl pc) :
    (s.step front cfg remoteAddr .compute).isSome ∨
    (s.step front cfg remoteAddr .expire).isSome := by
  simp only [step, hphase]
  cases s.attempt front cfg pc with
  | inr out => exact .inl rfl
  | inl e =>
    cases front.overdue cfg s.began s.now with
    | some e' => exact .inl rfl
    | none => exact .inr rfl

/-- A wait that is begun later ends too late if nothing comes. -/
theorem expire_late (hphase : s.phase = .inl pc)
    (hwait : s.attempt (StreamReader.timed cap) cfg pc = .inl e)
    (hbegan : 0 ≤ cfg.absoluteRequestTimeout) (hlate : ¬ s.Early cfg (.expire : ReadStep cap)) :
    ∃ u, s.step (StreamReader.timed cap) cfg remoteAddr .expire = some u ∧ ¬ u.InTime cfg := by
  have hlimit : s.began + cfg.absoluteRequestTimeout + 1 / 1000 < s.since + pc.idleTimeout cfg := by
    by_contra hle
    apply hlate
    intro pc' hpc
    rw [hphase] at hpc
    cases hpc
    exact not_lt.1 hle
  refine ⟨{ s.rejected e with now := max s.now (s.since + pc.idleTimeout cfg) }, ?_, ?_⟩
  · simp only [step, hphase, hwait]
    rfl
  · intro htime
    obtain ⟨t, ht, htnow⟩ := exists_between hlimit
    have hle := htime t (by dsimp only [rejected]; linarith) (htnow.trans_le (le_max_right _ _))
    exact absurd hle (not_le.2 ht)

/-- The absolute deadline bounds the reading of a request on a socket, for any arrivals. On a stream
it does so where each read in which time passes is begun early enough. -/
theorem read_inTime (cfg : TimedConfig) (remoteAddr : Str) (buffer : Bytes) (now : ℚ) :
    (∀ l s, Run (step SocketReader.timed cfg remoteAddr) (start buffer now) l s → s.InTime cfg) ∧
    ∀ cap l s, Run (step (StreamReader.timed cap) cfg remoteAddr) (start buffer now) l s →
      (∀ x ∈ l, x.1.Early cfg x.2) → s.InTime cfg := by
  constructor
  · intro l s hrun
    apply hrun.invariant (start_inTime cfg buffer now)
    intro x _ u hx hstep
    exact recv_inTime hx hstep
  · intro cap l s hrun hearly
    apply hrun.invariant (start_inTime cfg buffer now)
    intro x hmem u hx hstep
    exact waitFor_inTime hx (hearly x hmem) hstep

end

/-- The head of a request comes in two parts. -/
def promptHead : List (ReadStep 4096) :=
  [.deliver 1 ⟨ascii "GET / HTTP/1.1\r\n", by decide, by decide⟩,
    .deliver 2 ⟨ascii "Host: h\r\n\r\n", by decide, by decide⟩, .compute]

theorem read_inTime_prompt : ∃ _ : Urllib,
    (∃ s, promptHead.foldlM (step SocketReader.timed {} []) (start [] 0) = some s ∧
      s.phase.isRight = true ∧ s.InTime {}) ∧
    ∃ s, promptHead.foldlM (step (StreamReader.timed 4096) {} []) (start [] 0) = some s ∧
      s.phase.isRight = true ∧ s.InTime {} := by
  refine ⟨⟨fun _ => true⟩, ?_⟩
  let _ : Urllib := ⟨fun _ => true⟩
  have hsocket : ((promptHead.foldlM (step SocketReader.timed {} []) (start [] 0)).map
      fun s => s.phase.isRight) = some true := by decide +kernel
  have hstream : ((promptHead.foldlM (step (StreamReader.timed 4096) {} []) (start [] 0)).map
      fun s => s.phase.isRight) = some true := by decide +kernel
  obtain ⟨s, hs, hover⟩ := Option.map_eq_some_iff.1 hsocket
  obtain ⟨t, ht, hover'⟩ := Option.map_eq_some_iff.1 hstream
  refine ⟨⟨s, hs, hover, ?_⟩, t, ht, hover', ?_⟩
  · exact (read_inTime {} [] [] 0).1 _ s (Run.of_foldlM _ _ _ hs)
  · exact (read_inTime {} [] [] 0).2 4096 _ t (Run.of_foldlM _ _ _ ht) (by decide +kernel)

/-- A body in chunks of five bytes, of which a part comes every nine seconds. -/
def drippedBody : List (ReadStep 4096) :=
  [.deliver 0 ⟨ascii "POST / HTTP/1.1\r\nHost: h\r\nTransfer-Encoding: chunked\r\n\r\n", by decide,
      by decide +kernel⟩, .compute,
    .deliver 9 ⟨ascii "5\r\n", by decide, by decide⟩, .compute,
    .deliver 18 ⟨ascii "hello", by decide, by decide⟩, .compute,
    .deliver 27 ⟨ascii "\r\n", by decide, by decide⟩, .compute,
    .deliver 36 ⟨ascii "5\r\n", by decide, by decide⟩, .compute]

/-- After 36 seconds, with the default timeouts. -/
theorem read_late : ∃ (_ : Urllib) (l : List (Reading × ReadStep 4096)) (s : Reading)
    (pc : ParsePc),
    Run (step (StreamReader.timed 4096) {} []) (start [] 0) l s ∧ s.phase = .inl pc ∧
    ¬ s.InTime {} := by
  refine ⟨⟨fun _ => true⟩, ?_⟩
  let _ : Urllib := ⟨fun _ => true⟩
  have hrun : ((drippedBody.foldlM (step (StreamReader.timed 4096) {} []) (start [] 0)).map
      fun s => (s.phase.isLeft, s.began, s.now)) = some (true, 0, 36) := by decide +kernel
  obtain ⟨s, hs, heq⟩ := Option.map_eq_some_iff.1 hrun
  obtain ⟨hleft, hbegan, hnow⟩ : s.phase.isLeft = true ∧ s.began = 0 ∧ s.now = 36 := by
    simpa only [Prod.mk.injEq] using heq
  obtain ⟨pc, hpc⟩ := Sum.isLeft_iff.1 hleft
  refine ⟨_, s, pc, Run.of_foldlM _ _ _ hs, hpc, ?_⟩
  intro htime
  have hle := htime 35 (by rw [hbegan]; norm_num) (by rw [hnow]; norm_num)
  rw [hbegan] at hle
  norm_num at hle

end Reading

end Sovereign
