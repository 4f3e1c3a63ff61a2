import Sovereign.Parser

namespace Sovereign
open Buffered
set_option autoImplicit true

namespace ChunkLoop

/-- A state of the loop of `SocketReader.read_chunked_body` on the stream of `r`. -/
def Visits (cfg : ServerConfig) (r : SocketReader) (s : ChunkLoop SocketReader) : Prop :=
  (machine SocketReader.chunkSource cfg).Reaches (start r) s

/-- Every size line the loop reads stands for a number that is not negative. -/
def NoNegativeSize (cfg : ServerConfig) (r : SocketReader) : Prop :=
  ∀ s line r' n, Visits cfg r s → s.pc = .sizeLine →
    SocketReader.chunkSource.readSizeLine s.reader = .ok (line, r') →
    chunkSize line = some n → 0 ≤ n

/-- The running total never falls below what is in the spool, which is within the limit. -/
def WithinLimit (cfg : ServerConfig) (s : ChunkLoop SocketReader) : Prop :=
  s.spool.length ≤ cfg.maxBodyBytes ∧ (s.spool.length : Int) ≤ s.total

/-- The size that is counted but not yet read. -/
def ahead : ChunkPc → Int
  | .counted size => size
  | .sizeLine | .written => 0

/-- Between turns the total is the spool and the size counted ahead of it. -/
def Balanced (cfg : ServerConfig) (s : ChunkLoop SocketReader) : Prop :=
  s.total = s.spool.length + ahead s.pc ∧ 0 ≤ ahead s.pc ∧ s.spool.length ≤ cfg.maxBodyBytes

/-- Without any assumption the total is never too large. -/
def NotAbove (s : ChunkLoop SocketReader) : Prop := s.total ≤ s.spool.length + ahead s.pc

theorem readExact_size {r r' : SocketReader} (h : r.readExact n = .ok (part, r')) (hn : 0 ≤ n) :
    (part.length : Int) = n := by
  obtain ⟨k, rfl⟩ := Int.eq_ofNat_of_zero_le hn
  rw [SocketReader.readExact_ofNat] at h
  split at h
  · next hk =>
    cases h
    rw [List.length_take, Nat.min_eq_left hk]
  · cases h

theorem notAbove_step {cfg : ServerConfig} {s t : ChunkLoop SocketReader} (hs : NotAbove s)
    (h : (machine SocketReader.chunkSource cfg).Moves s t) : NotAbove t := by
  rcases step_cases h with ⟨line, n, hpc, -, -, -, htc, hsp, hto⟩ |
    ⟨n, part, hpc, -, hp, htc, hsp, hto⟩ | ⟨hpc, -, htc, hsp, hto⟩
  · simp only [NotAbove, hpc, htc, hsp, hto, ahead] at hs ⊢
    omega
  · simp only [NotAbove, hpc, htc, hsp, hto, ahead, List.length_append] at hs ⊢
    rcases Int.lt_or_le n 0 with hn | hn
    · omega
    · have hlen := readExact_size hp hn
      omega
  · simpa only [NotAbove, hpc, htc, hsp, hto, ahead] using hs

theorem balanced_step {cfg : ServerConfig} {r : SocketReader} {s t : ChunkLoop SocketReader}
    (hn : NoNegativeSize cfg r) (hv : Visits cfg r s) (hs : Balanced cfg s)
    (h : (machine SocketReader.chunkSource cfg).Moves s t) : Balanced cfg t := by
  rcases step_cases h with ⟨line, n, hpc, hl, hsize, -, htc, hsp, hto⟩ |
    ⟨n, part, hpc, hm, hp, htc, hsp, hto⟩ | ⟨hpc, -, htc, hsp, hto⟩
  · have h0 := hn s line _ n hv hpc hl hsize
    simp only [Balanced, hpc, htc, hsp, hto, ahead] at hs ⊢
    omega
  · simp only [Balanced, hpc, htc, hsp, hto, ahead, List.length_append] at hs ⊢
    have hlen := readExact_size hp hs.2.1
    omega
  · simpa only [Balanced, hpc, htc, hsp, hto, ahead] using hs

theorem notAbove_visits {cfg : ServerConfig} {r : SocketReader} {s : ChunkLoop SocketReader}
    (h : Visits cfg r s) : NotAbove s :=
  Machine.invariant h (by simp [NotAbove, start, ahead]) notAbove_step

theorem balanced_visits {cfg : ServerConfig} {r : SocketReader} {s : ChunkLoop SocketReader}
    (hn : NoNegativeSize cfg r) (h : Visits cfg r s) : Balanced cfg s := by
  refine (Machine.invariant (I := fun s => Visits cfg r s ∧ Balanced cfg s) h
    ⟨.refl, by simp [Balanced, start, ahead]⟩ fun hs hm => ?_).2
  exact ⟨hs.1.tail hm, balanced_step hn hs.1 hs.2 hm⟩

end ChunkLoop

open ChunkLoop

/-- The limit as promised: for the result, and at every moment of the loop. -/
def KeepsBodyLimit (cfg : ServerConfig) (r : SocketReader) : Prop :=
  (∀ body total r', r.readChunkedBody cfg = .ok (body, total, r') →
    total = body.toBytes.length ∧ body.toBytes.length ≤ cfg.maxBodyBytes) ∧
  ∀ s, Visits cfg r s → WithinLimit cfg s

theorem readChunkedBody_done {cfg : ServerConfig} {r r' : SocketReader}
    (h : r.readChunkedBody cfg = .ok (body, size, r')) :
    ∃ s, Visits cfg r s ∧ s.pc = .sizeLine ∧ s.spool = body.toBytes ∧ s.total = size := by
  simp only [SocketReader.readChunkedBody] at h
  cases hrun : (machine SocketReader.chunkSource cfg).run (start r) with
  | error e =>
    rw [hrun] at h
    cases h
  | ok res =>
    obtain ⟨spool, sum, r''⟩ := res
    rw [hrun] at h
    cases h
    obtain ⟨s, hs, hd⟩ := Machine.exists_done hrun
    obtain ⟨line, r₁, trailer, hpc, -, -, -, rfl, rfl⟩ := step_done hd
    refine ⟨s, hs, hpc, ?_, rfl⟩
    split <;> rfl

/-- The body limit holds exactly where no chunk-size line reads as a negative number. -/
theorem readChunkedBody_limit (cfg : ServerConfig) (r : SocketReader) :
    KeepsBodyLimit cfg r ↔ NoNegativeSize cfg r := by
  constructor
  · rintro ⟨-, h⟩ s line r' n hv hpc hl hsize
    by_contra hneg
    have hstep : (machine SocketReader.chunkSource cfg).Moves s
        ⟨.counted n, r', s.spool, s.total + n⟩ := by
      have h0 : n ≠ 0 := by omega
      simp only [Machine.Moves, machine_step, step, hpc, hl, bind, Except.bind, hsize, h0,
        ↓reduceIte, pure, Except.pure]
    have hbelow := (h _ (hv.tail hstep)).2
    have habove := notAbove_visits hv
    simp only [NotAbove, hpc, ahead] at habove
    simp only at hbelow
    omega
  · intro hn
    refine ⟨fun body total r' hr => ?_, fun s hv => ?_⟩
    · obtain ⟨s, hv, hpc, hspool, rfl⟩ := readChunkedBody_done hr
      have hb := balanced_visits hn hv
      simp only [ChunkLoop.Balanced, hpc, ahead, hspool] at hb
      omega
    · obtain ⟨ht, ha, hm⟩ := balanced_visits hn hv
      exact ⟨hm, by omega⟩

/-- With sizes five and minus seven the five bytes that were accepted count as minus two. -/
theorem readChunkedBody_negative_size :
    ¬ ∀ (cfg : ServerConfig) (r : SocketReader), KeepsBodyLimit cfg r := by
  intro h
  have hr : SocketReader.readChunkedBody {} ⟨ascii "5\r\nhello\r\n-7\r\n\r\n0\r\n\r\n", []⟩ =
      .ok (.bytes (ascii "hello"), -2, ⟨[], []⟩) := by decide
  exact absurd ((h _ _).1 _ _ _ hr).1 (by decide)

end Sovereign
