import Sovereign.Lib.Machine
import Sovereign.Request

namespace Sovereign
set_option autoImplicit true

/-- The number a chunk-size line stands for: what precedes a semicolon, read by `int(_, 16)`. -/
def chunkSize (line : Bytes) : Option Int :=
  parseInt16 (strip isSpaceByte (((splitFirst 59 line).map Prod.fst).getD line))

/-- The reads that the loop of `read_chunked_body` makes, in each of its two copies. -/
structure ChunkSource (R : Type) where
  /-- the next size line, without its line end -/
  readSizeLine : R → Read (Bytes × R)
  /-- the line after the last chunk -/
  readTrailer : R → Read (Bytes × R)
  readExact : Int → R → Read (Bytes × R)
  /-- the bytes that are left to read -/
  unread : R → Bytes
  sizeLine_shrinks : readSizeLine r = .ok (line, r') → (unread r').length < (unread r).length
  exact_shrinks : readExact n r = .ok (part, r') → (unread r').length ≤ (unread r).length

/-- Where the loop stands. -/
inductive ChunkPc where
  /-- about to read a size line -/
  | sizeLine
  /-- a size has been added to the running total -/
  | counted (size : Int)
  /-- the data of a chunk has been kept -/
  | written
deriving DecidableEq

structure ChunkLoop (R : Type) where
  pc : ChunkPc
  reader : R
  spool : Bytes
  total : Int
deriving DecidableEq

namespace ChunkLoop

variable {R : Type}

def start (r : R) : ChunkLoop R := ⟨.sizeLine, r, [], 0⟩

def step (src : ChunkSource R) (cfg : ServerConfig) (s : ChunkLoop R) :
    Read (ChunkLoop R ⊕ (Bytes × Int × R)) :=
  match s.pc with
  | .sizeLine => do
    let (line, r) ← src.readSizeLine s.reader
    match chunkSize line with
    | none => .error (.httpError 400 "Invalid chunk size")
    | some size =>
      if size = 0 then do
        -- one line is consumed here and taken for the whole trailer section
        let (_, r) ← src.readTrailer r
        return .inr (s.spool, s.total, r)
      else return .inl { s with pc := .counted size, reader := r, total := s.total + size }
  | .counted size =>
    if (cfg.maxBodyBytes : Int) < s.total then .error (.httpError 413 "Payload Too Large")
    else do
      let (part, r) ← src.readExact size s.reader
      return .inl { s with pc := .written, reader := r, spool := s.spool ++ part }
  | .written => do
    let (terminator, r) ← src.readExact 2 s.reader
    if terminator ≠ crlf then .error (.httpError 400 "Malformed chunk terminator")
    else return .inl { s with pc := .sizeLine, reader := r }

/-- What one turn of the loop can do. -/
theorem step_cases {src : ChunkSource R} {cfg : ServerConfig} {s t : ChunkLoop R}
    (h : s.step src cfg = .ok (.inl t)) :
    (∃ line size, s.pc = .sizeLine ∧ src.readSizeLine s.reader = .ok (line, t.reader) ∧
      chunkSize line = some size ∧ size ≠ 0 ∧
      t.pc = .counted size ∧ t.spool = s.spool ∧ t.total = s.total + size) ∨
    (∃ size part, s.pc = .counted size ∧ s.total ≤ cfg.maxBodyBytes ∧
      src.readExact size s.reader = .ok (part, t.reader) ∧
      t.pc = .written ∧ t.spool = s.spool ++ part ∧ t.total = s.total) ∨
    (s.pc = .written ∧ src.readExact 2 s.reader = .ok (crlf, t.reader) ∧
      t.pc = .sizeLine ∧ t.spool = s.spool ∧ t.total = s.total) := by
  obtain ⟨pc, reader, spool, total⟩ := s
  cases pc with
  | sizeLine =>
    left
    simp only [step, bind, Except.bind] at h
    cases hl : src.readSizeLine reader with
    | error e => rw [hl] at h; cases h
    | ok res =>
      obtain ⟨line, r⟩ := res
      simp only [hl] at h
      split at h
      · cases h
      · next size hs =>
        split at h
        · split at h <;> cases h
        · next h0 =>
          cases h
          exact ⟨line, size, rfl, rfl, hs, h0, rfl, rfl, rfl⟩
  | counted size =>
    right; left
    simp only [step, bind, Except.bind] at h
    split at h
    · cases h
    · next hm =>
      cases hp : src.readExact size reader with
      | error e => rw [hp] at h; cases h
      | ok res =>
        rw [hp] at h
        cases h
        exact ⟨size, res.1, rfl, Int.not_lt.1 hm, hp, rfl, rfl, rfl⟩
  | written =>
    right; right
    simp only [step, bind, Except.bind] at h
    cases ht : src.readExact 2 reader with
    | error e => rw [ht] at h; cases h
    | ok res =>
      obtain ⟨terminator, r⟩ := res
      simp only [ht] at h
      split at h
      · cases h
      · next hc =>
        cases h
        obtain rfl := not_not.1 hc
        exact ⟨rfl, rfl, rfl, rfl, rfl⟩

/-- The loop finishes only at a size line that announces zero. -/
theorem step_done {src : ChunkSource R} {cfg : ServerConfig} {s : ChunkLoop R}
    (h : s.step src cfg = .ok (.inr (body, sum, r'))) :
    ∃ line r trailer, s.pc = .sizeLine ∧ src.readSizeLine s.reader = .ok (line, r) ∧
      chunkSize line = some 0 ∧ src.readTrailer r = .ok (trailer, r') ∧
      body = s.spool ∧ sum = s.total := by
  obtain ⟨pc, reader, spool, total⟩ := s
  cases pc with
  | sizeLine =>
    simp only [step, bind, Except.bind] at h
    cases hl : src.readSizeLine reader with
    | error e => rw [hl] at h; cases h
    | ok res =>
      obtain ⟨line, r⟩ := res
      simp only [hl] at h
      split at h
      · cases h
      · next size hs =>
        split at h
        · next h0 =>
          subst h0
          cases ht : src.readTrailer r with
          | error e => rw [ht] at h; cases h
          | ok res =>
            rw [ht] at h
            cases h
            exact ⟨line, r, res.1, rfl, rfl, hs, ht, rfl, rfl⟩
        · cases h
  | counted size =>
    simp only [step, bind, Except.bind] at h
    split at h
    · cases h
    · split at h <;> cases h
  | written =>
    simp only [step, bind, Except.bind] at h
    split at h
    · cases h
    · split at h <;> cases h

def rank : ChunkPc → Nat
  | .sizeLine => 0
  | .written => 1
  | .counted _ => 2

/-- The loop of `read_chunked_body`. It ends because every size line consumes bytes. -/
def machine (src : ChunkSource R) (cfg : ServerConfig) :
    Machine (ChunkLoop R) Exc (Bytes × Int × R) where
  step := step src cfg
  size s := 3 * (src.unread s.reader).length + rank s.pc
  decreasing h := by
    rcases step_cases h with ⟨line, size, hpc, hl, -, -, htc, -, -⟩ |
      ⟨size, part, hpc, -, hp, htc, -, -⟩ | ⟨hpc, ht, htc, -, -⟩
    · have hlen := src.sizeLine_shrinks hl
      simp only [hpc, htc, rank]
      omega
    · have hlen := src.exact_shrinks hp
      simp only [hpc, htc, rank]
      omega
    · have hlen := src.exact_shrinks ht
      simp only [hpc, htc, rank]
      omega

end ChunkLoop

/-- A complete pass of the loop over a chunked body, with the reader before and after each size
line and before and after the line taken for the trailer section. -/
inductive Decodes (src : ChunkSource R) (cfg : ServerConfig) :
    R → Int → List (R × R) → R × R → Bytes → Int → Prop where
  | last : src.readSizeLine r = .ok (line, r₁) → chunkSize line = some 0 →
      src.readTrailer r₁ = .ok (trailer, r₂) →
      Decodes src cfg r total [(r, r₁)] (r₁, r₂) [] total
  | chunk : src.readSizeLine r = .ok (line, r₁) → chunkSize line = some n → n ≠ 0 →
      total + n ≤ cfg.maxBodyBytes → src.readExact n r₁ = .ok (data, r₂) →
      src.readExact 2 r₂ = .ok (crlf, r₃) →
      Decodes src cfg r₃ (total + n) lines trailer content total' →
      Decodes src cfg r total ((r, r₁) :: lines) trailer (data ++ content) total'

theorem Decodes.readTrailer {src : ChunkSource R} {cfg : ServerConfig}
    (h : Decodes src cfg r total lines trailer content total') :
    ∃ text, src.readTrailer trailer.1 = .ok (text, trailer.2) := by
  induction h with
  | last _ _ ht => exact ⟨_, ht⟩
  | chunk _ _ _ _ _ _ _ ih => exact ih

namespace ChunkLoop

variable {R : Type} {src : ChunkSource R} {cfg : ServerConfig}

theorem machine_step (s : ChunkLoop R) : (machine src cfg).step s = step src cfg s := rfl

theorem run_written (r : R) (spool : Bytes) (sum : Int) :
    (machine src cfg).run ⟨.written, r, spool, sum⟩ = (do
      let (terminator, r') ← src.readExact 2 r
      if terminator ≠ crlf then .error (.httpError 400 "Malformed chunk terminator")
      else (machine src cfg).run ⟨.sizeLine, r', spool, sum⟩) := by
  rw [Machine.run_eq]
  simp only [machine_step, step]
  cases src.readExact 2 r with
  | error e => rfl
  | ok res =>
    by_cases hc : res.1 = crlf
    · simp only [bind, Except.bind, hc, ne_eq, not_true_eq_false, ↓reduceIte, pure, Except.pure]
    · simp only [bind, Except.bind, hc, ne_eq, not_false_eq_true, ↓reduceIte]

theorem run_counted (n : Int) (r : R) (spool : Bytes) (sum : Int) :
    (machine src cfg).run ⟨.counted n, r, spool, sum⟩ =
      if (cfg.maxBodyBytes : Int) < sum then .error (.httpError 413 "Payload Too Large")
      else (do
        let (data, r') ← src.readExact n r
        (machine src cfg).run ⟨.written, r', spool ++ data, sum⟩) := by
  rw [Machine.run_eq]
  simp only [machine_step, step]
  by_cases hm : (cfg.maxBodyBytes : Int) < sum
  · simp only [hm, ↓reduceIte]
  · simp only [hm, ↓reduceIte]
    cases src.readExact n r <;> rfl

/-- The loop at a size line. -/
theorem run_sizeLine (r : R) (spool : Bytes) (sum : Int) :
    (machine src cfg).run ⟨.sizeLine, r, spool, sum⟩ = (do
      let (line, r₁) ← src.readSizeLine r
      match chunkSize line with
      | none => .error (.httpError 400 "Invalid chunk size")
      | some n =>
        if n = 0 then do
          let (_, r₂) ← src.readTrailer r₁
          return (spool, sum, r₂)
        else (machine src cfg).run ⟨.counted n, r₁, spool, sum + n⟩) := by
  rw [Machine.run_eq]
  simp only [machine_step, step]
  cases src.readSizeLine r with
  | error e => rfl
  | ok res =>
    simp only [bind, Except.bind]
    cases chunkSize res.1 with
    | none => rfl
    | some n =>
      by_cases h0 : n = 0
      · simp only [h0, ↓reduceIte]
        cases src.readTrailer res.2 <;> rfl
      · simp only [h0, ↓reduceIte, pure, Except.pure]

theorem run_of_decodes (h : Decodes src cfg r sum lines trailer content sum') (spool : Bytes) :
    (machine src cfg).run ⟨.sizeLine, r, spool, sum⟩ =
      .ok (spool ++ content, sum', trailer.2) := by
  induction h generalizing spool with
  | last hl hs ht =>
    simp only [run_sizeLine, hl, hs, ht, bind, Except.bind, List.append_nil, ↓reduceIte, pure,
      Except.pure]
  | chunk hl hs h0 hm hd ht _ ih =>
    have hm' := Int.not_lt.2 hm
    simp only [run_sizeLine, run_counted, run_written, hl, hs, h0, hm', hd, ht, bind, Except.bind,
      ↓reduceIte, ne_eq, not_true_eq_false, ih, List.append_assoc]

theorem decodes_of_run {spool : Bytes}
    (h : (machine src cfg).run ⟨.sizeLine, r, spool, sum⟩ = .ok (body, sum', r')) :
    ∃ lines trailer content, Decodes src cfg r sum lines trailer content sum' ∧
      trailer.2 = r' ∧ body = spool ++ content := by
  induction hn : (src.unread r).length using Nat.strongRecOn generalizing r spool sum with
  | ind k ih =>
    rw [run_sizeLine] at h
    cases hl : src.readSizeLine r with
    | error e => simp [hl, bind, Except.bind] at h
    | ok res =>
      obtain ⟨line, r₁⟩ := res
      cases hs : chunkSize line with
      | none => simp [hl, hs, bind, Except.bind] at h
      | some n =>
        by_cases h0 : n = 0
        · subst h0
          cases ht : src.readTrailer r₁ with
          | error e => simp [hl, hs, ht, bind, Except.bind] at h
          | ok res =>
            simp only [hl, hs, ht, bind, Except.bind, ↓reduceIte] at h
            cases h
            exact ⟨_, _, _, .last hl hs ht, rfl, (List.append_nil _).symm⟩
        · simp only [hl, hs, h0, bind, Except.bind, ↓reduceIte, run_counted] at h
          split at h
          · cases h
          · next hm =>
            cases hd : src.readExact n r₁ with
            | error e => simp [hd] at h
            | ok res =>
              obtain ⟨data, r₂⟩ := res
              cases ht : src.readExact 2 r₂ with
              | error e => simp [hd, ht, run_written, bind, Except.bind] at h
              | ok res =>
                obtain ⟨terminator, r₃⟩ := res
                by_cases hc : terminator = crlf
                · subst hc
                  simp only [hd, run_written, ht, bind, Except.bind, ne_eq, not_true_eq_false,
                    ↓reduceIte] at h
                  have h₁ := src.sizeLine_shrinks hl
                  have h₂ := src.exact_shrinks hd
                  have h₃ := src.exact_shrinks ht
                  obtain ⟨lines, trailer, content, hdec, hr, rfl⟩ :=
                    ih (src.unread r₃).length (by omega) h rfl
                  exact ⟨_, _, _, .chunk hl hs h0 (Int.not_lt.1 hm) hd ht hdec, hr,
                    List.append_assoc _ _ _⟩
                · simp [hd, run_written, ht, hc, bind, Except.bind] at h

end ChunkLoop

end Sovereign
