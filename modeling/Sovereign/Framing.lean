import Sovereign.HeaderBlock

namespace Sovereign
set_option autoImplicit true

/-- The reads that the two parsers make on a connection. -/
structure FrontEnd (R : Type) where
  readHeaders : ServerConfig → R → Read (Bytes × R)
  readChunkedBody : ServerConfig → R → Read (Body × Int × R)
  readExactBody : ServerConfig → Nat → R → Read (Body × R)

namespace FrontEnd

variable {R : Type}

/-- How the body is framed, and the body with its size. -/
def readBody (fe : FrontEnd R) (cfg : ServerConfig) (headers : Headers) (reader : R) :
    Read (Body × Int × R) :=
  if lower ((headers.get? "transfer-encoding".toList).getD []) = "chunked".toList then
    fe.readChunkedBody cfg reader
  else
    let cl := (headers.get? "content-length".toList).getD ['0']
    if isDigit cl = false then .error (.httpError 400 "Invalid Content-Length")
    else
      match parseInt cl with
      | none => .error (.builtin .valueError)
      | some 0 => .ok (.bytes [], 0, reader)
      | some (n + 1) => do
        let (body, reader) ← fe.readExactBody cfg (n + 1) reader
        return (body, ((n + 1 : Nat) : Int), reader)

/-- The common text of `parse_request` and `parse_async_request`. -/
def parse [Urllib] (fe : FrontEnd R) (cfg : ServerConfig) (remoteAddr : Str) (reader : R) :
    Read (Request × R) := do
  let (raw, reader) ← fe.readHeaders cfg reader
  let head ← parseHeaderBlock raw cfg
  let (body, size, reader) ← fe.readBody cfg head.headers reader
  let req ← Request.make head.method head.target head.version head.headers head.rawPairs
    body size remoteAddr
  return (req, reader)

variable {fe : FrontEnd R} {cfg : ServerConfig}

/-- A parse that succeeds has read a head, accepted it and read a body. -/
theorem parse_ok [Urllib] (h : fe.parse cfg remoteAddr r = .ok (req, r')) :
    ∃ raw r₁ head body size, fe.readHeaders cfg r = .ok (raw, r₁) ∧
      parseHeaderBlock raw cfg = .ok head ∧ fe.readBody cfg head.headers r₁ = .ok (body, size, r') ∧
      Request.make head.method head.target head.version head.headers head.rawPairs body size
        remoteAddr = .ok req := by
  simp only [parse, bind, Except.bind] at h
  cases hr : fe.readHeaders cfg r with
  | error e => simp [hr] at h
  | ok res =>
    obtain ⟨raw, r₁⟩ := res
    cases hh : parseHeaderBlock raw cfg with
    | error e => simp [hr, hh] at h
    | ok head =>
      cases hb : fe.readBody cfg head.headers r₁ with
      | error e => simp [hr, hh, hb] at h
      | ok res =>
        obtain ⟨body, size, r₂⟩ := res
        simp only [hr, hh, hb] at h
        split at h
        · cases h
        · next req' hm =>
          cases h
          exact ⟨raw, r₁, head, body, size, rfl, hh, hb, hm⟩

theorem parse_of_head [Urllib] (hr : fe.readHeaders cfg r = .ok (raw, r₁))
    (hh : parseHeaderBlock raw cfg = .ok head) :
    fe.parse cfg remoteAddr r = (do
      let (body, size, r₂) ← fe.readBody cfg head.headers r₁
      let req ← Request.make head.method head.target head.version head.headers head.rawPairs
        body size remoteAddr
      return (req, r₂)) := by
  simp only [parse, hr, hh, bind, Except.bind]

theorem readBody_chunked {headers : Headers}
    (h : headers.get? "transfer-encoding".toList = some coding)
    (hc : lower coding = "chunked".toList) (r : R) :
    fe.readBody cfg headers r = fe.readChunkedBody cfg r := by
  simp only [readBody, h, Option.getD_some, hc, ↓reduceIte]

/-- A transfer coding other than `chunked` is not looked at further. -/
theorem readBody_unchunked {headers : Headers}
    (h : ∀ coding, headers.get? "transfer-encoding".toList = some coding →
      lower coding ≠ "chunked".toList) (hl : headers.get? "content-length".toList = none) (r : R) :
    fe.readBody cfg headers r = .ok (.bytes [], 0, r) := by
  have hc : lower ((headers.get? "transfer-encoding".toList).getD []) ≠ "chunked".toList := by
    cases ht : headers.get? "transfer-encoding".toList with
    | none => decide
    | some coding => exact h coding ht
  simp only [readBody, hc, ↓reduceIte, hl]
  rfl

theorem readBody_length {headers : Headers} (h : headers.get? "transfer-encoding".toList = none)
    (hl : headers.get? "content-length".toList = some cl) (r : R) :
    fe.readBody cfg headers r =
      if isDigit cl = false then .error (.httpError 400 "Invalid Content-Length")
      else
        match parseInt cl with
        | none => .error (.builtin .valueError)
        | some 0 => .ok (.bytes [], 0, r)
        | some (n + 1) =>
          (fe.readExactBody cfg (n + 1) r).map fun (body, r') =>
          (body, ((n + 1 : Nat) : Int), r') := by
  have hc : lower ((headers.get? "transfer-encoding".toList).getD []) ≠ "chunked".toList := by
    rw [h]
    decide
  simp only [readBody, hc, ↓reduceIte, hl, Option.getD_some]
  split
  · rfl
  · split
    · rfl
    · rfl
    · next n _ => cases fe.readExactBody cfg (n + 1) r <;> rfl

end FrontEnd

theorem requestMake_ok [Urllib]
    (h : Request.make method target version headers rawHeaders body size addr = .ok req) :
    req.method = method ∧ req.target = target ∧ req.headers = headers ∧
      req.rawHeaders = rawHeaders ∧ req.body = body ∧ req.bodySize = size := by
  simp only [Request.make] at h
  split at h
  · cases h
  · cases h
    exact ⟨rfl, rfl, rfl, rfl, rfl, rfl⟩

end Sovereign
