import Sovereign.Lib.Marker

namespace Buffered
set_option autoImplicit true

/-- One non-empty delivery of a connection, at most as long as a receive call asks for. -/
structure Segment (α : Type) (cap : Nat) where
  items : List α
  nonempty : items ≠ []
  bounded : items.length ≤ cap
deriving DecidableEq

/-- What a receive call meets next: a delivery, or a reason for which it fails. -/
inductive Arrival (α : Type) (cap : Nat) (ω : Type) where
  | data (seg : Segment α cap)
  | outage (o : ω)
deriving DecidableEq

/-- A buffer in front of the arrivals still to come; after the last one the peer has closed. -/
structure Source (α : Type) (cap : Nat) (ω : Type) where
  buffer : List α
  pending : List (Arrival α cap ω)
deriving DecidableEq

/-- The items that arrive before the first outage or the end. -/
def avail : List (Arrival α cap ω) → List α
  | .data seg :: rest => seg.items ++ avail rest
  | _ => []

/-- What the arrivals end in: an outage, or `none` when the peer closes. -/
def ending : List (Arrival α cap ω) → Option ω
  | [] => none
  | .data _ :: rest => ending rest
  | .outage o :: _ => some o

def Source.unread (s : Source α cap ω) : List α := s.buffer ++ avail s.pending

def Source.ending (s : Source α cap ω) : Option ω := Buffered.ending s.pending

/-- Receive until the buffer is judged to be enough. -/
def fill (enough : List α → Bool) (buf : List α) :
    List (Arrival α cap ω) → Except (Option ω) (Source α cap ω)
  | [] => if enough buf then .ok ⟨buf, []⟩ else .error none
  | .outage o :: rest => if enough buf then .ok ⟨buf, .outage o :: rest⟩ else .error (some o)
  | .data seg :: rest =>
    if enough buf then .ok ⟨buf, .data seg :: rest⟩ else fill enough (buf ++ seg.items) rest

def Source.fill (enough : List α → Bool) (s : Source α cap ω) :
    Except (Option ω) (Source α cap ω) :=
  Buffered.fill enough s.buffer s.pending

/-- Consume `n` items, receiving no more deliveries than that takes. -/
def advance (n : Nat) (buf : List α) : List (Arrival α cap ω) → Source α cap ω
  | .data seg :: rest =>
    if n ≤ buf.length then ⟨buf.drop n, .data seg :: rest⟩
    else advance (n - buf.length) seg.items rest
  | pending => ⟨buf.drop n, pending⟩

def Source.advance (n : Nat) (s : Source α cap ω) : Source α cap ω :=
  Buffered.advance n s.buffer s.pending

/-- A connection that delivers some segments and is then closed, before anything is received. -/
def Source.ofSegments (segs : List (Segment α cap)) : Source α cap ω := ⟨[], segs.map .data⟩

theorem avail_segments (segs : List (Segment α cap)) :
    avail (ω := ω) (segs.map .data) = segs.flatMap Segment.items := by
  induction segs with
  | nil => rfl
  | cons seg segs ih => rw [List.map_cons, avail, ih, List.flatMap_cons]

theorem Source.ofSegments_unread (segs : List (Segment α cap)) :
    (Source.ofSegments (ω := ω) segs).unread = segs.flatMap Segment.items := by
  rw [Source.unread, Source.ofSegments, avail_segments, List.nil_append]

/-- Items that arrive in segments are not interrupted before their end. -/
theorem Source.ofSegments_ending (segs : List (Segment α cap)) :
    (Source.ofSegments (ω := ω) segs).ending = none := by
  have hend : Buffered.ending (segs.map (Arrival.data (ω := ω))) = none := by
    induction segs with
    | nil => rfl
    | cons seg segs ih => exact ih
  exact hend

/-- Receiving only looks at prefixes of the items that are available. -/
theorem fill_congr {enough enough' : List α → Bool} {buf : List α}
    {pending : List (Arrival α cap ω)}
    (h : ∀ p, p <+: buf ++ avail pending → buf.length ≤ p.length → enough p = enough' p) :
    fill enough buf pending = fill enough' buf pending := by
  have h₀ := h buf (List.prefix_append _ _) (Nat.le_refl _)
  induction pending generalizing buf with
  | nil => simp only [fill, h₀]
  | cons x rest ih =>
    cases x with
    | outage o => simp only [fill, h₀]
    | data seg =>
      simp only [fill, h₀]
      split
      · rfl
      · have h' : ∀ p, p <+: (buf ++ seg.items) ++ avail rest →
            (buf ++ seg.items).length ≤ p.length → enough p = enough' p := by
          intro p hp hl
          refine h p (by simpa [avail] using hp) ?_
          simp only [List.length_append] at hl
          omega
        exact ih h' (h' _ (List.prefix_append _ _) (Nat.le_refl _))

theorem advance_append {buf : List α} (h : buf.length ≤ n) (x : List α)
    (pending : List (Arrival α cap ω)) :
    advance n (buf ++ x) pending = advance (n - buf.length) x pending := by
  have hd : (buf ++ x).drop n = x.drop (n - buf.length) := by
    rw [List.drop_append, List.drop_of_length_le h, List.nil_append]
  match pending with
  | [] | .outage _ :: _ => simp only [advance, hd]
  | .data seg :: rest =>
    have hl : n ≤ buf.length + x.length ↔ n - buf.length ≤ x.length := by omega
    simp only [advance, hd, List.length_append, hl, Nat.sub_sub]

/-- Consuming whole deliveries ends with an empty buffer. -/
theorem advance_segments (buf : List α) (g rest : List (Segment α cap)) :
    advance (ω := ω) (buf.length + (g.flatMap Segment.items).length) buf ((g ++ rest).map .data) =
      ⟨[], rest.map .data⟩ := by
  induction g generalizing buf with
  | nil =>
    cases rest with
    | nil => simp [advance]
    | cons seg rest => simp [advance]
  | cons seg g ih =>
    have hpos := List.length_pos_iff.2 seg.nonempty
    have hlen : ((seg :: g).flatMap Segment.items).length =
        seg.items.length + (g.flatMap Segment.items).length := by
      rw [List.flatMap_cons, List.length_append]
    rw [hlen, List.cons_append, List.map_cons, advance, if_neg (by omega),
      Nat.add_sub_cancel_left, ih]

/-- The buffer is empty only where a delivery ends. -/
theorem advance_boundary {buf : List α} {segs : List (Segment α cap)} (hn : buf.length ≤ n)
    (hle : n ≤ buf.length + (segs.flatMap Segment.items).length)
    (hb : (advance (ω := ω) n buf (segs.map .data)).buffer = []) :
    ∃ g rest, segs = g ++ rest ∧ n = buf.length + (g.flatMap Segment.items).length := by
  induction segs generalizing buf n with
  | nil =>
    simp only [List.flatMap_nil, List.length_nil] at hle
    exact ⟨[], [], rfl, by simp only [List.flatMap_nil, List.length_nil]; omega⟩
  | cons seg segs ih =>
    rw [List.flatMap_cons, List.length_append] at hle
    by_cases heq : n = buf.length
    · exact ⟨[], seg :: segs, rfl, by simp [heq]⟩
    · rw [List.map_cons, advance, if_neg (by omega)] at hb
      have hseg : seg.items.length ≤ n - buf.length := by
        by_contra hlt
        have hdrop : (advance (ω := ω) (n - buf.length) seg.items (segs.map .data)).buffer =
            seg.items.drop (n - buf.length) := by
          cases segs with
          | nil => rfl
          | cons next segs => rw [List.map_cons, advance, if_pos (by omega)]
        have hl := congrArg List.length (hdrop.symm.trans hb)
        rw [List.length_drop, List.length_nil] at hl
        omega
      obtain ⟨g, rest, rfl, hlen⟩ := ih hseg (by omega) hb
      refine ⟨seg :: g, rest, rfl, ?_⟩
      rw [List.flatMap_cons, List.length_append]
      omega

/-- Any items can be delivered. -/
theorem exists_segments (hcap : 0 < cap) (items : List α) :
    ∃ segs : List (Segment α cap), segs.flatMap Segment.items = items := by
  induction items with
  | nil => exact ⟨[], rfl⟩
  | cons x items ih =>
    obtain ⟨segs, hsegs⟩ := ih
    refine ⟨⟨[x], List.cons_ne_nil x [], hcap⟩ :: segs, ?_⟩
    rw [List.flatMap_cons, hsegs]
    rfl

/-- Receiving stops where a delivery ends, and does not go on once there is enough. -/
theorem fill_cut {enough : List α → Bool} {buf : List α} {segs : List (Segment α cap)}
    {s : Source α cap ω} (h : fill enough buf (segs.map .data) = .ok s) :
    ∃ g rest, segs = g ++ rest ∧ s = ⟨buf ++ g.flatMap Segment.items, rest.map .data⟩ ∧
      ∀ g' seg, g = g' ++ [seg] → enough (buf ++ g'.flatMap Segment.items) = false := by
  induction segs generalizing buf with
  | nil =>
    rw [List.map_nil, fill] at h
    split at h
    · cases h
      exact ⟨[], [], rfl, by simp, fun g' seg hg => by simp at hg⟩
    · cases h
  | cons seg segs ih =>
    rw [List.map_cons, fill] at h
    split at h
    · cases h
      exact ⟨[], seg :: segs, rfl, by simp, fun g' seg hg => by simp at hg⟩
    · next hmore =>
      obtain ⟨g, rest, rfl, rfl, hlast⟩ := ih h
      refine ⟨seg :: g, rest, rfl, ?_, ?_⟩
      · rw [List.flatMap_cons, List.append_assoc]
      · intro g' last hg
        cases g' with
        | nil => simpa using hmore
        | cons first g' =>
          rw [List.cons_append, List.cons.injEq] at hg
          obtain ⟨rfl, hg⟩ := hg
          rw [List.flatMap_cons, ← List.append_assoc]
          exact hlast g' last hg

/-- Waiting for `n` items delivers exactly the next `n`, when so many arrive. -/
theorem fill_length (buf : List α) (pending : List (Arrival α cap ω))
    (h : n ≤ (buf ++ avail pending).length) :
    ∃ s, fill (fun b => decide (n ≤ b.length)) buf pending = .ok s ∧
      s.buffer.take n = (buf ++ avail pending).take n ∧
      advance n buf pending = ⟨s.buffer.drop n, s.pending⟩ := by
  induction pending generalizing buf with
  | nil =>
    simp only [avail, List.append_nil] at h ⊢
    exact ⟨⟨buf, []⟩, by simp [fill, h], rfl, rfl⟩
  | cons x rest ih =>
    cases x with
    | outage o =>
      simp only [avail, List.append_nil] at h ⊢
      exact ⟨⟨buf, _⟩, by simp [fill, h], rfl, rfl⟩
    | data seg =>
      by_cases hn : n ≤ buf.length
      · refine ⟨⟨buf, .data seg :: rest⟩, by simp [fill, hn], ?_, by simp [advance, hn]⟩
        rw [List.take_append_of_le_length hn]
      · simp only [avail, ← List.append_assoc] at h ⊢
        obtain ⟨s, hs, ht, ha⟩ := ih _ h
        refine ⟨s, by simp [fill, hn, hs], ht, ?_⟩
        rw [advance_append (by omega)] at ha
        simp only [advance, hn, ↓reduceIte, ha]

theorem fill_ok {enough : List α → Bool} {buf : List α} {pending : List (Arrival α cap ω)}
    (h : fill enough buf pending = .ok s) :
    enough s.buffer = true ∧ s.unread = buf ++ avail pending ∧ s.ending = ending pending := by
  induction pending generalizing buf with
  | nil =>
    simp only [fill] at h
    split at h
    · next he => cases h; exact ⟨he, rfl, rfl⟩
    · cases h
  | cons x rest ih =>
    cases x with
    | outage o =>
      simp only [fill] at h
      split at h
      · next he => cases h; exact ⟨he, rfl, rfl⟩
      · cases h
    | data seg =>
      simp only [fill] at h
      split at h
      · next he => cases h; exact ⟨he, rfl, rfl⟩
      · simpa only [avail, List.append_assoc, ending] using ih h

theorem fill_error {enough : List α → Bool} {buf : List α} {pending : List (Arrival α cap ω)}
    (h : ∀ p, p <+: buf ++ avail pending → buf.length ≤ p.length → enough p = false) :
    fill enough buf pending = .error (ending pending) := by
  have h₀ := h buf (List.prefix_append _ _) (Nat.le_refl _)
  induction pending generalizing buf with
  | nil => simp [fill, h₀, ending]
  | cons x rest ih =>
    cases x with
    | outage o => simp [fill, h₀, ending]
    | data seg =>
      have h' : ∀ p, p <+: (buf ++ seg.items) ++ avail rest →
          (buf ++ seg.items).length ≤ p.length → enough p = false := by
        intro p hp hl
        refine h p (by simpa [avail] using hp) ?_
        simp only [List.length_append] at hl
        omega
      simp only [fill, h₀, Bool.false_eq_true, ↓reduceIte, ending]
      exact ih h' (h' _ (List.prefix_append _ _) (Nat.le_refl _))

theorem avail_advance (buf : List α) (pending : List (Arrival α cap ω))
    (h : n ≤ (buf ++ avail pending).length) :
    (advance n buf pending).unread = (buf ++ avail pending).drop n := by
  induction pending generalizing buf n with
  | nil => simp [advance, Source.unread, avail]
  | cons x rest ih =>
    cases x with
    | outage o => simp [advance, Source.unread, avail]
    | data seg =>
      by_cases hn : n ≤ buf.length
      · simp [advance, hn, Source.unread, avail, List.drop_append_of_le_length]
      · simp only [avail, List.length_append] at h
        simp only [advance, hn, ↓reduceIte, avail]
        rw [ih seg.items (by simp only [List.length_append]; omega),
          show (buf ++ (seg.items ++ avail rest)).drop n = _ from List.drop_append,
          List.drop_of_length_le (by omega : buf.length ≤ n), List.nil_append]

theorem ending_advance (n : Nat) (buf : List α) (pending : List (Arrival α cap ω)) :
    (advance n buf pending).ending = ending pending := by
  induction pending generalizing buf n with
  | nil => rfl
  | cons x rest ih =>
    cases x with
    | outage o => rfl
    | data seg =>
      simp only [advance]
      split
      · rfl
      · exact ih _ _

theorem advance_advance (n m : Nat) (buf : List α) (pending : List (Arrival α cap ω)) :
    (advance n buf pending).advance m = advance (n + m) buf pending := by
  induction pending generalizing buf n with
  | nil => simp [advance, Source.advance]
  | cons x rest ih =>
    cases x with
    | outage o => simp [advance, Source.advance]
    | data seg =>
      by_cases hn : n ≤ buf.length
      · have hl : m ≤ buf.length - n ↔ n + m ≤ buf.length := by omega
        have hs : m - (buf.length - n) = n + m - buf.length := by omega
        simp only [advance, hn, ↓reduceIte, Source.advance, List.length_drop, hl,
          List.drop_drop, hs]
      · have hl : ¬ n + m ≤ buf.length := by omega
        have hs : n - buf.length + m = n + m - buf.length := by omega
        simp only [advance, hn, hl, ↓reduceIte, ih, hs]

namespace Source

variable {s : Source α cap ω}

@[simp] theorem advance_unread (h : n ≤ s.unread.length) :
    (s.advance n).unread = s.unread.drop n :=
  avail_advance _ _ h

@[simp] theorem advance_ending (s : Source α cap ω) (n : Nat) :
    (s.advance n).ending = s.ending :=
  ending_advance _ _ _

@[simp] theorem advance_advance (s : Source α cap ω) (n m : Nat) :
    (s.advance n).advance m = s.advance (n + m) :=
  Buffered.advance_advance _ _ _ _

@[simp] theorem advance_zero (s : Source α cap ω) : s.advance 0 = s := by
  obtain ⟨buf, pending⟩ := s
  match pending with
  | [] | .outage _ :: _ | .data _ :: _ => simp [Source.advance, Buffered.advance]

/-- Read exactly `n` items. -/
def takeExact (n : Nat) (s : Source α cap ω) : Except (Option ω) (List α × Source α cap ω) :=
  (s.fill fun b => decide (n ≤ b.length)).map fun t =>
  (t.buffer.take n, ⟨t.buffer.drop n, t.pending⟩)

theorem takeExact_eq (n : Nat) (s : Source α cap ω) :
    s.takeExact n =
      if n ≤ s.unread.length then .ok (s.unread.take n, s.advance n) else .error s.ending := by
  split
  · next h =>
    obtain ⟨t, ht, htake, hadv⟩ := fill_length s.buffer s.pending h
    simp only [takeExact, Source.fill, ht, Except.map, htake]
    exact congrArg _ (congrArg _ hadv.symm)
  · next h =>
    have he : s.fill (fun b => decide (n ≤ b.length)) = .error s.ending := by
      apply fill_error
      intro p hp _
      have hl : p.length ≤ s.unread.length := hp.length_le
      simp only [decide_eq_false_iff_not]
      omega
    simp only [takeExact, he, Except.map]

theorem advance_of_append {x y : List α} (h : s.unread = x ++ y) :
    (s.advance x.length).unread = y := by
  rw [advance_unread (by simp [h]), h, List.drop_left]

theorem takeExact_of_append {x y : List α} (h : s.unread = x ++ y) :
    s.takeExact x.length = .ok (x, s.advance x.length) := by
  rw [takeExact_eq, if_pos (by simp [h]), h, List.take_left]

theorem takeExact_ok {x : List α} (h : s.takeExact n = .ok (x, t)) :
    x.length = n ∧ s.unread = x ++ t.unread ∧ t = s.advance n := by
  rw [takeExact_eq] at h
  split at h
  · next hn =>
    cases h
    refine ⟨by rw [List.length_take]; omega, ?_, rfl⟩
    rw [advance_unread hn, List.take_append_drop]
  · cases h

theorem fill_ok {enough : List α → Bool} (h : s.fill enough = .ok t) :
    enough t.buffer = true ∧ t.unread = s.unread ∧ t.ending = s.ending :=
  Buffered.fill_ok h

theorem advance_of_le (h : n ≤ s.buffer.length) :
    s.advance n = ⟨s.buffer.drop n, s.pending⟩ := by
  obtain ⟨buf, pending⟩ := s
  match pending with
  | [] | .outage _ :: _ => rfl
  | .data _ :: _ => simp only [Source.advance, Buffered.advance, if_pos h]

variable [DecidableEq α]

/-- Receive until the marker is in the buffer, or the buffer is longer than `stop`.
The result is the text up to and including the marker, or `none` if it is not there. -/
def seek (m : List α) (stop : Nat) (s : Source α cap ω) :
    Except (Option ω) (Option (List α) × Source α cap ω) :=
  (s.fill fun b => (Marker.breakOn m b).isSome || decide (stop < b.length)).map fun t =>
    match Marker.breakOn m t.buffer with
    | some (pre, post) => (some (pre ++ m), ⟨post, t.pending⟩)
    | none => (none, t)

theorem marker_fits {m b a l : List α} (h : Marker.breakOn m l = some (b, a)) :
    b.length + m.length ≤ l.length := by
  rw [Marker.breakOn_eq h]
  simp only [List.length_append]
  omega

/-- Where the marker will be met, enough is a matter of length. -/
theorem fill_marker (s : Source α cap ω) (stop : Nat) {m b a : List α}
    (h : Marker.breakOn m s.unread = some (b, a)) :
    (s.fill fun p => (Marker.breakOn m p).isSome || decide (stop < p.length)) =
      s.fill fun p => decide (min (b.length + m.length) (stop + 1) ≤ p.length) := by
  apply fill_congr
  intro p hp _
  rw [Bool.eq_iff_iff, Bool.or_eq_true, Marker.breakOn_isSome, Marker.infix_prefix_iff h hp]
  simp only [decide_eq_true_eq]
  omega

theorem seek_of_found (s : Source α cap ω) (stop : Nat) {m b a : List α}
    (h : Marker.breakOn m s.unread = some (b, a)) :
    s.seek m stop = .ok (some (b ++ m), s.advance (b.length + m.length)) ∨
      stop + 1 < b.length + m.length ∧ ∃ t, s.seek m stop = .ok (none, t) := by
  have hk := marker_fits h
  have hcongr := s.fill_marker stop h
  obtain ⟨t, ht, -, hadv⟩ := fill_length (n := min (b.length + m.length) (stop + 1))
    s.buffer s.pending (Nat.le_trans (Nat.min_le_left _ _) hk)
  have hfill := hcongr.trans ht
  obtain ⟨hen, hun, -⟩ := Source.fill_ok ht
  have hpre : t.buffer <+: s.unread := hun ▸ List.prefix_append _ _
  simp only [seek, hfill, Except.map]
  by_cases hb : b.length + m.length ≤ t.buffer.length
  · left
    have hin := (Marker.infix_prefix_iff h hpre).2 hb
    obtain ⟨⟨b', a'⟩, hb'⟩ := Option.isSome_iff_exists.1 (Marker.breakOn_isSome.2 hin)
    obtain ⟨r, hr⟩ := hpre
    have he := Marker.breakOn_append hb' r
    rw [hr, h] at he
    cases he
    simp only [hb']
    have hd : t.buffer.drop (b.length + m.length) = a' := by
      rw [Marker.breakOn_eq hb', ← List.length_append, List.drop_left]
    have hsplit : b.length + m.length = min (b.length + m.length) (stop + 1) +
        (b.length + m.length - min (b.length + m.length) (stop + 1)) := by omega
    have hst : s.advance (b.length + m.length) = ⟨a', t.pending⟩ := by
      have hadv' : s.advance (min (b.length + m.length) (stop + 1)) = _ := hadv
      rw [hsplit, ← advance_advance, hadv', advance_of_le, List.drop_drop, ← hsplit, hd]
      simp only [List.length_drop]
      omega
    rw [hst]
  · right
    have hen' := of_decide_eq_true hen
    have hn : Marker.breakOn m t.buffer = none := by
      rw [Marker.breakOn_eq_none, Marker.infix_prefix_iff h hpre]
      exact hb
    exact ⟨by omega, t, by simp only [hn]⟩

theorem seek_found {m b a : List α} (h : Marker.breakOn m s.unread = some (b, a))
    (hs : b.length + m.length ≤ stop + 1) :
    s.seek m stop = .ok (some (b ++ m), s.advance (b.length + m.length)) :=
  (s.seek_of_found stop h).resolve_right fun hr => Nat.not_lt_of_ge hs hr.1

theorem seek_missing (s : Source α cap ω) (stop : Nat) {m : List α}
    (h : Marker.breakOn m s.unread = none) :
    s.unread.length ≤ stop ∧ s.seek m stop = .error s.ending ∨
      stop < s.unread.length ∧ ∃ t, s.seek m stop = .ok (none, t) := by
  have hmiss : ∀ p, p <+: s.unread → Marker.breakOn m p = none := by
    intro p hp
    rw [Marker.breakOn_eq_none] at h ⊢
    exact fun hm => h (hm.trans hp.isInfix)
  have hcongr : (s.fill fun p => (Marker.breakOn m p).isSome || decide (stop < p.length)) =
      s.fill fun p => decide (stop + 1 ≤ p.length) := by
    apply fill_congr
    intro p hp _
    simp only [hmiss p hp, Option.isSome_none, Bool.false_or, Nat.succ_le_iff]
  by_cases hl : s.unread.length ≤ stop
  · left
    have he : s.fill (fun p => decide (stop + 1 ≤ p.length)) = .error s.ending := by
      apply fill_error
      intro p hp _
      have hp' : p.length ≤ s.unread.length := hp.length_le
      simp only [decide_eq_false_iff_not]
      omega
    exact ⟨hl, by simp only [seek, hcongr, he, Except.map]⟩
  · right
    obtain ⟨t, ht, -, -⟩ := fill_length (n := stop + 1) s.buffer s.pending
      (by have := hl; simp only [unread] at this; omega)
    have hfill := hcongr.trans ht
    obtain ⟨-, hun, -⟩ := Source.fill_ok ht
    have hn := hmiss t.buffer (hun ▸ List.prefix_append _ _)
    exact ⟨by omega, t, by simp only [seek, hfill, Except.map, hn]⟩

/-- Over deliveries, the marker is found just if the first of them to end beyond the limit holds it to
its end. -/
theorem seek_cut {segs : List (Segment α cap)} {m b a : List α} (stop : Nat)
    (h : Marker.breakOn m (segs.flatMap Segment.items) = some (b, a)) :
    ∃ g rest, segs = g ++ rest ∧
      min (b.length + m.length) (stop + 1) ≤ (g.flatMap Segment.items).length ∧
      (∀ g' seg, g = g' ++ [seg] → (g'.flatMap Segment.items).length ≤ stop) ∧
      if b.length + m.length ≤ (g.flatMap Segment.items).length then
        (ofSegments (ω := ω) segs).seek m stop =
          .ok (some (b ++ m), (ofSegments segs).advance (b.length + m.length))
      else ∃ t, (ofSegments (ω := ω) segs).seek m stop = .ok (none, t) := by
  have hunread : (ofSegments (ω := ω) segs).unread = segs.flatMap Segment.items :=
    ofSegments_unread segs
  rw [← hunread] at h
  have hcongr := (ofSegments segs).fill_marker stop h
  obtain ⟨t, ht, -, -⟩ := fill_length [] (segs.map (Arrival.data (ω := ω)))
    ((Nat.min_le_left _ (stop + 1)).trans (marker_fits h))
  obtain ⟨g, rest, hsegs, rfl, hlast⟩ := fill_cut ht
  have henough := of_decide_eq_true (Buffered.fill_ok ht).1
  refine ⟨g, rest, hsegs, henough, fun g' seg hg => ?_, ?_⟩
  · have hmore := of_decide_eq_false (hlast g' seg hg)
    rw [List.nil_append] at hmore
    have hle : (g'.flatMap Segment.items).length ≤ (g.flatMap Segment.items).length := by
      rw [hg, List.flatMap_append, List.length_append]
      exact Nat.le_add_right _ _
    omega
  · rw [List.nil_append] at ht
    have hbegin : g.flatMap Segment.items <+: (ofSegments (ω := ω) segs).unread := by
      rw [hunread, hsegs, List.flatMap_append]
      exact List.prefix_append _ _
    have hin := Marker.infix_prefix_iff h hbegin
    split
    · next hfound =>
      rcases (ofSegments segs).seek_of_found stop h with hseek | ⟨-, t, hseek⟩
      · exact hseek
      · obtain ⟨p, hp⟩ := Option.isSome_iff_exists.1 (Marker.breakOn_isSome.2 (hin.2 hfound))
        rw [seek, hcongr, Source.fill, ofSegments, ht, Except.map, hp] at hseek
        cases hseek
    · next hcut =>
      have hnone := Marker.breakOn_eq_none.2 (mt hin.1 hcut)
      refine ⟨⟨g.flatMap Segment.items, rest.map .data⟩, ?_⟩
      rw [seek, hcongr, Source.fill, ofSegments, ht, Except.map, hnone]

/-- Whatever `seek` returns, it is the text up to the first marker, and nothing more is consumed. -/
theorem seek_ok {m line : List α} (h : s.seek m stop = .ok (some line, t)) :
    ∃ b a, Marker.breakOn m s.unread = some (b, a) ∧ line = b ++ m ∧
      t = s.advance (b.length + m.length) := by
  cases hb : Marker.breakOn m s.unread with
  | some p =>
    obtain ⟨b, a⟩ := p
    rcases s.seek_of_found stop hb with he | ⟨-, t', he⟩
    · rw [he] at h
      cases h
      exact ⟨b, a, rfl, rfl, rfl⟩
    · rw [he] at h
      cases h
  | none =>
    rcases s.seek_missing stop hb with ⟨-, he⟩ | ⟨-, t', he⟩ <;> rw [he] at h <;> cases h

/-- A receive call for at most `k` items, where the buffer has those that have already arrived. It
gets none when the peer has closed. -/
def recv (k : Nat) : Source α cap ω → Except ω (List α × Source α cap ω)
  | ⟨[], []⟩ => .ok ([], ⟨[], []⟩)
  | ⟨[], .outage o :: _⟩ => .error o
  | ⟨[], .data seg :: pending⟩ => .ok (seg.items.take k, ⟨seg.items.drop k, pending⟩)
  | ⟨b :: bs, pending⟩ => .ok ((b :: bs).take k, ⟨(b :: bs).drop k, pending⟩)

omit [DecidableEq α] in
theorem recv_of_unread_nil {k : Nat} (h : s.unread = []) :
    s.recv k = match s.ending with
      | none => .ok ([], ⟨[], []⟩)
      | some o => .error o := by
  obtain ⟨buf, pending⟩ := s
  obtain ⟨rfl, hpending⟩ := List.append_eq_nil_iff.1 h
  match pending with
  | [] => rfl
  | .outage o :: _ => rfl
  | .data seg :: pending => exact absurd (List.append_eq_nil_iff.1 hpending).1 seg.nonempty

omit [DecidableEq α] in
/-- A receive call gets some of what there is. -/
theorem recv_of_unread {k : Nat} (hk : 0 < k) (h : s.unread ≠ []) :
    ∃ n, 0 < n ∧ n ≤ k ∧ n ≤ s.unread.length ∧ s.recv k = .ok (s.unread.take n, s.advance n) := by
  obtain ⟨buf, pending⟩ := s
  match buf, pending with
  | [], [] => exact absurd rfl h
  | [], .outage o :: _ => exact absurd rfl h
  | [], .data seg :: pending =>
    have hpos : 0 < seg.items.length := List.length_pos_iff.2 seg.nonempty
    have hle : min k seg.items.length ≤ seg.items.length := Nat.min_le_right _ _
    refine ⟨min k seg.items.length, by omega, Nat.min_le_left _ _, ?_, ?_⟩
    · simp only [unread, avail, List.nil_append, List.length_append]
      omega
    · have hadv : Source.advance (min k seg.items.length) ⟨[], .data seg :: pending⟩ =
          Source.advance (ω := ω) (min k seg.items.length) ⟨seg.items, pending⟩ := by
        simp only [Source.advance, Buffered.advance, List.length_nil, Nat.sub_zero]
        rw [if_neg (by omega)]
      rw [hadv, advance_of_le hle, recv]
      simp only [unread, avail, List.nil_append]
      rw [List.take_append_of_le_length hle]
      rcases Nat.le_total k seg.items.length with hk' | hk'
      · rw [Nat.min_eq_left hk']
      · rw [Nat.min_eq_right hk', List.take_of_length_le hk', List.drop_of_length_le hk',
          List.take_length,
          List.drop_length]
  | b :: bs, pending =>
    have hpos : 0 < (b :: bs).length := Nat.succ_pos _
    have hle : min k (b :: bs).length ≤ (b :: bs).length := Nat.min_le_right _ _
    refine ⟨min k (b :: bs).length, by omega, Nat.min_le_left _ _, ?_, ?_⟩
    · simp only [unread, List.length_append]
      omega
    · rw [advance_of_le hle, recv]
      simp only [unread]
      rw [List.take_append_of_le_length hle]
      rcases Nat.le_total k (b :: bs).length with hk' | hk'
      · rw [Nat.min_eq_left hk']
      · rw [Nat.min_eq_right hk', List.take_of_length_le hk', List.drop_of_length_le hk',
          List.take_length,
          List.drop_length]

end Source

end Buffered
