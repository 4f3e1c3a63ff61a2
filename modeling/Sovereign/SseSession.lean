import Mathlib.Data.List.Induction
import Mathlib.Data.List.ReduceOption
import Mathlib.Data.Int.Order.Basic

namespace Sovereign
set_option autoImplicit true

/-- `SSESession`, as far as its events go. A `none` in the queue is the mark of the end. -/
structure SSESession (ε : Type) where
  closed : Bool := false
  queue : List (Option ε) := []

namespace SSESession

/-- What `events` yields. -/
inductive Emission (ε : Type) where
  | heartbeat
  | event (e : ε)

def Emission.event? : Emission ε → Option ε
  | heartbeat => none
  | event e => some e

section

variable (maxQueue : Int)

/-- A queue whose size is not positive has no bound. -/
def Full (queue : List (Option ε)) : Prop := 0 < maxQueue ∧ maxQueue ≤ queue.length

instance (queue : List (Option ε)) : Decidable (Full maxQueue queue) :=
  inferInstanceAs (Decidable (_ ∧ _))

/-- `queue.put_nowait`; `none` is `queue.Full`. -/
def putNowait (queue : List (Option ε)) (item : Option ε) : Option (List (Option ε)) :=
  if Full maxQueue queue then none else some (queue ++ [item])

/-- `close` -/
def close (s : SSESession ε) : SSESession ε :=
  if s.closed then s
  else { closed := true, queue := (putNowait maxQueue s.queue none).getD s.queue }

/-- `send_event` -/
def sendEvent (s : SSESession ε) (e : ε) : SSESession ε :=
  if s.closed then s
  else
    match putNowait maxQueue s.queue (some e) with
    | some queue => { s with queue }
    | none => s.close maxQueue

end

/-- One step of `events`: the session, whether the iterator ends, and what it yields. Where the
queue is empty, the time to wait for an item runs out. -/
def next (s : SSESession ε) : SSESession ε × Bool × Option (Emission ε) :=
  if s.closed then (s, true, none)
  else
    match s.queue with
    | [] => (s, false, some .heartbeat)
    | none :: queue => ({ s with queue }, true, none)
    | some e :: queue => ({ s with queue }, false, some (.event e))

/-- A session and its iterator, what has been accepted and what has been yielded. -/
structure Stream (ε : Type) where
  session : SSESession ε := {}
  finished : Bool := false
  yielded : List (Emission ε) := []
  accepted : List ε := []

inductive Call (ε : Type) where
  | send (e : ε)
  | close
  | next

namespace Stream

/-- What has been yielded, heartbeats aside. -/
def delivered (st : Stream ε) : List ε := st.yielded.filterMap Emission.event?

/-- The events that wait in the queue. -/
def pending (st : Stream ε) : List ε := st.session.queue.reduceOption

section

variable (maxQueue : Int)

def step (st : Stream ε) : Call ε → Stream ε
  | .send e => { st with
    session := st.session.sendEvent maxQueue e
    accepted := st.accepted ++
      if st.session.closed = false ∧ ¬ Full maxQueue st.session.queue then [e] else [] }
  | .close => { st with session := st.session.close maxQueue }
  | .next =>
    if st.finished then st
    else
      let (session, finished, out) := st.session.next
      { st with session, finished, yielded := st.yielded ++ out.toList }

def run (calls : List (Call ε)) : Stream ε := calls.foldl (step maxQueue) {}

/-- The iterator is asked for `n` more items. -/
def drain (n : Nat) (st : Stream ε) : Stream ε := (List.replicate n .next).foldl (step maxQueue) st

/-- The events are yielded in order, all of them before the iterator ends, and it ends if the
session is closed. -/
structure Delivers (st : Stream ε) : Prop where
  ordered : ∀ n, (drain maxQueue n st).delivered <+: (drain maxQueue n st).accepted
  complete : ∀ n, (drain maxQueue n st).finished = true →
    (drain maxQueue n st).delivered = (drain maxQueue n st).accepted
  ends : st.session.closed = true → ∃ n, (drain maxQueue n st).finished = true

/-- A call that closes the session: `close`, or an event for which there is no room. -/
def Closes (s : SSESession ε) : Call ε → Prop
  | .send _ => s.closed = false ∧ Full maxQueue s.queue
  | .close => s.closed = false
  | .next => False

end

/-- What holds in every state. -/
structure Sound (st : Stream ε) : Prop where
  accounted : st.accepted = st.delivered ++ st.pending
  unmarked : st.session.closed = false → none ∉ st.session.queue
  ended : st.finished = true → st.session.closed = true

theorem sound_start : Sound ({} : Stream ε) := ⟨rfl, fun _ => List.not_mem_nil, fun h => nomatch h⟩

section

variable (maxQueue : Int) {st : Stream ε}

/-- Without a mark, nothing waits just if the queue is empty. -/
theorem reduceOption_eq_nil {queue : List (Option ε)} (h : none ∉ queue) :
    queue.reduceOption = [] ↔ queue = [] := by
  cases queue with
  | nil => exact ⟨fun _ => rfl, fun _ => rfl⟩
  | cons item queue =>
    cases item with
    | none => exact absurd List.mem_cons_self h
    | some e =>
      rw [List.reduceOption_cons_of_some]
      exact ⟨fun hnil => absurd hnil (List.cons_ne_nil _ _),
        fun hnil => absurd hnil (List.cons_ne_nil _ _)⟩

theorem close_of_open {s : SSESession ε} (h : s.closed = false) :
    (s.close maxQueue).closed = true ∧ (s.close maxQueue).queue.reduceOption =
      s.queue.reduceOption := by
  rw [SSESession.close, if_neg (ne_true_of_eq_false h), putNowait]
  refine ⟨rfl, ?_⟩
  split
  · rfl
  · rw [Option.getD_some, List.reduceOption_append]
    exact List.append_nil _

/-- A closed session stays as it is, and its iterator ends. -/
theorem step_closed (h : st.session.closed = true) (call : Call ε) :
    (step maxQueue st call).session = st.session ∧
      (step maxQueue st call).delivered = st.delivered ∧
      (step maxQueue st call).accepted = st.accepted := by
  cases call with
  | send e =>
    rw [step, SSESession.sendEvent, if_pos h]
    refine ⟨rfl, rfl, ?_⟩
    rw [h]
    exact List.append_nil _
  | close =>
    rw [step, SSESession.close, if_pos h]
    exact ⟨rfl, rfl, rfl⟩
  | next =>
    rw [step]
    split
    · exact ⟨rfl, rfl, rfl⟩
    · rw [SSESession.next, if_pos h]
      refine ⟨rfl, ?_, rfl⟩
      rw [delivered, delivered]
      exact congrArg _ (List.append_nil _)

/-- Closing a session adds nothing to what waits, and takes nothing away. -/
theorem sound_close (h : st.session.closed = false) (hs : Sound st) :
    Sound { st with session := st.session.close maxQueue } := by
  obtain ⟨hclosed, hqueue⟩ := close_of_open maxQueue h
  refine ⟨?_, fun hopen => ?_, fun _ => hclosed⟩
  · rw [pending, hqueue]
    exact hs.accounted
  · rw [hclosed] at hopen
    cases hopen

theorem send_room (h : st.session.closed = false) (hroom : ¬ Full maxQueue st.session.queue)
    (e : ε) :
    step maxQueue st (.send e) = { st with
      session := { st.session with queue := st.session.queue ++ [some e] }
      accepted := st.accepted ++ [e] } := by
  rw [step, SSESession.sendEvent, if_neg (ne_true_of_eq_false h), putNowait, if_neg hroom,
    if_pos ⟨h, hroom⟩]

theorem send_full (h : st.session.closed = false) (hfull : Full maxQueue st.session.queue)
    (e : ε) :
    step maxQueue st (.send e) = { st with session := st.session.close maxQueue } := by
  rw [step, SSESession.sendEvent, if_neg (ne_true_of_eq_false h), putNowait, if_pos hfull,
    if_neg fun hno => hno.2 hfull, List.append_nil]

theorem sound_send (h : st.session.closed = false) (hs : Sound st) (e : ε) :
    Sound { st with
      session := { st.session with queue := st.session.queue ++ [some e] }
      accepted := st.accepted ++ [e] } := by
  refine ⟨?_, fun hopen hmem => ?_, hs.ended⟩
  · rw [pending, List.reduceOption_append, hs.accounted]
    exact List.append_assoc _ _ _
  · rcases List.mem_append.1 hmem with hmem | hmem
    · exact hs.unmarked h hmem
    · cases List.mem_singleton.1 hmem

/-- An open session yields its next event, or a heartbeat. -/
theorem next_open (h : st.session.closed = false) (hs : Sound st) :
    Sound (step maxQueue st .next) ∧ (step maxQueue st .next).session.closed = false := by
  have hrunning : ¬ st.finished = true := by
    intro hfinished
    have hclosed := hs.ended hfinished
    rw [h] at hclosed
    cases hclosed
  obtain ⟨haccounted, hunmarked, -⟩ := hs
  rw [step, if_neg hrunning, SSESession.next, if_neg (ne_true_of_eq_false h)]
  cases hqueue : st.session.queue with
  | nil =>
    refine ⟨⟨?_, hunmarked, fun hfinished => nomatch hfinished⟩, h⟩
    rw [haccounted, delivered, delivered, List.filterMap_append]
    exact congrArg (· ++ st.pending) (List.append_nil _).symm
  | cons item queue =>
    cases item with
    | none =>
      rw [hqueue] at hunmarked
      exact absurd List.mem_cons_self (hunmarked h)
    | some e =>
      rw [pending, hqueue] at haccounted
      rw [hqueue] at hunmarked
      refine ⟨⟨?_, fun hstill hmem => ?_, fun hfinished => nomatch hfinished⟩, h⟩
      · rw [haccounted, delivered, delivered, List.filterMap_append]
        exact (List.append_assoc _ [e] _).symm
      · exact hunmarked h (List.mem_cons_of_mem _ hmem)

/-- What a call does to an open session. -/
theorem step_open (h : st.session.closed = false) (hs : Sound st) (call : Call ε) :
    Sound (step maxQueue st call) ∧
      ((step maxQueue st call).session.closed = true ↔ Closes maxQueue st.session call) ∧
      (Closes maxQueue st.session call → (step maxQueue st call).pending = st.pending) := by
  obtain ⟨hclosed, hqueue⟩ := close_of_open maxQueue h
  cases call with
  | send e =>
    by_cases hfull : Full maxQueue st.session.queue
    · rw [send_full maxQueue h hfull]
      exact ⟨sound_close maxQueue h hs, ⟨fun _ => ⟨h, hfull⟩, fun _ => hclosed⟩, fun _ => hqueue⟩
    · rw [send_room maxQueue h hfull]
      exact ⟨sound_send h hs e, ⟨fun hc => absurd hc (ne_true_of_eq_false h),
        fun hc => absurd hc.2 hfull⟩, fun hc => absurd hc.2 hfull⟩
  | close => exact ⟨sound_close maxQueue h hs, ⟨fun _ => h, fun _ => hclosed⟩, fun _ => hqueue⟩
  | next =>
    obtain ⟨hsound, hopen⟩ := next_open maxQueue h hs
    rw [hopen]
    exact ⟨hsound, ⟨fun hc => absurd hc Bool.false_ne_true, False.elim⟩, False.elim⟩

theorem sound_step (hs : Sound st) (call : Call ε) : Sound (step maxQueue st call) := by
  by_cases h : st.session.closed = true
  · obtain ⟨hsession, hdelivered, haccepted⟩ := step_closed maxQueue h call
    refine ⟨?_, fun hopen => ?_, fun _ => hsession ▸ h⟩
    · rw [haccepted, hdelivered, pending, hsession]
      exact hs.accounted
    · rw [hsession, h] at hopen
      cases hopen
  · exact (step_open maxQueue (Bool.eq_false_iff.2 h) hs call).1

theorem sound_foldl (hs : Sound st) (calls : List (Call ε)) :
    Sound (calls.foldl (step maxQueue) st) := by
  induction calls generalizing st with
  | nil => exact hs
  | cons call calls ih => exact ih (sound_step maxQueue hs call)

/-- Nothing changes any more once the session is closed. -/
theorem foldl_closed (h : st.session.closed = true) (calls : List (Call ε)) :
    (calls.foldl (step maxQueue) st).session = st.session := by
  induction calls generalizing st with
  | nil => rfl
  | cons call calls ih =>
    obtain ⟨hsession, -⟩ := step_closed maxQueue h call
    rw [List.foldl_cons, ih (hsession ▸ h), hsession]

/-- To ask for items does not close a session. -/
theorem closed_of_drain (hs : Sound st) (n : Nat) :
    (drain maxQueue n st).session.closed = true → st.session.closed = true := by
  induction n generalizing st with
  | zero => exact id
  | succ n ih =>
    intro h
    by_contra hopen
    obtain ⟨hsound, hstill⟩ := next_open maxQueue (Bool.eq_false_iff.2 hopen) hs
    rw [ih hsound h] at hstill
    cases hstill

theorem finished_next (h : st.session.closed = true) : (drain maxQueue 1 st).finished = true := by
  rw [drain, List.replicate_one, List.foldl_cons, List.foldl_nil, step]
  split
  · next hfinished => exact hfinished
  · rw [SSESession.next, if_pos h]

/-- All is delivered just if nothing waits when the session is closed. -/
theorem delivers_iff_pending maxQueue (hs : Sound st) :
    Delivers maxQueue st ↔ (st.session.closed = true → st.pending = []) := by
  have hdrain (n : Nat) : Sound (drain maxQueue n st) := sound_foldl maxQueue hs _
  constructor
  · intro h hclosed
    have hall := h.complete 1 (finished_next maxQueue hclosed)
    have haccounted := (hdrain 1).accounted
    have hsession : (drain maxQueue 1 st).session = st.session := foldl_closed maxQueue hclosed _
    rw [← hall, pending, hsession] at haccounted
    exact List.append_right_eq_self.1 haccounted.symm
  · intro h
    refine ⟨fun n => ?_, fun n hfinished => ?_, fun hclosed => ⟨1, finished_next maxQueue hclosed⟩⟩
    · rw [(hdrain n).accounted]
      exact List.prefix_append _ _
    · have hclosed := closed_of_drain maxQueue hs n ((hdrain n).ended hfinished)
      have hsession : (drain maxQueue n st).session = st.session := foldl_closed maxQueue hclosed _
      have hpending : (drain maxQueue n st).pending = [] := by
        rw [pending, hsession]
        exact h hclosed
      rw [(hdrain n).accounted, hpending, List.append_nil]

/-- A step leaves events behind just if it closes the session with events in its queue. -/
theorem pending_step (hs : Sound st) (call : Call ε) :
    ((step maxQueue st call).session.closed = true → (step maxQueue st call).pending = []) ↔
      (st.session.closed = true → st.pending = []) ∧
        (Closes maxQueue st.session call → st.session.queue = []) := by
  by_cases h : st.session.closed = true
  · obtain ⟨hsession, -⟩ := step_closed maxQueue h call
    have hno : ¬ Closes maxQueue st.session call := by
      cases call with
      | send e => exact fun hc => ne_true_of_eq_false hc.1 h
      | close => exact fun hc => ne_true_of_eq_false hc h
      | next => exact id
    rw [pending, hsession]
    exact ⟨fun hp => ⟨hp, fun hc => absurd hc hno⟩, fun hp => hp.1⟩
  · obtain ⟨-, hcloses, hpending⟩ := step_open maxQueue (Bool.eq_false_iff.2 h) hs call
    rw [hcloses]
    have hempty : st.pending = [] ↔ st.session.queue = [] :=
      reduceOption_eq_nil (hs.unmarked (Bool.eq_false_iff.2 h))
    constructor
    · exact fun hp => ⟨fun hclosed => absurd hclosed h,
        fun hc => hempty.1 ((hpending hc).symm.trans (hp hc))⟩
    · exact fun hp hc => (hpending hc).trans (hempty.2 (hp.2 hc))

end

/-- The session delivers what it accepts just if it is only closed when no event waits in its
queue. -/
theorem delivers_iff (maxQueue : Int) (calls : List (Call ε)) :
    Delivers maxQueue (run maxQueue calls) ↔
      ∀ before call, before ++ [call] <+: calls →
        Closes maxQueue (run maxQueue before).session call →
          (run maxQueue before).session.queue = [] := by
  have hsound (calls : List (Call ε)) : Sound (run maxQueue calls) :=
    sound_foldl maxQueue sound_start calls
  rw [delivers_iff_pending maxQueue (hsound calls)]
  induction calls using List.reverseRecOn with
  | nil =>
    refine ⟨fun _ before call hbegins => ?_, fun _ hclosed => nomatch hclosed⟩
    exact absurd (List.prefix_nil.1 hbegins)
      (List.append_ne_nil_of_right_ne_nil _ (List.cons_ne_nil _ _))
  | append_singleton calls last ih =>
    have hrun : run maxQueue (calls ++ [last]) = step maxQueue (run maxQueue calls) last := by
      rw [run, List.foldl_append]
      rfl
    rw [hrun, pending_step maxQueue (hsound calls)]
    constructor
    · rintro ⟨hcalls, hlast⟩ before call hbegins
      rcases List.prefix_concat_iff.1 hbegins with heq | hbegins
      · obtain ⟨rfl, hcall⟩ := List.append_inj' heq rfl
        cases hcall
        exact hlast
      · exact ih.1 hcalls before call hbegins
    · intro h
      exact ⟨ih.2 fun before call hbegins => h before call (hbegins.trans (List.prefix_append _ _)),
        h calls last (List.prefix_refl _)⟩

/-- An event that waits when the session is closed is never yielded. -/
theorem closed_undelivered :
    (run 256 [.send 7, .close, .next]).finished = true ∧
      (run 256 [.send 7, .close, .next]).accepted = [7] ∧
      (run 256 [.send 7, .close, .next]).delivered = [] ∧
      ¬ Delivers 256 (run 256 [.send 7, .close, .next]) := by
  refine ⟨rfl, rfl, rfl, fun h => ?_⟩
  have hall := h.complete 0 rfl
  cases hall

end Stream

end SSESession

end Sovereign
