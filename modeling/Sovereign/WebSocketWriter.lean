import Mathlib.Logic.Function.Basic
import Sovereign.Lib.Run
import Sovereign.WebSocket

namespace Sovereign
set_option autoImplicit true

/-- Where the loop of `_writer_loop` is. -/
inductive WsWriter where
  | idle
  /-- It has taken the frame from the queue and not sent it yet. -/
  | holding (frame : Bytes)
  | stopped
deriving DecidableEq

/-- What a call of `_enqueue_frame` or `close` does next. A call of `close` remembers how many frames
had been accepted when it was entered, then how many of the accepted ones have to be sent, and which. -/
inductive WsTask where
  /-- `if self.closed` -/
  | enqueue (frame : Bytes)
  /-- `put_nowait` in `_enqueue_frame` -/
  | put (frame : Bytes)
  /-- `with self._close_lock` -/
  | close (before : Nat) (code : Nat) (reason : Str)
  | putClose (before : Nat) (frame : Bytes)
  | putNone (due : Nat) (promised : List Bytes)
  | shutDown (due : Nat) (promised : List Bytes)
deriving DecidableEq

/-- The threads that use a session, and what has come of its frames. -/
structure WsThreads (κ : Type) where
  session : WebSocketSession
  writer : WsWriter
  tasks : κ → Option WsTask
  /-- who has `_close_lock` -/
  lock : Option κ
  /-- the frames that the queue has accepted -/
  accepted : List Bytes
  /-- the frames that `sendall` has sent -/
  sent : List Bytes
  /-- what the call of `close` that has shut the socket down answers for -/
  promised : List Bytes

inductive WsTurn (κ : Type) where
  | send (k : κ) (frame : Bytes)
  | close (k : κ) (code : Nat) (reason : Str)
  | advance (k : κ)
  | write

namespace WsThreads

variable [DecidableEq κ]

def become (k : κ) (task : Option WsTask) (s : WsThreads κ) : WsThreads κ :=
  { s with tasks := Function.update s.tasks k task }

/-- A call of `k` begins. -/
def call (k : κ) (task : WsTask) (s : WsThreads κ) : Option (WsThreads κ) :=
  match s.tasks k with
  | some _ => none
  | none => some (s.become k (some task))

def turn (k : κ) (s : WsThreads κ) : WsTask → Option (WsThreads κ)
  | .enqueue frame =>
    if s.session.closed then some (s.become k none) else some (s.become k (some (.put frame)))
  | .put frame =>
    match s.session.putNowait (some frame) with
    | some session => some ({ s with session, accepted := s.accepted ++ [frame] }.become k none)
    | none => some (s.become k (some (.close s.accepted.length 1008 "send queue full".toList)))
  | .close before code reason =>
    match s.lock with
    | some _ => none
    | none =>
      if s.session.closed then some (s.become k none)
      else
        some ({ s with session := { s.session with closed := true }, lock := some k }.become k
          (some (.putClose before (WebSocketSession.closeFrame code reason))))
  | .putClose before frame =>
    match s.session.putNowait (some frame) with
    | some session =>
      some ({ s with session, accepted := s.accepted ++ [frame] }.become k
        (some (.putNone (s.accepted.length + 1) (s.accepted.take before ++ [frame]))))
    | none => some (s.become k (some (.putNone before (s.accepted.take before))))
  | .putNone due promised =>
    some ({ s with session := (s.session.putNowait none).getD s.session }.become k
      (some (.shutDown due promised)))
  | .shutDown _ promised =>
    some ({ s with session := { s.session with shutDown := true }, lock := none, promised }.become k
      none)

/-- What the writer does next: `get`, or `sendall`, which fails once the socket is shut down. -/
def write (s : WsThreads κ) : Option (WsThreads κ) :=
  match s.writer with
  | .idle =>
    match s.session.sendQueue with
    | [] => none
    | none :: queue => some { s with session := { s.session with sendQueue := queue }, writer := .stopped }
    | some frame :: queue =>
      some { s with session := { s.session with sendQueue := queue }, writer := .holding frame }
  | .holding frame =>
    if s.session.shutDown then some
      { s with session := { s.session with closed := true }, writer := .stopped }
    else some { s with writer := .idle, sent := s.sent ++ [frame] }
  | .stopped => none

def step (s : WsThreads κ) : WsTurn κ → Option (WsThreads κ)
  | .send k frame => s.call k (.enqueue frame)
  | .close k code reason => s.call k (.close s.accepted.length code reason)
  | .advance k => (s.tasks k).bind (s.turn k)
  | .write => s.write

end WsThreads

/-- How many frames have to be sent before the socket is shut down, in a call that is about to do it. -/
def WsTask.due : WsTask → Option Nat
  | shutDown due _ => some due
  | enqueue _ | put _ | close .. | putClose .. | putNone .. => none

/-- The frames that the writer has taken. -/
def WsWriter.frames : WsWriter → List Bytes
  | holding frame => [frame]
  | idle | stopped => []

namespace WsThreads

/-- The accepted frames that have not been sent, in order. -/
def unsent (s : WsThreads κ) : List Bytes := s.writer.frames ++ s.session.sendQueue.filterMap id

/-- Nothing has been done with a new session. -/
structure Fresh (s : WsThreads κ) : Prop where
  sendQueue : s.session.sendQueue = []
  shutDown : s.session.shutDown = false
  writer : s.writer = .idle
  tasks : ∀ k, s.tasks k = none
  accepted : s.accepted = []
  sent : s.sent = []

/-- When `close` shuts the socket down, all frames that are left were accepted after those it answers
for. -/
def Drained (s : WsThreads κ) : WsTurn κ → Prop
  | .advance k => ∀ due ∈ (s.tasks k).bind WsTask.due, s.unsent.length + due ≤ s.accepted.length
  | .send .. | .close .. | .write => True

instance (s : WsThreads κ) : (turn : WsTurn κ) → Decidable (s.Drained turn)
  | .advance k =>
    inferInstanceAs
      (Decidable (∀ due ∈ (s.tasks k).bind WsTask.due, s.unsent.length + due ≤ s.accepted.length))
  | .send .. | .close .. | .write => .isTrue trivial

/-- What has to be sent before the socket is shut down has been sent, in order. -/
def Flushed (s : WsThreads κ) : Prop := s.session.shutDown = true → s.promised.Sublist s.sent

end WsThreads

namespace WsTask

/-- What a call of `close` answers for has been accepted. -/
def Answers (accepted : List Bytes) : WsTask → Prop
  | enqueue _ | put _ => True
  | close before .. | putClose before _ => before ≤ accepted.length
  | putNone due promised | shutDown due promised =>
    due ≤ accepted.length ∧ promised.Sublist (accepted.take due)

/-- The call has found the session open, and has not shut the socket down yet. -/
def Closing : WsTask → Prop
  | enqueue _ | put _ | close .. => False
  | putClose .. | putNone .. | shutDown .. => True

theorem Answers.append {task : WsTask} (h : task.Answers accepted) (later : List Bytes) :
    task.Answers (accepted ++ later) := by
  have hle {n : Nat} (hn : n ≤ accepted.length) : n ≤ (accepted ++ later).length := by
    rw [List.length_append]
    exact Nat.le_add_right_of_le hn
  cases task with
  | enqueue _ => trivial
  | put _ => trivial
  | close before code reason => exact hle h
  | putClose before frame => exact hle h
  | putNone due promised => exact ⟨hle h.1, by rw [List.take_append_of_le_length h.1]; exact h.2⟩
  | shutDown due promised => exact ⟨hle h.1, by rw [List.take_append_of_le_length h.1]; exact h.2⟩

end WsTask

namespace WsThreads

structure Sound (s : WsThreads κ) : Prop where
  answers : ∀ k task, s.tasks k = some task → task.Answers s.accepted
  closing : ∀ k task, s.tasks k = some task → task.Closing →
    s.lock = some k ∧ s.session.closed = true ∧ s.session.shutDown = false
  closed : s.session.shutDown = true → s.session.closed = true
  balance : s.session.shutDown = false → s.accepted = s.sent ++ s.unsent
  flushed : s.Flushed

variable {s next : WsThreads κ}

theorem Fresh.sound (h : s.Fresh) : s.Sound := by
  have hopen : ¬ s.session.shutDown = true := by
    rw [h.shutDown]
    exact Bool.false_ne_true
  constructor
  · intro k task htask
    rw [h.tasks] at htask
    cases htask
  · intro k task htask
    rw [h.tasks] at htask
    cases htask
  · intro hshut
    exact absurd hshut hopen
  · intro _
    rw [h.accepted, h.sent, unsent, h.writer, h.sendQueue]
    rfl
  · intro hshut
    exact absurd hshut hopen

variable [DecidableEq κ]

omit [DecidableEq κ] in
/-- What the frames that are due have to do with those that have been sent. -/
theorem Sound.flush {promised : List Bytes} (h : s.Sound)
    (htask : s.tasks k = some (.shutDown due promised))
    (hdrained : s.unsent.length + due ≤ s.accepted.length) : promised.Sublist s.sent := by
  obtain ⟨-, -, hopen⟩ := h.closing k _ htask trivial
  obtain ⟨hdue, hpromised⟩ := h.answers k _ htask
  have hbalance := h.balance hopen
  have hlen := congrArg List.length hbalance
  rw [List.length_append] at hlen
  rw [hbalance, List.take_append_of_le_length (by omega)] at hpromised
  exact hpromised.trans (List.take_sublist due s.sent)

theorem forall_update {P : κ → WsTask → Prop}
    (h : ∀ k' task, k' ≠ k → s.tasks k' = some task → P k' task)
    (hk : ∀ task, t = some task → P k task) :
    ∀ k' task, Function.update s.tasks k t k' = some task → P k' task := by
  intro k' task htask
  by_cases hne : k' = k
  · subst hne
    rw [Function.update_self] at htask
    exact hk task htask
  · rw [Function.update_of_ne hne] at htask
    exact h k' task hne htask

/-- A call goes on that does not have the lock. -/
theorem Sound.become (h : s.Sound) (k : κ)
    (ht : ∀ task, t = some task → task.Answers s.accepted ∧ ¬ task.Closing) :
    (s.become k t).Sound where
  answers := forall_update (fun k' task _ htask => h.answers k' task htask) fun task
    he => (ht task he).1
  closing := forall_update (fun k' task _ htask => h.closing k' task htask) fun task he hclosing =>
    absurd hclosing (ht task he).2
  closed := h.closed
  balance := h.balance
  flushed := h.flushed

omit [DecidableEq κ] in
/-- The queue accepts a frame. -/
theorem Sound.accept {session : WebSocketSession} (h : s.Sound)
    (hput : s.session.putNowait (some frame) = some session) :
    { s with session, accepted := s.accepted ++ [frame] }.Sound := by
  cases WebSocketSession.putNowait_some hput
  constructor
  · intro k task htask
    exact (h.answers k task htask).append [frame]
  · exact h.closing
  · exact h.closed
  · intro hopen
    simp only [unsent, h.balance hopen, List.filterMap_append, List.append_assoc]
    rfl
  · exact h.flushed

omit [DecidableEq κ] in
/-- The sentinel is no frame. -/
theorem Sound.sentinel (h : s.Sound) :
    { s with session := (s.session.putNowait none).getD s.session }.Sound := by
  cases hput : s.session.putNowait none with
  | none => exact h
  | some session' =>
    cases WebSocketSession.putNowait_some hput
    constructor
    · exact h.answers
    · exact h.closing
    · exact h.closed
    · intro hopen
      rw [unsent, Option.getD_some, List.filterMap_append]
      simpa [unsent] using h.balance hopen
    · exact h.flushed

/-- The call of `close` that has the lock goes on. -/
theorem Sound.proceed {t : WsTask} (h : s.Sound) (htask : s.tasks k = some task)
    (hclosing : task.Closing)
    (ht : t.Answers s.accepted) : (s.become k (some t)).Sound where
  answers := forall_update (fun k' task _ htask => h.answers k' task htask) fun task he => by
    cases he
    exact ht
  closing := forall_update (fun k' task _ htask => h.closing k' task htask) fun _ _ _ =>
    h.closing k task htask hclosing
  closed := h.closed
  balance := h.balance
  flushed := h.flushed

theorem Sound.turn (h : s.Sound) (htask : s.tasks k = some task) (hdrained : s.Drained (.advance k))
    (hturn : s.turn k task = some next) : next.Sound := by
  have hanswers := h.answers k task htask
  cases task with
  | enqueue frame =>
    rw [WsThreads.turn] at hturn
    split at hturn
    · cases hturn
      exact h.become k nofun
    · cases hturn
      exact h.become k fun task he => by
        cases he
        exact ⟨trivial, id⟩
  | put frame =>
    rw [WsThreads.turn] at hturn
    split at hturn
    · next session hput =>
      cases hturn
      exact (h.accept hput).become k nofun
    · cases hturn
      exact h.become k fun task he => by
        cases he
        exact ⟨le_refl _, id⟩
  | close before code reason =>
    rw [WsThreads.turn] at hturn
    split at hturn
    · cases hturn
    · next hlock =>
      split at hturn
      · cases hturn
        exact h.become k nofun
      · next hclosed =>
        cases hturn
        have hopen : s.session.shutDown = false := by
          rw [← Bool.not_eq_true]
          exact fun hshut => hclosed (h.closed hshut)
        constructor
        · exact forall_update (fun k' task _ htask => h.answers k' task htask) fun task he => by
            cases he
            exact hanswers
        · refine forall_update (fun k' task _ htask hclosing => ?_) fun _ _ _ => ⟨rfl, rfl, hopen⟩
          obtain ⟨hlock', -⟩ := h.closing k' task htask hclosing
          rw [hlock] at hlock'
          cases hlock'
        · intro _
          rfl
        · exact h.balance
        · exact h.flushed
  | putClose before frame =>
    have hbefore : before ≤ s.accepted.length := hanswers
    rw [WsThreads.turn] at hturn
    split at hturn
    · next session hput =>
      cases hturn
      apply (h.accept hput).proceed htask trivial
      refine ⟨by rw [List.length_append, List.length_singleton], ?_⟩
      have htake : (s.accepted ++ [frame]).take (s.accepted.length + 1) = s.accepted ++ [frame] :=
        List.take_of_length_le (by rw [List.length_append, List.length_singleton])
      rw [htake]
      exact (List.take_sublist before s.accepted).append (List.Sublist.refl [frame])
    · cases hturn
      exact h.proceed htask trivial ⟨hbefore, List.Sublist.refl _⟩
  | putNone due promised =>
    cases hturn
    exact h.sentinel.proceed htask trivial hanswers
  | shutDown due promised =>
    cases hturn
    obtain ⟨hlock, hclosed, hopen⟩ := h.closing k _ htask trivial
    constructor
    · exact forall_update (fun k' task _ htask => h.answers k' task htask) nofun
    · refine forall_update (fun k' task hne htask hclosing => ?_) nofun
      obtain ⟨hlock', -⟩ := h.closing k' task htask hclosing
      rw [hlock] at hlock'
      cases hlock'
      exact absurd rfl hne
    · intro _
      exact hclosed
    · intro hshut
      cases hshut
    · intro _
      exact h.flush htask (hdrained due (by rw [htask]; rfl))

omit [DecidableEq κ] in
theorem Sound.write (h : s.Sound) (hwrite : s.write = some next) : next.Sound := by
  rw [WsThreads.write] at hwrite
  split at hwrite
  · next hwriter =>
    split at hwrite
    · cases hwrite
    · next queue hqueue =>
      cases hwrite
      refine ⟨h.answers, h.closing, h.closed, fun hopen => ?_, h.flushed⟩
      rw [h.balance hopen, unsent, unsent, hwriter, hqueue]
      rfl
    · next frame queue hqueue =>
      cases hwrite
      refine ⟨h.answers, h.closing, h.closed, fun hopen => ?_, h.flushed⟩
      rw [h.balance hopen, unsent, unsent, hwriter, hqueue]
      rfl
  · next frame hwriter =>
    split at hwrite
    · next hshut =>
      cases hwrite
      refine ⟨h.answers, ?_, fun _ => rfl, fun hopen => ?_, h.flushed⟩
      · intro k task htask hclosing
        obtain ⟨hlock, -, hopen⟩ := h.closing k task htask hclosing
        exact ⟨hlock, rfl, hopen⟩
      · rw [hshut] at hopen
        cases hopen
    · next hopen =>
      cases hwrite
      refine ⟨h.answers, h.closing, h.closed, fun hopen' => ?_, fun hshut => absurd hshut hopen⟩
      rw [h.balance hopen', unsent, unsent, hwriter, List.append_assoc]
      rfl
  · cases hwrite

theorem Sound.call (h : s.Sound) (k : κ) {task : WsTask}
    (ht : task.Answers s.accepted ∧ ¬ task.Closing)
    (hcall : s.call k task = some next) : next.Sound := by
  rw [WsThreads.call] at hcall
  split at hcall
  · cases hcall
  · cases hcall
    exact h.become k fun task he => by
      cases he
      exact ht

theorem Sound.step {turn : WsTurn κ} (h : s.Sound) (hdrained : s.Drained turn)
    (hstep : s.step turn = some next) : next.Sound := by
  cases turn with
  | send k frame =>
    have ht : (WsTask.enqueue frame).Answers s.accepted := trivial
    exact h.call k ⟨ht, id⟩ hstep
  | close k code reason =>
    have ht : (WsTask.close s.accepted.length code reason).Answers s.accepted :=
      le_refl s.accepted.length
    exact h.call k ⟨ht, id⟩ hstep
  | advance k =>
    obtain ⟨task, htask, hturn⟩ := Option.bind_eq_some_iff.1 hstep
    exact h.turn htask hdrained hturn
  | write => exact h.write hstep

omit [DecidableEq κ] in
/-- A frame that is left when the socket is shut down is not sent, if no other has overtaken the call
of `close`. -/
theorem unflushed_of_left {promised : List Bytes} (h : s.Sound)
    (htask : s.tasks k = some (.shutDown due promised))
    (hleft : ¬ s.unsent.length + due ≤ s.accepted.length) (hall : promised.length = due) :
    ¬ promised.Sublist s.sent := by
  intro hsub
  obtain ⟨-, -, hopen⟩ := h.closing k _ htask trivial
  have hlen := congrArg List.length (h.balance hopen)
  rw [List.length_append] at hlen
  have hle := hsub.length_le
  omega

theorem step_become (s : WsThreads κ) (k : κ) (task : WsTask) :
    (s.become k (some task)).step (.advance k) = (s.become k (some task)).turn k task := by
  have htask : (s.become k (some task)).tasks k = some task := by
    simp only [become, Function.update_self]
  rw [step, htask]
  rfl

theorem turn_putClose (s : WsThreads κ) (k : κ) (before : Nat) (frame : Bytes) :
    ∃ accepted due promised, s.turn k (.putClose before frame) =
      some ({ s with session := (s.session.putNowait (some frame)).getD s.session, accepted }.become
      k
        (some (.putNone due promised))) := by
  rw [turn]
  cases s.session.putNowait (some frame) with
  | none => exact ⟨s.accepted, _, _, rfl⟩
  | some session => exact ⟨_, _, _, rfl⟩

/-- A call of `close` that is alone does what `WebSocketSession.close` does. -/
theorem close_alone (s : WsThreads κ) (hquiet : ∀ k, s.tasks k = none)
    (hlock : s.lock = none) (k : κ)
    (code : Nat) (reason : Str) :
    ∃ l next, Run step s l next ∧ (∀ k', next.tasks k' = none) ∧ next.lock = none ∧
      next.session = s.session.close code reason := by
  have hcall : s.step (.close k code reason) =
    some (s.become k (some (.close s.accepted.length code reason))) := by
    rw [step, call, hquiet k]
  have hdone (k' : κ) : Function.update s.tasks k none k' = none := by
    by_cases hk : k' = k
    · rw [hk, Function.update_self]
    · rw [Function.update_of_ne hk, hquiet]
  by_cases hclosed : s.session.closed = true
  · have hlocked : (s.become k (some (.close s.accepted.length code reason))).step (.advance k) =
        some ((s.become k (some (.close s.accepted.length code reason))).become k none) := by
      rw [step_become, turn]
      simp only [become, hlock, hclosed, if_pos]
    refine ⟨_, _, (Run.nil.snoc hcall).snoc hlocked, ?_, hlock, ?_⟩
    · intro k'
      simp only [become, Function.update_idem]
      exact hdone k'
    · rw [WebSocketSession.close, if_pos hclosed]
      rfl
  · have hlocked : (s.become k (some (.close s.accepted.length code reason))).step (.advance k) =
        some ({ s.become k (some (.close s.accepted.length code reason)) with
          session := { s.session with closed := true }, lock := some k }.become k
          (some (.putClose s.accepted.length (WebSocketSession.closeFrame code reason)))) := by
      rw [step_become, turn]
      simp only [become, hlock, if_neg hclosed]
    obtain ⟨accepted, due, promised, hput⟩ := turn_putClose
      ({ s.become k (some (.close s.accepted.length code reason)) with
        session := { s.session with closed := true }, lock := some k }.become k
        (some (.putClose s.accepted.length (WebSocketSession.closeFrame code reason)))) k
        s.accepted.length
      (WebSocketSession.closeFrame code reason)
    refine ⟨_, _, ((((Run.nil.snoc hcall).snoc hlocked).snoc ((step_become ..).trans hput)).snoc
      ((step_become ..).trans rfl)).snoc ((step_become ..).trans rfl), ?_, rfl, ?_⟩
    · intro k'
      simp only [become, Function.update_idem]
      exact hdone k'
    · rw [WebSocketSession.close, if_neg hclosed]
      rfl

def wsStart : WsThreads Unit :=
  ⟨⟨1024, 256, [], false, false, 0, none⟩, .idle, fun _ => none, none, [], [], []⟩

theorem wsStart_fresh : wsStart.Fresh := ⟨rfl, rfl, rfl, fun _ => rfl, rfl, rfl⟩

/-- A frame is sent, and the session is closed, while the writer works off the queue. -/
def orderlyTurns : List (WsTurn Unit) :=
  [.send () [129, 0], .advance (), .advance (), .write, .write, .close () 1000 [], .advance (),
  .advance (), .write,
    .write, .advance (), .advance ()]

end WsThreads

end Sovereign
