import Workplace.Coroutine.EventRuns

/-! The assertion `events & event` at the head of `FdContext::triggerEvent`, and its three
callers. `cancelAll` looks at the bits it triggers, `idle` at the events that epoll has
reported, and `cancelEvent` clears the bit first. -/

namespace Workplace.Coroutine.IOManager
open Workplace.Lib FdContext
variable {S F C : Type} {io io' : IOManager S F C} {c c' : FdContext S F C} {fd : Nat}

/-- The calls that lead to `triggerEvent`; an `epoll_ctl` of `cancelEvent` works here. -/
inductive TriggerCall where
  | cancelEvent (fd : Nat) (isRead : Bool)
  | cancelAll (fd : Nat) (ctl : Bool)
  -- `idle`, with what `epoll_wait` reported for one context some time ago
  | ready (r : Ready)

/-- The events that `idle` takes to have happened. -/
def realEvents (r : Ready) (c : FdContext S F C) : Event :=
  { read := r.epollin || (r.epollerr && c.events.read)
    write := r.epollout || (r.epollerr && c.events.write) }

/-- What a call has to do: a cancelled event loses its bit, its callback or fiber is
scheduled once, and no assertion of `triggerEvent` fails. -/
def WakesWaiter (io : IOManager S F C) : TriggerCall → Prop
  | .cancelEvent fd isRead => ∀ c, io.m_fdContexts[fd]? = some c → c.bit isRead = true →
      ∃ io' sch task, io.cancelEvent fd (.only isRead) true = some (true, io') ∧
        io'.m_fdContexts = io.m_fdContexts.set fd (c.deleted isRead) ∧
        io'.m_pendingEventCount = io.m_pendingEventCount - 1 ∧
        (c.slot isRead).scheduler = some sch ∧
        task = (if (c.slot isRead).cb.isSome then .cb (c.slot isRead).cb
          else .fiber (c.slot isRead).fiber) ∧
        io'.scheduled = io.scheduled ++ [{ added := (c.slot isRead).added, scheduler := sch, task }]
  | .cancelAll fd ctl => (io.cancelAll fd ctl).isSome
  | .ready r => ∀ c, io.m_fdContexts[r.fd]? = some c → (io.handleReady r).isSome

/-- No event is cancelled by `cancelEvent`; and epoll has reported no registered event
together with one that is not registered, unless `epoll_ctl` fails. -/
def FindsBits (io : IOManager S F C) : TriggerCall → Prop
  | .cancelEvent fd isRead => ∀ c, io.m_fdContexts[fd]? = some c → c.bit isRead = false
  | .cancelAll _ _ => True
  | .ready r => ∀ c, io.m_fdContexts[r.fd]? = some c → r.ctl = false ∨
      c.events.inter (realEvents r c) = .NONE ∨ (realEvents r c).without c.events = .NONE

/-! ## One call of `triggerEvent` -/

theorem triggerEvent_of_bit {added : List (S × FiberOrCb F C)} (h : Good added c) {isRead : Bool}
    (hb : c.bit isRead = true) : ∃ tasks,
      c.triggerEvent (.only isRead) = some (c.deleted isRead, tasks) := by
  have hslot := h.slot isRead
  rw [hb] at hslot
  obtain ⟨i, sch, task, -, -, hs, -⟩ := hslot
  have hbit : c.events.inter (.only isRead) ≠ .NONE := by simp [inter_eq_none, hb]
  have hctx : ({ c with events := c.events.without (.only isRead) } : FdContext S F C
      ).getEventContext (.only isRead) = some (c.slot isRead) := by
    cases isRead <;> rfl
  rw [triggerEvent, if_neg hbit]
  simp only [hctx, hs, resetEventContext_eq]
  exact ⟨_, rfl⟩

/-- A conditional trigger fails exactly when it is to clear a bit that is not set. -/
theorem triggerIf_cases {added : List (S × FiberOrCb F C)} (h : Good added c)
    (io : IOManager S F C) (fd : Nat) (cond isRead : Bool) :
    (cond = true ∧ c.bit isRead = false) ∧ triggerIf cond io fd c (.only isRead) = none ∨
      (cond = true → c.bit isRead = true) ∧ ∃ io', triggerIf cond io fd c (.only isRead) =
        some (if cond then c.deleted isRead else c, io') := by
  cases cond with
  | false => exact .inr ⟨by simp, io, rfl⟩
  | true =>
    cases hb : c.bit isRead with
    | true =>
      obtain ⟨tasks, ht⟩ := triggerEvent_of_bit h hb
      refine .inr ⟨fun _ => rfl, ?_⟩
      simp only [triggerIf, if_true, trigger, ht, Option.map_some]
      exact ⟨_, rfl⟩
    | false =>
      refine .inl ⟨⟨rfl, rfl⟩, ?_⟩
      simp [triggerIf, trigger, triggerEvent, inter_eq_none.mpr hb]

theorem good_ite_deleted {added : List (S × FiberOrCb F C)} (h : Good added c) {cond : Bool}
    (hb : cond = true → c.bit true = true) :
    Good added (if cond then c.deleted true else c) ∧
      (if cond then c.deleted true else c).bit false = c.bit false := by
  cases cond with
  | false => exact ⟨h, rfl⟩
  | true => exact ⟨(deleted_spec h (hb rfl)).1, rfl⟩

/-! ## The callers -/

theorem cancelEvent_fails {isRead : Bool} (hc : io.m_fdContexts[fd]? = some c)
    (hb : c.bit isRead = true) : io.cancelEvent fd (.only isRead) true = none := by
  have hbit : c.events.inter (.only isRead) ≠ .NONE := by simp [inter_eq_none, hb]
  have hnone : (c.events.without (.only isRead)).inter (.only isRead) = .NONE := by
    simp [Event.without, Event.inter, Event.NONE, Bool.and_assoc]
  simp [cancelEvent, hc, hbit, trigger, triggerEvent, hnone]

theorem cancelAll_isSome (h : Accounted io) (fd : Nat) (ctl : Bool) :
    (io.cancelAll fd ctl).isSome := by
  rw [cancelAll]
  rcases hc : io.m_fdContexts[fd]? with _ | c
  · rfl
  dsimp only
  split_ifs
  · rfl
  · rfl
  have hgood := h.mem hc
  obtain ⟨⟨hcond, hbit⟩, -⟩ | ⟨hread, io₁, h₁⟩ :=
    triggerIf_cases hgood io fd c.events.read true
  · exact absurd (hcond.symm.trans hbit) (by decide)
  obtain ⟨hgood₁, hwrite⟩ := good_ite_deleted hgood hread
  rw [show triggerIf c.events.read io fd c .READ = _ from h₁, Option.bind_eq_bind,
    Option.bind_some]
  dsimp only
  set c₁ := if c.events.read then c.deleted true else c with hc₁
  obtain ⟨⟨hcond, hbit⟩, -⟩ | ⟨-, io₂, h₂⟩ :=
    triggerIf_cases hgood₁ io₁ fd c₁.events.write false
  · exact absurd (hcond.symm.trans hbit) (by decide)
  rw [show triggerIf c₁.events.write io₁ fd c₁ .WRITE = _ from h₂, Option.bind_some]
  -- both bits are clear now
  have hclear : (if c₁.events.write then c₁.deleted false else c₁).events = .NONE := by
    rcases hev : c.events with ⟨_ | _, _ | _⟩ <;> simp [hc₁, hev, deleted, Event.NONE]
  simp [hclear]

theorem without_eq_none {a b : Event} : a.without b = .NONE ↔
    (a.read = true → b.read = true) ∧ (a.write = true → b.write = true) := by
  rcases a with ⟨_ | _, _ | _⟩ <;> rcases b with ⟨_ | _, _ | _⟩ <;> decide

theorem handleReady_isSome_iff {added : List (S × FiberOrCb F C)} (hgood : Good added c) {r : Ready}
    (hc : io.m_fdContexts[r.fd]? = some c) :
    (io.handleReady r).isSome ↔ r.ctl = false ∨ c.events.inter (realEvents r c) = .NONE ∨
      (realEvents r c).without c.events = .NONE := by
  have hunfold : io.handleReady r = if c.events.inter (realEvents r c) = .NONE then some io
      else if r.ctl = false then some io
      else (triggerIf (realEvents r c).read io r.fd c .READ).bind fun p =>
        (triggerIf (realEvents r c).write p.2 r.fd p.1 .WRITE).bind fun q => some q.2 := by
    rw [handleReady, hc]
    rfl
  rw [hunfold]
  split_ifs with hi hctl
  · simp [hi]
  · simp [hctl]
  simp only [hi, hctl, reduceCtorEq, false_or, without_eq_none]
  obtain ⟨⟨hcond, hbit⟩, hnone⟩ | ⟨hread, io₁, h₁⟩ :=
    triggerIf_cases hgood io r.fd (realEvents r c).read true
  · rw [show triggerIf (realEvents r c).read io r.fd c .READ = _ from hnone]
    simp [hcond, show c.events.read = false from hbit]
  obtain ⟨hgood₁, hwrite⟩ := good_ite_deleted hgood hread
  rw [show triggerIf (realEvents r c).read io r.fd c .READ = _ from h₁, Option.bind_some]
  obtain ⟨⟨hcond, hbit⟩, hnone⟩ | ⟨hbit, io₂, h₂⟩ :=
    triggerIf_cases hgood₁ io₁ r.fd (realEvents r c).write false
  · rw [hwrite] at hbit
    rw [show triggerIf (realEvents r c).write io₁ r.fd _ .WRITE = _ from hnone]
    simp [hcond, show c.events.write = false from hbit]
  · rw [hwrite] at hbit
    rw [show triggerIf (realEvents r c).write io₁ r.fd _ .WRITE = _ from h₂]
    exact iff_of_true rfl ⟨hread, hbit⟩

/-- **The assertion of `triggerEvent`.** In every state reached, a call does what it has to
do exactly when it is no `cancelEvent` of a registered event, and no report of a registered
event together with one that is not registered. -/
theorem wakesWaiter_iff (ops : List (Op S F C)) (io : IOManager S F C)
    (hrun : Lib.run step init ops = some io) (call : TriggerCall) :
    io.WakesWaiter call ↔ io.FindsBits call := by
  have h : Accounted io := accounted_init.run hrun
  cases call with
  | cancelEvent fd isRead =>
    constructor
    · intro hw c hc
      by_contra hb
      rw [Bool.not_eq_false] at hb
      obtain ⟨io', sch, task, he, -⟩ := hw c hc hb
      simp [cancelEvent_fails hc hb] at he
    · intro hf c hc hb
      simp [hf c hc] at hb
  | cancelAll fd ctl => exact iff_of_true (cancelAll_isSome h fd ctl) trivial
  | ready r => exact forall₂_congr fun c hc => handleReady_isSome_iff (h.mem hc) hc

/-- A registered event, cancelled: the bit is gone when `triggerEvent` looks for it. -/
theorem cancelEvent_never_wakes : ¬ ∀ (ops : List (Op Unit Unit Unit))
    (io : IOManager Unit Unit Unit), Lib.run step init ops = some io →
      ∀ call, io.WakesWaiter call := by
  intro h
  let caller : Caller Unit Unit := { scheduler := (), fiber := () }
  have hw := h [.addEvent 5 .READ (some ()) caller true] _ rfl (.cancelEvent 5 true)
  obtain ⟨io', sch, task, he, -⟩ := hw _ rfl rfl
  exact absurd he (by rw [cancelEvent_fails rfl rfl]; simp)

/-- Both events of a descriptor are registered, and both are reported. -/
theorem wakesWaiter_iff_both_ready :
    let caller : Caller Unit Unit := { scheduler := (), fiber := () }
    let ready : Ready :=
      { fd := 5, epollin := true, epollout := true, epollerr := false, ctl := true }
    let ops : List (Op Unit Unit Unit) :=
      [.addEvent 5 .READ (some ()) caller true, .addEvent 5 .WRITE none caller true]
    ∃ io : IOManager Unit Unit Unit, Lib.run step init ops = some io ∧
      io.m_pendingEventCount = 2 ∧ io.WakesWaiter (.ready ready) := by
  intro caller ready ops
  obtain ⟨io, hrun⟩ : ∃ io, Lib.run step init ops = some io := ⟨_, rfl⟩
  have hiff := wakesWaiter_iff ops io hrun (.ready ready)
  obtain rfl := Option.some.inj hrun
  refine ⟨_, hrun, by decide, hiff.mpr fun c hc => ?_⟩
  obtain rfl := Option.some.inj hc
  exact .inr (.inr (by decide))

end Workplace.Coroutine.IOManager
