import Workplace.Coroutine.TaskQueue
import Mathlib.Algebra.BigOperators.Group.List.Basic

/-! The events of `IOManager`: what `addEvent`, `delEvent`, `cancelEvent`, `cancelAll` and
`idle` do to the contexts of the file descriptors. A call of `epoll_ctl` may succeed or
fail, and a failed assertion ends the process (`none`). -/

namespace Workplace.Coroutine

/-- `IOManager::Event` and its combinations, bit by bit. -/
structure Event where
  read : Bool
  write : Bool
  deriving DecidableEq, Repr

namespace Event

def NONE : Event := ⟨false, false⟩
def READ : Event := ⟨true, false⟩
def WRITE : Event := ⟨false, true⟩

def inter (a b : Event) : Event := ⟨a.read && b.read, a.write && b.write⟩
def union (a b : Event) : Event := ⟨a.read || b.read, a.write || b.write⟩
/-- `a & ~b` -/
def without (a b : Event) : Event := ⟨a.read && !b.read, a.write && !b.write⟩

def only (isRead : Bool) : Event := if isRead then .READ else .WRITE

def count (a : Event) : Int := a.read.toNat + a.write.toNat

end Event

structure EventContext (S F C : Type) where
  scheduler : Option S := none
  fiber : Option F := none
  cb : Option C := none
  -- which successful `addEvent` filled the context
  added : Option Nat := none
  deriving DecidableEq, Repr

structure FdContext (S F C : Type) where
  read : EventContext S F C := {}
  write : EventContext S F C := {}
  fd : Nat := 0
  events : Event := .NONE
  deriving DecidableEq, Repr

structure Scheduled (S F C : Type) where
  added : Option Nat
  scheduler : S
  task : FiberOrCb F C
  deriving DecidableEq, Repr

namespace FdContext
variable {S F C : Type}

def getEventContext (c : FdContext S F C) (event : Event) : Option (EventContext S F C) :=
  if event = .READ then some c.read else if event = .WRITE then some c.write else none

def setEventContext (c : FdContext S F C) (event : Event) (ctx : EventContext S F C) :
    FdContext S F C :=
  if event = .READ then { c with read := ctx } else { c with write := ctx }

def resetEventContext (c : FdContext S F C) (event : Event) : FdContext S F C :=
  c.setEventContext event {}

/-- The new context and what was scheduled. A null callback and a null fiber are ignored by
`scheduleLock`; a null scheduler is not survived. -/
def triggerEvent (c : FdContext S F C) (event : Event) :
    Option (FdContext S F C × List (Scheduled S F C)) :=
  if c.events.inter event = .NONE then none
  else
    let c := { c with events := c.events.without event }
    match c.getEventContext event with
    | none => none
    | some ctx =>
      match ctx.scheduler with
      | none => none
      | some scheduler =>
        let task : FiberOrCb F C := if ctx.cb.isSome then .cb ctx.cb else .fiber ctx.fiber
        let pushed := if (ScheduleTask.of task (-1)).hasWork
          then [{ added := ctx.added, scheduler, task }] else []
        some (c.resetEventContext event, pushed)

end FdContext

structure Caller (S F : Type) where
  scheduler : S
  fiber : F
  -- whether the fiber is in the state `RUNNING`
  running : Bool := true

/-- What `addEvent` registers: the callback, or the calling fiber where there is none. -/
def Caller.task {S F C : Type} (caller : Caller S F) (cb : Option C) : FiberOrCb F C :=
  if cb.isSome then .cb cb else .fiber (some caller.fiber)

def Caller.context {S F C : Type} (caller : Caller S F) (cb : Option C) (added : Nat) :
    EventContext S F C :=
  { scheduler := some caller.scheduler
    fiber := if cb.isSome then none else some caller.fiber
    cb
    added := some added }

structure IOManager (S F C : Type) where
  m_fdContexts : List (FdContext S F C) := []
  m_pendingEventCount : Int := 0
  -- every task that `triggerEvent` has scheduled, in order
  scheduled : List (Scheduled S F C) := []
  -- what each successful `addEvent` has registered, in order
  added : List (S × FiberOrCb F C) := []

/-- What `epoll_wait` reports for a context, and whether the `epoll_ctl` that follows works. -/
structure Ready where
  fd : Nat
  epollin : Bool
  epollout : Bool
  -- `EPOLLERR` or `EPOLLHUP`
  epollerr : Bool
  ctl : Bool
  deriving DecidableEq, Repr

namespace IOManager
variable {S F C : Type}

def contextResize (io : IOManager S F C) (size : Nat) : IOManager S F C :=
  let cs := io.m_fdContexts
  { io with m_fdContexts := cs.take size ++
      (List.range' cs.length (size - cs.length)).map fun i => { fd := i } }

def init : IOManager S F C := contextResize {} 32

def setContext (io : IOManager S F C) (fd : Nat) (c : FdContext S F C) : IOManager S F C :=
  { io with m_fdContexts := io.m_fdContexts.set fd c }

/-- The rest of `addEvent`, once the context `c` of `fd` is found and locked. -/
def addEventTo (io : IOManager S F C) (fd : Nat) (c : FdContext S F C) (event : Event)
    (cb : Option C) (caller : Caller S F) (ctl : Bool) : Option (Int × IOManager S F C) :=
  if c.events.inter event ≠ .NONE then some (-1, io)
  else if ctl = false then some (-1, io)
  else
    let io := { io with m_pendingEventCount := io.m_pendingEventCount + 1 }
    let c := { c with events := c.events.union event }
    match c.getEventContext event with
    | none => none
    | some ctx =>
      if ctx.scheduler.isSome || ctx.fiber.isSome || ctx.cb.isSome then none
      else
        let ctx := caller.context cb io.added.length
        if cb.isNone ∧ caller.running = false then none
        else some (0, { io.setContext fd (c.setEventContext event ctx) with
          added := io.added ++ [(caller.scheduler, caller.task cb)] })

/-- `none` also stands for an index out of the table. -/
def addEvent (io : IOManager S F C) (fd : Nat) (event : Event) (cb : Option C)
    (caller : Caller S F) (ctl : Bool) : Option (Int × IOManager S F C) :=
  let io := if fd < io.m_fdContexts.length then io else io.contextResize (fd * 3 / 2)
  match io.m_fdContexts[fd]? with
  | none => none
  | some c => io.addEventTo fd c event cb caller ctl

/-- `return -1` in a function that returns `bool` is `true`. -/
def delEvent (io : IOManager S F C) (fd : Nat) (event : Event) (ctl : Bool) :
    Option (Bool × IOManager S F C) :=
  match io.m_fdContexts[fd]? with
  | none => some (false, io)
  | some c =>
    if c.events.inter event = .NONE then some (false, io)
    else if ctl = false then some (true, io)
    else
      let c := { c with events := c.events.without event }
      match c.getEventContext event with
      | none => none
      | some _ => some (true,
          { io.setContext fd (c.resetEventContext event) with
            m_pendingEventCount := io.m_pendingEventCount - 1 })

/-- `triggerEvent` on the context of `fd`, with the decrement of the counter. -/
def trigger (io : IOManager S F C) (fd : Nat) (c : FdContext S F C) (event : Event) :
    Option (FdContext S F C × IOManager S F C) :=
  (c.triggerEvent event).map fun (c', tasks) =>
    (c', { io.setContext fd c' with
      m_pendingEventCount := io.m_pendingEventCount - 1
      scheduled := io.scheduled ++ tasks })

def cancelEvent (io : IOManager S F C) (fd : Nat) (event : Event) (ctl : Bool) :
    Option (Bool × IOManager S F C) :=
  match io.m_fdContexts[fd]? with
  | none => some (false, io)
  | some c =>
    if c.events.inter event = .NONE then some (false, io)
    else if ctl = false then some (true, io)
    else
      -- `triggerEvent` finds the bit already cleared
      let c := { c with events := c.events.without event }
      (io.trigger fd c event).map fun r => (true, r.2)

/-- `if (cond) { triggerEvent(event); --m_pendingEventCount; }` -/
def triggerIf (cond : Bool) (io : IOManager S F C) (fd : Nat) (c : FdContext S F C)
    (event : Event) : Option (FdContext S F C × IOManager S F C) :=
  if cond then io.trigger fd c event else some (c, io)

def cancelAll (io : IOManager S F C) (fd : Nat) (ctl : Bool) :
    Option (Bool × IOManager S F C) :=
  match io.m_fdContexts[fd]? with
  | none => some (false, io)
  | some c =>
    if c.events = .NONE then some (false, io)
    else if ctl = false then some (true, io)
    else do
      let (c, io) ← triggerIf c.events.read io fd c .READ
      let (c, io) ← triggerIf c.events.write io fd c .WRITE
      if c.events = .NONE then some (true, io) else none

/-- `idle` for one entry of the batch that is not the tickle. -/
def handleReady (io : IOManager S F C) (r : Ready) : Option (IOManager S F C) :=
  match io.m_fdContexts[r.fd]? with
  | none => none
  | some c =>
    let real_events : Event :=
      { read := r.epollin || (r.epollerr && c.events.read)
        write := r.epollout || (r.epollerr && c.events.write) }
    if c.events.inter real_events = .NONE then some io
    else if r.ctl = false then some io
    else do
      let (c, io) ← triggerIf real_events.read io r.fd c .READ
      let (_, io) ← triggerIf real_events.write io r.fd c .WRITE
      some io

/-- The batch of one `epoll_wait`. An entry of the tickle pipe, `none`, changes no context. -/
def handleBatch (io : IOManager S F C) : List (Option Ready) → Option (IOManager S F C)
  | [] => some io
  | none :: batch => handleBatch io batch
  | some r :: batch => (io.handleReady r).bind fun io => handleBatch io batch

end IOManager

/-! ## One context -/

namespace FdContext
variable {S F C : Type} {c c' : FdContext S F C} {added : List (S × FiberOrCb F C)}

/-- The context of an event whose bit is set: the scheduler, and either a callback or a
fiber, as the `addEvent` number `i` registered them. -/
def Populated (added : List (S × FiberOrCb F C)) (ctx : EventContext S F C) : Prop :=
  ∃ i scheduler task, added[i]? = some (scheduler, task) ∧ ctx.added = some i ∧
    ctx.scheduler = some scheduler ∧
    ((∃ f, task = .fiber (some f) ∧ ctx.fiber = some f ∧ ctx.cb = none) ∨
      ∃ k, task = .cb (some k) ∧ ctx.cb = some k ∧ ctx.fiber = none)

def Slot (added : List (S × FiberOrCb F C)) : Bool → EventContext S F C → Prop
  | true, ctx => Populated added ctx
  | false, ctx => ctx = {}

/-- The context of an event is populated if its bit is set, and empty else. -/
def Good (added : List (S × FiberOrCb F C)) (c : FdContext S F C) : Prop :=
  Slot added c.events.read c.read ∧ Slot added c.events.write c.write

/-- `1` if the bit is set and the `addEvent` number `i` has set it. -/
def slotHeld (i : Nat) (bit : Bool) (ctx : EventContext S F C) : Int :=
  if bit ∧ ctx.added = some i then 1 else 0

def held (i : Nat) (c : FdContext S F C) : Int :=
  slotHeld i c.events.read c.read + slotHeld i c.events.write c.write

/-- How often a list of scheduled tasks has that of the `addEvent` number `i`. -/
def runs (i : Nat) (tasks : List (Scheduled S F C)) : Int :=
  tasks.countP fun k => k.added = some i

theorem slotHeld_nonneg (i : Nat) (b : Bool) (ctx : EventContext S F C) :
    0 ≤ slotHeld i b ctx := by
  rw [slotHeld]
  split_ifs <;> omega

theorem Slot.mono {bit : Bool} {ctx : EventContext S F C} (h : Slot added bit ctx)
    (more : List (S × FiberOrCb F C)) : Slot (added ++ more) bit ctx := by
  cases bit with
  | false => exact h
  | true =>
    obtain ⟨i, scheduler, task, hi, hctx⟩ := h
    refine ⟨i, scheduler, task, ?_, hctx⟩
    rw [List.getElem?_append_left (List.getElem?_eq_some_iff.mp hi).1, hi]

theorem Good.mono (h : Good added c) (more : List (S × FiberOrCb F C)) :
    Good (added ++ more) c := ⟨h.1.mono more, h.2.mono more⟩

/-! The two events of a context are treated alike: `isRead` says which one is meant. -/

def bit (c : FdContext S F C) (isRead : Bool) : Bool :=
  if isRead then c.events.read else c.events.write

def slot (c : FdContext S F C) (isRead : Bool) : EventContext S F C :=
  if isRead then c.read else c.write

def registered (c : FdContext S F C) (isRead : Bool) (ctx : EventContext S F C) :
    FdContext S F C :=
  if isRead then { c with events := { c.events with read := true }, read := ctx }
  else { c with events := { c.events with write := true }, write := ctx }

def deleted (c : FdContext S F C) (isRead : Bool) : FdContext S F C :=
  if isRead then { c with events := { c.events with read := false }, read := {} }
  else { c with events := { c.events with write := false }, write := {} }

theorem Good.slot (h : Good added c) (isRead : Bool) :
    Slot added (c.bit isRead) (c.slot isRead) := by
  cases isRead with
  | true => exact h.1
  | false => exact h.2

theorem populated_context (caller : Caller S F) (cb : Option C) :
    Populated (added ++ [(caller.scheduler, caller.task cb)])
      (caller.context cb added.length) := by
  refine ⟨added.length, caller.scheduler, caller.task cb, List.getElem?_concat_length, rfl, rfl, ?_⟩
  rcases cb with _ | k
  · exact .inl ⟨caller.fiber, rfl, rfl, rfl⟩
  · exact .inr ⟨k, rfl, rfl, rfl⟩

theorem registered_spec (h : Good added c) {isRead : Bool} (hb : c.bit isRead = false)
    (caller : Caller S F) (cb : Option C) :
    let c' := c.registered isRead (caller.context cb added.length)
    Good (added ++ [(caller.scheduler, caller.task cb)]) c' ∧
      c'.events.count = c.events.count + 1 ∧
      ∀ i, c'.held i = c.held i + if added.length = i then 1 else 0 := by
  obtain ⟨hr, hw⟩ := h.mono [(caller.scheduler, caller.task cb)]
  have hp : Populated _ (caller.context cb added.length) := populated_context caller cb
  cases isRead with
  | true =>
    have hb' : c.events.read = false := hb
    refine ⟨⟨hp, hw⟩, ?_, fun i => ?_⟩
    · simp only [registered, if_true, Event.count, hb', Bool.toNat_false, Bool.toNat_true]
      omega
    · simp [registered, held, slotHeld, hb', Caller.context, add_comm]
  | false =>
    have hb' : c.events.write = false := hb
    refine ⟨⟨hr, hp⟩, ?_, fun i => ?_⟩
    · simp only [registered, Bool.false_eq_true, if_false, Event.count, hb', Bool.toNat_false,
        Bool.toNat_true]
      omega
    · simp [registered, held, slotHeld, hb', Caller.context]

theorem deleted_spec (h : Good added c) {isRead : Bool} (hb : c.bit isRead = true) :
    Good added (c.deleted isRead) ∧ (c.deleted isRead).events.count = c.events.count - 1 ∧
      ∀ i, (c.deleted isRead).held i + slotHeld i true (c.slot isRead) = c.held i := by
  obtain ⟨hr, hw⟩ := h
  cases isRead with
  | true =>
    have hb' : c.events.read = true := hb
    refine ⟨⟨rfl, hw⟩, ?_, fun i => ?_⟩
    · simp only [deleted, if_true, Event.count, hb', Bool.toNat_false, Bool.toNat_true]
      omega
    · simp [deleted, held, slotHeld, hb', FdContext.slot, add_comm]
  | false =>
    have hb' : c.events.write = true := hb
    refine ⟨⟨hr, rfl⟩, ?_, fun i => ?_⟩
    · simp only [deleted, Bool.false_eq_true, if_false, Event.count, hb', Bool.toNat_false,
        Bool.toNat_true]
      omega
    · simp [deleted, held, slotHeld, hb', FdContext.slot]

theorem getEventContext_eq_some {event : Event} {ctx : EventContext S F C}
    (h : c.getEventContext event = some ctx) :
    ∃ isRead, event = (.only isRead) ∧ ctx = c.slot isRead := by
  rw [getEventContext] at h
  split_ifs at h with hr hw
  · exact ⟨true, hr, (Option.some.inj h).symm⟩
  · exact ⟨false, hw, (Option.some.inj h).symm⟩

theorem inter_eq_none {isRead : Bool} :
    c.events.inter (.only isRead) = .NONE ↔ c.bit isRead = false := by
  cases isRead with
  | true => simp [Event.inter, Event.only, Event.READ, Event.NONE, bit]
  | false => simp [Event.inter, Event.only, Event.WRITE, Event.NONE, bit]

theorem resetEventContext_eq (isRead : Bool) :
    { c with events := c.events.without (.only isRead) }.resetEventContext
      (.only isRead) = c.deleted isRead := by
  cases isRead with
  | true =>
    simp [resetEventContext, setEventContext, Event.without, Event.only, Event.READ, deleted]
  | false =>
    simp [resetEventContext, setEventContext, Event.without, Event.only, Event.WRITE, Event.READ,
      deleted]

theorem setEventContext_eq (isRead : Bool) (ctx : EventContext S F C) :
    { c with events := c.events.union (.only isRead) }.setEventContext
      (.only isRead) ctx = c.registered isRead ctx := by
  cases isRead with
  | true => simp [setEventContext, Event.union, Event.only, Event.READ, registered]
  | false => simp [setEventContext, Event.union, Event.only, Event.WRITE, Event.READ, registered]

def pushed (ctx : EventContext S F C) (scheduler : S) : List (Scheduled S F C) :=
  let task : FiberOrCb F C := if ctx.cb.isSome then .cb ctx.cb else .fiber ctx.fiber
  if (ScheduleTask.of task (-1)).hasWork then [{ added := ctx.added, scheduler, task }] else []

theorem triggerEvent_cases {event : Event} {tasks : List (Scheduled S F C)}
    (h : c.triggerEvent event = some (c', tasks)) :
    ∃ isRead sch, c.bit isRead = true ∧ c' = c.deleted isRead ∧
      (c.slot isRead).scheduler = some sch ∧ tasks = pushed (c.slot isRead) sch := by
  rw [triggerEvent] at h
  split_ifs at h with hb
  rcases hctx : ({ c with events := c.events.without event } : FdContext S F C).getEventContext
      event with _ | ctx
  · simp [hctx] at h
  obtain ⟨isRead, rfl, hslot⟩ := getEventContext_eq_some hctx
  have hslot' : ctx = c.slot isRead := hslot
  subst hslot'
  rcases hs : (c.slot isRead).scheduler with _ | sch
  · simp [hctx, hs] at h
  · simp only [hctx, hs, Option.some.injEq, Prod.mk.injEq] at h
    obtain ⟨rfl, rfl⟩ := h
    rw [inter_eq_none, Bool.not_eq_false] at hb
    exact ⟨isRead, sch, hb, resetEventContext_eq isRead, hs, rfl⟩

theorem Populated.pushed {ctx : EventContext S F C} (h : Populated added ctx) {sch : S}
    (hs : ctx.scheduler = some sch) :
    (∀ i, runs i (pushed ctx sch) = slotHeld i true ctx) ∧
      ∀ k ∈ FdContext.pushed ctx sch, ∃ i, k.added = some i ∧
        added[i]? = some (k.scheduler, k.task) := by
  obtain ⟨i, scheduler, task, hi, ha, hs', htask⟩ := h
  obtain rfl := Option.some.inj (hs.symm.trans hs')
  have hp : FdContext.pushed ctx sch = [{ added := some i, scheduler := sch, task }] := by
    rcases htask with ⟨f, rfl, hf, hcb⟩ | ⟨k, rfl, hcb, hf⟩
    · simp [FdContext.pushed, hcb, hf, ha, ScheduleTask.of, ScheduleTask.hasWork]
    · simp [FdContext.pushed, hcb, ha, ScheduleTask.of, ScheduleTask.hasWork]
  rw [hp]
  refine ⟨fun j => ?_, by simpa using hi⟩
  by_cases hj : i = j <;> simp [runs, slotHeld, ha, hj]

/-- **Triggering an event** clears its bit and its context, and schedules what the context
held, once. -/
theorem triggerEvent_spec (h : Good added c) {event : Event} {tasks : List (Scheduled S F C)}
    (ht : c.triggerEvent event = some (c', tasks)) :
    Good added c' ∧ c'.events.count = c.events.count - 1 ∧
      (∀ i, c'.held i + runs i tasks = c.held i) ∧
      ∀ k ∈ tasks, ∃ i, k.added = some i ∧ added[i]? = some (k.scheduler, k.task) := by
  obtain ⟨isRead, sch, hb, rfl, hs, rfl⟩ := triggerEvent_cases ht
  have hslot := h.slot isRead
  rw [hb] at hslot
  obtain ⟨hruns, htasks⟩ := Populated.pushed hslot hs
  obtain ⟨hgood, hcount, hheld⟩ := deleted_spec h hb
  refine ⟨hgood, hcount, fun i => ?_, htasks⟩
  rw [hruns, hheld]

end FdContext
end Workplace.Coroutine
