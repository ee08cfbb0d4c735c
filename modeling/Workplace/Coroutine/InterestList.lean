import Workplace.Coroutine.EventFailures
import Workplace.Coroutine.EventTriggers
import Workplace.Coroutine.FdManager

/-! `IOManager` and `FdManager` over one kernel. `epoll_ctl` answers from the interest list of
`m_epfd`, which the kernel keeps, and from the open descriptors; a descriptor that is closed
leaves the list. The threads have the hooks enabled, and their scheduler is the `IOManager`. -/

namespace Workplace.Coroutine
open Workplace.Lib

/-! ## The kernel -/

inductive EpollOp where
  | EPOLL_CTL_ADD
  | EPOLL_CTL_MOD
  | EPOLL_CTL_DEL
  deriving DecidableEq, Repr

inductive CtlError where
  | EBADF
  | EEXIST
  | ENOENT
  -- for want of memory, or since the file cannot be polled
  | refused
  deriving DecidableEq, Repr

/-- The interest list: the events of each descriptor that is in it. -/
abbrev InterestList := Nat → Option Event

/-- A removal is not refused. -/
def epoll_ctl (files : Nat → Option File) (list : InterestList) (op : EpollOp) (fd : Nat)
    (events : Event) (refused : Bool) : Option CtlError × InterestList :=
  if (files fd).isNone then (some .EBADF, list)
  else
    match op, list fd with
    | .EPOLL_CTL_ADD, some _ => (some .EEXIST, list)
    | .EPOLL_CTL_MOD, none | .EPOLL_CTL_DEL, none => (some .ENOENT, list)
    | .EPOLL_CTL_DEL, some _ => (none, Function.update list fd none)
    | .EPOLL_CTL_ADD, none | .EPOLL_CTL_MOD, some _ =>
      if refused then (some .refused, list) else (none, Function.update list fd (some events))

/-! ## The source -/

/-- The calls that come to `epoll_ctl`. -/
inductive EpollCall where
  | addEvent (event : Event)
  | delEvent (event : Event)
  | cancelEvent (event : Event)
  | cancelAll
  -- `idle`, with what `epoll_wait` has reported
  | ready (epollin epollout epollerr : Bool)
  deriving DecidableEq, Repr

/-- The events that the call passes to `epoll_ctl`, if it comes to it. -/
def EpollCall.leaves (events : Event) : EpollCall → Option Event
  | .addEvent event => if events.inter event ≠ .NONE then none else some (events.union event)
  | .delEvent event | .cancelEvent event =>
    if events.inter event = .NONE then none else some (events.without event)
  | .cancelAll => if events = .NONE then none else some .NONE
  | .ready epollin epollout epollerr =>
    let real_events : Event :=
      { read := epollin || (epollerr && events.read)
        write := epollout || (epollerr && events.write) }
    if events.inter real_events = .NONE then none else some (events.without real_events)

def EpollCall.op (events left : Event) : EpollCall → EpollOp
  | .addEvent _ => if events ≠ .NONE then .EPOLL_CTL_MOD else .EPOLL_CTL_ADD
  | .cancelAll => .EPOLL_CTL_DEL
  | _ => if left ≠ .NONE then .EPOLL_CTL_MOD else .EPOLL_CTL_DEL

structure Process (S F C : Type) where
  fds : FdManager
  io : IOManager S F C := .init
  list : InterestList := fun _ => none

inductive ProcessAct (S F C : Type) where
  | hook (a : HookAct)
  | addEvent (fd : Nat) (event : Event) (cb : Option C) (caller : Caller S F) (refused : Bool)
  | delEvent (fd : Nat) (event : Event) (refused : Bool)
  | cancelEvent (fd : Nat) (event : Event) (refused : Bool)
  | cancelAll (fd : Nat)
  | ready (fd : Nat) (epollin epollout epollerr refused : Bool)

namespace Process
variable {S F C : Type}

def init (kernel : Kernel) : Process S F C := { fds := .init kernel }

/-- The answer of `epoll_ctl` to a call about `fd`, and the interest list after it. -/
def ctl (p : Process S F C) (fd : Nat) (call : EpollCall) (refused : Bool) :
    Option CtlError × InterestList :=
  let events := (p.io.kept fd).1
  match call.leaves events with
  | none => (none, p.list)
  | some left => epoll_ctl p.fds.kernel.files p.list (call.op events left) fd left refused

/-- A call of the `IOManager` that is given whether `epoll_ctl` works. -/
def withCtl {α : Type} (p : Process S F C) (fd : Nat) (call : EpollCall) (refused : Bool)
    (f : Bool → Option (α × IOManager S F C)) : Option (Process S F C) :=
  (f (p.ctl fd call refused).1.isNone).map fun r =>
    { p with io := r.2, list := (p.ctl fd call refused).2 }

def cancelAll (p : Process S F C) (fd : Nat) : Option (Process S F C) :=
  p.withCtl fd .cancelAll false (p.io.cancelAll fd)

/-- The hooked `close`. -/
def close (p : Process S F C) (fd : Nat) : Option (Process S F C) :=
  (if (p.fds.find fd).isSome then p.cancelAll fd else some p).map fun p =>
    { p with fds := p.fds.close fd, list := Function.update p.list fd none }

def step (p : Process S F C) : ProcessAct S F C → Option (Process S F C)
  | .hook (.close fd) => p.close fd
  | .hook a => (p.fds.step a).map fun fds => { p with fds }
  | .addEvent fd event cb caller refused =>
    p.withCtl fd (.addEvent event) refused (p.io.addEvent fd event cb caller)
  | .delEvent fd event refused =>
    p.withCtl fd (.delEvent event) refused (p.io.delEvent fd event)
  | .cancelEvent fd event refused =>
    p.withCtl fd (.cancelEvent event) refused (p.io.cancelEvent fd event)
  | .cancelAll fd => p.cancelAll fd
  | .ready fd epollin epollout epollerr refused =>
    p.withCtl fd (.ready epollin epollout epollerr) refused fun ctl =>
      (p.io.handleReady { fd, epollin, epollout, epollerr, ctl }).map fun io => ((), io)

end Process

/-! ## The masks of the contexts -/

namespace IOManager
variable {S F C : Type} {io io' : IOManager S F C} {c c' : FdContext S F C} {fd : Nat}
  {event : Event} {ctl : Bool}

def masks (io : IOManager S F C) (fd : Nat) : Event := (io.kept fd).1

/-- What a call does to the masks: what it has passed to `epoll_ctl`, if that works. -/
def Follows (io : IOManager S F C) (fd : Nat) (call : EpollCall) (ctl : Bool)
    (io' : IOManager S F C) : Prop :=
  match call.leaves (io.masks fd) with
  | none => io'.masks = io.masks
  | some left => io'.masks = if ctl then Function.update io.masks fd left else io.masks

theorem masks_of_getElem? (hc : io.m_fdContexts[fd]? = some c) : io.masks fd = c.events :=
  congrArg Prod.fst (kept_of_getElem? hc)

theorem Untouched.masks (h : io.Untouched io') : io'.masks = io.masks := by
  funext fd
  exact congrArg Prod.fst (h.kept fd)

theorem masks_setContext (hc : io.m_fdContexts[fd]? = some c) (c' : FdContext S F C) :
    (io.setContext fd c').masks = Function.update io.masks fd c'.events := by
  have hlt : fd < io.m_fdContexts.length := (List.getElem?_eq_some_iff.mp hc).1
  funext fd'
  by_cases hfd : fd' = fd
  · rw [hfd, Function.update_self]
    exact congrArg Prod.fst (kept_setContext hlt c')
  · rw [Function.update_of_ne hfd]
    have hget : (io.m_fdContexts.set fd c')[fd']? = io.m_fdContexts[fd']? :=
      List.getElem?_set_ne (Ne.symm hfd)
    simp only [IOManager.masks, IOManager.kept, setContext, hget]

theorem events_setEventContext (c : FdContext S F C) (event : Event) (ctx : EventContext S F C) :
    (c.setEventContext event ctx).events = c.events := by
  unfold FdContext.setEventContext
  split_ifs <;> rfl

theorem events_triggerEvent {tasks : List (Scheduled S F C)}
    (h : c.triggerEvent event = some (c', tasks)) : c'.events = c.events.without event := by
  unfold FdContext.triggerEvent at h
  split_ifs at h
  dsimp only at h
  split at h
  · cases h
  · split at h
    · cases h
    · obtain ⟨rfl, -⟩ := Prod.mk.inj (Option.some.inj h)
      exact events_setEventContext _ _ _

theorem masks_triggerIf {cond : Bool} (hc : io.m_fdContexts[fd]? = some c)
    (h : triggerIf cond io fd c event = some (c', io')) :
    c'.events = (if cond then c.events.without event else c.events) ∧
      io'.masks = Function.update io.masks fd c'.events := by
  cases cond with
  | false =>
    obtain ⟨rfl, rfl⟩ := Prod.mk.inj (Option.some.inj h)
    refine ⟨rfl, ?_⟩
    rw [← masks_of_getElem? hc, Function.update_eq_self]
  | true =>
    obtain ⟨⟨c₁, tasks⟩, ht, heq⟩ := Option.map_eq_some_iff.mp h
    obtain ⟨rfl, rfl⟩ := Prod.mk.inj heq
    exact ⟨events_triggerEvent ht, masks_setContext hc c₁⟩

/-- Both events of a context, triggered one after the other. -/
theorem masks_triggerBoth {read write : Bool} {c₁ c₂ : FdContext S F C}
    {io₁ io₂ : IOManager S F C} (hc : io.m_fdContexts[fd]? = some c)
    (h₁ : triggerIf read io fd c .READ = some (c₁, io₁))
    (h₂ : triggerIf write io₁ fd c₁ .WRITE = some (c₂, io₂)) :
    io₂.masks = Function.update io.masks fd (c.events.without ⟨read, write⟩) := by
  obtain ⟨hevents₁, hmasks₁⟩ := masks_triggerIf hc h₁
  obtain ⟨hevents₂, hmasks₂⟩ := masks_triggerIf (getElem?_triggerIf hc h₁) h₂
  have hevents : c₂.events = c.events.without ⟨read, write⟩ := by
    rw [hevents₂, hevents₁]
    cases read <;> cases write <;> simp [Event.without, Event.READ, Event.WRITE]
  rw [hmasks₂, hmasks₁, Function.update_idem, hevents]

theorem follows_none {call : EpollCall} (hr : call.leaves (io.masks fd) = none)
    (hm : io'.masks = io.masks) : io.Follows fd call ctl io' := by
  rw [Follows, hr]
  exact hm

theorem follows_failed {call : EpollCall} (hm : io'.masks = io.masks) :
    io.Follows fd call false io' := by
  unfold Follows
  split
  · exact hm
  · exact hm

theorem follows_some {call : EpollCall} {left : Event}
    (hr : call.leaves (io.masks fd) = some left)
    (hm : io'.masks = Function.update io.masks fd left) : io.Follows fd call true io' := by
  rw [Follows, hr]
  exact hm

theorem addEventTo_succeeds {cb : Option C} {caller : Caller S F} {r : Int}
    (hevent : c.events.inter event = .NONE)
    (h : io.addEventTo fd c event cb caller true = some (r, io')) :
    ∃ isRead ctx added, event = .only isRead ∧ io' = { io.setContext fd
        ({ c with events := c.events.union event }.setEventContext event ctx) with
      m_pendingEventCount := io.m_pendingEventCount + 1
      added } := by
  rw [addEventTo, if_neg (not_not.mpr hevent), if_neg (by decide)] at h
  dsimp only at h
  split at h
  · cases h
  · next ctx hctx =>
    obtain ⟨isRead, honly, -⟩ := FdContext.getEventContext_eq_some hctx
    split_ifs at h
    obtain ⟨-, rfl⟩ := Prod.mk.inj (Option.some.inj h)
    exact ⟨isRead, _, _, honly, rfl⟩

theorem union_only_ne (events : Event) (isRead : Bool) : events.union (.only isRead) ≠ .NONE := by
  rcases events with ⟨_ | _, _ | _⟩ <;> cases isRead <;> decide

theorem addEvent_cases {cb : Option C} {caller : Caller S F} {r : Int}
    (h : io.addEvent fd event cb caller true = some (r, io')) :
    (EpollCall.addEvent event).leaves (io.masks fd) = none ∧ io'.masks = io.masks ∨
      ∃ left, (EpollCall.addEvent event).leaves (io.masks fd) = some left ∧ left ≠ .NONE ∧
        io'.masks = Function.update io.masks fd left := by
  unfold addEvent at h
  have hgrown : io.Untouched
      (if fd < io.m_fdContexts.length then io else io.contextResize (fd * 3 / 2)) := by
    split_ifs with hlt
    · exact .refl io
    · exact .contextResize (by omega)
  generalize (if fd < io.m_fdContexts.length then io
    else io.contextResize (fd * 3 / 2)) = io₁ at h hgrown
  cases hc : io₁.m_fdContexts[fd]? with
  | none => simp [hc] at h
  | some c =>
    have hmask : io.masks fd = c.events := by
      rw [← hgrown.masks]
      exact masks_of_getElem? hc
    simp only [hc] at h
    rw [hmask, EpollCall.leaves]
    by_cases hevent : c.events.inter event = .NONE
    · obtain ⟨isRead, ctx, added, rfl, rfl⟩ := addEventTo_succeeds hevent h
      refine .inr ⟨_, if_neg (not_not.mpr hevent), union_only_ne _ isRead, ?_⟩
      refine (masks_setContext hc _).trans ?_
      rw [events_setEventContext, hgrown.masks]
    · rw [addEventTo, if_pos hevent] at h
      obtain ⟨-, rfl⟩ := Prod.mk.inj (Option.some.inj h)
      exact .inl ⟨if_pos hevent, hgrown.masks⟩

theorem follows_addEvent {cb : Option C} {caller : Caller S F} {r : Int}
    (h : io.addEvent fd event cb caller ctl = some (r, io')) :
    io.Follows fd (.addEvent event) ctl io' := by
  cases ctl with
  | false => exact follows_failed (addEvent_failed h).2.masks
  | true =>
    rcases addEvent_cases h with ⟨hleaves, hm⟩ | ⟨left, hleaves, -, hm⟩
    · exact follows_none hleaves hm
    · exact follows_some hleaves hm

/-- A call that finds no context, or none of its events in it, does nothing. -/
theorem masks_eq_none (hc : io.m_fdContexts[fd]? = none) : io.masks fd = .NONE :=
  congrArg Prod.fst (kept_of_getElem?_eq_none hc)

theorem none_inter (event : Event) : Event.NONE.inter event = .NONE := rfl

theorem follows_delEvent {r : Bool} (h : io.delEvent fd event ctl = some (r, io')) :
    io.Follows fd (.delEvent event) ctl io' := by
  cases ctl with
  | false =>
    rw [delEvent_failed] at h
    obtain ⟨-, rfl⟩ := Prod.mk.inj (Option.some.inj h)
    exact follows_failed rfl
  | true =>
    unfold delEvent at h
    cases hc : io.m_fdContexts[fd]? with
    | none =>
      simp only [hc] at h
      obtain ⟨-, rfl⟩ := Prod.mk.inj (Option.some.inj h)
      have hleaves : (EpollCall.delEvent event).leaves (io.masks fd) = none := by
        rw [masks_eq_none hc, EpollCall.leaves, if_pos (none_inter event)]
      exact follows_none hleaves rfl
    | some c =>
      simp only [hc] at h
      by_cases hevent : c.events.inter event = .NONE
      · rw [if_pos hevent] at h
        obtain ⟨-, rfl⟩ := Prod.mk.inj (Option.some.inj h)
        have hleaves : (EpollCall.delEvent event).leaves (io.masks fd) = none := by
          rw [masks_of_getElem? hc, EpollCall.leaves, if_pos hevent]
        exact follows_none hleaves rfl
      · rw [if_neg hevent, if_neg (by decide)] at h
        split at h
        · cases h
        · obtain ⟨-, rfl⟩ := Prod.mk.inj (Option.some.inj h)
          have hleaves : (EpollCall.delEvent event).leaves (io.masks fd) =
              some (c.events.without event) := by
            rw [masks_of_getElem? hc, EpollCall.leaves, if_neg hevent]
          refine follows_some hleaves ((masks_setContext hc _).trans ?_)
          rw [FdContext.resetEventContext, events_setEventContext]

theorem follows_cancelEvent {r : Bool} (h : io.cancelEvent fd event ctl = some (r, io')) :
    io.Follows fd (.cancelEvent event) ctl io' := by
  obtain rfl := cancelEvent_eq h
  cases ctl with
  | false => exact follows_failed rfl
  | true =>
    -- with an event to cancel it would not have survived
    have hleaves : (EpollCall.cancelEvent event).leaves (io'.masks fd) = none := by
      cases hc : io'.m_fdContexts[fd]? with
      | none => rw [masks_eq_none hc, EpollCall.leaves, if_pos (none_inter event)]
      | some c =>
        rw [masks_of_getElem? hc, EpollCall.leaves]
        by_contra hevent
        have hne : ¬ c.events.inter event = .NONE := fun heq => hevent (if_pos heq)
        have hgone : (c.events.without event).inter event = .NONE := by
          simp [Event.without, Event.inter, Event.NONE, Bool.and_assoc]
        simp [cancelEvent, hc, hne, trigger, FdContext.triggerEvent, hgone] at h
    exact follows_none hleaves rfl

theorem without_self (event : Event) : event.without event = .NONE := by
  simp [Event.without, Event.NONE]

theorem follows_cancelAll {r : Bool} (h : io.cancelAll fd ctl = some (r, io')) :
    io.Follows fd .cancelAll ctl io' := by
  cases ctl with
  | false =>
    rw [cancelAll_failed] at h
    obtain ⟨-, rfl⟩ := Prod.mk.inj (Option.some.inj h)
    exact follows_failed rfl
  | true =>
    unfold cancelAll at h
    cases hc : io.m_fdContexts[fd]? with
    | none =>
      simp only [hc] at h
      obtain ⟨-, rfl⟩ := Prod.mk.inj (Option.some.inj h)
      have hleaves : EpollCall.cancelAll.leaves (io.masks fd) = none := by
        rw [masks_eq_none hc, EpollCall.leaves, if_pos rfl]
      exact follows_none hleaves rfl
    | some c =>
      simp only [hc] at h
      by_cases hevents : c.events = .NONE
      · rw [if_pos hevents] at h
        obtain ⟨-, rfl⟩ := Prod.mk.inj (Option.some.inj h)
        have hleaves : EpollCall.cancelAll.leaves (io.masks fd) = none := by
          rw [masks_of_getElem? hc, EpollCall.leaves, if_pos hevents]
        exact follows_none hleaves rfl
      · rw [if_neg hevents, if_neg (by decide)] at h
        obtain ⟨⟨c₁, io₁⟩, h₁, h⟩ := Option.bind_eq_some_iff.mp h
        obtain ⟨⟨c₂, io₂⟩, h₂, h⟩ := Option.bind_eq_some_iff.mp h
        dsimp only at h
        split_ifs at h with hnone
        obtain ⟨-, rfl⟩ := Prod.mk.inj (Option.some.inj h)
        have hleaves : EpollCall.cancelAll.leaves (io.masks fd) = some .NONE := by
          rw [masks_of_getElem? hc, EpollCall.leaves, if_neg hevents]
        have hc₂ := getElem?_triggerIf (getElem?_triggerIf hc h₁) h₂
        have hmasks := masks_triggerBoth hc h₁ h₂
        have hat : io₂.masks fd = .NONE := (masks_of_getElem? hc₂).trans hnone
        rw [hmasks, Function.update_self] at hat
        rw [hat] at hmasks
        exact follows_some hleaves hmasks

theorem follows_handleReady {epollin epollout epollerr : Bool}
    (h : io.handleReady { fd, epollin, epollout, epollerr, ctl } = some io') :
    io.Follows fd (.ready epollin epollout epollerr) ctl io' := by
  unfold handleReady at h
  cases hc : io.m_fdContexts[fd]? with
  | none => simp [hc] at h
  | some c =>
    simp only [hc] at h
    set real : Event := { read := epollin || (epollerr && c.events.read)
                          write := epollout || (epollerr && c.events.write) } with hreal
    by_cases hevents : c.events.inter real = .NONE
    · rw [if_pos hevents] at h
      obtain rfl := Option.some.inj h
      have hleaves : (EpollCall.ready epollin epollout epollerr).leaves (io.masks fd) = none := by
        rw [masks_of_getElem? hc, EpollCall.leaves, if_pos hevents]
      exact follows_none hleaves rfl
    · rw [if_neg hevents] at h
      cases ctl with
      | false =>
        obtain rfl := Option.some.inj h
        exact follows_failed rfl
      | true =>
        rw [if_neg (by decide)] at h
        obtain ⟨⟨c₁, io₁⟩, h₁, h⟩ := Option.bind_eq_some_iff.mp h
        obtain ⟨⟨c₂, io₂⟩, h₂, h⟩ := Option.bind_eq_some_iff.mp h
        obtain rfl := Option.some.inj h
        have hleaves : (EpollCall.ready epollin epollout epollerr).leaves (io.masks fd) =
            some (c.events.without real) := by
          rw [masks_of_getElem? hc, EpollCall.leaves, if_neg hevents]
        exact follows_some hleaves (masks_triggerBoth hc h₁ h₂)

/-! ## A context whose events are all triggered -/

/-- The registrations that wait for an event of `fd`. -/
def heldAt (io : IOManager S F C) (fd i : Nat) : Int :=
  ((io.m_fdContexts[fd]?).map (FdContext.held i)).getD 0

end IOManager

/-! ## The answers of the kernel -/

theorem EpollCall.op_of_ne {call : EpollCall} {events left : Event}
    (hl : call.leaves events = some left) (hne : events ≠ .NONE) :
    call.op events left = if left = .NONE then .EPOLL_CTL_DEL else .EPOLL_CTL_MOD := by
  cases call with
  | addEvent event =>
    simp only [leaves] at hl
    split_ifs at hl
    obtain rfl := Option.some.inj hl
    have hunion : events.union event ≠ .NONE := by
      rcases events with ⟨_ | _, _ | _⟩ <;> simp_all [Event.union, Event.NONE]
    rw [op, if_pos hne, if_neg hunion]
  | cancelAll =>
    simp only [leaves] at hl
    split_ifs at hl
    obtain rfl := Option.some.inj hl
    rfl
  | delEvent event | cancelEvent event | ready epollin epollout epollerr =>
    exact ite_not (left = .NONE) _ _

/-- A call that is not `addEvent` comes to `epoll_ctl` only for registered events. -/
theorem EpollCall.ne_none_of_leaves {call : EpollCall} {events left : Event}
    (hl : call.leaves events = some left) (hcall : ∀ event, call ≠ .addEvent event) :
    events ≠ .NONE := by
  rintro rfl
  cases call with
  | addEvent event => exact hcall event rfl
  | delEvent event | cancelEvent event => cases hl
  | cancelAll => cases hl
  | ready epollin epollout epollerr => cases hl

theorem EpollCall.op_none {call : EpollCall} {left : Event}
    (hl : call.leaves .NONE = some left) : call.op .NONE left = .EPOLL_CTL_ADD := by
  cases call with
  | addEvent event => rfl
  | delEvent event | cancelEvent event => cases hl
  | cancelAll => cases hl
  | ready epollin epollout epollerr => cases hl

/-- A descriptor without events is not in the list. -/
def registered (events : Event) : Option Event := if events = .NONE then none else some events

namespace Process
variable {S F C : Type} {p p' : Process S F C} {fd fd' : Nat} {call : EpollCall}
  {refused : Bool}

/-- The kernel's list is that of the masks, and events are only registered on descriptors that
`FdManager` has a context for. -/
structure Agrees (p : Process S F C) : Prop where
  clean : p.fds.Clean
  accounted : IOManager.Accounted p.io
  list : p.list = registered ∘ p.io.masks
  managed : ∀ fd, p.io.masks fd ≠ .NONE → (p.fds.find fd).isSome

/-- The answer of `epoll_ctl` to a call that comes to it. -/
inductive Answer (p : Process S F C) (fd : Nat) (left : Event) (refused : Bool) :
    Option CtlError × InterestList → Prop
  | closed (hfile : p.fds.kernel.files fd = none) : Answer p fd left refused (some .EBADF, p.list)
  | refused (hr : refused = true) : Answer p fd left refused (some .refused, p.list)
  | works (hfile : p.fds.kernel.files fd ≠ none) :
      Answer p fd left refused (none, Function.update p.list fd (registered left))
  | added (hfile : p.fds.kernel.files fd ≠ none) (hadd : p.io.masks fd = .NONE) :
      Answer p fd left refused (none, Function.update p.list fd (some left))

theorem Agrees.ctl (h : p.Agrees) {left : Event} (hl : call.leaves (p.io.masks fd) = some left)
    (refused : Bool) : Answer p fd left refused (p.ctl fd call refused) := by
  have hctl : p.ctl fd call refused = epoll_ctl p.fds.kernel.files p.list
      (call.op (p.io.masks fd) left) fd left refused := by
    have hl' : call.leaves (p.io.kept fd).1 = some left := hl
    simp only [Process.ctl, hl']
    rfl
  rw [hctl]
  unfold epoll_ctl
  cases hfile : p.fds.kernel.files fd with
  | none => exact .closed hfile
  | some file =>
    have hopen : p.fds.kernel.files fd ≠ none := by simp [hfile]
    have hlist : p.list fd = registered (p.io.masks fd) := by rw [h.list]; rfl
    rw [if_neg (by simp)]
    by_cases hmask : p.io.masks fd = .NONE
    · have hin : p.list fd = none := by rw [hlist, registered, if_pos hmask]
      rw [hmask] at hl
      rw [hmask, EpollCall.op_none hl, hin]
      cases refused with
      | true => exact .refused rfl
      | false => exact .added hopen hmask
    · have hin : p.list fd = some (p.io.masks fd) := by rw [hlist, registered, if_neg hmask]
      rw [EpollCall.op_of_ne hl hmask, hin]
      by_cases hleft : left = .NONE
      · have hreg : registered left = none := if_pos hleft
        rw [if_pos hleft, ← hreg]
        exact .works hopen
      · have hreg : registered left = some left := if_neg hleft
        rw [if_neg hleft, ← hreg]
        cases refused with
        | true => exact .refused rfl
        | false => exact .works hopen

theorem update_registered (masks : Nat → Event) (fd : Nat) (left : Event) :
    Function.update (registered ∘ masks) fd (registered left) =
      registered ∘ Function.update masks fd left := (Function.comp_update _ _ _ _).symm

/-- A call keeps the two lists together. An event is registered only with a context of
`FdManager`. -/
theorem Agrees.withCtl (h : p.Agrees) {α : Type} {f : Bool → Option (α × IOManager S F C)}
    (hs : p.withCtl fd call refused f = some p')
    (hf : ∀ ctl r, f ctl = some r → IOManager.Accounted r.2 ∧ p.io.Follows fd call ctl r.2)
    (hadd : ∀ r left, f true = some r → call.leaves (p.io.masks fd) = some left →
      p.io.masks fd = .NONE → left ≠ .NONE)
    (hmanaged : ∀ left, call.leaves (p.io.masks fd) = some left → p.io.masks fd = .NONE →
      (p.fds.find fd).isSome ∨ p.fds.kernel.files fd = none) : p'.Agrees := by
  obtain ⟨r, hr, rfl⟩ := Option.map_eq_some_iff.mp hs
  obtain ⟨hacc, hfollows⟩ := hf _ r hr
  cases hl : call.leaves (p.io.masks fd) with
  | none =>
    have hctl : p.ctl fd call refused = (none, p.list) := by
      have hl' : call.leaves (p.io.kept fd).1 = none := hl
      simp only [Process.ctl, hl']
    rw [IOManager.Follows, hl] at hfollows
    refine ⟨h.clean, hacc, ?_, fun fd' hne => h.managed fd' (hfollows ▸ hne)⟩
    rw [hctl, hfollows]
    exact h.list
  | some left =>
    rw [IOManager.Follows, hl] at hfollows
    have hanswer := h.ctl hl refused
    generalize p.ctl fd call refused = answer at hanswer hr hfollows ⊢
    -- the call works: the descriptor is open, and has a context
    have hworks : p.fds.kernel.files fd ≠ none → r.2.masks = Function.update p.io.masks fd left →
        ∀ fd', r.2.masks fd' ≠ .NONE → (p.fds.find fd').isSome := by
      intro hfile hmasks fd' hne
      by_cases hfd : fd' = fd
      · rw [hfd]
        by_cases hmask : p.io.masks fd = .NONE
        · exact (hmanaged left hl hmask).resolve_right hfile
        · exact h.managed fd hmask
      · rw [hmasks, Function.update_of_ne hfd] at hne
        exact h.managed fd' hne
    cases hanswer with
    | closed | refused =>
      have hsame : r.2.masks = p.io.masks := hfollows
      exact ⟨h.clean, hacc, h.list.trans (congrArg (registered ∘ ·) hsame.symm),
        fun fd' hne => h.managed fd' (hsame ▸ hne)⟩
    | works hfile =>
      have hmasks : r.2.masks = Function.update p.io.masks fd left := hfollows
      refine ⟨h.clean, hacc, ?_, hworks hfile hmasks⟩
      rw [hmasks, ← update_registered, ← h.list]
    | added hfile hmask =>
      have hmasks : r.2.masks = Function.update p.io.masks fd left := hfollows
      have hreg : registered left = some left := if_neg (hadd r left hr hl hmask)
      refine ⟨h.clean, hacc, ?_, hworks hfile hmasks⟩
      rw [hmasks, ← update_registered, ← h.list, hreg]

/-- The calls on registered events. -/
theorem Agrees.withCtl_registered (h : p.Agrees) {α : Type}
    {f : Bool → Option (α × IOManager S F C)} (hcall : ∀ event, call ≠ .addEvent event)
    (hs : p.withCtl fd call refused f = some p')
    (hf : ∀ ctl r, f ctl = some r → IOManager.Accounted r.2 ∧ p.io.Follows fd call ctl r.2) :
    p'.Agrees := by
  have hmask : ∀ {left}, call.leaves (p.io.masks fd) = some left → p.io.masks fd ≠ .NONE :=
    fun hl => EpollCall.ne_none_of_leaves hl hcall
  exact h.withCtl hs hf (fun _ _ _ hl hnone => absurd hnone (hmask hl))
    (fun _ hl hnone => absurd hnone (hmask hl))

theorem Agrees.cancelAll (h : p.Agrees) (hs : p.cancelAll fd = some p') : p'.Agrees := by
  refine h.withCtl_registered (by simp) hs fun ctl r hr => ?_
  obtain ⟨r, io⟩ := r
  exact ⟨(h.accounted.cancelAll hr).1, IOManager.follows_cancelAll hr⟩

/-- `epoll_ctl` works for `cancelAll` on an open descriptor. -/
theorem Agrees.ctl_cancelAll (h : p.Agrees) (hfile : p.fds.kernel.files fd ≠ none) :
    (p.ctl fd .cancelAll false).1 = none := by
  cases hl : EpollCall.cancelAll.leaves (p.io.masks fd) with
  | none =>
    have hl' : EpollCall.cancelAll.leaves (p.io.kept fd).1 = none := hl
    simp only [Process.ctl, hl']
  | some left =>
    have hanswer := h.ctl hl false
    generalize p.ctl fd .cancelAll false = answer at hanswer ⊢
    cases hanswer with
    | closed hclosed => exact absurd hclosed hfile
    | refused hr => cases hr
    | works | added => rfl

theorem masks_cancelAll (h : p.Agrees) (hfile : p.fds.kernel.files fd ≠ none)
    (hs : p.cancelAll fd = some p') : p'.fds = p.fds ∧ p'.io.masks fd = .NONE := by
  obtain ⟨⟨r, io⟩, hr, rfl⟩ := Option.map_eq_some_iff.mp hs
  rw [h.ctl_cancelAll hfile] at hr
  have hfollows := IOManager.follows_cancelAll hr
  refine ⟨rfl, ?_⟩
  unfold IOManager.Follows at hfollows
  split at hfollows
  · next hl =>
    change io.masks fd = .NONE
    rw [hfollows]
    simp only [EpollCall.leaves] at hl
    split_ifs at hl with hmask
    exact hmask
  · next left hl =>
    have hleft : left = .NONE := by
      simp only [EpollCall.leaves] at hl
      split_ifs at hl
      exact (Option.some.inj hl).symm
    change io.masks fd = .NONE
    rw [hfollows]
    change Function.update p.io.masks fd left fd = .NONE
    rw [Function.update_self, hleft]

/-- A descriptor without events can be closed. -/
theorem Agrees.close_f (h : p.Agrees) (hmask : p.io.masks fd = .NONE) :
    Agrees { p with fds := p.fds.close fd, list := Function.update p.list fd none } := by
  refine ⟨h.clean.close fd, h.accounted, ?_, fun fd' hne => ?_⟩
  · have hreg : registered (p.io.masks fd) = none := if_pos hmask
    rw [← hreg, h.list]
    exact Function.update_eq_self fd (registered ∘ p.io.masks)
  · have hfd : fd' ≠ fd := by
      rintro rfl
      exact hne hmask
    change ((p.fds.close fd).find fd').isSome
    rw [(FdManager.close_ne hfd).1]
    exact h.managed fd' hne

theorem Agrees.masks_of_find (h : p.Agrees) (hfind : ¬ (p.fds.find fd).isSome) :
    p.io.masks fd = .NONE := by
  by_contra hne
  exact hfind (h.managed fd hne)

theorem Agrees.open_of_find (h : p.Agrees) (hfind : (p.fds.find fd).isSome) :
    p.fds.kernel.files fd ≠ none := by
  obtain ⟨ctx, hctx⟩ := Option.isSome_iff_exists.mp hfind
  exact Option.isSome_iff_ne_none.mp (h.clean.opened hctx)

/-- `close` up to the original call, and then that. -/
theorem Agrees.close_cases (h : p.Agrees) (hs : p.close fd = some p') :
    ∃ p₁, p₁.Agrees ∧ p₁.fds = p.fds ∧ p₁.io.masks fd = .NONE ∧
      ((p.fds.find fd).isSome ∧ p.cancelAll fd = some p₁ ∨ p.io.masks fd = .NONE ∧ p₁ = p) ∧
      p' = { p₁ with fds := p₁.fds.close fd, list := Function.update p₁.list fd none } := by
  obtain ⟨p₁, h₁, rfl⟩ := Option.map_eq_some_iff.mp hs
  refine ⟨p₁, ?_⟩
  split_ifs at h₁ with hfind
  · obtain ⟨hfds, hmask⟩ := masks_cancelAll h (h.open_of_find hfind) h₁
    exact ⟨h.cancelAll h₁, hfds, hmask, .inl ⟨hfind, h₁⟩, rfl⟩
  · obtain rfl := Option.some.inj h₁
    have hmask := h.masks_of_find hfind
    exact ⟨h, rfl, hmask, .inr ⟨hmask, rfl⟩, rfl⟩

theorem Agrees.close (h : p.Agrees) (hs : p.close fd = some p') : p'.Agrees := by
  obtain ⟨p₁, h₁, -, hmask, -, rfl⟩ := h.close_cases hs
  exact h₁.close_f hmask

theorem isSome_find_setCtx {s : FdManager} {ctx : FdCtx} (fd' : Nat)
    (hfind : (s.find fd).isSome) : ((s.setCtx fd' (some ctx)).find fd).isSome := by
  by_cases hfd : fd = fd'
  · obtain ⟨ctx', hctx'⟩ := Option.isSome_iff_exists.mp hfind
    rw [← hfd, FdManager.find_setCtx_self (FdManager.lt_length_of_find hctx')]
    rfl
  · rw [FdManager.find_setCtx_ne hfd]
    exact hfind

/-- Only `close` takes a context away. -/
theorem isSome_find_step {s s' : FdManager} {a : HookAct} (hc : s.Clean) (hs : s.step a = some s')
    (ha : ∀ fd, a ≠ .close fd) (hfind : (s.find fd).isSome) : (s'.find fd).isSome := by
  have hsocket : ∀ {fd' sock_nonblock}, (s.kernel.files fd').isNone →
      ((s.socket sock_nonblock fd').find fd).isSome := by
    intro fd' sock_nonblock hfree
    have hne : fd ≠ fd' := by
      rintro rfl
      rw [hc.find_of_free hfree] at hfind
      cases hfind
    rw [FdManager.socket, (FdManager.create_ne hne).1]
    exact hfind
  cases a with
  | socket sock_nonblock fd' =>
    obtain ⟨hfree, rfl⟩ := FdManager.step_socket hs
    exact hsocket hfree
  | accept sockfd fd' =>
    obtain ⟨hfree, rfl⟩ := FdManager.step_accept hs
    exact hsocket hfree
  | F_SETFL fd' arg =>
    obtain rfl := Option.some.inj hs
    cases hm : s.managed fd' with
    | none =>
      simp only [FdManager.fcntl, hm]
      exact hfind
    | some ctx =>
      simp only [FdManager.fcntl, hm]
      exact isSome_find_setCtx fd' hfind
  | ioctl fd' v =>
    obtain rfl := Option.some.inj hs
    cases hm : s.managed fd' with
    | none =>
      simp only [FdManager.fionbio, hm]
      exact hfind
    | some ctx =>
      simp only [FdManager.fionbio, hm]
      exact isSome_find_setCtx fd' hfind
  | close fd' => exact absurd rfl (ha fd')

theorem Agrees.hook {a : HookAct} {fds : FdManager} (h : p.Agrees) (hs : p.fds.step a = some fds)
    (ha : ∀ fd, a ≠ .close fd) : Agrees { p with fds } :=
  ⟨h.clean.step hs, h.accounted, h.list, fun fd hne =>
    isSome_find_step h.clean hs ha (h.managed fd hne)⟩

theorem step_hook {a : HookAct} (ha : ∀ fd, a ≠ .close fd) :
    p.step (.hook a) = (p.fds.step a).map fun fds => { p with fds } := by
  cases a with
  | close fd => exact absurd rfl (ha fd)
  | _ => rfl

/-- No event is added on an open descriptor that `FdManager` has no context for. -/
def Managed (p : Process S F C) : ProcessAct S F C → Prop
  | .addEvent fd _ _ _ _ => (p.fds.find fd).isSome ∨ p.fds.kernel.files fd = none
  | _ => True

instance (p : Process S F C) : (act : ProcessAct S F C) → Decidable (p.Managed act)
  | .addEvent _ _ _ _ _ => inferInstanceAs (Decidable (_ ∨ _))
  | .hook _ | .delEvent _ _ _ | .cancelEvent _ _ _ | .cancelAll _ | .ready _ _ _ _ _ =>
    isTrue trivial

theorem Agrees.step {act : ProcessAct S F C} (h : p.Agrees) (hg : p.Managed act)
    (hs : p.step act = some p') : p'.Agrees := by
  cases act with
  | hook a =>
    cases a with
    | close fd => exact h.close hs
    | socket sock_nonblock fd | accept sockfd fd | F_SETFL fd arg | ioctl fd v =>
      rw [step_hook (by simp)] at hs
      obtain ⟨fds, hfds, rfl⟩ := Option.map_eq_some_iff.mp hs
      exact h.hook hfds (by simp)
  | addEvent fd event cb caller refused =>
    refine h.withCtl hs (fun ctl r hr => ?_) (fun r left hr hl _ => ?_) fun _ _ _ => hg
    · exact ⟨(h.accounted.addEvent hr).1, IOManager.follows_addEvent hr⟩
    · rcases IOManager.addEvent_cases hr with ⟨hnone, -⟩ | ⟨left', hl', hne, -⟩
      · rw [hnone] at hl
        cases hl
      · rw [hl'] at hl
        exact Option.some.inj hl ▸ hne
  | delEvent fd event refused =>
    refine h.withCtl_registered (by simp) hs fun ctl r hr => ?_
    exact ⟨(h.accounted.delEvent hr).1, IOManager.follows_delEvent hr⟩
  | cancelEvent fd event refused =>
    refine h.withCtl_registered (by simp) hs fun ctl r hr => ?_
    exact ⟨IOManager.cancelEvent_eq hr ▸ h.accounted, IOManager.follows_cancelEvent hr⟩
  | cancelAll fd => exact h.cancelAll hs
  | ready fd epollin epollout epollerr refused =>
    have hs' : p.withCtl fd (.ready epollin epollout epollerr) refused (fun ctl =>
        (p.io.handleReady { fd, epollin, epollout, epollerr, ctl }).map fun io => ((), io)) =
          some p' := hs
    refine h.withCtl_registered (by simp) hs' fun ctl r hr => ?_
    obtain ⟨io, hready, rfl⟩ := Option.map_eq_some_iff.mp hr
    exact ⟨(h.accounted.handleReady hready).1, IOManager.follows_handleReady hready⟩

/-- What `close` leaves of a descriptor: every fiber and callback that waited for it has been
scheduled once, and nothing of it is left. -/
structure Closed (p p' : Process S F C) (fd : Nat) : Prop where
  file : p'.fds.kernel.files fd = none
  ctx : p'.fds.find fd = none
  list : p'.list fd = none
  kept : p'.io.kept fd = (.NONE, {}, {})
  woken : ∀ i < p.io.added.length, p'.io.runs i = p.io.runs i + p.io.heldAt fd i
  pending : p'.io.m_pendingEventCount = p.io.m_pendingEventCount - (p.io.masks fd).count

theorem Agrees.cancelAll_isSome (h : p.Agrees) (fd : Nat) : (p.cancelAll fd).isSome := by
  rw [Process.cancelAll, Process.withCtl, Option.isSome_map]
  exact IOManager.cancelAll_isSome h.accounted fd _

end Process
end Workplace.Coroutine
