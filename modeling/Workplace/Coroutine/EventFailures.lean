import Workplace.Coroutine.EventRuns

/-! The four operations that call `epoll_ctl`, where the call fails. `addEvent` returns an
`int`, the others a `bool`, and all four return -1. -/

namespace Workplace.Coroutine
variable {S F C : Type}

inductive EventOp (S F C : Type) where
  | addEvent (event : Event) (cb : Option C) (caller : Caller S F)
  | delEvent (event : Event)
  | cancelEvent (event : Event)
  | cancelAll

inductive OpResult where
  | int (r : Int)
  | bool (r : Bool)
  deriving DecidableEq, Repr

/-- What the caller of an operation takes for a failure. -/
def OpResult.isFailure : OpResult → Bool
  | .int r => r = -1
  | .bool r => !r

def EventOp.apply (io : IOManager S F C) (fd : Nat) (ctl : Bool) :
    EventOp S F C → Option (OpResult × IOManager S F C)
  | .addEvent event cb caller => (io.addEvent fd event cb caller ctl).map (Prod.map .int id)
  | .delEvent event => (io.delEvent fd event ctl).map (Prod.map .bool id)
  | .cancelEvent event => (io.cancelEvent fd event ctl).map (Prod.map .bool id)
  | .cancelAll => (io.cancelAll fd ctl).map (Prod.map .bool id)

namespace IOManager

/-- The mask and the two contexts of a descriptor. One that the table does not reach has no
events. -/
def kept (io : IOManager S F C) (fd : Nat) : Event × EventContext S F C × EventContext S F C :=
  ((io.m_fdContexts[fd]?).map fun c => (c.events, c.read, c.write)).getD (.NONE, {}, {})

/-- Nothing is scheduled, and every descriptor has what it had. -/
structure Untouched (io io' : IOManager S F C) : Prop where
  scheduled : io'.scheduled = io.scheduled
  kept : ∀ fd, io'.kept fd = io.kept fd
  m_pendingEventCount : io'.m_pendingEventCount = io.m_pendingEventCount

/-- An event of the descriptor was registered and no longer is. -/
def Removed (io io' : IOManager S F C) (fd : Nat) : Prop :=
  (io.kept fd).1.without (io'.kept fd).1 ≠ .NONE

end IOManager

namespace EventOp

/-- The operation is to delete an event that is registered, and calls `epoll_ctl` for it. -/
def deletes (io : IOManager S F C) (fd : Nat) : EventOp S F C → Bool
  | .addEvent .. => false
  | .delEvent event | .cancelEvent event => (io.kept fd).1.inter event ≠ .NONE
  | .cancelAll => (io.kept fd).1 ≠ .NONE

structure ReportsFailure (io : IOManager S F C) (fd : Nat) (ctl : Bool) (op : EventOp S F C) :
    Prop where
  failed : ctl = false → ∀ r io', op.apply io fd ctl = some (r, io') →
    r.isFailure = true ∧ io.Untouched io'
  removed : ∀ io', op.apply io fd ctl = some (.bool true, io') → io.Removed io' fd

end EventOp

namespace IOManager
variable {io io' : IOManager S F C} {c : FdContext S F C} {fd : Nat} {event : Event}

theorem Untouched.refl (io : IOManager S F C) : io.Untouched io := ⟨rfl, fun _ => rfl, rfl⟩

theorem kept_of_getElem? (hc : io.m_fdContexts[fd]? = some c) :
    io.kept fd = (c.events, c.read, c.write) := by
  rw [kept, hc]
  rfl

theorem kept_of_getElem?_eq_none (hc : io.m_fdContexts[fd]? = none) :
    io.kept fd = (.NONE, {}, {}) := by
  rw [kept, hc]
  rfl

/-- A larger table has contexts without events at its end. -/
theorem Untouched.contextResize {size : Nat} (hsize : io.m_fdContexts.length ≤ size) :
    io.Untouched (io.contextResize size) := by
  refine ⟨rfl, fun fd => ?_, rfl⟩
  simp only [IOManager.kept, IOManager.contextResize]
  rw [List.take_of_length_le hsize, List.getElem?_append]
  split_ifs with hlt
  · rfl
  · rw [List.getElem?_eq_none (not_lt.mp hlt), List.getElem?_map, Option.map_map]
    cases (List.range' io.m_fdContexts.length (size - io.m_fdContexts.length))[fd -
      io.m_fdContexts.length]? <;> rfl

/-! ## A failed call -/

theorem addEvent_failed {cb : Option C} {caller : Caller S F} {r : Int}
    (h : io.addEvent fd event cb caller false = some (r, io')) : r = -1 ∧ io.Untouched io' := by
  have hgrown : io.Untouched
      (if fd < io.m_fdContexts.length then io else io.contextResize (fd * 3 / 2)) := by
    split_ifs with hlt
    · exact .refl io
    · exact .contextResize (by omega)
  unfold addEvent at h
  generalize (if fd < io.m_fdContexts.length then io
    else io.contextResize (fd * 3 / 2)) = io₁ at h hgrown
  cases hc : io₁.m_fdContexts[fd]? with
  | none => simp [hc] at h
  | some c =>
    simp only [hc, addEventTo, if_true, ite_self, Option.some.injEq, Prod.mk.injEq] at h
    obtain ⟨rfl, rfl⟩ := h
    exact ⟨rfl, hgrown⟩

theorem delEvent_failed (io : IOManager S F C) (fd : Nat) (event : Event) :
    io.delEvent fd event false = some (decide ((io.kept fd).1.inter event ≠ .NONE), io) := by
  unfold delEvent
  cases hc : io.m_fdContexts[fd]? with
  | none =>
    rw [kept_of_getElem?_eq_none hc]
    rfl
  | some c =>
    rw [kept_of_getElem? hc]
    dsimp only
    split_ifs with hevent hctl
    · rw [decide_eq_false (not_not.mpr hevent)]
    · rw [decide_eq_true hevent]
    · exact absurd rfl hctl

/-- Up to `epoll_ctl`, `cancelEvent` is `delEvent`. -/
theorem cancelEvent_failed (io : IOManager S F C) (fd : Nat) (event : Event) :
    io.cancelEvent fd event false = io.delEvent fd event false := by
  unfold cancelEvent delEvent
  cases io.m_fdContexts[fd]? with
  | none => rfl
  | some c =>
    dsimp only
    split_ifs with _ hctl
    · rfl
    · rfl
    · exact absurd rfl hctl

theorem cancelAll_failed (io : IOManager S F C) (fd : Nat) :
    io.cancelAll fd false = some (decide ((io.kept fd).1 ≠ .NONE), io) := by
  unfold cancelAll
  cases hc : io.m_fdContexts[fd]? with
  | none =>
    rw [kept_of_getElem?_eq_none hc]
    rfl
  | some c =>
    rw [kept_of_getElem? hc]
    dsimp only
    split_ifs with hevents hctl
    · rw [decide_eq_false (not_not.mpr hevents)]
    · rw [decide_eq_true hevents]
    · exact absurd rfl hctl

/-! ## A successful call -/

theorem kept_setContext (hlt : fd < io.m_fdContexts.length) (c : FdContext S F C) :
    (io.setContext fd c).kept fd = (c.events, c.read, c.write) :=
  kept_of_getElem? (List.getElem?_set_self hlt)

theorem without_none (a : Event) : a.without .NONE = a := by
  simp [Event.without, Event.NONE]

theorem without_deleted {isRead : Bool} (hbit : c.bit isRead = true) :
    c.events.without (c.deleted isRead).events ≠ .NONE := by
  cases isRead with
  | true =>
    have hread : c.events.read = true := hbit
    simp [FdContext.deleted, Event.without, Event.NONE, hread]
  | false =>
    have hwrite : c.events.write = true := hbit
    simp [FdContext.deleted, Event.without, Event.NONE, hwrite]

theorem delEvent_removes (h : io.delEvent fd event true = some (true, io')) :
    io.Removed io' fd := by
  unfold delEvent at h
  cases hc : io.m_fdContexts[fd]? with
  | none => simp [hc] at h
  | some c =>
    simp only [hc] at h
    split_ifs at h with hevent hctl
    · cases (Prod.mk.inj (Option.some.inj h)).1
    · exact hctl.elim
    · cases hctx : ({ c with events := c.events.without event } :
          FdContext S F C).getEventContext event with
      | none => simp [hctx] at h
      | some ctx =>
        obtain ⟨isRead, rfl, -⟩ := FdContext.getEventContext_eq_some hctx
        simp only [hctx, FdContext.resetEventContext_eq, Option.some.injEq, Prod.mk.injEq,
          true_and] at h
        subst h
        rw [FdContext.inter_eq_none, Bool.not_eq_false] at hevent
        have hkept : (io.setContext fd (c.deleted isRead)).kept fd =
            ((c.deleted isRead).events, _, _) :=
          kept_setContext (List.getElem?_eq_some_iff.mp hc).1 _
        change (io.kept fd).1.without ((io.setContext fd (c.deleted isRead)).kept fd).1 ≠ _
        rw [kept_of_getElem? hc, hkept]
        exact without_deleted hevent

theorem getElem?_triggerIf {cond : Bool} {c' : FdContext S F C}
    (hc : io.m_fdContexts[fd]? = some c) (h : triggerIf cond io fd c event = some (c', io')) :
    io'.m_fdContexts[fd]? = some c' := by
  unfold triggerIf at h
  split_ifs at h
  · obtain ⟨⟨c₁, tasks⟩, -, heq⟩ := Option.map_eq_some_iff.mp h
    obtain ⟨rfl, rfl⟩ := Prod.mk.inj heq
    exact List.getElem?_set_self (List.getElem?_eq_some_iff.mp hc).1
  · obtain ⟨rfl, rfl⟩ := Prod.mk.inj (Option.some.inj h)
    exact hc

theorem cancelAll_removes (h : io.cancelAll fd true = some (true, io')) :
    io.Removed io' fd := by
  unfold cancelAll at h
  cases hc : io.m_fdContexts[fd]? with
  | none => simp [hc] at h
  | some c =>
    simp only [hc] at h
    split_ifs at h with hevents hctl
    · cases (Prod.mk.inj (Option.some.inj h)).1
    · exact hctl.elim
    · obtain ⟨⟨c₁, io₁⟩, h₁, h⟩ := Option.bind_eq_some_iff.mp h
      obtain ⟨⟨c₂, io₂⟩, h₂, h⟩ := Option.bind_eq_some_iff.mp h
      dsimp only at h
      split_ifs at h with hnone
      obtain rfl := (Prod.mk.inj (Option.some.inj h)).2
      have hc₂ := getElem?_triggerIf (getElem?_triggerIf hc h₁) h₂
      rw [Removed, kept_of_getElem? hc, kept_of_getElem? hc₂, hnone]
      change c.events.without .NONE ≠ .NONE
      rwa [without_none]

end IOManager

namespace EventOp
variable {io io' : IOManager S F C} {fd : Nat}

/-- What a failed `epoll_ctl` leads to: an operation that deletes says that it has done so. -/
theorem apply_failed {op : EventOp S F C} {r : OpResult} (h : op.apply io fd false = some (r, io')) :
    r.isFailure = !op.deletes io fd ∧ io.Untouched io' := by
  cases op with
  | addEvent event cb caller =>
    obtain ⟨⟨r₁, io₁⟩, hadd, heq⟩ := Option.map_eq_some_iff.mp h
    obtain ⟨rfl, rfl⟩ := Prod.mk.inj heq
    obtain ⟨rfl, huntouched⟩ := IOManager.addEvent_failed hadd
    exact ⟨rfl, huntouched⟩
  | delEvent event =>
    rw [apply, IOManager.delEvent_failed] at h
    obtain ⟨rfl, rfl⟩ := Prod.mk.inj (Option.some.inj h)
    exact ⟨rfl, .refl io⟩
  | cancelEvent event =>
    rw [apply, IOManager.cancelEvent_failed, IOManager.delEvent_failed] at h
    obtain ⟨rfl, rfl⟩ := Prod.mk.inj (Option.some.inj h)
    exact ⟨rfl, .refl io⟩
  | cancelAll =>
    rw [apply, IOManager.cancelAll_failed] at h
    obtain ⟨rfl, rfl⟩ := Prod.mk.inj (Option.some.inj h)
    exact ⟨rfl, .refl io⟩

theorem apply_succeeded {op : EventOp S F C} (h : op.apply io fd true = some (.bool true, io')) :
    io.Removed io' fd := by
  cases op with
  | addEvent event cb caller =>
    obtain ⟨⟨r₁, io₁⟩, -, heq⟩ := Option.map_eq_some_iff.mp h
    cases (Prod.mk.inj heq).1
  | delEvent event =>
    obtain ⟨⟨r₁, io₁⟩, hdel, heq⟩ := Option.map_eq_some_iff.mp h
    cases heq
    exact IOManager.delEvent_removes hdel
  | cancelEvent event =>
    obtain ⟨⟨r₁, io₁⟩, hcancel, heq⟩ := Option.map_eq_some_iff.mp h
    cases heq
    cases (IOManager.cancelEvent_cases hcancel).2 rfl
  | cancelAll =>
    obtain ⟨⟨r₁, io₁⟩, hcancel, heq⟩ := Option.map_eq_some_iff.mp h
    cases heq
    exact IOManager.cancelAll_removes hcancel

/-- An operation that is to delete something gets to its `epoll_ctl`. -/
theorem exists_apply_failed {op : EventOp S F C} (hdeletes : op.deletes io fd = true) :
    ∃ r, op.apply io fd false = some (r, io) := by
  cases op with
  | addEvent event cb caller => cases hdeletes
  | delEvent event => exact ⟨_, by rw [apply, IOManager.delEvent_failed]; rfl⟩
  | cancelEvent event =>
    exact ⟨_, by rw [apply, IOManager.cancelEvent_failed, IOManager.delEvent_failed]; rfl⟩
  | cancelAll => exact ⟨_, by rw [apply, IOManager.cancelAll_failed]; rfl⟩

/-- **A failure is reported**, and `true` only returned for an event that was removed, except
where `epoll_ctl` fails in one of the operations that delete. -/
theorem reportsFailure_iff (io : IOManager S F C) (fd : Nat) (ctl : Bool) (op : EventOp S F C) :
    op.ReportsFailure io fd ctl ↔ ¬ (ctl = false ∧ op.deletes io fd = true) := by
  constructor
  · rintro h ⟨rfl, hdeletes⟩
    obtain ⟨r, hr⟩ := exists_apply_failed hdeletes
    have hfailure := (h.failed rfl r io hr).1
    rw [(apply_failed hr).1, hdeletes] at hfailure
    cases hfailure
  · intro h
    cases ctl with
    | false =>
      have hdeletes : op.deletes io fd = false := Bool.eq_false_of_not_eq_true fun hd => h ⟨rfl, hd⟩
      refine ⟨fun _ r io' hr => ?_, fun io' hr => ?_⟩
      · obtain ⟨hfailure, huntouched⟩ := apply_failed hr
        rw [hdeletes] at hfailure
        exact ⟨hfailure, huntouched⟩
      · have hfailure := (apply_failed hr).1
        rw [hdeletes] at hfailure
        cases hfailure
    | true => exact ⟨nofun, fun io' hr => apply_succeeded hr⟩

/-- A descriptor that `addEvent` has registered for reading, and an `epoll_ctl` that fails. -/
theorem delEvent_reports_success : ¬ ∀ (io : IOManager Unit Unit Unit) (fd : Nat) (ctl : Bool)
    (op : EventOp Unit Unit Unit), op.ReportsFailure io fd ctl := by
  intro h
  obtain ⟨io, -, hregistered⟩ : ∃ io : IOManager Unit Unit Unit,
      IOManager.init.addEvent 5 .READ (some ()) ⟨(), (), true⟩ true = some (0, io) ∧
        (EventOp.delEvent .READ : EventOp Unit Unit Unit).deletes io 5 = true :=
    ⟨_, rfl, by decide⟩
  exact (reportsFailure_iff io 5 false _).mp (h io 5 false _) ⟨rfl, hregistered⟩

end EventOp
end Workplace.Coroutine
