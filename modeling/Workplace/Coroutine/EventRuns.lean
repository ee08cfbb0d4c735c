import Workplace.Coroutine.Event
import Workplace.Lib.Runs

/-! Sequences of operations on the events of one `IOManager`: the counter, the contexts and
the tasks that the events schedule. -/

namespace Workplace.Coroutine.IOManager
open Workplace.Lib FdContext
variable {S F C : Type} {io io' : IOManager S F C} {c c' : FdContext S F C} {fd : Nat}

def total (io : IOManager S F C) (f : FdContext S F C → Int) : Int :=
  (io.m_fdContexts.map f).sum

def held (io : IOManager S F C) (i : Nat) : Int := io.total (FdContext.held i)

def runs (io : IOManager S F C) (i : Nat) : Int := FdContext.runs i io.scheduled

theorem total_setContext (h : io.m_fdContexts[fd]? = some c) (f : FdContext S F C → Int) :
    (io.setContext fd c').total f = io.total f - f c + f c' := by
  obtain ⟨hlt, hc⟩ := List.getElem?_eq_some_iff.mp h
  rw [total, setContext, List.map_set, List.sum_set', dif_pos (by simpa using hlt)]
  simp only [List.getElem_map, hc, total]
  omega

theorem runs_append (i : Nat) (as bs : List (Scheduled S F C)) :
    FdContext.runs i (as ++ bs) = FdContext.runs i as + FdContext.runs i bs := by
  simp only [FdContext.runs, List.countP_append, Nat.cast_add]

theorem runs_nonneg (i : Nat) (as : List (Scheduled S F C)) : 0 ≤ FdContext.runs i as :=
  Int.natCast_nonneg _

theorem held_nonneg (io : IOManager S F C) (i : Nat) : 0 ≤ io.held i := by
  refine List.sum_nonneg fun x hx => ?_
  obtain ⟨c, -, rfl⟩ := List.mem_map.mp hx
  simp only [FdContext.held, slotHeld]
  split_ifs <;> omega

/-! ## The invariant -/

structure Accounted (io : IOManager S F C) : Prop where
  good : ∀ c ∈ io.m_fdContexts, Good io.added c
  pending : io.m_pendingEventCount = io.total fun c => c.events.count
  -- a registration holds its bit or has been scheduled, and at most one of the two
  once : ∀ i, io.held i + io.runs i ≤ 1
  fresh : ∀ i, io.added.length ≤ i → io.held i + io.runs i = 0
  tasks : ∀ k ∈ io.scheduled, ∃ i, k.added = some i ∧ io.added[i]? = some (k.scheduler, k.task)

/-- What an operation other than `delEvent` does to the registrations so far: each keeps its
bit, or gives it up and is scheduled. -/
structure Moves (io io' : IOManager S F C) : Prop where
  added : io.added <+: io'.added
  sum : ∀ i < io.added.length, io'.held i + io'.runs i = io.held i + io.runs i
  runs : ∀ i, io.runs i ≤ io'.runs i

structure Drops (io io' : IOManager S F C) : Prop where
  added : io.added <+: io'.added
  held : ∀ i, io'.held i ≤ io.held i
  runs : ∀ i, io'.runs i = io.runs i

theorem Moves.refl (io : IOManager S F C) : Moves io io :=
  ⟨List.prefix_rfl, fun _ _ => rfl, fun _ => le_rfl⟩

theorem Moves.trans {io₂ : IOManager S F C} (h : Moves io io') (h' : Moves io' io₂) :
    Moves io io₂ := by
  refine ⟨h.added.trans h'.added, fun i hi => ?_, fun i => (h.runs i).trans (h'.runs i)⟩
  rw [h'.sum i (hi.trans_le h.added.length_le), h.sum i hi]

theorem Accounted.mem (h : Accounted io) (hc : io.m_fdContexts[fd]? = some c) :
    Good io.added c := h.good c (List.mem_of_getElem? hc)

theorem Accounted.good_setContext (h : Accounted io) (hgood : Good io.added c') :
    ∀ d ∈ (io.setContext fd c').m_fdContexts, Good io.added d := by
  intro d hd
  rcases List.mem_or_eq_of_mem_set hd with hd | rfl
  · exact h.good d hd
  · exact hgood

/-- The counter goes down by one with the bit that is cleared. -/
theorem Accounted.pending_setContext (h : Accounted io) (hc : io.m_fdContexts[fd]? = some c)
    (hcount : c'.events.count = c.events.count - 1) :
    io.m_pendingEventCount - 1 = (io.setContext fd c').total fun c => c.events.count := by
  rw [total_setContext hc fun c => c.events.count, hcount, ← h.pending]
  omega

theorem Accounted.trigger (h : Accounted io) (hc : io.m_fdContexts[fd]? = some c)
    {event : Event} (ht : io.trigger fd c event = some (c', io')) :
    Accounted io' ∧ Moves io io' ∧ io'.m_fdContexts[fd]? = some c' := by
  rw [IOManager.trigger, Option.map_eq_some_iff] at ht
  obtain ⟨⟨c₁, tasks⟩, ht, heq⟩ := ht
  obtain ⟨rfl, rfl⟩ := Prod.mk.inj heq
  obtain ⟨hgood, hcount, hheld, htasks⟩ := triggerEvent_spec (h.mem hc) ht
  set io₁ : IOManager S F C := { io.setContext fd c₁ with
    m_pendingEventCount := io.m_pendingEventCount - 1
    scheduled := io.scheduled ++ tasks }
  have hruns (i : Nat) : io₁.runs i = io.runs i + FdContext.runs i tasks :=
    runs_append i io.scheduled tasks
  have hsum (i : Nat) : io₁.held i + io₁.runs i = io.held i + io.runs i := by
    have htotal : io₁.held i = io.held i - c.held i + c₁.held i :=
      total_setContext hc (FdContext.held i)
    have := hheld i
    rw [hruns, htotal]
    omega
  refine ⟨⟨h.good_setContext hgood, h.pending_setContext hc hcount, fun i => ?_,
    fun i hi => ?_, fun k hk => ?_⟩, ⟨List.prefix_rfl, fun i _ => hsum i, fun i => ?_⟩, ?_⟩
  · exact hsum i ▸ h.once i
  · exact hsum i ▸ h.fresh i hi
  · rcases List.mem_append.mp hk with hk | hk
    · exact h.tasks k hk
    · exact htasks k hk
  · have := runs_nonneg i tasks
    rw [hruns]
    omega
  · exact List.getElem?_set_self (List.getElem?_eq_some_iff.mp hc).1

theorem Accounted.triggerIf (h : Accounted io) (hc : io.m_fdContexts[fd]? = some c)
    {event : Event} {cond : Bool} (ht : triggerIf cond io fd c event = some (c', io')) :
    Accounted io' ∧ Moves io io' ∧ io'.m_fdContexts[fd]? = some c' := by
  rw [IOManager.triggerIf] at ht
  split_ifs at ht
  · exact h.trigger hc ht
  · obtain ⟨rfl, rfl⟩ := Prod.mk.inj (Option.some.inj ht)
    exact ⟨h, .refl io, hc⟩

/-- A descriptor that is ready, or cancelled, for reading and writing. -/
theorem Accounted.triggerBoth (h : Accounted io) (hc : io.m_fdContexts[fd]? = some c)
    {read write : Bool} {c₂ : FdContext S F C} {io₁ io₂ : IOManager S F C}
    (hread : IOManager.triggerIf read io fd c .READ = some (c', io₁))
    (hwrite : IOManager.triggerIf write io₁ fd c' .WRITE = some (c₂, io₂)) :
    Accounted io₂ ∧ Moves io io₂ := by
  obtain ⟨h₁, hmoves₁, hc₁⟩ := h.triggerIf hc hread
  obtain ⟨h₂, hmoves₂, -⟩ := h₁.triggerIf hc₁ hwrite
  exact ⟨h₂, hmoves₁.trans hmoves₂⟩

/-! ## The operations -/

/-- `cancelEvent` clears the bit before `triggerEvent` asserts it, so it changes nothing
where it survives. -/
theorem cancelEvent_cases {event : Event} {ctl r : Bool}
    (h : io.cancelEvent fd event ctl = some (r, io')) : io' = io ∧ (r = true → ctl = false) := by
  rw [cancelEvent] at h
  rcases hc : io.m_fdContexts[fd]? with _ | c
  · simp only [hc, Option.some.injEq, Prod.mk.injEq] at h
    exact ⟨h.2.symm, fun hr => nomatch h.1.trans hr⟩
  simp only [hc] at h
  split_ifs at h with hevent hctl
  · obtain ⟨rfl, rfl⟩ := Prod.mk.inj (Option.some.inj h)
    exact ⟨rfl, nofun⟩
  · exact ⟨(Prod.mk.inj (Option.some.inj h)).2.symm, fun _ => hctl⟩
  · have hnone : (c.events.without event).inter event = .NONE := by
      simp [Event.without, Event.inter, Event.NONE, Bool.and_assoc]
    simp [trigger, triggerEvent, hnone] at h

theorem cancelEvent_eq {event : Event} {ctl r : Bool}
    (h : io.cancelEvent fd event ctl = some (r, io')) : io' = io := (cancelEvent_cases h).1

theorem Accounted.cancelAll (h : Accounted io) {ctl r : Bool}
    (hs : io.cancelAll fd ctl = some (r, io')) : Accounted io' ∧ Moves io io' := by
  rw [IOManager.cancelAll] at hs
  rcases hc : io.m_fdContexts[fd]? with _ | c
  · simp only [hc, Option.some.injEq, Prod.mk.injEq] at hs
    exact hs.2 ▸ ⟨h, .refl io⟩
  simp only [hc] at hs
  split_ifs at hs
  · exact (Prod.mk.inj (Option.some.inj hs)).2 ▸ ⟨h, .refl io⟩
  · exact (Prod.mk.inj (Option.some.inj hs)).2 ▸ ⟨h, .refl io⟩
  · simp only [Option.bind_eq_bind, Option.bind_eq_some_iff, Prod.exists] at hs
    obtain ⟨c₁, io₁, h₁, c₂, io₂, h₂, hs⟩ := hs
    split_ifs at hs
    exact (Prod.mk.inj (Option.some.inj hs)).2 ▸ h.triggerBoth hc h₁ h₂

theorem Accounted.handleReady (h : Accounted io) {r : Ready} (hs : io.handleReady r = some io') :
    Accounted io' ∧ Moves io io' := by
  rw [IOManager.handleReady] at hs
  rcases hc : io.m_fdContexts[r.fd]? with _ | c
  · simp [hc] at hs
  simp only [hc] at hs
  split_ifs at hs
  · exact Option.some.inj hs ▸ ⟨h, .refl io⟩
  · exact Option.some.inj hs ▸ ⟨h, .refl io⟩
  · simp only [Option.bind_eq_bind, Option.bind_eq_some_iff, Prod.exists] at hs
    obtain ⟨c₁, io₁, h₁, c₂, io₂, h₂, hs⟩ := hs
    exact Option.some.inj hs ▸ h.triggerBoth hc h₁ h₂

theorem Accounted.handleBatch (h : Accounted io) {batch : List (Option Ready)}
    (hs : io.handleBatch batch = some io') : Accounted io' ∧ Moves io io' := by
  induction batch generalizing io with
  | nil => exact Option.some.inj hs ▸ ⟨h, .refl io⟩
  | cons r batch ih =>
    rcases r with _ | r
    · exact ih h hs
    · obtain ⟨io₁, h₁, hs⟩ := Option.bind_eq_some_iff.mp hs
      obtain ⟨ha₁, hm₁⟩ := h.handleReady h₁
      obtain ⟨ha, hm⟩ := ih ha₁ hs
      exact ⟨ha, hm₁.trans hm⟩

theorem total_contextResize {size : Nat} (hsize : io.m_fdContexts.length ≤ size)
    {f : FdContext S F C → Int} (hf : ∀ i, f { fd := i } = 0) :
    (io.contextResize size).total f = io.total f := by
  have hzero : (((List.range' io.m_fdContexts.length (size - io.m_fdContexts.length)).map
      fun i => ({ fd := i } : FdContext S F C)).map f).sum = 0 := by
    refine List.sum_eq_zero fun x hx => ?_
    simp only [List.map_map, List.mem_map, Function.comp_apply] at hx
    obtain ⟨i, -, rfl⟩ := hx
    exact hf i
  rw [total, contextResize, List.map_append, List.sum_append, hzero, add_zero,
    List.take_of_length_le hsize, total]

theorem Accounted.contextResize (h : Accounted io) {size : Nat}
    (hsize : io.m_fdContexts.length ≤ size) :
    Accounted (io.contextResize size) ∧ Moves io (io.contextResize size) := by
  have hheld (i : Nat) : (io.contextResize size).held i = io.held i :=
    total_contextResize hsize fun _ => rfl
  refine ⟨⟨fun c hc => ?_, ?_, fun i => ?_, fun i hi => ?_, h.tasks⟩, List.prefix_rfl,
    fun i _ => ?_, fun _ => le_rfl⟩
  · rcases List.mem_append.mp hc with hc | hc
    · exact h.good c (List.mem_of_mem_take hc)
    · obtain ⟨i, -, rfl⟩ := List.mem_map.mp hc
      exact ⟨rfl, rfl⟩
  · rw [total_contextResize hsize fun _ => rfl]
    exact h.pending
  · rw [hheld]
    exact h.once i
  · rw [hheld]
    exact h.fresh i hi
  · rw [hheld]
    rfl

theorem addEventTo_cases {event : Event} {cb : Option C} {caller : Caller S F} {ctl : Bool}
    {r : Int} (h : io.addEventTo fd c event cb caller ctl = some (r, io')) :
    r = -1 ∧ io' = io ∨ r = 0 ∧ ∃ isRead, event = .only isRead ∧ c.bit isRead = false ∧
      io' = { io.setContext fd (c.registered isRead (caller.context cb io.added.length)) with
        m_pendingEventCount := io.m_pendingEventCount + 1
        added := io.added ++ [(caller.scheduler, caller.task cb)] } := by
  rw [addEventTo] at h
  by_cases hb : c.events.inter event ≠ .NONE
  · rw [if_pos hb] at h
    obtain ⟨rfl, rfl⟩ := Prod.mk.inj (Option.some.inj h)
    exact .inl ⟨rfl, rfl⟩
  rw [if_neg hb] at h
  by_cases hctl : ctl = false
  · rw [if_pos hctl] at h
    obtain ⟨rfl, rfl⟩ := Prod.mk.inj (Option.some.inj h)
    exact .inl ⟨rfl, rfl⟩
  rw [if_neg hctl] at h
  rcases hctx : ({ c with events := c.events.union event } : FdContext S F C).getEventContext
      event with _ | ctx
  · simp [hctx] at h
  obtain ⟨isRead, rfl, -⟩ := getEventContext_eq_some hctx
  simp only [hctx] at h
  split_ifs at h
  obtain ⟨rfl, rfl⟩ := Prod.mk.inj (Option.some.inj h)
  refine .inr ⟨rfl, isRead, rfl, inter_eq_none.mp (not_not.mp hb), ?_⟩
  rw [setEventContext_eq]
  rfl

theorem held_registered (h : Accounted io) (hc : io.m_fdContexts[fd]? = some c) {isRead : Bool}
    (hb : c.bit isRead = false) (caller : Caller S F) (cb : Option C) (i : Nat) :
    (io.setContext fd (c.registered isRead (caller.context cb io.added.length))).held i =
      io.held i + if io.added.length = i then 1 else 0 := by
  refine (total_setContext hc (FdContext.held i)).trans ?_
  rw [(registered_spec (h.mem hc) hb caller cb).2.2 i]
  show io.held i - c.held i + _ = _
  omega

theorem Accounted.addEventTo (h : Accounted io) (hc : io.m_fdContexts[fd]? = some c)
    {event : Event} {cb : Option C} {caller : Caller S F} {ctl : Bool} {r : Int}
    (hs : io.addEventTo fd c event cb caller ctl = some (r, io')) :
    Accounted io' ∧ Moves io io' := by
  obtain ⟨-, rfl⟩ | ⟨-, isRead, -, hb, heq⟩ := addEventTo_cases hs
  · exact ⟨h, .refl _⟩
  obtain ⟨hgood, hcount, -⟩ := registered_spec (h.mem hc) hb caller cb
  set c₁ := c.registered isRead (caller.context cb io.added.length)
  have hruns (i : Nat) : io'.runs i = io.runs i := by rw [heq]; rfl
  have hheld' (i : Nat) : io'.held i = io.held i + if io.added.length = i then 1 else 0 := by
    rw [heq]
    exact held_registered h hc hb caller cb i
  have hfresh := h.fresh io.added.length le_rfl
  refine ⟨⟨fun d hd => ?_, ?_, fun i => ?_, fun i hi => ?_, fun k hk => ?_⟩,
    ⟨heq ▸ List.prefix_append _ _, fun i hi => ?_, fun i => (hruns i).ge⟩⟩
  · rw [heq] at hd ⊢
    rcases List.mem_or_eq_of_mem_set hd with hd | rfl
    · exact (h.good d hd).mono _
    · exact hgood
  · have htotal : (io.setContext fd c₁).total _ = _ :=
      total_setContext hc fun c => c.events.count
    rw [heq]
    refine .trans ?_ htotal.symm
    rw [hcount, ← h.pending]
    show io.m_pendingEventCount + 1 = _
    omega
  · rw [hruns, hheld']
    split_ifs with hi
    · rw [← hi]
      omega
    · have := h.once i
      omega
  · rw [heq] at hi
    have hi' : io.added.length + 1 ≤ i := by simpa using hi
    rw [hruns, hheld', if_neg (by omega)]
    have := h.fresh i (by omega)
    omega
  · rw [heq] at hk ⊢
    obtain ⟨i, hi, ha⟩ := h.tasks k hk
    refine ⟨i, hi, ?_⟩
    rw [List.getElem?_append_left (List.getElem?_eq_some_iff.mp ha).1, ha]
  · rw [hruns, hheld', if_neg (by omega)]
    omega

theorem Accounted.resized (h : Accounted io) (fd : Nat) :
    Accounted (if fd < io.m_fdContexts.length then io else io.contextResize (fd * 3 / 2)) ∧
      Moves io (if fd < io.m_fdContexts.length then io else io.contextResize (fd * 3 / 2)) := by
  split_ifs with hlt
  · exact ⟨h, .refl io⟩
  · exact h.contextResize (by omega)

theorem Accounted.addEvent (h : Accounted io) {event : Event} {cb : Option C}
    {caller : Caller S F} {ctl : Bool} {r : Int}
    (hs : io.addEvent fd event cb caller ctl = some (r, io')) :
    Accounted io' ∧ Moves io io' := by
  obtain ⟨h₁, hm₁⟩ := h.resized fd
  rw [IOManager.addEvent] at hs
  generalize (if fd < io.m_fdContexts.length then io
    else io.contextResize (fd * 3 / 2)) = io₁ at hs h₁ hm₁
  rcases hc : io₁.m_fdContexts[fd]? with _ | c
  · simp [hc] at hs
  · simp only [hc] at hs
    obtain ⟨h₂, hm₂⟩ := h₁.addEventTo hc hs
    exact ⟨h₂, hm₁.trans hm₂⟩

theorem addEvent_success {event : Event} {cb : Option C} {caller : Caller S F} {ctl : Bool}
    (h : Accounted io) (hs : io.addEvent fd event cb caller ctl = some (0, io')) :
    io'.held io.added.length = 1 ∧
      io'.added = io.added ++ [(caller.scheduler, caller.task cb)] := by
  obtain ⟨h₁, -⟩ := h.resized fd
  have hadded : (if fd < io.m_fdContexts.length then io
      else io.contextResize (fd * 3 / 2)).added = io.added := by
    split_ifs <;> rfl
  rw [IOManager.addEvent] at hs
  generalize (if fd < io.m_fdContexts.length then io
    else io.contextResize (fd * 3 / 2)) = io₁ at hs h₁ hadded
  rcases hc : io₁.m_fdContexts[fd]? with _ | c
  · simp [hc] at hs
  simp only [hc] at hs
  obtain ⟨hr, -⟩ | ⟨-, isRead, -, hb, rfl⟩ := addEventTo_cases hs
  · omega
  rw [← hadded]
  refine ⟨?_, rfl⟩
  refine (held_registered h₁ hc hb caller cb _).trans ?_
  have hfresh := h₁.fresh io₁.added.length le_rfl
  have := held_nonneg io₁ io₁.added.length
  have := runs_nonneg io₁.added.length io₁.scheduled
  simp only [IOManager.runs] at hfresh
  rw [if_pos rfl]
  omega

theorem Accounted.delEvent (h : Accounted io) {event : Event} {ctl r : Bool}
    (hs : io.delEvent fd event ctl = some (r, io')) : Accounted io' ∧ Drops io io' := by
  have hsame : Accounted io ∧ Drops io io := ⟨h, List.prefix_rfl, fun _ => le_rfl, fun _ => rfl⟩
  rw [IOManager.delEvent] at hs
  rcases hc : io.m_fdContexts[fd]? with _ | c
  · simp only [hc, Option.some.injEq, Prod.mk.injEq] at hs
    exact hs.2 ▸ hsame
  simp only [hc] at hs
  split_ifs at hs with hb
  · exact (Prod.mk.inj (Option.some.inj hs)).2 ▸ hsame
  · exact (Prod.mk.inj (Option.some.inj hs)).2 ▸ hsame
  rcases hctx : ({ c with events := c.events.without event } : FdContext S F C).getEventContext
      event with _ | ctx
  · simp [hctx] at hs
  obtain ⟨isRead, rfl, -⟩ := getEventContext_eq_some hctx
  rw [inter_eq_none, Bool.not_eq_false] at hb
  obtain ⟨hgood, hcount, hheld⟩ := deleted_spec (h.mem hc) hb
  simp only [hctx, resetEventContext_eq, Option.some.injEq, Prod.mk.injEq] at hs
  obtain ⟨-, rfl⟩ := hs
  set io₁ : IOManager S F C := { io.setContext fd (c.deleted isRead) with
    m_pendingEventCount := io.m_pendingEventCount - 1 }
  have hle (i : Nat) : io₁.held i ≤ io.held i := by
    have htotal : io₁.held i = io.held i - c.held i + (c.deleted isRead).held i :=
      total_setContext hc (FdContext.held i)
    have := hheld i
    have := slotHeld_nonneg i true (c.slot isRead)
    omega
  refine ⟨⟨h.good_setContext hgood, h.pending_setContext hc hcount, fun i => ?_,
    fun i hi => ?_, h.tasks⟩, ⟨List.prefix_rfl, hle, fun _ => rfl⟩⟩
  · exact (add_le_add_left (hle i) _).trans (h.once i)
  · refine le_antisymm ((add_le_add_left (hle i) _).trans (h.fresh i hi).le) ?_
    exact add_nonneg (held_nonneg io₁ i) (runs_nonneg i _)

/-! ## Runs -/

inductive Op (S F C : Type) where
  | addEvent (fd : Nat) (event : Event) (cb : Option C) (caller : Caller S F) (ctl : Bool)
  | delEvent (fd : Nat) (event : Event) (ctl : Bool)
  | cancelEvent (fd : Nat) (event : Event) (ctl : Bool)
  | cancelAll (fd : Nat) (ctl : Bool)
  | idle (batch : List (Option Ready))

def Op.isDel : Op S F C → Bool
  | .delEvent .. => true
  | _ => false

def step (io : IOManager S F C) : Op S F C → Option (IOManager S F C)
  | .addEvent fd event cb caller ctl => (io.addEvent fd event cb caller ctl).map Prod.snd
  | .delEvent fd event ctl => (io.delEvent fd event ctl).map Prod.snd
  | .cancelEvent fd event ctl => (io.cancelEvent fd event ctl).map Prod.snd
  | .cancelAll fd ctl => (io.cancelAll fd ctl).map Prod.snd
  | .idle batch => io.handleBatch batch

theorem accounted_init : Accounted (init : IOManager S F C) := by
  have h : Accounted ({} : IOManager S F C) := by
    refine ⟨by simp, rfl, fun i => ?_, fun i _ => ?_, by simp⟩
    · simp [held, total, runs, FdContext.runs]
    · simp [held, total, runs, FdContext.runs]
  exact (h.contextResize (Nat.zero_le 32)).1

/-- **One operation** that fails no assertion keeps the accounts, and moves registrations
in one of the two ways. -/
theorem Accounted.step (h : Accounted io) {op : Op S F C} (hs : io.step op = some io') :
    Accounted io' ∧ if op.isDel then Drops io io' else Moves io io' := by
  cases op with
  | addEvent fd event cb caller ctl =>
    obtain ⟨⟨r, _⟩, hr, rfl⟩ := Option.map_eq_some_iff.mp hs
    exact h.addEvent hr
  | delEvent fd event ctl =>
    obtain ⟨⟨r, _⟩, hr, rfl⟩ := Option.map_eq_some_iff.mp hs
    exact h.delEvent hr
  | cancelEvent fd event ctl =>
    obtain ⟨⟨r, _⟩, hr, rfl⟩ := Option.map_eq_some_iff.mp hs
    obtain rfl := cancelEvent_eq hr
    exact ⟨h, .refl _⟩
  | cancelAll fd ctl =>
    obtain ⟨⟨r, _⟩, hr, rfl⟩ := Option.map_eq_some_iff.mp hs
    exact h.cancelAll hr
  | idle batch => exact h.handleBatch hs

theorem Accounted.run (h : Accounted io) {ops : List (Op S F C)}
    (hrun : Lib.run IOManager.step io ops = some io') : Accounted io' :=
  run_invariant_of_step ops (fun hi hs => (hi.step hs).1) h hrun

theorem added_mono {op : Op S F C} (h : Accounted io) (hs : io.step op = some io') :
    io.added <+: io'.added := by
  have hm := (h.step hs).2
  split_ifs at hm
  · exact hm.added
  · exact hm.added

theorem Accounted.added_run (h : Accounted io) {ops : List (Op S F C)}
    (hrun : Lib.run IOManager.step io ops = some io') : io.added <+: io'.added := by
  induction ops generalizing io with
  | nil => exact Option.some.inj hrun ▸ List.prefix_rfl
  | cons op ops ih =>
    obtain ⟨io₁, hs, hrun⟩ := run_cons hrun
    exact (added_mono h hs).trans (ih (h.step hs).1 hrun)

/-- A registration that gave up its bit is never scheduled again. -/
theorem Accounted.settled (h : Accounted io) {i : Nat} (hi : i < io.added.length)
    (hheld : io.held i = 0) {ops : List (Op S F C)}
    (hrun : Lib.run IOManager.step io ops = some io') : io'.runs i = io.runs i := by
  induction ops generalizing io with
  | nil => exact Option.some.inj hrun ▸ rfl
  | cons op ops ih =>
    obtain ⟨io₁, hs, hrun⟩ := run_cons hrun
    obtain ⟨h₁, hm⟩ := h.step hs
    have hnn := held_nonneg io₁ i
    have hkeep : io₁.held i = 0 ∧ io₁.runs i = io.runs i := by
      split_ifs at hm
      · have := hm.held i
        exact ⟨by omega, hm.runs i⟩
      · have hsum := hm.sum i hi
        have hmono := hm.runs i
        exact ⟨by omega, by omega⟩
    rw [ih h₁ (hi.trans_le (added_mono h hs).length_le) hkeep.1 hrun, hkeep.2]

/-- **Accounts of the events.** In every state that is reached without a failed assertion,
the counter is the number of bits set, a context is populated exactly when its bit is set,
and a registration that was cleared has been scheduled once, or never if `delEvent` did it. -/
theorem events_accounted (ops : List (Op S F C)) (io : IOManager S F C)
    (hrun : Lib.run step init ops = some io) :
    io.m_pendingEventCount = io.total (fun c => c.events.count) ∧
      (∀ c ∈ io.m_fdContexts, ∀ isRead, (c.bit isRead = true → Populated io.added (c.slot isRead)) ∧
        (c.bit isRead = false → c.slot isRead = {})) ∧
      (∀ i, io.runs i ≤ 1) ∧
      (∀ k ∈ io.scheduled, ∃ i, k.added = some i ∧
        io.added[i]? = some (k.scheduler, k.task)) ∧
      ∀ pre op post io₁ io₂, ops = pre ++ op :: post → Lib.run step init pre = some io₁ →
        io₁.step op = some io₂ →
          (∀ fd event cb caller ctl, op = .addEvent fd event cb caller ctl →
            io₁.addEvent fd event cb caller ctl = some (0, io₂) →
              io₂.held io₁.added.length = 1 ∧
                io.added[io₁.added.length]? = some (caller.scheduler, caller.task cb)) ∧
          ∀ i, io₁.held i = 1 → io₂.held i = 0 → io.runs i = if op.isDel then 0 else 1 := by
  have h : Accounted io := accounted_init.run hrun
  refine ⟨h.pending, fun c hc isRead => ?_, fun i => ?_, h.tasks, ?_⟩
  · have hslot := (h.good c hc).slot isRead
    refine ⟨fun hb => ?_, fun hb => ?_⟩
    · rw [hb] at hslot
      exact hslot
    · rw [hb] at hslot
      exact hslot
  · have := h.once i
    have := held_nonneg io i
    omega
  · rintro pre op post io₁ io₂ rfl hpre hs
    have ha₁ : Accounted io₁ := accounted_init.run hpre
    obtain ⟨ha₂, hm⟩ := ha₁.step hs
    rw [run_append, hpre, Option.bind_some, Lib.run, hs, Option.bind_some] at hrun
    refine ⟨?_, fun i h₁ h₂ => ?_⟩
    · rintro fd event cb caller ctl rfl hok
      obtain ⟨hheld, hadded⟩ := addEvent_success ha₁ hok
      obtain ⟨more, hmore⟩ := ha₂.added_run hrun
      refine ⟨hheld, ?_⟩
      rw [← hmore, hadded, List.append_assoc, List.getElem?_append_right le_rfl, Nat.sub_self]
      rfl
    have hi : i < io₁.added.length := by
      by_contra hn
      have := ha₁.fresh i (by omega)
      have := runs_nonneg i io₁.scheduled
      simp only [IOManager.runs] at *
      omega
    rw [ha₂.settled (hi.trans_le (added_mono ha₁ hs).length_le) h₂ hrun]
    have honce := ha₁.once i
    have hnn := runs_nonneg i io₁.scheduled
    split_ifs at hm ⊢ with hd
    · rw [hm.runs i]
      simp only [IOManager.runs] at *
      omega
    · have := hm.sum i hi
      simp only [IOManager.runs] at *
      omega

/-- Both events of one descriptor: the first is deleted, the second becomes ready. -/
theorem events_accounted_twoEvents :
    let caller : Caller Unit Unit := { scheduler := (), fiber := () }
    let ready : Ready :=
      { fd := 40, epollin := false, epollout := true, epollerr := false, ctl := true }
    let pre : List (Op Unit Unit Unit) :=
      [.addEvent 40 .READ (some ()) caller true, .addEvent 40 .WRITE none caller true]
    ∃ io : IOManager Unit Unit Unit,
      Lib.run step init (pre ++ [.delEvent 40 .READ true, .idle [none, some ready]]) = some io ∧
        io.m_pendingEventCount = 0 ∧ io.runs 0 = 0 ∧ io.runs 1 = 1 := by
  intro caller ready pre
  obtain ⟨io₁, h₁⟩ : ∃ io, Lib.run step init pre = some io := ⟨_, rfl⟩
  obtain ⟨io, hrun⟩ : ∃ io, Lib.run step init
      (pre ++ [.delEvent 40 .READ true, .idle [none, some ready]]) = some io := ⟨_, rfl⟩
  have h := events_accounted _ io hrun
  obtain rfl := Option.some.inj h₁
  obtain rfl := Option.some.inj hrun
  refine ⟨_, hrun, h.1.trans (by decide), ?_, ?_⟩
  · exact (h.2.2.2.2 pre _ _ _ _ rfl h₁ rfl).2 0 (by decide) (by decide)
  · exact (h.2.2.2.2 (pre ++ [.delEvent 40 .READ true]) _ [] _ _ rfl rfl rfl).2 1 (by decide)
      (by decide)

end Workplace.Coroutine.IOManager
