import Workplace.Coroutine.EventRuns

/-! The table `m_fdContexts` under threads that call `addEvent` at the same time. The size
is checked under the read lock, and the table resized under the write lock: between the
two, other threads may have resized it. Contexts are pointers here, and a context that has
left the table lives on for the threads that have its pointer. -/

namespace Workplace.Coroutine
open Workplace.Lib

variable {S F C : Type}

structure AddCall (S F C : Type) where
  fd : Nat
  event : Event
  cb : Option C
  caller : Caller S F
  -- whether `epoll_ctl` works
  ctl : Bool

/-- Where a thread is in `addEvent`. -/
inductive AddPc (S F C : Type) where
  | out
  -- the table was too small, and the read lock is released
  | tooSmall (call : AddCall S F C)
  -- it has the pointer of a context, and no lock of the table
  | found (call : AddCall S F C) (ctx : Nat)

structure FdTable (S F C : Type) where
  -- every context that was ever created, in the order of creation
  io : IOManager S F C := {}
  -- the pointers in the table
  m_fdContexts : List Nat := []
  pc : Nat → AddPc S F C := fun _ => .out
  -- the calls that returned 0
  registered : List (AddCall S F C) := []

/-- The parts of `addEvent` that a lock makes atomic. -/
inductive TableAct (S F C : Type) where
  | check (t : Nat) (call : AddCall S F C)
  | resize (t : Nat)
  | register (t : Nat)

namespace FdTable

def setPc (s : FdTable S F C) (t : Nat) (pc : AddPc S F C) : FdTable S F C :=
  { s with pc := Function.update s.pc t pc }

/-- `resize`, and a new context for every index that has none. -/
def contextResize (s : FdTable S F C) (size : Nat) : FdTable S F C :=
  let missing := size - s.m_fdContexts.length
  { s with
    io := { s.io with m_fdContexts := s.io.m_fdContexts ++
      (List.range' s.m_fdContexts.length missing).map fun i => { fd := i } }
    m_fdContexts := s.m_fdContexts.take size ++
      List.range' s.io.m_fdContexts.length missing }

def init : FdTable S F C := contextResize {} 32

def check (s : FdTable S F C) (t : Nat) (call : AddCall S F C) : Option (FdTable S F C) :=
  match s.pc t with
  | .out =>
    match s.m_fdContexts[call.fd]? with
    | some ctx => some (s.setPc t (.found call ctx))
    | none => some (s.setPc t (.tooSmall call))
  | _ => none

def resize (s : FdTable S F C) (t : Nat) : Option (FdTable S F C) :=
  match s.pc t with
  | .tooSmall call =>
    let s := s.contextResize (call.fd * 3 / 2)
    (s.m_fdContexts[call.fd]?).map fun ctx => s.setPc t (.found call ctx)
  | _ => none

def register (s : FdTable S F C) (t : Nat) : Option (FdTable S F C) :=
  match s.pc t with
  | .found call ctx => do
    let c ← s.io.m_fdContexts[ctx]?
    let (r, io) ← s.io.addEventTo ctx c call.event call.cb call.caller call.ctl
    some ({ s with
      io
      registered := if r = 0 then s.registered ++ [call] else s.registered }.setPc t .out)
  | _ => none

def step (s : FdTable S F C) : TableAct S F C → Option (FdTable S F C)
  | .check t call => s.check t call
  | .resize t => s.resize t
  | .register t => s.register t

/-- What `delEvent`, `cancelEvent` and `cancelAll` look for: the context of the descriptor,
with the bit of the event. -/
def Finds (s : FdTable S F C) (fd : Nat) (event : Event) : Prop :=
  ∃ ctx c, s.m_fdContexts[fd]? = some ctx ∧ s.io.m_fdContexts[ctx]? = some c ∧
    c.events.inter event ≠ .NONE

/-- A thread about to resize a table of this size would not make it smaller. -/
def enlarges (size : Nat) : AddPc S F C → Bool
  | .tooSmall call => size ≤ call.fd * 3 / 2
  | _ => true

/-- The thread that resizes the table finds it no larger than it will be. -/
def Grows (s : FdTable S F C) : TableAct S F C → Prop
  | .resize t => enlarges s.m_fdContexts.length (s.pc t) = true
  | _ => True

instance (s : FdTable S F C) : (a : TableAct S F C) → Decidable (s.Grows a)
  | .resize t => inferInstanceAs (Decidable (enlarges s.m_fdContexts.length (s.pc t) = true))
  | .check .. | .register _ => isTrue trivial

/-! ## One step -/

/-- The table has only grown at its end, and no context has lost a bit. -/
structure Extends (s s' : FdTable S F C) : Prop where
  table : s.m_fdContexts <+: s'.m_fdContexts
  bits : ∀ (ctx : Nat) (c : FdContext S F C), s.io.m_fdContexts[ctx]? = some c →
    ∃ c' : FdContext S F C, s'.io.m_fdContexts[ctx]? = some c' ∧
      ∀ event, c.events.inter event ≠ .NONE → c'.events.inter event ≠ .NONE

variable {s s' : FdTable S F C} {t : Nat}

theorem Extends.of_same (htable : s'.m_fdContexts = s.m_fdContexts) (hio : s'.io = s.io) :
    Extends s s' := by
  refine ⟨htable ▸ List.prefix_rfl, fun ctx c hc => ⟨c, ?_, fun _ => id⟩⟩
  rw [hio]
  exact hc

theorem Extends.slot (h : Extends s s') {fd ctx : Nat} (hs : s.m_fdContexts[fd]? = some ctx) :
    s'.m_fdContexts[fd]? = some ctx := by
  obtain ⟨more, hmore⟩ := h.table
  rw [← hmore, List.getElem?_append_left (List.getElem?_eq_some_iff.mp hs).1, hs]

theorem Extends.finds (h : Extends s s') {fd : Nat} {event : Event} (hf : s.Finds fd event) :
    s'.Finds fd event := by
  obtain ⟨ctx, c, hs, hc, hb⟩ := hf
  obtain ⟨c', hc', hbits⟩ := h.bits ctx c hc
  exact ⟨ctx, c', h.slot hs, hc', hbits event hb⟩

theorem extends_contextResize {size : Nat} (hsize : s.m_fdContexts.length ≤ size) :
    Extends s (s.contextResize size) := by
  refine ⟨?_, fun ctx c hc => ⟨c, ?_, fun _ => id⟩⟩
  · rw [contextResize, List.take_of_length_le hsize]
    exact List.prefix_append _ _
  · rw [contextResize, List.getElem?_append_left (List.getElem?_eq_some_iff.mp hc).1, hc]

theorem contextResize_shrinks {size : Nat} (hsize : size < s.m_fdContexts.length) :
    (s.contextResize size).m_fdContexts.length < s.m_fdContexts.length := by
  have hmissing : size - s.m_fdContexts.length = 0 := by omega
  simp only [contextResize, hmissing, List.range'_zero, List.append_nil, List.length_take]
  omega

theorem registered_bits (c : FdContext S F C) (isRead : Bool) (ctx : EventContext S F C) :
    (c.registered isRead ctx).bit isRead = true ∧ ∀ event, c.events.inter event ≠ .NONE →
      (c.registered isRead ctx).events.inter event ≠ .NONE := by
  constructor
  · cases isRead <;> rfl
  · intro event
    rcases hev : c.events with ⟨_ | _, _ | _⟩ <;> rcases event with ⟨_ | _, _ | _⟩ <;>
      cases isRead <;> simp [FdContext.registered, hev, Event.inter, Event.NONE]

/-- A call that registers leaves its bit set in the context it had found. -/
theorem extends_register {call : AddCall S F C} {ctx : Nat} {c : FdContext S F C} {r : Int}
    {io : IOManager S F C} (hc : s.io.m_fdContexts[ctx]? = some c)
    (hr : s.io.addEventTo ctx c call.event call.cb call.caller call.ctl = some (r, io))
    (htable : s'.m_fdContexts = s.m_fdContexts) (hio : s'.io = io) :
    Extends s s' ∧ (r = 0 → ∃ c', s'.io.m_fdContexts[ctx]? = some c' ∧
      c'.events.inter call.event ≠ .NONE) := by
  obtain ⟨rfl, rfl⟩ | ⟨rfl, isRead, hevent, -, rfl⟩ := IOManager.addEventTo_cases hr
  · exact ⟨.of_same htable hio, fun h => absurd h (by decide)⟩
  obtain ⟨hbit, hbits⟩ :=
    registered_bits c isRead (call.caller.context call.cb s.io.added.length)
  set c' := c.registered isRead (call.caller.context call.cb s.io.added.length)
  have hlt := (List.getElem?_eq_some_iff.mp hc).1
  have hself : s'.io.m_fdContexts[ctx]? = some c' := by
    rw [hio]
    exact List.getElem?_set_self hlt
  refine ⟨⟨htable ▸ List.prefix_rfl, fun x d hd => ?_⟩, fun _ => ⟨c', hself, ?_⟩⟩
  · by_cases hx : ctx = x
    · subst hx
      obtain rfl := Option.some.inj (hc.symm.trans hd)
      exact ⟨c', hself, hbits⟩
    · refine ⟨d, ?_, fun _ => id⟩
      rw [hio]
      exact (List.getElem?_set_ne hx).trans hd
  · rw [hevent, Ne, FdContext.inter_eq_none, hbit]
    decide

/-! ## Runs -/

/-- Every thread has the pointer that the table has, and every registered event is found. -/
structure Kept (s : FdTable S F C) : Prop where
  found : ∀ t call ctx, s.pc t = .found call ctx → s.m_fdContexts[call.fd]? = some ctx
  registered : ∀ call ∈ s.registered, s.Finds call.fd call.event

theorem Kept.of_extends (h : Kept s) (t : Nat) (pc : AddPc S F C) (he : Extends s s')
    (hpc : s'.pc = Function.update s.pc t pc)
    (hmine : ∀ call ctx, pc = .found call ctx → s'.m_fdContexts[call.fd]? = some ctx)
    (hreg : ∀ call ∈ s'.registered, call ∈ s.registered ∨ s'.Finds call.fd call.event) :
    Kept s' where
  found := by
    intro u call ctx hu
    rw [hpc] at hu
    by_cases hut : u = t
    · rw [hut, Function.update_self] at hu
      exact hmine call ctx hu
    · rw [Function.update_of_ne hut] at hu
      exact he.slot (h.found u call ctx hu)
  registered := by
    intro call hcall
    rcases hreg call hcall with hold | hnew
    · exact he.finds (h.registered call hold)
    · exact hnew

theorem Kept.check (h : Kept s) {call : AddCall S F C} (hs : s.check t call = some s') :
    Extends s s' ∧ Kept s' := by
  rw [FdTable.check] at hs
  cases hpc : s.pc t with
  | out =>
    simp only [hpc] at hs
    rcases hslot : s.m_fdContexts[call.fd]? with _ | ctx
    · simp only [hslot, Option.some.injEq] at hs
      subst hs
      have he : Extends s (s.setPc t (.tooSmall call)) := .of_same rfl rfl
      exact ⟨he, h.of_extends t (.tooSmall call) he rfl (by simp) fun _ => .inl⟩
    · simp only [hslot, Option.some.injEq] at hs
      subst hs
      have he : Extends s (s.setPc t (.found call ctx)) := .of_same rfl rfl
      refine ⟨he, h.of_extends t (.found call ctx) he rfl (fun call' ctx' hf => ?_) fun _ => .inl⟩
      obtain ⟨rfl, rfl⟩ := AddPc.found.inj hf
      exact he.slot hslot
  | _ => simp [hpc] at hs

theorem Kept.resize (h : Kept s) (hg : s.Grows (.resize t)) (hs : s.resize t = some s') :
    Extends s s' ∧ Kept s' := by
  rw [FdTable.resize] at hs
  cases hpc : s.pc t with
  | tooSmall call =>
    have hsize : s.m_fdContexts.length ≤ call.fd * 3 / 2 := by
      simpa [Grows, enlarges, hpc] using hg
    simp only [hpc] at hs
    obtain ⟨ctx, hslot, rfl⟩ := Option.map_eq_some_iff.mp hs
    have hgrown := extends_contextResize hsize
    have he : Extends s ((s.contextResize (call.fd * 3 / 2)).setPc t (.found call ctx)) :=
      ⟨hgrown.table, hgrown.bits⟩
    refine ⟨he, h.of_extends t (.found call ctx) he rfl (fun call' ctx' hf => ?_) fun _ => .inl⟩
    obtain ⟨rfl, rfl⟩ := AddPc.found.inj hf
    exact hslot
  | _ => simp [hpc] at hs

theorem Kept.register (h : Kept s) (hs : s.register t = some s') : Extends s s' ∧ Kept s' := by
  rw [FdTable.register] at hs
  cases hpc : s.pc t with
  | found call ctx =>
    simp only [hpc, Option.bind_eq_bind, Option.bind_eq_some_iff] at hs
    obtain ⟨c, hc, ⟨r, io⟩, hr, hs⟩ := hs
    have hs := Option.some.inj hs
    have htable : s'.m_fdContexts = s.m_fdContexts := hs ▸ rfl
    have hio : s'.io = io := hs ▸ rfl
    obtain ⟨he, hbit⟩ := extends_register hc hr htable hio
    have hslot := he.slot (h.found t call ctx hpc)
    refine ⟨he, h.of_extends t .out he (hs ▸ rfl) (by simp) fun call' hcall => ?_⟩
    have hreg : s'.registered = if r = 0 then s.registered ++ [call] else s.registered := hs ▸ rfl
    rw [hreg] at hcall
    split_ifs at hcall with hzero
    · rcases List.mem_append.mp hcall with hold | hnew
      · exact .inl hold
      · obtain rfl := List.mem_singleton.mp hnew
        obtain ⟨c', hc', hb⟩ := hbit hzero
        exact .inr ⟨ctx, c', hslot, hc', hb⟩
    · exact .inl hcall
  | _ => simp [hpc] at hs

theorem Kept.step (h : Kept s) {a : TableAct S F C} (hg : s.Grows a) (hs : s.step a = some s') :
    Extends s s' ∧ Kept s' := by
  cases a with
  | check t call => exact h.check hs
  | resize t => exact h.resize hg hs
  | register t => exact h.register hs

theorem kept_init : Kept (init : FdTable S F C) := ⟨by simp [init, contextResize],
  by simp [init, contextResize]⟩

/-- **The table never loses a context**, in every run in which a thread that resizes it
finds it no larger than the size it asks for: it only grows at its end, and every event
that was registered is found under its descriptor. -/
theorem contexts_stay (acts : List (TableAct S F C)) (s : FdTable S F C)
    (hg : Guarded Grows step init acts) (hrun : run step init acts = some s) :
    (∀ pre post s₁, acts = pre ++ post → run step init pre = some s₁ →
      s₁.m_fdContexts <+: s.m_fdContexts) ∧
      ∀ call ∈ s.registered, s.Finds call.fd call.event := by
  have hstep {s s' : FdTable S F C} {a : TableAct S F C} (hi : Kept s) (hg : s.Grows a)
      (hs : s.step a = some s') : Kept s' := (hi.step hg hs).2
  refine ⟨?_, (run_invariant acts hstep kept_init hg hrun).registered⟩
  rintro pre post s₁ rfl hpre
  have h₁ : Kept s₁ := run_invariant pre hstep kept_init hg.left hpre
  have hg₁ := hg.of_append hpre
  rw [run_append, hpre, Option.bind_some] at hrun
  have hextend {s s' : FdTable S F C} {a : TableAct S F C}
      (hi : Kept s ∧ s₁.m_fdContexts <+: s.m_fdContexts) (hg : s.Grows a)
      (hs : s.step a = some s') : Kept s' ∧ s₁.m_fdContexts <+: s'.m_fdContexts := by
    obtain ⟨he, hk⟩ := hi.1.step hg hs
    exact ⟨hk, hi.2.trans he.table⟩
  exact (run_invariant post hextend ⟨h₁, List.prefix_rfl⟩ hg₁ hrun).2

/-- Descriptors 32 and 48 on two threads. Both find 32 entries; the second makes them 72
and registers; then the first makes them 48, and the event of 48 is gone. -/
theorem resize_loses_context : ¬ ∀ (acts : List (TableAct Unit Unit Unit))
    (s : FdTable Unit Unit Unit), run step init acts = some s →
      ∀ call ∈ s.registered, s.Finds call.fd call.event := by
  intro h
  let call (fd : Nat) : AddCall Unit Unit Unit :=
    { fd, event := .READ, cb := some (), caller := { scheduler := (), fiber := () }, ctl := true }
  let acts : List (TableAct Unit Unit Unit) :=
    [.check 0 (call 32), .check 1 (call 48), .resize 1, .register 1, .resize 0]
  obtain ⟨s, hrun⟩ : ∃ s, run step init acts = some s := Option.isSome_iff_exists.mp (by decide)
  have hlen : (run step init acts).map (fun s => s.m_fdContexts.length) = some 48 := by
    decide +kernel
  have hfd : (run step init acts).map (fun s => s.registered.map AddCall.fd) = some [48] := by
    decide
  rw [hrun, Option.map_some, Option.some.injEq] at hlen hfd
  obtain ⟨call', hcall, hfd'⟩ := List.mem_map.mp (hfd ▸ List.mem_singleton_self 48)
  obtain ⟨ctx, c, hslot, -⟩ := h acts s hrun call' hcall
  rw [hfd', List.getElem?_eq_none hlen.le] at hslot
  cases hslot

/-- The same two threads, the smaller descriptor first. -/
theorem contexts_stay_smaller_first :
    let call (fd : Nat) : AddCall Unit Unit Unit :=
      { fd, event := .READ, cb := some (), caller := { scheduler := (), fiber := () }, ctl := true }
    let acts : List (TableAct Unit Unit Unit) :=
      [.check 0 (call 32), .check 1 (call 48), .resize 0, .register 0, .resize 1, .register 1]
    ∃ s, run step init acts = some s ∧ Guarded Grows step init acts ∧
      s.registered.length = 2 ∧ ∀ call ∈ s.registered, s.Finds call.fd call.event := by
  intro call acts
  have hg : Guarded Grows step init acts := by decide
  obtain ⟨s, hrun⟩ : ∃ s, run step init acts = some s := Option.isSome_iff_exists.mp (by decide)
  have hstay := contexts_stay acts s hg hrun
  have hlen : (run step init acts).map (fun s => s.registered.length) = some 2 := by decide
  rw [hrun, Option.map_some, Option.some.injEq] at hlen
  exact ⟨s, hrun, hg, hlen, hstay.2⟩

end FdTable
end Workplace.Coroutine
