import Workplace.Http.DbConnectionPool
import Workplace.Lib.CondVar
import Workplace.Lib.Potential

/-! The threads that wait in `getConnection`. What a step does to the pool is in
`DbConnectionPool`; here a waiting call goes on only after it was woken, by the `notify_one` of
the thread that puts a connection back, or without a notification. -/

namespace Workplace.Http
open Workplace.Lib

/-- A step of the thread of `checkConnections`. -/
def PoolAct.checks : PoolAct → Bool
  | .snapshot | .checkNext | .checkPing _ | .checkReconnect _ | .checkSleep => true
  | _ => false

structure WaitingPool where
  pool : DbConnectionPool
  cv_ : CondVar Nat := {}

inductive WaitAct where
  -- and the thread that `notify_one` unblocks, where the step ends with it
  | step (a : PoolAct) (notified : Option Nat)
  | spurious (u : Nat)
  deriving DecidableEq, Repr

/-- A call of `getConnection` begins. -/
def WaitAct.calls : WaitAct → Bool
  | .step (.getConnection _) _ => true
  | _ => false

def WaitAct.isSpurious : WaitAct → Bool
  | .spurious _ => true
  | .step _ _ => false

/-- A step that brings a call or a handle nearer to its end. -/
def WaitAct.settles : WaitAct → Bool
  | .step (.getConnection _) _ | .spurious _ => false
  | .step a _ => !a.checks

/-- The steps that are still to come before a call has returned, and its handle is destroyed.
A call that waits for a connection may be woken for it once more. -/
def CallPc.due : CallPc → Nat
  | .out => 0
  | .waiting | .checking _ => 4
  | .reconnecting _ => 3
  | .failed _ => 2

namespace WaitingPool

/-! ## The source -/

def init (poolSize : Nat) : WaitingPool := { pool := .init poolSize }

/-- `cv_.wait`, where the test of the `while` has failed. -/
def tested (c : CondVar Nat) (u : Nat) : CallPc → CondVar Nat
  | .waiting => c.wait u
  | _ => c

def step (s : WaitingPool) : WaitAct → Option WaitingPool
  | .spurious u => if u ∈ s.cv_.blocked then some { s with cv_ := s.cv_.wake u } else none
  | .step a notified =>
    (s.pool.step a).bind fun pool =>
      match a with
      | .getConnection u => some ⟨pool, tested s.cv_ u (pool.calls u)⟩
      | .wake u =>
        if u ∈ s.cv_.woken then some ⟨pool, tested (s.cv_.leave u) u (pool.calls u)⟩ else none
      | .rethrow _ | .destroy _ => (s.cv_.notifyOne notified).map fun c => ⟨pool, c⟩
      | _ => some ⟨pool, s.cv_⟩

/-! ## What a step can do -/

variable {s s' : WaitingPool} {pool : DbConnectionPool} {a : PoolAct} {act : WaitAct}
  {n u h conn : Nat}

/-- The steps by what they do to the queue, the calls and `cv_`. -/
inductive Effect (s : WaitingPool) (act : WaitAct) : WaitingPool → Prop
  | check (p : CheckPc) (ha : act.settles = false) :
      Effect s act { s with pool := { s.pool with checkThread_ := p } }
  | spurious (u : Nat) (hu : u ∈ s.cv_.blocked) (ha : act = .spurious u) :
      Effect s act { s with cv_ := s.cv_.wake u }
  | block (u : Nat) (hu : s.pool.calls u = .out) (hc : s.pool.connections_ = [])
      (ha : act.calls = true) : Effect s act ⟨s.pool.goOn u .waiting, s.cv_.wait u⟩
  | blockAgain (u : Nat) (hu : u ∈ s.cv_.woken) (hc : s.pool.connections_ = []) :
      Effect s act ⟨s.pool.goOn u .waiting, (s.cv_.leave u).wait u⟩
  | take (u conn : Nat) (rest : List Nat) (hu : s.pool.calls u = .out)
      (hc : s.pool.connections_ = conn :: rest) (ha : act.calls = true) :
      Effect s act ⟨{ s.pool with connections_ := rest }.goOn u (.checking conn), s.cv_⟩
  | wakeTake (u conn : Nat) (rest : List Nat) (hu : u ∈ s.cv_.woken)
      (hc : s.pool.connections_ = conn :: rest) :
      Effect s act ⟨{ s.pool with connections_ := rest }.goOn u (.checking conn), s.cv_.leave u⟩
  | turn (u : Nat) (p : CallPc) (hp : p ≠ .waiting) (hu : s.pool.calls u ≠ .waiting)
      (hdue : p.due < (s.pool.calls u).due) : Effect s act { s with pool := s.pool.goOn u p }
  | lend (u conn : Nat) (hu : s.pool.calls u ≠ .waiting) (hdue : 2 < (s.pool.calls u).due) :
      Effect s act { s with pool := s.pool.lend u conn }
  | rethrow (u conn : Nat) (o : Option Nat) (c : CondVar Nat)
      (hu : s.pool.calls u = .failed conn) (hn : s.cv_.notifyOne o = some c) :
      Effect s act ⟨(s.pool.push conn).goOn u .out, c⟩
  | destroy (h conn : Nat) (o : Option Nat) (c : CondVar Nat)
      (hh : s.pool.handles h = some conn) (hn : s.cv_.notifyOne o = some c) :
      Effect s act ⟨{ s.pool.push conn with handles := Function.update s.pool.handles h none }, c⟩

theorem calls_goOn (s : DbConnectionPool) (u : Nat) (p : CallPc) : (s.goOn u p).calls u = p :=
  Function.update_self _ _ _

theorem calls_goOn_of_ne {s : DbConnectionPool} {p : CallPc} {v : Nat} (hv : v ≠ u) :
    (s.goOn u p).calls v = s.calls v := Function.update_of_ne hv _ _

theorem popFront_cases (s : DbConnectionPool) (u : Nat) (hi : s.initialized_ = true) :
    s.connections_ = [] ∧ s.popFront u = s.goOn u .waiting ∨
      ∃ conn rest, s.connections_ = conn :: rest ∧
        s.popFront u = { s with connections_ := rest }.goOn u (.checking conn) := by
  unfold DbConnectionPool.popFront
  cases hc : s.connections_ with
  | nil => exact .inl ⟨rfl, by rw [hi, if_pos rfl]⟩
  | cons conn rest => exact .inr ⟨conn, rest, rfl, rfl⟩

theorem checking_step {s s' : DbConnectionPool} (hs : s.step a = some s')
    (ha : a.checks = true) : ∃ p, s' = { s with checkThread_ := p } := by
  unfold DbConnectionPool.step at hs
  cases a with
  | snapshot =>
    dsimp only at hs
    split at hs
    · split_ifs at hs
      · exact ⟨s.checkThread_, (Option.some.inj hs).symm⟩
      · exact ⟨_, (Option.some.inj hs).symm⟩
    · cases hs
  | checkNext | checkPing _ | checkReconnect _ | checkSleep =>
    dsimp only at hs
    split at hs
    · exact ⟨_, (Option.some.inj hs).symm⟩
    · cases hs
  | _ => cases ha

theorem effect_of_step (hi : s.pool.initialized_ = true) (hs : s.step act = some s') :
    Effect s act s' := by
  cases act with
  | spurious u =>
    obtain ⟨hu, hs⟩ := Option.ite_none_right_eq_some.mp hs
    obtain rfl := Option.some.inj hs
    exact .spurious u hu rfl
  | step a notified =>
    obtain ⟨pool, hp, hs⟩ := Option.bind_eq_some_iff.mp hs
    cases a with
    | getConnection u =>
      obtain rfl := Option.some.inj hs
      obtain ⟨hu, hp⟩ := Option.ite_none_right_eq_some.mp hp
      obtain rfl := Option.some.inj hp
      rcases popFront_cases s.pool u hi with ⟨hc, heq⟩ | ⟨conn, rest, hc, heq⟩
      · rw [heq, calls_goOn]
        exact .block u hu hc rfl
      · rw [heq, calls_goOn]
        exact .take u conn rest hu hc rfl
    | wake u =>
      obtain ⟨hu, hs⟩ := Option.ite_none_right_eq_some.mp hs
      obtain rfl := Option.some.inj hs
      obtain ⟨-, hp⟩ := Option.ite_none_right_eq_some.mp hp
      obtain rfl := Option.some.inj hp
      rcases popFront_cases s.pool u hi with ⟨hc, heq⟩ | ⟨conn, rest, hc, heq⟩
      · rw [heq, calls_goOn]
        exact .blockAgain u hu hc
      · rw [heq, calls_goOn]
        exact .wakeTake u conn rest hu hc
    | ping u answer =>
      obtain rfl := Option.some.inj hs
      cases hu : s.pool.calls u with
      | checking conn =>
        simp only [DbConnectionPool.step, hu] at hp
        obtain rfl := Option.some.inj hp
        have hne : s.pool.calls u ≠ .waiting := by simp [hu]
        have hdue : (s.pool.calls u).due = 4 := by rw [hu, CallPc.due]
        cases answer with
        | true => exact .lend u conn hne (by omega)
        | false =>
          exact .turn u (.reconnecting conn) (by simp) hne (by rw [hdue, CallPc.due]; omega)
      | _ => simp [DbConnectionPool.step, hu] at hp
    | reconnect u succeeds =>
      obtain rfl := Option.some.inj hs
      cases hu : s.pool.calls u with
      | reconnecting conn =>
        simp only [DbConnectionPool.step, hu] at hp
        obtain rfl := Option.some.inj hp
        have hne : s.pool.calls u ≠ .waiting := by simp [hu]
        have hdue : (s.pool.calls u).due = 3 := by rw [hu, CallPc.due]
        cases succeeds with
        | true => exact .lend u conn hne (by omega)
        | false => exact .turn u (.failed conn) (by simp) hne (by rw [hdue, CallPc.due]; omega)
      | _ => simp [DbConnectionPool.step, hu] at hp
    | rethrow u =>
      obtain ⟨c, hn, rfl⟩ := Option.map_eq_some_iff.mp hs
      cases hu : s.pool.calls u with
      | failed conn =>
        simp only [DbConnectionPool.step, hu] at hp
        obtain rfl := Option.some.inj hp
        exact .rethrow u conn notified c hu hn
      | _ => simp [DbConnectionPool.step, hu] at hp
    | destroy h =>
      obtain ⟨c, hn, rfl⟩ := Option.map_eq_some_iff.mp hs
      cases hh : s.pool.handles h with
      | some conn =>
        simp only [DbConnectionPool.step, hh] at hp
        obtain rfl := Option.some.inj hp
        exact .destroy h conn notified c hh hn
      | none => simp [DbConnectionPool.step, hh] at hp
    | snapshot | checkNext | checkPing _ | checkReconnect _ | checkSleep =>
      obtain rfl := Option.some.inj hs
      obtain ⟨p, rfl⟩ := checking_step hp rfl
      exact .check p rfl

/-! ## No notification is lost -/

/-- The calls that wait, and the notifications they are owed. -/
structure Waits (s : WaitingPool) : Prop where
  initialized : s.pool.initialized_ = true
  waiting : ∀ u, u ∈ s.cv_.waiters ↔ s.pool.calls u = .waiting
  nodup : s.cv_.waiters.Nodup
  covers : s.cv_.Covers s.pool.connections_.length

theorem waiting_goOn {s : DbConnectionPool} {p : CallPc} (hp : p ≠ .waiting)
    (hu : s.calls u ≠ .waiting) (v : Nat) :
    (s.goOn u p).calls v = .waiting ↔ s.calls v = .waiting := by
  by_cases hv : v = u
  · rw [hv, calls_goOn]
    exact iff_of_false hp hu
  · rw [calls_goOn_of_ne hv]

theorem Waits.not_mem (h : s.Waits) (hu : s.pool.calls u ≠ .waiting) : u ∉ s.cv_.waiters :=
  fun hin => hu ((h.waiting u).mp hin)

/-- The waiters after `u` has left the condition variable, or has come to it. -/
theorem Waits.leave (h : s.Waits) (hu : u ∈ s.cv_.woken) :
    (s.cv_.leave u).waiters.Nodup ∧ u ∉ (s.cv_.leave u).waiters ∧
      ∀ v, v ≠ u → (v ∈ (s.cv_.leave u).waiters ↔ s.pool.calls v = .waiting) := by
  have hperm := CondVar.waiters_leave hu
  obtain ⟨hnot, hnodup⟩ := List.nodup_cons.mp (hperm.nodup h.nodup)
  refine ⟨hnodup, hnot, fun v hv => ?_⟩
  rw [← h.waiting v, hperm.mem_iff, List.mem_cons, or_iff_right hv]

theorem waiting_wait {c : CondVar Nat} {s : DbConnectionPool}
    (hw : ∀ v, v ≠ u → (v ∈ c.waiters ↔ s.calls v = .waiting)) (v : Nat) :
    v ∈ (c.wait u).waiters ↔ (s.goOn u .waiting).calls v = .waiting := by
  rw [(CondVar.waiters_wait c u).mem_iff, List.mem_cons]
  by_cases hv : v = u
  · rw [hv, calls_goOn]
    exact iff_of_true (.inl rfl) rfl
  · rw [or_iff_right hv, hw v hv, calls_goOn_of_ne hv]

theorem Waits.step (h : s.Waits) (hs : s.step act = some s') : s'.Waits := by
  cases effect_of_step h.initialized hs with
  | check p ha => exact ⟨h.initialized, h.waiting, h.nodup, h.covers⟩
  | spurious u hu ha =>
    have hperm := CondVar.waiters_wake hu
    exact ⟨h.initialized, fun v => hperm.mem_iff.trans (h.waiting v), hperm.nodup_iff.mpr h.nodup,
      h.covers.wake hu⟩
  | block u hu hc ha =>
    have hnot : u ∉ s.cv_.waiters := h.not_mem (by simp [hu])
    have hnodup : (s.cv_.wait u).waiters.Nodup :=
      (CondVar.waiters_wait s.cv_ u).nodup_iff.mpr (List.nodup_cons.mpr ⟨hnot, h.nodup⟩)
    refine ⟨h.initialized, waiting_wait fun v _ => h.waiting v, hnodup, ?_⟩
    change (s.cv_.wait u).Covers s.pool.connections_.length
    rw [hc]
    exact CondVar.covers_zero _
  | blockAgain u hu hc =>
    obtain ⟨hnodup, hnot, hothers⟩ := h.leave hu
    have hnodup' : ((s.cv_.leave u).wait u).waiters.Nodup :=
      (CondVar.waiters_wait _ u).nodup_iff.mpr (List.nodup_cons.mpr ⟨hnot, hnodup⟩)
    refine ⟨h.initialized, waiting_wait hothers, hnodup', ?_⟩
    change ((s.cv_.leave u).wait u).Covers s.pool.connections_.length
    rw [hc]
    exact CondVar.covers_zero _
  | take u conn rest hu hc ha =>
    have hcovers := h.covers
    rw [hc] at hcovers
    refine ⟨h.initialized, fun v => ?_, h.nodup, hcovers.take⟩
    rw [h.waiting v]
    exact (waiting_goOn (s := { s.pool with connections_ := rest }) (by simp)
      (by simp [hu]) v).symm
  | wakeTake u conn rest hu hc =>
    have hcovers := h.covers
    rw [hc] at hcovers
    obtain ⟨hnodup, hnot, hothers⟩ := h.leave hu
    refine ⟨h.initialized, fun v => ?_, hnodup, hcovers.leave hu⟩
    by_cases hv : v = u
    · rw [hv, calls_goOn]
      exact iff_of_false hnot (by simp)
    · rw [hothers v hv, calls_goOn_of_ne hv]
  | turn u p hp hu hdue =>
    exact ⟨h.initialized, fun v => (h.waiting v).trans (waiting_goOn hp hu v).symm, h.nodup,
      h.covers⟩
  | lend u conn hu hdue =>
    have hout : ∀ v, (s.pool.goOn u .out).calls v = .waiting ↔ s.pool.calls v = .waiting :=
      waiting_goOn (by simp) hu
    exact ⟨h.initialized, fun v => (h.waiting v).trans (hout v).symm, h.nodup, h.covers⟩
  | rethrow u conn o c hu hn =>
    have hperm := CondVar.waiters_notifyOne hn
    have hcovers : c.Covers (s.pool.push conn).connections_.length := by
      rw [DbConnectionPool.push, List.length_append]
      exact h.covers.notifyOne hn
    refine ⟨h.initialized, fun v => ?_, hperm.nodup_iff.mpr h.nodup, hcovers⟩
    rw [hperm.mem_iff, h.waiting v]
    exact (waiting_goOn (s := s.pool.push conn) (by simp) (by simp [DbConnectionPool.push, hu])
      v).symm
  | destroy k conn o c hk hn =>
    have hperm := CondVar.waiters_notifyOne hn
    have hcovers : c.Covers (s.pool.push conn).connections_.length := by
      rw [DbConnectionPool.push, List.length_append]
      exact h.covers.notifyOne hn
    exact ⟨h.initialized, fun v => hperm.mem_iff.trans (h.waiting v),
      hperm.nodup_iff.mpr h.nodup, hcovers⟩

theorem waits_init (n : Nat) : (init n).Waits := by
  have hcalls : ∀ u, (init n).pool.calls u = .out := by
    intro u
    rw [init, DbConnectionPool.init, DbConnectionPool.foldl_push]
  refine ⟨rfl, fun u => ?_, List.nodup_nil, fun hne => absurd rfl hne⟩
  rw [hcalls u]
  exact iff_of_false List.not_mem_nil (by simp)

theorem step_pool (hs : s.step act = some s') :
    s'.pool = s.pool ∨ ∃ a, s.pool.step a = some s'.pool := by
  cases act with
  | spurious u =>
    obtain ⟨-, hs⟩ := Option.ite_none_right_eq_some.mp hs
    exact .inl (congrArg pool (Option.some.inj hs)).symm
  | step a notified =>
    obtain ⟨pool, hp, hs⟩ := Option.bind_eq_some_iff.mp hs
    have hpool : s'.pool = pool := by
      cases a with
      | wake u =>
        obtain ⟨-, hs⟩ := Option.ite_none_right_eq_some.mp hs
        rw [← Option.some.inj hs]
      | rethrow _ | destroy _ =>
        obtain ⟨c, -, rfl⟩ := Option.map_eq_some_iff.mp hs
        rfl
      | _ => rw [← Option.some.inj hs]
    exact .inr ⟨a, hpool ▸ hp⟩

/-- The pool and its waiters, in every state that a run reaches. -/
structure Sound (n : Nat) (s : WaitingPool) : Prop where
  kept : DbConnectionPool.Kept n s.pool
  waits : s.Waits
  finite : {u | s.pool.calls u ≠ .out}.Finite

theorem finite_goOn {s : DbConnectionPool} (h : {u | s.calls u ≠ .out}.Finite) (u : Nat)
    (p : CallPc) : {v | (s.goOn u p).calls v ≠ .out}.Finite := by
  apply (h.insert u).subset
  intro v hv
  by_cases hvu : v = u
  · exact .inl hvu
  · rw [Set.mem_ofPred_eq, calls_goOn_of_ne hvu] at hv
    exact .inr hv

theorem Sound.step (h : Sound n s) (hs : s.step act = some s') : Sound n s' := by
  have hkept : DbConnectionPool.Kept n s'.pool := by
    rcases step_pool hs with heq | ⟨a, ha⟩
    · exact heq ▸ h.kept
    · exact h.kept.step ha
  refine ⟨hkept, h.waits.step hs, ?_⟩
  cases effect_of_step h.waits.initialized hs with
  | check | spurious | destroy => exact h.finite
  | block u | blockAgain u | turn u => exact finite_goOn h.finite u _
  | take u conn rest | wakeTake u conn rest =>
    exact finite_goOn (s := { s.pool with connections_ := rest }) h.finite u _
  | lend u => exact finite_goOn h.finite u .out
  | rethrow u conn => exact finite_goOn (s := s.pool.push conn) h.finite u .out

theorem sound_init (n : Nat) : Sound n (init n) := by
  have hcalls : ∀ u, (init n).pool.calls u = .out := by
    intro u
    rw [init, DbConnectionPool.init, DbConnectionPool.foldl_push]
  refine ⟨DbConnectionPool.kept_init n, waits_init n, ?_⟩
  simp only [hcalls, ne_eq, not_true_eq_false, Set.ofPred_false, Set.finite_empty]

/-- **No lost wake-up.** While a call sleeps on `cv_`, every connection in the queue has a call
of its own that was woken and will test again. -/
theorem woken_for_each_idle {acts : List WaitAct} (hrun : run step (init n) acts = some s)
    (hu : u ∈ s.cv_.blocked) : s.pool.connections_.length ≤ s.cv_.woken.length := by
  have hsound : Sound n s := run_invariant_of_step acts Sound.step (sound_init n) hrun
  exact hsound.waits.covers (List.ne_nil_of_mem hu)

/-- Two calls wait for the only connection; one is woken when it comes back. -/
theorem woken_for_each_idle_returned :
    let acts : List WaitAct := [.step (.getConnection 0) none, .step (.ping 0 true) none,
      .step (.getConnection 1) none, .step (.getConnection 2) none, .step (.destroy 0) (some 1)]
    ∃ s, run step (init 1) acts = some s ∧ s.cv_.blocked = [2] ∧ s.pool.connections_ = [0] ∧
      s.pool.connections_.length ≤ s.cv_.woken.length := by
  intro acts
  obtain ⟨s, hrun⟩ : ∃ s, run step (init 1) acts = some s :=
    Option.isSome_iff_exists.mp (by decide)
  have hend : (run step (init 1) acts).map (fun s => (s.cv_.blocked, s.pool.connections_)) =
      some ([2], [0]) := by decide
  rw [hrun, Option.map_some, Option.some.injEq, Prod.mk.injEq] at hend
  have hblocked : 2 ∈ s.cv_.blocked := hend.1 ▸ List.mem_singleton_self 2
  exact ⟨s, hrun, hend.1, hend.2, woken_for_each_idle hrun hblocked⟩

/-! ## Every call returns -/

/-- A handle is still to be destroyed, and its connection to be announced. -/
def handleDue : Option Nat → Nat
  | none => 0
  | some _ => 2

def callsDue (us : Finset Nat) (calls : Nat → CallPc) : Nat := ∑ u ∈ us, (calls u).due

def handlesDue (returned : Nat) (handles : Nat → Option Nat) : Nat :=
  ∑ h ∈ Finset.range returned, handleDue (handles h)

/-- What the calls of the threads `us` and the handles have before them. -/
def due (us : Finset Nat) (s : WaitingPool) : Nat :=
  callsDue us s.pool.calls + handlesDue s.pool.returned s.pool.handles + s.cv_.woken.length

/-- The threads outside `us` are not in a call. -/
def Within (us : Finset Nat) (s : WaitingPool) : Prop := ∀ u, s.pool.calls u ≠ .out → u ∈ us

theorem callsDue_goOn {us : Finset Nat} {s : DbConnectionPool} (hu : u ∈ us) (p : CallPc) :
    callsDue us (s.goOn u p).calls + (s.calls u).due = callsDue us s.calls + p.due :=
  sum_update CallPc.due s.calls p hu

theorem handlesDue_lend (n conn : Nat) (handles : Nat → Option Nat) :
    handlesDue (n + 1) (Function.update handles n (some conn)) = handlesDue n handles + 2 := by
  rw [handlesDue, Finset.sum_range_succ, Function.update_self, handleDue, handlesDue]
  congr 1
  apply Finset.sum_congr rfl
  intro h hh
  rw [Function.update_of_ne (Finset.mem_range.mp hh).ne]

theorem handlesDue_destroy {handles : Nat → Option Nat} (hlt : h < n)
    (hh : handles h = some conn) :
    handlesDue n (Function.update handles h none) + 2 = handlesDue n handles := by
  have hsum := sum_update handleDue handles none (Finset.mem_range.mpr hlt)
  rw [hh] at hsum
  exact hsum

theorem woken_notifyOne {c c' : CondVar Nat} {o : Option Nat} (hn : c.notifyOne o = some c') :
    c'.woken.length ≤ c.woken.length + 1 := by
  rcases CondVar.notifyOne_cases hn with ⟨-, rfl⟩ | ⟨k, -, rfl⟩
  · exact Nat.le_succ _
  · exact List.length_append.le

theorem woken_leave {c : CondVar Nat} (hu : u ∈ c.woken) :
    (c.leave u).woken.length + 1 = c.woken.length := by
  have hlen : (c.leave u).woken.length = c.woken.length - 1 := List.length_erase_of_mem hu
  have hpos : 0 < c.woken.length := List.length_pos_of_mem hu
  omega

theorem Within.goOn {us : Finset Nat} (h : Within us s) (hu : u ∈ us) (p : CallPc) :
    ∀ v, (s.pool.goOn u p).calls v ≠ .out → v ∈ us := by
  intro v hv
  by_cases hvu : v = u
  · exact hvu ▸ hu
  · rw [calls_goOn_of_ne hvu] at hv
    exact h v hv

/-- A step that settles something takes one from what is due; a call that is woken for nothing
has one more step before it. -/
theorem Sound.due_step {us : Finset Nat} (h : Sound n s) (hus : Within us s)
    (hcall : act.calls = false) (hs : s.step act = some s') :
    Within us s' ∧ due us s' + act.settles.toNat ≤ due us s + act.isSpurious.toNat := by
  have hone : act.settles.toNat ≤ 1 := Bool.toNat_le _
  have hin : ∀ {u}, 0 < (s.pool.calls u).due → u ∈ us := by
    intro u hpos
    apply hus u
    intro hout
    rw [hout] at hpos
    cases hpos
  have hwaiting : ∀ {u}, u ∈ s.cv_.woken → (s.pool.calls u).due = 4 := by
    intro u hu
    rw [(h.waits.waiting u).mp (List.mem_append_right _ hu), CallPc.due]
  cases effect_of_step h.waits.initialized hs with
  | check p ha =>
    rw [ha]
    exact ⟨hus, Nat.le_add_right _ _⟩
  | spurious u hu ha =>
    have hlen : (s.cv_.wake u).woken.length = s.cv_.woken.length + 1 := List.length_append
    rw [ha]
    refine ⟨hus, ?_⟩
    rw [due, due, hlen]
    exact le_refl _
  | block u hu hc ha | take u conn rest hu hc ha =>
    rw [ha] at hcall
    cases hcall
  | blockAgain u hu hc =>
    have hdue := hwaiting hu
    have hmem : u ∈ us := hin (by omega)
    have hsum := callsDue_goOn (s := s.pool) hmem .waiting
    have hlen := woken_leave hu
    refine ⟨hus.goOn hmem .waiting, ?_⟩
    have hnew : CallPc.due .waiting = 4 := rfl
    simp only [due, CondVar.wait]
    change callsDue us (s.pool.goOn u .waiting).calls +
      handlesDue s.pool.returned s.pool.handles + _ + _ ≤ _
    omega
  | wakeTake u conn rest hu hc =>
    have hdue := hwaiting hu
    have hmem : u ∈ us := hin (by omega)
    have hsum := callsDue_goOn (s := s.pool) hmem (.checking conn)
    have hlen := woken_leave hu
    refine ⟨hus.goOn hmem (.checking conn), ?_⟩
    have hnew : (CallPc.checking conn).due = 4 := rfl
    simp only [due]
    change callsDue us (s.pool.goOn u (.checking conn)).calls +
      handlesDue s.pool.returned s.pool.handles + _ + _ ≤ _
    omega
  | turn u p hp hu hdue =>
    have hmem : u ∈ us := hin (by omega)
    have hsum := callsDue_goOn (s := s.pool) hmem p
    refine ⟨hus.goOn hmem p, ?_⟩
    simp only [due]
    change callsDue us (s.pool.goOn u p).calls +
      handlesDue s.pool.returned s.pool.handles + _ + _ ≤ _
    omega
  | lend u conn hu hdue =>
    have hmem : u ∈ us := hin (by omega)
    have hsum := callsDue_goOn (s := s.pool) hmem .out
    have hlent := handlesDue_lend s.pool.returned conn s.pool.handles
    refine ⟨hus.goOn hmem .out, ?_⟩
    have hnew : CallPc.due .out = 0 := rfl
    simp only [due]
    change callsDue us (s.pool.goOn u .out).calls + handlesDue (s.pool.returned + 1)
      (Function.update s.pool.handles s.pool.returned (some conn)) + _ + _ ≤ _
    omega
  | rethrow u conn o c hu hn =>
    have hdue : (s.pool.calls u).due = 2 := by rw [hu, CallPc.due]
    have hmem : u ∈ us := hin (by omega)
    have hsum := callsDue_goOn (s := s.pool) hmem .out
    have hlen := woken_notifyOne hn
    refine ⟨hus.goOn hmem .out, ?_⟩
    have hnew : CallPc.due .out = 0 := rfl
    simp only [due]
    change callsDue us (s.pool.goOn u .out).calls +
      handlesDue s.pool.returned s.pool.handles + _ + _ ≤ _
    omega
  | destroy k conn o c hk hn =>
    have hlen := woken_notifyOne hn
    have hlt : k < s.pool.returned := by
      by_contra hge
      rw [h.kept.fresh k (Nat.le_of_not_lt hge)] at hk
      cases hk
    have hsum := handlesDue_destroy hlt hk
    refine ⟨hus, ?_⟩
    simp only [due]
    change callsDue us s.pool.calls + handlesDue s.pool.returned
      (Function.update s.pool.handles k none) + _ + _ ≤ _
    omega

/-- As long as a call or a handle is left, some step brings one nearer to its end. -/
theorem Sound.exists_settling (h : Sound n s) (hn : 0 < n)
    (hleft : (∃ u, s.pool.calls u ≠ .out) ∨ ∃ k, s.pool.handles k ≠ none) :
    ∃ act, act.settles = true ∧ (s.step act).isSome = true := by
  have hping : ∀ {u conn}, s.pool.calls u = .checking conn →
      ∃ act, act.settles = true ∧ (s.step act).isSome = true := by
    intro u conn hu
    exact ⟨.step (.ping u true) none, rfl, by simp [WaitingPool.step, DbConnectionPool.step, hu]⟩
  have hreconnect : ∀ {u conn}, s.pool.calls u = .reconnecting conn →
      ∃ act, act.settles = true ∧ (s.step act).isSome = true := by
    intro u conn hu
    exact ⟨.step (.reconnect u true) none, rfl,
      by simp [WaitingPool.step, DbConnectionPool.step, hu]⟩
  obtain ⟨o, c, hnotify⟩ := CondVar.exists_notifyOne s.cv_
  have hrethrow : ∀ {u conn}, s.pool.calls u = .failed conn →
      ∃ act, act.settles = true ∧ (s.step act).isSome = true := by
    intro u conn hu
    exact ⟨.step (.rethrow u) o, rfl,
      by simp [WaitingPool.step, DbConnectionPool.step, hu, hnotify]⟩
  have hdestroy : ∀ {k conn}, s.pool.handles k = some conn →
      ∃ act, act.settles = true ∧ (s.step act).isSome = true := by
    intro k conn hk
    exact ⟨.step (.destroy k) o, rfl,
      by simp [WaitingPool.step, DbConnectionPool.step, hk, hnotify]⟩
  have hwake : ∀ {u}, u ∈ s.cv_.woken →
      ∃ act, act.settles = true ∧ (s.step act).isSome = true := by
    intro u hu
    have hwaiting : s.pool.calls u = .waiting :=
      (h.waits.waiting u).mp (List.mem_append_right _ hu)
    exact ⟨.step (.wake u) none, rfl,
      by simp [WaitingPool.step, DbConnectionPool.step, hwaiting, hu]⟩
  -- a connection is held by someone who can go on, or lies ready for a call that was woken
  have hblocked : s.cv_.blocked ≠ [] →
      ∃ act, act.settles = true ∧ (s.step act).isSome = true := by
    intro hb
    rcases (h.kept.conserves.present 0).mp hn with hidle | ⟨k, hk⟩
    · obtain ⟨u, hu⟩ := h.waits.covers.exists_woken (List.length_pos_of_mem hidle) hb
      exact hwake hu
    · cases k with
      | call u =>
        cases hu : s.pool.calls u with
        | checking conn => exact hping hu
        | reconnecting conn => exact hreconnect hu
        | failed conn => exact hrethrow hu
        | _ => simp [DbConnectionPool.custody, hu, CallPc.conn] at hk
      | handle k => exact hdestroy hk
  rcases hleft with ⟨u, hu⟩ | ⟨k, hk⟩
  · cases hcall : s.pool.calls u with
    | out => exact absurd hcall hu
    | waiting =>
      rcases List.mem_append.mp ((h.waits.waiting u).mpr hcall) with hin | hin
      · exact hblocked (List.ne_nil_of_mem hin)
      · exact hwake hin
    | checking conn => exact hping hcall
    | reconnecting conn => exact hreconnect hcall
    | failed conn => exact hrethrow hcall
  · obtain ⟨conn, hconn⟩ := Option.ne_none_iff_exists'.mp hk
    exact hdestroy hconn

/-- Without new calls, at most `N` steps and one for each spurious wake-up bring the calls and
handles to an end; and where no such step is possible, none of them is left. -/
def SettlesWithin (s : WaitingPool) (N : Nat) : Prop :=
  ∀ acts s', (∀ act ∈ acts, act.calls = false) → run step s acts = some s' →
    acts.countP WaitAct.settles ≤ N + acts.countP WaitAct.isSpurious ∧
      ((∀ act, act.settles = true → s'.step act = none) →
        (∀ u, s'.pool.calls u = .out) ∧ ∀ h, s'.pool.handles h = none)

/-- **Every call returns** once no new call begins, whatever the order of the steps and however
often the checking thread goes round: nobody is left sleeping. -/
theorem calls_settle (hn : 0 < n) {acts : List WaitAct} (hrun : run step (init n) acts = some s) :
    ∃ N, s.SettlesWithin N := by
  have hsound : Sound n s := run_invariant_of_step acts Sound.step (sound_init n) hrun
  have hwithin : Within hsound.finite.toFinset s :=
    fun u hu => hsound.finite.mem_toFinset.mpr hu
  refine ⟨due hsound.finite.toFinset s, fun acts' s' hold hrun' => ?_⟩
  have hok : ∀ act ∈ acts', (!act.calls) = true := fun act hact => by rw [hold act hact]; rfl
  have hdue : ∀ s act s', Sound n s ∧ Within hsound.finite.toFinset s → (!act.calls) = true →
      s.step act = some s' → (Sound n s' ∧ Within hsound.finite.toFinset s') ∧
        due hsound.finite.toFinset s' + act.settles.toNat ≤
          due hsound.finite.toFinset s + act.isSpurious.toNat := by
    intro s act s' hinv hcall hs
    obtain ⟨hw, hle⟩ := hinv.1.due_step hinv.2 (Bool.not_eq_true' _ ▸ hcall) hs
    exact ⟨⟨hinv.1.step hs, hw⟩, hle⟩
  obtain ⟨⟨hsound', -⟩, hle⟩ := run_potential _ _ (fun act => !act.calls) WaitAct.settles
    WaitAct.isSpurious acts' hok hdue ⟨hsound, hwithin⟩ hrun'
  refine ⟨(Nat.le_add_left _ _).trans hle, fun hstuck => ?_⟩
  by_contra hleft
  have hleft' : (∃ u, s'.pool.calls u ≠ .out) ∨ ∃ k, s'.pool.handles k ≠ none := by
    by_contra hnone
    rw [not_or, not_exists, not_exists] at hnone
    exact hleft ⟨fun u => not_not.mp (hnone.1 u), fun k => not_not.mp (hnone.2 k)⟩
  obtain ⟨act, hact, hsome⟩ := hsound'.exists_settling hn hleft'
  rw [hstuck act hact] at hsome
  cases hsome

theorem calls_settle_returned :
    let acts : List WaitAct := [.step (.getConnection 0) none, .step (.ping 0 true) none,
      .step (.getConnection 1) none, .step (.getConnection 2) none, .step (.destroy 0) (some 1)]
    ∃ s, run step (init 1) acts = some s ∧ 2 ∈ s.cv_.blocked ∧ ∃ N, s.SettlesWithin N := by
  intro acts
  obtain ⟨s, hrun⟩ : ∃ s, run step (init 1) acts = some s :=
    Option.isSome_iff_exists.mp (by decide)
  have hend : (run step (init 1) acts).map (fun s => s.cv_.blocked) = some [2] := by decide
  rw [hrun, Option.map_some, Option.some.injEq] at hend
  exact ⟨s, hrun, hend ▸ List.mem_singleton_self 2, calls_settle (by decide) hrun⟩

end WaitingPool
end Workplace.Http
