import Workplace.Http.DbConnectionPool
import Workplace.Lib.Throwing

/-! `DbConnectionPool::init` where the database refuses a connection. What was pushed before
the throw stays in the queue. -/

namespace Workplace.Http.DbConnectionPool
open Workplace.Lib

structure Credentials where
  host_ : String := ""
  user_ : String := ""
  password_ : String := ""
  database_ : String := ""

/-- A pool with the members that only `init` and `createConnection` use. -/
structure Setup where
  pool : DbConnectionPool := {}
  credentials : Credentials := {}
  -- the connections created so far
  created : Nat := 0

/-- What `getConnection` throws at the head of its loop. -/
def refusal (s : DbConnectionPool) : Option String :=
  if s.connections_.isEmpty && !s.initialized_ then some "Connection pool not initialized"
  else none

/-- A pool from which nobody has had a connection yet. -/
structure Unused (s : DbConnectionPool) : Prop where
  queue : s.connections_ = []
  flag : s.initialized_ = false
  calls : ∀ u, s.calls u = .out
  handles : ∀ h, s.handles h = none
  check : s.checkThread_ = .sleeping

section Unused
variable {s s' : DbConnectionPool} {a : PoolAct}

theorem unused_new : Unused {} := ⟨rfl, rfl, fun _ => rfl, fun _ => rfl, rfl⟩

theorem Unused.refusal (h : s.Unused) : s.refusal = some "Connection pool not initialized" := by
  unfold DbConnectionPool.refusal
  rw [h.queue, h.flag]
  rfl

/-- A call that is refused leaves the pool as it is. -/
theorem popFront_of_refusal {e : String} {u : Nat} (h : s.refusal = some e)
    (hu : s.calls u = .out) : s.popFront u = s := by
  unfold DbConnectionPool.refusal at h
  split_ifs at h with hempty
  rw [Bool.and_eq_true, List.isEmpty_iff, Bool.not_eq_true'] at hempty
  obtain ⟨hqueue, hflag⟩ := hempty
  unfold popFront
  simp only [hqueue, hflag, Bool.false_eq_true, if_false]
  rw [goOn, ← hu, Function.update_eq_self]

theorem Unused.step (h : s.Unused) (hs : s.step a = some s') : s' = s := by
  cases a with
  | getConnection u =>
    obtain ⟨hu, hs⟩ := Option.ite_none_right_eq_some.mp hs
    rw [popFront_of_refusal h.refusal hu] at hs
    exact (Option.some.inj hs).symm
  | wake u => simp [DbConnectionPool.step, h.calls] at hs
  | ping u _ | reconnect u _ | rethrow u => simp [DbConnectionPool.step, h.calls] at hs
  | destroy k => simp [DbConnectionPool.step, h.handles] at hs
  | snapshot =>
    simp only [DbConnectionPool.step, h.check, h.queue, List.isEmpty_nil, if_true] at hs
    exact (Option.some.inj hs).symm
  | checkNext | checkPing _ | checkReconnect _ | checkSleep =>
    simp [DbConnectionPool.step, h.check] at hs

theorem Unused.run {acts : List PoolAct} (h : s.Unused)
    (hrun : Lib.run DbConnectionPool.step s acts = some s') : s' = s := by
  induction acts with
  | nil => exact (Option.some.inj hrun).symm
  | cons a acts ih =>
    obtain ⟨s₁, hs, hrest⟩ := run_cons hrun
    rw [h.step hs] at hrest
    exact ih hrest

end Unused

namespace Setup

/-- The answer of the database is an exception, or a connection. -/
def createConnection (answer : Credentials → Except String Unit) : EStateM String Setup Nat := do
  let s ← get
  lift (answer s.credentials)
  modify fun s => { s with created := s.created + 1 }
  return s.created

/-- The loop of `init` at `i`, with the iterations that are left. -/
def createConnections (connect : Nat → Credentials → Except String Unit) (i : Nat) :
    Nat → EStateM String Setup Unit
  | 0 => pure ()
  | left + 1 => do
    let conn ← createConnection (connect i)
    modify fun s => { s with pool := s.pool.push conn }
    createConnections connect (i + 1) left

def init (credentials : Credentials) (poolSize : Nat)
    (connect : Nat → Credentials → Except String Unit) : EStateM String Setup Unit := do
  let s ← get
  if s.pool.initialized_ then pure ()
  else do
    modify fun s => { s with credentials }
    createConnections connect 0 poolSize
    modify fun s => { s with pool := { s.pool with initialized_ := true } }

/-- The connection after the first `j` of them is the one that cannot be created. -/
structure Throws (credentials : Credentials) (poolSize : Nat)
    (connect : Nat → Credentials → Except String Unit) (j : Nat) (e : String) : Prop where
  lt : j < poolSize
  before : ∀ i < j, connect i credentials = .ok ()
  throws : connect j credentials = .error e

/-- What an `init` that fails should leave, also to an `init` after any steps of the threads. -/
structure Untouched (s s' : Setup) : Prop where
  queue : s'.pool.connections_ = s.pool.connections_
  flag : s'.pool.initialized_ = s.pool.initialized_
  reported : s'.pool.refusal = some "Connection pool not initialized"
  later : ∀ acts pool credentials m connect, run step s'.pool acts = some pool →
    (∀ i < m, connect i credentials = .ok ()) → Ends (init credentials m connect)
      { s' with pool } (fun _ s'' => s''.pool.connections_.length = m) fun _ _ => False

/-- `s` with `j` more connections. -/
def opened (s : Setup) (j : Nat) : Setup :=
  { s with
    pool := { s.pool with connections_ := s.pool.connections_ ++ List.range' s.created j }
    created := s.created + j }

variable {s : Setup} {connect : Nat → Credentials → Except String Unit} {credentials : Credentials}
  {poolSize i j left : Nat} {e : String} {Q : Unit → Setup → Prop} {E : String → Setup → Prop}

theorem opened_zero (s : Setup) : s.opened 0 = s := by
  unfold opened
  rw [List.range'_zero, List.append_nil, Nat.add_zero]

theorem opened_opened (s : Setup) (j : Nat) : (s.opened 1).opened j = s.opened (j + 1) := by
  unfold opened
  rw [List.append_assoc, List.range'_append_1, Nat.add_assoc, Nat.add_comm 1 j]

/-- One iteration that succeeds. -/
theorem ends_createConnections_ok (hok : connect i s.credentials = .ok ()) :
    Ends (createConnections connect i (left + 1)) s Q E ↔
      Ends (createConnections connect (i + 1) left) (s.opened 1) Q E := by
  simp only [createConnections, createConnection, ends_bind, ends_get, ends_modify, ends_pure, hok,
    ends_lift_ok]
  rfl

theorem ends_createConnections_error (herror : connect i s.credentials = .error e) :
    Ends (createConnections connect i (left + 1)) s Q E ↔ E e s := by
  simp only [createConnections, createConnection, ends_bind, ends_get, herror, ends_lift_error]

/-- The loop, as far as the connections are created. -/
theorem ends_createConnections (hok : ∀ i' < j, connect (i + i') s.credentials = .ok ()) :
    Ends (createConnections connect i (j + left)) s Q E ↔
      Ends (createConnections connect (i + j) left) (s.opened j) Q E := by
  induction j generalizing s i with
  | zero => rw [Nat.zero_add, opened_zero, Nat.add_zero]
  | succ j ih =>
    have hfirst : connect i s.credentials = .ok () := hok 0 (Nat.zero_lt_succ j)
    have hrest : ∀ i' < j, connect (i + 1 + i') (s.opened 1).credentials = .ok () := by
      intro i' hi'
      have hnext := hok (i' + 1) (Nat.succ_lt_succ hi')
      rwa [Nat.add_comm i' 1, ← Nat.add_assoc] at hnext
    rw [Nat.succ_add, ends_createConnections_ok hfirst, ih hrest, opened_opened,
      Nat.add_assoc, Nat.add_comm 1 j]

/-- `init` when it creates all its connections. -/
theorem ends_init_ok (hnot : s.pool.initialized_ = false)
    (hok : ∀ i < poolSize, connect i credentials = .ok ()) :
    let s' := { s with credentials }.opened poolSize
    Ends (init credentials poolSize connect) s Q E ↔
      Q () { s' with pool := { s'.pool with initialized_ := true } } := by
  have hall : ∀ i < poolSize, connect (0 + i) credentials = .ok () := by
    intro i hi
    rw [Nat.zero_add]
    exact hok i hi
  have hloop (R : Unit → Setup → Prop) :
      Ends (createConnections connect 0 poolSize) { s with credentials } R E ↔
        R () ({ s with credentials }.opened poolSize) :=
    (ends_createConnections hall : Ends (createConnections connect 0 (poolSize + 0)) _ R E ↔ _)
  simp only [init, ends_bind, ends_get, hnot, Bool.false_eq_true, if_false, ends_modify, hloop]

/-- The pool that the threads start from. -/
theorem init_new (hok : ∀ i < poolSize, connect i credentials = .ok ()) :
    Ends (init credentials poolSize connect) {}
      (fun _ s' => s'.pool = DbConnectionPool.init poolSize) fun _ _ => False := by
  refine (ends_init_ok unused_new.flag hok).mpr ?_
  rw [DbConnectionPool.init, foldl_push, List.range_eq_range']
  rfl

/-- `init` when it throws. -/
theorem ends_init_throws (hnot : s.pool.initialized_ = false)
    (h : Throws credentials poolSize connect j e) :
    Ends (init credentials poolSize connect) s Q E ↔ E e ({ s with credentials }.opened j) := by
  obtain ⟨left, rfl⟩ := Nat.exists_eq_add_of_lt h.lt
  have hbefore : ∀ i < j, connect (0 + i) credentials = .ok () := by
    intro i hi
    rw [Nat.zero_add]
    exact h.before i hi
  have hthrows : connect (0 + j) credentials = .error e := by rw [Nat.zero_add]; exact h.throws
  simp only [init, ends_bind, ends_get, hnot, Bool.false_eq_true, if_false, ends_modify]
  rw [Nat.add_assoc, ends_createConnections hbefore, ends_createConnections_error hthrows]

/-- **A failed `init` leaves no trace** exactly when its first connection is the one that cannot
be created. -/
theorem untouched_iff (hunused : s.pool.Unused) (h : Throws credentials poolSize connect j e) :
    Ends (init credentials poolSize connect) s (fun _ _ => False) (fun _ s' => s.Untouched s') ↔
      j = 0 := by
  rw [ends_init_throws hunused.flag h]
  constructor
  · intro huntouched
    have hqueue := congrArg List.length huntouched.queue
    change (s.pool.connections_ ++ List.range' s.created j).length = _ at hqueue
    rw [List.length_append, List.length_range'] at hqueue
    exact Nat.add_eq_left.mp hqueue
  · rintro rfl
    rw [opened_zero]
    refine ⟨rfl, rfl, hunused.refusal, ?_⟩
    intro acts pool credentials' m connect' hrun hok
    obtain rfl : pool = s.pool := hunused.run hrun
    refine (ends_init_ok (s := { s with credentials }) hunused.flag hok).mpr ?_
    change (s.pool.connections_ ++ List.range' s.created m).length = m
    rw [hunused.queue, List.nil_append, List.length_range']

/-- Nothing is listening yet. -/
theorem untouched_refused :
    Ends (init {} 10 fun _ _ => .error "Can't connect to MySQL server") ({} : Setup)
      (fun _ _ => False) (fun _ s' => Setup.Untouched {} s') :=
  (untouched_iff unused_new ⟨by decide, fun _ hi => absurd hi (Nat.not_lt_zero _), rfl⟩).mpr rfl

/-- The server has one connection left for a pool of two. -/
theorem connection_left : ¬ ∀ (credentials : Credentials) (poolSize j : Nat)
    (connect : Nat → Credentials → Except String Unit) (e : String),
    Throws credentials poolSize connect j e → Ends (init credentials poolSize connect) {}
      (fun _ _ => False) (fun _ s' => Setup.Untouched {} s') := by
  intro h
  have hthrows : Throws {} 2 (fun i _ => if i < 1 then .ok () else .error "Too many connections")
      1 "Too many connections" := ⟨by decide, fun i hi => if_pos hi, rfl⟩
  exact absurd ((untouched_iff unused_new hthrows).mp (h _ _ _ _ _ hthrows)) (by decide)

/-- What is left of the failed `init` is in the pool with the connections of the next one. -/
theorem init_after_failed (hunused : s.pool.Unused)
    (h : Throws credentials poolSize connect j e) {m : Nat} {credentials' : Credentials}
    {connect' : Nat → Credentials → Except String Unit}
    (hok : ∀ i < m, connect' i credentials' = .ok ()) :
    Ends (init credentials poolSize connect) s (fun _ _ => False) fun _ s' =>
      Ends (init credentials' m connect') s'
        (fun _ s'' => s''.pool.connections_.length = j + m) fun _ _ => False := by
  rw [ends_init_throws hunused.flag h]
  refine (ends_init_ok (s := { s with credentials }.opened j) hunused.flag hok).mpr ?_
  change ((s.pool.connections_ ++ List.range' _ j) ++ List.range' _ m).length = j + m
  rw [hunused.queue, List.nil_append, List.length_append, List.length_range', List.length_range']

end Setup
end Workplace.Http.DbConnectionPool
