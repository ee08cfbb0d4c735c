import Mathlib.Data.List.Basic
import Mathlib.Tactic

/-! Fibers and the pool that each thread keeps of them: `Fiber` and `FiberPool`. What a fiber
runs is opaque here (`K`); a failed assertion is `none`. -/

namespace Workplace.Coroutine

inductive State where
  | READY
  | RUNNING
  | SUSPEND
  | TERM
  deriving DecidableEq, Repr

/-- The saved context is the code to go on with, `none` the entry of `MainFunc`. -/
structure Fiber (K : Type) where
  m_state : State := .READY
  m_cb : Option K := none
  m_ctx : Option K := none
  deriving DecidableEq, Repr

namespace Fiber
variable {K : Type}

def reset (f : Fiber K) (cb : Option K) : Option (Fiber K) :=
  if f.m_state = .TERM ∨ f.m_state = .READY then
    some { m_state := .READY, m_cb := cb, m_ctx := none }
  else none

def resume (f : Fiber K) : Option (Fiber K) :=
  if f.m_state = .READY then some { f with m_state := .RUNNING } else none

/-- What runs after the switch. `MainFunc` calls `m_cb`, and does not survive a null one. -/
def code (f : Fiber K) : Option K := f.m_ctx.or f.m_cb

/-- `yield` up to its switch of contexts, with the code that comes after it. -/
def yield (f : Fiber K) (rest : Option K) : Option (Fiber K) :=
  if f.m_state = .RUNNING ∨ f.m_state = .TERM then
    some { f with m_state := if f.m_state = .TERM then .TERM else .READY, m_ctx := rest }
  else none

def suspend (f : Fiber K) (rest : Option K) : Option (Fiber K) :=
  if f.m_state = .RUNNING then { f with m_state := .SUSPEND }.yield rest else none

/-- The end of `MainFunc`, after the callback has returned. -/
def finish (f : Fiber K) : Option (Fiber K) :=
  { f with m_state := .TERM, m_cb := none }.yield none

/-- `suspend` never gets past the assertion of `yield`. -/
theorem suspend_eq_none (f : Fiber K) (rest : Option K) : f.suspend rest = none := by
  rw [suspend]
  split_ifs
  · simp [yield]
  · rfl

end Fiber

structure Heap (K : Type) where
  fiber : Nat → Fiber K := fun _ => {}
  created : Nat := 0

namespace Heap
variable {K : Type}

def set (h : Heap K) (f : Nat) (x : Fiber K) : Heap K :=
  { h with fiber := Function.update h.fiber f x }

theorem fiber_set_self (h : Heap K) (f : Nat) (x : Fiber K) : (h.set f x).fiber f = x :=
  Function.update_self _ _ _

theorem fiber_set_ne {f g : Nat} (hne : g ≠ f) (h : Heap K) (x : Fiber K) :
    (h.set f x).fiber g = h.fiber g := Function.update_of_ne hne _ _

end Heap

structure FiberPool where
  m_idleFibers : List Nat := []
  m_allFibers : List Nat := []
  deriving DecidableEq, Repr

namespace FiberPool
variable {K : Type}

/-- `createFibers`: the new fibers have no callback. -/
def createFibers (p : FiberPool) (h : Heap K) (count : Nat) : FiberPool × Heap K :=
  let ids := List.range' h.created count
  ({ m_idleFibers := p.m_idleFibers ++ ids, m_allFibers := p.m_allFibers ++ ids },
    { h with created := h.created + count })

/-- The pool of a thread, made when it is first asked for. -/
def getLocalFiberPool (p : Option FiberPool) (h : Heap K) : FiberPool × Heap K :=
  match p with
  | some p => (p, h)
  | none => createFibers {} h 256

/-- The growth of `acquire`: half as many again when no fiber is idle. -/
def grow (p : FiberPool) (h : Heap K) : FiberPool × Heap K :=
  if p.m_idleFibers.isEmpty then
    p.createFibers h (p.m_allFibers.length * 3 / 2 - p.m_allFibers.length)
  else (p, h)

@[simp] theorem getLocalFiberPool_fiber (p : Option FiberPool) (h : Heap K) :
    (getLocalFiberPool p h).2.fiber = h.fiber := by
  cases p <;> rfl

@[simp] theorem grow_fiber (p : FiberPool) (h : Heap K) : (p.grow h).2.fiber = h.fiber := by
  rw [grow]
  split_ifs <;> rfl

/-- `none` also stands for the front of an empty queue. -/
def acquire (p : FiberPool) (h : Heap K) (cb : K) : Option (Nat × FiberPool × Heap K) :=
  let (p, h) := p.grow h
  match p.m_idleFibers with
  | [] => none
  | f :: rest =>
    ((h.fiber f).reset (some cb)).map fun x => (f, { p with m_idleFibers := rest }, h.set f x)

def release (p : FiberPool) (h : Heap K) (f : Nat) : Option (FiberPool × Heap K) :=
  ((h.fiber f).reset none).map fun x =>
    ({ p with m_idleFibers := p.m_idleFibers ++ [f] }, h.set f x)

/-- The loop of `resize` that removes fibers, while there are idle ones. -/
def shrink (p : FiberPool) : Nat → FiberPool
  | 0 => p
  | remove_count + 1 =>
    match p.m_idleFibers with
    | [] => p
    | f :: rest =>
      shrink { m_idleFibers := rest, m_allFibers := p.m_allFibers.erase f } remove_count

def resize (p : FiberPool) (h : Heap K) (new_size : Nat) : FiberPool × Heap K :=
  if p.m_allFibers.length < new_size then p.createFibers h (new_size - p.m_allFibers.length)
  else if new_size < p.m_allFibers.length then (p.shrink (p.m_allFibers.length - new_size), h)
  else (p, h)

def idleCount (p : FiberPool) : Nat := p.m_idleFibers.length

def totalCount (p : FiberPool) : Nat := p.m_allFibers.length

end FiberPool
end Workplace.Coroutine
