import Workplace.Coroutine.Pool
import Workplace.Coroutine.TaskQueue
import Workplace.Lib.Runs

/-! `Scheduler::run` on every thread, together with the fibers it resumes, the pools it
returns them to, and the timers and events that schedule a waiting fiber again. -/

namespace Workplace.Coroutine
open Workplace.Lib

/-- A hooked call that makes the calling fiber wait. -/
inductive Pause where
  -- `sleep`, `usleep` and `nanosleep`: a timer, then `yield`
  | sleep
  -- `connect`: an event, then `yield`
  | connect
  -- the `EAGAIN` path of `do_io`: an event, then `suspend`
  | doIo
  deriving DecidableEq, Repr

/-- What a fiber runs: the rest of a body, or the callback of a sleep's timer, which
schedules the sleeper. -/
inductive Cb where
  | body (pauses : List Pause)
  | wake (f : Nat)
  deriving DecidableEq, Repr

inductive Pc where
  | loop
  -- it has taken the task of a fiber, or acquired a fiber for a callback
  | gotFiber (f : Nat) (isCb : Bool)
  | gotCb (c : Cb)
  -- the fiber runs on it, and its mutex is held
  | running (f : Nat) (c : Cb)
  -- the timer or event of the pause is there, the switch of contexts is not
  | pausing (f : Nat) (p : Pause) (rest : List Pause)
  -- `resume` has returned, and the mutex is free
  | returned (f : Nat)
  deriving DecidableEq, Repr

structure System where
  heap : Heap Cb := {}
  -- whether `m_mutex` of the fiber is held
  locked : Nat → Bool := fun _ => false
  -- the fiber pool of each thread
  pool : Nat → Option FiberPool := fun _ => none
  m_tasks : List (ScheduleTask Nat Cb) := []
  -- the fibers that the pending timers of sleeps will schedule
  timers : List Nat := []
  -- the fibers in event contexts
  events : List Nat := []
  pc : Nat → Pc := fun _ => .loop
  -- what each fiber still has to run of the body it was last given, `none` once done
  owed : Nat → Option Cb := fun _ => none
  -- the calls of `FiberPool::release`, each with what its fiber still had to run
  releases : List (Nat × Option Cb) := []
  -- the calls of `resume`, each with what then ran and what the fiber had to run
  resumes : List (Cb × Option Cb) := []

/-- One step of a thread, of the idle fiber of some thread, or a submission from outside. -/
inductive WorkerAct where
  | submitFiber (body : List Pause) (thread : Int)
  | submitCb (body : List Pause) (thread : Int)
  | dequeue (t : Nat)
  | acquire (t : Nat)
  | resume (t : Nat)
  | exec (t : Nat)
  | switch (t : Nat)
  | release (t : Nat)
  | fireTimer (i : Nat)
  | triggerEvent (i : Nat)
  deriving DecidableEq, Repr

namespace System

def setPc (s : System) (t : Nat) (pc : Pc) : System := { s with pc := Function.update s.pc t pc }

def setOwed (s : System) (f : Nat) (c : Option Cb) : System :=
  { s with owed := Function.update s.owed f c }

def setLocked (s : System) (f : Nat) (b : Bool) : System :=
  { s with locked := Function.update s.locked f b }

def push (s : System) (fc : FiberOrCb Nat Cb) (thread : Int) : System :=
  { s with m_tasks := (scheduleLock s.m_tasks fc thread).1 }

def submitFiber (s : System) (body : List Pause) (thread : Int) : System :=
  let f := s.heap.created
  let heap := { s.heap.set f { m_cb := some (.body body) } with created := f + 1 }
  ({ s with heap }.setOwed f (some (.body body))).push (.fiber (some f)) thread

def submitCb (s : System) (body : List Pause) (thread : Int) : System :=
  s.push (.cb (some (.body body))) thread

def dequeue (s : System) (t : Nat) : Option System :=
  if s.pc t = .loop then
    (Coroutine.dequeue id t s.m_tasks).map fun d =>
      let s := { s with m_tasks := d.m_tasks }
      match d.task with
      | none => s
      | some { fiber := some f, .. } => s.setPc t (.gotFiber f false)
      | some { cb := some c, .. } => s.setPc t (.gotCb c)
      | some _ => s
  else none

def acquire (s : System) (t : Nat) : Option System :=
  match s.pc t with
  | .gotCb c =>
    let (p, h) := FiberPool.getLocalFiberPool (s.pool t) s.heap
    (p.acquire h c).map fun (f, p, h) =>
      ({ s with heap := h, pool := Function.update s.pool t (some p) }.setOwed f (some c)).setPc t
        (.gotFiber f true)
  | _ => none

/-- The mutex of the fiber has to be free. A fiber task that is `TERM` is not resumed. -/
def resume (s : System) (t : Nat) : Option System :=
  match s.pc t with
  | .gotFiber f isCb =>
    if s.locked f then none
    else if isCb = false ∧ (s.heap.fiber f).m_state = .TERM then some (s.setPc t (.returned f))
    else do
      let x ← (s.heap.fiber f).resume
      let c ← x.code
      some (({ s with
        heap := s.heap.set f x
        resumes := s.resumes ++ [(c, s.owed f)] }.setLocked f true).setPc t (.running f c))
  | _ => none

/-- The fiber runs on to its next pause, or returns from its body. -/
def exec (s : System) (t : Nat) : Option System :=
  match s.pc t with
  | .running f (.wake g) =>
    some (((s.push (.fiber (some g)) (-1)).setOwed f (some (.body []))).setPc t
      (.running f (.body [])))
  | .running f (.body []) =>
    (s.heap.fiber f).finish.map fun x =>
      (({ s with heap := s.heap.set f x }.setOwed f none).setLocked f false).setPc t (.returned f)
  | .running f (.body (p :: rest)) =>
    let s := match p with
      | .sleep => { s with timers := s.timers ++ [f] }
      | .connect => { s with events := s.events ++ [f] }
      | .doIo => { s with events := s.events ++ [f] }
    some ((s.setOwed f (some (.body rest))).setPc t (.pausing f p rest))
  | _ => none

def switch (s : System) (t : Nat) : Option System :=
  match s.pc t with
  | .pausing f p rest =>
    let x := match p with
      | .doIo => (s.heap.fiber f).suspend (some (.body rest))
      | _ => (s.heap.fiber f).yield (some (.body rest))
    x.map fun x =>
      ({ s with heap := s.heap.set f x }.setLocked f false).setPc t (.returned f)
  | _ => none

/-- Only a fiber that is `SUSPEND` is not released. -/
def release (s : System) (t : Nat) : Option System :=
  match s.pc t with
  | .returned f =>
    if (s.heap.fiber f).m_state = .SUSPEND then some (s.setPc t .loop)
    else
      let (p, h) := FiberPool.getLocalFiberPool (s.pool t) s.heap
      (p.release h f).map fun (p, h) =>
        { s with
          heap := h
          pool := Function.update s.pool t (some p)
          releases := s.releases ++ [(f, s.owed f)] }.setPc t .loop
  | _ => none

def fireTimer (s : System) (i : Nat) : Option System :=
  (s.timers[i]?).map fun f =>
    { s with timers := s.timers.eraseIdx i }.push (.cb (some (.wake f))) (-1)

def triggerEvent (s : System) (i : Nat) : Option System :=
  (s.events[i]?).map fun f =>
    { s with events := s.events.eraseIdx i }.push (.fiber (some f)) (-1)

def step (s : System) : WorkerAct → Option System
  | .submitFiber body thread => some (s.submitFiber body thread)
  | .submitCb body thread => some (s.submitCb body thread)
  | .dequeue t => s.dequeue t
  | .acquire t => s.acquire t
  | .resume t => s.resume t
  | .exec t => s.exec t
  | .switch t => s.switch t
  | .release t => s.release t
  | .fireTimer i => s.fireTimer i
  | .triggerEvent i => s.triggerEvent i

/-- A pending timer, event context or task still refers to the fiber. -/
def Referenced (s : System) (f : Nat) : Prop :=
  f ∈ s.timers ∨ f ∈ s.events ∨
    ∃ k ∈ s.m_tasks, k.fiber = some f ∨ k.cb = some (.wake f)

/-- No unfinished body was thrown away, every resumed fiber went on with its own body, and
the idle fibers are free. -/
structure NothingLost (s : System) : Prop where
  releases : ∀ r ∈ s.releases, r.2 = none
  resumes : ∀ r ∈ s.resumes, r.2 = some r.1
  idle : ∀ t p, s.pool t = some p → ∀ f ∈ p.m_idleFibers, ¬ s.Referenced f

/-- The thread runs a fiber up to a call that yields before the fiber has finished. -/
def atPlainYield : Pc → Bool
  | .running _ (.body (p :: _)) => p ≠ .doIo
  | _ => false

/-- The step takes no fiber to a call that yields. -/
def NoPlainYield (s : System) : WorkerAct → Prop
  | .exec t => atPlainYield (s.pc t) = false
  | _ => True

instance (s : System) : (a : WorkerAct) → Decidable (s.NoPlainYield a)
  | .exec t => inferInstanceAs (Decidable (atPlainYield (s.pc t) = false))
  | .submitFiber .. | .submitCb .. | .dequeue _ | .acquire _ | .resume _ | .switch _
  | .release _ | .fireTimer _ | .triggerEvent _ => isTrue trivial

end System
end Workplace.Coroutine
