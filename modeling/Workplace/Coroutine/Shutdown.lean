import Workplace.Coroutine.TaskQueue
import Workplace.Coroutine.Timer
import Mathlib.Algebra.BigOperators.Fin

/-! Shutting an `IOManager` down: `Scheduler::run`, `IOManager::idle` and the three reads of
`IOManager::stopping` on every thread, in any interleaving, from the construction of the
manager until the threads have left `run`. -/

namespace Workplace.Coroutine
open Workplace.Lib

/-- Where a thread is in `Scheduler::run`, or in its idle fiber. -/
inductive Phase (C W : Type) where
  -- the caller, before it has called `stop`
  | outside
  -- before the search for a task
  | loop
  | exec
  -- in `stopping`, before `getNextTimer`
  | readTimers
  -- in `stopping`, after `timeout == ~0ull`
  | readEvents
  -- in `stopping`, after `m_pendingEventCount == 0`
  | readScheduler
  | wait
  | polled
  -- handing on what `listExpiredCb` has collected
  | scheduleCbs (cbs : List (Option (TimerCb C W)))
  -- going through what `epoll_wait` has reported
  | handleEvents
  -- between `triggerEvent` and the decrement of the counter
  | decPending
  | left

/-- One atomic piece of what a task does, or the caller before `stop`. `cancelAll` is a
`scheduleLock` and a `delEvent` for each event. -/
inductive Effect (F C W : Type) where
  | scheduleLock (fc : FiberOrCb F (TimerCb C W)) (thread : Int)
  | addTimer (ms : UInt64) (cb : Option (TimerCb C W)) (recurring : Bool) (now : Int)
  | cancel (u : Nat)
  | refresh (u : Nat) (now : Int)
  -- the first locked section of `reset`
  | resetErase (u : Nat)
  -- what `reset` does after it
  | resetInsert (u : Nat) (ms : UInt64) (from_now : Bool) (now : Int)
  | addEvent
  | delEvent

def Effect.adds {F C W : Type} : Effect F C W → Bool
  | .addTimer .. | .resetInsert .. | .addEvent => true
  | _ => false

/-- An `IOManager` with `n` threads besides its caller, who is thread `0`. -/
structure Workers (n : Nat) (F C W : Type) where
  m_tasks : List (ScheduleTask F (TimerCb C W)) := []
  m_activeThreadCount : Nat := 0
  manager : TimerManager C W := {}
  m_pendingEventCount : Nat := 0
  m_stopping : Bool := false
  pc : Fin (n + 1) → Phase C W
  -- whether the idle fiber of the thread is `TERM`
  idleTerm : Fin (n + 1) → Bool := fun _ => false

inductive WorkersAct (n : Nat) (F C W : Type) where
  | work (t : Fin (n + 1)) (e : Effect F C W)
  | stop
  | dequeue (t : Fin (n + 1))
  | finish (t : Fin (n + 1))
  | readTimers (t : Fin (n + 1)) (now : Int)
  | readEvents (t : Fin (n + 1))
  | readScheduler (t : Fin (n + 1))
  | wait (t : Fin (n + 1)) (now : Int)
  | listExpiredCb (t : Fin (n + 1)) (fuel : Nat) (now nowAgain : Int)
  | scheduleCb (t : Fin (n + 1))
  | triggerEvent (t : Fin (n + 1)) (fc : FiberOrCb F (TimerCb C W))
  | decPending (t : Fin (n + 1))
  | yield (t : Fin (n + 1))

namespace Phase
variable {C W : Type}

def isExec : Phase C W → Bool
  | .exec => true
  | _ => false

/-- A phase that a thread is in only as long as its idle fiber is not `TERM`. -/
def isLive : Phase C W → Bool
  | .loop | .exec | .left => false
  | _ => true

/-- `stopping` has found no timer. -/
def sawNoTimers : Phase C W → Bool
  | .readEvents | .readScheduler => true
  | _ => false

def sawNoEvents : Phase C W → Bool
  | .readScheduler => true
  | _ => false

end Phase

/-- The difference that `getNextTimer` takes fits into the 64 bits of the clock. -/
def TimerManager.clockFits {C W : Type} (m : TimerManager C W) (now : Int) : Bool :=
  m.m_timers.head?.all fun u => decide (m.next u - now < 2 ^ 63)

namespace Workers
variable {n : Nat} {F C W : Type}

/-! ## The source -/

/-- As the constructor leaves it: the caller is outside, the other threads are started. -/
def init (m_previouseTime : Int) : Workers n F C W :=
  { manager := { m_previouseTime }, pc := fun t => if t = 0 then .outside else .loop }

def setPc (s : Workers n F C W) (t : Fin (n + 1)) (p : Phase C W) : Workers n F C W :=
  { s with pc := Function.update s.pc t p }

def push (s : Workers n F C W) (fc : FiberOrCb F (TimerCb C W)) (thread : Int) :
    Workers n F C W :=
  { s with m_tasks := (scheduleLock s.m_tasks fc thread).1 }

/-- The counter is decremented only for an event that it counts. -/
def decrement (s : Workers n F C W) : Option (Workers n F C W) :=
  if s.m_pendingEventCount = 0 then none
  else some { s with m_pendingEventCount := s.m_pendingEventCount - 1 }

def effect (s : Workers n F C W) : Effect F C W → Option (Workers n F C W)
  | .scheduleLock fc thread => some (s.push fc thread)
  | .addTimer ms cb recurring now =>
    some { s with manager := s.manager.addTimer ms cb recurring now }
  | .cancel u => some { s with manager := (s.manager.cancel u).2 }
  | .refresh u now => some { s with manager := (s.manager.refresh u now).2 }
  | .resetErase u => some { s with manager := (s.manager.resetErase u).getD s.manager }
  | .resetInsert u ms from_now now => some { s with
      manager := (s.manager.resetKey u ms from_now now).addSharedTimer u }
  | .addEvent => some { s with m_pendingEventCount := s.m_pendingEventCount + 1 }
  | .delEvent => s.decrement

def work (s : Workers n F C W) (t : Fin (n + 1)) (e : Effect F C W) :
    Option (Workers n F C W) :=
  match s.pc t with
  | .exec => s.effect e
  | .outside => s.effect e
  | _ => none

/-- `stop` of the caller, whose own `stopping()` is false before `m_stopping` is set. -/
def stop (s : Workers n F C W) : Option (Workers n F C W) :=
  match s.pc 0 with
  | .outside => some ({ s with m_stopping := true }.setPc 0 .loop)
  | _ => none

/-- One turn of `run` up to the task it takes or the idle fiber it resumes. -/
def dequeue (s : Workers n F C W) (t : Fin (n + 1)) : Option (Workers n F C W) :=
  match s.pc t with
  | .loop =>
    (Coroutine.dequeue id (t : Nat) s.m_tasks).map fun d =>
      let s := { s with m_tasks := d.m_tasks }
      match d.task with
      | some _ => { s with m_activeThreadCount := s.m_activeThreadCount + 1 }.setPc t .exec
      | none => s.setPc t (if s.idleTerm t then .left else .readTimers)
  | _ => none

def finish (s : Workers n F C W) (t : Fin (n + 1)) : Option (Workers n F C W) :=
  match s.pc t with
  | .exec => some ({ s with m_activeThreadCount := s.m_activeThreadCount - 1 }.setPc t .loop)
  | _ => none

def readTimers (s : Workers n F C W) (t : Fin (n + 1)) (now : Int) :
    Option (Workers n F C W) :=
  match s.pc t with
  | .readTimers =>
    if s.manager.clockFits now then
      let timeout := s.manager.getNextTimer now
      some ({ s with manager := timeout.2 }.setPc t
        (if timeout.1 = UInt64.ofNat (2 ^ 64 - 1) then .readEvents else .wait))
    else none
  | _ => none

def readEvents (s : Workers n F C W) (t : Fin (n + 1)) : Option (Workers n F C W) :=
  match s.pc t with
  | .readEvents =>
    some (s.setPc t (if s.m_pendingEventCount = 0 then .readScheduler else .wait))
  | _ => none

/-- `Scheduler::stopping`. Where it holds, the idle fiber returns and is `TERM`. -/
def readScheduler (s : Workers n F C W) (t : Fin (n + 1)) : Option (Workers n F C W) :=
  match s.pc t with
  | .readScheduler =>
    if s.m_stopping ∧ s.m_tasks = [] ∧ s.m_activeThreadCount = 0 then
      some ({ s with idleTerm := Function.update s.idleTerm t true }.setPc t .loop)
    else some (s.setPc t .wait)
  | _ => none

/-- The timeout for `epoll_wait`, which may return at any time before it. -/
def wait (s : Workers n F C W) (t : Fin (n + 1)) (now : Int) : Option (Workers n F C W) :=
  match s.pc t with
  | .wait => some ({ s with manager := (s.manager.getNextTimer now).2 }.setPc t .polled)
  | _ => none

def listExpiredCb (s : Workers n F C W) (t : Fin (n + 1)) (fuel : Nat) (now nowAgain : Int) :
    Option (Workers n F C W) :=
  match s.pc t with
  | .polled =>
    (s.manager.listExpiredCb fuel now nowAgain).map fun (expired, manager) =>
      { s with manager }.setPc t (.scheduleCbs (expired.map Prod.snd))
  | _ => none

def scheduleCb (s : Workers n F C W) (t : Fin (n + 1)) : Option (Workers n F C W) :=
  match s.pc t with
  | .scheduleCbs [] => some (s.setPc t .handleEvents)
  | .scheduleCbs (cb :: cbs) => some ((s.push (.cb cb) (-1)).setPc t (.scheduleCbs cbs))
  | _ => none

def triggerEvent (s : Workers n F C W) (t : Fin (n + 1)) (fc : FiberOrCb F (TimerCb C W)) :
    Option (Workers n F C W) :=
  match s.pc t with
  | .handleEvents =>
    if s.m_pendingEventCount = 0 then none
    else some ((s.push fc (-1)).setPc t .decPending)
  | _ => none

def decPending (s : Workers n F C W) (t : Fin (n + 1)) : Option (Workers n F C W) :=
  match s.pc t with
  | .decPending => s.decrement.map fun s => s.setPc t .handleEvents
  | _ => none

def yield (s : Workers n F C W) (t : Fin (n + 1)) : Option (Workers n F C W) :=
  match s.pc t with
  | .handleEvents => some (s.setPc t .loop)
  | _ => none

def step (s : Workers n F C W) : WorkersAct n F C W → Option (Workers n F C W)
  | .work t e => s.work t e
  | .stop => s.stop
  | .dequeue t => s.dequeue t
  | .finish t => s.finish t
  | .readTimers t now => s.readTimers t now
  | .readEvents t => s.readEvents t
  | .readScheduler t => s.readScheduler t
  | .wait t now => s.wait t now
  | .listExpiredCb t fuel now nowAgain => s.listExpiredCb t fuel now nowAgain
  | .scheduleCb t => s.scheduleCb t
  | .triggerEvent t fc => s.triggerEvent t fc
  | .decPending t => s.decPending t
  | .yield t => s.yield t

def AllLeft (s : Workers n F C W) : Prop := ∀ t, s.pc t = .left

structure Drained (s : Workers n F C W) : Prop where
  tasks : s.m_tasks = []
  timers : s.manager.m_timers = []
  events : s.m_pendingEventCount = 0

/-- No timer or event is added on a thread whose idle fiber is `TERM`. -/
def AddsInTime (s : Workers n F C W) : WorkersAct n F C W → Prop
  | .work t e => e.adds → s.idleTerm t = false
  | _ => True

instance (s : Workers n F C W) : (a : WorkersAct n F C W) → Decidable (s.AddsInTime a)
  | .work t e => inferInstanceAs (Decidable (e.adds → s.idleTerm t = false))
  | .stop | .dequeue _ | .finish _ | .readTimers .. | .readEvents _ | .readScheduler _
  | .wait .. | .listExpiredCb .. | .scheduleCb _ | .triggerEvent .. | .decPending _
  | .yield _ => isTrue trivial

/-! ## Timers -/

section Timers
variable {m m' : TimerManager C W} {now : Int}

@[simp] theorem getNextTimer_m_timers : (m.getNextTimer now).2.m_timers = m.m_timers := by
  rw [TimerManager.getNextTimer_snd]

/-- `~0ull` is returned for the empty set only. -/
theorem m_timers_eq_nil_of_getNextTimer (hfits : m.clockFits now)
    (hmax : (m.getNextTimer now).1 = UInt64.ofNat (2 ^ 64 - 1)) : m.m_timers = [] := by
  cases hm : m.m_timers with
  | nil => rfl
  | cons u us =>
    simp only [TimerManager.clockFits, hm, List.head?_cons, Option.all_some,
      decide_eq_true_eq] at hfits
    have hmax := congrArg UInt64.toNat hmax
    rw [TimerManager.getNextTimer_fst (t := u) (by rw [hm]; rfl)] at hmax
    split_ifs at hmax with hdue
    · simp at hmax
    · have hpos : 0 ≤ m.next u - now := by omega
      rw [Int.tdiv_eq_ediv_of_nonneg hpos, UInt64.ofInt] at hmax
      simp only [UInt64.toNat_ofNat'] at hmax
      omega

theorem effect_m_timers {s s' : Workers n F C W} {e : Effect F C W} (hs : s.effect e = some s')
    (he : e.adds = false) (hm : s.manager.m_timers = []) : s'.manager.m_timers = [] := by
  cases e with
  | scheduleLock fc thread =>
    obtain rfl := Option.some.inj hs
    exact hm
  | cancel u =>
    obtain rfl := Option.some.inj hs
    simp only [TimerManager.cancel]
    split_ifs
    · exact hm
    · simp [TimerManager.erase, TimerManager.set, hm, OrderedSet.erase]
  | refresh u now =>
    obtain rfl := Option.some.inj hs
    have hfind : (s.manager.find u).isNone := by simp [TimerManager.find, hm, OrderedSet.find]
    simp [TimerManager.refresh, hfind, hm]
  | resetErase u =>
    obtain rfl := Option.some.inj hs
    have hfind : (s.manager.find u).isNone := by simp [TimerManager.find, hm, OrderedSet.find]
    simp [TimerManager.resetErase, hfind, hm]
  | delEvent =>
    obtain ⟨-, hs⟩ := Option.ite_none_left_eq_some.mp hs
    obtain rfl := Option.some.inj hs
    exact hm
  | addTimer => simp [Effect.adds] at he
  | resetInsert => simp [Effect.adds] at he
  | addEvent => simp [Effect.adds] at he

theorem expireLoop_of_nil (hm : m.m_timers = []) (rollover : Bool) (now : Int) (fuel : Nat) :
    m.expireLoop rollover now fuel = some ([], m) := by
  have hdue : m.due rollover now = none := by simp [TimerManager.due, hm]
  cases fuel <;> simp [TimerManager.expireLoop, hdue]

theorem listExpiredCb_m_timers {fuel : Nat} {nowAgain : Int}
    {expired : List (Nat × Option (TimerCb C W))}
    (h : m.listExpiredCb fuel now nowAgain = some (expired, m')) (hm : m.m_timers = []) :
    m'.m_timers = [] := by
  have hnil : (m.detectClockRollover nowAgain).2.m_timers = [] := hm
  have hloop := (expireLoop_of_nil hnil (m.detectClockRollover nowAgain).1 now fuel).symm.trans h
  obtain ⟨-, rfl⟩ := Prod.mk.inj (Option.some.inj hloop)
  exact hm

end Timers

/-! ## The invariant -/

def executing (pc : Fin (n + 1) → Phase C W) : Nat := ∑ t, (pc t).isExec.toNat

theorem executing_update (pc : Fin (n + 1) → Phase C W) (t : Fin (n + 1)) (p : Phase C W) :
    executing (Function.update pc t p) + (pc t).isExec.toNat =
      executing pc + p.isExec.toNat := by
  have hrest : ∑ u ∈ Finset.univ.erase t, (Function.update pc t p u).isExec.toNat =
      ∑ u ∈ Finset.univ.erase t, (pc u).isExec.toNat :=
    Finset.sum_congr rfl fun u hu => by rw [Function.update_of_ne (Finset.ne_of_mem_erase hu)]
  rw [executing, executing, ← Finset.add_sum_erase _ _ (Finset.mem_univ t),
    ← Finset.add_sum_erase _ (fun u => (pc u).isExec.toNat) (Finset.mem_univ t), hrest,
    Function.update_self]
  omega

theorem executing_pos {pc : Fin (n + 1) → Phase C W} {t : Fin (n + 1)} (h : pc t = .exec) :
    0 < executing pc := by
  refine Finset.sum_pos' (fun _ _ => Nat.zero_le _) ⟨t, Finset.mem_univ t, ?_⟩
  rw [h]
  exact Nat.one_pos

/-- Some thread whose idle fiber goes on has not seen that something is empty. -/
def Looking (saw : Phase C W → Bool) (s : Workers n F C W) : Prop :=
  ∃ t, s.idleTerm t = false ∧ saw (s.pc t) = false

/-- As long as there is a timer or an event, some thread is going to look for it again. Once
the idle fibers are all `TERM`, no task is queued or executed. -/
structure Drains (s : Workers n F C W) : Prop where
  active : s.m_activeThreadCount = executing s.pc
  live : ∀ t, (s.pc t).isLive → s.idleTerm t = false
  left : ∀ t, s.pc t = .left → s.idleTerm t = true
  timers : s.manager.m_timers ≠ [] → Looking Phase.sawNoTimers s
  events : s.m_pendingEventCount ≠ 0 → Looking Phase.sawNoEvents s
  last : (∀ t, s.idleTerm t = true) → s.m_tasks = [] ∧ s.m_activeThreadCount = 0

theorem drains_init (prev : Int) : Drains (init prev : Workers n F C W) where
  active := by
    have hnone : ∀ t, ((init prev : Workers n F C W).pc t).isExec.toNat = 0 := by
      intro t
      simp only [init]
      split_ifs <;> rfl
    simp only [executing, hnone, Finset.sum_const_zero]
    rfl
  live := fun _ _ => rfl
  left := by
    intro t ht
    simp only [init] at ht
    split_ifs at ht
  timers := by simp [init]
  events := by simp [init]
  last := fun h => absurd (h 0) (by simp [init])

variable {s s' : Workers n F C W} {t : Fin (n + 1)} {p : Phase C W}

theorem Drains.not_last (h : Drains s) (ht : s.pc t = .exec ∨ (s.pc t).isLive) :
    ¬ ∀ u, s.idleTerm u = true := by
  intro hall
  rcases ht with ht | ht
  · have hpos := executing_pos ht
    rw [← h.active, (h.last hall).2] at hpos
    exact absurd hpos (Nat.lt_irrefl 0)
  · exact absurd (h.live t ht) (by simp [hall t])

/-- `s'` is `s` after the thread `t` has moved on to `p`, with no idle fiber ended. -/
structure Moved (s s' : Workers n F C W) (t : Fin (n + 1)) (p : Phase C W) : Prop where
  pc : s'.pc = Function.update s.pc t p
  idleTerm : s'.idleTerm = s.idleTerm

structure SameThreads (s s₁ : Workers n F C W) : Prop where
  pc : s₁.pc = s.pc
  idleTerm : s₁.idleTerm = s.idleTerm
  active : s₁.m_activeThreadCount = s.m_activeThreadCount

theorem SameThreads.moved {s₁ : Workers n F C W} (hk : SameThreads s s₁) (t : Fin (n + 1))
    (p : Phase C W) : Moved s (s₁.setPc t p) t p :=
  ⟨by rw [setPc, hk.pc], hk.idleTerm⟩

theorem Moved.looking {saw : Phase C W → Bool} (hm : Moved s s' t p) (h : Looking saw s)
    (hsaw : saw p → saw (s.pc t)) : Looking saw s' := by
  obtain ⟨u, hu, hp⟩ := h
  refine ⟨u, by rw [hm.idleTerm, hu], ?_⟩
  rw [hm.pc]
  by_cases hut : u = t
  · subst hut
    rw [Function.update_self]
    simpa [hp] using hsaw
  · rw [Function.update_of_ne hut, hp]

theorem Moved.forall {P : Phase C W → Bool → Prop} (hm : Moved s s' t p)
    (h : ∀ u, P (s.pc u) (s.idleTerm u)) (hp : P p (s.idleTerm t)) (u : Fin (n + 1)) :
    P (s'.pc u) (s'.idleTerm u) := by
  rw [hm.pc, hm.idleTerm]
  by_cases hut : u = t
  · rw [hut, Function.update_self]
    exact hp
  · rw [Function.update_of_ne hut]
    exact h u

theorem Moved.looking_self {saw : Phase C W → Bool} (hm : Moved s s' t p)
    (ht : s.idleTerm t = false) (hp : saw p = false) : Looking saw s' :=
  ⟨t, by rw [hm.idleTerm, ht], by rw [hm.pc, Function.update_self, hp]⟩

/-- **One thread moves** and no idle fiber ends. -/
theorem Drains.move (h : Drains s) (hm : Moved s s' t p)
    (hactive : s'.m_activeThreadCount + (s.pc t).isExec.toNat =
      s.m_activeThreadCount + p.isExec.toNat)
    (hlive : p.isLive → s.idleTerm t = false) (hleft : p = .left → s.idleTerm t = true)
    (htimers : s'.manager.m_timers ≠ [] → Looking Phase.sawNoTimers s')
    (hevents : s'.m_pendingEventCount ≠ 0 → Looking Phase.sawNoEvents s')
    (hlast : (∀ u, s.idleTerm u = true) → s'.m_tasks = [] ∧ s'.m_activeThreadCount = 0) :
    Drains s' where
  active := by
    have hupd := executing_update s.pc t p
    have hold := h.active
    rw [hm.pc]
    omega
  live := hm.forall (P := fun q b => q.isLive → b = false) h.live hlive
  left := hm.forall (P := fun q b => q = .left → b = true) h.left hleft
  timers := htimers
  events := hevents
  last := by
    intro hall
    rw [hm.idleTerm] at hall
    exact hlast hall

/-- **The idle fiber takes a step**, or the caller calls `stop`. -/
theorem Drains.idleStep (h : Drains s) {s₁ : Workers n F C W} (hk : SameThreads s s₁)
    (ht : (s.pc t).isLive) (hp : p.isLive ∨ p = .loop)
    (htimers : s₁.manager.m_timers ≠ [] →
      s.manager.m_timers ≠ [] ∧ (p.sawNoTimers → (s.pc t).sawNoTimers))
    (hevents : s₁.m_pendingEventCount ≠ 0 →
      s.m_pendingEventCount ≠ 0 ∧ (p.sawNoEvents → (s.pc t).sawNoEvents)) :
    Drains (s₁.setPc t p) := by
  have hm := hk.moved t p
  have hexec {q : Phase C W} (hq : q.isLive ∨ q = .loop) : q.isExec = false := by
    cases q <;> simp_all [Phase.isLive, Phase.isExec]
  refine h.move hm ?_ (fun _ => h.live t ht) ?_ (fun hne => ?_) (fun hne => ?_)
    fun hall => absurd hall (h.not_last (.inr ht))
  · rw [hexec hp, hexec (.inl ht)]
    exact hk.active
  · rintro rfl
    simp [Phase.isLive] at hp
  · obtain ⟨hold, hsaw⟩ := htimers hne
    exact hm.looking (h.timers hold) hsaw
  · obtain ⟨hold, hsaw⟩ := hevents hne
    exact hm.looking (h.events hold) hsaw

theorem Drains.poll (h : Drains s) {s₁ : Workers n F C W} (hk : SameThreads s s₁)
    (ht : (s.pc t).isLive) (hp : p.isLive ∨ p = .loop)
    (hsaw : p.sawNoTimers = false ∧ p.sawNoEvents = false)
    (htimers : s.manager.m_timers = [] → s₁.manager.m_timers = [])
    (hevents : s.m_pendingEventCount = 0 → s₁.m_pendingEventCount = 0) :
    Drains (s₁.setPc t p) :=
  h.idleStep hk ht hp (fun hne => ⟨mt htimers hne, by simp [hsaw.1]⟩)
    fun hne => ⟨mt hevents hne, by simp [hsaw.2]⟩

/-! ## The steps -/

theorem effect_sameThreads {e : Effect F C W} (hs : s.effect e = some s') :
    SameThreads s s' := by
  cases e with
  | delEvent =>
    obtain ⟨-, hs⟩ := Option.ite_none_left_eq_some.mp hs
    obtain rfl := Option.some.inj hs
    exact ⟨rfl, rfl, rfl⟩
  | _ =>
    obtain rfl := Option.some.inj hs
    exact ⟨rfl, rfl, rfl⟩

theorem effect_pending {e : Effect F C W} (hs : s.effect e = some s') (he : e.adds = false)
    (hp : s.m_pendingEventCount = 0) : s'.m_pendingEventCount = 0 := by
  cases e with
  | delEvent => exact absurd hp (Option.ite_none_left_eq_some.mp hs).1
  | addEvent => simp [Effect.adds] at he
  | _ =>
    obtain rfl := Option.some.inj hs
    exact hp

theorem work_some {e : Effect F C W} (hs : s.work t e = some s') :
    (s.pc t = .exec ∨ s.pc t = .outside) ∧ s.effect e = some s' := by
  unfold work at hs
  split at hs
  case h_1 hpc => exact ⟨.inl hpc, hs⟩
  case h_2 hpc => exact ⟨.inr hpc, hs⟩
  case h_3 => simp at hs

theorem Drains.work (h : Drains s) {e : Effect F C W} (hg : e.adds → s.idleTerm t = false)
    (hs : s.work t e = some s') : Drains s' := by
  obtain ⟨hpc, heff⟩ := work_some hs
  have hk := effect_sameThreads heff
  have hm : Moved s s' t (s.pc t) := ⟨by rw [hk.pc, Function.update_eq_self], hk.idleTerm⟩
  have hlate : ¬ ∀ u, s.idleTerm u = true := by
    refine h.not_last (hpc.imp_right fun hout => ?_)
    rw [hout]
    rfl
  have hsaw : (s.pc t).sawNoTimers = false ∧ (s.pc t).sawNoEvents = false ∧
      s.pc t ≠ .left := by
    rcases hpc with hpc | hpc <;> simp [hpc, Phase.sawNoTimers, Phase.sawNoEvents]
  refine h.move hm (by rw [hk.active]) (h.live t) (fun hl => absurd hl hsaw.2.2)
    (fun hne => ?_) (fun hne => ?_) fun hall => absurd hall hlate
  · by_cases hadds : e.adds
    · exact hm.looking_self (hg hadds) hsaw.1
    · have hold : s.manager.m_timers ≠ [] := fun hnil =>
        hne (effect_m_timers heff (by simpa using hadds) hnil)
      exact hm.looking (h.timers hold) id
  · by_cases hadds : e.adds
    · exact hm.looking_self (hg hadds) hsaw.2.1
    · have hold : s.m_pendingEventCount ≠ 0 := fun hzero =>
        hne (effect_pending heff (by simpa using hadds) hzero)
      exact hm.looking (h.events hold) id

theorem Drains.runStep (h : Drains s) (hm : Moved s s' t p)
    (hactive : s'.m_activeThreadCount + (s.pc t).isExec.toNat =
      s.m_activeThreadCount + p.isExec.toNat)
    (hlive : p.isLive → s.idleTerm t = false) (hleft : p = .left → s.idleTerm t = true)
    (hsaw : p.sawNoTimers = false ∧ p.sawNoEvents = false)
    (htimers : s'.manager = s.manager)
    (hevents : s'.m_pendingEventCount = s.m_pendingEventCount)
    (hlast : (∀ u, s.idleTerm u = true) → s'.m_tasks = [] ∧ s'.m_activeThreadCount = 0) :
    Drains s' := by
  refine h.move hm hactive hlive hleft (fun hne => ?_) (fun hne => ?_) hlast
  · rw [htimers] at hne
    exact hm.looking (h.timers hne) (by simp [hsaw.1])
  · rw [hevents] at hne
    exact hm.looking (h.events hne) (by simp [hsaw.2])

theorem Drains.dequeue (h : Drains s) (hs : s.dequeue t = some s') : Drains s' := by
  unfold Workers.dequeue at hs
  split at hs
  case h_2 => simp at hs
  case h_1 hpc =>
    obtain ⟨d, hd, rfl⟩ := Option.map_eq_some_iff.mp hs
    -- the search finds nothing in an empty queue
    have hnil (hall : ∀ u, s.idleTerm u = true) : d.task = none ∧ d.m_tasks = [] := by
      rw [(h.last hall).1] at hd
      obtain rfl := Option.some.inj hd
      exact ⟨rfl, rfl⟩
    cases htask : d.task with
    | some k =>
      refine h.runStep (t := t) (p := .exec) ⟨rfl, rfl⟩ ?_ (by simp [Phase.isLive]) (by simp)
        ⟨rfl, rfl⟩ rfl rfl fun hall => ?_
      · simp [hpc, Phase.isExec, setPc]
      · simp [(hnil hall).1] at htask
    | none =>
      refine h.runStep (t := t) (p := if s.idleTerm t then .left else .readTimers) ⟨rfl, rfl⟩
        ?_ ?_ ?_ ?_ rfl rfl fun hall => ⟨(hnil hall).2, (h.last hall).2⟩
      · rw [hpc]
        split_ifs <;> rfl
      · split_ifs with hterm <;> simp [hterm, Phase.isLive]
      · split_ifs with hterm <;> simp [hterm]
      · split_ifs <;> exact ⟨rfl, rfl⟩

theorem Drains.finish (h : Drains s) (hs : s.finish t = some s') : Drains s' := by
  unfold Workers.finish at hs
  split at hs
  case h_2 => simp at hs
  case h_1 hpc =>
    obtain rfl := Option.some.inj hs
    have hpos := executing_pos hpc
    rw [← h.active] at hpos
    refine h.runStep (t := t) (p := .loop) ⟨rfl, rfl⟩ ?_ (by simp [Phase.isLive]) (by simp)
      ⟨rfl, rfl⟩ rfl rfl fun hall => absurd hall (h.not_last (.inl hpc))
    simp only [hpc, Phase.isExec, setPc, Bool.toNat_true, Bool.toNat_false]
    omega

/-- A thread ends its idle fiber. Whoever looks for timers or events is another one. -/
theorem Drains.endIdle (h : Drains s) (hpc : s.pc t = .readScheduler) (htasks : s.m_tasks = [])
    (hzero : s.m_activeThreadCount = 0) :
    Drains ({ s with idleTerm := Function.update s.idleTerm t true }.setPc t .loop) := by
  have hother {saw : Phase C W → Bool} (hsaw : saw .readScheduler) (hl : Looking saw s) :
      Looking saw ({ s with idleTerm := Function.update s.idleTerm t true }.setPc t .loop) := by
    obtain ⟨u, hu, hp⟩ := hl
    have hne : u ≠ t := by
      rintro rfl
      simp [hpc, hsaw] at hp
    exact ⟨u, by simp [setPc, hne, hu], by simp [setPc, hne, hp]⟩
  refine ⟨?_, fun u hu => ?_, fun u hu => ?_, fun hne => ?_, fun hne => ?_, fun _ => ?_⟩
  · have hupd := executing_update s.pc t .loop
    rw [hpc] at hupd
    simpa [setPc, Phase.isExec, h.active] using hupd.symm
  · by_cases hut : u = t
    · simp [hut, setPc, Phase.isLive] at hu
    · simp only [setPc, Function.update_of_ne hut] at hu ⊢
      exact h.live u hu
  · by_cases hut : u = t
    · simp [hut, setPc] at hu
    · simp only [setPc, Function.update_of_ne hut] at hu ⊢
      exact h.left u hu
  · exact hother rfl (h.timers hne)
  · exact hother rfl (h.events hne)
  · exact ⟨htasks, hzero⟩

theorem Drains.readScheduler (h : Drains s) (hs : s.readScheduler t = some s') : Drains s' := by
  unfold Workers.readScheduler at hs
  split at hs
  case h_2 => simp at hs
  case h_1 hpc =>
    split_ifs at hs with hstop
    · obtain rfl := Option.some.inj hs
      exact h.endIdle hpc hstop.2.1 hstop.2.2
    · obtain rfl := Option.some.inj hs
      refine h.idleStep ⟨rfl, rfl, rfl⟩ (by rw [hpc]; rfl) (.inl rfl) ?_ ?_
      · exact fun hne => ⟨hne, by simp [Phase.sawNoTimers]⟩
      · exact fun hne => ⟨hne, by simp [Phase.sawNoEvents]⟩

theorem Drains.readTimers (h : Drains s) {now : Int} (hs : s.readTimers t now = some s') :
    Drains s' := by
  unfold Workers.readTimers at hs
  split at hs
  case h_2 => simp at hs
  case h_1 hpc =>
    obtain ⟨hfits, hs⟩ := Option.ite_none_right_eq_some.mp hs
    obtain rfl := Option.some.inj hs
    refine h.idleStep ⟨rfl, rfl, rfl⟩ (by rw [hpc]; rfl) ?_ (fun hne => ?_) fun hne => ⟨hne, ?_⟩
    · split_ifs <;> exact .inl rfl
    · rw [getNextTimer_m_timers] at hne
      refine ⟨hne, ?_⟩
      rw [if_neg fun hmax => hne (m_timers_eq_nil_of_getNextTimer hfits hmax)]
      simp [Phase.sawNoTimers]
    · split_ifs <;> simp [Phase.sawNoEvents]

theorem Drains.readEvents (h : Drains s) (hs : s.readEvents t = some s') : Drains s' := by
  unfold Workers.readEvents at hs
  split at hs
  case h_2 => simp at hs
  case h_1 hpc =>
    obtain rfl := Option.some.inj hs
    refine h.idleStep ⟨rfl, rfl, rfl⟩ (by rw [hpc]; rfl) ?_
      (fun hne => ⟨hne, fun _ => by rw [hpc]; rfl⟩) fun hne => ⟨hne, ?_⟩
    · split_ifs <;> exact .inl rfl
    · rw [if_neg hne]
      simp [Phase.sawNoEvents]

theorem Drains.listExpiredCb (h : Drains s) {fuel : Nat} {now nowAgain : Int}
    (hs : s.listExpiredCb t fuel now nowAgain = some s') : Drains s' := by
  unfold Workers.listExpiredCb at hs
  split at hs
  case h_2 => simp at hs
  case h_1 hpc =>
    obtain ⟨⟨expired, manager⟩, hexp, rfl⟩ := Option.map_eq_some_iff.mp hs
    exact h.poll ⟨rfl, rfl, rfl⟩ (by rw [hpc]; rfl) (.inl rfl) ⟨rfl, rfl⟩
      (listExpiredCb_m_timers hexp) id

theorem Drains.scheduleCb (h : Drains s) (hs : s.scheduleCb t = some s') : Drains s' := by
  unfold Workers.scheduleCb at hs
  split at hs
  case h_1 hpc =>
    obtain rfl := Option.some.inj hs
    exact h.poll ⟨rfl, rfl, rfl⟩ (by rw [hpc]; rfl) (.inl rfl) ⟨rfl, rfl⟩ id id
  case h_2 cb cbs hpc =>
    obtain rfl := Option.some.inj hs
    exact h.poll ⟨rfl, rfl, rfl⟩ (by rw [hpc]; rfl) (.inl rfl)
      ⟨rfl, rfl⟩ id id
  case h_3 => simp at hs

theorem Drains.triggerEvent (h : Drains s) {fc : FiberOrCb F (TimerCb C W)}
    (hs : s.triggerEvent t fc = some s') : Drains s' := by
  unfold Workers.triggerEvent at hs
  split at hs
  case h_2 => simp at hs
  case h_1 hpc =>
    obtain ⟨-, hs⟩ := Option.ite_none_left_eq_some.mp hs
    obtain rfl := Option.some.inj hs
    exact h.poll ⟨rfl, rfl, rfl⟩ (by rw [hpc]; rfl) (.inl rfl) ⟨rfl, rfl⟩
      id id

theorem Drains.decPending (h : Drains s) (hs : s.decPending t = some s') : Drains s' := by
  unfold Workers.decPending at hs
  split at hs
  case h_2 => simp at hs
  case h_1 hpc =>
    obtain ⟨s₁, hdec, rfl⟩ := Option.map_eq_some_iff.mp hs
    obtain ⟨hne, hdec⟩ := Option.ite_none_left_eq_some.mp hdec
    obtain rfl := Option.some.inj hdec
    exact h.poll ⟨rfl, rfl, rfl⟩
      (by rw [hpc]; rfl) (.inl rfl) ⟨rfl, rfl⟩ id fun hzero => absurd hzero hne

theorem Drains.step (h : Drains s) {a : WorkersAct n F C W} (hg : s.AddsInTime a)
    (hs : s.step a = some s') : Drains s' := by
  cases a with
  | work t e => exact h.work hg hs
  | dequeue t => exact h.dequeue hs
  | finish t => exact h.finish hs
  | readTimers t now => exact h.readTimers hs
  | readEvents t => exact h.readEvents hs
  | readScheduler t => exact h.readScheduler hs
  | listExpiredCb t fuel now nowAgain => exact h.listExpiredCb hs
  | scheduleCb t => exact h.scheduleCb hs
  | triggerEvent t fc => exact h.triggerEvent hs
  | decPending t => exact h.decPending hs
  | stop =>
    replace hs : s.stop = some s' := hs
    unfold Workers.stop at hs
    split at hs
    case h_2 => simp at hs
    case h_1 hpc =>
      obtain rfl := Option.some.inj hs
      exact h.poll ⟨rfl, rfl, rfl⟩ (by rw [hpc]; rfl) (.inr rfl)
        ⟨rfl, rfl⟩ id id
  | wait t now =>
    replace hs : s.wait t now = some s' := hs
    unfold Workers.wait at hs
    split at hs
    case h_2 => simp at hs
    case h_1 hpc =>
      obtain rfl := Option.some.inj hs
      exact h.poll ⟨rfl, rfl, rfl⟩ (by rw [hpc]; rfl) (.inl rfl) ⟨rfl, rfl⟩
        getNextTimer_m_timers.trans id
  | yield t =>
    replace hs : s.yield t = some s' := hs
    unfold Workers.yield at hs
    split at hs
    case h_2 => simp at hs
    case h_1 hpc =>
      obtain rfl := Option.some.inj hs
      exact h.poll ⟨rfl, rfl, rfl⟩ (by rw [hpc]; rfl) (.inr rfl) ⟨rfl, rfl⟩ id id

theorem Drains.drained (h : Drains s) (hleft : AllLeft s) : Drained s := by
  have hterm : ∀ t, s.idleTerm t = true := fun t => h.left t (hleft t)
  have hnone {saw : Phase C W → Bool} : ¬ Looking saw s := by
    rintro ⟨t, ht, -⟩
    simp [hterm t] at ht
  refine ⟨(h.last hterm).1, ?_, ?_⟩
  · by_contra hne
    exact hnone (h.timers hne)
  · by_contra hne
    exact hnone (h.events hne)

/-- **Shutdown drops no work** in a run in which no task adds a timer or an event on a thread
whose idle fiber is already `TERM`: whatever the interleaving, nothing is left once every
thread has left `run`. -/
theorem drained_of_addsInTime (prev : Int) (acts : List (WorkersAct n F C W))
    (s : Workers n F C W) (hg : Guarded AddsInTime step (init prev) acts)
    (hrun : run step (init prev) acts = some s) (hleft : AllLeft s) : Drained s := by
  have h : Drains s :=
    run_invariant acts (fun hi hg hs => hi.step hg hs) (drains_init prev) hg hrun
  exact h.drained hleft

/-- The callback of the caller's timer is on its way to the queue when the caller's own idle
fiber finds everything empty and ends. The caller still takes the callback, which adds a timer
just after the other thread has looked for timers for the last time. -/
theorem shutdown_leaves_timer : ¬ ∀ (n : Nat) (prev : Int)
    (acts : List (WorkersAct n Unit Unit Unit)) (s : Workers n Unit Unit Unit),
    run step (init prev) acts = some s → AllLeft s → Drained s := by
  intro h
  have hdrained := h 1 0 [.work 0 (.addTimer 5 (some (.function ())) false 0), .stop,
    .dequeue 1, .readTimers 1 0, .wait 1 0, .listExpiredCb 1 1 5000000 5000000,
    .dequeue 0, .readTimers 0 5000000, .readEvents 0, .readScheduler 0,
    .scheduleCb 1, .scheduleCb 1, .yield 1, .dequeue 0, .dequeue 1, .readTimers 1 5000000,
    .work 0 (.addTimer 5 (some (.function ())) false 5000000), .finish 0,
    .readEvents 1, .readScheduler 1, .dequeue 1, .dequeue 0] _ rfl
    (fun t => by fin_cases t <;> rfl)
  exact absurd hdrained.timers (by decide)

/-- A timer and an event of the caller, each handled before the threads leave. -/
theorem drained_of_addsInTime_twoThreads :
    let acts : List (WorkersAct 1 Unit Unit Unit) :=
      [.work 0 (.addTimer 5 (some (.function ())) false 0), .work 0 .addEvent, .stop,
      .dequeue 1, .readTimers 1 0, .wait 1 0, .listExpiredCb 1 1 5000000 5000000,
      .scheduleCb 1, .scheduleCb 1, .triggerEvent 1 (.fiber (some ())), .decPending 1, .yield 1,
      .dequeue 0, .dequeue 1, .work 1 (.scheduleLock (.fiber (some ())) 0), .finish 0, .finish 1,
      .dequeue 0, .finish 0, .dequeue 1, .readTimers 1 5000000, .readEvents 1, .readScheduler 1,
      .dequeue 0, .readTimers 0 5000000, .readEvents 0, .readScheduler 0, .dequeue 0, .dequeue 1]
    ∃ s, run step (init 0) acts = some s ∧ Guarded AddsInTime step (init 0) acts ∧ AllLeft s ∧
      Drained s := by
  intro acts
  have hg : Guarded AddsInTime step (init 0) acts := by decide
  obtain ⟨s, hs, hleft⟩ : ∃ s, run step (init 0) acts = some s ∧ AllLeft s :=
    ⟨_, rfl, fun t => by fin_cases t <;> rfl⟩
  exact ⟨s, hs, hg, hleft, drained_of_addsInTime 0 acts s hg hs hleft⟩

end Workers
end Workplace.Coroutine
