import Workplace.Lib.CondVar
import Workplace.Lib.Potential

/-! `Scheduler::start`, and the threads that it creates. The constructor of `Thread` waits on the
semaphore of its object, which `Thread::run` signals once it has filled the object in. -/

namespace Workplace.Coroutine
open Workplace.Lib

structure Semaphore (κ : Type) where
  count : Nat := 0
  cv : CondVar κ := {}

namespace Semaphore
variable {κ : Type} [DecidableEq κ]

/-- The locked section of `wait`, from the test of its `while` on. -/
def test (s : Semaphore κ) (u : κ) : Semaphore κ :=
  if s.count = 0 then { s with cv := s.cv.wait u } else { s with count := s.count - 1 }

def signal (s : Semaphore κ) (notified : Option κ) : Option (Semaphore κ) :=
  (s.cv.notifyOne notified).map fun cv => { count := s.count + 1, cv }

end Semaphore

/-- The members of `Thread` that `run` and `start` use. A callback is known by a number. -/
structure Thread where
  m_id : Int := -1
  m_cb : Option Nat
  m_name : String
  m_semaphore : Semaphore Unit := {}

/-- The statement of `Thread::run` that comes next. -/
inductive RunPc where
  | t_thread
  | t_thread_name
  | m_id
  | swap
  | signal
  -- `cb()`
  | call
  deriving DecidableEq, Repr

/-- A thread in `Thread::run`, with its thread-local and local variables. -/
structure Running where
  pc : RunPc := .t_thread
  t_thread : Option Nat := none
  t_thread_name : String := "UNKNOWN"
  cb : Option Nat := none

inductive StartPc where
  -- at the head of the loop
  | creating (i : Nat)
  -- in the constructor of the `i`-th thread, at `m_semaphore.wait()`
  | waiting (i : Nat)
  | constructed (i : Nat)
  | returned
  | thrown (i : Nat)
  deriving DecidableEq, Repr

/-- A scheduler whose `m_mutex` is held by `start`. The threads are known by their places in
`m_threads`. -/
structure Starting where
  m_name : String
  m_threadCount : Nat
  m_threadIds : List Int
  m_threads : Nat → Option Thread := fun _ => none
  running : Nat → Option Running := fun _ => none
  start : StartPc

inductive StartAct where
  -- `pthread_create`, and whether it succeeds
  | create (succeeds : Bool)
  | test
  | spurious
  | push
  | run (i : Nat) (notified : Option Unit)
  deriving DecidableEq, Repr

/-- The statements of `Thread::run` that are behind. -/
def RunPc.done : RunPc → Nat
  | .t_thread => 0
  | .t_thread_name => 1
  | .m_id => 2
  | .swap => 3
  | .signal => 4
  | .call => 5

/-- The steps of the thread up to its callback. The signal counts for two, since it may wake the
constructor for one more test. -/
def RunPc.todo : RunPc → Nat
  | .t_thread => 6
  | .t_thread_name => 5
  | .m_id => 4
  | .swap => 3
  | .signal => 2
  | .call => 0

namespace Starting

/-! ## The source -/

section
-- what `gettid` answers in the `i`-th thread, and `Scheduler::run` bound to the scheduler
variable (tid : Nat → Int) (body : Nat)

def loop (s : Starting) (i : Nat) : StartPc :=
  if i < s.m_threadCount then .creating i else .returned

def init (m_name : String) (m_threadCount : Nat) (m_threadIds : List Int) : Starting :=
  { m_name, m_threadCount, m_threadIds
    start := if 0 < m_threadCount then .creating 0 else .returned }

def nameOf (s : Starting) (i : Nat) : String := s.m_name ++ "_" ++ toString i

def setThread (s : Starting) (i : Nat) (t : Thread) : Starting :=
  { s with m_threads := Function.update s.m_threads i (some t) }

def setRunning (s : Starting) (i : Nat) (r : Running) : Starting :=
  { s with running := Function.update s.running i (some r) }

/-- The next statement of the `i`-th thread in `Thread::run`. -/
def runStep (s : Starting) (i : Nat) (t : Thread) (r : Running) (notified : Option Unit) :
    Option Starting :=
  match r.pc with
  | .t_thread => some (s.setRunning i { r with pc := .t_thread_name, t_thread := some i })
  | .t_thread_name => some (s.setRunning i { r with pc := .m_id, t_thread_name := t.m_name })
  | .m_id =>
    some ((s.setThread i { t with m_id := tid i }).setRunning i { r with pc := .swap })
  | .swap =>
    some ((s.setThread i { t with m_cb := r.cb }).setRunning i
      { r with pc := .signal, cb := t.m_cb })
  | .signal =>
    (t.m_semaphore.signal notified).map fun m_semaphore =>
      (s.setThread i { t with m_semaphore }).setRunning i { r with pc := .call }
  | .call => none

def step (s : Starting) : StartAct → Option Starting
  | .create succeeds =>
    match s.start with
    | .creating i =>
      if succeeds then
        some { (s.setThread i { m_cb := some body, m_name := s.nameOf i }).setRunning i {} with
          start := .waiting i }
      else some { s with start := .thrown i }
    | _ => none
  | .test =>
    match s.start with
    | .waiting i =>
      (s.m_threads i).bind fun t =>
        if () ∈ t.m_semaphore.cv.blocked then none
        else
          let sem := { t.m_semaphore with cv := t.m_semaphore.cv.leave () }
          some { s.setThread i { t with m_semaphore := sem.test () } with
            start := if sem.count = 0 then .waiting i else .constructed i }
    | _ => none
  | .spurious =>
    match s.start with
    | .waiting i =>
      (s.m_threads i).bind fun t =>
        if () ∈ t.m_semaphore.cv.blocked then
          some (s.setThread i { t with
            m_semaphore := { t.m_semaphore with cv := t.m_semaphore.cv.wake () } })
        else none
    | _ => none
  | .push =>
    match s.start with
    | .constructed i =>
      (s.m_threads i).map fun t =>
        { s with m_threadIds := s.m_threadIds ++ [t.m_id], start := s.loop (i + 1) }
    | _ => none
  | .run i notified =>
    (s.m_threads i).bind fun t =>
      (s.running i).bind fun r => s.runStep tid i t r notified

end

/-! ## What holds while `start` runs -/

variable {tid : Nat → Int} {body n i j : Nat} {name : String} {old : List Int}
  {s s' : Starting} {t : Thread} {r : Running} {act : StartAct} {o : Option Unit}

/-- The object and the variables of the `i`-th thread, by the statements that it has behind. -/
structure At (tid : Nat → Int) (body : Nat) (name : String) (i : Nat) (t : Thread) (r : Running) :
    Prop where
  m_name : t.m_name = name ++ "_" ++ toString i
  m_id : t.m_id = if 3 ≤ r.pc.done then tid i else -1
  m_cb : t.m_cb = if 4 ≤ r.pc.done then none else some body
  cb : r.cb = if 4 ≤ r.pc.done then some body else none
  t_thread : r.t_thread = if 1 ≤ r.pc.done then some i else none
  t_thread_name : r.t_thread_name = if 2 ≤ r.pc.done then t.m_name else "UNKNOWN"

/-- The semaphore while the constructor waits for it. -/
structure Signalled (m_semaphore : Semaphore Unit) (pc : RunPc) : Prop where
  count : m_semaphore.count = if pc = .call then 1 else 0
  covers : m_semaphore.cv.Covers m_semaphore.count
  nodup : m_semaphore.cv.waiters.Nodup

/-- The `j`-th thread is made, and on its way with its callback. -/
def Called (tid : Nat → Int) (body : Nat) (s : Starting) (j : Nat) : Prop :=
  ∃ t r, s.m_threads j = some t ∧ s.running j = some r ∧ At tid body s.m_name j t r ∧ r.pc = .call

/-- The constructors of the first `k` threads have returned. -/
structure Joined (tid : Nat → Int) (body : Nat) (old : List Int) (k : Nat) (s : Starting) :
    Prop where
  ids : s.m_threadIds = old ++ (List.range k).map tid
  called : ∀ j < k, Called tid body s j

def Unborn (k : Nat) (s : Starting) : Prop := ∀ j, k ≤ j → s.running j = none

/-- The states of a run, by where `start` is. -/
inductive Phase (tid : Nat → Int) (body : Nat) (old : List Int) (s : Starting) : Prop
  | creating (i : Nat) (hs : s.start = .creating i) (hi : i < s.m_threadCount)
      (hj : Joined tid body old i s) (hu : Unborn i s)
  | waiting (i : Nat) (t : Thread) (r : Running) (hs : s.start = .waiting i)
      (hi : i < s.m_threadCount) (hj : Joined tid body old i s) (hu : Unborn (i + 1) s)
      (ht : s.m_threads i = some t) (hr : s.running i = some r)
      (hat : At tid body s.m_name i t r) (hsem : Signalled t.m_semaphore r.pc)
  | constructed (i : Nat) (t : Thread) (r : Running) (hs : s.start = .constructed i)
      (hi : i < s.m_threadCount) (hj : Joined tid body old i s) (hu : Unborn (i + 1) s)
      (ht : s.m_threads i = some t) (hr : s.running i = some r)
      (hat : At tid body s.m_name i t r) (hpc : r.pc = .call)
  | returned (hs : s.start = .returned) (hj : Joined tid body old s.m_threadCount s)
      (hu : Unborn s.m_threadCount s)
  | thrown (i : Nat) (hs : s.start = .thrown i) (hi : i < s.m_threadCount)
      (hj : Joined tid body old i s) (hu : Unborn i s)

theorem Joined.frame {k : Nat} (h : Joined tid body old k s)
    (hids : s'.m_threadIds = s.m_threadIds) (hname : s'.m_name = s.m_name)
    (hthreads : ∀ j < k, s'.m_threads j = s.m_threads j)
    (hrunning : ∀ j < k, s'.running j = s.running j) : Joined tid body old k s' := by
  refine ⟨hids.trans h.ids, fun j hlt => ?_⟩
  rw [Called, hthreads j hlt, hrunning j hlt, hname]
  exact h.called j hlt

/-- A thread that has come to its callback has nothing of `Thread::run` left to do. -/
theorem run_none (h : s.running j = none ∨ Called tid body s j) :
    s.step tid body (.run j o) = none := by
  rcases h with hnone | ⟨t, r, ht, hr, -, hpc⟩
  · cases ht : s.m_threads j <;> simp [step, ht, hnone]
  · simp [step, ht, hr, runStep, hpc]

theorem Joined.run_none {k : Nat} (h : Joined tid body old k s) (hu : Unborn k s) :
    s.step tid body (.run j o) = none := by
  rcases Nat.lt_or_ge j k with hlt | hge
  · exact Starting.run_none (.inr (h.called j hlt))
  · exact Starting.run_none (.inl (hu j hge))

/-- The steps of a new thread, and of its constructor, which tests the semaphore unless it is
blocked. -/
def todo (t : Thread) (r : Running) : Nat :=
  r.pc.todo + if t.m_semaphore.cv.blocked = [] then 2 else 1

/-- The steps that are left to `start`, and to the threads before their callbacks. -/
def left (s : Starting) : Nat :=
  match s.start with
  | .creating i => 9 * (s.m_threadCount - i)
  | .waiting i =>
    9 * (s.m_threadCount - (i + 1)) +
      match s.m_threads i, s.running i with
      | some t, some r => todo t r
      | _, _ => 0
  | .constructed i => 9 * (s.m_threadCount - (i + 1)) + 1
  | .returned | .thrown _ => 0

theorem Signalled.signal {m_semaphore m_semaphore' : Semaphore Unit}
    (h : Signalled m_semaphore .signal) (hs : m_semaphore.signal o = some m_semaphore') :
    Signalled m_semaphore' .call ∧
      (m_semaphore'.cv.blocked = [] ∨ m_semaphore.cv.blocked ≠ []) := by
  obtain ⟨cv, hn, rfl⟩ := Option.map_eq_some_iff.mp hs
  have hcount : m_semaphore.count = 0 := h.count
  refine ⟨⟨congrArg (· + 1) hcount, h.covers.notifyOne hn,
    (CondVar.waiters_notifyOne hn).nodup_iff.mpr h.nodup⟩, ?_⟩
  rcases CondVar.notifyOne_cases hn with ⟨hb, rfl⟩ | ⟨k, hk, -⟩
  · exact .inl hb
  · exact .inr (List.ne_nil_of_mem hk)

/-- What the next statement of a thread leaves, while the constructor waits for it. -/
theorem runStep_cases (ht : s.m_threads i = some t) (hat : At tid body name i t r)
    (hsem : Signalled t.m_semaphore r.pc) (hs : s.runStep tid i t r o = some s') :
    ∃ t' r', s' = (s.setThread i t').setRunning i r' ∧ At tid body name i t' r' ∧
      Signalled t'.m_semaphore r'.pc ∧ todo t' r' + 1 ≤ todo t r := by
  have hset : s.setThread i t = s := by
    rw [setThread, ← ht, Function.update_eq_self]
  obtain ⟨pc, t_thread, t_thread_name, cb⟩ := r
  obtain ⟨hname, hid, hcb, hlocal, hthis, hnamed⟩ := hat
  cases pc with
  | t_thread =>
    obtain rfl := Option.some.inj hs
    refine ⟨t, { pc := .t_thread_name, t_thread := some i, t_thread_name, cb }, by rw [hset],
      ⟨hname, hid, hcb, hlocal, rfl, hnamed⟩, ⟨hsem.count, hsem.covers, hsem.nodup⟩, ?_⟩
    simp only [todo, RunPc.todo]
    omega
  | t_thread_name =>
    obtain rfl := Option.some.inj hs
    refine ⟨t, { pc := .m_id, t_thread, t_thread_name := t.m_name, cb }, by rw [hset],
      ⟨hname, hid, hcb, hlocal, hthis, rfl⟩, ⟨hsem.count, hsem.covers, hsem.nodup⟩, ?_⟩
    simp only [todo, RunPc.todo]
    omega
  | m_id =>
    obtain rfl := Option.some.inj hs
    refine ⟨{ t with m_id := tid i }, { pc := .swap, t_thread, t_thread_name, cb }, rfl,
      ⟨hname, rfl, hcb, hlocal, hthis, hnamed⟩, ⟨hsem.count, hsem.covers, hsem.nodup⟩, ?_⟩
    simp only [todo, RunPc.todo]
    omega
  | swap =>
    obtain rfl := Option.some.inj hs
    refine ⟨{ t with m_cb := cb }, { pc := .signal, t_thread, t_thread_name, cb := t.m_cb }, rfl,
      ⟨hname, hid, hlocal, hcb, hthis, hnamed⟩, ⟨hsem.count, hsem.covers, hsem.nodup⟩, ?_⟩
    simp only [todo, RunPc.todo]
    omega
  | signal =>
    obtain ⟨m_semaphore, hsig, rfl⟩ := Option.map_eq_some_iff.mp hs
    obtain ⟨hsem', hblocked⟩ := hsem.signal hsig
    refine ⟨{ t with m_semaphore }, { pc := .call, t_thread, t_thread_name, cb }, rfl,
      ⟨hname, hid, hcb, hlocal, hthis, hnamed⟩, hsem', ?_⟩
    simp only [todo, RunPc.todo]
    rcases hblocked with hb | hb
    · rw [if_pos hb]
      split_ifs <;> omega
    · rw [if_neg hb]
      split_ifs <;> omega
  | call => cases hs

def isSpurious : StartAct → Bool
  | .spurious => true
  | _ => false

/-- The constructor waits for a thread that has come as far as `r`. -/
def await (s : Starting) (i : Nat) (t : Thread) (r : Running) : Starting :=
  { (s.setThread i t).setRunning i r with start := .waiting i }

theorem phase_await (hi : i < s.m_threadCount) (hj : Joined tid body old i s)
    (hu : Unborn (i + 1) s) (hat : At tid body s.m_name i t r)
    (hsem : Signalled t.m_semaphore r.pc) : Phase tid body old (s.await i t r) := by
  refine .waiting i t r rfl hi ?_ (fun j hle => ?_) (Function.update_self _ _ _)
    (Function.update_self _ _ _) hat hsem
  · exact hj.frame rfl rfl (fun j hlt => Function.update_of_ne hlt.ne _ _)
      (fun j hlt => Function.update_of_ne hlt.ne _ _)
  · exact (Function.update_of_ne (Nat.lt_of_succ_le hle).ne' _ _).trans (hu j hle)

theorem left_await (s : Starting) (i : Nat) (t : Thread) (r : Running) :
    left (s.await i t r) = 9 * (s.m_threadCount - (i + 1)) + todo t r := by
  simp [left, await, setThread, setRunning]

theorem await_self (hstart : s.start = .waiting i) (ht : s.m_threads i = some t)
    (hr : s.running i = some r) : s.await i t r = s := by
  rw [await, setRunning, setThread, ← ht, ← hr, Function.update_eq_self, Function.update_eq_self,
    ← hstart]

theorem await_setThread (hr : s.running i = some r) :
    { s.setThread i t with start := .waiting i } = s.await i t r := by
  have hsame : Function.update s.running i (some r) = s.running := by
    rw [← hr, Function.update_eq_self]
  simp only [await, setRunning, setThread, hsame]

theorem blocked_eq_nil {cv : CondVar Unit} (h : () ∉ cv.blocked) : cv.blocked = [] :=
  List.eq_nil_iff_forall_not_mem.mpr fun _ => h

/-- The test finds the semaphore at zero, and the constructor is blocked. -/
theorem Signalled.test_zero {m_semaphore : Semaphore Unit} {pc : RunPc}
    (h : Signalled m_semaphore pc) (hb : m_semaphore.cv.blocked = [])
    (hc : m_semaphore.count = 0) :
    let after := ({ m_semaphore with cv := m_semaphore.cv.leave () } : Semaphore Unit).test ()
    Signalled after pc ∧ after.cv.blocked ≠ [] := by
  intro after
  have hafter : after = { m_semaphore with cv := (m_semaphore.cv.leave ()).wait () } := if_pos hc
  have hwoken : m_semaphore.cv.woken.Nodup := (List.nodup_append.mp h.nodup).2.1
  have hnot : () ∉ (m_semaphore.cv.leave ()).waiters := by
    rw [CondVar.waiters, CondVar.leave, hb, List.nil_append]
    exact hwoken.not_mem_erase
  have hcovers : ((m_semaphore.cv.leave ()).wait ()).Covers m_semaphore.count := by
    rw [hc]
    exact CondVar.covers_zero _
  rw [hafter]
  refine ⟨⟨h.count, hcovers, ?_⟩, List.append_ne_nil_of_right_ne_nil _ (List.cons_ne_nil _ _)⟩
  exact (CondVar.waiters_wait _ ()).nodup_iff.mpr
    (List.nodup_cons.mpr ⟨hnot, CondVar.nodup_leave h.nodup⟩)

/-- Every step but a spurious wake-up takes one from what is left, which a spurious wake-up
makes one more. -/
theorem Phase.step (h : Phase tid body old s) (hs : s.step tid body act = some s') :
    Phase tid body old s' ∧
      left s' + (!isSpurious act).toNat ≤ left s + (isSpurious act).toNat := by
  cases h with
  | creating i hstart hi hj hu =>
    have hleft : left s = 9 * (s.m_threadCount - i) := by simp [left, hstart]
    cases act with
    | create succeeds =>
      simp only [Starting.step, hstart] at hs
      split_ifs at hs with hok
      · obtain rfl := Option.some.inj hs
        let t : Thread := { m_cb := some body, m_name := s.nameOf i }
        have hat : At tid body s.m_name i t {} := ⟨rfl, rfl, rfl, rfl, rfl, rfl⟩
        have hsem : Signalled t.m_semaphore RunPc.t_thread :=
          ⟨rfl, CondVar.covers_zero _, List.nodup_nil⟩
        have hu' : Unborn (i + 1) s := fun j hle => hu j (Nat.le_of_succ_le hle)
        refine ⟨phase_await hi hj hu' hat hsem, ?_⟩
        have htodo : todo t {} = 8 := rfl
        change left (s.await i t {}) + 1 ≤ left s + 0
        rw [left_await, htodo, hleft]
        omega
      · obtain rfl := Option.some.inj hs
        refine ⟨.thrown i rfl hi (hj.frame rfl rfl (fun _ _ => rfl) (fun _ _ => rfl)) hu, ?_⟩
        change 0 + 1 ≤ left s + 0
        omega
    | run j o =>
      rw [hj.run_none hu] at hs
      cases hs
    | _ => simp [Starting.step, hstart] at hs
  | waiting i t r hstart hi hj hu ht hr hat hsem =>
    have hleft : left s = 9 * (s.m_threadCount - (i + 1)) + todo t r := by
      rw [← await_self hstart ht hr, left_await]
      rfl
    cases act with
    | test =>
      simp only [Starting.step, hstart, ht, Option.bind_some] at hs
      split_ifs at hs with hb hcount
      · obtain rfl := Option.some.inj hs
        have hblocked := blocked_eq_nil hb
        let t' : Thread := { t with m_semaphore := ({ t.m_semaphore with
          cv := t.m_semaphore.cv.leave () } : Semaphore Unit).test () }
        have heq := await_setThread (t := t') hr
        rw [heq]
        have htest := hsem.test_zero hblocked hcount
        refine ⟨phase_await hi hj hu ⟨hat.m_name, hat.m_id, hat.m_cb, hat.cb, hat.t_thread,
          hat.t_thread_name⟩ htest.1, ?_⟩
        rw [left_await, hleft, todo, todo, if_pos hblocked, if_neg htest.2]
        change _ + 1 ≤ _ + 0
        omega
      · obtain rfl := Option.some.inj hs
        have hblocked := blocked_eq_nil hb
        have hcall : r.pc = .call := by
          by_contra hne
          exact hcount (hsem.count.trans (if_neg hne))
        refine ⟨.constructed i _ r rfl hi (hj.frame rfl rfl
          (fun j hlt => Function.update_of_ne hlt.ne _ _) (fun _ _ => rfl)) hu
          (Function.update_self _ _ _) hr ⟨hat.m_name, hat.m_id, hat.m_cb, hat.cb, hat.t_thread,
          hat.t_thread_name⟩ hcall, ?_⟩
        rw [hleft, todo, if_pos hblocked]
        change 9 * (s.m_threadCount - (i + 1)) + 1 + 1 ≤ _ + 0
        omega
    | spurious =>
      simp only [Starting.step, hstart, ht, Option.bind_some] at hs
      split_ifs at hs with hb
      obtain rfl := Option.some.inj hs
      let t' : Thread := { t with m_semaphore := { t.m_semaphore with
        cv := t.m_semaphore.cv.wake () } }
      have heq : s.setThread i t' = s.await i t' r := by
        rw [← await_setThread (t := t') hr, ← hstart]
        rfl
      rw [heq]
      have hsem' : Signalled t'.m_semaphore r.pc :=
        ⟨hsem.count, hsem.covers.wake hb, (CondVar.waiters_wake hb).nodup_iff.mpr hsem.nodup⟩
      refine ⟨phase_await hi hj hu ⟨hat.m_name, hat.m_id, hat.m_cb, hat.cb, hat.t_thread,
        hat.t_thread_name⟩ hsem', ?_⟩
      rw [left_await, hleft, todo, todo, if_neg (List.ne_nil_of_mem hb)]
      change _ + 0 ≤ _ + 1
      split_ifs <;> omega
    | run j o =>
      by_cases hji : j = i
      · subst hji
        simp only [Starting.step, ht, hr, Option.bind_some] at hs
        obtain ⟨t', r', rfl, hat', hsem', hle⟩ := runStep_cases ht hat hsem hs
        have heq : (s.setThread j t').setRunning j r' = s.await j t' r' := by
          rw [await, ← hstart]
          rfl
        rw [heq]
        refine ⟨phase_await hi hj hu hat' hsem', ?_⟩
        rw [left_await, hleft]
        change _ + 1 ≤ _ + 0
        omega
      · have hnone : s.step tid body (.run j o) = none := by
          rcases Nat.lt_or_ge j i with hlt | hge
          · exact run_none (.inr (hj.called j hlt))
          · exact run_none (.inl (hu j (Nat.lt_of_le_of_ne hge (Ne.symm hji))))
        rw [hnone] at hs
        cases hs
    | _ => simp [Starting.step, hstart] at hs
  | constructed i t r hstart hi hj hu ht hr hat hpc =>
    have hleft : left s = 9 * (s.m_threadCount - (i + 1)) + 1 := by simp [left, hstart]
    have hcalled : ∀ j < i + 1, Called tid body s j := by
      intro j hlt
      rcases Nat.lt_succ_iff_lt_or_eq.mp hlt with hlt | rfl
      · exact hj.called j hlt
      · exact ⟨t, r, ht, hr, hat, hpc⟩
    cases act with
    | push =>
      simp only [Starting.step, hstart, ht, Option.map_some] at hs
      obtain rfl := Option.some.inj hs
      have hid : t.m_id = tid i := by rw [hat.m_id, hpc, if_pos (by decide)]
      have hids : s.m_threadIds ++ [t.m_id] = old ++ (List.range (i + 1)).map tid := by
        rw [hj.ids, hid, List.range_succ, List.map_append, List.append_assoc, List.map_singleton]
      rw [loop]
      split_ifs with hlt
      · refine ⟨.creating (i + 1) rfl hlt ⟨hids, hcalled⟩ hu, ?_⟩
        rw [hleft]
        exact le_refl _
      · have hlast : i + 1 = s.m_threadCount := by omega
        refine ⟨.returned rfl ⟨hlast ▸ hids, hlast ▸ hcalled⟩ (hlast ▸ hu), ?_⟩
        rw [hleft]
        change 0 + 1 ≤ _ + 0
        omega
    | run j o =>
      have hnone : s.step tid body (.run j o) = none := by
        rcases Nat.lt_or_ge j (i + 1) with hlt | hge
        · exact run_none (.inr (hcalled j hlt))
        · exact run_none (.inl (hu j hge))
      rw [hnone] at hs
      cases hs
    | _ => simp [Starting.step, hstart] at hs
  | returned hstart hj hu =>
    cases act with
    | run j o =>
      rw [hj.run_none hu] at hs
      cases hs
    | _ => simp [Starting.step, hstart] at hs
  | thrown i hstart hi hj hu =>
    cases act with
    | run j o =>
      rw [hj.run_none hu] at hs
      cases hs
    | _ => simp [Starting.step, hstart] at hs

theorem phase_init (tid : Nat → Int) (body : Nat) (name : String) (n : Nat) (old : List Int) :
    Phase tid body old (init name n old) := by
  have hjoined : Joined tid body old 0 (init name n old) :=
    ⟨(List.append_nil old).symm, fun j hlt => absurd hlt (Nat.not_lt_zero j)⟩
  rcases Nat.eq_zero_or_pos n with rfl | hpos
  · exact .returned rfl hjoined fun _ _ => rfl
  · exact .creating 0 (if_pos hpos) hpos hjoined fun _ _ => rfl

theorem runStep_fixed (hs : s.runStep tid i t r o = some s') :
    s'.m_threadCount = s.m_threadCount ∧ s'.m_name = s.m_name := by
  unfold runStep at hs
  split at hs
  case h_5 =>
    obtain ⟨m_semaphore, -, rfl⟩ := Option.map_eq_some_iff.mp hs
    exact ⟨rfl, rfl⟩
  case h_6 => cases hs
  all_goals
    obtain rfl := Option.some.inj hs
    exact ⟨rfl, rfl⟩

theorem step_fixed (hs : s.step tid body act = some s') :
    s'.m_threadCount = s.m_threadCount ∧ s'.m_name = s.m_name := by
  cases act with
  | create succeeds =>
    simp only [step] at hs
    split at hs
    · split_ifs at hs <;> obtain rfl := Option.some.inj hs <;> exact ⟨rfl, rfl⟩
    · cases hs
  | test | spurious =>
    simp only [step] at hs
    split at hs
    · obtain ⟨t, -, hs⟩ := Option.bind_eq_some_iff.mp hs
      split_ifs at hs <;> obtain rfl := Option.some.inj hs <;> exact ⟨rfl, rfl⟩
    · cases hs
  | push =>
    simp only [step] at hs
    split at hs
    · obtain ⟨t, -, rfl⟩ := Option.map_eq_some_iff.mp hs
      exact ⟨rfl, rfl⟩
    · cases hs
  | run j o =>
    obtain ⟨t, -, hs⟩ := Option.bind_eq_some_iff.mp hs
    obtain ⟨r, -, hs⟩ := Option.bind_eq_some_iff.mp hs
    exact runStep_fixed hs

/-- The scheduler of this name, with this many threads to create. -/
structure Starts (tid : Nat → Int) (body : Nat) (name : String) (n : Nat) (old : List Int)
    (s : Starting) : Prop where
  m_name : s.m_name = name
  m_threadCount : s.m_threadCount = n
  phase : Phase tid body old s

theorem Starts.step (h : Starts tid body name n old s) (hs : s.step tid body act = some s') :
    Starts tid body name n old s' :=
  ⟨(step_fixed hs).2.trans h.m_name, (step_fixed hs).1.trans h.m_threadCount, (h.phase.step hs).1⟩

theorem starts_init (tid : Nat → Int) (body : Nat) (name : String) (n : Nat) (old : List Int) :
    Starts tid body name n old (init name n old) := ⟨rfl, rfl, phase_init tid body name n old⟩

/-- The `j`-th thread calls `body`, under its own name, and its object holds its real id. -/
def Ready (tid : Nat → Int) (body : Nat) (name : String) (s : Starting) (j : Nat) : Prop :=
  ∃ t r, s.m_threads j = some t ∧ s.running j = some r ∧ t.m_id = tid j ∧ t.m_cb = none ∧
    r.pc = .call ∧ r.cb = some body ∧ r.t_thread = some j ∧
    r.t_thread_name = name ++ "_" ++ toString j

theorem Called.ready (h : Called tid body s j) : Ready tid body s.m_name s j := by
  obtain ⟨t, r, ht, hr, hat, hpc⟩ := h
  refine ⟨t, r, ht, hr, ?_, ?_, hpc, ?_, ?_, ?_⟩
  · rw [hat.m_id, hpc, if_pos (by decide)]
  · rw [hat.m_cb, hpc, if_pos (by decide)]
  · rw [hat.cb, hpc, if_pos (by decide)]
  · rw [hat.t_thread, hpc, if_pos (by decide)]
  · rw [hat.t_thread_name, hpc, if_pos (by decide), hat.m_name]

/-- **`start` returns with every thread ready**, and with the ids of all of them in
`m_threadIds`, in their order. -/
theorem start_returns {acts : List StartAct}
    (hrun : run (step tid body) (init name n old) acts = some s) (hs : s.start = .returned) :
    s.m_threadIds = old ++ (List.range n).map tid ∧ ∀ j < n, Ready tid body name s j := by
  have hstarts : Starts tid body name n old s :=
    run_invariant_of_step acts Starts.step (starts_init tid body name n old) hrun
  obtain ⟨hname, hcount, hphase⟩ := hstarts
  cases hphase with
  | returned hstart hj hu =>
    rw [hcount] at hj
    exact ⟨hj.ids, fun j hlt => hname ▸ (hj.called j hlt).ready⟩
  | creating i hstart | waiting i t r hstart | constructed i t r hstart | thrown i hstart =>
    rw [hstart] at hs
    cases hs

/-- The constructor is blocked when the first thread signals it, and finds the signal of the
second one. -/
theorem start_returns_two :
    let acts : List StartAct := [.create true, .test, .run 0 none, .run 0 none, .run 0 none,
      .run 0 none, .run 0 (some ()), .test, .push, .create true, .run 1 none, .run 1 none,
      .run 1 none, .run 1 none, .run 1 none, .test, .push]
    ∃ s, run (step (fun i => 100 + i) 5) (init "iom" 2 [100]) acts = some s ∧
      s.m_threadIds = [100] ++ (List.range 2).map (fun i : Nat => (100 + i : Int)) ∧
      ∀ j < 2, Ready (fun i => 100 + i) 5 "iom" s j := by
  intro acts
  obtain ⟨s, hrun⟩ : ∃ s, run (step (fun i => 100 + i) 5) (init "iom" 2 [100]) acts = some s :=
    Option.isSome_iff_exists.mp (by decide)
  have hend : (run (step (fun i => 100 + i) 5) (init "iom" 2 [100]) acts).map start =
      some .returned := by decide
  rw [hrun, Option.map_some, Option.some.injEq] at hend
  exact ⟨s, hrun, start_returns hrun hend⟩

/-- The constructor and the thread that it waits for are never both stuck. -/
theorem exists_step_waiting (hs : s.start = .waiting i) (ht : s.m_threads i = some t)
    (hr : s.running i = some r) (hsem : Signalled t.m_semaphore r.pc) :
    ∃ act, isSpurious act = false ∧ (s.step tid body act).isSome = true := by
  by_cases hb : () ∈ t.m_semaphore.cv.blocked
  · have hpc : r.pc ≠ .call := by
      intro hpc
      have hcount : t.m_semaphore.count = 1 := hsem.count.trans (if_pos hpc)
      have hcovers := hsem.covers
      rw [hcount] at hcovers
      obtain ⟨_, hwoken⟩ := hcovers.exists_woken (by decide) (List.ne_nil_of_mem hb)
      exact (List.nodup_append.mp hsem.nodup).2.2 () hb () hwoken rfl
    obtain ⟨o, cv, hn⟩ := CondVar.exists_notifyOne t.m_semaphore.cv
    refine ⟨.run i o, rfl, ?_⟩
    cases hcase : r.pc with
    | call => exact absurd hcase hpc
    | _ => simp [step, ht, hr, runStep, hcase, Semaphore.signal, hn]
  · exact ⟨.test, rfl, by simp [step, hs, ht, hb]⟩

/-- **`start` does not hang.** At most nine steps for each thread, and one for each spurious
wake-up of the constructor, and then it has returned, or has thrown since `pthread_create`
failed. -/
theorem start_ends {acts : List StartAct}
    (hrun : run (step tid body) (init name n old) acts = some s) :
    acts.countP (fun act => !isSpurious act) ≤ 9 * n + acts.countP isSpurious ∧
      ((∀ act, isSpurious act = false → s.step tid body act = none) →
        s.start = .returned ∨ ∃ i, s.start = .thrown i) := by
  obtain ⟨hphase, hle⟩ := run_potential (Phase tid body old) left (fun _ => true)
    (fun act => !isSpurious act) isSpurious acts (fun _ _ => rfl)
    (fun s act s' h _ hs => h.step hs) (phase_init tid body name n old) hrun
  have hinit : left (init name n old) ≤ 9 * n := by
    rcases Nat.eq_zero_or_pos n with rfl | hpos
    · exact le_refl _
    · simp [left, init, hpos]
  refine ⟨by omega, fun hstuck => ?_⟩
  have hno : ∀ {P : Prop}, (∃ act, isSpurious act = false ∧ (s.step tid body act).isSome = true) →
      P := by
    rintro P ⟨act, hact, hsome⟩
    rw [hstuck act hact] at hsome
    cases hsome
  cases hphase with
  | creating i hstart => exact hno ⟨.create true, rfl, by simp [step, hstart]⟩
  | waiting i t r hstart hi hj hu ht hr hat hsem =>
    exact hno (exists_step_waiting hstart ht hr hsem)
  | constructed i t r hstart hi hj hu ht => exact hno ⟨.push, rfl, by simp [step, hstart, ht]⟩
  | returned hstart => exact .inl hstart
  | thrown i hstart => exact .inr ⟨i, hstart⟩

/-- The second thread cannot be created. -/
theorem start_ends_thrown :
    let acts : List StartAct := [.create true, .test, .spurious, .test, .run 0 none, .run 0 none,
      .run 0 none, .run 0 none, .run 0 (some ()), .test, .push, .create false]
    ∃ s, run (step (fun i => 100 + i) 5) (init "iom" 2 [100]) acts = some s ∧
      s.start = .thrown 1 ∧ acts.countP (fun act => !isSpurious act) ≤
        9 * 2 + acts.countP isSpurious := by
  intro acts
  obtain ⟨s, hrun⟩ : ∃ s, run (step (fun i => 100 + i) 5) (init "iom" 2 [100]) acts = some s :=
    Option.isSome_iff_exists.mp (by decide)
  have hend : (run (step (fun i => 100 + i) 5) (init "iom" 2 [100]) acts).map start =
      some (.thrown 1) := by decide
  rw [hrun, Option.map_some, Option.some.injEq] at hend
  exact ⟨s, hrun, hend, (start_ends hrun).1⟩

end Starting
end Workplace.Coroutine
