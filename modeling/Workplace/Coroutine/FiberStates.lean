import Workplace.Coroutine.WorkerRuns

/-! The assertions on the state of a fiber: `reset` wants it `TERM` or `READY`, `resume`
`READY`, `yield` `RUNNING` or `TERM`, `suspend` `RUNNING`. They hold as long as a fiber is
in one thread's hands; `suspend` itself never gets past the assertion of `yield`. -/

namespace Workplace.Coroutine.System
open Workplace.Lib

variable {s s' : System} {home : Nat → Home} {t f : Nat}

/-- `yield` or `suspend`, as the pause calls it. -/
def pauseCall (x : Fiber Cb) (p : Pause) (rest : List Pause) : Option (Fiber Cb) :=
  match p with
  | .doIo => x.suspend (some (.body rest))
  | _ => x.yield (some (.body rest))

/-- The step calls an operation on a fiber whose state fails the assertion of the call. -/
def FailsAssertion (s : System) : WorkerAct → Prop
  | .acquire t => ∃ c f rest, s.pc t = .gotCb c ∧
      let r := FiberPool.getLocalFiberPool (s.pool t) s.heap
      (r.1.grow r.2).1.m_idleFibers = f :: rest ∧
        ((r.1.grow r.2).2.fiber f).reset (some c) = none
  | .resume t => ∃ f isCb, s.pc t = .gotFiber f isCb ∧ s.locked f = false ∧
      ¬ (isCb = false ∧ (s.heap.fiber f).m_state = .TERM) ∧ (s.heap.fiber f).resume = none
  | .exec t => ∃ f, s.pc t = .running f (.body []) ∧ (s.heap.fiber f).finish = none
  | .switch t => ∃ f p rest, s.pc t = .pausing f p rest ∧
      pauseCall (s.heap.fiber f) p rest = none
  | .release t => ∃ f, s.pc t = .returned f ∧ (s.heap.fiber f).m_state ≠ .SUSPEND ∧
      (s.heap.fiber f).reset none = none
  | _ => False

theorem suspend_failsAssertion {rest : List Pause} (h : s.pc t = .pausing f .doIo rest) :
    s.FailsAssertion (.switch t) := ⟨f, .doIo, rest, h, Fiber.suspend_eq_none _ _⟩

/-- The step takes no fiber to a call of `suspend`, and resumes no fiber from the queue
that another thread still has to release or has acquired for a callback. -/
def KeepsStates (s : System) : WorkerAct → Prop
  | .exec t => ∀ f rest, s.pc t ≠ .running f (.body (.doIo :: rest))
  | .resume t => ∀ f, s.pc t = .gotFiber f false →
      ∀ u, s.pc u ≠ .returned f ∧ s.pc u ≠ .gotFiber f true
  | _ => True

/-! ## Who has a fiber -/

/-- The fiber that a thread has to resume, runs, or has to release. The fiber of a task that
it took from the queue is not its own before it gets the mutex. -/
def holds : Pc → Option Nat
  | .gotFiber f true => some f
  | .running f _ => some f
  | .pausing f _ _ => some f
  | .returned f => some f
  | _ => none

def StateOk (s : System) (f : Nat) : Home → Prop
  | .fresh => s.heap.fiber f = {} ∧ s.locked f = false
  | .idle _ => s.heap.fiber f = {} ∧ s.locked f = false
  | .queued => (s.heap.fiber f).m_state = .READY ∧ s.locked f = false
  | .held t => holds (s.pc t) = some f ∧ match s.pc t with
    | .gotFiber _ _ => (s.heap.fiber f).m_state = .READY ∧ s.locked f = false
    | .returned _ => ((s.heap.fiber f).m_state = .READY ∨ (s.heap.fiber f).m_state = .TERM) ∧
        s.locked f = false
    | _ => (s.heap.fiber f).m_state = .RUNNING ∧ s.locked f = true
  | .doomed => False

/-- Every fiber has one place, and its state is one that the place allows. -/
structure Owned (s : System) (home : Nat → Home) : Prop extends Pooled s home where
  fibers : ∀ f, StateOk s f (home f)
  pcs : ∀ t f, holds (s.pc t) = some f → home f = .held t
  pauses : ∀ t f p rest, s.pc t = .pausing f p rest → p ≠ .doIo

theorem Owned.init : Owned {} fun _ => .fresh where
  fresh := fun _ _ => rfl
  idle := by simp
  fibers := fun _ => ⟨rfl, rfl⟩
  pcs := by simp [holds]
  pauses := by simp

theorem StateOk.congr {place : Home} (h : StateOk s f place)
    (hfiber : s'.heap.fiber f = s.heap.fiber f) (hlocked : s'.locked f = s.locked f)
    (hpc : ∀ t, place = .held t → s'.pc t = s.pc t) : StateOk s' f place := by
  cases place with
  | fresh => exact ⟨hfiber.trans h.1, hlocked.trans h.2⟩
  | idle t => exact ⟨hfiber.trans h.1, hlocked.trans h.2⟩
  | queued => exact ⟨hfiber ▸ h.1, hlocked.trans h.2⟩
  | held t =>
    simp only [StateOk, hpc t rfl, hfiber, hlocked] at h ⊢
    exact h
  | doomed => exact h

/-- The two systems differ, in what the places speak of, at most in the fiber `f` and in
where the thread `t` is. -/
structure Touches (s s' : System) (t f : Nat) : Prop where
  fiber : ∀ g, g ≠ f → s'.heap.fiber g = s.heap.fiber g
  locked : ∀ g, g ≠ f → s'.locked g = s.locked g
  pc : ∀ u, u ≠ t → s'.pc u = s.pc u

theorem Owned.other_held (h : Owned s home) (hf : ∀ g, holds (s.pc t) = some g → g = f) {g : Nat}
    (hg : g ≠ f) : home g ≠ .held t := by
  intro hh
  have hok := h.fibers g
  rw [hh] at hok
  exact hg (hf g hok.1)

/-- **A thread moves one fiber** that no other thread has. -/
theorem Owned.move (h : Owned s home) (hs : Touches s s' t f) {place : Home}
    (hothers : ∀ u, u ≠ t → home f ≠ .held u) (hmine : ∀ g, holds (s.pc t) = some g → g = f)
    (hpool : Pooled s' (Function.update home f place)) (hok : StateOk s' f place)
    (hholds : ∀ g, holds (s'.pc t) = some g → g = f ∧ place = .held t)
    (hpause : ∀ g p rest, s'.pc t = .pausing g p rest → p ≠ .doIo) :
    Owned s' (Function.update home f place) where
  toPooled := hpool
  fibers := by
    intro g
    by_cases hg : g = f
    · subst hg
      rw [Function.update_self]
      exact hok
    · rw [Function.update_of_ne hg]
      refine (h.fibers g).congr (hs.fiber g hg) (hs.locked g hg) fun u hu => hs.pc u ?_
      rintro rfl
      exact h.other_held hmine hg hu
  pcs := by
    intro u g hg
    by_cases hu : u = t
    · subst hu
      obtain ⟨rfl, rfl⟩ := hholds g hg
      exact Function.update_self ..
    · rw [hs.pc u hu] at hg
      have hhome := h.pcs u g hg
      have hne : g ≠ f := by
        rintro rfl
        exact hothers u hu hhome
      rw [Function.update_of_ne hne]
      exact hhome
  pauses := by
    intro u g p rest hp
    by_cases hu : u = t
    · subst hu
      exact hpause g p rest hp
    · rw [hs.pc u hu] at hp
      exact h.pauses u g p rest hp

/-- The thread goes on with the fiber it has. -/
theorem Owned.keep (h : Owned s home) (hf : holds (s.pc t) = some f) (hs : Touches s s' t f)
    (hc : s'.heap.created = s.heap.created) (hp : s'.pool = s.pool)
    (hok : StateOk s' f (.held t)) (hpause : ∀ g p rest, s'.pc t = .pausing g p rest → p ≠ .doIo) :
    ∃ home', Owned s' home' := by
  have hhome := h.pcs t f hf
  refine ⟨Function.update home f (.held t), h.move hs ?_ ?_ ?_ hok ?_ hpause⟩
  · intro u hu
    rw [hhome]
    exact fun he => hu (Home.held.inj he).symm
  · exact fun g hg => (Option.some.inj (hf.symm.trans hg)).symm
  · exact h.toPooled.move (by simp [hhome]) (h.lt_created (by simp [hhome])) hc hp _
  · exact fun g hg => ⟨(Option.some.inj (hok.1.symm.trans hg)).symm, rfl⟩

/-! ## The steps of a thread -/

theorem Owned.held (h : Owned s home) (hf : holds (s.pc t) = some f) :
    StateOk s f (.held t) := by
  have hok := h.fibers f
  rw [h.pcs t f hf] at hok
  exact hok

theorem Owned.state_of_free (h : Owned s home) (hl : s.locked f = false) :
    (s.heap.fiber f).m_state = .READY ∨ (s.heap.fiber f).m_state = .TERM := by
  have hok := h.fibers f
  cases hh : home f with
  | fresh =>
    rw [hh] at hok
    simp [hok.1]
  | idle u =>
    rw [hh] at hok
    simp [hok.1]
  | queued =>
    rw [hh] at hok
    exact .inl hok.1
  | held u =>
    rw [hh] at hok
    obtain ⟨hholds, hstate⟩ := hok
    cases hp : s.pc u with
    | gotFiber g isCb => exact .inl (by simpa [hp, hl] using hstate)
    | returned g => simpa [hp, hl] using hstate
    | loop => simp [hp, holds] at hholds
    | gotCb c => simp [hp, holds] at hholds
    | running g c => simp [hp, hl] at hstate
    | pausing g p rest => simp [hp, hl] at hstate
  | doomed =>
    rw [hh] at hok
    exact hok.elim

theorem Owned.resumable (h : Owned s home) {isCb : Bool} (hpc : s.pc t = .gotFiber f isCb)
    (hl : s.locked f = false) (hg : s.KeepsStates (.resume t)) :
    (s.heap.fiber f).m_state = .READY ∧
      (s.heap.fiber f = {} ∨ home f = .queued ∨ home f = .held t) := by
  cases isCb with
  | true =>
    have hholds : holds (s.pc t) = some f := by rw [hpc]; rfl
    have hok := (h.held hholds).2
    rw [hpc] at hok
    exact ⟨hok.1, .inr (.inr (h.pcs t f hholds))⟩
  | false =>
    have hok := h.fibers f
    cases hh : home f with
    | fresh =>
      rw [hh] at hok
      simp [hok.1]
    | idle u =>
      rw [hh] at hok
      simp [hok.1]
    | queued =>
      rw [hh] at hok
      exact ⟨hok.1, .inr (.inl rfl)⟩
    | held u =>
      -- the guard leaves no thread that could have it
      rw [hh] at hok
      obtain ⟨hholds, hstate⟩ := hok
      obtain ⟨hret, hgot⟩ := hg f hpc u
      cases hp : s.pc u with
      | loop => simp [hp, holds] at hholds
      | gotCb c => simp [hp, holds] at hholds
      | gotFiber g b => cases b <;> simp_all [holds]
      | running g c => simp [hp, hl] at hstate
      | pausing g p rest => simp [hp, hl] at hstate
      | returned g => simp_all [holds]
    | doomed =>
      rw [hh] at hok
      exact hok.elim

theorem Owned.resume (h : Owned s home) (hg : s.KeepsStates (.resume t))
    (hs : s.resume t = some s') : ∃ home', Owned s' home' := by
  rw [System.resume] at hs
  cases hpc : s.pc t with
  | gotFiber f isCb =>
    simp only [hpc] at hs
    rcases hl : s.locked f with _ | _
    swap
    · simp [hl] at hs
    obtain ⟨hready, hplace⟩ := h.resumable hpc hl hg
    rcases hcode : (s.heap.fiber f).code with _ | c
    · simp [hl, hready, Fiber.resume, show ∀ st, ({ s.heap.fiber f with m_state := st }).code = none
        from fun _ => hcode] at hs
    have hblank : s.heap.fiber f ≠ {} := by
      intro hb
      simp [hb, Fiber.code] at hcode
    simp only [hl, hready, Fiber.resume, if_true, Bool.false_eq_true, if_false, reduceCtorEq,
      and_false, Option.bind_eq_bind, Option.bind_some,
      show ∀ st, ({ s.heap.fiber f with m_state := st }).code = some c from fun _ => hcode,
      Option.some.injEq] at hs
    have htouch : Touches s s' t f := by
      subst hs
      refine ⟨fun g hg => ?_, fun g hg => ?_, fun u hu => ?_⟩
      · simp [setPc, setLocked, Heap.set, hg]
      · simp [setPc, setLocked, hg]
      · simp [setPc, setLocked, hu]
    have hrunning : s'.pc t = .running f c := by simp [← hs, setPc]
    have hok : StateOk s' f (.held t) := by
      simp [← hs, StateOk, holds, setPc, setLocked, Heap.set]
    have hfree (u : Nat) : home f ≠ .idle u := by
      intro hi
      simp [hi, hblank] at hplace
    refine ⟨Function.update home f (.held t), h.move htouch (fun u hu => ?_) ?_ ?_ hok ?_ ?_⟩
    · rcases hplace with hb | hq | hm
      · exact absurd hb hblank
      · simp [hq]
      · rw [hm]
        exact fun he => hu (Home.held.inj he).symm
    · rw [hpc]
      cases isCb <;> simp [holds, eq_comm]
    · refine h.toPooled.move hfree (h.lt_created ?_) (hs ▸ rfl) (hs ▸ rfl) _
      rcases hplace with hb | hq | hm
      · exact absurd hb hblank
      · simp [hq]
      · simp [hm]
    · exact fun g hg => ⟨by simpa [hrunning, holds, eq_comm] using hg, rfl⟩
    · simp [hrunning]
  | _ => simp [hpc] at hs

theorem Owned.exec (h : Owned s home) (hg : s.KeepsStates (.exec t))
    (hs : s.exec t = some s') : ∃ home', Owned s' home' := by
  rw [System.exec] at hs
  cases hpc : s.pc t with
  | running f c =>
    have hholds : holds (s.pc t) = some f := by rw [hpc]; rfl
    have hok := (h.held hholds).2
    simp only [hpc] at hok
    rcases c with (_ | ⟨p, rest⟩) | g
    · simp only [hpc, Fiber.finish, Fiber.yield, or_true, if_true, Option.map_some,
        Option.some.injEq] at hs
      have htouch : Touches s s' t f := by
        subst hs
        refine ⟨fun g hg => ?_, fun g hg => ?_, fun u hu => ?_⟩
        · simp [setPc, setLocked, setOwed, Heap.set, hg]
        · simp [setPc, setLocked, setOwed, hg]
        · simp [setPc, setLocked, setOwed, hu]
      refine h.keep hholds htouch (hs ▸ rfl) (hs ▸ rfl) ?_ ?_
      · simp [← hs, StateOk, holds, setPc, setLocked, setOwed, Heap.set]
      · simp [← hs, setPc]
    · have hp : p ≠ .doIo := by
        rintro rfl
        exact hg f rest hpc
      simp only [hpc, Option.some.injEq] at hs
      have htouch : Touches s s' t f := by
        subst hs
        refine ⟨fun _ _ => ?_, fun _ _ => ?_, fun u hu => ?_⟩ <;> cases p <;>
          simp_all [setPc, setOwed]
      refine h.keep hholds htouch ?_ ?_ ?_ ?_
      · subst hs
        cases p <;> rfl
      · subst hs
        cases p <;> rfl
      · cases p <;> simp [← hs, StateOk, holds, setPc, setOwed, hok]
      · simp [← hs, setPc, hp]
    · simp only [hpc, Option.some.injEq] at hs
      have htouch : Touches s s' t f := by
        subst hs
        refine ⟨fun _ _ => rfl, fun _ _ => rfl, fun u hu => ?_⟩
        simp [setPc, setOwed, push, hu]
      refine h.keep hholds htouch (hs ▸ rfl) (hs ▸ rfl) ?_ ?_
      · simp [← hs, StateOk, holds, setPc, setOwed, push, hok]
      · simp [← hs, setPc]
  | _ => simp [hpc] at hs

theorem Owned.switch (h : Owned s home) (hs : s.switch t = some s') :
    ∃ home', Owned s' home' := by
  rw [System.switch] at hs
  cases hpc : s.pc t with
  | pausing f p rest =>
    have hholds : holds (s.pc t) = some f := by rw [hpc]; rfl
    have hok := (h.held hholds).2
    simp only [hpc] at hok
    have hp := h.pauses t f p rest hpc
    let x : Fiber Cb := { s.heap.fiber f with m_state := .READY, m_ctx := some (.body rest) }
    have hs' : s' = ({ s with heap := s.heap.set f x }.setLocked f false).setPc t
        (.returned f) := by
      cases p <;> simp_all [Fiber.yield, x]
    have htouch : Touches s s' t f := by
      subst hs'
      refine ⟨fun g hg => ?_, fun g hg => ?_, fun u hu => ?_⟩
      · simp [setPc, setLocked, Heap.set, hg]
      · simp [setPc, setLocked, hg]
      · simp [setPc, setLocked, hu]
    refine h.keep hholds htouch (hs' ▸ rfl) (hs' ▸ rfl) ?_ ?_
    · simp [hs', StateOk, holds, setPc, setLocked, Heap.set, x]
    · simp [hs', setPc]
  | _ => simp [hpc] at hs

/-! ## Acquiring and releasing -/

theorem Owned.grown {home' : Nat → Home} {p : FiberPool} {x : Heap Cb} (h : Owned s home)
    (hp : Pooled (s.withPool t p x) home') (hg : Grown t home home')
    (hx : x.fiber = s.heap.fiber) : Owned (s.withPool t p x) home' where
  toPooled := hp
  fibers := by
    intro f
    have hfiber : (s.withPool t p x).heap.fiber f = s.heap.fiber f := congrFun hx f
    have hok := h.fibers f
    rcases hg f with hf | ⟨hf, hf'⟩
    · rw [hf]
      exact hok.congr hfiber rfl fun _ _ => rfl
    · rw [hf] at hok
      rw [hf']
      exact ⟨hfiber.trans hok.1, hok.2⟩
  pcs := by
    intro u f hf
    have hhome := h.pcs u f hf
    rw [hg.agree f (by simp [hhome]), hhome]
  pauses := h.pauses

theorem Owned.acquire (h : Owned s home) (hs : s.acquire t = some s') :
    ∃ home', Owned s' home' := by
  rw [System.acquire] at hs
  cases hpc : s.pc t with
  | gotCb c =>
    obtain ⟨home₂, hpool, hgrown⟩ := h.toPooled.acquire t
    have h₂ := h.grown hpool hgrown (by simp)
    simp only [hpc, FiberPool.acquire] at hs
    generalize (FiberPool.getLocalFiberPool (s.pool t) s.heap).1.grow _ = r at hs hpool h₂
    rcases hi : r.1.m_idleFibers with _ | ⟨f, rest⟩
    · simp [hi] at hs
    have hr : (s.withPool t r.1 r.2).pool t = some r.1 := by simp [withPool]
    have hf : home₂ f = .idle t := (hpool.idle t r.1 hr).2 f (by simp [hi])
    have hok := h₂.fibers f
    rw [hf] at hok
    have hfib : r.2.fiber f = {} := hok.1
    have hl : s.locked f = false := hok.2
    simp only [hi, hfib, Fiber.reset, or_true, if_true, Option.map_some, Option.some.injEq] at hs
    have htouch : Touches (s.withPool t r.1 r.2) s' t f := by
      subst hs
      refine ⟨fun g hg => ?_, fun _ _ => rfl, fun u hu => ?_⟩
      · simp [setPc, setOwed, Heap.set, withPool, hg]
      · simp [setPc, setOwed, withPool, hu]
    have hgot : s'.pc t = .gotFiber f true := by simp [← hs, setPc]
    have hcreated : s'.heap.created = (s.withPool t r.1 r.2).heap.created := hs ▸ rfl
    have htake := hpool.take hr hi hcreated (by simp [← hs, setPc, setOwed, withPool]) (.held t)
    refine ⟨_, h₂.move htouch (by simp [hf]) ?_ htake ?_ ?_ ?_⟩
    · have hpc₂ : (s.withPool t r.1 r.2).pc t = .gotCb c := hpc
      simp [hpc₂, holds]
    · simp [← hs, StateOk, holds, setPc, setOwed, Heap.set, hl]
    · exact fun g hg => ⟨by simpa [hgot, holds, eq_comm] using hg, rfl⟩
    · simp [hgot]
  | _ => simp [hpc] at hs

theorem Owned.release (h : Owned s home) (hs : s.release t = some s') :
    ∃ home', Owned s' home' := by
  rw [System.release] at hs
  cases hpc : s.pc t with
  | returned f =>
    have hholds : holds (s.pc t) = some f := by rw [hpc]; rfl
    obtain ⟨hstate, hl⟩ : ((s.heap.fiber f).m_state = .READY ∨ (s.heap.fiber f).m_state = .TERM) ∧
        s.locked f = false := by
      have hok := (h.held hholds).2
      rw [hpc] at hok
      exact hok
    obtain ⟨home₁, hpool, hgrown⟩ := h.toPooled.getLocalFiberPool t
    have h₁ := h.grown hpool hgrown (by simp)
    have hheap : (FiberPool.getLocalFiberPool (s.pool t) s.heap).2.fiber = s.heap.fiber := by simp
    simp only [hpc] at hs
    generalize FiberPool.getLocalFiberPool (s.pool t) s.heap = r at hs hpool h₁ hheap
    have hr : (s.withPool t r.1 r.2).pool t = some r.1 := by simp [withPool]
    have hhome : home₁ f = .held t := h₁.pcs t f hholds
    have hsusp : (s.heap.fiber f).m_state ≠ .SUSPEND := by
      rcases hstate with hst | hst <;> simp [hst]
    simp only [hsusp, if_false, FiberPool.release, Fiber.reset, hheap, hstate.symm, if_true,
      Option.map_some, Option.some.injEq] at hs
    have htouch : Touches (s.withPool t r.1 r.2) s' t f := by
      subst hs
      refine ⟨fun g hg => ?_, fun _ _ => rfl, fun u hu => ?_⟩
      · simp [setPc, Heap.set, withPool, hg]
      · simp [setPc, withPool, hu]
    have hlt := h₁.lt_created (f := f) (by simp [hhome])
    have hcreated : s'.heap.created = (s.withPool t r.1 r.2).heap.created := hs ▸ rfl
    have hput := hpool.put hr (by simp [hhome]) hlt hcreated (by simp [← hs, setPc, withPool])
    refine ⟨_, h₁.move htouch (fun u hu => ?_) (fun g hg => ?_) hput ?_ ?_ ?_⟩
    · rw [hhome]
      exact fun he => hu (Home.held.inj he).symm
    · exact (Option.some.inj (hholds.symm.trans hg)).symm
    · exact ⟨by simp [← hs, setPc, Heap.set], hs ▸ hl⟩
    · simp [← hs, setPc, holds]
    · simp [← hs, setPc]
  | _ => simp [hpc] at hs

/-! ## The queue, the timers and the events -/

theorem Owned.same (h : Owned s home) (hheap : s'.heap = s.heap) (hlocked : s'.locked = s.locked)
    (hpool : s'.pool = s.pool) (hpc : s'.pc = s.pc) : Owned s' home where
  fresh := hheap ▸ h.fresh
  idle := hpool ▸ h.idle
  fibers := fun f => (h.fibers f).congr (by rw [hheap]) (by rw [hlocked]) fun t _ => by rw [hpc]
  pcs := hpc ▸ h.pcs
  pauses := hpc ▸ h.pauses

theorem Owned.set_pc (h : Owned s home) {pc : Pc} (hold : holds (s.pc t) = none)
    (hnew : holds pc = none) : Owned (s.setPc t pc) home where
  fresh := h.fresh
  idle := h.idle
  fibers := by
    intro f
    refine (h.fibers f).congr rfl rfl fun u hu => ?_
    have hut : u ≠ t := by
      rintro rfl
      have hok := h.fibers f
      rw [hu] at hok
      simp [hok.1] at hold
    simp [setPc, hut]
  pcs := by
    intro u f hf
    by_cases hu : u = t
    · subst hu
      simp [setPc, hnew] at hf
    · exact h.pcs u f (by simpa [setPc, hu] using hf)
  pauses := by
    intro u f p rest hp
    by_cases hu : u = t
    · subst hu
      simp only [setPc, Function.update_self] at hp
      simp [hp, holds] at hnew
    · exact h.pauses u f p rest (by simpa [setPc, hu] using hp)

theorem Owned.dequeue (h : Owned s home) (hs : s.dequeue t = some s') : Owned s' home := by
  obtain ⟨hpc, hs⟩ := Option.ite_none_right_eq_some.mp hs
  obtain ⟨d, -, rfl⟩ := Option.map_eq_some_iff.mp hs
  have h' : Owned { s with m_tasks := d.m_tasks } home := h.same rfl rfl rfl rfl
  have hold : holds (s.pc t) = none := by simp [hpc, holds]
  rcases d.task with _ | ⟨_ | f, _ | c, thread⟩
  · exact h'
  · exact h'
  · exact h'.set_pc hold rfl
  · exact h'.set_pc hold rfl
  · exact h'.set_pc hold rfl

theorem Owned.submitFiber (h : Owned s home) (body : List Pause) (thread : Int) :
    Owned (s.submitFiber body thread) (Function.update home s.heap.created .queued) := by
  set f := s.heap.created with hf
  have hfresh : home f = .fresh := h.fresh f le_rfl
  have hagree {g : Nat} (hg : home g ≠ .fresh) : Function.update home f .queued g = home g :=
    Function.update_of_ne (by rintro rfl; exact hg hfresh) _ _
  refine ⟨h.toPooled.submitFiber body thread, fun g => ?_, fun u g hg => ?_, h.pauses⟩
  · by_cases hg : g = f
    · have hok := h.fibers f
      rw [hfresh] at hok
      rw [hg, Function.update_self]
      exact ⟨by simp [System.submitFiber, System.push, setOwed, Heap.set, ← hf], hok.2⟩
    · rw [Function.update_of_ne hg]
      refine (h.fibers g).congr ?_ rfl fun _ _ => rfl
      simp [System.submitFiber, System.push, setOwed, Heap.set, ← hf, hg]
  · have hhome := h.pcs u g hg
    rw [hagree (by simp [hhome]), hhome]

/-! ## Runs -/

/-- **One step** that meets the guard leaves every fiber in one place. -/
theorem Owned.step (h : Owned s home) {a : WorkerAct} (hg : s.KeepsStates a)
    (hs : s.step a = some s') : ∃ home', Owned s' home' := by
  cases a with
  | submitFiber body thread =>
    obtain rfl := Option.some.inj hs
    exact ⟨_, h.submitFiber body thread⟩
  | submitCb body thread =>
    obtain rfl := Option.some.inj hs
    exact ⟨home, h.same rfl rfl rfl rfl⟩
  | dequeue t => exact ⟨home, h.dequeue hs⟩
  | acquire t => exact h.acquire hs
  | resume t => exact h.resume hg hs
  | exec t => exact h.exec hg hs
  | switch t => exact h.switch hs
  | release t => exact h.release hs
  | fireTimer i =>
    obtain ⟨f, -, rfl⟩ := Option.map_eq_some_iff.mp hs
    exact ⟨home, h.same rfl rfl rfl rfl⟩
  | triggerEvent i =>
    obtain ⟨f, -, rfl⟩ := Option.map_eq_some_iff.mp hs
    exact ⟨home, h.same rfl rfl rfl rfl⟩

theorem Owned.not_failsAssertion (h : Owned s home) (a : WorkerAct) : ¬ s.FailsAssertion a := by
  cases a with
  | acquire t =>
    rintro ⟨c, f, rest, -, hi, hn⟩
    obtain ⟨home', hpool, hgrown⟩ := h.toPooled.acquire t
    have h' := h.grown hpool hgrown (by simp)
    generalize (FiberPool.getLocalFiberPool (s.pool t) s.heap).1.grow _ = r at hi hn hpool h'
    have hr : (s.withPool t r.1 r.2).pool t = some r.1 := by simp [withPool]
    have hok := h'.fibers f
    rw [(hpool.idle t r.1 hr).2 f (by simp [hi])] at hok
    simp [show r.2.fiber f = {} from hok.1, Fiber.reset] at hn
  | resume t =>
    rintro ⟨f, isCb, hpc, hl, hskip, hn⟩
    rcases h.state_of_free hl with hst | hst
    · simp [Fiber.resume, hst] at hn
    · -- a fiber acquired for a callback is not `TERM`
      obtain rfl : isCb = true := by simpa [hst] using hskip
      have hok := (h.held (t := t) (f := f) (by rw [hpc]; rfl)).2
      rw [hpc] at hok
      simp [hst] at hok
  | exec t =>
    rintro ⟨f, -, hn⟩
    simp [Fiber.finish, Fiber.yield] at hn
  | switch t =>
    rintro ⟨f, p, rest, hpc, hn⟩
    have hp := h.pauses t f p rest hpc
    have hok := (h.held (t := t) (f := f) (by rw [hpc]; rfl)).2
    simp only [hpc] at hok
    cases p <;> simp_all [pauseCall, Fiber.yield]
  | release t =>
    rintro ⟨f, hpc, -, hn⟩
    have hok := (h.held (t := t) (f := f) (by rw [hpc]; rfl)).2
    simp only [hpc] at hok
    simp [Fiber.reset, hok.1.symm] at hn
  | _ => exact id

/-- **The state machine of the fibers.** In every run that takes no fiber to `suspend`, and
resumes no queued fiber that another thread still has to release or has acquired for a
callback, no step fails a state assertion. -/
theorem fiber_assertions_hold (acts : List WorkerAct) (s : System)
    (hg : Guarded KeepsStates step {} acts) (hrun : run step {} acts = some s) :
    (∀ a, ¬ s.FailsAssertion a) ∧ ∀ t f rest, s.pc t ≠ .pausing f .doIo rest := by
  have hstep {s : System} {a : WorkerAct} {s' : System} (hi : ∃ home, Owned s home)
      (hg : s.KeepsStates a) (hs : s.step a = some s') : ∃ home, Owned s' home := by
    obtain ⟨home, h⟩ := hi
    exact h.step hg hs
  have h0 : ∃ home, Owned {} home := ⟨_, .init⟩
  obtain ⟨home, h⟩ := run_invariant acts hstep h0 hg hrun
  exact ⟨h.not_failsAssertion, fun t f rest hp => h.pauses t f .doIo rest hp rfl⟩

/-- The first fiber that has to wait for its socket fails the assertion of `yield`. -/
theorem suspend_fails : ¬ ∀ (acts : List WorkerAct) (s : System), run step {} acts = some s →
    ∀ a, ¬ s.FailsAssertion a := by
  intro h
  have hno := h [.submitFiber [.doIo] (-1), .dequeue 0, .resume 0, .exec 0] _ rfl (.switch 0)
  exact hno (suspend_failsAssertion (f := 0) (by rfl : _ = Pc.pausing 0 .doIo []))

/-- A fiber that sleeps once: it yields, and is released with its timer still pending. -/
theorem fiber_assertions_hold_sleeper :
    let acts : List WorkerAct :=
      [.submitFiber [.sleep] (-1), .dequeue 0, .resume 0, .exec 0, .switch 0, .release 0]
    ∃ s, run step {} acts = some s ∧ Guarded KeepsStates step {} acts ∧ s.timers = [0] ∧
      ∀ a, ¬ s.FailsAssertion a := by
  intro acts
  have hresume (u : Nat) : Function.update (fun _ => Pc.loop) 0 (.gotFiber 0 false) u ≠
      .returned 0 ∧ Function.update (fun _ => Pc.loop) 0 (.gotFiber 0 false) u ≠
      .gotFiber 0 true := by
    by_cases hu : u = 0
    · simp [hu]
    · simp [hu]
  have hg : Guarded KeepsStates step {} acts := by
    refine .of_step trivial rfl (.of_step trivial rfl (.of_step ?_ rfl (.of_step ?_ rfl
      (.of_step trivial rfl (.of_step trivial rfl trivial)))))
    · intro f hf
      obtain rfl : 0 = f := (Pc.gotFiber.inj hf).1
      exact hresume
    · exact fun f rest => (by simp : Pc.running 0 (.body [.sleep]) ≠ _)
  exact ⟨_, rfl, hg, rfl, (fiber_assertions_hold acts _ hg rfl).1⟩

end Workplace.Coroutine.System
