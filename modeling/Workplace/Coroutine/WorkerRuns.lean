import Workplace.Coroutine.Worker

/-! Where each fiber is during a run in which no fiber yields before it has finished. -/

namespace Workplace.Coroutine.System
open Workplace.Lib

/-- The one place a fiber is in. -/
inductive Home where
  -- not created yet
  | fresh
  -- in the idle queue of a thread
  | idle (t : Nat)
  -- in the task queue, with its whole body to run
  | queued
  -- taken by a thread, which resumes it and releases it
  | held (t : Nat)
  -- on its way into `suspend`, which the process does not survive
  | doomed
  deriving DecidableEq

variable {s s' : System} {home : Nat → Home} {t f : Nat}

/-! ## The pools -/

def withPool (s : System) (t : Nat) (p : FiberPool) (h : Heap Cb) : System :=
  { s with heap := h, pool := Function.update s.pool t (some p) }

def idleFibers (s : System) (t : Nat) : List Nat :=
  ((s.pool t).map FiberPool.m_idleFibers).getD []

/-- What `home` says of the pools: an idle queue holds each of its fibers once, and no
fiber has a place before it is created. -/
structure Pooled (s : System) (home : Nat → Home) : Prop where
  fresh : ∀ f, s.heap.created ≤ f → home f = .fresh
  idle : ∀ t p, s.pool t = some p → p.m_idleFibers.Nodup ∧
    ∀ f ∈ p.m_idleFibers, home f = .idle t

/-- Fibers may have been created for the pool of `t`; the others are where they were. -/
def Grown (t : Nat) (home home' : Nat → Home) : Prop :=
  ∀ f, home' f = home f ∨ home f = .fresh ∧ home' f = .idle t

theorem Grown.agree {home' : Nat → Home} (h : Grown t home home') (f : Nat)
    (hf : home f ≠ .fresh) : home' f = home f :=
  (h f).resolve_right fun hn => hf hn.1

theorem Grown.trans {home₁ home₂ : Nat → Home} (h : Grown t home home₁)
    (h' : Grown t home₁ home₂) : Grown t home home₂ := by
  intro f
  rcases h f with h₁ | ⟨h₀, h₁⟩
  · rw [← h₁]
    exact h' f
  · refine .inr ⟨h₀, ?_⟩
    rw [h'.agree f (by simp [h₁]), h₁]

theorem Pooled.idleFibers (h : Pooled s home) (t : Nat) :
    (s.idleFibers t).Nodup ∧ ∀ f ∈ s.idleFibers t, home f = .idle t := by
  rw [System.idleFibers]
  cases hp : s.pool t with
  | none => simp
  | some p => exact h.idle t p hp

theorem Pooled.lt_created (h : Pooled s home) (hf : home f ≠ .fresh) : f < s.heap.created := by
  by_contra hn
  exact hf (h.fresh f (by omega))

theorem Pooled.createFibers (h : Pooled s home) {p : FiberPool}
    (hp : p.m_idleFibers = s.idleFibers t) (count : Nat) :
    ∃ home', Pooled (s.withPool t (p.createFibers s.heap count).1
      (p.createFibers s.heap count).2) home' ∧ Grown t home home' := by
  let new (f : Nat) : Prop := s.heap.created ≤ f ∧ f < s.heap.created + count
  have hold {f : Nat} (hf : home f ≠ .fresh) :
      (if new f then Home.idle t else home f) = home f :=
    if_neg fun hn => hf (h.fresh f hn.1)
  refine ⟨fun f => if new f then .idle t else home f, ⟨fun f hf => ?_, fun u q hq => ?_⟩,
    fun f => ?_⟩
  · have hf' : s.heap.created + count ≤ f := hf
    rw [if_neg (fun hn : new f => by have := hn.2; omega)]
    exact h.fresh f (by omega)
  · by_cases hu : u = t
    · subst hu
      obtain ⟨hn, hi⟩ := h.idleFibers u
      obtain rfl : (p.createFibers s.heap count).1 = q := by simpa [withPool] using hq
      simp only [FiberPool.createFibers, hp]
      refine ⟨List.nodup_append.mpr ⟨hn, List.nodup_range', fun a ha b hb hab => ?_⟩,
        fun f hf => ?_⟩
      · have hlt := h.lt_created (f := a) (by simp [hi a ha])
        have hle := (List.mem_range'_1.mp hb).1
        omega
      · rcases List.mem_append.mp hf with hf | hf
        · rw [hold (by simp [hi f hf])]
          exact hi f hf
        · rw [if_pos (List.mem_range'_1.mp hf)]
    · obtain ⟨hn, hi⟩ := h.idle u q (by simpa [withPool, hu] using hq)
      refine ⟨hn, fun f hf => ?_⟩
      rw [hold (by simp [hi f hf])]
      exact hi f hf
  · by_cases hf : new f
    · exact .inr ⟨h.fresh f hf.1, if_pos hf⟩
    · exact .inl (if_neg hf)

theorem Pooled.getLocalFiberPool (h : Pooled s home) (t : Nat) :
    let r := FiberPool.getLocalFiberPool (s.pool t) s.heap
    ∃ home', Pooled (s.withPool t r.1 r.2) home' ∧ Grown t home home' := by
  cases hp : s.pool t with
  | none => exact h.createFibers (p := {}) (by simp [System.idleFibers, hp]) 256
  | some p =>
    refine ⟨home, ?_, fun f => .inl rfl⟩
    have hsame : s.withPool t p s.heap = s := by
      simp [withPool, ← hp, Function.update_eq_self]
    rw [FiberPool.getLocalFiberPool, hsame]
    exact h

theorem Pooled.grow {p : FiberPool} {x : Heap Cb} (h : Pooled (s.withPool t p x) home) :
    ∃ home', Pooled (s.withPool t (p.grow x).1 (p.grow x).2) home' ∧ Grown t home home' := by
  rw [FiberPool.grow]
  split_ifs
  · have hpool : p.m_idleFibers = (s.withPool t p x).idleFibers t := by
      simp [System.idleFibers, withPool]
    obtain ⟨home', h', hg⟩ := h.createFibers hpool
      (p.m_allFibers.length * 3 / 2 - p.m_allFibers.length)
    refine ⟨home', ?_, hg⟩
    simpa [withPool] using h'
  · exact ⟨home, h, fun f => .inl rfl⟩

theorem Pooled.acquire (h : Pooled s home) (t : Nat) :
    let r := FiberPool.getLocalFiberPool (s.pool t) s.heap
    let r' := r.1.grow r.2
    ∃ home', Pooled (s.withPool t r'.1 r'.2) home' ∧ Grown t home home' := by
  obtain ⟨home₁, h₁, hg₁⟩ := h.getLocalFiberPool t
  obtain ⟨home₂, h₂, hg₂⟩ := h₁.grow
  exact ⟨home₂, h₂, hg₁.trans hg₂⟩

theorem Pooled.take (h : Pooled s home) {p : FiberPool} {rest : List Nat}
    (hp : s.pool t = some p) (hi : p.m_idleFibers = f :: rest)
    (hc : s'.heap.created = s.heap.created)
    (hp' : s'.pool = Function.update s.pool t (some { p with m_idleFibers := rest }))
    (place : Home) : Pooled s' (Function.update home f place) := by
  obtain ⟨hnodup, hidle⟩ := h.idle t p hp
  rw [hi] at hnodup hidle
  have hf := hidle f List.mem_cons_self
  refine ⟨fun g hg => ?_, fun u q hq => ?_⟩
  · rw [hc] at hg
    have hlt := h.lt_created (f := f) (by simp [hf])
    rw [Function.update_of_ne (by omega)]
    exact h.fresh g hg
  · rw [hp'] at hq
    by_cases hu : u = t
    · subst hu
      rw [Function.update_self] at hq
      obtain rfl := Option.some.inj hq
      refine ⟨(List.nodup_cons.mp hnodup).2, fun g hg => ?_⟩
      have hne : g ≠ f := fun he => (List.nodup_cons.mp hnodup).1 (he ▸ hg)
      rw [Function.update_of_ne hne]
      exact hidle g (List.mem_cons_of_mem f hg)
    · rw [Function.update_of_ne hu] at hq
      obtain ⟨hn, hall⟩ := h.idle u q hq
      refine ⟨hn, fun g hg => ?_⟩
      have hne : g ≠ f := by
        rintro rfl
        exact hu (Home.idle.inj ((hall g hg).symm.trans hf))
      rw [Function.update_of_ne hne]
      exact hall g hg

theorem Pooled.move (h : Pooled s home) (hf : ∀ u, home f ≠ .idle u) (hlt : f < s.heap.created)
    (hc : s'.heap.created = s.heap.created) (hp : s'.pool = s.pool) (place : Home) :
    Pooled s' (Function.update home f place) := by
  refine ⟨fun g hg => ?_, fun u q hq => ?_⟩
  · rw [hc] at hg
    rw [Function.update_of_ne (by omega)]
    exact h.fresh g hg
  · obtain ⟨hn, hall⟩ := h.idle u q (hp ▸ hq)
    refine ⟨hn, fun g hg => ?_⟩
    have hne : g ≠ f := by
      rintro rfl
      exact hf u (hall g hg)
    rw [Function.update_of_ne hne]
    exact hall g hg

theorem Pooled.put (h : Pooled s home) {p : FiberPool} (hp : s.pool t = some p)
    (hf : ∀ u, home f ≠ .idle u) (hlt : f < s.heap.created)
    (hc : s'.heap.created = s.heap.created)
    (hp' : s'.pool = Function.update s.pool t
      (some { p with m_idleFibers := p.m_idleFibers ++ [f] })) :
    Pooled s' (Function.update home f (.idle t)) := by
  have hc₁ : ({ s' with pool := s.pool } : System).heap.created = s.heap.created := hc
  have hmove := h.move hf hlt hc₁ rfl (.idle t)
  refine ⟨hmove.fresh, fun u q hq => ?_⟩
  rw [hp'] at hq
  by_cases hu : u = t
  · subst hu
    rw [Function.update_self] at hq
    obtain rfl := Option.some.inj hq
    obtain ⟨hn, hall⟩ := hmove.idle u p hp
    refine ⟨List.nodup_append.mpr ⟨hn, List.nodup_singleton f, fun a ha b hb hab => ?_⟩,
      fun g hg => ?_⟩
    · rw [hab, List.mem_singleton.mp hb] at ha
      exact hf u ((h.idle u p hp).2 f ha)
    · rcases List.mem_append.mp hg with hg | hg
      · exact hall g hg
      · rw [List.mem_singleton.mp hg, Function.update_self]
  · rw [Function.update_of_ne hu] at hq
    exact hmove.idle u q hq

/-! ## The place of every fiber -/

/-- The fiber waits for its first `resume` with the body it was given. -/
def Waiting (s : System) (f : Nat) : Prop :=
  ∃ body, s.heap.fiber f = { m_cb := some (.body body) } ∧ s.owed f = some (.body body) ∧
    s.locked f = false

def FiberOk (s : System) (f : Nat) : Home → Prop
  | .fresh => s.heap.fiber f = {} ∧ s.locked f = false
  | .idle _ => s.heap.fiber f = {} ∧ s.locked f = false
  | .queued => Waiting s f
  | .held t => match s.pc t with
    | .gotFiber g _ => g = f ∧ Waiting s f
    | .running g c => g = f ∧ (s.heap.fiber f).m_state = .RUNNING ∧ s.locked f = true ∧
        ∃ body, c = .body body ∧ s.owed f = some c
    | .returned g => g = f ∧ (s.heap.fiber f).m_state = .TERM ∧ s.owed f = none ∧
        s.locked f = false
    | _ => False
  | .doomed => s.locked f = true

def PcOk (home : Nat → Home) (t : Nat) : Pc → Prop
  | .loop => True
  | .gotCb c => ∃ body, c = .body body
  | .gotFiber f _ => home f = .held t ∨ home f = .doomed
  | .running f _ => home f = .held t
  | .pausing f p _ => home f = .doomed ∧ p = .doIo
  | .returned f => home f = .held t

/-- Each fiber is where `home` says, and everything that refers to it agrees. -/
structure Placed (s : System) (home : Nat → Home) : Prop where
  fibers : ∀ f, FiberOk s f (home f)
  fresh : ∀ f, s.heap.created ≤ f → home f = .fresh
  idle : ∀ t p, s.pool t = some p → p.m_idleFibers.Nodup ∧
    ∀ f ∈ p.m_idleFibers, home f = .idle t
  pcs : ∀ t, PcOk home t (s.pc t)
  tasks : ∀ k ∈ s.m_tasks, k.hasWork ∧
    (∀ f, k.fiber = some f → home f = .queued ∨ home f = .doomed) ∧
    ∀ c, k.cb = some c → ∃ body, c = .body body
  -- a fiber that waits for its turn is queued once
  once : ((s.m_tasks.filterMap ScheduleTask.fiber).filter fun f => home f = .queued).Nodup
  timers : s.timers = []
  events : ∀ f ∈ s.events, home f = .doomed

theorem Placed.init : Placed {} fun _ => .fresh where
  fibers := fun _ => ⟨rfl, rfl⟩
  fresh := fun _ _ => rfl
  idle := by simp
  pcs := fun _ => trivial
  tasks := by simp
  once := List.nodup_nil
  timers := rfl
  events := by simp

theorem Placed.pooled (h : Placed s home) : Pooled s home := ⟨h.fresh, h.idle⟩

theorem Placed.not_referenced (h : Placed s home) {p : FiberPool} (hp : s.pool t = some p)
    (hf : f ∈ p.m_idleFibers) : ¬ s.Referenced f := by
  have hidle := (h.idle t p hp).2 f hf
  rintro (ht | he | ⟨k, hk, hkf | hkc⟩)
  · simp [h.timers] at ht
  · simp [h.events f he] at hidle
  · rcases (h.tasks k hk).2.1 f hkf with hq | hd
    · simp [hq] at hidle
    · simp [hd] at hidle
  · obtain ⟨body, hb⟩ := (h.tasks k hk).2.2 _ hkc
    simp at hb

theorem Placed.held_eq (h : Placed s home) {g : Nat} (hg : home g = .held t) :
    (∃ isCb, s.pc t = .gotFiber g isCb) ∨ (∃ c, s.pc t = .running g c) ∨
      s.pc t = .returned g := by
  have hok := h.fibers g
  rw [hg] at hok
  simp only [FiberOk] at hok
  cases hpc : s.pc t with
  | gotFiber g' isCb =>
    rw [hpc] at hok
    exact .inl ⟨isCb, by rw [hok.1]⟩
  | running g' c =>
    rw [hpc] at hok
    exact .inr (.inl ⟨c, by rw [hok.1]⟩)
  | returned g' =>
    rw [hpc] at hok
    exact .inr (.inr (by rw [hok.1]))
  | loop => simp [hpc] at hok
  | gotCb c => simp [hpc] at hok
  | pausing => simp [hpc] at hok

/-- What a fiber's place says about it depends on its own fields and its thread alone. -/
theorem FiberOk.congr {place : Home} (h : FiberOk s f place)
    (hfiber : s'.heap.fiber f = s.heap.fiber f) (hlocked : s'.locked f = s.locked f)
    (howed : s'.owed f = s.owed f) (hpc : ∀ t, place = .held t → s'.pc t = s.pc t) :
    FiberOk s' f place := by
  cases place with
  | fresh => exact ⟨hfiber.trans h.1, hlocked.trans h.2⟩
  | idle t => exact ⟨hfiber.trans h.1, hlocked.trans h.2⟩
  | queued =>
    obtain ⟨c, hc, ho, hl⟩ := h
    exact ⟨c, hfiber.trans hc, howed.trans ho, hlocked.trans hl⟩
  | doomed => exact hlocked.trans h
  | held t =>
    simp only [FiberOk, hpc t rfl] at h ⊢
    cases hp : s.pc t <;> simp only [hp] at h ⊢
    · obtain ⟨rfl, c, hc, ho, hl⟩ := h
      exact ⟨rfl, c, hfiber.trans hc, howed.trans ho, hlocked.trans hl⟩
    · obtain ⟨rfl, hst, hl, body, hb, ho⟩ := h
      exact ⟨rfl, hfiber ▸ hst, hlocked.trans hl, body, hb, howed.trans ho⟩
    · exact ⟨h.1, hfiber ▸ h.2.1, howed.trans h.2.2.1, hlocked.trans h.2.2.2⟩

/-! ## Moving one fiber -/

/-- The thread `t` may move the fiber: nobody else holds it, and no task refers to it. -/
structure Movable (s : System) (home : Nat → Home) (t f : Nat) : Prop where
  notDoomed : home f ≠ .doomed
  notTask : ∀ k ∈ s.m_tasks, k.fiber ≠ some f
  notHeld : ∀ u, u ≠ t → home f ≠ .held u
  notOther : ∀ g, g ≠ f → home g ≠ .held t

/-- The two systems differ at most in the fiber `f`, in where the thread `t` is, and in the
pools and the logs. -/
structure Frame (s s' : System) (t f : Nat) : Prop where
  fiber : ∀ g, g ≠ f → s'.heap.fiber g = s.heap.fiber g
  locked : ∀ g, g ≠ f → s'.locked g = s.locked g
  owed : ∀ g, g ≠ f → s'.owed g = s.owed g
  pc : ∀ u, u ≠ t → s'.pc u = s.pc u
  created : s'.heap.created = s.heap.created
  tasks : s'.m_tasks = s.m_tasks
  timers : s'.timers = s.timers

theorem Placed.update_fibers (h : Placed s home) (hm : Movable s home t f)
    (hs : Frame s s' t f) {place : Home} (hf : FiberOk s' f place) (g : Nat) :
    FiberOk s' g (Function.update home f place g) := by
  by_cases hg : g = f
  · subst hg
    rw [Function.update_self]
    exact hf
  · rw [Function.update_of_ne hg]
    refine (h.fibers g).congr (hs.fiber g hg) (hs.locked g hg) (hs.owed g hg) fun u hu => ?_
    exact hs.pc u fun hut => hm.notOther g hg (hut ▸ hu)

theorem Placed.update_pcs (h : Placed s home) (hm : Movable s home t f) (place : Home) {u : Nat}
    (hu : u ≠ t) : PcOk (Function.update home f place) u (s.pc u) := by
  have hpc := h.pcs u
  -- the thread `u` does not have the fiber `f`
  have hne {g : Nat} (hg : home g = .held u ∨ home g = .doomed) : g ≠ f := by
    rintro rfl
    exact hg.elim (hm.notHeld u hu) hm.notDoomed
  cases hp : s.pc u with
  | loop => trivial
  | gotCb c =>
    rw [hp] at hpc
    exact hpc
  | gotFiber g isCb =>
    rw [hp] at hpc
    simpa only [PcOk, Function.update_of_ne (hne hpc)] using hpc
  | running g c =>
    rw [hp] at hpc
    simpa only [PcOk, Function.update_of_ne (hne (.inl hpc))] using hpc
  | pausing g p rest =>
    rw [hp] at hpc
    simpa only [PcOk, Function.update_of_ne (hne (.inr hpc.1))] using hpc
  | returned g =>
    rw [hp] at hpc
    simpa only [PcOk, Function.update_of_ne (hne (.inl hpc))] using hpc

/-- **A thread moves one fiber.** -/
theorem Placed.move (h : Placed s home) (hm : Movable s home t f) (hs : Frame s s' t f)
    (hlt : f < s.heap.created) {place : Home}
    (hevents : ∀ g ∈ s'.events, g ∈ s.events ∨ g = f ∧ place = .doomed)
    (hpool : ∀ u p, s'.pool u = some p → p.m_idleFibers.Nodup ∧
      ∀ g ∈ p.m_idleFibers, Function.update home f place g = .idle u)
    (hfiber : FiberOk s' f place) (hpc : PcOk (Function.update home f place) t (s'.pc t)) :
    Placed s' (Function.update home f place) where
  fibers := h.update_fibers hm hs hfiber
  fresh := by
    intro g hg
    rw [hs.created] at hg
    rw [Function.update_of_ne (by omega)]
    exact h.fresh g hg
  idle := hpool
  pcs := by
    intro u
    by_cases hu : u = t
    · exact hu ▸ hpc
    · rw [hs.pc u hu]
      exact h.update_pcs hm place hu
  tasks := by
    rw [hs.tasks]
    intro k hk
    obtain ⟨hw, hf, hc⟩ := h.tasks k hk
    refine ⟨hw, fun g hg => ?_, hc⟩
    have hgf : g ≠ f := by
      rintro rfl
      exact hm.notTask k hk hg
    rw [Function.update_of_ne hgf]
    exact hf g hg
  once := by
    rw [hs.tasks, List.filter_congr (q := fun g => home g = .queued)]
    · exact h.once
    intro g hg
    obtain ⟨k, hk, hkg⟩ := List.mem_filterMap.mp hg
    have hgf : g ≠ f := by
      rintro rfl
      exact hm.notTask k hk hkg
    rw [Function.update_of_ne hgf]
  timers := hs.timers.trans h.timers
  events := by
    intro g hg
    rcases hevents g hg with hg | ⟨rfl, rfl⟩
    · have hne : g ≠ f := by
        rintro rfl
        exact hm.notDoomed (h.events g hg)
      rw [Function.update_of_ne hne]
      exact h.events g hg
    · exact Function.update_self ..

theorem Placed.notTask (h : Placed s home) (hq : home f ≠ .queued) (hd : home f ≠ .doomed) :
    ∀ k ∈ s.m_tasks, k.fiber ≠ some f :=
  fun k hk hkf => ((h.tasks k hk).2.1 f hkf).elim hq hd

theorem Placed.movable_held (h : Placed s home) (hf : home f = .held t) :
    Movable s home t f := by
  refine ⟨by simp [hf], h.notTask (by simp [hf]) (by simp [hf]), fun u hu => ?_,
    fun g hg hg' => hg ?_⟩
  · rw [hf]
    exact fun he => hu (Home.held.inj he).symm
  · rcases h.held_eq hf with ⟨b, hp⟩ | ⟨c, hp⟩ | hp <;>
      rcases h.held_eq hg' with ⟨b', hp'⟩ | ⟨c', hp'⟩ | hp' <;> simp_all

theorem Placed.movable_idle (h : Placed s home) (hf : home f = .idle t) {c : Cb}
    (hpc : s.pc t = .gotCb c) : Movable s home t f := by
  refine ⟨by simp [hf], h.notTask (by simp [hf]) (by simp [hf]), by simp [hf], fun g _ hg => ?_⟩
  rcases h.held_eq hg with ⟨b, hp⟩ | ⟨c', hp⟩ | hp <;> simp [hpc] at hp

theorem Placed.lt_created (h : Placed s home) (hf : home f ≠ .fresh) : f < s.heap.created :=
  h.pooled.lt_created hf

theorem Placed.pool_update (h : Placed s home) (hf : ∀ u, home f ≠ .idle u)
    (hlt : f < s.heap.created) (place : Home) :
    ∀ u p, s.pool u = some p → p.m_idleFibers.Nodup ∧
      ∀ g ∈ p.m_idleFibers, Function.update home f place g = .idle u :=
  (h.pooled.move hf hlt rfl rfl place).idle

/-! ## The steps of a thread -/

theorem Placed.keep (h : Placed s home) (hf : home f = .held t) (hs : Frame s s' t f)
    (hevents : s'.events = s.events) (hpool : s'.pool = s.pool)
    (hfiber : FiberOk s' f (.held t)) (hpc : PcOk home t (s'.pc t)) : Placed s' home := by
  have hself : Function.update home f (.held t) = home := by
    rw [← hf]
    exact Function.update_eq_self f home
  rw [← hself] at hpc ⊢
  refine h.move (h.movable_held hf) hs (h.lt_created (by simp [hf])) (fun g hg => ?_) ?_ hfiber hpc
  · rw [hevents] at hg
    exact .inl hg
  · rw [hpool]
    exact h.pool_update (by simp [hf]) (h.lt_created (by simp [hf])) _

theorem Placed.resume (h : Placed s home) (hs : s.resume t = some s') :
    Placed s' home ∧ s'.releases = s.releases ∧
      ∃ c, s'.resumes = s.resumes ++ [(c, some c)] := by
  rw [System.resume] at hs
  cases hpc : s.pc t with
  | gotFiber f isCb =>
    simp only [hpc] at hs
    have hp := h.pcs t
    have hok := h.fibers f
    rw [hpc] at hp
    rcases hp with hp | hp
    swap
    · rw [hp] at hok
      simp [show s.locked f = true from hok] at hs
    · rw [hp] at hok
      simp only [FiberOk, hpc, true_and] at hok
      obtain ⟨body, hfib, howed, hl⟩ := hok
      simp only [hl, hfib, Fiber.resume, if_true, Fiber.code, Option.none_or, Option.bind_eq_bind,
        Option.bind_some, Option.some.injEq, Bool.false_eq_true, if_false, reduceCtorEq,
        and_false, howed] at hs
      have hframe : Frame s s' t f := by
        subst hs
        refine ⟨fun g hg => ?_, fun g hg => ?_, fun _ _ => rfl, fun u hu => ?_, rfl, rfl, rfl⟩
        · simp [setPc, setLocked, Heap.set, hg]
        · simp [setPc, setLocked, hg]
        · simp [setPc, setLocked, hu]
      refine ⟨h.keep hp hframe ?_ ?_ ?_ ?_, ?_, .body body, ?_⟩
      · exact hs ▸ rfl
      · exact hs ▸ rfl
      · simp [← hs, FiberOk, setPc, setLocked, Heap.set, howed]
      · simp [← hs, PcOk, setPc, hp]
      · exact hs ▸ rfl
      · exact hs ▸ rfl
  | _ => simp [hpc] at hs

theorem Placed.exec (h : Placed s home) (hs : s.exec t = some s')
    (hg : s.NoPlainYield (.exec t)) :
    (∃ home', Placed s' home') ∧ s'.releases = s.releases ∧ s'.resumes = s.resumes := by
  rw [System.exec] at hs
  cases hpc : s.pc t with
  | running f c =>
    have hp : home f = .held t := by
      have hp := h.pcs t
      rw [hpc] at hp
      exact hp
    have hok := h.fibers f
    rw [hp] at hok
    simp only [FiberOk, hpc, true_and] at hok
    obtain ⟨hst, hl, body, rfl, howed⟩ := hok
    rcases body with _ | ⟨p, rest⟩
    · -- the body has returned
      simp only [hpc, Fiber.finish, Fiber.yield, or_true, if_true, Option.map_some,
        Option.some.injEq] at hs
      have hframe : Frame s s' t f := by
        subst hs
        refine ⟨fun g hg => ?_, fun g hg => ?_, fun g hg => ?_, fun u hu => ?_, rfl, rfl, rfl⟩
        · simp [setPc, setLocked, setOwed, Heap.set, hg]
        · simp [setPc, setLocked, setOwed, hg]
        · simp [setPc, setLocked, setOwed, hg]
        · simp [setPc, setLocked, setOwed, hu]
      refine ⟨⟨home, h.keep hp hframe ?_ ?_ ?_ ?_⟩, ?_, ?_⟩
      · exact hs ▸ rfl
      · exact hs ▸ rfl
      · simp [← hs, FiberOk, setPc, setLocked, setOwed, Heap.set]
      · simp [← hs, PcOk, setPc, hp]
      · exact hs ▸ rfl
      · exact hs ▸ rfl
    · -- the only pause it may reach is the one that ends in `suspend`
      obtain rfl : p = .doIo := by simpa [NoPlainYield, atPlainYield, hpc] using hg
      simp only [hpc, Option.some.injEq] at hs
      have hframe : Frame s s' t f := by
        subst hs
        refine ⟨fun _ _ => rfl, fun _ _ => rfl, fun g hg => ?_, fun u hu => ?_, rfl, rfl, rfl⟩
        · simp [setPc, setOwed, hg]
        · simp [setPc, setOwed, hu]
      refine ⟨⟨Function.update home f .doomed, h.move (h.movable_held hp) hframe
        (h.lt_created (by simp [hp])) (fun g hg => ?_) ?_ ?_ ?_⟩, ?_, ?_⟩
      · subst hs
        simpa [setPc, setOwed] using hg
      · subst hs
        exact h.pool_update (by simp [hp]) (h.lt_created (by simp [hp])) _
      · subst hs
        exact hl
      · simp [← hs, PcOk, setPc]
      · exact hs ▸ rfl
      · exact hs ▸ rfl
  | _ => simp [hpc] at hs

theorem Placed.switch (h : Placed s home) (hs : s.switch t = some s') : False := by
  rw [System.switch] at hs
  cases hpc : s.pc t with
  | pausing f p rest =>
    have hp := h.pcs t
    rw [hpc] at hp
    obtain ⟨-, rfl⟩ := hp
    simp [hpc, Fiber.suspend_eq_none] at hs
  | _ => simp [hpc] at hs

/-! ## Acquiring and releasing -/

theorem PcOk.agree {home' : Nat → Home} (hh : ∀ f, home f ≠ .fresh → home' f = home f) {pc : Pc}
    (h : PcOk home t pc) : PcOk home' t pc := by
  cases pc with
  | loop => trivial
  | gotCb c => exact h
  | gotFiber f isCb =>
    have hf : home' f = home f := hh f (by rcases h with h | h <;> simp [h])
    simpa only [PcOk, hf] using h
  | running f c => exact (hh f (by simp [show home f = .held t from h])).trans h
  | pausing f p rest => exact ⟨(hh f (by simp [h.1])).trans h.1, h.2⟩
  | returned f => exact (hh f (by simp [show home f = .held t from h])).trans h

theorem Placed.task_ne_fresh (h : Placed s home) {k : ScheduleTask Nat Cb} (hk : k ∈ s.m_tasks)
    (hf : k.fiber = some f) : home f ≠ .fresh := by
  rcases (h.tasks k hk).2.1 f hf with hf | hf <;> simp [hf]

theorem Placed.tasks_agree {home' : Nat → Home} (h : Placed s home)
    (hagree : ∀ f, home f ≠ .fresh → home' f = home f) (k : ScheduleTask Nat Cb)
    (hk : k ∈ s.m_tasks) : k.hasWork ∧
      (∀ f, k.fiber = some f → home' f = .queued ∨ home' f = .doomed) ∧
      ∀ c, k.cb = some c → ∃ body, c = .body body := by
  obtain ⟨hw, hkf, hc⟩ := h.tasks k hk
  refine ⟨hw, fun f hf => ?_, hc⟩
  rw [hagree f (h.task_ne_fresh hk hf)]
  exact hkf f hf

theorem Placed.once_agree {home' : Nat → Home} (h : Placed s home)
    (hagree : ∀ f, home f ≠ .fresh → home' f = home f) :
    ((s.m_tasks.filterMap ScheduleTask.fiber).filter fun f => home' f = .queued).Nodup := by
  refine (List.filter_congr fun f hf => ?_) ▸ h.once
  obtain ⟨k, hk, hkf⟩ := List.mem_filterMap.mp hf
  rw [hagree f (h.task_ne_fresh hk hkf)]

theorem Placed.events_agree {home' : Nat → Home} (h : Placed s home)
    (hagree : ∀ f, home f ≠ .fresh → home' f = home f) (f : Nat) (hf : f ∈ s.events) :
    home' f = .doomed := by
  rw [hagree f (by simp [h.events f hf])]
  exact h.events f hf

theorem Placed.grown {home' : Nat → Home} {p : FiberPool} {x : Heap Cb} (h : Placed s home)
    (hp : Pooled (s.withPool t p x) home') (hg : Grown t home home')
    (hx : x.fiber = s.heap.fiber) : Placed (s.withPool t p x) home' := by
  refine ⟨fun f => ?_, hp.fresh, hp.idle, fun u => (h.pcs u).agree hg.agree,
    h.tasks_agree hg.agree, h.once_agree hg.agree, h.timers, h.events_agree hg.agree⟩
  have hfiber : (s.withPool t p x).heap.fiber f = s.heap.fiber f := congrFun hx f
  have hok := h.fibers f
  rcases hg f with hf | ⟨hf, hf'⟩
  · rw [hf]
    exact hok.congr hfiber rfl rfl fun _ _ => rfl
  · rw [hf] at hok
    rw [hf']
    exact ⟨hfiber.trans hok.1, hok.2⟩

theorem Placed.acquire (h : Placed s home) (hs : s.acquire t = some s') :
    (∃ home', Placed s' home') ∧ s'.releases = s.releases ∧ s'.resumes = s.resumes := by
  rw [System.acquire] at hs
  cases hpc : s.pc t with
  | gotCb c =>
    obtain ⟨home₂, hpool, hgrown⟩ := h.pooled.acquire t
    have h₂ := h.grown hpool hgrown (by simp)
    simp only [hpc, FiberPool.acquire] at hs
    generalize (FiberPool.getLocalFiberPool (s.pool t) s.heap).1.grow _ = r₂ at hs hpool h₂
    rcases hi : r₂.1.m_idleFibers with _ | ⟨f, rest⟩
    · simp [hi] at hs
    have hr₂ : (s.withPool t r₂.1 r₂.2).pool t = some r₂.1 := by simp [withPool]
    have hf : home₂ f = .idle t := (hpool.idle t r₂.1 hr₂).2 f (by simp [hi])
    have hok := h₂.fibers f
    rw [hf] at hok
    have hfib : r₂.2.fiber f = {} := hok.1
    simp only [hi, hfib, Fiber.reset, or_true, if_true, Option.map_some, Option.some.injEq] at hs
    obtain ⟨body, rfl⟩ : ∃ body, c = .body body := by
      have hp := h.pcs t
      rw [hpc] at hp
      exact hp
    have hframe : Frame (s.withPool t r₂.1 r₂.2) s' t f := by
      subst hs
      refine ⟨fun g hg => ?_, fun _ _ => rfl, fun g hg => ?_, fun u hu => ?_, rfl, rfl, rfl⟩
      · simp [setPc, setOwed, Heap.set, withPool, hg]
      · simp [setPc, setOwed, withPool, hg]
      · simp [setPc, setOwed, withPool, hu]
    have htake : Pooled s' (Function.update home₂ f (.held t)) := hpool.take hr₂ hi hframe.created
      (by simp [← hs, setPc, setOwed, withPool]) (.held t)
    refine ⟨⟨Function.update home₂ f (.held t), h₂.move (h₂.movable_idle hf hpc) hframe
      (h₂.lt_created (by simp [hf])) (fun g hg => ?_) htake.idle ?_ ?_⟩, ?_, ?_⟩
    · subst hs
      exact .inl hg
    · simp only [← hs, FiberOk, setPc, Function.update_self, true_and]
      exact ⟨body, by simp [setOwed, Heap.set], by simp [setOwed], hok.2⟩
    · simp [← hs, PcOk, setPc]
    · exact hs ▸ rfl
    · exact hs ▸ rfl
  | _ => simp [hpc] at hs

theorem Placed.release (h : Placed s home) (hs : s.release t = some s') :
    (∃ home', Placed s' home') ∧ (∃ f, s'.releases = s.releases ++ [(f, none)]) ∧
      s'.resumes = s.resumes := by
  rw [System.release] at hs
  cases hpc : s.pc t with
  | returned f =>
    obtain ⟨home₁, hpool, hgrown⟩ := h.pooled.getLocalFiberPool t
    have h₁ := h.grown hpool hgrown (by simp)
    simp only [hpc] at hs
    have hheap : (FiberPool.getLocalFiberPool (s.pool t) s.heap).2.fiber = s.heap.fiber := by simp
    generalize FiberPool.getLocalFiberPool (s.pool t) s.heap = r at hs hpool h₁ hheap
    have hr : (s.withPool t r.1 r.2).pool t = some r.1 := by simp [withPool]
    have hp : home₁ f = .held t := by
      have hp := h₁.pcs t
      rw [show (s.withPool t r.1 r.2).pc t = .returned f from hpc] at hp
      exact hp
    have hok := h₁.fibers f
    rw [hp] at hok
    simp only [FiberOk, show (s.withPool t r.1 r.2).pc t = .returned f from hpc, true_and] at hok
    obtain ⟨hst, howed, hl⟩ := hok
    have hst' : (s.heap.fiber f).m_state = .TERM := hheap ▸ hst
    have hst₁ : (r.2.fiber f).m_state = .TERM := hst
    have howed' : s.owed f = none := howed
    simp only [hst', reduceCtorEq, if_false, FiberPool.release, Fiber.reset, hst₁, true_or, if_true,
      Option.map_some, Option.some.injEq, howed'] at hs
    have hframe : Frame (s.withPool t r.1 r.2) s' t f := by
      subst hs
      refine ⟨fun g hg => ?_, fun _ _ => rfl, fun _ _ => rfl, fun u hu => ?_, rfl, rfl, rfl⟩
      · simp [setPc, Heap.set, withPool, hg]
      · simp [setPc, withPool, hu]
    have hlt := h₁.lt_created (f := f) (by simp [hp])
    have hput : Pooled s' (Function.update home₁ f (.idle t)) :=
      hpool.put hr (by simp [hp]) hlt hframe.created (by simp [← hs, setPc, withPool])
    refine ⟨⟨Function.update home₁ f (.idle t), h₁.move (h₁.movable_held hp) hframe hlt
      (fun g hg => ?_) hput.idle ?_ ?_⟩, ⟨f, ?_⟩, ?_⟩
    · subst hs
      exact .inl hg
    · subst hs
      exact ⟨by simp [setPc, Heap.set], hl⟩
    · simp [← hs, PcOk, setPc]
    · exact hs ▸ rfl
    · exact hs ▸ rfl
  | _ => simp [hpc] at hs

/-! ## The task queue -/

theorem Placed.push (h : Placed s home) {fc : FiberOrCb Nat Cb}
    (hfc : (∃ f, fc = .fiber (some f) ∧ home f = .doomed) ∨
      ∃ body, fc = .cb (some (.body body))) (thread : Int) :
    Placed (s.push fc thread) home := by
  have htasks : (s.push fc thread).m_tasks = s.m_tasks ++ [ScheduleTask.of fc thread] := by
    rcases hfc with ⟨f, rfl, -⟩ | ⟨body, rfl⟩ <;> rfl
  refine ⟨fun f => (h.fibers f).congr rfl rfl rfl fun _ _ => rfl, h.fresh, h.idle, h.pcs, ?_, ?_,
    h.timers, h.events⟩
  · rw [htasks]
    intro k hk
    rcases List.mem_append.mp hk with hk | hk
    · exact h.tasks k hk
    rw [List.mem_singleton.mp hk]
    rcases hfc with ⟨f, rfl, hf⟩ | ⟨body, rfl⟩
    · refine ⟨rfl, fun g hg => .inr ?_, by simp [ScheduleTask.of]⟩
      rw [← Option.some.inj hg]
      exact hf
    · refine ⟨rfl, by simp [ScheduleTask.of], fun c hc => ⟨body, ?_⟩⟩
      exact (Option.some.inj hc).symm
  · rw [htasks, List.filterMap_append, List.filter_append]
    rcases hfc with ⟨f, rfl, hf⟩ | ⟨body, rfl⟩
    · simpa [ScheduleTask.of, hf] using h.once
    · simpa [ScheduleTask.of] using h.once

theorem Placed.triggerEvent (h : Placed s home) {i : Nat} (hs : s.triggerEvent i = some s') :
    Placed s' home ∧ s'.releases = s.releases ∧ s'.resumes = s.resumes := by
  obtain ⟨f, hf, rfl⟩ := Option.map_eq_some_iff.mp hs
  have hdoomed := h.events f (List.mem_of_getElem? hf)
  have h' : Placed { s with events := s.events.eraseIdx i } home :=
    ⟨fun f => (h.fibers f).congr rfl rfl rfl fun _ _ => rfl, h.fresh, h.idle, h.pcs, h.tasks,
      h.once, h.timers, fun g hg => h.events g (List.mem_of_mem_eraseIdx hg)⟩
  exact ⟨h'.push (.inl ⟨f, rfl, hdoomed⟩) (-1), rfl, rfl⟩

theorem Pooled.submitFiber (h : Pooled s home) (body : List Pause) (thread : Int) :
    Pooled (s.submitFiber body thread) (Function.update home s.heap.created .queued) := by
  have hfresh : home s.heap.created = .fresh := h.fresh _ le_rfl
  refine ⟨fun g hg => ?_, fun u p hp => ?_⟩
  · have hg' : s.heap.created + 1 ≤ g := hg
    rw [Function.update_of_ne (by omega)]
    exact h.fresh g (by omega)
  · obtain ⟨hn, hi⟩ := h.idle u p hp
    refine ⟨hn, fun g hg => ?_⟩
    have hne : g ≠ s.heap.created := by
      rintro rfl
      rw [hi _ hg] at hfresh
      cases hfresh
    rw [Function.update_of_ne hne]
    exact hi g hg

theorem Placed.submitFiber (h : Placed s home) (body : List Pause) (thread : Int) :
    Placed (s.submitFiber body thread) (Function.update home s.heap.created .queued) := by
  set f := s.heap.created with hf
  have hfresh : home f = .fresh := h.fresh f le_rfl
  have hagree (g : Nat) (hg : home g ≠ .fresh) : Function.update home f .queued g = home g :=
    Function.update_of_ne (by rintro rfl; exact hg hfresh) _ _
  have hlocked : s.locked f = false := by
    have hok := h.fibers f
    rw [hfresh] at hok
    exact hok.2
  have htasks : (s.submitFiber body thread).m_tasks =
      s.m_tasks ++ [ScheduleTask.of (.fiber (some f)) thread] := rfl
  have hpool := h.pooled.submitFiber body thread
  refine ⟨fun g => ?_, hpool.fresh, hpool.idle, fun u => (h.pcs u).agree hagree, ?_, ?_,
    h.timers, h.events_agree hagree⟩
  · by_cases hg : g = f
    · subst hg
      rw [Function.update_self]
      exact ⟨body, by simp [System.submitFiber, System.push, setOwed, Heap.set, hf],
        by simp [System.submitFiber, System.push, setOwed, hf], hlocked⟩
    · rw [Function.update_of_ne hg]
      refine (h.fibers g).congr ?_ rfl ?_ fun _ _ => rfl
      · simp [System.submitFiber, System.push, setOwed, Heap.set, ← hf, hg]
      · simp [System.submitFiber, System.push, setOwed, ← hf, hg]
  · rw [htasks]
    intro k hk
    rcases List.mem_append.mp hk with hk | hk
    · exact h.tasks_agree hagree k hk
    · rw [List.mem_singleton.mp hk]
      refine ⟨rfl, fun g hg => .inl ?_, by simp [ScheduleTask.of]⟩
      rw [← Option.some.inj hg, Function.update_self]
  · rw [htasks, List.filterMap_append, List.filter_append]
    refine List.nodup_append.mpr
      ⟨h.once_agree hagree, (List.nodup_singleton f).filter _, fun a ha b hb => ?_⟩
    have hb' : b = f := by
      have hb' := (List.mem_filter.mp hb).1
      simpa [ScheduleTask.of] using hb'
    obtain ⟨k, hk, hka⟩ := List.mem_filterMap.mp (List.mem_filter.mp ha).1
    rintro rfl
    exact h.task_ne_fresh hk hka (hb' ▸ hfresh)

theorem Placed.take_task (h : Placed s home) {pre post : List (ScheduleTask Nat Cb)}
    {k : ScheduleTask Nat Cb} (hq : s.m_tasks = pre ++ k :: post) :
    Placed { s with m_tasks := pre ++ post } home := by
  have hsub : (pre ++ post).Sublist s.m_tasks := by
    rw [hq]
    exact (List.sublist_cons_self k post).append_left pre
  refine ⟨fun f => (h.fibers f).congr rfl rfl rfl fun _ _ => rfl, h.fresh, h.idle, h.pcs, ?_, ?_,
    h.timers, h.events⟩
  · exact fun k' hk' => h.tasks k' (hsub.subset hk')
  · exact h.once.sublist ((hsub.filterMap _).filter _)

theorem Placed.notTask_rest (h : Placed s home) {pre post : List (ScheduleTask Nat Cb)}
    {k : ScheduleTask Nat Cb} (hq : s.m_tasks = pre ++ k :: post) (hk : k.fiber = some f)
    (hf : home f = .queued) : ∀ k' ∈ pre ++ post, k'.fiber ≠ some f := by
  intro k' hk' hkf
  have honce := h.once
  rw [hq] at honce
  have hmem : f ∈ ((pre ++ post).filterMap ScheduleTask.fiber).filter fun f => home f = .queued :=
    List.mem_filter.mpr ⟨List.mem_filterMap.mpr ⟨k', hk', hkf⟩, by simp [hf]⟩
  simp only [List.filterMap_append, List.filterMap_cons, hk, List.filter_append,
    List.filter_cons, hf, decide_true, if_true, List.mem_append] at honce hmem
  obtain ⟨-, hpost, hdisj⟩ := List.nodup_append.mp honce
  rcases hmem with hmem | hmem
  · exact hdisj f hmem f List.mem_cons_self rfl
  · exact (List.nodup_cons.mp hpost).1 hmem

theorem Placed.set_pc (h : Placed s home) (hfree : ∀ g, home g ≠ .held t) {pc : Pc}
    (hok : PcOk home t pc) : Placed (s.setPc t pc) home := by
  refine ⟨fun g => (h.fibers g).congr rfl rfl rfl fun u hu => ?_, h.fresh, h.idle, fun u => ?_,
    h.tasks, h.once, h.timers, h.events⟩
  · have hut : u ≠ t := fun hut => hfree g (hut ▸ hu)
    simp [setPc, hut]
  · by_cases hu : u = t
    · subst hu
      simpa only [setPc, Function.update_self] using hok
    · simpa only [setPc, Function.update_of_ne hu] using h.pcs u

theorem Placed.dequeue (h : Placed s home) (hs : s.dequeue t = some s') :
    (∃ home', Placed s' home') ∧ s'.releases = s.releases ∧ s'.resumes = s.resumes := by
  obtain ⟨hpc, hs⟩ := Option.ite_none_right_eq_some.mp hs
  have hwork : ∀ k ∈ s.m_tasks, (id k).hasWork := fun k hk => (h.tasks k hk).1
  obtain ⟨d, hd, ⟨hn, hm, -⟩ | ⟨pre, k, post, hq, hk, hm, -, -⟩⟩ :=
    dequeue_spec (t := (t : Int)) hwork
  · simp only [hd, Option.map_some, hn, hm, Option.some.injEq] at hs
    exact ⟨⟨home, hs ▸ h⟩, hs ▸ rfl, hs ▸ rfl⟩
  have h₁ := h.take_task hq
  have hfree (g : Nat) : home g ≠ .held t := by
    intro hg
    rcases h.held_eq hg with ⟨b, hp⟩ | ⟨c, hp⟩ | hp <;> simp [hpc] at hp
  obtain ⟨hw, hkf, hkc⟩ := h.tasks k (by simp [hq])
  obtain ⟨fib, cb, thread⟩ := k
  simp only [hd, Option.map_some, hk, hm, Option.some.injEq] at hs
  rcases fib with _ | f
  · rcases cb with _ | c
    · simp [ScheduleTask.hasWork] at hw
    -- a callback: the thread only remembers it
    simp only at hs
    subst hs
    exact ⟨⟨home, h₁.set_pc hfree (hkc c rfl)⟩, rfl, rfl⟩
  · simp only at hs
    rcases hkf f rfl with hf | hf
    · -- a fiber that waits goes into the hands of the thread
      have hm : Movable { s with m_tasks := pre ++ post } home t f :=
        ⟨by simp [hf], h.notTask_rest hq rfl hf, by simp [hf], fun g _ => hfree g⟩
      have hframe : Frame { s with m_tasks := pre ++ post } s' t f := by
        subst hs
        refine ⟨fun _ _ => rfl, fun _ _ => rfl, fun _ _ => rfl, fun u hu => ?_, rfl, rfl, rfl⟩
        simp [setPc, hu]
      have hok := h₁.fibers f
      rw [hf] at hok
      refine ⟨⟨Function.update home f (.held t), h₁.move hm hframe (h₁.lt_created (by simp [hf]))
        (fun g hg => ?_) ?_ ?_ ?_⟩, hs ▸ rfl, hs ▸ rfl⟩
      · subst hs
        exact .inl hg
      · subst hs
        exact h₁.pool_update (by simp [hf]) (h₁.lt_created (by simp [hf])) _
      · simp only [← hs, FiberOk, setPc, Function.update_self, true_and]
        exact hok
      · simp [← hs, PcOk, setPc]
    · subst hs
      exact ⟨⟨home, h₁.set_pc hfree (.inr hf)⟩, rfl, rfl⟩

/-! ## Runs -/

structure Safe (s : System) : Prop where
  placed : ∃ home, Placed s home
  releases : ∀ r ∈ s.releases, r.2 = none
  resumes : ∀ r ∈ s.resumes, r.2 = some r.1

theorem Safe.of_same {home' : Nat → Home} (h : Safe s) (hp : Placed s' home')
    (hrel : s'.releases = s.releases) (hres : s'.resumes = s.resumes) : Safe s' :=
  ⟨⟨home', hp⟩, hrel ▸ h.releases, hres ▸ h.resumes⟩

/-- **One step** that is not the `yield` of an unfinished fiber throws nothing away. -/
theorem Safe.step (h : Safe s) {a : WorkerAct} (hg : s.NoPlainYield a)
    (hs : s.step a = some s') : Safe s' := by
  obtain ⟨home, hp⟩ := h.placed
  cases a with
  | submitFiber body thread =>
    obtain rfl := Option.some.inj hs
    exact h.of_same (hp.submitFiber body thread) rfl rfl
  | submitCb body thread =>
    obtain rfl := Option.some.inj hs
    exact h.of_same (hp.push (.inr ⟨body, rfl⟩) thread) rfl rfl
  | dequeue t =>
    obtain ⟨⟨home', hp'⟩, hrel, hres⟩ := hp.dequeue hs
    exact h.of_same hp' hrel hres
  | acquire t =>
    obtain ⟨⟨home', hp'⟩, hrel, hres⟩ := hp.acquire hs
    exact h.of_same hp' hrel hres
  | exec t =>
    obtain ⟨⟨home', hp'⟩, hrel, hres⟩ := hp.exec hs hg
    exact h.of_same hp' hrel hres
  | resume t =>
    obtain ⟨hp', hrel, c, hres⟩ := hp.resume hs
    refine ⟨⟨home, hp'⟩, hrel ▸ h.releases, fun r hr => ?_⟩
    rw [hres, List.mem_append, List.mem_singleton] at hr
    rcases hr with hr | rfl
    · exact h.resumes r hr
    · rfl
  | switch t => exact (hp.switch hs).elim
  | release t =>
    obtain ⟨hp', ⟨f, hrel⟩, hres⟩ := hp.release hs
    refine ⟨hp', fun r hr => ?_, hres ▸ h.resumes⟩
    rw [hrel, List.mem_append, List.mem_singleton] at hr
    rcases hr with hr | rfl
    · exact h.releases r hr
    · rfl
  | fireTimer i =>
    obtain ⟨f, hf, -⟩ := Option.map_eq_some_iff.mp hs
    simp [hp.timers] at hf
  | triggerEvent i =>
    obtain ⟨hp', hrel, hres⟩ := hp.triggerEvent hs
    exact h.of_same hp' hrel hres

/-- **No unfinished body is thrown away** in a run in which no fiber yields before it has
finished, for every order of the threads' steps. -/
theorem nothingLost_of_noPlainYield (acts : List WorkerAct) (s : System)
    (hg : Guarded NoPlainYield step {} acts) (hrun : run step {} acts = some s) :
    NothingLost s := by
  have h0 : Safe {} := ⟨⟨_, .init⟩, by simp, by simp⟩
  have h : Safe s := run_invariant acts (fun hi hg hs => hi.step hg hs) h0 hg hrun
  obtain ⟨home, hp⟩ := h.placed
  exact ⟨h.releases, h.resumes, fun t p hpool f hf => hp.not_referenced hpool hf⟩

/-- A fiber that sleeps once is released when it yields: the rest of its body is gone, and
its timer will schedule a fiber that is idle. -/
theorem sleeper_is_released : ¬ ∀ (acts : List WorkerAct) (s : System),
    run step {} acts = some s → NothingLost s := by
  intro h
  have hlost := h [.submitFiber [.sleep] (-1), .dequeue 0, .resume 0, .exec 0, .switch 0,
    .release 0] _ rfl
  exact absurd (hlost.releases (0, some (.body [])) (by decide)) (by decide)

/-- A fiber and a callback that do not wait, on two threads. -/
theorem nothingLost_of_noPlainYield_twoThreads :
    let acts : List WorkerAct := [.submitFiber [] 1, .submitCb [] (-1), .dequeue 0, .dequeue 1,
      .acquire 0, .resume 0, .resume 1, .exec 1, .exec 0, .release 0, .release 1]
    ∃ s, run step {} acts = some s ∧ Guarded NoPlainYield step {} acts ∧ s.releases.length = 2 ∧
      NothingLost s := by
  intro acts
  have hg : Guarded NoPlainYield step {} acts := by decide
  exact ⟨_, rfl, hg, by decide, nothingLost_of_noPlainYield acts _ hg rfl⟩

end Workplace.Coroutine.System
