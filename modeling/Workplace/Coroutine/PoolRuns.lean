import Workplace.Coroutine.Pool
import Workplace.Lib.Runs

/-! Runs of one fiber pool. Whoever has acquired a fiber may do anything with it until it is
released; the pool must know where each of its fibers is all the same. -/

namespace Workplace.Coroutine
open Workplace.Lib

/-- A pool, with what has been acquired from it and not been released yet. -/
structure PoolState (K : Type) where
  pool : FiberPool
  heap : Heap K
  outstanding : List Nat := []

inductive PoolAct (K : Type) where
  | acquire (cb : K)
  | release (f : Nat)
  | resize (new_size : Nat)
  -- the acquired fiber runs
  | run (f : Nat) (x : Fiber K)

namespace PoolState
variable {K : Type} {s s' : PoolState K} {a : PoolAct K} {f : Nat}

/-- `FiberPool(fibers)`. -/
def new (fibers : Nat) : PoolState K :=
  let (pool, heap) := FiberPool.createFibers {} {} fibers
  { pool, heap }

def acquire (s : PoolState K) (cb : K) : Option (PoolState K) :=
  (s.pool.acquire s.heap cb).map fun (f, pool, heap) => ⟨pool, heap, f :: s.outstanding⟩

def release (s : PoolState K) (f : Nat) : Option (PoolState K) :=
  (s.pool.release s.heap f).map fun (pool, heap) => ⟨pool, heap, s.outstanding.erase f⟩

def resize (s : PoolState K) (new_size : Nat) : PoolState K :=
  let (pool, heap) := s.pool.resize s.heap new_size
  { s with pool, heap }

def step (s : PoolState K) : PoolAct K → Option (PoolState K)
  | .acquire cb => s.acquire cb
  | .release f => if f ∈ s.outstanding then s.release f else none
  | .resize new_size => some (s.resize new_size)
  | .run f x => if f ∈ s.outstanding then some { s with heap := s.heap.set f x } else none

/-- The books of a pool: each of its fibers is either idle or outstanding, in one place. -/
structure Balanced (s : PoolState K) : Prop where
  nodup : s.pool.m_idleFibers.Nodup
  disjoint : s.pool.m_idleFibers.Disjoint s.outstanding
  together : (s.pool.m_idleFibers ++ s.outstanding).Perm s.pool.m_allFibers
  idle : ∀ f ∈ s.pool.m_idleFibers, (s.heap.fiber f).m_cb = none

/-! ## The invariant -/

/-- A fiber that nobody has acquired is as it was created. -/
structure Kept (s : PoolState K) : Prop where
  nodup : (s.pool.m_idleFibers ++ s.outstanding).Nodup
  together : (s.pool.m_idleFibers ++ s.outstanding).Perm s.pool.m_allFibers
  created : ∀ f ∈ s.pool.m_allFibers, f < s.heap.created
  blank : ∀ f ∉ s.outstanding, s.heap.fiber f = {}

theorem Kept.not_outstanding (h : s.Kept) (hf : f ∈ s.pool.m_idleFibers) : f ∉ s.outstanding :=
  fun hout => (List.nodup_append.mp h.nodup).2.2 f hf f hout rfl

theorem Kept.balanced (h : s.Kept) : s.Balanced where
  nodup := (List.nodup_append.mp h.nodup).1
  disjoint := fun _ hf hout => h.not_outstanding hf hout
  together := h.together
  idle := fun f hf => by rw [h.blank f (h.not_outstanding hf)]

theorem Kept.length (h : s.Kept) :
    s.pool.totalCount = s.pool.idleCount + s.outstanding.length := by
  unfold FiberPool.totalCount FiberPool.idleCount
  rw [← h.together.length_eq, List.length_append]

theorem Kept.createFibers (h : s.Kept) (count : Nat) :
    Kept ⟨(s.pool.createFibers s.heap count).1, (s.pool.createFibers s.heap count).2,
      s.outstanding⟩ := by
  have hswap : ((s.pool.m_idleFibers ++ List.range' s.heap.created count) ++
      s.outstanding).Perm ((s.pool.m_idleFibers ++ s.outstanding) ++
        List.range' s.heap.created count) := by
    rw [List.append_assoc, List.append_assoc]
    exact List.perm_append_comm.append_left _
  have htogether := hswap.trans (h.together.append_right _)
  constructor
  · refine htogether.nodup_iff.mpr (List.nodup_append.mpr
      ⟨h.together.nodup_iff.mp h.nodup, List.nodup_range', ?_⟩)
    intro f hf g hg
    have hlt := h.created f hf
    have hle := (List.mem_range'_1.mp hg).1
    exact (hlt.trans_le hle).ne
  · exact htogether
  · intro f hf
    rcases List.mem_append.mp hf with hf | hf
    · exact (h.created f hf).trans_le (Nat.le_add_right _ _)
    · exact (List.mem_range'_1.mp hf).2
  · exact h.blank

theorem Kept.new (fibers : Nat) : (new fibers : PoolState K).Kept :=
  have hempty : Kept (⟨{}, {}, []⟩ : PoolState K) :=
    { nodup := List.nodup_nil
      together := List.Perm.refl []
      created := fun _ hf => absurd hf List.not_mem_nil
      blank := fun _ _ => rfl }
  hempty.createFibers fibers

theorem Kept.grow (h : s.Kept) :
    Kept ⟨(s.pool.grow s.heap).1, (s.pool.grow s.heap).2, s.outstanding⟩ := by
  unfold FiberPool.grow
  split_ifs
  · exact h.createFibers _
  · exact h

/-- What `acquire` does after it has made room. -/
theorem acquire_cases {cb : K} (hs : s.acquire cb = some s') : ∃ f rest x,
    (s.pool.grow s.heap).1.m_idleFibers = f :: rest ∧
      s' = ⟨{ (s.pool.grow s.heap).1 with m_idleFibers := rest },
        (s.pool.grow s.heap).2.set f x, f :: s.outstanding⟩ := by
  unfold acquire FiberPool.acquire at hs
  obtain ⟨⟨f, pool, heap⟩, hacquire, rfl⟩ := Option.map_eq_some_iff.mp hs
  dsimp only at hacquire
  split at hacquire
  · cases hacquire
  · next f rest hidle =>
    obtain ⟨x, -, heq⟩ := Option.map_eq_some_iff.mp hacquire
    cases heq
    exact ⟨f, rest, x, hidle, rfl⟩

theorem Kept.acquire {cb : K} (h : s.Kept) (hs : s.acquire cb = some s') : s'.Kept := by
  obtain ⟨f, rest, x, hidle, rfl⟩ := acquire_cases hs
  have hgrown := h.grow
  have hnodup := hgrown.nodup
  have htogether := hgrown.together
  simp only [hidle] at hnodup htogether
  have hmoved : (rest ++ f :: s.outstanding).Perm (f :: rest ++ s.outstanding) :=
    List.perm_middle
  constructor
  · exact hmoved.nodup_iff.mpr hnodup
  · exact hmoved.trans htogether
  · exact hgrown.created
  · intro g hg
    have hne : g ≠ f := List.ne_of_not_mem_cons hg
    rw [Heap.fiber_set_ne hne]
    exact hgrown.blank g (List.not_mem_of_not_mem_cons hg)

theorem Fiber.reset_none {x y : Fiber K} (h : x.reset none = some y) : y = {} := by
  unfold Fiber.reset at h
  split_ifs at h
  exact (Option.some.inj h).symm

theorem release_eq (hs : s.release f = some s') :
    s' = ⟨{ s.pool with m_idleFibers := s.pool.m_idleFibers ++ [f] }, s.heap.set f {},
      s.outstanding.erase f⟩ := by
  unfold release FiberPool.release at hs
  rw [Option.map_map] at hs
  obtain ⟨x, hreset, rfl⟩ := Option.map_eq_some_iff.mp hs
  rw [Fiber.reset_none hreset]
  rfl

theorem Kept.release (h : s.Kept) (hf : f ∈ s.outstanding) (hs : s.release f = some s') :
    s'.Kept := by
  obtain rfl := release_eq hs
  have hmoved : ((s.pool.m_idleFibers ++ [f]) ++ s.outstanding.erase f).Perm
      (s.pool.m_idleFibers ++ s.outstanding) := by
    rw [List.append_assoc]
    exact (List.perm_cons_erase hf).symm.append_left _
  constructor
  · exact hmoved.nodup_iff.mpr h.nodup
  · exact hmoved.trans h.together
  · exact h.created
  · intro g hg
    by_cases hgf : g = f
    · rw [hgf, Heap.fiber_set_self]
    · rw [Heap.fiber_set_ne hgf]
      exact h.blank g fun hout => hg ((List.mem_erase_of_ne hgf).mpr hout)

theorem Kept.shrink (h : s.Kept) (remove_count : Nat) :
    Kept { s with pool := s.pool.shrink remove_count } := by
  induction remove_count generalizing s with
  | zero => exact h
  | succ remove_count ih =>
    obtain ⟨⟨idle, all⟩, heap, outstanding⟩ := s
    cases idle with
    | nil => exact h
    | cons f rest =>
      have herase := h.together.erase f
      rw [List.cons_append, List.erase_cons_head] at herase
      have hkept : Kept ⟨⟨rest, all.erase f⟩, heap, outstanding⟩ :=
        ⟨(List.nodup_cons.mp h.nodup).2, herase,
          fun g hg => h.created g (List.mem_of_mem_erase hg), h.blank⟩
      exact ih hkept

theorem Kept.resize (h : s.Kept) (new_size : Nat) : (s.resize new_size).Kept := by
  unfold PoolState.resize FiberPool.resize
  split_ifs
  · exact h.createFibers _
  · exact h.shrink _
  · exact h

theorem Kept.step (h : s.Kept) (hs : s.step a = some s') : s'.Kept := by
  cases a with
  | acquire cb => exact h.acquire hs
  | release f =>
    obtain ⟨hf, hs⟩ := Option.ite_none_right_eq_some.mp hs
    exact h.release hf hs
  | resize new_size =>
    obtain rfl := Option.some.inj hs
    exact h.resize new_size
  | run f x =>
    obtain ⟨hf, hs⟩ := Option.ite_none_right_eq_some.mp hs
    obtain rfl := Option.some.inj hs
    refine ⟨h.nodup, h.together, h.created, fun g hg => ?_⟩
    have hne : g ≠ f := fun heq => hg (heq ▸ hf)
    rw [Heap.fiber_set_ne hne]
    exact h.blank g hg

/-! ## The size -/

theorem idle_shrink (p : FiberPool) (remove_count : Nat) :
    (p.shrink remove_count).m_idleFibers = p.m_idleFibers.drop remove_count := by
  induction remove_count generalizing p with
  | zero => rfl
  | succ remove_count ih =>
    obtain ⟨idle, all⟩ := p
    cases idle with
    | nil => rfl
    | cons f rest => exact ih _

theorem idleCount_resize (s : PoolState K) (new_size : Nat) : (s.resize new_size).pool.idleCount =
    s.pool.idleCount + (new_size - s.pool.totalCount) - (s.pool.totalCount - new_size) := by
  unfold resize FiberPool.resize FiberPool.idleCount FiberPool.totalCount
  split_ifs with hmore hless
  · change (s.pool.m_idleFibers ++ List.range' _ _).length = _
    rw [List.length_append, List.length_range']
    omega
  · change (s.pool.shrink _).m_idleFibers.length = _
    rw [idle_shrink, List.length_drop]
    omega
  · change s.pool.m_idleFibers.length = _
    omega

/-- What is outstanding cannot be removed. -/
theorem Kept.totalCount_resize (h : s.Kept) (new_size : Nat) :
    (s.resize new_size).pool.totalCount = max new_size s.outstanding.length := by
  have hlength := h.length
  have hresized := (h.resize new_size).length
  have hsame : (s.resize new_size).outstanding = s.outstanding := rfl
  rw [idleCount_resize, hsame] at hresized
  omega

theorem run_kept {fibers : Nat} {acts : List (PoolAct K)}
    (hrun : run step (new fibers) acts = some s) : s.Kept :=
  run_invariant_of_step acts (fun h hs => h.step hs) (Kept.new fibers) hrun

/-- **The books of a pool balance** after any run, and `resize` brings it to its size as far as
the outstanding fibers allow. -/
theorem balanced_run {fibers : Nat} {acts : List (PoolAct K)}
    (hrun : run step (new fibers) acts = some s) : s.Balanced ∧ ∀ new_size,
      (s.resize new_size).pool.totalCount = max new_size s.outstanding.length := by
  have hkept := run_kept hrun
  exact ⟨hkept.balanced, hkept.totalCount_resize⟩

/-- One of two fibers is acquired, runs to its end and is released, and the pool is halved. -/
theorem balanced_halved : ∃ s : PoolState Unit, run step (new 2)
    [.acquire (), .run 0 { m_state := .TERM }, .release 0, .resize 1] = some s ∧
      (s.Balanced ∧ ∀ new_size,
        (s.resize new_size).pool.totalCount = max new_size s.outstanding.length) := by
  obtain ⟨s, hs⟩ := Option.isSome_iff_exists.mp (by decide : (run step (new 2 : PoolState Unit)
    [.acquire (), .run 0 { m_state := .TERM }, .release 0, .resize 1]).isSome)
  exact ⟨s, hs, balanced_run hs⟩

/-! ## The queue that `acquire` takes from -/

/-- `acquire` finds a fiber, and may reset it. -/
def Finds (s : PoolState K) : PoolAct K → Prop
  | .acquire cb => (s.acquire cb).isSome
  | _ => True

instance Finds.decidable : (s : PoolState K) → (a : PoolAct K) → Decidable (s.Finds a)
  | s, .acquire cb => inferInstanceAs (Decidable ((s.acquire cb).isSome = true))
  | _, .release _ | _, .resize _ | _, .run _ _ => isTrue trivial

/-- `acquire` takes an idle fiber, or one of at least two fibers that half as many are added to. -/
def Stocked (s : PoolState K) : PoolAct K → Prop
  | .acquire _ => s.pool.m_idleFibers ≠ [] ∨ 2 ≤ s.pool.totalCount
  | _ => True

theorem Kept.isSome_acquire (h : s.Kept) (cb : K) :
    (s.acquire cb).isSome ↔ (s.pool.grow s.heap).1.m_idleFibers ≠ [] := by
  unfold PoolState.acquire FiberPool.acquire
  rw [Option.isSome_map]
  dsimp only
  split
  · next hidle => exact iff_of_false Bool.false_ne_true fun hne => hne hidle
  · next f rest hidle =>
    have hmem : f ∈ (s.pool.grow s.heap).1.m_idleFibers := by
      rw [hidle]
      exact List.mem_cons_self
    have hblank := h.grow.blank f (h.grow.not_outstanding hmem)
    change (s.pool.grow s.heap).2.fiber f = {} at hblank
    rw [Option.isSome_map, hblank, hidle]
    exact iff_of_true rfl (List.cons_ne_nil f rest)

/-- Half of one fiber is none. -/
theorem grow_ne_nil : (s.pool.grow s.heap).1.m_idleFibers ≠ [] ↔
    s.pool.m_idleFibers ≠ [] ∨ 2 ≤ s.pool.totalCount := by
  unfold FiberPool.grow FiberPool.totalCount
  split_ifs with hempty
  · rw [List.isEmpty_iff] at hempty
    change s.pool.m_idleFibers ++ List.range' _ _ ≠ [] ↔ _
    rw [hempty, List.nil_append, Ne, List.range'_eq_nil_iff, or_iff_right fun hne => hne rfl]
    omega
  · rw [List.isEmpty_iff] at hempty
    exact iff_of_true hempty (.inl hempty)

theorem Kept.finds_iff (h : s.Kept) (a : PoolAct K) : s.Finds a ↔ s.Stocked a := by
  cases a with
  | acquire cb => exact (h.isSome_acquire cb).trans grow_ne_nil
  | release _ | resize _ | run _ _ => exact Iff.rfl

/-- **`acquire` finds a fiber** in every step of a run exactly when each `acquire` has an idle
fiber to take, or two to grow from. -/
theorem finds_run_iff (fibers : Nat) (acts : List (PoolAct K)) :
    Guarded Finds step (new fibers) acts ↔ Guarded Stocked step (new fibers) acts :=
  Guarded.congr acts (fun h => h.finds_iff _) (fun h hs => h.step hs) (Kept.new fibers)

/-- The second fiber of a pool of one. -/
theorem queue_empty : ¬ ∀ (fibers : Nat) (acts : List (PoolAct Unit)),
    Guarded Finds step (new fibers) acts := by
  intro h
  exact absurd (h 1 [.acquire (), .acquire ()]) (by decide)

/-! ## Pools of two fibers and more -/

theorem totalCount_grow (p : FiberPool) (h : Heap K) :
    p.totalCount ≤ (p.grow h).1.totalCount := by
  unfold FiberPool.grow FiberPool.totalCount
  split_ifs
  · change _ ≤ (p.m_allFibers ++ List.range' _ _).length
    rw [List.length_append]
    exact Nat.le_add_right _ _
  · exact le_refl _

/-- Only `resize` makes a pool smaller. -/
theorem Kept.totalCount_step (h : s.Kept) (hs : s.step a = some s')
    (hresize : ∀ new_size, a = .resize new_size → 2 ≤ new_size) (htwo : 2 ≤ s.pool.totalCount) :
    2 ≤ s'.pool.totalCount := by
  cases a with
  | acquire cb =>
    obtain ⟨f, rest, x, -, rfl⟩ := acquire_cases hs
    exact htwo.trans (totalCount_grow s.pool s.heap)
  | release f =>
    obtain ⟨-, hs⟩ := Option.ite_none_right_eq_some.mp hs
    obtain rfl := release_eq hs
    exact htwo
  | resize new_size =>
    obtain rfl := Option.some.inj hs
    rw [h.totalCount_resize]
    exact (hresize new_size rfl).trans (le_max_left _ _)
  | run f x =>
    obtain ⟨-, hs⟩ := Option.ite_none_right_eq_some.mp hs
    obtain rfl := Option.some.inj hs
    exact htwo

theorem Kept.finds_of_two {acts : List (PoolAct K)} (h : s.Kept) (htwo : 2 ≤ s.pool.totalCount)
    (hsizes : ∀ new_size, .resize new_size ∈ acts → 2 ≤ new_size) :
    Guarded Finds PoolState.step s acts := by
  induction acts generalizing s with
  | nil => trivial
  | cons a acts ih =>
    refine ⟨(h.finds_iff a).mpr ?_, fun s' hs => ?_⟩
    · cases a with
      | acquire cb => exact .inr htwo
      | release _ | resize _ | run _ _ => trivial
    · have htwo' := h.totalCount_step hs
        (fun m hm => hsizes m (hm ▸ List.mem_cons_self)) htwo
      exact ih (h.step hs) htwo' fun m hm => hsizes m (List.mem_cons_of_mem a hm)

/-- A pool that is never made smaller than two fibers, such as the one of a thread. -/
theorem finds_of_sizes {fibers : Nat} {acts : List (PoolAct K)} (hfibers : 2 ≤ fibers)
    (hsizes : ∀ new_size, .resize new_size ∈ acts → 2 ≤ new_size) :
    Guarded Finds step (new fibers) acts := by
  have htotal : (new fibers : PoolState K).pool.totalCount = fibers := by
    change ([] ++ List.range' 0 fibers).length = fibers
    rw [List.nil_append, List.length_range']
  exact (Kept.new fibers).finds_of_two (hfibers.trans_eq htotal.symm) hsizes

end PoolState
end Workplace.Coroutine
