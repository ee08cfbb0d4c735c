import Workplace.Coroutine.FdManager
import Workplace.Lib.Registry

/-! `FdManager` under threads that call `get` at the same time. The table is looked at under
the read lock and a context made under the write lock: between the two, another thread may
have made one for the same descriptor. A context is the number of its object here, and what is
set through its pointer is in that object. `get` of -1 answers before it takes a lock. -/

namespace Workplace.Coroutine
open Workplace.Lib Workplace.Lib.Registry

structure FdThreads where
  m_datas : List (Option Nat) := List.replicate 64 none
  -- how many contexts there have been
  contexts : Nat := 0
  -- the descriptor that a thread is about to make a context for
  creating : Nat → Option Nat := fun _ => none
  -- the contexts that `get` has answered, and the calls of `del`, the latest first
  history : List (Registry.Event Nat Nat) := []

/-- The parts of `get` and `del` that a lock makes atomic. -/
inductive FdAct where
  | check (u fd : Nat) (auto_create : Bool)
  | create (u : Nat)
  | del (u fd : Nat)

namespace FdThreads

def resize (datas : List (Option Nat)) (size : Nat) : List (Option Nat) :=
  datas.take size ++ List.replicate (size - datas.length) none

def find (s : FdThreads) (fd : Nat) : Option Nat := s.m_datas[fd]?.join

def setCreating (s : FdThreads) (u : Nat) (fd : Option Nat) : FdThreads :=
  { s with creating := Function.update s.creating u fd }

/-- Under the read lock. -/
def check (s : FdThreads) (u fd : Nat) (auto_create : Bool) : FdThreads :=
  if s.m_datas.length ≤ fd then
    if auto_create then s.setCreating u (some fd) else s
  else
    match s.find fd with
    | some ctx => { s with history := .given fd ctx :: s.history }
    | none =>
      if auto_create then s.setCreating u (some fd) else s

/-- Under the write lock: the size is looked at again, and the entry is not. -/
def create (s : FdThreads) (u fd : Nat) : FdThreads :=
  let m_datas := if s.m_datas.length ≤ fd then resize s.m_datas (fd * 3 / 2) else s.m_datas
  { m_datas := m_datas.set fd (some s.contexts)
    contexts := s.contexts + 1
    creating := Function.update s.creating u none
    history := .given fd s.contexts :: s.history }

def del (s : FdThreads) (fd : Nat) : FdThreads :=
  { s with
    m_datas := if s.m_datas.length ≤ fd then s.m_datas else s.m_datas.set fd none
    history := .removed fd :: s.history }

def step (s : FdThreads) : FdAct → Option FdThreads
  | .check u fd auto_create =>
    match s.creating u with
    | none => some (s.check u fd auto_create)
    | some _ => none
  | .create u =>
    match s.creating u with
    | none => none
    | some fd => some (s.create u fd)
  | .del u fd =>
    match s.creating u with
    | none => some (s.del fd)
    | some _ => none

/-- A thread makes a context only for a descriptor that has none at that moment. -/
def FindsNone (s : FdThreads) : FdAct → Prop
  | .create u => ∀ fd ∈ s.creating u, s.find fd = none
  | _ => True

instance (s : FdThreads) : (a : FdAct) → Decidable (s.FindsNone a)
  | .create u => inferInstanceAs (Decidable (∀ fd ∈ s.creating u, s.find fd = none))
  | .check .. | .del .. => isTrue trivial

/-- A thread that makes a context leaves those of the other descriptors in the table. -/
def SparesOthers (s : FdThreads) : FdAct → Prop
  | .create u => ∀ fd ∈ s.creating u, ∀ fd' ≠ fd, (s.create u fd).find fd' = s.find fd'
  | _ => True

variable {s s' : FdThreads} {a : FdAct} {u fd fd' : Nat}

/-! ## The table -/

theorem find_eq_none (h : s.m_datas.length ≤ fd) : s.find fd = none := by
  rw [find, List.getElem?_eq_none h, Option.join_none]

theorem find_create_self (h : 64 ≤ s.m_datas.length) :
    (s.create u fd).find fd = some s.contexts := by
  rw [find, create, List.getElem?_set_self, Option.join_some]
  split_ifs with hle
  · rw [resize, FdManager.length_enlarged]
    omega
  · omega

/-- The table never becomes smaller, since its size is looked at again. -/
theorem find_create_ne (hne : fd' ≠ fd) : (s.create u fd).find fd' = s.find fd' := by
  rw [find, create, List.getElem?_set_ne hne.symm, find]
  split_ifs with hle
  · exact FdManager.join_enlarged (by omega)
  · rfl

theorem length_create (s : FdThreads) (u fd : Nat) :
    s.m_datas.length ≤ (s.create u fd).m_datas.length := by
  rw [create, List.length_set]
  split_ifs
  · rw [resize, FdManager.length_enlarged]
    omega
  · exact le_rfl

theorem length_del (s : FdThreads) (fd : Nat) : (s.del fd).m_datas.length = s.m_datas.length := by
  rw [del]
  split_ifs
  · rfl
  · exact List.length_set

theorem find_del_self (s : FdThreads) (fd : Nat) : (s.del fd).find fd = none := by
  unfold del
  split_ifs with hle
  · exact find_eq_none hle
  · rw [find, List.getElem?_set_self (not_le.mp hle), Option.join_some]

theorem find_del_ne (hne : fd' ≠ fd) : (s.del fd).find fd' = s.find fd' := by
  unfold del
  split_ifs
  · rfl
  · rw [find, List.getElem?_set_ne hne.symm, find]

/-! ## One step -/

inductive Checked (s : FdThreads) (u fd : Nat) : FdThreads → Prop where
  | answers {ctx : Nat} (h : s.find fd = some ctx) :
      Checked s u fd { s with history := .given fd ctx :: s.history }
  | answersNull (h : s.find fd = none) : Checked s u fd s
  | creates (h : s.find fd = none) :
      Checked s u fd (s.setCreating u (some fd))

theorem check_checked (s : FdThreads) (u fd : Nat) (auto_create : Bool) :
    Checked s u fd (s.check u fd auto_create) := by
  unfold check
  split_ifs with hle hauto hauto
  · exact .creates (find_eq_none hle)
  · exact .answersNull (find_eq_none hle)
  all_goals
    cases hfind : s.find fd with
    | some ctx => exact .answers hfind
    | none => first | exact .creates hfind | exact .answersNull hfind

/-- The table holds what the threads have been answered since the latest `del`, and a new
context is another object than all before it. -/
structure Faithful (s : FdThreads) : Prop where
  size : 64 ≤ s.m_datas.length
  tracks : Tracks s.find s.history
  old : ∀ {fd ctx}, s.find fd = some ctx → ctx < s.contexts

theorem faithful_init : Faithful {} := by
  have hnone (fd : Nat) : find {} fd = none := by
    rw [find, List.getElem?_replicate]
    split_ifs <;> rfl
  refine ⟨(List.length_replicate).ge, ?_, fun {fd ctx} h => ?_⟩
  · rw [funext hnone]
    exact .empty
  · cases (hnone fd).symm.trans h

theorem Faithful.check (h : Faithful s) {auto_create : Bool} :
    Faithful (s.check u fd auto_create) ∧
      (OneEach s.history → OneEach (s.check u fd auto_create).history) := by
  have hc := check_checked s u fd auto_create
  generalize s.check u fd auto_create = s' at hc
  cases hc with
  | answers hfind =>
    exact ⟨⟨h.size, h.tracks.give hfind, h.old⟩, fun hone => h.tracks.oneEach_give hone hfind⟩
  | answersNull => exact ⟨h, id⟩
  | creates => exact ⟨⟨h.size, h.tracks, h.old⟩, id⟩

theorem Faithful.create (h : Faithful s) (hnone : s.find fd = none) :
    Faithful (s.create u fd) ∧ (OneEach s.history → OneEach (s.create u fd).history) := by
  have hself : (s.create u fd).find fd = some s.contexts := find_create_self h.size
  refine ⟨⟨h.size.trans (length_create s u fd),
    h.tracks.make hnone hself fun fd' hne => find_create_ne hne, fun {fd' ctx} hctx => ?_⟩,
    fun hone => h.tracks.oneEach_make hone hnone⟩
  change ctx < s.contexts + 1
  by_cases hfd : fd' = fd
  · rw [hfd, hself] at hctx
    rw [← Option.some.inj hctx]
    exact Nat.lt_succ_self _
  · rw [find_create_ne hfd] at hctx
    exact (h.old hctx).trans (Nat.lt_succ_self _)

theorem Faithful.del (h : Faithful s) : Faithful (s.del fd) ∧
    (OneEach s.history → OneEach (s.del fd).history) := by
  refine ⟨⟨(length_del s fd).symm ▸ h.size, ?_, fun {fd' ctx} hctx => ?_⟩, fun hone => ?_⟩
  · exact h.tracks.remove (find_del_self s fd) fun fd' hne => find_del_ne hne
  · by_cases hfd : fd' = fd
    · rw [hfd, find_del_self] at hctx
      cases hctx
    · rw [find_del_ne hfd] at hctx
      exact h.old hctx
  · exact oneEach_cons.mpr ⟨hone, by simp⟩

/-- A second context for a descriptor: one that was answered is forgotten. -/
theorem Faithful.not_oneEach (h : Faithful s) (hsome : s.find fd ≠ none) :
    ¬ OneEach (s.create u fd).history := by
  obtain ⟨ctx, hctx⟩ := Option.ne_none_iff_exists'.mp hsome
  exact h.tracks.not_oneEach_replace hctx (h.old hctx).ne'

theorem step_cases (h : s.step a = some s') :
    (∃ u fd auto_create, a = .check u fd auto_create ∧ s' = s.check u fd auto_create) ∨
    (∃ u fd, a = .create u ∧ s.creating u = some fd ∧ s' = s.create u fd) ∨
    ∃ u fd, a = .del u fd ∧ s' = s.del fd := by
  cases a with
  | check u fd auto_create =>
    simp only [step] at h
    cases hu : s.creating u with
    | none => exact .inl ⟨u, fd, auto_create, rfl, by simpa [hu] using h.symm⟩
    | some _ => simp [hu] at h
  | create u =>
    simp only [step] at h
    cases hu : s.creating u with
    | none => simp [hu] at h
    | some fd => exact .inr (.inl ⟨u, fd, rfl, hu, by simpa [hu] using h.symm⟩)
  | del u fd =>
    simp only [step] at h
    cases hu : s.creating u with
    | none => exact .inr (.inr ⟨u, fd, rfl, by simpa [hu] using h.symm⟩)
    | some _ => simp [hu] at h

theorem Faithful.step (h : Faithful s) (hg : s.FindsNone a) (hs : s.step a = some s') :
    Faithful s' ∧ (OneEach s.history → OneEach s'.history) := by
  obtain ⟨u, fd, auto_create, rfl, rfl⟩ | ⟨u, fd, rfl, hu, rfl⟩ | ⟨u, fd, rfl, rfl⟩ :=
    step_cases hs
  · exact h.check
  · exact h.create (hg fd hu)
  · exact h.del

theorem step_history (hs : s.step a = some s') : s.history <:+ s'.history := by
  obtain ⟨u, fd, auto_create, rfl, rfl⟩ | ⟨u, fd, rfl, hu, rfl⟩ | ⟨u, fd, rfl, rfl⟩ :=
    step_cases hs
  · have hc := check_checked s u fd auto_create
    generalize s.check u fd auto_create = s' at hc
    cases hc with
    | answers => exact List.suffix_cons _ _
    | answersNull => exact List.suffix_rfl
    | creates => exact List.suffix_rfl
  · exact List.suffix_cons _ _
  · exact List.suffix_cons _ _

/-! ## Whole runs -/

theorem run_history {acts : List FdAct} (hrun : run step s acts = some s') :
    s.history <:+ s'.history := by
  induction acts generalizing s with
  | nil => exact Option.some.inj hrun ▸ List.suffix_rfl
  | cons a acts ih =>
    obtain ⟨s₁, hs, hrest⟩ := run_cons hrun
    exact (step_history hs).trans (ih hrest)

theorem spares_others (s : FdThreads) (a : FdAct) : s.SparesOthers a := by
  cases a with
  | create u => exact fun fd _ fd' hne => find_create_ne hne
  | check | del => trivial

theorem Faithful.run_iff {acts : List FdAct} (h : Faithful s) (hone : OneEach s.history)
    (hrun : run FdThreads.step s acts = some s') :
    OneEach s'.history ↔ Guarded FindsNone FdThreads.step s acts := by
  induction acts generalizing s with
  | nil => exact iff_of_true (Option.some.inj hrun ▸ hone) trivial
  | cons a acts ih =>
    obtain ⟨s₁, hs, hrest⟩ := run_cons hrun
    by_cases hg : s.FindsNone a
    · obtain ⟨h₁, hone₁⟩ := h.step hg hs
      rw [ih h₁ (hone₁ hone) hrest]
      exact ⟨fun hacts => .of_step hg hs hacts, fun hacts => hacts.2 s₁ hs⟩
    · -- the step makes a second context, and no later one takes that out of the history
      refine iff_of_false (fun hlater => ?_) fun hacts => hg hacts.1
      obtain ⟨u, fd, _, rfl, -⟩ | ⟨u, fd, rfl, hu, rfl⟩ | ⟨u, fd, rfl, -⟩ := step_cases hs
      · exact hg trivial
      · refine h.not_oneEach (fun hnone => hg fun fd' hfd' => ?_)
          (hlater.of_suffix (run_history hrest))
        rw [← Option.some.inj (hu.symm.trans hfd')]
        exact hnone
      · exact hg trivial

/-- **One context for a descriptor**, and no context lost to that of another one, in exactly the
runs in which a thread that makes a context finds that there is still none. -/
theorem one_context_iff {acts : List FdAct} (hrun : run step {} acts = some s) :
    OneEach s.history ∧ Guarded SparesOthers step {} acts ↔ Guarded FindsNone step {} acts := by
  rw [← faithful_init.run_iff oneEach_nil hrun]
  exact and_iff_left (.of_forall spares_others {} acts)

/-- Two threads use descriptors 3 and 64 one after the other, with a `del` of 3 in between. -/
theorem one_context_iff_in_turn :
    let acts : List FdAct := [.check 0 3 true, .create 0, .check 1 3 true, .check 0 64 true,
      .create 0, .del 1 3, .check 1 3 false, .check 1 3 true, .create 1]
    ∃ s, run step {} acts = some s ∧ OneEach s.history ∧
      s.history = [.given 3 2, .removed 3, .given 64 1, .given 3 0, .given 3 0] := by
  intro acts
  have hg : Guarded FindsNone step {} acts := by decide
  obtain ⟨s, hrun⟩ : ∃ s, run step {} acts = some s := Option.isSome_iff_exists.mp (by decide)
  have hhistory : (run step {} acts).map FdThreads.history =
      some [.given 3 2, .removed 3, .given 64 1, .given 3 0, .given 3 0] := by decide
  rw [hrun, Option.map_some, Option.some.injEq] at hhistory
  exact ⟨s, hrun, ((one_context_iff hrun).mpr hg).1, hhistory⟩

/-- Both threads find no context for descriptor 3, and both make one. -/
theorem two_contexts : ¬ ∀ (acts : List FdAct) (s : FdThreads), run step {} acts = some s →
    OneEach s.history ∧ Guarded SparesOthers step {} acts := by
  intro h
  let acts : List FdAct := [.check 0 3 true, .check 1 3 true, .create 0, .create 1]
  obtain ⟨s, hrun⟩ : ∃ s, run step {} acts = some s := Option.isSome_iff_exists.mp (by decide)
  have hhistory : (run step {} acts).map FdThreads.history = some [.given 3 1, .given 3 0] := by
    decide
  rw [hrun, Option.map_some, Option.some.injEq] at hhistory
  have hone := (h acts s hrun).1 3 1 0 [] [] [] hhistory List.not_mem_nil
  cases hone

/-! ## One thread -/

def Shows (s : FdThreads) (f : FdManager) : Prop :=
  s.m_datas.map Option.isSome = f.m_datas.map Option.isSome

theorem Shows.find {f : FdManager} (h : Shows s f) (fd : Nat) :
    (s.find fd).isSome = (f.find fd).isSome := by
  have hfd := congrArg (·[fd]?) h
  simp only [List.getElem?_map] at hfd
  rw [FdThreads.find, FdManager.find]
  rcases hs : s.m_datas[fd]? with _ | _ | _ <;> rcases hf : f.m_datas[fd]? with _ | _ | _ <;>
    simp_all

theorem Shows.length {f : FdManager} (h : Shows s f) : s.m_datas.length = f.m_datas.length := by
  simpa using congrArg List.length h

theorem check_of_some {ctx : Nat} {auto_create : Bool} (h : s.find fd = some ctx) :
    s.check u fd auto_create = { s with history := .given fd ctx :: s.history } := by
  have hlt : ¬ s.m_datas.length ≤ fd := fun hle => by simp [find_eq_none hle] at h
  rw [check, if_neg hlt, h]

theorem check_of_none (h : s.find fd = none) :
    s.check u fd true = s.setCreating u (some fd) := by
  rw [check, h]
  simp

theorem Shows.create {f : FdManager} (h : Shows s f) (hnone : f.find fd = none) :
    Shows (s.create u fd) (f.create fd) := by
  have hresize (size : Nat) : (FdThreads.resize s.m_datas size).map Option.isSome =
      (FdManager.resize f.m_datas size).map Option.isSome := by
    have htable : s.m_datas.map Option.isSome = f.m_datas.map Option.isSome := h
    simp only [FdThreads.resize, FdManager.resize, List.map_append, List.map_take, htable,
      h.length, List.map_replicate, Option.isSome_none]
  unfold Shows FdThreads.create FdManager.create
  simp only [hnone, List.map_set, h.length]
  split_ifs
  · rw [hresize]
    rfl
  · rw [h]
    rfl

/-- A thread that nobody comes in between does what `get` does as one call. -/
theorem Shows.get {f : FdManager} (h : Shows s f) (hu : s.creating u = none) :
    ∃ acts s', (acts = [.check u fd true] ∨ acts = [.check u fd true, .create u]) ∧
      run step s acts = some s' ∧ Shows s' (f.create fd) := by
  have hcheck : step s (.check u fd true) = some (s.check u fd true) := by
    simp only [step, hu]
  have hsome := h.find fd
  cases hfind : s.find fd with
  | some ctx =>
    rw [hfind, Option.isSome_some, eq_comm, Option.isSome_iff_exists] at hsome
    obtain ⟨ctx', hctx'⟩ := hsome
    have hcreate : f.create fd = f := by rw [FdManager.create, hctx']
    refine ⟨_, _, .inl rfl, by rw [run, hcheck]; rfl, ?_⟩
    rw [check_of_some hfind, hcreate]
    exact h
  | none =>
    rw [hfind, Option.isSome_none, eq_comm, Option.isSome_eq_false_iff,
      Option.isNone_iff_eq_none] at hsome
    rw [check_of_none hfind] at hcheck
    have hcreate : step (s.setCreating u (some fd)) (.create u) =
        some ((s.setCreating u (some fd)).create u fd) := by
      simp only [step, setCreating, Function.update_self]
    have hshows : Shows (s.setCreating u (some fd)) f := h
    refine ⟨_, _, .inr rfl, ?_, hshows.create (u := u) hsome⟩
    rw [run, hcheck, Option.bind_some, run, hcreate]
    rfl

end FdThreads
end Workplace.Coroutine
