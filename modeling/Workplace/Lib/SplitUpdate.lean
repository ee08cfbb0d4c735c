import Workplace.Lib.Runs

/-! Updates that are made in two steps. A thread looks at what is shared, and acts on what it
saw; between the two, other threads may act. As long as no thread acts in a way that would
make another one's decision a different one, the updates are atomic. -/

namespace Workplace.Lib

/-- `look` is all that `act` gets to know of the shared state for its decision. -/
structure SplitUpdate (σ ι ρ ο : Type) where
  look : σ → ι → ρ
  act : ρ → ι → σ → σ × ο

namespace SplitUpdate
variable {σ ι ρ ο : Type}

structure State (σ ι ρ ο : Type) where
  shared : σ
  -- what a thread was asked for and has seen, while it has yet to act
  pending : Nat → Option (ι × ρ) := fun _ => none
  -- the answers given, the first one first
  answers : List (ι × ο) := []

inductive Act (ι : Type) where
  | look (u : Nat) (i : ι)
  | act (u : Nat)

variable (U : SplitUpdate σ ι ρ ο)

def step (s : State σ ι ρ ο) : Act ι → Option (State σ ι ρ ο)
  | .look u i =>
    if (s.pending u).isNone then
      some { s with pending := Function.update s.pending u (some (i, U.look s.shared i)) }
    else none
  | .act u =>
    match s.pending u with
    | none => none
    | some (i, r) =>
      let (shared, o) := U.act r i s.shared
      some { shared, pending := Function.update s.pending u none, answers := s.answers ++ [(i, o)] }

def atomic (i : ι) (s : σ) : σ × ο := U.act (U.look s i) i s

/-- Looking again would not change what the thread does. -/
def Fresh (s : σ) (p : ι × ρ) : Prop := U.act p.2 p.1 s = U.atomic p.1 s

def Current (s : State σ ι ρ ο) : Prop := ∀ u p, s.pending u = some p → U.Fresh s.shared p

/-- The step leaves what every other thread has seen as good as new. -/
def Spares (s : State σ ι ρ ο) : Act ι → Prop
  | .look _ _ => True
  | .act u => ∀ p, s.pending u = some p → ∀ v q, v ≠ u → s.pending v = some q →
      U.Fresh (U.act p.2 p.1 s.shared).1 q

variable {U} {s s' : State σ ι ρ ο} {a : Act ι}

theorem step_cases (h : U.step s a = some s') :
    (∃ u i, a = .look u i ∧ s.pending u = none ∧ s' = { s with
      pending := Function.update s.pending u (some (i, U.look s.shared i)) }) ∨
    ∃ u p, a = .act u ∧ s.pending u = some p ∧ s' = {
      shared := (U.act p.2 p.1 s.shared).1
      pending := Function.update s.pending u none
      answers := s.answers ++ [(p.1, (U.act p.2 p.1 s.shared).2)] } := by
  cases a with
  | look u i =>
    simp only [step] at h
    split_ifs at h with hu
    exact .inl ⟨u, i, rfl, Option.isNone_iff_eq_none.mp hu, (Option.some.inj h).symm⟩
  | act u =>
    simp only [step] at h
    cases hp : s.pending u with
    | none => simp [hp] at h
    | some p =>
      simp only [hp] at h
      exact .inr ⟨u, p, rfl, hp, (Option.some.inj h).symm⟩

theorem Current.step (h : U.Current s) (hg : U.Spares s a) (hs : U.step s a = some s') :
    U.Current s' := by
  intro v q hv
  obtain ⟨u, i, rfl, -, rfl⟩ | ⟨u, p, rfl, hp, rfl⟩ := step_cases hs
  · change Function.update s.pending u _ v = some q at hv
    by_cases hvu : v = u
    · rw [hvu, Function.update_self] at hv
      obtain rfl := Option.some.inj hv
      rfl
    · rw [Function.update_of_ne hvu] at hv
      exact h v q hv
  · change Function.update s.pending u none v = some q at hv
    by_cases hvu : v = u
    · rw [hvu, Function.update_self] at hv
      cases hv
    · rw [Function.update_of_ne hvu] at hv
      exact hg p hp v q hvu hv

/-- A thread that is current acts as if the two steps were one. -/
theorem Current.act_cases (h : U.Current s) (hs : U.step s a = some s') :
    s'.shared = s.shared ∧ s'.answers = s.answers ∨
      ∃ i, s'.shared = (U.atomic i s.shared).1 ∧
        s'.answers = s.answers ++ [(i, (U.atomic i s.shared).2)] := by
  obtain ⟨u, i, rfl, -, rfl⟩ | ⟨u, p, rfl, hp, rfl⟩ := step_cases hs
  · exact .inl ⟨rfl, rfl⟩
  · have hfresh : U.act p.2 p.1 s.shared = U.atomic p.1 s.shared := h u p hp
    exact .inr ⟨p.1, by rw [hfresh], by rw [hfresh]⟩

/-- **Atomicity.** What whole updates preserve, a run of split ones preserves, as long as its
steps spare the threads that have looked. -/
theorem Current.run_invariant {guard : State σ ι ρ ο → Act ι → Prop}
    {Inv : σ → List (ι × ο) → Prop} (acts : List (Act ι))
    (hspares : ∀ {s a}, U.Current s → guard s a → U.Spares s a)
    (hatomic : ∀ {x as} i, Inv x as →
      Inv (U.atomic i x).1 (as ++ [(i, (U.atomic i x).2)]))
    (h : U.Current s) (h0 : Inv s.shared s.answers) (hg : Guarded guard U.step s acts)
    (hrun : run U.step s acts = some s') : U.Current s' ∧ Inv s'.shared s'.answers := by
  have hstep : ∀ {s a s'}, U.Current s ∧ Inv s.shared s.answers → guard s a →
      U.step s a = some s' → U.Current s' ∧ Inv s'.shared s'.answers := by
    intro s a s' h hg hs
    refine ⟨h.1.step (hspares h.1 hg) hs, ?_⟩
    rcases h.1.act_cases hs with ⟨hsh, hans⟩ | ⟨i, hsh, hans⟩
    · rw [hsh, hans]
      exact h.2
    · rw [hsh, hans]
      exact hatomic i h.2
  have key := Lib.run_invariant acts hstep ⟨h, h0⟩ hg hrun
  exact key

/-- Asked for by a thread that has yet to act, or answered. -/
def Asked (i : ι) (s : State σ ι ρ ο) : Prop :=
  (∃ u r, s.pending u = some (i, r)) ∨ ∃ o, (i, o) ∈ s.answers

theorem Asked.step {i : ι} (h : Asked i s) (hs : U.step s a = some s') : Asked i s' := by
  obtain ⟨u, j, rfl, hu, rfl⟩ | ⟨u, p, rfl, hp, rfl⟩ := step_cases hs
  · rcases h with ⟨v, r, hv⟩ | h
    · have hvu : v ≠ u := by
        rintro rfl
        rw [hu] at hv
        cases hv
      exact .inl ⟨v, r, (Function.update_of_ne hvu _ _).trans hv⟩
    · exact .inr h
  · rcases h with ⟨v, r, hv⟩ | ⟨o, ho⟩
    · by_cases hvu : v = u
      · rw [hvu, hp] at hv
        obtain rfl := Option.some.inj hv
        exact .inr ⟨_, List.mem_append_right _ (List.mem_singleton_self _)⟩
      · exact .inl ⟨v, r, (Function.update_of_ne hvu _ _).trans hv⟩
    · exact .inr ⟨o, List.mem_append_left _ ho⟩

theorem run_asked {u : Nat} {i : ι} {acts : List (Act ι)} (hi : .look u i ∈ acts)
    (hrun : run U.step s acts = some s') : Asked i s' := by
  obtain ⟨before, after, rfl⟩ := List.append_of_mem hi
  rw [run_append] at hrun
  obtain ⟨s₁, -, hrest⟩ := Option.bind_eq_some_iff.mp hrun
  obtain ⟨s₂, hlook, hafter⟩ := run_cons hrest
  refine run_invariant_of_step after Asked.step ?_ hafter
  obtain ⟨v, j, heq, -, rfl⟩ | ⟨v, p, heq, -, -⟩ := step_cases hlook
  · obtain ⟨rfl, rfl⟩ := Act.look.inj heq
    exact .inl ⟨u, _, Function.update_self _ _ _⟩
  · cases heq

end SplitUpdate
end Workplace.Lib
