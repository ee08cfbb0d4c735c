import Mathlib.Data.List.Basic
import Mathlib.Tactic

/-! Runs of a machine that takes labelled steps. A step may be refused (`none`): a label
that the state does not allow, or a step from which the machine does not come back. -/

namespace Workplace.Lib
variable {σ ι : Type} {step : σ → ι → Option σ} {guard guard' : σ → ι → Prop} {s s' : σ}

def run (step : σ → ι → Option σ) (s : σ) : List ι → Option σ
  | [] => some s
  | i :: is => (step s i).bind fun s' => run step s' is

/-- Every step of the run meets `guard` in the state it is taken in. -/
def Guarded (guard : σ → ι → Prop) (step : σ → ι → Option σ) (s : σ) : List ι → Prop
  | [] => True
  | i :: is => guard s i ∧ ∀ s', step s i = some s' → Guarded guard step s' is

instance Guarded.decidable [∀ s i, Decidable (guard s i)] :
    (s : σ) → (is : List ι) → Decidable (Guarded guard step s is)
  | _, [] => isTrue trivial
  | s, i :: is =>
    match hs : step s i with
    | none => decidable_of_iff (guard s i) ⟨fun hg => ⟨hg, by simp [hs]⟩, And.left⟩
    | some s₁ =>
      have := Guarded.decidable s₁ is
      decidable_of_iff (guard s i ∧ Guarded guard step s₁ is)
        ⟨fun h => ⟨h.1, fun _ h' => Option.some.inj (hs.symm.trans h') ▸ h.2⟩,
          fun h => ⟨h.1, h.2 s₁ hs⟩⟩

theorem Guarded.of_step {i : ι} {is : List ι} (hg : guard s i) (hs : step s i = some s')
    (h : Guarded guard step s' is) : Guarded guard step s (i :: is) :=
  ⟨hg, fun _ h' => Option.some.inj (hs.symm.trans h') ▸ h⟩

theorem Guarded.of_forall (h : ∀ s i, guard s i) (s : σ) (is : List ι) :
    Guarded guard step s is := by
  induction is generalizing s with
  | nil => trivial
  | cons i is ih => exact ⟨h s i, fun s' _ => ih s'⟩

theorem run_cons {i : ι} {is : List ι} (h : run step s (i :: is) = some s') :
    ∃ s₁, step s i = some s₁ ∧ run step s₁ is = some s' := Option.bind_eq_some_iff.mp h

theorem run_append (s : σ) (is js : List ι) :
    run step s (is ++ js) = (run step s is).bind fun s' => run step s' js := by
  induction is generalizing s with
  | nil => rfl
  | cons i is ih => simp only [List.cons_append, run, ih, Option.bind_assoc]

theorem Guarded.left {is js : List ι} (h : Guarded guard step s (is ++ js)) :
    Guarded guard step s is := by
  induction is generalizing s with
  | nil => trivial
  | cons i is ih => exact ⟨h.1, fun s₁ hs => ih (h.2 s₁ hs)⟩

theorem Guarded.of_append {is js : List ι} (h : Guarded guard step s (is ++ js))
    (hrun : run step s is = some s') : Guarded guard step s' js := by
  induction is generalizing s with
  | nil => exact Option.some.inj hrun ▸ h
  | cons i is ih =>
    obtain ⟨s₁, hs, hr⟩ := run_cons hrun
    exact ih (h.2 s₁ hs) hr

theorem run_some (f : σ → ι → σ) (s : σ) (is : List ι) :
    run (fun s i => some (f s i)) s is = some (is.foldl f s) := by
  induction is generalizing s with
  | nil => rfl
  | cons i is ih => simp only [run, Option.bind_some, ih, List.foldl_cons]

/-- Two guards that agree in every state that the run can reach. -/
theorem Guarded.congr {Inv : σ → Prop} (is : List ι)
    (hiff : ∀ {s i}, Inv s → (guard s i ↔ guard' s i))
    (hstep : ∀ {s i s'}, Inv s → step s i = some s' → Inv s') (h0 : Inv s) :
    Guarded guard step s is ↔ Guarded guard' step s is := by
  induction is generalizing s with
  | nil => rfl
  | cons i is ih =>
    exact and_congr (hiff h0) (forall_congr' fun s' => forall_congr' fun hs => ih (hstep h0 hs))

theorem run_invariant {Inv : σ → Prop} (is : List ι)
    (hstep : ∀ {s i s'}, Inv s → guard s i → step s i = some s' → Inv s')
    (h0 : Inv s) (hg : Guarded guard step s is) (hrun : run step s is = some s') : Inv s' := by
  induction is generalizing s with
  | nil => exact Option.some.inj hrun ▸ h0
  | cons i is ih =>
    obtain ⟨s₁, hs, hr⟩ := run_cons hrun
    exact ih (hstep h0 hg.1 hs) (hg.2 s₁ hs) hr

theorem run_invariant_of_step {Inv : σ → Prop} (is : List ι)
    (hstep : ∀ {s i s'}, Inv s → step s i = some s' → Inv s')
    (h0 : Inv s) (hrun : run step s is = some s') : Inv s' := by
  have hg : Guarded (fun _ _ => True) step s is := .of_forall (fun _ _ => trivial) s is
  exact run_invariant is (fun hinv _ hs => hstep hinv hs) h0 hg hrun

/-! ## Steps that are never refused -/

variable {f : σ → ι → σ}

theorem guarded_some_cons {i : ι} {is : List ι} :
    Guarded guard (fun s i => some (f s i)) s (i :: is) ↔
      guard s i ∧ Guarded guard (fun s i => some (f s i)) (f s i) is :=
  and_congr_right fun _ => ⟨fun h => h _ rfl, fun h _ hs => Option.some.inj hs ▸ h⟩

theorem guarded_some_iff (is : List ι) : Guarded guard (fun s i => some (f s i)) s is ↔
    ∀ before i after, is = before ++ i :: after → guard (before.foldl f s) i := by
  induction is generalizing s with
  | nil => exact iff_of_true trivial fun before i after h => by simp at h
  | cons i is ih =>
    rw [guarded_some_cons, ih]
    constructor
    · rintro ⟨hi, his⟩ before j after h
      cases before with
      | nil => exact (List.cons.inj h).1 ▸ hi
      | cons k before =>
        obtain ⟨rfl, rfl⟩ := List.cons.inj h
        exact his before j after rfl
    · intro h
      exact ⟨h [] i is rfl, fun before j after his => h (i :: before) j after (by rw [his]; rfl)⟩

theorem forall_mem_scanl_iff {P : σ → Prop} (is : List ι) :
    (∀ s' ∈ (is.scanl f s).tail, P s') ↔
      Guarded (fun s i => P (f s i)) (fun s i => some (f s i)) s is := by
  induction is generalizing s with
  | nil => exact iff_of_true (by simp) trivial
  | cons i is ih =>
    have hscanl : is.scanl f (f s i) = f s i :: (is.scanl f (f s i)).tail := by
      cases is <;> simp [List.scanl_cons]
    rw [guarded_some_cons, ← ih, List.scanl_cons, List.tail_cons, hscanl, List.forall_mem_cons,
      List.tail_cons]

/-- Two guards that agree where the invariant holds, the first of which keeps it. -/
theorem Guarded.congr_of_invariant {Inv : σ → Prop} (is : List ι)
    (hiff : ∀ {s i}, Inv s → (guard s i ↔ guard' s i))
    (hkeeps : ∀ {s i}, Inv s → guard s i → Inv (f s i)) (h0 : Inv s) :
    Guarded guard (fun s i => some (f s i)) s is ↔
      Guarded guard' (fun s i => some (f s i)) s is := by
  induction is generalizing s with
  | nil => rfl
  | cons i is ih =>
    rw [guarded_some_cons, guarded_some_cons, ← hiff h0]
    exact and_congr_right fun hi => ih (hkeeps h0 hi)

end Workplace.Lib
