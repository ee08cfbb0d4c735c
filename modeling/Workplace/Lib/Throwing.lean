import Mathlib.Logic.Basic
import Mathlib.Tactic.SplitIfs

/-! Programs that change a state and may throw, where what was changed before the throw stays
changed. What holds at the two exits is computed from the text of the program, by one rule for
each way to build it. -/

namespace Workplace.Lib

variable {σ ε ε' α β : Type}

/-- Run from `s`, the program returns with `Q`, or throws with `E`. -/
def Ends (x : EStateM ε σ α) (s : σ) (Q : α → σ → Prop) (E : ε → σ → Prop) : Prop :=
  match x.run s with
  | .ok a s' => Q a s'
  | .error e s' => E e s'

def lift (r : Except ε α) : EStateM ε σ α :=
  match r with
  | .ok a => pure a
  | .error e => throw e

section Rules

variable {x y : EStateM ε σ α} {f : α → EStateM ε σ β} {s : σ} {a : α} {e : ε}
  {Q : α → σ → Prop} {R : β → σ → Prop} {E : ε → σ → Prop}

@[simp] theorem ends_pure : Ends (pure a) s Q E ↔ Q a s := Iff.rfl

@[simp] theorem ends_throw : Ends (throw e : EStateM ε σ α) s Q E ↔ E e s := Iff.rfl

@[simp] theorem ends_get {Q : σ → σ → Prop} : Ends (get : EStateM ε σ σ) s Q E ↔ Q s s := Iff.rfl

@[simp] theorem ends_modify {g : σ → σ} {Q : PUnit → σ → Prop} :
    Ends (modify g : EStateM ε σ PUnit) s Q E ↔ Q ⟨⟩ (g s) := Iff.rfl

@[simp] theorem ends_bind :
    Ends (x >>= f) s R E ↔ Ends x s (fun a s' => Ends (f a) s' R E) E := by
  unfold Ends
  rw [EStateM.run_bind]
  cases x.run s <;> rfl

@[simp] theorem ends_tryCatch {h : ε → EStateM ε σ α} :
    Ends (tryCatch x h) s Q E ↔ Ends x s Q fun e s' => Ends (h e) s' Q E := by
  unfold Ends
  simp only [tryCatch, tryCatchThe, MonadExceptOf.tryCatch, EStateM.run, EStateM.tryCatch]
  cases x s <;> rfl

@[simp] theorem ends_ite {p : Prop} [Decidable p] :
    Ends (if p then x else y) s Q E ↔ if p then Ends x s Q E else Ends y s Q E := by
  split_ifs <;> rfl

@[simp] theorem ends_lift_ok : Ends (lift (.ok a)) s Q E ↔ Q a s := Iff.rfl

@[simp] theorem ends_lift_error : Ends (lift (.error e)) s Q E ↔ E e s := Iff.rfl

theorem Ends.imp {Q' : α → σ → Prop} {E' : ε → σ → Prop} (h : Ends x s Q E)
    (hQ : ∀ a s', Q a s' → Q' a s') (hE : ∀ e s', E e s' → E' e s') : Ends x s Q' E' := by
  unfold Ends at h ⊢
  cases hx : x.run s with
  | ok a s' =>
    rw [hx] at h
    exact hQ a s' h
  | error e s' =>
    rw [hx] at h
    exact hE e s' h

end Rules

/-! ## Invariants -/

/-- The program leads from `I` to `I`, whichever way it ends. -/
def Keeps (I : σ → Prop) (x : EStateM ε σ α) : Prop :=
  ∀ s, I s → Ends x s (fun _ => I) fun _ => I

/-- A body that ends with `I` either way, and a handler that keeps it. -/
theorem Ends.tryCatch {I : σ → Prop} {x : EStateM ε σ α} {h : ε → EStateM ε σ α} {s : σ}
    (hx : Ends x s (fun _ => I) fun _ => I) (hh : ∀ e, Keeps I (h e)) :
    Ends (tryCatch x h) s (fun _ => I) fun _ => I := by
  rw [ends_tryCatch]
  exact hx.imp (fun _ _ h' => h') fun e s' h' => hh e s' h'

namespace Keeps

variable {I : σ → Prop} {x y : EStateM ε σ α} {f : α → EStateM ε σ β}

theorem pure (a : α) : Keeps I (pure a : EStateM ε σ α) := fun _ h => h

theorem get : Keeps I (get : EStateM ε σ σ) := fun _ h => h

theorem lift (r : Except ε α) : Keeps I (lift r : EStateM ε σ α) := by
  intro s h
  cases r <;> exact h

theorem modify {g : σ → σ} (hg : ∀ s, I s → I (g s)) :
    Keeps I (modify g : EStateM ε σ PUnit) := hg

theorem bind (hx : Keeps I x) (hf : ∀ a, Keeps I (f a)) : Keeps I (x >>= f) := by
  intro s h
  rw [ends_bind]
  exact (hx s h).imp (fun a s' h' => hf a s' h') fun _ _ h' => h'

theorem tryCatch {h : ε → EStateM ε σ α} (hx : Keeps I x) (hh : ∀ e, Keeps I (h e)) :
    Keeps I (tryCatch x h) := by
  intro s hs
  exact (hx s hs).tryCatch hh

theorem ite {p : Prop} [Decidable p] (hx : Keeps I x) (hy : Keeps I y) :
    Keeps I (if p then x else y) := by
  split_ifs
  · exact hx
  · exact hy

end Keeps

end Workplace.Lib
