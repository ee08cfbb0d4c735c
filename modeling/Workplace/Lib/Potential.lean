import Workplace.Lib.Runs

/-! Counting the steps of a run against a potential, which some steps pay into. -/

namespace Workplace.Lib
variable {σ ι κ P : Type} {step : σ → ι → Option σ} {s s' : σ}

theorem toNat_eq_ite (b : Bool) : (if b = true then 1 else 0) = b.toNat := by
  cases b <;> rfl

/-- The steps that cost one are paid from the potential at the start of the run, and from the
steps that bring one. -/
theorem run_potential (Inv : σ → Prop) (Φ : σ → ℕ) (ok costs brings : ι → Bool)
    (is : List ι) (hok : ∀ i ∈ is, ok i = true)
    (hstep : ∀ s i s', Inv s → ok i = true → step s i = some s' →
      Inv s' ∧ Φ s' + (costs i).toNat ≤ Φ s + (brings i).toNat)
    (h0 : Inv s) (hrun : run step s is = some s') :
    Inv s' ∧ Φ s' + is.countP costs ≤ Φ s + is.countP brings := by
  induction is generalizing s with
  | nil =>
    obtain rfl := Option.some.inj hrun
    exact ⟨h0, le_refl _⟩
  | cons i is ih =>
    obtain ⟨s₁, hs, hrest⟩ := run_cons hrun
    obtain ⟨hi, his⟩ := List.forall_mem_cons.mp hok
    obtain ⟨hinv, hpay⟩ := hstep s i s₁ h0 hi hs
    obtain ⟨hinv', hle⟩ := ih his hinv hrest
    rw [List.countP_cons, List.countP_cons, toNat_eq_ite, toNat_eq_ite]
    exact ⟨hinv', by omega⟩

/-- Who waits is served, or waits on with what the run has left of the potential. -/
theorem run_until_served (Inv Served : σ → Prop) (Φ : σ → ℕ) (costs : ι → Bool) (is : List ι)
    (hkeeps : ∀ {s i s'}, Served s → step s i = some s' → Served s')
    (hstep : ∀ s i s', Inv s → step s i = some s' →
      Served s' ∨ Inv s' ∧ Φ s' + (costs i).toNat ≤ Φ s)
    (h0 : Inv s) (hrun : run step s is = some s') :
    Served s' ∨ Inv s' ∧ Φ s' + is.countP costs ≤ Φ s := by
  induction is generalizing s with
  | nil =>
    obtain rfl := Option.some.inj hrun
    exact .inr ⟨h0, le_refl _⟩
  | cons i is ih =>
    obtain ⟨s₁, hs, hrest⟩ := run_cons hrun
    rcases hstep s i s₁ h0 hs with hserved | ⟨hinv, hpay⟩
    · exact .inl (run_invariant_of_step is hkeeps hserved hrest)
    · refine (ih hinv hrest).imp id fun ⟨hinv', hle⟩ => ⟨hinv', ?_⟩
      rw [List.countP_cons, toNat_eq_ite]
      omega

/-- How many of the steps are of a kind, each judged in the state it is taken in. -/
def tally (play : σ → ι → σ) (kind : σ → ι → Bool) (s : σ) : List ι → ℕ
  | [] => 0
  | i :: is => (kind s i).toNat + tally play kind (play s i) is

/-- The same inequality where a step that brings something brings `n`. -/
theorem tally_potential {play : σ → ι → σ} (Φ : σ → ℕ) (costs brings : σ → ι → Bool) (n : ℕ)
    (hstep : ∀ s i, Φ (play s i) + (costs s i).toNat ≤ Φ s + n * (brings s i).toNat)
    (is : List ι) (s : σ) : Φ (is.foldl play s) + tally play costs s is ≤
      Φ s + n * tally play brings s is := by
  induction is generalizing s with
  | nil => exact le_refl _
  | cons i is ih =>
    have hfirst := hstep s i
    have hrest := ih (play s i)
    rw [List.foldl_cons, tally, tally, Nat.mul_add]
    omega

/-- The weight of a map, one entry of which changes. -/
theorem sum_update [DecidableEq κ] (w : P → ℕ) (f : κ → P) {ks : Finset κ} {k : κ} (p : P)
    (hk : k ∈ ks) : ∑ i ∈ ks, w (Function.update f k p i) + w (f k) = ∑ i ∈ ks, w (f i) + w p := by
  have hrest : ∑ i ∈ ks.erase k, w (Function.update f k p i) = ∑ i ∈ ks.erase k, w (f i) := by
    apply Finset.sum_congr rfl
    intro i hi
    rw [Function.update_of_ne (Finset.ne_of_mem_erase hi)]
  rw [← Finset.add_sum_erase ks _ hk, ← Finset.add_sum_erase ks (fun i => w (f i)) hk, hrest,
    Function.update_self]
  omega

end Workplace.Lib
