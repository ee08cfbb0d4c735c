import Workplace.Coroutine.Timer

/-! Whether the loop of `listExpiredCb` ends. It puts a recurring timer back at once, and takes
it out again when its new deadline has passed as well, or when the clock went back. -/

namespace Workplace.Coroutine
open Workplace.Lib

namespace TimerManager
variable {C W : Type} {m : TimerManager C W} {t u : Nat} {now : Int} {rollover : Bool}

/-- The loop takes the timer out, and would take it out again once it is put back. -/
def Returns (m : TimerManager C W) (rollover : Bool) (now : Int) (t : Nat) : Prop :=
  (m.timer t).m_recurring = true ∧ m.Expires rollover now t ∧
    (rollover = true ∨ m.renewal now t ≤ now)

/-- A later timer of the set has the deadline that the timer would be put back with, so that
`insert` does not take it. -/
def Dropped (m : TimerManager C W) (now : Int) (t : Nat) : Prop :=
  m.next t < m.renewal now t ∧ ∃ u ∈ m.m_timers, m.next u = m.renewal now t

def Ends (m : TimerManager C W) (rollover : Bool) (now : Int) : Prop :=
  ∀ t ∈ m.m_timers, m.Returns rollover now t → m.Dropped now t

instance (m : TimerManager C W) (rollover : Bool) (now : Int) (t : Nat) :
    Decidable (m.Returns rollover now t) := inferInstanceAs (Decidable (_ ∧ _ ∧ (_ ∨ _)))

instance (m : TimerManager C W) (now : Int) (t : Nat) : Decidable (m.Dropped now t) :=
  inferInstanceAs (Decidable (_ ∧ ∃ u ∈ m.m_timers, _))

instance (m : TimerManager C W) (rollover : Bool) (now : Int) : Decidable (m.Ends rollover now) :=
  inferInstanceAs (Decidable (∀ t ∈ m.m_timers, _ → _))

/-! ## One round -/

theorem exists_due (hord : OrderedSet.Ordered m.next m.m_timers) (ht : t ∈ m.m_timers)
    (he : m.Expires rollover now t) : ∃ h, m.due rollover now = some h := by
  rw [due]
  rcases hl : m.m_timers with _ | ⟨h, rest⟩
  · rw [hl] at ht
    exact absurd ht List.not_mem_nil
  · refine ⟨h, ?_⟩
    rw [List.head?_cons, Option.filter_some, if_pos]
    rw [Bool.or_eq_true, decide_eq_true_eq]
    refine he.imp_right fun hle => le_trans ?_ hle
    rw [hl] at hord ht
    rcases List.mem_cons.mp ht with rfl | ht
    · exact le_rfl
    · exact ((OrderedSet.ordered_cons.mp hord).1 t ht).le

/-- The set after a round, and what it says of the timers in it. -/
structure Round (m : TimerManager C W) (now : Int) (h : Nat) (m' : TimerManager C W) : Prop where
  ordered : OrderedSet.Ordered m'.next m'.m_timers
  others : ∀ u, u ≠ h → (u ∈ m'.m_timers ↔ u ∈ m.m_timers) ∧ m'.timer u = m.timer u
  later : ∀ u ∈ m.m_timers, u ≠ h → m.next h < m.next u
  self : h ∈ m'.m_timers ↔ (m.timer h).m_recurring = true ∧
    ∀ u ∈ m.m_timers, u ≠ h → m.next u ≠ m.renewal now h
  renewed : h ∈ m'.m_timers → m'.timer h = { m.timer h with m_next := m.renewal now h }

theorem round_expire (hord : OrderedSet.Ordered m.next m.m_timers)
    (hd : m.due rollover now = some t) : Round m now t (m.expire now t) := by
  obtain ⟨hl, -⟩ := due_eq_some hd
  set rest := m.m_timers.tail with hrest
  have hord' := hord
  rw [hl] at hord'
  obtain ⟨hlater, hord_rest⟩ := OrderedSet.ordered_cons.mp hord'
  have hout : t ∉ rest := (List.nodup_cons.mp hord'.nodup).1
  have hmem {u : Nat} (hu : u ≠ t) : u ∈ rest ↔ u ∈ m.m_timers := by
    rw [hl, List.mem_cons, or_iff_right hu]
  have hrest_mem {u : Nat} (hu : u ∈ m.m_timers) (hut : u ≠ t) : u ∈ rest := (hmem hut).mpr hu
  rw [expire, ← hrest]
  split_ifs with hr
  · have hp := placed_insert (m := { m with m_timers := rest }) hord_rest hout
      { m.timer t with m_next := m.renewal now t }
    have hself : t ∈ ((TimerManager.set { m with m_timers := rest } t
        { m.timer t with m_next := m.renewal now t }).insert t).m_timers ↔
          ∀ u ∈ m.m_timers, u ≠ t → m.next u ≠ m.renewal now t := by
      refine ⟨fun ht u hu hut hkey => ?_, fun hne => hp.self fun u hu => ?_⟩
      · -- with another timer at the new deadline, both would be in the set with one key
        refine hut (hp.ordered.eq_of_key ((hp.others u hut).mpr (hrest_mem hu hut)) ht ?_)
        rw [next, next, hp.timer, Function.update_of_ne hut, Function.update_self]
        exact hkey
      · exact hne u ((hmem fun hut => hout (hut ▸ hu)).mp hu) fun hut => hout (hut ▸ hu)
    refine ⟨hp.ordered, fun u hu => ⟨(hp.others u hu).trans (hmem hu), ?_⟩,
      fun u hu hut => hlater u (hrest_mem hu hut), hself.trans (and_iff_right hr).symm,
      fun _ => ?_⟩
    · exact (congrFun hp.timer u).trans (Function.update_of_ne hu _ _)
    · exact (congrFun hp.timer t).trans (Function.update_self ..)
  · refine ⟨hord_rest.congr fun u hu => ?_, fun u hu => ⟨hmem hu, set_timer_ne hu⟩,
      fun u hu hut => hlater u (hrest_mem hu hut), ?_, fun ht => absurd ht hout⟩
    · exact next_set_ne (m := { m with m_timers := rest }) fun hut => hout (hut ▸ hu)
    · exact iff_of_false hout fun hr' => hr hr'.1

section
variable {h : Nat} {m' : TimerManager C W}

theorem Round.next_eq (hr : Round m now h m') (hu : u ≠ h) : m'.next u = m.next u := by
  rw [next, (hr.others u hu).2, next]

theorem Round.renewal_eq (hr : Round m now h m') (hu : u ∈ m'.m_timers) :
    m'.renewal now u = m.renewal now u := by
  by_cases huh : u = h
  · subst huh
    rw [renewal, hr.renewed hu, renewal]
  · rw [renewal, (hr.others u huh).2, renewal]

theorem Round.next_self (hr : Round m now h m') (hh : h ∈ m'.m_timers) : m'.next h = m.renewal now h := by
  rw [next, hr.renewed hh]

theorem Round.returns_iff (hr : Round m now h m') (hu : u ≠ h) :
    m'.Returns rollover now u ↔ m.Returns rollover now u := by
  rw [Returns, Returns, Expires, Expires, hr.next_eq hu, renewal, renewal, (hr.others u hu).2]

end

/-! ## The loop -/

def dueTimers (m : TimerManager C W) (rollover : Bool) (now : Int) : Finset Nat :=
  m.m_timers.toFinset.filter fun t => m.Expires rollover now t

/-- A round of a loop that ends leaves one due timer less, and the loop still ends. -/
theorem Round.ends {h : Nat} {m' : TimerManager C W} (hr : Round m now h m')
    (hh : h ∈ m.m_timers) (hexp : m.Expires rollover now h) (he : m.Ends rollover now) :
    m'.Ends rollover now ∧ (m'.dueTimers rollover now).card < (m.dueTimers rollover now).card := by
  -- put back, the timer is not due any more
  have hquiet (hh' : h ∈ m'.m_timers) : ¬ (rollover = true ∨ m.renewal now h ≤ now) := by
    intro hagain
    obtain ⟨hrec, hfree⟩ := hr.self.mp hh'
    obtain ⟨hlt, u, hu, hkey⟩ := he h hh ⟨hrec, hexp, hagain⟩
    refine hfree u hu (fun huh => ?_) hkey
    rw [huh] at hkey
    exact hlt.ne hkey
  refine ⟨fun t ht hret => ?_, Finset.card_lt_card ?_⟩
  · by_cases hth : t = h
    · subst hth
      refine absurd hret.2.1 ?_
      rw [Expires, hr.next_self ht]
      exact hquiet ht
    · have htm := ((hr.others t hth).1).mp ht
      obtain ⟨hlt, u, hu, hkey⟩ := he t htm ((hr.returns_iff hth).mp hret)
      rw [Dropped, hr.renewal_eq ht, hr.next_eq hth]
      have huh : u ≠ h := by
        rintro rfl
        exact absurd (hkey ▸ hlt) (hr.later t htm hth).not_gt
      exact ⟨hlt, u, ((hr.others u huh).1).mpr hu, (hr.next_eq huh).trans hkey⟩
  · rw [Finset.ssubset_iff_of_subset]
    · refine ⟨h, ?_, ?_⟩
      · simp only [dueTimers, Finset.mem_filter, List.mem_toFinset]
        exact ⟨hh, hexp⟩
      · simp only [dueTimers, Finset.mem_filter, List.mem_toFinset, not_and]
        intro hh'
        rw [Expires, hr.next_self hh']
        exact hquiet hh'
    · intro u hu
      simp only [dueTimers, Finset.mem_filter, List.mem_toFinset] at hu ⊢
      by_cases huh : u = h
      · exact huh ▸ ⟨hh, hexp⟩
      · rw [Expires, hr.next_eq huh] at hu
        exact ⟨((hr.others u huh).1).mp hu.1, hu.2⟩

/-- A timer that keeps a loop going keeps the rest of it going, or another one does. -/
theorem Round.not_ends {h : Nat} {m' : TimerManager C W} (hr : Round m now h m')
    (he : ¬ m.Ends rollover now) : ¬ m'.Ends rollover now := by
  rw [Ends] at he
  push Not at he
  obtain ⟨t, ht, hret, hdrop⟩ := he
  rw [Dropped, not_and_or, not_lt] at hdrop
  by_cases hth : t = h
  · -- the timer itself was taken out, and nothing keeps it from being put back
    subst hth
    have hself : t ∈ m'.m_timers := by
      refine hr.self.mpr ⟨hret.1, fun u hu hut hkey => ?_⟩
      rcases hdrop with hle | hnone
      · exact absurd (hr.later u hu hut) (not_lt.mpr (hkey ▸ hle))
      · exact hnone ⟨u, hu, hkey⟩
    intro he'
    refine absurd (he' t hself ⟨?_, ?_, ?_⟩).1 ?_
    · rw [hr.renewed hself]
      exact hret.1
    · rw [Expires, hr.next_self hself]
      exact hret.2.2
    · rw [hr.renewal_eq hself]
      exact hret.2.2
    · rw [hr.next_self hself, hr.renewal_eq hself]
      exact lt_irrefl _
  · have hself : t ∈ m'.m_timers := ((hr.others t hth).1).mpr ht
    intro he'
    obtain ⟨hlt, u, hu, hkey⟩ := he' t hself ((hr.returns_iff hth).mpr hret)
    rw [hr.renewal_eq hself] at hlt hkey
    rw [hr.next_eq hth] at hlt
    rcases hdrop with hle | hnone
    · exact absurd hlt (not_lt.mpr hle)
    · by_cases huh : u = h
      · -- the timer put back has taken the deadline, and stays due itself
        subst huh
        have hagain : rollover = true ∨ m'.next u ≤ now := hkey ▸ hret.2.2
        refine absurd (he' u hu ⟨?_, hagain, ?_⟩).1 ?_
        · rw [hr.renewed hu]
          exact (hr.self.mp hu).1
        · rw [hr.renewal_eq hu, ← hr.next_self hu]
          exact hagain
        · rw [hr.next_self hu, hr.renewal_eq hu]
          exact lt_irrefl _
      · refine hnone ⟨u, ((hr.others u huh).1).mp hu, ?_⟩
        rw [← hr.next_eq huh]
        exact hkey

theorem expireLoop_of_due {fuel : Nat} (hd : m.due rollover now = some t) :
    expireLoop rollover now (fuel + 1) m = (expireLoop rollover now fuel (m.expire now t)).map
      fun r => ((t, (m.timer t).m_cb) :: r.1, r.2) := by
  rw [expireLoop, hd]

theorem exists_expireLoop (hord : OrderedSet.Ordered m.next m.m_timers)
    (he : m.Ends rollover now) : ∃ fuel r, expireLoop rollover now fuel m = some r := by
  induction hn : (m.dueTimers rollover now).card using Nat.strong_induction_on generalizing m with
  | _ n ih =>
    rcases hd : m.due rollover now with _ | h
    · exact ⟨0, ([], m), by rw [expireLoop, hd]; rfl⟩
    · obtain ⟨hl, hexp⟩ := due_eq_some hd
      have hround := round_expire hord hd
      obtain ⟨he', hlt⟩ := hround.ends (hl ▸ List.mem_cons_self) hexp he
      obtain ⟨fuel, r, hloop⟩ := ih _ (hn ▸ hlt) hround.ordered he' rfl
      exact ⟨fuel + 1, _, by rw [expireLoop_of_due hd, hloop, Option.map_some]⟩

theorem expireLoop_eq_none (hord : OrderedSet.Ordered m.next m.m_timers)
    (he : ¬ m.Ends rollover now) (fuel : Nat) : expireLoop rollover now fuel m = none := by
  induction fuel generalizing m with
  | zero =>
    rw [Ends] at he
    push Not at he
    obtain ⟨t, ht, hret, -⟩ := he
    obtain ⟨h, hd⟩ := exists_due hord ht hret.2.1
    rw [expireLoop, hd]
    rfl
  | succ fuel ih =>
    have he' := he
    rw [Ends] at he'
    push Not at he'
    obtain ⟨t, ht, hret, -⟩ := he'
    obtain ⟨h, hd⟩ := exists_due hord ht hret.2.1
    have hround := round_expire hord hd
    rw [expireLoop_of_due hd, ih hround.ordered (hround.not_ends he), Option.map_none]

theorem listExpiredCb_eq_none {nowAgain : Int} (hord : OrderedSet.Ordered m.next m.m_timers)
    (he : ¬ m.Ends (m.detectClockRollover nowAgain).1 now) (fuel : Nat) :
    m.listExpiredCb fuel now nowAgain = none :=
  expireLoop_eq_none (m := (m.detectClockRollover nowAgain).2) hord he fuel

/-- **`listExpiredCb` terminates** exactly when `insert` drops every recurring timer that it
would take out twice. -/
theorem listExpiredCb_terminates_iff (m : TimerManager C W)
    (hord : OrderedSet.Ordered m.next m.m_timers) (now nowAgain : Int) :
    (∃ fuel r, m.listExpiredCb fuel now nowAgain = some r) ↔
      m.Ends (m.detectClockRollover nowAgain).1 now := by
  refine ⟨fun ⟨fuel, r, hloop⟩ => ?_,
    exists_expireLoop (m := (m.detectClockRollover nowAgain).2) hord⟩
  by_contra he
  exact Option.some_ne_none r (hloop.symm.trans (listExpiredCb_eq_none hord he fuel))

/-- One recurring timer of a second. -/
def secondly : TimerManager Unit Unit := addTimer {} 1000 none true 0

theorem listExpiredCb_terminates_secondly :
    ∃ fuel r, secondly.listExpiredCb fuel 1000000000 1000000000 = some r :=
  (listExpiredCb_terminates_iff secondly (List.pairwise_singleton _ _) _ _).mpr (by decide)

/-- The clock goes back by two hours; or the period is zero. -/
theorem listExpiredCb_never_ends :
    (∀ fuel, secondly.listExpiredCb fuel (-7200000000000) (-7200000000000) = none) ∧
      ∀ fuel, (addTimer ({} : TimerManager Unit Unit) 0 none true 0).listExpiredCb fuel 0 0 =
        none := by
  constructor <;> intro fuel <;> refine listExpiredCb_eq_none ?_ (by decide) fuel
  · exact List.pairwise_singleton _ _
  · exact List.pairwise_singleton _ _

end TimerManager
end Workplace.Coroutine
