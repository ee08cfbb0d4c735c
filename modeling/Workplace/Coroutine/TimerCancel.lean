import Workplace.Coroutine.TimerThreads

/-! Timers that are cancelled while another thread resets them. `reset` gives the lock back
between taking the timer out of the set and putting it in again, and does not look at the
callback a second time. The system clock may be set back here at any step. -/

namespace Workplace.Coroutine
open Workplace.Lib

namespace TimerManager
variable {C W : Type} {m m' m'' : TimerManager C W} {t x : Nat} {now : Int} {own : Set Nat}

/-! ## What the locked sections leave -/

/-- The set is in order, and holds created timers that have their callback. -/
structure Sound (m : TimerManager C W) : Prop where
  ordered : OrderedSet.Ordered m.next m.m_timers
  created : ∀ t ∈ m.m_timers, t < m.created
  armed : ∀ t ∈ m.m_timers, (m.timer t).m_cb.isSome

/-- A section that, of the timers that are out of the set, changes at most `own`. -/
structure Touches (own : Set Nat) (m m' : TimerManager C W) : Prop where
  sound : m'.Sound
  created : m.created ≤ m'.created
  others : ∀ x < m.created, x ∉ m.m_timers → x ∉ own →
    x ∉ m'.m_timers ∧ (m'.timer x).m_cb = (m.timer x).m_cb

theorem Touches.refl (h : m.Sound) : Touches own m m := ⟨h, le_refl _, fun _ _ hx _ => ⟨hx, rfl⟩⟩

theorem Touches.trans (h : Touches own m m') (h' : Touches own m' m'') : Touches own m m'' := by
  refine ⟨h'.sound, h.created.trans h'.created, fun x hx hout hown => ?_⟩
  obtain ⟨hout', hcb⟩ := h.others x hx hout hown
  obtain ⟨hout'', hcb'⟩ := h'.others x (hx.trans_le h.created) hout' hown
  exact ⟨hout'', hcb'.trans hcb⟩

theorem Touches.mono {own' : Set Nat} (h : Touches own m m') (hle : own ⊆ own') :
    Touches own' m m' :=
  { h with others := fun x hx hout hown => h.others x hx hout fun hin => hown (hle hin) }

/-- A timer that was in the set is none of those that were out of it. -/
theorem Touches.of_mem (h : Touches {t} m m') (ht : t ∈ m.m_timers) : Touches own m m' :=
  { h with others := fun x hx hout _ => h.others x hx hout fun he => hout (he ▸ ht) }

theorem Sound.flags (h : m.Sound) (b : Bool) (n : Nat) :
    Touches own m { m with m_tickled := b, insertedAtFront := n } :=
  ⟨⟨h.ordered, h.created, h.armed⟩, le_refl _, fun _ _ hx _ => ⟨hx, rfl⟩⟩

theorem Sound.subset (h : m.Sound) {timers : List Nat} (hsub : timers.Sublist m.m_timers) :
    Touches own m { m with m_timers := timers } := by
  refine ⟨⟨List.Pairwise.sublist hsub h.ordered, fun x hx => h.created x (hsub.subset hx),
    fun x hx => h.armed x (hsub.subset hx)⟩, le_refl _, fun x _ hout _ => ⟨?_, rfl⟩⟩
  exact fun hin => hout (hsub.subset hin)

theorem Sound.erase (h : m.Sound) (t : Nat) : Touches own m (m.erase t) :=
  h.subset (OrderedSet.erase_sublist _ _)

theorem Sound.not_mem_erase (h : m.Sound) (t : Nat) : t ∉ (m.erase t).m_timers := fun ht =>
  ((OrderedSet.mem_erase h.ordered).mp ht).2 rfl

theorem Sound.set (h : m.Sound) (hout : t ∉ m.m_timers) (y : Timer C W) :
    Touches {t} m (m.set t y) := by
  have hne : ∀ x ∈ m.m_timers, x ≠ t := fun x hx he => hout (he ▸ hx)
  refine ⟨⟨h.ordered.congr fun x hx => next_set_ne (hne x hx), h.created, fun x hx => ?_⟩,
    le_refl _, fun x _ hx hxt => ⟨hx, ?_⟩⟩
  · rw [set_timer_ne (hne x hx)]
    exact h.armed x hx
  · rw [set_timer_ne hxt]

theorem Sound.insert (h : m.Sound) (ht : t < m.created) (hcb : (m.timer t).m_cb.isSome) :
    Touches {t} m (m.insert t) := by
  have hmem : ∀ x ∈ (m.insert t).m_timers, x = t ∨ x ∈ m.m_timers := fun x =>
    OrderedSet.mem_of_mem_insert
  refine ⟨⟨h.ordered.insert t, fun x hx => ?_, fun x hx => ?_⟩, le_refl _,
    fun x _ hout hxt => ⟨fun hx => ?_, rfl⟩⟩
  · rcases hmem x hx with rfl | hx
    · exact ht
    · exact h.created x hx
  · rcases hmem x hx with rfl | hx
    · exact hcb
    · exact h.armed x hx
  · rcases hmem x hx with rfl | hx
    · exact hxt rfl
    · exact hout hx

/-- A timer that is out of the set gets its next deadline and comes into it. -/
theorem Sound.put (h : m.Sound) (ht : t < m.created) (hout : t ∉ m.m_timers) {y : Timer C W}
    (hcb : y.m_cb.isSome) : Touches {t} m ((m.set t y).insert t) := by
  have hset := h.set hout y
  refine hset.trans (hset.sound.insert ht ?_)
  rw [set_timer_self]
  exact hcb

theorem Sound.create (h : m.Sound) (ms : UInt64) (cb : Option (TimerCb C W)) (recurring : Bool)
    (now : Int) : Touches ∅ m (m.create ms cb recurring now) := by
  have hne : ∀ x, x < m.created → x ≠ m.created := fun _ hx => hx.ne
  have htimer : ∀ x, x < m.created → (m.create ms cb recurring now).timer x = m.timer x :=
    fun x hx => set_timer_ne (hne x hx)
  refine ⟨⟨h.ordered.congr fun x hx => ?_, fun x hx => ?_, fun x hx => ?_⟩, Nat.le_succ _,
    fun x hx hout _ => ⟨hout, ?_⟩⟩
  · exact congrArg Timer.m_next (htimer x (h.created x hx))
  · exact (h.created x hx).trans (Nat.lt_succ_self _)
  · rw [htimer x (h.created x hx)]
    exact h.armed x hx
  · rw [htimer x hx]

theorem Sound.cancel (h : m.Sound) (t : Nat) : Touches {t} m (m.cancel t).2 := by
  rw [TimerManager.cancel]
  split_ifs
  · exact .refl h
  · set m₁ := m.set t { m.timer t with m_cb := none }
    have hnext : m₁.next = m.next := next_set_of_eq rfl
    have hord : OrderedSet.Ordered m₁.next m₁.m_timers := by
      rw [hnext]
      exact h.ordered
    have hmem : ∀ x ∈ (m₁.erase t).m_timers, x ∈ m.m_timers ∧ x ≠ t := by
      intro x hx
      obtain ⟨hin, hkey⟩ := (OrderedSet.mem_erase hord).mp hx
      exact ⟨hin, fun he => hkey (he ▸ rfl)⟩
    have htimer : ∀ x, x ≠ t → (m₁.erase t).timer x = m.timer x := fun x hx => set_timer_ne hx
    refine ⟨⟨hord.erase _, fun x hx => h.created x (hmem x hx).1, fun x hx => ?_⟩, le_refl _,
      fun x _ hout hxt => ⟨fun hx => hout (hmem x hx).1, ?_⟩⟩
    · rw [htimer x (hmem x hx).2]
      exact h.armed x (hmem x hx).1
    · rw [htimer x hxt]

/-- The test that `refresh` and `reset` make first. -/
def Found (m : TimerManager C W) (t : Nat) : Prop :=
  (m.timer t).m_cb.isSome ∧ (m.find t).isSome

theorem found_of_not_isNone (hcb : ¬ (m.timer t).m_cb.isNone) (hfind : ¬ (m.find t).isNone) :
    m.Found t := by
  rw [Bool.not_eq_true, Option.isNone_eq_false_iff] at hcb hfind
  exact ⟨hcb, hfind⟩

theorem Sound.refresh (h : m.Sound) (ht : t < m.created) (now : Int) :
    (m.refresh t now).2 = m ∨ m.Found t ∧ Touches {t} m (m.refresh t now).2 := by
  rw [TimerManager.refresh]
  split_ifs with hcb hfind
  · exact .inl rfl
  · exact .inl rfl
  · have hfound := found_of_not_isNone hcb hfind
    have herase : Touches {t} m (m.erase t) := h.erase t
    exact .inr ⟨hfound, herase.trans (herase.sound.put ht (h.not_mem_erase t) hfound.1)⟩

theorem Sound.resetErase (h : m.Sound) (hr : m.resetErase t = some m') :
    m.Found t ∧ Touches ∅ m m' ∧ t ∉ m'.m_timers ∧ m'.timer = m.timer := by
  rw [TimerManager.resetErase] at hr
  split_ifs at hr with hcb hfind
  obtain rfl := Option.some.inj hr
  exact ⟨found_of_not_isNone hcb hfind, h.erase t, h.not_mem_erase t, rfl⟩

theorem Sound.insertTimer (h : m.Sound) (ht : t < m.created) (hcb : (m.timer t).m_cb.isSome) :
    Touches {t} m (m.insertTimer t).2 := by
  have hins := h.insert ht hcb
  rw [TimerManager.insertTimer]
  simp only [Bool.and_eq_true, Bool.not_eq_true']
  split_ifs
  · exact ⟨⟨hins.sound.ordered, hins.sound.created, hins.sound.armed⟩, hins.created, hins.others⟩
  · exact hins

theorem Sound.expire {rollover : Bool} (h : m.Sound) (hd : m.due rollover now = some t) :
    Touches ∅ m (m.expire now t) := by
  obtain ⟨hl, -⟩ := due_eq_some hd
  have ht : t ∈ m.m_timers := hl ▸ List.mem_cons_self
  have hout : t ∉ m.m_timers.tail := by
    have hnodup := h.ordered.nodup
    rw [hl] at hnodup
    exact (List.nodup_cons.mp hnodup).1
  have htail : Touches {t} m { m with m_timers := m.m_timers.tail } :=
    h.subset (List.tail_sublist _)
  rw [TimerManager.expire]
  split_ifs
  · have hput := htail.sound.put (h.created t ht) hout (h.armed t ht)
      (y := { m.timer t with m_next := now + milliseconds (m.timer t).m_ms })
    exact (htail.trans hput).of_mem ht
  · exact (htail.trans (htail.sound.set hout _)).of_mem ht

theorem Sound.expireLoop {rollover : Bool} {fuel : Nat}
    {expired : List (Nat × Option (TimerCb C W))} (h : m.Sound)
    (he : expireLoop rollover now fuel m = some (expired, m')) : Touches ∅ m m' := by
  refine expireLoop_induction (P := fun m _ m' => m.Sound → Touches ∅ m m') ?_ ?_ he h
  · exact fun _ => .refl
  · intro m t _ m' hd ih h
    have hround := h.expire hd
    exact hround.trans (ih hround.sound)

theorem Sound.listExpiredCb (h : m.Sound) {nowAgain : Int} {fuel : Nat}
    {expired : List (Nat × Option (TimerCb C W))}
    (he : m.listExpiredCb fuel now nowAgain = some (expired, m')) : Touches ∅ m m' := by
  have hm : Touches ∅ m { m with m_previouseTime := nowAgain } :=
    ⟨⟨h.ordered, h.created, h.armed⟩, le_refl _, fun _ _ hx _ => ⟨hx, rfl⟩⟩
  exact hm.trans (hm.sound.expireLoop he)

end TimerManager

namespace TimerThreads
variable {C W : Type} {s s' : TimerThreads C W} {u v t : Nat} {a : TimerAct C W} {own : Set Nat}

/-! ## What a step can do -/

/-- A step at the time that the system clock shows for it. -/
def stepAt (s : TimerThreads C W) (a : Int × TimerAct C W) : Option (TimerThreads C W) :=
  ({ s with clock := a.1 } : TimerThreads C W).step a.2

/-- Every timer has its callback, in the set or with the one call that is to put it there. -/
structure Armed (s : TimerThreads C W) : Prop where
  manager : s.manager.Sound
  outside : ∀ {u t}, (s.pc u).outside = some t →
    t < s.manager.created ∧ t ∉ s.manager.m_timers ∧ (s.manager.timer t).m_cb.isSome
  apart : ∀ {u v t}, (s.pc u).outside = some t → (s.pc v).outside = some t → u = v

/-- No call on the timer has yet to put it into the set. -/
def Inside (s : TimerThreads C W) (t : Nat) : Prop := ∀ v, (s.pc v).outside ≠ some t

/-- The calls that take effect keep away from a timer that is between the two sections of a
`reset`, and timers are added with a callback. -/
def KeepsAway (s : TimerThreads C W) : TimerAct C W → Prop
  | .addTimer _ _ cb _ => cb.isSome
  | .cancel _ t => (s.manager.timer t).m_cb.isSome → s.Inside t
  | .refresh _ t => s.manager.Found t → s.Inside t
  | .reset _ t ms from_now => ¬ s.manager.ResetIdle t ms from_now → s.manager.Found t → s.Inside t
  | _ => True

/-- `s'` comes after `s`, with every timer that has no callback left where it was. -/
structure Follows (s s' : TimerThreads C W) : Prop where
  armed : s'.Armed
  touches : ∃ own : Set Nat, TimerManager.Touches own s.manager s'.manager ∧
    ∀ t ∈ own, (s.manager.timer t).m_cb.isSome

theorem Armed.turn (h : s.Armed) {m : TimerManager C W} {p : TimerPc}
    (hm : TimerManager.Touches own s.manager m)
    (hown : ∀ t ∈ own, (s.manager.timer t).m_cb.isSome ∧
      ∀ v, v ≠ u → (s.pc v).outside ≠ some t)
    (hp : ∀ t, p.outside = some t → t < m.created ∧ t ∉ m.m_timers ∧ (m.timer t).m_cb.isSome ∧
      ∀ v, v ≠ u → (s.pc v).outside ≠ some t) : s.Follows (s.goOn u m p) := by
  refine ⟨⟨hm.sound, fun {v t} hv => ?_, apart_goOn h.apart fun ht => (hp _ ht).2.2.2⟩, own, hm,
    fun t ht => (hown t ht).1⟩
  by_cases hvu : v = u
  · rw [hvu, goOn_pc_self] at hv
    obtain ⟨hc, hout, hcb, -⟩ := hp t hv
    exact ⟨hc, hout, hcb⟩
  · rw [goOn_pc_ne hvu] at hv
    obtain ⟨hc, hout, hcb⟩ := h.outside hv
    obtain ⟨hout', hcb'⟩ := hm.others t hc hout fun hin => (hown t hin).2 v hvu hv
    exact ⟨hc.trans_le hm.created, hout', (congrArg Option.isSome hcb').trans hcb⟩

theorem Armed.turn_empty (h : s.Armed) {m : TimerManager C W} {p : TimerPc}
    (hm : TimerManager.Touches ∅ s.manager m)
    (hp : ∀ t, p.outside = some t → t < m.created ∧ t ∉ m.m_timers ∧ (m.timer t).m_cb.isSome ∧
      ∀ v, v ≠ u → (s.pc v).outside ≠ some t) : s.Follows (s.goOn u m p) :=
  h.turn hm (fun _ ht => absurd ht (Set.notMem_empty _)) hp

theorem Armed.turn_none (h : s.Armed) {m : TimerManager C W} {p : TimerPc}
    (hm : TimerManager.Touches ∅ s.manager m) (hp : p.outside = none) :
    s.Follows (s.goOn u m p) := h.turn_empty hm fun t ht => by simp [hp] at ht

theorem Armed.stays (h : s.Armed) {p : TimerPc} (hp : p.outside = none) :
    s.Follows (s.goOn u s.manager p) := h.turn_none (.refl h.manager) hp

theorem Armed.turn_own (h : s.Armed) {m : TimerManager C W} {p : TimerPc}
    (hm : TimerManager.Touches {t} s.manager m) (hcb : (s.manager.timer t).m_cb.isSome)
    (hin : ∀ v, v ≠ u → (s.pc v).outside ≠ some t)
    (hp : ∀ x, p.outside = some x → x = t ∧ t < m.created ∧ t ∉ m.m_timers ∧
      (m.timer t).m_cb.isSome) : s.Follows (s.goOn u m p) := by
  refine h.turn hm (fun x hx => Set.mem_singleton_iff.mp hx ▸ ⟨hcb, hin⟩) fun x hx => ?_
  obtain ⟨rfl, hc, hout, hcb'⟩ := hp x hx
  exact ⟨hc, hout, hcb', hin⟩

theorem Armed.turn_back (h : s.Armed) {m : TimerManager C W} {p : TimerPc}
    (hm : TimerManager.Touches {t} s.manager m) (hcb : (s.manager.timer t).m_cb.isSome)
    (hin : ∀ v, v ≠ u → (s.pc v).outside ≠ some t) (hp : p.outside = none) :
    s.Follows (s.goOn u m p) :=
  h.turn_own hm hcb hin fun x hx => by simp [hp] at hx

theorem Armed.follows_insert (h : s.Armed) (hs : s.step (.insert u) = some s') :
    s.Follows s' := by
  obtain ⟨t, hu, hcases⟩ := insert_of_step hs
  have hout : (s.pc u).outside = some t := congrArg TimerPc.outside hu
  obtain ⟨hc, -, hcb⟩ := h.outside hout
  have hin : ∀ v, v ≠ u → (s.pc v).outside ≠ some t := fun v hv ht => hv (h.apart ht hout)
  have hm := h.manager.insertTimer hc hcb
  rcases hcases with ⟨-, rfl⟩ | ⟨-, rfl⟩
  · obtain ⟨harmed, htouches⟩ := h.turn_back (p := .tickling t s.decided) hm hcb hin rfl
    exact ⟨⟨harmed.manager, harmed.outside, harmed.apart⟩, htouches⟩
  · exact h.turn_back hm hcb hin rfl

theorem Armed.follows_reset (h : s.Armed) {ms : UInt64} {from_now : Bool}
    (hg : s.KeepsAway (.reset u t ms from_now))
    (hs : s.step (.reset u t ms from_now) = some s') : s.Follows s' := by
  obtain ⟨hu, rfl | ⟨m, hidle, hr, rfl⟩⟩ := reset_of_step hs
  · exact h.stays rfl
  · obtain ⟨hfound, hm, hout, htimer⟩ := h.manager.resetErase hr
    have hin : s.Inside t := hg hidle hfound
    refine h.turn_empty hm fun x hx => ?_
    obtain rfl := Option.some.inj hx
    refine ⟨hu.2.trans_le hm.created, hout, ?_, fun v _ => hin v⟩
    rw [htimer]
    exact hfound.1

theorem Armed.follows_resetKey (h : s.Armed) {ms : UInt64} {from_now : Bool}
    (hu : s.pc u = .resetting t ms from_now) :
    s.Follows (s.goOn u (s.manager.resetKey t ms from_now s.clock) (.adding t)) := by
  have hout : (s.pc u).outside = some t := congrArg TimerPc.outside hu
  obtain ⟨hc, hnot, hcb⟩ := h.outside hout
  refine h.turn_own (h.manager.set hnot _) hcb (fun v hv ht => hv (h.apart ht hout)) fun x hx => ?_
  obtain rfl := Option.some.inj hx
  refine ⟨rfl, hc, hnot, ?_⟩
  rw [TimerManager.resetKey, TimerManager.set_timer_self]
  exact hcb

theorem Armed.follows_of_step (h : s.Armed) (hg : s.KeepsAway a) (hs : s.step a = some s') :
    s.Follows s' := by
  cases a with
  | tick d =>
    obtain rfl := Option.some.inj hs
    exact ⟨⟨h.manager, h.outside, h.apart⟩, ∅, .refl h.manager,
      fun _ ht => absurd ht (Set.notMem_empty _)⟩
  | addTimer u ms cb recurring =>
    obtain ⟨-, rfl⟩ := addTimer_of_step hs
    refine h.turn_empty (h.manager.create ms cb recurring s.clock) fun x hx => ?_
    obtain rfl := Option.some.inj hx
    refine ⟨Nat.lt_succ_self _, fun hin => (h.manager.created _ hin).ne rfl, ?_, fun v _ hv => ?_⟩
    · have hcb : cb.isSome := hg
      simpa [TimerManager.create] using hcb
    · exact (h.outside hv).1.ne rfl
  | insert u => exact h.follows_insert hs
  | tickle u =>
    obtain ⟨t, i, -, rfl⟩ := tickle_of_step hs
    obtain ⟨harmed, htouches⟩ := h.turn_none (u := u) (p := .out)
      (h.manager.flags s.manager.m_tickled (s.manager.insertedAtFront + 1)) rfl
    exact ⟨⟨harmed.manager, harmed.outside, harmed.apart⟩, htouches⟩
  | cancel u t =>
    obtain ⟨-, rfl⟩ := cancel_of_step hs
    cases hcb : (s.manager.timer t).m_cb with
    | none =>
      rw [TimerManager.cancel_of_isNone (by simp [hcb])]
      exact h.stays rfl
    | some cb =>
      have hin : s.Inside t := hg (by simp [hcb])
      exact h.turn_back (h.manager.cancel t) (by simp [hcb]) (fun v _ => hin v) rfl
  | refresh u t =>
    obtain ⟨hu, rfl⟩ := refresh_of_step hs
    rcases h.manager.refresh hu.2 s.clock with heq | ⟨hfound, hm⟩
    · rw [heq]
      exact h.stays rfl
    · exact h.turn_back hm hfound.1 (fun v _ => hg hfound v) rfl
  | reset u t ms from_now => exact h.follows_reset hg hs
  | resetKey u =>
    obtain ⟨t, ms, from_now, hu, rfl⟩ := resetKey_of_step hs
    exact h.follows_resetKey hu
  | readClock u =>
    obtain ⟨-, rfl⟩ := readClock_of_step hs
    exact h.stays rfl
  | listExpiredCb u fuel =>
    obtain ⟨now, expired, m, -, he, rfl⟩ := listExpiredCb_of_step hs
    exact h.turn_none (h.manager.listExpiredCb he) rfl
  | getNextTimer u =>
    obtain ⟨-, rfl⟩ := getNextTimer_of_step hs
    rw [TimerManager.getNextTimer_snd]
    exact h.turn_none (h.manager.flags false s.manager.insertedAtFront) rfl
  | wake u =>
    obtain ⟨wake, since, -, rfl⟩ := wake_of_step hs
    exact h.stays rfl

/-! ## Runs -/

theorem Armed.follows_of_stepAt {a : Int × TimerAct C W} (h : s.Armed) (hg : s.KeepsAway a.2)
    (hs : s.stepAt a = some s') : s.Follows s' := by
  have hclock : ({ s with clock := a.1 } : TimerThreads C W).Armed :=
    ⟨h.manager, h.outside, h.apart⟩
  obtain ⟨harmed, htouches⟩ := hclock.follows_of_step hg hs
  exact ⟨harmed, htouches⟩

/-- The timer has lost its callback: it was cancelled, or has run for the last time. -/
def Disarmed (s : TimerThreads C W) (t : Nat) : Prop :=
  t < s.manager.created ∧ (s.manager.timer t).m_cb = none

theorem Armed.not_mem_of_disarmed (h : s.Armed) (ht : s.Disarmed t) : t ∉ s.manager.m_timers := by
  intro hin
  have hcb := h.manager.armed t hin
  rw [ht.2] at hcb
  cases hcb

theorem Follows.disarmed (h : s.Armed) (hf : s.Follows s') (ht : s.Disarmed t) :
    s'.Disarmed t := by
  obtain ⟨own, hm, hown⟩ := hf.touches
  have hnot : t ∉ own := by
    intro hin
    have hcb := hown t hin
    rw [ht.2] at hcb
    cases hcb
  have hcb := (hm.others t ht.1 (h.not_mem_of_disarmed ht) hnot).2
  exact ⟨ht.1.trans_le hm.created, hcb.trans ht.2⟩

theorem disarmed_cancel (hs : s.step (.cancel u t) = some s')
    (hret : (s.manager.cancel t).1 = true) : s'.Disarmed t := by
  obtain ⟨hu, rfl⟩ := cancel_of_step hs
  rw [TimerManager.cancel] at hret
  split_ifs at hret with hcb
  refine ⟨?_, ?_⟩
  · rw [goOn, TimerManager.cancel, if_neg hcb]
    exact hu.2
  · rw [goOn, TimerManager.cancel, if_neg hcb]
    exact congrArg Timer.m_cb TimerManager.set_timer_self

/-- Every timer of the set has its callback, and none of them has been cancelled in the run. -/
structure StaysCancelled (now : Int) (acts : List (Int × TimerAct C W)) (s : TimerThreads C W) :
    Prop where
  callback : ∀ t ∈ s.manager.m_timers, (s.manager.timer t).m_cb.isSome
  cancelled : ∀ before after s₁ time u t, acts = before ++ (time, .cancel u t) :: after →
    run stepAt (init now) before = some s₁ → (s₁.manager.cancel t).1 = true →
      t ∉ s.manager.m_timers

theorem armed_init (now : Int) : (init now : TimerThreads C W).Armed :=
  ⟨⟨List.Pairwise.nil, nofun, nofun⟩, nofun, nofun⟩

theorem Armed.run {acts : List (Int × TimerAct C W)} (h : s.Armed)
    (hg : Guarded (fun s a => s.KeepsAway a.2) stepAt s acts)
    (hrun : run stepAt s acts = some s') : s'.Armed :=
  run_invariant acts (fun h hg hs => (h.follows_of_stepAt hg hs).armed) h hg hrun

theorem Disarmed.run {acts : List (Int × TimerAct C W)} (ht : s.Disarmed t) (h : s.Armed)
    (hg : Guarded (fun s a => s.KeepsAway a.2) stepAt s acts)
    (hrun : run stepAt s acts = some s') : s'.Disarmed t := by
  have hstep : ∀ {s : TimerThreads C W} {a s'}, s.Armed ∧ s.Disarmed t → s.KeepsAway a.2 →
      s.stepAt a = some s' → s'.Armed ∧ s'.Disarmed t := by
    intro s a s' h hg hs
    have hf := h.1.follows_of_stepAt hg hs
    exact ⟨hf.armed, hf.disarmed h.1 h.2⟩
  exact (run_invariant acts hstep ⟨h, ht⟩ hg hrun).2

/-- **A cancelled timer stays cancelled**, as long as no call that takes effect falls between
the two sections of a `reset` of the same timer. -/
theorem stays_cancelled {now : Int} {acts : List (Int × TimerAct C W)}
    (hg : Guarded (fun s a => s.KeepsAway a.2) stepAt (init now) acts)
    (hrun : run stepAt (init now) acts = some s) : StaysCancelled now acts s := by
  have hend : s.Armed := (armed_init now).run hg hrun
  refine ⟨hend.manager.armed, ?_⟩
  rintro before after s₁ time u t rfl hbefore hret
  rw [run_append, hbefore, Option.bind_some] at hrun
  obtain ⟨s₂, hcancel, hafter⟩ := run_cons hrun
  have hg₁ := hg.of_append hbefore
  have hs₁ : s₁.Armed := (armed_init now).run hg.left hbefore
  have hs₂ : s₂.Armed := (hs₁.follows_of_stepAt hg₁.1 hcancel).armed
  have hdisarmed : s₂.Disarmed t := disarmed_cancel hcancel hret
  exact hend.not_mem_of_disarmed (hdisarmed.run hs₂ (hg₁.2 s₂ hcancel) hafter)

/-- A `refresh` falls into the gap of a `reset` and finds nothing; the timer is cancelled
when the `reset` is over. -/
theorem stays_cancelled_after_reset :
    let acts : List (Int × TimerAct Unit Unit) :=
      [(0, .addTimer 0 50 (some (.function ())) true), (0, .insert 0), (0, .tickle 0),
        (7, .reset 1 0 100 true), (8, .refresh 0 0), (9, .resetKey 1), (5, .insert 1),
        (6, .cancel 0 0), (6, .refresh 1 0)]
    ∃ s₁ s, run stepAt (init 0) (acts.take 7) = some s₁ ∧ run stepAt (init 0) acts = some s ∧
      s₁.manager.m_timers = [0] ∧ (s₁.manager.cancel 0).1 = true ∧ 0 ∉ s.manager.m_timers := by
  intro acts
  have hg : Guarded (fun s a => s.KeepsAway a.2) stepAt (init 0) acts := by
    refine .of_step rfl rfl (.of_step trivial rfl (.of_step trivial rfl (.of_step ?_ rfl
      (.of_step ?_ rfl (.of_step trivial rfl (.of_step trivial rfl (.of_step ?_ rfl
        (.of_step ?_ rfl trivial))))))))
    · intro _ _ v
      match v with
      | 0 => exact nofun
      | v + 1 => exact nofun
    · intro hfound
      exact absurd hfound.2 (by decide)
    · intro _ v
      match v with
      | 0 => exact nofun
      | 1 => exact nofun
      | v + 2 => exact nofun
    · intro hfound
      exact absurd hfound.1 (by decide)
  obtain ⟨s₁, h₁⟩ : ∃ s₁, run stepAt (init 0) (acts.take 7) = some s₁ :=
    Option.isSome_iff_exists.mp (by decide)
  obtain ⟨s, hrun⟩ : ∃ s, run stepAt (init 0) acts = some s :=
    Option.isSome_iff_exists.mp (by decide)
  have hs₁ : (run stepAt (init 0) (acts.take 7)).map (fun s =>
      (s.manager.m_timers, (s.manager.cancel 0).1)) = some ([0], true) := by decide
  rw [h₁, Option.map_some, Option.some.injEq, Prod.mk.injEq] at hs₁
  exact ⟨s₁, s, h₁, hrun, hs₁.1, hs₁.2,
    (stays_cancelled hg hrun).cancelled (acts.take 7) _ s₁ 6 0 0 rfl h₁ hs₁.2⟩

/-- `cancel` falls into the gap of a `reset`, which then puts the timer back. -/
theorem cancelled_comes_back : ¬ ∀ (now : Int) (acts : List (Int × TimerAct Unit Unit))
    (s : TimerThreads Unit Unit),
    (∀ time u ms cb recurring, (time, .addTimer u ms cb recurring) ∈ acts → cb.isSome) →
      run stepAt (init now) acts = some s → StaysCancelled now acts s := by
  intro h
  let before : List (Int × TimerAct Unit Unit) :=
    [(0, .addTimer 0 50 (some (.function ())) false), (0, .insert 0), (0, .tickle 0),
      (7, .reset 1 0 100 true)]
  let acts := before ++ [(8, .cancel 0 0), (9, .resetKey 1), (9, .insert 1)]
  obtain ⟨s₁, h₁⟩ : ∃ s₁, run stepAt (init 0) before = some s₁ :=
    Option.isSome_iff_exists.mp (by decide)
  obtain ⟨s, hrun⟩ : ∃ s, run stepAt (init 0) acts = some s :=
    Option.isSome_iff_exists.mp (by decide)
  have hret : (run stepAt (init 0) before).map (fun s => (s.manager.cancel 0).1) = some true := by
    decide
  have hend : (run stepAt (init 0) acts).map (fun s => s.manager.m_timers) = some [0] := by decide
  rw [h₁, Option.map_some, Option.some.injEq] at hret
  rw [hrun, Option.map_some, Option.some.injEq] at hend
  have hcb : ∀ time u ms cb recurring, (time, .addTimer u ms cb recurring) ∈ acts → cb.isSome := by
    intro time u ms cb recurring hmem
    simp only [acts, before, List.mem_append, List.mem_cons, Prod.mk.injEq, TimerAct.addTimer.injEq,
      reduceCtorEq, and_false, List.not_mem_nil, or_false] at hmem
    rw [hmem.2.2.2.1]
    rfl
  have hnot := (h 0 acts s hcb hrun).cancelled before _ s₁ 8 0 0 rfl h₁ hret
  rw [hend] at hnot
  exact hnot List.mem_cons_self

end TimerThreads
end Workplace.Coroutine
