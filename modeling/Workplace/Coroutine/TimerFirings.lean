import Workplace.Coroutine.TimerThreads
import Workplace.Lib.History

/-! When timers fire. Each timer counts its period from the time at which it was created,
refreshed, reset from now, or last fired; the calls of several threads on one timer may
overlap in any way. -/

namespace Workplace.Coroutine
open Workplace.Lib

inductive TimerEvent (C W : Type) where
  -- the period counts from `start`
  | started (t : Nat) (start : Int)
  -- `listExpiredCb`, which has read the time `now`, took the timer out
  | fired (t : Nat) (now : Int) (ms : UInt64) (recurring : Bool) (cb : Option (TimerCb C W))
  deriving DecidableEq

namespace TimerEvent
variable {C W : Type}

def subject : TimerEvent C W → Nat
  | .started t _ => t
  | .fired t _ _ _ _ => t

/-- The time from which the event makes the timer `t` count. -/
def starts (t : Nat) : TimerEvent C W → Option Int
  | .started u start => if u = t then some start else none
  | .fired u now _ recurring _ => if u = t ∧ recurring then some now else none

/-- The event hands out a callback of the timer `t`. -/
def Calls (t : Nat) : TimerEvent C W → Prop
  | .started _ _ => False
  | .fired u _ _ _ cb => u = t ∧ cb.isSome

/-- A timer fires no earlier than its period after the latest start, and a one-shot timer has
not handed out its callback before. -/
def Punctual (before : List (TimerEvent C W)) : TimerEvent C W → Prop
  | .started _ _ => True
  | .fired t now ms recurring cb =>
    (∃ start, latestOf (starts t) before = some start ∧ start + milliseconds ms ≤ now) ∧
      (recurring = false → cb.isSome → ∀ e ∈ before, ¬ e.Calls t)

theorem starts_of_ne {e : TimerEvent C W} {t : Nat} (h : e.subject ≠ t) : e.starts t = none := by
  cases e with
  | started u start => exact if_neg h
  | fired u now ms recurring cb => exact if_neg fun hu => h hu.1

theorem Calls.subject {e : TimerEvent C W} {t : Nat} (h : e.Calls t) : e.subject = t := by
  cases e with
  | started u start => exact h.elim
  | fired u now ms recurring cb => exact h.1

end TimerEvent

namespace TimerManager
variable {C W : Type} {m m' : TimerManager C W} {t u : Nat} {clock now : Int} {x : Timer C W}
  {log es : List (TimerEvent C W)}
open TimerEvent

/-- The time from which the timer counts its period. -/
def start (m : TimerManager C W) (t : Nat) : Int := m.next t - milliseconds (m.timer t).m_ms

/-- Every timer counts from the start that the history says, and a one-shot timer that has
fired has lost its callback. -/
structure OnTime (clock : Int) (m : TimerManager C W) (log : List (TimerEvent C W)) : Prop where
  previous : m.m_previouseTime ≤ clock
  members : ∀ t ∈ m.m_timers, t < m.created
  known : ∀ e ∈ log, e.subject < m.created
  start : ∀ t < m.created, latestOf (starts t) log = some (m.start t)
  unspent : ∀ t < m.created, (m.timer t).m_recurring = false → (m.timer t).m_cb.isSome →
    ∀ e ∈ log, ¬ e.Calls t
  punctual : EachAfter Punctual log

/-- A section that changes the set and the flags only. -/
theorem OnTime.of_timer (h : m.OnTime clock log) (ht : m'.timer = m.timer)
    (hc : m'.created = m.created) (hp : m'.m_previouseTime ≤ clock)
    (hm : ∀ t ∈ m'.m_timers, t < m.created) : m'.OnTime clock log := by
  refine ⟨hp, hc ▸ hm, hc ▸ h.known, hc ▸ fun t hlt => ?_, hc ▸ fun t hlt => ?_, h.punctual⟩
  · rw [h.start t hlt, TimerManager.start, TimerManager.start, next, next, ht]
  · rw [ht]
    exact h.unspent t hlt

theorem OnTime.insert (h : m.OnTime clock log) (ht : t < m.created) :
    (m.insert t).OnTime clock log := by
  refine h.of_timer rfl rfl h.previous fun u hu => ?_
  rcases OrderedSet.mem_of_mem_insert hu with rfl | hu
  · exact ht
  · exact h.members u hu

theorem OnTime.erase (h : m.OnTime clock log) (t : Nat) : (m.erase t).OnTime clock log :=
  h.of_timer rfl rfl h.previous fun u hu => h.members u (erase_subset m t hu)

/-- One timer becomes `x`, and the events that say so are its own. -/
theorem OnTime.set (h : m.OnTime clock log) (ht : t < m.created)
    (hsubject : ∀ e ∈ es, e.subject = t) (hok : EachAfter Punctual (log ++ es))
    (hstart : latestOf (starts t) (log ++ es) = some (x.m_next - milliseconds x.m_ms))
    (hrec : x.m_recurring = (m.timer t).m_recurring)
    (hcb : x.m_cb.isSome → (m.timer t).m_cb.isSome ∧
      (x.m_recurring = false → ∀ e ∈ es, ¬ e.Calls t)) :
    (m.set t x).OnTime clock (log ++ es) := by
  have hother : ∀ u, u ≠ t → ∀ e ∈ es, e.subject ≠ u := by
    intro u hu e he heq
    exact hu (heq.symm.trans (hsubject e he))
  refine ⟨h.previous, h.members, fun e he => ?_, fun u hu => ?_, fun u hu hr hc e he => ?_, hok⟩
  · rcases List.mem_append.mp he with he | he
    · exact h.known e he
    · exact hsubject e he ▸ ht
  · by_cases hut : u = t
    · rw [hut, hstart, TimerManager.start, next_set_self, set_timer_self]
    · rw [latestOf_append_of_none fun e he => starts_of_ne (hother u hut e he), h.start u hu,
        TimerManager.start, TimerManager.start, next_set_ne hut, set_timer_ne hut]
  · by_cases hut : u = t
    · subst hut
      rw [set_timer_self] at hr hc
      rcases List.mem_append.mp he with he | he
      · exact h.unspent u hu (hrec ▸ hr) (hcb hc).1 e he
      · exact (hcb hc).2 hr e he
    · rw [set_timer_ne hut] at hr hc
      rcases List.mem_append.mp he with he | he
      · exact h.unspent u hu hr hc e he
      · exact fun hcall => hother u hut e he hcall.subject

/-- The timer counts from where it did. -/
theorem OnTime.change (h : m.OnTime clock log) (ht : t < m.created)
    (hstart : x.m_next - milliseconds x.m_ms = m.start t)
    (hrec : x.m_recurring = (m.timer t).m_recurring)
    (hcb : x.m_cb.isSome → (m.timer t).m_cb.isSome) : (m.set t x).OnTime clock log := by
  have hset : (m.set t x).OnTime clock (log ++ []) :=
    h.set ht nofun ?_ ?_ hrec fun hc => ⟨hcb hc, fun _ => nofun⟩
  · rwa [List.append_nil] at hset
  · rw [List.append_nil]
    exact h.punctual
  · rw [List.append_nil, h.start t ht, hstart]

/-- The timer counts from `now` on. -/
theorem OnTime.restart (h : m.OnTime clock log) (ht : t < m.created)
    (hnext : x.m_next = now + milliseconds x.m_ms)
    (hrec : x.m_recurring = (m.timer t).m_recurring)
    (hcb : x.m_cb = (m.timer t).m_cb) : (m.set t x).OnTime clock (log ++ [.started t now]) := by
  refine h.set ht ?_ (h.punctual.concat trivial) ?_ hrec fun hc => ⟨hcb ▸ hc, fun _ => ?_⟩
  · intro e he
    rw [List.mem_singleton.mp he]
    rfl
  · have hx : x.m_next - milliseconds x.m_ms = now := by omega
    rw [hx]
    exact latestOf_concat (if_pos rfl)
  · intro e he
    rw [List.mem_singleton.mp he]
    exact id

theorem OnTime.create (h : m.OnTime clock log) (ms : UInt64) (cb : Option (TimerCb C W))
    (recurring : Bool) :
    (m.create ms cb recurring clock).OnTime clock (log ++ [.started m.created clock]) := by
  have hnone : ∀ e ∈ log, e.subject ≠ m.created := fun e he => (h.known e he).ne
  refine ⟨h.previous, fun u hu => (h.members u hu).trans (Nat.lt_succ_self _), fun e he => ?_,
    fun u hu => ?_, fun u hu hr hc e he => ?_, h.punctual.concat trivial⟩
  · rcases List.mem_append.mp he with he | he
    · exact (h.known e he).trans (Nat.lt_succ_self _)
    · rw [List.mem_singleton.mp he]
      exact Nat.lt_succ_self _
  · rcases Nat.lt_succ_iff_lt_or_eq.mp hu with hu | rfl
    · have hne : ∀ e ∈ [(.started m.created clock : TimerEvent C W)], e.starts u = none := by
        intro e he
        rw [List.mem_singleton.mp he]
        exact starts_of_ne hu.ne'
      rw [latestOf_append_of_none hne, h.start u hu]
      simp only [TimerManager.start, TimerManager.create, next, set_timer_ne hu.ne]
    · have hself : starts m.created (.started m.created clock : TimerEvent C W) = some clock :=
        if_pos rfl
      rw [latestOf_concat hself]
      simp [TimerManager.start, TimerManager.create, next]
  · rcases List.mem_append.mp he with he | he
    · rcases Nat.lt_succ_iff_lt_or_eq.mp hu with hu | rfl
      · simp only [TimerManager.create, set_timer_ne hu.ne] at hr hc
        exact h.unspent u hu hr hc e he
      · exact fun hcall => hnone e he hcall.subject
    · rw [List.mem_singleton.mp he]
      exact id

/-! ## The calls -/

theorem OnTime.cancel (h : m.OnTime clock log) (ht : t < m.created) :
    (m.cancel t).2.OnTime clock log := by
  rw [TimerManager.cancel]
  split_ifs
  · exact h
  · apply OnTime.erase
    exact h.change ht rfl rfl fun hc => absurd hc Bool.false_ne_true

theorem OnTime.refresh (h : m.OnTime clock log) (ht : t < m.created) :
    (m.refresh t now).2.OnTime clock
      (log ++ if (m.refresh t now).1 then [.started t now] else []) := by
  by_cases hcb : (m.timer t).m_cb.isNone
  · rw [TimerManager.refresh, if_pos hcb, if_neg Bool.false_ne_true, List.append_nil]
    exact h
  by_cases hfind : (m.find t).isNone
  · rw [TimerManager.refresh, if_neg hcb, if_pos hfind, if_neg Bool.false_ne_true,
      List.append_nil]
    exact h
  rw [TimerManager.refresh, if_neg hcb, if_neg hfind]
  apply OnTime.insert
  · exact (h.erase t).restart ht rfl rfl rfl
  · exact ht

theorem OnTime.resetErase (h : m.OnTime clock log) (hr : m.resetErase t = some m') :
    m'.OnTime clock log ∧ m'.created = m.created := by
  rw [TimerManager.resetErase] at hr
  split_ifs at hr
  obtain rfl := Option.some.inj hr
  exact ⟨h.erase t, rfl⟩

theorem OnTime.resetKey (h : m.OnTime clock log) (ht : t < m.created) (ms : UInt64)
    (from_now : Bool) : (m.resetKey t ms from_now now).OnTime clock
      (log ++ if from_now then [.started t now] else []) := by
  cases from_now with
  | true => exact h.restart ht rfl rfl rfl
  | false =>
    change OnTime clock _ (log ++ [])
    rw [List.append_nil]
    refine h.change ht ?_ rfl id
    change m.next t - milliseconds (m.timer t).m_ms + milliseconds ms - milliseconds ms = m.start t
    rw [TimerManager.start, add_sub_cancel_right]

theorem OnTime.insertTimer (h : m.OnTime clock log) (ht : t < m.created) :
    (m.insertTimer t).2.OnTime clock log ∧ (m.insertTimer t).2.created = m.created := by
  have hin := h.insert ht
  rw [TimerManager.insertTimer]
  split_ifs
  · exact ⟨hin.of_timer rfl rfl hin.previous hin.members, rfl⟩
  · exact ⟨hin, rfl⟩

theorem created_cancel (m : TimerManager C W) (t : Nat) : (m.cancel t).2.created = m.created := by
  rw [TimerManager.cancel]
  split_ifs <;> rfl

theorem created_refresh (m : TimerManager C W) (t : Nat) (now : Int) :
    (m.refresh t now).2.created = m.created := by
  rw [TimerManager.refresh]
  split_ifs <;> rfl

theorem created_listExpiredCb {fuel : Nat} {nowAgain : Int}
    {expired : List (Nat × Option (TimerCb C W))}
    (he : m.listExpiredCb fuel now nowAgain = some (expired, m')) : m'.created = m.created := by
  have hloop := expireLoop_induction (P := fun m _ m' => m'.created = m.created) (fun _ => rfl)
    (fun m t _ m' _ ih => ?_) he
  · exact hloop
  · rw [ih, TimerManager.expire]
    split_ifs <;> rfl

/-- What the loop keeps of every timer. -/
def Settings (m : TimerManager C W) (t : Nat) : UInt64 × Bool :=
  ((m.timer t).m_ms, (m.timer t).m_recurring)

theorem settings_set (hx : (x.m_ms, x.m_recurring) = m.Settings t) :
    (m.set t x).Settings = m.Settings := by
  funext u
  unfold Settings
  by_cases hut : u = t
  · rw [hut, set_timer_self]
    exact hx
  · rw [set_timer_ne hut]

theorem settings_expire (m : TimerManager C W) (now : Int) (t : Nat) :
    (m.expire now t).Settings = m.Settings := by
  rw [TimerManager.expire]
  split_ifs
  · exact settings_set (m := { m with m_timers := m.m_timers.tail }) rfl
  · exact settings_set (m := { m with m_timers := m.m_timers.tail }) rfl

/-- What the history keeps of a timer that was taken out. -/
def firing (m : TimerManager C W) (now : Int) (r : Nat × Option (TimerCb C W)) :
    TimerEvent C W := .fired r.1 now (m.timer r.1).m_ms (m.timer r.1).m_recurring r.2

theorem firing_congr (h : m'.Settings = m.Settings) : m'.firing now = m.firing now := by
  funext r
  have hr := Prod.mk.inj (congrFun h r.1)
  rw [firing, hr.1, hr.2, firing]

theorem OnTime.expire (h : m.OnTime clock log) (hd : m.due false now = some t) :
    (m.expire now t).OnTime clock (log ++ [m.firing now (t, (m.timer t).m_cb)]) := by
  obtain ⟨hl, hexp⟩ := due_eq_some hd
  have ht : t < m.created := h.members t (hl ▸ List.mem_cons_self)
  have hdue : m.next t ≤ now := hexp.resolve_left Bool.false_ne_true
  have hout : ({ m with m_timers := m.m_timers.tail } : TimerManager C W).OnTime clock log :=
    h.of_timer rfl rfl h.previous fun u hu => h.members u (List.tail_subset _ hu)
  have hok : EachAfter Punctual (log ++ [m.firing now (t, (m.timer t).m_cb)]) := by
    refine h.punctual.concat ⟨⟨m.start t, h.start t ht, ?_⟩, h.unspent t ht⟩
    change m.next t - milliseconds (m.timer t).m_ms + milliseconds (m.timer t).m_ms ≤ now
    rwa [sub_add_cancel]
  have hsubject : ∀ e ∈ [m.firing now (t, (m.timer t).m_cb)], e.subject = t := by
    intro e he
    rw [List.mem_singleton.mp he]
    rfl
  rw [TimerManager.expire]
  split_ifs with hrec
  · apply OnTime.insert
    · refine hout.set ht hsubject hok ?_ rfl fun hc => ⟨hc, fun hr => ?_⟩
      · rw [add_sub_cancel_right]
        exact latestOf_concat (if_pos ⟨rfl, hrec⟩)
      · exact absurd (hrec.symm.trans hr) (by decide)
    · exact ht
  · refine hout.set ht hsubject hok ?_ rfl fun hc => absurd hc Bool.false_ne_true
    have hnone : ∀ e ∈ [m.firing now (t, (m.timer t).m_cb)], e.starts t = none := by
      intro e he
      rw [List.mem_singleton.mp he]
      exact if_neg fun hu => hrec hu.2
    rw [latestOf_append_of_none hnone, h.start t ht, TimerManager.start, next]

theorem OnTime.expireLoop (h : m.OnTime clock log) {fuel : Nat}
    {expired : List (Nat × Option (TimerCb C W))}
    (he : m.expireLoop false now fuel = some (expired, m')) :
    m'.OnTime clock (log ++ expired.map (m.firing now)) := by
  refine expireLoop_induction (P := fun m expired m' => ∀ log, m.OnTime clock log →
    m'.OnTime clock (log ++ expired.map (m.firing now))) ?_ ?_ he log h
  · intro m log h
    rwa [List.map_nil, List.append_nil]
  · intro m t expired m' hd ih log h
    have hrest := ih _ (h.expire hd)
    rwa [firing_congr (settings_expire m now t), List.append_assoc, List.singleton_append,
      ← List.map_cons] at hrest

theorem OnTime.listExpiredCb (h : m.OnTime clock log) {fuel : Nat}
    {expired : List (Nat × Option (TimerCb C W))}
    (he : m.listExpiredCb fuel now clock = some (expired, m')) :
    m'.OnTime clock (log ++ expired.map (m.firing now)) := by
  have hms : (0 : Int) ≤ milliseconds (60 * 60 * 1000) := by decide
  have hno : ¬ clock < m.m_previouseTime - milliseconds (60 * 60 * 1000) := by
    have := h.previous
    omega
  simp only [TimerManager.listExpiredCb, detectClockRollover, hno, decide_false] at he
  have hread : ({ m with m_previouseTime := clock } : TimerManager C W).OnTime clock log :=
    h.of_timer rfl rfl (le_refl clock) h.members
  exact hread.expireLoop he

end TimerManager

/-! ## Every interleaving -/

/-- What the step adds to the history. -/
def TimerThreads.events {C W : Type} (s : TimerThreads C W) : TimerAct C W → List (TimerEvent C W)
  | .addTimer _ _ _ _ => [.started s.manager.created s.clock]
  | .refresh _ t => if (s.manager.refresh t s.clock).1 then [.started t s.clock] else []
  | .resetKey u =>
    match s.pc u with
    | .resetting t _ from_now => if from_now then [.started t s.clock] else []
    | _ => []
  | .listExpiredCb u fuel =>
    match s.pc u with
    | .expiring now =>
      ((s.manager.listExpiredCb fuel now s.clock).map Prod.fst).getD [] |>.map
        (s.manager.firing now)
    | _ => []
  | _ => []

/-- The threads and the history of their timers. -/
structure WatchedTimers (C W : Type) where
  threads : TimerThreads C W
  log : List (TimerEvent C W) := []

namespace WatchedTimers
variable {C W : Type} {w w' : WatchedTimers C W} {u t : Nat} {a : TimerAct C W}
open TimerThreads

def step (w : WatchedTimers C W) (a : TimerAct C W) : Option (WatchedTimers C W) :=
  (w.threads.step a).map fun s => { threads := s, log := w.log ++ w.threads.events a }

structure OnTime (w : WatchedTimers C W) : Prop where
  manager : w.threads.manager.OnTime w.threads.clock w.log
  outside : ∀ {u t}, (w.threads.pc u).outside = some t → t < w.threads.manager.created

theorem onTime_init (now : Int) : OnTime ({ threads := init now } : WatchedTimers C W) :=
  ⟨⟨le_refl now, nofun, nofun, nofun, nofun, eachAfter_nil⟩, nofun⟩

/-- A thread leaves the manager as `m` and goes on at `p`. -/
theorem OnTime.goOn (h : w.OnTime) {m : TimerManager C W} {es : List (TimerEvent C W)}
    (hm : m.OnTime w.threads.clock (w.log ++ es)) (hc : w.threads.manager.created ≤ m.created)
    {p : TimerPc} (hp : ∀ {t}, p.outside = some t → t < m.created) :
    OnTime { threads := w.threads.goOn u m p, log := w.log ++ es } := by
  refine ⟨hm, fun {v t} hv => ?_⟩
  by_cases hvu : v = u
  · rw [hvu, goOn_pc_self] at hv
    exact hp hv
  · rw [goOn_pc_ne hvu] at hv
    exact (h.outside hv).trans_le hc

theorem OnTime.step (h : w.OnTime) (hs : w.step a = some w') : w'.OnTime := by
  obtain ⟨s, hs₁, rfl⟩ := Option.map_eq_some_iff.mp hs
  have hkept : w.threads.manager.OnTime w.threads.clock (w.log ++ []) := by
    rw [List.append_nil]
    exact h.manager
  cases a with
  | tick d =>
    obtain rfl := Option.some.inj hs₁
    have hle : w.threads.clock ≤ w.threads.clock + d := by omega
    exact ⟨{ hkept with previous := hkept.previous.trans hle }, h.outside⟩
  | addTimer u ms cb recurring =>
    obtain ⟨-, rfl⟩ := addTimer_of_step hs₁
    refine h.goOn (h.manager.create ms cb recurring) (Nat.le_succ _) fun ht => ?_
    exact Option.some.inj ht ▸ Nat.lt_succ_self _
  | insert u =>
    obtain ⟨t, hu, hcases⟩ := insert_of_step hs₁
    obtain ⟨hm, hc⟩ := hkept.insertTimer (h.outside (congrArg TimerPc.outside hu))
    rcases hcases with ⟨-, rfl⟩ | ⟨-, rfl⟩
    · have hon := h.goOn (u := u) (p := .tickling t w.threads.decided) hm hc.ge nofun
      exact ⟨hon.manager, hon.outside⟩
    · exact h.goOn hm hc.ge nofun
  | tickle u =>
    obtain ⟨t, i, -, rfl⟩ := tickle_of_step hs₁
    have hm : w.threads.manager.onTimerInsertedAtFront.OnTime w.threads.clock (w.log ++ []) :=
      hkept.of_timer rfl rfl hkept.previous hkept.members
    have hon := h.goOn (u := u) (p := .out) hm (le_refl _) nofun
    exact ⟨hon.manager, hon.outside⟩
  | cancel u t =>
    obtain ⟨hu, rfl⟩ := cancel_of_step hs₁
    exact h.goOn (hkept.cancel hu.2) (TimerManager.created_cancel _ _).ge nofun
  | refresh u t =>
    obtain ⟨hu, rfl⟩ := refresh_of_step hs₁
    exact h.goOn (h.manager.refresh hu.2) (TimerManager.created_refresh _ _ _).ge nofun
  | reset u t ms from_now =>
    obtain ⟨hu, rfl | ⟨m, -, hr, rfl⟩⟩ := reset_of_step hs₁
    · exact h.goOn hkept (le_refl _) nofun
    · obtain ⟨hm, hc⟩ := hkept.resetErase hr
      refine h.goOn hm hc.ge fun ht => ?_
      rw [hc]
      exact Option.some.inj ht ▸ hu.2
  | resetKey u =>
    obtain ⟨t, ms, from_now, hu, rfl⟩ := resetKey_of_step hs₁
    have ht := h.outside (congrArg TimerPc.outside hu)
    have hevents : w.threads.events (.resetKey u) =
        if from_now then [.started t w.threads.clock] else [] := by
      simp only [events, hu]
    rw [hevents]
    exact h.goOn (h.manager.resetKey ht ms from_now) (le_refl _) fun ht' =>
      Option.some.inj ht' ▸ ht
  | readClock u =>
    obtain ⟨-, rfl⟩ := readClock_of_step hs₁
    exact h.goOn hkept (le_refl _) nofun
  | listExpiredCb u fuel =>
    obtain ⟨now, expired, m, hu, he, rfl⟩ := listExpiredCb_of_step hs₁
    have hevents : w.threads.events (.listExpiredCb u fuel) =
        expired.map (w.threads.manager.firing now) := by
      simp only [events, hu, he, Option.map_some, Option.getD_some]
    have hm := h.manager.listExpiredCb he
    rw [← hevents] at hm
    exact h.goOn hm (TimerManager.created_listExpiredCb he).ge nofun
  | getNextTimer u =>
    obtain ⟨-, rfl⟩ := getNextTimer_of_step hs₁
    rw [TimerManager.getNextTimer_snd]
    have hm : ({ w.threads.manager with m_tickled := false } : TimerManager C W).OnTime
        w.threads.clock (w.log ++ []) := hkept.of_timer rfl rfl hkept.previous hkept.members
    exact h.goOn hm (le_refl _) nofun
  | wake u =>
    obtain ⟨wake, since, -, rfl⟩ := wake_of_step hs₁
    exact h.goOn hkept (le_refl _) nofun

/-- **No timer fires early or twice.** In every interleaving of the calls of any threads, also
of calls on one and the same timer, and with a clock that does not go back: when a timer fires,
its period has passed since the last time it was created, refreshed, reset from now or fired,
and a one-shot timer hands its callback out at most once. -/
theorem fires_punctually {now₀ : Int} {acts : List (TimerAct C W)}
    (hrun : run step { threads := init now₀ } acts = some w) {before after : List (TimerEvent C W)}
    {t : Nat} {now : Int} {ms : UInt64} {recurring : Bool} {cb : Option (TimerCb C W)}
    (hlog : w.log = before ++ .fired t now ms recurring cb :: after) :
    (∃ start, latestOf (TimerEvent.starts t) before = some start ∧ start + milliseconds ms ≤ now) ∧
      (recurring = false → cb.isSome → ∀ e ∈ before, ¬ e.Calls t) := by
  have h : w.OnTime := run_invariant_of_step acts (fun hinv hs => hinv.step hs)
    (onTime_init now₀) hrun
  exact h.manager.punctual before _ after hlog

/-- A recurring timer of 5 ms fires after 6 ms and is reset to 3 ms, which count from then. -/
theorem fires_punctually_reset :
    let acts : List (TimerAct Unit Unit) := [.addTimer 0 5 (some (.function ())) true, .insert 0,
      .tickle 0, .tick 6000000, .readClock 1, .listExpiredCb 1 1, .reset 0 0 3 false,
      .resetKey 0, .insert 0, .tick 3000000, .readClock 1, .listExpiredCb 1 1]
    let before : List (TimerEvent Unit Unit) :=
      [.started 0 0, .fired 0 6000000 5 true (some (.function ()))]
    ∃ w, run step { threads := init 0 } acts = some w ∧
      ∃ start, latestOf (TimerEvent.starts 0) before = some start ∧
        start + milliseconds 3 ≤ 9000000 := by
  intro acts before
  have hlog : (run step { threads := init 0 } acts).map WatchedTimers.log =
      some (before ++ [.fired 0 9000000 3 true (some (.function ()))]) := by decide
  obtain ⟨w, hrun, hw⟩ := Option.map_eq_some_iff.mp hlog
  exact ⟨w, hrun, (fires_punctually hrun hw).1⟩

end WatchedTimers
end Workplace.Coroutine
