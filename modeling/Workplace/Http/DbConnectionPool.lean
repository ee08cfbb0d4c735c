import Workplace.Lib.Custody
import Workplace.Lib.Runs

/-! `DbConnectionPool` under several threads: `getConnection` with the handles it returns, and
the loop of the thread that checks the connections. A call is cut where it takes and releases
`mutex_`, and where it waits for the database to answer. -/

namespace Workplace.Http
open Workplace.Lib

/-- Where a thread is in `getConnection`. -/
inductive CallPc where
  | out
  -- in `cv_.wait`
  | waiting
  -- `conn` is out of the queue, in `ping`
  | checking (conn : Nat)
  | reconnecting (conn : Nat)
  -- in the `catch`
  | failed (conn : Nat)
  deriving DecidableEq, Repr

/-- Where the thread of `checkConnections` is. -/
inductive CheckPc where
  | sleeping
  -- at the head of the loop
  | checking (connsToCheck : List Nat)
  | pinging (conn : Nat) (connsToCheck : List Nat)
  | reconnecting (conn : Nat) (connsToCheck : List Nat)
  deriving DecidableEq, Repr

/-- The pool and its threads. A connection is known by the order of its creation, a handle by
the order in which it was returned. -/
structure DbConnectionPool where
  connections_ : List Nat := []
  initialized_ : Bool := false
  calls : Nat → CallPc := fun _ => .out
  -- the connection of a handle that has not been destroyed
  handles : Nat → Option Nat := fun _ => none
  returned : Nat := 0
  checkThread_ : CheckPc := .sleeping

/-- A step of the thread `u`, of the owner of the handle `h`, or of the checking thread. -/
inductive PoolAct where
  | getConnection (u : Nat)
  | wake (u : Nat)
  | ping (u : Nat) (answer : Bool)
  | reconnect (u : Nat) (succeeds : Bool)
  | rethrow (u : Nat)
  | destroy (h : Nat)
  | snapshot
  | checkNext
  | checkPing (answer : Bool)
  | checkReconnect (succeeds : Bool)
  | checkSleep
  deriving DecidableEq, Repr

/-- The connection that the call has taken out of the queue. -/
def CallPc.conn : CallPc → Option Nat
  | .out | .waiting => none
  | .checking conn | .reconnecting conn | .failed conn => some conn

/-- The connection that `ping` or `reconnect` is run on. -/
def CheckPc.inUse : CheckPc → Option Nat
  | .sleeping | .checking _ => none
  | .pinging conn _ | .reconnecting conn _ => some conn

/-- The connections of the snapshot that the checking thread is not done with. -/
def CheckPc.pending : CheckPc → List Nat
  | .sleeping => []
  | .checking connsToCheck => connsToCheck
  | .pinging conn connsToCheck | .reconnecting conn connsToCheck => conn :: connsToCheck

/-- The thread whose call of `getConnection` returns a handle. -/
def PoolAct.lends : PoolAct → Option Nat
  | .ping u true | .reconnect u true => some u
  | _ => none

namespace DbConnectionPool

/-! ## The source -/

def push (s : DbConnectionPool) (conn : Nat) : DbConnectionPool :=
  { s with connections_ := s.connections_ ++ [conn] }

/-- `init`, when it creates all its connections. -/
def init (poolSize : Nat) : DbConnectionPool :=
  { (List.range poolSize).foldl push {} with initialized_ := true }

def goOn (s : DbConnectionPool) (u : Nat) (p : CallPc) : DbConnectionPool :=
  { s with calls := Function.update s.calls u p }

/-- The locked section of `getConnection`, from the test of its `while` on. -/
def popFront (s : DbConnectionPool) (u : Nat) : DbConnectionPool :=
  match s.connections_ with
  -- without a pool to wait for, the call throws
  | [] => s.goOn u (if s.initialized_ then .waiting else .out)
  | conn :: rest => { s with connections_ := rest }.goOn u (.checking conn)

/-- `getConnection` returns a handle, whose deleter holds the connection. -/
def lend (s : DbConnectionPool) (u conn : Nat) : DbConnectionPool :=
  { s.goOn u .out with
    handles := Function.update s.handles s.returned (some conn), returned := s.returned + 1 }

def step (s : DbConnectionPool) : PoolAct → Option DbConnectionPool
  | .getConnection u => if s.calls u = .out then some (s.popFront u) else none
  | .wake u => if s.calls u = .waiting then some (s.popFront u) else none
  | .ping u answer =>
    match s.calls u with
    | .checking conn => some (if answer then s.lend u conn else s.goOn u (.reconnecting conn))
    | _ => none
  | .reconnect u succeeds =>
    match s.calls u with
    | .reconnecting conn => some (if succeeds then s.lend u conn else s.goOn u (.failed conn))
    | _ => none
  | .rethrow u =>
    match s.calls u with
    | .failed conn => some ((s.push conn).goOn u .out)
    | _ => none
  | .destroy h =>
    match s.handles h with
    | some conn => some { s.push conn with handles := Function.update s.handles h none }
    | none => none
  | .snapshot =>
    match s.checkThread_ with
    | .sleeping =>
      if s.connections_.isEmpty then some s
      else some { s with checkThread_ := .checking s.connections_ }
    | _ => none
  | .checkNext =>
    match s.checkThread_ with
    | .checking (conn :: rest) => some { s with checkThread_ := .pinging conn rest }
    | _ => none
  | .checkPing answer =>
    match s.checkThread_ with
    | .pinging conn rest =>
      some { s with checkThread_ := if answer then .checking rest else .reconnecting conn rest }
    | _ => none
  -- what `reconnect` throws here is caught
  | .checkReconnect _ =>
    match s.checkThread_ with
    | .reconnecting _ rest => some { s with checkThread_ := .checking rest }
    | _ => none
  | .checkSleep =>
    match s.checkThread_ with
    | .checking [] => some { s with checkThread_ := .sleeping }
    | _ => none

/-! ## What a step can do -/

variable {s s' : DbConnectionPool} {a : PoolAct} {n u h conn : Nat}

/-- The steps by what they move. -/
inductive Effect (s : DbConnectionPool) (a : PoolAct) : DbConnectionPool → Prop
  | turn (u : Nat) (p : CallPc) (hp : p.conn = (s.calls u).conn) : Effect s a (s.goOn u p)
  | pop (u conn : Nat) (rest : List Nat) (hu : (s.calls u).conn = none)
      (hc : s.connections_ = conn :: rest) :
      Effect s a ({ s with connections_ := rest }.goOn u (.checking conn))
  | lend (u conn : Nat) (hu : (s.calls u).conn = some conn) (ha : a.lends = some u) :
      Effect s a (s.lend u conn)
  | rethrow (u conn : Nat) (hu : (s.calls u).conn = some conn) :
      Effect s a ((s.push conn).goOn u .out)
  | destroy (h conn : Nat) (hh : s.handles h = some conn) :
      Effect s a { s.push conn with handles := Function.update s.handles h none }
  | check (p : CheckPc)
      (hp : p.pending ⊆ s.checkThread_.pending ∨ p.pending ⊆ s.connections_) :
      Effect s a { s with checkThread_ := p }

theorem effect_popFront (hu : (s.calls u).conn = none) : Effect s a (s.popFront u) := by
  rw [popFront]
  cases hc : s.connections_ with
  | nil =>
    refine .turn u _ ?_
    rw [hu]
    split_ifs <;> rfl
  | cons conn rest => exact .pop u conn rest hu hc

theorem effect_of_step (hs : s.step a = some s') : Effect s a s' := by
  cases a with
  | getConnection u =>
    simp only [step] at hs
    split_ifs at hs with hu
    obtain rfl := Option.some.inj hs
    exact effect_popFront (congrArg CallPc.conn hu)
  | wake u =>
    simp only [step] at hs
    split_ifs at hs with hu
    obtain rfl := Option.some.inj hs
    exact effect_popFront (congrArg CallPc.conn hu)
  | ping u answer =>
    cases hu : s.calls u with
    | checking conn =>
      have hconn : (s.calls u).conn = some conn := congrArg CallPc.conn hu
      simp only [step, hu] at hs
      obtain rfl := Option.some.inj hs
      cases answer with
      | true => exact .lend u conn hconn rfl
      | false => exact .turn u _ hconn.symm
    | _ => simp [step, hu] at hs
  | reconnect u succeeds =>
    cases hu : s.calls u with
    | reconnecting conn =>
      have hconn : (s.calls u).conn = some conn := congrArg CallPc.conn hu
      simp only [step, hu] at hs
      obtain rfl := Option.some.inj hs
      cases succeeds with
      | true => exact .lend u conn hconn rfl
      | false => exact .turn u _ hconn.symm
    | _ => simp [step, hu] at hs
  | rethrow u =>
    cases hu : s.calls u with
    | failed conn =>
      simp only [step, hu] at hs
      obtain rfl := Option.some.inj hs
      exact .rethrow u conn (congrArg CallPc.conn hu)
    | _ => simp [step, hu] at hs
  | destroy h =>
    cases hh : s.handles h with
    | some conn =>
      simp only [step, hh] at hs
      obtain rfl := Option.some.inj hs
      exact .destroy h conn hh
    | none => simp [step, hh] at hs
  | snapshot =>
    cases hc : s.checkThread_ with
    | sleeping =>
      simp only [step, hc] at hs
      split_ifs at hs
      · obtain rfl := Option.some.inj hs
        exact .check s.checkThread_ (.inl (List.Subset.refl _))
      · obtain rfl := Option.some.inj hs
        exact .check _ (.inr (List.Subset.refl _))
    | _ => simp [step, hc] at hs
  | checkNext =>
    match hc : s.checkThread_ with
    | .checking (conn :: rest) =>
      simp only [step, hc] at hs
      obtain rfl := Option.some.inj hs
      exact .check _ (.inl (by rw [hc]; exact List.Subset.refl _))
    | .checking [] | .sleeping | .pinging _ _ | .reconnecting _ _ => simp [step, hc] at hs
  | checkPing answer =>
    cases hc : s.checkThread_ with
    | pinging conn rest =>
      simp only [step, hc] at hs
      obtain rfl := Option.some.inj hs
      refine .check _ (.inl ?_)
      rw [hc]
      cases answer with
      | true => exact List.subset_cons_self conn rest
      | false => exact List.Subset.refl _
    | _ => simp [step, hc] at hs
  | checkReconnect succeeds =>
    cases hc : s.checkThread_ with
    | reconnecting conn rest =>
      simp only [step, hc] at hs
      obtain rfl := Option.some.inj hs
      exact .check _ (.inl (by rw [hc]; exact List.subset_cons_self conn rest))
    | _ => simp [step, hc] at hs
  | checkSleep =>
    match hc : s.checkThread_ with
    | .checking [] =>
      simp only [step, hc] at hs
      obtain rfl := Option.some.inj hs
      exact .check _ (.inl (List.nil_subset _))
    | .checking (_ :: _) | .sleeping | .pinging _ _ | .reconnecting _ _ => simp [step, hc] at hs

/-! ## Who has a connection -/

/-- A call of `getConnection` that is under way, or a borrower. -/
inductive Keeper where
  | call (u : Nat)
  | handle (h : Nat)
  deriving DecidableEq, Repr

def custody (s : DbConnectionPool) : Custody Keeper Nat where
  idle := s.connections_
  holds
    | .call u => (s.calls u).conn
    | .handle h => s.handles h

/-- Only handles that were returned are there to be destroyed. -/
def Fresh (s : DbConnectionPool) : Prop := ∀ h, s.returned ≤ h → s.handles h = none

theorem holds_goOn (s : DbConnectionPool) (u : Nat) (p : CallPc) :
    (s.goOn u p).custody.holds = Function.update s.custody.holds (.call u) p.conn := by
  funext k
  cases k with
  | call v =>
    by_cases hv : v = u
    · subst hv
      simp [custody, goOn]
    · simp [custody, goOn, hv]
  | handle h => simp [custody, goOn]

theorem holds_handles (s : DbConnectionPool) (h : Nat) (o : Option Nat) :
    ({ s with handles := Function.update s.handles h o } : DbConnectionPool).custody.holds =
      Function.update s.custody.holds (.handle h) o := by
  funext k
  cases k with
  | call v => simp [custody]
  | handle h' =>
    by_cases hh : h' = h
    · subst hh
      simp [custody]
    · simp [custody, hh]

theorem Effect.moves (he : Effect s a s') (hf : s.Fresh) : s.custody.Moves s'.custody := by
  cases he with
  | turn u p hp =>
    have heq : (s.goOn u p).custody.holds = s.custody.holds := by
      rw [holds_goOn, hp]
      exact Function.update_eq_self _ _
    rw [show (s.goOn u p).custody = s.custody from congrArg (Custody.mk s.connections_) heq]
    exact .stay
  | pop u conn rest hu hc =>
    have hidle : s.custody.idle = conn :: rest := hc
    have heq : ({ s with connections_ := rest }.goOn u (.checking conn)).custody =
        s.custody.take (.call u) := by
      rw [Custody.take, hidle]
      exact congrArg (Custody.mk rest) (holds_goOn _ u _)
    rw [heq]
    exact .take _ hu
  | lend u conn hu ha =>
    have heq : (s.lend u conn).custody = s.custody.pass (.call u) (.handle s.returned) := by
      have hholds : s.custody.holds (.call u) = some conn := hu
      have hout : (s.goOn u .out).custody.holds =
          Function.update s.custody.holds (.call u) none := holds_goOn s u .out
      rw [Custody.pass, hholds, ← hout]
      exact congrArg (Custody.mk s.connections_) (holds_handles (s.goOn u .out) s.returned _)
    rw [heq]
    exact .pass _ _ (hf s.returned (le_refl _))
  | rethrow u conn hu =>
    have heq : ((s.push conn).goOn u .out).custody = s.custody.giveBack (.call u) := by
      have hholds : s.custody.holds (.call u) = some conn := hu
      rw [Custody.giveBack, hholds]
      exact congrArg (Custody.mk _) (holds_goOn (s.push conn) u .out)
    rw [heq]
    exact .giveBack _
  | destroy h conn hh =>
    have heq : ({ s.push conn with handles := Function.update s.handles h none } :
        DbConnectionPool).custody = s.custody.giveBack (.handle h) := by
      have hholds : s.custody.holds (.handle h) = some conn := hh
      rw [Custody.giveBack, hholds]
      exact congrArg (Custody.mk _) (holds_handles (s.push conn) h none)
    rw [heq]
    exact .giveBack _
  | check p hp => exact .stay

theorem Effect.fresh (he : Effect s a s') (hf : s.Fresh) : s'.Fresh := by
  cases he with
  | lend u conn hu ha =>
    intro h hle
    have hlt : s.returned < h := hle
    exact (Function.update_of_ne hlt.ne' _ _).trans (hf h hlt.le)
  | destroy h conn hh =>
    intro h' hle
    by_cases heq : h' = h
    · exact heq ▸ Function.update_self _ _ _
    · exact (Function.update_of_ne heq _ _).trans (hf h' hle)
  | turn | pop | rethrow | check => exact hf

theorem foldl_push (s : DbConnectionPool) (conns : List Nat) :
    conns.foldl push s = { s with connections_ := s.connections_ ++ conns } := by
  induction conns generalizing s with
  | nil => rw [List.append_nil, List.foldl_nil]
  | cons conn conns ih =>
    rw [List.foldl_cons, ih, push, List.append_assoc, List.singleton_append]

theorem conserves_init (n : Nat) : (init n).custody.Conserves {c | c < n} := by
  have hidle : (init n).custody.idle = List.range n := by
    change ((List.range n).foldl push {}).connections_ = List.range n
    rw [foldl_push, List.nil_append]
  have hholds : ∀ k, (init n).custody.holds k = none := by
    intro k
    rw [init, foldl_push]
    cases k <;> rfl
  refine ⟨?_, fun hk => ?_, fun hk => ?_, fun c => ?_⟩
  · rw [hidle]
    exact List.nodup_range
  · rw [hholds] at hk
    cases hk
  · rw [hholds] at hk
    cases hk
  · simp [hidle, hholds]

theorem fresh_init (n : Nat) : (init n).Fresh := by
  intro h _
  rw [init, foldl_push]

/-- The `n` connections of the pool are kept, each at one place. -/
structure Kept (n : Nat) (s : DbConnectionPool) : Prop where
  fresh : s.Fresh
  conserves : s.custody.Conserves {c | c < n}

theorem Kept.step (h : Kept n s) (hs : s.step a = some s') : Kept n s' := by
  have he := effect_of_step hs
  exact ⟨he.fresh h.fresh, h.conserves.moves (he.moves h.fresh)⟩

theorem kept_init (n : Nat) : Kept n (init n) := ⟨fresh_init n, conserves_init n⟩

/-- **No connection is lost, and none is in two places.** The places are those of the queue,
the calls that are under way, and the handles. -/
theorem connection_at_one_place {acts : List PoolAct} (hrun : run step (init n) acts = some s) :
    (∀ c < n, ∃! p, s.custody.At c p) ∧ ∀ c p, s.custody.At c p → c < n := by
  have hkept : Kept n s := run_invariant_of_step acts Kept.step (kept_init n) hrun
  exact ⟨fun c hc => hkept.conserves.existsUnique_at hc,
    fun c p hp => hkept.conserves.mem_of_at hp⟩

/-- One connection is lent, and the other one comes back since it cannot be reconnected. -/
theorem connection_at_one_place_failing :
    let acts : List PoolAct := [.getConnection 0, .getConnection 1, .ping 1 false, .ping 0 true,
      .reconnect 1 false, .getConnection 2, .rethrow 1]
    ∃ s, run step (init 2) acts = some s ∧ (∃! p, s.custody.At 0 p) ∧
      s.custody.At 1 (.idle 0) ∧ s.calls 2 = .waiting := by
  intro acts
  obtain ⟨s, hrun⟩ : ∃ s, run step (init 2) acts = some s :=
    Option.isSome_iff_exists.mp (by decide)
  have hend : (run step (init 2) acts).map (fun s => (s.connections_, s.calls 2)) =
      some ([1], .waiting) := by decide
  rw [hrun, Option.map_some, Option.some.injEq, Prod.mk.injEq] at hend
  have hidle : s.custody.At 1 (.idle 0) := congrArg (fun l => l[0]?) hend.1
  exact ⟨s, hrun, (connection_at_one_place hrun).1 0 (by decide), hidle, hend.2⟩

/-! ## The checking thread -/

/-- No connection is lent that the checking thread has in its snapshot and is not done with. -/
def SnapshotSpared (s : DbConnectionPool) (a : PoolAct) : Prop :=
  ∀ u conn, a.lends = some u → (s.calls u).conn = some conn → conn ∉ s.checkThread_.pending

def Apart (s : DbConnectionPool) : Prop :=
  ∀ h conn, s.handles h = some conn → conn ∉ s.checkThread_.pending

theorem Apart.step (h : s.Apart) (hc : s.custody.Conserves {c | c < n})
    (hg : s.SnapshotSpared a) (he : Effect s a s') : s'.Apart := by
  cases he with
  | turn | pop | rethrow => exact h
  | lend u conn hu ha =>
    intro k conn' hk
    rcases Custody.holds_update hk with ⟨-, heq⟩ | ⟨-, hold⟩
    · obtain rfl := Option.some.inj heq
      exact hg u conn ha hu
    · exact h k conn' hold
  | destroy k conn hk =>
    intro k' conn' hk'
    rcases Custody.holds_update hk' with ⟨-, heq⟩ | ⟨-, hold⟩
    · cases heq
    · exact h k' conn' hold
  | check p hp =>
    intro k conn hk hin
    rcases hp with hsub | hsub
    · exact h k conn hk (hsub hin)
    · -- the snapshot is taken of idle connections
      have hheld : s.custody.holds (.handle k) = some conn := hk
      exact hc.apart hheld (hsub hin)

theorem CheckPc.mem_pending {p : CheckPc} (h : p.inUse = some conn) : conn ∈ p.pending := by
  cases p with
  | pinging c rest | reconnecting c rest =>
    obtain rfl := Option.some.inj h
    exact List.mem_cons_self
  | sleeping | checking rest => cases h

/-- **Exclusive use.** -/
theorem checker_uses_no_lent {acts : List PoolAct}
    (hg : Guarded SnapshotSpared step (init n) acts) (hrun : run step (init n) acts = some s)
    (hconn : s.checkThread_.inUse = some conn) (h : Nat) : s.handles h ≠ some conn := by
  have hstep : ∀ {s : DbConnectionPool} {a s'}, Kept n s ∧ s.Apart → s.SnapshotSpared a →
      s.step a = some s' → Kept n s' ∧ s'.Apart := by
    intro s a s' h hg hs
    exact ⟨h.1.step hs, h.2.step h.1.conserves hg (effect_of_step hs)⟩
  have h0 : (init n).Apart := by
    intro h conn hh
    rw [fresh_init n h (by rw [init, foldl_push]; exact Nat.zero_le h)] at hh
    cases hh
  have hapart : s.Apart := (run_invariant acts hstep ⟨kept_init n, h0⟩ hg hrun).2
  exact fun hh => hapart h conn hh (CheckPc.mem_pending hconn)

/-- The checking thread pings the connection that was idle when it took its snapshot. -/
theorem checker_uses_no_lent_idle :
    let acts : List PoolAct :=
      [.getConnection 0, .ping 0 true, .snapshot, .getConnection 1, .checkNext]
    ∃ s, run step (init 2) acts = some s ∧ s.checkThread_.inUse = some 1 ∧
      s.handles 0 = some 0 ∧ ∀ h, s.handles h ≠ some 1 := by
  intro acts
  obtain ⟨s, hrun⟩ : ∃ s, run step (init 2) acts = some s :=
    Option.isSome_iff_exists.mp (by decide)
  have hend : (run step (init 2) acts).map (fun s => (s.checkThread_.inUse, s.handles 0)) =
      some (some 1, some 0) := by decide
  rw [hrun, Option.map_some, Option.some.injEq, Prod.mk.injEq] at hend
  have hg : Guarded SnapshotSpared step (init 2) acts := by
    refine .of_step nofun rfl (.of_step ?_ rfl (.of_step nofun rfl (.of_step nofun rfl
      (.of_step nofun rfl trivial))))
    exact fun _ _ _ _ hin => nomatch hin
  exact ⟨s, hrun, hend.1, hend.2, checker_uses_no_lent hg hrun hend.1⟩

/-- The connection is lent after the snapshot, and pinged by the checking thread then. -/
theorem checker_pings_lent : ¬ ∀ (n : Nat) (acts : List PoolAct) (s : DbConnectionPool)
    (conn h : Nat), run step (init n) acts = some s → s.checkThread_.inUse = some conn →
      s.handles h ≠ some conn := by
  intro hall
  let acts : List PoolAct := [.snapshot, .getConnection 0, .ping 0 true, .checkNext]
  obtain ⟨s, hrun⟩ : ∃ s, run step (init 1) acts = some s :=
    Option.isSome_iff_exists.mp (by decide)
  have hend : (run step (init 1) acts).map (fun s => (s.checkThread_.inUse, s.handles 0)) =
      some (some 0, some 0) := by decide
  rw [hrun, Option.map_some, Option.some.injEq, Prod.mk.injEq] at hend
  exact hall 1 acts s 0 0 hrun hend.1 hend.2

end DbConnectionPool
end Workplace.Http
