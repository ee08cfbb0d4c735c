import Workplace.Lib.Runs

/-! The contexts that `FdManager` keeps for the sockets, and the hooks that set and show their
blocking mode. A socket is non-blocking to the kernel, so that no call stops the thread, and
what its user asked for is kept beside that. The threads have the hooks enabled. -/

namespace Workplace.Coroutine
open Workplace.Lib

/-! ## The kernel -/

/-- Octal 4000. -/
def O_NONBLOCK : BitVec 32 := BitVec.twoPow 32 11

def nonblock (arg : BitVec 32) : Bool := arg &&& O_NONBLOCK != 0

/-- The flags that `F_SETFL` can change: `O_APPEND`, `O_NONBLOCK`, `O_ASYNC`, `O_DIRECT` and
`O_NOATIME`. -/
def SETFL_MASK : BitVec 32 := 0x46c00#32

structure File where
  isSocket : Bool
  flags : BitVec 32
  deriving DecidableEq, Repr

/-- The open descriptors of the process. -/
structure Kernel where
  files : Nat → Option File

inductive Fcntl where
  | F_GETFL
  | F_SETFL (arg : BitVec 32)
  deriving DecidableEq, Repr

namespace Kernel

def setFile (k : Kernel) (fd : Nat) (file : Option File) : Kernel :=
  ⟨Function.update k.files fd file⟩

def fcntl_f (k : Kernel) (fd : Nat) (cmd : Fcntl) : BitVec 32 × Kernel :=
  match k.files fd, cmd with
  | none, _ => (-1, k)
  | some file, .F_GETFL => (file.flags, k)
  | some file, .F_SETFL arg =>
    (0, k.setFile fd
      (some { file with flags := (file.flags &&& ~~~SETFL_MASK) ||| (arg &&& SETFL_MASK) }))

/-- `ioctl_f` with the request `FIONBIO`. -/
def fionbio_f (k : Kernel) (fd : Nat) (v : BitVec 32) : BitVec 32 × Kernel :=
  match k.files fd with
  | none => (-1, k)
  | some file =>
    let flags := if v != 0 then file.flags ||| O_NONBLOCK else file.flags &&& ~~~O_NONBLOCK
    (0, k.setFile fd (some { file with flags }))

/-- A new socket at the descriptor `fd`, for reading and writing. -/
def socket_f (k : Kernel) (sock_nonblock : Bool) (fd : Nat) : Kernel :=
  k.setFile fd (some { isSocket := true, flags := if sock_nonblock then 2 ||| O_NONBLOCK else 2 })

/-- What `accept` returns does not take the flags of the listening socket over. -/
def accept_f (k : Kernel) (fd : Nat) : Kernel := k.socket_f false fd

def close_f (k : Kernel) (fd : Nat) : Kernel := k.setFile fd none

end Kernel

/-! ## The source -/

structure FdCtx where
  m_isInit : Bool := false
  m_isSocket : Bool := false
  m_sysNonblock : Bool := false
  m_userNonblock : Bool := false
  m_isClosed : Bool := false
  m_recvTimeout : UInt64 := UInt64.ofNat (2 ^ 64 - 1)
  m_sendTimeout : UInt64 := UInt64.ofNat (2 ^ 64 - 1)
  deriving DecidableEq, Repr

inductive TimeoutSo where
  | SO_RCVTIMEO
  | SO_SNDTIMEO
  deriving DecidableEq, Repr

def FdCtx.getTimeout (ctx : FdCtx) : TimeoutSo → UInt64
  | .SO_RCVTIMEO => ctx.m_recvTimeout
  | .SO_SNDTIMEO => ctx.m_sendTimeout

/-- `FdCtx::init` of a new context. -/
def FdCtx.init (k : Kernel) (fd : Nat) : FdCtx × Kernel :=
  match k.files fd with
  | none => ({}, k)
  | some file =>
    if file.isSocket then
      let flags := (k.fcntl_f fd .F_GETFL).1
      let k := if nonblock flags then k else (k.fcntl_f fd (.F_SETFL (flags ||| O_NONBLOCK))).2
      ({ m_isInit := true, m_isSocket := true, m_sysNonblock := true }, k)
    else ({ m_isInit := true }, k)

structure FdManager where
  kernel : Kernel
  m_datas : List (Option FdCtx)

/-- How `do_io` makes the original call. -/
inductive IoRoute where
  -- it fails with `EBADF`, and the call is not made
  | closed
  | once
  -- the fiber is suspended while the call says `EAGAIN`
  | retried (timeout : UInt64)
  deriving DecidableEq, Repr

namespace FdManager

def init (kernel : Kernel) : FdManager := { kernel, m_datas := List.replicate 64 none }

def resize (datas : List (Option FdCtx)) (size : Nat) : List (Option FdCtx) :=
  datas.take size ++ List.replicate (size - datas.length) none

/-- `get` with `auto_create` false. -/
def find (s : FdManager) (fd : Nat) : Option FdCtx := s.m_datas[fd]?.join

def setCtx (s : FdManager) (fd : Nat) (ctx : Option FdCtx) : FdManager :=
  { s with m_datas := s.m_datas.set fd ctx }

/-- `get` with `auto_create` true. -/
def create (s : FdManager) (fd : Nat) : FdManager :=
  match s.find fd with
  | some _ => s
  | none =>
    let m_datas := if s.m_datas.length ≤ fd then resize s.m_datas (fd * 3 / 2) else s.m_datas
    let (ctx, kernel) := FdCtx.init s.kernel fd
    { kernel, m_datas := m_datas.set fd (some ctx) }

def del (s : FdManager) (fd : Nat) : FdManager :=
  if s.m_datas.length ≤ fd then s else s.setCtx fd none

def do_io (s : FdManager) (fd : Nat) (timeout_so : TimeoutSo) : IoRoute :=
  match s.find fd with
  | none => .once
  | some ctx =>
    if ctx.m_isClosed then .closed
    else if !ctx.m_isSocket || ctx.m_userNonblock then .once
    else .retried (ctx.getTimeout timeout_so)

def socket (s : FdManager) (sock_nonblock : Bool) (fd : Nat) : FdManager :=
  { s with kernel := s.kernel.socket_f sock_nonblock fd }.create fd

/-- `accept`, when it returns the descriptor `fd`. -/
def accept (s : FdManager) (sockfd fd : Nat) : Option FdManager :=
  match s.do_io sockfd .SO_RCVTIMEO with
  | .closed => none
  | _ => some ({ s with kernel := s.kernel.accept_f fd }.create fd)

/-- The context that `fcntl` and `ioctl` take into account. -/
def managed (s : FdManager) (fd : Nat) : Option FdCtx :=
  (s.find fd).filter fun ctx => !ctx.m_isClosed && ctx.m_isSocket

def fcntl (s : FdManager) (fd : Nat) : Fcntl → BitVec 32 × FdManager
  | .F_SETFL arg =>
    match s.managed fd with
    | none =>
      let (r, kernel) := s.kernel.fcntl_f fd (.F_SETFL arg)
      (r, { s with kernel })
    | some ctx =>
      let s := s.setCtx fd (some { ctx with m_userNonblock := nonblock arg })
      let arg := if ctx.m_sysNonblock then arg ||| O_NONBLOCK else arg &&& ~~~O_NONBLOCK
      let (r, kernel) := s.kernel.fcntl_f fd (.F_SETFL arg)
      (r, { s with kernel })
  | .F_GETFL =>
    let (arg, kernel) := s.kernel.fcntl_f fd .F_GETFL
    match s.managed fd with
    | none => (arg, { s with kernel })
    | some ctx =>
      (if ctx.m_userNonblock then arg ||| O_NONBLOCK else arg &&& ~~~O_NONBLOCK,
        { s with kernel })

/-- `ioctl` with the request `FIONBIO`. -/
def fionbio (s : FdManager) (fd : Nat) (v : BitVec 32) : BitVec 32 × FdManager :=
  let s := match s.managed fd with
    | none => s
    | some ctx => s.setCtx fd (some { ctx with m_userNonblock := v != 0 })
  let (r, kernel) := s.kernel.fionbio_f fd v
  (r, { s with kernel })

def close (s : FdManager) (fd : Nat) : FdManager :=
  let s := if (s.find fd).isSome then s.del fd else s
  { s with kernel := s.kernel.close_f fd }

end FdManager

/-- The calls of a program. A new descriptor is one that the kernel has free. -/
inductive HookAct where
  | socket (sock_nonblock : Bool) (fd : Nat)
  | accept (sockfd fd : Nat)
  | F_SETFL (fd : Nat) (arg : BitVec 32)
  -- with the request `FIONBIO`
  | ioctl (fd : Nat) (v : BitVec 32)
  | close (fd : Nat)
  deriving DecidableEq, Repr

def FdManager.step (s : FdManager) : HookAct → Option FdManager
  | .socket sock_nonblock fd =>
    if (s.kernel.files fd).isNone then some (s.socket sock_nonblock fd) else none
  | .accept sockfd fd => if (s.kernel.files fd).isNone then s.accept sockfd fd else none
  | .F_SETFL fd arg => some (s.fcntl fd (.F_SETFL arg)).2
  | .ioctl fd v => some (s.fionbio fd v).2
  | .close fd => some (s.close fd)

/-! ## The flag -/

theorem nonblock_eq (arg : BitVec 32) : nonblock arg = arg.getLsbD 11 := by
  rw [nonblock, O_NONBLOCK, BitVec.and_twoPow]
  cases arg.getLsbD 11 <;> decide

@[simp] theorem nonblock_or (arg : BitVec 32) : nonblock (arg ||| O_NONBLOCK) = true := by
  simp [nonblock_eq, O_NONBLOCK]

@[simp] theorem nonblock_and_not (arg : BitVec 32) :
    nonblock (arg &&& ~~~O_NONBLOCK) = false := by
  simp [nonblock_eq, O_NONBLOCK]

@[simp] theorem nonblock_setfl (flags arg : BitVec 32) :
    nonblock ((flags &&& ~~~SETFL_MASK) ||| (arg &&& SETFL_MASK)) = nonblock arg := by
  have hmask : SETFL_MASK[11] = true := by decide
  simp [nonblock_eq, hmask]

namespace FdManager
variable {s s' : FdManager} {fd fd' : Nat} {a : HookAct} {u k : Bool}

/-! ## The table -/

theorem lt_length_of_find {ctx : FdCtx} (h : s.find fd = some ctx) : fd < s.m_datas.length :=
  (List.getElem?_eq_some_iff.mp (Option.join_eq_some_iff.mp h)).1

theorem find_setCtx_self (h : fd < s.m_datas.length) (ctx : Option FdCtx) :
    (s.setCtx fd ctx).find fd = ctx := by
  rw [find, setCtx, List.getElem?_set_self h, Option.join_some]

theorem find_setCtx_ne (hne : fd ≠ fd') (ctx : Option FdCtx) :
    (s.setCtx fd' ctx).find fd = s.find fd := by
  rw [find, setCtx, List.getElem?_set_ne hne.symm, find]

theorem join_enlarged {α : Type} {datas : List (Option α)} {size : Nat}
    (h : datas.length ≤ size) :
    (datas.take size ++ List.replicate (size - datas.length) none)[fd]?.join =
      datas[fd]?.join := by
  rw [List.take_of_length_le h, List.getElem?_append]
  split_ifs with hlt
  · rfl
  · rw [List.getElem?_eq_none (not_lt.mp hlt), List.getElem?_replicate]
    split_ifs <;> rfl

theorem length_enlarged {α : Type} (datas : List (Option α)) (size : Nat) :
    (datas.take size ++ List.replicate (size - datas.length) none).length = size := by
  rw [List.length_append, List.length_take, List.length_replicate]
  omega

@[simp] theorem files_setFile_self (kernel : Kernel) (file : Option File) :
    (kernel.setFile fd file).files fd = file := Function.update_self _ _ _

theorem files_setFile_ne (hne : fd ≠ fd') (kernel : Kernel) (file : Option File) :
    (kernel.setFile fd' file).files fd = kernel.files fd := Function.update_of_ne hne _ _

/-- What the calls that set flags do to the files: to at most one, which stays open. -/
inductive Reflagged (kernel : Kernel) (fd : Nat) : Kernel → Prop
  | same : Reflagged kernel fd kernel
  | set {old : File} (new : File) (hold : kernel.files fd = some old) :
    Reflagged kernel fd (kernel.setFile fd (some new))

theorem reflagged_fcntl (kernel : Kernel) (cmd : Fcntl) :
    Reflagged kernel fd (kernel.fcntl_f fd cmd).2 := by
  unfold Kernel.fcntl_f
  cases hf : kernel.files fd with
  | none => exact .same
  | some file =>
    cases cmd with
    | F_GETFL => exact .same
    | F_SETFL arg => exact .set _ hf

theorem reflagged_fionbio (kernel : Kernel) (v : BitVec 32) :
    Reflagged kernel fd (kernel.fionbio_f fd v).2 := by
  unfold Kernel.fionbio_f
  cases hf : kernel.files fd with
  | none => exact .same
  | some file => exact .set _ hf

theorem Reflagged.files_ne {kernel kernel' : Kernel} (h : Reflagged kernel fd' kernel')
    (hne : fd ≠ fd') : kernel'.files fd = kernel.files fd := by
  cases h with
  | same => rfl
  | set new hold => exact files_setFile_ne hne _ _

theorem Reflagged.isSome_files {kernel kernel' : Kernel} (h : Reflagged kernel fd' kernel')
    (fd : Nat) : (kernel'.files fd).isSome = (kernel.files fd).isSome := by
  by_cases hfd : fd = fd'
  · cases h with
    | same => rfl
    | set new hold =>
      rw [hfd, files_setFile_self, hold]
      rfl
  · rw [h.files_ne hfd]

theorem files_init_ne (hne : fd ≠ fd') (kernel : Kernel) :
    (FdCtx.init kernel fd').2.files fd = kernel.files fd := by
  rw [FdCtx.init]
  split
  · rfl
  · dsimp only
    split_ifs
    · rfl
    · exact (reflagged_fcntl _ _).files_ne hne
    · rfl

/-- A context for `fd'` leaves the other descriptors as they are, also when the table grows. -/
theorem create_ne (hne : fd ≠ fd') : (s.create fd').find fd = s.find fd ∧
    (s.create fd').kernel.files fd = s.kernel.files fd := by
  rw [create]
  split
  · exact ⟨rfl, rfl⟩
  · refine ⟨?_, files_init_ne hne _⟩
    rw [find, List.getElem?_set_ne hne.symm, find]
    split_ifs with hlen
    · exact join_enlarged (by omega)
    · rfl

theorem create_self (hlen : 64 ≤ s.m_datas.length) (hnew : s.find fd = none) :
    (s.create fd).find fd = some (FdCtx.init s.kernel fd).1 ∧
      (s.create fd).kernel = (FdCtx.init s.kernel fd).2 := by
  simp only [create, hnew, and_true]
  rw [find, List.getElem?_set_self, Option.join_some]
  split_ifs with hle
  · rw [resize, length_enlarged]
    omega
  · omega

/-! ## What the calls do to a socket -/

/-- A socket that the manager has a context for, with the mode that its user asked for and
the mode that it has in the kernel. -/
structure Socket (s : FdManager) (fd : Nat) (user kernel : Bool) : Prop where
  ctx : ∃ ctx, s.find fd = some ctx ∧ ctx.m_isClosed = false ∧ ctx.m_isSocket = true ∧
    ctx.m_sysNonblock = true ∧ ctx.m_userNonblock = user
  file : ∃ file, s.kernel.files fd = some file ∧ nonblock file.flags = kernel

/-- Every context is that of an open descriptor. -/
structure Clean (s : FdManager) : Prop where
  size : 64 ≤ s.m_datas.length
  opened : ∀ {fd ctx}, s.find fd = some ctx → (s.kernel.files fd).isSome

/-- The user's latest request about `fd`. -/
def request (fd : Nat) (r : Bool) : HookAct → Bool
  | .F_SETFL fd' arg => if fd' = fd then nonblock arg else r
  | .ioctl fd' v => if fd' = fd then v != 0 else r
  | _ => r

def kernelFlag (fd : Nat) (r : Bool) : HookAct → Bool
  | .F_SETFL fd' _ => if fd' = fd then true else r
  | .ioctl fd' v => if fd' = fd then v != 0 else r
  | _ => r

theorem Socket.congr (h : s.Socket fd u k) (hfind : s'.find fd = s.find fd)
    (hfile : s'.kernel.files fd = s.kernel.files fd) : s'.Socket fd u k :=
  ⟨hfind ▸ h.ctx, hfile ▸ h.file⟩

theorem Socket.managed (h : s.Socket fd u k) : ∃ ctx, s.managed fd = some ctx ∧
    ctx.m_isClosed = false ∧ ctx.m_isSocket = true ∧ ctx.m_sysNonblock = true ∧
      ctx.m_userNonblock = u := by
  obtain ⟨ctx, hfind, hclosed, hsocket, hsys, huser⟩ := h.ctx
  refine ⟨ctx, ?_, hclosed, hsocket, hsys, huser⟩
  simp [FdManager.managed, hfind, hclosed, hsocket]

theorem fcntl_ne (hne : fd ≠ fd') (arg : BitVec 32) :
    (s.fcntl fd' (.F_SETFL arg)).2.find fd = s.find fd ∧
      (s.fcntl fd' (.F_SETFL arg)).2.kernel.files fd = s.kernel.files fd := by
  cases hm : s.managed fd' with
  | none =>
    simp only [fcntl, hm]
    exact ⟨rfl, (reflagged_fcntl _ _).files_ne hne⟩
  | some ctx =>
    simp only [fcntl, hm]
    exact ⟨find_setCtx_ne hne _, (reflagged_fcntl _ _).files_ne hne⟩

theorem fionbio_ne (hne : fd ≠ fd') (v : BitVec 32) :
    (s.fionbio fd' v).2.find fd = s.find fd ∧
      (s.fionbio fd' v).2.kernel.files fd = s.kernel.files fd := by
  cases hm : s.managed fd' with
  | none =>
    simp only [fionbio, hm]
    exact ⟨rfl, (reflagged_fionbio _ _).files_ne hne⟩
  | some ctx =>
    simp only [fionbio, hm]
    exact ⟨find_setCtx_ne hne _, (reflagged_fionbio _ _).files_ne hne⟩

theorem close_ne (hne : fd ≠ fd') : (s.close fd').find fd = s.find fd ∧
    (s.close fd').kernel.files fd = s.kernel.files fd := by
  have hdel : (s.del fd').find fd = s.find fd ∧ (s.del fd').kernel = s.kernel := by
    rw [del]
    split_ifs
    · exact ⟨rfl, rfl⟩
    · exact ⟨find_setCtx_ne hne _, rfl⟩
  rw [close]
  split_ifs
  · exact ⟨hdel.1, (files_setFile_ne hne _ _).trans (congrFun (congrArg _ hdel.2) fd)⟩
  · exact ⟨rfl, files_setFile_ne hne _ _⟩

/-- The context is changed and stays, and the flag becomes what the kernel is told. -/
theorem Socket.setUser (h : s.Socket fd u k) {kernel : Kernel} {ctx : FdCtx} (v : Bool) {w : Bool}
    (hm : s.managed fd = some ctx)
    (hfile : ∃ file, kernel.files fd = some file ∧ nonblock file.flags = w) :
    ({ s.setCtx fd (some { ctx with m_userNonblock := v }) with kernel } :
      FdManager).Socket fd v w := by
  obtain ⟨ctx', hm', hclosed, hsocket, hsys, -⟩ := h.managed
  obtain rfl : ctx = ctx' := Option.some.inj (hm.symm.trans hm')
  obtain ⟨_, hfind, -⟩ := h.ctx
  exact ⟨⟨_, find_setCtx_self (lt_length_of_find hfind) _, hclosed, hsocket, hsys, rfl⟩, hfile⟩

theorem Socket.setfl (h : s.Socket fd u k) (arg : BitVec 32) :
    (s.fcntl fd (.F_SETFL arg)).2.Socket fd (nonblock arg) true := by
  obtain ⟨ctx, hm, -, -, hsys, -⟩ := h.managed
  obtain ⟨file, hfile, -⟩ := h.file
  simp only [fcntl, hm]
  refine h.setUser _ hm ?_
  simp only [Kernel.fcntl_f, setCtx, hfile, hsys]
  exact ⟨_, files_setFile_self _ _, by simp⟩

theorem Socket.fionbio (h : s.Socket fd u k) (v : BitVec 32) :
    (s.fionbio fd v).2.Socket fd (v != 0) (v != 0) := by
  obtain ⟨ctx, hm, -⟩ := h.managed
  obtain ⟨file, hfile, -⟩ := h.file
  simp only [FdManager.fionbio, hm]
  refine h.setUser _ hm ?_
  simp only [Kernel.fionbio_f, setCtx, hfile]
  refine ⟨_, files_setFile_self _ _, ?_⟩
  generalize (v != 0) = b
  cases b <;> simp

theorem Socket.create_ne (h : s.Socket fd u k) {kernel : Kernel} (hne : fd ≠ fd')
    (hfile : kernel.files fd = s.kernel.files fd) :
    ({ s with kernel }.create fd').Socket fd u k := by
  obtain ⟨hfind, hfiles⟩ := FdManager.create_ne (s := { s with kernel }) hne
  exact h.congr hfind (hfiles.trans hfile)

theorem step_socket {sock_nonblock : Bool} (hs : s.step (.socket sock_nonblock fd) = some s') :
    (s.kernel.files fd).isNone ∧ s' = s.socket sock_nonblock fd := by
  simp only [FdManager.step] at hs
  split_ifs at hs with hfree
  exact ⟨hfree, (Option.some.inj hs).symm⟩

/-- What `accept` returns is a socket like any other. -/
theorem step_accept {sockfd : Nat} (hs : s.step (.accept sockfd fd) = some s') :
    (s.kernel.files fd).isNone ∧ s' = s.socket false fd := by
  simp only [FdManager.step] at hs
  split_ifs at hs with hfree
  rw [accept] at hs
  split at hs
  · cases hs
  · exact ⟨hfree, (Option.some.inj hs).symm⟩

theorem Socket.step (h : s.Socket fd u k) (hs : s.step a = some s') (hc : a ≠ .close fd) :
    s'.Socket fd (request fd u a) (kernelFlag fd k a) := by
  -- a descriptor that the kernel has free is another one
  have hnew : ∀ {fd'}, (s.kernel.files fd').isNone → fd ≠ fd' := by
    rintro fd' hfree rfl
    obtain ⟨file, hfile, -⟩ := h.file
    rw [hfile] at hfree
    cases hfree
  cases a with
  | socket sock_nonblock fd' =>
    obtain ⟨hfree, rfl⟩ := step_socket hs
    exact h.create_ne (hnew hfree) (files_setFile_ne (hnew hfree) _ _)
  | accept sockfd fd' =>
    obtain ⟨hfree, rfl⟩ := step_accept hs
    exact h.create_ne (hnew hfree) (files_setFile_ne (hnew hfree) _ _)
  | F_SETFL fd' arg =>
    obtain rfl := Option.some.inj hs
    by_cases hfd : fd' = fd
    · subst hfd
      simp only [request, kernelFlag, if_pos]
      exact h.setfl arg
    · obtain ⟨hfind, hfile⟩ := fcntl_ne (s := s) (Ne.symm hfd) arg
      simp only [request, kernelFlag, if_neg hfd]
      exact h.congr hfind hfile
  | ioctl fd' v =>
    obtain rfl := Option.some.inj hs
    by_cases hfd : fd' = fd
    · subst hfd
      simp only [request, kernelFlag, if_pos]
      exact h.fionbio v
    · obtain ⟨hfind, hfile⟩ := fionbio_ne (s := s) (Ne.symm hfd) v
      simp only [request, kernelFlag, if_neg hfd]
      exact h.congr hfind hfile
  | close fd' =>
    obtain rfl := Option.some.inj hs
    have hne : fd ≠ fd' := fun heq => hc (heq ▸ rfl)
    obtain ⟨hfind, hfile⟩ := close_ne (s := s) hne
    exact h.congr hfind hfile

/-! ## New sockets -/

/-- The context of a new socket: the mode is the manager's own, whatever the socket was
created with. -/
theorem init_socket {kernel : Kernel} {file : File} (hfile : kernel.files fd = some file)
    (hsocket : file.isSocket = true) :
    (FdCtx.init kernel fd).1 = { m_isInit := true, m_isSocket := true, m_sysNonblock := true } ∧
      ∃ file', (FdCtx.init kernel fd).2.files fd = some file' ∧ nonblock file'.flags = true := by
  simp only [FdCtx.init, hfile, hsocket, if_true, true_and, Kernel.fcntl_f]
  split_ifs with hflag
  · exact ⟨file, hfile, hflag⟩
  · exact ⟨_, files_setFile_self _ _, by simp⟩

theorem length_create_ge (s : FdManager) (fd : Nat) :
    s.m_datas.length ≤ (s.create fd).m_datas.length := by
  rw [create]
  split
  · exact le_refl _
  · rw [List.length_set]
    split_ifs
    · rw [resize, length_enlarged]
      omega
    · exact le_refl _

theorem Clean.find_of_free (h : s.Clean) (hfree : (s.kernel.files fd).isNone) :
    s.find fd = none := by
  by_contra hsome
  obtain ⟨ctx, hctx⟩ := Option.ne_none_iff_exists'.mp hsome
  have hopen := h.opened hctx
  rw [Option.isNone_iff_eq_none] at hfree
  rw [hfree] at hopen
  cases hopen

/-- The context of a socket that the kernel has just made, at a descriptor that was free. -/
theorem Clean.find_socket (h : s.Clean) (hfree : (s.kernel.files fd).isNone)
    (sock_nonblock : Bool) : (s.socket sock_nonblock fd).find fd =
      some { m_isInit := true, m_isSocket := true, m_sysNonblock := true } ∧
        ∃ file, (s.socket sock_nonblock fd).kernel.files fd = some file ∧
          nonblock file.flags = true := by
  set s₁ : FdManager := { s with kernel := s.kernel.socket_f sock_nonblock fd } with hs₁
  have hnew : s₁.find fd = none := h.find_of_free hfree
  have hfile : s₁.kernel.files fd = some _ := files_setFile_self _ _
  obtain ⟨hfind, hkernel⟩ := create_self (s := s₁) h.size hnew
  obtain ⟨hctx, file, hfile', hflag⟩ := init_socket hfile rfl
  exact ⟨hctx ▸ hfind, file, hkernel ▸ hfile', hflag⟩

/-- `get` right after the kernel has made the socket, which was free until then. -/
theorem Clean.create (h : s.Clean) (hfree : (s.kernel.files fd).isNone) (sock_nonblock : Bool) :
    (s.socket sock_nonblock fd).Clean ∧ (s.socket sock_nonblock fd).Socket fd false true := by
  obtain ⟨hfind, hfile⟩ := h.find_socket hfree sock_nonblock
  have hsocket : (s.socket sock_nonblock fd).Socket fd false true :=
    ⟨⟨_, hfind, rfl, rfl, rfl, rfl⟩, hfile⟩
  set s₁ : FdManager := { s with kernel := s.kernel.socket_f sock_nonblock fd } with hs₁
  refine ⟨⟨h.size.trans (length_create_ge s₁ fd), fun {fd' ctx} hfd' => ?_⟩, hsocket⟩
  by_cases hfd : fd' = fd
  · obtain ⟨file, hfile, -⟩ := hsocket.file
    rw [hfd]
    exact Option.isSome_of_eq_some hfile
  · obtain ⟨hsame, hfiles⟩ := create_ne (s := s₁) hfd
    have hopen := h.opened (hsame.symm.trans hfd')
    rw [← files_setFile_ne hfd s.kernel _] at hopen
    exact hfiles ▸ hopen

theorem find_of_managed {ctx : FdCtx} (h : s.managed fd = some ctx) : s.find fd = some ctx :=
  (Option.filter_eq_some_iff.mp h).1

theorem Clean.keeps (h : s.Clean) (hlen : s.m_datas.length ≤ s'.m_datas.length)
    (hfind : ∀ fd, (s'.find fd).isSome → (s.find fd).isSome)
    (hfile : ∀ fd, (s'.kernel.files fd).isSome = (s.kernel.files fd).isSome) : s'.Clean := by
  refine ⟨h.size.trans hlen, fun {fd ctx} hctx => ?_⟩
  obtain ⟨ctx', hctx'⟩ := Option.isSome_iff_exists.mp (hfind fd (Option.isSome_of_eq_some hctx))
  rw [hfile]
  exact h.opened hctx'

theorem isSome_find_setCtx {ctx : FdCtx} (hm : s.managed fd' = some ctx) (o : Option FdCtx)
    (fd : Nat) (hfind : ((s.setCtx fd' o).find fd).isSome) : (s.find fd).isSome := by
  by_cases hfd : fd = fd'
  · rw [hfd]
    exact Option.isSome_of_eq_some (find_of_managed hm)
  · rw [find_setCtx_ne hfd] at hfind
    exact hfind

theorem Clean.fcntl (h : s.Clean) (fd : Nat) (arg : BitVec 32) :
    (s.fcntl fd (.F_SETFL arg)).2.Clean := by
  cases hm : s.managed fd with
  | none =>
    simp only [FdManager.fcntl, hm]
    exact h.keeps (le_refl _) (fun _ => id) (reflagged_fcntl _ _).isSome_files
  | some ctx =>
    simp only [FdManager.fcntl, hm]
    exact h.keeps (List.length_set).ge (isSome_find_setCtx hm _)
      (reflagged_fcntl _ _).isSome_files

theorem Clean.fionbio (h : s.Clean) (fd : Nat) (v : BitVec 32) : (s.fionbio fd v).2.Clean := by
  cases hm : s.managed fd with
  | none =>
    simp only [FdManager.fionbio, hm]
    exact h.keeps (le_refl _) (fun _ => id) (reflagged_fionbio _ _).isSome_files
  | some ctx =>
    simp only [FdManager.fionbio, hm]
    exact h.keeps (List.length_set).ge (isSome_find_setCtx hm _)
      (reflagged_fionbio _ _).isSome_files

theorem find_close_self (s : FdManager) (fd : Nat) : (s.close fd).find fd = none := by
  rw [close]
  split_ifs with hfind
  · obtain ⟨ctx, hctx⟩ := Option.isSome_iff_exists.mp hfind
    have hlt := lt_length_of_find hctx
    rw [del, if_neg (not_le.mpr hlt)]
    exact find_setCtx_self hlt none
  · exact Option.not_isSome_iff_eq_none.mp hfind

theorem length_close (s : FdManager) (fd : Nat) :
    (s.close fd).m_datas.length = s.m_datas.length := by
  rw [close]
  split_ifs
  · rw [del]
    split_ifs
    · rfl
    · exact List.length_set
  · rfl

theorem Clean.close (h : s.Clean) (fd : Nat) : (s.close fd).Clean := by
  refine ⟨(length_close s fd).symm ▸ h.size, fun {fd' ctx} hctx => ?_⟩
  by_cases hfd : fd' = fd
  · rw [hfd, find_close_self] at hctx
    cases hctx
  · obtain ⟨hfind, hfile⟩ := close_ne (s := s) hfd
    rw [hfile]
    exact h.opened (hfind.symm.trans hctx)

theorem Clean.step (h : s.Clean) (hs : s.step a = some s') : s'.Clean := by
  cases a with
  | socket sock_nonblock fd =>
    obtain ⟨hfree, rfl⟩ := step_socket hs
    exact (h.create hfree sock_nonblock).1
  | accept sockfd fd =>
    obtain ⟨hfree, rfl⟩ := step_accept hs
    exact (h.create hfree false).1
  | F_SETFL fd arg =>
    obtain rfl := Option.some.inj hs
    exact h.fcntl fd arg
  | ioctl fd v =>
    obtain rfl := Option.some.inj hs
    exact h.fionbio fd v
  | close fd =>
    obtain rfl := Option.some.inj hs
    exact h.close fd

theorem clean_init (kernel : Kernel) : (init kernel).Clean := by
  refine ⟨(List.length_replicate).ge, fun {fd ctx} hctx => ?_⟩
  rw [find, init, List.getElem?_replicate] at hctx
  split_ifs at hctx <;> cases hctx

/-! ## The mode of a socket -/

/-- The descriptor that the call makes, and whether it is asked to be non-blocking. -/
def creates : HookAct → Option (Nat × Bool)
  | .socket sock_nonblock fd => some (fd, sock_nonblock)
  | .accept _ fd => some (fd, false)
  | _ => none

/-- `do_io` makes the original call on a descriptor that is blocking to the kernel. -/
def mayBlock (s : FdManager) (fd : Nat) (timeout_so : TimeoutSo) : Bool :=
  s.do_io fd timeout_so != .closed && !nonblock (s.kernel.fcntl_f fd .F_GETFL).1

/-- The three places agree with what the user asked for. -/
structure ModeAgrees (s : FdManager) (fd : Nat) (requested : Bool) : Prop where
  shown : nonblock (s.fcntl fd .F_GETFL).1 = requested
  getUserNonblock : (s.find fd).map FdCtx.m_userNonblock = some requested
  kernel : nonblock (s.kernel.fcntl_f fd .F_GETFL).1 = true
  do_io : ∀ timeout_so, s.mayBlock fd timeout_so = false

theorem Socket.agrees_iff (h : s.Socket fd u k) (r : Bool) :
    s.ModeAgrees fd r ↔ u = r ∧ k = true := by
  obtain ⟨ctx, hm, -, -, -, huser⟩ := h.managed
  obtain ⟨file, hfile, hflag⟩ := h.file
  have hkernel : nonblock (s.kernel.fcntl_f fd .F_GETFL).1 = k := by
    simp only [Kernel.fcntl_f, hfile, hflag]
  have hshown : nonblock (s.fcntl fd .F_GETFL).1 = u := by
    simp only [fcntl, hm, huser]
    cases u <;> simp
  have hfind : (s.find fd).map FdCtx.m_userNonblock = some u := by
    rw [find_of_managed hm, Option.map_some, huser]
  refine ⟨fun ha => ⟨hshown.symm.trans ha.shown, hkernel.symm.trans ha.kernel⟩, ?_⟩
  rintro ⟨rfl, rfl⟩
  refine ⟨hshown, hfind, hkernel, fun timeout_so => ?_⟩
  rw [mayBlock, hkernel, Bool.not_true, Bool.and_false]

theorem Clean.socket_of_creates {r : Bool} (h : s.Clean) (ha : creates a = some (fd, r))
    (hs : s.step a = some s') : s'.Socket fd false true := by
  cases a with
  | socket sock_nonblock fd' =>
    obtain ⟨rfl, rfl⟩ := Prod.mk.inj (Option.some.inj ha)
    obtain ⟨hfree, rfl⟩ := step_socket hs
    exact (h.create hfree sock_nonblock).2
  | accept sockfd fd' =>
    obtain ⟨rfl, rfl⟩ := Prod.mk.inj (Option.some.inj ha)
    obtain ⟨hfree, rfl⟩ := step_accept hs
    exact (h.create hfree false).2
  | F_SETFL _ _ | ioctl _ _ | close _ => cases ha

theorem Socket.run {acts : List HookAct} (h : s.Socket fd u k) (hopen : .close fd ∉ acts)
    (hrun : run FdManager.step s acts = some s') :
    s'.Socket fd (acts.foldl (request fd) u) (acts.foldl (kernelFlag fd) k) := by
  induction acts generalizing s u k with
  | nil =>
    obtain rfl := Option.some.inj hrun
    exact h
  | cons a acts ih =>
    obtain ⟨s₁, hs, hrest⟩ := run_cons hrun
    obtain ⟨ha, hacts⟩ := not_or.mp (mt List.mem_cons.mpr hopen)
    exact ih (h.step hs (Ne.symm ha)) hacts hrest

theorem foldl_kernelFlag {acts : List HookAct} (h : .ioctl fd 0 ∉ acts) :
    acts.foldl (kernelFlag fd) true = true := by
  induction acts with
  | nil => rfl
  | cons a acts ih =>
    obtain ⟨ha, hacts⟩ := not_or.mp (mt List.mem_cons.mpr h)
    have hstep : kernelFlag fd true a = true := by
      cases a with
      | ioctl fd' v =>
        simp only [kernelFlag]
        split_ifs with hfd
        · subst hfd
          rw [bne_iff_ne]
          rintro rfl
          exact ha rfl
        · rfl
      | F_SETFL fd' arg => simp [kernelFlag]
      | _ => rfl
    rw [List.foldl_cons, hstep]
    exact ih hacts

/-- **The mode of a socket.** From its creation on, the user sees what they asked for last and
the kernel never blocks, if and only if the socket was created without `SOCK_NONBLOCK` and is
never set to blocking through `FIONBIO`. -/
theorem modeAgrees_iff_created {kernel : Kernel} {before after : List HookAct} {r : Bool}
    {s₀ s₁ s₂ : FdManager} (hbefore : run step (init kernel) before = some s₀)
    (hcreates : creates a = some (fd, r)) (hs₁ : s₀.step a = some s₁)
    (hopen : .close fd ∉ after) (hafter : run step s₁ after = some s₂) :
    (∀ acts s, acts <+: after → run step s₁ acts = some s →
      s.ModeAgrees fd (acts.foldl (request fd) r)) ↔ r = false ∧ .ioctl fd 0 ∉ after := by
  have hclean : s₀.Clean := run_invariant_of_step before Clean.step (clean_init kernel) hbefore
  have hsocket : s₁.Socket fd false true := hclean.socket_of_creates hcreates hs₁
  have key : ∀ acts s, acts <+: after → run step s₁ acts = some s →
      (s.ModeAgrees fd (acts.foldl (request fd) r) ↔
        acts.foldl (request fd) false = acts.foldl (request fd) r ∧
          acts.foldl (kernelFlag fd) true = true) := by
    intro acts s hacts hrun
    exact (hsocket.run (fun hin => hopen (hacts.subset hin)) hrun).agrees_iff _
  constructor
  · intro h
    refine ⟨?_, fun hin => ?_⟩
    · have hagrees := h [] s₁ List.nil_prefix rfl
      exact ((key [] s₁ List.nil_prefix rfl).mp hagrees).1.symm
    · obtain ⟨p, rest, rfl⟩ := List.append_of_mem hin
      have heq : p ++ .ioctl fd 0 :: rest = p ++ [.ioctl fd 0] ++ rest := by
        rw [List.append_assoc, List.singleton_append]
      have hp : p ++ [.ioctl fd 0] <+: p ++ .ioctl fd 0 :: rest := ⟨rest, heq.symm⟩
      rw [heq, run_append] at hafter
      obtain ⟨s, hrun, -⟩ := Option.bind_eq_some_iff.mp hafter
      have hflag := ((key _ s hp hrun).mp (h _ s hp hrun)).2
      rw [List.foldl_append] at hflag
      simp [kernelFlag] at hflag
  · rintro ⟨rfl, hno⟩ acts s hacts hrun
    exact (key acts s hacts hrun).mpr
      ⟨rfl, foldl_kernelFlag fun hin => hno (hacts.subset hin)⟩

/-- A socket that its user sets to non-blocking, to blocking through `F_SETFL`, and to
non-blocking again. -/
theorem modeAgrees_of_setfl :
    let after : List HookAct := [.F_SETFL 3 O_NONBLOCK, .F_SETFL 3 0, .ioctl 3 1]
    ∃ s₁ s, (init ⟨fun _ => none⟩).step (.socket false 3) = some s₁ ∧
      run step s₁ after = some s ∧ s.ModeAgrees 3 true := by
  intro after
  have hs₁ : (init ⟨fun _ => none⟩).step (.socket false 3) =
      some ((init ⟨fun _ => none⟩).socket false 3) := rfl
  obtain ⟨s, hrun⟩ : ∃ s, run step ((init ⟨fun _ => none⟩).socket false 3) after = some s :=
    Option.isSome_iff_exists.mp (by decide)
  have hbefore : run step (init ⟨fun _ => none⟩) [] = some (init ⟨fun _ => none⟩) := rfl
  have key := (modeAgrees_iff_created hbefore rfl hs₁ (by decide) hrun).mpr ⟨rfl, by decide⟩
  exact ⟨_, s, hs₁, hrun, key after s (List.prefix_refl _) hrun⟩

/-- `FIONBIO` with 0 goes through to the kernel, and `do_io` blocks from then on. -/
theorem mode_disagrees : ¬ ∀ (kernel : Kernel) (before after : List HookAct) (a : HookAct)
    (fd : Nat) (r : Bool) (s₀ s₁ s₂ : FdManager), run step (init kernel) before = some s₀ →
      creates a = some (fd, r) → s₀.step a = some s₁ → .close fd ∉ after →
        run step s₁ after = some s₂ → s₂.ModeAgrees fd (after.foldl (request fd) r) := by
  intro h
  have hrun : run step ((init ⟨fun _ => none⟩).socket false 3) [.ioctl 3 0] =
      some (((init ⟨fun _ => none⟩).socket false 3).fionbio 3 0).2 := rfl
  have hagrees := h ⟨fun _ => none⟩ [] _ (.socket false 3) 3 false _ _ _ rfl rfl rfl
    (by decide) hrun
  exact absurd hagrees.kernel (by decide)

end FdManager
end Workplace.Coroutine
