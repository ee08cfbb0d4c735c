import Workplace.Http.Connection

/-! `HttpServer::onMessage` and `SslConnection::onRead` on one connection of a TLS server.
Each calls the other: the server hands what arrived to the connection, and the connection
hands what it decrypted to the server. -/

namespace Workplace.Http

inductive SSLState where
  | HANDSHAKE
  | ESTABLISHED
  | SHUTDOWN
  | ERROR
  deriving DecidableEq, Repr

/-- What `SSL_do_handshake` says: done, waiting for the peer, or an error. -/
inductive HandShake where
  | completed
  | wantMore
  | failed
  deriving DecidableEq, Repr

/-- OpenSSL, as one `SSL` object with its two buffers goes through it. `SSL_read` gives up
to 4096 bytes, or nothing. -/
structure OpenSsl where
  State : Type
  BIO_write : State → Bytes → State
  SSL_read : State → Option Bytes × State
  SSL_do_handshake : State → HandShake × State

variable {L : OpenSsl}

structure SslConnection (L : OpenSsl) where
  ssl_ : L.State
  state_ : SSLState := .HANDSHAKE
  decryptedBuffer_ : Bytes := []
  -- whether it is set; what it is bound to is `HttpServer::onMessage`
  messageCallback_ : Bool := false

/-- A server and one of its connections, with the entry of `sslConns_` for it. -/
structure TlsServer (L : OpenSsl) where
  useSsl_ : Bool := true
  sslConns_ : Option (SslConnection L) := none
  conn : Connection := {}

/-- The two buffers that are passed by their address. -/
inductive BufferPtr where
  | input
  | decrypted
  deriving DecidableEq, Repr

namespace TlsServer

/-! ## The source -/

def readable (s : TlsServer L) : BufferPtr → Bytes
  | .input => s.conn.inputBuffer
  | .decrypted => (s.sslConns_.map (·.decryptedBuffer_)).getD []

def setBuffer (s : TlsServer L) (buf : BufferPtr) (content : Bytes) : TlsServer L :=
  match buf with
  | .input => { s with conn := { s.conn with inputBuffer := content } }
  | .decrypted =>
    { s with sslConns_ := s.sslConns_.map fun c => { c with decryptedBuffer_ := content } }

def handleHandShake (s : TlsServer L) (c : SslConnection L) : TlsServer L :=
  match L.SSL_do_handshake c.ssl_ with
  | (.completed, ssl) => { s with sslConns_ := some { c with ssl_ := ssl, state_ := .ESTABLISHED } }
  -- an error also shuts the sending half of the connection down
  | (_, ssl) => { s with sslConns_ := some { c with ssl_ := ssl } }

/-- `onMessage` after the decision which buffer it reads. -/
def process (s : TlsServer L) (buf : BufferPtr) (d : Delivery) : TlsServer L :=
  let conn := s.conn.afterParse d (s.conn.context.parseRequest (s.readable buf) d.receiveTime)
  let after := { s with conn := { conn with inputBuffer := s.conn.inputBuffer } }
  after.setBuffer buf conn.inputBuffer

/-- `HttpServer::onMessage`, with `onRead` as it is called from it. -/
def onMessageWith (onRead : TlsServer L → BufferPtr → Option (TlsServer L)) (s : TlsServer L)
    (buf : BufferPtr) (d : Delivery) : Option (TlsServer L) :=
  if s.useSsl_ ∧ s.sslConns_.isSome then
    (onRead s buf).map fun s =>
      if (s.sslConns_.map (·.state_)) ≠ some .ESTABLISHED then s
      else if s.readable .decrypted = [] then s
      else s.process .decrypted d
  else some (s.process buf d)

/-- The calls of `onRead` that are open at the same time are at most `fuel`. What is decrypted
goes into a local buffer, and the callback gets the other one. -/
def onRead : Nat → TlsServer L → BufferPtr → Delivery → Option (TlsServer L)
  | 0, _, _, _ => none
  | fuel + 1, s, buf, d =>
    match s.sslConns_ with
    | none => some s
    | some c =>
      match c.state_ with
      | .HANDSHAKE =>
        let c := { c with ssl_ := L.BIO_write c.ssl_ (s.readable buf) }
        let s := { s with sslConns_ := some c }.setBuffer buf []
        some (s.handleHandShake (s.sslConns_.getD c))
      | .ESTABLISHED =>
        let c := { c with ssl_ := (L.SSL_read (L.BIO_write c.ssl_ (s.readable buf))).2 }
        let s := { s with sslConns_ := some c }.setBuffer buf []
        if c.messageCallback_ then onMessageWith (fun s buf => onRead fuel s buf d) s .decrypted d
        else some s
      | .SHUTDOWN | .ERROR => some s

/-- The connection is up: the constructor of `SslConnection` makes `onRead` the callback of
the connection, and the handshake begins. -/
def onConnection (useSsl_ : Bool) (ssl : L.State) : TlsServer L :=
  let s : TlsServer L := { useSsl_ := useSsl_ }
  if useSsl_ then s.handleHandShake { ssl_ := ssl, messageCallback_ := true } else s

/-- Data has arrived. -/
def receive (s : TlsServer L) (d : Delivery) : TlsServer L :=
  { s with conn := { s.conn with inputBuffer := s.conn.inputBuffer ++ d.chunk } }

/-- The call for one chunk ends, and leaves `s'`. -/
def Ends (s : TlsServer L) (d : Delivery) (s' : TlsServer L) : Prop :=
  ∃ fuel, (s.receive d).onRead fuel .input d = some s'

/-- The states of a connection between two chunks. -/
inductive Reachable (ssl : L.State) : TlsServer L → Prop
  | up : Reachable ssl (onConnection true ssl)
  | chunk {s s' : TlsServer L} (d : Delivery) : Reachable ssl s → s.Ends d s' → Reachable ssl s'

/-! ## The two functions call each other -/

variable {s s' : TlsServer L} {c : SslConnection L} {buf : BufferPtr} {d : Delivery}

/-- The connection is in `sslConns_`, with the callback that `onConnection` has set. -/
structure Wired (s : TlsServer L) (state : SSLState) : Prop where
  useSsl_ : s.useSsl_ = true
  entry : ∃ c, s.sslConns_ = some c ∧ c.state_ = state ∧ c.messageCallback_ = true

theorem Wired.found {state : SSLState} (h : Wired s state) : s.useSsl_ ∧ s.sslConns_.isSome := by
  obtain ⟨hu, c, hc, -⟩ := h
  exact ⟨hu, hc ▸ rfl⟩

theorem wired_setBuffer {state : SSLState} (h : Wired s state) (buf : BufferPtr) (content : Bytes) :
    Wired (s.setBuffer buf content) state := by
  obtain ⟨hu, c, hc, hstate, hcb⟩ := h
  cases buf with
  | input => exact ⟨hu, c, hc, hstate, hcb⟩
  | decrypted =>
    exact ⟨hu, { c with decryptedBuffer_ := content }, by simp [setBuffer, hc], hstate, hcb⟩

theorem wired_ssl {state : SSLState} (hu : s.useSsl_ = true) (hstate : c.state_ = state)
    (hcb : c.messageCallback_ = true) (ssl : L.State) :
    Wired { s with sslConns_ := some { c with ssl_ := ssl } } state :=
  ⟨hu, { c with ssl_ := ssl }, rfl, hstate, hcb⟩

theorem wired_handleHandShake (hu : s.useSsl_ = true) (hstate : c.state_ = .HANDSHAKE)
    (hcb : c.messageCallback_ = true) :
    Wired (s.handleHandShake c) .ESTABLISHED ∨ Wired (s.handleHandShake c) .HANDSHAKE := by
  unfold handleHandShake
  rcases L.SSL_do_handshake c.ssl_ with ⟨result, ssl⟩
  cases result with
  | completed => exact .inl ⟨hu, { c with ssl_ := ssl, state_ := .ESTABLISHED }, rfl, rfl, hcb⟩
  | wantMore => exact .inr (wired_ssl hu hstate hcb ssl)
  | failed => exact .inr (wired_ssl hu hstate hcb ssl)

theorem onRead_established (h : Wired s .ESTABLISHED) (fuel : Nat) :
    s.onRead fuel buf d = none := by
  induction fuel generalizing s buf with
  | zero => rfl
  | succ fuel ih =>
    obtain ⟨hu, c, hc, hstate, hcb⟩ := h
    have hwired := wired_setBuffer (wired_ssl hu hstate hcb
      (L.SSL_read (L.BIO_write c.ssl_ (s.readable buf))).2) buf []
    rw [hstate, hcb] at hwired
    simp only [onRead, hc, hstate, hcb, if_true]
    rw [onMessageWith, if_pos hwired.found, ih hwired, Option.map_none]

theorem onRead_handshake (h : Wired s .HANDSHAKE) (fuel : Nat) :
    ∃ s', s.onRead (fuel + 1) buf d = some s' ∧ (Wired s' .ESTABLISHED ∨ Wired s' .HANDSHAKE) := by
  obtain ⟨hu, c, hc, hstate, hcb⟩ := h
  have hwired := wired_setBuffer
    (wired_ssl hu hstate hcb (L.BIO_write c.ssl_ (s.readable buf))) buf []
  rw [hstate] at hwired
  obtain ⟨hu', c', hc', hstate', hcb'⟩ := hwired
  simp only [onRead, hc, hstate]
  refine ⟨_, rfl, ?_⟩
  rw [hc', Option.getD_some]
  exact wired_handleHandShake hu' hstate' hcb'

theorem wired_receive {state : SSLState} (h : Wired s state) (d : Delivery) :
    Wired (s.receive d) state := ⟨h.useSsl_, h.entry⟩

theorem Reachable.wired {ssl : L.State} (h : Reachable ssl s) :
    Wired s .ESTABLISHED ∨ Wired s .HANDSHAKE := by
  induction h with
  | up => exact wired_handleHandShake rfl rfl rfl
  | @chunk s s' d _ hends ih =>
    obtain ⟨fuel, hf⟩ := hends
    rcases ih with hw | hw
    · rw [onRead_established (wired_receive hw d)] at hf
      cases hf
    · cases fuel with
      | zero => cases hf
      | succ fuel =>
        obtain ⟨s₁, hs₁, hw₁⟩ : ∃ s₁, (s.receive d).onRead (fuel + 1) .input d = some s₁ ∧
            (Wired s₁ .ESTABLISHED ∨ Wired s₁ .HANDSHAKE) :=
          onRead_handshake (wired_receive hw d) fuel
        rw [hs₁] at hf
        exact Option.some.inj hf ▸ hw₁

/-- **No chunk is ever delivered.** After the handshake the call for a chunk does not end,
for any connection, any chunk and any behaviour of the library. -/
theorem delivery_never_ends {ssl : L.State} (h : Reachable ssl s)
    (hstate : s.sslConns_.map (·.state_) = some .ESTABLISHED) (d : Delivery) :
    ¬ ∃ s', s.Ends d s' := by
  rintro ⟨s', fuel, hf⟩
  rcases h.wired with hw | ⟨-, c, hc, hs, -⟩
  · rw [onRead_established (wired_receive hw d)] at hf
    cases hf
  · rw [hc, Option.map_some, hs] at hstate
    cases hstate

/-- A library whose handshakes succeed at once and that decrypts nothing. -/
def plainSsl : OpenSsl where
  State := Unit
  BIO_write _ _ := ()
  SSL_read _ := (none, ())
  SSL_do_handshake _ := (.completed, ())

theorem delivery_never_ends_plain : Reachable (L := plainSsl) () (onConnection true ()) ∧
    ¬ ∃ s', (onConnection (L := plainSsl) true ()).Ends { chunk := bytes "x" } s' :=
  ⟨.up, delivery_never_ends .up rfl _⟩

theorem delivery_hangs : ¬ ∀ (L : OpenSsl) (ssl : L.State) (s : TlsServer L), Reachable ssl s →
    s.sslConns_.map (·.state_) = some .ESTABLISHED → ∀ d : Delivery, ∃ s', s.Ends d s' := by
  intro h
  obtain ⟨s', fuel, hf⟩ := h plainSsl () _ .up rfl { chunk := bytes "x" }
  rw [onRead_established ⟨rfl, _, rfl, rfl, rfl⟩] at hf
  cases hf

end TlsServer
end Workplace.Http
