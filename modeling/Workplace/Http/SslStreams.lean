import Workplace.Http.SslConnection
import Workplace.Lib.Runs

/-! The two streams of bytes of an `SslConnection`. What the peer has sent is decrypted for the
callback; what OpenSSL writes for the peer comes to the write BIO, and from there it has to be
taken to the socket. -/

namespace Workplace.Http
open Workplace.Lib

/-- OpenSSL, with what its calls put into the write BIO. -/
structure OpenSslOut extends OpenSsl where
  SSL_write : State → Bytes → Int × State
  handshakeOut : State → Bytes
  readOut : State → Bytes
  writeOut : State → Bytes → Bytes

/-- What a callback does with the buffer: it retrieves some bytes, and calls `send`. -/
structure Reaction where
  retrieved : Nat
  sends : List Bytes := []

structure Application where
  State : Type
  onMessage : State → Bytes → Reaction × State

structure SslStreams (L : OpenSslOut) (A : Application) extends SslConnection L.toOpenSsl where
  application : A.State
  writeBio_ : Bytes := []
  -- the calls of `conn_->send`, and whether `conn_->shutdown` was called
  sent : List Bytes := []
  shutdown : Bool := false
  -- all that OpenSSL has put into the write BIO
  put : Bytes := []
  -- the calls of `SSL_write`, with what they returned
  writes : List (Bytes × Int) := []
  -- all that `SSL_read` has returned, and all that the callback has retrieved
  read : Bytes := []
  retrieved : Bytes := []

inductive SslCall where
  | startHandShake
  | onRead (buf : Bytes)
  | send (data : Bytes)

namespace SslStreams
variable {L : OpenSslOut} {A : Application}

/-! ## The source -/

def new (ssl : L.State) (application : A.State) : SslStreams L A :=
  { ssl_ := ssl, messageCallback_ := true, application }

/-- A call of OpenSSL that leaves its object as `ssl` and puts `out` into the write BIO. -/
def wrote (c : SslStreams L A) (ssl : L.State) (out : Bytes) : SslStreams L A :=
  { c with ssl_ := ssl, writeBio_ := c.writeBio_ ++ out, put := c.put ++ out }

/-- The loop of `send`, as its calls of `conn_->send`. What `pending` gets is the value of the
comparison with 0, so that a round takes a single byte. -/
def drain : Bytes → List Bytes
  | [] => []
  | b :: bio => [b] :: drain bio

def SSL_write (c : SslStreams L A) (data : Bytes) : Int × SslStreams L A :=
  let (written, ssl) := L.SSL_write c.ssl_ data
  (written, { c.wrote ssl (L.writeOut c.ssl_ data) with writes := c.writes ++ [(data, written)] })

def send (c : SslStreams L A) (data : Bytes) : SslStreams L A :=
  if c.state_ ≠ .ESTABLISHED then c
  else
    let (written, c) := c.SSL_write data
    if written ≤ 0 then c
    else { c with writeBio_ := [], sent := c.sent ++ drain c.writeBio_ }

def handleHandShake (c : SslStreams L A) : SslStreams L A :=
  let (ret, ssl) := L.SSL_do_handshake c.ssl_
  let c := c.wrote ssl (L.handshakeOut c.ssl_)
  match ret with
  | .completed => { c with state_ := .ESTABLISHED }
  | .wantMore => c
  | .failed => { c with shutdown := true }

def startHandShake (c : SslStreams L A) : SslStreams L A := c.handleHandShake

def BIO_write (c : SslStreams L A) (buf : Bytes) : SslStreams L A :=
  { c with ssl_ := L.BIO_write c.ssl_ buf }

/-- `onRead` in state ESTABLISHED, up to the callback: what `SSL_read` returns is appended to
a local buffer. -/
def decrypt (c : SslStreams L A) (buf : Bytes) : SslStreams L A :=
  let c := c.BIO_write buf
  let (data, ssl) := L.SSL_read c.ssl_
  { c.wrote ssl (L.readOut c.ssl_) with read := c.read ++ data.getD [] }

/-- The callback has taken its bytes off `decryptedBuffer_`. -/
def retrieve (c : SslStreams L A) : SslStreams L A :=
  let (reaction, application) := A.onMessage c.application c.decryptedBuffer_
  { c with
    application
    retrieved := c.retrieved ++ c.decryptedBuffer_.take reaction.retrieved
    decryptedBuffer_ := c.decryptedBuffer_.drop reaction.retrieved }

def sends (c : SslStreams L A) : List Bytes :=
  (A.onMessage c.application c.decryptedBuffer_).1.sends

def messageCallback (c : SslStreams L A) : SslStreams L A := c.sends.foldl send c.retrieve

/-- All readable bytes of `buf` are retrieved, in each of the two states. -/
def onRead (c : SslStreams L A) (buf : Bytes) : SslStreams L A :=
  match c.state_ with
  | .HANDSHAKE => (c.BIO_write buf).handleHandShake
  | .ESTABLISHED =>
    let c := c.decrypt buf
    if c.messageCallback_ then c.messageCallback else c
  | .SHUTDOWN | .ERROR => c

def step (c : SslStreams L A) : SslCall → SslStreams L A
  | .startHandShake => c.startHandShake
  | .onRead buf => c.onRead buf
  | .send data => c.send data

/-! ## The connection of a server -/

section Server

variable (s : TlsServer L.toOpenSsl) (c : SslStreams L A) (d : Delivery) (fuel : Nat)

theorem handleHandShake_toSslConnection : s.handleHandShake c.toSslConnection =
    { s with sslConns_ := some c.handleHandShake.toSslConnection } := by
  unfold TlsServer.handleHandShake handleHandShake
  rcases L.SSL_do_handshake c.ssl_ with ⟨ret, ssl⟩
  cases ret <;> rfl

theorem onRead_handshake (hs : s.sslConns_ = some c.toSslConnection)
    (hstate : c.state_ = .HANDSHAKE) : s.onRead (fuel + 1) .input d =
      some ({ s with sslConns_ := some (c.onRead s.conn.inputBuffer).toSslConnection }.setBuffer
        .input []) := by
  obtain ⟨⟨ssl, state, decrypted, set⟩, app, bio, sent, shutdown, put, writes, read, taken⟩ := c
  obtain rfl : state = .HANDSHAKE := hstate
  let c : SslStreams L A := ⟨⟨L.BIO_write ssl (s.readable .input), .HANDSHAKE, decrypted, set⟩,
    app, bio, sent, shutdown, put, writes, read, taken⟩
  simp only [TlsServer.onRead, hs]
  exact congrArg some (handleHandShake_toSslConnection
    ({ s with sslConns_ := some c.toSslConnection }.setBuffer .input []) c)

theorem onRead_established (hs : s.sslConns_ = some c.toSslConnection)
    (hstate : c.state_ = .ESTABLISHED) (hcb : c.messageCallback_ = true) :
    s.onRead (fuel + 1) .input d = TlsServer.onMessageWith (fun s buf => s.onRead fuel buf d)
      ({ s with sslConns_ := some (c.decrypt s.conn.inputBuffer).toSslConnection }.setBuffer
        .input []) .decrypted d := by
  obtain ⟨⟨ssl, state, decrypted, set⟩⟩ := c
  obtain rfl : state = .ESTABLISHED := hstate
  obtain rfl : set = true := hcb
  simp only [TlsServer.onRead, hs]
  rfl

end Server

variable {c : SslStreams L A} {data buf : Bytes}

theorem flatten_drain (bio : Bytes) : (drain bio).flatten = bio := by
  induction bio with
  | nil => rfl
  | cons b bio ih => rw [drain, List.flatten_cons, ih, List.singleton_append]

theorem handleHandShake_eq (c : SslStreams L A) : ∃ state shutdown, c.handleHandShake =
    { c.wrote (L.SSL_do_handshake c.ssl_).2 (L.handshakeOut c.ssl_) with
      state_ := state, shutdown } := by
  unfold handleHandShake
  rcases L.SSL_do_handshake c.ssl_ with ⟨ret, ssl⟩
  cases ret with
  | completed => exact ⟨.ESTABLISHED, c.shutdown, rfl⟩
  | wantMore => exact ⟨c.state_, c.shutdown, rfl⟩
  | failed => exact ⟨c.state_, true, rfl⟩

/-! ## From the peer to the callback -/

/-- All that was made available to the callback. -/
def available (c : SslStreams L A) : Bytes := c.retrieved ++ c.decryptedBuffer_

/-- What OpenSSL promises about `SSL_read`. `plaintext` is the application data that it has
decrypted, or can decrypt from the bytes it was given, and has not returned. -/
structure Decrypts (L : OpenSslOut) (plaintext : L.State → Bytes) : Prop where
  BIO_write : ∀ ssl data, plaintext ssl <+: plaintext (L.BIO_write ssl data)
  SSL_do_handshake : ∀ ssl, plaintext ssl <+: plaintext (L.SSL_do_handshake ssl).2
  SSL_write : ∀ ssl data, plaintext (L.SSL_write ssl data).2 = plaintext ssl
  SSL_read : ∀ ssl, plaintext ssl = (L.SSL_read ssl).1.getD [] ++ plaintext (L.SSL_read ssl).2
  SSL_read_some : ∀ ssl data, (L.SSL_read ssl).1 = some data → data ≠ [] ∧ data.length ≤ 4096
  SSL_read_none : ∀ ssl, (L.SSL_read ssl).1 = none → plaintext ssl = []

/-- All application data of the chunks so far. -/
def decrypted (plaintext : L.State → Bytes) (c : SslStreams L A) : Bytes :=
  c.read ++ plaintext c.ssl_

variable {plaintext : L.State → Bytes}

theorem available_retrieve (c : SslStreams L A) : c.retrieve.available = c.available := by
  simp only [retrieve, available, List.append_assoc, List.take_append_drop]

theorem send_keeps (h : Decrypts L plaintext) (c : SslStreams L A) (data : Bytes) :
    (c.send data).available = c.available ∧
      (c.send data).decrypted plaintext = c.decrypted plaintext := by
  have hssl := congrArg (c.read ++ ·) (h.SSL_write c.ssl_ data)
  unfold send
  dsimp only
  split_ifs
  · exact ⟨rfl, rfl⟩
  · exact ⟨rfl, hssl⟩
  · exact ⟨rfl, hssl⟩

theorem sends_keep (h : Decrypts L plaintext) (ds : List Bytes) (c : SslStreams L A) :
    (ds.foldl send c).available = c.available ∧
      (ds.foldl send c).decrypted plaintext = c.decrypted plaintext := by
  induction ds generalizing c with
  | nil => exact ⟨rfl, rfl⟩
  | cons d ds ih =>
    obtain ⟨havail, hdec⟩ := ih (c.send d)
    exact ⟨havail.trans (send_keeps h c d).1, hdec.trans (send_keeps h c d).2⟩

theorem messageCallback_keeps (h : Decrypts L plaintext) (c : SslStreams L A) :
    c.messageCallback.available = c.available ∧
      c.messageCallback.decrypted plaintext = c.decrypted plaintext := by
  obtain ⟨havail, hdec⟩ := sends_keep h c.sends c.retrieve
  exact ⟨havail.trans c.available_retrieve, hdec⟩

theorem handleHandShake_keeps (plaintext : L.State → Bytes) (c : SslStreams L A) :
    c.handleHandShake.available = c.available ∧ c.handleHandShake.decrypted plaintext =
      c.read ++ plaintext (L.SSL_do_handshake c.ssl_).2 := by
  obtain ⟨state, shutdown, heq⟩ := c.handleHandShake_eq
  rw [heq]
  exact ⟨rfl, rfl⟩

theorem decrypt_keeps (h : Decrypts L plaintext) (c : SslStreams L A) (buf : Bytes) :
    (c.decrypt buf).available = c.available ∧ (c.decrypt buf).decrypted plaintext =
      c.read ++ plaintext (L.BIO_write c.ssl_ buf) := by
  refine ⟨rfl, ?_⟩
  rw [h.SSL_read, ← List.append_assoc]
  rfl

/-- The data that OpenSSL has for `SSL_read` once it is given the bytes of the call. -/
def pendingData (plaintext : L.State → Bytes) (c : SslStreams L A) : SslCall → Bytes
  | .startHandShake => plaintext (L.SSL_do_handshake c.ssl_).2
  | .send _ => plaintext c.ssl_
  | .onRead buf =>
    match c.state_ with
    | .HANDSHAKE => plaintext (L.SSL_do_handshake (L.BIO_write c.ssl_ buf)).2
    | .ESTABLISHED => plaintext (L.BIO_write c.ssl_ buf)
    | .SHUTDOWN | .ERROR => plaintext c.ssl_

theorem prefix_pendingData (h : Decrypts L plaintext) (c : SslStreams L A) (call : SslCall) :
    plaintext c.ssl_ <+: c.pendingData plaintext call := by
  cases call with
  | startHandShake => exact h.SSL_do_handshake c.ssl_
  | send data => exact List.prefix_rfl
  | onRead buf =>
    have hbio : plaintext c.ssl_ <+: plaintext (L.BIO_write c.ssl_ buf) := h.BIO_write c.ssl_ buf
    unfold pendingData
    cases c.state_ with
    | HANDSHAKE => exact hbio.trans (h.SSL_do_handshake _)
    | ESTABLISHED => exact hbio
    | SHUTDOWN => exact List.prefix_rfl
    | ERROR => exact List.prefix_rfl

/-- No call adds to what is made available, whatever data it brings. -/
theorem step_keeps (h : Decrypts L plaintext) (c : SslStreams L A) (call : SslCall) :
    (c.step call).available = c.available ∧
      (c.step call).decrypted plaintext = c.read ++ c.pendingData plaintext call := by
  cases call with
  | startHandShake => exact handleHandShake_keeps plaintext c
  | send data => exact send_keeps h c data
  | onRead buf =>
    show (c.onRead buf).available = _ ∧ (c.onRead buf).decrypted plaintext = _
    unfold onRead pendingData
    cases c.state_ with
    | HANDSHAKE => exact handleHandShake_keeps plaintext (c.BIO_write buf)
    | ESTABLISHED =>
      obtain ⟨havail, hdec⟩ := decrypt_keeps h c buf
      obtain ⟨havail', hdec'⟩ := messageCallback_keeps h (c.decrypt buf)
      dsimp only
      split_ifs
      · exact ⟨havail'.trans havail, hdec'.trans hdec⟩
      · exact ⟨havail, hdec⟩
    | SHUTDOWN => exact ⟨rfl, rfl⟩
    | ERROR => exact ⟨rfl, rfl⟩

theorem calls_available (h : Decrypts L plaintext) (calls : List SslCall)
    (c : SslStreams L A) : (calls.foldl step c).available = c.available := by
  induction calls generalizing c with
  | nil => rfl
  | cons call calls ih => exact (ih (c.step call)).trans (step_keeps h c call).1

theorem step_decrypted_nil (h : Decrypts L plaintext) (c : SslStreams L A) (call : SslCall) :
    (c.step call).decrypted plaintext = [] ↔
      c.decrypted plaintext = [] ∧ c.pendingData plaintext call = [] := by
  rw [(step_keeps h c call).2, decrypted, List.append_eq_nil_iff, List.append_eq_nil_iff]
  constructor
  · rintro ⟨hread, hpending⟩
    have hnone := c.prefix_pendingData h call
    rw [hpending, List.prefix_nil] at hnone
    exact ⟨⟨hread, hnone⟩, hpending⟩
  · exact fun ⟨⟨hread, _⟩, hpending⟩ => ⟨hread, hpending⟩

theorem calls_decrypted_nil (h : Decrypts L plaintext) (calls : List SslCall)
    (c : SslStreams L A) (hc : c.decrypted plaintext = []) :
    (∀ before, before <+: calls → (before.foldl step c).decrypted plaintext = []) ↔
      Guarded (fun c call => c.pendingData plaintext call = []) (fun c call => some (c.step call))
        c calls := by
  induction calls generalizing c with
  | nil =>
    refine iff_of_true (fun before hbefore => ?_) trivial
    rw [List.prefix_nil.mp hbefore]
    exact hc
  | cons call calls ih =>
    rw [guarded_some_cons]
    constructor
    · intro hall
      have hstep : (c.step call).decrypted plaintext = [] := hall [call] ⟨calls, rfl⟩
      refine ⟨((step_decrypted_nil h c call).mp hstep).2, (ih _ hstep).mp fun before hbefore => ?_⟩
      exact hall (call :: before) (List.cons_prefix_cons.mpr ⟨rfl, hbefore⟩)
    · rintro ⟨hpending, hcalls⟩ before hbefore
      have hstep := (step_decrypted_nil h c call).mpr ⟨hc, hpending⟩
      cases before with
      | nil => exact hc
      | cons call' before =>
        obtain ⟨rfl, hprefix⟩ := List.cons_prefix_cons.mp hbefore
        exact (ih _ hstep).mpr hcalls before hprefix

/-- **The callback never gets a byte.** The data is made available at every point of a run
exactly when no call brings any. -/
theorem available_iff_no_data (h : Decrypts L plaintext) (ssl : L.State)
    (hssl : plaintext ssl = []) (application : A.State) (calls : List SslCall) :
    (∀ before, before <+: calls → (before.foldl step (new ssl application)).available =
        (before.foldl step (new ssl application)).decrypted plaintext) ↔
      Guarded (fun c call => pendingData plaintext c call = []) (fun c call => some (c.step call))
        (new ssl application : SslStreams L A) calls := by
  rw [← calls_decrypted_nil h calls (new ssl application) hssl]
  refine forall₂_congr fun before _ => ?_
  have hnone : (before.foldl step (new ssl application : SslStreams L A)).available = [] :=
    calls_available h before _
  rw [hnone, eq_comm]

/-- A library without a cipher. A record is its type and its content, one in a chunk; type 22
is a part of the handshake and 23 is application data. -/
def nullCipher : OpenSslOut where
  State := Bytes
  BIO_write (ssl : Bytes) data := if data.head? = some 23 then ssl ++ data.tail else ssl
  SSL_read (ssl : Bytes) := (if ssl = [] then none else some (ssl.take 4096), ssl.drop 4096)
  SSL_do_handshake ssl := (.completed, ssl)
  SSL_write ssl data := (data.length, ssl)
  handshakeOut _ := [22]
  readOut _ := []
  writeOut _ data := 23 :: data

def reader : Application where
  State := Unit
  onMessage _ buf := ({ retrieved := buf.length }, ())

theorem decrypts_nullCipher : Decrypts nullCipher fun ssl => ssl where
  BIO_write (ssl : Bytes) data := by
    show ssl <+: if data.head? = some 23 then ssl ++ data.tail else ssl
    split_ifs
    · exact List.prefix_append _ _
    · exact List.prefix_rfl
  SSL_do_handshake _ := List.prefix_rfl
  SSL_write _ _ := rfl
  SSL_read (ssl : Bytes) := by
    show ssl = (if ssl = [] then none else some (ssl.take 4096)).getD [] ++ ssl.drop 4096
    split_ifs with h
    · rw [h]
      rfl
    · exact (List.take_append_drop 4096 ssl).symm
  SSL_read_some (ssl : Bytes) data h := by
    change (if ssl = [] then none else some (ssl.take 4096)) = some data at h
    split_ifs at h with hne
    obtain rfl := Option.some.inj h
    refine ⟨fun htake => ?_, List.length_take_le _ _⟩
    rcases List.take_eq_nil_iff.mp htake with h0 | h0
    · cases h0
    · exact hne h0
  SSL_read_none (ssl : Bytes) h := by
    change (if ssl = [] then none else some (ssl.take 4096)) = none at h
    split_ifs at h with hne
    exact hne

/-- An alert comes in, and no data. -/
theorem available_iff_no_data_alert :
    let c : SslStreams nullCipher reader := new ([] : Bytes) ()
    ∀ before, before <+: [.startHandShake, .onRead [21, 1, 0]] →
      (before.foldl step c).available = (before.foldl step c).decrypted fun ssl => ssl :=
  (available_iff_no_data (A := reader) decrypts_nullCipher ([] : Bytes) rfl () _).mpr
    (guarded_some_cons.mpr ⟨rfl, guarded_some_cons.mpr ⟨rfl, trivial⟩⟩)

/-- One byte of data after the handshake. -/
theorem data_is_lost : ¬ ∀ (L : OpenSslOut) (plaintext : L.State → Bytes) (A : Application)
    (ssl : L.State) (application : A.State) (calls : List SslCall), Decrypts L plaintext →
      (calls.foldl step (new ssl application)).state_ = .ESTABLISHED →
        (calls.foldl step (new ssl application)).available =
          (calls.foldl step (new ssl application)).decrypted plaintext := by
  intro h
  have hlost := h nullCipher (fun ssl => ssl) reader [] () [.startHandShake, .onRead [23, 120]]
    decrypts_nullCipher rfl
  revert hlost
  decide

/-! ## From OpenSSL to the peer -/

/-- Nothing is left in the write BIO, and every `SSL_write` has taken all its data. -/
structure Flushed (c : SslStreams L A) : Prop where
  empty : c.writeBio_ = []
  sent : c.sent.flatten = c.put
  whole : ∀ w ∈ c.writes, w.2 = w.1.length

/-- The states in which a call returns, those of the callback before the call itself. -/
def returns (c : SslStreams L A) : SslCall → List (SslStreams L A)
  | .startHandShake => [c.startHandShake]
  | .send data => [c.send data]
  | .onRead buf =>
    let inner := if c.state_ = .ESTABLISHED ∧ c.messageCallback_ = true then
        ((c.decrypt buf).sends.scanl send (c.decrypt buf).retrieve).tail else []
    inner ++ [c.onRead buf]

/-- `SSL_write` takes all data at once; when there is none, `send` returns before its loop. -/
def SendFlushes (c : SslStreams L A) (data : Bytes) : Prop :=
  c.state_ = .ESTABLISHED → (L.SSL_write c.ssl_ data).1 = data.length ∧
    (data = [] → c.writeBio_ = [] ∧ L.writeOut c.ssl_ data = [])

/-- The handshake puts nothing into the write BIO, and nor does `SSL_read` unless the callback
sends something. -/
def Flushes (c : SslStreams L A) : SslCall → Prop
  | .startHandShake => L.handshakeOut c.ssl_ = []
  | .send data => c.SendFlushes data
  | .onRead buf =>
    match c.state_ with
    | .HANDSHAKE => L.handshakeOut (c.BIO_write buf).ssl_ = []
    | .ESTABLISHED =>
      let sends := if c.messageCallback_ then (c.decrypt buf).sends else []
      (sends = [] → L.readOut (c.BIO_write buf).ssl_ = []) ∧
        Guarded SendFlushes (fun c data => some (c.send data)) (c.decrypt buf).retrieve sends
    | .SHUTDOWN | .ERROR => True

/-- What holds also while bytes are waiting in the write BIO: none is lost, or out of order. -/
structure InOrder (c : SslStreams L A) : Prop where
  order : c.sent.flatten ++ c.writeBio_ = c.put
  whole : ∀ w ∈ c.writes, w.2 = w.1.length

theorem Flushed.inOrder (h : c.Flushed) : c.InOrder :=
  ⟨by rw [h.empty, h.sent, List.append_nil], h.whole⟩

theorem InOrder.flushed_iff (h : c.InOrder) : c.Flushed ↔ c.writeBio_ = [] := by
  refine ⟨Flushed.empty, fun hempty => ⟨hempty, ?_, h.whole⟩⟩
  rw [← h.order, hempty, List.append_nil]

theorem InOrder.wrote (h : c.InOrder) (ssl : L.State) (out : Bytes) : (c.wrote ssl out).InOrder :=
  ⟨(List.append_assoc _ _ _).symm.trans (congrArg (· ++ out) h.order), h.whole⟩

theorem flushed_new (ssl : L.State) (application : A.State) :
    (new ssl application : SslStreams L A).Flushed := ⟨rfl, rfl, by simp [new]⟩

theorem send_state (c : SslStreams L A) (data : Bytes) : (c.send data).state_ = c.state_ := by
  unfold send
  dsimp only
  split_ifs <;> rfl

theorem InOrder.send_flushed_iff (h : c.InOrder) (hstate : c.state_ = .ESTABLISHED) :
    (c.send data).Flushed ↔ c.SendFlushes data := by
  set written := (L.SSL_write c.ssl_ data).1 with hwritten
  have horder := h.wrote (L.SSL_write c.ssl_ data).2 (L.writeOut c.ssl_ data)
  have hwhole : (∀ w ∈ c.writes ++ [(data, written)], w.2 = w.1.length) ↔
      written = data.length := by
    simp only [List.mem_append, or_imp, forall_and, List.mem_singleton, forall_eq]
    exact and_iff_right h.whole
  have hdata : data = [] ↔ (data.length : Int) = 0 := by simp
  rw [SendFlushes, ← hwritten, hdata, ← List.append_eq_nil_iff, send, if_neg (not_not.mpr hstate)]
  dsimp only [SSL_write]
  rw [← hwritten]
  split_ifs with hle
  · constructor
    · exact fun hf _ => ⟨hwhole.mp hf.whole, fun _ => hf.empty⟩
    · intro hflushes
      obtain ⟨hw, hempty⟩ := hflushes hstate
      have hlen : (data.length : Int) = 0 := by omega
      exact (InOrder.mk (c := (c.SSL_write data).2) horder.order (hwhole.mpr hw)).flushed_iff.mpr
        (hempty hlen)
  · constructor
    · refine fun hf _ => ⟨hwhole.mp hf.whole, fun hlen => ?_⟩
      have hw : written = data.length := hwhole.mp hf.whole
      omega
    · intro hflushes
      refine ⟨rfl, ?_, hwhole.mpr (hflushes hstate).1⟩
      rw [List.flatten_append, flatten_drain]
      exact horder.order

theorem Flushed.send_flushed_iff (h : c.Flushed) :
    (c.send data).Flushed ↔ c.SendFlushes data := by
  by_cases hstate : c.state_ = .ESTABLISHED
  · exact h.inOrder.send_flushed_iff hstate
  · have hself : c.send data = c := if_pos hstate
    rw [hself]
    exact iff_of_true h fun he => absurd he hstate

theorem Flushed.handleHandShake_iff (h : c.Flushed) :
    c.handleHandShake.Flushed ↔ L.handshakeOut c.ssl_ = [] := by
  have horder := h.inOrder.wrote (L.SSL_do_handshake c.ssl_).2 (L.handshakeOut c.ssl_)
  obtain ⟨state, shutdown, heq⟩ := c.handleHandShake_eq
  have hshake : c.handleHandShake.InOrder := heq ▸ ⟨horder.order, horder.whole⟩
  have hbio : c.handleHandShake.writeBio_ = c.writeBio_ ++ L.handshakeOut c.ssl_ := by
    rw [heq]
    rfl
  rw [hshake.flushed_iff, hbio, h.empty, List.nil_append]

theorem InOrder.sends_flushed (h : c.InOrder) (hstate : c.state_ = .ESTABLISHED) (ds : List Bytes) :
    ((∀ x ∈ (ds.scanl send c).tail, x.Flushed) ∧ (ds.foldl send c).Flushed) ↔
      (ds = [] → c.writeBio_ = []) ∧ Guarded SendFlushes (fun c d => some (c.send d)) c ds := by
  have hiff : ∀ {x : SslStreams L A} {d}, x.InOrder ∧ x.state_ = .ESTABLISHED →
      ((x.send d).Flushed ↔ x.SendFlushes d) := fun hx => hx.1.send_flushed_iff hx.2
  have hkeeps : ∀ {x : SslStreams L A} {d}, x.InOrder ∧ x.state_ = .ESTABLISHED →
      (x.send d).Flushed → (x.send d).InOrder ∧ (x.send d).state_ = .ESTABLISHED :=
    fun {x d} hx hf => ⟨hf.inOrder, (x.send_state d).trans hx.2⟩
  have hguard := Guarded.congr_of_invariant ds @hiff @hkeeps ⟨h, hstate⟩
  rw [forall_mem_scanl_iff, hguard, and_comm]
  refine and_congr_left fun hg => ?_
  cases ds with
  | nil => exact h.flushed_iff.trans ⟨fun he _ => he, fun he => he rfl⟩
  | cons d ds =>
    refine iff_of_true ?_ (by simp)
    obtain ⟨hd, hds⟩ := guarded_some_cons.mp (hguard.mpr hg)
    exact run_invariant ds (fun _ hf hs => Option.some.inj hs ▸ hf) hd hds (run_some send _ ds)

theorem Flushed.onRead_established_iff {c : SslStreams L A} {buf : Bytes} (h : c.Flushed)
    (hstate : c.state_ = .ESTABLISHED) :
    (∀ x ∈ c.returns (.onRead buf), x.Flushed) ↔ c.Flushes (.onRead buf) := by
  have horder := h.inOrder.wrote (L.SSL_read (c.BIO_write buf).ssl_).2
    (L.readOut (c.BIO_write buf).ssl_)
  have hdecrypt : (c.decrypt buf).InOrder := ⟨horder.order, horder.whole⟩
  have hbio : (c.decrypt buf).writeBio_ = L.readOut (c.BIO_write buf).ssl_ := by
    show c.writeBio_ ++ _ = _
    rw [h.empty, List.nil_append]
  have hread : c.onRead buf = if c.messageCallback_ = true then
      (c.decrypt buf).messageCallback else c.decrypt buf := by
    simp only [onRead, hstate]
    rfl
  simp only [returns, Flushes, hstate, true_and, hread]
  rw [← hbio]
  cases c.messageCallback_ with
  | true =>
    simp only [if_true, List.forall_mem_append, List.forall_mem_singleton]
    exact InOrder.sends_flushed (c := (c.decrypt buf).retrieve) ⟨hdecrypt.order, hdecrypt.whole⟩
      hstate _
  | false =>
    simp only [Bool.false_eq_true, if_false, List.nil_append, List.forall_mem_singleton]
    exact hdecrypt.flushed_iff.trans
      ⟨fun hempty => ⟨fun _ => hempty, trivial⟩, fun hg => hg.1 trivial⟩

/-- **One call**: everything has gone out whenever it or a call inside it returns, exactly
under its condition. -/
theorem Flushed.returns_iff (h : c.Flushed) (call : SslCall) :
    (∀ x ∈ c.returns call, x.Flushed) ↔ c.Flushes call := by
  cases call with
  | startHandShake => exact List.forall_mem_singleton.trans h.handleHandShake_iff
  | send data => exact List.forall_mem_singleton.trans h.send_flushed_iff
  | onRead buf =>
    cases hstate : c.state_ with
    | ESTABLISHED => exact h.onRead_established_iff hstate
    | HANDSHAKE =>
      have hbio : (c.BIO_write buf).Flushed := ⟨h.empty, h.sent, h.whole⟩
      simpa [returns, onRead, Flushes, hstate] using hbio.handleHandShake_iff
    | SHUTDOWN => simpa [returns, onRead, Flushes, hstate] using h
    | ERROR => simpa [returns, onRead, Flushes, hstate] using h

theorem step_mem_returns (c : SslStreams L A) (call : SslCall) : c.step call ∈ c.returns call := by
  cases call with
  | startHandShake => exact List.mem_singleton_self _
  | send data => exact List.mem_singleton_self _
  | onRead buf => exact List.mem_append_right _ (List.mem_singleton_self _)

/-- **Everything has gone out** at every return of a run exactly when the handshake has nothing
to send and every `SSL_write` takes all it is given. -/
theorem flushed_iff_flushes (h : c.Flushed) (calls : List SslCall) :
    (∀ before call after, calls = before ++ call :: after →
        ∀ x ∈ (before.foldl step c).returns call, x.Flushed) ↔
      Guarded Flushes (fun c call => some (c.step call)) c calls := by
  have hall : Guarded (fun c call => ∀ x ∈ returns c call, x.Flushed)
      (fun c call => some (c.step call)) c calls ↔ _ := guarded_some_iff calls
  rw [← hall]
  exact Guarded.congr_of_invariant calls (fun hc => hc.returns_iff _)
    (fun {c call} _ hall => hall _ (c.step_mem_returns call)) h

/-- After a handshake whose bytes are gone, a record comes in and one goes out. -/
theorem flushed_iff_flushes_record :
    let c : SslStreams nullCipher reader :=
      { new ([] : Bytes) () with state_ := .ESTABLISHED, put := [22], sent := [[22]] }
    ∀ before call after, [.onRead [23, 120], .send [104, 105]] = before ++ call :: after →
      ∀ x ∈ (before.foldl step c).returns call, x.Flushed := by
  intro c
  have hc : c.Flushed := ⟨rfl, rfl, by simp [c, new]⟩
  refine (flushed_iff_flushes hc _).mpr (guarded_some_cons.mpr ⟨⟨fun _ => rfl, trivial⟩,
    guarded_some_cons.mpr ⟨fun _ => ⟨rfl, fun h => ?_⟩, trivial⟩⟩)
  cases h

/-- The answer to the first message of a handshake stays in the write BIO. -/
theorem handshake_not_sent : ¬ ∀ (L : OpenSslOut) (A : Application) (ssl : L.State)
    (application : A.State) (before : List SslCall) (call : SslCall),
    ∀ x ∈ (before.foldl step (new ssl application : SslStreams L A)).returns call, x.Flushed := by
  intro h
  have hlost := (h nullCipher reader ([] : Bytes) () [] (.onRead [22, 1]) _
    (List.mem_singleton_self _)).empty
  revert hlost
  decide

end SslStreams
end Workplace.Http
