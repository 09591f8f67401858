import Sone.Transition.Machine
import Sone.Client.Protocol

/-!
# The connection of a client

`SyncConnection` (`client/src/connection.ts`) owns the socket of a client: it opens one, sends
the credentials, hands the frames of documents to the store, and opens the next one, after a
delay, when the socket is lost. `clientConnection` steps through it callback by callback: calls
from outside, timers, and the events of every socket it ever made, in any order the platform
may deliver them. The close event of a socket comes at any time after `close()` was called on
it, or by itself.

The handlers of a socket do not ask whether it still is the connection's. A socket whose
handshake timed out is given up, and another may have taken its place when its close event
comes: the handler then drops the new one, which stays open and goes on handing in frames, and
schedules a third. `oneSocket_of_reachesWhen` says that none of this happens in the runs where no
superseded socket is heard of (`Confuses`).

A socket is also left behind where `fatal` closes it with the code 1008 and the platform throws
on that code.
-/

namespace Sone.Client

open List Option

universe u

inductive ConnectionState where
  | idle
  | connecting
  | authenticating
  | ready
  | reconnecting
  | closed
  deriving DecidableEq, Repr

/-- A state in which `connect` does nothing. -/
def ConnectionState.isActive : ConnectionState → Bool
  | connecting | authenticating | ready => true
  | idle | reconnecting | closed => false

/-- The kind of a `ConnectionFailure`. -/
inductive FailureKind where
  | unreachable
  | noAuthResponse
  | closed
  deriving DecidableEq, Repr

inductive HandshakeStage where
  | connecting
  | authenticating
  deriving DecidableEq, Repr

/-- What it means that the timer fires. -/
def HandshakeStage.failureKind : HandshakeStage → FailureKind
  | connecting => .unreachable
  | authenticating => .noAuthResponse

structure ConnectionFailure where
  kind : FailureKind
  attempts : ℕ
  deriving DecidableEq, Repr

structure Credentials where
  workspaceId : String
  sessionToken : Option String
  shareToken : Option String
  displayName : Option String
  sharePassword : Option String
  shareSessionId : Option String
  deriving DecidableEq, Repr

/-- The `readyState` of a socket. -/
inductive ReadyState where
  | connecting
  | opened
  /-- `close()` was called. -/
  | closing
  /-- The close event has come. -/
  | closed
  deriving DecidableEq, Repr

/-- What a message event carries. -/
inductive SocketData (P : Type u) where
  /-- Not binary. -/
  | text
  /-- `decodeServerFrame` throws. -/
  | undecodable (message : String)
  | frame (frame : ServerFrame P)
  deriving DecidableEq, Repr

/-- A frame that was handed to the store: the socket it came from, and the one that was current
then. -/
structure HandedFrame (P : Type u) where
  frame : ServerFrame P
  socket : ℕ
  current : Option ℕ
  deriving DecidableEq, Repr

/-- A close event: the socket it came from, and which one was current before and after it. -/
structure CloseEvent where
  socket : ℕ
  before : Option ℕ
  after : Option ℕ
  deriving DecidableEq, Repr

/-- **The sockets of a connection**: all that it made, in order, and which one is current, with
a record of what they did to it. -/
structure Sockets (P : Type u) where
  all : List ReadyState
  /-- `this.socket`. -/
  current : Option ℕ
  handed : List (HandedFrame P)
  closings : List CloseEvent
  deriving DecidableEq, Repr

/-- What the connection tells, apart from the frames it hands to the store. -/
inductive ConnectionOutput where
  | stateChange (next previous : ConnectionState)
  | reconnect
  | authenticated
  | notify (scope : String)
  | fatal (code detail : String)
  | shareSession (shareSessionId : String)
  | passwordRequired
  | connectionTrouble (failure : ConnectionFailure)
  deriving DecidableEq, Repr

/-- `SyncConnection`. Of the handshake and ping timers there is at most one; a reconnect timer
may be running although `reconnectTimer` holds another one. -/
structure SyncConnection (P : Type u) where
  credentials : Credentials
  sockets : Sockets P := ⟨[], none, [], []⟩
  state : ConnectionState := .idle
  attempt : ℕ := 0
  reconnectTimer : Option ℕ := none
  /-- The reconnect timers that are running. -/
  reconnectTimers : List ℕ := []
  timersMade : ℕ := 0
  handshakeTimer : Option HandshakeStage := none
  failedAttempts : ℕ := 0
  lastFailure : Option ConnectionFailure := none
  pingTimer : Bool := false
  hasConnectedBefore : Bool := false
  deliberatelyClosed : Bool := false
  authAck : Option AuthAck := none
  told : List ConnectionOutput := []
  /-- What was sent, by socket. -/
  sent : List (ℕ × ClientFrame P) := []
  deriving DecidableEq, Repr

structure SocketEnv where
  /-- Whether `close` takes the code 1008: in browsers it throws on codes that are neither 1000
  nor from 3000 to 4999. -/
  accepts1008 : Bool
  /-- Whether the keepalive is on. -/
  pings : Bool

inductive SocketEvent (P : Type u) where
  /-- `connect()`; the socket factory returns, or throws. -/
  | connect (made : Bool)
  /-- `close()`. -/
  | close
  /-- `retryAuth()`. -/
  | retryAuth (sharePassword : String) (made : Bool)
  /-- `send()`. -/
  | sends (frame : ClientFrame P)
  /-- A reconnect timer fires. -/
  | reconnects (timer : ℕ) (made : Bool)
  /-- The handshake timer fires. -/
  | handshakeTimesOut
  /-- The keepalive fires. -/
  | pings
  | opens (socket : ℕ)
  | receives (socket : ℕ) (data : SocketData P)
  | errs (socket : ℕ)
  | closes (socket : ℕ) (code : Option ℕ)

/-- Whether an event calls `connect`, with a factory that returns. -/
def SocketEvent.makes {P : Type u} : SocketEvent P → Bool
  | connect made | retryAuth _ made | reconnects _ made => made
  | _ => false

namespace Sockets

variable {P : Type u} (sockets : Sockets P)

/-- A socket **is live**: it was made, neither `close()` was called on it nor has it closed. -/
def IsLive (i : ℕ) : Prop := sockets.all[i]? = some .connecting ∨ sockets.all[i]? = some .opened

instance (i : ℕ) : Decidable (sockets.IsLive i) := inferInstanceAs (Decidable (_ ∨ _))

/-- A socket that the factory made, which is current from then on. -/
def make : Sockets P :=
  { sockets with
    all := sockets.all ++ [.connecting]
    current := some sockets.all.length }

/-- `readyState` after `close()`. -/
def close (i : ℕ) : Sockets P :=
  { sockets with
    all := sockets.all.modify i fun state => if state = .closed then .closed else .closing }

/-- `this.socket?.close()`, and no socket is current any more. -/
def drop : Sockets P :=
  match sockets.current with
  | none => sockets
  | some i => { sockets.close i with current := none }

def onOpen (i : ℕ) : Sockets P := { sockets with all := sockets.all.set i .opened }

/-- A close event: the socket is closed, and no socket is current any more. -/
def onClose (i : ℕ) : Sockets P :=
  { sockets with
    all := sockets.all.set i .closed
    current := none
    closings := sockets.closings ++ [⟨i, sockets.current, none⟩] }

def hand (i : ℕ) (frame : ServerFrame P) : Sockets P :=
  { sockets with handed := sockets.handed ++ [⟨frame, i, sockets.current⟩] }

/-- **What must hold of the sockets**: at most one is live, what is handed to the store comes
from the one that is current, and the close event of another leaves that one current. -/
structure IsSound : Prop where
  oneLive : ∀ i j, sockets.IsLive i → sockets.IsLive j → i = j
  fromCurrent : ∀ handed ∈ sockets.handed, handed.current = some handed.socket
  keepsCurrent : ∀ closing ∈ sockets.closings, closing.before ≠ some closing.socket →
    closing.after = closing.before

/-- **The invariant**: a socket that is live is current. -/
structure Inv : Prop where
  current : ∀ i, sockets.IsLive i → sockets.current = some i
  fromCurrent : ∀ handed ∈ sockets.handed, handed.current = some handed.socket
  keepsCurrent : ∀ closing ∈ sockets.closings, closing.before ≠ some closing.socket →
    closing.after = closing.before

variable {sockets} {i j : ℕ}

theorem Inv.isSound (h : sockets.Inv) : sockets.IsSound where
  oneLive i j hi hj := some.inj ((h.current i hi).symm.trans (h.current j hj))
  fromCurrent := h.fromCurrent
  keepsCurrent := h.keepsCurrent

theorem Inv.make (h : sockets.Inv) (hnone : sockets.current = none) : sockets.make.Inv := by
  refine ⟨fun i hi => ?_, h.fromCurrent, h.keepsCurrent⟩
  by_cases hlt : i < sockets.all.length
  · -- none was live
    have hlive : sockets.IsLive i := by
      simpa only [IsLive, Sockets.make, List.getElem?_append_left hlt] using hi
    have hcurrent := h.current i hlive
    rw [hnone] at hcurrent
    simp at hcurrent
  · have hlength : i < (sockets.all ++ [ReadyState.connecting]).length := by
      by_contra hge
      rw [IsLive, Sockets.make, List.getElem?_eq_none (not_lt.mp hge)] at hi
      simp at hi
    rw [length_append, length_singleton] at hlength
    rw [Sockets.make, Option.some.injEq]
    omega

theorem Inv.drop (h : sockets.Inv) : sockets.drop.Inv := by
  rw [Sockets.drop]
  split
  · exact h
  · rename_i i hcurrent
    refine ⟨fun j hj => ?_, h.fromCurrent, h.keepsCurrent⟩
    by_cases hij : i = j
    · subst hij
      rw [IsLive, Sockets.close, List.getElem?_modify_eq] at hj
      cases hstate : sockets.all[i]? with
      | none => simp [hstate] at hj
      | some state => cases state <;> simp [hstate] at hj
    · have hlive : sockets.IsLive j := by
        simpa only [IsLive, Sockets.close, List.getElem?_modify_ne _ _ hij] using hj
      exact absurd (some.inj (hcurrent.symm.trans (h.current j hlive))) hij

theorem Inv.onOpen (h : sockets.Inv) (hi : sockets.all[i]? = some .connecting) :
    (sockets.onOpen i).Inv := by
  refine ⟨fun j hj => h.current j ?_, h.fromCurrent, h.keepsCurrent⟩
  by_cases hij : i = j
  · subst hij
    exact .inl hi
  · simpa only [IsLive, Sockets.onOpen, List.getElem?_set_ne hij] using hj

theorem Inv.onClose (h : sockets.Inv) (hi : ∀ current ∈ sockets.current, current = i) :
    (sockets.onClose i).Inv := by
  refine ⟨fun j hj => ?_, h.fromCurrent, fun closing hclosing => ?_⟩
  · by_cases hij : i = j
    · subst hij
      rw [IsLive, Sockets.onClose, List.getElem?_set] at hj
      simp at hj
    · have hlive : sockets.IsLive j := by
        simpa only [IsLive, Sockets.onClose, List.getElem?_set_ne hij] using hj
      exact absurd (hi j (h.current j hlive)).symm hij
  · rcases mem_append.mp hclosing with hold | hnew
    · exact h.keepsCurrent closing hold
    · rw [mem_singleton] at hnew
      subst hnew
      intro hne
      cases hcurrent : sockets.current with
      | none => rfl
      | some current => exact absurd (hi current hcurrent ▸ hcurrent) hne

theorem Inv.hand (h : sockets.Inv) (hi : sockets.IsLive i) (frame : ServerFrame P) :
    (sockets.hand i frame).Inv := by
  refine ⟨h.current, fun handed hhanded => ?_, h.keepsCurrent⟩
  rcases mem_append.mp hhanded with hold | hnew
  · exact h.fromCurrent handed hold
  · rw [mem_singleton] at hnew
    subst hnew
    exact h.current i hi

end Sockets

def ServerFrame.isForStore {P : Type u} : ServerFrame P → Bool
  | authAck _ | pong | notify _ => false
  | error requestId code detail =>
    !(requestId = 0 ∧ (detail = "password_required" ∨ code = "auth_failed" ∨
      code = "protocol_violation"))
  | _ => true

/-- The credentials that are sent: none that is empty. -/
def Credentials.payload (c : Credentials) : AuthPayload where
  protocolVersion := protocolVersion
  documentSchemaVersion := documentSchemaVersion
  workspaceId := c.workspaceId
  sessionToken := c.sessionToken.filter (· ≠ "")
  shareToken := c.shareToken.filter (· ≠ "")
  displayName := c.displayName.filter (· ≠ "")
  sharePassword := c.sharePassword.filter (· ≠ "")
  shareSessionId := c.shareSessionId.filter (· ≠ "")

namespace SyncConnection

variable {P : Type u} (env : SocketEnv) (s : SyncConnection P)

/-- A callback from outside is called. -/
def tell (output : ConnectionOutput) : SyncConnection P := { s with told := s.told ++ [output] }

def setState (next : ConnectionState) : SyncConnection P :=
  if next = s.state then s else { s with state := next }.tell (.stateChange next s.state)

/-- `clearReconnectTimer`: the timer that is held stops. -/
def clearReconnectTimer : SyncConnection P :=
  match s.reconnectTimer with
  | none => s
  | some timer => { s with
      reconnectTimers := s.reconnectTimers.erase timer
      reconnectTimer := none }

def startHandshakeTimer (stage : HandshakeStage) : SyncConnection P :=
  { s with handshakeTimer := some stage }

def clearHandshakeTimer : SyncConnection P := { s with handshakeTimer := none }

def noteFailure (kind : FailureKind) : SyncConnection P :=
  let failure : ConnectionFailure := ⟨kind, s.failedAttempts + 1⟩
  { s with
    failedAttempts := s.failedAttempts + 1
    lastFailure := some failure }.tell (.connectionTrouble failure)

/-- `scheduleReconnect`: a timer that was running goes on. -/
def scheduleReconnect : SyncConnection P :=
  if s.deliberatelyClosed then s.setState .closed
  else
    let s := s.setState .reconnecting
    { s with
      attempt := s.attempt + 1
      reconnectTimer := some s.timersMade
      reconnectTimers := s.reconnectTimers ++ [s.timersMade]
      timersMade := s.timersMade + 1 }

def connect (made : Bool) : SyncConnection P :=
  if s.state.isActive then s
  else
    let s := ({ s with deliberatelyClosed := false }.clearReconnectTimer.setState
      .connecting).startHandshakeTimer .connecting
    if made then { s with sockets := s.sockets.make } else s.scheduleReconnect

/-- `sendRaw`: whether the frame was sent. -/
def sendRaw (frame : ClientFrame P) : Bool × SyncConnection P :=
  match s.sockets.current with
  | none => (false, s)
  | some i =>
    if s.sockets.all[i]? = some .opened then (true, { s with sent := s.sent ++ [(i, frame)] })
    else (false, s)

def send (frame : ClientFrame P) : Bool × SyncConnection P :=
  if s.state ≠ .ready then (false, s) else s.sendRaw frame

def sendAuth : SyncConnection P := (s.sendRaw (.auth s.credentials.payload)).2

def markConnected : SyncConnection P :=
  { s.clearHandshakeTimer with
    failedAttempts := 0
    lastFailure := none }

def startPing : SyncConnection P := { s with pingTimer := env.pings }

def stopPing : SyncConnection P := { s with pingTimer := false }

/-- `fatal`: where `close` throws, the socket stays and nobody is told. -/
def fatal (code detail : String) : SyncConnection P :=
  let s := ({ s with deliberatelyClosed := true }.clearReconnectTimer.stopPing).setState .closed
  if s.sockets.current.isSome ∧ ¬ env.accepts1008 then s
  else { s with sockets := s.sockets.drop }.tell (.fatal code detail)

def close : SyncConnection P :=
  let s := { s with deliberatelyClosed := true }.clearReconnectTimer.clearHandshakeTimer.stopPing
  { s with sockets := s.sockets.drop }.setState .closed

def retryAuth (sharePassword : String) (made : Bool) : SyncConnection P :=
  let s := { s with credentials := { s.credentials with sharePassword := some sharePassword } }
  if s.state = .authenticating ∧ s.sockets.current.isSome then s.sendAuth else s.connect made

/-- `handleFrame`, of a frame a socket received. -/
def handleFrame (i : ℕ) : ServerFrame P → SyncConnection P
  | .authAck ack =>
    let s := { s with
      authAck := some ack
      attempt := 0 }
    let s := (((s.markConnected.setState .ready).startPing env).tell .authenticated)
    let s := match ack.shareSessionId.filter (· ≠ "") with
      | some shareSessionId => s.tell (.shareSession shareSessionId)
      | none => s
    let s := if s.hasConnectedBefore then s.tell .reconnect else s
    { s with hasConnectedBefore := true }
  | .error requestId code detail =>
    if requestId = 0 ∧ detail = "password_required" then s.tell .passwordRequired
    else if requestId = 0 ∧ (code = "auth_failed" ∨ code = "protocol_violation") then
      s.fatal env code detail
    else { s with sockets := s.sockets.hand i (.error requestId code detail) }
  | .pong => s
  | .notify scope => s.tell (.notify scope)
  | frame => { s with sockets := s.sockets.hand i frame }

/-- `socket.onopen`. -/
def onOpen (i : ℕ) : SyncConnection P :=
  let s := { s with sockets := s.sockets.onOpen i }
  ((s.setState .authenticating).startHandshakeTimer .authenticating).sendAuth

/-- `socket.onmessage`. -/
def onMessage (i : ℕ) : SocketData P → SyncConnection P
  | .text => s
  | .undecodable message => s.fatal env "protocol_violation" message
  | .frame frame => s.handleFrame env i frame

/-- `socket.onclose`. -/
def onClose (i : ℕ) (code : Option ℕ) : SyncConnection P :=
  let s := s.stopPing.clearHandshakeTimer
  let s := { s with sockets := s.sockets.onClose i }
  if s.deliberatelyClosed ∨ s.state = .closed then s.setState .closed
  else (s.noteFailure (if code = some 1006 then .unreachable else .closed)).scheduleReconnect

def step : SocketEvent P → Option (SyncConnection P)
  | .connect made => some (s.connect made)
  | .close => some s.close
  | .retryAuth sharePassword made => some (s.retryAuth sharePassword made)
  | .sends frame => some (s.send frame).2
  | .reconnects timer made =>
    if timer ∈ s.reconnectTimers then
      some ({ s with
        reconnectTimers := s.reconnectTimers.erase timer
        reconnectTimer := none }.connect made)
    else none
  | .handshakeTimesOut => s.handshakeTimer.map fun stage =>
    let s := s.clearHandshakeTimer.noteFailure stage.failureKind
    { s with sockets := s.sockets.drop }.scheduleReconnect
  | .pings => if s.pingTimer then some (s.sendRaw .ping).2 else none
  | .opens i => if s.sockets.all[i]? = some .connecting then some (s.onOpen i) else none
  | .receives i data =>
    if s.sockets.all[i]? = some .opened ∨ s.sockets.all[i]? = some .closing then
      some (s.onMessage env i data)
    else none
  | .errs i => if i < s.sockets.all.length then some s else none
  | .closes i code =>
    if i < s.sockets.all.length ∧ s.sockets.all[i]? ≠ some .closed then some (s.onClose i code)
    else none

end SyncConnection

/-- **The machine of a client's connection.** -/
def clientConnection (P : Type u) (env : SocketEnv) :
    Machine (SyncConnection P) (SocketEvent P) where
  init s := ∃ credentials, s = { credentials }
  step := SyncConnection.step env

namespace SyncConnection

variable {P : Type u} {env : SocketEnv} {s s' : SyncConnection P} {i : ℕ}

/-! ### What the callbacks do to the sockets -/

@[simp] theorem sockets_tell (output : ConnectionOutput) :
    (s.tell output).sockets = s.sockets := rfl

@[simp] theorem sockets_setState (next : ConnectionState) :
    (s.setState next).sockets = s.sockets := by
  rw [setState]
  split <;> rfl

@[simp] theorem sockets_clearReconnectTimer : s.clearReconnectTimer.sockets = s.sockets := by
  rw [clearReconnectTimer]
  split <;> rfl

@[simp] theorem sockets_noteFailure (kind : FailureKind) :
    (s.noteFailure kind).sockets = s.sockets := rfl

@[simp] theorem sockets_scheduleReconnect : s.scheduleReconnect.sockets = s.sockets := by
  rw [scheduleReconnect]
  split
  · exact sockets_setState _
  · exact sockets_setState _

@[simp] theorem sockets_sendRaw (frame : ClientFrame P) :
    (s.sendRaw frame).2.sockets = s.sockets := by
  rw [sendRaw]
  split
  · rfl
  · split <;> rfl

@[simp] theorem sockets_send (frame : ClientFrame P) : (s.send frame).2.sockets = s.sockets := by
  rw [send]
  split
  · rfl
  · exact sockets_sendRaw _

@[simp] theorem sockets_sendAuth : s.sendAuth.sockets = s.sockets := sockets_sendRaw _

theorem sockets_connect (made : Bool) : (s.connect made).sockets =
    if s.state.isActive = false ∧ made = true then s.sockets.make else s.sockets := by
  rw [connect]
  cases s.state.isActive
  · cases made <;> simp [startHandshakeTimer]
  · simp

theorem sockets_fatal (env : SocketEnv) (s : SyncConnection P) (code detail : String) :
    (s.fatal env code detail).sockets = s.sockets ∨
      (s.fatal env code detail).sockets = s.sockets.drop := by
  unfold fatal
  simp only
  split
  · exact .inl (by simp [stopPing])
  · exact .inr (by simp [stopPing])

theorem sockets_close : s.close.sockets = s.sockets.drop := by
  simp [close, stopPing, clearHandshakeTimer]

theorem sockets_retryAuth (sharePassword : String) (made : Bool) :
    (s.retryAuth sharePassword made).sockets =
      if s.state.isActive = false ∧ made = true then s.sockets.make else s.sockets := by
  rw [retryAuth]
  simp only
  split
  · rename_i hauth
    rw [sockets_sendAuth, if_neg]
    rw [hauth.1]
    simp [ConnectionState.isActive]
  · exact sockets_connect made

theorem sockets_handleFrame (env : SocketEnv) (s : SyncConnection P) (i : ℕ)
    (frame : ServerFrame P) :
    (s.handleFrame env i frame).sockets = s.sockets ∨
      (s.handleFrame env i frame).sockets = s.sockets.drop ∨
        frame.isForStore = true ∧ (s.handleFrame env i frame).sockets = s.sockets.hand i frame := by
  cases frame with
  | authAck ack =>
    refine .inl ?_
    rw [handleFrame]
    simp only
    split
    · split <;> simp [startPing, markConnected, clearHandshakeTimer]
    · split <;> simp [startPing, markConnected, clearHandshakeTimer]
  | error requestId code detail =>
    rw [handleFrame]
    split
    · exact .inl rfl
    · split
      · rcases sockets_fatal env s code detail with hsame | hdrop
        · exact .inl hsame
        · exact .inr (.inl hdrop)
      · rename_i hpassword hfatal
        refine .inr (.inr ⟨?_, rfl⟩)
        simp only [ServerFrame.isForStore, Bool.not_eq_true', decide_eq_false_iff_not]
        rintro ⟨hzero, hdetail | hcode⟩
        · exact hpassword ⟨hzero, hdetail⟩
        · exact hfatal ⟨hzero, hcode⟩
  | pong => exact .inl rfl
  | notify scope => exact .inl rfl
  | openAck requestId handle role => exact .inr (.inr ⟨rfl, rfl⟩)
  | sync handle payload => exact .inr (.inr ⟨rfl, rfl⟩)
  | awareness handle payload => exact .inr (.inr ⟨rfl, rfl⟩)
  | closed handle reason => exact .inr (.inr ⟨rfl, rfl⟩)
  | roleChanged handle role => exact .inr (.inr ⟨rfl, rfl⟩)

/-- **What an event does to the sockets**: nothing; the current one is given up; another is made;
one opens, closes, or hands in a frame. -/
theorem step_sockets {event : SocketEvent P} (h : s.step env event = some s') :
    s'.sockets = s.sockets ∨ s'.sockets = s.sockets.drop ∨
      (event.makes = true ∧ s.state.isActive = false ∧ s'.sockets = s.sockets.make) ∨
      (∃ i, s.sockets.all[i]? = some .connecting ∧ s'.sockets = s.sockets.onOpen i) ∨
      (∃ i code, event = .closes i code ∧ s'.sockets = s.sockets.onClose i) ∨
      ∃ i frame, event = .receives i (.frame frame) ∧ frame.isForStore = true ∧
        (s.sockets.all[i]? = some .opened ∨ s.sockets.all[i]? = some .closing) ∧
          s'.sockets = s.sockets.hand i frame := by
  cases event with
  | connect made =>
    obtain rfl := some.inj h
    rw [sockets_connect]
    split
    · rename_i hmakes
      exact .inr (.inr (.inl ⟨hmakes.2, hmakes.1, rfl⟩))
    · exact .inl rfl
  | close =>
    obtain rfl := some.inj h
    exact .inr (.inl sockets_close)
  | retryAuth sharePassword made =>
    obtain rfl := some.inj h
    rw [sockets_retryAuth]
    split
    · rename_i hmakes
      exact .inr (.inr (.inl ⟨hmakes.2, hmakes.1, rfl⟩))
    · exact .inl rfl
  | sends frame =>
    obtain rfl := some.inj h
    exact .inl (sockets_send frame)
  | reconnects timer made =>
    obtain ⟨-, heq⟩ := ite_none_right_eq_some.mp h
    obtain rfl := some.inj heq
    rw [sockets_connect]
    split
    · rename_i hmakes
      exact .inr (.inr (.inl ⟨hmakes.2, hmakes.1, rfl⟩))
    · exact .inl rfl
  | handshakeTimesOut =>
    obtain ⟨stage, -, rfl⟩ := map_eq_some_iff.mp h
    exact .inr (.inl (by simp [clearHandshakeTimer]))
  | pings =>
    obtain ⟨-, heq⟩ := ite_none_right_eq_some.mp h
    obtain rfl := some.inj heq
    exact .inl (sockets_sendRaw _)
  | opens i =>
    obtain ⟨hi, heq⟩ := ite_none_right_eq_some.mp h
    obtain rfl := some.inj heq
    exact .inr (.inr (.inr (.inl ⟨i, hi, by simp [onOpen, startHandshakeTimer]⟩)))
  | receives i data =>
    obtain ⟨hi, heq⟩ := ite_none_right_eq_some.mp h
    obtain rfl := some.inj heq
    cases data with
    | text => exact .inl rfl
    | undecodable message =>
      rcases sockets_fatal env s "protocol_violation" message with hsame | hdrop
      · exact .inl hsame
      · exact .inr (.inl hdrop)
    | frame frame =>
      rcases sockets_handleFrame env s i frame with
        hsame | hdrop | ⟨hstore, hhand⟩
      · exact .inl hsame
      · exact .inr (.inl hdrop)
      · exact .inr (.inr (.inr (.inr (.inr ⟨i, frame, rfl, hstore, hi, hhand⟩))))
  | errs i =>
    obtain ⟨-, heq⟩ := ite_none_right_eq_some.mp h
    obtain rfl := some.inj heq
    exact .inl rfl
  | closes i code =>
    obtain ⟨-, heq⟩ := ite_none_right_eq_some.mp h
    obtain rfl := some.inj heq
    refine .inr (.inr (.inr (.inr (.inl ⟨i, code, rfl, ?_⟩))))
    rw [onClose]
    simp only
    split <;> simp [stopPing, clearHandshakeTimer]

/-! ### One socket at a time -/

/-- The steps at which sockets are confused: a socket closes while another is current, a frame
for the store comes from one on which `close()` was called, or one is made while another is
current. -/
def Confuses (s : SyncConnection P) : SocketEvent P → Prop
  | .closes i _ => ∃ current ∈ s.sockets.current, current ≠ i
  | .receives i (.frame frame) => s.sockets.all[i]? = some .closing ∧ frame.isForStore = true
  | event => event.makes = true ∧ s.state.isActive = false ∧ s.sockets.current.isSome = true

instance (s : SyncConnection P) (event : SocketEvent P) : Decidable (s.Confuses event) := by
  unfold Confuses
  split <;> infer_instance

/-- **A step** that confuses no sockets keeps the invariant. -/
theorem step_inv (h : s.sockets.Inv) {event : SocketEvent P} (hgood : ¬ s.Confuses event)
    (hstep : s.step env event = some s') : s'.sockets.Inv := by
  rcases step_sockets hstep with hsame | hdrop | ⟨hmakes, hidle, hmake⟩ | ⟨i, hi, hopen⟩ |
    ⟨i, code, rfl, hclose⟩ | ⟨i, frame, rfl, hstore, hi, hhand⟩
  · rw [hsame]
    exact h
  · rw [hdrop]
    exact h.drop
  · rw [hmake]
    refine h.make ?_
    rw [← not_isSome_iff_eq_none]
    intro hsome
    cases event <;> first | exact hgood ⟨hmakes, hidle, hsome⟩ | simp [SocketEvent.makes] at hmakes
  · rw [hopen]
    exact h.onOpen hi
  · rw [hclose]
    refine h.onClose fun current hcurrent => ?_
    by_contra hne
    exact hgood ⟨current, hcurrent, hne⟩
  · rw [hhand]
    refine h.hand (.inr (hi.resolve_right fun hclosing => ?_)) frame
    exact hgood ⟨hclosing, hstore⟩

/-- **At most one socket is live**, frames come from the current one only, and the close event
of another does not touch it: in every run in which no socket closes or is made while another
is current, and none hands in a frame after `close()` was called on it. -/
theorem oneSocket_of_reachesWhen
    (h : (clientConnection P env).ReachesWhen (fun s event => ¬ s.Confuses event) s) :
    s.sockets.IsSound := by
  have hinv : s.sockets.Inv := h.invariant
    (by
      rintro s ⟨credentials, rfl⟩
      exact ⟨by simp [Sockets.IsLive], by simp, by simp⟩)
    fun _ _ _ hinv hgood hstep => step_inv hinv hgood hstep
  exact hinv.isSound

/-! ### No socket is left behind where 1008 is accepted -/

/-! ### A connection that is lost, and one that times out -/

/-- A platform where `close` takes any code. -/
def plainSockets : SocketEnv where
  accepts1008 := true
  pings := true

def newConnection : SyncConnection ℕ where
  credentials := ⟨"w", none, none, none, none, none⟩

theorem newConnection_init : (clientConnection ℕ plainSockets).init newConnection := ⟨_, rfl⟩

def exampleAck : AuthAck := ⟨"user", "Ada", some "member", none⟩

/-- **A connection is lost, and comes back**: the close event is that of the current socket. -/
theorem oneSocket_of_reachesWhen_comesBack : ∃ s : SyncConnection ℕ, s.sockets.IsSound ∧
    s.state = .ready ∧ s.sockets.current = some 1 ∧ s.sockets.handed.length = 1 := by
  have hreach : ∃ s : SyncConnection ℕ,
      (clientConnection ℕ plainSockets).ReachesWhen (fun s event => ¬ s.Confuses event) s ∧
        s.state = .ready ∧ s.sockets.current = some 1 ∧ s.sockets.handed.length = 1 :=
    Machine.exists_reachesWhen_of_runWhen
      [.connect true, .opens 0, .receives 0 (.frame (.authAck exampleAck)),
        .receives 0 (.frame (.openAck 1 1 .editor)), .closes 0 (some 1006), .reconnects 0 true,
        .opens 1, .receives 1 (.frame (.authAck exampleAck))]
      newConnection_init (by decide +kernel)
  obtain ⟨s, hs, hstate⟩ := hreach
  exact ⟨s, oneSocket_of_reachesWhen hs, hstate⟩

/-- **Sockets can be confused.** The first one times out, and the second is current when its
close event comes: that drops the second, which stays live, and a third is made. The second
then opens, and what it receives goes to the store. -/
theorem not_oneSocket :
    ¬ (∀ env s, (clientConnection ℕ env).Reaches s →
      ∀ i j, s.sockets.IsLive i → s.sockets.IsLive j → i = j) ∧
    ¬ (∀ env s, (clientConnection ℕ env).Reaches s →
      ∀ handed ∈ s.sockets.handed, handed.current = some handed.socket) ∧
    ¬ ∀ env s, (clientConnection ℕ env).Reaches s →
      ∀ closing ∈ s.sockets.closings, closing.before ≠ some closing.socket →
        closing.after = closing.before := by
  have hreach : ∃ s : SyncConnection ℕ, (clientConnection ℕ plainSockets).Reaches s ∧
      s.sockets = ⟨[.closed, .opened, .connecting], some 2, [⟨.openAck 1 1 .editor, 1, some 2⟩],
        [⟨0, some 1, none⟩]⟩ :=
    Machine.exists_reachesWhen_of_runWhen
      [.connect true, .handshakeTimesOut, .reconnects 0 true, .closes 0 (some 1006),
        .reconnects 1 true, .opens 1, .receives 1 (.frame (.openAck 1 1 .editor))]
      newConnection_init (by decide +kernel)
  obtain ⟨s, hs, hsockets⟩ := hreach
  refine ⟨fun hall => ?_, fun hall => ?_, fun hall => ?_⟩
  · have hsame := hall plainSockets s hs 1 2 (by rw [hsockets]; decide) (by rw [hsockets]; decide)
    exact absurd hsame (by decide)
  · have hcurrent := hall plainSockets s hs ⟨.openAck 1 1 .editor, 1, some 2⟩
      (by rw [hsockets]; exact mem_singleton_self _)
    exact absurd hcurrent (by decide)
  · have hafter := hall plainSockets s hs ⟨0, some 1, none⟩
      (by rw [hsockets]; exact mem_singleton_self _)
    exact absurd hafter (by decide)

end SyncConnection

end Sone.Client
