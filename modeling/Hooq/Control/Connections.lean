import Hooq.Library.Run

/-!
# Who gets a connection

All applications connect to one server.  Each live `RemoteConnection` listens to it and
takes the next pending connection whenever one arrives, whether or not its operation is
in progress.  The windows create and delete them as tests are recorded and run, and the
command line program has one for each operation all the time.
-/

namespace Hooq

open Library.Run

/-- What an application is started for. -/
inductive Operation where
  | recording
  | playback
  deriving DecidableEq, Repr

/-- A `RemoteConnection`, whose signal goes to the handler of an operation. -/
structure RemoteConnection where
  id : Nat
  handler : Operation
  deriving DecidableEq, Repr

namespace RemoteConnection

/-- The object that a pointer is about, which may be null. -/
def pointedTo (pointer : Option Nat) (handler : Operation) : List RemoteConnection :=
  (pointer.map (⟨·, handler⟩)).toList

theorem filter_pointedTo_self (pointer : Option Nat) (handler : Operation) :
    (pointedTo pointer handler).filter (some ·.id ≠ pointer) = [] := by
  cases pointer <;> simp [pointedTo]

theorem filter_pointedTo_of_ne {pointer other : Option Nat} (handler : Operation)
    (apart : ∀ id, pointer = some id → other ≠ some id) :
    (pointedTo pointer handler).filter (some ·.id ≠ other) = pointedTo pointer handler := by
  cases pointer with
  | none => rfl
  | some id => simpa [pointedTo] using (apart id rfl).symm

end RemoteConnection

/-- The signal `connected` as a handler receives it, with a socket that may be null. -/
structure Connected where
  handler : Operation
  socket : Option Nat
  deriving DecidableEq, Repr

/-- `QTcpServer`: who is connected to its signal, in connection order, and the pending
connections.  Objects and sockets are numbered as they come. -/
structure TcpServer where
  listeners : List RemoteConnection
  pending : List Nat
  created : Nat
  arrived : Nat
  deriving DecidableEq, Repr

namespace TcpServer

def listen : TcpServer :=
  ⟨[], [], 0, 0⟩

/-- The constructor of `RemoteConnection`. -/
def connect (server : TcpServer) (handler : Operation) : TcpServer :=
  { server with
    listeners := server.listeners ++ [⟨server.created, handler⟩]
    created := server.created + 1 }

/-- `delete` of a pointer to a `RemoteConnection`, which may be null. -/
def disconnect (server : TcpServer) (pointer : Option Nat) : TcpServer :=
  { server with listeners := server.listeners.filter (some ·.id ≠ pointer) }

/-- `nextPendingConnection`. -/
def nextPendingConnection : List Nat → Option Nat × List Nat
  | [] => (none, [])
  | socket :: pending => (some socket, pending)

/-- `acceptConnection` of one listener after the other. -/
def acceptConnection : List RemoteConnection → List Nat → List Connected × List Nat
  | [], pending => ([], pending)
  | listener :: listeners, pending =>
      let (socket, pending) := nextPendingConnection pending
      let (emitted, pending) := acceptConnection listeners pending
      (⟨listener.handler, socket⟩ :: emitted, pending)

/-- A connection arrives, and `newConnection` goes to all listeners. -/
def newConnection (server : TcpServer) : List Connected × TcpServer :=
  let (emitted, pending) :=
    acceptConnection server.listeners (server.pending ++ [server.arrived])
  (emitted, { server with pending := pending, arrived := server.arrived + 1 })

/-- The connection that arrives goes to one handler, that of an operation in progress. -/
def HandsOver (server : TcpServer) (inProgress : Operation → Prop) : Prop :=
  ∃ operation, inProgress operation ∧
    server.newConnection.1 = [⟨operation, some server.arrived⟩]

theorem acceptConnection_eq_single {listeners : List RemoteConnection} {pending : List Nat}
    {handler : Operation} {socket : Nat} :
    (acceptConnection listeners pending).1 = [⟨handler, some socket⟩] ↔
      ∃ id, listeners = [⟨id, handler⟩] ∧ pending.head? = some socket := by
  match listeners with
  | [] => simp [acceptConnection]
  | [listener] =>
      rcases listener with ⟨id, operation⟩
      cases pending <;> simp [acceptConnection, nextPendingConnection]
  | first :: second :: rest =>
      simp [acceptConnection]

/-- With nothing pending it takes a single listener. -/
theorem handsOver_iff {server : TcpServer} (idle : server.pending = [])
    {inProgress : Operation → Prop} :
    server.HandsOver inProgress ↔
      ∃ operation id, inProgress operation ∧ server.listeners = [⟨id, operation⟩] := by
  rw [HandsOver]
  refine exists_congr fun operation => ?_
  rw [show server.newConnection.1 = (acceptConnection server.listeners
    (server.pending ++ [server.arrived])).1 from rfl, acceptConnection_eq_single, idle]
  simp

theorem pending_newConnection {server : TcpServer} (idle : server.pending = [])
    {listener : RemoteConnection} (single : server.listeners = [listener]) :
    server.newConnection.2.pending = [] := by
  rw [newConnection, single, idle]
  rfl

end TcpServer

/-! ## The windows -/

/-- `MainWindow` as far as it creates and deletes connections.  A recording goes on from
`startRecording` to `finishRecording`. -/
structure MainWindow where
  server : TcpServer
  hooqLogger : Option Nat
  hooqPlayer : Option Nat
  recording : Bool
  testRunning : Bool
  deriving DecidableEq, Repr

namespace MainWindow

/-- What happens to the windows.  The user may keep a test from being run where the editor
asks about changes. -/
inductive Action where
  | startRecording
  | finishRecording
  | runTestScript (cancelled : Bool)
  | testFinished
  | connection
  deriving DecidableEq, Repr

def start : MainWindow :=
  ⟨.listen, none, none, false, false⟩

def startRecording (window : MainWindow) : MainWindow :=
  let server := (window.server.disconnect window.hooqLogger).disconnect window.hooqPlayer
  { window with
    server := server.connect .recording
    hooqLogger := some server.created
    hooqPlayer := none
    recording := true }

def finishRecording (window : MainWindow) : MainWindow :=
  { window with
    server := window.server.disconnect window.hooqLogger
    hooqLogger := none
    recording := false }

def runTestScript (window : MainWindow) (cancelled : Bool) : MainWindow :=
  if cancelled then
    window
  else
    let server := window.server.disconnect window.hooqPlayer
    { window with
      server := server.connect .playback
      hooqPlayer := some server.created
      testRunning := true }

def step (window : MainWindow) : Action → MainWindow
  | .startRecording => window.startRecording
  | .finishRecording => window.finishRecording
  | .runTestScript cancelled => window.runTestScript cancelled
  | .testFinished => { window with testRunning := false }
  | .connection => { window with server := window.server.newConnection.2 }

/-- The operations in progress. -/
def InProgress (window : MainWindow) : Operation → Prop
  | .recording => window.recording = true
  | .playback => window.testRunning = true

/-- A connection that arrives is handed to the operation in progress. -/
def HandsOver (window : MainWindow) : Action → Prop
  | .connection => window.server.HandsOver window.InProgress
  | _ => True

/-- A connection arrives in a recording during which no test was run, or in a test outside
of a recording and with no recording started behind it. -/
def OneHandler (window : MainWindow) : Action → Prop
  | .connection =>
      (window.recording = true ∧ window.hooqPlayer = none) ∨
        (window.testRunning = true ∧ window.hooqLogger = none ∧ window.hooqPlayer ≠ none)
  | _ => True

/-- The live connections by the members that point to them. -/
def live (window : MainWindow) : List RemoteConnection :=
  RemoteConnection.pointedTo window.hooqLogger .recording ++
    RemoteConnection.pointedTo window.hooqPlayer .playback

/-- The members know all listeners, and no connection has been left pending. -/
structure Orderly (window : MainWindow) : Prop where
  listeners : window.server.listeners.Perm window.live
  distinct : ∀ id, window.hooqLogger = some id → window.hooqPlayer ≠ some id
  fresh : ∀ listener ∈ window.live, listener.id < window.server.created
  recording : window.recording = window.hooqLogger.isSome
  idle : window.server.pending = []

theorem orderly_start : start.Orderly :=
  ⟨.nil, nofun, nofun, rfl, rfl⟩

variable {window : MainWindow}

/-- Whichever of the two members is set, a single listener is of that kind. -/
theorem live_eq_single {id : Nat} {handler : Operation} :
    window.live = [⟨id, handler⟩] ↔
      (handler = .recording ∧ window.hooqLogger = some id ∧ window.hooqPlayer = none) ∨
        (handler = .playback ∧ window.hooqLogger = none ∧ window.hooqPlayer = some id) := by
  rcases window with ⟨server, logger, player, recording, testRunning⟩
  cases logger <;> cases player <;> cases handler <;> simp [live, RemoteConnection.pointedTo]

theorem Orderly.listeners_eq_single (orderly : window.Orderly) {listener : RemoteConnection} :
    window.server.listeners = [listener] ↔ window.live = [listener] := by
  constructor
  · intro single
    have same := orderly.listeners
    rw [single] at same
    exact (List.singleton_perm.mp same).symm
  · intro single
    have same := orderly.listeners
    rw [single] at same
    exact List.perm_singleton.mp same

theorem Orderly.handsOver_iff (orderly : window.Orderly) (action : Action) :
    window.HandsOver action ↔ window.OneHandler action := by
  cases action with
  | connection =>
      rw [HandsOver, OneHandler, TcpServer.handsOver_iff orderly.idle]
      simp only [orderly.listeners_eq_single, live_eq_single]
      constructor
      · rintro ⟨operation, id, progress, ⟨rfl, logger, player⟩ | ⟨rfl, logger, player⟩⟩
        · exact .inl ⟨progress, player⟩
        · exact .inr ⟨progress, logger, by simp [player]⟩
      · rintro (⟨recording, player⟩ | ⟨running, logger, player⟩)
        · have exists_logger := orderly.recording.symm.trans recording
          obtain ⟨id, logger⟩ := Option.isSome_iff_exists.mp exists_logger
          exact ⟨.recording, id, recording, .inl ⟨rfl, logger, player⟩⟩
        · obtain ⟨id, player⟩ := Option.ne_none_iff_exists'.mp player
          exact ⟨.playback, id, running, .inr ⟨rfl, logger, player⟩⟩
  | _ => rfl

/-- Behind the deletion of the logger the player is left. -/
theorem Orderly.disconnect_logger (orderly : window.Orderly) :
    (window.server.disconnect window.hooqLogger).listeners.Perm
      (RemoteConnection.pointedTo window.hooqPlayer .playback) := by
  have left := orderly.listeners.filter (some ·.id ≠ window.hooqLogger)
  rw [live, List.filter_append, RemoteConnection.filter_pointedTo_self,
    RemoteConnection.filter_pointedTo_of_ne _
      fun id player logger => orderly.distinct id logger player] at left
  exact left

/-- Behind the deletion of the player the logger is left. -/
theorem Orderly.disconnect_player (orderly : window.Orderly) :
    (window.server.disconnect window.hooqPlayer).listeners.Perm
      (RemoteConnection.pointedTo window.hooqLogger .recording) := by
  have left := orderly.listeners.filter (some ·.id ≠ window.hooqPlayer)
  rw [live, List.filter_append, RemoteConnection.filter_pointedTo_self,
    RemoteConnection.filter_pointedTo_of_ne _ orderly.distinct, List.append_nil] at left
  exact left

/-- Behind both deletions nobody listens. -/
theorem Orderly.disconnect_both (orderly : window.Orderly) :
    ((window.server.disconnect window.hooqLogger).disconnect window.hooqPlayer).listeners =
      [] := by
  have left := orderly.disconnect_logger.filter (some ·.id ≠ window.hooqPlayer)
  rw [RemoteConnection.filter_pointedTo_self] at left
  exact left.eq_nil

theorem Orderly.startRecording (orderly : window.Orderly) : window.startRecording.Orderly := by
  refine ⟨?_, nofun, ?_, rfl, orderly.idle⟩
  · rw [MainWindow.startRecording, TcpServer.connect, orderly.disconnect_both]
    rfl
  · simp [live, RemoteConnection.pointedTo, MainWindow.startRecording, TcpServer.connect]

theorem Orderly.finishRecording (orderly : window.Orderly) :
    window.finishRecording.Orderly := by
  refine ⟨orderly.disconnect_logger, nofun, ?_, rfl, orderly.idle⟩
  intro listener alive
  exact orderly.fresh listener (List.mem_append_right _ alive)

theorem Orderly.runTestScript (orderly : window.Orderly) (cancelled : Bool) :
    (window.runTestScript cancelled).Orderly := by
  rw [MainWindow.runTestScript]
  split
  · exact orderly
  · refine ⟨orderly.disconnect_player.append_right _, ?_, ?_, orderly.recording, orderly.idle⟩
    · intro id logger player
      have pointed : window.hooqLogger = some id := logger
      have before := orderly.fresh ⟨id, .recording⟩
        (by simp [live, RemoteConnection.pointedTo, pointed])
      have now : window.server.created = id := by simpa [TcpServer.disconnect] using player
      exact absurd before (by simp [now])
    · intro listener alive
      simp only [live, List.mem_append] at alive
      rcases alive with old | new
      · exact Nat.lt_succ_of_lt (orderly.fresh listener (List.mem_append_left _ old))
      · obtain rfl : listener = ⟨window.server.created, .playback⟩ := by
          simpa [RemoteConnection.pointedTo, TcpServer.disconnect] using new
        exact Nat.lt_succ_self _

theorem Orderly.connection (orderly : window.Orderly)
    (single : window.OneHandler .connection) : (window.step .connection).Orderly := by
  refine ⟨orderly.listeners, orderly.distinct, orderly.fresh, orderly.recording, ?_⟩
  obtain ⟨operation, -, emitted⟩ := (orderly.handsOver_iff .connection).mpr single
  obtain ⟨id, listeners, -⟩ := TcpServer.acceptConnection_eq_single.mp emitted
  exact TcpServer.pending_newConnection orderly.idle listeners

theorem Orderly.step (orderly : window.Orderly) (action : Action)
    (single : window.OneHandler action) : (window.step action).Orderly := by
  cases action with
  | startRecording => exact orderly.startRecording
  | finishRecording => exact orderly.finishRecording
  | runTestScript cancelled => exact orderly.runTestScript cancelled
  | testFinished =>
      exact ⟨orderly.listeners, orderly.distinct, orderly.fresh, orderly.recording,
        orderly.idle⟩
  | connection => exact orderly.connection single

end MainWindow

/-! ## The command line program -/

namespace HooqCli

/-- `main`: both the logger and the player listen, and only one of them is started. -/
def start : TcpServer :=
  (TcpServer.listen.connect .recording).connect .playback

/-- The server behind a number of connections. -/
def behind : Nat → TcpServer
  | 0 => start
  | connections + 1 => (behind connections).newConnection.2

/-- The player gets nothing from the first connection. -/
theorem newConnection_start :
    start.newConnection.1 = [⟨.recording, some 0⟩, ⟨.playback, none⟩] :=
  rfl

end HooqCli

/-- The windows hand every connection to the one operation in progress exactly when each
arrives while there is one handler; the command line program hands over none, whatever
it was started for. -/
theorem connections_handedOver_iff (actions : List MainWindow.Action) (mode : Operation)
    (connections : Nat) :
    (StepsMeet MainWindow.step MainWindow.HandsOver .start actions ↔
        StepsMeet MainWindow.step MainWindow.OneHandler .start actions) ∧
      ((∀ earlier < connections, (HooqCli.behind earlier).HandsOver (· = mode)) ↔
        connections = 0) := by
  constructor
  · exact stepsMeet_congr (fun _ action orderly single => orderly.step action single)
      (fun _ action orderly => orderly.handsOver_iff action) MainWindow.orderly_start actions
  · constructor
    · intro handed
      by_contra arrived
      obtain ⟨operation, -, emitted⟩ := handed 0 (Nat.pos_of_ne_zero arrived)
      rw [HooqCli.behind, HooqCli.newConnection_start] at emitted
      exact nomatch emitted
    · rintro rfl earlier before
      exact absurd before (Nat.not_lt_zero _)

/-- A test is run while a recording goes on. -/
theorem run_while_recording_not_handedOver :
    ¬∀ actions, StepsMeet MainWindow.step MainWindow.HandsOver .start actions := by
  intro handed
  obtain ⟨operation, -, emitted⟩ :=
    handed [.startRecording, .runTestScript false, .connection]
      [.startRecording, .runTestScript false] .connection [] rfl
  have twice : (([.startRecording, .runTestScript false] : List MainWindow.Action).foldl
      MainWindow.step .start).server.newConnection.1 =
        [⟨.recording, some 0⟩, ⟨.playback, none⟩] := by decide
  exact nomatch twice.symm.trans emitted

end Hooq
