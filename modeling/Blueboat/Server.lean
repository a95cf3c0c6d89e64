import Blueboat.Library.LockMachine
import Blueboat.Room

set_option autoImplicit false

/-! The server as threads under the game lock (`server.cpp`, `room.cpp`, `scheduler.cpp`): a
command is what a C++ activation still has to do, a stack of them is what a thread still has to do. A hook is
application code: its answers say what it does next. -/
namespace Blueboat

open Protocol LockMachine

inductive Handler where
  | gameMessage (room : RoomRef)
  | playerLeft (room : RoomRef)
  | infoRequest (id : ℕ)
  deriving DecidableEq

/-- The shared state of one `allow_reconnection` call; `promise` is set when `resolved` is. -/
structure Wait where
  room : RoomRef
  clientId : Str
  promise : Option Bool
  joinSub : ℕ
  timer : ℕ
  due : ℤ

inductive TimerCallback where
  | autoDispose (room : RoomRef)
  | reconnect (wait : ℕ)
  deriving DecidableEq

structure Task where
  id : ℕ
  due : ℤ
  callback : TimerCallback
  deriving DecidableEq

inductive Phase where
  | idle | busy | closing | closed
  deriving DecidableEq

inductive Event where
  | frame (sessionId event : Str) (data : Json)
  | pong (sessionId : Str)
  | hook (room : RoomRef) (hook : Hook)

/-- The stores that the bookkeeping of rooms and sessions is spread over. `working` holds the timers
whose callback has been called and has not yet got the lock. -/
structure Stores where
  now : ℤ
  storage : MemoryStorage
  pubsub : PubSub Handler
  nextListener : ℕ
  managingRooms : Dict RoomRef
  nextRoom : ℕ
  waits : ℕ → Wait
  nextWait : ℕ
  tasks : List Task
  nextTask : ℕ
  cancelled : ℕ → Bool
  working : List Task
  sessions : Dict (SimpleClient × Phase)

/-- `log` and `dangling` are not in the source: what the server sent and which hooks it called,
and the rooms that were used after `on_room_disposed` had erased them. -/
structure World extends Stores where
  rooms : RoomRef → Room
  registeredRooms : Dict Json
  connections : Dict SimpleClient
  lastActivity : Dict ℤ
  nextCallback : ℕ
  workerBusy : Bool
  infos : ℕ → Option Json
  nextInfo : ℕ
  log : List Event
  dangling : List RoomRef

inductive Creator where
  | frame (client : SimpleClient) (requestId : Str)
  | api

inductive Cmd where
  | openConnection (client : SimpleClient)
  | recordActivity (sessionId : Str)
  | dispatch (client : SimpleClient) (isBinary : Bool) (payload : Str)
  | handleClientMessage (client : SimpleClient) (event : Str) (data : Json)
  | handleClientDisconnect (sessionId : Str)
  | disconnected (sessionId : Str)
  | endOp (sessionId : Str)
  | registerRoom (name : Str) (options : Json)
  | createNewRoom (client : SimpleClient) (roomName : Str) (creatorOptions : Json)
      (roomIdOverride : Str) (creator : Creator)
  | created (room : RoomRef) (client : SimpleClient) (creator : Creator)
  | rethrow (x : Exn)
  | catchCreate (client : SimpleClient) (requestId : Str)
  | joinRoom (client : SimpleClient) (roomId : Str) (data : Json)
  | catchJoinRoom (client : SimpleClient) (roomId : Str)
  | publish (key : Str) (payload : Json)
  | deliver (payload : Json) (handlers : List Handler)
  | boundary (onlyStd : Bool)
  | subscribeInfo (roomId : Str)
  | waitInfo
  | unsubscribeInfo (listener : ℕ)
  | shutdown
  | disposeByIds (ids : List Str)
  | timerBody (task : Task)
  | workerDone
  | callHook (room : RoomRef) (hook : Hook)
  | inHook (room : RoomRef) (hook : Hook)
  | futureGet (wait : ℕ)
  | addClient (room : RoomRef) (client : SimpleClient) (options : Json)
  | callJoinListeners (room : RoomRef) (client : SimpleClient) (left : List (ℕ × JoinCallback))
  | catchJoin (room : RoomRef) (client : SimpleClient)
  | callLeaveListeners (room : RoomRef) (client : SimpleClient) (intentional : Bool) (left : List ℕ)
  | disposeIfEmpty (room : RoomRef)
  | disposeLoop (room : RoomRef) (left : List Str)
  | finishDispose (room : RoomRef)
  | onRoomDisposed (room : RoomRef)

/-- The choices of the application: what a hook does, what the factory and the id generator return,
in which order a hash map is walked. -/
inductive Answer where
  | next
  | ret
  | throw (x : Exn)
  | handle
  | propagate
  | dispose (room : RoomRef)
  | removeFromRoom (sessionId : Str)
  | allowReconnection (clientId : Str) (seconds : Int32)
  | send (sessionId key : Str) (data : Json)
  | setState (state : Json)
  | setMetadata (metadata : Json)
  | setGameValues (values : Json)
  | addJoinListener
  | addLeaveListener
  | create (id₁ id₂ id₃ : Except Exn Str) (factory : Option Exn)
  | order (ids : List Str)

inductive EnvEvent where
  | tick (ms : ℕ)
  | connect (client : SimpleClient)
  | receive (sessionId : Str) (isBinary : Bool) (payload : Str)
  | hangup (sessionId : Str)
  | registerRoom (name : Str) (options : Json)
  | createRoom (name roomId : Str) (options : Json)
  | externalMessage (room key : Str) (data : Json)
  | requestInfo (roomId : Str)
  | shutdown
  | fire (index : ℕ)

inductive Tid where
  | conn (sessionId : Str)
  | app
  | admin
  | worker
  | main
  deriving DecidableEq

abbrev Out := Outcome World Cmd Exn

namespace World

def setRoom (w : World) (r : RoomRef) (room : Room) : World :=
  { w with rooms := Function.update w.rooms r room }

def touch (w : World) (r : RoomRef) : World :=
  if (w.rooms r).erased then { w with dangling := r :: w.dangling } else w

def sendFrameToClient (w : World) (sessionId event : Str) (data : Json) : World :=
  match w.connections.lookup sessionId with
  | none => w
  | some _ => { w with log := w.log ++ [.frame sessionId event data] }

/-- `Client::send` for a client of room `r`. -/
def sendTo (w : World) (r : RoomRef) (sessionId key : Str) (data : Json) : World :=
  w.sendFrameToClient sessionId (lit "message-" ++ (w.rooms r).roomId)
    (Json.ofFields [(lit "key", .str key), (lit "data", data)])

def cancel (w : World) (task : Option ℕ) : World :=
  match task with
  | none => w
  | some id => { w with cancelled := Function.update w.cancelled id true }

def unsubscribe (w : World) (key : Str) (sub : Option ℕ) : World :=
  match sub with
  | none => w
  | some id => { w with pubsub := w.pubsub.unsubscribe key id }

def handlersOf (w : World) (key : Str) : List Handler := (w.pubsub.listenersOf key).map Listener.handler

def clearJoinSub (w : World) (v : ℕ) : World :=
  let wait := w.waits v
  let room := w.rooms wait.room
  let left := room.onJoinListeners.filter fun l => l.1 != wait.joinSub
  w.setRoom wait.room { room with onJoinListeners := left }

def resolve (w : World) (v : ℕ) (value : Bool) : World :=
  let wait := w.waits v
  match wait.promise with
  | some _ => w
  | none => { w with waits := Function.update w.waits v { wait with promise := some value } }

/-- The join listener of a pending `allow_reconnection`. -/
def rejoined (w : World) (v : ℕ) (client : SimpleClient) : World :=
  if client.id ≠ (w.waits v).clientId then w
  else ((w.resolve v true).cancel (some (w.waits v).timer)).clearJoinSub v

/-- The timer callback of a pending `allow_reconnection`. -/
def reconnectTimeout (w : World) (v : ℕ) : World :=
  let w := w.touch (w.waits v).room
  let reconnected := (w.rooms (w.waits v).room).clients.any fun c => c.id = (w.waits v).clientId
  (w.resolve v reconnected).clearJoinSub v

end World

def autoDisposeAfter : ℤ := (2 * 60 + 30) * 60 * 1000

/-- Every command that a C++ call leaves to do runs before what the caller has left. -/
def goAfter (p : World × List Cmd) (left : List Cmd) : Out := .go p.1 (p.2 ++ left)

def removeClient (w : World) (r : RoomRef) (sessionId : Str) (intentional : Bool) :
    World × List Cmd :=
  let w := w.touch r
  match (w.rooms r).member sessionId with
  | none => (w, [])
  | some client =>
    let w := w.setRoom r ((w.rooms r).eraseMember sessionId)
    let w := w.sendTo r client.sessionId removedFromRoom .null
    (w, [.callLeaveListeners r client intentional (w.rooms r).onLeaveListeners,
      .callHook r (.onLeave client intentional), .disposeIfEmpty r])

def dispose (w : World) (r : RoomRef) (cause : Cause) : World × List Cmd :=
  let w := w.touch r
  let room := w.rooms r
  if room.disposing then (w, [])
  else
    (w.setRoom r { room with disposing := true, cause := some cause },
      [.disposeLoop r (room.clients.map SimpleClient.sessionId)])

def finishDispose (w : World) (r : RoomRef) : World :=
  let w := w.touch r
  let room := w.rooms r
  let w := w.cancel room.autoDisposeTimer
  let w := { w with storage := RoomFetcher.removeRoom w.storage room.roomId }
  let w := (w.unsubscribe room.roomId room.gameMessageSub).unsubscribe PLAYER_LEFT room.playerLeftSub
  w.setRoom r { room with gameMessageSub := none, playerLeftSub := none, stage := .withdrawn }

/-- The entry that is erased is the one stored under the room's id. -/
def onRoomDisposed (w : World) (r : RoomRef) : World :=
  let w := w.touch r
  let roomId := (w.rooms r).roomId
  let w :=
    match w.managingRooms.lookup roomId with
    | none => w
    | some r₀ => w.setRoom r₀ { w.rooms r₀ with erased := true }
  let w := { w with managingRooms := w.managingRooms.erase roomId }
  w.setRoom r { w.rooms r with stage := .gone }

def addClient (w : World) (r : RoomRef) (client : SimpleClient) : World :=
  let w := w.touch r
  let w := w.setRoom r ((w.rooms r).addMember client)
  w.sendTo r client.sessionId joinedRoom .null

def allowReconnection (w : World) (r : RoomRef) (clientId : Str) (seconds : Int32) : World :=
  let due := w.now + seconds.toInt * 1000
  let wait : Wait :=
    { room := r, clientId := clientId, promise := none, joinSub := w.nextCallback,
      timer := w.nextTask, due := due }
  let room := w.rooms r
  let w := w.setRoom r
    { room with onJoinListeners := room.onJoinListeners ++ [(w.nextCallback, .wait w.nextWait)] }
  { w with
    waits := Function.update w.waits w.nextWait wait
    nextWait := w.nextWait + 1
    nextCallback := w.nextCallback + 1
    tasks := w.tasks ++ [⟨w.nextTask, due, .reconnect w.nextWait⟩]
    nextTask := w.nextTask + 1 }

/-- The candidates are tried in turn, at most three of them. -/
def chooseRoomId (existing : List Str) : List (Except Exn Str) → Except Exn Str
  | [] => .error (.std (lit "Failed to create room with unique ID"))
  | .error x :: _ => .error x
  | .ok candidate :: candidates =>
    if candidate = [] ∨ candidate ∈ existing then chooseRoomId existing candidates
    else .ok candidate

def newRoomId (existing : List Str) (override : Str) (candidates : List (Except Exn Str)) :
    Except Exn Str :=
  if override = [] then chooseRoomId existing candidates
  else if override ∈ existing then .error (.std (lit "Room ID already in use: " ++ override))
  else .ok override

section
variable (M : MsgpackC) (J : JsonText)

/-- `create_new_room` up to the call of `on_create`. -/
def createNewRoom (w : World) (client : SimpleClient) (roomName : Str) (creatorOptions : Json)
    (override : Str) (creator : Creator) (candidates : List (Except Exn Str))
    (factory : Option Exn) : Out :=
  match w.registeredRooms.lookup roomName with
  | none => .raise w (.std (roomName ++ lit " does not have a room handler")) []
  | some options =>
    let existing := RoomFetcher.getListOfRooms w.storage w.now
    let w := { w with storage := w.storage.purge w.now }
    match newRoomId existing override candidates with
    | .error x => .raise w x []
    | .ok roomId =>
      match factory with
      | some x => .raise w x []
      | none =>
        let r := w.nextRoom
        let room : Room :=
          { Room.fresh with
            roomId := roomId
            roomType := roomName
            owner := client
            options := options
            creatorOptions := creatorOptions
            initialGameValues := GameValues.getAll J w.storage w.now }
        .go { w.setRoom r room with nextRoom := r + 1 }
          [.callHook r (.onCreate options), .created r client creator]

/-- The timer and the two subscriptions at the end of `Room::initialize`. -/
def subscribeRoom (w : World) (r : RoomRef) : World :=
  let room := w.rooms r
  let w' := w.setRoom r
    { room with
      autoDisposeTimer := some w.nextTask
      gameMessageSub := some w.nextListener
      playerLeftSub := some (w.nextListener + 1) }
  { w' with
    tasks := w.tasks ++ [⟨w.nextTask, w.now + autoDisposeAfter, .autoDispose r⟩]
    nextTask := w.nextTask + 1
    pubsub := (w.pubsub.on room.roomId w.nextListener (.gameMessage r)).on PLAYER_LEFT
      (w.nextListener + 1) (.playerLeft r)
    nextListener := w.nextListener + 2 }

def snapshotOf (w : World) (r : RoomRef) (client : SimpleClient) : RoomSnapshot :=
  { id := (w.rooms r).roomId, type := (w.rooms r).roomType, owner := client, metadata := .obj []
    createdAt := Int64.ofInt w.now }

def registerNewRoom (w : World) (r : RoomRef) (storage : MemoryStorage) : World :=
  let room := w.rooms r
  let w := { w with storage := storage, managingRooms := w.managingRooms.insert room.roomId r }
  w.setRoom r { room with stage := .registered }

def replyCreated (w : World) (r : RoomRef) : Creator → World
  | .api => w
  | .frame client requestId =>
    w.sendFrameToClient client.sessionId (requestId ++ lit "-create") (.str (w.rooms r).roomId)

def created (w : World) (r : RoomRef) (client : SimpleClient) (creator : Creator) : Out :=
  let w := subscribeRoom w r
  match RoomFetcher.addRoom J w.storage w.now (snapshotOf w r client) with
  | .error x => .raise w x []
  | .ok storage => .go (replyCreated (registerNewRoom w r storage) r creator) []

def handleClientMessage (w : World) (client : SimpleClient) (event : Str) (dataIn : Json) : Out :=
  let data := if dataIn.isObject then dataIn else .obj []
  if event = Protocol.createNewRoom then
    match data.valueString (lit "uniqueRequestId") [], data.valueString (lit "type") [] with
    | .error x, _ => .raise w x []
    | .ok _, .error x => .raise w x []
    | .ok requestId, .ok roomName =>
      if roomName = [] ∨ requestId = [] then .go w []
      else
        match data.valueJson (lit "options") (.obj []) with
        | .error x => .go w [.rethrow x, .catchCreate client requestId]
        | .ok options => .go w [.createNewRoom client roomName options []
            (.frame client requestId), .catchCreate client requestId]
  else if event = Protocol.joinRoom then
    match data.valueString (lit "roomId") [] with
    | .error x => .raise w x []
    | .ok roomId =>
      if roomId = [] then .go w []
      else .go w [.joinRoom client roomId data, .catchJoinRoom client roomId]
  else if event = Protocol.sendMessage then
    match data.valueString (lit "room") [] with
    | .error x => .raise w x []
    | .ok room =>
      if room = [] then .go w []
      else
        match data.find? (lit "key") with
        | none => .go w []
        | some key =>
          match data.valueJson (lit "data") .null with
          | .error x => .raise w x []
          | .ok content => .go w [.publish room (messagePayload client key content)]
  else .go w []

def joinRoom (w : World) (client : SimpleClient) (roomId : Str) (data : Json) : Out :=
  match RoomFetcher.findRoomById J w.storage w.now roomId with
  | .error x => .raise w x []
  | .ok _ =>
    match data.valueJson (lit "options") (.obj []) with
    | .error x => .raise w x []
    | .ok options => .go w [.publish roomId (joinPayload client options)]

def dispatch (w : World) (client : SimpleClient) (isBinary : Bool) (payload : Str) : Out :=
  match Sio.parseFrame M J isBinary payload with
  | .error x => .raise w x []
  | .ok frame =>
    match frame.kind with
    | .Ping =>
      match w.connections.lookup client.sessionId with
      | none => .go w []
      | some _ => .go { w with log := w.log ++ [.pong client.sessionId] } []
    | .Disconnect => .go w [.handleClientDisconnect client.sessionId]
    | .Event => .go w [.handleClientMessage client frame.event frame.data]
    | _ => .go w []

/-- One listener of a `publish`; `left` is the rest of its copied list. -/
def handle (w : World) (payload : Json) (left : List Cmd) : Handler → Out
  | .infoRequest n => .go { w with infos := Function.update w.infos n (some payload) } left
  | .playerLeft r =>
    match payload.getString with
    | .error x => .raise w x []
    | .ok sessionId => goAfter (removeClient w r sessionId false) left
  | .gameMessage r =>
    match roomMessage payload with
    | .error x => .raise w x []
    | .ok .ignored => .go w left
    | .ok .requestInfo => .go (w.touch r) (.publish REQUEST_INFO (w.rooms r).info :: left)
    | .ok (.external key data) => .go w (.callHook r (.onExternalMessage key data) :: left)
    | .ok (.join client options) =>
      .go w ([.callHook r (.canClientJoin client options), .addClient r client options,
        .catchJoin r client] ++ left)
    | .ok (.message client) =>
      match (w.rooms r).member client.sessionId with
      | none => .go (w.touch r) left
      | some sender =>
        match messageArgs payload with
        | .error x => .raise (w.touch r) x []
        | .ok (key, data) => .go (w.touch r) (.callHook r (.onMessage sender key data) :: left)

/-- One callback of `on_join_listeners.call`, which is taken to go through a copy of the list without
what was removed meanwhile, as is that of the leave listeners. What it does where a listener erases one
in front of the last is in `Reentry`, and for a join in `Joining`. -/
def joinListener (w : World) (r : RoomRef) (client : SimpleClient) (listener : ℕ × JoinCallback)
    (left : List Cmd) : Out :=
  let w := w.touch r
  if listener ∈ (w.rooms r).onJoinListeners then
    match listener.2 with
    | .wait v => .go (w.rejoined v client) left
    | .app => .go w (.callHook r (.joinListener client) :: left)
  else .go w left

def timerBody (w : World) (task : Task) : Out :=
  let w := { w with working := w.working.erase task }
  match task.callback with
  | .autoDispose r => goAfter (dispose w r .timer) []
  | .reconnect v => .go (w.reconnectTimeout v) []

/-- What the application code of a hook does next; `none` where it cannot do that. It calls `dispose`
of any room, and the other members of `Room` for its own room only. -/
def inHook (w : World) (r : RoomRef) (hook : Hook) : Answer → Option Out
  | .ret => some (.go w [])
  | .throw x => some (.raise w x [])
  | .dispose r' =>
    if r' < w.nextRoom then some (goAfter (dispose w r' .hook) [.inHook r hook]) else none
  | .removeFromRoom sessionId => some (goAfter (removeClient w r sessionId true) [.inHook r hook])
  | .allowReconnection clientId seconds =>
    let w := w.touch r
    if (w.rooms r).disposing then some (.go w [.inHook r hook])
    else some (.park (allowReconnection w r clientId seconds) [.futureGet w.nextWait, .inHook r hook])
  | .send sessionId key data => some (.go ((w.touch r).sendTo r sessionId key data) [.inHook r hook])
  | .setState state =>
    let w := w.touch r
    some (.go (w.setRoom r { w.rooms r with state := state }) [.inHook r hook])
  | .setMetadata metadata =>
    let w := w.touch r
    match RoomFetcher.setRoomMetadata J w.storage w.now (w.rooms r).roomId metadata with
    | .error x => some (.raise w x [.inHook r hook])
    | .ok storage =>
      let w := { w with storage := storage }
      some (.go (w.setRoom r { w.rooms r with metadata := metadata }) [.inHook r hook])
  | .setGameValues values =>
    match GameValues.setAll J w.storage w.now values with
    | .error x => some (.raise w x [.inHook r hook])
    | .ok storage => some (.go { w with storage := storage } [.inHook r hook])
  | .addJoinListener =>
    let w := w.touch r
    let room := w.rooms r
    let w := w.setRoom r
      { room with onJoinListeners := room.onJoinListeners ++ [(w.nextCallback, .app)] }
    some (.go { w with nextCallback := w.nextCallback + 1 } [.inHook r hook])
  | .addLeaveListener =>
    let w := w.touch r
    let room := w.rooms r
    let w := w.setRoom r { room with onLeaveListeners := room.onLeaveListeners ++ [w.nextCallback] }
    some (.go { w with nextCallback := w.nextCallback + 1 } [.inHook r hook])
  | _ => none

def endOp (w : World) (sessionId : Str) : World :=
  match w.sessions.lookup sessionId with
  | some (client, .busy) =>
    { w with sessions := w.sessions.insert sessionId (client, .idle) }
  | some (client, .closing) =>
    { w with
      sessions := w.sessions.insert sessionId (client, .closed)
      lastActivity := w.lastActivity.erase sessionId }
  | _ => w

def exec (w : World) : Cmd → Answer → Option Out
  | .openConnection client, _ =>
    some (.go { w with
      connections := w.connections.insert client.sessionId client
      lastActivity := w.lastActivity.insert client.sessionId w.now } [])
  | .recordActivity sessionId, _ =>
    match w.lastActivity.lookup sessionId with
    | none => some (.park w [])
    | some _ => some (.park { w with lastActivity := w.lastActivity.insert sessionId w.now } [])
  | .dispatch client isBinary payload, _ => some (dispatch M J w client isBinary payload)
  | .handleClientMessage client event data, _ => some (handleClientMessage w client event data)
  | .handleClientDisconnect sessionId, _ =>
    some (.go { w with connections := w.connections.erase sessionId }
      [.publish PLAYER_LEFT (.str sessionId), .disconnected sessionId])
  | .disconnected _, _ => some (.go w [])
  | .endOp sessionId, _ => some (.go (endOp w sessionId) [])
  | .registerRoom name options, _ =>
    match w.registeredRooms.lookup name with
    | some _ => some (.go w [])
    | none => some (.go { w with registeredRooms := w.registeredRooms.insert name options } [])
  | .createNewRoom client roomName creatorOptions override creator, .create id₁ id₂ id₃ factory =>
    some (createNewRoom J w client roomName creatorOptions override creator [id₁, id₂, id₃] factory)
  | .createNewRoom .., _ => none
  | .created r client creator, _ => some (created J w r client creator)
  | .rethrow x, _ => some (.raise w x [])
  | .catchCreate .., _ => some (.go w [])
  | .joinRoom client roomId data, _ => some (joinRoom J w client roomId data)
  | .catchJoinRoom .., _ => some (.go w [])
  | .publish key payload, _ => some (.go w [.deliver payload (w.handlersOf key)])
  | .deliver _ [], _ => some (.go w [])
  | .deliver payload (handler :: handlers), _ =>
    some (handle w payload [.deliver payload handlers] handler)
  | .boundary _, _ => some (.go w [])
  | .subscribeInfo roomId, _ =>
    some (.go { w with
      pubsub := w.pubsub.on REQUEST_INFO w.nextListener (.infoRequest w.nextInfo)
      nextListener := w.nextListener + 1
      nextInfo := w.nextInfo + 1 }
      [.publish roomId infoPayload, .waitInfo, .unsubscribeInfo w.nextListener])
  | .waitInfo, _ => some (.park w [])
  | .unsubscribeInfo listener, _ => some (.go (w.unsubscribe REQUEST_INFO (some listener)) [])
  | .shutdown, .order ids =>
    if ids.isPerm w.managingRooms.keys then some (.go w [.disposeByIds ids]) else none
  | .shutdown, _ => none
  | .disposeByIds [], _ => some (.go w [])
  | .disposeByIds (id :: ids), _ =>
    match w.managingRooms.lookup id with
    | none => some (.go w [.disposeByIds ids])
    | some r => some (goAfter (dispose w r .shutdown) [.disposeByIds ids])
  | .timerBody task, _ => some (timerBody w task)
  | .workerDone, _ => some (.go { w with workerBusy := false } [])
  | .callHook r hook, _ =>
    let w := w.touch r
    some (.go { w with log := w.log ++ [.hook r hook] } [.inHook r hook])
  | .inHook r hook, answer => inHook J w r hook answer
  | .futureGet _, _ => some (.go w [])
  | .addClient r client options, _ =>
    let w := addClient w r client
    some (.go w [.callJoinListeners r client (w.rooms r).onJoinListeners,
      .callHook r (.onJoin client options)])
  | .callJoinListeners r _ [], _ => some (.go (w.touch r) [])
  | .callJoinListeners r client (listener :: left), _ =>
    some (joinListener w r client listener [.callJoinListeners r client left])
  | .catchJoin .., _ => some (.go w [])
  | .callLeaveListeners r _ _ [], _ => some (.go (w.touch r) [])
  | .callLeaveListeners r client intentional (_ :: left), _ =>
    some (.go (w.touch r) [.callHook r (.leaveListener client intentional),
      .callLeaveListeners r client intentional left])
  | .disposeIfEmpty r, _ =>
    if (w.rooms r).clients = [] then some (goAfter (dispose w r .lastLeave) [])
    else some (.go (w.touch r) [])
  | .disposeLoop r [], _ =>
    some (.go (w.touch r) [.callHook r .beforeDispose, .finishDispose r])
  | .disposeLoop r (sessionId :: left), _ =>
    some (goAfter (removeClient w r sessionId true) [.disposeLoop r left])
  | .finishDispose r, _ =>
    some (.go (finishDispose w r) [.callHook r .onDispose, .onRoomDisposed r])
  | .onRoomDisposed r, _ => some (.go (onRoomDisposed w r) [])

/-- A `std::exception` with a text that `dump` can write. -/
def Exn.readable : Exn → Bool
  | .std what => utf8Valid what
  | .other => false

def unwind (w : World) : Cmd → Exn → Answer → Option Out
  | .inHook r hook, x, answer =>
    match answer with
    | .handle => some (.go w [.inHook r hook])
    | .propagate => some (.raise w x [])
    | _ => none
  | .created r _ _, x, _ => some (goAfter (dispose w r .rollback) [.rethrow x])
  | .catchCreate client requestId, .std what, _ =>
    some (.go (w.sendFrameToClient client.sessionId (requestId ++ lit "-error") (errorMessage what)) [])
  | .catchJoinRoom client roomId, .std what, _ =>
    some (.go (w.sendFrameToClient client.sessionId (roomId ++ lit "-error") (errorMessage what)) [])
  | .catchJoin r client, .std what, _ =>
    let w := w.touch r
    some (.go (w.sendFrameToClient client.sessionId ((w.rooms r).roomId ++ lit "-error")
      (errorMessage what)) [])
  | .boundary onlyStd, x, _ =>
    -- the handler of an admin request throws itself if it cannot write `what()`
    if onlyStd && !x.readable then some (.raise w x []) else some (.go w [])
  | _, x, _ => some (.raise w x [])

def ready (w : World) : Cmd → Bool
  | .futureGet v => (w.waits v).promise.isSome
  | _ => true

/-- The client of the synthetic owner of `Server::create_room`. -/
def syntheticOwner : SimpleClient := ⟨[], [], [], []⟩

def spawn (w : World) : EnvEvent → Option (World × List (Tid × List Cmd))
  | .tick ms => some ({ w with now := w.now + ms }, [])
  | .connect client =>
    match w.sessions.lookup client.sessionId with
    | some _ => none
    | none =>
      some ({ w with sessions := w.sessions.insert client.sessionId (client, .busy) },
        [(.conn client.sessionId, [.openConnection client, .endOp client.sessionId])])
  | .receive sessionId isBinary payload =>
    match w.sessions.lookup sessionId with
    | some (client, .idle) =>
      some ({ w with sessions := w.sessions.insert sessionId (client, .busy) },
        [(.conn sessionId, [.recordActivity sessionId, .dispatch client isBinary payload,
          .endOp sessionId])])
    | _ => none
  | .hangup sessionId =>
    match w.sessions.lookup sessionId with
    | some (client, .idle) =>
      some ({ w with sessions := w.sessions.insert sessionId (client, .closing) },
        [(.conn sessionId, [.handleClientDisconnect sessionId, .endOp sessionId])])
    | _ => none
  | .registerRoom name options => some (w, [(.app, [.registerRoom name options])])
  | .createRoom name roomId options =>
    some (w, [(.app, [.createNewRoom syntheticOwner name options roomId .api, .boundary false])])
  | .externalMessage room key data =>
    some (w, [(.admin, [.publish room (externalPayload key data), .boundary true])])
  | .requestInfo roomId => some (w, [(.admin, [.subscribeInfo roomId])])
  | .shutdown => some (w, [(.main, [.shutdown])])
  | .fire index =>
    match w.tasks[index]? with
    | none => none
    | some task =>
      if w.workerBusy ∨ w.now < task.due ∨ ∃ other ∈ w.tasks, other.due < task.due then none
      else if w.cancelled task.id then some ({ w with tasks := w.tasks.eraseIdx index }, [])
      else
        some ({ w with
          tasks := w.tasks.eraseIdx index
          working := task :: w.working
          workerBusy := true }, [(.worker, [.timerBody task, .workerDone])])

def server : Language World Cmd Exn Tid Answer EnvEvent where
  exec := exec M J
  unwind := unwind
  ready := ready
  spawn := spawn

end

def World.initial : World where
  now := 0
  storage := ⟨∅⟩
  pubsub := PubSub.empty
  nextListener := 0
  managingRooms := ∅
  nextRoom := 0
  waits := fun _ => ⟨0, [], none, 0, 0, 0⟩
  nextWait := 0
  tasks := []
  nextTask := 0
  cancelled := fun _ => false
  working := []
  sessions := ∅
  rooms := fun _ => Room.fresh
  registeredRooms := ∅
  connections := ∅
  lastActivity := ∅
  nextCallback := 0
  workerBusy := false
  infos := fun _ => none
  nextInfo := 0
  log := []
  dangling := []

abbrev ServerConfig := Config World Cmd Exn Tid

def ServerConfig.initial : ServerConfig := ⟨World.initial, none, [], none⟩

end Blueboat
