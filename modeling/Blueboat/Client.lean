import Blueboat.Library.LockMachine
import Blueboat.RoomFetcher

set_option autoImplicit false

/-! The client (`client.cpp`) as threads: its manager thread and the application's calls. Every
command is one step, from one release of `mutex_` to the next; a callback is application code. The
pings are left to `KeepAlive`. -/
namespace Blueboat.Client

open Protocol LockMachine

/-- A `std::shared_ptr<Room>`: the objects are numbered in the order in which they were made. -/
abbrev Ref := ℕ

/-- `named` is not in the source: the id of the object will not change any more. -/
structure Room where
  id : Str
  joined : Bool
  initialJoinOptions : Json
  named : Bool

/-- The closures in `event_handlers_`, with what they capture. -/
inductive Handler where
  | joinError (room : Ref)
  | message (room : Ref)
  | created (room : Ref) (options : Json) (requestId : Str)
  | createError (room : Ref) (requestId : Str)

inductive Callback where
  | idSaved (id : Str)
  | connect
  | connectError
  | disconnect
  | reconnect (attempt : ℕ)
  | reconnectAttempt (attempt : ℕ)
  | joinAttempt (room : Ref)
  | create (room : Ref) (roomId : Str)
  | join (room : Ref)
  | joinError (room : Ref) (error : Json)
  | message (room : Ref) (key : Str) (data : Json)
  | leave (room : Ref)

/-- The connection that `ws_` owns; the connections are numbered. Nothing can be sent on it once
its loop has ended or `close` was called. -/
structure Link where
  number : ℕ
  closed : Bool
  deriving DecidableEq

/-- The last five fields are not in the source: the frames sent on each connection, the callbacks
called, the objects that `join_room` returned, and the last connection whose `CLIENT_ID_SET` handler
has copied `rooms_` and the last for which it returned. -/
structure World where
  running : Bool
  ws : Option Link
  nextLink : ℕ
  rooms : List Ref
  eventHandlers : Dict Handler
  objects : Ref → Room
  nextObject : ℕ
  sent : List (ℕ × Str × Json)
  called : List Callback
  returned : List Ref
  copied : Option ℕ
  idSet : Option ℕ

inductive Origin where
  | call | created | rejoin
  deriving DecidableEq

inductive Cmd where
  | joinRoom (roomId : Str) (options : Json)
  | joinRoomShared (room : Ref) (roomId : Str) (options : Json) (origin : Origin)
  | sendUnlessJoined (room : Ref) (roomId : Str) (options : Json) (origin : Origin)
  | sendJoin (room : Ref) (roomId : Str) (options : Json) (origin : Origin)
  | addRoom (room : Ref) (roomId : Str) (origin : Origin)
  | createRoom (roomName : Str) (options : Json)
  | sendFrame (event : Str) (data : Json)
  | disconnect
  | closeWs
  | call (callback : Callback)
  | inCallback (callback : Callback)
  | connectionManagerLoop (attempt : ℕ)
  | install (attempt : ℕ)
  | recvLoop
  | resetWs
  | afterLoop
  | copyLostRooms
  | leaveRooms (rooms : List Ref)
  | handleClientIdSet (newId : Json)
  | copyRooms
  | rejoinRooms (rooms : List Ref)
  | idSetDone
  | handle (handler : Handler) (data : Json)
  | eraseRequest (requestId : Str)
  | setLeft (room : Ref)

inductive Answer where
  | next
  | failed
  | connected
  | receive (isBinary : Bool) (payload : Str)
  | closed
  | requestId (id : Str)
  | ret
  | throw (x : Exn)
  | joinRoom (roomId : Str) (options : Json)
  | createRoom (roomName : Str) (options : Json)
  | send (room : Ref) (key : Str) (data : Json)

inductive EnvEvent where
  | joinRoom (roomId : Str) (options : Json)
  | createRoom (roomName : Str) (options : Json)
  | send (room : Ref) (key : Str) (data : Json)
  | disconnect

inductive Tid where
  | manager
  | app
  deriving DecidableEq

abbrev Out := Outcome World Cmd Exn

def messageEvent (roomId : Str) : Str := lit "message-" ++ roomId
def errorEvent (id : Str) : Str := id ++ lit "-error"
def createEvent (requestId : Str) : Str := requestId ++ lit "-create"

def joinData (roomId : Str) (options : Json) : Json :=
  Json.ofFields [(lit "roomId", .str roomId), (lit "options", options)]

def createData (roomName : Str) (options : Json) (requestId : Str) : Json :=
  Json.ofFields [(lit "type", .str roomName), (lit "options", options),
    (lit "uniqueRequestId", .str requestId)]

def messageData (roomId key : Str) (data : Json) : Json :=
  Json.ofFields [(lit "room", .str roomId), (lit "key", .str key), (lit "data", data)]

namespace World

def setObject (w : World) (o : Ref) (room : Room) : World :=
  { w with objects := Function.update w.objects o room }

def newObject (w : World) (room : Room) : World :=
  { w.setObject w.nextObject room with nextObject := w.nextObject + 1 }

def setJoined (w : World) (o : Ref) (joined : Bool) : World :=
  w.setObject o { w.objects o with joined := joined }

/-- `send_frame`: nothing is sent while there is no connection, or on one that has ended. -/
def send (w : World) (event : Str) (data : Json) : World :=
  match w.ws with
  | none => w
  | some link =>
    if link.closed then w else { w with sent := w.sent ++ [(link.number, event, data)] }

def closeWs (w : World) : World :=
  { w with ws := w.ws.map fun link => { link with closed := true } }

def registerRoomEvents (w : World) (o : Ref) : World :=
  let id := (w.objects o).id
  { w with
    eventHandlers := (w.eventHandlers.insert (errorEvent id) (.joinError o)).insert
      (messageEvent id) (.message o) }

/-- The last section of `join_room_shared`. -/
def addRoom (w : World) (o : Ref) (roomId : Str) (origin : Origin) : World :=
  let listed := w.rooms.any fun o' => (w.objects o').id = roomId
  { w with
    rooms := if listed then w.rooms else w.rooms ++ [o]
    returned := if origin = .call then w.returned ++ [o] else w.returned }

end World

/-- The constructor of `Room`: it keeps its default for options that are null. -/
def newRoom (id : Str) (options : Json) (named : Bool) : Room where
  id := id
  joined := false
  initialJoinOptions := if options.isNull then .obj [] else options
  named := named

/-- The handler of the events of one room. -/
def handleMessage (w : World) (o : Ref) (envelope : Json) : Out :=
  if !envelope.contains (lit "key") then .park w []
  else
    match (envelope.atKey (lit "key")).bind Json.getString with
    | .error x => .raise w x []
    | .ok key =>
      match envelope.valueJson (lit "data") .null with
      | .error x => .raise w x []
      | .ok data =>
        if key = joinedRoom then .park (w.setJoined o true) [.call (.join o)]
        else if key = removedFromRoom then .park w [.call (.leave o), .setLeft o]
        else .park w [.call (.message o key data)]

def handle (w : World) (data : Json) : Handler → Out
  | .joinError o => .park w [.call (.joinError o data)]
  | .message o => handleMessage w o data
  | .created o options requestId =>
    match data.getString with
    | .error x => .raise w x []
    | .ok roomId =>
      let w := w.setObject o { w.objects o with id := roomId, named := true }
      .park (w.registerRoomEvents o) [.eraseRequest requestId, .call (.create o roomId),
        .joinRoomShared o roomId options .created]
  | .createError o requestId => .park w [.call (.joinError o data), .eraseRequest requestId]

def createRoom (w : World) (roomName : Str) (options : Json) (requestId : Str) : Out :=
  let o := w.nextObject
  let w := w.newObject (newRoom [] options false)
  .park { w with
      eventHandlers := (w.eventHandlers.insert (createEvent requestId)
        (.created o options requestId)).insert (errorEvent requestId) (.createError o requestId) }
    [.sendFrame createNewRoom (createData roomName options requestId)]

def inCallback (w : World) (callback : Callback) : Answer → Option Out
  | .ret => some (.park w [])
  | .throw x => some (.raise w x [])
  | .joinRoom roomId options => some (.park w [.joinRoom roomId options, .inCallback callback])
  | .createRoom roomName options =>
    some (.park w [.createRoom roomName options, .inCallback callback])
  | .send o key data => some (.park w
      [.sendFrame sendMessage (messageData (w.objects o).id key data), .inCallback callback])
  | _ => none

section
variable (M : MsgpackC) (J : JsonText)

def handleWsPayload (w : World) (isBinary : Bool) (payload : Str) : Out :=
  match Sio.parseFrame M J isBinary payload with
  | .error x => .raise w x []
  | .ok frame =>
    if frame.kind ≠ .Event then .park w [.recvLoop]
    else if frame.event = clientIdSet then .park w [.handleClientIdSet frame.data, .recvLoop]
    else
      match w.eventHandlers.lookup frame.event with
      | none => .park w [.recvLoop]
      | some handler => .park w [.handle handler frame.data, .recvLoop]

/-- The manager thread of the loop in `connection_manager_loop`, one part after the other. -/
def manage (w : World) : Cmd → Answer → Option Out
  | .connectionManagerLoop attempt, answer =>
    if w.running then
      match answer with
      | .failed => some (.park w [.call .connectError, .call (.reconnectAttempt (attempt + 1)),
          .connectionManagerLoop (attempt + 1)])
      | .connected => some (.park w [.install attempt])
      | _ => none
    else some (.park w [])
  | .install attempt, _ =>
    let reconnected := if 0 < attempt ∧ w.running = true then [.call (.reconnect attempt)] else []
    some (.park { w with ws := some ⟨w.nextLink, !w.running⟩, nextLink := w.nextLink + 1 }
      (reconnected ++ [.recvLoop]))
  | .recvLoop, .receive isBinary payload => some (handleWsPayload M J w isBinary payload)
  | .recvLoop, .closed => some (.park w.closeWs [.resetWs])
  | .resetWs, _ => some (.park { w with ws := none } [.afterLoop])
  | .afterLoop, _ =>
    if w.running then some (.park w [.call .disconnect, .copyLostRooms]) else some (.park w [])
  | .copyLostRooms, _ => some (.park w [.leaveRooms w.rooms])
  | .leaveRooms [], _ =>
    some (.park w [.call (.reconnectAttempt 1), .connectionManagerLoop 1])
  | .leaveRooms (o :: rooms), _ =>
    some (.park (w.setJoined o false) [.call (.leave o), .leaveRooms rooms])
  | _, _ => none

def exec (w : World) : Cmd → Answer → Option Out
  | .joinRoom roomId options, _ =>
    let o := w.nextObject
    some (.park ((w.newObject (newRoom roomId options true)).registerRoomEvents o)
      [.joinRoomShared o roomId options .call])
  | .joinRoomShared o roomId options origin, _ =>
    some (.park w [.call (.joinAttempt o), .sendUnlessJoined o roomId options origin])
  | .sendUnlessJoined o roomId options origin, _ =>
    if (w.objects o).joined then some (.park w [.addRoom o roomId origin])
    else some (.park w [.sendJoin o roomId options origin])
  | .sendJoin o roomId options origin, _ =>
    some (.park (w.send joinRoom (joinData roomId options)) [.addRoom o roomId origin])
  | .addRoom o roomId origin, _ => some (.park (w.addRoom o roomId origin) [])
  | .createRoom roomName options, .requestId id => some (createRoom w roomName options id)
  | .createRoom .., _ => none
  | .sendFrame event data, _ => some (.park (w.send event data) [])
  | .disconnect, _ =>
    some (.park { w with running := false } (if w.running then [.closeWs] else []))
  | .closeWs, _ => some (.park w.closeWs [])
  | .call callback, _ =>
    some (.park { w with called := w.called ++ [callback] } [.inCallback callback])
  | .inCallback callback, answer => inCallback w callback answer
  | .handleClientIdSet newId, _ =>
    match newId.getString with
    | .error x => some (.raise w x [])
    | .ok id => some (.park w [.call (.idSaved id), .copyRooms])
  | .copyRooms, _ =>
    some (.park { w with copied := w.ws.map Link.number } [.rejoinRooms w.rooms])
  | .rejoinRooms [], _ => some (.park w [.call .connect, .idSetDone])
  | .rejoinRooms (o :: rooms), _ =>
    let room := w.objects o
    if room.id = [] then some (.park w [.rejoinRooms rooms])
    else some (.park w
      [.joinRoomShared o room.id room.initialJoinOptions .rejoin, .rejoinRooms rooms])
  | .idSetDone, _ => some (.park { w with idSet := w.ws.map Link.number } [])
  | .handle handler data, _ => some (handle w data handler)
  | .eraseRequest requestId, _ =>
    some (.park { w with
      eventHandlers := (w.eventHandlers.erase (createEvent requestId)).erase
        (errorEvent requestId) } [])
  | .setLeft o, _ => some (.park (w.setJoined o false) [])
  | cmd, answer => manage M J w cmd answer

/-- Nothing on the client's threads catches an exception. -/
def unwind (w : World) (_cmd : Cmd) (x : Exn) (_answer : Answer) : Option Out :=
  some (.raise w x [])

def spawn (w : World) : EnvEvent → Option (World × List (Tid × List Cmd))
  | .joinRoom roomId options => some (w, [(.app, [.joinRoom roomId options])])
  | .createRoom roomName options => some (w, [(.app, [.createRoom roomName options])])
  | .send o key data => some (w,
      [(.app, [.sendFrame sendMessage (messageData (w.objects o).id key data)])])
  | .disconnect => some (w, [(.app, [.disconnect])])

def client : Language World Cmd Exn Tid Answer EnvEvent where
  exec := exec M J
  unwind := unwind
  ready := fun _ _ => true
  spawn := spawn

end

def World.initial : World where
  running := true
  ws := none
  nextLink := 0
  rooms := []
  eventHandlers := ∅
  objects := fun _ => newRoom [] .null false
  nextObject := 0
  sent := []
  called := []
  returned := []
  copied := none
  idSet := none

abbrev ClientConfig := Config World Cmd Exn Tid

def ClientConfig.initial : ClientConfig :=
  ⟨World.initial, none, [⟨.manager, [.connectionManagerLoop 0], none⟩], none⟩

end Blueboat.Client
