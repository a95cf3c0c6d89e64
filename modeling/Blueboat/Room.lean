import Blueboat.MemoryPubSub
import Blueboat.RoomFetcher

set_option autoImplicit false

/-! `room.hpp` and the parts of `room.cpp` that only read or write the room itself. -/
namespace Blueboat

open Protocol

/-- Rooms are numbered in the order in which the factories made them. -/
abbrev RoomRef := ℕ

inductive Cause where
  | hook | timer | shutdown | lastLeave | rollback
  deriving DecidableEq

inductive Stage where
  | creating | registered | withdrawn | gone
  deriving DecidableEq

/-- A callback of `on_join_listeners`: that of a pending `allow_reconnection`, or the room's own. -/
inductive JoinCallback where
  | wait (id : ℕ)
  | app
  deriving DecidableEq

instance (listener : ℕ × JoinCallback) (listeners : List (ℕ × JoinCallback)) :
    Decidable (listener ∈ listeners) := inferInstance

/-- What the lifetime of a room depends on. The last four fields are not in the source: how far the
room has come, whether a client ever joined it, whether `on_room_disposed` has erased it, and what
`dispose` was first called by. -/
structure Life where
  roomId : Str
  clients : List SimpleClient
  disposing : Bool
  gameMessageSub : Option ℕ
  playerLeftSub : Option ℕ
  autoDisposeTimer : Option ℕ
  onJoinListeners : List (ℕ × JoinCallback)
  stage : Stage
  visited : Bool
  erased : Bool
  cause : Option Cause

structure Room extends Life where
  roomType : Str
  owner : SimpleClient
  options : Json
  creatorOptions : Json
  initialGameValues : Json
  state : Json
  metadata : Json
  onLeaveListeners : List ℕ

inductive Hook where
  | onCreate (options : Json)
  | canClientJoin (client : SimpleClient) (options : Json)
  | onJoin (client : SimpleClient) (options : Json)
  | onMessage (client : SimpleClient) (key : Str) (data : Json)
  | onLeave (client : SimpleClient) (intentional : Bool)
  | beforeDispose
  | onDispose
  | onExternalMessage (key : Str) (data : Json)
  | joinListener (client : SimpleClient)
  | leaveListener (client : SimpleClient) (intentional : Bool)

/-- What a payload on the room's channel asks for. -/
inductive RoomMessage where
  | ignored
  | requestInfo
  | external (key : Str) (data : Json)
  | join (client : SimpleClient) (options : Json)
  | message (client : SimpleClient)

def externalOf (payload : Json) : Except Exn RoomMessage := do
  let data ← payload.valueJson (lit "data") (.obj [])
  if data.contains (lit "key") then
    let key ← (data.atKey (lit "key")).bind Json.getString
    let content ← data.valueJson (lit "data") .null
    return .external key content
  else return .ignored

def joinOf (payload : Json) (client : SimpleClient) : Except Exn RoomMessage := do
  let data ← payload.valueJson (lit "data") (.obj [])
  let options ← data.valueJson (lit "options") (.obj [])
  return .join client options

/-- The reads of the game-message listener up to the first use of the room. -/
def roomMessage (payload : Json) : Except Exn RoomMessage := do
  if !payload.isObject || !payload.contains (lit "action") then return .ignored
  let action ← (payload.atKey (lit "action")).bind Json.getString
  if action = REQUEST_INFO then return .requestInfo
  if action = EXTERNAL_MESSAGE then externalOf payload
  else if !payload.contains (lit "client") then return .ignored
  else
    let client ← (payload.atKey (lit "client")).bind SimpleClient.fromJson
    if action = joinRoom then joinOf payload client
    else if action = sendMessage then return .message client
    else return .ignored

def messageArgs (payload : Json) : Except Exn (Str × Json) := do
  let data ← payload.valueJson (lit "data") (.obj [])
  let key ← data.valueString (lit "key") []
  let content ← data.valueJson (lit "data") .null
  return (key, content)

def joinPayload (client : SimpleClient) (options : Json) : Json :=
  Json.ofFields [(lit "action", .str joinRoom), (lit "client", client.toJson),
    (lit "data", Json.ofFields [(lit "options", options)])]

def messagePayload (client : SimpleClient) (key data : Json) : Json :=
  Json.ofFields [(lit "client", client.toJson), (lit "action", .str sendMessage),
    (lit "data", Json.ofFields [(lit "key", key), (lit "data", data)])]

def externalPayload (key : Str) (data : Json) : Json :=
  Json.ofFields [(lit "action", .str EXTERNAL_MESSAGE),
    (lit "data", Json.ofFields [(lit "key", .str key), (lit "data", data)])]

def infoPayload : Json := Json.ofFields [(lit "action", .str REQUEST_INFO)]

def errorMessage (what : Str) : Json := Json.ofFields [(lit "message", .str what)]

namespace Room

def fresh : Room where
  roomId := []
  clients := []
  disposing := false
  gameMessageSub := none
  playerLeftSub := none
  autoDisposeTimer := none
  onJoinListeners := []
  stage := .creating
  visited := false
  erased := false
  cause := none
  roomType := []
  owner := ⟨[], [], [], []⟩
  options := .obj []
  creatorOptions := .obj []
  initialGameValues := .obj []
  state := .obj []
  metadata := .obj []
  onLeaveListeners := []

def info (room : Room) : Json :=
  Json.ofFields [(lit "clients", .arr (room.clients.map SimpleClient.toJson)),
    (lit "state", room.state)]

def member (room : Room) (sessionId : Str) : Option SimpleClient :=
  room.clients.find? fun c => c.sessionId = sessionId

def eraseMember (room : Room) (sessionId : Str) : Room :=
  { room with clients := room.clients.eraseP fun c => c.sessionId = sessionId }

/-- `add_client` with the first lines of `client_has_joined`: the append and the owner's session. -/
def addMember (room : Room) (client : SimpleClient) : Room :=
  { room with
    clients := room.clients ++ [client]
    visited := true
    owner :=
      if room.owner.id ≠ [] ∧ client.id = room.owner.id then
        { room.owner with sessionId := client.sessionId }
      else room.owner }

end Room

theorem roomMessage_join (client : SimpleClient) (options : Json) :
    roomMessage (joinPayload client options) = .ok (.join client options) := rfl

theorem roomMessage_message (client : SimpleClient) (key data : Json) :
    roomMessage (messagePayload client key data) = .ok (.message client) := rfl

theorem roomMessage_info : roomMessage infoPayload = .ok .requestInfo := rfl

theorem roomMessage_str (s : Str) : roomMessage (.str s) = .ok .ignored := rfl

end Blueboat
