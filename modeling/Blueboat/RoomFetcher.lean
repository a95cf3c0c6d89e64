import Blueboat.MemoryStorage
import Blueboat.SioProtocol

set_option autoImplicit false

/-! `protocol.hpp`, `room_snapshot.hpp`, `room_fetcher.cpp` and `game_values.cpp`. -/
namespace Blueboat

namespace Protocol

def createNewRoom : Str := lit "blueboat_CREATE_NEW_ROOM"
def joinRoom : Str := lit "blueboat_JOIN_ROOM"
def sendMessage : Str := lit "blueboat_SEND_MESSAGE"
def clientIdSet : Str := lit "CLIENT_ID_SET"
def joinedRoom : Str := lit "blueboat_JOINED_ROOM"
def removedFromRoom : Str := lit "blueboat_REMOVED_FROM_ROOM"
def PLAYER_LEFT : Str := lit "blueboat-player-left"
def REQUEST_INFO : Str := lit "blueboat-request-room-info"
def EXTERNAL_MESSAGE : Str := lit "blueboat-external-message"
def ROOM_PREFIX : Str := lit "room:"
def GAME_VALUES : Str := lit "game-values"

end Protocol

open Protocol

structure SimpleClient where
  id : Str
  sessionId : Str
  origin : Str
  ip : Str
  deriving DecidableEq

def SimpleClient.toJson (c : SimpleClient) : Json :=
  Json.ofFields [(lit "id", .str c.id), (lit "sessionId", .str c.sessionId),
    (lit "origin", .str c.origin), (lit "ip", .str c.ip)]

def SimpleClient.fromJson (j : Json) : Except Exn SimpleClient := do
  let id ← j.valueString (lit "id") []
  let sessionId ← j.valueString (lit "sessionId") []
  let origin ← j.valueString (lit "origin") []
  let ip ← j.valueString (lit "ip") []
  return { id, sessionId, origin, ip }

structure RoomSnapshot where
  id : Str
  type : Str
  owner : SimpleClient
  metadata : Json
  createdAt : Int64

def RoomSnapshot.toJson (s : RoomSnapshot) : Json :=
  Json.ofFields [(lit "id", .str s.id), (lit "type", .str s.type), (lit "owner", s.owner.toJson),
    (lit "metadata", s.metadata), (lit "createdAt", .int s.createdAt)]

def RoomSnapshot.fromJson (j : Json) : Except Exn RoomSnapshot := do
  let id ← j.valueString (lit "id") []
  let type ← j.valueString (lit "type") []
  let owner ← if j.contains (lit "owner") then (j.atKey (lit "owner")).bind SimpleClient.fromJson
    else pure { id := [], sessionId := [], origin := [], ip := [] }
  let metadata ← j.valueJson (lit "metadata") (.obj [])
  let createdAt ← j.valueInt64 (lit "createdAt") 0
  return { id, type, owner, metadata, createdAt }

def roomKey (roomId : Str) : Str := ROOM_PREFIX ++ roomId

namespace RoomFetcher
variable (J : JsonText)

def getListOfRooms (storage : MemoryStorage) (now : ℤ) : List Str := storage.fetchKeys now ROOM_PREFIX

/-- `get_list_of_rooms` erases the expired entries; a text that cannot be read is passed over. -/
def getListOfRoomsWithData (storage : MemoryStorage) (now : ℤ) : List RoomSnapshot :=
  (getListOfRooms storage now).filterMap fun id =>
    match (storage.purge now).get now (roomKey id) with
    | none => none
    | some raw => (((J.parse raw).mapError Exn.std).bind RoomSnapshot.fromJson).toOption

def findRoomById (storage : MemoryStorage) (now : ℤ) (roomId : Str) : Except Exn RoomSnapshot :=
  match storage.get now (roomKey roomId) with
  | none => .error (.std (roomKey roomId ++ lit " - No data received"))
  | some raw => ((J.parse raw).mapError Exn.std).bind RoomSnapshot.fromJson

def addRoom (storage : MemoryStorage) (now : ℤ) (room : RoomSnapshot) : Except Exn MemoryStorage :=
  (Sio.dumpText J room.toJson).map fun text => storage.set now (roomKey room.id) text false

def setRoomMetadata (storage : MemoryStorage) (now : ℤ) (roomId : Str) (newMetadata : Json) :
    Except Exn MemoryStorage :=
  (findRoomById J storage now roomId).bind fun room =>
    addRoom J storage now { room with metadata := newMetadata }

def removeRoom (storage : MemoryStorage) (roomId : Str) : MemoryStorage :=
  storage.remove (roomKey roomId)

end RoomFetcher

namespace GameValues
variable (J : JsonText)

def setAll (storage : MemoryStorage) (now : ℤ) (newValues : Json) : Except Exn MemoryStorage :=
  (Sio.dumpText J newValues).map fun text => storage.set now GAME_VALUES text true

def getAll (storage : MemoryStorage) (now : ℤ) : Json :=
  match storage.get now GAME_VALUES with
  | none => .obj []
  | some raw =>
    match J.parse raw with
    | .ok values => values
    | .error _ => .obj []

def get (storage : MemoryStorage) (now : ℤ) (key : Str) (default : Json) : Json :=
  ((getAll J storage now).find? key).getD default

/-- `values[key] = value`: only an object has keys, and a null becomes one. -/
def assignIn (values : Json) (key : Str) (value : Json) : Except Exn Json :=
  match values with
  | .obj fields => .ok (.obj (Json.assign key value fields))
  | .null => .ok (.obj [(key, value)])
  | values => .error (.std
      (lit "[json.exception.type_error.305] cannot use operator[] with a string argument with " ++
        values.typeName))

def set (storage : MemoryStorage) (now : ℤ) (key : Str) (value : Json) :
    Except Exn MemoryStorage :=
  (assignIn (getAll J storage now) key value).bind fun values => setAll J storage now values

def reset (storage : MemoryStorage) (now : ℤ) : Except Exn MemoryStorage :=
  setAll J storage now (.obj [])

end GameValues

theorem fromJson_toJson (c : SimpleClient) : SimpleClient.fromJson c.toJson = .ok c := rfl

theorem snapshot_reread (s : RoomSnapshot) :
    RoomSnapshot.fromJson s.toJson.reread = .ok { s with metadata := s.metadata.reread } := by
  have fields : s.toJson.reread = .obj [(lit "createdAt", (Json.int s.createdAt).reread),
      (lit "id", .str s.id), (lit "metadata", s.metadata.reread), (lit "owner", s.owner.toJson),
      (lit "type", .str s.type)] := rfl
  have number : (Json.int s.createdAt).reread.getInt64 = .ok s.createdAt := by
    unfold Json.reread
    split_ifs
    · simp [Json.getInt64]
    · rfl
  have created : Json.valueInt64 s.toJson.reread (lit "createdAt") 0 = .ok s.createdAt := by
    rw [fields]
    exact number
  unfold RoomSnapshot.fromJson
  rw [created, fields]
  rfl

/-- A stored text that reads back as a snapshot of the room `roomId`. -/
def Records (J : JsonText) (text roomId : Str) : Prop :=
  ∃ snapshot, ((J.parse text).mapError Exn.std).bind RoomSnapshot.fromJson = .ok snapshot ∧
    snapshot.id = roomId

theorem Records.find {J : JsonText} {text roomId : Str} (h : Records J text roomId)
    {storage : MemoryStorage} {now : ℤ} (stored : storage.get now (roomKey roomId) = some text) :
    ∃ snapshot, RoomFetcher.findRoomById J storage now roomId = .ok snapshot ∧
      snapshot.id = roomId := by
  obtain ⟨snapshot, hparse, hid⟩ := h
  exact ⟨snapshot, by rw [RoomFetcher.findRoomById, stored]; exact hparse, hid⟩

theorem addRoom_ok {J : JsonText} (hJ : J.Lawful) {storage storage' : MemoryStorage} {now : ℤ}
    {room : RoomSnapshot} (h : RoomFetcher.addRoom J storage now room = .ok storage') :
    ∃ text, storage' = storage.set now (roomKey room.id) text false ∧ Records J text room.id := by
  unfold RoomFetcher.addRoom Sio.dumpText at h
  cases hutf8 : room.toJson.utf8 with
  | false =>
    obtain ⟨what, hdump⟩ := hJ.dump_invalid _ hutf8
    rw [hdump] at h
    cases h
  | true =>
    obtain ⟨text, hdump, hparse⟩ := hJ.dump_valid _ hutf8
    rw [hdump] at h
    refine ⟨text, (Except.ok.inj h).symm, { room with metadata := room.metadata.reread }, ?_, rfl⟩
    rw [hparse]
    simp only [Except.mapError, Except.bind]
    exact snapshot_reread room

theorem addRoom_valid {J : JsonText} (hJ : J.Lawful) (storage : MemoryStorage) (now : ℤ)
    {room : RoomSnapshot} (h : room.toJson.utf8 = true) :
    ∃ storage', RoomFetcher.addRoom J storage now room = .ok storage' := by
  obtain ⟨text, hdump, -⟩ := hJ.dump_valid _ h
  exact ⟨_, by rw [RoomFetcher.addRoom, Sio.dumpText, hdump]; rfl⟩

theorem addRoom_invalid {J : JsonText} (hJ : J.Lawful) (storage : MemoryStorage) (now : ℤ)
    {room : RoomSnapshot} (h : room.toJson.utf8 = false) :
    ∃ what, RoomFetcher.addRoom J storage now room = .error (.std what) := by
  obtain ⟨what, hdump⟩ := hJ.dump_invalid _ h
  exact ⟨what, by rw [RoomFetcher.addRoom, Sio.dumpText, hdump]; rfl⟩

theorem roomKey_injective {a b : Str} : roomKey a = roomKey b ↔ a = b :=
  List.append_right_inj ROOM_PREFIX

theorem roomKey_ne_gameValues (roomId : Str) : roomKey roomId ≠ GAME_VALUES := by
  intro h
  have first : some (0x72 : UInt8) = some 0x67 := congrArg List.head? h
  exact absurd first (by decide)

end Blueboat
