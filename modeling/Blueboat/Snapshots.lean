import Mathlib.Data.List.Induction
import Blueboat.RoomFetcher
import Blueboat.JsonText

set_option autoImplicit false

/-! What `RoomFetcher` and `GameValues` are for: a map from ids to snapshots that are forgotten three
hours after they were last written, beside one document of values. -/
namespace Blueboat

mutual
def Json.finiteNumbers : Json → Bool
  | .float bits => Json.finite bits
  | .arr xs => Json.finiteNumbersList xs
  | .obj fs => Json.finiteNumbersFields fs
  | _ => true
def Json.finiteNumbersList : List Json → Bool
  | [] => true
  | x :: xs => x.finiteNumbers && Json.finiteNumbersList xs
def Json.finiteNumbersFields : List (Str × Json) → Bool
  | [] => true
  | (_, x) :: fs => x.finiteNumbers && Json.finiteNumbersFields fs
end

theorem rereadFields_ordered {read fs : List (Str × Json)}
    (h : (read.map Prod.fst ++ fs.map Prod.fst).Pairwise (· < ·)) :
    Json.rereadFields read fs = read ++ fs.map fun f => (f.1, f.2.reread) := by
  induction fs generalizing read with
  | nil => simp [Json.rereadFields]
  | cons f fs ih =>
    obtain ⟨k, x⟩ := f
    have below : ∀ g ∈ read, g.1 < k := fun g hg =>
      (List.pairwise_append.1 h).2.2 g.1 (List.mem_map_of_mem hg) k (by simp)
    rw [Json.rereadFields, assign_last below, ih (by simpa using h)]
    simp

/-- A value that is read back from its text is equal to the value that was written. -/
theorem eqv_reread {j : Json} (ordered : j.ordered = true) (finite : j.finiteNumbers = true) :
    j.reread.eqv j = true := by
  induction j using Json.induction with
  | null => rfl
  | bool b => simp [Json.reread, Json.eqv]
  | int n =>
    unfold Json.reread
    split_ifs <;> simp [Json.eqv]
  | uint n => simp [Json.reread, Json.eqv]
  | float bits =>
    have finite : Json.finite bits = true := finite
    rw [Json.reread, if_pos finite]
    exact floatEq_self (by simp [Json.isNaN, finite])
  | str s => simp [Json.reread, Json.eqv]
  | arr xs ih =>
    change Json.eqvList (Json.rereadList xs) xs = true
    change Json.orderedList xs = true at ordered
    change Json.finiteNumbersList xs = true at finite
    induction xs with
    | nil => rfl
    | cons x xs ih' =>
      rw [Json.orderedList, Bool.and_eq_true] at ordered
      rw [Json.finiteNumbersList, Bool.and_eq_true] at finite
      rw [Json.rereadList, Json.eqvList, Bool.and_eq_true]
      exact ⟨ih x (by simp) ordered.1 finite.1,
        ih' (fun y hy => ih y (by simp [hy])) ordered.2 finite.2⟩
  | obj fs ih =>
    rw [Json.ordered, Bool.and_eq_true, decide_eq_true_eq] at ordered
    change Json.finiteNumbersFields fs = true at finite
    change Json.eqvFields (Json.rereadFields [] fs) fs = true
    have fields : Json.rereadFields [] fs = fs.map fun f => (f.1, f.2.reread) :=
      rereadFields_ordered (by simpa using ordered.1)
    rw [fields]
    clear fields
    replace ordered := ordered.2
    induction fs with
    | nil => rfl
    | cons f fs ih' =>
      obtain ⟨k, x⟩ := f
      rw [Json.orderedFields, Bool.and_eq_true] at ordered
      rw [Json.finiteNumbersFields, Bool.and_eq_true] at finite
      rw [List.map_cons, Json.eqvFields, Bool.and_eq_true, Bool.and_eq_true]
      exact ⟨⟨beq_self_eq_true k, ih (k, x) (by simp) ordered.1 finite.1⟩,
        ih' (fun f hf => ih f (by simp [hf])) finite.2 ordered.2⟩

theorem utf8Fields_assign {k : Str} {v : Json} {fs : List (Str × Json)}
    (key : utf8Valid k = true) (value : v.utf8 = true) (h : Json.utf8Fields fs = true) :
    Json.utf8Fields (Json.assign k v fs) = true := by
  induction fs with
  | nil => simp [Json.assign, Json.utf8Fields, key, value]
  | cons f fs ih =>
    obtain ⟨k', x⟩ := f
    simp only [Json.utf8Fields, Bool.and_eq_true] at h
    unfold Json.assign
    split_ifs <;> simp [Json.utf8Fields, key, value, h, ih h.2]

theorem utf8_reread {j : Json} (h : j.utf8 = true) : j.reread.utf8 = true := by
  induction j using Json.induction with
  | int n => unfold Json.reread; split_ifs <;> rfl
  | float bits => unfold Json.reread; split_ifs <;> rfl
  | null | bool b | uint n | str s => exact h
  | arr xs ih =>
    change Json.utf8List (Json.rereadList xs) = true
    change Json.utf8List xs = true at h
    induction xs with
    | nil => rfl
    | cons x xs ih' =>
      rw [Json.utf8List, Bool.and_eq_true] at h
      rw [Json.rereadList, Json.utf8List, Bool.and_eq_true]
      exact ⟨ih x (by simp) h.1, ih' (fun y hy => ih y (by simp [hy])) h.2⟩
  | obj fs ih =>
    have fields : ∀ read, Json.utf8Fields read = true →
        Json.utf8Fields (Json.rereadFields read fs) = true := by
      change Json.utf8Fields fs = true at h
      induction fs with
      | nil => exact fun read valid => valid
      | cons f fs ih' =>
        obtain ⟨k, x⟩ := f
        simp only [Json.utf8Fields, Bool.and_eq_true] at h
        intro read valid
        exact ih' (fun f hf => ih f (by simp [hf])) h.2 _
          (utf8Fields_assign h.1.1 (ih (k, x) (by simp) h.1.2) valid)
    exact fields [] rfl

namespace Snapshots

structure Stored where
  room : RoomSnapshot
  written : ℤ

/-- What the two classes keep, apart from its representation. -/
structure Rooms where
  rooms : Str → Option Stored
  values : Json

def Rooms.empty : Rooms := ⟨fun _ => none, .obj []⟩

/-- The snapshot of the room, unless more than three hours have passed since it was written. -/
def Rooms.present (a : Rooms) (now : ℤ) (roomId : Str) : Option RoomSnapshot :=
  (a.rooms roomId).bind fun stored =>
    if stored.written + MemoryStorage.threeHours < now then none else some stored.room

def Rooms.write (a : Rooms) (now : ℤ) (room : RoomSnapshot) : Rooms :=
  { a with rooms := Function.update a.rooms room.id (some ⟨room, now⟩) }

inductive Op where
  | addRoom (room : RoomSnapshot)
  | setRoomMetadata (roomId : Str) (newMetadata : Json)
  | removeRoom (roomId : Str)
  | findRoomById (roomId : Str)
  | getListOfRooms
  | getListOfRoomsWithData
  | setAll (newValues : Json)
  | getAll
  | getValue (key : Str) (default : Json)
  | setValue (key : Str) (value : Json)
  | reset

/-- The strings are valid UTF-8 and the metadata is a value of the library without a NaN or an
infinity. -/
def Op.Valid : Op → Prop
  | .addRoom room => room.toJson.utf8 = true ∧ room.metadata.ordered = true ∧
      room.metadata.finiteNumbers = true
  | .setRoomMetadata _ metadata => metadata.utf8 = true ∧ metadata.ordered = true ∧
      metadata.finiteNumbers = true
  | .setAll newValues => newValues.utf8 = true
  | .setValue key value => utf8Valid key = true ∧ value.utf8 = true
  | _ => True

/-- What an operation does to the rooms or to the values; never to both. -/
def Rooms.step (a : Rooms) : ℤ × Op → Rooms
  | (now, .addRoom room) => a.write now room
  | (now, .setRoomMetadata roomId newMetadata) =>
    match a.present now roomId with
    | none => a
    | some room => a.write now { room with metadata := newMetadata }
  | (_, .removeRoom roomId) => { a with rooms := Function.update a.rooms roomId none }
  | (_, .setAll newValues) => { a with values := newValues }
  | (_, .setValue key value) =>
    match GameValues.assignIn a.values.reread key value with
    | .ok values => { a with values := values }
    | .error _ => a
  | (_, .reset) => { a with values := .obj [] }
  | (_, .findRoomById _) | (_, .getListOfRooms) | (_, .getListOfRoomsWithData) | (_, .getAll)
  | (_, .getValue ..) => a

inductive Result where
  | done
  | threw (x : Exn)
  | snapshot (room : RoomSnapshot)
  | ids (roomIds : List Str)
  | snapshots (rooms : List RoomSnapshot)
  | json (value : Json)

def attempt (storage : MemoryStorage) : Except Exn MemoryStorage → MemoryStorage × Result
  | .ok storage' => (storage', .done)
  | .error x => (storage, .threw x)

def step (J : JsonText) (storage : MemoryStorage) : ℤ × Op → MemoryStorage × Result
  | (now, .addRoom room) => attempt storage (RoomFetcher.addRoom J storage now room)
  | (now, .setRoomMetadata roomId newMetadata) =>
    attempt storage (RoomFetcher.setRoomMetadata J storage now roomId newMetadata)
  | (_, .removeRoom roomId) => (RoomFetcher.removeRoom storage roomId, .done)
  | (now, .findRoomById roomId) =>
    match RoomFetcher.findRoomById J storage now roomId with
    | .ok room => (storage, .snapshot room)
    | .error x => (storage, .threw x)
  | (now, .getListOfRooms) => (storage.purge now, .ids (RoomFetcher.getListOfRooms storage now))
  | (now, .getListOfRoomsWithData) =>
    (storage.purge now, .snapshots (RoomFetcher.getListOfRoomsWithData J storage now))
  | (now, .setAll newValues) => attempt storage (GameValues.setAll J storage now newValues)
  | (now, .getAll) => (storage, .json (GameValues.getAll J storage now))
  | (now, .getValue key default) => (storage, .json (GameValues.get J storage now key default))
  | (now, .setValue key value) => attempt storage (GameValues.set J storage now key value)
  | (now, .reset) => attempt storage (GameValues.reset J storage now)

structure Same (room room' : RoomSnapshot) : Prop where
  id : room.id = room'.id
  type : room.type = room'.type
  owner : room.owner = room'.owner
  createdAt : room.createdAt = room'.createdAt
  metadata : room.metadata.eqv room'.metadata = true

/-- The ids of the rooms that are present, each once. -/
def Lists (a : Rooms) (now : ℤ) (roomIds : List Str) : Prop :=
  roomIds.Nodup ∧ ∀ roomId, roomId ∈ roomIds ↔ (a.present now roomId).isSome

def Answers (a : Rooms) : ℤ × Op → Result → Prop
  | (now, .findRoomById roomId), result =>
    match a.present now roomId with
    | some room => ∃ room', result = .snapshot room' ∧ Same room' room
    | none => result = .threw (.std (roomKey roomId ++ lit " - No data received"))
  | (now, .setRoomMetadata roomId _), result =>
    match a.present now roomId with
    | some _ => result = .done
    | none => result = .threw (.std (roomKey roomId ++ lit " - No data received"))
  | (now, .getListOfRooms), result => ∃ roomIds, result = .ids roomIds ∧ Lists a now roomIds
  | (now, .getListOfRoomsWithData), result => ∃ roomIds rooms, result = .snapshots rooms ∧
      Lists a now roomIds ∧
      List.Forall₂ (fun roomId room => ∃ room', a.present now roomId = some room' ∧ Same room room')
        roomIds rooms
  | (_, .getAll), result => result = .json a.values.reread
  | (_, .getValue key default), result =>
    result = .json ((a.values.reread.find? key).getD default)
  | (_, .setValue key value), result =>
    match GameValues.assignIn a.values.reread key value with
    | .ok _ => result = .done
    | .error x => result = .threw x
  | (_, .addRoom _), result | (_, .removeRoom _), result | (_, .setAll _), result
  | (_, .reset), result => result = .done

theorem toJson_eq (room : RoomSnapshot) : room.toJson = .obj [(lit "createdAt", .int room.createdAt),
    (lit "id", .str room.id), (lit "metadata", room.metadata), (lit "owner", room.owner.toJson),
    (lit "type", .str room.type)] :=
  rfl

theorem utf8_metadata {room : RoomSnapshot} (h : room.toJson.utf8 = true) :
    room.metadata.utf8 = true := by
  rw [toJson_eq] at h
  simp only [Json.utf8, Json.utf8Fields, Bool.and_eq_true] at h
  exact h.2.2.1.2

theorem utf8_withMetadata {room : RoomSnapshot} {metadata : Json} (h : room.toJson.utf8 = true)
    (valid : metadata.utf8 = true) :
    (RoomSnapshot.toJson { room with metadata := metadata }).utf8 = true := by
  rw [toJson_eq] at h ⊢
  simp only [Json.utf8, Json.utf8Fields, Bool.and_eq_true] at h ⊢
  exact ⟨h.1, h.2.1, ⟨h.2.2.1.1, valid⟩, h.2.2.2⟩

structure Storable (room : RoomSnapshot) : Prop where
  utf8 : room.toJson.utf8 = true
  ordered : room.metadata.ordered = true
  finite : room.metadata.finiteNumbers = true

section
variable {J : JsonText}

/-- The storage at `now` holds what the map and the document hold. A snapshot that has expired may
have been erased. -/
structure Refines (J : JsonText) (now : ℤ) (s : MemoryStorage) (a : Rooms) : Prop where
  absent : ∀ roomId, a.rooms roomId = none → s.entries.lookup (roomKey roomId) = none
  storable : ∀ roomId stored, a.rooms roomId = some stored →
    stored.room.id = roomId ∧ Storable stored.room
  stored : ∀ roomId stored, a.rooms roomId = some stored →
    (∃ text, s.entries.lookup (roomKey roomId) =
        some ⟨text, some (stored.written + MemoryStorage.threeHours)⟩ ∧
      J.parse text = .ok stored.room.toJson.reread) ∨
    (s.entries.lookup (roomKey roomId) = none ∧
      stored.written + MemoryStorage.threeHours < now)
  document : (s.entries.lookup Protocol.GAME_VALUES = none ∧ a.values = .obj []) ∨
    ∃ text, s.entries.lookup Protocol.GAME_VALUES = some ⟨text, none⟩ ∧
      J.parse text = .ok a.values.reread
  values : a.values.utf8 = true

theorem refines_empty (now : ℤ) : Refines J now ⟨∅⟩ Rooms.empty where
  absent := fun _ _ => AList.lookup_empty _
  storable := nofun
  stored := nofun
  document := .inl ⟨AList.lookup_empty _, rfl⟩
  values := rfl

variable {now now' : ℤ} {s : MemoryStorage} {a : Rooms}

theorem Refines.later (h : Refines J now s a) (le : now ≤ now') : Refines J now' s a :=
  { h with stored := fun roomId stored found =>
      (h.stored roomId stored found).imp_right fun ⟨gone, expired⟩ =>
        ⟨gone, lt_of_lt_of_le expired le⟩ }

theorem lookup_purge_some {key : Str} {e : Entry} (found : s.entries.lookup key = some e)
    (fresh : MemoryStorage.expired now e = false) :
    (s.purge now).entries.lookup key = some e := by
  rw [MemoryStorage.lookup_purge, found, Option.filter_some, if_pos (by simp [fresh])]

theorem lookup_purge_none {key : Str} (absent : s.entries.lookup key = none) :
    (s.purge now).entries.lookup key = none := by
  rw [MemoryStorage.lookup_purge, absent, Option.filter_none]

/-- What is erased has expired. -/
theorem Refines.purge (h : Refines J now s a) : Refines J now (s.purge now) a where
  absent := fun roomId none => lookup_purge_none (h.absent roomId none)
  storable := h.storable
  stored := by
    intro roomId stored found
    rcases h.stored roomId stored found with ⟨text, entry, parses⟩ | ⟨gone, expired⟩
    · by_cases expired : stored.written + MemoryStorage.threeHours < now
      · refine .inr ⟨?_, expired⟩
        rw [MemoryStorage.lookup_purge, entry]
        simp [MemoryStorage.expired, expired]
      · exact .inl ⟨text, lookup_purge_some entry (decide_eq_false expired), parses⟩
    · exact .inr ⟨lookup_purge_none gone, expired⟩
  document := h.document.imp (fun ⟨absent, e⟩ => ⟨lookup_purge_none absent, e⟩)
    fun ⟨text, entry, parses⟩ => ⟨text, lookup_purge_some entry rfl, parses⟩
  values := h.values

theorem Refines.get_present (h : Refines J now s a) {roomId : Str} {room : RoomSnapshot}
    (present : a.present now roomId = some room) :
    Storable room ∧ room.id = roomId ∧
      ∃ text, s.get now (roomKey roomId) = some text ∧ J.parse text = .ok room.toJson.reread := by
  obtain ⟨stored, found, e⟩ := Option.bind_eq_some_iff.1 present
  split at e
  · cases e
  · rename_i fresh
    obtain rfl := Option.some.inj e
    obtain ⟨id, storable⟩ := h.storable roomId stored found
    refine ⟨storable, id, ?_⟩
    rcases h.stored roomId stored found with ⟨text, entry, parses⟩ | ⟨-, expired⟩
    · exact ⟨text, MemoryStorage.get_eq_some.2 ⟨_, entry, decide_eq_false fresh, rfl⟩, parses⟩
    · exact absurd expired fresh

theorem Refines.get_absent (h : Refines J now s a) {roomId : Str}
    (absent : a.present now roomId = none) : s.get now (roomKey roomId) = none := by
  cases found : a.rooms roomId with
  | none => rw [MemoryStorage.get, h.absent roomId found]
  | some stored =>
    rw [Rooms.present, found, Option.bind_some] at absent
    split at absent
    · rename_i expired
      rcases h.stored roomId stored found with ⟨text, entry, -⟩ | ⟨gone, -⟩
      · simp [MemoryStorage.get, entry, MemoryStorage.expired, expired]
      · rw [MemoryStorage.get, gone]
    · cases absent

theorem rooms_write_self (a : Rooms) (now : ℤ) (room : RoomSnapshot) :
    (a.write now room).rooms room.id = some ⟨room, now⟩ := Function.update_self ..

theorem rooms_write_ne (a : Rooms) (now : ℤ) {room : RoomSnapshot} {roomId : Str}
    (h : roomId ≠ room.id) : (a.write now room).rooms roomId = a.rooms roomId :=
  Function.update_of_ne h ..

theorem same_reread {room : RoomSnapshot} (h : Storable room) :
    Same { room with metadata := room.metadata.reread } room :=
  ⟨rfl, rfl, rfl, rfl, eqv_reread h.ordered h.finite⟩

theorem Refines.find_present (h : Refines J now s a) {roomId : Str} {room : RoomSnapshot}
    (present : a.present now roomId = some room) :
    RoomFetcher.findRoomById J s now roomId =
      .ok { room with metadata := room.metadata.reread } := by
  obtain ⟨storable, id, text, get, parses⟩ := h.get_present present
  rw [RoomFetcher.findRoomById, get]
  dsimp only
  rw [parses]
  simp only [Except.mapError, Except.bind]
  exact snapshot_reread room

theorem Refines.find_absent (h : Refines J now s a) {roomId : Str}
    (absent : a.present now roomId = none) : RoomFetcher.findRoomById J s now roomId =
      .error (.std (roomKey roomId ++ lit " - No data received")) := by
  rw [RoomFetcher.findRoomById, h.get_absent absent]

theorem Refines.addRoom (hJ : J.Lawful) (h : Refines J now s a) {room : RoomSnapshot}
    (storable : Storable room) : ∃ s', RoomFetcher.addRoom J s now room = .ok s' ∧
      Refines J now s' (a.write now room) := by
  obtain ⟨text, dump, parses⟩ := hJ.dump_valid _ storable.utf8
  refine ⟨s.set now (roomKey room.id) text false, ?_, ?_⟩
  · rw [RoomFetcher.addRoom, Sio.dumpText, dump]
    rfl
  · have own : (s.set now (roomKey room.id) text false).entries.lookup (roomKey room.id) =
        some ⟨text, some (now + MemoryStorage.threeHours)⟩ := AList.lookup_insert _
    have other : ∀ {key}, key ≠ roomKey room.id →
        (s.set now (roomKey room.id) text false).entries.lookup key = s.entries.lookup key :=
      fun ne => MemoryStorage.lookup_set_ne ne s now text false
    have keys : ∀ {roomId}, roomId ≠ room.id → roomKey roomId ≠ roomKey room.id :=
      fun ne same => ne (roomKey_injective.1 same)
    refine ⟨fun roomId absent => ?_, fun roomId stored found => ?_, fun roomId stored found => ?_,
      ?_, h.values⟩
    · by_cases same : roomId = room.id
      · subst same
        rw [rooms_write_self] at absent
        cases absent
      · rw [rooms_write_ne a now same] at absent
        rw [other (keys same)]
        exact h.absent roomId absent
    · by_cases same : roomId = room.id
      · subst same
        rw [rooms_write_self] at found
        obtain rfl := Option.some.inj found
        exact ⟨rfl, storable⟩
      · rw [rooms_write_ne a now same] at found
        exact h.storable roomId stored found
    · by_cases same : roomId = room.id
      · subst same
        rw [rooms_write_self] at found
        obtain rfl := Option.some.inj found
        exact .inl ⟨text, own, parses⟩
      · rw [rooms_write_ne a now same] at found
        rw [other (keys same)]
        exact h.stored roomId stored found
    · rw [other (roomKey_ne_gameValues room.id).symm]
      exact h.document

theorem Refines.removeRoom (h : Refines J now s a) (roomId : Str) :
    Refines J now (RoomFetcher.removeRoom s roomId)
      { a with rooms := Function.update a.rooms roomId none } := by
  have other : ∀ {key}, key ≠ roomKey roomId →
      (RoomFetcher.removeRoom s roomId).entries.lookup key = s.entries.lookup key :=
    fun ne => MemoryStorage.lookup_remove_ne ne s
  refine ⟨fun roomId' absent => ?_, fun roomId' stored found => ?_, fun roomId' stored found => ?_,
    ?_, h.values⟩
  · by_cases same : roomId' = roomId
    · subst same
      exact MemoryStorage.lookup_remove_self s _
    · rw [other fun e => same (roomKey_injective.1 e)]
      exact h.absent roomId' ((Function.update_of_ne same ..).symm.trans absent)
  · by_cases same : roomId' = roomId
    · subst same
      cases (Function.update_self ..).symm.trans found
    · exact h.storable roomId' stored ((Function.update_of_ne same ..).symm.trans found)
  · by_cases same : roomId' = roomId
    · subst same
      cases (Function.update_self ..).symm.trans found
    · rw [other fun e => same (roomKey_injective.1 e)]
      exact h.stored roomId' stored ((Function.update_of_ne same ..).symm.trans found)
  · rw [other (roomKey_ne_gameValues roomId).symm]
    exact h.document

theorem Refines.setAll (hJ : J.Lawful) (h : Refines J now s a) {values : Json}
    (utf8 : values.utf8 = true) : ∃ s', GameValues.setAll J s now values = .ok s' ∧
      Refines J now s' { a with values := values } := by
  obtain ⟨text, dump, parses⟩ := hJ.dump_valid _ utf8
  have other : ∀ {roomId}, (s.set now Protocol.GAME_VALUES text true).entries.lookup
      (roomKey roomId) = s.entries.lookup (roomKey roomId) :=
    fun {roomId} => MemoryStorage.lookup_set_ne (roomKey_ne_gameValues roomId) s now text true
  refine ⟨s.set now Protocol.GAME_VALUES text true, ?_, fun roomId absent => ?_, h.storable,
    fun roomId stored found => ?_, .inr ⟨text, AList.lookup_insert _, parses⟩, utf8⟩
  · rw [GameValues.setAll, Sio.dumpText, dump]
    rfl
  · rw [other]
    exact h.absent roomId absent
  · rw [other]
    exact h.stored roomId stored found

theorem Refines.getAll (h : Refines J now s a) : GameValues.getAll J s now = a.values.reread := by
  rw [GameValues.getAll]
  rcases h.document with ⟨none, empty⟩ | ⟨text, entry, parses⟩
  · rw [MemoryStorage.get, none, empty]
    rfl
  · have get : s.get now Protocol.GAME_VALUES = some text :=
      MemoryStorage.get_eq_some.2 ⟨_, entry, rfl, rfl⟩
    rw [get]
    dsimp only
    rw [parses]

theorem utf8_assignIn {values value values' : Json} {key : Str} (h : values.utf8 = true)
    (keyed : utf8Valid key = true) (valid : value.utf8 = true)
    (assigned : GameValues.assignIn values key value = .ok values') : values'.utf8 = true := by
  cases values with
  | obj fields =>
    obtain rfl := Except.ok.inj assigned
    exact utf8Fields_assign keyed valid h
  | null =>
    obtain rfl := Except.ok.inj assigned
    simp [Json.utf8, Json.utf8Fields, keyed, valid]
  | _ => cases assigned

theorem fetchKeys_nodup (s : MemoryStorage) (now : ℤ) (pre : Str) :
    (s.fetchKeys now pre).Nodup := by
  have keys : ((s.purge now).entries.entries.map Sigma.fst).Nodup := (s.purge now).entries.nodupKeys
  refine (keys.sublist List.filter_sublist).map_on fun x hx y hy same => ?_
  obtain ⟨x', rfl⟩ := List.isPrefixOf_iff_prefix.1 (List.mem_filter.1 hx).2
  obtain ⟨y', rfl⟩ := List.isPrefixOf_iff_prefix.1 (List.mem_filter.1 hy).2
  rw [List.drop_left, List.drop_left] at same
  rw [same]

theorem Refines.lists (h : Refines J now s a) :
    Lists a now (RoomFetcher.getListOfRooms s now) := by
  refine ⟨fetchKeys_nodup s now _, fun roomId => MemoryStorage.mem_fetchKeys.trans ?_⟩
  cases present : a.present now roomId with
  | none =>
    have absent : s.get now (Protocol.ROOM_PREFIX ++ roomId) = none := h.get_absent present
    simp [absent]
  | some room =>
    obtain ⟨-, -, text, get, -⟩ := h.get_present present
    exact ⟨fun _ => rfl, fun _ => ⟨text, get⟩⟩

theorem forall₂_filterMap {α β : Type} {R : α → β → Prop} {f : α → Option β} {xs : List α}
    (h : ∀ x ∈ xs, ∃ y, f x = some y ∧ R x y) : List.Forall₂ R xs (xs.filterMap f) := by
  induction xs with
  | nil => exact .nil
  | cons x xs ih =>
    obtain ⟨y, found, holds⟩ := h x List.mem_cons_self
    rw [List.filterMap_cons_some found]
    exact .cons holds (ih fun x mem => h x (List.mem_cons_of_mem _ mem))

theorem Refines.lists_data (h : Refines J now s a) :
    List.Forall₂ (fun roomId room => ∃ room', a.present now roomId = some room' ∧ Same room room')
      (RoomFetcher.getListOfRooms s now) (RoomFetcher.getListOfRoomsWithData J s now) := by
  refine forall₂_filterMap fun roomId mem => ?_
  obtain ⟨room, present⟩ := Option.isSome_iff_exists.1 ((h.lists.2 roomId).1 mem)
  obtain ⟨storable, -, text, get, parses⟩ := h.get_present present
  refine ⟨{ room with metadata := room.metadata.reread }, ?_, room, present, same_reread storable⟩
  rw [MemoryStorage.get_purge, get]
  dsimp only
  rw [parses]
  simp only [Except.mapError, Except.bind]
  rw [snapshot_reread room]
  rfl

theorem Refines.setRoomMetadata (hJ : J.Lawful) (h : Refines J now s a) {roomId : Str}
    {metadata : Json} (valid : (Op.setRoomMetadata roomId metadata).Valid) :
    Refines J now (step J s (now, .setRoomMetadata roomId metadata)).1
        (a.step (now, .setRoomMetadata roomId metadata)) ∧
      Answers a (now, .setRoomMetadata roomId metadata)
        (step J s (now, .setRoomMetadata roomId metadata)).2 := by
  obtain ⟨utf8, ordered, finite⟩ := valid
  simp only [Snapshots.step, Rooms.step, Answers, RoomFetcher.setRoomMetadata]
  cases present : a.present now roomId with
  | none =>
    rw [h.find_absent present]
    exact ⟨h, rfl⟩
  | some room =>
    obtain ⟨storable, -, -⟩ := h.get_present present
    have storable' : Storable { room with metadata := metadata } :=
      ⟨utf8_withMetadata storable.utf8 utf8, ordered, finite⟩
    obtain ⟨s', added, refines⟩ := h.addRoom hJ storable'
    rw [h.find_present present]
    simp only [Except.bind]
    rw [added]
    exact ⟨refines, rfl⟩

/-- Every operation does to the storage what it does to the map and the document. -/
theorem Refines.step (hJ : J.Lawful) (h : Refines J now s a) {op : Op} (valid : op.Valid) :
    Refines J now (step J s (now, op)).1 (a.step (now, op)) ∧
      Answers a (now, op) (step J s (now, op)).2 := by
  cases op with
  | addRoom room =>
    obtain ⟨s', added, refines⟩ := h.addRoom hJ ⟨valid.1, valid.2.1, valid.2.2⟩
    simp only [Snapshots.step, Rooms.step, Answers, added]
    exact ⟨refines, rfl⟩
  | setRoomMetadata roomId metadata => exact h.setRoomMetadata hJ valid
  | removeRoom roomId => exact ⟨h.removeRoom roomId, rfl⟩
  | findRoomById roomId =>
    simp only [Snapshots.step, Rooms.step, Answers]
    cases present : a.present now roomId with
    | none =>
      rw [h.find_absent present]
      exact ⟨h, rfl⟩
    | some room =>
      rw [h.find_present present]
      exact ⟨h, _, rfl, same_reread (h.get_present present).1⟩
  | getListOfRooms => exact ⟨h.purge, _, rfl, h.lists⟩
  | getListOfRoomsWithData => exact ⟨h.purge, _, _, rfl, h.lists, h.lists_data⟩
  | setAll values =>
    obtain ⟨s', set, refines⟩ := h.setAll hJ valid
    simp only [Snapshots.step, Rooms.step, Answers, set]
    exact ⟨refines, rfl⟩
  | getAll => exact ⟨h, congrArg Result.json h.getAll⟩
  | getValue key default =>
    refine ⟨h, ?_⟩
    simp only [Snapshots.step, Answers, GameValues.get, h.getAll]
  | setValue key value =>
    simp only [Snapshots.step, Rooms.step, Answers, GameValues.set, h.getAll]
    cases assigned : GameValues.assignIn a.values.reread key value with
    | error x => exact ⟨h, rfl⟩
    | ok values =>
      obtain ⟨s', set, refines⟩ :=
        h.setAll hJ (utf8_assignIn (utf8_reread h.values) valid.1 valid.2 assigned)
      simp only [Except.bind, set]
      exact ⟨refines, rfl⟩
  | reset =>
    obtain ⟨s', set, refines⟩ := h.setAll hJ (show (Json.obj []).utf8 = true from rfl)
    simp only [Snapshots.step, Rooms.step, Answers, GameValues.reset, set]
    exact ⟨refines, rfl⟩

end

def Op.onValues : Op → Bool
  | .setAll _ | .getAll | .getValue .. | .setValue .. | .reset => true
  | _ => false

theorem rooms_step (a : Rooms) {e : ℤ × Op} (other : e.2.onValues = true) :
    (a.step e).rooms = a.rooms := by
  obtain ⟨now, op⟩ := e
  cases op with
  | setValue key value =>
    simp only [Rooms.step]
    split <;> rfl
  | setAll | getAll | getValue | reset => rfl
  | _ => cases other

theorem values_step (a : Rooms) {e : ℤ × Op} (other : e.2.onValues = false) :
    (a.step e).values = a.values := by
  obtain ⟨now, op⟩ := e
  cases op with
  | setRoomMetadata roomId metadata =>
    simp only [Rooms.step]
    split <;> rfl
  | setValue | setAll | getAll | getValue | reset => cases other
  | _ => rfl

theorem present_congr {a b : Rooms} (same : a.rooms = b.rooms) (now : ℤ) (roomId : Str) :
    a.present now roomId = b.present now roomId := by
  rw [Rooms.present, Rooms.present, same]

theorem rooms_congr {a b : Rooms} (same : a.rooms = b.rooms) (e : ℤ × Op) :
    (a.step e).rooms = (b.step e).rooms := by
  obtain ⟨now, op⟩ := e
  cases values : op.onValues with
  | true => rw [rooms_step a values, rooms_step b values, same]
  | false =>
    cases op with
    | addRoom room => simp only [Rooms.step, Rooms.write, same]
    | setRoomMetadata roomId metadata =>
      simp only [Rooms.step, present_congr same]
      split
      · exact same
      · simp only [Rooms.write, same]
    | removeRoom roomId => simp only [Rooms.step, same]
    | findRoomById | getListOfRooms | getListOfRoomsWithData => exact same
    | _ => cases values

theorem values_congr {a b : Rooms} (same : a.values = b.values) (e : ℤ × Op) :
    (a.step e).values = (b.step e).values := by
  obtain ⟨now, op⟩ := e
  cases values : op.onValues with
  | false => rw [values_step a values, values_step b values, same]
  | true =>
    cases op with
    | setValue key value =>
      simp only [Rooms.step, same]
      split
      · rfl
      · exact same
    | setAll | reset => rfl
    | getAll | getValue => exact same
    | _ => cases values

/-- The operations on the values leave no trace in the rooms. -/
theorem rooms_apart {a b : Rooms} (same : a.rooms = b.rooms) (ops : List (ℤ × Op)) :
    (ops.foldl Rooms.step a).rooms =
      ((ops.filter fun e => !e.2.onValues).foldl Rooms.step b).rooms := by
  induction ops generalizing a b with
  | nil => exact same
  | cons e ops ih =>
    cases values : e.2.onValues with
    | true =>
      rw [List.filter_cons_of_neg (by simp [values])]
      exact ih ((rooms_step a values).trans same)
    | false =>
      rw [List.filter_cons_of_pos (by simp [values])]
      exact ih (rooms_congr same e)

theorem values_apart {a b : Rooms} (same : a.values = b.values) (ops : List (ℤ × Op)) :
    (ops.foldl Rooms.step a).values =
      ((ops.filter fun e => e.2.onValues).foldl Rooms.step b).values := by
  induction ops generalizing a b with
  | nil => exact same
  | cons e ops ih =>
    cases values : e.2.onValues with
    | false =>
      rw [List.filter_cons_of_neg (by simp [values])]
      exact ih ((values_step a values).trans same)
    | true =>
      have kept : (e :: ops).filter (fun e => e.2.onValues) =
          e :: ops.filter fun e => e.2.onValues := List.filter_cons_of_pos values
      rw [kept]
      exact ih (values_congr same e)

def run (J : JsonText) (ops : List (ℤ × Op)) : MemoryStorage :=
  ops.foldl (fun s e => (step J s e).1) ⟨∅⟩

def Rooms.after (ops : List (ℤ × Op)) : Rooms := ops.foldl Rooms.step Rooms.empty

theorem Refines.run {J : JsonText} (hJ : J.Lawful) {ops : List (ℤ × Op)} {now : ℤ}
    (clock : (ops.map Prod.fst ++ [now]).Pairwise (· ≤ ·)) (valid : ∀ e ∈ ops, e.2.Valid) :
    Refines J now (run J ops) (Rooms.after ops) := by
  induction ops using List.reverseRecOn generalizing now with
  | nil => exact refines_empty now
  | append_singleton ops e ih =>
    have le : e.1 ≤ now := (List.pairwise_append.1 clock).2.2 e.1 (by simp) now (by simp)
    have before := @ih e.1 (by simpa using (List.pairwise_append.1 clock).1)
      fun e' mem => valid e' (List.mem_append_left _ mem)
    have last := (before.step hJ (valid e (by simp))).1
    rw [Snapshots.run, Rooms.after, List.foldl_append, List.foldl_append]
    exact last.later le

/-- After any list of operations the next one answers as the map and the document do, in which the
rooms and the values are kept apart. -/
theorem refines_map {J : JsonText} (hJ : J.Lawful) {ops : List (ℤ × Op)} {now : ℤ} {op : Op}
    (clock : ((ops ++ [(now, op)]).map Prod.fst).Pairwise (· ≤ ·))
    (valid : ∀ e ∈ ops ++ [(now, op)], e.2.Valid) :
    Answers (Rooms.after ops) (now, op) (step J (run J ops) (now, op)).2 ∧
      (Rooms.after ops).rooms = (Rooms.after (ops.filter fun e => !e.2.onValues)).rooms ∧
      (Rooms.after ops).values = (Rooms.after (ops.filter fun e => e.2.onValues)).values := by
  have before := Refines.run hJ (by simpa using clock)
    fun e mem => valid e (List.mem_append_left _ mem)
  exact ⟨(before.step hJ (valid (now, op) (by simp))).2, rooms_apart rfl ops, values_apart rfl ops⟩

/-- A room whose metadata changes, and a value that is set meanwhile. -/
def lobby : RoomSnapshot where
  id := lit "r"
  type := lit "Lobby"
  owner := { id := lit "a", sessionId := lit "s", origin := [], ip := [] }
  metadata := .obj []
  createdAt := 7

def lifetime : List (ℤ × Op) :=
  [(0, .addRoom lobby), (5, .setValue (lit "round") (.int 1)),
    (10, .setRoomMetadata (lit "r") (.str (lit "open")))]

theorem refines_map_lifetime :
    Answers (Rooms.after lifetime) (20, .findRoomById (lit "r"))
        (step Text.reference (run Text.reference lifetime) (20, .findRoomById (lit "r"))).2 ∧
      (Rooms.after lifetime).rooms =
        (Rooms.after (lifetime.filter fun e => !e.2.onValues)).rooms ∧
      (Rooms.after lifetime).values =
        (Rooms.after (lifetime.filter fun e => e.2.onValues)).values := by
  refine refines_map Text.reference_lawful (by simp [lifetime]) ?_
  simp only [lifetime, List.cons_append, List.nil_append, List.forall_mem_cons]
  exact ⟨⟨by decide, by decide, by decide⟩, ⟨by decide, by decide⟩, ⟨by decide, by decide, by decide⟩,
    trivial, nofun⟩

end Snapshots
end Blueboat
