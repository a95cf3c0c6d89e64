import Blueboat.Bookkeeping
import Blueboat.TimedMap

set_option autoImplicit false

/-! `create_new_room` from its call to its end, with the rollback of `Room::initialize` (`server.cpp`,
`room.cpp`). What the hooks of the new room do is a parameter. -/
namespace Blueboat.Creation

open Protocol

def pendingTimers (w : World) : List Task := w.tasks.filter fun task => !w.cancelled task.id

/-- What can be read from the storage, the map of the rooms, the listeners and the pending timers are
the same in both worlds. -/
structure SameStores (w w' : World) : Prop where
  now : w.now ≤ w'.now
  storage : ∀ key time, w'.now ≤ time → w'.storage.get time key = w.storage.get time key
  managingRooms : w'.managingRooms = w.managingRooms
  pubsub : w'.pubsub = w.pubsub
  timers : pendingTimers w' = pendingTimers w

/-- What only the class `Room` writes, and its hooks do not. -/
structure SamePrivate (room room' : Room) : Prop where
  roomId : room'.roomId = room.roomId
  roomType : room'.roomType = room.roomType
  clients : room'.clients = room.clients
  disposing : room'.disposing = room.disposing
  gameMessageSub : room'.gameMessageSub = room.gameMessageSub
  playerLeftSub : room'.playerLeftSub = room.playerLeftSub
  autoDisposeTimer : room'.autoDisposeTimer = room.autoDisposeTimer

/-- One call of a hook: what it does apart from the stores, and the exception that it ends with. -/
structure Behaviour (r : RoomRef) where
  act : World → World
  thrown : Option Exn
  stores : ∀ w, SameStores w (act w)
  room : ∀ w, SamePrivate (w.rooms r) ((act w).rooms r)

structure Hooks (r : RoomRef) where
  onCreate : Behaviour r
  beforeDispose : Behaviour r
  onDispose : Behaviour r

structure Request where
  client : SimpleClient
  roomName : Str
  creatorOptions : Json
  override : Str
  candidates : List (Except Exn Str)
  factory : Option Exn

/-- A piece of the code: the exception that it ends with, and the world that it leaves. -/
abbrev Piece := World → Option Exn × World

def Piece.andThen (first next : Piece) : Piece := fun w =>
  match first w with
  | (none, w') => next w'
  | (some x, w') => (some x, w')

def always (f : World → World) : Piece := fun w => (none, f w)

def ofOut : Out → Option Exn × World
  | .go w _ => (none, w)
  | .park w _ => (none, w)
  | .raise w x _ => (some x, w)

section
variable (J : JsonText) {r : RoomRef}

def call (hook : Hook) (body : Behaviour r) : Piece := fun w =>
  (body.thrown, body.act { w with log := w.log ++ [.hook r hook] })

/-- `Room::dispose` for a room that nobody has joined. -/
def dispose (hooks : Hooks r) : Piece := fun w =>
  if (w.rooms r).disposing then (none, w)
  else
    ((call .beforeDispose hooks.beforeDispose).andThen <| (always (finishDispose · r)).andThen <|
      (call .onDispose hooks.onDispose).andThen <| always (onRoomDisposed · r))
      (Blueboat.dispose w r .rollback).1

/-- The `try` of `Room::initialize`. -/
def tryOnCreate (hooks : Hooks r) : Piece := fun w =>
  match call (.onCreate (w.rooms r).options) hooks.onCreate w with
  | (none, w') => (none, w')
  | (some x, w') => (dispose hooks).andThen (fun w'' => (some x, w'')) w'

def createNewRoom (request : Request) (w : World) (hooks : Hooks w.nextRoom) : Option Exn × World :=
  Piece.andThen
    (fun w => ofOut (Blueboat.createNewRoom J w request.client request.roomName request.creatorOptions
      request.override .api request.candidates request.factory))
    ((tryOnCreate hooks).andThen fun w' => ofOut (created J w' w.nextRoom request.client .api)) w

end

def Reaches (w : World) (request : Request) (roomId : Str) : Prop :=
  (∃ options, w.registeredRooms.lookup request.roomName = some options) ∧
    newRoomId (RoomFetcher.getListOfRooms w.storage w.now) request.override request.candidates =
      .ok roomId ∧ request.factory = none

/-- `dump` can write the record of the room. -/
def Writable (request : Request) (roomId : Str) : Prop :=
  ∀ text ∈ [roomId, request.roomName, request.client.id, request.client.sessionId,
    request.client.origin, request.client.ip], utf8Valid text = true

/-- The two ways to fail that leave something behind are not taken: the record can be written once
`on_create` has returned, and a rollback that runs to its end does not find a room of the same id
whose record has expired. -/
def Clean (w : World) (request : Request) (hooks : Hooks w.nextRoom) : Prop :=
  ∀ roomId, Reaches w request roomId →
    (hooks.onCreate.thrown = none → Writable request roomId) ∧
      (hooks.onCreate.thrown ≠ none → hooks.beforeDispose.thrown = none →
        hooks.onDispose.thrown = none → w.managingRooms.lookup roomId = none)

/-- A failure leaves the stores as they were. -/
def Traceless (w : World) (result : Option Exn × World) : Prop :=
  result.1 ≠ none → SameStores w result.2

/-! The stores. -/

theorem SameStores.refl (w : World) : SameStores w w := ⟨le_refl _, fun _ _ _ => rfl, rfl, rfl, rfl⟩

theorem SameStores.trans {w w' w'' : World} (h : SameStores w w') (h' : SameStores w' w'') :
    SameStores w w'' where
  now := h.now.trans h'.now
  storage key time le := (h'.storage key time le).trans (h.storage key time (h'.now.trans le))
  managingRooms := h'.managingRooms.trans h.managingRooms
  pubsub := h'.pubsub.trans h.pubsub
  timers := h'.timers.trans h.timers

theorem sameStores_of_toStores {w w' : World} (same : w'.toStores = w.toStores) : SameStores w w' := by
  have now : w'.now = w.now := congrArg Stores.now same
  have storage : w'.storage = w.storage := congrArg Stores.storage same
  have timers : pendingTimers w' = pendingTimers w :=
    congrArg (fun s : Stores => s.tasks.filter fun task : Task => !s.cancelled task.id) same
  exact ⟨now.ge, fun _ _ _ => by rw [storage], congrArg Stores.managingRooms same,
    congrArg Stores.pubsub same, timers⟩

theorem SamePrivate.trans {room room' room'' : Room} (h : SamePrivate room room')
    (h' : SamePrivate room' room'') : SamePrivate room room'' where
  roomId := h'.roomId.trans h.roomId
  roomType := h'.roomType.trans h.roomType
  clients := h'.clients.trans h.clients
  disposing := h'.disposing.trans h.disposing
  gameMessageSub := h'.gameMessageSub.trans h.gameMessageSub
  playerLeftSub := h'.playerLeftSub.trans h.playerLeftSub
  autoDisposeTimer := h'.autoDisposeTimer.trans h.autoDisposeTimer

/-- What cannot be read now cannot be read later. -/
theorem unreadable_later {s : MemoryStorage} {now time : ℤ} (le : now ≤ time) {key : Str}
    (unreadable : s.get now key = none) : s.get time key = none := by
  unfold MemoryStorage.get at unreadable ⊢
  cases stored : s.entries.lookup key with
  | none => rfl
  | some e =>
    rw [stored] at unreadable
    by_cases past : MemoryStorage.expired now e = true
    · exact if_pos (TimedMap.expired_later le past)
    · cases (if_neg past).symm.trans unreadable

theorem get_purge_later (s : MemoryStorage) {now time : ℤ} (le : now ≤ time) (key : Str) :
    (s.purge now).get time key = s.get time key := by
  unfold MemoryStorage.get
  rw [MemoryStorage.lookup_purge]
  cases s.entries.lookup key with
  | none => rfl
  | some e =>
    by_cases past : MemoryStorage.expired now e = true
    · simp [Option.filter, past, TimedMap.expired_later le past]
    · simp [Option.filter, past]

theorem get_remove_unreadable {s : MemoryStorage} {now : ℤ} {key : Str}
    (unreadable : s.get now key = none) (key' : Str) {time : ℤ} (le : now ≤ time) :
    (s.remove key).get time key' = s.get time key' := by
  by_cases same : key' = key
  · subst same
    rw [unreadable_later le unreadable, MemoryStorage.get, MemoryStorage.lookup_remove_self]
  · rw [MemoryStorage.get, MemoryStorage.lookup_remove_ne same, MemoryStorage.get]

theorem erase_absent {β : Type} {d : Dict β} {key : Str} (absent : d.lookup key = none) :
    d.erase key = d := by
  apply AList.ext
  exact List.kerase_of_notMem_keys (AList.lookup_eq_none.1 absent)

/-! A room for which nothing has been registered. -/

/-- There is nothing that `dispose` has to take back. -/
structure Blank (w : World) (r : RoomRef) (roomId : Str) : Prop where
  name : (w.rooms r).roomId = roomId
  gameMessageSub : (w.rooms r).gameMessageSub = none
  playerLeftSub : (w.rooms r).playerLeftSub = none
  autoDisposeTimer : (w.rooms r).autoDisposeTimer = none
  record : w.storage.get w.now (roomKey roomId) = none

section
variable {r : RoomRef} {roomId : Str} {w w' : World}

theorem Blank.unreadable (blank : Blank w r roomId) (stores : SameStores w w') :
    w'.storage.get w'.now (roomKey roomId) = none :=
  (stores.storage _ _ (le_refl _)).trans (unreadable_later stores.now blank.record)

theorem Blank.keeps (blank : Blank w r roomId) (stores : SameStores w w')
    (room : SamePrivate (w.rooms r) (w'.rooms r)) : Blank w' r roomId where
  name := room.roomId.trans blank.name
  gameMessageSub := room.gameMessageSub.trans blank.gameMessageSub
  playerLeftSub := room.playerLeftSub.trans blank.playerLeftSub
  autoDisposeTimer := room.autoDisposeTimer.trans blank.autoDisposeTimer
  record := blank.unreadable stores

theorem sameStores_call (hook : Hook) (body : Behaviour r) (w : World) :
    SameStores w (call hook body w).2 := by
  have noted : SameStores w { w with log := w.log ++ [.hook r hook] } := sameStores_of_toStores rfl
  exact noted.trans (body.stores _)

theorem samePrivate_call (hook : Hook) (body : Behaviour r) (w : World) :
    SamePrivate (w.rooms r) ((call hook body w).2.rooms r) :=
  body.room { w with log := w.log ++ [.hook r hook] }

theorem Blank.call (blank : Blank w r roomId) (hook : Hook) (body : Behaviour r) :
    Blank (call hook body w).2 r roomId :=
  blank.keeps (sameStores_call hook body w) (samePrivate_call hook body w)

/-- The start of `dispose`. -/
theorem mark_eq (alive : (w.rooms r).disposing = false) (cause : Cause) :
    (Blueboat.dispose w r cause).1 =
      (w.touch r).setRoom r { w.rooms r with disposing := true, cause := some cause } := by
  unfold Blueboat.dispose
  simp [alive]

theorem sameStores_mark (alive : (w.rooms r).disposing = false) (cause : Cause) :
    SameStores w (Blueboat.dispose w r cause).1 := by
  rw [mark_eq alive]
  exact sameStores_of_toStores (touch_toStores w r)

theorem Blank.mark (blank : Blank w r roomId) (alive : (w.rooms r).disposing = false)
    (cause : Cause) : Blank (Blueboat.dispose w r cause).1 r roomId := by
  have stores := sameStores_mark alive cause
  have room : (Blueboat.dispose w r cause).1.rooms r =
      { w.rooms r with disposing := true, cause := some cause } := by
    rw [mark_eq alive]
    exact Function.update_self ..
  exact ⟨by rw [room]; exact blank.name, by rw [room]; exact blank.gameMessageSub,
    by rw [room]; exact blank.playerLeftSub, by rw [room]; exact blank.autoDisposeTimer,
    blank.unreadable stores⟩

/-- Without subscriptions and a timer only the record is taken back, and there is none. -/
theorem Blank.finishDispose_eq (blank : Blank w r roomId) :
    (finishDispose w r).toStores =
      { w.toStores with storage := RoomFetcher.removeRoom w.storage roomId } := by
  unfold finishDispose
  simp only [touch_rooms, blank.autoDisposeTimer, blank.gameMessageSub, blank.playerLeftSub,
    blank.name, World.cancel, World.unsubscribe, World.setRoom, touch_toStores]

theorem Blank.finishDispose (blank : Blank w r roomId) : SameStores w (finishDispose w r) := by
  have stores := blank.finishDispose_eq
  refine ⟨?_, fun key time le => ?_, ?_, ?_, ?_⟩
  · rw [stores]
  · rw [stores] at le ⊢
    exact get_remove_unreadable blank.record key le
  · rw [stores]
  · rw [stores]
  · unfold pendingTimers
    rw [stores]

theorem Blank.finished (blank : Blank w r roomId) : Blank (Blueboat.finishDispose w r) r roomId := by
  have stores := blank.finishDispose
  have room : ((Blueboat.finishDispose w r).rooms r) =
      { w.rooms r with gameMessageSub := none, playerLeftSub := none, stage := .withdrawn } := by
    simp [Blueboat.finishDispose, World.setRoom]
  exact ⟨by rw [room]; exact blank.name, by rw [room], by rw [room],
    by rw [room]; exact blank.autoDisposeTimer, blank.unreadable stores⟩

theorem onRoomDisposed_stores (w : World) (r : RoomRef) : (onRoomDisposed w r).toStores =
    { w.toStores with managingRooms := w.managingRooms.erase (w.rooms r).roomId } :=
  (congrArg Ledger.toStores (ledger_onRoomDisposed w r)).trans
    (Ledger.onRoomDisposed_stores w.ledger r)

/-- The entry of the map that `on_room_disposed` erases is all that can get lost. -/
theorem SameStores.onRoomDisposed_iff (same : SameStores w w') (r : RoomRef) :
    SameStores w (onRoomDisposed w' r) ↔ w.managingRooms.lookup (w'.rooms r).roomId = none := by
  have stores := onRoomDisposed_stores w' r
  rw [same.managingRooms] at stores
  constructor
  · intro final
    have rooms := final.managingRooms
    rw [stores] at rooms
    rw [← rooms]
    exact AList.lookup_erase ..
  · intro absent
    rw [erase_absent absent, ← same.managingRooms] at stores
    exact same.trans (sameStores_of_toStores stores)

/-! What the parts of `create_new_room` do to the stores. -/

theorem andThen_none {first next : Piece} {w w' : World} (h : first w = (none, w')) :
    first.andThen next w = next w' := by
  rw [Piece.andThen, h]

theorem andThen_some {first next : Piece} {w w' : World} {x : Exn}
    (h : first w = (some x, w')) : first.andThen next w = (some x, w') := by
  rw [Piece.andThen, h]

theorem always_andThen (f : World → World) (next : Piece) (w : World) :
    (always f).andThen next w = next (f w) := rfl

theorem call_none {hook : Hook} {body : Behaviour r} (h : body.thrown = none) (w : World) :
    call hook body w = (none, (call hook body w).2) := Prod.ext h rfl

theorem call_some {hook : Hook} {body : Behaviour r} {x : Exn} (h : body.thrown = some x)
    (w : World) : call hook body w = (some x, (call hook body w).2) := Prod.ext h rfl

/-- A disposal changes the stores exactly if it runs to its end and erases a room of the same id. -/
theorem Blank.sameStores_dispose_iff (blank : Blank w' r roomId) (same : SameStores w w')
    (alive : (w'.rooms r).disposing = false) (hooks : Hooks r) :
    SameStores w (dispose hooks w').2 ↔ (hooks.beforeDispose.thrown = none →
      hooks.onDispose.thrown = none → w.managingRooms.lookup roomId = none) := by
  have marked := same.trans (sameStores_mark alive .rollback)
  have blank₁ := blank.mark alive .rollback
  have before := marked.trans (sameStores_call .beforeDispose hooks.beforeDispose _)
  have blank₂ := blank₁.call .beforeDispose hooks.beforeDispose
  have finished := before.trans blank₂.finishDispose
  have blank₃ := blank₂.finished
  have disposed := finished.trans (sameStores_call .onDispose hooks.onDispose _)
  have blank₄ := blank₃.call .onDispose hooks.onDispose
  unfold dispose
  rw [if_neg (by rw [alive]; exact nofun)]
  cases first : hooks.beforeDispose.thrown with
  | some x =>
    rw [andThen_some (call_some first _)]
    exact iff_of_true before nofun
  | none =>
    rw [andThen_none (call_none first _), always_andThen]
    cases second : hooks.onDispose.thrown with
    | some x =>
      rw [andThen_some (call_some second _)]
      exact iff_of_true disposed nofun
    | none =>
      rw [andThen_none (call_none second _)]
      have last := disposed.onRoomDisposed_iff r
      rw [blank₄.name] at last
      exact last.trans ⟨fun absent _ _ => absent, fun absent => absent rfl rfl⟩

/-- Whatever the rollback comes to, an exception leaves `Room::initialize`. -/
theorem tryOnCreate_some {hooks : Hooks r} {x : Exn} (throws : hooks.onCreate.thrown = some x)
    (w : World) : ∃ y, tryOnCreate hooks w =
      (some y, (dispose hooks (call (.onCreate (w.rooms r).options) hooks.onCreate w).2).2) := by
  unfold tryOnCreate
  rw [call_some throws]
  change ∃ y, (dispose hooks).andThen _ _ = _
  generalize (call (.onCreate (w.rooms r).options) hooks.onCreate w).2 = w'
  rcases result : dispose hooks w' with ⟨_ | y, w''⟩
  · exact ⟨x, andThen_none result⟩
  · exact ⟨y, andThen_some result⟩

theorem tryOnCreate_none {hooks : Hooks r} (returns : hooks.onCreate.thrown = none) (w : World) :
    tryOnCreate hooks w = (none, (call (.onCreate (w.rooms r).options) hooks.onCreate w).2) := by
  unfold tryOnCreate
  rw [call_none returns]

structure Opened (w : World) (r : RoomRef) (request : Request) (roomId : Str) : Prop
    extends Blank w r roomId where
  roomType : (w.rooms r).roomType = request.roomName
  alive : (w.rooms r).disposing = false

end

section
variable {J : JsonText} {w : World} {request : Request} {roomId : Str}

def opening (J : JsonText) (request : Request) (w : World) : Option Exn × World :=
  ofOut (Blueboat.createNewRoom J w request.client request.roomName request.creatorOptions
    request.override .api request.candidates request.factory)

theorem Reaches.unique {roomId' : Str} (reaches : Reaches w request roomId)
    (reaches' : Reaches w request roomId') : roomId' = roomId :=
  Except.ok.inj (reaches'.2.1.symm.trans reaches.2.1)

theorem sameStores_purge (w : World) :
    SameStores w { w with storage := w.storage.purge w.now } where
  now := le_refl _
  storage key _ le := get_purge_later w.storage le key
  managingRooms := rfl
  pubsub := rfl
  timers := rfl

theorem unreadable_of_fresh
    (fresh : roomId ∉ RoomFetcher.getListOfRooms w.storage w.now) :
    w.storage.get w.now (roomKey roomId) = none := by
  cases stored : w.storage.get w.now (roomKey roomId) with
  | none => rfl
  | some text => exact absurd (MemoryStorage.mem_fetchKeys.2 ⟨text, stored⟩) fresh

/-- Up to the call of `on_create` the stores stay as they are, whether it is reached or not. -/
theorem opening_spec (J : JsonText) (w : World) (request : Request) :
    (∃ x w', opening J request w = (some x, w') ∧ SameStores w w' ∧
      ∀ roomId, ¬ Reaches w request roomId) ∨
    ∃ roomId w', opening J request w = (none, w') ∧ SameStores w w' ∧
      Reaches w request roomId ∧ Opened w' w.nextRoom request roomId := by
  have purged := sameStores_purge w
  unfold opening Blueboat.createNewRoom
  cases registered : w.registeredRooms.lookup request.roomName with
  | none =>
    refine .inl ⟨_, w, rfl, SameStores.refl w, fun roomId ⟨⟨options, found⟩, _⟩ => ?_⟩
    rw [registered] at found
    cases found
  | some options =>
    dsimp only
    cases chosen : newRoomId (RoomFetcher.getListOfRooms w.storage w.now) request.override
        request.candidates with
    | error x =>
      refine .inl ⟨x, _, rfl, purged, fun roomId ⟨_, found, _⟩ => ?_⟩
      rw [chosen] at found
      cases found
    | ok roomId =>
      cases made : request.factory with
      | some x =>
        refine .inl ⟨x, _, rfl, purged, fun roomId ⟨_, _, found⟩ => ?_⟩
        rw [made] at found
        cases found
      | none =>
        have unreadable := unreadable_of_fresh (newRoomId_fresh chosen)
        let room : Room :=
          { Room.fresh with
            roomId := roomId
            roomType := request.roomName
            owner := request.client
            options := options
            creatorOptions := request.creatorOptions
            initialGameValues := GameValues.getAll J (w.storage.purge w.now) w.now }
        let made := ({ w with storage := w.storage.purge w.now } : World).setRoom w.nextRoom room
        have own : made.rooms w.nextRoom = room := Function.update_self ..
        refine .inr ⟨roomId, { made with nextRoom := w.nextRoom + 1 }, rfl,
          ⟨le_refl _, purged.storage, rfl, rfl, rfl⟩, ⟨⟨options, registered⟩, chosen, ‹_›⟩, ?_⟩
        refine ⟨⟨?_, ?_, ?_, ?_, ?_⟩, ?_, ?_⟩
        · exact congrArg (fun room : Room => room.roomId) own
        · exact congrArg (fun room : Room => room.gameMessageSub) own
        · exact congrArg (fun room : Room => room.playerLeftSub) own
        · exact congrArg (fun room : Room => room.autoDisposeTimer) own
        · exact (purged.storage _ _ (le_refl _)).trans unreadable
        · exact congrArg Room.roomType own
        · exact congrArg (fun room : Room => room.disposing) own

/-! What comes after `on_create`. -/

theorem utf8_record (s : RoomSnapshot) (metadata : s.metadata = .obj []) : s.toJson.utf8 = true ↔
    ∀ text ∈ [s.id, s.type, s.owner.id, s.owner.sessionId, s.owner.origin, s.owner.ip],
      utf8Valid text = true := by
  have keys : [lit "createdAt", lit "id", lit "metadata", lit "owner", lit "type", lit "ip",
      lit "origin", lit "sessionId"].all utf8Valid = true := by decide
  simp only [List.all_cons, List.all_nil, Bool.and_true, Bool.and_eq_true] at keys
  change Json.utf8Fields [(lit "createdAt", .int s.createdAt), (lit "id", .str s.id),
    (lit "metadata", s.metadata), (lit "owner", .obj [(lit "id", .str s.owner.id),
      (lit "ip", .str s.owner.ip), (lit "origin", .str s.owner.origin),
      (lit "sessionId", .str s.owner.sessionId)]), (lit "type", .str s.type)] = true ↔ _
  simp only [Json.utf8Fields, Json.utf8, keys, metadata, Bool.and_true, Bool.true_and,
    Bool.and_eq_true, List.forall_mem_cons, List.not_mem_nil, false_imp_iff, implies_true, and_true]
  tauto

theorem Opened.keeps {w' : World} {r : RoomRef} (opened : Opened w r request roomId)
    (stores : SameStores w w') (room : SamePrivate (w.rooms r) (w'.rooms r)) :
    Opened w' r request roomId where
  toBlank := opened.toBlank.keeps stores room
  roomType := room.roomType.trans opened.roomType
  alive := room.disposing.trans opened.alive

theorem Opened.writable_iff {r : RoomRef} (opened : Opened w r request roomId) :
    (snapshotOf (subscribeRoom w r) r request.client).toJson.utf8 = true ↔
      Writable request roomId := by
  have room : ((subscribeRoom w r).rooms r).roomId = roomId ∧
      ((subscribeRoom w r).rooms r).roomType = request.roomName := by
    simp only [subscribeRoom, World.setRoom, Function.update_self]
    exact ⟨opened.name, opened.roomType⟩
  refine (utf8_record _ rfl).trans ?_
  simp only [snapshotOf, room]
  rfl

theorem Opened.created_returns {r : RoomRef} (lawful : J.Lawful) (opened : Opened w r request roomId)
    (writable : Writable request roomId) : (ofOut (created J w r request.client .api)).1 = none := by
  obtain ⟨storage, stored⟩ := addRoom_valid lawful (subscribeRoom w r).storage (subscribeRoom w r).now
    (opened.writable_iff.2 writable)
  unfold created
  dsimp only
  rw [stored]
  rfl

theorem Opened.created_throws {r : RoomRef} (lawful : J.Lawful) (opened : Opened w r request roomId)
    (unwritable : ¬ Writable request roomId) :
    ∃ x, ofOut (created J w r request.client .api) = (some x, subscribeRoom w r) := by
  have invalid := Bool.eq_false_iff.2 (mt opened.writable_iff.1 unwritable)
  obtain ⟨what, fails⟩ := addRoom_invalid lawful (subscribeRoom w r).storage (subscribeRoom w r).now
    invalid
  refine ⟨.std what, ?_⟩
  unfold created
  dsimp only
  rw [fails]
  rfl

/-- The listener for players that left is one more. -/
theorem subscribeRoom_leaves {w' : World} (same : SameStores w w') (r : RoomRef) :
    ¬ SameStores w (subscribeRoom w' r) := by
  intro final
  have listeners := congrArg (fun pubsub : PubSub Handler => (pubsub.listenersOf PLAYER_LEFT).length)
    (final.pubsub.trans same.pubsub.symm)
  have more : (w'.pubsub.listenersOf PLAYER_LEFT).length ≤
      ((w'.pubsub.on (w'.rooms r).roomId w'.nextListener (.gameMessage r)).listenersOf
        PLAYER_LEFT).length := by
    by_cases channel : PLAYER_LEFT = (w'.rooms r).roomId
    · rw [← channel, PubSub.listenersOf_on_self, List.length_append]
      omega
    · rw [PubSub.listenersOf_on_ne channel]
  simp only [subscribeRoom, PubSub.listenersOf_on_self, List.length_append,
    List.length_singleton] at listeners
  omega

/-- The outcome once `on_create` has been reached. -/
theorem Opened.traceless_iff {w' : World} (lawful : J.Lawful)
    (opened : Opened w' w.nextRoom request roomId) (same : SameStores w w')
    (hooks : Hooks w.nextRoom) :
    Traceless w ((tryOnCreate hooks).andThen
      (fun w'' => ofOut (created J w'' w.nextRoom request.client .api)) w') ↔
    (hooks.onCreate.thrown = none → Writable request roomId) ∧
      (hooks.onCreate.thrown ≠ none → hooks.beforeDispose.thrown = none →
        hooks.onDispose.thrown = none → w.managingRooms.lookup roomId = none) := by
  let hook : Hook := .onCreate (w'.rooms w.nextRoom).options
  have stores := sameStores_call hook hooks.onCreate w'
  have opened' := opened.keeps stores (samePrivate_call hook hooks.onCreate w')
  have same' := same.trans stores
  cases asked : hooks.onCreate.thrown with
  | none =>
    rw [andThen_none (tryOnCreate_none asked w')]
    by_cases writable : Writable request roomId
    · have returns := opened'.created_returns lawful writable
      exact iff_of_true (fun fails => absurd returns fails) ⟨fun _ => writable, nofun⟩
    · obtain ⟨x, result⟩ := opened'.created_throws lawful writable
      refine iff_of_false (fun traceless => ?_) fun clean => writable (clean.1 rfl)
      rw [result] at traceless
      exact subscribeRoom_leaves same' _ (traceless nofun)
  | some x =>
    obtain ⟨y, result⟩ := tryOnCreate_some asked w'
    rw [andThen_some result]
    have disposed := opened'.toBlank.sameStores_dispose_iff same' opened'.alive hooks
    constructor
    · intro traceless
      exact ⟨nofun, fun _ => disposed.1 (traceless nofun)⟩
    · intro clean _
      exact disposed.2 (clean.2 nofun)

/-- A failed creation leaves the stores as they were exactly if the record can be written and a
rollback finds no room of the same id. -/
theorem createNewRoom_traceless_iff (lawful : J.Lawful) (w : World) (request : Request)
    (hooks : Hooks w.nextRoom) :
    Traceless w (createNewRoom J request w hooks) ↔ Clean w request hooks := by
  rcases opening_spec J w request with ⟨x, w', result, same, never⟩ |
    ⟨roomId, w', result, same, reaches, opened⟩
  · have whole : createNewRoom J request w hooks = (some x, w') := andThen_some result
    rw [whole]
    exact iff_of_true (fun _ => same) fun roomId reaches => absurd reaches (never roomId)
  · have whole : createNewRoom J request w hooks = (tryOnCreate hooks).andThen
        (fun w'' => ofOut (created J w'' w.nextRoom request.client .api)) w' := andThen_none result
    rw [whole]
    refine (opened.traceless_iff lawful same hooks).trans ⟨fun clean roomId' reaches' => ?_,
      fun clean => clean roomId reaches⟩
    rw [reaches.unique reaches']
    exact clean

end

/-! A client whose id is not a text. -/

def plain (r : RoomRef) (thrown : Option Exn) : Behaviour r where
  act := id
  thrown := thrown
  stores := SameStores.refl
  room _ := ⟨rfl, rfl, rfl, rfl, rfl, rfl, rfl⟩

def plainHooks (r : RoomRef) (onCreate : Option Exn) : Hooks r :=
  ⟨plain r onCreate, plain r none, plain r none⟩

def vacant : World :=
  { World.initial with registeredRooms := World.initial.registeredRooms.insert (lit "t") (.obj []) }

def requestBy (id : Str) : Request :=
  { client := ⟨id, lit "s1", [], []⟩, roomName := lit "t", creatorOptions := .obj []
    override := lit "r", candidates := [], factory := none }

theorem reaches_requestBy (id : Str) : Reaches vacant (requestBy id) (lit "r") :=
  ⟨⟨.obj [], AList.lookup_insert _⟩, rfl, rfl⟩

/-- `on_create` throws. -/
theorem createNewRoom_traceless_thrown :
    Traceless vacant (createNewRoom Text.reference (requestBy (lit "ann")) vacant
      (plainHooks 0 (some .other))) :=
  (createNewRoom_traceless_iff Text.reference_lawful vacant (requestBy (lit "ann"))
    (plainHooks 0 (some .other))).2 fun _ _ => ⟨nofun, fun _ _ _ => rfl⟩

theorem creation_leaves_traces : ¬ ∀ (J : JsonText) (w : World) (request : Request)
    (hooks : Hooks w.nextRoom), J.Lawful → Traceless w (createNewRoom J request w hooks) := by
  intro law
  have traceless := law Text.reference vacant (requestBy [255]) (plainHooks 0 none)
    Text.reference_lawful
  rcases opening_spec Text.reference vacant (requestBy [255]) with ⟨x, w', -, -, never⟩ |
    ⟨roomId, w', result, same, reaches, opened⟩
  · exact never _ (reaches_requestBy [255])
  · have whole : createNewRoom Text.reference (requestBy [255]) vacant (plainHooks 0 none) =
        (tryOnCreate (plainHooks 0 none)).andThen
          (fun w'' => ofOut (created Text.reference w'' 0 (requestBy [255]).client .api)) w' :=
      andThen_none result
    rw [whole] at traceless
    have clean := (opened.traceless_iff Text.reference_lawful same (plainHooks 0 none)).1 traceless
    have valid := clean.1 rfl [255] (by simp [requestBy])
    exact absurd valid (by decide)

end Blueboat.Creation
