import Blueboat.Client

set_option autoImplicit false

/-! What holds of every run of the client: which objects the stores and the pending commands refer
to, and that only the manager thread handles the connection. -/
namespace Blueboat.Client

open Protocol LockMachine

def Cmd.isPhase : Cmd → Bool
  | .connectionManagerLoop _ => true
  | .install _ => true
  | .recvLoop => true
  | .resetWs => true
  | .afterLoop => true
  | .copyLostRooms => true
  | .leaveRooms _ => true
  | _ => false

def Cmd.isHandler : Cmd → Bool
  | .handleClientIdSet _ => true
  | .copyRooms => true
  | .rejoinRooms _ => true
  | .idSetDone => true
  | .handle .. => true
  | .eraseRequest _ => true
  | .setLeft _ => true
  | _ => false

def Cmd.joins : Cmd → Option (Ref × Str × Origin)
  | .joinRoomShared o roomId _ origin => some (o, roomId, origin)
  | .sendUnlessJoined o roomId _ origin => some (o, roomId, origin)
  | .sendJoin o roomId _ origin => some (o, roomId, origin)
  | .addRoom o roomId origin => some (o, roomId, origin)
  | _ => none

inductive Key where
  | manager
  | chain (o : Ref)
  deriving DecidableEq

/-- There is one manager, and `join_room` and the reply to `create_room` are once for every object. -/
def Cmd.key (cmd : Cmd) : Option Key :=
  if cmd.isPhase then some .manager
  else
    match cmd.joins with
    | some (_, _, .rejoin) => none
    | some (o, _, _) => some (.chain o)
    | none => none

def Key.Live (w : World) : Key → Prop
  | .manager => True
  | .chain o => (w.objects o).named = true

def Listed (w : World) (roomId : Str) : Prop := ∃ o ∈ w.rooms, (w.objects o).id = roomId

structure Sound (w : World) : Prop where
  unborn : ∀ {o}, w.nextObject ≤ o → (w.objects o).named = false
  joined : ∀ {o}, (w.objects o).joined = true → (w.objects o).named = true
  rooms : ∀ {o}, o ∈ w.rooms → (w.objects o).named = true
  ids : (w.rooms.map fun o => (w.objects o).id).Nodup
  returned : ∀ {o}, o ∈ w.returned → (w.objects o).named = true ∧ Listed w (w.objects o).id
  message : ∀ {event o}, w.eventHandlers.lookup event = some (.message o) →
    (w.objects o).named = true ∧ event = messageEvent (w.objects o).id
  created : ∀ {event o options requestId},
    w.eventHandlers.lookup event = some (.created o options requestId) →
    event = createEvent requestId ∧ o < w.nextObject
  once : ∀ {event event' o options options' requestId requestId'},
    w.eventHandlers.lookup event = some (.created o options requestId) →
    w.eventHandlers.lookup event' = some (.created o options' requestId') → requestId = requestId'
  ws : ∀ {link}, w.ws = some link → link.number < w.nextLink
  sent : ∀ {frame}, frame ∈ w.sent → frame.1 < w.nextLink
  copied : ∀ {n}, w.copied = some n → n < w.nextLink
  idSet : ∀ {n}, w.idSet = some n → n < w.nextLink

/-- What no step undoes. -/
structure Later (w w' : World) : Prop where
  nextObject : w.nextObject ≤ w'.nextObject
  object : ∀ {o}, (w.objects o).named = true →
    (w'.objects o).named = true ∧ (w'.objects o).id = (w.objects o).id
  rooms : ∀ {o}, o ∈ w.rooms → o ∈ w'.rooms
  sent : ∀ {frame}, frame ∈ w.sent → frame ∈ w'.sent
  nextLink : w.nextLink ≤ w'.nextLink

/-- What only the manager does: the other threads can only close a connection. -/
structure Aside (w w' : World) : Prop extends Later w w' where
  ws : w'.ws.map Link.number = w.ws.map Link.number
  opened : ∀ {n}, w'.ws = some ⟨n, false⟩ → w.ws = some ⟨n, false⟩
  link : w'.nextLink = w.nextLink
  copied : w'.copied = w.copied
  idSet : w'.idSet = w.idSet
  joined : ∀ o, (w'.objects o).joined = (w.objects o).joined
  unnamed : ∀ {o}, o < w.nextObject → (w.objects o).named = false → (w'.objects o).named = false
  created : ∀ {event o options requestId},
    w'.eventHandlers.lookup event = some (.created o options requestId) →
    w.eventHandlers.lookup event = some (.created o options requestId) ∨
      (w.nextObject ≤ o ∧ (w'.objects o).named = false)

theorem Later.refl (w : World) : Later w w := ⟨le_rfl, fun h => ⟨h, rfl⟩, id, id, le_rfl⟩

theorem Aside.refl (w : World) : Aside w w :=
  ⟨.refl w, rfl, fun h => h, rfl, rfl, rfl, fun _ => rfl, fun _ => id, .inl⟩

theorem Later.listed {w w' : World} (h : Later w w') (sound : Sound w) {roomId : Str}
    (listed : Listed w roomId) : Listed w' roomId := by
  obtain ⟨o, ho, hid⟩ := listed
  exact ⟨o, h.rooms ho, (h.object (sound.rooms ho)).2.trans hid⟩

theorem Sound.unjoined {w : World} (h : Sound w) {o : Ref} (unborn : w.nextObject ≤ o) :
    (w.objects o).joined = false := by
  by_contra joined
  have named := h.joined (by simpa using joined)
  rw [h.unborn unborn] at named
  cases named

theorem Sound.named_lt {w : World} (h : Sound w) {o : Ref} (named : (w.objects o).named = true) :
    o < w.nextObject := by
  by_contra ge
  rw [h.unborn (not_lt.1 ge)] at named
  cases named

def Cmd.Ok (w : World) : Cmd → Prop
  | .joinRoomShared o roomId _ origin => (w.objects o).named = true ∧ (w.objects o).id = roomId ∧
      (origin = .rejoin → o ∈ w.rooms)
  | .sendUnlessJoined o roomId _ origin => (w.objects o).named = true ∧ (w.objects o).id = roomId ∧
      (origin = .rejoin → o ∈ w.rooms)
  | .sendJoin o roomId _ origin => (w.objects o).named = true ∧ (w.objects o).id = roomId ∧
      (origin = .rejoin → o ∈ w.rooms)
  | .addRoom o roomId origin => (w.objects o).named = true ∧ (w.objects o).id = roomId ∧
      (origin = .rejoin → o ∈ w.rooms)
  | .sendFrame event _ => event ≠ Protocol.joinRoom
  | .handle (.message o) _ => (w.objects o).named = true
  | .handle (.created o _ requestId) _ => (w.objects o).named = false ∧ o < w.nextObject ∧
      ∀ {event options requestId'},
        w.eventHandlers.lookup event = some (.created o options requestId') → requestId' = requestId
  | .rejoinRooms rooms => (∀ o ∈ rooms, o ∈ w.rooms) ∧ rooms.Nodup
  | .recvLoop => ∃ n, w.ws.map Link.number = some n ∧ w.nextLink = n + 1
  | _ => True

theorem Cmd.ok_of_joins {w : World} {cmd : Cmd} {o : Ref} {roomId : Str} {origin : Origin}
    (joins : cmd.joins = some (o, roomId, origin)) : cmd.Ok w ↔ (w.objects o).named = true ∧
      (w.objects o).id = roomId ∧ (origin = .rejoin → o ∈ w.rooms) := by
  cases cmd <;> cases joins <;> rfl

/-- A pending part of `join_room_shared` stays in order whatever happens. -/
theorem Later.ok_joins {w w' : World} (h : Later w w') {cmd : Cmd} {join : Ref × Str × Origin}
    (joins : cmd.joins = some join) (ok : cmd.Ok w) : cmd.Ok w' := by
  obtain ⟨o, roomId, origin⟩ := join
  rw [Cmd.ok_of_joins joins] at ok ⊢
  obtain ⟨named, id, listed⟩ := ok
  obtain ⟨named', id'⟩ := h.object named
  exact ⟨named', id'.trans id, fun e => h.rooms (listed e)⟩

theorem Aside.ok {w w' : World} (h : Aside w w') {cmd : Cmd} (ok : cmd.Ok w) : cmd.Ok w' := by
  cases cmd with
  | joinRoomShared | sendUnlessJoined | sendJoin | addRoom => exact h.toLater.ok_joins rfl ok
  | handle handler data =>
    cases handler with
    | message o => exact (h.object ok).1
    | created o options requestId =>
      obtain ⟨unnamed, lt, same⟩ := ok
      refine ⟨h.unnamed lt unnamed, lt_of_lt_of_le lt h.nextObject, fun found => ?_⟩
      rcases h.created found with found | ⟨ge, -⟩
      · exact same found
      · exact absurd lt (not_lt.2 ge)
    | _ => trivial
  | rejoinRooms rooms => exact ⟨fun o ho => h.rooms (ok.1 o ho), ok.2⟩
  | recvLoop =>
    obtain ⟨n, ws, next⟩ := ok
    exact ⟨n, h.ws.trans ws, h.link.trans next⟩
  | _ => exact ok

def Cmd.isManager (cmd : Cmd) : Bool := cmd.isPhase || cmd.isHandler

/-- The commands of other threads stay in order whatever the manager does. -/
theorem Later.ok {w w' : World} (h : Later w w') {cmd : Cmd} (other : cmd.isManager = false)
    (ok : cmd.Ok w) : cmd.Ok w' := by
  cases cmd with
  | joinRoomShared | sendUnlessJoined | sendJoin | addRoom => exact h.ok_joins rfl ok
  | handle | rejoinRooms | recvLoop => cases other
  | _ => exact ok

/-! The operations on the world. -/

@[simp] theorem setObject_self (w : World) (o : Ref) (room : Room) :
    (w.setObject o room).objects o = room := Function.update_self ..

theorem setObject_ne (w : World) {o o' : Ref} (h : o' ≠ o) (room : Room) :
    (w.setObject o room).objects o' = w.objects o' := Function.update_of_ne h ..

theorem mem_addRoom {w : World} {o o' : Ref} {roomId : Str} {origin : Origin}
    (mem : o' ∈ (w.addRoom o roomId origin).rooms) :
    o' ∈ w.rooms ∨ (o' = o ∧ ¬ Listed w roomId) := by
  unfold World.addRoom at mem
  simp only at mem
  split at mem
  · exact .inl mem
  · rename_i fresh
    refine (List.mem_append.1 mem).imp_right fun mem => ⟨List.mem_singleton.1 mem, ?_⟩
    rintro ⟨o', mem', e⟩
    exact fresh (List.any_eq_true.2 ⟨o', mem', by simpa using e⟩)

/-- Only frames are added. -/
theorem send_eq (w : World) (event : Str) (data : Json) :
    ∃ sent, w.send event data = { w with sent := sent } := by
  unfold World.send
  split
  · exact ⟨w.sent, rfl⟩
  · split
    · exact ⟨w.sent, rfl⟩
    · exact ⟨_, rfl⟩

theorem rooms_send (w : World) (event : Str) (data : Json) :
    (w.send event data).rooms = w.rooms := by
  obtain ⟨sent, e⟩ := send_eq w event data
  rw [e]

theorem ws_send (w : World) (event : Str) (data : Json) : (w.send event data).ws = w.ws := by
  obtain ⟨sent, e⟩ := send_eq w event data
  rw [e]

theorem objects_send (w : World) (event : Str) (data : Json) :
    (w.send event data).objects = w.objects := by
  obtain ⟨sent, e⟩ := send_eq w event data
  rw [e]

theorem objects_setJoined (w : World) (o o' : Ref) (joined : Bool) :
    (w.setJoined o joined).objects o' =
      { w.objects o' with joined := if o' = o then joined else (w.objects o').joined } := by
  by_cases h : o' = o
  · subst h; simp [World.setJoined]
  · simp [World.setJoined, setObject_ne w h, h]

theorem named_setJoined (w : World) (o o' : Ref) (joined : Bool) :
    ((w.setJoined o joined).objects o').named = (w.objects o').named := by
  rw [objects_setJoined]

theorem joined_nameObject (w : World) (o o' : Ref) (roomId : Str) :
    (((w.setObject o { w.objects o with id := roomId, named := true }).registerRoomEvents
      o).objects o').joined = (w.objects o').joined := by
  change ((w.setObject o { w.objects o with id := roomId, named := true }).objects o').joined = _
  by_cases h : o' = o
  · rw [h, setObject_self]
  · rw [setObject_ne w h]

theorem lookup_registerRoomEvents (w : World) (o : Ref) (event : Str) :
    (w.registerRoomEvents o).eventHandlers.lookup event =
      if event = messageEvent (w.objects o).id then some (.message o)
      else if event = errorEvent (w.objects o).id then some (.joinError o)
      else w.eventHandlers.lookup event := by
  unfold World.registerRoomEvents
  dsimp only
  split
  · rename_i h; rw [h, AList.lookup_insert]
  · rename_i h
    rw [AList.lookup_insert_ne h]
    split
    · rename_i h'; rw [h', AList.lookup_insert]
    · rename_i h'; rw [AList.lookup_insert_ne h']

theorem lookup_erase_of_some {events : Dict Handler} {key event : Str} {handler : Handler}
    (h : (events.erase key).lookup event = some handler) :
    event ≠ key ∧ events.lookup event = some handler := by
  have ne : event ≠ key := by
    rintro rfl
    rw [AList.lookup_erase] at h
    cases h
  exact ⟨ne, (AList.lookup_erase_ne ne).symm.trans h⟩

section
variable {w : World} (sound : Sound w)
include sound

theorem Sound.setJoined {o : Ref} {joined : Bool} (named : joined = true → (w.objects o).named = true) :
    Sound (w.setJoined o joined) ∧ Later w (w.setJoined o joined) := by
  have object := fun o' => objects_setJoined w o o' joined
  have later : Later w (w.setJoined o joined) :=
    { nextObject := le_rfl, object := fun h => by rw [object]; exact ⟨h, rfl⟩, rooms := id
      sent := id, nextLink := le_rfl }
  refine ⟨{ sound with
      unborn := fun h => by rw [object]; exact sound.unborn h
      joined := fun {o'} h => ?_
      rooms := fun h => by rw [object]; exact sound.rooms h
      ids := ?_
      returned := fun {o'} h => ?_
      message := fun h => by rw [object]; exact sound.message h }, later⟩
  · rw [object] at h ⊢
    simp only at h ⊢
    split at h
    · rename_i e; rw [e]; exact named h
    · exact sound.joined h
  · simp only [object]
    exact sound.ids
  · rw [object]
    obtain ⟨named, listed⟩ := sound.returned h
    exact ⟨named, later.listed sound listed⟩

theorem Sound.send (event : Str) (data : Json) :
    Sound (w.send event data) ∧ Aside w (w.send event data) := by
  unfold World.send
  split
  · exact ⟨sound, .refl w⟩
  · rename_i link ws
    split
    · exact ⟨sound, .refl w⟩
    · refine ⟨{ sound with sent := fun {frame} h => ?_ },
        { Aside.refl w with sent := fun h => List.mem_append_left _ h }⟩
      rcases List.mem_append.1 h with h | h
      · exact sound.sent h
      · rw [List.mem_singleton.1 h]; exact sound.ws ws

/-- A new object, with its handlers; `events` are the table's new entries. -/
theorem Sound.newObject {room : Room} {events : Dict Handler} (fresh : room.joined = false)
    (message : ∀ {event o}, events.lookup event = some (.message o) →
      w.eventHandlers.lookup event = some (.message o) ∨
        (o = w.nextObject ∧ room.named = true ∧ event = messageEvent room.id))
    (created : ∀ {event o options requestId},
      events.lookup event = some (.created o options requestId) →
      w.eventHandlers.lookup event = some (.created o options requestId) ∨
        (o = w.nextObject ∧ room.named = false ∧ event = createEvent requestId))
    (once : ∀ {event event' options options' requestId requestId'},
      events.lookup event = some (.created w.nextObject options requestId) →
      events.lookup event' = some (.created w.nextObject options' requestId') →
      requestId = requestId') :
    Sound { w.newObject room with eventHandlers := events } ∧
      Aside w { w.newObject room with eventHandlers := events } := by
  have new : ({ w.newObject room with eventHandlers := events } : World).objects w.nextObject = room :=
    setObject_self w _ room
  have old : ∀ {o}, o ≠ w.nextObject →
      ({ w.newObject room with eventHandlers := events } : World).objects o = w.objects o :=
    fun h => setObject_ne w h room
  have kept : ∀ {o}, (w.objects o).named = true → o ≠ w.nextObject := fun named =>
    Nat.ne_of_lt (sound.named_lt named)
  have later : Later w { w.newObject room with eventHandlers := events } :=
    { nextObject := Nat.le_succ _, object := fun h => by rw [old (kept h)]; exact ⟨h, rfl⟩
      rooms := id, sent := id, nextLink := le_rfl }
  refine ⟨{ sound with
      unborn := fun {o} h => ?_
      joined := fun {o} h => ?_
      rooms := fun h => by rw [old (kept (sound.rooms h))]; exact sound.rooms h
      ids := ?_
      returned := fun {o} h => ?_
      message := fun {event o} h => ?_
      created := fun {event o options requestId} h => ?_
      once := fun {event event' o options options' requestId requestId'} h h' => ?_ },
    { toLater := later, ws := rfl, opened := fun h => h, link := rfl, copied := rfl, idSet := rfl
      joined := fun o => by
        by_cases e : o = w.nextObject
        · rw [e, new, fresh, sound.unjoined le_rfl]
        · rw [old e]
      unnamed := fun h => by rw [old (by omega)]; exact id
      created := fun {event o options requestId} h => ?_ }⟩
  · have lt : w.nextObject < o := h
    rw [old (by omega)]
    exact sound.unborn (by omega)
  · by_cases e : o = w.nextObject
    · rw [e, new, fresh] at h; cases h
    · rw [old e] at h ⊢; exact sound.joined h
  · have same : (w.rooms.map fun o =>
        (({ w.newObject room with eventHandlers := events } : World).objects o).id) =
        w.rooms.map fun o => (w.objects o).id :=
      List.map_congr_left fun o h => by rw [old (kept (sound.rooms h))]
    exact same ▸ sound.ids
  · obtain ⟨named, listed⟩ := sound.returned h
    rw [old (kept named)]
    exact ⟨named, later.listed sound listed⟩
  · rcases message h with h | ⟨rfl, named, e⟩
    · obtain ⟨named, e⟩ := sound.message h
      rw [old (kept named)]
      exact ⟨named, e⟩
    · rw [new]; exact ⟨named, e⟩
  · rcases created h with h | ⟨rfl, -, e⟩
    · obtain ⟨e, lt⟩ := sound.created h
      exact ⟨e, Nat.lt_succ_of_lt lt⟩
    · exact ⟨e, Nat.lt_succ_self _⟩
  · rcases created h with old' | ⟨rfl, -, -⟩
    · rcases created h' with old'' | ⟨rfl, -, -⟩
      · exact sound.once old' old''
      · exact once h h'
    · exact once h h'
  · rcases created h with h | ⟨rfl, unnamed, -⟩
    · exact .inl h
    · exact .inr ⟨le_rfl, by rw [new]; exact unnamed⟩

theorem Sound.joinRoom (roomId : Str) (options : Json) :
    Sound ((w.newObject (newRoom roomId options true)).registerRoomEvents w.nextObject) ∧
      Aside w ((w.newObject (newRoom roomId options true)).registerRoomEvents w.nextObject) := by
  have id : ((w.newObject (newRoom roomId options true)).objects w.nextObject).id = roomId :=
    congrArg Room.id (setObject_self w _ _)
  have events := lookup_registerRoomEvents (w.newObject (newRoom roomId options true)) w.nextObject
  rw [id] at events
  have kept : ∀ {event o options' requestId},
      ((w.newObject (newRoom roomId options true)).registerRoomEvents
        w.nextObject).eventHandlers.lookup event = some (.created o options' requestId) →
      w.eventHandlers.lookup event = some (.created o options' requestId) := by
    intro event o options' requestId h
    rw [events] at h
    split at h
    · cases h
    · split at h
      · cases h
      · exact h
  have message : ∀ {event o},
      ((w.newObject (newRoom roomId options true)).registerRoomEvents
        w.nextObject).eventHandlers.lookup event = some (.message o) →
      w.eventHandlers.lookup event = some (.message o) ∨
        (o = w.nextObject ∧ True ∧ event = messageEvent roomId) := by
    intro event o h
    rw [events] at h
    split at h
    · rename_i e; cases h; exact .inr ⟨rfl, trivial, e⟩
    · split at h
      · cases h
      · exact .inl h
  refine sound.newObject rfl (fun h => ?_) (fun h => .inl (kept h)) fun h _ => ?_
  · exact (message h).imp_right fun ⟨o, _, e⟩ => ⟨o, rfl, e⟩
  · exact absurd (sound.created (kept h)).2 (lt_irrefl _)

theorem Sound.createRoom (options : Json) (requestId : Str) : ∀ w',
    w' = { w.newObject (newRoom [] options false) with
      eventHandlers := (w.eventHandlers.insert (createEvent requestId)
        (.created w.nextObject options requestId)).insert (errorEvent requestId)
        (.createError w.nextObject requestId) } → Sound w' ∧ Aside w w' := by
  rintro _ rfl
  have events : ∀ {event handler}, ((w.eventHandlers.insert (createEvent requestId)
      (.created w.nextObject options requestId)).insert (errorEvent requestId)
      (.createError w.nextObject requestId)).lookup event = some handler →
      handler = .createError w.nextObject requestId ∨
        (handler = .created w.nextObject options requestId ∧ event = createEvent requestId) ∨
        w.eventHandlers.lookup event = some handler := by
    intro event handler h
    by_cases e : event = errorEvent requestId
    · rw [e, AList.lookup_insert] at h; exact .inl (Option.some.inj h).symm
    · rw [AList.lookup_insert_ne e] at h
      by_cases e' : event = createEvent requestId
      · rw [e', AList.lookup_insert] at h; exact .inr (.inl ⟨(Option.some.inj h).symm, e'⟩)
      · rw [AList.lookup_insert_ne e'] at h; exact .inr (.inr h)
  have created : ∀ {event o options' requestId'}, ((w.eventHandlers.insert (createEvent requestId)
      (.created w.nextObject options requestId)).insert (errorEvent requestId)
      (.createError w.nextObject requestId)).lookup event =
        some (.created o options' requestId') →
      w.eventHandlers.lookup event = some (.created o options' requestId') ∨
        (o = w.nextObject ∧ requestId' = requestId ∧ event = createEvent requestId) := by
    intro event o options' requestId' h
    rcases events h with h | ⟨h, e⟩ | h
    · cases h
    · cases h; exact .inr ⟨rfl, rfl, e⟩
    · exact .inl h
  refine sound.newObject rfl (fun h => ?_) (fun h => ?_) fun h h' => ?_
  · rcases events h with h | ⟨h, -⟩ | h
    · cases h
    · cases h
    · exact .inl h
  · rcases created h with h | ⟨e, rfl, e'⟩
    · exact .inl h
    · exact .inr ⟨e, rfl, e'⟩
  · have mine : ∀ {event options' requestId'}, ((w.eventHandlers.insert (createEvent requestId)
        (.created w.nextObject options requestId)).insert (errorEvent requestId)
        (.createError w.nextObject requestId)).lookup event =
          some (.created w.nextObject options' requestId') → requestId' = requestId := by
      intro event options' requestId' h
      rcases created h with h | ⟨-, e, -⟩
      · exact absurd (sound.created h).2 (lt_irrefl _)
      · exact e
    exact (mine h).trans (mine h').symm

theorem Sound.addRoom {o : Ref} {roomId : Str} {origin : Origin}
    (named : (w.objects o).named = true) (id : (w.objects o).id = roomId) :
    Sound (w.addRoom o roomId origin) ∧ Aside w (w.addRoom o roomId origin) ∧
      Listed (w.addRoom o roomId origin) roomId := by
  have rooms : (w.addRoom o roomId origin).rooms = w.rooms ∧ Listed w roomId ∨
      (w.addRoom o roomId origin).rooms = w.rooms ++ [o] ∧ ¬ Listed w roomId := by
    unfold World.addRoom
    dsimp only
    split
    · rename_i listed
      obtain ⟨o', ho', e⟩ := List.any_eq_true.1 listed
      exact .inl ⟨rfl, o', ho', by simpa using e⟩
    · rename_i listed
      refine .inr ⟨rfl, fun ⟨o', ho', e⟩ => listed (List.any_eq_true.2 ⟨o', ho', by simpa using e⟩)⟩
  have listed : Listed (w.addRoom o roomId origin) roomId := by
    rcases rooms with ⟨same, o', ho', e⟩ | ⟨added, -⟩
    · exact ⟨o', by rw [same]; exact ho', e⟩
    · exact ⟨o, by rw [added]; simp, id⟩
  have later : Later w (w.addRoom o roomId origin) :=
    { nextObject := le_rfl, object := fun h => ⟨h, rfl⟩, sent := fun h => h, nextLink := le_rfl
      rooms := fun {o'} h => by
        rcases rooms with ⟨same, -⟩ | ⟨added, -⟩
        · rw [same]; exact h
        · rw [added]; exact List.mem_append_left _ h }
  refine ⟨{ sound with
      rooms := fun {o'} h => ?_
      ids := ?_
      returned := fun {o'} h => ?_ },
    { toLater := later, ws := rfl, opened := fun h => h, link := rfl, copied := rfl, idSet := rfl
      joined := fun _ => rfl, unnamed := fun _ h => h, created := .inl }, listed⟩
  · rcases rooms with ⟨same, -⟩ | ⟨added, -⟩
    · rw [same] at h; exact sound.rooms h
    · rw [added] at h
      rcases List.mem_append.1 h with h | h
      · exact sound.rooms h
      · rw [List.mem_singleton.1 h]; exact named
  · rcases rooms with ⟨same, -⟩ | ⟨added, fresh⟩
    · rw [same]; exact sound.ids
    · rw [added, List.map_append]
      refine List.nodup_append.2 ⟨sound.ids, List.nodup_singleton _, ?_⟩
      rintro x hx y hy rfl
      obtain ⟨o', ho', e⟩ := List.mem_map.1 hx
      have e' : x = (w.objects o).id := List.mem_singleton.1 hy
      exact fresh ⟨o', ho', e.trans (e'.trans id)⟩
  · have old : o' ∈ w.returned → (w.objects o').named = true ∧
        Listed (w.addRoom o roomId origin) (w.objects o').id := fun h =>
      ⟨(sound.returned h).1, later.listed sound (sound.returned h).2⟩
    change o' ∈ (if origin = .call then w.returned ++ [o] else w.returned) at h
    split at h
    · rcases List.mem_append.1 h with h | h
      · exact old h
      · rw [List.mem_singleton.1 h]
        exact ⟨named, show Listed _ (w.objects o).id from id ▸ listed⟩
    · exact old h

/-- The reply to `create_room` gives the object its id. -/
theorem Sound.nameObject {o : Ref} (roomId : Str) (unnamed : (w.objects o).named = false)
    (lt : o < w.nextObject) : ∀ w', w' = w.setObject o { w.objects o with id := roomId, named := true } →
    Sound (w'.registerRoomEvents o) ∧ Later w (w'.registerRoomEvents o) ∧
      ∀ {event o' options requestId},
        (w'.registerRoomEvents o).eventHandlers.lookup event =
          some (.created o' options requestId) →
        w.eventHandlers.lookup event = some (.created o' options requestId) := by
  rintro w' rfl
  let named : Room := { w.objects o with id := roomId, named := true }
  have new : ((w.setObject o named).registerRoomEvents o).objects o = named := setObject_self ..
  have old : ∀ {o'}, o' ≠ o →
      ((w.setObject o named).registerRoomEvents o).objects o' = w.objects o' :=
    fun h => setObject_ne w h _
  have kept : ∀ {o'}, (w.objects o').named = true → o' ≠ o := fun h e => by
    rw [e, unnamed] at h; cases h
  have events := lookup_registerRoomEvents (w.setObject o named) o
  rw [setObject_self] at events
  have created : ∀ {event o' options requestId},
      ((w.setObject o named).registerRoomEvents o).eventHandlers.lookup event =
        some (.created o' options requestId) →
      w.eventHandlers.lookup event = some (.created o' options requestId) := by
    intro event o' options requestId h
    rw [events] at h
    split at h
    · cases h
    · split at h
      · cases h
      · exact h
  have later : Later w ((w.setObject o named).registerRoomEvents o) :=
    { nextObject := le_rfl, object := fun h => by rw [old (kept h)]; exact ⟨h, rfl⟩
      rooms := fun h => h, sent := fun h => h, nextLink := le_rfl }
  refine ⟨{ sound with
      unborn := fun {o'} h => ?_
      joined := fun {o'} h => ?_
      rooms := fun h => by rw [old (kept (sound.rooms h))]; exact sound.rooms h
      ids := ?_
      returned := fun {o'} h => ?_
      message := fun {event o'} h => ?_
      created := fun h => sound.created (created h)
      once := fun h h' => sound.once (created h) (created h') }, later, created⟩
  · have ne : o' ≠ o := fun e => absurd lt (not_lt.2 (e ▸ h))
    rw [old ne]; exact sound.unborn h
  · by_cases e : o' = o
    · rw [e, new]
    · rw [old e] at h ⊢; exact sound.joined h
  · have same : (w.rooms.map fun o' =>
        (((w.setObject o named).registerRoomEvents o).objects o').id) =
        w.rooms.map fun o' => (w.objects o').id :=
      List.map_congr_left fun o' h => by rw [old (kept (sound.rooms h))]
    exact same ▸ sound.ids
  · obtain ⟨hnamed, listed⟩ := sound.returned h
    rw [old (kept hnamed)]
    exact ⟨hnamed, later.listed sound listed⟩
  · rw [events] at h
    split at h
    · rename_i e; cases h; rw [new]; exact ⟨rfl, e⟩
    · split at h
      · cases h
      · obtain ⟨hnamed, e⟩ := sound.message h
        rw [old (kept hnamed)]
        exact ⟨hnamed, e⟩

theorem Sound.eraseRequest (requestId : Str) : ∀ w', w' = { w with
      eventHandlers := (w.eventHandlers.erase (createEvent requestId)).erase
        (errorEvent requestId) } → Sound w' ∧ Aside w w' ∧
      ∀ {event o options requestId'},
        w'.eventHandlers.lookup event = some (.created o options requestId') →
        w.eventHandlers.lookup event = some (.created o options requestId') ∧
          requestId' ≠ requestId := by
  rintro _ rfl
  have kept : ∀ {event handler}, ((w.eventHandlers.erase (createEvent requestId)).erase
      (errorEvent requestId)).lookup event = some handler →
      event ≠ createEvent requestId ∧ w.eventHandlers.lookup event = some handler :=
    fun h => lookup_erase_of_some (lookup_erase_of_some h).2
  refine ⟨{ sound with
      message := fun h => sound.message (kept h).2
      created := fun h => sound.created (kept h).2
      once := fun h h' => sound.once (kept h).2 (kept h').2 },
    { Aside.refl w with created := fun h => .inl (kept h).2 }, fun h => ⟨(kept h).2, fun e => ?_⟩⟩
  exact (kept h).1 (e ▸ (sound.created (kept h).2).1)

end

end Blueboat.Client
