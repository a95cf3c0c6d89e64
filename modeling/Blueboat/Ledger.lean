import Blueboat.Server

set_option autoImplicit false

/-! The bookkeeping of rooms and sessions on its own: a smaller state, with the operations of the
server as they act on it. -/
namespace Blueboat

open Protocol LockMachine

structure Ledger extends Stores where
  lives : RoomRef → Life

def World.ledger (w : World) : Ledger := ⟨w.toStores, fun r => (w.rooms r).toLife⟩

def Life.member (life : Life) (sessionId : Str) : Option SimpleClient :=
  life.clients.find? fun c => c.sessionId = sessionId

def Life.born (roomId : Str) : Life := { Room.fresh.toLife with roomId := roomId }

structure Story where
  clients : List SimpleClient
  disposing : Bool
  visited : Bool
  erased : Bool
  cause : Option Cause

def Life.story (life : Life) : Story :=
  ⟨life.clients, life.disposing, life.visited, life.erased, life.cause⟩

namespace Ledger

def setLife (k : Ledger) (r : RoomRef) (life : Life) : Ledger :=
  { k with lives := Function.update k.lives r life }

def cancel (k : Ledger) (task : Option ℕ) : Ledger :=
  match task with
  | none => k
  | some id => { k with cancelled := Function.update k.cancelled id true }

def unsubscribe (k : Ledger) (key : Str) (sub : Option ℕ) : Ledger :=
  match sub with
  | none => k
  | some id => { k with pubsub := k.pubsub.unsubscribe key id }

def clearJoinSub (k : Ledger) (v : ℕ) : Ledger :=
  let wait := k.waits v
  let life := k.lives wait.room
  k.setLife wait.room
    { life with onJoinListeners := life.onJoinListeners.filter fun l => l.1 != wait.joinSub }

def resolve (k : Ledger) (v : ℕ) (value : Bool) : Ledger :=
  let wait := k.waits v
  match wait.promise with
  | some _ => k
  | none => { k with waits := Function.update k.waits v { wait with promise := some value } }

def rejoined (k : Ledger) (v : ℕ) : Ledger :=
  ((k.resolve v true).cancel (some (k.waits v).timer)).clearJoinSub v

def reconnectTimeout (k : Ledger) (v : ℕ) : Ledger :=
  let reconnected := (k.lives (k.waits v).room).clients.any fun c => c.id = (k.waits v).clientId
  (k.resolve v reconnected).clearJoinSub v

def started (k : Ledger) (task : Task) : Ledger := { k with working := k.working.erase task }

def eraseMember (k : Ledger) (r : RoomRef) (sessionId : Str) : Ledger :=
  let life := k.lives r
  k.setLife r { life with clients := life.clients.eraseP fun c => c.sessionId = sessionId }

def dispose (k : Ledger) (r : RoomRef) (cause : Cause) : Ledger :=
  let life := k.lives r
  if life.disposing then k else k.setLife r { life with disposing := true, cause := some cause }

def finishDispose (k : Ledger) (r : RoomRef) : Ledger :=
  let life := k.lives r
  let k := k.cancel life.autoDisposeTimer
  let k := { k with storage := RoomFetcher.removeRoom k.storage life.roomId }
  let k := (k.unsubscribe life.roomId life.gameMessageSub).unsubscribe PLAYER_LEFT life.playerLeftSub
  k.setLife r { life with gameMessageSub := none, playerLeftSub := none, stage := .withdrawn }

def onRoomDisposed (k : Ledger) (r : RoomRef) : Ledger :=
  let roomId := (k.lives r).roomId
  let k :=
    match k.managingRooms.lookup roomId with
    | none => k
    | some r₀ => k.setLife r₀ { k.lives r₀ with erased := true }
  let k := { k with managingRooms := k.managingRooms.erase roomId }
  k.setLife r { k.lives r with stage := .gone }

def addMember (k : Ledger) (r : RoomRef) (client : SimpleClient) : Ledger :=
  let life := k.lives r
  k.setLife r { life with clients := life.clients ++ [client], visited := true }

def listen (k : Ledger) (r : RoomRef) (id : ℕ) (callback : JoinCallback) : Ledger :=
  let life := k.lives r
  k.setLife r { life with onJoinListeners := life.onJoinListeners ++ [(id, callback)] }

def allowReconnection (k : Ledger) (r : RoomRef) (clientId : Str) (seconds : Int32) (joinSub : ℕ) :
    Ledger :=
  let due := k.now + seconds.toInt * 1000
  let wait : Wait := ⟨r, clientId, none, joinSub, k.nextTask, due⟩
  { k.listen r joinSub (.wait k.nextWait) with
    waits := Function.update k.waits k.nextWait wait
    nextWait := k.nextWait + 1
    tasks := k.tasks ++ [⟨k.nextTask, due, .reconnect k.nextWait⟩]
    nextTask := k.nextTask + 1 }

def birth (k : Ledger) (roomId : Str) : Ledger :=
  { k.setLife k.nextRoom (.born roomId) with
    storage := k.storage.purge k.now
    nextRoom := k.nextRoom + 1 }

def subscribeRoom (k : Ledger) (r : RoomRef) : Ledger :=
  let life := k.lives r
  let k' := k.setLife r
    { life with
      autoDisposeTimer := some k.nextTask
      gameMessageSub := some k.nextListener
      playerLeftSub := some (k.nextListener + 1) }
  { k' with
    tasks := k.tasks ++ [⟨k.nextTask, k.now + autoDisposeAfter, .autoDispose r⟩]
    nextTask := k.nextTask + 1
    pubsub := (k.pubsub.on life.roomId k.nextListener (.gameMessage r)).on PLAYER_LEFT
      (k.nextListener + 1) (.playerLeft r)
    nextListener := k.nextListener + 2 }

def registerNewRoom (k : Ledger) (r : RoomRef) (storage : MemoryStorage) : Ledger :=
  let life := k.lives r
  let k := { k with storage := storage, managingRooms := k.managingRooms.insert life.roomId r }
  k.setLife r { life with stage := .registered }

def openInfo (k : Ledger) (n : ℕ) : Ledger :=
  { k with
    pubsub := k.pubsub.on REQUEST_INFO k.nextListener (.infoRequest n)
    nextListener := k.nextListener + 1 }

def endOp (k : Ledger) (sessionId : Str) : Ledger :=
  match k.sessions.lookup sessionId with
  | some (client, .busy) => { k with sessions := k.sessions.insert sessionId (client, .idle) }
  | some (client, .closing) => { k with sessions := k.sessions.insert sessionId (client, .closed) }
  | _ => k

@[simp] theorem setLife_self (k : Ledger) (r : RoomRef) (life : Life) :
    (k.setLife r life).lives r = life := Function.update_self ..

theorem setLife_ne (k : Ledger) {r r' : RoomRef} (h : r' ≠ r) (life : Life) :
    (k.setLife r life).lives r' = k.lives r' := Function.update_of_ne h ..

@[simp] theorem setLife_toStores (k : Ledger) (r : RoomRef) (life : Life) :
    (k.setLife r life).toStores = k.toStores := rfl

/-- Whatever a write to one room keeps, it keeps of all rooms. -/
theorem setLife_field {β : Type} (f : Life → β) {k : Ledger} {r : RoomRef} {life : Life}
    (h : f life = f (k.lives r)) (r' : RoomRef) :
    f ((k.setLife r life).lives r') = f (k.lives r') := by
  by_cases hr : r' = r
  · subst hr; rw [setLife_self, h]
  · rw [setLife_ne k hr]

@[simp] theorem cancel_lives (k : Ledger) (task : Option ℕ) : (k.cancel task).lives = k.lives := by
  cases task <;> rfl

@[simp] theorem unsubscribe_lives (k : Ledger) (key : Str) (sub : Option ℕ) :
    (k.unsubscribe key sub).lives = k.lives := by
  cases sub <;> rfl

@[simp] theorem resolve_lives (k : Ledger) (v : ℕ) (value : Bool) :
    (k.resolve v value).lives = k.lives := by
  unfold resolve
  dsimp only
  split <;> rfl

@[simp] theorem endOp_lives (k : Ledger) (sessionId : Str) : (k.endOp sessionId).lives = k.lives := by
  unfold endOp
  split <;> rfl

/-! Which of the stores an operation writes to. -/

theorem dispose_stores (k : Ledger) (r : RoomRef) (cause : Cause) :
    (k.dispose r cause).toStores = k.toStores := by
  unfold dispose
  dsimp only
  split <;> rfl

theorem resolve_stores (k : Ledger) (v : ℕ) (value : Bool) :
    ∃ waits, (k.resolve v value).toStores = { k.toStores with waits := waits } := by
  unfold resolve
  dsimp only
  split <;> exact ⟨_, rfl⟩

theorem reconnectTimeout_stores (k : Ledger) (v : ℕ) :
    ∃ waits, (k.reconnectTimeout v).toStores = { k.toStores with waits := waits } :=
  resolve_stores k v _

theorem rejoined_stores (k : Ledger) (v : ℕ) : ∃ waits, (k.rejoined v).toStores =
    { k.toStores with
      waits := waits
      cancelled := Function.update k.cancelled (k.waits v).timer true } := by
  obtain ⟨waits, stores⟩ := resolve_stores k v true
  refine ⟨waits, ?_⟩
  change { (k.resolve v true).toStores with
    cancelled := Function.update (k.resolve v true).toStores.cancelled (k.waits v).timer true } = _
  rw [stores]

theorem endOp_stores (k : Ledger) (sessionId : Str) :
    ∃ sessions, (k.endOp sessionId).toStores = { k.toStores with sessions := sessions } := by
  unfold endOp
  split <;> exact ⟨_, rfl⟩

theorem birth_self (k : Ledger) (roomId : Str) :
    (k.birth roomId).lives k.nextRoom = .born roomId := Function.update_self ..

theorem birth_ne (k : Ledger) (roomId : Str) {r : RoomRef} (h : r ≠ k.nextRoom) :
    (k.birth roomId).lives r = k.lives r := Function.update_of_ne h ..

theorem subscribeRoom_self (k : Ledger) (r : RoomRef) : (k.subscribeRoom r).lives r =
    { k.lives r with
      autoDisposeTimer := some k.nextTask
      gameMessageSub := some k.nextListener
      playerLeftSub := some (k.nextListener + 1) } := Function.update_self ..

theorem subscribeRoom_ne (k : Ledger) {r r' : RoomRef} (h : r' ≠ r) :
    (k.subscribeRoom r).lives r' = k.lives r' := Function.update_of_ne h ..

theorem registerNewRoom_self (k : Ledger) (r : RoomRef) (storage : MemoryStorage) :
    (k.registerNewRoom r storage).lives r = { k.lives r with stage := .registered } :=
  Function.update_self ..

theorem registerNewRoom_ne (k : Ledger) {r r' : RoomRef} (h : r' ≠ r) (storage : MemoryStorage) :
    (k.registerNewRoom r storage).lives r' = k.lives r' := Function.update_of_ne h ..

theorem finishDispose_self (k : Ledger) (r : RoomRef) : (k.finishDispose r).lives r =
    { k.lives r with gameMessageSub := none, playerLeftSub := none, stage := .withdrawn } :=
  Function.update_self ..

theorem finishDispose_ne (k : Ledger) {r r' : RoomRef} (h : r' ≠ r) :
    (k.finishDispose r).lives r' = k.lives r' := by
  unfold finishDispose
  rw [setLife_ne _ h, unsubscribe_lives, unsubscribe_lives]
  exact congrFun (cancel_lives ..) r'

theorem onRoomDisposed_lives (k : Ledger) (r r' : RoomRef) :
    (k.onRoomDisposed r).lives r' = { k.lives r' with
      erased := (k.lives r').erased || k.managingRooms.lookup (k.lives r).roomId = some r'
      stage := if r' = r then .gone else (k.lives r').stage } := by
  unfold onRoomDisposed
  dsimp only
  cases k.managingRooms.lookup (k.lives r).roomId with
  | none =>
    by_cases hr : r' = r
    · subst hr; simp
    · simp [setLife_ne _ hr, hr]
  | some r₀ =>
    by_cases h₀ : r' = r₀
    · subst h₀
      by_cases hr : r' = r
      · subst hr; simp
      · simp [setLife_ne _ hr, hr]
    · by_cases hr : r' = r
      · subst hr; simp [setLife_ne _ h₀, Ne.symm h₀]
      · simp [setLife_ne _ hr, setLife_ne _ h₀, hr, Ne.symm h₀]

def SameStory (k k' : Ledger) : Prop := ∀ r, (k'.lives r).story = (k.lives r).story

theorem sameStory_of_lives {k k' : Ledger} (h : k'.lives = k.lives) : k.SameStory k' :=
  fun r => by rw [h]

theorem SameStory.refl (k : Ledger) : k.SameStory k := fun _ => rfl

theorem SameStory.trans {k k' k'' : Ledger} (h : k.SameStory k') (h' : k'.SameStory k'') :
    k.SameStory k'' := fun r => (h' r).trans (h r)

theorem SameStory.clients {k k' : Ledger} (h : k.SameStory k') (r : RoomRef) :
    (k'.lives r).clients = (k.lives r).clients := congrArg Story.clients (h r)

theorem SameStory.disposing {k k' : Ledger} (h : k.SameStory k') (r : RoomRef) :
    (k'.lives r).disposing = (k.lives r).disposing := congrArg Story.disposing (h r)

theorem SameStory.visited {k k' : Ledger} (h : k.SameStory k') (r : RoomRef) :
    (k'.lives r).visited = (k.lives r).visited := congrArg Story.visited (h r)

theorem SameStory.erased {k k' : Ledger} (h : k.SameStory k') (r : RoomRef) :
    (k'.lives r).erased = (k.lives r).erased := congrArg Story.erased (h r)

theorem SameStory.cause {k k' : Ledger} (h : k.SameStory k') (r : RoomRef) :
    (k'.lives r).cause = (k.lives r).cause := congrArg Story.cause (h r)

theorem clients_dispose (k : Ledger) (r : RoomRef) (cause : Cause) (r' : RoomRef) :
    ((k.dispose r cause).lives r').clients = (k.lives r').clients := by
  unfold dispose
  dsimp only
  split
  · rfl
  · exact setLife_field Life.clients (by rfl) r'

theorem erased_dispose (k : Ledger) (r : RoomRef) (cause : Cause) (r' : RoomRef) :
    ((k.dispose r cause).lives r').erased = (k.lives r').erased := by
  unfold dispose
  dsimp only
  split
  · rfl
  · exact setLife_field Life.erased (by rfl) r'

theorem disposing_dispose (k : Ledger) (r : RoomRef) (cause : Cause) :
    ((k.dispose r cause).lives r).disposing = true := by
  unfold dispose
  dsimp only
  split
  · assumption
  · rw [setLife_self]

theorem clients_eraseMember_self (k : Ledger) (r : RoomRef) (sessionId : Str) :
    ((k.eraseMember r sessionId).lives r).clients =
      (k.lives r).clients.eraseP fun c => c.sessionId = sessionId :=
  congrArg Life.clients (setLife_self ..)

theorem clients_eraseMember_ne (k : Ledger) {r r' : RoomRef} (h : r' ≠ r) (sessionId : Str) :
    ((k.eraseMember r sessionId).lives r').clients = (k.lives r').clients :=
  congrArg Life.clients (setLife_ne k h _)

theorem clients_eraseMember_sublist (k : Ledger) (r : RoomRef) (sessionId : Str) (r' : RoomRef) :
    ((k.eraseMember r sessionId).lives r').clients.Sublist (k.lives r').clients := by
  by_cases h : r' = r
  · subst h
    rw [clients_eraseMember_self]
    exact List.eraseP_sublist
  · rw [clients_eraseMember_ne k h]

theorem clients_addMember_self (k : Ledger) (r : RoomRef) (client : SimpleClient) :
    ((k.addMember r client).lives r).clients = (k.lives r).clients ++ [client] :=
  congrArg Life.clients (setLife_self ..)

theorem clients_addMember_ne (k : Ledger) {r r' : RoomRef} (h : r' ≠ r) (client : SimpleClient) :
    ((k.addMember r client).lives r').clients = (k.lives r').clients :=
  congrArg Life.clients (setLife_ne k h _)

theorem sameStory_subscribeRoom (k : Ledger) (r : RoomRef) : k.SameStory (k.subscribeRoom r) :=
  setLife_field Life.story rfl

theorem sameStory_registerNewRoom (k : Ledger) (r : RoomRef) (storage : MemoryStorage) :
    k.SameStory (k.registerNewRoom r storage) := setLife_field Life.story rfl

theorem sameStory_clearJoinSub (k : Ledger) (v : ℕ) : k.SameStory (k.clearJoinSub v) :=
  setLife_field Life.story rfl

theorem sameStory_listen (k : Ledger) (r : RoomRef) (id : ℕ) (callback : JoinCallback) :
    k.SameStory (k.listen r id callback) := setLife_field Life.story rfl

theorem sameStory_allowReconnection (k : Ledger) (r : RoomRef) (clientId : Str) (seconds : Int32)
    (joinSub : ℕ) : k.SameStory (k.allowReconnection r clientId seconds joinSub) :=
  sameStory_listen k r joinSub (.wait k.nextWait)

theorem sameStory_rejoined (k : Ledger) (v : ℕ) : k.SameStory (k.rejoined v) := fun r =>
  (sameStory_clearJoinSub _ v r).trans (by rw [cancel_lives, resolve_lives])

theorem sameStory_reconnectTimeout (k : Ledger) (v : ℕ) : k.SameStory (k.reconnectTimeout v) :=
  fun r => (sameStory_clearJoinSub _ v r).trans (by rw [resolve_lives])

theorem sameStory_finishDispose (k : Ledger) (r : RoomRef) : k.SameStory (k.finishDispose r) := by
  intro r'
  by_cases hr : r' = r
  · subst hr; rw [finishDispose_self]; rfl
  · rw [finishDispose_ne k hr]

theorem started_dispose (k : Ledger) (task : Task) (r : RoomRef) (cause : Cause) :
    (k.started task).dispose r cause = (k.dispose r cause).started task := by
  cases h : (k.lives r).disposing <;> simp [dispose, started, setLife, h]

theorem started_reconnectTimeout (k : Ledger) (task : Task) (v : ℕ) :
    (k.started task).reconnectTimeout v = (k.reconnectTimeout v).started task := by
  unfold reconnectTimeout resolve started
  dsimp only
  cases (k.waits v).promise <;> rfl

end Ledger

@[simp] theorem ledger_toStores (w : World) : w.ledger.toStores = w.toStores := rfl

@[simp] theorem ledger_lives (w : World) (r : RoomRef) : w.ledger.lives r = (w.rooms r).toLife := rfl

theorem lives_update (rooms : RoomRef → Room) (r : RoomRef) (room : Room) :
    (fun r' => (Function.update rooms r room r').toLife) =
      Function.update (fun r' => (rooms r').toLife) r room.toLife := by
  funext r'
  by_cases h : r' = r
  · subst h; simp
  · simp [h]

@[simp] theorem ledger_setRoom (w : World) (r : RoomRef) (room : Room) :
    (w.setRoom r room).ledger = w.ledger.setLife r room.toLife :=
  congrArg (Ledger.mk w.toStores) (lives_update w.rooms r room)

@[simp] theorem touch_toStores (w : World) (r : RoomRef) : (w.touch r).toStores = w.toStores := by
  unfold World.touch
  split <;> rfl

@[simp] theorem touch_rooms (w : World) (r : RoomRef) : (w.touch r).rooms = w.rooms := by
  unfold World.touch
  split <;> rfl

@[simp] theorem ledger_touch (w : World) (r : RoomRef) : (w.touch r).ledger = w.ledger := by
  simp [World.ledger]

@[simp] theorem sendFrameToClient_toStores (w : World) (sessionId event : Str) (data : Json) :
    (w.sendFrameToClient sessionId event data).toStores = w.toStores := by
  unfold World.sendFrameToClient
  split <;> rfl

@[simp] theorem sendFrameToClient_rooms (w : World) (sessionId event : Str) (data : Json) :
    (w.sendFrameToClient sessionId event data).rooms = w.rooms := by
  unfold World.sendFrameToClient
  split <;> rfl

@[simp] theorem ledger_sendFrameToClient (w : World) (sessionId event : Str) (data : Json) :
    (w.sendFrameToClient sessionId event data).ledger = w.ledger := by
  simp [World.ledger]

@[simp] theorem ledger_sendTo (w : World) (r : RoomRef) (sessionId key : Str) (data : Json) :
    (w.sendTo r sessionId key data).ledger = w.ledger := ledger_sendFrameToClient ..

@[simp] theorem ledger_cancel (w : World) (task : Option ℕ) :
    (w.cancel task).ledger = w.ledger.cancel task := by
  cases task <;> rfl

@[simp] theorem ledger_unsubscribe (w : World) (key : Str) (sub : Option ℕ) :
    (w.unsubscribe key sub).ledger = w.ledger.unsubscribe key sub := by
  cases sub <;> rfl

@[simp] theorem ledger_clearJoinSub (w : World) (v : ℕ) :
    (w.clearJoinSub v).ledger = w.ledger.clearJoinSub v := ledger_setRoom ..

@[simp] theorem ledger_resolve (w : World) (v : ℕ) (value : Bool) :
    (w.resolve v value).ledger = w.ledger.resolve v value := by
  cases h : (w.waits v).promise with
  | none => simp [World.resolve, Ledger.resolve, h]; rfl
  | some b => simp [World.resolve, Ledger.resolve, h]

theorem ledger_rejoined {w : World} {v : ℕ} {client : SimpleClient}
    (h : client.id = (w.waits v).clientId) : (w.rejoined v client).ledger = w.ledger.rejoined v := by
  unfold World.rejoined
  rw [if_neg (not_not.2 h)]
  simp [Ledger.rejoined]

theorem ledger_reconnectTimeout (w : World) (v : ℕ) :
    (w.reconnectTimeout v).ledger = w.ledger.reconnectTimeout v := by
  simp only [World.reconnectTimeout, ledger_clearJoinSub, ledger_resolve, ledger_touch]
  rw [touch_rooms, touch_toStores]
  rfl

@[simp] theorem ledger_finishDispose (w : World) (r : RoomRef) :
    (finishDispose w r).ledger = w.ledger.finishDispose r := by
  simp only [finishDispose, ledger_setRoom, ledger_unsubscribe, touch_rooms]
  have removed : ∀ w' : World, ∀ roomId : Str,
      ({ w' with storage := RoomFetcher.removeRoom w'.storage roomId } : World).ledger =
        { w'.ledger with storage := RoomFetcher.removeRoom w'.ledger.storage roomId } :=
    fun _ _ => rfl
  rw [removed, ledger_cancel, ledger_touch]
  rfl

@[simp] theorem ledger_onRoomDisposed (w : World) (r : RoomRef) :
    (onRoomDisposed w r).ledger = w.ledger.onRoomDisposed r := by
  rw [← ledger_touch w r]
  unfold onRoomDisposed Ledger.onRoomDisposed
  generalize w.touch r = w
  simp only [ledger_setRoom, ledger_lives, ledger_toStores]
  cases w.managingRooms.lookup (w.rooms r).roomId with
  | none => rfl
  | some r₀ =>
    have erased := ledger_setRoom w r₀ { w.rooms r₀ with erased := true }
    exact congrArg (fun k : Ledger => Ledger.setLife
      { k with managingRooms := k.managingRooms.erase (w.rooms r).roomId } r
      { k.lives r with stage := .gone }) erased

@[simp] theorem ledger_addClient (w : World) (r : RoomRef) (client : SimpleClient) :
    (addClient w r client).ledger = w.ledger.addMember r client := by
  simp [addClient, Ledger.addMember, Room.addMember]

theorem ledger_listen (w : World) (r : RoomRef) (id : ℕ) (callback : JoinCallback) :
    (w.setRoom r { w.rooms r with
      onJoinListeners := (w.rooms r).onJoinListeners ++ [(id, callback)] }).ledger =
      w.ledger.listen r id callback := ledger_setRoom ..

@[simp] theorem ledger_allowReconnection (w : World) (r : RoomRef) (clientId : Str)
    (seconds : Int32) : (allowReconnection w r clientId seconds).ledger =
      w.ledger.allowReconnection r clientId seconds w.nextCallback :=
  congrArg (Ledger.mk _) (lives_update w.rooms r _)

@[simp] theorem ledger_subscribeRoom (w : World) (r : RoomRef) :
    (subscribeRoom w r).ledger = w.ledger.subscribeRoom r :=
  congrArg (Ledger.mk _) (lives_update w.rooms r _)

@[simp] theorem ledger_registerNewRoom (w : World) (r : RoomRef) (storage : MemoryStorage) :
    (registerNewRoom w r storage).ledger = w.ledger.registerNewRoom r storage :=
  ledger_setRoom ..

@[simp] theorem ledger_replyCreated (w : World) (r : RoomRef) (creator : Creator) :
    (replyCreated w r creator).ledger = w.ledger := by
  cases creator with
  | api => rfl
  | frame client requestId => exact ledger_sendFrameToClient ..

theorem ledger_endOp (w : World) (sessionId : Str) :
    (endOp w sessionId).ledger = w.ledger.endOp sessionId := by
  unfold endOp Ledger.endOp
  simp only [ledger_toStores]
  cases w.sessions.lookup sessionId with
  | none => rfl
  | some session =>
    obtain ⟨client, phase⟩ := session
    cases phase <;> rfl

def leaveOf (r : RoomRef) (client : SimpleClient) (intentional : Bool) (left : List ℕ) : List Cmd :=
  [.callLeaveListeners r client intentional left, .callHook r (.onLeave client intentional),
    .disposeIfEmpty r]

theorem removeClient_cases (w : World) (r : RoomRef) (sessionId : Str) (intentional : Bool) :
    (removeClient w r sessionId intentional).1.ledger = w.ledger.eraseMember r sessionId ∧
      (((w.ledger.lives r).member sessionId = none ∧
          (removeClient w r sessionId intentional).2 = []) ∨
        ∃ client left, (w.ledger.lives r).member sessionId = some client ∧
          (removeClient w r sessionId intentional).2 = leaveOf r client intentional left) := by
  unfold removeClient
  simp only [touch_rooms]
  cases h : (w.rooms r).member sessionId with
  | none =>
    have absent : (w.rooms r).clients.eraseP (fun c => decide (c.sessionId = sessionId)) =
        (w.rooms r).clients := List.eraseP_of_forall_not (List.find?_eq_none.1 h)
    refine ⟨?_, .inl ⟨h, rfl⟩⟩
    simp only [ledger_touch, Ledger.eraseMember, ledger_lives, absent]
    exact (congrArg (Ledger.mk _) (Function.update_eq_self r _)).symm
  | some client =>
    exact ⟨by simp [Ledger.eraseMember, Room.eraseMember], .inr ⟨client, _, h, rfl⟩⟩

theorem dispose_cases (w : World) (r : RoomRef) (cause : Cause) :
    (dispose w r cause).1.ledger = w.ledger.dispose r cause ∧
      (dispose w r cause).2 = if (w.ledger.lives r).disposing then []
        else [.disposeLoop r ((w.ledger.lives r).clients.map SimpleClient.sessionId)] := by
  cases h : (w.rooms r).disposing <;> simp [Blueboat.dispose, Ledger.dispose, h]

end Blueboat
