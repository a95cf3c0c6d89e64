import Blueboat.Ledger

set_option autoImplicit false

/-! What one command does: to the ledger, and which commands it leaves to do. -/
namespace Blueboat

open Protocol LockMachine

def Hook.isCreate : Hook → Bool
  | .onCreate _ => true
  | _ => false

def Cmd.family : Cmd → Option RoomRef
  | .callHook r _ => some r
  | .inHook r _ => some r
  | .callLeaveListeners r .. => some r
  | .disposeIfEmpty r => some r
  | .disposeLoop r _ => some r
  | .finishDispose r => some r
  | .onRoomDisposed r => some r
  | _ => none

def Cmd.withdraws : Cmd → Option RoomRef
  | .disposeLoop r _ => some r
  | .finishDispose r => some r
  | .onRoomDisposed r => some r
  | _ => none

/-- The commands that handle a frame or the end of a connection; a stack has one of them at most. -/
def Cmd.front : Cmd → Bool
  | .dispatch .. => true
  | .handleClientDisconnect _ => true
  | .disconnected _ => true
  | _ => false

def Cmd.makes : Cmd → Option RoomRef
  | .created r _ _ => some r
  | _ => none

/-- The commands that a step may leave in place of its own although it leaves the ledger as it was. -/
inductive Child (w : World) : Cmd → Cmd → Prop where
  | message {client : SimpleClient} {isBinary : Bool} {payload event : Str} {data : Json} :
    Child w (.dispatch client isBinary payload) (.handleClientMessage client event data)
  | goodbye {client : SimpleClient} {isBinary : Bool} {payload : Str} :
    Child w (.dispatch client isBinary payload) (.handleClientDisconnect client.sessionId)
  | rethrow {client : SimpleClient} {event : Str} {data : Json} {x : Exn} :
    Child w (.handleClientMessage client event data) (.rethrow x)
  | catchCreate {client : SimpleClient} {event requestId : Str} {data : Json} :
    Child w (.handleClientMessage client event data) (.catchCreate client requestId)
  | create {client : SimpleClient} {event name override : Str} {data options : Json}
      {creator : Creator} : Child w (.handleClientMessage client event data)
        (.createNewRoom client name options override creator)
  | join {client : SimpleClient} {event roomId : Str} {data data' : Json} :
    Child w (.handleClientMessage client event data) (.joinRoom client roomId data')
  | catchJoinRoom {client : SimpleClient} {event roomId : Str} {data : Json} :
    Child w (.handleClientMessage client event data) (.catchJoinRoom client roomId)
  | send {client : SimpleClient} {event room : Str} {data key content : Json} :
    Child w (.handleClientMessage client event data)
      (.publish room (messagePayload client key content))
  | left {sessionId : Str} :
    Child w (.handleClientDisconnect sessionId) (.publish PLAYER_LEFT (.str sessionId))
  | disconnected {sessionId : Str} :
    Child w (.handleClientDisconnect sessionId) (.disconnected sessionId)
  | publishJoin {client : SimpleClient} {roomId : Str} {data options : Json} :
    Child w (.joinRoom client roomId data) (.publish roomId (joinPayload client options))
  | deliver {key : Str} {payload : Json} :
    Child w (.publish key payload) (.deliver payload (w.handlersOf key))
  | next {payload : Json} {handler : Handler} {handlers : List Handler} :
    Child w (.deliver payload (handler :: handlers)) (.deliver payload handlers)
  | info {payload : Json} {r : RoomRef} {handlers : List Handler} :
    Child w (.deliver payload (.gameMessage r :: handlers)) (.publish REQUEST_INFO (w.rooms r).info)
  | message' {payload : Json} {r : RoomRef} {handlers : List Handler} {hook : Hook}
      (runs : hook.isCreate = false) :
    Child w (.deliver payload (.gameMessage r :: handlers)) (.callHook r hook)
  | addMember {payload options : Json} {r : RoomRef} {handlers : List Handler} {client : SimpleClient}
      (asks : roomMessage payload = .ok (.join client options)) :
    Child w (.deliver payload (.gameMessage r :: handlers)) (.addClient r client options)
  | catchJoin {payload : Json} {r : RoomRef} {handlers : List Handler} {client : SimpleClient} :
    Child w (.deliver payload (.gameMessage r :: handlers)) (.catchJoin r client)
  | disposeByIds {ids : List Str} : Child w .shutdown (.disposeByIds ids)
  | disposeNext {id : Str} {ids : List Str} : Child w (.disposeByIds (id :: ids)) (.disposeByIds ids)
  | enter {r : RoomRef} {hook : Hook} : Child w (.callHook r hook) (.inHook r hook)
  | stay {r : RoomRef} {hook : Hook} : Child w (.inHook r hook) (.inHook r hook)
  | joinListener {r : RoomRef} {client : SimpleClient} {listener : ℕ × JoinCallback}
      {left : List (ℕ × JoinCallback)} :
    Child w (.callJoinListeners r client (listener :: left)) (.callHook r (.joinListener client))
  | joinNext {r : RoomRef} {client : SimpleClient} {listener : ℕ × JoinCallback}
      {left : List (ℕ × JoinCallback)} :
    Child w (.callJoinListeners r client (listener :: left)) (.callJoinListeners r client left)
  | leaveListener {r : RoomRef} {client : SimpleClient} {intentional : Bool} {listener : ℕ}
      {left : List ℕ} : Child w (.callLeaveListeners r client intentional (listener :: left))
        (.callHook r (.leaveListener client intentional))
  | leaveNext {r : RoomRef} {client : SimpleClient} {intentional : Bool} {listener : ℕ}
      {left : List ℕ} : Child w (.callLeaveListeners r client intentional (listener :: left))
        (.callLeaveListeners r client intentional left)

/-- The commands that call `remove_client`, with its arguments and what they do afterwards. -/
inductive Removes : Cmd → Answer → RoomRef → Str → Bool → List Cmd → Prop where
  | playerLeft {payload : Json} {r : RoomRef} {handlers : List Handler} {sessionId : Str} {a : Answer}
      (reads : payload.getString = .ok sessionId) :
    Removes (.deliver payload (.playerLeft r :: handlers)) a r sessionId false
      [.deliver payload handlers]
  | hook {r : RoomRef} {hook : Hook} {sessionId : Str} :
    Removes (.inHook r hook) (.removeFromRoom sessionId) r sessionId true [.inHook r hook]
  | loop {r : RoomRef} {sessionId : Str} {left : List Str} {a : Answer} :
    Removes (.disposeLoop r (sessionId :: left)) a r sessionId true [.disposeLoop r left]

/-- The commands that call `dispose`, with its room and what they do afterwards. -/
inductive Disposes (w : World) : Cmd → Answer → RoomRef → Cause → List Cmd → Prop where
  | hook {r r' : RoomRef} {hook : Hook} (made : r' < w.nextRoom) :
    Disposes w (.inHook r hook) (.dispose r') r' .hook [.inHook r hook]
  | shutdown {id : Str} {ids : List Str} {r : RoomRef} {a : Answer}
      (managed : w.managingRooms.lookup id = some r) :
    Disposes w (.disposeByIds (id :: ids)) a r .shutdown [.disposeByIds ids]
  | lastLeave {r : RoomRef} {a : Answer} (empty : (w.rooms r).clients = []) :
    Disposes w (.disposeIfEmpty r) a r .lastLeave []

def snapshotUtf8 (w : World) (r : RoomRef) (client : SimpleClient) : Bool :=
  (snapshotOf w r client).toJson.utf8

section
variable (M : MsgpackC) (J : JsonText)

/-- What a hook may write to the storage. -/
inductive Stores.Writes (k : Stores) (roomId : Str) : MemoryStorage → Prop where
  | metadata {storage : MemoryStorage} {metadata : Json}
      (set : RoomFetcher.setRoomMetadata J k.storage k.now roomId metadata = .ok storage) :
    Writes k roomId storage
  | gameValues {storage : MemoryStorage} {values : Json}
      (set : GameValues.setAll J k.storage k.now values = .ok storage) : Writes k roomId storage

inductive Effect (w : World) : Cmd → Answer → Out → Prop where
  | still {cmd : Cmd} {a : Answer} {o : Out} (same : o.world.ledger = w.ledger)
      (children : ∀ c ∈ o.push, Child w cmd c)
      (once : o.push.countP Cmd.front ≤ 1)
      (raises : o.exn.isSome = true → cmd.family = none ∨ ∃ r hook, cmd = .inHook r hook)
      (parks : o.parks = true → cmd.family = none)
      (keeps : cmd.withdraws = none) : Effect w cmd a o
  | purged {client : SimpleClient} {name override : Str} {options : Json} {creator : Creator}
      {a : Answer} {w' : World} {x : Exn}
      (ledger : w'.ledger = { w.ledger with storage := w.storage.purge w.now }) :
    Effect w (.createNewRoom client name options override creator) a (.raise w' x [])
  | birth {client : SimpleClient} {name override roomId : Str} {options : Json} {creator : Creator}
      {id₁ id₂ id₃ : Except Exn Str} {factory : Option Exn} {w' : World} {init : Json}
      (chosen : newRoomId (RoomFetcher.getListOfRooms w.storage w.now) override [id₁, id₂, id₃] =
        .ok roomId)
      (ledger : w'.ledger = w.ledger.birth roomId) :
    Effect w (.createNewRoom client name options override creator) (.create id₁ id₂ id₃ factory)
      (.go w' [.callHook w.nextRoom (.onCreate init), .created w.nextRoom client creator])
  | registered {r : RoomRef} {client : SimpleClient} {creator : Creator} {a : Answer} {w' : World}
      {storage : MemoryStorage}
      (added : RoomFetcher.addRoom J w.storage w.now (snapshotOf w r client) = .ok storage)
      (ledger : w'.ledger = (w.ledger.subscribeRoom r).registerNewRoom r storage) :
    Effect w (.created r client creator) a (.go w' [])
  | unrecorded {r : RoomRef} {client : SimpleClient} {creator : Creator} {a : Answer} {w' : World}
      {x : Exn} (refused : RoomFetcher.addRoom J w.storage w.now (snapshotOf w r client) = .error x)
      (ledger : w'.ledger = w.ledger.subscribeRoom r) :
    Effect w (.created r client creator) a (.raise w' x [])
  | openInfo {roomId : Str} {a : Answer} {w' : World}
      (ledger : w'.ledger = w.ledger.openInfo w.nextInfo) :
    Effect w (.subscribeInfo roomId) a
      (.go w' [.publish roomId infoPayload, .waitInfo, .unsubscribeInfo w.nextListener])
  | closeInfo {listener : ℕ} {a : Answer} {w' : World}
      (ledger : w'.ledger = w.ledger.unsubscribe REQUEST_INFO (some listener)) :
    Effect w (.unsubscribeInfo listener) a (.go w' [])
  | removed {cmd : Cmd} {a : Answer} {r : RoomRef} {sessionId : Str} {intentional : Bool}
      {left : List Cmd} {w' : World} {push : List Cmd}
      (calls : Removes cmd a r sessionId intentional left)
      (ledger : w'.ledger = w.ledger.eraseMember r sessionId)
      (leaves : ((w.rooms r).toLife.member sessionId = none ∧ push = []) ∨
        ∃ client listeners, (w.rooms r).toLife.member sessionId = some client ∧
          push = leaveOf r client intentional listeners) :
    Effect w cmd a (.go w' (push ++ left))
  | disposed {cmd : Cmd} {a : Answer} {r : RoomRef} {cause : Cause} {left : List Cmd} {w' : World}
      {push : List Cmd} (calls : Disposes w cmd a r cause left)
      (ledger : w'.ledger = w.ledger.dispose r cause)
      (starts : push = if (w.rooms r).disposing then []
        else [.disposeLoop r ((w.rooms r).clients.map SimpleClient.sessionId)]) :
    Effect w cmd a (.go w' (push ++ left))
  | autoDisposed {task : Task} {a : Answer} {r : RoomRef} {w' : World} {push : List Cmd}
      (callback : task.callback = .autoDispose r)
      (ledger : w'.ledger = (w.ledger.dispose r .timer).started task)
      (starts : push = if (w.rooms r).disposing then []
        else [.disposeLoop r ((w.rooms r).clients.map SimpleClient.sessionId)]) :
    Effect w (.timerBody task) a (.go w' push)
  | timedOut {task : Task} {a : Answer} {v : ℕ} {w' : World} (callback : task.callback = .reconnect v)
      (ledger : w'.ledger = (w.ledger.reconnectTimeout v).started task) :
    Effect w (.timerBody task) a (.go w' [])
  | granted {r : RoomRef} {hook : Hook} {clientId : Str} {seconds : Int32} {w' : World} {id : ℕ}
      (lives : (w.rooms r).disposing = false)
      (ledger : w'.ledger = w.ledger.allowReconnection r clientId seconds id) :
    Effect w (.inHook r hook) (.allowReconnection clientId seconds)
      (.park w' [.futureGet w.nextWait, .inHook r hook])
  | stored {r : RoomRef} {hook : Hook} {a : Answer} {w' : World} {storage : MemoryStorage}
      (writes : Stores.Writes J w.toStores (w.rooms r).roomId storage)
      (ledger : w'.ledger = { w.ledger with storage := storage }) :
    Effect w (.inHook r hook) a (.go w' [.inHook r hook])
  | listened {r : RoomRef} {hook : Hook} {a : Answer} {w' : World} {id : ℕ}
      (ledger : w'.ledger = w.ledger.listen r id .app) :
    Effect w (.inHook r hook) a (.go w' [.inHook r hook])
  | admitted {r : RoomRef} {client : SimpleClient} {options : Json} {a : Answer} {w' : World}
      (ledger : w'.ledger = w.ledger.addMember r client) :
    Effect w (.addClient r client options) a
      (.go w' [.callJoinListeners r client (w.rooms r).onJoinListeners,
        .callHook r (.onJoin client options)])
  | rejoined {r : RoomRef} {client : SimpleClient} {id v : ℕ} {left : List (ℕ × JoinCallback)}
      {a : Answer} {w' : World} (listens : (id, .wait v) ∈ (w.rooms r).onJoinListeners)
      (ledger : w'.ledger = w.ledger.rejoined v) :
    Effect w (.callJoinListeners r client ((id, .wait v) :: left)) a
      (.go w' [.callJoinListeners r client left])
  | emptied {r : RoomRef} {a : Answer} {w' : World} (ledger : w'.ledger = w.ledger) :
    Effect w (.disposeLoop r []) a (.go w' [.callHook r .beforeDispose, .finishDispose r])
  | withdrawn {r : RoomRef} {a : Answer} {w' : World}
      (ledger : w'.ledger = w.ledger.finishDispose r) :
    Effect w (.finishDispose r) a (.go w' [.callHook r .onDispose, .onRoomDisposed r])
  | gone {r : RoomRef} {a : Answer} {w' : World}
      (ledger : w'.ledger = w.ledger.onRoomDisposed r) :
    Effect w (.onRoomDisposed r) a (.go w' [])
  | ended {sessionId : Str} {a : Answer} {w' : World}
      (ledger : w'.ledger = w.ledger.endOp sessionId) : Effect w (.endOp sessionId) a (.go w' [])

/-- The commands that neither push nor change anything the ledger sees. -/
theorem Effect.idle {w : World} {cmd : Cmd} {a : Answer} {o : Out}
    (same : o.world.ledger = w.ledger) (push : o.push = [] := by rfl)
    (family : cmd.family = none := by rfl) (keeps : cmd.withdraws = none := by rfl) :
    Effect J w cmd a o :=
  .still same (by simp [push]) (by simp [push]) (fun _ => .inl family) (fun _ => family) keeps

/-- A command outside the families that pushes only its children. -/
theorem Effect.plain {w : World} {cmd : Cmd} {a : Answer} {o : Out}
    (same : o.world.ledger = w.ledger) (children : ∀ c ∈ o.push, Child w cmd c)
    (once : o.push.countP Cmd.front ≤ 1 := by exact Nat.le_of_ble_eq_true rfl)
    (family : cmd.family = none := by rfl) (keeps : cmd.withdraws = none := by rfl) :
    Effect J w cmd a o :=
  .still same children once (fun _ => .inl family) (fun _ => family) keeps

theorem effect_createNewRoom {w : World} {client : SimpleClient} {name override : Str}
    {options : Json} {creator : Creator} {a : Answer} {o : Out}
    (h : exec M J w (.createNewRoom client name options override creator) a = some o) :
    Effect J w (.createNewRoom client name options override creator) a o := by
  cases a with
  | create id₁ id₂ id₃ factory =>
    obtain rfl := Option.some.inj h
    unfold createNewRoom
    cases w.registeredRooms.lookup name with
    | none => exact .idle J rfl
    | some init =>
      dsimp only
      cases chosen : newRoomId (RoomFetcher.getListOfRooms w.storage w.now) override
          [id₁, id₂, id₃] with
      | error x => exact .purged rfl
      | ok roomId =>
        cases factory with
        | some x => exact .purged rfl
        | none =>
          exact .birth chosen (congrArg (Ledger.mk _) (lives_update w.rooms w.nextRoom _))
  | _ => cases h

theorem effect_created {w : World} {r : RoomRef} {client : SimpleClient} {creator : Creator}
    {a : Answer} {o : Out} (h : exec M J w (.created r client creator) a = some o) :
    Effect J w (.created r client creator) a o := by
  obtain rfl := Option.some.inj h
  have snapshot : snapshotOf (subscribeRoom w r) r client = snapshotOf w r client := by
    simp [snapshotOf, subscribeRoom, World.setRoom]
  unfold created
  simp only [snapshot]
  have same : RoomFetcher.addRoom J (subscribeRoom w r).storage (subscribeRoom w r).now
      (snapshotOf w r client) = RoomFetcher.addRoom J w.storage w.now (snapshotOf w r client) := rfl
  rw [same]
  cases added : RoomFetcher.addRoom J w.storage w.now (snapshotOf w r client) with
  | error x => exact .unrecorded added (by simp)
  | ok storage => exact .registered added (by simp)

theorem effect_dispatch {w : World} {client : SimpleClient} {isBinary : Bool} {payload : Str}
    {a : Answer} {o : Out} (h : exec M J w (.dispatch client isBinary payload) a = some o) :
    Effect J w (.dispatch client isBinary payload) a o := by
  obtain rfl := Option.some.inj h
  unfold dispatch
  cases Sio.parseFrame M J isBinary payload with
  | error x => exact .idle J rfl
  | ok frame =>
    dsimp only
    cases frame.kind with
    | Ping => cases w.connections.lookup client.sessionId <;> exact .idle J rfl
    | Disconnect =>
      exact .plain J rfl (by simpa using Child.goodbye)
    | Event =>
      exact .plain J rfl (by simpa using Child.message)
    | _ => exact .idle J rfl

theorem effect_handleClientMessage {w : World} {client : SimpleClient} {event : Str} {data : Json}
    {a : Answer} {o : Out} (h : exec M J w (.handleClientMessage client event data) a = some o) :
    Effect J w (.handleClientMessage client event data) a o := by
  obtain rfl := Option.some.inj h
  unfold handleClientMessage
  generalize (if data.isObject = true then data else Json.obj []) = fields
  dsimp only
  split
  · split
    · exact .idle J rfl
    · exact .idle J rfl
    · split
      · exact .idle J rfl
      · cases fields.valueJson (lit "options") (.obj []) with
        | error x => exact .plain J rfl (by simp [Child.rethrow, Child.catchCreate])
        | ok options => exact .plain J rfl (by simp [Child.create, Child.catchCreate])
  · split
    · split
      · exact .idle J rfl
      · split
        · exact .idle J rfl
        · exact .plain J rfl (by simp [Child.join, Child.catchJoinRoom])
    · split
      · split
        · exact .idle J rfl
        · split
          · exact .idle J rfl
          · split
            · exact .idle J rfl
            · split
              · exact .idle J rfl
              · exact .plain J rfl (by simp [Child.send])
      · exact .idle J rfl

theorem effect_joinRoom {w : World} {client : SimpleClient} {roomId : Str} {data : Json}
    {a : Answer} {o : Out} (h : exec M J w (.joinRoom client roomId data) a = some o) :
    Effect J w (.joinRoom client roomId data) a o := by
  obtain rfl := Option.some.inj h
  unfold joinRoom
  split
  · exact .idle J rfl
  · split
    · exact .idle J rfl
    · exact .plain J rfl (by simp [Child.publishJoin])

theorem effect_gameMessage {w : World} {payload : Json} {r : RoomRef} {handlers : List Handler}
    {a : Answer} {o : Out}
    (h : exec M J w (.deliver payload (.gameMessage r :: handlers)) a = some o) :
    Effect J w (.deliver payload (.gameMessage r :: handlers)) a o := by
  obtain rfl := Option.some.inj h
  unfold handle
  dsimp only
  cases asks : roomMessage payload with
  | error x => exact .idle J rfl
  | ok message =>
    cases message with
    | ignored => exact .plain J rfl (by simp [Child.next])
    | requestInfo => exact .plain J (ledger_touch w r) (by simp [Child.next, Child.info])
    | external key data =>
      have hook : Child w (.deliver payload (.gameMessage r :: handlers))
          (.callHook r (.onExternalMessage key data)) := .message' rfl
      exact .plain J rfl (by simp [Child.next, hook])
    | join client options =>
      have hook : Child w (.deliver payload (.gameMessage r :: handlers))
          (.callHook r (.canClientJoin client options)) := .message' rfl
      exact .plain J rfl (by simp [Child.next, hook, Child.addMember asks, Child.catchJoin])
    | message client =>
      dsimp only
      cases (w.rooms r).member client.sessionId with
      | none => exact .plain J (ledger_touch w r) (by simp [Child.next])
      | some sender =>
        cases messageArgs payload with
        | error x => exact .idle J (ledger_touch w r)
        | ok args =>
          have hook : Child w (.deliver payload (.gameMessage r :: handlers))
              (.callHook r (.onMessage sender args.1 args.2)) := .message' rfl
          exact .plain J (ledger_touch w r) (by simp [Child.next, hook])

theorem effect_deliver {w : World} {payload : Json} {handlers : List Handler} {a : Answer} {o : Out}
    (h : exec M J w (.deliver payload handlers) a = some o) :
    Effect J w (.deliver payload handlers) a o := by
  cases handlers with
  | nil => obtain rfl := Option.some.inj h; exact .idle J rfl
  | cons handler handlers =>
    cases handler with
    | infoRequest n =>
      obtain rfl := Option.some.inj h
      exact .plain J rfl (by simp [handle, Child.next])
    | playerLeft r =>
      obtain rfl := Option.some.inj h
      unfold handle
      dsimp only
      cases reads : payload.getString with
      | error x => exact .idle J rfl
      | ok sessionId =>
        obtain ⟨ledger, leaves⟩ := removeClient_cases w r sessionId false
        exact .removed (.playerLeft reads) ledger leaves
    | gameMessage r => exact effect_gameMessage M J h

theorem effect_callJoinListeners {w : World} {r : RoomRef} {client : SimpleClient}
    {left : List (ℕ × JoinCallback)} {a : Answer} {o : Out}
    (h : exec M J w (.callJoinListeners r client left) a = some o) :
    Effect J w (.callJoinListeners r client left) a o := by
  cases left with
  | nil => obtain rfl := Option.some.inj h; exact .idle J (ledger_touch w r)
  | cons listener left =>
    obtain rfl := Option.some.inj h
    obtain ⟨id, callback⟩ := listener
    unfold joinListener
    simp only [touch_rooms]
    split
    · rename_i listens
      cases callback with
      | app => exact .plain J (ledger_touch w r) (by simp [Child.joinListener, Child.joinNext])
      | wait v =>
        by_cases same : client.id = (w.waits v).clientId
        · refine .rejoined listens ?_
          rw [ledger_rejoined (by simpa using same), ledger_touch]
        · refine .plain J ?_ (by simp [Child.joinNext])
          simp [World.rejoined, same]
    · exact .plain J (ledger_touch w r) (by simp [Child.joinNext])

theorem effect_timerBody {w : World} {task : Task} {a : Answer} {o : Out}
    (h : exec M J w (.timerBody task) a = some o) : Effect J w (.timerBody task) a o := by
  obtain rfl := Option.some.inj h
  unfold timerBody
  dsimp only
  cases callback : task.callback with
  | autoDispose r =>
    obtain ⟨ledger, push⟩ :=
      dispose_cases { w with working := w.working.erase task } r .timer
    dsimp only [goAfter]
    rw [List.append_nil]
    refine .autoDisposed callback (ledger.trans ?_) push
    exact Ledger.started_dispose w.ledger task r .timer
  | reconnect v =>
    exact .timedOut callback ((ledger_reconnectTimeout _ v).trans
      (Ledger.started_reconnectTimeout w.ledger task v))

theorem effect_inHook {w : World} {r : RoomRef} {hook : Hook} {a : Answer} {o : Out}
    (h : exec M J w (.inHook r hook) a = some o) : Effect J w (.inHook r hook) a o := by
  have quiet : ∀ {o : Out}, o.world.ledger = w.ledger → o.parks = false →
      (∀ c ∈ o.push, c = .inHook r hook) → Effect J w (.inHook r hook) a o := by
    intro o same goes push
    have fronts : o.push.countP Cmd.front = 0 :=
      List.countP_eq_zero.2 fun c hc => by rw [push c hc]; simp [Cmd.front]
    exact .still same (fun c hc => by rw [push c hc]; exact .stay) (by simp [fronts])
      (fun _ => .inr ⟨r, hook, rfl⟩) (by simp [goes]) rfl
  cases a with
  | ret => obtain rfl := Option.some.inj h; exact quiet rfl rfl (by simp)
  | throw x => obtain rfl := Option.some.inj h; exact quiet rfl rfl (by simp)
  | dispose r' =>
    simp only [exec, inHook] at h
    split at h
    · rename_i made
      obtain rfl := Option.some.inj h
      obtain ⟨ledger, push⟩ := dispose_cases w r' .hook
      exact .disposed (.hook made) ledger push
    · cases h
  | removeFromRoom sessionId =>
    obtain rfl := Option.some.inj h
    obtain ⟨ledger, leaves⟩ := removeClient_cases w r sessionId true
    exact .removed .hook ledger leaves
  | allowReconnection clientId seconds =>
    simp only [exec, inHook, touch_rooms] at h
    split at h
    · obtain rfl := Option.some.inj h; exact quiet (ledger_touch w r) rfl (by simp)
    · rename_i lives
      obtain rfl := Option.some.inj h
      rw [touch_toStores]
      exact .granted (by simpa using lives) (by rw [ledger_allowReconnection, ledger_touch])
  | send sessionId key data =>
    obtain rfl := Option.some.inj h; exact quiet (by simp) rfl (by simp)
  | setState state =>
    obtain rfl := Option.some.inj h
    refine quiet ?_ rfl (by simp)
    simp only [Outcome.world_go, ledger_setRoom, ledger_touch, touch_rooms]
    exact congrArg (Ledger.mk _) (Function.update_eq_self r _)
  | setMetadata metadata =>
    simp only [exec, inHook, touch_rooms, touch_toStores] at h
    cases set : RoomFetcher.setRoomMetadata J w.storage w.now (w.rooms r).roomId metadata with
    | error x =>
      simp only [set] at h
      obtain rfl := Option.some.inj h
      exact quiet (ledger_touch w r) rfl (by simp)
    | ok storage =>
      simp only [set] at h
      obtain rfl := Option.some.inj h
      refine .stored (.metadata set) ?_
      simp only [ledger_setRoom]
      simp [World.ledger, Ledger.setLife]
  | setGameValues values =>
    simp only [exec, inHook] at h
    cases set : GameValues.setAll J w.storage w.now values with
    | error x =>
      simp only [set] at h
      obtain rfl := Option.some.inj h
      exact quiet rfl rfl (by simp)
    | ok storage =>
      simp only [set] at h
      obtain rfl := Option.some.inj h
      exact .stored (.gameValues set) rfl
  | addJoinListener =>
    obtain rfl := Option.some.inj h
    exact .listened ((ledger_listen (w.touch r) r _ .app).trans (by rw [ledger_touch]))
  | addLeaveListener =>
    obtain rfl := Option.some.inj h
    refine quiet ?_ rfl (by simp)
    refine (ledger_setRoom (w.touch r) r _).trans ?_
    rw [ledger_touch, touch_rooms]
    exact congrArg (Ledger.mk _) (Function.update_eq_self r _)
  | _ => cases h

theorem exec_effect {w : World} {cmd : Cmd} {a : Answer} {o : Out}
    (h : exec M J w cmd a = some o) : Effect J w cmd a o := by
  cases cmd with
  | createNewRoom => exact effect_createNewRoom M J h
  | created => exact effect_created M J h
  | dispatch => exact effect_dispatch M J h
  | handleClientMessage => exact effect_handleClientMessage M J h
  | joinRoom => exact effect_joinRoom M J h
  | deliver => exact effect_deliver M J h
  | callJoinListeners => exact effect_callJoinListeners M J h
  | timerBody => exact effect_timerBody M J h
  | inHook => exact effect_inHook M J h
  | openConnection | rethrow | catchCreate | catchJoinRoom | disconnected | boundary | futureGet
  | catchJoin | workerDone | waitInfo =>
    obtain rfl := Option.some.inj h
    exact .idle J rfl
  | recordActivity sessionId =>
    simp only [exec] at h
    split at h <;> (obtain rfl := Option.some.inj h; exact .idle J rfl)
  | endOp sessionId => obtain rfl := Option.some.inj h; exact .ended (ledger_endOp w sessionId)
  | registerRoom name options =>
    simp only [exec] at h
    split at h <;> (obtain rfl := Option.some.inj h; exact .idle J rfl)
  | handleClientDisconnect sessionId =>
    obtain rfl := Option.some.inj h
    exact .plain J rfl (by simp [Child.left, Child.disconnected])
  | publish key payload =>
    obtain rfl := Option.some.inj h
    exact .plain J rfl (by simp [Child.deliver])
  | subscribeInfo roomId => obtain rfl := Option.some.inj h; exact .openInfo rfl
  | unsubscribeInfo listener => obtain rfl := Option.some.inj h; exact .closeInfo rfl
  | shutdown =>
    cases a with
    | order ids =>
      simp only [exec] at h
      split at h
      · obtain rfl := Option.some.inj h
        exact .plain J rfl (by simp [Child.disposeByIds])
      · cases h
    | _ => cases h
  | disposeByIds ids =>
    cases ids with
    | nil => obtain rfl := Option.some.inj h; exact .idle J rfl
    | cons id ids =>
      simp only [exec] at h
      cases managed : w.managingRooms.lookup id with
      | none =>
        simp only [managed] at h
        obtain rfl := Option.some.inj h
        exact .plain J rfl (by simp [Child.disposeNext])
      | some r =>
        simp only [managed] at h
        obtain rfl := Option.some.inj h
        obtain ⟨ledger, push⟩ := dispose_cases w r .shutdown
        exact .disposed (.shutdown managed) ledger push
  | callHook r hook =>
    obtain rfl := Option.some.inj h
    exact .still (ledger_touch w r) (by simpa using Child.enter)
      (Nat.le_of_ble_eq_true rfl) (by simp) (by simp) rfl
  | addClient r client options =>
    obtain rfl := Option.some.inj h
    have same : ((addClient w r client).rooms r).onJoinListeners =
        (w.rooms r).onJoinListeners := by
      simp [addClient, World.setRoom, Room.addMember, World.sendTo]
    rw [same]
    exact .admitted (ledger_addClient w r client)
  | callLeaveListeners r client intentional left =>
    cases left with
    | nil =>
      obtain rfl := Option.some.inj h
      exact .still (ledger_touch w r) (by simp) (by simp) (by simp) (by simp) rfl
    | cons listener left =>
      obtain rfl := Option.some.inj h
      exact .still (ledger_touch w r) (by simp [Child.leaveListener, Child.leaveNext])
        (Nat.le_of_ble_eq_true rfl) (by simp) (by simp) rfl
  | disposeIfEmpty r =>
    simp only [exec] at h
    split at h
    · rename_i empty
      obtain rfl := Option.some.inj h
      obtain ⟨ledger, push⟩ := dispose_cases w r .lastLeave
      exact .disposed (.lastLeave empty) ledger push
    · obtain rfl := Option.some.inj h
      exact .still (ledger_touch w r) (by simp) (by simp) (by simp) (by simp) rfl
  | disposeLoop r left =>
    cases left with
    | nil => obtain rfl := Option.some.inj h; exact .emptied (ledger_touch w r)
    | cons sessionId left =>
      obtain rfl := Option.some.inj h
      obtain ⟨ledger, leaves⟩ := removeClient_cases w r sessionId true
      exact .removed .loop ledger leaves
  | finishDispose r =>
    obtain rfl := Option.some.inj h; exact .withdrawn (ledger_finishDispose w r)
  | onRoomDisposed r =>
    obtain rfl := Option.some.inj h; exact .gone (ledger_onRoomDisposed w r)

end

inductive Tells (w : World) (k' : Ledger) : Cmd → Answer → Prop where
  | same {cmd : Cmd} {a : Answer} (story : w.ledger.SameStory k') : Tells w k' cmd a
  | birth {client : SimpleClient} {name override roomId : Str} {options : Json} {creator : Creator}
      {a : Answer} (story : (w.ledger.birth roomId).SameStory k') :
    Tells w k' (.createNewRoom client name options override creator) a
  | removed {cmd : Cmd} {a : Answer} {r : RoomRef} {sessionId : Str} {intentional : Bool}
      {left : List Cmd} (calls : Removes cmd a r sessionId intentional left)
      (story : (w.ledger.eraseMember r sessionId).SameStory k') : Tells w k' cmd a
  | disposed {cmd : Cmd} {a : Answer} {r : RoomRef} {cause : Cause} {left : List Cmd}
      (calls : Disposes w cmd a r cause left)
      (story : (w.ledger.dispose r cause).SameStory k') : Tells w k' cmd a
  | autoDisposed {task : Task} {a : Answer} {r : RoomRef} (callback : task.callback = .autoDispose r)
      (story : (w.ledger.dispose r .timer).SameStory k') : Tells w k' (.timerBody task) a
  | admitted {r : RoomRef} {client : SimpleClient} {options : Json} {a : Answer}
      (story : (w.ledger.addMember r client).SameStory k') : Tells w k' (.addClient r client options) a
  | gone {r : RoomRef} {a : Answer} (story : (w.ledger.onRoomDisposed r).SameStory k') :
    Tells w k' (.onRoomDisposed r) a

theorem Effect.tells {J : JsonText} {w : World} {cmd : Cmd} {a : Answer} {o : Out}
    (h : Effect J w cmd a o) : Tells w o.world.ledger cmd a := by
  have told : ∀ {k k' : Ledger}, k' = k → k.SameStory k' := fun e => by rw [e]; exact .refl _
  cases h with
  | still same => exact .same (told same)
  | purged ledger | stored _ ledger | openInfo ledger | closeInfo ledger | emptied ledger =>
    have lives := congrArg Ledger.lives ledger
    exact .same (Ledger.sameStory_of_lives lives)
  | birth _ ledger => exact .birth (told ledger)
  | registered _ ledger =>
    exact .same (.trans ((Ledger.sameStory_subscribeRoom _ _).trans
      (Ledger.sameStory_registerNewRoom _ _ _)) (told ledger))
  | unrecorded _ ledger => exact .same (.trans (Ledger.sameStory_subscribeRoom _ _) (told ledger))
  | removed calls ledger => exact .removed calls (told ledger)
  | disposed calls ledger => exact .disposed calls (told ledger)
  | autoDisposed callback ledger =>
    have lives := congrArg Ledger.lives ledger
    exact .autoDisposed callback (Ledger.sameStory_of_lives lives)
  | timedOut _ ledger =>
    have lives := congrArg Ledger.lives ledger
    exact .same (.trans (Ledger.sameStory_reconnectTimeout _ _) (Ledger.sameStory_of_lives lives))
  | granted _ ledger =>
    exact .same (.trans (Ledger.sameStory_allowReconnection _ _ _ _ _) (told ledger))
  | listened ledger => exact .same (.trans (Ledger.sameStory_listen _ _ _ _) (told ledger))
  | admitted ledger => exact .admitted (told ledger)
  | rejoined _ ledger => exact .same (.trans (Ledger.sameStory_rejoined _ _) (told ledger))
  | withdrawn ledger => exact .same (.trans (Ledger.sameStory_finishDispose _ _) (told ledger))
  | gone ledger => exact .gone (told ledger)
  | ended ledger =>
    exact .same (.trans (Ledger.sameStory_of_lives (Ledger.endOp_lives _ _)) (told ledger))

/-- The commands that a step may leave to do, one by one. -/
inductive Pushed (w : World) : Cmd → Answer → Cmd → Prop where
  | child {cmd c : Cmd} {a : Answer} (child : Child w cmd c) : Pushed w cmd a c
  | leave {cmd c : Cmd} {a : Answer} {r : RoomRef} {sessionId : Str} {intentional : Bool}
      {left : List Cmd} {client : SimpleClient} {listeners : List ℕ}
      (calls : Removes cmd a r sessionId intentional left)
      (mem : c ∈ leaveOf r client intentional listeners) : Pushed w cmd a c
  | loop {r : RoomRef} {sessionId : Str} {left : List Str} {a : Answer} :
    Pushed w (.disposeLoop r (sessionId :: left)) a (.disposeLoop r left)
  | disposal {cmd : Cmd} {a : Answer} {r : RoomRef} {cause : Cause} {left : List Cmd}
      (calls : Disposes w cmd a r cause left) : Pushed w cmd a
        (.disposeLoop r ((w.rooms r).clients.map SimpleClient.sessionId))
  | autoDisposal {task : Task} {a : Answer} {r : RoomRef}
      (callback : task.callback = .autoDispose r) : Pushed w (.timerBody task) a
        (.disposeLoop r ((w.rooms r).clients.map SimpleClient.sessionId))
  | onCreate {client : SimpleClient} {name override : Str} {options init : Json} {creator : Creator}
      {a : Answer} : Pushed w (.createNewRoom client name options override creator) a
        (.callHook w.nextRoom (.onCreate init))
  | created {client : SimpleClient} {name override : Str} {options : Json} {creator : Creator}
      {a : Answer} : Pushed w (.createNewRoom client name options override creator) a
        (.created w.nextRoom client creator)
  | askInfo {roomId : Str} {a : Answer} :
    Pushed w (.subscribeInfo roomId) a (.publish roomId infoPayload)
  | waitInfo {roomId : Str} {a : Answer} : Pushed w (.subscribeInfo roomId) a .waitInfo
  | unsubscribeInfo {roomId : Str} {a : Answer} :
    Pushed w (.subscribeInfo roomId) a (.unsubscribeInfo w.nextListener)
  | futureGet {r : RoomRef} {hook : Hook} {a : Answer} :
    Pushed w (.inHook r hook) a (.futureGet w.nextWait)
  | joinListeners {r : RoomRef} {client : SimpleClient} {options : Json} {a : Answer} :
    Pushed w (.addClient r client options) a
      (.callJoinListeners r client (w.rooms r).onJoinListeners)
  | onJoin {r : RoomRef} {client : SimpleClient} {options : Json} {a : Answer} :
    Pushed w (.addClient r client options) a (.callHook r (.onJoin client options))
  | beforeDispose {r : RoomRef} {a : Answer} :
    Pushed w (.disposeLoop r []) a (.callHook r .beforeDispose)
  | finishDispose {r : RoomRef} {a : Answer} : Pushed w (.disposeLoop r []) a (.finishDispose r)
  | onDispose {r : RoomRef} {a : Answer} : Pushed w (.finishDispose r) a (.callHook r .onDispose)
  | onRoomDisposed {r : RoomRef} {a : Answer} : Pushed w (.finishDispose r) a (.onRoomDisposed r)

theorem mem_disposal {push : List Cmd} {running : Bool} {r : RoomRef} {members : List Str} {c : Cmd}
    (starts : push = if running then [] else [.disposeLoop r members]) (mem : c ∈ push) :
    c = .disposeLoop r members := by
  subst starts
  cases running with
  | true => cases mem
  | false => exact List.mem_singleton.1 mem

theorem Effect.pushed {J : JsonText} {w : World} {cmd : Cmd} {a : Answer} {o : Out}
    (h : Effect J w cmd a o) {c : Cmd} (mem : c ∈ o.push) : Pushed w cmd a c := by
  cases h with
  | still _ children => exact .child (children c mem)
  | removed calls _ leaves =>
    rcases List.mem_append.1 mem with mem | mem
    · rcases leaves with ⟨-, rfl⟩ | ⟨client, listeners, -, rfl⟩
      · cases mem
      · exact .leave calls mem
    · cases calls <;> obtain rfl := List.mem_singleton.1 mem
      · exact .child .next
      · exact .child .stay
      · exact .loop
  | disposed calls _ starts =>
    rcases List.mem_append.1 mem with mem | mem
    · obtain rfl := mem_disposal starts mem
      exact .disposal calls
    · cases calls with
      | hook => rw [List.mem_singleton.1 mem]; exact .child .stay
      | shutdown => rw [List.mem_singleton.1 mem]; exact .child .disposeNext
      | lastLeave => cases mem
  | autoDisposed callback _ starts =>
    obtain rfl := mem_disposal starts mem
    exact .autoDisposal callback
  | gone | ended | timedOut | closeInfo | unrecorded | registered | purged => cases mem
  | birth =>
    rcases List.mem_pair.1 mem with rfl | rfl
    · exact .onCreate
    · exact .created
  | openInfo =>
    rcases List.mem_cons.1 mem with rfl | mem
    · exact .askInfo
    · rcases List.mem_pair.1 mem with rfl | rfl
      · exact .waitInfo
      · exact .unsubscribeInfo
  | granted =>
    rcases List.mem_pair.1 mem with rfl | rfl
    · exact .futureGet
    · exact .child .stay
  | stored | listened =>
    obtain rfl := List.mem_singleton.1 mem
    exact .child .stay
  | admitted =>
    rcases List.mem_pair.1 mem with rfl | rfl
    · exact .joinListeners
    · exact .onJoin
  | rejoined =>
    obtain rfl := List.mem_singleton.1 mem
    exact .child .joinNext
  | emptied =>
    rcases List.mem_pair.1 mem with rfl | rfl
    · exact .beforeDispose
    · exact .finishDispose
  | withdrawn =>
    rcases List.mem_pair.1 mem with rfl | rfl
    · exact .onDispose
    · exact .onRoomDisposed

inductive Unwound (w : World) : Cmd → Exn → Answer → Out → Prop where
  | passed {cmd : Cmd} {x : Exn} {a : Answer} (makes : cmd.makes = none) :
    Unwound w cmd x a (.raise w x [])
  | caught {cmd : Cmd} {x : Exn} {a : Answer} {w' : World} (family : cmd.family = none)
      (same : w'.ledger = w.ledger) : Unwound w cmd x a (.go w' [])
  | handled {r : RoomRef} {hook : Hook} {x : Exn} :
    Unwound w (.inHook r hook) x .handle (.go w [.inHook r hook])
  | rolledBack {r : RoomRef} {client : SimpleClient} {creator : Creator} {x : Exn} {a : Answer}
      {w' : World} {push : List Cmd} (ledger : w'.ledger = w.ledger.dispose r .rollback)
      (starts : push = if (w.rooms r).disposing then []
        else [.disposeLoop r ((w.rooms r).clients.map SimpleClient.sessionId)]) :
    Unwound w (.created r client creator) x a (.go w' (push ++ [.rethrow x]))

theorem unwind_effect {w : World} {cmd : Cmd} {x : Exn} {a : Answer} {o : Out}
    (h : unwind w cmd x a = some o) : Unwound w cmd x a o := by
  cases cmd with
  | inHook r hook =>
    cases a with
    | handle => obtain rfl := Option.some.inj h; exact .handled
    | propagate => obtain rfl := Option.some.inj h; exact .passed rfl
    | _ => cases h
  | created r client creator =>
    obtain rfl := Option.some.inj h
    obtain ⟨ledger, push⟩ := dispose_cases w r .rollback
    exact .rolledBack ledger push
  | catchCreate client requestId =>
    cases x with
    | std what => obtain rfl := Option.some.inj h; exact .caught rfl (ledger_sendFrameToClient ..)
    | other => obtain rfl := Option.some.inj h; exact .passed rfl
  | catchJoinRoom client roomId =>
    cases x with
    | std what => obtain rfl := Option.some.inj h; exact .caught rfl (ledger_sendFrameToClient ..)
    | other => obtain rfl := Option.some.inj h; exact .passed rfl
  | catchJoin r client =>
    cases x with
    | std what =>
      obtain rfl := Option.some.inj h
      exact .caught rfl ((ledger_sendFrameToClient ..).trans (ledger_touch w r))
    | other => obtain rfl := Option.some.inj h; exact .passed rfl
  | boundary onlyStd =>
    simp only [unwind] at h
    split at h
    · obtain rfl := Option.some.inj h; exact .passed rfl
    · obtain rfl := Option.some.inj h; exact .caught rfl rfl
  | _ => obtain rfl := Option.some.inj h; exact .passed rfl

inductive Resumed (w : World) : Cmd → Exn → Cmd → Prop where
  | again {r : RoomRef} {hook : Hook} {x : Exn} : Resumed w (.inHook r hook) x (.inHook r hook)
  | disposal {r : RoomRef} {client : SimpleClient} {creator : Creator} {x : Exn} :
    Resumed w (.created r client creator) x
      (.disposeLoop r ((w.rooms r).clients.map SimpleClient.sessionId))
  | rethrow {r : RoomRef} {client : SimpleClient} {creator : Creator} {x : Exn} :
    Resumed w (.created r client creator) x (.rethrow x)

theorem Unwound.resumed {w : World} {cmd : Cmd} {x : Exn} {a : Answer} {o : Out}
    (h : Unwound w cmd x a o) {c : Cmd} (mem : c ∈ o.push) : Resumed w cmd x c := by
  cases h with
  | passed | caught => cases mem
  | handled =>
    obtain rfl := List.mem_singleton.1 mem
    exact .again
  | rolledBack _ starts =>
    rcases List.mem_append.1 mem with loop | last
    · obtain rfl := mem_disposal starts loop
      exact .disposal
    · obtain rfl := List.mem_singleton.1 last
      exact .rethrow

inductive Arrival (w : World) : EnvEvent → World → List (Tid × List Cmd) → Prop where
  | tick {ms : ℕ} : Arrival w (.tick ms) { w with now := w.now + ms } []
  | connect {client : SimpleClient} (fresh : w.sessions.lookup client.sessionId = none) :
    Arrival w (.connect client)
      { w with sessions := w.sessions.insert client.sessionId (client, .busy) }
      [(.conn client.sessionId, [.openConnection client, .endOp client.sessionId])]
  | receive {sessionId payload : Str} {isBinary : Bool} {client : SimpleClient}
      (idle : w.sessions.lookup sessionId = some (client, .idle)) :
    Arrival w (.receive sessionId isBinary payload)
      { w with sessions := w.sessions.insert sessionId (client, .busy) }
      [(.conn sessionId, [.recordActivity sessionId, .dispatch client isBinary payload,
        .endOp sessionId])]
  | hangup {sessionId : Str} {client : SimpleClient}
      (idle : w.sessions.lookup sessionId = some (client, .idle)) :
    Arrival w (.hangup sessionId)
      { w with sessions := w.sessions.insert sessionId (client, .closing) }
      [(.conn sessionId, [.handleClientDisconnect sessionId, .endOp sessionId])]
  | registerRoom {name : Str} {options : Json} :
    Arrival w (.registerRoom name options) w [(.app, [.registerRoom name options])]
  | createRoom {name roomId : Str} {options : Json} :
    Arrival w (.createRoom name roomId options) w
      [(.app, [.createNewRoom syntheticOwner name options roomId .api, .boundary false])]
  | externalMessage {room key : Str} {data : Json} :
    Arrival w (.externalMessage room key data) w
      [(.admin, [.publish room (externalPayload key data), .boundary true])]
  | requestInfo {roomId : Str} :
    Arrival w (.requestInfo roomId) w [(.admin, [.subscribeInfo roomId])]
  | shutdown : Arrival w .shutdown w [(.main, [.shutdown])]
  | dropped {index : ℕ} {task : Task} (listed : w.tasks[index]? = some task)
      (cancelled : w.cancelled task.id = true) :
    Arrival w (.fire index) { w with tasks := w.tasks.eraseIdx index } []
  | fired {index : ℕ} {task : Task} (listed : w.tasks[index]? = some task)
      (due : task.due ≤ w.now) (live : w.cancelled task.id = false) :
    Arrival w (.fire index)
      { w with
        tasks := w.tasks.eraseIdx index
        working := task :: w.working
        workerBusy := true } [(.worker, [.timerBody task, .workerDone])]

theorem spawn_arrival {w w' : World} {e : EnvEvent} {new : List (Tid × List Cmd)}
    (h : spawn w e = some (w', new)) : Arrival w e w' new := by
  cases e with
  | connect client =>
    simp only [spawn] at h
    split at h
    · cases h
    · rename_i fresh
      cases h
      exact .connect fresh
  | receive sessionId isBinary payload =>
    simp only [spawn] at h
    split at h
    · rename_i idle
      cases h
      exact .receive idle
    · cases h
  | hangup sessionId =>
    simp only [spawn] at h
    split at h
    · rename_i idle
      cases h
      exact .hangup idle
    · cases h
  | fire index =>
    simp only [spawn] at h
    split at h
    · cases h
    · rename_i task listed
      split at h
      · cases h
      · rename_i ready
        split at h
        · rename_i cancelled
          cases h
          exact .dropped listed cancelled
        · rename_i live
          cases h
          exact .fired listed (not_lt.1 fun early => ready (.inr (.inl early))) (by simpa using live)
  | tick ms => cases h; exact .tick
  | registerRoom name options => cases h; exact .registerRoom
  | createRoom name roomId options => cases h; exact .createRoom
  | externalMessage room key data => cases h; exact .externalMessage
  | requestInfo roomId => cases h; exact .requestInfo
  | shutdown => cases h; exact .shutdown

end Blueboat
