import Blueboat.Server

set_option autoImplicit false

/-! What the operations on a room leave as it was. -/
namespace Blueboat

open Protocol

/-- The change is the room's own: it leaves the tables of the sessions and the scheduler's turn alone,
and where `alive` holds it uses no room that has been erased. -/
structure Local (alive : Prop) (w w' : World) : Prop where
  connections : w'.connections = w.connections
  lastActivity : w'.lastActivity = w.lastActivity
  workerBusy : w'.workerBusy = w.workerBusy
  dangling : alive → w'.dangling = w.dangling

/-- Besides, no frame is sent and nothing is logged. -/
structure Mute (alive : Prop) (w w' : World) : Prop extends Local alive w w' where
  log : w'.log = w.log

section
variable {alive : Prop} {w w₁ w₂ : World}

theorem Local.rfl : Local alive w w := ⟨.refl _, .refl _, .refl _, fun _ => .refl _⟩

theorem Mute.rfl : Mute alive w w := ⟨.rfl, .refl _⟩

/-- A change of other fields. -/
theorem Local.beside {w' : World} (connections : w'.connections = w.connections := by rfl)
    (lastActivity : w'.lastActivity = w.lastActivity := by rfl)
    (workerBusy : w'.workerBusy = w.workerBusy := by rfl)
    (dangling : w'.dangling = w.dangling := by rfl) : Local alive w w' :=
  ⟨connections, lastActivity, workerBusy, fun _ => dangling⟩

theorem Mute.beside {w' : World} (connections : w'.connections = w.connections := by rfl)
    (lastActivity : w'.lastActivity = w.lastActivity := by rfl)
    (workerBusy : w'.workerBusy = w.workerBusy := by rfl)
    (dangling : w'.dangling = w.dangling := by rfl) (log : w'.log = w.log := by rfl) :
    Mute alive w w' :=
  ⟨.beside connections lastActivity workerBusy dangling, log⟩

theorem Local.trans (first : Local alive w w₁) (second : Local True w₁ w₂) : Local alive w w₂ where
  connections := second.connections.trans first.connections
  lastActivity := second.lastActivity.trans first.lastActivity
  workerBusy := second.workerBusy.trans first.workerBusy
  dangling live := (second.dangling trivial).trans (first.dangling live)

theorem Mute.trans (first : Mute alive w w₁) (second : Mute True w₁ w₂) : Mute alive w w₂ :=
  ⟨first.toLocal.trans second.toLocal, second.log.trans first.log⟩

theorem Local.mono {alive' : Prop} (change : Local alive w w₁) (live : alive' → alive) :
    Local alive' w w₁ :=
  { change with dangling := fun h => change.dangling (live h) }

theorem Mute.mono {alive' : Prop} (change : Mute alive w w₁) (live : alive' → alive) :
    Mute alive' w w₁ :=
  ⟨change.toLocal.mono live, change.log⟩

end

section
variable (w : World)

theorem touch_mute (r : RoomRef) : Mute ((w.rooms r).erased = false) w (w.touch r) := by
  unfold World.touch
  split
  · rename_i erased
    exact ⟨⟨rfl, rfl, rfl, fun live => absurd (live.symm.trans erased) Bool.false_ne_true⟩, rfl⟩
  · exact .rfl

theorem setRoom_mute (r : RoomRef) (room : Room) : Mute True w (w.setRoom r room) :=
  .beside

theorem sendFrameToClient_local (sessionId event : Str) (data : Json) :
    Local True w (w.sendFrameToClient sessionId event data) := by
  unfold World.sendFrameToClient
  split
  · exact .rfl
  · exact .beside

theorem sendTo_local (r : RoomRef) (sessionId key : Str) (data : Json) :
    Local True w (w.sendTo r sessionId key data) := sendFrameToClient_local ..

theorem cancel_mute (task : Option ℕ) : Mute True w (w.cancel task) := by
  cases task with
  | none => exact .rfl
  | some id => exact .beside

theorem unsubscribe_mute (key : Str) (sub : Option ℕ) : Mute True w (w.unsubscribe key sub) := by
  cases sub with
  | none => exact .rfl
  | some id => exact .beside

theorem clearJoinSub_mute (v : ℕ) : Mute True w (w.clearJoinSub v) := setRoom_mute ..

theorem resolve_mute (v : ℕ) (value : Bool) : Mute True w (w.resolve v value) := by
  unfold World.resolve
  dsimp only
  split
  · exact .rfl
  · exact .beside

theorem rejoined_mute (v : ℕ) (client : SimpleClient) : Mute True w (w.rejoined v client) := by
  unfold World.rejoined
  split
  · exact .rfl
  · exact ((resolve_mute ..).trans (cancel_mute ..)).trans (clearJoinSub_mute ..)

theorem reconnectTimeout_mute (v : ℕ) :
    Mute ((w.rooms (w.waits v).room).erased = false) w (w.reconnectTimeout v) :=
  ((touch_mute ..).trans (resolve_mute ..)).trans (clearJoinSub_mute ..)

theorem removeClient_local (r : RoomRef) (sessionId : Str) (intentional : Bool) :
    Local ((w.rooms r).erased = false) w (removeClient w r sessionId intentional).1 := by
  have touched := touch_mute w r
  unfold removeClient
  dsimp only
  split
  · exact touched.toLocal
  · exact (touched.trans (setRoom_mute ..)).toLocal.trans (sendTo_local ..)

theorem dispose_mute (r : RoomRef) (cause : Cause) :
    Mute ((w.rooms r).erased = false) w (dispose w r cause).1 := by
  have touched := touch_mute w r
  unfold dispose
  dsimp only
  split
  · exact touched
  · exact touched.trans (setRoom_mute ..)

theorem finishDispose_mute (r : RoomRef) :
    Mute ((w.rooms r).erased = false) w (finishDispose w r) := by
  have forgotten (w : World) (storage : MemoryStorage) : Mute True w { w with storage := storage } :=
    .beside
  refine Mute.trans ?_ (setRoom_mute ..)
  refine (Mute.trans ?_ (unsubscribe_mute ..)).trans (unsubscribe_mute ..)
  exact ((touch_mute w r).trans (cancel_mute ..)).trans (forgotten ..)

theorem onRoomDisposed_mute (r : RoomRef) :
    Mute ((w.rooms r).erased = false) w (onRoomDisposed w r) := by
  have touched := touch_mute w r
  unfold onRoomDisposed
  refine Mute.trans ?_ (setRoom_mute ..)
  dsimp only
  split
  · exact touched.trans .beside
  · exact touched.trans .beside

theorem addClient_local (r : RoomRef) (client : SimpleClient) :
    Local ((w.rooms r).erased = false) w (addClient w r client) :=
  ((touch_mute w r).trans (setRoom_mute ..)).toLocal.trans (sendTo_local ..)

theorem replyCreated_local (r : RoomRef) (creator : Creator) :
    Local True w (replyCreated w r creator) := by
  cases creator with
  | api => exact .rfl
  | frame client requestId => exact sendFrameToClient_local ..

theorem joinListener_mute (r : RoomRef) (client : SimpleClient) (listener : ℕ × JoinCallback)
    (left : List Cmd) :
    Mute ((w.rooms r).erased = false) w (joinListener w r client listener left).world := by
  have touched := touch_mute w r
  unfold joinListener
  dsimp only
  split
  · split
    · exact touched.trans (rejoined_mute ..)
    · exact touched
  · exact touched

def Handler.owner : Handler → Option RoomRef
  | .gameMessage r => some r
  | .playerLeft r => some r
  | .infoRequest _ => none

/-- A listener that reads its room finds it alive. -/
theorem handle_mute (payload : Json) (left : List Cmd) (handler : Handler)
    (stays : ∀ r, handler ≠ .playerLeft r) :
    Mute (∀ r, handler.owner = some r → (w.rooms r).erased = false) w
      (handle w payload left handler).world := by
  cases handler with
  | infoRequest n => exact .beside
  | playerLeft r => cases stays r rfl
  | gameMessage r =>
    have touched : Mute (∀ r', (Handler.gameMessage r).owner = some r' →
        (w.rooms r').erased = false) w (w.touch r) := (touch_mute w r).mono fun live => live r rfl
    unfold handle
    dsimp only
    split
    · exact .rfl
    · exact .rfl
    · exact touched
    · exact .rfl
    · exact .rfl
    · split
      · exact touched
      · split <;> exact touched

theorem handle_local (payload : Json) (left : List Cmd) (handler : Handler) :
    Local (∀ r, handler.owner = some r → (w.rooms r).erased = false) w
      (handle w payload left handler).world := by
  cases handler with
  | infoRequest | gameMessage => exact (handle_mute _ _ _ _ (by rintro _ ⟨⟩)).toLocal
  | playerLeft r =>
    unfold handle
    dsimp only
    split
    · exact .rfl
    · exact (removeClient_local ..).mono fun live => live r rfl

end

/-! One command. -/

def Stores.roomOf (k : Stores) (task : Task) : RoomRef :=
  match task.callback with
  | .autoDispose r => r
  | .reconnect v => (k.waits v).room

/-- The command reads or writes the room, or leaves commands to do that may. A hook in progress uses it
only where its own answers do, and the end of a join only where an exception reaches it. -/
def Cmd.uses (k : Stores) (r : RoomRef) : Cmd → Bool
  | .created r' _ _ => r' == r
  | .deliver _ handlers => handlers.any fun handler => handler.owner == some r
  | .timerBody task => k.roomOf task == r
  | .callHook r' _ => r' == r
  | .addClient r' _ _ => r' == r
  | .callJoinListeners r' _ _ => r' == r
  | .callLeaveListeners r' _ _ _ => r' == r
  | .disposeIfEmpty r' => r' == r
  | .disposeLoop r' _ => r' == r
  | .finishDispose r' => r' == r
  | .onRoomDisposed r' => r' == r
  | _ => false

/-- The room that the application's next call is on, made in a hook of room `r`. -/
def Answer.on (r : RoomRef) : Answer → Option RoomRef
  | .dispose r' => some r'
  | .removeFromRoom _ => some r
  | .allowReconnection .. => some r
  | .send .. => some r
  | .setState _ => some r
  | .setMetadata _ => some r
  | .addJoinListener => some r
  | .addLeaveListener => some r
  | _ => none

inductive Reaches (w : World) (r : RoomRef) : Cmd → Answer → Prop where
  | uses {cmd : Cmd} {a : Answer} (uses : cmd.uses w.toStores r = true) : Reaches w r cmd a
  | answered {r' : RoomRef} {hook : Hook} {a : Answer} (on : a.on r' = some r) :
    Reaches w r (.inHook r' hook) a
  | managed {id : Str} {ids : List Str} {a : Answer} (managed : w.managingRooms.lookup id = some r) :
    Reaches w r (.disposeByIds (id :: ids)) a
  | listens {key : Str} {payload : Json} {a : Answer} {l : Listener Handler}
      (listens : l ∈ w.pubsub.listenersOf key) (handler : l.handler.owner = some r) :
    Reaches w r (.publish key payload) a

def Cmd.books : Cmd → Bool
  | .openConnection _ => true
  | .recordActivity _ => true
  | .endOp _ => true
  | .workerDone => true
  | _ => false

/-- The commands that write the tables of the sessions or end the worker's turn. -/
def Cmd.tables : Cmd → Bool
  | .handleClientDisconnect _ => true
  | cmd => cmd.books

section
variable {M : MsgpackC} {J : JsonText} {w : World} {a : Answer} {o : Out}

theorem createNewRoom_mute {client : SimpleClient} {name override : Str} {options : Json}
    {creator : Creator} {candidates : List (Except Exn Str)} {factory : Option Exn} :
    Mute True w (createNewRoom J w client name options override creator candidates factory).world := by
  unfold createNewRoom
  split
  · exact .rfl
  · dsimp only
    split
    · exact .beside
    · split
      · exact .beside
      · exact .beside

theorem created_local {r : RoomRef} {client : SimpleClient} {creator : Creator} :
    Local True w (created J w r client creator).world := by
  have subscribed : Local True w (subscribeRoom w r) := .beside
  unfold created
  dsimp only
  split
  · exact subscribed
  · rename_i storage _
    have registered : Local True w (registerNewRoom (subscribeRoom w r) r storage) :=
      subscribed.trans .beside
    exact registered.trans (replyCreated_local ..)

theorem world_handleClientMessage {client : SimpleClient} {event : Str} {data : Json} :
    (handleClientMessage w client event data).world = w := by
  unfold handleClientMessage
  generalize (if data.isObject = true then data else Json.obj []) = fields
  dsimp only
  repeat' split
  all_goals rfl

theorem world_joinRoom {client : SimpleClient} {roomId : Str} {data : Json} :
    (joinRoom J w client roomId data).world = w := by
  unfold joinRoom
  split
  · rfl
  · split <;> rfl

theorem dispatch_local {client : SimpleClient} {isBinary : Bool} {payload : Str} :
    Local True w (dispatch M J w client isBinary payload).world := by
  unfold dispatch
  split
  · exact .rfl
  · split
    · split
      · exact .rfl
      · exact .beside
    · exact .rfl
    · exact .rfl
    · exact .rfl

theorem timerBody_mute {task : Task} :
    Mute ((w.rooms (w.roomOf task)).erased = false) w (timerBody w task).world := by
  obtain ⟨id, due, callback⟩ := task
  cases callback with
  | autoDispose r =>
    have change := dispose_mute { w with working := w.working.erase ⟨id, due, .autoDispose r⟩ } r .timer
    exact ⟨⟨change.connections, change.lastActivity, change.workerBusy, change.dangling⟩, change.log⟩
  | reconnect v =>
    have change :=
      reconnectTimeout_mute { w with working := w.working.erase ⟨id, due, .reconnect v⟩ } v
    exact ⟨⟨change.connections, change.lastActivity, change.workerBusy, change.dangling⟩, change.log⟩

/-- A hook uses the room that its call is on. -/
theorem inHook_mute {r : RoomRef} {hook : Hook} (h : inHook J w r hook a = some o)
    (stays : ∀ sessionId, a ≠ .removeFromRoom sessionId)
    (unsent : ∀ sessionId key data, a ≠ .send sessionId key data) :
    Mute (∀ r', a.on r = some r' → (w.rooms r').erased = false) w o.world := by
  have own : a.on r = some r → Mute (∀ r', a.on r = some r' → (w.rooms r').erased = false) w
      (w.touch r) := fun on => (touch_mute w r).mono fun live => live r on
  cases a with
  | ret | throw => obtain rfl := Option.some.inj h; exact .rfl
  | dispose r' =>
    simp only [inHook] at h
    split at h
    · obtain rfl := Option.some.inj h
      exact (dispose_mute ..).mono fun live => live r' rfl
    · cases h
  | removeFromRoom sessionId => cases stays sessionId rfl
  | allowReconnection clientId seconds =>
    simp only [inHook] at h
    split at h <;> obtain rfl := Option.some.inj h
    · exact own rfl
    · exact (own rfl).trans .beside
  | send sessionId key data => cases unsent sessionId key data rfl
  | setState | addJoinListener | addLeaveListener =>
    obtain rfl := Option.some.inj h
    exact (own rfl).trans .beside
  | setMetadata metadata =>
    simp only [inHook] at h
    split at h <;> obtain rfl := Option.some.inj h
    · exact own rfl
    · exact (own rfl).trans .beside
  | setGameValues values =>
    simp only [inHook] at h
    split at h <;> obtain rfl := Option.some.inj h
    · exact .rfl
    · exact .beside
  | _ => cases h

theorem inHook_local {r : RoomRef} {hook : Hook} (h : inHook J w r hook a = some o) :
    Local (∀ r', a.on r = some r' → (w.rooms r').erased = false) w o.world := by
  cases a with
  | removeFromRoom sessionId =>
    obtain rfl := Option.some.inj h
    exact (removeClient_local ..).mono fun live => live r rfl
  | send sessionId key data =>
    obtain rfl := Option.some.inj h
    have touched := (touch_mute w r).toLocal
    exact (touched.trans (sendTo_local ..)).mono fun live => live r rfl
  | _ => exact (inHook_mute h (by rintro _ ⟨⟩) (by rintro _ _ _ ⟨⟩)).toLocal

/-- The commands that may send a frame or note something. -/
def Cmd.logs : Cmd → Bool
  | .dispatch .. => true
  | .created .. => true
  | .deliver .. => true
  | .callHook .. => true
  | .inHook .. => true
  | .addClient .. => true
  | .disposeLoop .. => true
  | _ => false

theorem exec_mute {cmd : Cmd} (h : exec M J w cmd a = some o) (quiet : cmd.logs = false)
    (plain : cmd.tables = false) :
    Mute (∀ r, Reaches w r cmd a → (w.rooms r).erased = false) w o.world := by
  have own : ∀ {r : RoomRef} {w' : World}, cmd.uses w.toStores r = true →
      Mute ((w.rooms r).erased = false) w w' →
      Mute (∀ r, Reaches w r cmd a → (w.rooms r).erased = false) w w' :=
    fun uses change => change.mono fun live => live _ (.uses uses)
  cases cmd with
  | openConnection | recordActivity | handleClientDisconnect | endOp | workerDone => cases plain
  | dispatch | created | deliver | callHook | inHook | addClient | disposeLoop => cases quiet
  | createNewRoom =>
    cases a with
    | create => obtain rfl := Option.some.inj h; exact createNewRoom_mute.mono fun _ => trivial
    | _ => cases h
  | handleClientMessage =>
    obtain rfl := Option.some.inj h
    rw [world_handleClientMessage]
    exact .rfl
  | joinRoom =>
    obtain rfl := Option.some.inj h
    rw [world_joinRoom]
    exact .rfl
  | registerRoom =>
    simp only [exec] at h
    split at h <;> obtain rfl := Option.some.inj h
    · exact .rfl
    · exact .beside
  | timerBody task => obtain rfl := Option.some.inj h; exact own (beq_self_eq_true _) timerBody_mute
  | callJoinListeners r client left =>
    cases left <;> obtain rfl := Option.some.inj h
    · exact own (beq_self_eq_true r) (touch_mute ..)
    · exact own (beq_self_eq_true r) (joinListener_mute ..)
  | callLeaveListeners r client intentional left =>
    cases left <;> obtain rfl := Option.some.inj h
    · exact own (beq_self_eq_true r) (touch_mute ..)
    · exact own (beq_self_eq_true r) (touch_mute ..)
  | disposeIfEmpty r =>
    simp only [exec] at h
    split at h <;> obtain rfl := Option.some.inj h
    · exact own (beq_self_eq_true r) (dispose_mute ..)
    · exact own (beq_self_eq_true r) (touch_mute ..)
  | finishDispose r =>
    obtain rfl := Option.some.inj h
    exact own (beq_self_eq_true r) (finishDispose_mute ..)
  | onRoomDisposed r =>
    obtain rfl := Option.some.inj h
    exact own (beq_self_eq_true r) (onRoomDisposed_mute ..)
  | disposeByIds ids =>
    cases ids with
    | nil => obtain rfl := Option.some.inj h; exact .rfl
    | cons id ids =>
      simp only [exec] at h
      split at h <;> obtain rfl := Option.some.inj h
      · exact .rfl
      · rename_i r managed
        exact (dispose_mute ..).mono fun live => live r (.managed managed)
  | shutdown =>
    cases a with
    | order ids =>
      simp only [exec] at h
      split at h
      · obtain rfl := Option.some.inj h; exact .rfl
      · cases h
    | _ => cases h
  | _ => obtain rfl := Option.some.inj h; exact .beside

theorem exec_local {cmd : Cmd} (h : exec M J w cmd a = some o) (plain : cmd.tables = false) :
    Local (∀ r, Reaches w r cmd a → (w.rooms r).erased = false) w o.world := by
  have own : ∀ {r : RoomRef} {w' : World}, cmd.uses w.toStores r = true →
      Local ((w.rooms r).erased = false) w w' →
      Local (∀ r, Reaches w r cmd a → (w.rooms r).erased = false) w w' :=
    fun uses change => change.mono fun live => live _ (.uses uses)
  cases cmd with
  | dispatch => obtain rfl := Option.some.inj h; exact dispatch_local.mono fun _ => trivial
  | created => obtain rfl := Option.some.inj h; exact created_local.mono fun _ => trivial
  | deliver payload handlers =>
    cases handlers with
    | nil => obtain rfl := Option.some.inj h; exact .rfl
    | cons handler handlers =>
      obtain rfl := Option.some.inj h
      exact (handle_local ..).mono fun live r owner => live r (.uses (by simp [Cmd.uses, owner]))
  | callHook r hook =>
    obtain rfl := Option.some.inj h
    exact own (beq_self_eq_true r) ((touch_mute w r).toLocal.trans .beside)
  | inHook r hook => exact (inHook_local h).mono fun live r' on => live r' (.answered on)
  | addClient r client options =>
    obtain rfl := Option.some.inj h
    exact own (beq_self_eq_true r) (addClient_local ..)
  | disposeLoop r left =>
    cases left <;> obtain rfl := Option.some.inj h
    · exact own (beq_self_eq_true r) (touch_mute ..).toLocal
    · exact own (beq_self_eq_true r) (removeClient_local ..)
  | _ => exact (exec_mute h rfl plain).toLocal

theorem exec_tables {cmd : Cmd} (h : exec M J w cmd a = some o) (tables : cmd.tables = true) :
    o.world.log = w.log ∧ o.world.dangling = w.dangling := by
  cases cmd with
  | openConnection | handleClientDisconnect | workerDone =>
    obtain rfl := Option.some.inj h
    exact ⟨rfl, rfl⟩
  | recordActivity =>
    simp only [exec] at h
    split at h <;> obtain rfl := Option.some.inj h <;> exact ⟨rfl, rfl⟩
  | endOp sessionId =>
    obtain rfl := Option.some.inj h
    change (endOp w sessionId).log = _ ∧ (endOp w sessionId).dangling = _
    unfold endOp
    split <;> exact ⟨rfl, rfl⟩
  | _ => cases tables

theorem exec_log {cmd : Cmd} (h : exec M J w cmd a = some o) (quiet : cmd.logs = false) :
    o.world.log = w.log := by
  cases tables : cmd.tables with
  | true => exact (exec_tables h tables).1
  | false => exact (exec_mute h quiet tables).log

/-- A step that reaches no erased room leaves the record as it is. -/
theorem exec_dangling {cmd : Cmd} (h : exec M J w cmd a = some o)
    (live : ∀ r, Reaches w r cmd a → (w.rooms r).erased = false) : o.world.dangling = w.dangling := by
  cases tables : cmd.tables with
  | true => exact (exec_tables h tables).2
  | false => exact (exec_local h tables).dangling live

theorem exec_aside {cmd : Cmd} (h : exec M J w cmd a = some o) (plain : cmd.books = false) :
    o.world.workerBusy = w.workerBusy ∧ o.world.lastActivity = w.lastActivity := by
  cases cmd with
  | handleClientDisconnect => obtain rfl := Option.some.inj h; exact ⟨rfl, rfl⟩
  | _ => exact ⟨(exec_local h plain).workerBusy, (exec_local h plain).lastActivity⟩

/-- The rooms that a handler of an exception uses. -/
def Cmd.handles (k : Stores) (x : Exn) (r : RoomRef) (cmd : Cmd) : Prop :=
  cmd.uses k r = true ∨ ∃ client what, cmd = .catchJoin r client ∧ x = .std what

theorem unwind_local {cmd : Cmd} {x : Exn} (h : unwind w cmd x a = some o) :
    Local (∀ r, cmd.handles w.toStores x r → (w.rooms r).erased = false) w o.world := by
  cases cmd with
  | inHook => cases a <;> first | (obtain rfl := Option.some.inj h; exact .rfl) | cases h
  | created r client creator =>
    obtain rfl := Option.some.inj h
    exact (dispose_mute ..).toLocal.mono fun live => live r (.inl (beq_self_eq_true r))
  | catchCreate | catchJoinRoom =>
    cases x <;> obtain rfl := Option.some.inj h
    · exact (sendFrameToClient_local ..).mono fun _ => trivial
    · exact .rfl
  | catchJoin r client =>
    cases x <;> obtain rfl := Option.some.inj h
    · refine ((touch_mute w r).toLocal.trans (sendFrameToClient_local ..)).mono fun live => ?_
      exact live r (.inr ⟨client, _, rfl, rfl⟩)
    · exact .rfl
  | boundary =>
    simp only [unwind] at h
    split at h <;> obtain rfl := Option.some.inj h <;> exact .rfl
  | _ => obtain rfl := Option.some.inj h; exact .rfl

end

end Blueboat
