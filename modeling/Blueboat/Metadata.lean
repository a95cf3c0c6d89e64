import Blueboat.Disposal
import Blueboat.Snapshots

set_option autoImplicit false

/-! The metadata of a room, in the room and in its record. -/
namespace Blueboat

open Protocol LockMachine Ledger

/-! What writes the metadata of a room. -/

def World.SameMetadata (w w' : World) : Prop :=
  (fun r => (w'.rooms r).metadata) = fun r => (w.rooms r).metadata

namespace World

theorem SameMetadata.refl (w : World) : w.SameMetadata w := rfl

theorem SameMetadata.trans {w w' w'' : World} (h : w.SameMetadata w') (h' : w'.SameMetadata w'') :
    w.SameMetadata w'' := Eq.trans h' h

theorem SameMetadata.apply {w w' : World} (h : w.SameMetadata w') (r : RoomRef) :
    (w'.rooms r).metadata = (w.rooms r).metadata := congrFun h r

theorem sameMetadata_of_rooms {w w' : World} (h : w'.rooms = w.rooms) : w.SameMetadata w' := by
  rw [SameMetadata, h]

theorem sameMetadata_setRoom {w : World} {r : RoomRef} {room : Room}
    (h : room.metadata = (w.rooms r).metadata) : w.SameMetadata (w.setRoom r room) := by
  funext r'
  change (Function.update w.rooms r room r').metadata = (w.rooms r').metadata
  by_cases same : r' = r
  · subst same
    rw [Function.update_self, h]
  · rw [Function.update_of_ne same]

theorem sameMetadata_touch (w : World) (r : RoomRef) : w.SameMetadata (w.touch r) :=
  sameMetadata_of_rooms (touch_rooms w r)

theorem sameMetadata_sendFrame (w : World) (sessionId event : Str) (data : Json) :
    w.SameMetadata (w.sendFrameToClient sessionId event data) :=
  sameMetadata_of_rooms (sendFrameToClient_rooms w sessionId event data)

theorem sameMetadata_sendTo (w : World) (r : RoomRef) (sessionId key : Str) (data : Json) :
    w.SameMetadata (w.sendTo r sessionId key data) := sameMetadata_sendFrame ..

theorem sameMetadata_cancel (w : World) (task : Option ℕ) : w.SameMetadata (w.cancel task) := by
  cases task <;> exact .refl _

theorem sameMetadata_unsubscribe (w : World) (key : Str) (sub : Option ℕ) :
    w.SameMetadata (w.unsubscribe key sub) := by
  cases sub <;> exact .refl _

theorem sameMetadata_clearJoinSub (w : World) (v : ℕ) : w.SameMetadata (w.clearJoinSub v) :=
  sameMetadata_setRoom rfl

theorem sameMetadata_resolve (w : World) (v : ℕ) (value : Bool) :
    w.SameMetadata (w.resolve v value) := by
  unfold resolve
  dsimp only
  split <;> exact .refl _

theorem sameMetadata_rejoined (w : World) (v : ℕ) (client : SimpleClient) :
    w.SameMetadata (w.rejoined v client) := by
  unfold rejoined
  split
  · exact .refl _
  · exact ((sameMetadata_resolve w v true).trans (sameMetadata_cancel _ _)).trans
      (sameMetadata_clearJoinSub _ _)

theorem sameMetadata_reconnectTimeout (w : World) (v : ℕ) :
    w.SameMetadata (w.reconnectTimeout v) :=
  ((sameMetadata_touch w _).trans (sameMetadata_resolve _ _ _)).trans (sameMetadata_clearJoinSub _ _)

end World

open World

theorem sameMetadata_removeClient (w : World) (r : RoomRef) (sessionId : Str)
    (intentional : Bool) : w.SameMetadata (removeClient w r sessionId intentional).1 := by
  have touched := sameMetadata_touch w r
  unfold removeClient
  dsimp only
  split
  · exact touched
  · refine SameMetadata.trans (touched.trans (sameMetadata_setRoom ?_)) (sameMetadata_sendTo ..)
    rfl

theorem sameMetadata_dispose (w : World) (r : RoomRef) (cause : Cause) :
    w.SameMetadata (dispose w r cause).1 := by
  have touched := sameMetadata_touch w r
  unfold dispose
  dsimp only
  split
  · exact touched
  · exact touched.trans (sameMetadata_setRoom rfl)

theorem sameMetadata_finishDispose (w : World) (r : RoomRef) :
    w.SameMetadata (finishDispose w r) := by
  have touched := sameMetadata_touch w r
  unfold finishDispose
  dsimp only
  generalize w.touch r = w₁ at touched
  have cancelled := touched.trans (sameMetadata_cancel w₁ (w₁.rooms r).autoDisposeTimer)
  generalize w₁.cancel _ = w₂ at cancelled
  have removed : w.SameMetadata
      { w₂ with storage := RoomFetcher.removeRoom w₂.storage (w₁.rooms r).roomId } := cancelled
  have unsubscribed := (removed.trans (sameMetadata_unsubscribe _ (w₁.rooms r).roomId
    (w₁.rooms r).gameMessageSub)).trans (sameMetadata_unsubscribe _ PLAYER_LEFT
      (w₁.rooms r).playerLeftSub)
  refine unsubscribed.trans (sameMetadata_setRoom ?_)
  exact (touched.apply r).trans (unsubscribed.apply r).symm

theorem sameMetadata_onRoomDisposed (w : World) (r : RoomRef) :
    w.SameMetadata (onRoomDisposed w r) := by
  have touched := sameMetadata_touch w r
  unfold onRoomDisposed
  dsimp only
  generalize w.touch r = w₁ at touched
  split
  · exact touched.trans (sameMetadata_setRoom rfl)
  · rename_i r₀ _
    have erased : w₁.SameMetadata (w₁.setRoom r₀ { w₁.rooms r₀ with erased := true }) :=
      sameMetadata_setRoom rfl
    have left := touched.trans erased
    exact left.trans (sameMetadata_setRoom rfl)

theorem sameMetadata_addClient (w : World) (r : RoomRef) (client : SimpleClient) :
    w.SameMetadata (addClient w r client) := by
  have added : (w.touch r).SameMetadata
      ((w.touch r).setRoom r (((w.touch r).rooms r).addMember client)) := sameMetadata_setRoom rfl
  exact ((sameMetadata_touch w r).trans added).trans (sameMetadata_sendTo ..)

theorem sameMetadata_allowReconnection (w : World) (r : RoomRef) (clientId : Str)
    (seconds : Int32) : w.SameMetadata (allowReconnection w r clientId seconds) :=
  sameMetadata_setRoom (w := w) rfl

theorem sameMetadata_subscribeRoom (w : World) (r : RoomRef) :
    w.SameMetadata (subscribeRoom w r) := sameMetadata_setRoom (w := w) rfl

theorem sameMetadata_registerNewRoom (w : World) (r : RoomRef) (storage : MemoryStorage) :
    w.SameMetadata (registerNewRoom w r storage) := sameMetadata_setRoom (w := w) rfl

theorem sameMetadata_replyCreated (w : World) (r : RoomRef) (creator : Creator) :
    w.SameMetadata (replyCreated w r creator) := by
  cases creator with
  | api => exact .refl _
  | frame client requestId => exact sameMetadata_sendFrame ..

theorem sameMetadata_endOp (w : World) (sessionId : Str) : w.SameMetadata (endOp w sessionId) := by
  unfold endOp
  split <;> exact .refl _

section
variable {M : MsgpackC} {J : JsonText} {w : World} {cmd : Cmd} {a : Answer} {o : Out}

theorem sameMetadata_handle (w : World) (payload : Json) (left : List Cmd) (handler : Handler) :
    w.SameMetadata (handle w payload left handler).world := by
  cases handler with
  | infoRequest n => exact .refl _
  | playerLeft r =>
    unfold handle
    dsimp only
    split
    · exact .refl _
    · exact sameMetadata_removeClient ..
  | gameMessage r =>
    unfold handle
    dsimp only
    split
    · exact .refl _
    · exact .refl _
    · exact sameMetadata_touch w r
    · exact .refl _
    · exact .refl _
    · split
      · exact sameMetadata_touch w r
      · split <;> exact sameMetadata_touch w r

theorem sameMetadata_handleClientMessage (w : World) (client : SimpleClient) (event : Str)
    (data : Json) : w.SameMetadata (handleClientMessage w client event data).world := by
  unfold handleClientMessage
  generalize (if data.isObject = true then data else Json.obj []) = fields
  dsimp only
  split
  · split
    · exact .refl _
    · exact .refl _
    · split
      · exact .refl _
      · split <;> exact .refl _
  · split
    · split
      · exact .refl _
      · split <;> exact .refl _
    · split
      · split
        · exact .refl _
        · split
          · exact .refl _
          · split
            · exact .refl _
            · split <;> exact .refl _
      · exact .refl _

/-- A hook writes the metadata of its room with `set_metadata` only. -/
theorem inHook_metadata {r : RoomRef} {hook : Hook}
    (h : exec M J w (.inHook r hook) a = some o) (other : ∀ metadata, a ≠ .setMetadata metadata) :
    w.SameMetadata o.world := by
  cases a with
  | ret | throw =>
    obtain rfl := Option.some.inj h
    exact .refl _
  | dispose r' =>
    simp only [exec, inHook] at h
    split at h
    · obtain rfl := Option.some.inj h
      exact sameMetadata_dispose ..
    · cases h
  | removeFromRoom sessionId =>
    obtain rfl := Option.some.inj h
    exact sameMetadata_removeClient ..
  | allowReconnection clientId seconds =>
    simp only [exec, inHook] at h
    split at h
    · obtain rfl := Option.some.inj h
      exact sameMetadata_touch w r
    · obtain rfl := Option.some.inj h
      exact (sameMetadata_touch w r).trans (sameMetadata_allowReconnection ..)
  | send sessionId key data =>
    obtain rfl := Option.some.inj h
    exact (sameMetadata_touch w r).trans (sameMetadata_sendTo ..)
  | setState state | addJoinListener | addLeaveListener =>
    obtain rfl := Option.some.inj h
    exact (sameMetadata_touch w r).trans (sameMetadata_setRoom rfl)
  | setMetadata metadata => exact absurd rfl (other metadata)
  | setGameValues values =>
    simp only [exec, inHook] at h
    split at h <;> (obtain rfl := Option.some.inj h; exact .refl _)
  | _ => cases h

theorem createNewRoom_metadata {client : SimpleClient} {name override : Str} {options : Json}
    {creator : Creator} (h : exec M J w (.createNewRoom client name options override creator) a =
      some o) (r : RoomRef) : (o.world.rooms r).metadata = (w.rooms r).metadata ∨
      r = w.nextRoom ∧ (o.world.rooms r).metadata = .obj [] := by
  cases a with
  | create id₁ id₂ id₃ factory =>
    obtain rfl := Option.some.inj h
    unfold createNewRoom
    split
    · exact .inl rfl
    · dsimp only
      split
      · exact .inl rfl
      · split
        · exact .inl rfl
        · change (Function.update w.rooms w.nextRoom _ r).metadata = _ ∨
            _ ∧ (Function.update w.rooms w.nextRoom _ r).metadata = _
          by_cases new : r = w.nextRoom
          · subst new
            rw [Function.update_self]
            exact .inr ⟨rfl, rfl⟩
          · rw [Function.update_of_ne new]
            exact .inl rfl
  | _ => cases h

/-- No other command writes metadata, other than that of a new room. -/
theorem exec_metadata (h : exec M J w cmd a = some o)
    (other : ∀ r hook metadata, cmd = .inHook r hook → a ≠ .setMetadata metadata) (r : RoomRef) :
    (o.world.rooms r).metadata = (w.rooms r).metadata ∨
      r = w.nextRoom ∧ (o.world.rooms r).metadata = .obj [] := by
  have same : w.SameMetadata o.world → (o.world.rooms r).metadata = (w.rooms r).metadata ∨
      r = w.nextRoom ∧ (o.world.rooms r).metadata = .obj [] := fun same => .inl (same.apply r)
  cases cmd with
  | createNewRoom => exact createNewRoom_metadata h r
  | inHook r hook => exact same (inHook_metadata h fun metadata => other r hook metadata rfl)
  | openConnection | rethrow | catchCreate | catchJoinRoom | disconnected | boundary | futureGet
  | catchJoin | workerDone | waitInfo | handleClientDisconnect | publish | subscribeInfo =>
    obtain rfl := Option.some.inj h
    exact same (.refl _)
  | dispatch client isBinary payload =>
    obtain rfl := Option.some.inj h
    refine same ?_
    unfold dispatch
    split
    · exact .refl _
    · split
      · split <;> exact .refl _
      · exact .refl _
      · exact .refl _
      · exact .refl _
  | handleClientMessage client event data =>
    obtain rfl := Option.some.inj h
    exact same (sameMetadata_handleClientMessage ..)
  | joinRoom client roomId data =>
    obtain rfl := Option.some.inj h
    refine same (sameMetadata_of_rooms ?_)
    unfold joinRoom
    split
    · rfl
    · split <;> rfl
  | recordActivity sessionId | registerRoom name options =>
    simp only [exec] at h
    split at h <;> (obtain rfl := Option.some.inj h; exact same (.refl _))
  | endOp sessionId =>
    obtain rfl := Option.some.inj h
    exact same (sameMetadata_endOp w sessionId)
  | created r client creator =>
    obtain rfl := Option.some.inj h
    have subscribed := sameMetadata_subscribeRoom w r
    refine same ?_
    unfold created
    dsimp only
    split
    · exact subscribed
    · exact (subscribed.trans (sameMetadata_registerNewRoom ..)).trans
        (sameMetadata_replyCreated ..)
  | deliver payload handlers =>
    cases handlers with
    | nil =>
      obtain rfl := Option.some.inj h
      exact same (.refl _)
    | cons handler handlers =>
      obtain rfl := Option.some.inj h
      exact same (sameMetadata_handle ..)
  | unsubscribeInfo listener =>
    obtain rfl := Option.some.inj h
    exact same (.refl _)
  | shutdown =>
    cases a with
    | order ids =>
      simp only [exec] at h
      split at h
      · obtain rfl := Option.some.inj h
        exact same (.refl _)
      · cases h
    | _ => cases h
  | disposeByIds ids =>
    cases ids with
    | nil =>
      obtain rfl := Option.some.inj h
      exact same (.refl _)
    | cons id ids =>
      simp only [exec] at h
      split at h <;> obtain rfl := Option.some.inj h
      · exact same (.refl _)
      · exact same (sameMetadata_dispose ..)
  | timerBody task =>
    obtain rfl := Option.some.inj h
    refine same ?_
    unfold timerBody
    dsimp only
    split
    · exact sameMetadata_dispose { w with working := w.working.erase task } _ _
    · exact sameMetadata_reconnectTimeout { w with working := w.working.erase task } _
  | callHook r hook =>
    obtain rfl := Option.some.inj h
    exact same (sameMetadata_touch w r)
  | addClient r client options =>
    obtain rfl := Option.some.inj h
    exact same (sameMetadata_addClient ..)
  | callJoinListeners r client left =>
    cases left with
    | nil =>
      obtain rfl := Option.some.inj h
      exact same (sameMetadata_touch w r)
    | cons listener left =>
      obtain rfl := Option.some.inj h
      have touched := sameMetadata_touch w r
      refine same ?_
      unfold joinListener
      dsimp only
      split
      · split
        · exact touched.trans (sameMetadata_rejoined ..)
        · exact touched
      · exact touched
  | callLeaveListeners r client intentional left =>
    cases left <;> (obtain rfl := Option.some.inj h; exact same (sameMetadata_touch w r))
  | disposeIfEmpty r =>
    simp only [exec] at h
    split at h <;> obtain rfl := Option.some.inj h
    · exact same (sameMetadata_dispose ..)
    · exact same (sameMetadata_touch w r)
  | disposeLoop r left =>
    cases left with
    | nil =>
      obtain rfl := Option.some.inj h
      exact same (sameMetadata_touch w r)
    | cons sessionId left =>
      obtain rfl := Option.some.inj h
      exact same (sameMetadata_removeClient ..)
  | finishDispose r =>
    obtain rfl := Option.some.inj h
    exact same (sameMetadata_finishDispose w r)
  | onRoomDisposed r =>
    obtain rfl := Option.some.inj h
    exact same (sameMetadata_onRoomDisposed w r)

theorem unwind_metadata {x : Exn} (h : unwind w cmd x a = some o) : w.SameMetadata o.world := by
  cases cmd with
  | created r client creator =>
    obtain rfl := Option.some.inj h
    exact sameMetadata_dispose w r .rollback
  | inHook r hook =>
    cases a with
    | handle | propagate =>
      obtain rfl := Option.some.inj h
      exact .refl w
    | _ => cases h
  | catchCreate | catchJoinRoom =>
    cases x <;> obtain rfl := Option.some.inj h
    · exact sameMetadata_sendFrame ..
    · exact .refl w
  | catchJoin r client =>
    cases x <;> obtain rfl := Option.some.inj h
    · exact (sameMetadata_touch w r).trans (sameMetadata_sendFrame ..)
    · exact .refl w
  | boundary onlyStd =>
    simp only [unwind] at h
    split at h <;> (obtain rfl := Option.some.inj h; exact .refl w)
  | _ =>
    obtain rfl := Option.some.inj h
    exact .refl w

/-! What writes the records. -/

inductive Filing (J : JsonText) (w : World) (k' : Stores) : Cmd → Answer → Prop where
  | kept {cmd : Cmd} {a : Answer}
      (records : ∀ roomId e, w.storage.entries.lookup (roomKey roomId) = some e →
        MemoryStorage.expired w.now e = false → k'.storage.entries.lookup (roomKey roomId) = some e)
      (managing : k'.managingRooms = w.managingRooms) : Filing J w k' cmd a
  | metadata {r : RoomRef} {hook : Hook} {metadata : Json}
      (set : RoomFetcher.setRoomMetadata J w.storage w.now (w.rooms r).roomId metadata =
        .ok k'.storage) (managing : k'.managingRooms = w.managingRooms) :
    Filing J w k' (.inHook r hook) (.setMetadata metadata)
  | registered {r : RoomRef} {client : SimpleClient} {creator : Creator} {a : Answer}
      (added : RoomFetcher.addRoom J w.storage w.now (snapshotOf w r client) = .ok k'.storage)
      (managing : k'.managingRooms = w.managingRooms.insert (w.rooms r).roomId r) :
    Filing J w k' (.created r client creator) a
  | withdrawn {r : RoomRef} {a : Answer}
      (storage : k'.storage = w.storage.remove (roomKey (w.rooms r).roomId))
      (managing : k'.managingRooms = w.managingRooms) : Filing J w k' (.finishDispose r) a
  | gone {r : RoomRef} {a : Answer} (storage : k'.storage = w.storage)
      (managing : k'.managingRooms = w.managingRooms.erase (w.rooms r).roomId) :
    Filing J w k' (.onRoomDisposed r) a

theorem Filing.same {k' : Stores} (storage : k'.storage = w.storage)
    (managing : k'.managingRooms = w.managingRooms) : Filing J w k' cmd a :=
  .kept (fun _ _ found _ => by rw [storage]; exact found) managing

theorem filing_of_ledger {k : Ledger} (ledger : o.world.ledger = k) (now : k.now = w.now)
    (storage : k.storage = w.storage) (managing : k.managingRooms = w.managingRooms) :
    o.world.now = w.now ∧ Filing J w o.world.toStores cmd a := by
  have stores := congrArg Ledger.toStores ledger
  exact ⟨(congrArg Stores.now stores).trans now,
    .same ((congrArg Stores.storage stores).trans storage)
      ((congrArg Stores.managingRooms stores).trans managing)⟩

theorem inHook_filing {r : RoomRef} {hook : Hook} (h : exec M J w (.inHook r hook) a = some o) :
    o.world.now = w.now ∧ Filing J w o.world.toStores (.inHook r hook) a := by
  cases a with
  | setMetadata metadata =>
    simp only [exec, inHook, touch_rooms, touch_toStores] at h
    cases set : RoomFetcher.setRoomMetadata J w.storage w.now (w.rooms r).roomId metadata with
    | error x =>
      simp only [set] at h
      obtain rfl := Option.some.inj h
      exact filing_of_ledger (ledger_touch w r) rfl rfl rfl
    | ok storage =>
      simp only [set] at h
      obtain rfl := Option.some.inj h
      exact ⟨rfl, .metadata set rfl⟩
  | setGameValues values =>
    simp only [exec, inHook] at h
    cases set : GameValues.setAll J w.storage w.now values with
    | error x =>
      simp only [set] at h
      obtain rfl := Option.some.inj h
      exact ⟨rfl, .same rfl rfl⟩
    | ok storage =>
      simp only [set] at h
      obtain rfl := Option.some.inj h
      refine ⟨rfl, .kept (fun roomId e found _ => ?_) rfl⟩
      unfold GameValues.setAll at set
      cases dumped : Sio.dumpText J values with
      | error x => rw [dumped] at set; cases set
      | ok text =>
        rw [dumped] at set
        obtain rfl := Except.ok.inj set
        refine Eq.trans ?_ found
        exact MemoryStorage.lookup_set_ne (roomKey_ne_gameValues roomId) _ _ _ _
  | ret | throw =>
    obtain rfl := Option.some.inj h
    exact filing_of_ledger rfl rfl rfl rfl
  | dispose r' =>
    simp only [exec, inHook] at h
    split at h
    · obtain rfl := Option.some.inj h
      have keeps := keeps_dispose w.ledger r' .hook
      have stores := dispose_stores w.ledger r' .hook
      have now := congrArg Stores.now stores
      have storage := congrArg Stores.storage stores
      exact filing_of_ledger (dispose_cases w r' .hook).1 now storage keeps.managingRooms
    · cases h
  | removeFromRoom sessionId =>
    obtain rfl := Option.some.inj h
    exact filing_of_ledger (removeClient_cases w r sessionId true).1 rfl rfl rfl
  | allowReconnection clientId seconds =>
    simp only [exec, inHook] at h
    split at h <;> obtain rfl := Option.some.inj h
    · exact filing_of_ledger (ledger_touch w r) rfl rfl rfl
    · have ledger := ledger_allowReconnection (w.touch r) r clientId seconds
      rw [ledger_touch] at ledger
      exact filing_of_ledger ledger rfl rfl rfl
  | send sessionId key data =>
    obtain rfl := Option.some.inj h
    exact filing_of_ledger (ledger_sendTo ..) (by rw [ledger_touch]; rfl) (by rw [ledger_touch]; rfl)
      (by rw [ledger_touch]; rfl)
  | setState state | addJoinListener | addLeaveListener =>
    obtain rfl := Option.some.inj h
    have touched : (w.touch r).toStores = w.toStores := touch_toStores w r
    exact ⟨congrArg Stores.now touched, .same (congrArg Stores.storage touched)
      (congrArg Stores.managingRooms touched)⟩
  | _ => cases h

theorem Effect.filing (h : Effect J w cmd a o) (inside : ∀ r hook, cmd ≠ .inHook r hook) :
    o.world.now = w.now ∧ Filing J w o.world.toStores cmd a := by
  have disposed : ∀ {r : RoomRef} {cause : Cause}, (w.ledger.dispose r cause).now = w.now ∧
      (w.ledger.dispose r cause).storage = w.storage ∧
      (w.ledger.dispose r cause).managingRooms = w.managingRooms := by
    intro r cause
    rw [dispose_stores]
    exact ⟨rfl, rfl, rfl⟩
  cases h with
  | still ledger | emptied ledger => exact filing_of_ledger ledger rfl rfl rfl
  | openInfo ledger | granted _ ledger | listened ledger | admitted ledger | closeInfo ledger
  | removed _ ledger | unrecorded _ ledger => exact filing_of_ledger ledger rfl rfl rfl
  | stored => exact absurd rfl (inside _ _)
  | purged ledger | birth _ ledger =>
    have stores := congrArg Ledger.toStores ledger
    have storage := congrArg Stores.storage stores
    have now := congrArg Stores.now stores
    have managing := congrArg Stores.managingRooms stores
    refine ⟨now, .kept (fun roomId e found fresh => ?_) managing⟩
    refine (congrArg (fun s : MemoryStorage => s.entries.lookup (roomKey roomId)) storage).trans ?_
    exact Snapshots.lookup_purge_some found fresh
  | disposed _ ledger =>
    obtain ⟨now, storage, managing⟩ := disposed
    exact filing_of_ledger ledger now storage managing
  | autoDisposed _ ledger =>
    obtain ⟨now, storage, managing⟩ := disposed
    exact filing_of_ledger ledger now storage managing
  | @timedOut _ _ v _ _ ledger =>
    obtain ⟨_, stores⟩ := reconnectTimeout_stores w.ledger v
    have now := congrArg Stores.now stores
    have storage := congrArg Stores.storage stores
    have managing := congrArg Stores.managingRooms stores
    exact filing_of_ledger ledger now storage managing
  | @rejoined _ _ _ v _ _ _ _ ledger =>
    obtain ⟨_, stores⟩ := rejoined_stores w.ledger v
    have now := congrArg Stores.now stores
    have storage := congrArg Stores.storage stores
    have managing := congrArg Stores.managingRooms stores
    exact filing_of_ledger ledger now storage managing
  | @ended sessionId _ _ ledger =>
    obtain ⟨_, stores⟩ := endOp_stores w.ledger sessionId
    have now := congrArg Stores.now stores
    have storage := congrArg Stores.storage stores
    have managing := congrArg Stores.managingRooms stores
    exact filing_of_ledger ledger now storage managing
  | @withdrawn r _ w' ledger =>
    obtain ⟨_, _, _, stores, -⟩ := finishDispose_stores w.ledger r
    have all := (congrArg Ledger.toStores ledger).trans stores
    have now := congrArg Stores.now all
    have managing := congrArg Stores.managingRooms all
    refine ⟨now, .withdrawn ?_ managing⟩
    exact (congrArg (fun k : Ledger => k.storage) ledger).trans (storage_finishDispose w.ledger r)
  | @registered r client creator _ w' storage added ledger =>
    have stores := congrArg Ledger.toStores ledger
    have stored : w'.storage = storage := congrArg Stores.storage stores
    have now := congrArg Stores.now stores
    refine ⟨now, .registered ?_ ?_⟩
    · rw [Outcome.world_go, stored]
      exact added
    · have same : ((w.ledger.subscribeRoom r).lives r).roomId = (w.rooms r).roomId := by
        rw [subscribeRoom_self]
        rfl
      refine (congrArg Stores.managingRooms stores).trans ?_
      change w.managingRooms.insert ((w.ledger.subscribeRoom r).lives r).roomId r = _
      rw [same]
  | @gone r _ w' ledger =>
    have stores := (congrArg Ledger.toStores ledger).trans (onRoomDisposed_stores w.ledger r)
    have now := congrArg Stores.now stores
    have storage := congrArg Stores.storage stores
    have managing := congrArg Stores.managingRooms stores
    exact ⟨now, .gone storage managing⟩

theorem exec_filing (h : exec M J w cmd a = some o) :
    o.world.now = w.now ∧ Filing J w o.world.toStores cmd a := by
  by_cases inside : ∃ r hook, cmd = .inHook r hook
  · obtain ⟨r, hook, rfl⟩ := inside
    exact inHook_filing h
  · exact (exec_effect M J h).filing fun r hook is => inside ⟨r, hook, is⟩

end

/-! The record of a room. -/

def OnRecord (J : JsonText) (s : MemoryStorage) (now : ℤ) (roomId : Str) (metadata : Json) : Prop :=
  ∃ e snapshot, s.entries.lookup (roomKey roomId) = some e ∧ MemoryStorage.expired now e = false ∧
    J.parse e.value = .ok snapshot.toJson.reread ∧ snapshot.id = roomId ∧
    Snapshots.Storable snapshot ∧ snapshot.metadata = metadata

section
variable {J : JsonText} {s s' : MemoryStorage} {now : ℤ} {roomId : Str} {metadata : Json}

theorem OnRecord.frame (h : OnRecord J s now roomId metadata)
    (kept : ∀ e, s.entries.lookup (roomKey roomId) = some e → MemoryStorage.expired now e = false →
      s'.entries.lookup (roomKey roomId) = some e) : OnRecord J s' now roomId metadata := by
  obtain ⟨e, snapshot, found, fresh, stored⟩ := h
  exact ⟨e, snapshot, kept e found fresh, fresh, stored⟩

/-- What is stored can be read back, and the other records are untouched. -/
theorem addRoom_onRecord (lawful : J.Lawful) {room : RoomSnapshot}
    (storable : Snapshots.Storable room) (added : RoomFetcher.addRoom J s now room = .ok s') :
    OnRecord J s' now room.id room.metadata := by
  obtain ⟨text, dump, parses⟩ := lawful.dump_valid _ storable.utf8
  rw [RoomFetcher.addRoom, Sio.dumpText, dump] at added
  obtain rfl := Except.ok.inj added
  refine ⟨⟨text, some (now + MemoryStorage.threeHours)⟩, room, AList.lookup_insert _, ?_, parses, rfl,
    storable, rfl⟩
  exact decide_eq_false (by unfold MemoryStorage.threeHours; omega)

theorem addRoom_other (lawful : J.Lawful) {room : RoomSnapshot}
    (added : RoomFetcher.addRoom J s now room = .ok s') (other : roomId ≠ room.id) :
    s'.entries.lookup (roomKey roomId) = s.entries.lookup (roomKey roomId) := by
  obtain ⟨text, rfl, -⟩ := addRoom_ok lawful added
  exact MemoryStorage.lookup_set_ne (fun same => other (roomKey_injective.1 same)) _ _ _ _

theorem OnRecord.find (h : OnRecord J s now roomId metadata) : ∃ snapshot,
    RoomFetcher.findRoomById J s now roomId = .ok snapshot ∧ snapshot.id = roomId ∧
      snapshot.toJson.utf8 = true ∧ snapshot.metadata.eqv metadata = true := by
  obtain ⟨e, snapshot, found, fresh, parses, rfl, storable, rfl⟩ := h
  refine ⟨{ snapshot with metadata := snapshot.metadata.reread }, ?_, rfl, ?_,
    eqv_reread storable.ordered storable.finite⟩
  · have get : s.get now (roomKey snapshot.id) = some e.value :=
      MemoryStorage.get_eq_some.2 ⟨e, found, fresh, rfl⟩
    rw [RoomFetcher.findRoomById, get]
    dsimp only
    rw [parses]
    simp only [Except.mapError, Except.bind]
    exact snapshot_reread snapshot
  · have valid := utf8_reread (Snapshots.utf8_metadata storable.utf8)
    exact Snapshots.utf8_withMetadata storable.utf8 valid

/-- `set_room_metadata` of a room with a record succeeds. -/
theorem OnRecord.setRoomMetadata (h : OnRecord J s now roomId metadata) (lawful : J.Lawful)
    {metadata' : Json} (utf8 : metadata'.utf8 = true) (ordered : metadata'.ordered = true)
    (finite : metadata'.finiteNumbers = true) :
    ∃ s', RoomFetcher.setRoomMetadata J s now roomId metadata' = .ok s' ∧
      OnRecord J s' now roomId metadata' ∧ ∀ other, other ≠ roomId →
        s'.entries.lookup (roomKey other) = s.entries.lookup (roomKey other) := by
  obtain ⟨snapshot, found, rfl, valid, -⟩ := h.find
  have storable : Snapshots.Storable { snapshot with metadata := metadata' } :=
    ⟨Snapshots.utf8_withMetadata valid utf8, ordered, finite⟩
  obtain ⟨s', added⟩ := addRoom_valid lawful s now storable.utf8
  refine ⟨s', ?_, addRoom_onRecord lawful storable added, fun other ne => addRoom_other lawful added ne⟩
  rw [RoomFetcher.setRoomMetadata, found]
  exact added

/-- `get_list_of_rooms_with_data` has a snapshot of the room, and none of it with other metadata. -/
def Listed (J : JsonText) (s : MemoryStorage) (now : ℤ) (roomId : Str) (metadata : Json) : Prop :=
  (∃ room ∈ RoomFetcher.getListOfRoomsWithData J s now, room.id = roomId) ∧
    ∀ room ∈ RoomFetcher.getListOfRoomsWithData J s now, room.id = roomId →
      room.metadata.eqv metadata = true

def readRoom (J : JsonText) : Option Str → Option RoomSnapshot
  | none => none
  | some raw => (((J.parse raw).mapError Exn.std).bind RoomSnapshot.fromJson).toOption

theorem mem_getListOfRoomsWithData {room : RoomSnapshot} :
    room ∈ RoomFetcher.getListOfRoomsWithData J s now ↔
      ∃ id, RoomFetcher.findRoomById J s now id = .ok room := by
  have read : ∀ id, readRoom J ((s.purge now).get now (roomKey id)) =
      (RoomFetcher.findRoomById J s now id).toOption := by
    intro id
    rw [MemoryStorage.get_purge, RoomFetcher.findRoomById]
    cases s.get now (roomKey id) <;> rfl
  rw [RoomFetcher.getListOfRoomsWithData, List.mem_filterMap]
  constructor
  · rintro ⟨id, -, found⟩
    replace found := (read id).symm.trans found
    refine ⟨id, ?_⟩
    cases result : RoomFetcher.findRoomById J s now id with
    | error x => rw [result] at found; cases found
    | ok room' =>
      rw [result] at found
      obtain rfl := Option.some.inj found
      rfl
  · rintro ⟨id, found⟩
    refine ⟨id, MemoryStorage.mem_fetchKeys.2 ?_, (read id).trans (congrArg Except.toOption found)⟩
    rw [RoomFetcher.findRoomById] at found
    cases get : s.get now (roomKey id) with
    | none => rw [get] at found; cases found
    | some raw => exact ⟨raw, get⟩

theorem OnRecord.listed (h : OnRecord J s now roomId metadata)
    (named : ∀ id e, s.entries.lookup (roomKey id) = some e → Records J e.value id) :
    Listed J s now roomId metadata := by
  obtain ⟨snapshot, found, id, -, same⟩ := h.find
  refine ⟨⟨snapshot, mem_getListOfRoomsWithData.2 ⟨roomId, found⟩, id⟩, fun room mem is => ?_⟩
  obtain ⟨id', found'⟩ := mem_getListOfRoomsWithData.1 mem
  have own : id' = room.id := by
    rw [RoomFetcher.findRoomById] at found'
    cases get : s.get now (roomKey id') with
    | none => rw [get] at found'; cases found'
    | some raw =>
      rw [get] at found'
      obtain ⟨e, stored, -, rfl⟩ := MemoryStorage.get_eq_some.1 get
      obtain ⟨snapshot', reads, rfl⟩ := named id' e stored
      obtain rfl := Except.ok.inj (reads.symm.trans found')
      rfl
  rw [own, is, found] at found'
  obtain rfl := Except.ok.inj found'
  exact same

end

/-! What a command does to the rooms that are managed. -/

section
variable {J : JsonText} {w : World} {cmd : Cmd} {a : Answer} {o : Out} {r : RoomRef}

/-- `create_new_room` ends with a registered room, or the map is as it was. -/
theorem Effect.creates {client : SimpleClient} {creator : Creator}
    (h : Effect J w (.created r client creator) a o) :
    o.world.managingRooms = w.managingRooms ∨ (o.world.rooms r).stage = .registered := by
  cases h with
  | still ledger =>
    have stores := congrArg Ledger.toStores ledger
    exact .inl (congrArg Stores.managingRooms stores)
  | unrecorded _ ledger =>
    have managing := congrArg Stores.managingRooms (congrArg Ledger.toStores ledger)
    exact .inl managing
  | registered _ ledger =>
    have lives := congrArg (fun k : Ledger => (k.lives r).stage) ledger
    exact .inr (lives.trans (congrArg Life.stage (registerNewRoom_self _ r _)))
  | removed calls => cases calls
  | disposed calls => cases calls

/-- `dispose` has the server told once it has removed the record. -/
theorem Effect.withdraws (h : Effect J w (.finishDispose r) a o) :
    (o.world.rooms r).stage = .withdrawn ∧ .onRoomDisposed r ∈ o.push ∧ o.parks = false := by
  cases h with
  | still _ _ _ _ _ keeps => cases keeps
  | removed calls => cases calls
  | disposed calls => cases calls
  | withdrawn ledger =>
    have lives := congrArg (fun k : Ledger => (k.lives r).stage) ledger
    refine ⟨lives.trans (congrArg Life.stage (finishDispose_self w.ledger r)), ?_, rfl⟩
    exact List.mem_cons_of_mem _ List.mem_cons_self

/-- Only `create_new_room` turns a room into a registered one. -/
theorem Effect.stage_registered (h : Effect J w cmd a o) (other : cmd.makes ≠ some r)
    (registered : (o.world.rooms r).stage = .registered) : (w.rooms r).stage = .registered := by
  rcases h.rewires r with post | ⟨-, post⟩ | - | ⟨post, -⟩ | post
  · exact (congrArg Post.stage post).symm.trans registered
  · cases registered.symm.trans (congrArg Post.stage post)
  · exact absurd rfl other
  · cases registered.symm.trans (congrArg Post.stage post)
  · cases registered.symm.trans (congrArg Post.stage post)

/-- A room is withdrawn by its own disposal. -/
theorem Effect.stage_withdrawn (h : Effect J w cmd a o) (other : cmd.makes ≠ some r)
    (withdrawn : (o.world.rooms r).stage = .withdrawn) :
    (w.rooms r).stage = .withdrawn ∨ cmd = .finishDispose r := by
  rcases h.rewires r with post | ⟨-, post⟩ | - | - | post
  · exact .inl ((congrArg Post.stage post).symm.trans withdrawn)
  · cases withdrawn.symm.trans (congrArg Post.stage post)
  · exact absurd rfl other
  · exact .inr rfl
  · cases withdrawn.symm.trans (congrArg Post.stage post)

/-- A room that has no timer had none before. -/
theorem Effect.timer_none (h : Effect J w cmd a o)
    (none : (o.world.rooms r).autoDisposeTimer = none) :
    (w.rooms r).autoDisposeTimer = .none ∨ r = w.nextRoom := by
  rcases h.rewires r with post | ⟨fresh, -⟩ | ⟨post, -⟩ | ⟨post, -⟩ | post
  · exact .inl ((congrArg Post.autoDisposeTimer post).symm.trans none)
  · exact .inr fresh
  · cases none.symm.trans (congrArg Post.autoDisposeTimer post)
  · exact .inl ((congrArg Post.autoDisposeTimer post).symm.trans none)
  · exact .inl ((congrArg Post.autoDisposeTimer post).symm.trans none)

end

/-- `set_metadata` is called for rooms that are not being disposed of, with values that have a text
and can be read back from it. -/
def Speaks (c : ServerConfig) (l : Label Answer EnvEvent) : Prop :=
  ∀ metadata tid r hook rest, l = .act (.setMetadata metadata) →
    c.running = some ⟨tid, .inHook r hook :: rest, none⟩ → (c.world.rooms r).disposing = false ∧
      metadata.utf8 = true ∧ metadata.ordered = true ∧ metadata.finiteNumbers = true

structure Tidy (c : ServerConfig) (l : Label Answer EnvEvent) : Prop where
  /-- `set_metadata` is called for a room that is managed. -/
  managed : ∀ metadata tid r hook rest, l = .act (.setMetadata metadata) →
    c.running = some ⟨tid, .inHook r hook :: rest, none⟩ →
    c.world.managingRooms.lookup (c.world.rooms r).roomId = some r
  /-- A disposal does not remove the record of another room. -/
  own : ∀ tid r rest, c.running = some ⟨tid, .finishDispose r :: rest, none⟩ →
    ∀ r', c.world.managingRooms.lookup (c.world.rooms r).roomId = some r' → r' = r
  /-- The record of a managed room does not expire. -/
  lasting : ∀ ms, l = .env (.tick ms) → ∀ roomId r e,
    c.world.managingRooms.lookup roomId = some r →
    c.world.storage.entries.lookup (roomKey roomId) = some e →
    MemoryStorage.expired (c.world.now + ms) e = false
  /-- No exception leaves the `on_dispose` of a managed room. -/
  returns : ∀ tid r rest x, c.running = some ⟨tid, .onRoomDisposed r :: rest, some x⟩ →
    c.world.managingRooms.lookup (c.world.rooms r).roomId ≠ some r

/-- A managed room has its metadata on record, unless its disposal is about to tell the server. -/
structure Accurate (J : JsonText) (c : ServerConfig) : Prop where
  known : Known J c
  recorded : ∀ {roomId r}, c.world.managingRooms.lookup roomId = some r →
    (c.world.rooms r).stage = .registered →
    OnRecord J c.world.storage c.world.now roomId (c.world.rooms r).metadata
  withdrawing : ∀ {roomId r}, c.world.managingRooms.lookup roomId = some r →
    (c.world.rooms r).stage = .withdrawn →
    ∃ t, c.running = some t ∧ .onRoomDisposed r ∈ t.stack
  blank : ∀ {r}, (c.world.rooms r).autoDisposeTimer = none → (c.world.rooms r).metadata = .obj []

section
variable {M : MsgpackC} {J : JsonText} {c c' : ServerConfig} {l : Label Answer EnvEvent}

theorem Accurate.initial : Accurate J ServerConfig.initial :=
  ⟨.initial, nofun, nofun, fun _ => rfl⟩

/-- A room that is about to be subscribed is not managed. -/
theorem Accurate.unmanaged (h : Accurate J c) {tid : Tid} {r : RoomRef} {client : SimpleClient}
    {creator : Creator} {rest : List Cmd}
    (top : c.running = some ⟨tid, .created r client creator :: rest, none⟩) (roomId : Str) :
    c.world.managingRooms.lookup roomId ≠ some r := by
  intro managed
  have stack := h.known.kept.stack top
  obtain ⟨-, game, -, -⟩ : c.world.ledger.Unmade r := stack.ok _ List.mem_cons_self
  have sound := h.known.kept.sound
  obtain ⟨-, -, stage⟩ := sound.managed managed
  rcases stage with stage | stage
  · have listens := (sound.registered stage).1
    rw [game] at listens
    cases listens
  · obtain ⟨t, top', mem⟩ := h.withdrawing managed stage
    cases top.symm.trans top'
    rcases List.mem_cons.1 mem with mem | mem
    · cases mem
    · obtain ⟨_, family, -⟩ :=
        (List.pairwise_cons.1 stack.order).1 _ mem (by simp [Cmd.withdraws])
      cases family

/-- What is left to do of a disposal below the top of the stack is still left after the step. -/
theorem Accurate.pending (h : Accurate J c) {tid : Tid} {cmd : Cmd} {rest : List Cmd} {a : Answer}
    {o : Out} (top : c.running = some ⟨tid, cmd :: rest, none⟩)
    (run : exec M J c.world cmd a = some o) {r : RoomRef} (mem : .onRoomDisposed r ∈ rest) :
    ∃ t, (settle c tid rest o).running = some t ∧ .onRoomDisposed r ∈ t.stack := by
  have stack := h.known.kept.stack top
  have quiet := (List.pairwise_cons.1 stack.order).1 _ mem (by simp [Cmd.withdraws])
  have goes : o.parks = false := by
    cases parks : o.parks with
    | false => rfl
    | true => exact absurd quiet ((exec_effect M J run).parks parks).1
  exact ⟨_, settle_goes goes, List.mem_append_right _ mem⟩

/-- `set_metadata` of a room that is managed and not being disposed of. -/
theorem Accurate.sets (h : Accurate J c) (lawful : J.Lawful) {tid : Tid} {r : RoomRef} {hook : Hook}
    {rest : List Cmd} {metadata : Json}
    (top : c.running = some ⟨tid, .inHook r hook :: rest, none⟩)
    (speaks : Speaks c (.act (.setMetadata metadata)))
    (tidy : Tidy c (.act (.setMetadata metadata))) :
    (c.world.rooms r).stage = .registered ∧ ∃ storage,
      exec M J c.world (.inHook r hook) (.setMetadata metadata) = some (.go
        ({ c.world.touch r with storage := storage }.setRoom r
          { c.world.rooms r with metadata := metadata }) [.inHook r hook]) ∧
      OnRecord J storage c.world.now (c.world.rooms r).roomId metadata ∧
      ∀ other, other ≠ (c.world.rooms r).roomId →
        storage.entries.lookup (roomKey other) = c.world.storage.entries.lookup (roomKey other) := by
  obtain ⟨lives, utf8, ordered, finite⟩ := speaks _ _ _ _ _ rfl top
  have managed := tidy.managed _ _ _ _ _ rfl top
  have sound := h.known.kept.sound
  have registered : (c.world.rooms r).stage = .registered := by
    refine (sound.managed managed).2.2.resolve_right fun withdrawn => ?_
    cases lives.symm.trans (sound.ended (.inl withdrawn))
  obtain ⟨storage, set, recorded, others⟩ :=
    (h.recorded managed registered).setRoomMetadata lawful utf8 ordered finite
  refine ⟨registered, storage, ?_, recorded, others⟩
  simp only [exec, inHook, touch_rooms, touch_toStores, set]

theorem Accurate.exec_sets (h : Accurate J c) (lawful : J.Lawful) {tid : Tid} {r : RoomRef}
    {hook : Hook} {rest : List Cmd} {metadata : Json} {o : Out}
    (top : c.running = some ⟨tid, .inHook r hook :: rest, none⟩)
    (speaks : Speaks c (.act (.setMetadata metadata)))
    (tidy : Tidy c (.act (.setMetadata metadata)))
    (run : exec M J c.world (.inHook r hook) (.setMetadata metadata) = some o)
    (known : Known J (settle c tid rest o)) : Accurate J (settle c tid rest o) := by
  obtain ⟨registered, storage, goes, recorded, others⟩ := h.sets (M := M) lawful top speaks tidy
  obtain rfl := Option.some.inj (goes.symm.trans run)
  have sound := h.known.kept.sound
  have stores := touch_toStores c.world r
  have managing : (c.world.touch r).managingRooms = c.world.managingRooms :=
    congrArg Stores.managingRooms stores
  have now : (c.world.touch r).now = c.world.now := congrArg Stores.now stores
  have self : Function.update (c.world.touch r).rooms r
      { c.world.rooms r with metadata := metadata } r =
        { c.world.rooms r with metadata := metadata } := Function.update_self ..
  have other : ∀ {r'}, r' ≠ r → Function.update (c.world.touch r).rooms r
      { c.world.rooms r with metadata := metadata } r' = c.world.rooms r' := fun ne =>
    (Function.update_of_ne ne ..).trans (congrFun (touch_rooms c.world r) _)
  refine ⟨known, fun {roomId r'} managed stage => ?_, fun {roomId r'} managed stage => ?_,
    fun {r'} timer => ?_⟩
  · change (c.world.touch r).managingRooms.lookup roomId = some r' at managed
    rw [managing] at managed
    change OnRecord J storage (c.world.touch r).now roomId (Function.update (c.world.touch r).rooms
      r { c.world.rooms r with metadata := metadata } r').metadata
    rw [now]
    by_cases same : r' = r
    · subst same
      rw [self, ← (sound.managed managed).2.1]
      exact recorded
    · change (Function.update (c.world.touch r).rooms r _ r').stage = _ at stage
      rw [other same] at stage ⊢
      refine (h.recorded managed stage).frame fun e found _ => (others roomId ?_).trans found
      rintro rfl
      exact same (Option.some.inj
        (managed.symm.trans (tidy.managed _ _ _ _ _ rfl top)))
  · change (c.world.touch r).managingRooms.lookup roomId = some r' at managed
    rw [managing] at managed
    change (Function.update (c.world.touch r).rooms r _ r').stage = _ at stage
    by_cases same : r' = r
    · subst same
      rw [self] at stage
      cases registered.symm.trans stage
    · rw [other same] at stage
      obtain ⟨t, top', mem⟩ := h.withdrawing managed stage
      cases top.symm.trans top'
      exact ⟨_, rfl, mem⟩
  · change (Function.update (c.world.touch r).rooms r _ r').autoDisposeTimer = _ at timer
    change (Function.update (c.world.touch r).rooms r _ r').metadata = _
    by_cases same : r' = r
    · subst same
      rw [self] at timer
      have set := (sound.registered registered).2.2
      rw [show (c.world.ledger.lives r').autoDisposeTimer = none from timer] at set
      cases set
    · rw [other same] at timer ⊢
      exact h.blank timer

/-- The record of a room that is managed and registered after a step. -/
theorem Accurate.exec_recorded (h : Accurate J c) (lawful : J.Lawful) (tidy : Tidy c l) {tid : Tid}
    {cmd : Cmd} {rest : List Cmd} {a : Answer} {o : Out}
    (top : c.running = some ⟨tid, cmd :: rest, none⟩) (run : exec M J c.world cmd a = some o)
    (other : ∀ r hook metadata, cmd = .inHook r hook → a ≠ .setMetadata metadata)
    {roomId : Str} {r : RoomRef} (managed : o.world.managingRooms.lookup roomId = some r)
    (registered : (o.world.rooms r).stage = .registered) :
    OnRecord J o.world.storage o.world.now roomId (o.world.rooms r).metadata := by
  have effect := exec_effect M J run
  obtain ⟨now, filing⟩ := exec_filing run
  have sound := h.known.kept.sound
  -- a room that was managed before and whose record is kept
  have before : c.world.managingRooms.lookup roomId = some r →
      (∀ e, c.world.storage.entries.lookup (roomKey roomId) = some e →
        MemoryStorage.expired c.world.now e = false →
        o.world.storage.entries.lookup (roomKey roomId) = some e) →
      OnRecord J o.world.storage o.world.now roomId (o.world.rooms r).metadata := by
    intro managed₀ kept
    have made : cmd.makes ≠ some r := by
      intro makes
      cases cmd with
      | created =>
        cases makes
        exact h.unmanaged top roomId managed₀
      | _ => cases makes
    have old : (o.world.rooms r).metadata = (c.world.rooms r).metadata := by
      refine (exec_metadata run other r).resolve_right fun ⟨new, _⟩ => ?_
      exact absurd new (sound.managed managed₀).1.ne
    rw [now, old]
    exact (h.recorded managed₀ (effect.stage_registered made registered)).frame kept
  rcases filing with ⟨records, managing⟩ | - | ⟨added, managing⟩ | ⟨storage, managing⟩ |
    ⟨storage, managing⟩
  · exact before (managing ▸ managed) (records roomId)
  · exact absurd rfl (other _ _ _ rfl)
  · rename_i r₀ client creator
    change o.world.managingRooms = _ at managing
    rw [managing] at managed
    by_cases here : roomId = (c.world.rooms r₀).roomId
    · subst here
      obtain rfl := Option.some.inj ((AList.lookup_insert _).symm.trans managed)
      obtain ⟨born, -, -, timer⟩ : c.world.ledger.Unmade r₀ :=
        (h.known.kept.stack top).ok _ List.mem_cons_self
      have old : (o.world.rooms r₀).metadata = .obj [] :=
        (exec_metadata run other r₀).elim (fun same => same.trans (h.blank timer)) And.right
      rw [now, old]
      have storable : Snapshots.Storable (snapshotOf c.world r₀ client) := by
        refine ⟨?_, rfl, rfl⟩
        cases utf8 : (snapshotOf c.world r₀ client).toJson.utf8 with
        | true => rfl
        | false =>
          obtain ⟨what, refused⟩ := addRoom_invalid lawful c.world.storage c.world.now utf8
          cases refused.symm.trans added
      exact addRoom_onRecord lawful storable added
    · rw [AList.lookup_insert_ne here] at managed
      exact before managed fun e found _ => (addRoom_other lawful added here).trans found
  · rename_i r₀
    change o.world.managingRooms = _ at managing
    rw [managing] at managed
    refine before managed fun e found _ => ?_
    change o.world.storage = _ at storage
    rw [storage, MemoryStorage.lookup_remove_ne, found]
    intro same
    obtain rfl := roomKey_injective.1 same
    obtain rfl := tidy.own _ _ _ top r managed
    cases registered.symm.trans effect.withdraws.1
  · rename_i r₀
    change o.world.managingRooms = _ at managing
    rw [managing] at managed
    by_cases here : roomId = (c.world.rooms r₀).roomId
    · rw [here, AList.lookup_erase] at managed
      cases managed
    · rw [AList.lookup_erase_ne here] at managed
      refine before managed fun e found _ => ?_
      change o.world.storage = _ at storage
      rw [storage, found]

/-- A room that is managed and withdrawn after a step is still to be told of. -/
theorem Accurate.exec_withdrawing (h : Accurate J c) {tid : Tid} {cmd : Cmd} {rest : List Cmd}
    {a : Answer} {o : Out} (top : c.running = some ⟨tid, cmd :: rest, none⟩)
    (run : exec M J c.world cmd a = some o) {roomId : Str} {r : RoomRef}
    (managed : o.world.managingRooms.lookup roomId = some r)
    (withdrawn : (o.world.rooms r).stage = .withdrawn) :
    ∃ t, (settle c tid rest o).running = some t ∧ .onRoomDisposed r ∈ t.stack := by
  have effect := exec_effect M J run
  have made : cmd.makes ≠ some r := by
    intro makes
    cases cmd with
    | created =>
      cases makes
      rcases effect.creates with same | registered
      · exact h.unmanaged top roomId (same ▸ managed)
      · cases registered.symm.trans withdrawn
    | _ => cases makes
  have managed₀ := (effect.managing managed).resolve_right made
  rcases effect.stage_withdrawn made withdrawn with before | rfl
  · obtain ⟨t, top', mem⟩ := h.withdrawing managed₀ before
    cases top.symm.trans top'
    rcases List.mem_cons.1 mem with rfl | mem
    · have ok := (h.known.kept.stack top).ok _ List.mem_cons_self
      exact absurd (.inr ⟨_, managed⟩) (effect.detaches h.known.kept.sound ok)
    · exact h.pending top run mem
  · obtain ⟨-, mem, goes⟩ := effect.withdraws
    exact ⟨_, settle_goes goes, List.mem_append_left _ mem⟩

theorem Accurate.step (h : Accurate J c) (lawful : J.Lawful) (speaks : Speaks c l) (tidy : Tidy c l)
    (step : Step (server M J) c l c') : Accurate J c' := by
  have known := h.known.step lawful step
  cases step with
  | @finish tid a _ top =>
    refine ⟨known, h.recorded, fun managed withdrawn => ?_, h.blank⟩
    obtain ⟨t, top', mem⟩ := h.withdrawing managed withdrawn
    cases top.symm.trans top'
    cases mem
  | crash => exact ⟨known, h.recorded, h.withdrawing, h.blank⟩
  | @exec tid cmd rest a o _ top run =>
    by_cases sets : ∃ r hook metadata, cmd = .inHook r hook ∧ a = .setMetadata metadata
    · obtain ⟨r, hook, metadata, rfl, rfl⟩ := sets
      exact h.exec_sets (M := M) lawful top speaks tidy run known
    · have other : ∀ r hook metadata, cmd = .inHook r hook → a ≠ .setMetadata metadata :=
        fun r hook metadata inside set => sets ⟨r, hook, metadata, inside, set⟩
      refine ⟨known, fun managed registered => ?_, fun managed withdrawn => ?_, fun {r} timer => ?_⟩
      · rw [world_settle] at managed registered ⊢
        exact h.exec_recorded lawful tidy top run other managed registered
      · rw [world_settle] at managed withdrawn
        exact h.exec_withdrawing top run managed withdrawn
      · rw [world_settle] at timer ⊢
        refine (exec_metadata run other r).elim (fun same => same.trans (h.blank ?_)) And.right
        refine ((exec_effect M J run).timer_none timer).elim id fun new => ?_
        exact (h.known.kept.sound.unborn new.ge).2.2.1
  | @unwind tid cmd rest x a o _ top run =>
    have effect := unwind_effect run
    have stores := effect.stores
    have metadata := unwind_metadata run
    have post := effect.rooms
    refine ⟨known, fun {roomId r} managed registered => ?_, fun {roomId r} managed withdrawn => ?_,
      fun {r} timer => ?_⟩
    · rw [world_settle] at managed registered ⊢
      rw [stores] at managed ⊢
      rw [metadata.apply r]
      exact h.recorded managed ((congrArg Post.stage (post r)).symm.trans registered)
    · rw [world_settle] at managed withdrawn
      rw [stores] at managed
      have before := (congrArg Post.stage (post r)).symm.trans withdrawn
      obtain ⟨t, top', mem⟩ := h.withdrawing managed before
      cases top.symm.trans top'
      have goes : o.parks = false := by cases effect <;> rfl
      rcases List.mem_cons.1 mem with rfl | mem
      · refine absurd ?_ (tidy.returns _ _ _ _ top)
        rw [show (c.world.rooms r).roomId = roomId from (h.known.kept.sound.managed managed).2.1]
        exact managed
      · exact ⟨_, settle_goes goes, List.mem_append_right _ mem⟩
    · rw [world_settle] at timer ⊢
      rw [metadata.apply r]
      exact h.blank ((congrArg Post.autoDisposeTimer (post r)).symm.trans timer)
  | take _ free =>
    refine ⟨known, h.recorded, fun managed withdrawn => ?_, h.blank⟩
    obtain ⟨t, top, -⟩ := h.withdrawing managed withdrawn
    cases free.symm.trans top
  | @env e w new _ run =>
    have arrival := spawn_arrival run
    obtain ⟨rooms, storage, managing, -⟩ := arrival.frame
    refine ⟨known, fun {roomId r} managed registered => ?_, fun {roomId r} managed withdrawn => ?_,
      fun {r} timer => ?_⟩
    · dsimp only at managed registered ⊢
      rw [managing] at managed
      rw [rooms] at registered ⊢
      rw [storage]
      have recorded := h.recorded managed registered
      cases arrival with
      | tick =>
        obtain ⟨e, snapshot, found, -, stored⟩ := recorded
        exact ⟨e, snapshot, found, tidy.lasting _ rfl _ _ _ managed found, stored⟩
      | _ => exact recorded
    · dsimp only at managed withdrawn ⊢
      rw [managing] at managed
      rw [rooms] at withdrawn
      exact h.withdrawing managed withdrawn
    · dsimp only at timer ⊢
      rw [rooms] at timer ⊢
      exact h.blank timer

end

/-- The metadata of every managed room is that of its snapshots as long as the lock is free, and a call
of `set_metadata` that meets `ok` does not throw. -/
structure Agrees (M : MsgpackC) (J : JsonText) (ok : ServerConfig → Label Answer EnvEvent → Prop)
    (c : ServerConfig) : Prop where
  listed : c.running = none → ∀ roomId r, c.world.managingRooms.lookup roomId = some r →
    Listed J c.world.storage c.world.now roomId (c.world.rooms r).metadata
  returns : ∀ tid r hook rest metadata o, c.running = some ⟨tid, .inHook r hook :: rest, none⟩ →
    ok c (.act (.setMetadata metadata)) →
    exec M J c.world (.inHook r hook) (.setMetadata metadata) = some o → o.exn = none

/-- In a run in which `set_metadata` is called for managed rooms only, no disposal removes the record of
another room, no record of a managed room expires and no exception leaves its `on_dispose`, the
metadata agrees. -/
theorem metadata_agrees {M : MsgpackC} {J : JsonText} {ls : List (Label Answer EnvEvent)}
    {c : ServerConfig} (lawful : J.Lawful)
    (run : Run (server M J) (fun c l => Speaks c l ∧ Tidy c l) ServerConfig.initial ls c) :
    Agrees M J (fun c l => Speaks c l ∧ Tidy c l) c := by
  have accurate : Accurate J c := run.invariant _ .initial fun accurate meets step =>
    accurate.step lawful meets.1 meets.2 step
  refine ⟨fun free roomId r managed => ?_, fun tid r hook rest metadata o top ok run => ?_⟩
  · refine (accurate.recorded managed ?_).listed fun id e found =>
      (accurate.known.filed.registered id e found).2
    refine (accurate.known.kept.sound.managed managed).2.2.resolve_right fun withdrawn => ?_
    obtain ⟨t, top, -⟩ := accurate.withdrawing managed withdrawn
    cases free.symm.trans top
  · obtain ⟨-, storage, goes, -⟩ := accurate.sets (M := M) lawful top ok.1 ok.2
    obtain rfl := Option.some.inj (goes.symm.trans run)
    rfl

def speaksCheck (c : ServerConfig) : Label Answer EnvEvent → Bool
  | .act (.setMetadata metadata) =>
    match c.running with
    | some ⟨_, .inHook r _ :: _, none⟩ => !(c.world.rooms r).disposing && metadata.utf8 &&
        metadata.ordered && metadata.finiteNumbers
    | _ => true
  | _ => true

def tidyCheck (c : ServerConfig) (l : Label Answer EnvEvent) : Bool :=
  match l, c.running with
  | .env (.tick _), _ => false
  | .act (.setMetadata _), some ⟨_, .inHook r _ :: _, _⟩ =>
    c.world.managingRooms.lookup (c.world.rooms r).roomId == some r
  | _, some ⟨_, cmd :: _, _⟩ => cmd.withdraws.isNone
  | _, _ => true

theorem speaksCheck_sound {c : ServerConfig} {l : Label Answer EnvEvent}
    (h : speaksCheck c l = true) : Speaks c l := by
  rintro metadata tid r hook rest rfl top
  simpa [speaksCheck, top, and_assoc] using h

theorem tidyCheck_sound {c : ServerConfig} {l : Label Answer EnvEvent}
    (h : tidyCheck c l = true) : Tidy c l where
  managed := by
    rintro metadata tid r hook rest rfl top
    simpa [tidyCheck, top] using h
  own := by
    intro tid r rest top
    cases l with
    | take => simp [tidyCheck, top, Cmd.withdraws] at h
    | act a => cases a <;> simp [tidyCheck, top, Cmd.withdraws] at h
    | env e => cases e <;> simp [tidyCheck, top, Cmd.withdraws] at h
  lasting := by
    rintro ms rfl
    simp [tidyCheck] at h
  returns := by
    intro tid r rest x top
    cases l with
    | take => simp [tidyCheck, top, Cmd.withdraws] at h
    | act a => cases a <;> simp [tidyCheck, top, Cmd.withdraws] at h
    | env e => cases e <;> simp [tidyCheck, top, Cmd.withdraws] at h

/-- A room calls `set_metadata` in `on_external_message`. -/
theorem metadata_agrees_asked : ∃ ls c, Run (server shortest Text.reference)
    (fun c l => Speaks c l ∧ Tidy c l) ServerConfig.initial ls c ∧ c.running = none ∧
    (c.world.rooms 0).metadata.eqv (.str (lit "open")) = true ∧
    Agrees shortest Text.reference (fun c l => Speaks c l ∧ Tidy c l) c := by
  have found : (execute (server shortest Text.reference) (fun c l => speaksCheck c l && tidyCheck c l)
      ServerConfig.initial
      (startsUp ++ asksRoom (.setMetadata (.str (lit "open")) :: .ret :: steps 3))).any
      (fun c => c.running.isNone && (c.world.rooms 0).metadata.eqv (.str (lit "open"))) = true := by
    decide +kernel
  obtain ⟨c, run, finished⟩ := exists_run _ found
  have run' : Run _ (fun c l => Speaks c l ∧ Tidy c l) _ _ c := run.weaken _ fun checked =>
    have both := Bool.and_eq_true_iff.1 checked
    ⟨speaksCheck_sound both.1, tidyCheck_sound both.2⟩
  obtain ⟨free, set⟩ := Bool.and_eq_true_iff.1 finished
  exact ⟨_, c, run', Option.isNone_iff_eq_none.1 free, set,
    metadata_agrees Text.reference_lawful run'⟩

/-- `on_create` calls `set_metadata`, and there is no record of the room yet. -/
theorem metadata_agrees_creating : ¬ ∀ (M : MsgpackC) (J : JsonText)
    (ls : List (Label Answer EnvEvent)) (c : ServerConfig), J.Lawful →
      Run (server M J) Speaks ServerConfig.initial ls c → Agrees M J Speaks c := by
  intro agrees
  have found : (execute (server shortest Text.reference) speaksCheck ServerConfig.initial
      (.env (.registerRoom (lit "t") .null) :: turn (steps 2) ++ opensRoom (lit "r") [])).any
      (fun c => match c.running with
        | some ⟨_, .inHook r hook :: _, none⟩ => speaksCheck c (.act (.setMetadata .null)) &&
          (exec shortest Text.reference c.world (.inHook r hook) (.setMetadata .null)).any
            (fun o => o.exn.isSome)
        | _ => false) = true := by
    decide +kernel
  obtain ⟨c, run, reached⟩ := exists_run _ found
  split at reached
  · rename_i tid r hook rest top
    obtain ⟨speaks, throws⟩ := Bool.and_eq_true_iff.1 reached
    obtain ⟨o, goes, threw⟩ := (Option.any_eq_true ..).1 throws
    have none := (agrees _ _ _ c Text.reference_lawful (run.weaken _ speaksCheck_sound)).returns
      _ _ _ _ _ _ top (speaksCheck_sound speaks) goes
    rw [none] at threw
    cases threw
  · cases reached

end Blueboat
