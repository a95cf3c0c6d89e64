import Blueboat.ClientJoins

set_option autoImplicit false

/-! The handlers of a room and its `joined` flag belong to one object. -/
namespace Blueboat.Client

open Protocol LockMachine

def Free (w : World) (event : Str) : Prop := w.eventHandlers.lookup event = none

/-- Where two objects get one room, or a flag survives its connection: an event name that is taken
already (a second object for the same id), a joined object that is not in `rooms_` when the
connection is lost, and `disconnect`, after which nothing is reset. -/
def Separate (c : ClientConfig) : Cmd → Answer → Prop
  | .joinRoom roomId _, _ => Free c.world (messageEvent roomId) ∧ Free c.world (errorEvent roomId)
  | .createRoom .., .requestId id => Free c.world (createEvent id) ∧ Free c.world (errorEvent id)
  | .handle (.created ..) data, _ => ∀ roomId, data.getString = .ok roomId →
      Free c.world (messageEvent roomId) ∧ Free c.world (errorEvent roomId)
  | .copyLostRooms, _ => ∀ o, (c.world.objects o).joined = true → o ∈ c.world.rooms
  | .afterLoop, _ => c.world.running = false → ∀ o, (c.world.objects o).joined = false
  | _, _ => True

def Requested (w : World) (requestId : Str) : Prop :=
  (∃ o options id, w.eventHandlers.lookup (createEvent requestId) = some (.created o options id)) ∧
    ∃ o id, w.eventHandlers.lookup (errorEvent requestId) = some (.createError o id)

/-- The table holds the handlers of every object that has its id, and those of every request. -/
structure Registered (w : World) : Prop where
  own : ∀ {o}, (w.objects o).named = true →
    w.eventHandlers.lookup (messageEvent (w.objects o).id) = some (.message o) ∧
    w.eventHandlers.lookup (errorEvent (w.objects o).id) = some (.joinError o)
  created : ∀ {event o options requestId},
    w.eventHandlers.lookup event = some (.created o options requestId) → Requested w requestId
  createError : ∀ {event o requestId},
    w.eventHandlers.lookup event = some (.createError o requestId) →
    event = errorEvent requestId ∧ Requested w requestId

def Cmd.Registered (w : World) : Cmd → Prop
  | .handle (.created _ _ requestId) _ => Requested w requestId
  | .handle (.createError _ requestId) _ => Requested w requestId
  | .eraseRequest requestId => Requested w requestId
  | .leaveRooms rooms => ∀ {o}, (w.objects o).joined = true → o ∈ rooms
  | _ => True

def Extends (w w' : World) : Prop := ∀ {event handler},
  w.eventHandlers.lookup event = some handler → w'.eventHandlers.lookup event = some handler

theorem Extends.requested {w w' : World} (h : Extends w w') {requestId : Str}
    (requested : Requested w requestId) : Requested w' requestId := by
  obtain ⟨⟨o, options, id, create⟩, o', id', error⟩ := requested
  exact ⟨⟨o, options, id, h create⟩, o', id', h error⟩

theorem errorEvent_ne_messageEvent (id : Str) : errorEvent id ≠ messageEvent id := by
  intro e
  have length := congrArg List.length e
  simp [errorEvent, messageEvent, lit] at length

theorem createEvent_ne_errorEvent (id id' : Str) : createEvent id ≠ errorEvent id' := by
  intro e
  have last := congrArg List.getLast? e
  simp [createEvent, errorEvent, lit] at last

theorem createEvent_inj {id id' : Str} (h : createEvent id = createEvent id') : id = id' :=
  List.append_cancel_right h

theorem errorEvent_inj {id id' : Str} (h : errorEvent id = errorEvent id') : id = id' :=
  List.append_cancel_right h

section
variable {w : World}

theorem Registered.distinct (h : Registered w) {o o' : Ref} (named : (w.objects o).named = true)
    (named' : (w.objects o').named = true) (id : (w.objects o).id = (w.objects o').id) : o = o' := by
  have first := (h.own named).1
  rw [id, (h.own named').1] at first
  exact (Handler.message.inj (Option.some.inj first)).symm

/-- The names of a request are not those of a room. -/
theorem Registered.apart (h : Registered w) {o : Ref} (named : (w.objects o).named = true)
    {requestId : Str} (requested : Requested w requestId) :
    ∀ event, event = messageEvent (w.objects o).id ∨ event = errorEvent (w.objects o).id →
      event ≠ createEvent requestId ∧ event ≠ errorEvent requestId := by
  obtain ⟨⟨_, _, _, create⟩, _, _, error⟩ := requested
  obtain ⟨message, joinError⟩ := h.own named
  rintro event (rfl | rfl) <;> refine ⟨fun e => ?_, fun e => ?_⟩
  · rw [e, create] at message; cases message
  · rw [e, error] at message; cases message
  · rw [e, create] at joinError; cases joinError
  · rw [e, error] at joinError; cases joinError

/-- An object with its id takes two names that are free. -/
theorem Registered.register (h : Registered w) (w₁ : World) (o : Ref)
    (events : w₁.eventHandlers = w.eventHandlers)
    (others : ∀ {o'}, o' ≠ o → w₁.objects o' = w.objects o')
    (message : Free w (messageEvent (w₁.objects o).id))
    (error : Free w (errorEvent (w₁.objects o).id)) :
    Registered (w₁.registerRoomEvents o) ∧ Extends w (w₁.registerRoomEvents o) := by
  have table := lookup_registerRoomEvents w₁ o
  rw [events] at table
  have grows : Extends w (w₁.registerRoomEvents o) := by
    intro event handler found
    rw [table, if_neg, if_neg, found]
    · rintro rfl; rw [error] at found; cases found
    · rintro rfl; rw [message] at found; cases found
  have old : ∀ {event handler}, (w₁.registerRoomEvents o).eventHandlers.lookup event = some handler →
      handler = .message o ∨ handler = .joinError o ∨ w.eventHandlers.lookup event = some handler := by
    intro event handler found
    rw [table] at found
    split at found
    · exact .inl (Option.some.inj found).symm
    · split at found
      · exact .inr (.inl (Option.some.inj found).symm)
      · exact .inr (.inr found)
  refine ⟨⟨fun {o'} named => ?_, fun found => ?_, fun found => ?_⟩, grows⟩
  · by_cases e : o' = o
    · subst e
      change (w₁.registerRoomEvents o').eventHandlers.lookup (messageEvent (w₁.objects o').id) = _ ∧
        (w₁.registerRoomEvents o').eventHandlers.lookup (errorEvent (w₁.objects o').id) = _
      rw [table, table, if_pos rfl, if_neg (errorEvent_ne_messageEvent _), if_pos rfl]
      exact ⟨rfl, rfl⟩
    · change (w₁.objects o').named = true at named
      change (w₁.registerRoomEvents o).eventHandlers.lookup (messageEvent (w₁.objects o').id) = _ ∧
        (w₁.registerRoomEvents o).eventHandlers.lookup (errorEvent (w₁.objects o').id) = _
      rw [others e] at named ⊢
      exact ⟨grows (h.own named).1, grows (h.own named).2⟩
  · rcases old found with new | new | found
    · cases new
    · cases new
    · exact grows.requested (h.created found)
  · rcases old found with new | new | found
    · cases new
    · cases new
    · exact ⟨(h.createError found).1, grows.requested (h.createError found).2⟩

theorem Registered.request (h : Registered w) (w' : World) {o : Ref} {options : Json} {id : Str}
    (events : w'.eventHandlers = (w.eventHandlers.insert (createEvent id)
      (.created o options id)).insert (errorEvent id) (.createError o id))
    (named : ∀ {o'}, (w'.objects o').named = true →
      (w.objects o').named = true ∧ (w'.objects o').id = (w.objects o').id)
    (create : Free w (createEvent id)) (error : Free w (errorEvent id)) :
    Registered w' ∧ Extends w w' := by
  have table : ∀ event, w'.eventHandlers.lookup event =
      if event = errorEvent id then some (.createError o id)
      else if event = createEvent id then some (.created o options id)
      else w.eventHandlers.lookup event := by
    intro event
    rw [events]
    split
    · rename_i e; rw [e, AList.lookup_insert]
    · rename_i e
      rw [AList.lookup_insert_ne e]
      split
      · rename_i e'; rw [e', AList.lookup_insert]
      · rename_i e'; rw [AList.lookup_insert_ne e']
  have grows : Extends w w' := by
    intro event handler found
    rw [table, if_neg, if_neg, found]
    · rintro rfl; rw [create] at found; cases found
    · rintro rfl; rw [error] at found; cases found
  have requested : Requested w' id := by
    refine ⟨⟨o, options, id, ?_⟩, o, id, ?_⟩
    · rw [table, if_neg (createEvent_ne_errorEvent id id), if_pos rfl]
    · rw [table, if_pos rfl]
  refine ⟨⟨fun {o'} n => ?_, fun {event o' options' id'} found => ?_,
    fun {event o' id'} found => ?_⟩, grows⟩
  · obtain ⟨n, e⟩ := named n
    rw [e]
    exact ⟨grows (h.own n).1, grows (h.own n).2⟩
  · rw [table] at found
    split at found
    · cases found
    · split at found
      · cases found; exact requested
      · exact grows.requested (h.created found)
  · rw [table] at found
    split at found
    · rename_i e; cases found; exact ⟨e, requested⟩
    · split at found
      · cases found
      · exact ⟨(h.createError found).1, grows.requested (h.createError found).2⟩

theorem Registered.erase (h : Registered w) (sound : Sound w) {id : Str}
    (requested : Requested w id) : Registered { w with
      eventHandlers := (w.eventHandlers.erase (createEvent id)).erase (errorEvent id) } := by
  have kept : ∀ {event}, event ≠ createEvent id → event ≠ errorEvent id →
      ((w.eventHandlers.erase (createEvent id)).erase (errorEvent id)).lookup event =
        w.eventHandlers.lookup event := fun ne ne' => by
    rw [AList.lookup_erase_ne ne', AList.lookup_erase_ne ne]
  have old : ∀ {event handler}, ((w.eventHandlers.erase (createEvent id)).erase
      (errorEvent id)).lookup event = some handler →
      event ≠ createEvent id ∧ event ≠ errorEvent id ∧
        w.eventHandlers.lookup event = some handler := fun found => by
    obtain ⟨ne', found⟩ := lookup_erase_of_some found
    obtain ⟨ne, found⟩ := lookup_erase_of_some found
    exact ⟨ne, ne', found⟩
  have other : ∀ {id'}, id' ≠ id → Requested w id' → Requested { w with
      eventHandlers := (w.eventHandlers.erase (createEvent id)).erase (errorEvent id) } id' := by
    rintro id' ne ⟨⟨o, options, r, create⟩, o', r', error⟩
    refine ⟨⟨o, options, r, ?_⟩, o', r', ?_⟩
    · exact (kept (fun e => ne (createEvent_inj e)) (createEvent_ne_errorEvent id' id)).trans create
    · exact (kept (fun e => createEvent_ne_errorEvent id id' e.symm)
        fun e => ne (errorEvent_inj e)).trans error
  refine ⟨fun {o} named => ?_, fun {event o options id'} found => ?_,
    fun {event o id'} found => ?_⟩
  · have apart := h.apart named requested
    obtain ⟨message, error⟩ := h.own named
    exact ⟨(kept (apart _ (.inl rfl)).1 (apart _ (.inl rfl)).2).trans message,
      (kept (apart _ (.inr rfl)).1 (apart _ (.inr rfl)).2).trans error⟩
  · obtain ⟨ne, -, before⟩ := old found
    refine other ?_ (h.created before)
    rintro rfl
    exact ne (sound.created before).1
  · obtain ⟨-, ne, before⟩ := old found
    obtain ⟨e, requested'⟩ := h.createError before
    refine ⟨e, other ?_ requested'⟩
    rintro rfl
    exact ne e

/-- While the objects with an id and the table stay what they are. -/
theorem Registered.same (h : Registered w) (w' : World) (events : w'.eventHandlers = w.eventHandlers)
    (named : ∀ {o}, (w'.objects o).named = true →
      (w.objects o).named = true ∧ (w'.objects o).id = (w.objects o).id) :
    Registered w' ∧ Extends w w' := by
  have grows : Extends w w' := fun found => events ▸ found
  refine ⟨⟨fun {o} n => ?_, fun found => ?_, fun found => ?_⟩, grows⟩
  · obtain ⟨n, e⟩ := named n
    rw [e]
    exact ⟨grows (h.own n).1, grows (h.own n).2⟩
  · exact grows.requested (h.created (events ▸ found))
  · obtain ⟨e, requested⟩ := h.createError (events ▸ found)
    exact ⟨e, grows.requested requested⟩

theorem Extends.of_eq {w' : World} (events : w'.eventHandlers = w.eventHandlers) : Extends w w' :=
  fun found => events ▸ found

theorem Registered.of_eq (h : Registered w) {w' : World}
    (events : w'.eventHandlers = w.eventHandlers) (objects : w'.objects = w.objects) :
    Registered w' :=
  (h.same w' events fun {o} n => by rw [objects] at n ⊢; exact ⟨n, rfl⟩).1

theorem Registered.send (h : Registered w) (event : Str) (data : Json) :
    Registered (w.send event data) ∧ Extends w (w.send event data) := by
  obtain ⟨sent, e⟩ := send_eq w event data
  rw [e]
  exact h.same _ rfl fun n => ⟨n, rfl⟩

theorem Registered.setJoined (h : Registered w) (o : Ref) (joined : Bool) :
    Registered (w.setJoined o joined) ∧ Extends w (w.setJoined o joined) := by
  refine h.same _ rfl fun {o'} n => ?_
  rw [objects_setJoined] at n ⊢
  exact ⟨n, rfl⟩

theorem Extends.cmd {w' : World} (grows : Extends w w') {cmd : Cmd} (h : cmd.Registered w)
    (joined : ∀ {o}, (w'.objects o).joined = true → (w.objects o).joined = true) :
    cmd.Registered w' := by
  cases cmd with
  | handle handler =>
    cases handler with
    | created | createError => exact grows.requested h
    | _ => trivial
  | eraseRequest => exact grows.requested h
  | leaveRooms => exact fun j => h (joined j)
  | _ => trivial

theorem Cmd.registered_of_other {cmd : Cmd} (other : cmd.isManager = false ∨ cmd = .recvLoop) :
    cmd.Registered w := by
  rcases other with other | rfl
  · cases cmd with
    | handle | eraseRequest | leaveRooms => cases other
    | _ => trivial
  · trivial

theorem named_createRoom {roomName : Str} {options : Json} {id : Str} {o : Ref}
    (n : ((createRoom w roomName options id).world.objects o).named = true) :
    (w.objects o).named = true ∧
      ((createRoom w roomName options id).world.objects o).id = (w.objects o).id := by
  by_cases e : o = w.nextObject
  · rw [e] at n
    exact absurd ((congrArg Room.named (setObject_self w _ _)).symm.trans n) nofun
  · have same : (createRoom w roomName options id).world.objects o = w.objects o :=
      setObject_ne w e _
    rw [same] at n ⊢
    exact ⟨n, rfl⟩

theorem Pushes.registered {M : MsgpackC} {J : JsonText} {c : ClientConfig} {cmd : Cmd} {a : Answer}
    {push : List Cmd} (pushes : Pushes M J c.world cmd a push) (h : Registered c.world)
    (mine : cmd.Registered c.world) (separate : Separate c cmd a) :
    ∀ cmd' ∈ push, cmd'.Registered c.world := by
  cases pushes with
  | @dispatch isBinary payload frame handler parsed found =>
    refine List.forall_mem_cons.2 ⟨?_, List.forall_mem_singleton.2 trivial⟩
    cases handler with
    | created => exact h.created found
    | createError => exact (h.createError found).2
    | _ => trivial
  | notCreated => exact List.forall_mem_cons.2 ⟨trivial, List.forall_mem_singleton.2 mine⟩
  | copied => exact List.forall_mem_singleton.2 fun {o} joined => separate o joined
  | returns | ignored | stopped | quits => exact nofun
  | _ => simp [Cmd.Registered]

theorem Effect.registered {M : MsgpackC} {J : JsonText} {c : ClientConfig} {cmd : Cmd} {a : Answer}
    {out : Out} (effect : Effect M J c.world cmd a out) (sound : Sound c.world)
    (ok : cmd.Ok c.world) (h : Registered c.world) (mine : cmd.Registered c.world)
    (separate : Separate c cmd a) :
    Registered out.world ∧ (∀ cmd' ∈ out.push, cmd'.Registered out.world) ∧
      (cmd.isManager = false → Extends c.world out.world) := by
  have one : ∀ {w : World} {cmd' : Cmd}, cmd'.Registered w → ∀ c' ∈ [cmd'], c'.Registered w :=
    fun h => List.forall_mem_singleton.2 h
  have later := (effect.sound sound ok).2
  have same : Extends c.world c.world := fun found => found
  cases effect with
  | throws => exact ⟨h, nofun, fun _ => same⟩
  | stays pushes => exact ⟨h, pushes.registered h mine separate, fun _ => same⟩
  | @joinRoom roomId options a =>
    have id : ((c.world.newObject (newRoom roomId options true)).objects
        c.world.nextObject).id = roomId := congrArg Room.id (setObject_self c.world _ _)
    obtain ⟨h', grows⟩ := h.register (c.world.newObject (newRoom roomId options true))
      c.world.nextObject rfl (fun ne => setObject_ne c.world ne _) (by rw [id]; exact separate.1)
      (by rw [id]; exact separate.2)
    exact ⟨h', one trivial, fun _ => grows⟩
  | sendJoin =>
    exact ⟨(h.send _ _).1, one trivial, fun _ => (h.send _ _).2⟩
  | sendFrame =>
    exact ⟨(h.send _ _).1, nofun, fun _ => (h.send _ _).2⟩
  | @createRoom roomName options id =>
    obtain ⟨h', grows⟩ := h.request (Client.createRoom c.world roomName options id).world rfl
      (fun n => named_createRoom n) separate.1 separate.2
    exact ⟨h', one trivial, fun _ => grows⟩
  | disconnect closes =>
    refine ⟨h.of_eq rfl rfl, ?_, fun _ => Extends.of_eq rfl⟩
    rcases closes with rfl | rfl
    · exact nofun
    · exact one trivial
  | addRoom | closeWs | idSetDone => exact ⟨h.of_eq rfl rfl, nofun, fun _ => Extends.of_eq rfl⟩
  | call | copyRooms | closed | resetWs =>
    exact ⟨h.of_eq rfl rfl, one trivial, fun _ => Extends.of_eq rfl⟩
  | joined => exact ⟨(h.setJoined _ _).1, one trivial, nofun⟩
  | @created o options requestId data roomId a reply =>
    obtain ⟨message, error⟩ := separate roomId reply
    have id : ((c.world.setObject o { c.world.objects o with
        id := roomId, named := true }).objects o).id = roomId :=
      congrArg Room.id (setObject_self c.world _ _)
    obtain ⟨h', grows⟩ := h.register (c.world.setObject o { c.world.objects o with
      id := roomId, named := true }) o rfl (fun ne => setObject_ne c.world ne _)
      (by rw [id]; exact message) (by rw [id]; exact error)
    exact ⟨h', List.forall_mem_cons.2 ⟨grows.requested mine,
      List.forall_mem_cons.2 ⟨trivial, one trivial⟩⟩, nofun⟩
  | eraseRequest => exact ⟨h.erase sound mine, nofun, nofun⟩
  | setLeft => exact ⟨(h.setJoined _ _).1, nofun, nofun⟩
  | install reconnects =>
    refine ⟨h.of_eq rfl rfl, ?_, nofun⟩
    rcases reconnects with rfl | rfl
    · exact one trivial
    · exact List.forall_mem_cons.2 ⟨trivial, one trivial⟩
  | @leave o rooms a =>
    refine ⟨(h.setJoined _ _).1, List.forall_mem_cons.2 ⟨trivial, one fun {o'} joined => ?_⟩, nofun⟩
    rw [Outcome.world_park, objects_setJoined] at joined
    simp only at joined
    by_cases e : o' = o
    · simp [e] at joined
    · rw [if_neg e] at joined
      exact (List.mem_cons.1 (mine joined)).resolve_left e

end

/-! The flags. -/

def Cmd.serves : Cmd → Bool
  | .recvLoop => true
  | .resetWs => true
  | .afterLoop => true
  | .copyLostRooms => true
  | .leaveRooms _ => true
  | _ => false

def Offline (c : ClientConfig) : Prop :=
  ∀ t ∈ c.threads, t.exn = none ∧ ∀ cmd ∈ t.stack, cmd.serves = false

def Unjoined (c : ClientConfig) : Prop := ∀ o, (c.world.objects o).joined = false

def Recorded (w : World) (t : Thread Tid Cmd Exn) : Prop := ∀ cmd ∈ t.stack, cmd.Registered w

theorem registered_preserved (M : MsgpackC) (J : JsonText) :
    Preserved (client M J) Registered (Each Recorded) Recorded
      fun c l => OnSteps Separate c l ∧ Kept c := by
  refine .each _ ?_ ?_ ?_
  · rintro c tid cmd rest a out ⟨h, running, parked⟩ ⟨meets, kept⟩ top run
    have effect := exec_effect (M := M) (J := J) run
    obtain ⟨sound, threads, others⟩ := kept.holds
    have stacked := threads _ top
    have ok := stacked.ok cmd List.mem_cons_self
    obtain ⟨h', pushed, grows⟩ := effect.registered sound ok h
      (running _ top cmd List.mem_cons_self) (meets tid cmd rest top)
    have waiting : ∀ cmd', Waits c rest cmd' → cmd'.Registered out.world := by
      intro cmd' waits
      cases manager : cmd.isManager with
      | false =>
        have before : cmd'.Registered c.world := by
          rcases waits with mem | ⟨t, ht, mem⟩
          · exact running _ top cmd' (List.mem_cons_of_mem _ mem)
          · exact parked t ht cmd' mem
        exact Extends.cmd (grows manager) before fun {o} j => (effect.aside sound ok manager).joined o ▸ j
      | true =>
        refine Cmd.registered_of_other ?_
        rcases waits with mem | ⟨t, ht, mem⟩
        · rcases Bool.or_eq_true_iff.1 manager with phase | handler
          · rw [stacked.ordered.1.phase phase] at mem
            cases mem
          · exact stacked.below_handler handler cmd' mem
        · exact .inl (kept.no_manager top ht List.mem_cons_self manager cmd' mem)
    refine ⟨h', fun cmd' mem => ?_, fun t ht cmd' mem => waiting cmd' (.inr ⟨t, ht, mem⟩)⟩
    rcases List.mem_append.1 mem with mem | mem
    · exact pushed cmd' mem
    · exact waiting cmd' (.inl mem)
  · rintro c tid cmd rest x a out ⟨h, running, parked⟩ - top run
    obtain rfl := Option.some.inj run
    exact ⟨h, fun cmd' mem => running _ top cmd' (List.mem_cons_of_mem _ mem), parked⟩
  · rintro c e w new ⟨h, running, parked⟩ - run
    obtain ⟨rfl, cmd, rfl, manager, -, -⟩ := spawn_app run
    refine ⟨h, running, parked, List.forall_mem_singleton.2 (List.forall_mem_singleton.2 ?_)⟩
    exact Cmd.registered_of_other (.inl manager)

theorem Cmd.phase_of_serves {cmd : Cmd} (serves : cmd.serves = true) : cmd.isPhase = true := by
  cases cmd with
  | recvLoop | resetWs | afterLoop | copyLostRooms | leaveRooms => rfl
  | _ => cases serves

/-- A flag is set only while the manager serves a connection. -/
theorem Effect.unjoined {M : MsgpackC} {J : JsonText} {c : ClientConfig} {cmd : Cmd} {a : Answer}
    {out : Out} {tid : Tid} {rest : List Cmd} (effect : Effect M J c.world cmd a out)
    (kept : Kept c) (top : c.running = some ⟨tid, cmd :: rest, none⟩)
    (mine : cmd.Registered c.world) (separate : Separate c cmd a) (returns : out.exn = none)
    (before : cmd.serves = false → Unjoined c)
    (pushed : ∀ cmd' ∈ out.push, cmd'.serves = false) (below : .recvLoop ∉ rest) :
    ∀ o, (out.world.objects o).joined = false := by
  obtain ⟨sound, threads, others⟩ := kept.holds
  have stacked := threads _ top
  have ok := stacked.ok cmd List.mem_cons_self
  have handler : cmd.isHandler = true → False := fun handler =>
    below (stacked.ordered.1.handler handler).1
  cases manager : cmd.isManager with
  | false =>
    intro o
    rw [(effect.aside sound ok manager).joined]
    refine before ?_ o
    by_contra serves
    rw [Cmd.isManager, Cmd.phase_of_serves (by simpa using serves)] at manager
    cases manager
  | true =>
    cases effect with
    | throws => cases returns
    | stays pushes =>
      cases pushes with
      | quits running => exact separate running
      | allLeft =>
        intro o
        by_contra joined
        cases mine (o := o) (by simpa using joined)
      | unreachable | connected | stopped => exact before rfl
      | other => cases pushed _ List.mem_cons_self
      | idSet | dispatch => cases pushed .recvLoop (List.mem_cons_of_mem _ List.mem_cons_self)
      | lost => cases pushed .copyLostRooms (List.mem_cons_of_mem _ List.mem_cons_self)
      | copied => cases pushed _ List.mem_cons_self
      | idReceived | rejoined | skipRoom | rejoin | failed | ignored | left | message
      | notCreated => exact (handler rfl).elim
      | _ => cases manager
    | install => exact before rfl
    | closed => cases pushed _ List.mem_cons_self
    | resetWs => cases pushed _ List.mem_cons_self
    | @leave o rooms =>
      cases pushed (.leaveRooms rooms) (List.mem_cons_of_mem _ List.mem_cons_self)
    | copyRooms | idSetDone | joined | created | eraseRequest | setLeft => exact (handler rfl).elim
    | _ => cases manager

/-- No flag outlives its connection. -/
theorem offline_step {M : MsgpackC} {J : JsonText} {c c' : ClientConfig}
    {l : Label Answer EnvEvent} (kept : Kept c)
    (recorded : Holds Registered (Each Recorded) Recorded c) (meets : OnSteps Separate c l)
    (before : Offline c → Unjoined c) (h : Step (client M J) c l c') : Offline c' → Unjoined c' := by
  intro offline
  cases h with
  | finish alive top =>
    refine before fun t mem => ?_
    rcases List.mem_append.1 mem with mem | mem
    · rw [top] at mem
      rw [List.mem_singleton.1 mem]
      exact ⟨rfl, nofun⟩
    · exact offline t (List.mem_append_right _ mem)
  | crash alive top => exact before offline
  | @exec tid cmd rest a out alive top run =>
    have effect := exec_effect (M := M) (J := J) run
    have threads := threads_settle c tid rest out
    obtain ⟨returns, idle⟩ := offline _ (threads.mem_iff.2 List.mem_cons_self)
    have unjoined := effect.unjoined kept top (recorded.2.1 _ top cmd List.mem_cons_self)
      (meets tid cmd rest top) returns (fun serves => before fun t mem => ?_)
      (fun cmd' mem => idle cmd' (List.mem_append_left _ mem)) fun loop => by
        cases idle _ (List.mem_append_right _ loop)
    · intro o
      rw [world_settle]
      exact unjoined o
    · rcases List.mem_append.1 mem with mem | mem
      · rw [top] at mem
        rw [List.mem_singleton.1 mem]
        refine ⟨rfl, List.forall_mem_cons.2 ⟨serves, fun cmd' mem => ?_⟩⟩
        exact idle cmd' (List.mem_append_right _ mem)
      · exact offline t (threads.mem_iff.2 (List.mem_cons_of_mem _ mem))
  | @unwind tid cmd rest x a out alive top run =>
    obtain rfl := Option.some.inj run
    cases (offline _ List.mem_cons_self).1
  | @take i t alive free at_i ready =>
    exact before fun t' mem => offline t' ((threads_take free at_i).mem_iff.2 mem)
  | env alive run =>
    obtain ⟨rfl, -⟩ := spawn_app run
    refine before fun t mem => offline t ?_
    rw [Config.threads, ← List.append_assoc]
    exact List.mem_append_left _ mem

structure OneObject (c : ClientConfig) : Prop where
  handlers : ∀ o ∈ c.world.rooms,
    c.world.eventHandlers.lookup (messageEvent (c.world.objects o).id) = some (.message o) ∧
    c.world.eventHandlers.lookup (errorEvent (c.world.objects o).id) = some (.joinError o)
  together : ∀ o o', (c.world.objects o).named = true → (c.world.objects o').named = true →
    (c.world.objects o).id = (c.world.objects o').id →
    (c.world.objects o).joined = (c.world.objects o').joined
  reset : Offline c → Unjoined c

theorem Registered.initial : Holds Registered (Each Recorded) Recorded ClientConfig.initial :=
  ⟨⟨nofun, nofun, nofun⟩, nofun, List.forall_mem_singleton.2 (List.forall_mem_singleton.2 trivial)⟩

/-- There is one live object for every room id. -/
theorem one_object (M : MsgpackC) (J : JsonText) {ls : List (Label Answer EnvEvent)}
    {c : ClientConfig} (run : Run (client M J) (OnSteps Separate) ClientConfig.initial ls c) :
    OneObject c := by
  have kept : Kept c := .run run
  have run' := run.strengthen _ Kept.initial fun kept _ h => kept.step h
  have recorded := (registered_preserved M J).run _ run' Registered.initial
  have run'' := run'.strengthen _ Registered.initial fun recorded meets h =>
    (registered_preserved M J).step _ recorded meets h
  refine ⟨fun o mem => recorded.1.own (kept.holds.1.rooms mem), fun o o' named named' id => ?_, ?_⟩
  · rw [recorded.1.distinct named named' id]
  · exact run''.invariant _ (fun _ _ => rfl) fun before meets h =>
      offline_step meets.1.2 meets.2 meets.1.1 before h

/-! Two calls for one room, and one. -/

def joinedTwice : List (Label Answer EnvEvent) :=
  joins 1 ++ turn 1 .next ++ .env (.joinRoom (lit "r") .null) :: turn 2 .next

def secondListens (c : ClientConfig) : Bool :=
  match c.world.eventHandlers.lookup (messageEvent (lit "r")) with
  | some (.message o) => o == 1
  | _ => false

theorem two_objects : ¬ ∀ (M : MsgpackC) (J : JsonText) (ls : List (Label Answer EnvEvent))
    (c : ClientConfig), Run (client M J) (fun _ _ => True) ClientConfig.initial ls c →
      OneObject c := by
  intro claim
  have found : (execute (client shortest Text.reference) (fun _ _ => true) ClientConfig.initial
      joinedTwice).any (fun c => c.world.rooms = [0] ∧ (c.world.objects 0).id = lit "r" ∧
        secondListens c = true) = true := by
    decide +kernel
  obtain ⟨c, run, holds⟩ := exists_run _ found
  obtain ⟨rooms, id, second⟩ := of_decide_eq_true holds
  have mem : 0 ∈ c.world.rooms := by rw [rooms]; exact List.mem_singleton_self 0
  have own := ((claim _ _ _ c (run.weaken _ fun _ => trivial)).handlers 0 mem).1
  rw [id] at own
  rw [secondListens, own] at second
  cases second

/-- Enough for a run without `create_room` in which nothing is lost after `disconnect`. -/
def separate (c : ClientConfig) : Label Answer EnvEvent → Bool
  | .act _ =>
    match c.running with
    | some ⟨_, .joinRoom roomId _ :: _, none⟩ =>
      (c.world.eventHandlers.lookup (messageEvent roomId)).isNone &&
        (c.world.eventHandlers.lookup (errorEvent roomId)).isNone
    | some ⟨_, .createRoom .. :: _, none⟩ => false
    | some ⟨_, .handle (.created ..) _ :: _, none⟩ => false
    | some ⟨_, .copyLostRooms :: _, none⟩ =>
      (List.range c.world.nextObject).all fun o =>
        !(c.world.objects o).joined || c.world.rooms.any fun o' => o' == o
    | some ⟨_, .afterLoop :: _, none⟩ => c.world.running
    | _ => true
  | _ => true

theorem separate_sound {c : ClientConfig} {l : Label Answer EnvEvent} (h : separate c l = true)
    (kept : Kept c) : OnSteps Separate c l := by
  cases l with
  | act a =>
    intro tid cmd rest top
    simp only [separate, top] at h
    cases cmd with
    | joinRoom roomId options =>
      obtain ⟨message, error⟩ := Bool.and_eq_true_iff.1 h
      exact ⟨Option.isNone_iff_eq_none.1 message, Option.isNone_iff_eq_none.1 error⟩
    | createRoom => cases h
    | handle handler data =>
      cases handler with
      | created => cases h
      | message | joinError | createError => trivial
    | copyLostRooms =>
      intro o joined
      have known : o < c.world.nextObject := by
        by_contra unborn
        have unjoined := kept.holds.1.unjoined (Nat.le_of_not_lt unborn)
        rw [unjoined] at joined
        cases joined
      have listed := List.all_eq_true.1 h o (List.mem_range.2 known)
      simp only [joined, Bool.not_true, Bool.false_or] at listed
      obtain ⟨o', mem, same⟩ := List.any_eq_true.1 listed
      exact eq_of_beq same ▸ mem
    | afterLoop =>
      intro stops
      simp [stops] at h
    | _ => trivial
  | _ => trivial

def replyData : Json := Json.ofFields [(lit "key", .str joinedRoom), (lit "data", .null)]

def reply : Str := Sio.buildEventFrame shortest (messageEvent (lit "r")) replyData

def joinsOther (i : ℕ) : List (Label Answer EnvEvent) :=
  .env (.joinRoom (lit "q") .null) :: turn i .next ++ turn i .next ++ turn i .next ++ turn i .ret ++
    turn i .next ++ turn i .next ++ turn i .next

def admitted (i j : ℕ) : List (Label Answer EnvEvent) :=
  turn i (.receive true reply) ++ turn j .next ++ turn j .next ++ turn j .ret

/-- The connection ends, and the application is told so for both rooms. -/
def losesBoth (i : ℕ) : List (Label Answer EnvEvent) :=
  turn i .closed ++ turn i .next ++ turn i .next ++ turn i .next ++ turn i .ret ++ turn i .next ++
    turn i .next ++ turn i .next ++ turn i .ret ++ turn i .next ++ turn i .next ++ turn i .ret ++
    turn i .next

def joinedBoth : List (Label Answer EnvEvent) := joinedLate ++ joinsOther 2 ++ admitted 0 2

/-- Two rooms are joined and one of them answers; then the connection is lost. -/
theorem one_object_both : ∃ c c', Run (client shortest Text.reference) (OnSteps Separate)
    ClientConfig.initial joinedBoth c ∧ (c.world.objects 0).joined = true ∧ OneObject c ∧
    Run (client shortest Text.reference) (OnSteps Separate) ClientConfig.initial
      (joinedBoth ++ losesBoth 2) c' ∧
    c'.world.rooms = [0, 1] ∧ (c'.world.objects 0).joined = false ∧ c'.world.ws = none ∧
    OneObject c' := by
  have found : (execute (client shortest Text.reference) separate ClientConfig.initial
      joinedBoth).any (fun c => (c.world.objects 0).joined) = true := by
    decide +kernel
  have found' : (execute (client shortest Text.reference) separate ClientConfig.initial
      (joinedBoth ++ losesBoth 2)).any (fun c => c.world.rooms = [0, 1] ∧
        (c.world.objects 0).joined = false ∧ c.world.ws = none) = true := by
    decide +kernel
  obtain ⟨c, run, joined⟩ := exists_run _ found
  obtain ⟨c', run', holds⟩ := exists_run _ found'
  obtain ⟨rooms, unjoined, lost⟩ := of_decide_eq_true holds
  have meets : Run _ (OnSteps Separate) _ _ c :=
    (run.strengthen _ Kept.initial fun kept _ h => kept.step h).weaken _ fun h =>
      separate_sound h.1 h.2
  have meets' : Run _ (OnSteps Separate) _ _ c' :=
    (run'.strengthen _ Kept.initial fun kept _ h => kept.step h).weaken _ fun h =>
      separate_sound h.1 h.2
  exact ⟨c, c', meets, joined, one_object _ _ meets, meets', rooms, unjoined, lost,
    one_object _ _ meets'⟩

end Blueboat.Client
