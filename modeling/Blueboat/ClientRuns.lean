import Blueboat.ClientThreads

set_option autoImplicit false

/-! One view of a step of the client, and what every run keeps. -/
namespace Blueboat.Client

open Protocol LockMachine

section
variable (M : MsgpackC) (J : JsonText)

inductive Pushes (w : World) : Cmd → Answer → List Cmd → Prop where
  | attempt {o roomId options origin a} : Pushes w (.joinRoomShared o roomId options origin) a
      [.call (.joinAttempt o), .sendUnlessJoined o roomId options origin]
  | skip {o roomId options origin a} (joined : (w.objects o).joined = true) :
      Pushes w (.sendUnlessJoined o roomId options origin) a [.addRoom o roomId origin]
  | ask {o roomId options origin a} (joined : (w.objects o).joined = false) :
      Pushes w (.sendUnlessJoined o roomId options origin) a [.sendJoin o roomId options origin]
  | returns {callback} : Pushes w (.inCallback callback) .ret []
  | innerJoin {callback roomId options} : Pushes w (.inCallback callback)
      (.joinRoom roomId options) [.joinRoom roomId options, .inCallback callback]
  | innerCreate {callback roomName options} : Pushes w (.inCallback callback)
      (.createRoom roomName options) [.createRoom roomName options, .inCallback callback]
  | innerSend {callback o key data} : Pushes w (.inCallback callback) (.send o key data)
      [.sendFrame sendMessage (messageData (w.objects o).id key data), .inCallback callback]
  | idReceived {newId id a} (string : newId.getString = .ok id) :
      Pushes w (.handleClientIdSet newId) a [.call (.idSaved id), .copyRooms]
  | rejoined {a} : Pushes w (.rejoinRooms []) a [.call .connect, .idSetDone]
  | skipRoom {o rooms a} (empty : (w.objects o).id = []) :
      Pushes w (.rejoinRooms (o :: rooms)) a [.rejoinRooms rooms]
  | rejoin {o rooms a} (nonempty : (w.objects o).id ≠ []) :
      Pushes w (.rejoinRooms (o :: rooms)) a [.joinRoomShared o (w.objects o).id
        (w.objects o).initialJoinOptions .rejoin, .rejoinRooms rooms]
  | failed {o data a} : Pushes w (.handle (.joinError o) data) a [.call (.joinError o data)]
  | ignored {o data a} : Pushes w (.handle (.message o) data) a []
  | left {o data a} : Pushes w (.handle (.message o) data) a [.call (.leave o), .setLeft o]
  | message {o data key body a} : Pushes w (.handle (.message o) data) a
      [.call (.message o key body)]
  | notCreated {o requestId data a} : Pushes w (.handle (.createError o requestId) data) a
      [.call (.joinError o data), .eraseRequest requestId]
  | unreachable {attempt} : Pushes w (.connectionManagerLoop attempt) .failed
      [.call .connectError, .call (.reconnectAttempt (attempt + 1)),
        .connectionManagerLoop (attempt + 1)]
  | connected {attempt} : Pushes w (.connectionManagerLoop attempt) .connected [.install attempt]
  | stopped {attempt a} : Pushes w (.connectionManagerLoop attempt) a []
  | other {isBinary payload} : Pushes w .recvLoop (.receive isBinary payload) [.recvLoop]
  | idSet {isBinary payload data} : Pushes w .recvLoop (.receive isBinary payload)
      [.handleClientIdSet data, .recvLoop]
  | dispatch {isBinary payload frame handler} (parsed : Sio.parseFrame M J isBinary payload = .ok frame)
      (found : w.eventHandlers.lookup frame.event = some handler) :
      Pushes w .recvLoop (.receive isBinary payload) [.handle handler frame.data, .recvLoop]
  | lost {a} : Pushes w .afterLoop a [.call .disconnect, .copyLostRooms]
  | quits {a} (running : w.running = false) : Pushes w .afterLoop a []
  | copied {a} : Pushes w .copyLostRooms a [.leaveRooms w.rooms]
  | allLeft {a} : Pushes w (.leaveRooms []) a
      [.call (.reconnectAttempt 1), .connectionManagerLoop 1]

/-- What one step does, by command and answer. -/
inductive Effect (w : World) : Cmd → Answer → Out → Prop where
  | throws {cmd a x} : Effect w cmd a (.raise w x [])
  | stays {cmd a push} (pushes : Pushes M J w cmd a push) : Effect w cmd a (.park w push)
  | joinRoom {roomId options a} : Effect w (.joinRoom roomId options) a
      (.park ((w.newObject (newRoom roomId options true)).registerRoomEvents w.nextObject)
        [.joinRoomShared w.nextObject roomId options .call])
  | sendJoin {o roomId options origin a} : Effect w (.sendJoin o roomId options origin) a
      (.park (w.send joinRoom (joinData roomId options)) [.addRoom o roomId origin])
  | addRoom {o roomId origin a} : Effect w (.addRoom o roomId origin) a
      (.park (w.addRoom o roomId origin) [])
  | createRoom {roomName options id} : Effect w (.createRoom roomName options) (.requestId id)
      (createRoom w roomName options id)
  | sendFrame {event data a} : Effect w (.sendFrame event data) a (.park (w.send event data) [])
  | disconnect {push a} (closes : push = [] ∨ push = [.closeWs]) : Effect w .disconnect a
      (.park { w with running := false } push)
  | closeWs {a} : Effect w .closeWs a (.park w.closeWs [])
  | call {callback a} : Effect w (.call callback) a
      (.park { w with called := w.called ++ [callback] } [.inCallback callback])
  | copyRooms {a} : Effect w .copyRooms a
      (.park { w with copied := w.ws.map Link.number } [.rejoinRooms w.rooms])
  | idSetDone {a} : Effect w .idSetDone a (.park { w with idSet := w.ws.map Link.number } [])
  | joined {o data a} (key : (data.atKey (lit "key")).bind Json.getString = .ok joinedRoom) :
      Effect w (.handle (.message o) data) a (.park (w.setJoined o true) [.call (.join o)])
  | created {o options requestId data roomId a} (reply : data.getString = .ok roomId) :
      Effect w (.handle (.created o options requestId) data) a
      (.park ((w.setObject o { w.objects o with id := roomId, named := true }).registerRoomEvents o)
        [.eraseRequest requestId, .call (.create o roomId),
          .joinRoomShared o roomId options .created])
  | eraseRequest {requestId a} : Effect w (.eraseRequest requestId) a (.park { w with
      eventHandlers := (w.eventHandlers.erase (createEvent requestId)).erase
        (errorEvent requestId) } [])
  | setLeft {o a} : Effect w (.setLeft o) a (.park (w.setJoined o false) [])
  | install {attempt push a} (reconnects : push = [] ∨ push = [.call (.reconnect attempt)]) :
      Effect w (.install attempt) a (.park { w with
        ws := some ⟨w.nextLink, !w.running⟩, nextLink := w.nextLink + 1 } (push ++ [.recvLoop]))
  | closed : Effect w .recvLoop .closed (.park w.closeWs [.resetWs])
  | resetWs {a} : Effect w .resetWs a (.park { w with ws := none } [.afterLoop])
  | leave {o rooms a} : Effect w (.leaveRooms (o :: rooms)) a
      (.park (w.setJoined o false) [.call (.leave o), .leaveRooms rooms])

variable {M J} {w : World}

theorem handleWsPayload_effect {isBinary : Bool} {payload : Str} :
    Effect M J w .recvLoop (.receive isBinary payload) (handleWsPayload M J w isBinary payload) := by
  unfold handleWsPayload
  split
  · exact .throws
  · rename_i frame parsed
    split
    · exact .stays .other
    · split
      · exact .stays .idSet
      · split
        · exact .stays .other
        · rename_i handler found
          exact .stays (.dispatch parsed found)

theorem handleMessage_effect {o : Ref} {data : Json} {a : Answer} :
    Effect M J w (.handle (.message o) data) a (handleMessage w o data) := by
  unfold handleMessage
  split
  · exact .stays .ignored
  · split
    · exact .throws
    · rename_i key found
      split
      · exact .throws
      · split
        · rename_i same; exact .joined (same ▸ found)
        · split
          · exact .stays .left
          · exact .stays .message

theorem handle_effect {handler : Handler} {data : Json} {a : Answer} :
    Effect M J w (.handle handler data) a (handle w data handler) := by
  cases handler with
  | joinError o => exact .stays .failed
  | message o => exact handleMessage_effect
  | created o options requestId =>
    unfold handle
    dsimp only
    split
    · exact .throws
    · rename_i roomId reply
      exact .created reply
  | createError o requestId => exact .stays .notCreated

theorem inCallback_effect {callback : Callback} {a : Answer} {out : Out}
    (h : inCallback w callback a = some out) : Effect M J w (.inCallback callback) a out := by
  cases a with
  | ret => cases h; exact .stays .returns
  | throw x => cases h; exact .throws
  | joinRoom => cases h; exact .stays .innerJoin
  | createRoom => cases h; exact .stays .innerCreate
  | send => cases h; exact .stays .innerSend
  | _ => cases h

theorem manage_effect {cmd : Cmd} {a : Answer} {out : Out} (h : manage M J w cmd a = some out) :
    Effect M J w cmd a out := by
  cases cmd with
  | connectionManagerLoop attempt =>
    simp only [manage] at h
    split at h
    · cases a with
      | failed => cases h; exact .stays .unreachable
      | connected => cases h; exact .stays .connected
      | _ => cases h
    · cases h; exact .stays .stopped
  | install attempt =>
    cases h
    refine .install ?_
    split
    · exact .inr rfl
    · exact .inl rfl
  | recvLoop =>
    cases a with
    | receive isBinary payload => cases h; exact handleWsPayload_effect
    | closed => cases h; exact .closed
    | _ => cases h
  | resetWs => cases h; exact .resetWs
  | afterLoop =>
    simp only [manage] at h
    split at h
    · cases h; exact .stays .lost
    · rename_i running; cases h; exact .stays (.quits (by simpa using running))
  | copyLostRooms => cases h; exact .stays .copied
  | leaveRooms rooms =>
    cases rooms with
    | nil => cases h; exact .stays .allLeft
    | cons o rooms => cases h; exact .leave
  | _ => cases h

theorem exec_effect {cmd : Cmd} {a : Answer} {out : Out} (h : exec M J w cmd a = some out) :
    Effect M J w cmd a out := by
  cases cmd with
  | joinRoom => cases h; exact .joinRoom
  | joinRoomShared => cases h; exact .stays .attempt
  | sendUnlessJoined o roomId options origin =>
    simp only [exec] at h
    split at h
    · rename_i joined; cases h; exact .stays (.skip joined)
    · rename_i joined; cases h; exact .stays (.ask (by simpa using joined))
  | sendJoin => cases h; exact .sendJoin
  | addRoom => cases h; exact .addRoom
  | createRoom =>
    cases a with
    | requestId id => cases h; exact .createRoom
    | _ => cases h
  | sendFrame => cases h; exact .sendFrame
  | disconnect =>
    cases h
    refine .disconnect ?_
    split
    · exact .inr rfl
    · exact .inl rfl
  | closeWs => cases h; exact .closeWs
  | call => cases h; exact .call
  | inCallback => exact inCallback_effect h
  | handleClientIdSet newId =>
    simp only [exec] at h
    split at h
    · cases h; exact .throws
    · rename_i id string; cases h; exact .stays (.idReceived string)
  | copyRooms => cases h; exact .copyRooms
  | rejoinRooms rooms =>
    cases rooms with
    | nil => cases h; exact .stays .rejoined
    | cons o rooms =>
      simp only [exec] at h
      split at h
      · rename_i empty; cases h; exact .stays (.skipRoom empty)
      · rename_i nonempty; cases h; exact .stays (.rejoin nonempty)
  | idSetDone => cases h; exact .idSetDone
  | handle => cases h; exact handle_effect
  | eraseRequest => cases h; exact .eraseRequest
  | setLeft => cases h; exact .setLeft
  | connectionManagerLoop => exact manage_effect h
  | install => exact manage_effect h
  | recvLoop => exact manage_effect h
  | resetWs => exact manage_effect h
  | afterLoop => exact manage_effect h
  | copyLostRooms => exact manage_effect h
  | leaveRooms => exact manage_effect h

def Unanswered (w : World) : Prop :=
  ∀ {event o options requestId},
    w.eventHandlers.lookup event = some (.created o options requestId) →
    (w.objects o).named = false

theorem Sound.createdRoom (sound : Sound w) (roomName : Str) (options : Json) (id : Str) :
    Sound (Client.createRoom w roomName options id).world ∧
      Aside w (Client.createRoom w roomName options id).world :=
  sound.createRoom options id _ rfl

theorem Aside.closeWs (w : World) : Aside w w.closeWs where
  toLater := { Later.refl w with }
  ws := by
    change (w.ws.map _).map Link.number = _
    rw [Option.map_map]
    rfl
  opened := fun {n} h => by
    change w.ws.map _ = _ at h
    obtain ⟨link, -, e⟩ := Option.map_eq_some_iff.1 h
    cases e
  link := rfl
  copied := rfl
  idSet := rfl
  joined := fun _ => rfl
  unnamed := fun _ h => h
  created := .inl

theorem Sound.closeWs (sound : Sound w) : Sound w.closeWs :=
  { sound with
    ws := fun {link} h => by
      change w.ws.map _ = _ at h
      obtain ⟨link, found, rfl⟩ := Option.map_eq_some_iff.1 h
      have lt := sound.ws found
      exact lt }

/-- A step keeps the world in order and takes nothing back. -/
theorem Effect.sound {cmd : Cmd} {a : Answer} {out : Out} (effect : Effect M J w cmd a out)
    (sound : Sound w) (ok : cmd.Ok w) : Sound out.world ∧ Later w out.world := by
  cases effect with
  | throws => exact ⟨sound, .refl w⟩
  | stays => exact ⟨sound, .refl w⟩
  | joinRoom => exact (sound.joinRoom _ _).imp_right Aside.toLater
  | sendJoin => exact (sound.send _ _).imp_right Aside.toLater
  | addRoom =>
    obtain ⟨sound', aside, -⟩ := sound.addRoom ok.1 ok.2.1
    exact ⟨sound', aside.toLater⟩
  | createRoom => exact (sound.createdRoom _ _ _).imp_right Aside.toLater
  | sendFrame => exact (sound.send _ _).imp_right Aside.toLater
  | disconnect => exact ⟨{ sound with }, { Later.refl w with }⟩
  | closeWs => exact ⟨sound.closeWs, (Aside.closeWs w).toLater⟩
  | call => exact ⟨{ sound with }, { Later.refl w with }⟩
  | copyRooms =>
    refine ⟨{ sound with copied := fun h => ?_ }, { Later.refl w with }⟩
    obtain ⟨link, found, rfl⟩ := Option.map_eq_some_iff.1 h
    exact sound.ws found
  | idSetDone =>
    refine ⟨{ sound with idSet := fun h => ?_ }, { Later.refl w with }⟩
    obtain ⟨link, found, rfl⟩ := Option.map_eq_some_iff.1 h
    exact sound.ws found
  | joined => exact sound.setJoined fun _ => ok
  | created =>
    obtain ⟨sound', later, -⟩ := sound.nameObject _ ok.1 ok.2.1 _ rfl
    exact ⟨sound', later⟩
  | eraseRequest =>
    obtain ⟨sound', aside, -⟩ := sound.eraseRequest _ _ rfl
    exact ⟨sound', aside.toLater⟩
  | setLeft => exact sound.setJoined nofun
  | install =>
    refine ⟨{ sound with
      ws := fun h => ?_, sent := fun h => ?_, copied := fun h => ?_, idSet := fun h => ?_ },
      { Later.refl w with nextLink := Nat.le_succ _ }⟩
    · cases h; exact Nat.lt_succ_self _
    · exact Nat.lt_succ_of_lt (sound.sent h)
    · exact Nat.lt_succ_of_lt (sound.copied h)
    · exact Nat.lt_succ_of_lt (sound.idSet h)
  | closed => exact ⟨sound.closeWs, (Aside.closeWs w).toLater⟩
  | resetWs => exact ⟨{ sound with ws := nofun }, { Later.refl w with }⟩
  | leave => exact sound.setJoined nofun

theorem Effect.aside {cmd : Cmd} {a : Answer} {out : Out} (effect : Effect M J w cmd a out)
    (sound : Sound w) (ok : cmd.Ok w) (other : cmd.isManager = false) : Aside w out.world := by
  cases effect with
  | throws => exact .refl w
  | stays => exact .refl w
  | joinRoom => exact (sound.joinRoom _ _).2
  | sendJoin => exact (sound.send _ _).2
  | addRoom => exact (sound.addRoom ok.1 ok.2.1).2.1
  | createRoom => exact (sound.createdRoom _ _ _).2
  | sendFrame => exact (sound.send _ _).2
  | disconnect => exact { Aside.refl w with }
  | closeWs => exact .closeWs w
  | call => exact { Aside.refl w with }
  | _ => cases other

/-- What a handler may change: not the connection. -/
theorem Effect.handles {cmd : Cmd} {a : Answer} {out : Out} (effect : Effect M J w cmd a out)
    (handler : cmd.isHandler = true) :
    out.world.ws = w.ws ∧ out.world.nextLink = w.nextLink := by
  cases effect with
  | throws => exact ⟨rfl, rfl⟩
  | stays => exact ⟨rfl, rfl⟩
  | copyRooms => exact ⟨rfl, rfl⟩
  | idSetDone => exact ⟨rfl, rfl⟩
  | joined => exact ⟨rfl, rfl⟩
  | created => exact ⟨rfl, rfl⟩
  | eraseRequest => exact ⟨rfl, rfl⟩
  | setLeft => exact ⟨rfl, rfl⟩
  | _ => cases handler

theorem Pushes.ok {cmd : Cmd} {a : Answer} {push : List Cmd} (pushes : Pushes M J w cmd a push)
    (sound : Sound w) (ok : cmd.Ok w) (idle : cmd = .recvLoop → Unanswered w) :
    ∀ c ∈ push, c.Ok w := by
  cases pushes with
  | attempt => exact List.forall_mem_cons.2 ⟨trivial, List.forall_mem_singleton.2 ok⟩
  | skip => exact List.forall_mem_singleton.2 ok
  | ask => exact List.forall_mem_singleton.2 ok
  | innerSend =>
    refine List.forall_mem_cons.2 ⟨?_, List.forall_mem_singleton.2 trivial⟩
    change sendMessage ≠ Protocol.joinRoom
    decide
  | skipRoom =>
    obtain ⟨listed, nodup⟩ := ok
    exact List.forall_mem_singleton.2
      ⟨fun o ho => listed o (List.mem_cons_of_mem _ ho), (List.nodup_cons.1 nodup).2⟩
  | rejoin =>
    obtain ⟨listed, nodup⟩ := ok
    have mem := listed _ List.mem_cons_self
    exact List.forall_mem_cons.2 ⟨⟨sound.rooms mem, rfl, fun _ => mem⟩, List.forall_mem_singleton.2
      ⟨fun o ho => listed o (List.mem_cons_of_mem _ ho), (List.nodup_cons.1 nodup).2⟩⟩
  | other => exact List.forall_mem_singleton.2 ok
  | idSet => exact List.forall_mem_cons.2 ⟨trivial, List.forall_mem_singleton.2 ok⟩
  | @dispatch isBinary payload frame handler parsed found =>
    refine List.forall_mem_cons.2 ⟨?_, List.forall_mem_singleton.2 ok⟩
    cases handler with
    | message o => exact (sound.message found).1
    | created o options requestId =>
      exact ⟨idle rfl found, (sound.created found).2, fun h => sound.once h found⟩
    | _ => trivial
  | returns | ignored | stopped | quits => exact nofun
  | innerJoin | innerCreate | idReceived | rejoined | failed | left | message | notCreated
  | unreachable | connected | lost | copied | allLeft => simp [Cmd.Ok]

theorem Effect.ok {cmd : Cmd} {a : Answer} {out : Out} (effect : Effect M J w cmd a out)
    (sound : Sound w) (ok : cmd.Ok w) (idle : cmd = .recvLoop → Unanswered w) :
    ∀ c ∈ out.push, c.Ok out.world := by
  have later := (effect.sound sound ok).2
  cases effect with
  | throws => exact nofun
  | stays pushes => exact pushes.ok sound ok idle
  | joinRoom =>
    refine List.forall_mem_singleton.2 ⟨?_, ?_, nofun⟩
    · exact congrArg Room.named (setObject_self w _ _)
    · exact congrArg Room.id (setObject_self w _ _)
  | sendJoin => exact List.forall_mem_singleton.2 (later.ok_joins rfl ok)
  | createRoom =>
    refine List.forall_mem_singleton.2 ?_
    change createNewRoom ≠ Protocol.joinRoom
    decide
  | disconnect closes =>
    rcases closes with rfl | rfl
    · exact nofun
    · exact List.forall_mem_singleton.2 trivial
  | copyRooms =>
    exact List.forall_mem_singleton.2 ⟨fun _ => id, sound.ids.of_map _⟩
  | created =>
    refine List.forall_mem_cons.2 ⟨trivial, List.forall_mem_cons.2 ⟨trivial,
      List.forall_mem_singleton.2 ⟨?_, ?_, nofun⟩⟩⟩
    · exact congrArg Room.named (setObject_self w _ _)
    · exact congrArg Room.id (setObject_self w _ _)
  | install reconnects =>
    have loop : Cmd.recvLoop.Ok { w with
        ws := some ⟨w.nextLink, !w.running⟩, nextLink := w.nextLink + 1 } := ⟨_, rfl, rfl⟩
    rcases reconnects with rfl | rfl
    · exact List.forall_mem_singleton.2 loop
    · exact List.forall_mem_cons.2 ⟨trivial, List.forall_mem_singleton.2 loop⟩
  | addRoom | sendFrame | closeWs | idSetDone | eraseRequest | setLeft => exact nofun
  | call | joined | closed | resetWs | leave => simp [Cmd.Ok]

end

/-! The order of a stack. -/

structure Cmd.Above (cmd : Cmd) (rest : List Cmd) : Prop where
  phase : cmd.isPhase = true → rest = []
  handler : cmd.isHandler = true → .recvLoop ∈ rest ∧ ∀ c ∈ rest, c.isHandler = false
  rejoin : ∀ {o roomId}, cmd.joins = some (o, roomId, .rejoin) →
    ∃ rooms below, rest = .rejoinRooms rooms :: below ∧ o ∉ rooms

def Ordered : List Cmd → Prop
  | [] => True
  | cmd :: rest => cmd.Above rest ∧ Ordered rest

def Cmd.isPlain (cmd : Cmd) : Bool :=
  !cmd.isManager && cmd.joins.all fun join => join.2.2 ≠ .rejoin

section
variable {cmd c : Cmd} {rest : List Cmd}

theorem Cmd.Above.plain (h : cmd.isPlain = true) : cmd.Above rest := by
  simp only [Cmd.isPlain, Cmd.isManager, Bool.and_eq_true, Bool.not_eq_true',
    Bool.or_eq_false_iff] at h
  obtain ⟨⟨phase, handler⟩, joins⟩ := h
  refine ⟨fun h => ?_, fun h => ?_, fun h => ?_⟩
  · rw [phase] at h; cases h
  · rw [handler] at h; cases h
  · rw [h] at joins; simp at joins

/-- A command may take the place of another one of its kind. -/
theorem Cmd.Above.same (h : cmd.Above rest) (phase : c.isPhase = true → cmd.isPhase = true)
    (handler : c.isHandler = true → cmd.isHandler = true)
    (joins : c.joins = none ∨ c.joins = cmd.joins) : c.Above rest := by
  refine ⟨fun hc => h.phase (phase hc), fun hc => h.handler (handler hc), fun hc => ?_⟩
  rcases joins with joins | joins
  · rw [joins] at hc; cases hc
  · exact h.rejoin (joins ▸ hc)

theorem Cmd.Above.onRecvLoop (h : c.isPhase = false) (joins : c.joins = none) :
    c.Above [.recvLoop] := by
  refine ⟨fun hc => ?_, fun _ => ⟨List.mem_singleton_self _, ?_⟩, fun hc => ?_⟩
  · rw [h] at hc; cases hc
  · exact List.forall_mem_singleton.2 rfl
  · rw [joins] at hc; cases hc

end

theorem Pushes.ordered {M : MsgpackC} {J : JsonText} {w : World} {cmd : Cmd} {a : Answer}
    {push rest : List Cmd} (pushes : Pushes M J w cmd a push) (ok : cmd.Ok w)
    (above : cmd.Above rest) (ordered : Ordered rest) : Ordered (push ++ rest) := by
  cases pushes with
  | attempt => exact ⟨.plain rfl, above.same nofun nofun (.inr rfl), ordered⟩
  | skip | ask => exact ⟨above.same nofun nofun (.inr rfl), ordered⟩
  | returns | ignored | stopped | quits => exact ordered
  | innerJoin | innerCreate | innerSend => exact ⟨.plain rfl, .plain rfl, ordered⟩
  | failed | message => exact ⟨.plain rfl, ordered⟩
  | idReceived | rejoined | left | notCreated =>
    exact ⟨.plain rfl, above.same nofun (fun _ => rfl) (.inl rfl), ordered⟩
  | skipRoom => exact ⟨above.same nofun (fun _ => rfl) (.inl rfl), ordered⟩
  | rejoin =>
    refine ⟨⟨nofun, nofun, fun h => ?_⟩, above.same nofun (fun _ => rfl) (.inl rfl), ordered⟩
    cases h
    exact ⟨_, _, rfl, (List.nodup_cons.1 ok.2).1⟩
  | unreachable =>
    exact ⟨.plain rfl, .plain rfl, above.same (fun _ => rfl) nofun (.inl rfl), ordered⟩
  | connected | other | copied =>
    exact ⟨above.same (fun _ => rfl) nofun (.inl rfl), ordered⟩
  | lost | allLeft => exact ⟨.plain rfl, above.same (fun _ => rfl) nofun (.inl rfl), ordered⟩
  | idSet | dispatch =>
    obtain rfl := above.phase rfl
    exact ⟨.onRecvLoop rfl rfl, above.same (fun _ => rfl) nofun (.inl rfl), ordered⟩

theorem Effect.ordered {M : MsgpackC} {J : JsonText} {w : World} {cmd : Cmd} {a : Answer}
    {out : Out} {rest : List Cmd} (effect : Effect M J w cmd a out) (ok : cmd.Ok w)
    (above : cmd.Above rest) (ordered : Ordered rest) : Ordered (out.push ++ rest) := by
  cases effect with
  | throws => exact ordered
  | stays pushes => exact pushes.ordered ok above ordered
  | joinRoom => exact ⟨.plain rfl, ordered⟩
  | sendJoin => exact ⟨above.same nofun nofun (.inr rfl), ordered⟩
  | createRoom => exact ⟨.plain rfl, ordered⟩
  | disconnect closes =>
    rcases closes with rfl | rfl
    · exact ordered
    · exact ⟨.plain rfl, ordered⟩
  | call => exact ⟨.plain rfl, ordered⟩
  | copyRooms => exact ⟨above.same nofun (fun _ => rfl) (.inl rfl), ordered⟩
  | joined => exact ⟨.plain rfl, ordered⟩
  | created =>
    obtain ⟨loop, none⟩ := above.handler rfl
    refine ⟨⟨nofun, fun _ => ⟨?_, ?_⟩, nofun⟩, .plain rfl, .plain rfl, ordered⟩
    · exact List.mem_cons_of_mem _ (List.mem_cons_of_mem _ loop)
    · exact List.forall_mem_cons.2 ⟨rfl, List.forall_mem_cons.2 ⟨rfl, none⟩⟩
  | install reconnects =>
    have loop : Cmd.recvLoop.Above rest := above.same (fun _ => rfl) nofun (.inl rfl)
    rcases reconnects with rfl | rfl
    · exact ⟨loop, ordered⟩
    · exact ⟨.plain rfl, loop, ordered⟩
  | closed | resetWs => exact ⟨above.same (fun _ => rfl) nofun (.inl rfl), ordered⟩
  | leave => exact ⟨.plain rfl, above.same (fun _ => rfl) nofun (.inl rfl), ordered⟩
  | addRoom | sendFrame | closeWs | idSetDone | eraseRequest | setLeft => exact ordered

theorem Ordered.phase {stack : List Cmd} (ordered : Ordered stack) {c c' : Cmd} (h : c ∈ stack)
    (h' : c' ∈ stack) (phase : c.isPhase = true) (phase' : c'.isPhase = true) : c = c' := by
  induction stack with
  | nil => cases h
  | cons top rest ih =>
    obtain ⟨above, ordered⟩ := ordered
    rcases List.mem_cons.1 h with rfl | mem
    · obtain rfl := above.phase phase
      exact (List.mem_singleton.1 h').symm
    · rcases List.mem_cons.1 h' with rfl | mem'
      · rw [above.phase phase'] at mem
        exact absurd mem List.not_mem_nil
      · exact ih ordered mem mem'

/-- Whoever does something for the manager is the manager. -/
theorem Ordered.manager {stack : List Cmd} (ordered : Ordered stack) {c : Cmd} (h : c ∈ stack)
    (manager : c.isManager = true) : ∃ c' ∈ stack, c'.isPhase = true := by
  induction stack with
  | nil => cases h
  | cons top rest ih =>
    obtain ⟨above, ordered⟩ := ordered
    rcases List.mem_cons.1 h with rfl | h
    · rcases (Bool.or_eq_true_iff).1 manager with phase | handler
      · exact ⟨c, h, phase⟩
      · exact ⟨_, List.mem_cons_of_mem _ (above.handler handler).1, rfl⟩
    · obtain ⟨c', mem, phase⟩ := ih ordered h
      exact ⟨c', List.mem_cons_of_mem _ mem, phase⟩

structure Stacked (w : World) (t : Thread Tid Cmd Exn) : Prop where
  ok : ∀ cmd ∈ t.stack, cmd.Ok w
  ordered : Ordered t.stack
  answered : t.exn = none → (∃ cmd ∈ t.stack, cmd.isPhase = true) →
    ∀ {event o options requestId},
      w.eventHandlers.lookup event = some (.created o options requestId) →
      (w.objects o).named = false ∨ .eraseRequest requestId ∈ t.stack

/-- Whatever the manager does keeps the threads that are not the manager. -/
theorem Stacked.later {w w' : World} {t : Thread Tid Cmd Exn} (h : Stacked w t)
    (later : Later w w') (other : ∀ cmd ∈ t.stack, cmd.isPhase = false) : Stacked w' t := by
  have managed : ∀ cmd ∈ t.stack, cmd.isManager = false := by
    intro cmd mem
    by_contra manager
    obtain ⟨c, hc, phase⟩ := h.ordered.manager mem (by simpa using manager)
    rw [other c hc] at phase
    cases phase
  refine ⟨fun cmd mem => later.ok (managed cmd mem) (h.ok cmd mem), h.ordered, fun _ phase => ?_⟩
  obtain ⟨c, hc, phase⟩ := phase
  rw [other c hc] at phase
  cases phase

theorem Stacked.aside {w w' : World} {t : Thread Tid Cmd Exn} (h : Stacked w t)
    (sound : Sound w) (aside : Aside w w') : Stacked w' t := by
  refine ⟨fun cmd mem => aside.ok (h.ok cmd mem), h.ordered, fun exn phase => ?_⟩
  intro event o options requestId found
  rcases aside.created found with found | ⟨-, unnamed⟩
  · refine (h.answered exn phase found).imp_left fun unnamed => ?_
    exact aside.unnamed (sound.created found).2 unnamed
  · exact .inl unnamed

theorem Stacked.unanswered {w : World} {tid : Tid} {rest : List Cmd}
    (h : Stacked w ⟨tid, .recvLoop :: rest, none⟩) : Unanswered w := by
  intro event o options requestId found
  obtain rfl := h.ordered.1.phase rfl
  rcases h.answered rfl ⟨_, List.mem_cons_self, rfl⟩ found with unnamed | erase
  · exact unnamed
  · cases List.mem_singleton.1 erase

/-- The commands below the one that ran stay in order. -/
theorem Effect.below {M : MsgpackC} {J : JsonText} {w : World} {cmd : Cmd} {a : Answer}
    {out : Out} {tid : Tid} {rest : List Cmd} (effect : Effect M J w cmd a out) (sound : Sound w)
    (h : Stacked w ⟨tid, cmd :: rest, none⟩) : ∀ c ∈ rest, c.Ok out.world := by
  have ok := h.ok cmd List.mem_cons_self
  intro c hc
  have before := h.ok c (List.mem_cons_of_mem _ hc)
  cases manager : cmd.isManager with
  | false => exact (effect.aside sound ok manager).ok before
  | true =>
    rcases (Bool.or_eq_true_iff).1 manager with phase | handler
    · rw [h.ordered.1.phase phase] at hc
      cases hc
    · obtain ⟨loop, others⟩ := h.ordered.1.handler handler
      cases phase : c.isPhase with
      | true =>
        obtain rfl := h.ordered.2.phase hc loop phase rfl
        obtain ⟨n, ws, next⟩ := before
        obtain ⟨ws', next'⟩ := effect.handles handler
        exact ⟨n, ws' ▸ ws, next'.trans next⟩
      | false =>
        refine (effect.sound sound ok).2.ok ?_ before
        rw [Cmd.isManager, phase, others c hc]
        rfl

theorem Effect.answered {M : MsgpackC} {J : JsonText} {w : World} {cmd : Cmd} {a : Answer}
    {out : Out} {rest : List Cmd} (effect : Effect M J w cmd a out) (sound : Sound w)
    (ok : cmd.Ok w) (above : cmd.Above rest) (returns : out.exn = none)
    (before : ∀ {event o options requestId},
      w.eventHandlers.lookup event = some (.created o options requestId) →
      (w.objects o).named = false ∨ .eraseRequest requestId ∈ cmd :: rest) :
    ∀ {event o options requestId},
      out.world.eventHandlers.lookup event = some (.created o options requestId) →
      (out.world.objects o).named = false ∨ .eraseRequest requestId ∈ out.push ++ rest := by
  have kept : (∀ requestId, cmd ≠ .eraseRequest requestId) → ∀ {event o options requestId},
      w.eventHandlers.lookup event = some (.created o options requestId) →
      (w.objects o).named = false ∨ .eraseRequest requestId ∈ out.push ++ rest := by
    intro ne event o options requestId found
    refine (before found).imp_right fun mem => List.mem_append_right _ ?_
    exact (List.mem_cons.1 mem).resolve_left (ne requestId).symm
  have handler : cmd.isHandler = true → ∀ {event o options requestId},
      w.eventHandlers.lookup event = some (.created o options requestId) →
      (w.objects o).named = false ∨ cmd = .eraseRequest requestId := by
    intro handler event o options requestId found
    refine (before found).imp_right fun mem => ?_
    rcases List.mem_cons.1 mem with e | mem
    · exact e.symm
    · cases (above.handler handler).2 _ mem
  intro event o options requestId found
  cases manager : cmd.isManager with
  | false =>
    have aside := effect.aside sound ok manager
    rcases aside.created found with found | ⟨-, unnamed⟩
    · refine (kept (fun _ e => ?_) found).imp_left fun unnamed => ?_
      · rw [e] at manager; cases manager
      · exact aside.unnamed (sound.created found).2 unnamed
    · exact .inl unnamed
  | true =>
    cases effect with
    | @created o' options' requestId' data roomId =>
      obtain ⟨sound', later, old⟩ := sound.nameObject _ ok.1 ok.2.1 _ rfl
      have unnamed := (handler rfl (old found)).resolve_right nofun
      by_cases e : o = o'
      · obtain rfl := e
        rw [ok.2.2 (old found)]
        exact .inr List.mem_cons_self
      · refine .inl ?_
        have same := congrArg Room.named (setObject_ne w e
          { w.objects o' with id := roomId, named := true })
        exact same.trans unnamed
    | eraseRequest =>
      obtain ⟨-, -, old⟩ := sound.eraseRequest _ _ rfl
      obtain ⟨found, ne⟩ := old found
      refine .inl ((handler rfl found).resolve_right fun e => ?_)
      cases e
      exact ne rfl
    | joined | setLeft | leave =>
      exact (kept nofun found).imp_left fun unnamed => (named_setJoined ..).trans unnamed
    | throws => cases returns
    | stays pushes =>
      refine kept (fun _ e => ?_) found
      subst e
      cases pushes
    | copyRooms | idSetDone | install | closed | resetWs => exact kept nofun found
    | _ => cases manager

/-! Every run. -/

theorem Cmd.Ok.live {w : World} {cmd : Cmd} (ok : cmd.Ok w) {k : Key} (key : cmd.key = some k) :
    Key.Live w k := by
  unfold Cmd.key at key
  split at key
  · cases key; trivial
  · split at key
    · cases key
    · rename_i joins; cases key; exact ((Cmd.ok_of_joins joins).1 ok).1
    · cases key

theorem Pushes.keys {M : MsgpackC} {J : JsonText} {w : World} {cmd : Cmd} {a : Answer}
    {push : List Cmd} (pushes : Pushes M J w cmd a push) :
    push.filterMap Cmd.key = [] ∨ push.filterMap Cmd.key = cmd.key.toList := by
  cases pushes with
  | attempt | skip | ask => rename_i origin _; cases origin <;> exact .inr rfl
  | unreachable | connected | other | idSet | dispatch | lost | copied | allLeft => exact .inr rfl
  | _ => exact .inl rfl

theorem Effect.spends {M : MsgpackC} {J : JsonText} {w : World} {cmd : Cmd} {a : Answer}
    {out : Out} (effect : Effect M J w cmd a out) (sound : Sound w) (ok : cmd.Ok w) :
    Spends Cmd.key Key.Live w cmd out := by
  have later := (effect.sound sound ok).2
  have kept : ∀ k, Key.Live w k → Key.Live out.world k := fun k live => by
    cases k with
    | manager => trivial
    | chain o => exact (later.object live).1
  have none : out.push.filterMap Cmd.key = [] → Spends Cmd.key Key.Live w cmd out := fun h =>
    ⟨by rw [h]; exact .nil, by rw [h]; exact nofun, by rw [h]; exact nofun,
      fun k live _ => kept k live⟩
  have same : out.push.filterMap Cmd.key = cmd.key.toList → Spends Cmd.key Key.Live w cmd out :=
    fun h => ⟨by rw [h]; cases cmd.key <;> simp,
      by rw [h]; exact fun k hk => .inl (Option.mem_toList.1 hk),
      by rw [h]; exact fun k hk => kept k (ok.live (Option.mem_toList.1 hk)),
      fun k live _ => kept k live⟩
  have new : ∀ o, out.push.filterMap Cmd.key = [.chain o] → (w.objects o).named = false →
      (out.world.objects o).named = true → Spends Cmd.key Key.Live w cmd out := by
    intro o h unnamed named
    refine ⟨by rw [h]; exact List.nodup_singleton _, ?_, ?_, fun k live _ => kept k live⟩
    · rw [h]
      refine List.forall_mem_singleton.2 (.inr fun live => ?_)
      have absurd : (w.objects o).named = true := live
      rw [unnamed] at absurd
      cases absurd
    · rw [h]
      exact List.forall_mem_singleton.2 named
  cases effect with
  | throws => exact none rfl
  | stays pushes => exact pushes.keys.elim none same
  | joinRoom =>
    exact new _ rfl (sound.unborn le_rfl) (congrArg Room.named (setObject_self w _ _))
  | sendJoin => rename_i origin; cases origin <;> exact same rfl
  | disconnect closes => rcases closes with rfl | rfl <;> exact none rfl
  | created =>
    exact new _ rfl ok.1 (congrArg Room.named (setObject_self w _ _))
  | install reconnects => rcases reconnects with rfl | rfl <;> exact same rfl
  | closed | resetWs | leave => exact same rfl
  | addRoom | createRoom | sendFrame | closeWs | call | copyRooms | idSetDone | joined
  | eraseRequest | setLeft => exact none rfl

def Unshared (c : ClientConfig) : Prop := Distinct Cmd.key Key.Live c

/-- There is one manager. -/
theorem Unshared.managers {c : ClientConfig} (h : Unshared c) {t t' : Thread Tid Cmd Exn}
    (running : c.running = some t) (parked : t' ∈ c.parked) {cmd cmd' : Cmd} (mem : cmd ∈ t.stack)
    (mem' : cmd' ∈ t'.stack) {k : Key} (key : cmd.key = some k) : cmd'.key ≠ some k := by
  intro key'
  have nodup := h.1
  rw [Config.tokens, running, Option.toList_some, List.singleton_append, List.flatMap_cons] at nodup
  have disjoint := (List.nodup_append.1 nodup).2.2
  refine disjoint k (List.mem_filterMap.2 ⟨cmd, mem, key⟩) k ?_ rfl
  exact List.mem_flatMap.2 ⟨t', parked, List.mem_filterMap.2 ⟨cmd', mem', key'⟩⟩

structure Kept (c : ClientConfig) : Prop where
  unshared : Unshared c
  holds : Holds Sound (Each Stacked) Stacked c

theorem Key.manager_of_phase {cmd : Cmd} (phase : cmd.isPhase = true) : cmd.key = some .manager := by
  rw [Cmd.key, phase]
  rfl

theorem Key.chain_of_joins {cmd : Cmd} {o : Ref} {roomId : Str} {origin : Origin}
    (joins : cmd.joins = some (o, roomId, origin)) (ne : origin ≠ .rejoin) :
    cmd.key = some (.chain o) := by
  cases cmd with
  | joinRoomShared | sendUnlessJoined | sendJoin | addRoom =>
    cases joins
    cases origin <;> first | rfl | exact absurd rfl ne
  | _ => cases joins

theorem phase_of_key {cmd : Cmd} (key : cmd.key = some .manager) : cmd.isPhase = true := by
  unfold Cmd.key at key
  split at key
  · assumption
  · split at key <;> cases key

theorem spawn_app {w w' : World} {e : EnvEvent} {new : List (Tid × List Cmd)}
    (h : spawn w e = some (w', new)) : w' = w ∧
      ∃ cmd, new = [(.app, [cmd])] ∧ cmd.isManager = false ∧ cmd.joins = none ∧ cmd.Ok w := by
  cases e with
  | joinRoom roomId options => cases h; exact ⟨rfl, _, rfl, rfl, rfl, trivial⟩
  | createRoom roomName options => cases h; exact ⟨rfl, _, rfl, rfl, rfl, trivial⟩
  | send o key data =>
    cases h
    refine ⟨rfl, _, rfl, rfl, rfl, ?_⟩
    change sendMessage ≠ Protocol.joinRoom
    decide
  | disconnect => cases h; exact ⟨rfl, _, rfl, rfl, rfl, trivial⟩

theorem Cmd.key_eq_none {cmd : Cmd} (manager : cmd.isManager = false) (joins : cmd.joins = none) :
    cmd.key = none := by
  rw [Cmd.key, (Bool.or_eq_false_iff.1 manager).1, joins]
  rfl

theorem stacked_preserved (M : MsgpackC) (J : JsonText) :
    Preserved (client M J) Sound (Each Stacked) Stacked fun c _ => Unshared c := by
  refine .each _ ?_ ?_ ?_
  · rintro c tid cmd rest a out ⟨sound, running, parked⟩ unshared top run
    have effect := exec_effect (M := M) (J := J) run
    have stacked := running _ top
    have ok := stacked.ok cmd List.mem_cons_self
    obtain ⟨above, ordered⟩ := stacked.ordered
    obtain ⟨sound', later⟩ := effect.sound sound ok
    refine ⟨sound', ⟨fun c' hc' => ?_, effect.ordered ok above ordered, fun returns phase => ?_⟩,
      fun t ht => ?_⟩
    · rcases List.mem_append.1 hc' with hc' | hc'
      · exact effect.ok sound ok (fun e => by subst e; exact stacked.unanswered) c' hc'
      · exact effect.below sound stacked c' hc'
    · refine effect.answered sound ok above returns (stacked.answered rfl ?_)
      obtain ⟨c', hc', phase⟩ := phase
      rcases List.mem_append.1 hc' with hc' | hc'
      · have pushed := List.mem_filterMap.2 ⟨c', hc', Key.manager_of_phase phase⟩
        rcases (effect.spends sound ok).source _ pushed with key | dead
        · exact ⟨cmd, List.mem_cons_self, phase_of_key key⟩
        · exact absurd trivial dead
      · exact ⟨c', List.mem_cons_of_mem _ hc', phase⟩
    · cases manager : cmd.isManager with
      | false => exact (parked t ht).aside sound (effect.aside sound ok manager)
      | true =>
        obtain ⟨c', hc', phase⟩ := stacked.ordered.manager List.mem_cons_self manager
        refine (parked t ht).later later fun other mem => ?_
        by_contra phase'
        exact unshared.managers top ht hc' mem (Key.manager_of_phase phase)
          (Key.manager_of_phase (by simpa using phase'))
  · rintro c tid cmd rest x a out ⟨sound, running, parked⟩ unshared top run
    obtain rfl := Option.some.inj run
    have stacked := running _ top
    refine ⟨sound, ⟨fun c' mem => ?_, stacked.ordered.2, nofun⟩, parked⟩
    exact stacked.ok c' (List.mem_cons_of_mem _ mem)
  · rintro c e w new ⟨sound, running, parked⟩ unshared run
    obtain ⟨rfl, cmd, rfl, manager, joins, ok⟩ := spawn_app run
    have plain : cmd.isPlain = true := by rw [Cmd.isPlain, manager, joins]; rfl
    refine ⟨sound, running, parked, List.forall_mem_singleton.2 ⟨?_, ⟨.plain plain, trivial⟩, ?_⟩⟩
    · exact List.forall_mem_singleton.2 ok
    · rintro _ ⟨c', mem, phase⟩
      rw [List.mem_singleton.1 mem] at phase
      rw [Cmd.isManager, phase] at manager
      cases manager

theorem Kept.step {M : MsgpackC} {J : JsonText} {c c' : ClientConfig} {l : Label Answer EnvEvent}
    (kept : Kept c) (h : Step (client M J) c l c') : Kept c' := by
  refine ⟨?_, (stacked_preserved M J).step _ kept.holds kept.unshared h⟩
  obtain ⟨sound, running, parked⟩ := kept.holds
  refine kept.unshared.step _ Cmd.key h (fun top run => ?_) (fun top run => ?_) fun run => ?_
  · exact (exec_effect (M := M) (J := J) run).spends sound ((running _ top).ok _ List.mem_cons_self)
  · obtain rfl := Option.some.inj run
    exact Effect.spends (M := M) (J := J) (a := .next) .throws sound
      ((running _ top).ok _ List.mem_cons_self)
  · obtain ⟨rfl, cmd, rfl, manager, joins, -⟩ := spawn_app run
    simp [Cmd.key_eq_none manager joins]

/-- While the manager runs, nothing of its own waits elsewhere. -/
theorem Kept.no_manager {c : ClientConfig} (kept : Kept c) {t t' : Thread Tid Cmd Exn}
    (top : c.running = some t) (mem : t' ∈ c.parked) {cmd : Cmd} (below : cmd ∈ t.stack)
    (manager : cmd.isManager = true) : ∀ cmd' ∈ t'.stack, cmd'.isManager = false := by
  obtain ⟨sound, running, parked⟩ := kept.holds
  obtain ⟨loop, below, phase⟩ := (running _ top).ordered.manager below manager
  intro cmd' mem'
  by_contra manager'
  obtain ⟨loop', below', phase'⟩ := (parked t' mem).ordered.manager mem' (by simpa using manager')
  exact kept.unshared.managers top mem below below' (Key.manager_of_phase phase)
    (Key.manager_of_phase phase')

def Cmd.Rejoining (cmd : Cmd) : Prop :=
  (∃ rooms, cmd = .rejoinRooms rooms) ∨ ∃ o roomId, cmd.joins = some (o, roomId, .rejoin)

theorem Ordered.rejoining {stack : List Cmd} (ordered : Ordered stack) {cmd : Cmd}
    (mem : cmd ∈ stack) (rejoining : cmd.Rejoining) : ∃ rooms, .rejoinRooms rooms ∈ stack := by
  induction stack with
  | nil => cases mem
  | cons top rest ih =>
    obtain ⟨above, ordered⟩ := ordered
    rcases List.mem_cons.1 mem with rfl | mem
    · rcases rejoining with ⟨rooms, rfl⟩ | ⟨o, roomId, joins⟩
      · exact ⟨rooms, List.mem_cons_self⟩
      · obtain ⟨rooms, below, rfl, -⟩ := above.rejoin joins
        exact ⟨rooms, List.mem_cons_of_mem _ List.mem_cons_self⟩
    · obtain ⟨rooms, found⟩ := ih ordered mem
      exact ⟨rooms, List.mem_cons_of_mem _ found⟩

def Waits (c : ClientConfig) (rest : List Cmd) (cmd : Cmd) : Prop :=
  cmd ∈ rest ∨ ∃ t ∈ c.parked, cmd ∈ t.stack

section
variable {c : ClientConfig} {tid : Tid} {cmd cmd' : Cmd} {rest : List Cmd} (kept : Kept c)
  (top : c.running = some ⟨tid, cmd :: rest, none⟩) (waits : Waits c rest cmd')
include kept top waits

theorem Kept.waits_ok : cmd'.Ok c.world := by
  obtain ⟨sound, running, parked⟩ := kept.holds
  rcases waits with mem | ⟨t, ht, mem⟩
  · exact (running _ top).ok cmd' (List.mem_cons_of_mem _ mem)
  · exact (parked t ht).ok cmd' mem

theorem Kept.waits_key {k : Key} (key : cmd.key = some k) : cmd'.key ≠ some k := by
  rcases waits with mem | ⟨t, ht, mem⟩
  · intro key'
    have nodup := kept.unshared.1
    rw [tokens_top Cmd.key top, key] at nodup
    have disjoint := (List.nodup_append.1 nodup).2.2
    refine disjoint k (List.mem_singleton_self k) k (List.mem_append_left _ ?_) rfl
    exact List.mem_filterMap.2 ⟨cmd', mem, key'⟩
  · exact kept.unshared.managers top ht List.mem_cons_self mem key

theorem Kept.waits_manager (manager : cmd.isManager = true) : ¬ cmd'.Rejoining := by
  intro rejoining
  obtain ⟨sound, running, parked⟩ := kept.holds
  obtain ⟨above, ordered⟩ := (running _ top).ordered
  rcases waits with mem | ⟨t, ht, mem⟩
  · rcases Bool.or_eq_true_iff.1 manager with phase | handler
    · rw [above.phase phase] at mem
      cases mem
    · obtain ⟨rooms, found⟩ := ordered.rejoining mem rejoining
      cases (above.handler handler).2 _ found
  · obtain ⟨rooms, found⟩ := (parked t ht).ordered.rejoining mem rejoining
    cases kept.no_manager top ht List.mem_cons_self manager _ found

theorem Kept.waits_rejoin {o : Ref} {roomId : Str} (joins : cmd.joins = some (o, roomId, .rejoin))
    (rejoining : cmd'.Rejoining) : ∃ rooms, cmd' = .rejoinRooms rooms ∧ o ∉ rooms := by
  obtain ⟨sound, running, parked⟩ := kept.holds
  obtain ⟨above, ordered⟩ := (running _ top).ordered
  obtain ⟨rooms, below, rfl, fresh⟩ := above.rejoin joins
  rcases waits with mem | ⟨t, ht, mem⟩
  · rcases List.mem_cons.1 mem with rfl | mem
    · exact ⟨rooms, rfl, fresh⟩
    · obtain ⟨rooms', found⟩ := ordered.2.rejoining mem rejoining
      cases (ordered.1.handler rfl).2 _ found
  · obtain ⟨rooms', found⟩ := (parked t ht).ordered.rejoining mem rejoining
    cases kept.no_manager top ht (List.mem_cons_of_mem _ List.mem_cons_self) rfl _ found

end

theorem Kept.initial : Kept ClientConfig.initial := by
  refine ⟨⟨List.nodup_singleton Key.manager, List.forall_mem_singleton.2 trivial⟩, ?_, nofun, ?_⟩
  · exact { unborn := fun _ => rfl, joined := nofun, rooms := nofun, ids := .nil, returned := nofun
            message := nofun, created := nofun, once := nofun, ws := nofun, sent := nofun
            copied := nofun, idSet := nofun }
  · refine List.forall_mem_singleton.2 ⟨?_, ⟨⟨fun _ => rfl, nofun, nofun⟩, trivial⟩, nofun⟩
    exact List.forall_mem_singleton.2 trivial

/-- Every configuration of a run is in order. -/
theorem Kept.run {M : MsgpackC} {J : JsonText} {ok : ClientConfig → Label Answer EnvEvent → Prop}
    {ls : List (Label Answer EnvEvent)} {c : ClientConfig}
    (run : Run (client M J) ok ClientConfig.initial ls c) : Kept c :=
  run.invariant _ .initial fun kept _ h => kept.step h

end Blueboat.Client
