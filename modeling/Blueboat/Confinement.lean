import Blueboat.Provenance

set_option autoImplicit false

/-! Which listeners one frame of a client reaches. -/
namespace Blueboat

open Protocol LockMachine Ledger

def During (sessionId : Str) (c : ServerConfig) (_ : Label Answer EnvEvent) : Prop :=
  ∀ tid rest x, c.running ≠ some ⟨tid, .endOp sessionId :: rest, x⟩

def fieldsOf (dataIn : Json) : Json := if dataIn.isObject then dataIn else .obj []

def namedRoom (event : Str) (dataIn : Json) : Option Str :=
  if event = Protocol.joinRoom then ((fieldsOf dataIn).valueString (lit "roomId") []).toOption
  else if event = sendMessage then ((fieldsOf dataIn).valueString (lit "room") []).toOption
  else none

section
variable (M : MsgpackC) (J : JsonText)

def Invokes (c : ServerConfig) (sessionId : Str) (handler : Handler) : Prop :=
  ∃ ls c' payload handlers rest, Run (server M J) (During sessionId) c ls c' ∧
    c'.running = some ⟨.conn sessionId, .deliver payload (handler :: handlers) :: rest, none⟩

/-- The frame that is about to be handled reaches at most the listener of the room it names. -/
structure Confined (c : ServerConfig) (client : SimpleClient) (event : Str) (data : Json) : Prop where
  names : ∀ handler, Invokes M J c client.sessionId handler → ∃ r, handler = .gameMessage r ∧
    namedRoom event data = some (c.world.rooms r).roomId
  one : ∀ r r', Invokes M J c client.sessionId (.gameMessage r) →
    Invokes M J c client.sessionId (.gameMessage r') → r = r'

/-- The frame is one that is published: it asks for a join or a message, in a form that is read
without an error, and a room that is joined has a record. -/
inductive Publishes (w : World) (client : SimpleClient) : Str → Json → Str → Json → Prop where
  | join {dataIn options : Json} {roomId : Str} {room : RoomSnapshot}
      (reads : (fieldsOf dataIn).valueString (lit "roomId") [] = .ok roomId) (named : roomId ≠ [])
      (found : RoomFetcher.findRoomById J w.storage w.now roomId = .ok room)
      (asks : (fieldsOf dataIn).valueJson (lit "options") (.obj []) = .ok options) :
    Publishes w client Protocol.joinRoom dataIn roomId (joinPayload client options)
  | message {dataIn key content : Json} {room : Str}
      (reads : (fieldsOf dataIn).valueString (lit "room") [] = .ok room) (named : room ≠ [])
      (keyed : (fieldsOf dataIn).find? (lit "key") = some key)
      (asks : (fieldsOf dataIn).valueJson (lit "data") .null = .ok content) :
    Publishes w client sendMessage dataIn room (messagePayload client key content)

end

/-- A listener of a room throws before it calls the room: the sender of the message is a member, and
the key is not a string. -/
def Refuses (w : World) (payload : Json) (r : RoomRef) : Prop :=
  ∃ client sender x, roomMessage payload = .ok (.message client) ∧
    (w.rooms r).member client.sessionId = some sender ∧ messageArgs payload = .error x

def OwnListener (w : World) (payload : Json) : List Handler → Prop
  | [] => True
  | [.gameMessage _] => True
  | .gameMessage r :: _ :: _ => Refuses w payload r
  | _ => False

def Cmd.calm : Cmd → Bool
  | .dispatch .. => false
  | .handleClientMessage .. => false
  | .handleClientDisconnect _ => false
  | .joinRoom .. => false
  | .publish .. => false
  | .deliver _ (_ :: _) => false
  | .subscribeInfo _ => false
  | _ => true

section
variable {M : MsgpackC} {J : JsonText} {w : World} {cmd : Cmd} {a : Answer} {o : Out}

theorem Child.calm {c : Cmd} (h : Child w cmd c) (calm : cmd.calm = true) : c.calm = true := by
  cases h <;> first | rfl | cases calm

theorem leaveOf_calm {r : RoomRef} {client : SimpleClient} {intentional : Bool} {left : List ℕ} :
    ∀ c ∈ leaveOf r client intentional left, c.calm = true := by
  simp [leaveOf, Cmd.calm]

theorem Pushed.calm {c : Cmd} (h : Pushed w cmd a c) (calm : cmd.calm = true) : c.calm = true := by
  cases h with
  | child child => exact child.calm calm
  | leave _ mem => exact leaveOf_calm c mem
  | askInfo => cases calm
  | _ => rfl

theorem exec_calm (h : exec M J w cmd a = some o) (calm : cmd.calm = true) :
    ∀ c ∈ o.push, c.calm = true :=
  fun _ mem => ((exec_effect M J h).pushed mem).calm calm

theorem Unwound.calm {x : Exn} (h : Unwound w cmd x a o) : ∀ c ∈ o.push, c.calm = true := by
  intro c mem
  cases h.resumed mem <;> rfl

variable {client : SimpleClient} {event : Str} {data : Json} {key : Str} {payload : Json}

theorem Publishes.namedRoom (h : Publishes J w client event data key payload) :
    namedRoom event data = some key := by
  cases h with
  | join reads => simp [Blueboat.namedRoom, reads, Except.toOption]
  | message reads =>
    have other : sendMessage ≠ Protocol.joinRoom := by decide
    simp [Blueboat.namedRoom, other, reads, Except.toOption]

/-- The steps that the frame takes until it is published. -/
theorem handleClientMessage_cases (J : JsonText) (w : World) (client : SimpleClient) (event : Str)
    (data : Json) : (∀ c ∈ (handleClientMessage w client event data).push, c.calm = true) ∨
      (∃ roomId, event = Protocol.joinRoom ∧ roomId ≠ [] ∧
        (fieldsOf data).valueString (lit "roomId") [] = .ok roomId ∧
        handleClientMessage w client event data =
          .go w [.joinRoom client roomId (fieldsOf data), .catchJoinRoom client roomId]) ∨
      ∃ room payload, (∀ w', Publishes J w' client event data room payload) ∧
        handleClientMessage w client event data = .go w [.publish room payload] := by
  unfold handleClientMessage
  rw [← fieldsOf]
  dsimp only
  split
  · left
    split
    · exact nofun
    · exact nofun
    · split
      · exact nofun
      · split <;> simp [Cmd.calm]
  · split
    · rename_i joins
      subst joins
      split
      · exact .inl nofun
      · rename_i roomId reads
        split
        · exact .inl nofun
        · rename_i named
          exact .inr (.inl ⟨roomId, rfl, named, reads, rfl⟩)
    · split
      · rename_i sends
        subst sends
        split
        · exact .inl nofun
        · rename_i room reads
          split
          · exact .inl nofun
          · rename_i named
            split
            · exact .inl nofun
            · rename_i key keyed
              split
              · exact .inl nofun
              · rename_i content asks
                exact .inr (.inr ⟨room, _, fun _ => .message reads named keyed asks, rfl⟩)
      · exact .inl nofun

theorem joinRoom_cases (J : JsonText) (w : World) (client : SimpleClient) (roomId : Str)
    (data : Json) : (joinRoom J w client roomId data).push = [] ∨
      ∃ room options, RoomFetcher.findRoomById J w.storage w.now roomId = .ok room ∧
        data.valueJson (lit "options") (.obj []) = .ok options ∧
        joinRoom J w client roomId data = .go w [.publish roomId (joinPayload client options)] := by
  unfold joinRoom
  split
  · exact .inl rfl
  · rename_i room found
    split
    · exact .inl rfl
    · rename_i options asks
      exact .inr ⟨room, options, found, asks, rfl⟩

/-- A record that is found later is found now. -/
theorem findRoomById_earlier {storage : MemoryStorage} {now later : ℤ} {roomId : Str}
    {room : RoomSnapshot} (le : now ≤ later)
    (h : RoomFetcher.findRoomById J storage later roomId = .ok room) :
    RoomFetcher.findRoomById J storage now roomId = .ok room := by
  unfold RoomFetcher.findRoomById at h ⊢
  cases stored : storage.get later (roomKey roomId) with
  | none => rw [stored] at h; cases h
  | some raw =>
    obtain ⟨e, lookup, live, value⟩ := MemoryStorage.get_eq_some.1 stored
    have live' : MemoryStorage.expired now e = false := by
      unfold MemoryStorage.expired at live ⊢
      split
      · rfl
      · rename_i t expires
        simp only [expires, decide_eq_false_iff_not, not_lt] at live ⊢
        exact le.trans live
    rw [stored] at h
    rw [MemoryStorage.get_eq_some.2 ⟨e, lookup, live', value⟩]
    exact h

end

/-- Nothing that a frame reads before it reaches a listener has changed, but for the time. -/
structure Frozen (w w' : World) : Prop where
  rooms : w'.rooms = w.rooms
  pubsub : w'.pubsub = w.pubsub
  storage : w'.storage = w.storage
  now : w.now ≤ w'.now

theorem Frozen.arrival {w₀ w w' : World} (frozen : Frozen w₀ w) {e : EnvEvent}
    {new : List (Tid × List Cmd)} (h : Arrival w e w' new) : Frozen w₀ w' := by
  obtain ⟨rooms, pubsub, storage, now⟩ := frozen
  cases h with
  | tick => exact ⟨rooms, pubsub, storage, now.trans (Int.le_add_of_nonneg_right (Int.natCast_nonneg _))⟩
  | _ => exact ⟨rooms, pubsub, storage, now⟩

theorem Frozen.publishes {J : JsonText} {w w' : World} (frozen : Frozen w w')
    {client : SimpleClient} {event key : Str} {data payload : Json}
    (h : Publishes J w' client event data key payload) : Publishes J w client event data key payload := by
  cases h with
  | join reads named found asks =>
    rw [frozen.storage] at found
    exact .join reads named (findRoomById_earlier frozen.now found) asks
  | message reads named keyed asks => exact .message reads named keyed asks

theorem Frozen.handlersOf {w w' : World} (frozen : Frozen w w') (key : Str) :
    w'.handlersOf key = w.handlersOf key := by
  rw [World.handlersOf, frozen.pubsub, World.handlersOf]

section
variable (J : JsonText) (w₀ : World) (client : SimpleClient) (event : Str) (data : Json)

/-- How far the thread has come with its frame: it is still to be published, or the first of its
listeners is to be called, or nothing is published any more. -/
inductive Progress (w : World) : List Cmd → Option Exn → Prop where
  | asked {below : List Cmd} (frozen : Frozen w₀ w) (calm : ∀ c ∈ below, c.calm = true) :
    Progress w (.handleClientMessage client event data :: below) none
  | joining {roomId : Str} {below : List Cmd} (frozen : Frozen w₀ w)
      (joins : event = Protocol.joinRoom) (named : roomId ≠ [])
      (reads : (fieldsOf data).valueString (lit "roomId") [] = .ok roomId)
      (calm : ∀ c ∈ below, c.calm = true) :
    Progress w (.joinRoom client roomId (fieldsOf data) :: below) none
  | publishing {key : Str} {payload : Json} {below : List Cmd} (frozen : Frozen w₀ w)
      (published : Publishes J w₀ client event data key payload)
      (calm : ∀ c ∈ below, c.calm = true) : Progress w (.publish key payload :: below) none
  | delivering {key : Str} {payload : Json} {below : List Cmd} (frozen : Frozen w₀ w)
      (published : Publishes J w₀ client event data key payload)
      (calm : ∀ c ∈ below, c.calm = true) :
    Progress w (.deliver payload (w₀.handlersOf key) :: below) none
  | calm {stack : List Cmd} {x : Option Exn} (calm : ∀ c ∈ stack, c.calm = true) :
    Progress w stack x

def Aimed : Prop := ∀ key payload, Publishes J w₀ client event data key payload →
  OwnListener w₀ payload (w₀.handlersOf key)

end

section
variable {M : MsgpackC} {J : JsonText} {w₀ w : World} {client : SimpleClient} {event : Str}
  {data : Json} {a : Answer} {o : Out}

theorem forall_append {push below : List Cmd} (calm : ∀ c ∈ push, c.calm = true)
    (calm' : ∀ c ∈ below, c.calm = true) : ∀ c ∈ push ++ below, c.calm = true :=
  fun c mem => (List.mem_append.1 mem).elim (calm c) (calm' c)

/-- The one listener that is called leaves nothing to deliver. -/
theorem deliver_calm {key : Str} {payload : Json}
    (published : Publishes J w₀ client event data key payload) (rooms : w.rooms = w₀.rooms)
    {handlers : List Handler} (own : OwnListener w₀ payload handlers)
    (h : exec M J w (.deliver payload handlers) a = some o) : ∀ c ∈ o.push, c.calm = true := by
  have first : ∀ {r : RoomRef} {left : List Handler}, (left = [] ∨ Refuses w₀ payload r) →
      ∀ c ∈ (handle w payload [.deliver payload left] (.gameMessage r)).push, c.calm = true := by
    intro r left ends
    rcases ends with rfl | ⟨sent, sender, x, reads, member, refuses⟩
    · cases published with
      | join => rw [handle, roomMessage_join]; simp [Cmd.calm]
      | message =>
        rw [handle, roomMessage_message]
        dsimp only
        split
        · simp [Cmd.calm]
        · split <;> simp [Cmd.calm]
    · rw [handle, reads, rooms]
      dsimp only
      rw [member, refuses]
      exact List.forall_mem_nil _
  cases handlers with
  | nil => obtain rfl := Option.some.inj h; exact List.forall_mem_nil _
  | cons handler left =>
    obtain rfl := Option.some.inj h
    cases handler with
    | playerLeft r => cases own
    | infoRequest n => cases own
    | gameMessage r =>
      cases left with
      | nil => exact first (.inl rfl)
      | cons handler' left => exact first (.inr own)

theorem Progress.exec {cmd : Cmd} {rest : List Cmd}
    (progress : Progress J w₀ client event data w (cmd :: rest) none)
    (aimed : Aimed J w₀ client event data) (h : exec M J w cmd a = some o) :
    Progress J w₀ client event data o.world (o.push ++ rest) o.exn ∧
      (o.parks = true → ∀ c ∈ o.push ++ rest, c.calm = true) := by
  have ended : (∀ c ∈ o.push, c.calm = true) → (∀ c ∈ rest, c.calm = true) →
      Progress J w₀ client event data o.world (o.push ++ rest) o.exn ∧
        (o.parks = true → ∀ c ∈ o.push ++ rest, c.calm = true) := fun calm calm' =>
    ⟨.calm (forall_append calm calm'), fun _ => forall_append calm calm'⟩
  cases progress with
  | asked frozen calm =>
    obtain rfl := Option.some.inj h
    rcases handleClientMessage_cases J w client event data with
      quiet | ⟨roomId, rfl, named, reads, asks⟩ | ⟨room, payload, published, asks⟩
    · exact ended quiet calm
    · rw [asks]
      exact ⟨.joining frozen rfl named reads (List.forall_mem_cons.2 ⟨rfl, calm⟩), nofun⟩
    · rw [asks]
      exact ⟨.publishing frozen (published w₀) calm, nofun⟩
  | @joining roomId _ frozen joins named reads calm =>
    obtain rfl := Option.some.inj h
    rcases joinRoom_cases J w client roomId (fieldsOf data) with
      quiet | ⟨room, options, found, asks, publishes⟩
    · exact ended (by rw [quiet]; exact nofun) calm
    · rw [publishes]
      subst joins
      exact ⟨.publishing frozen (frozen.publishes (.join reads named found asks)) calm, nofun⟩
  | @publishing key payload _ frozen published calm =>
    obtain rfl := Option.some.inj h
    rw [frozen.handlersOf]
    exact ⟨.delivering frozen published calm, nofun⟩
  | @delivering key payload _ frozen published calm =>
    exact ended (deliver_calm published frozen.rooms (aimed key payload published) h) calm
  | calm calm =>
    exact ended (exec_calm h (calm cmd List.mem_cons_self)) fun c mem =>
      calm c (List.mem_cons_of_mem _ mem)

theorem Progress.unwind {cmd : Cmd} {rest : List Cmd} {x : Exn}
    (progress : Progress J w₀ client event data w (cmd :: rest) (some x))
    (h : Unwound w cmd x a o) : ∀ c ∈ o.push ++ rest, c.calm = true := by
  cases progress with
  | calm calm => exact forall_append h.calm fun c mem => calm c (List.mem_cons_of_mem _ mem)

theorem Progress.arrival {w' : World} {e : EnvEvent} {new : List (Tid × List Cmd)}
    {stack : List Cmd} {x : Option Exn} (progress : Progress J w₀ client event data w stack x)
    (h : Arrival w e w' new) : Progress J w₀ client event data w' stack x := by
  cases progress with
  | asked frozen calm => exact .asked (frozen.arrival h) calm
  | joining frozen joins named reads calm => exact .joining (frozen.arrival h) joins named reads calm
  | publishing frozen published calm => exact .publishing (frozen.arrival h) published calm
  | delivering frozen published calm => exact .delivering (frozen.arrival h) published calm
  | calm calm => exact .calm calm

end

section
variable (J : JsonText) (w₀ : World) (client : SimpleClient) (event : Str) (data : Json)

structure AtFrame (c : ServerConfig) : Prop where
  kept : Kept c
  arranged : Arranged c
  held : Key.op client.sessionId ∈ c.tokens Cmd.key
  running : ∀ {stack x}, c.running = some ⟨.conn client.sessionId, stack, x⟩ →
    Progress J w₀ client event data c.world stack x
  parked : ∀ t ∈ c.parked, t.tid = .conn client.sessionId → ∀ cmd ∈ t.stack, cmd.calm = true

variable {J w₀ client event data}

theorem AtFrame.step {M : MsgpackC} {c c' : ServerConfig} {l : Label Answer EnvEvent}
    (at' : AtFrame J w₀ client event data c) (aimed : Aimed J w₀ client event data)
    (busy : During client.sessionId c l) (h : Step (server M J) c l c') :
    AtFrame J w₀ client event data c' := by
  have held : Key.op client.sessionId ∈ c'.tokens Cmd.key := by
    refine h.keeps_token _ Cmd.key at'.held fun tid cmd rest x top key => ?_
    cases cmd <;> cases key
    exact busy tid rest x top
  refine ⟨at'.kept.step h, at'.arranged.step h, held, fun {stack x} top => ?_, fun t mem here => ?_⟩
  · cases h with
    | finish => cases top
    | crash _ before => exact at'.running top
    | @exec tid cmd rest a o _ before run =>
      obtain ⟨rfl, rfl, rfl⟩ := Thread.mk.inj (running_settle top)
      rw [world_settle]
      exact ((at'.running before).exec aimed run).1
    | @unwind tid cmd rest x a o _ before run =>
      obtain ⟨rfl, rfl, rfl⟩ := Thread.mk.inj (running_settle top)
      exact .calm ((at'.running before).unwind (unwind_effect run))
    | take _ _ at_i =>
      cases top
      exact .calm (at'.parked _ (List.mem_of_getElem? at_i) rfl)
    | env _ run => exact (at'.running top).arrival (spawn_arrival run)
  · cases h with
    | finish => exact at'.parked t mem here
    | crash => exact at'.parked t mem here
    | @exec tid cmd rest a o _ before run =>
      rcases parked_settle mem with mem | ⟨parks, rfl⟩
      · exact at'.parked t mem here
      · obtain rfl : tid = _ := here
        exact ((at'.running before).exec aimed run).2 parks
    | @unwind tid cmd rest x a o _ before run =>
      rcases parked_settle mem with mem | ⟨parks, rfl⟩
      · exact at'.parked t mem here
      · obtain rfl : tid = _ := here
        exact (at'.running before).unwind (unwind_effect run)
    | take => exact at'.parked t (List.mem_of_mem_eraseIdx mem) here
    | @env e w new _ run =>
      rcases List.mem_append.1 mem with mem | mem
      · exact at'.parked t mem here
      · obtain ⟨p, hp, rfl⟩ := List.mem_map.1 mem
        have arrival := spawn_arrival run
        have started := (arrival.serves (M := M) (J := J) at'.arranged.1 p hp).1
        exact absurd (at'.kept.unshared.2 _ at'.held)
          (arrival.free (started.trans (congrArg some here)))

/-- The thread that is about to handle the frame is the session's only one. -/
theorem AtFrame.start {c : ServerConfig} (kept : Kept c) (arranged : Arranged c) {tid : Tid}
    {rest : List Cmd}
    (top : c.running = some ⟨tid, .handleClientMessage client event data :: rest, none⟩) :
    tid = .conn client.sessionId ∧ AtFrame J c.world client event data c := by
  obtain ⟨rfl, rfl, alone⟩ := arranged.alone kept top rfl
  refine ⟨rfl, kept, arranged, ?_, fun {stack x} running => ?_, fun t mem here cmd hcmd => ?_⟩
  · rw [tokens_top Cmd.key top]
    exact List.mem_append_right _ List.mem_cons_self
  · cases top.symm.trans running
    exact .asked ⟨rfl, rfl, rfl, le_rfl⟩ (List.forall_mem_singleton.2 rfl)
  · rw [alone t mem here] at hcmd
    cases hcmd

/-- A listener that is called is the first one of the channel that the frame is published on. -/
theorem AtFrame.first {c : ServerConfig} (at' : AtFrame J w₀ client event data c) {payload : Json}
    {handler : Handler} {handlers : List Handler} {rest : List Cmd}
    (top : c.running =
      some ⟨.conn client.sessionId, .deliver payload (handler :: handlers) :: rest, none⟩) :
    ∃ key payload, Publishes J w₀ client event data key payload ∧
      w₀.handlersOf key = handler :: handlers := by
  have progress := at'.running top
  generalize called : handler :: handlers = listeners at progress
  cases progress with
  | @delivering key _ _ _ published _ => exact ⟨key, payload, published, rfl⟩
  | calm calm =>
    subst called
    cases calm _ List.mem_cons_self

end

section
variable {M : MsgpackC} {J : JsonText} {c : ServerConfig} {client : SimpleClient} {event : Str}
  {data : Json} {tid : Tid} {rest : List Cmd}

theorem Confined.of_aimed (kept : Kept c) (arranged : Arranged c)
    (top : c.running = some ⟨tid, .handleClientMessage client event data :: rest, none⟩)
    (aimed : Aimed J c.world client event data) : Confined M J c client event data := by
  obtain ⟨rfl, start⟩ := AtFrame.start (J := J) kept arranged top
  have first : ∀ handler, Invokes M J c client.sessionId handler → ∃ key payload handlers,
      Publishes J c.world client event data key payload ∧
        c.world.handlersOf key = handler :: handlers := by
    rintro handler ⟨ls, c', payload, handlers, rest', run, called⟩
    have at' := run.invariant _ start fun at' busy h => at'.step aimed busy h
    obtain ⟨key, payload, published, listed⟩ := at'.first called
    exact ⟨key, payload, handlers, published, listed⟩
  refine ⟨fun handler invoked => ?_, fun r r' invoked invoked' => ?_⟩
  · obtain ⟨key, payload, handlers, published, listed⟩ := first handler invoked
    have own := aimed key payload published
    rw [listed] at own
    cases handler with
    | playerLeft r => cases own
    | infoRequest n => cases own
    | gameMessage r =>
      have mem : Handler.gameMessage r ∈ c.world.handlersOf key := listed ▸ List.mem_cons_self
      obtain ⟨l, hl, handles⟩ := List.mem_map.1 mem
      have owns := (kept.sound.owns hl).1
      rw [Owns, handles] at owns
      exact ⟨r, rfl, published.namedRoom.trans (congrArg some owns.2.1)⟩
  · obtain ⟨key, payload, handlers, published, listed⟩ := first _ invoked
    obtain ⟨key', payload', handlers', published', listed'⟩ := first _ invoked'
    obtain rfl : key = key' := Option.some.inj (published.namedRoom.symm.trans published'.namedRoom)
    cases listed.symm.trans listed'
    rfl

theorem During.at {sessionId : Str} {l : Label Answer EnvEvent} {cmd : Cmd} {x : Option Exn}
    (top : c.running = some ⟨tid, cmd :: rest, x⟩) (going : cmd.ends = false := by rfl) :
    During sessionId c l := by
  intro tid' rest' x' top'
  cases top.symm.trans top'
  cases going

theorem goes {ok : ServerConfig → Label Answer EnvEvent → Prop} {cmd : Cmd} {w : World}
    {push : List Cmd} (a : Answer) (alive : c.crashed = none) (top : c.running = some ⟨tid, cmd :: rest, none⟩)
    (meets : ok c (.act a)) (run : exec M J c.world cmd a = some (.go w push)) :
    Run (server M J) ok c [.act a]
      { c with world := w, running := some ⟨tid, push ++ rest, none⟩ } :=
  .snoc .nil meets (.exec (o := .go w push) alive top run)

def Delivers (M : MsgpackC) (J : JsonText) (c : ServerConfig) (sessionId : Str) (tid : Tid)
    (payload : Json) (handlers : List Handler) : Prop :=
  ∃ ls below c', Run (server M J) (During sessionId) c ls c' ∧ c'.crashed = none ∧
    c'.world = c.world ∧ c'.running = some ⟨tid, .deliver payload handlers :: below, none⟩

/-- The frame reaches the listeners of the channel that it is published on. -/
theorem reaches (alive : c.crashed = none)
    (top : c.running = some ⟨tid, .handleClientMessage client event data :: rest, none⟩)
    {key : Str} {payload : Json} (published : Publishes J c.world client event data key payload) :
    Delivers M J c client.sessionId tid payload (c.world.handlersOf key) := by
  cases published with
  | @message _ k content _ reads named keyed asks =>
    have publishes : handleClientMessage c.world client sendMessage data =
        .go c.world [.publish key (messagePayload client k content)] := by
      have other : sendMessage ≠ Protocol.createNewRoom ∧ sendMessage ≠ Protocol.joinRoom := by decide
      unfold handleClientMessage
      rw [← fieldsOf]
      simp only [other, if_false, if_true, reads, named, keyed, asks]
    refine ⟨_, _, _, (goes .next alive top (.at top) (congrArg some publishes)).append _
      (goes .next alive rfl (.at rfl) rfl), alive, rfl, rfl⟩
  | @join _ options _ room reads named found asks =>
    have joins : handleClientMessage c.world client Protocol.joinRoom data =
        .go c.world [.joinRoom client key (fieldsOf data), .catchJoinRoom client key] := by
      have other : Protocol.joinRoom ≠ Protocol.createNewRoom := by decide
      unfold handleClientMessage
      rw [← fieldsOf]
      simp only [other, if_false, if_true, reads, named]
    have publishes : joinRoom J c.world client key (fieldsOf data) =
        .go c.world [.publish key (joinPayload client options)] := by
      simp only [joinRoom, found, asks]
    refine ⟨_, _, _, ((goes .next alive top (.at top) (congrArg some joins)).append _
      (goes .next alive rfl (.at rfl) (congrArg some publishes))).append _
      (goes .next alive rfl (.at rfl) rfl), alive, rfl, rfl⟩

/-- A room's listener that does not throw gives way to the next one, if the hooks let it: `on_message`
returns, or `can_client_join` refuses. -/
theorem passes {sessionId key : Str} {payload : Json} {r : RoomRef} {handlers : List Handler}
    (delivers : Delivers M J c sessionId tid payload (.gameMessage r :: handlers))
    (published : Publishes J c.world client event data key payload)
    (accepts : ¬ Refuses c.world payload r) :
    ∃ ls below c', Run (server M J) (During sessionId) c ls c' ∧
      c'.running = some ⟨tid, .deliver payload handlers :: below, none⟩ := by
  obtain ⟨ls, below, c₁, run, alive, world, top⟩ := delivers
  have called : ∀ {o : Out}, handle c.world payload [.deliver payload handlers] (.gameMessage r) = o →
      exec M J c₁.world (.deliver payload (.gameMessage r :: handlers)) .next = some o := fun h => by
    rw [world, ← h]; rfl
  cases published with
  | @message _ k content _ =>
    rw [handle, roomMessage_message] at called
    dsimp only at called
    cases member : (c.world.rooms r).member client.sessionId with
    | none =>
      rw [member] at called
      exact ⟨_, _, _, run.append _ (goes .next alive top (.at top) (called rfl)), rfl⟩
    | some sender =>
      rw [member] at called
      cases reads : messageArgs (messagePayload client k content) with
      | error x => exact absurd ⟨client, sender, x, roomMessage_message .., member, reads⟩ accepts
      | ok args =>
        rw [reads] at called
        refine ⟨_, _, _, ((run.append _ (goes .next alive top (.at top) (called rfl))).append _
          (goes .next alive rfl (.at rfl) rfl)).append _ (goes .ret alive rfl (.at rfl) rfl), rfl⟩
  | @join _ options =>
    rw [handle, roomMessage_join] at called
    have asked := (run.append _ (goes .next alive top (.at top) (called rfl))).append _
      (goes .next alive rfl (.at rfl) rfl)
    have thrown := asked.snoc (.at rfl)
      (.exec (a := .throw (.std [])) (o := .raise _ (.std []) []) alive rfl rfl)
    have passed := thrown.snoc (.at rfl)
      (.unwind (a := .next) (o := .raise _ (.std []) []) alive rfl rfl)
    have caught := passed.snoc (.at rfl) (.unwind (a := .next) (o := .go _ []) alive rfl rfl)
    exact ⟨_, _, _, caught, rfl⟩

/-- A room listens on its channel once. -/
theorem listens_once {k : Ledger} (sound : k.Sound) {key : Str} {r : RoomRef} {handlers : List Handler}
    (listed : (k.pubsub.listenersOf key).map Listener.handler = .gameMessage r :: handlers) :
    .gameMessage r ∉ handlers := by
  intro mem
  have nodup := sound.ids key
  cases h : k.pubsub.listenersOf key with
  | nil => rw [h] at listed; cases listed
  | cons l left =>
    rw [h] at listed nodup
    obtain ⟨first, rfl⟩ := List.cons.inj listed
    obtain ⟨l', mem', second⟩ := List.mem_map.1 mem
    have owned := (sound.owns (h ▸ List.mem_cons_self : l ∈ k.pubsub.listenersOf key)).1
    have owned' := (sound.owns (h ▸ List.mem_cons_of_mem _ mem' : l' ∈ k.pubsub.listenersOf key)).1
    rw [Owns, first] at owned
    rw [Owns, second] at owned'
    have same : l.id = l'.id := Option.some.inj (owned.2.2.symm.trans owned'.2.2)
    exact (List.nodup_cons.1 nodup).1 (List.mem_map.2 ⟨l', mem', same.symm⟩)

theorem Confined.aimed (kept : Kept c) (arranged : Arranged c) (alive : c.crashed = none)
    (top : c.running = some ⟨tid, .handleClientMessage client event data :: rest, none⟩)
    (confined : Confined M J c client event data) : Aimed J c.world client event data := by
  obtain ⟨rfl, -⟩ := AtFrame.start (J := J) kept arranged top
  intro key payload published
  have delivers := reaches (M := M) alive top published
  have invoked : ∀ {handler handlers}, c.world.handlersOf key = handler :: handlers →
      Invokes M J c client.sessionId handler := by
    intro handler handlers listed
    rw [listed] at delivers
    obtain ⟨ls, below, c', run, -, -, top'⟩ := delivers
    exact ⟨ls, c', payload, handlers, below, run, top'⟩
  cases listed : c.world.handlersOf key with
  | nil => trivial
  | cons handler handlers =>
    obtain ⟨r, rfl, -⟩ := confined.names handler (invoked listed)
    cases handlers with
    | nil => trivial
    | cons handler handlers =>
      by_contra accepts
      have delivers' := delivers
      rw [listed] at delivers'
      obtain ⟨ls, below, c', run, top'⟩ := passes delivers' published accepts
      have second : Invokes M J c client.sessionId handler := ⟨ls, c', payload, handlers, below, run, top'⟩
      obtain ⟨r', rfl, -⟩ := confined.names handler second
      obtain rfl := confined.one r r' (invoked listed) second
      exact listens_once kept.sound listed List.mem_cons_self

end

/-- A frame stays within the room that it names if and only if the channel it is published on has
the room's own listener as its only one, or one that throws before the others are called. -/
theorem confined_iff {M : MsgpackC} {J : JsonText} {ls : List (Label Answer EnvEvent)}
    {c : ServerConfig} (run : Run (server M J) (fun _ _ => True) ServerConfig.initial ls c) {tid : Tid}
    {client : SimpleClient} {event : Str} {data : Json} {rest : List Cmd}
    (top : c.running = some ⟨tid, .handleClientMessage client event data :: rest, none⟩) :
    Confined M J c client event data ↔ Aimed J c.world client event data := by
  have kept := Kept.run run
  have arranged := Arranged.run run
  have alive : c.crashed = none := by
    refine (run.crashed _ rfl).resolve_right fun ⟨_, _, crashed⟩ => ?_
    cases top.symm.trans crashed
  exact ⟨fun confined => confined.aimed kept arranged alive top, .of_aimed kept arranged top⟩

def namesCheck (sessionId roomId : Str) (handlers : List Handler) (c : ServerConfig) : Bool :=
  match c.running with
  | some ⟨.conn sessionId', .handleClientMessage client event data :: _, none⟩ =>
    (sessionId' == sessionId && client.sessionId == sessionId) &&
      (namedRoom event data == some roomId && c.world.handlersOf roomId == handlers)
  | _ => false

theorem namesCheck_sound {sessionId roomId : Str} {handlers : List Handler} {c : ServerConfig}
    (h : namesCheck sessionId roomId handlers c = true) : ∃ client event data rest,
      c.running = some ⟨.conn sessionId, .handleClientMessage client event data :: rest, none⟩ ∧
      client.sessionId = sessionId ∧ namedRoom event data = some roomId ∧
      c.world.handlersOf roomId = handlers := by
  rw [namesCheck] at h
  split at h
  · rename_i sessionId' client event data rest top
    simp only [Bool.and_eq_true, beq_iff_eq] at h
    obtain ⟨⟨rfl, own⟩, named, listed⟩ := h
    exact ⟨client, event, data, rest, top, own, named, listed⟩
  · cases h

/-- Alice sends a message to her room. -/
theorem confined_iff_alice : ∃ ls c client event data rest,
    Run (server shortest Text.reference) (fun _ _ => True) ServerConfig.initial ls c ∧
      c.running = some ⟨.conn (lit "s"), .handleClientMessage client event data :: rest, none⟩ ∧
      Confined shortest Text.reference c client event data := by
  have found : (execute (server shortest Text.reference) (fun _ _ => true) ServerConfig.initial
      (startsUp ++ connects alice ++ joinsRoom (lit "s") ++
        receives (lit "s") (messageFrame (lit "r")))).any
          (namesCheck (lit "s") (lit "r") [.gameMessage 0]) = true := by
    decide +kernel
  obtain ⟨c, run, names⟩ := exists_run _ found
  have run' : Run _ (fun _ _ => True) _ _ c := run.weaken _ fun _ => trivial
  obtain ⟨client, event, data, rest, running, -, named, listed⟩ := namesCheck_sound names
  refine ⟨_, c, client, event, data, rest, run', running, (confined_iff run' running).2 ?_⟩
  intro key payload published
  obtain rfl : lit "r" = key := Option.some.inj (named.symm.trans published.namedRoom)
  rw [listed]
  trivial

def duringCheck (sessionId : Str) (c : ServerConfig) : Bool :=
  match c.running with
  | some ⟨_, .endOp sessionId' :: _, _⟩ => sessionId' ≠ sessionId
  | _ => true

theorem duringCheck_sound {sessionId : Str} {c : ServerConfig} {l : Label Answer EnvEvent}
    (h : duringCheck sessionId c = true) : During sessionId c l := by
  intro tid rest x top
  rw [duringCheck, top] at h
  simp at h

def leftCheck (sessionId : Str) (c : ServerConfig) : Bool :=
  match c.running with
  | some ⟨.conn sessionId', .deliver _ (.playerLeft _ :: _) :: _, none⟩ => sessionId' == sessionId
  | _ => false

theorem leftCheck_sound {sessionId : Str} {c : ServerConfig} (h : leftCheck sessionId c = true) :
    ∃ payload r handlers rest, c.running =
      some ⟨.conn sessionId, .deliver payload (.playerLeft r :: handlers) :: rest, none⟩ := by
  rw [leftCheck] at h
  split at h
  · rename_i sessionId' payload r handlers rest top
    obtain rfl := beq_iff_eq.1 h
    exact ⟨payload, r, handlers, rest, top⟩
  · cases h

/-- A message to the channel on which the server announces that a client has left. -/
theorem confined_announcement : ¬ ∀ (M : MsgpackC) (J : JsonText) (ls : List (Label Answer EnvEvent))
    (c : ServerConfig) (tid : Tid) (client : SimpleClient) (event : Str) (data : Json)
    (rest : List Cmd), Run (server M J) (fun _ _ => True) ServerConfig.initial ls c →
      c.running = some ⟨tid, .handleClientMessage client event data :: rest, none⟩ →
      Confined M J c client event data := by
  intro confined
  have found : (execute (server shortest Text.reference) (fun _ _ => true) ServerConfig.initial
      (startsUp ++ connects alice ++ receives (lit "s") (messageFrame PLAYER_LEFT))).any (fun c =>
        namesCheck (lit "s") PLAYER_LEFT [.playerLeft 0] c &&
          (execute (server shortest Text.reference) (fun c _ => duringCheck (lit "s") c) c
            ((steps 2).map .act)).any (leftCheck (lit "s"))) = true := by
    decide +kernel
  obtain ⟨c, run, both⟩ := exists_run _ found
  have run' : Run _ (fun _ _ => True) _ _ c := run.weaken _ fun _ => trivial
  obtain ⟨names, left⟩ := Bool.and_eq_true_iff.1 both
  obtain ⟨client, event, data, rest, running, own, -⟩ := namesCheck_sound names
  obtain ⟨c', run₂, left⟩ := exists_run _ left
  obtain ⟨payload, r, handlers, rest', running'⟩ := leftCheck_sound left
  have names := (confined _ _ _ c _ client event data rest run' running).names (.playerLeft r)
  rw [own] at names
  obtain ⟨r', gameMessage, -⟩ := names
    ⟨_, c', payload, handlers, rest', run₂.weaken _ duringCheck_sound, running'⟩
  cases gameMessage

end Blueboat
