import Blueboat.StackOrder

set_option autoImplicit false

/-! Where the events of a room come from: every command on the stack of a thread goes back to the
event that started the thread. -/
namespace Blueboat

open Protocol LockMachine Ledger

def EnvEvent.tid : EnvEvent → Option Tid
  | .tick _ => none
  | .connect client => some (.conn client.sessionId)
  | .receive sessionId _ _ => some (.conn sessionId)
  | .hangup sessionId => some (.conn sessionId)
  | .registerRoom .. => some .app
  | .createRoom .. => some .app
  | .externalMessage .. => some .admin
  | .requestInfo _ => some .admin
  | .shutdown => some .main
  | .fire _ => some .worker

def tidOf : Label Answer EnvEvent → Option Tid
  | .env e => e.tid
  | _ => none

def Current (ls : List (Label Answer EnvEvent)) (tid : Tid) (e : EnvEvent) : Prop :=
  ∃ before after, ls = before ++ .env e :: after ∧ e.tid = some tid ∧
    ∀ sessionId, tid = .conn sessionId → ∀ l ∈ after, tidOf l ≠ some tid

theorem Current.last {ls : List (Label Answer EnvEvent)} {tid : Tid} {e : EnvEvent}
    (starts : e.tid = some tid) : Current (ls ++ [.env e]) tid e :=
  ⟨ls, [], rfl, starts, fun _ _ => nofun⟩

theorem Current.more {ls : List (Label Answer EnvEvent)} {tid : Tid} {e : EnvEvent}
    (h : Current ls tid e) {l : Label Answer EnvEvent}
    (other : ∀ sessionId, tid = .conn sessionId → tidOf l ≠ some tid) :
    Current (ls ++ [l]) tid e := by
  obtain ⟨before, after, rfl, starts, alone⟩ := h
  refine ⟨before, after ++ [l], by simp, starts, fun s here l' mem => ?_⟩
  rcases List.mem_append.1 mem with mem | mem
  · exact alone s here l' mem
  · rw [List.mem_singleton.1 mem]
    exact other s here

def Stores.Session (k : Stores) (client : SimpleClient) : Prop :=
  ∃ phase, k.sessions.lookup client.sessionId = some (client, phase)

section
variable (M : MsgpackC) (J : JsonText)

def Handles (e : EnvEvent) (client : SimpleClient) (action : Str) : Prop :=
  ∃ isBinary payload frame, e = .receive client.sessionId isBinary payload ∧
    Sio.parseFrame M J isBinary payload = .ok frame ∧ frame.kind = .Event ∧ frame.event = action

/-- What a thread that the event started may publish. -/
inductive Sent (k : Stores) (e : EnvEvent) : Json → Prop where
  | join {client : SimpleClient} {options : Json} (asks : Handles M J e client Protocol.joinRoom)
      (own : k.Session client) : Sent k e (joinPayload client options)
  | message {client : SimpleClient} {key content : Json} (asks : Handles M J e client sendMessage)
      (own : k.Session client) : Sent k e (messagePayload client key content)
  | left {sessionId : Str} : Sent k e (.str sessionId)
  | external {room key : Str} {data : Json} (asks : e = .externalMessage room key data) :
    Sent k e (externalPayload key data)
  | request {roomId : Str} (asks : e = .requestInfo roomId) : Sent k e infoPayload
  | info {roomId : Str} {room : Room} (asks : e = .requestInfo roomId) : Sent k e room.info

def Hook.Serves (k : Stores) (e : EnvEvent) : Hook → Prop
  | .canClientJoin client _ => Handles M J e client Protocol.joinRoom ∧ k.Session client
  | .onMessage sender _ _ => ∃ client, Handles M J e client sendMessage ∧ k.Session client ∧
      sender.sessionId = client.sessionId
  | .onExternalMessage key data => ∃ room, e = .externalMessage room key data
  | _ => True

def Cmd.Serves (k : Stores) (e : EnvEvent) : Cmd → Prop
  | .dispatch client isBinary payload =>
    e = .receive client.sessionId isBinary payload ∧ k.Session client
  | .handleClientMessage client event _ => Handles M J e client event ∧ k.Session client
  | .joinRoom client _ _ => Handles M J e client Protocol.joinRoom ∧ k.Session client
  | .publish _ payload => Sent M J k e payload
  | .deliver payload _ => Sent M J k e payload
  | .subscribeInfo roomId => e = .requestInfo roomId
  | .callHook _ hook => hook.Serves M J k e
  | .inHook _ hook => hook.Serves M J k e
  | .addClient _ client _ => Handles M J e client Protocol.joinRoom ∧ k.Session client
  | _ => True

variable {M J} {w : World} {cmd : Cmd} {a : Answer} {o : Out} {e : EnvEvent}

theorem roomMessage_external (key : Str) (data : Json) :
    roomMessage (externalPayload key data) = .ok (.external key data) := rfl

theorem roomMessage_roomInfo (room : Room) : roomMessage room.info = .ok .ignored := rfl

theorem leaveOf_serves {k : Stores} {r : RoomRef} {client : SimpleClient} {intentional : Bool}
    {left : List ℕ} : ∀ c ∈ leaveOf r client intentional left, c.Serves M J k e := by
  simp [leaveOf, Cmd.Serves, Hook.Serves]

theorem serves_dispatch {client : SimpleClient} {isBinary : Bool} {payload : Str}
    (h : exec M J w (.dispatch client isBinary payload) a = some o)
    (serves : Cmd.Serves M J w.toStores e (.dispatch client isBinary payload)) :
    ∀ c ∈ o.push, c.Serves M J w.toStores e := by
  obtain ⟨rfl, own⟩ := serves
  obtain rfl := Option.some.inj h
  unfold dispatch
  cases parsed : Sio.parseFrame M J isBinary payload with
  | error x => exact nofun
  | ok frame =>
    dsimp only
    cases kind : frame.kind with
    | Ping => cases w.connections.lookup client.sessionId <;> exact nofun
    | Event =>
      exact List.forall_mem_singleton.2 ⟨⟨isBinary, payload, frame, rfl, parsed, kind, rfl⟩, own⟩
    | Disconnect => exact List.forall_mem_singleton.2 trivial
    | _ => exact nofun

theorem serves_handleClientMessage {client : SimpleClient} {event : Str} {data : Json}
    (h : exec M J w (.handleClientMessage client event data) a = some o)
    (serves : Cmd.Serves M J w.toStores e (.handleClientMessage client event data)) :
    ∀ c ∈ o.push, c.Serves M J w.toStores e := by
  obtain ⟨asks, own⟩ := serves
  obtain rfl := Option.some.inj h
  unfold handleClientMessage
  generalize (if data.isObject = true then data else Json.obj []) = fields
  dsimp only
  split
  · split
    · exact nofun
    · exact nofun
    · split
      · exact nofun
      · split <;> simp [Cmd.Serves]
  · split
    · rename_i joins
      rw [joins] at asks
      split
      · exact nofun
      · split
        · exact nofun
        · exact List.forall_mem_cons.2 ⟨⟨asks, own⟩, List.forall_mem_singleton.2 trivial⟩
    · split
      · rename_i sends
        rw [sends] at asks
        split
        · exact nofun
        · split
          · exact nofun
          · split
            · exact nofun
            · split
              · exact nofun
              · exact List.forall_mem_singleton.2 (.message asks own)
      · exact nofun

theorem serves_deliver {payload : Json} {handlers : List Handler}
    (h : exec M J w (.deliver payload handlers) a = some o) (sent : Sent M J w.toStores e payload) :
    ∀ c ∈ o.push, c.Serves M J w.toStores e := by
  cases handlers with
  | nil => obtain rfl := Option.some.inj h; exact List.forall_mem_nil _
  | cons handler handlers =>
    obtain rfl := Option.some.inj h
    have below : Cmd.Serves M J w.toStores e (.deliver payload handlers) := sent
    cases handler with
    | infoRequest n => exact List.forall_mem_singleton.2 below
    | playerLeft r =>
      unfold handle
      dsimp only
      split
      · exact List.forall_mem_nil _
      · rename_i sessionId _
        intro c hc
        rcases List.mem_append.1 hc with hc | hc
        · rcases (removeClient_cases w r sessionId false).2 with ⟨-, none⟩ | ⟨client, left, -, leaves⟩
          · rw [none] at hc; cases hc
          · rw [leaves] at hc; exact leaveOf_serves c hc
        · rw [List.mem_singleton.1 hc]; exact below
    | gameMessage r =>
      cases sent with
      | join asks own =>
        rw [handle, roomMessage_join]
        simpa [Cmd.Serves, Hook.Serves] using ⟨⟨asks, own⟩, below⟩
      | @message client key content asks own =>
        rw [handle, roomMessage_message]
        dsimp only
        cases found : (w.rooms r).member client.sessionId with
        | none => exact List.forall_mem_singleton.2 below
        | some sender =>
          cases messageArgs (messagePayload client key content) with
          | error x => exact List.forall_mem_nil _
          | ok args =>
            have own' : sender.sessionId = client.sessionId := by simpa using List.find?_some found
            exact List.forall_mem_cons.2 ⟨⟨client, asks, own, own'⟩, List.forall_mem_singleton.2 below⟩
      | left =>
        rw [handle, roomMessage_str]
        exact List.forall_mem_singleton.2 below
      | @external room _ _ asks =>
        rw [handle, roomMessage_external]
        exact List.forall_mem_cons.2 ⟨⟨room, asks⟩, List.forall_mem_singleton.2 below⟩
      | request asks =>
        rw [handle, roomMessage_info]
        exact List.forall_mem_cons.2 ⟨.info asks, List.forall_mem_singleton.2 below⟩
      | info =>
        rw [handle, roomMessage_roomInfo]
        exact List.forall_mem_singleton.2 below

def Cmd.reads : Cmd → Bool
  | .dispatch .. => true
  | .handleClientMessage .. => true
  | .deliver .. => true
  | _ => false

theorem Child.serves {c : Cmd} (h : Child w cmd c) (reads : cmd.reads = false)
    (serves : cmd.Serves M J w.toStores e) : c.Serves M J w.toStores e := by
  cases h with
  | publishJoin => exact .join serves.1 serves.2
  | left => exact .left
  | deliver | enter | stay => exact serves
  | joinListener | leaveListener => trivial
  | message | send | join | next | info | message' | addMember => cases reads
  | _ => trivial

theorem Pushed.serves {c : Cmd} (h : Pushed w cmd a c) (reads : cmd.reads = false)
    (serves : cmd.Serves M J w.toStores e) : c.Serves M J w.toStores e := by
  cases h with
  | child child => exact child.serves reads serves
  | leave _ mem => exact leaveOf_serves c mem
  | askInfo => exact .request serves
  | _ => trivial

theorem exec_serves (h : exec M J w cmd a = some o) (serves : cmd.Serves M J w.toStores e) :
    ∀ c ∈ o.push, c.Serves M J w.toStores e := by
  have pushed := fun c mem => ((exec_effect M J h).pushed (c := c) mem).serves (M := M) (J := J) (e := e)
  cases cmd with
  | dispatch => exact serves_dispatch h serves
  | handleClientMessage => exact serves_handleClientMessage h serves
  | deliver => exact serves_deliver h serves
  | _ => exact fun c mem => pushed c mem rfl serves

theorem Unwound.serves {x : Exn} (h : Unwound w cmd x a o) (serves : cmd.Serves M J w.toStores e) :
    ∀ c ∈ o.push, c.Serves M J w.toStores e := by
  intro c mem
  cases h.resumed mem with
  | again => exact serves
  | disposal | rethrow => trivial

/-! The client of a session stays the same. -/

def Stores.SameSessions (k k' : Stores) : Prop := ∀ client, k.Session client → k'.Session client

theorem sameSessions_of_eq {k k' : Stores} (h : k'.sessions = k.sessions) : k.SameSessions k' :=
  fun client own => by rwa [Stores.Session, h]

theorem sameSessions_insert {k : Stores} {sessionId : Str} {client : SimpleClient} {phase' : Phase}
    (found : (∃ phase, k.sessions.lookup sessionId = some (client, phase)) ∨
      k.sessions.lookup sessionId = none) : k.SameSessions
        { k with sessions := k.sessions.insert sessionId (client, phase') } := by
  rintro client' ⟨phase'', own⟩
  by_cases e : client'.sessionId = sessionId
  · rw [e] at own
    rcases found with ⟨phase, found⟩ | none
    · cases found.symm.trans own
      exact ⟨phase', by rw [e]; exact AList.lookup_insert _⟩
    · cases none.symm.trans own
  · exact ⟨phase'', (AList.lookup_insert_ne e).trans own⟩

theorem Effect.sameSessions (h : Effect J w cmd a o) : w.SameSessions o.world.toStores := by
  rcases h.counters.2 with same | ⟨sessionId, -, ledger⟩
  · exact sameSessions_of_eq same
  · have stores : o.world.toStores = (w.ledger.endOp sessionId).toStores :=
      congrArg Ledger.toStores ledger
    rw [stores]
    unfold Ledger.endOp
    split
    · rename_i found; exact sameSessions_insert (.inl ⟨_, found⟩)
    · rename_i found; exact sameSessions_insert (.inl ⟨_, found⟩)
    · exact sameSessions_of_eq rfl

theorem Arrival.sameSessions {w' : World} {new : List (Tid × List Cmd)} (h : Arrival w e w' new) :
    w.SameSessions w'.toStores := by
  cases h with
  | connect fresh => exact sameSessions_insert (.inr fresh)
  | receive idle => exact sameSessions_insert (.inl ⟨_, idle⟩)
  | hangup idle => exact sameSessions_insert (.inl ⟨_, idle⟩)
  | _ => exact sameSessions_of_eq rfl

theorem Sent.mono {k k' : Stores} (same : k.SameSessions k') {payload : Json}
    (sent : Sent M J k e payload) : Sent M J k' e payload := by
  cases sent with
  | join asks own => exact .join asks (same _ own)
  | message asks own => exact .message asks (same _ own)
  | left => exact .left
  | external asks => exact .external asks
  | request asks => exact .request asks
  | info asks => exact .info asks

theorem Hook.Serves.mono {k k' : Stores} (same : k.SameSessions k') {hook : Hook}
    (serves : hook.Serves M J k e) : hook.Serves M J k' e := by
  cases hook with
  | canClientJoin => exact ⟨serves.1, same _ serves.2⟩
  | onMessage =>
    obtain ⟨client, asks, own, named⟩ := serves
    exact ⟨client, asks, same _ own, named⟩
  | _ => exact serves

theorem Cmd.Serves.mono {k k' : Stores} (same : k.SameSessions k') (serves : cmd.Serves M J k e) :
    cmd.Serves M J k' e := by
  cases cmd with
  | dispatch | handleClientMessage | joinRoom | addClient => exact ⟨serves.1, same _ serves.2⟩
  | publish | deliver => exact Sent.mono same serves
  | callHook | inHook => exact Hook.Serves.mono same serves
  | _ => exact serves

theorem Arrival.serves {w' : World} {new : List (Tid × List Cmd)} (h : Arrival w e w' new)
    (named : w.Named) : ∀ p ∈ new, e.tid = some p.1 ∧ ∀ c ∈ p.2, c.Serves M J w'.toStores e := by
  cases h with
  | tick | dropped => exact nofun
  | @receive s payload isBinary client idle =>
    have own := named _ _ _ idle
    subst own
    refine List.forall_mem_singleton.2 ⟨rfl, List.forall_mem_cons.2 ⟨trivial, List.forall_mem_cons.2
      ⟨⟨rfl, .busy, AList.lookup_insert _⟩, List.forall_mem_singleton.2 trivial⟩⟩⟩
  | externalMessage =>
    exact List.forall_mem_singleton.2 ⟨rfl, List.forall_mem_cons.2 ⟨.external rfl,
      List.forall_mem_singleton.2 trivial⟩⟩
  | requestInfo => exact List.forall_mem_singleton.2 ⟨rfl, List.forall_mem_singleton.2 rfl⟩
  | _ => exact List.forall_mem_singleton.2 ⟨rfl, by simp [Cmd.Serves]⟩

end

section
variable (M : MsgpackC) (J : JsonText)

def Origin (ls : List (Label Answer EnvEvent)) (w : World) (t : Thread Tid Cmd Exn) : Prop :=
  t.stack = [] ∨ ∃ e, Current ls t.tid e ∧ ∀ cmd ∈ t.stack, cmd.Serves M J w.toStores e

/-- The last thing that happened on any thread is that `can_client_join` returned for the client. -/
def Admitted (ls : List (Label Answer EnvEvent)) (tid : Tid) (r : RoomRef) (client : SimpleClient)
    (options : Json) (rest : List Cmd) : Prop :=
  ∃ before after c, ls = before ++ .act .ret :: after ∧
    Run (server M J) (fun _ _ => True) ServerConfig.initial before c ∧
    c.running = some ⟨tid, .inHook r (.canClientJoin client options) ::
      .addClient r client options :: rest, none⟩ ∧ ∀ l ∈ after, ∃ e, l = .env e

/-- What holds after the labels `ls` of a run. -/
structure Traced (ls : List (Label Answer EnvEvent)) (c : ServerConfig) : Prop where
  kept : Kept c
  arranged : Arranged c
  origin : ∀ t ∈ c.threads, Origin M J ls c.world t
  member : ∀ {tid r sender key data rest},
    c.running = some ⟨tid, .callHook r (.onMessage sender key data) :: rest, none⟩ →
      sender ∈ (c.world.rooms r).clients
  admitted : ∀ {tid r client options rest},
    c.running = some ⟨tid, .addClient r client options :: rest, none⟩ →
      Admitted M J ls tid r client options rest

variable {M J} {ls : List (Label Answer EnvEvent)} {w w' : World} {t : Thread Tid Cmd Exn}
  {l : Label Answer EnvEvent}

theorem Origin.more (h : Origin M J ls w t) (same : w.SameSessions w'.toStores)
    (other : t.stack ≠ [] → ∀ s, t.tid = .conn s → tidOf l ≠ some t.tid) :
    Origin M J (ls ++ [l]) w' t := by
  rcases h with none | ⟨e, current, serves⟩
  · exact .inl none
  · by_cases none : t.stack = []
    · exact .inl none
    · exact .inr ⟨e, current.more (other none), fun cmd mem => (serves cmd mem).mono same⟩

theorem Origin.next {tid : Tid} {cmd : Cmd} {rest push : List Cmd} {x x' : Option Exn}
    (h : Origin M J ls w ⟨tid, cmd :: rest, x⟩) (same : w.SameSessions w'.toStores)
    (quiet : tidOf l = none)
    (serves : ∀ {e}, cmd.Serves M J w.toStores e → ∀ c ∈ push, c.Serves M J w.toStores e) :
    Origin M J (ls ++ [l]) w' ⟨tid, push ++ rest, x'⟩ := by
  obtain ⟨e, current, served⟩ := h.resolve_left (List.cons_ne_nil _ _)
  refine .inr ⟨e, current.more fun s _ => by rw [quiet]; nofun, fun c mem => .mono same ?_⟩
  rcases List.mem_append.1 mem with mem | mem
  · exact serves (served cmd List.mem_cons_self) c mem
  · exact served c (List.mem_cons_of_mem _ mem)

theorem Arrival.free {e : EnvEvent} {new : List (Tid × List Cmd)} (h : Arrival w e w' new)
    {s : Str} (starts : e.tid = some (.conn s)) : ¬ w.Engaged s := by
  cases h with
  | connect fresh => cases starts; exact not_engaged (.inl fresh)
  | receive idle => cases starts; exact not_engaged (.inr ⟨_, idle⟩)
  | hangup idle => cases starts; exact not_engaged (.inr ⟨_, idle⟩)
  | _ => cases starts

theorem Unwound.sameSessions {cmd : Cmd} {x : Exn} {a : Answer} {o : Out} (h : Unwound w cmd x a o) :
    w.SameSessions o.world.toStores := sameSessions_of_eq (by rw [h.stores])

theorem Traced.origins {c c' : ServerConfig} (traced : Traced M J ls c)
    (h : Step (server M J) c l c') : ∀ t ∈ c'.threads, Origin M J (ls ++ [l]) c'.world t := by
  have rest : ∀ {w' : World} {t : Thread Tid Cmd Exn}, t ∈ c.threads → tidOf l = none →
      c.world.SameSessions w'.toStores → Origin M J (ls ++ [l]) w' t := fun mem quiet same =>
    (traced.origin _ mem).more same fun _ _ _ => by rw [quiet]; nofun
  have settled : ∀ {tid : Tid} {cmd : Cmd} {below : List Cmd} {x : Option Exn} {o : Out},
      c.running = some ⟨tid, cmd :: below, x⟩ → tidOf l = none →
      c.world.SameSessions o.world.toStores →
      (∀ {e}, cmd.Serves M J c.world.toStores e → ∀ c' ∈ o.push, c'.Serves M J c.world.toStores e) →
      ∀ t ∈ (settle c tid below o).threads,
        Origin M J (ls ++ [l]) (settle c tid below o).world t := by
    intro tid cmd below x o top quiet same serves t mem
    rw [world_settle]
    rcases List.mem_cons.1 ((threads_settle c tid below o).mem_iff.1 mem) with rfl | mem
    · have running : ⟨tid, cmd :: below, x⟩ ∈ c.threads :=
        List.mem_append_left _ (Option.mem_toList.2 top)
      exact (traced.origin _ running).next same quiet serves
    · exact rest (List.mem_append_right _ mem) quiet same
  have still : c.world.SameSessions c.world.toStores := sameSessions_of_eq rfl
  cases h with
  | finish _ top => exact fun t mem => rest (List.mem_append_right _ mem) rfl still
  | crash _ top => exact fun t mem => rest mem rfl still
  | exec _ top run =>
    exact settled top rfl (exec_effect M J run).sameSessions (exec_serves run)
  | unwind _ top run =>
    have effect := unwind_effect run
    exact settled top rfl effect.sameSessions effect.serves
  | take _ free at_i => exact fun t mem => rest ((threads_take free at_i).mem_iff.1 mem) rfl still
  | @env e w' new _ run =>
    have arrival := spawn_arrival run
    intro t mem
    have split : t ∈ c.threads ∨ t ∈ new.map Thread.start := by
      rcases List.mem_append.1 mem with mem | mem
      · exact .inl (List.mem_append_left _ mem)
      · exact (List.mem_append.1 mem).imp_left (List.mem_append_right _)
    rcases split with old | started
    · refine (traced.origin t old).more arrival.sameSessions fun left s here starts => ?_
      exact arrival.free (here ▸ starts) (traced.arranged.engaged traced.kept old here left)
    · obtain ⟨p, hp, rfl⟩ := List.mem_map.1 started
      obtain ⟨starts, serves⟩ := arrival.serves traced.arranged.1 p hp
      exact .inr ⟨e, .last starts, serves⟩

theorem deliver_urgent {payload : Json} {handlers : List Handler} {a : Answer} {o : Out}
    {r : RoomRef} {sender : SimpleClient} {key : Str} {data : Json} {push : List Cmd}
    (h : exec M J w (.deliver payload (.gameMessage r :: handlers)) a = some o)
    (top : o.push = .callHook r (.onMessage sender key data) :: push) :
    sender ∈ (o.world.rooms r).clients := by
  obtain rfl := Option.some.inj h
  revert top
  unfold handle
  dsimp only
  cases roomMessage payload with
  | error x => rintro ⟨⟩
  | ok message =>
    cases message with
    | message client =>
      dsimp only
      cases found : (w.rooms r).member client.sessionId with
      | none => rintro ⟨⟩
      | some sender' =>
        cases messageArgs payload with
        | error x => rintro ⟨⟩
        | ok args =>
          rintro ⟨⟩
          rw [Outcome.world, touch_rooms]
          exact List.mem_of_find?_eq_some found
    | _ => rintro ⟨⟩

/-- A room's `on_message` is called for one of its members. -/
theorem exec_urgent {cmd : Cmd} {a : Answer} {o : Out} {r : RoomRef} {sender : SimpleClient}
    {key : Str} {data : Json} {push : List Cmd} (h : exec M J w cmd a = some o)
    (top : o.push = .callHook r (.onMessage sender key data) :: push) :
    sender ∈ (o.world.rooms r).clients := by
  cases exec_effect M J h with
  | still _ children =>
    cases children _ (by rw [top]; exact List.mem_cons_self) with
    | message' => exact deliver_urgent h top
  | removed calls _ leaves =>
    rcases leaves with ⟨-, rfl⟩ | ⟨client, listeners, -, rfl⟩
    · cases calls <;> cases top
    · cases top
  | disposed calls _ starts =>
    subst starts
    split at top
    · cases calls <;> cases top
    · cases top
  | autoDisposed _ _ starts =>
    subst starts
    split at top <;> cases top
  | _ => cases top

theorem Traced.members {c c' : ServerConfig} (traced : Traced M J ls c)
    (h : Step (server M J) c l c') {tid : Tid} {r : RoomRef} {sender : SimpleClient} {key : Str}
    {data : Json} {rest : List Cmd}
    (top : c'.running = some ⟨tid, .callHook r (.onMessage sender key data) :: rest, none⟩) :
    sender ∈ (c'.world.rooms r).clients := by
  have covered : ∀ {cmd' : Cmd} {push rest' : List Cmd} {x : Option Exn} {tid' : Tid},
      c.running = some ⟨tid', cmd' :: rest', x⟩ →
      push ++ rest' = .callHook r (.onMessage sender key data) :: rest →
      ∃ push', push = .callHook r (.onMessage sender key data) :: push' := by
    intro cmd' push rest' x tid' before same
    cases push with
    | cons c push => exact ⟨push, by rw [(List.cons.inj same).1]⟩
    | nil =>
      obtain rfl : rest' = _ := same
      cases ((traced.arranged.proper before).order.rel_head? rfl).urgent
  cases h with
  | finish => cases top
  | crash _ before => cases before.symm.trans top
  | @exec tid' cmd' rest' a o _ before run =>
    cases o with
    | raise => exact absurd (congrArg Thread.exn (Option.some.inj top)) nofun
    | park => cases top
    | go w push =>
      obtain ⟨push', rfl⟩ := covered before (congrArg Thread.stack (Option.some.inj top))
      exact exec_urgent (o := .go w _) run rfl
  | @unwind tid' cmd' rest' x a o _ before run =>
    cases unwind_effect run with
    | passed => cases top
    | caught => obtain ⟨push', e⟩ := covered before (congrArg Thread.stack (Option.some.inj top)); cases e
    | handled => cases top
    | rolledBack _ starts =>
      obtain ⟨push', e⟩ := covered before (congrArg Thread.stack (Option.some.inj top))
      subst starts
      split at e <;> cases e
  | take _ _ at_i =>
    cases top
    cases ((traced.arranged.2.2 _ (List.mem_of_getElem? at_i)).2 _ rfl).2
  | @env e w' new _ run =>
    have member := traced.member top
    cases spawn_arrival run <;> exact member

theorem Traced.admissions {c c' : ServerConfig} (traced : Traced M J ls c)
    (run : Run (server M J) (fun _ _ => True) ServerConfig.initial ls c)
    (h : Step (server M J) c l c') {tid : Tid} {r : RoomRef} {client : SimpleClient}
    {options : Json} {rest : List Cmd}
    (top : c'.running = some ⟨tid, .addClient r client options :: rest, none⟩) :
    Admitted M J (ls ++ [l]) tid r client options rest := by
  rcases traced.arranged.returned h top rfl with ⟨same, e, rfl⟩ | ⟨rfl, -, r', hook, awaits, before⟩
  · obtain ⟨before, after, c₁, rfl, run₁, inside, events⟩ := traced.admitted (same.trans top)
    refine ⟨before, after ++ [.env e], c₁, by simp, run₁, inside, fun l mem => ?_⟩
    rcases List.mem_append.1 mem with mem | mem
    · exact events l mem
    · exact ⟨e, List.mem_singleton.1 mem⟩
  · cases awaits
    exact ⟨ls, [], c, rfl, run, before, nofun⟩

theorem Traced.run {c : ServerConfig}
    (run : Run (server M J) (fun _ _ => True) ServerConfig.initial ls c) : Traced M J ls c := by
  refine run.history _ ⟨.initial, .initial, nofun, nofun, nofun⟩ fun before traced _ h => ?_
  exact ⟨traced.kept.step h, traced.arranged.step h, traced.origins h, traced.members h,
    traced.admissions before h⟩

end

/-- `on_message` is called while the thread of a session handles a `sendMessage` frame, for the
member of that session; a client is added in its own thread for a `joinRoom` frame, and because
`can_client_join` returned; `on_external_message` is called for a request of an administrator. -/
structure Provenance (M : MsgpackC) (J : JsonText) (ls : List (Label Answer EnvEvent))
    (c : ServerConfig) : Prop where
  message : ∀ {tid r sender key data rest},
    c.running = some ⟨tid, .callHook r (.onMessage sender key data) :: rest, none⟩ →
      sender ∈ (c.world.rooms r).clients ∧ tid = .conn sender.sessionId ∧
      ∃ e client, Current ls tid e ∧ Handles M J e client sendMessage ∧ c.world.Session client ∧
        client.sessionId = sender.sessionId
  join : ∀ {tid r client options rest},
    c.running = some ⟨tid, .addClient r client options :: rest, none⟩ →
      tid = .conn client.sessionId ∧ c.world.Session client ∧
      (∃ e, Current ls tid e ∧ Handles M J e client Protocol.joinRoom) ∧
      Admitted M J ls tid r client options rest
  external : ∀ {tid r key data rest},
    c.running = some ⟨tid, .callHook r (.onExternalMessage key data) :: rest, none⟩ →
      tid = .admin ∧ ∃ room, Current ls tid (.externalMessage room key data)
  /-- What a listener reads on a session's thread names the session's own client and action. -/
  listener : ∀ {sessionId payload handlers rest},
    c.running = some ⟨.conn sessionId, .deliver payload handlers :: rest, none⟩ →
      (∃ left, payload = .str left) ∨ ∃ e client, Current ls (.conn sessionId) e ∧
        c.world.Session client ∧ client.sessionId = sessionId ∧
        ((Handles M J e client Protocol.joinRoom ∧ ∃ options, payload = joinPayload client options) ∨
          (Handles M J e client sendMessage ∧ ∃ key content, payload = messagePayload client key content))

theorem Handles.tid {M : MsgpackC} {J : JsonText} {e : EnvEvent} {client : SimpleClient}
    {action : Str} (h : Handles M J e client action) : e.tid = some (.conn client.sessionId) := by
  obtain ⟨isBinary, payload, frame, rfl, -⟩ := h
  rfl

theorem Current.tid {ls : List (Label Answer EnvEvent)} {tid : Tid} {e : EnvEvent}
    (h : Current ls tid e) : e.tid = some tid := by
  obtain ⟨before, after, -, starts, -⟩ := h
  exact starts

/-- Every event that a room sees comes from where it says. -/
theorem provenance (M : MsgpackC) (J : JsonText) {ls : List (Label Answer EnvEvent)}
    {c : ServerConfig} (run : Run (server M J) (fun _ _ => True) ServerConfig.initial ls c) :
    Provenance M J ls c := by
  have traced : Traced M J ls c := .run run
  have served : ∀ {tid : Tid} {cmd : Cmd} {rest : List Cmd},
      c.running = some ⟨tid, cmd :: rest, none⟩ →
      ∃ e, Current ls tid e ∧ cmd.Serves M J c.world.toStores e := by
    intro tid cmd rest top
    have running := traced.origin _ (List.mem_append_left _ (Option.mem_toList.2 top))
    obtain ⟨e, current, serves⟩ := running.resolve_left (List.cons_ne_nil _ _)
    exact ⟨e, current, serves cmd List.mem_cons_self⟩
  have own : ∀ {tid tid' : Tid} {e : EnvEvent}, Current ls tid e → e.tid = some tid' → tid = tid' :=
    fun current starts => Option.some.inj (current.tid.symm.trans starts)
  refine ⟨fun top => ?_, fun top => ?_, fun top => ?_, fun top => ?_⟩
  · obtain ⟨e, current, client, asks, session, named⟩ := served top
    refine ⟨traced.member top, ?_, e, client, current, asks, session, named.symm⟩
    rw [named]
    exact own current asks.tid
  · obtain ⟨e, current, asks, session⟩ := served top
    exact ⟨own current asks.tid, session, ⟨e, current, asks⟩, traced.admitted top⟩
  · obtain ⟨e, current, room, rfl⟩ := served top
    exact ⟨own current rfl, room, current⟩
  · obtain ⟨e, current, sent⟩ := served top
    have here := current.tid
    cases sent with
    | @join client options asks session =>
      refine .inr ⟨e, client, current, session, ?_, .inl ⟨asks, options, rfl⟩⟩
      cases here.symm.trans asks.tid
      rfl
    | @message client key content asks session =>
      refine .inr ⟨e, client, current, session, ?_, .inr ⟨asks, key, content, rfl⟩⟩
      cases here.symm.trans asks.tid
      rfl
    | left => exact .inl ⟨_, rfl⟩
    | external asks => rw [asks] at here; cases here
    | request asks => rw [asks] at here; cases here
    | info asks => rw [asks] at here; cases here

/-! One client joins a room and sends it a message. -/

def alice : SimpleClient := ⟨lit "a", lit "s", [], []⟩

/-- The first waiting thread takes the lock and goes on with these answers. -/
def turn (answers : List Answer) : List (Label Answer EnvEvent) := .take 0 :: answers.map .act

def steps (n : ℕ) : List Answer := List.replicate n .next

/-- The application opens a room with this id; `on_create` answers. -/
def opensRoom (roomId : Str) (onCreate : List Answer) : List (Label Answer EnvEvent) :=
  .env (.createRoom (lit "t") roomId .null) ::
    turn ([.create (.ok []) (.ok []) (.ok []) none, .next] ++ onCreate)

def startsUp : List (Label Answer EnvEvent) :=
  .env (.registerRoom (lit "t") .null) :: turn (steps 2) ++ opensRoom (lit "r") (.ret :: steps 3)

def connects (client : SimpleClient) : List (Label Answer EnvEvent) :=
  .env (.connect client) :: turn (steps 3)

/-- A frame of the session and what its thread does until `handle_client_message`. -/
def receives (sessionId : Str) (frame : Str) : List (Label Answer EnvEvent) :=
  .env (.receive sessionId true frame) :: turn (steps 1) ++ turn (steps 1)

def joinFrame (roomId : Str) : Str :=
  Sio.buildEventFrame shortest Protocol.joinRoom (Json.ofFields [(lit "roomId", .str roomId)])

def messageFrame (room : Str) : Str :=
  Sio.buildEventFrame shortest sendMessage
    (Json.ofFields [(lit "room", .str room), (lit "key", .str (lit "k"))])

def joinsRoom (sessionId : Str) : List (Label Answer EnvEvent) :=
  receives sessionId (joinFrame (lit "r")) ++
    (steps 5 ++ .ret :: steps 3 ++ .ret :: steps 5).map .act

def aliceSends : List (Label Answer EnvEvent) :=
  startsUp ++ connects alice ++ joinsRoom (lit "s") ++
    receives (lit "s") (messageFrame (lit "r")) ++ (steps 3).map .act

def hearsCheck (sessionId : Str) (r : RoomRef) (c : ServerConfig) : Bool :=
  match c.running with
  | some ⟨.conn sessionId', .callHook r' (.onMessage ..) :: _, none⟩ => sessionId' == sessionId && r' == r
  | _ => false

theorem hearsCheck_sound {sessionId : Str} {r : RoomRef} {c : ServerConfig}
    (h : hearsCheck sessionId r c = true) : ∃ sender key data rest, c.running =
      some ⟨.conn sessionId, .callHook r (.onMessage sender key data) :: rest, none⟩ := by
  rw [hearsCheck] at h
  split at h
  · rename_i sessionId' r' sender key data rest top
    obtain ⟨rfl, rfl⟩ : sessionId' = sessionId ∧ r' = r := by simpa using h
    exact ⟨sender, key, data, rest, top⟩
  · cases h

theorem provenance_alice : ∃ c, Run (server shortest Text.reference) (fun _ _ => True)
    ServerConfig.initial aliceSends c ∧
    (∃ sender key data rest, c.running =
      some ⟨.conn (lit "s"), .callHook 0 (.onMessage sender key data) :: rest, none⟩) ∧
    Provenance shortest Text.reference aliceSends c := by
  have found : (execute (server shortest Text.reference) (fun _ _ => true) ServerConfig.initial
      aliceSends).any (hearsCheck (lit "s") 0) = true := by
    decide +kernel
  obtain ⟨c, run, top⟩ := exists_run _ found
  have run' : Run _ (fun _ _ => True) _ _ c := run.weaken _ fun _ => trivial
  exact ⟨c, run', hearsCheck_sound top, provenance _ _ run'⟩

end Blueboat
