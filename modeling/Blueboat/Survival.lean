import Blueboat.ClientJoins
import Blueboat.Upgrade

set_option autoImplicit false

/-! Nothing that the server sends makes a thread of the client end with an exception. -/
namespace Blueboat.Client

open Protocol LockMachine
open Upgrade (Stack greeting randomId)

inductive FromServer (L : Stack) : Bool × Str → Prop where
  | greets {client : SimpleClient} {dist : Fin 21 → Fin 64} {gs : List (Bool × Str)} {m : Bool × Str}
      (session : client.sessionId = randomId dist) (short : client.id.length < 2 ^ 32)
      (greets : greeting L client = .ok gs) (mem : m ∈ gs) : FromServer L m
  | follows {sessionId : Str} {m : Bool × Str} (follows : Upgrade.Follows L sessionId m) : FromServer L m

/-- What comes from the network is from the server, callbacks do not throw, and no random id begins like
the name of a room's event. -/
def Served (L : Stack) (_ : ClientConfig) : Label Answer EnvEvent → Prop
  | .act (.receive isBinary payload) => FromServer L (isBinary, payload)
  | .act (.throw _) => False
  | .act (.requestId id) => (∃ dist, id = randomId dist) ∧ ¬ lit "message-" <+: id
  | _ => True

def Apart (w : World) : Prop :=
  ∀ event o options requestId, w.eventHandlers.lookup event = some (.created o options requestId) →
    ∃ id, event = createEvent id ∧ 8 ≤ id.length ∧ ¬ lit "message-" <+: id

/-- The handler reads this data without an exception. -/
def Handler.Takes (data : Json) : Handler → Prop
  | .joinError _ => True
  | .message _ => data.contains (lit "key") = true →
      ∃ key d, (data.atKey (lit "key")).bind Json.getString = .ok key ∧
        data.valueJson (lit "data") .null = .ok d
  | .created .. => ∃ roomId, data.getString = .ok roomId
  | .createError .. => True

def Cmd.Tame : Cmd → Prop
  | .handle handler data => handler.Takes data
  | .handleClientIdSet newId => ∃ id, newId.getString = .ok id
  | _ => True

/-! The server's frames and the handlers that they meet. -/

section
variable {w : World} {event : Str} {data data' : Json}

theorem copies_str {s : Str} {y : Json} (h : Copies (.str s) y) : y = .str s := h

theorem copies_errorMessage {what : Str} {y : Json} (h : Copies (errorMessage what) y) :
    y = .obj [(lit "message", .str what)] := by
  have fields : errorMessage what = .obj [(lit "message", .str what)] := rfl
  rw [fields] at h
  obtain ⟨gs, rfl, y, rest, rfl, value, last⟩ := h
  obtain rfl := copies_str value
  obtain rfl : rest = [] := last
  rfl

theorem copies_envelope {key : Str} {d y : Json} (h : Copies (envelope key d) y) :
    ∃ d', y = .obj [(lit "data", d'), (lit "key", .str key)] := by
  have fields : envelope key d = .obj [(lit "data", d), (lit "key", .str key)] := rfl
  rw [fields] at h
  obtain ⟨gs, rfl, d', rest, rfl, -, y, rest', rfl, value, last⟩ := h
  obtain rfl := copies_str value
  obtain rfl : rest' = [] := last
  exact ⟨d', rfl⟩

theorem createEvent_ne_error (id id' : Str) : createEvent id ≠ id' ++ lit "-error" := by
  apply ne_of_getLast
  rw [createEvent, List.getLast?_append_of_ne_nil _ (by decide),
    List.getLast?_append_of_ne_nil _ (by decide)]
  decide

/-- A room's event is not awaited as a reply. -/
theorem createEvent_ne_message {id roomId : Str} (long : 8 ≤ id.length)
    (apart : ¬ lit "message-" <+: id) : createEvent id ≠ roomEvent roomId := by
  intro same
  have room : lit "message-" <+: createEvent id := by
    rw [same]
    exact List.prefix_append ..
  have request : id <+: createEvent id := List.prefix_append ..
  exact apart (List.prefix_of_prefix_length_le room request (Nat.le_trans (by decide) long))

theorem takes_reply (apart : Apart w) (reply : Reply event data) (copies : Copies data data')
    {handler : Handler} (found : w.eventHandlers.lookup event = some handler) :
    handler.Takes data' := by
  cases handler with
  | joinError => trivial
  | createError => trivial
  | message o =>
    cases reply with
    | created requestId roomId =>
      rw [copies_str copies]
      intro keyed
      cases keyed
    | failed id what =>
      rw [copies_errorMessage copies]
      intro keyed
      have none : (Json.obj [(lit "message", .str what)]).contains (lit "key") = false := rfl
      rw [none] at keyed
      cases keyed
    | message roomId key d =>
      obtain ⟨d', rfl⟩ := copies_envelope copies
      exact fun _ => ⟨key, d', rfl, rfl⟩
  | created o options requestId =>
    obtain ⟨id, named, long, other⟩ := apart _ _ _ _ found
    cases reply with
    | created requestId' roomId => exact ⟨roomId, by rw [copies_str copies]; rfl⟩
    | failed id' what => exact absurd named.symm (createEvent_ne_error id id')
    | message roomId key d => exact absurd named.symm (createEvent_ne_message long other)

end

/-! One step. -/

section
variable {L : Stack} {w : World} {cmd : Cmd} {a : Answer} {o : Out}

structure Smooth (o : Out) : Prop where
  returns : o.exn = none
  apart : Apart o.world
  tame : ∀ cmd ∈ o.push, cmd.Tame

theorem Apart.same {w' : World} (h : Apart w) (same : w'.eventHandlers = w.eventHandlers) :
    Apart w' := by
  intro event o options requestId found
  rw [same] at found
  exact h event o options requestId found

theorem Smooth.park {w' : World} (h : Apart w) {push : List Cmd}
    (same : w'.eventHandlers = w.eventHandlers) (tame : ∀ cmd ∈ push, cmd.Tame) :
    Smooth (.park w' push) := ⟨rfl, h.same same, tame⟩

theorem Apart.registerRoomEvents (h : Apart w) (r : Ref) : Apart (w.registerRoomEvents r) := by
  intro event o options requestId found
  rw [lookup_registerRoomEvents] at found
  split at found
  · cases found
  · split at found
    · cases found
    · exact h event o options requestId found

theorem Apart.eraseRequest (h : Apart w) (requestId : Str) : Apart { w with
    eventHandlers := (w.eventHandlers.erase (createEvent requestId)).erase
      (errorEvent requestId) } := by
  intro event o options requestId' found
  exact h event o options requestId' (lookup_erase_of_some (lookup_erase_of_some found).2).2

theorem Apart.createRoom (h : Apart w) (roomName : Str) (options : Json) {id : Str}
    (long : 8 ≤ id.length) (apart : ¬ lit "message-" <+: id) :
    Apart (createRoom w roomName options id).world := by
  intro event o options' requestId found
  change ((w.eventHandlers.insert (createEvent id) _).insert (errorEvent id) _).lookup event = _ at found
  by_cases failed : event = errorEvent id
  · rw [failed, AList.lookup_insert] at found
    cases found
  · rw [AList.lookup_insert_ne failed] at found
    by_cases created : event = createEvent id
    · exact ⟨id, created, long, apart⟩
    · rw [AList.lookup_insert_ne created] at found
      exact h event o options' requestId found

theorem eventHandlers_send (w : World) (event : Str) (data : Json) :
    (w.send event data).eventHandlers = w.eventHandlers := by
  obtain ⟨sent, e⟩ := send_eq w event data
  rw [e]

theorem handleWsPayload_smooth (law : L.Lawful) (h : Apart w) {isBinary : Bool} {payload : Str}
    (served : FromServer L (isBinary, payload)) :
    Smooth (handleWsPayload L.M L.J w isBinary payload) := by
  have loop : ∀ cmd ∈ [Cmd.recvLoop], cmd.Tame := fun cmd mem => by
    rw [List.mem_singleton.1 mem]
    trivial
  -- a frame that is no event is passed over
  have passed : ∀ frame : Sio.ParsedFrame,
      Sio.parseFrame L.M L.J isBinary payload = .ok frame → frame.kind ≠ .Event →
        Smooth (handleWsPayload L.M L.J w isBinary payload) := by
    intro frame parsed other
    rw [handleWsPayload, parsed]
    dsimp only
    rw [if_pos other]
    exact .park h rfl loop
  cases served with
  | greets session short greets mem =>
    rename_i client dist gs
    have utf8 : utf8Valid client.sessionId = true := session ▸ Upgrade.utf8Valid_randomId dist
    obtain ⟨opened, ack, set, connected, named, greets', parsed, ⟨acks, connects⟩, sets, kind, event,
      data⟩ := Upgrade.parse_greeting law client utf8 short
    obtain rfl := Except.ok.inj (greets.symm.trans greets')
    simp only [List.mem_cons, Prod.mk.injEq, List.not_mem_nil, or_false] at mem
    rcases mem with ⟨rfl, rfl⟩ | ⟨rfl, rfl⟩ | ⟨rfl, rfl⟩
    · exact passed _ parsed (by rw [Sio.openFrame]; simp)
    · exact passed _ acks (by rw [connects]; simp)
    · rw [handleWsPayload, sets]
      dsimp only
      rw [kind, event, if_neg (by simp), if_pos rfl, data]
      refine .park h rfl fun cmd mem => ?_
      rcases List.mem_cons.1 mem with rfl | mem
      · exact ⟨client.id, rfl⟩
      · exact loop cmd mem
  | follows follows =>
    cases follows with
    | pong => exact passed { kind := .Pong } rfl (by simp)
    | event run sent short packs =>
      rename_i event data
      have reply : Reply event data.json := proper_run run _ sent
      obtain ⟨f, parsed, kind, named, copies⟩ := Sio.parseFrame_event law.msgpack L.J short packs
        data.ordered
      rw [handleWsPayload, parsed]
      dsimp only
      rw [kind, named, if_neg (by simp), if_neg reply.event_ne]
      cases found : w.eventHandlers.lookup event with
      | none => exact .park h rfl loop
      | some handler =>
        refine .park h rfl fun cmd mem => ?_
        rcases List.mem_cons.1 mem with rfl | mem
        · exact takes_reply h reply copies found
        · exact loop cmd mem

theorem handle_smooth (h : Apart w) {data : Json} {handler : Handler} (takes : handler.Takes data) :
    Smooth (handle w data handler) := by
  cases handler with
  | joinError r => exact .park h rfl (by simp [Cmd.Tame])
  | createError r requestId => exact .park h rfl (by simp [Cmd.Tame])
  | created r options requestId =>
    obtain ⟨roomId, text⟩ := takes
    rw [handle, text]
    dsimp only
    refine ⟨rfl, Apart.registerRoomEvents ?_ r, by simp [Cmd.Tame]⟩
    exact h.same rfl
  | message r =>
    rw [handle, handleMessage]
    cases keyed : data.contains (lit "key") with
    | false => exact .park h rfl (by simp)
    | true =>
      obtain ⟨key, d, text, body⟩ := takes keyed
      rw [if_neg (by simp), text]
      dsimp only
      rw [body]
      dsimp only
      split
      · exact .park h rfl (by simp [Cmd.Tame])
      · split <;> exact .park h rfl (by simp [Cmd.Tame])

theorem exec_smooth (law : L.Lawful) (h : Apart w) (tame : cmd.Tame) {c : ClientConfig}
    (served : Served L c (.act a)) (run : exec L.M L.J w cmd a = some o) : Smooth o := by
  cases cmd with
  | handle handler data =>
    obtain rfl := Option.some.inj run
    exact handle_smooth h tame
  | handleClientIdSet newId =>
    obtain ⟨id, text⟩ := tame
    simp only [exec, text] at run
    obtain rfl := Option.some.inj run
    exact .park h rfl (by simp [Cmd.Tame])
  | inCallback callback =>
    cases a with
    | throw x => exact served.elim
    | ret | joinRoom | createRoom | send =>
      obtain rfl := Option.some.inj run
      exact .park h rfl (by simp [Cmd.Tame])
    | _ => cases run
  | recvLoop =>
    cases a with
    | receive isBinary payload =>
      obtain rfl := Option.some.inj run
      exact handleWsPayload_smooth law h served
    | closed =>
      obtain rfl := Option.some.inj run
      exact .park h rfl (by simp [Cmd.Tame])
    | _ => cases run
  | createRoom roomName options =>
    cases a with
    | requestId id =>
      obtain ⟨⟨dist, rfl⟩, apart⟩ := served
      obtain rfl := Option.some.inj run
      refine ⟨rfl, h.createRoom roomName options ?_ apart, by simp [Client.createRoom, Cmd.Tame]⟩
      rw [Upgrade.length_randomId]
      decide
    | _ => cases run
  | joinRoom roomId options =>
    obtain rfl := Option.some.inj run
    refine ⟨rfl, Apart.registerRoomEvents ?_ _, by simp [Cmd.Tame]⟩
    exact h.same rfl
  | eraseRequest requestId =>
    obtain rfl := Option.some.inj run
    exact ⟨rfl, h.eraseRequest requestId, by simp⟩
  | sendFrame event data =>
    obtain rfl := Option.some.inj run
    exact .park h (eventHandlers_send w event data) (by simp)
  | sendJoin r roomId options origin =>
    obtain rfl := Option.some.inj run
    exact .park h (eventHandlers_send ..) (by simp [Cmd.Tame])
  | connectionManagerLoop attempt =>
    simp only [exec, manage] at run
    split at run
    · cases a <;> cases run <;> exact .park h rfl (by simp [Cmd.Tame])
    · obtain rfl := Option.some.inj run
      exact .park h rfl (by simp)
  | rejoinRooms rooms | leaveRooms rooms =>
    cases rooms <;> simp only [exec, manage] at run
    all_goals (repeat' split at run) <;> cases run <;> exact .park h rfl (by simp [Cmd.Tame])
  | install attempt =>
    obtain rfl := Option.some.inj run
    refine .park h rfl fun cmd mem => ?_
    rcases List.mem_append.1 mem with mem | mem
    · split at mem
      · rw [List.mem_singleton.1 mem]
        trivial
      · cases mem
    · rw [List.mem_singleton.1 mem]
      trivial
  | _ =>
    simp only [exec, manage] at run
    (repeat' split at run) <;> cases run <;> exact .park h rfl (by simp [Cmd.Tame])

end

/-! A whole run. -/

def TameThread (_ : World) (t : Thread Tid Cmd Exn) : Prop :=
  t.exn = none ∧ ∀ cmd ∈ t.stack, cmd.Tame

theorem tame_start : ∀ t ∈ ClientConfig.initial.parked, TameThread ClientConfig.initial.world t := by
  intro t mem
  rw [List.mem_singleton.1 mem]
  exact ⟨rfl, by simp [Cmd.Tame]⟩

theorem smooth_preserved {L : Stack} (law : L.Lawful) :
    Preserved (client L.M L.J) Apart (Each TameThread) TameThread (Served L) := by
  refine Preserved.each _ ?_ ?_ ?_
  · rintro c tid cmd rest a o ⟨apart, running, parked⟩ served top run
    obtain ⟨-, tame⟩ := running _ top
    have smooth := exec_smooth law apart (tame cmd List.mem_cons_self) served run
    refine ⟨smooth.apart, ⟨smooth.returns, fun cmd' mem => ?_⟩, parked⟩
    rcases List.mem_append.1 mem with mem | mem
    · exact smooth.tame cmd' mem
    · exact tame cmd' (List.mem_cons_of_mem _ mem)
  · rintro c tid cmd rest x a o ⟨-, running, -⟩ - top -
    cases (running _ top).1
  · rintro c e w new ⟨apart, running, parked⟩ - run
    cases e <;> cases run <;>
      exact ⟨apart, running, parked, List.forall_mem_singleton.2 ⟨rfl,
        List.forall_mem_singleton.2 trivial⟩⟩

/-- Whatever a server sends, no thread of the client ends with an exception. -/
theorem client_survives (L : Stack) (law : L.Lawful) {ls : List (Label Answer EnvEvent)}
    {c : ClientConfig} (run : Run (client L.M L.J) (Served L) ClientConfig.initial ls c) :
    c.crashed = none ∧ ∀ t ∈ c.threads, t.exn = none := by
  have start : Holds Apart (Each TameThread) TameThread ClientConfig.initial :=
    ⟨nofun, nofun, tame_start⟩
  obtain ⟨-, running, parked⟩ := (smooth_preserved law).run _ run start
  refine ⟨(run.crashed _ rfl).resolve_right ?_, fun t mem => ?_⟩
  · rintro ⟨tid, x, top⟩
    cases (running _ top).1
  · rcases List.mem_append.1 mem with mem | mem
    · exact (running t (Option.mem_toList.1 mem)).1
    · exact (parked t mem).1

/-! A client that joins a room of a server. -/

def welcome : Str := Sio.buildEventFrame shortest clientIdSet (.str (Upgrade.visitor []).id)

def welcomeData : Value := ⟨envelope joinedRoom .null, by decide +kernel⟩

def welcomed : Str := Sio.buildEventFrame shortest (roomEvent (lit "r")) welcomeData.json

def servedCheck (_ : ClientConfig) : Label Answer EnvEvent → Bool
  | .act (.receive isBinary payload) => isBinary && (payload == welcome || payload == welcomed)
  | .act (.throw _) => false
  | .act (.requestId _) => false
  | _ => true

def isMessage (sessionId name : Str) : Event → Bool
  | .frame s event (.obj [(body, .null), (field, .str key)]) =>
    s == sessionId && event == roomEvent (lit "r") && body == lit "data" && field == lit "key" &&
      key == name
  | _ => false

theorem isMessage_sound {sessionId name : Str} {e : Event} (h : isMessage sessionId name e = true) :
    e = .frame sessionId (roomEvent (lit "r")) (envelope name .null) := by
  unfold isMessage at h
  split at h
  · simp only [Bool.and_eq_true, beq_iff_eq] at h
    obtain ⟨⟨⟨⟨rfl, rfl⟩, rfl⟩, rfl⟩, rfl⟩ := h
    rfl
  · cases h

theorem greets_welcome : FromServer Upgrade.stack (true, welcome) := by
  have session : (Upgrade.visitor []).sessionId = randomId fun _ => 36 := rfl
  have short : (Upgrade.visitor []).id.length < 2 ^ 32 :=
    Upgrade.length_agreed Upgrade.Fit.nil fun _ => 10
  obtain ⟨opened, ack, set, -, -, greets, -⟩ := Upgrade.parse_greeting Upgrade.stack_lawful
    (Upgrade.visitor []) (session ▸ Upgrade.utf8Valid_randomId _) short
  refine .greets session short greets ?_
  unfold greeting at greets
  split at greets <;> cases greets
  exact .tail _ (.tail _ (.head _))

/-- A run of the server lets the client join. -/
theorem follows_welcomed : FromServer Upgrade.stack (true, welcomed) := by
  have found : (execute (server shortest Text.reference) (fun _ _ => true) ServerConfig.initial
      (startsUp ++ Blueboat.connects alice ++ joinsRoom (lit "s"))).any
        (fun c => c.world.log.any (isMessage (lit "s") joinedRoom)) = true := by
    decide +kernel
  obtain ⟨c, run, sent⟩ := exists_run _ found
  obtain ⟨e, mem, welcomed⟩ := List.any_eq_true.1 sent
  obtain rfl := isMessage_sound welcomed
  have packs : packable welcomeData.json = true := by decide +kernel
  exact .follows (.event (run.weaken _ fun _ => trivial) mem (by decide) packs)

theorem servedCheck_sound {c : ClientConfig} {l : Label Answer EnvEvent} (h : servedCheck c l = true) :
    Served Upgrade.stack c l := by
  cases l with
  | act a =>
    cases a with
    | receive isBinary payload =>
      simp only [servedCheck, Bool.and_eq_true, Bool.or_eq_true, beq_iff_eq] at h
      obtain ⟨rfl, rfl | rfl⟩ := h
      · exact greets_welcome
      · exact follows_welcomed
    | throw | requestId => cases h
    | _ => trivial
  | _ => trivial

/-- The client is greeted, asks to join the room and is let in. -/
def servedJoin : List (Label Answer EnvEvent) :=
  turn 0 .connected ++ turn 0 .next ++ turn 0 (.receive true welcome) ++ turn 0 .next ++
    turn 0 .next ++ turn 0 .ret ++ turn 0 .next ++ turn 0 .next ++ turn 0 .next ++ turn 0 .ret ++
    turn 0 .next ++ joins 1 ++ turn 1 .next ++ turn 0 (.receive true welcomed) ++ turn 1 .next

theorem client_survives_join : ∃ c, Run (client shortest Text.reference) (Served Upgrade.stack)
    ClientConfig.initial servedJoin c ∧ (c.world.objects 0).joined = true ∧
      c.crashed = none ∧ ∀ t ∈ c.threads, t.exn = none := by
  have found : (execute (client shortest Text.reference) servedCheck ClientConfig.initial
      servedJoin).any (fun c => (c.world.objects 0).joined) = true := by
    decide +kernel
  obtain ⟨c, run, joined⟩ := exists_run _ found
  have served : Run (client Upgrade.stack.M Upgrade.stack.J) (Served Upgrade.stack) _ _ c :=
    run.weaken _ servedCheck_sound
  exact ⟨c, served, joined, client_survives Upgrade.stack Upgrade.stack_lawful served⟩

end Blueboat.Client
