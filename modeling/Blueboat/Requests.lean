import Blueboat.Survival

set_option autoImplicit false

/-! The two programs understand each other: what the client asks for is what the server goes on with, and
what a room sends is what the application of the client is called with. -/
namespace Blueboat.Client

open Protocol LockMachine
open Upgrade (Stack)

/-- What the application of a client asks the server for. -/
inductive Request where
  | create (roomName : Str) (options : Json) (requestId : Str)
  | join (roomId : Str) (options : Json)
  | message (roomId key : Str) (data : Json)

namespace Request

def event : Request → Str
  | .create .. => Protocol.createNewRoom
  | .join .. => Protocol.joinRoom
  | .message .. => sendMessage

def data : Request → Json
  | .create roomName options requestId => createData roomName options requestId
  | .join roomId options => joinData roomId options
  | .message roomId key data => messageData roomId key data

inductive Copied : Request → Request → Prop where
  | create {roomName requestId : Str} {options options' : Json} (copies : Copies options options') :
      Copied (.create roomName options requestId) (.create roomName options' requestId)
  | join {roomId : Str} {options options' : Json} (copies : Copies options options') :
      Copied (.join roomId options) (.join roomId options')
  | message {roomId key : Str} {data data' : Json} (copies : Copies data data') :
      Copied (.message roomId key data) (.message roomId key data')

theorem copied_of_data {request : Request} {data' : Json} (h : Copies request.data data') :
    ∃ request', request.Copied request' ∧ data' = request'.data := by
  cases request with
  | create roomName options requestId =>
    have fields : createData roomName options requestId = .obj [(lit "options", options),
      (lit "type", .str roomName), (lit "uniqueRequestId", .str requestId)] := rfl
    rw [data, fields] at h
    obtain ⟨gs, rfl, options', rest, rfl, copies, y, rest', rfl, name, z, rest'', rfl, id, last⟩ := h
    obtain rfl := copies_str name
    obtain rfl := copies_str id
    obtain rfl : rest'' = [] := last
    exact ⟨_, .create copies, rfl⟩
  | join roomId options =>
    have fields : joinData roomId options =
      .obj [(lit "options", options), (lit "roomId", .str roomId)] := rfl
    rw [data, fields] at h
    obtain ⟨gs, rfl, options', rest, rfl, copies, y, rest', rfl, id, last⟩ := h
    obtain rfl := copies_str id
    obtain rfl : rest' = [] := last
    exact ⟨_, .join copies, rfl⟩
  | message roomId key body =>
    have fields : messageData roomId key body =
      .obj [(lit "data", body), (lit "key", .str key), (lit "room", .str roomId)] := rfl
    rw [data, fields] at h
    obtain ⟨gs, rfl, body', rest, rfl, copies, y, rest', rfl, name, z, rest'', rfl, id, last⟩ := h
    obtain rfl := copies_str name
    obtain rfl := copies_str id
    obtain rfl : rest'' = [] := last
    exact ⟨_, .message copies, rfl⟩

end Request

/-! What a client sends is a request. -/

def Asked (event : Str) (data : Json) : Prop :=
  ∃ request : Request, event = request.event ∧ data = request.data

def Cmd.Asks : Cmd → Prop
  | .sendFrame event data => Asked event data
  | _ => True

def SentAsked (w : World) : Prop := ∀ s ∈ w.sent, Asked s.2.1 s.2.2

def AskingThread (_ : World) (t : Thread Tid Cmd Exn) : Prop := ∀ cmd ∈ t.stack, cmd.Asks

section
variable {M : MsgpackC} {J : JsonText} {w : World}

theorem SentAsked.send (h : SentAsked w) {event : Str} {data : Json} (asked : Asked event data) :
    SentAsked (w.send event data) := by
  unfold World.send
  split
  · exact h
  · split
    · exact h
    · intro s mem
      rcases List.mem_append.1 mem with mem | mem
      · exact h s mem
      · obtain rfl := List.mem_singleton.1 mem
        exact asked

theorem Pushes.asks {cmd : Cmd} {a : Answer} {push : List Cmd} (h : Pushes M J w cmd a push) :
    ∀ cmd' ∈ push, cmd'.Asks := by
  cases h with
  | @innerSend callback o key data =>
    refine List.forall_mem_cons.2 ⟨⟨.message (w.objects o).id key data, rfl, rfl⟩, ?_⟩
    exact List.forall_mem_singleton.2 trivial
  | _ => simp [Cmd.Asks]

theorem Effect.asks {cmd : Cmd} {a : Answer} {o : Out} (h : Effect M J w cmd a o) (sent : SentAsked w)
    (asks : cmd.Asks) : SentAsked o.world ∧ ∀ cmd' ∈ o.push, cmd'.Asks := by
  cases h with
  | stays pushes => exact ⟨sent, pushes.asks⟩
  | sendFrame => exact ⟨sent.send asks, by simp⟩
  | @sendJoin r roomId options =>
    exact ⟨sent.send ⟨.join roomId options, rfl, rfl⟩, by simp [Cmd.Asks]⟩
  | @createRoom roomName options id =>
    exact ⟨sent, List.forall_mem_singleton.2 ⟨.create roomName options id, rfl, rfl⟩⟩
  | disconnect closes => rcases closes with rfl | rfl <;> exact ⟨sent, by simp [Cmd.Asks]⟩
  | install reconnects => rcases reconnects with rfl | rfl <;> exact ⟨sent, by simp [Cmd.Asks]⟩
  | _ => exact ⟨sent, by simp [Cmd.Asks]⟩

variable (M J)

theorem asking_preserved :
    Preserved (client M J) SentAsked (Each AskingThread) AskingThread fun _ _ => True := by
  refine Preserved.each _ ?_ ?_ ?_
  · rintro c tid cmd rest a o ⟨sent, running, parked⟩ - top run
    have asking := running _ top
    obtain ⟨sent', pushed⟩ := (exec_effect (M := M) (J := J) run).asks sent
      (asking cmd List.mem_cons_self)
    refine ⟨sent', fun cmd' mem => ?_, parked⟩
    rcases List.mem_append.1 mem with mem | mem
    · exact pushed cmd' mem
    · exact asking cmd' (List.mem_cons_of_mem _ mem)
  · rintro c tid cmd rest x a o ⟨sent, running, parked⟩ - top run
    obtain rfl := Option.some.inj run
    exact ⟨sent, fun cmd' mem => running _ top cmd' (List.mem_cons_of_mem _ mem), parked⟩
  · rintro c e w new ⟨sent, running, parked⟩ - run
    cases e with
    | send o key data =>
      cases run
      refine ⟨sent, running, parked, List.forall_mem_singleton.2 (List.forall_mem_singleton.2 ?_)⟩
      exact ⟨.message (c.world.objects o).id key data, rfl, rfl⟩
    | _ =>
      cases run
      exact ⟨sent, running, parked, List.forall_mem_singleton.2 (List.forall_mem_singleton.2 trivial)⟩

variable {M J}

theorem asked_run {ls : List (Label Answer EnvEvent)} {c : ClientConfig}
    (run : Run (client M J) (fun _ _ => True) ClientConfig.initial ls c) {link : ℕ} {event : Str}
    {data : Json} (sent : (link, event, data) ∈ c.world.sent) : Asked event data := by
  have start : Holds SentAsked (Each AskingThread) AskingThread ClientConfig.initial := by
    refine ⟨nofun, nofun, List.forall_mem_singleton.2 (List.forall_mem_singleton.2 trivial)⟩
  exact ((asking_preserved M J).run _ run start).1 _ sent

end

end Blueboat.Client

/-! What the server makes of it. -/

namespace Blueboat

open Protocol LockMachine
open Client (Request)
open Upgrade (Stack)

/-- The server goes on with this; a request without the ids that it needs is dropped. -/
def served (client : SimpleClient) : Request → List Cmd
  | .create roomName options requestId =>
    if roomName = [] ∨ requestId = [] then []
    else [.createNewRoom client roomName options [] (.frame client requestId),
      .catchCreate client requestId]
  | .join roomId options =>
    if roomId = [] then []
    else [.joinRoom client roomId (Client.joinData roomId options), .catchJoinRoom client roomId]
  | .message roomId key data =>
    if roomId = [] then [] else [.publish roomId (messagePayload client (.str key) data)]

/-- The request gets through to the hook of a room that listens under the id: for a join the room has to
be stored, for a message the client has to be a member. -/
inductive Concerns (J : JsonText) (w : World) (client : SimpleClient) (r : RoomRef) :
    Request → Hook → Prop where
  | join {roomId : Str} {options : Json} {snapshot : RoomSnapshot} (named : roomId ≠ [])
      (listens : w.handlersOf roomId = [.gameMessage r])
      (stored : RoomFetcher.findRoomById J w.storage w.now roomId = .ok snapshot) :
      Concerns J w client r (.join roomId options) (.canClientJoin client options)
  | message {roomId key : Str} {data : Json} {sender : SimpleClient} (named : roomId ≠ [])
      (listens : w.handlersOf roomId = [.gameMessage r])
      (member : (w.rooms r).member client.sessionId = some sender) :
      Concerns J w client r (.message roomId key data) (.onMessage sender key data)

def ServerConfig.Holding (c : ServerConfig) (tid : Tid) (left : List Cmd) : Prop :=
  c.crashed = none ∧ c.running = some ⟨tid, left, none⟩

section
variable {M : MsgpackC} {J : JsonText} {c : ServerConfig} {tid : Tid} {rest : List Cmd}

def ServerConfig.going (c : ServerConfig) (w : World) (tid : Tid) (left : List Cmd) : ServerConfig :=
  { c with world := w, running := some ⟨tid, left, none⟩ }

theorem ServerConfig.Holding.run {left : List Cmd} (holds : c.Holding tid left) :
    Run (server M J) (fun _ _ => True) c [] (c.going c.world tid left) := by
  obtain ⟨alive, top⟩ := holds
  have same : c.going c.world tid left = c := by rw [ServerConfig.going, ← top]
  rw [same]
  exact .nil

/-- One more step of the thread that holds the lock. -/
theorem runs_next {ls : List (Label Answer EnvEvent)} {w w' : World} {cmd : Cmd} {push : List Cmd}
    (alive : c.crashed = none)
    (before : Run (server M J) (fun _ _ => True) c ls (c.going w tid (cmd :: rest)))
    (run : exec M J w cmd .next = some (.go w' push)) :
    Run (server M J) (fun _ _ => True) c (ls ++ [.act .next]) (c.going w' tid (push ++ rest)) := by
  have last : Step (server M J) (c.going w tid (cmd :: rest)) (.act .next)
      (settle (c.going w tid (cmd :: rest)) tid rest (.go w' push)) := .exec alive rfl run
  exact .snoc before trivial last

theorem handle_request (w : World) (client : SimpleClient) (request : Request) :
    handleClientMessage w client request.event request.data = .go w (served client request) := by
  have object : request.data.isObject = true := by cases request <;> rfl
  unfold handleClientMessage
  dsimp only
  rw [if_pos object]
  cases request with
  | create roomName options requestId =>
    have id : (Client.createData roomName options requestId).valueString (lit "uniqueRequestId") [] =
      .ok requestId := rfl
    have name : (Client.createData roomName options requestId).valueString (lit "type") [] =
      .ok roomName := rfl
    have body : (Client.createData roomName options requestId).valueJson (lit "options") (.obj []) =
      .ok options := rfl
    simp only [Request.event, Request.data, served, id, name, body, if_true]
    split <;> rfl
  | join roomId options =>
    have id : (Client.joinData roomId options).valueString (lit "roomId") [] = .ok roomId := rfl
    have other : Protocol.joinRoom ≠ Protocol.createNewRoom := by decide
    simp only [Request.event, Request.data, served, id, other, if_true, if_false]
    split <;> rfl
  | message roomId key data =>
    have id : (Client.messageData roomId key data).valueString (lit "room") [] = .ok roomId := rfl
    have name : (Client.messageData roomId key data).find? (lit "key") = some (.str key) := rfl
    have body : (Client.messageData roomId key data).valueJson (lit "data") .null = .ok data := rfl
    have other : sendMessage ≠ Protocol.createNewRoom ∧ sendMessage ≠ Protocol.joinRoom := by decide
    simp only [Request.event, Request.data, served, id, name, body, other, if_true, if_false]
    split <;> rfl

theorem runs_request {client : SimpleClient} {payload : Str} {frame : Sio.ParsedFrame}
    {request : Request} (holds : c.Holding tid (.dispatch client true payload :: rest))
    (parsed : Sio.parseFrame M J true payload = .ok frame) (kind : frame.kind = .Event)
    (event : frame.event = request.event) (data : frame.data = request.data) :
    Run (server M J) (fun _ _ => True) c [.act .next, .act .next]
      (c.going c.world tid (served client request ++ rest)) := by
  have first : exec M J c.world (.dispatch client true payload) .next =
      some (.go c.world [.handleClientMessage client request.event request.data]) := by
    simp only [exec, dispatch, parsed, kind, event, data]
  have second : exec M J c.world (.handleClientMessage client request.event request.data) .next =
      some (.go c.world (served client request)) := by
    rw [exec, handle_request]
  exact runs_next holds.1 (runs_next holds.1 holds.run first) second

/-- From a request that gets through, to the call of the hook. -/
theorem runs_concerns {client : SimpleClient} {r : RoomRef} {request : Request} {hook : Hook}
    (concerns : Concerns J c.world client r request hook)
    (holds : c.Holding tid (served client request ++ rest)) :
    ∃ n w left, Run (server M J) (fun _ _ => True) c (List.replicate n (.act .next))
      (c.going w tid (.callHook r hook :: left)) := by
  cases concerns with
  | @join roomId options snapshot named listens stored =>
    rw [served, if_neg named] at holds
    have found : exec M J c.world (.joinRoom client roomId (Client.joinData roomId options)) .next =
        some (.go c.world [.publish roomId (joinPayload client options)]) := by
      simp only [exec, joinRoom, stored]
      rfl
    have published : exec M J c.world (.publish roomId (joinPayload client options)) .next =
        some (.go c.world [.deliver (joinPayload client options) [.gameMessage r]]) := by
      rw [exec, listens]
    have delivered : exec M J c.world (.deliver (joinPayload client options) [.gameMessage r]) .next =
        some (.go c.world [.callHook r (.canClientJoin client options), .addClient r client options,
          .catchJoin r client, .deliver (joinPayload client options) []]) := by
      simp only [exec, handle, roomMessage_join]
      rfl
    have asked := runs_next holds.1 holds.run found
    exact ⟨3, _, _, runs_next holds.1 (runs_next holds.1 asked published) delivered⟩
  | @message roomId key data sender named listens member =>
    rw [served, if_neg named] at holds
    have published : exec M J c.world (.publish roomId (messagePayload client (.str key) data)) .next =
        some (.go c.world [.deliver (messagePayload client (.str key) data) [.gameMessage r]]) := by
      rw [exec, listens]
    have args : messageArgs (messagePayload client (.str key) data) = .ok (key, data) := rfl
    have delivered : exec M J c.world
        (.deliver (messagePayload client (.str key) data) [.gameMessage r]) .next =
        some (.go (c.world.touch r) [.callHook r (.onMessage sender key data),
          .deliver (messagePayload client (.str key) data) []]) := by
      simp only [exec, handle, roomMessage_message, member, args]
    have reached := runs_next holds.1 holds.run published
    exact ⟨2, _, _, runs_next holds.1 reached delivered⟩

/-- Every frame that a run of the client sends is a request, and the server that gets it goes on with the
same request, up to a room's hook where there is one to ask. -/
theorem requests_understood (L : Stack) (law : L.Lawful)
    {ls : List (Label Client.Answer Client.EnvEvent)} {c : Client.ClientConfig}
    (run : Run (Client.client L.M L.J) (fun _ _ => True) Client.ClientConfig.initial ls c) {link : ℕ}
    {event : Str} {data : Value} (sent : (link, event, data.json) ∈ c.world.sent)
    (packs : packable data.json = true) :
    ∃ request request' : Request, event = request.event ∧ data.json = request.data ∧
      request.Copied request' ∧
      ∀ (s : ServerConfig) (tid : Tid) (client : SimpleClient) (rest : List Cmd),
        s.Holding tid (.dispatch client true (Sio.buildEventFrame L.M event data.json) :: rest) →
        Run (server L.M L.J) (fun _ _ => True) s [.act .next, .act .next]
            (s.going s.world tid (served client request' ++ rest)) ∧
          ∀ r hook, Concerns L.J s.world client r request' hook → ∃ n w left,
            Run (server L.M L.J) (fun _ _ => True) s (List.replicate n (.act .next))
              (s.going w tid (.callHook r hook :: left)) := by
  obtain ⟨request, rfl, same⟩ := Client.asked_run run sent
  have short : request.event.length < 2 ^ 32 := by
    have bound : request.event.length ≤ 100 := by
      cases request <;> simp only [Request.event] <;> decide
    exact Nat.lt_of_le_of_lt bound (by decide)
  obtain ⟨frame, parsed, kind, named, copies⟩ := Sio.parseFrame_event law.msgpack L.J short packs
    data.ordered
  rw [same] at copies
  obtain ⟨request', copied, body⟩ := Request.copied_of_data copies
  have event' : frame.event = request'.event := by
    rw [named]
    cases copied <;> rfl
  refine ⟨request, request', rfl, same, copied, fun s tid client rest holds => ?_⟩
  have served := runs_request holds parsed kind event' body
  refine ⟨served, fun r hook concerns => ?_⟩
  obtain ⟨n, w, left, reached⟩ := runs_concerns (M := L.M) (c := s.going s.world tid _) concerns
    ⟨holds.1, rfl⟩
  exact ⟨2 + n, w, left, by rw [List.replicate_add]; exact served.append _ reached⟩

end

/-! A client asks to join a room. -/

def joinValue : Value := ⟨Client.joinData (lit "r") .null, by decide +kernel⟩

def asksJoin : ℕ × Str × Json → Bool
  | (_, event, .obj [(body, .null), (name, .str roomId)]) =>
    event == Protocol.joinRoom && body == lit "options" && name == lit "roomId" && roomId == lit "r"
  | _ => false

theorem asksJoin_sound {frame : ℕ × Str × Json} (h : asksJoin frame = true) :
    frame = (frame.1, Protocol.joinRoom, joinValue.json) := by
  unfold asksJoin at h
  split at h
  · simp only [Bool.and_eq_true, beq_iff_eq] at h
    obtain ⟨⟨⟨rfl, rfl⟩, rfl⟩, rfl⟩ := h
    rfl
  · cases h

def joinPayloadBytes : Str := Sio.buildEventFrame shortest Protocol.joinRoom joinValue.json

/-- The thread of alice is about to dispatch the frame, and the room that it names is there. -/
def dispatchesCheck (s : ServerConfig) : Bool :=
  s.crashed.isNone && s.world.handlersOf (lit "r") == [.gameMessage 0] &&
    (RoomFetcher.findRoomById Text.reference s.world.storage s.world.now (lit "r")).toBool &&
    match s.running with
    | some ⟨_, .dispatch client true payload :: _, none⟩ =>
      client.sessionId == lit "s" && payload == joinPayloadBytes
    | _ => false

theorem dispatchesCheck_sound {s : ServerConfig} (h : dispatchesCheck s = true) :
    ∃ tid client rest snapshot, s.Holding tid (.dispatch client true joinPayloadBytes :: rest) ∧
      s.world.handlersOf (lit "r") = [.gameMessage 0] ∧
      RoomFetcher.findRoomById Text.reference s.world.storage s.world.now (lit "r") = .ok snapshot := by
  simp only [dispatchesCheck, Bool.and_eq_true, beq_iff_eq, Option.isNone_iff_eq_none] at h
  obtain ⟨⟨⟨alive, listens⟩, found⟩, top⟩ := h
  split at top
  · rename_i tid client payload rest running
    simp only [Bool.and_eq_true, beq_iff_eq] at top
    obtain ⟨-, rfl⟩ := top
    cases stored : RoomFetcher.findRoomById Text.reference s.world.storage s.world.now (lit "r") with
    | error x =>
      rw [stored] at found
      cases found
    | ok snapshot => exact ⟨tid, client, rest, snapshot, ⟨alive, running⟩, listens, rfl⟩
  · cases top

theorem requests_understood_join : ∃ (ls : List (Label Answer EnvEvent)) (s : ServerConfig) (n : ℕ)
    (w : World) (tid : Tid) (client : SimpleClient) (left : List Cmd),
    Run (server shortest Text.reference) (fun _ _ => True) ServerConfig.initial ls s ∧
    Run (server shortest Text.reference) (fun _ _ => True) s (List.replicate n (.act .next))
      (s.going w tid (.callHook 0 (.canClientJoin client .null) :: left)) := by
  have asked : (execute (Client.client shortest Text.reference) (fun _ _ => true)
      Client.ClientConfig.initial Client.joinedLate).any (fun c => c.world.sent.any asksJoin) = true := by
    decide +kernel
  have served : (execute (server shortest Text.reference) (fun _ _ => true) ServerConfig.initial
      (startsUp ++ connects alice ++ [.env (.receive (lit "s") true joinPayloadBytes), .take 0,
        .act .next, .take 0])).any dispatchesCheck = true := by
    decide +kernel
  obtain ⟨c, run, asks⟩ := exists_run _ asked
  obtain ⟨frame, sent, join⟩ := List.any_eq_true.1 asks
  rw [asksJoin_sound join] at sent
  obtain ⟨s, run', dispatches⟩ := exists_run _ served
  obtain ⟨tid, client, rest, snapshot, holds, listens, stored⟩ := dispatchesCheck_sound dispatches
  obtain ⟨request, request', event, data, copied, goes⟩ := requests_understood Upgrade.stack
    Upgrade.stack_lawful (run.weaken _ fun _ => trivial) sent (by decide +kernel)
  have concerns : Concerns Text.reference s.world client 0 request' (.canClientJoin client .null) := by
    have other : Protocol.joinRoom ≠ Protocol.createNewRoom ∧ Protocol.joinRoom ≠ sendMessage := by
      decide
    cases copied with
    | create => exact absurd event other.1
    | message => exact absurd event other.2
    | @join roomId options options' copies =>
      have fields : Json.obj [(lit "options", .null), (lit "roomId", .str (lit "r"))] =
        .obj [(lit "options", options), (lit "roomId", .str roomId)] := data
      injection fields with fields
      injection fields with first rest
      injection rest with second
      obtain rfl : Json.null = options := congrArg Prod.snd first
      obtain rfl : lit "r" = roomId := Json.str.inj (congrArg Prod.snd second)
      obtain rfl : options' = .null := copies
      exact .join (by decide) listens stored
  obtain ⟨n, w, left, reached⟩ := (goes s tid client rest holds).2 0 _ concerns
  exact ⟨_, s, n, w, tid, client, left, run'.weaken _ fun _ => trivial, reached⟩

end Blueboat
