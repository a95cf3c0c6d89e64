import Blueboat.ClientMessages
import Blueboat.Survival

set_option autoImplicit false

/-! From a room of the server to the application of the client: what `Client::send` is given, and what
`on_message` is called with. -/
namespace Blueboat.Client

open Protocol LockMachine
open ReceiveLoop (Read bytesOf messages runRecvLoop)
open Upgrade (Stack greeting randomId)

/-- The message that an event of the server carries to the session. -/
def said (sessionId : Str) : Event → Option (Str × Str × Json)
  | .frame s event data =>
    if s = sessionId then (readMessage data).map fun m => (event, m) else none
  | .pong _ => none
  | .hook .. => none

def addressed (sessionId : Str) : Event → Bool
  | .frame s _ _ => s == sessionId
  | .pong s => s == sessionId
  | .hook .. => false

inductive Carries (L : Stack) (sessionId : Str) : Event → Bool × Str → Prop where
  | pong : Carries L sessionId (.pong sessionId) (false, Sio.pongPacket)
  | frame {event : Str} {data : Value} (short : event.length < 2 ^ 32)
      (packs : packable data.json = true) :
      Carries L sessionId (.frame sessionId event data.json)
        (true, Sio.buildEventFrame L.M event data.json)

/-- What the client is handed on one connection, and the messages that the rooms gave to the session: the
greeting and the events of a run go out in order, in any cut and up to any point, and any part of the bytes
arrives. -/
inductive Hears (L : Stack) : List (Bool × Str) → List (Str × Str × Json) → Prop where
  | connection {ls : List (Label Blueboat.Answer Blueboat.EnvEvent)} {c : ServerConfig}
      {client : SimpleClient} {dist : Fin 21 → Fin 64} {gs later : List (Bool × Str)}
      {sections : List (Label Sending.Answer (ℕ × List Sending.Call))}
      {conn : Sending.ConnectionConfig L.W} {reads : List Read}
      (run : Run (server L.M L.J) (fun _ _ => True) ServerConfig.initial ls c)
      (session : client.sessionId = randomId dist) (short : client.id.length < 2 ^ 32)
      (greets : greeting L client = .ok gs)
      (carries : List.Forall₂ (Carries L client.sessionId)
        (c.world.log.filter (addressed client.sessionId)) later)
      (sends : Sending.Run L.W (Sending.ConnectionConfig.initial L.W) sections conn)
      (sent : Sending.data conn.world.accepted <+: gs ++ later)
      (arrived : bytesOf true reads <+: conn.world.wire) :
      Hears L (messages (runRecvLoop true (.initial (Sending.peer L.K L.wants)) reads).calls)
        (c.world.log.filterMap (said client.sessionId))

inductive Sessions (L : Stack) : List (Bool × Str) → List (Str × Str × Json) → Prop where
  | nil : Sessions L [] []
  | snoc {received heard : List (Bool × Str)} {sent said : List (Str × Str × Json)}
      (before : Sessions L received sent) (last : Hears L heard said) :
      Sessions L (received ++ heard) (sent ++ said)

def receipt : Label Answer EnvEvent → Option (Bool × Str)
  | .act (.receive isBinary payload) => some (isBinary, payload)
  | _ => none

def Conveys (told sent : Str × Str × Json) : Prop :=
  told.1 = sent.1 ∧ told.2.1 = sent.2.1 ∧ Copies sent.2.2 told.2.2

def hearing (M : MsgpackC) (J : JsonText) (m : Bool × Str) : Option (Str × Str × Json) :=
  heard M J (.act (.receive m.1 m.2))

theorem heard_eq (M : MsgpackC) (J : JsonText) (l : Label Answer EnvEvent) :
    heard M J l = (receipt l).bind (hearing M J) := by
  cases l with
  | act a => cases a <;> rfl
  | _ => rfl

/-! One frame. -/

theorem hearing_of_parse {M : MsgpackC} {J : JsonText} {m : Bool × Str} {frame : Sio.ParsedFrame}
    (parsed : Sio.parseFrame M J m.1 m.2 = .ok frame) :
    hearing M J m = (readMessage frame.data).map fun read => (frame.event, read) := by
  rw [hearing, heard, parsed]

theorem parseText_data (J : JsonText) (typeChar : UInt8) (rest : Str) :
    (Sio.parseText J typeChar rest).data = .null := by
  unfold Sio.parseText Sio.parseOpen Sio.parseMessage
  repeat' split
  all_goals rfl

theorem hearing_text (M : MsgpackC) (J : JsonText) (payload : Str) :
    hearing M J (false, payload) = none := by
  cases payload with
  | nil => rfl
  | cons first rest =>
    have parsed : Sio.parseFrame M J false (first :: rest) = .ok (Sio.parseText J first rest) := rfl
    rw [hearing_of_parse parsed, parseText_data]
    rfl

/-- A frame of the server is heard as what was said. -/
theorem Reply.conveyed {event : Str} {data data' : Json} (reply : Reply event data)
    (copies : Copies data data') :
    Option.Rel Conveys ((readMessage data').map fun m => (event, m))
      ((readMessage data).map fun m => (event, m)) := by
  cases reply with
  | created requestId roomId =>
    rw [copies_str copies]
    exact .none
  | failed id what =>
    rw [copies_errorMessage copies]
    exact .none
  | message roomId key d =>
    have fields : envelope key d = .obj [(lit "data", d), (lit "key", .str key)] := rfl
    rw [fields] at copies ⊢
    obtain ⟨gs, rfl, d', rest, rfl, copy, y, rest', rfl, value, last⟩ := copies
    obtain rfl := copies_str value
    obtain rfl : rest' = [] := last
    exact .some ⟨rfl, rfl, copy⟩

variable {L : Stack}

theorem Carries.conveyed (law : L.Lawful) {sessionId : Str} {e : Event} {m : Bool × Str}
    (proper : e.Proper) (carries : Carries L sessionId e m) :
    Option.Rel Conveys (hearing L.M L.J m) (said sessionId e) := by
  cases carries with
  | pong => exact .none
  | @frame event data short packs =>
    obtain ⟨f, parsed, kind, named, copies⟩ := Sio.parseFrame_event law.msgpack L.J short packs
      data.ordered
    rw [hearing_of_parse parsed, named, said, if_pos rfl]
    exact Reply.conveyed proper copies

/-- Nothing of the greeting is taken for a message. -/
theorem greeting_unheard (law : L.Lawful) {client : SimpleClient} {dist : Fin 21 → Fin 64}
    (session : client.sessionId = randomId dist) (short : client.id.length < 2 ^ 32)
    {gs : List (Bool × Str)} (greets : greeting L client = .ok gs) :
    ∀ m ∈ gs, hearing L.M L.J m = none := by
  have utf8 : utf8Valid client.sessionId = true := session ▸ Upgrade.utf8Valid_randomId dist
  obtain ⟨opened, ack, set, connected, named, greets', parsed, ⟨acks, connects⟩, sets, kind, event,
    data⟩ := Upgrade.parse_greeting law client utf8 short
  obtain rfl := Except.ok.inj (greets.symm.trans greets')
  intro m mem
  simp only [List.mem_cons, List.not_mem_nil, or_false] at mem
  rcases mem with rfl | rfl | rfl
  · exact hearing_text ..
  · exact hearing_text ..
  · rw [hearing_of_parse sets, data]
    rfl

/-! A connection, and all of them. -/

theorem said_of_not_addressed {sessionId : Str} {e : Event} (other : addressed sessionId e ≠ true) :
    said sessionId e = none := by
  cases e with
  | frame s event data => exact if_neg fun same => other (beq_iff_eq.2 same)
  | pong => rfl
  | hook => rfl

theorem filterMap_addressed (sessionId : Str) (log : List Event) :
    (log.filter (addressed sessionId)).filterMap (said sessionId) = log.filterMap (said sessionId) := by
  induction log with
  | nil => rfl
  | cons e log ih =>
    by_cases here : addressed sessionId e = true
    · rw [List.filter_cons_of_pos here, List.filterMap_cons, List.filterMap_cons, ih]
    · rw [List.filter_cons_of_neg here, List.filterMap_cons, said_of_not_addressed here, ih]

/-- What was handed to the client on a connection is heard in the order in which it was said. -/
theorem Hears.conveyed (law : L.Lawful) {received : List (Bool × Str)} {ms : List (Str × Str × Json)}
    (hears : Hears L received ms) :
    List.SublistForall₂ Conveys (received.filterMap (hearing L.M L.J)) ms := by
  cases hears with
  | @connection ls c client dist gs later sections conn reads run session short greets carries
      sends sent arrived =>
    obtain ⟨part, -⟩ := Upgrade.heard_part law sends arrived
    obtain ⟨n, whole⟩ : ∃ n,
        messages (runRecvLoop true (.initial (Sending.peer L.K L.wants)) reads).calls =
          (gs ++ later).take n := ⟨_, List.prefix_iff_eq_take.1 (part.trans sent)⟩
    have unheard : (gs.take n).filterMap (hearing L.M L.J) = [] :=
      List.filterMap_eq_nil_iff.2 fun m mem =>
        greeting_unheard law session short greets m (List.mem_of_mem_take mem)
    rw [whole, List.take_append, List.filterMap_append, unheard, List.nil_append]
    -- what follows the greeting is cut where the log is
    have proper : ∀ e ∈ c.world.log.filter (addressed client.sessionId), e.Proper := fun e mem =>
      proper_run run e (List.mem_of_mem_filter mem)
    have cut := List.forall₂_take (n - gs.length) ((List.forall₂_and_left _ _).2 ⟨proper, carries⟩)
    refine List.sublistForall₂_iff.2 ⟨((c.world.log.filter (addressed client.sessionId)).take
      (n - gs.length)).filterMap (said client.sessionId), ?_, ?_⟩
    · refine List.rel_filterMap ?_ cut.flip
      exact fun m e carried => carried.2.conveyed law carried.1
    · rw [← filterMap_addressed client.sessionId c.world.log]
      exact (List.take_sublist ..).filterMap _

theorem Sessions.conveyed (law : L.Lawful) {received : List (Bool × Str)}
    {ms : List (Str × Str × Json)} (sessions : Sessions L received ms) :
    List.SublistForall₂ Conveys (received.filterMap (hearing L.M L.J)) ms := by
  induction sessions with
  | nil => exact .nil
  | snoc before last ih =>
    obtain ⟨ks, earlier, sub⟩ := List.sublistForall₂_iff.1 ih
    obtain ⟨ks', later, sub'⟩ := List.sublistForall₂_iff.1 (last.conveyed law)
    rw [List.filterMap_append]
    exact List.sublistForall₂_iff.2 ⟨ks ++ ks', List.rel_append earlier later, sub.append sub'⟩

theorem sublistForall₂_of_sublist {α β : Type} {R : α → β → Prop} {l l' : List α} {m : List β}
    (sub : l.Sublist l') (h : List.SublistForall₂ R l' m) : List.SublistForall₂ R l m := by
  induction h generalizing l with
  | nil =>
    rw [List.sublist_nil.1 sub]
    exact .nil
  | cons first rest ih =>
    cases sub with
    | cons _ sub => exact .cons_right (ih sub)
    | cons_cons _ sub => exact .cons first (ih sub)
  | cons_right rest ih => exact .cons_right (ih sub)

/-- Whatever is lost, at whichever byte, on however many connections: the messages that the application
is called with are copies of messages that rooms of the server gave to its sessions, in the order in which
they gave them, each at most once. -/
theorem rooms_heard_in_order (L : Stack) (law : L.Lawful)
    {ok : ClientConfig → Label Answer EnvEvent → Prop} {ls : List (Label Answer EnvEvent)}
    {c : ClientConfig} (run : Run (client L.M L.J) ok ClientConfig.initial ls c)
    {ms : List (Str × Str × Json)} (sessions : Sessions L (ls.filterMap receipt) ms) :
    List.SublistForall₂ Conveys c.world.told ms := by
  have conveyed := sessions.conveyed law
  rw [List.filterMap_filterMap] at conveyed
  have relays := Relays.run run
  refine sublistForall₂_of_sublist relays.told ?_
  rw [List.filterMap_congr fun l _ => heard_eq L.M L.J l]
  exact conveyed

/-! A visitor enters a room, is sent a message there and hears it. -/

def greetings : List (Bool × Str) :=
  match greeting Upgrade.stack (Upgrade.visitor []) with
  | .ok gs => gs
  | .error _ => []

theorem greets_greetings : greeting Upgrade.stack (Upgrade.visitor []) = .ok greetings := by
  have session : (Upgrade.visitor []).sessionId = randomId fun _ => 36 := rfl
  have short : (Upgrade.visitor []).id.length < 2 ^ 32 :=
    Upgrade.length_agreed Upgrade.Fit.nil fun _ => 10
  obtain ⟨opened, ack, set, -, -, greets, -⟩ := Upgrade.parse_greeting Upgrade.stack_lawful
    (Upgrade.visitor []) (session ▸ Upgrade.utf8Valid_randomId _) short
  rw [greetings, greets]

def helloData : Value := ⟨envelope (lit "a") .null, by decide +kernel⟩

def hello : Str := Sio.buildEventFrame shortest (roomEvent (lit "r")) helloData.json

def speech : List (Bool × Str) := greetings ++ [(true, welcomed), (true, hello)]

def saysHello : List (Label Blueboat.Answer Blueboat.EnvEvent) :=
  startsUp ++ Blueboat.connects (Upgrade.visitor []) ++ joinsRoom (Upgrade.visitor []).sessionId ++
    receives (Upgrade.visitor []).sessionId (messageFrame (lit "r")) ++
    (steps 4 ++ [Blueboat.Answer.send (Upgrade.visitor []).sessionId (lit "a") .null]).map .act

def saysHelloCheck (c : ServerConfig) : Bool :=
  match c.world.log.filter (addressed (Upgrade.visitor []).sessionId) with
  | [e, e'] => isMessage (Upgrade.visitor []).sessionId joinedRoom e &&
      isMessage (Upgrade.visitor []).sessionId (lit "a") e'
  | _ => false

theorem saysHelloCheck_sound {c : ServerConfig} (h : saysHelloCheck c = true) :
    c.world.log.filter (addressed (Upgrade.visitor []).sessionId) =
      [.frame (Upgrade.visitor []).sessionId (roomEvent (lit "r")) welcomeData.json,
        .frame (Upgrade.visitor []).sessionId (roomEvent (lit "r")) helloData.json] := by
  unfold saysHelloCheck at h
  split at h
  · rename_i e e' all
    obtain ⟨first, second⟩ := Bool.and_eq_true_iff.1 h
    rw [all, isMessage_sound first, isMessage_sound second]
    rfl
  · cases h

def hearsHello : List (Label Answer EnvEvent) :=
  turn 0 .connected ++ turn 0 .next ++ greetings.flatMap (fun m => turn 0 (.receive m.1 m.2)) ++
    turn 0 .next ++ turn 0 .next ++ turn 0 .ret ++ turn 0 .next ++ turn 0 .next ++ turn 0 .next ++
    turn 0 .ret ++ turn 0 .next ++ joins 1 ++ turn 1 .next ++ turn 0 (.receive true welcomed) ++
    turn 1 .next ++ turn 1 .next ++ turn 1 .ret ++ turn 1 (.receive true hello) ++ turn 1 .next ++
    turn 1 .next

theorem said_hello : ∃ ms, Hears Upgrade.stack speech ms := by
  have found : (execute (server shortest Text.reference) (fun _ _ => true) ServerConfig.initial
      saysHello).any saysHelloCheck = true := by
    decide +kernel
  obtain ⟨c, run, check⟩ := exists_run _ found
  have log := saysHelloCheck_sound check
  have carries : List.Forall₂ (Carries Upgrade.stack (Upgrade.visitor []).sessionId)
      (c.world.log.filter (addressed (Upgrade.visitor []).sessionId))
      [(true, welcomed), (true, hello)] := by
    rw [log]
    exact .cons (.frame (by decide) (by decide +kernel))
      (.cons (.frame (by decide) (by decide +kernel)) .nil)
  have sends : (execute (Sending.connection Sending.server) (fun _ _ => true)
      (Sending.ConnectionConfig.initial Sending.server) (Upgrade.sendGreeting speech)).any
        (Upgrade.greetedCheck speech) = true := by
    decide +kernel
  obtain ⟨conn, sections, check⟩ := Sending.run_of_check sends
  obtain ⟨free, fine, sent, -⟩ := Upgrade.greetedCheck_sound check
  have read : bytesOf true [Read.chunk conn.world.wire] = conn.world.wire := by
    rw [bytesOf, bytesOf]
    split
    · rename_i none
      exact none.symm
    · exact List.append_nil _
  have whole : bytesOf true [Read.chunk conn.world.wire] <+: conn.world.wire :=
    ⟨[], by rw [read, List.append_nil]⟩
  obtain ⟨-, all⟩ := Upgrade.heard_part Upgrade.stack_lawful sections whole
  rw [← sent, ← all free fine read]
  have session : (Upgrade.visitor []).sessionId = randomId fun _ => 36 := rfl
  have short : (Upgrade.visitor []).id.length < 2 ^ 32 :=
    Upgrade.length_agreed Upgrade.Fit.nil fun _ => 10
  exact ⟨_, .connection (run.weaken _ fun _ => trivial) session short greets_greetings carries sections
    ⟨[], by rw [sent, List.append_nil]; rfl⟩ whole⟩

theorem rooms_heard_in_order_hello : ∃ c ms, Run (client shortest Text.reference) (fun _ _ => True)
    ClientConfig.initial hearsHello c ∧ Sessions Upgrade.stack (hearsHello.filterMap receipt) ms ∧
      c.world.told.map (fun m => m.2.1) = [lit "a"] ∧
      List.SublistForall₂ Conveys c.world.told ms := by
  have found : (execute (client shortest Text.reference) (fun _ _ => true) ClientConfig.initial
      hearsHello).any (fun c => c.world.told.map (fun m => m.2.1) = [lit "a"]) = true := by
    decide +kernel
  obtain ⟨c, run, told⟩ := exists_run _ found
  have run' : Run (client Upgrade.stack.M Upgrade.stack.J) (fun _ _ => True) _ _ c :=
    run.weaken _ fun _ => trivial
  have receipts : (hearsHello.filterMap receipt == speech) = true := by decide +kernel
  obtain ⟨ms, hears⟩ := said_hello
  have sessions : Sessions Upgrade.stack (hearsHello.filterMap receipt) ([] ++ ms) := by
    rw [beq_iff_eq.1 receipts, ← List.nil_append speech]
    exact .snoc .nil hears
  exact ⟨c, _, run', sessions, of_decide_eq_true told,
    rooms_heard_in_order Upgrade.stack Upgrade.stack_lawful run' sessions⟩

end Blueboat.Client
