import Blueboat.KeepAlive
import Blueboat.Library.Base64
import Blueboat.Outgoing
import Blueboat.Responses
import Blueboat.Sending

set_option autoImplicit false

/-! A connection from the client's request to its id: `connection_manager_loop` of the client,
`handle_connection` of the server, `ws_handshake.cpp` and `random_id.cpp`. -/
namespace Blueboat.Upgrade

open Http Handshake Protocol LockMachine Framing
open KeepAlive (pingIntervalMs pingTimeoutMs)
open ReceiveLoop (Message Read bytesOf messages runRecvLoop)
open Responses (Legible Sink writeResponse)

def WS_GUID : Str := lit "258EAFA5-E914-47DA-95CA-C5AB0DC85B11"

def computeAccept (sha1 : Str → Str) (clientKey : Str) : Str :=
  Base64.encode (sha1 (clientKey ++ WS_GUID))

/-- The bytes are those of `std::random_device`. -/
def generateClientKey (bytes : Fin 16 → UInt8) : Str := Base64.encode (List.ofFn bytes)

def alphabet : Str := lit "0123456789ABCDEFGHIJKLMNOPQRSTUVWXYZabcdefghijklmnopqrstuvwxyz_-"

/-- `random_id` with its default length. -/
def randomId (dist : Fin 21 → Fin 64) : Str := List.ofFn fun i => alphabet.getD (dist i) 0

def switchingStart : Str :=
  lit "HTTP/1.1 101 Switching Protocols\r\nUpgrade: websocket\r\n" ++
    lit "Connection: Upgrade\r\nSec-WebSocket-Accept: "

def switchingProtocols (accept : Str) : Str := switchingStart ++ accept ++ lit "\r\n\r\n"

/-- SHA-1, the two formats of values, wslay with its frames, and how much the receiving side asks for. -/
structure Stack where
  sha1 : Str → Str
  M : MsgpackC
  J : JsonText
  W : Sending.Wslay
  K : Codec UInt8 Message
  wants : K.decoder.State → ℕ

/-- What is relied on; a digest of SHA-1 has twenty bytes. -/
structure Stack.Lawful (L : Stack) : Prop where
  digest : ∀ s, (L.sha1 s).length = 20
  msgpack : L.M.Lawful
  json : L.J.Lawful
  wslay : L.W.Lawful L.K
  codec : L.K.Lawful
  asks : ∀ s, 0 < L.wants s

/-! The client. -/

structure Identity where
  id : Str
  sessionId : Str
  pingIntervalMs : Int32

def readResponseHeaders (s : Socket) : Str × Socket :=
  match readHead maxHeaderSize [] s with
  | (none, s) => ([], s)
  | (some buf, s) => (buf, s)

def accepted (responseHeaders : Str) : Bool :=
  (lit "HTTP/1.1 101").isPrefixOf responseHeaders || (lit "HTTP/1.0 101").isPrefixOf responseHeaders

section
variable (L : Stack)

/-- `Client::handle_ws_payload`, as far as these fields go. -/
def handleWsPayload (c : Identity) (isBinary : Bool) (payload : Str) : Except Exn Identity :=
  match Sio.parseFrame L.M L.J isBinary payload with
  | .error x => .error x
  | .ok frame =>
    if frame.kind = .Open then
      .ok { c with sessionId := frame.sid, pingIntervalMs := frame.pingIntervalMs }
    else if frame.kind ≠ .Event then .ok c
    else if frame.event = clientIdSet then
      match frame.data.getString with
      | .error x => .error x
      | .ok id => .ok { c with id := id }
    else .ok c

def handleAll : Identity → List (Bool × Str) → Identity
  | c, [] => c
  | c, m :: ms =>
    match handleWsPayload L c m.1 m.2 with
    | .error _ => c
    | .ok c => handleAll c ms

/-- One round of the loop, from the response on; `reads` are those of the receive loop. -/
def connect (c : Identity) (s : Socket) (reads : List Read) : Identity :=
  if accepted (readResponseHeaders s).1 = true then
    handleAll L { c with pingIntervalMs := 25000 }
      (messages (runRecvLoop true (.initial (Sending.peer L.K L.wants)) reads).calls)
  else c

/-! The server. -/

def originOf (s : Socket) : Str :=
  ((readRequest s).1.bind fun request => request.headers.lookup (lit "origin")).getD []

def clientInfo (id sessionId ip : Str) (s : Socket) : SimpleClient :=
  ⟨id, sessionId, originOf s, ip⟩

def greeting (client : SimpleClient) : Except Exn (List (Bool × Str)) :=
  match Sio.buildOpenFrame L.J client.sessionId pingIntervalMs pingTimeoutMs,
    Sio.buildConnectAckFrame L.J with
  | .error x, _ => .error x
  | .ok _, .error x => .error x
  | .ok opened, .ok ack => .ok [(false, opened), (false, ack),
      (true, Sio.buildEventFrame L.M clientIdSet (.str client.id))]

/-- What follows the greeting: answers to pings, and frames that some run of the server sends to the
session. -/
inductive Follows (sessionId : Str) : Bool × Str → Prop where
  | pong : Follows sessionId (false, Sio.pongPacket)
  | event {ls : List (Label Answer EnvEvent)} {c : ServerConfig} {event : Str} {data : Value}
      (run : Run (server L.M L.J) (fun _ _ => True) ServerConfig.initial ls c)
      (sent : .frame sessionId event data.json ∈ c.world.log) (short : event.length < 2 ^ 32)
      (packs : packable data.json = true) :
      Follows sessionId (true, Sio.buildEventFrame L.M event data.json)

/-- The client that `handle_connection` enters for a connection, and the bytes it has written: it stays
silent, it answers without an upgrade, or it upgrades. The head is written by one call of `write`, which
takes all of it or fails. -/
inductive Wire (s : Socket) : Option SimpleClient → Str → Prop where
  | silent : Wire s none []
  | refused {surroundings : Admin.Surroundings} {admins : Dict Str} {w : World} {random : Str}
      {r : Admin.Response} {results : ℕ → ℤ}
      (answered : Responses.answer L.J surroundings admins w (handleConnection random s) =
        some (.ok r)) :
      Wire s none (writeResponse (Sink.fresh results) r).written
  | upgraded {dist dist' : Fin 21 → Fin 64} {key id ip : Str} {gs later : List (Bool × Str)}
      {ls : List (Label Sending.Answer (ℕ × List Sending.Call))} {c : Sending.ConnectionConfig L.W}
      (outcome : handleConnection (randomId dist) s = .upgraded key id)
      (greets : greeting L (clientInfo id (randomId dist') ip s) = .ok gs)
      (follows : ∀ m ∈ later, Follows L (randomId dist') m)
      (run : Sending.Run L.W (Sending.ConnectionConfig.initial L.W) ls c)
      (sent : Sending.data c.world.accepted <+: gs ++ later) :
      Wire s (some (clientInfo id (randomId dist') ip s))
        (switchingProtocols (computeAccept L.sha1 key) ++ c.world.wire)

/-- One round of the client's loop: nothing reaches a server, or a part of the request does and a part of
what the server writes comes back. -/
inductive Round (host : Str) (before : Identity) : Option SimpleClient → Identity → Prop where
  | unreached : Round host before none before
  | answered {bytes : Fin 16 → UInt8} {s t : Socket} {entered : Option SimpleClient} {out : Str}
      {reads : List Read}
      (asked : s.rest <+: request host (generateClientKey bytes) before.id)
      (wire : Wire L s entered out) (arrived : t.rest <+: out)
      (read : bytesOf true reads <+: (readResponseHeaders t).2.rest) :
      Round host before entered (connect L before t reads)

inductive Rounds (host : Str) (start : Identity) : List (Option SimpleClient) → Identity → Prop where
  | nil : Rounds host start [] start
  | snoc {entered : List (Option SimpleClient)} {e : Option SimpleClient} {c c' : Identity}
      (before : Rounds host start entered c) (last : Round L host c e c') :
      Rounds host start (entered ++ [e]) c'

end

/-! Keys and ids. -/

theorem value_encode (s : Str) : ∀ b ∈ Base64.encode s, Base64.value b ≠ none :=
  Base64.value_of_decodeGroups (Base64.decodeGroups_encode s)

theorem outside_encode {b : UInt8} (outside : Base64.value b = none) (s : Str) :
    b ∉ Base64.encode s := fun mem => value_encode s b mem outside

theorem oneLine_encode (s : Str) : OneLine (Base64.encode s) :=
  ⟨outside_encode rfl s, outside_encode rfl s⟩

theorem value_trailing : ∀ b ∈ trailing, Base64.value b = none := by
  have none : trailing.all (fun b => (Base64.value b).isNone) = true := rfl
  exact fun b mem => Option.isNone_iff_eq_none.1 (List.all_eq_true.1 none b mem)

theorem length_generateClientKey (bytes : Fin 16 → UInt8) :
    (generateClientKey bytes).length = 24 := by
  rw [generateClientKey, Base64.length_encode, List.length_ofFn]

theorem legible_generateClientKey (bytes : Fin 16 → UInt8) : Legible (generateClientKey bytes) where
  some none := by
    have length := length_generateClientKey bytes
    rw [none] at length
    cases length
  oneLine := oneLine_encode _
  trimmed := by
    have kept : ∀ b ∈ generateClientKey bytes, b ∉ trailing := fun b mem outside =>
      value_encode _ b mem (value_trailing b outside)
    refine ⟨fun b first blank => ?_, fun b last => kept b (List.mem_of_getLast? last)⟩
    exact kept b (List.mem_of_mem_head? first) (mem_trailing blank)
  short := by
    rw [length_generateClientKey]
    decide

theorem length_alphabet : alphabet.length = 64 := by decide +kernel

theorem alphabet_plain :
    alphabet.all (fun b => !isSpace b && b != 0x26 && decide (b < 0x80)) = true := by
  decide +kernel

theorem mem_randomId {dist : Fin 21 → Fin 64} {b : UInt8} (h : b ∈ randomId dist) :
    isSpace b = false ∧ b ≠ 0x26 ∧ b < 0x80 := by
  obtain ⟨i, rfl⟩ := List.mem_ofFn.1 h
  have inside : (dist i : ℕ) < alphabet.length := by
    rw [length_alphabet]
    exact (dist i).isLt
  rw [List.getD_eq_getElem?_getD, List.getElem?_eq_getElem inside, Option.getD_some]
  have plain := List.all_eq_true.1 alphabet_plain _ (List.getElem_mem inside)
  simpa [and_assoc] using plain

theorem length_randomId (dist : Fin 21 → Fin 64) : (randomId dist).length = 21 := List.length_ofFn

theorem plain_randomId (dist : Fin 21 → Fin 64) : Plain (randomId dist) := fun _ mem =>
  ⟨(mem_randomId mem).1, (mem_randomId mem).2.1⟩

theorem utf8Valid_ascii (s : Str) (ascii : ∀ b ∈ s, b < 0x80) : utf8Valid s = true := by
  induction s using utf8Valid.induct with
  | case1 => rfl
  | case2 a => simpa [utf8Valid] using ascii a (.head _)
  | case3 a b first ih =>
    rw [utf8Valid, if_pos first]
    exact ih fun c mem => ascii c (.tail _ mem)
  | case4 a b other => exact absurd (ascii a (.head _)) other
  | case5 a b c first ih =>
    rw [utf8Valid, if_pos first]
    exact ih fun d mem => ascii d (.tail _ mem)
  | case6 a b c other => exact absurd (ascii a (.head _)) other
  | case7 a b c other => exact absurd (ascii a (.head _)) other
  | case8 a b c d s first ih =>
    rw [utf8Valid, if_pos first]
    exact ih fun e mem => ascii e (.tail _ mem)
  | case9 a b c d s other => exact absurd (ascii a (.head _)) other
  | case10 a b c d s other => exact absurd (ascii a (.head _)) other
  | case11 a b c d s other => exact absurd (ascii a (.head _)) other

theorem utf8Valid_randomId (dist : Fin 21 → Fin 64) : utf8Valid (randomId dist) = true :=
  utf8Valid_ascii _ fun _ mem => (mem_randomId mem).2.2

/-! The server reads the request. -/

/-- An id that a connection can carry. -/
structure Fit (id : Str) : Prop where
  plain : Plain id
  short : id.length ≤ 1000

theorem Fit.nil : Fit [] := ⟨fun _ mem => absurd mem List.not_mem_nil, Nat.zero_le _⟩

theorem Fit.randomId (dist : Fin 21 → Fin 64) : Fit (randomId dist) :=
  ⟨plain_randomId dist, by rw [length_randomId]; decide⟩

theorem Fit.oneLine {id : Str} (h : Fit id) : OneLine id :=
  oneLine_of_plain fun b mem => (h.plain b mem).1

def agreed (id random : Str) : Str := if id = [] then random else id

theorem length_agreed {id : Str} (fit : Fit id) (dist : Fin 21 → Fin 64) :
    (agreed id (randomId dist)).length < 2 ^ 32 := by
  have short := fit.short
  rw [agreed]
  split
  · rw [length_randomId]
    decide
  · omega

section
variable {host id : Str} {bytes : Fin 16 → UInt8}

theorem length_request (short : host.length ≤ 60000) (fit : Fit id) :
    (request host (generateClientKey bytes) id).length ≤ maxHeaderSize := by
  have key := length_generateClientKey bytes
  have idShort := fit.short
  have fixed : (lit "GET ").length ≤ 100 ∧
      (lit "/blueboat/?EIO=3&transport=websocket").length ≤ 100 ∧ (lit "&id=").length ≤ 100 ∧
      (lit " HTTP/1.1\r\nHost: ").length ≤ 100 ∧
      (lit "\r\nUpgrade: websocket\r\nConnection: Upgrade\r\nSec-WebSocket-Key: ").length ≤ 100 ∧
      (lit "\r\nSec-WebSocket-Version: 13\r\n\r\n").length ≤ 100 := by decide +kernel
  have target : (path id).length ≤ 200 + id.length := by
    rw [path, List.length_append]
    split
    · rw [List.length_nil]
      omega
    · rw [List.length_append]
      omega
  rw [request]
  simp only [List.length_append]
  unfold maxHeaderSize
  omega

theorem trim_key : trim (0x20 :: generateClientKey bytes) = generateClientKey bytes :=
  Responses.trim_trimmed (legible_generateClientKey bytes)

/-- The head is the client's, with its own key and the agreed id. -/
theorem handleConnection_request (hostLine : OneLine host) (fit : Fit id) {s : Socket}
    {body : Str} (read : (readRequest s).1 =
      some (requestOf (request host (generateClientKey bytes) id) body)) (random : Str) :
    handleConnection random s = .upgraded (generateClientKey bytes) (agreed id random) := by
  obtain ⟨method, path, query, upgrade, wsKey⟩ :=
    requestOf_request hostLine (oneLine_encode _) fit.plain body
  have token : headerContainsToken (lit "websocket") (lit "websocket") = true := by decide
  have key : trim (0x20 :: Base64.encode (List.ofFn bytes)) = generateClientKey bytes := trim_key
  rw [generateClientKey] at read ⊢
  rw [handleConnection, read]
  dsimp only
  rw [path, method, upgrade, wsKey, clientId, query, key, agreed, generateClientKey]
  by_cases empty : id = []
  · rw [if_pos empty, if_pos empty]
    rfl
  · rw [if_neg empty, if_neg empty]
    dsimp only
    rw [if_neg empty]
    rfl

/-- A part of the request gives nothing; all of it is upgraded. -/
theorem handleConnection_part (hostLine : OneLine host) (fit : Fit id) {s : Socket}
    (asked : s.rest <+: request host (generateClientKey bytes) id) (random : Str) :
    handleConnection random s = .closed ∨
      handleConnection random s = .upgraded (generateClientKey bytes) (agreed id random) := by
  have whole := isHead_request hostLine (oneLine_encode (List.ofFn bytes)) fit.oneLine
  rcases readRequest_spec s with ⟨head, rest, n, s', accepts, read, -⟩ | ⟨fails, -⟩
  · have begins : head <+: request host (generateClientKey bytes) id :=
      (accepts.whole ▸ List.prefix_append head rest : head <+: s.rest).trans asked
    obtain rfl := head_unique begins List.prefix_rfl accepts.ends whole
    exact .inr (handleConnection_request hostLine fit (by rw [read]) random)
  · rw [handleConnection, fails]
    exact .inl rfl

theorem handleConnection_whole (hostLine : OneLine host) (short : host.length ≤ 60000) (fit : Fit id)
    {s : Socket} (asked : s.rest = request host (generateClientKey bytes) id) (random : Str) :
    handleConnection random s = .upgraded (generateClientKey bytes) (agreed id random) := by
  have fits : (request host (generateClientKey bytes) id).length ≤ maxHeaderSize :=
    length_request short fit
  have accepts := accepts_request hostLine (oneLine_encode (List.ofFn bytes)) fit.plain fits []
  rw [List.append_nil] at accepts
  change Accepts (request host (generateClientKey bytes) id) _ _ _ at accepts
  rw [← asked] at accepts
  rcases readRequest_spec s with ⟨head, rest, n, s', accepts', read, -⟩ | ⟨-, none⟩
  · obtain ⟨rfl, rfl, rfl⟩ := accepts_unique accepts accepts'
    exact handleConnection_request hostLine fit (by rw [read]; rfl) random
  · exact absurd accepts (none _ _ _)

end

/-! The client reads the head. -/

def switchingLines (accept : Str) : List Str :=
  [lit "HTTP/1.1 101 Switching Protocols", lit "Upgrade: websocket", lit "Connection: Upgrade",
    lit "Sec-WebSocket-Accept: " ++ accept]

theorem switchingProtocols_eq (accept : Str) :
    switchingProtocols accept = head (switchingLines accept) := by
  have start : switchingStart = lit "HTTP/1.1 101 Switching Protocols" ++ CR :: LF ::
      (lit "Upgrade: websocket" ++ CR :: LF :: (lit "Connection: Upgrade" ++ CR :: LF ::
        lit "Sec-WebSocket-Accept: ")) := by
    simp [switchingStart, lit, CR, LF]
  have last : lit "\r\n\r\n" = CR :: LF :: head [] := by
    simp [lit, head, CR, LF]
  rw [switchingProtocols, start, last, switchingLines]
  simp only [head_cons, List.append_assoc, List.cons_append]

theorem isHead_switchingProtocols {accept : Str} (h : OneLine accept) :
    IsHead (switchingProtocols accept) := by
  have fixed : OneLine (lit "HTTP/1.1 101 Switching Protocols") ∧
      OneLine (lit "Upgrade: websocket") ∧ OneLine (lit "Connection: Upgrade") ∧
      OneLine (lit "Sec-WebSocket-Accept: ") := by
    refine ⟨⟨?_, ?_⟩, ⟨?_, ?_⟩, ⟨?_, ?_⟩, ⟨?_, ?_⟩⟩ <;> decide
  obtain ⟨status, upgrade, connection, name⟩ := fixed
  rw [switchingProtocols_eq]
  refine isHead_head (List.cons_ne_nil _ _) fun line mem => ?_
  simp only [switchingLines, List.mem_cons, List.not_mem_nil, or_false] at mem
  rcases mem with rfl | rfl | rfl | rfl
  · exact ⟨status, by decide⟩
  · exact ⟨upgrade, by decide⟩
  · exact ⟨connection, by decide⟩
  · exact ⟨name.append h, by simp [lit]⟩

theorem accepted_switchingProtocols (accept : Str) : accepted (switchingProtocols accept) = true := by
  have start : switchingStart = lit "HTTP/1.1 101" ++
      (lit " Switching Protocols\r\nUpgrade: websocket\r\n" ++
        lit "Connection: Upgrade\r\nSec-WebSocket-Accept: ") := by
    simp [switchingStart, lit]
  have begins : lit "HTTP/1.1 101" <+: switchingProtocols accept := by
    rw [switchingProtocols, start]
    simp only [List.append_assoc]
    exact List.prefix_append ..
  rw [accepted, List.isPrefixOf_iff_prefix.2 begins, Bool.true_or]

theorem readResponseHeaders_spec {accept wire : Str} (h : OneLine accept) {t : Socket}
    (arrived : t.rest <+: switchingProtocols accept ++ wire) :
    ((readResponseHeaders t).1 = switchingProtocols accept ∧
      t.rest = switchingProtocols accept ++ (readResponseHeaders t).2.rest) ∨
    ((readResponseHeaders t).1 = [] ∧ (switchingProtocols accept <+: t.rest →
      maxHeaderSize < (switchingProtocols accept).length)) := by
  have start : ∀ shorter, shorter <+: ([] : Str) → ¬ doubleCrlf <:+ shorter := fun shorter nothing =>
    by rw [List.prefix_nil.1 nothing]; decide
  have ends := isHead_switchingProtocols h
  rw [readResponseHeaders]
  rcases readHead_spec maxHeaderSize [] t start with ⟨head, t', read, split, ends', -⟩ | ⟨fails, long⟩
  · rw [List.nil_append] at split
    have begins : head <+: t.rest := ⟨t'.rest, split⟩
    obtain rfl := head_unique (begins.trans arrived) (List.prefix_append _ wire) ends' ends
    rw [read]
    exact .inl ⟨rfl, split.symm⟩
  · cases result : readHead maxHeaderSize [] t with
    | mk found t' =>
      rw [result] at fails
      obtain rfl : found = none := fails
      refine .inr ⟨rfl, fun inside => ?_⟩
      have over_ := long _ (by rw [List.nil_append]; exact inside) ends
      rwa [List.length_nil, Nat.zero_add] at over_

theorem readResponseHeaders_nil {t : Socket} (empty : t.rest = []) : (readResponseHeaders t).1 = [] := by
  have first : readHead maxHeaderSize [] t = (none, t) := by
    rw [maxHeaderSize, readHead, read_nil empty]
  rw [readResponseHeaders, first]

theorem connect_rejected {L : Stack} {t : Socket} (none : (readResponseHeaders t).1 = []) (c : Identity)
    (reads : List Read) : connect L c t reads = c := by
  rw [connect, none]
  rfl

/-! The client takes the greeting and what follows. -/

section
variable {L : Stack} (law : L.Lawful)
include law

theorem handle_event {c : Identity} {event : Str} {data : Json} (short : event.length < 2 ^ 32)
    (packs : packable data = true) (ordered : data.ordered = true) (other : event ≠ clientIdSet) :
    handleWsPayload L c true (Sio.buildEventFrame L.M event data) = .ok c := by
  obtain ⟨f, parsed, kind, named, -⟩ := Sio.parseFrame_event law.msgpack L.J short packs ordered
  rw [handleWsPayload, parsed]
  dsimp only
  rw [kind, named, if_neg (by decide), if_neg (by simp), if_neg other]

theorem handle_follows {sessionId : Str} {m : Bool × Str} (h : Follows L sessionId m)
    (c : Identity) : handleWsPayload L c m.1 m.2 = .ok c := by
  cases h with
  | pong => rfl
  | event run sent short packs =>
    rename_i data
    exact handle_event law short packs data.ordered (Reply.event_ne (proper_run run _ sent))

theorem handleAll_follows {sessionId : Str} {ms : List (Bool × Str)}
    (h : ∀ m ∈ ms, Follows L sessionId m) (c : Identity) : handleAll L c ms = c := by
  induction ms with
  | nil => rfl
  | cons m ms ih =>
    rw [handleAll, handle_follows law (h m (.head _)) c]
    exact ih fun m mem => h m (.tail _ mem)

/-- The greeting, as it is parsed. -/
theorem parse_greeting (client : SimpleClient) (utf8 : utf8Valid client.sessionId = true)
    (short : client.id.length < 2 ^ 32) :
    ∃ opened ack set connected named, greeting L client = .ok [(false, opened), (false, ack), (true, set)] ∧
      Sio.parseFrame L.M L.J false opened =
        .ok (Sio.openFrame client.sessionId pingIntervalMs pingTimeoutMs) ∧
      (Sio.parseFrame L.M L.J false ack = .ok connected ∧ connected.kind = .Connect) ∧
      Sio.parseFrame L.M L.J true set = .ok named ∧ named.kind = .Event ∧
      named.event = clientIdSet ∧ named.data = .str client.id := by
  obtain ⟨opened, built, parsed⟩ := Sio.parseFrame_open (M := L.M) law.json utf8
    pingIntervalMs pingTimeoutMs
  obtain ⟨ack, text, acked, acknowledged, packet, read, type⟩ := Sio.parseFrame_ack (M := L.M) law.json
    Sio.CONNECT
  have packs : packable (.str client.id) = true := by simpa [packable] using short
  have brief : clientIdSet.length < 2 ^ 32 := by decide
  obtain ⟨f, set, kind, event, copy⟩ := Sio.parseFrame_event law.msgpack L.J brief packs rfl
  refine ⟨opened, ack, Sio.buildEventFrame L.M clientIdSet (.str client.id), _, f, ?_, parsed,
    ⟨acknowledged, ?_⟩, set, kind, event, copy⟩
  · rw [greeting, built, Sio.buildConnectAckFrame, acked]
  · rw [Sio.parseMessage, read]
    dsimp only
    rw [type]
    rfl

/-- What each message of the greeting does. -/
theorem handle_greeting (client : SimpleClient) (utf8 : utf8Valid client.sessionId = true)
    (short : client.id.length < 2 ^ 32) :
    ∃ opened ack set, greeting L client = .ok [opened, ack, set] ∧
      (∀ c, handleWsPayload L c opened.1 opened.2 =
        .ok { c with sessionId := client.sessionId, pingIntervalMs := 25000 }) ∧
      (∀ c, handleWsPayload L c ack.1 ack.2 = .ok c) ∧
      ∀ c, handleWsPayload L c set.1 set.2 = .ok { c with id := client.id } := by
  obtain ⟨opened, ack, set, connected, named, greets, parsed, ⟨acks, connects⟩, sets, kind, event, data⟩ :=
    parse_greeting law client utf8 short
  refine ⟨(false, opened), (false, ack), (true, set), greets, fun c => ?_, fun c => ?_, fun c => ?_⟩
  · rw [handleWsPayload, parsed]
    rfl
  · rw [handleWsPayload, acks]
    dsimp only
    rw [connects, if_neg (by decide), if_pos (by decide)]
  · rw [handleWsPayload, sets]
    dsimp only
    rw [kind, event, data, if_neg (by decide), if_neg (by simp), if_pos rfl]
    rfl

/-- A part of the greeting and of what follows leaves the id or sets it to the client's. -/
theorem handleAll_part (client : SimpleClient) {dist : Fin 21 → Fin 64}
    (session : client.sessionId = randomId dist) (short : client.id.length < 2 ^ 32)
    {gs later : List (Bool × Str)} (greets : greeting L client = .ok gs)
    (follows : ∀ m ∈ later, Follows L (randomId dist) m) {ms : List (Bool × Str)}
    (part : ms <+: gs ++ later) (c : Identity) :
    ((handleAll L c ms).id = c.id ∨ (handleAll L c ms).id = client.id) ∧
      (ms = gs ++ later → handleAll L c ms = ⟨client.id, client.sessionId, 25000⟩) := by
  have utf8 : utf8Valid client.sessionId = true := session ▸ utf8Valid_randomId dist
  obtain ⟨opened, ack, set, greets', opens, acks, sets⟩ := handle_greeting law client utf8 short
  obtain rfl : gs = [opened, ack, set] := Except.ok.inj (greets.symm.trans greets')
  -- how far into the greeting the messages go
  rcases ms with _ | ⟨m₁, _ | ⟨m₂, _ | ⟨m₃, rest⟩⟩⟩
  · exact ⟨.inl rfl, fun all => by cases all⟩
  · obtain ⟨rfl, -⟩ := List.cons_prefix_cons.1 part
    rw [handleAll, opens]
    exact ⟨.inl rfl, fun all => by cases all⟩
  · obtain ⟨rfl, after⟩ := List.cons_prefix_cons.1 part
    obtain ⟨rfl, -⟩ := List.cons_prefix_cons.1 after
    rw [handleAll, opens]
    dsimp only
    rw [handleAll, acks]
    exact ⟨.inl rfl, fun all => by cases all⟩
  · obtain ⟨rfl, after⟩ := List.cons_prefix_cons.1 part
    obtain ⟨rfl, after'⟩ := List.cons_prefix_cons.1 after
    obtain ⟨rfl, further⟩ := List.cons_prefix_cons.1 after'
    have ordinary : ∀ m ∈ rest, Follows L (randomId dist) m := fun m mem =>
      follows m (further.subset mem)
    rw [handleAll, opens]
    dsimp only
    rw [handleAll, acks]
    dsimp only
    rw [handleAll, sets]
    dsimp only
    rw [handleAll_follows law ordinary]
    exact ⟨.inr rfl, fun _ => rfl⟩

/-- What the client reads after the head begins what the server has sent. -/
theorem heard_part {ls : List (Label Sending.Answer (ℕ × List Sending.Call))}
    {c : Sending.ConnectionConfig L.W}
    (run : Sending.Run L.W (Sending.ConnectionConfig.initial L.W) ls c) {reads : List Read}
    (read : bytesOf true reads <+: c.world.wire) :
    messages (runRecvLoop true (.initial (Sending.peer L.K L.wants)) reads).calls <+:
        Sending.data c.world.accepted ∧
      (c.running = none → c.world.failed = false → bytesOf true reads = c.world.wire →
        messages (runRecvLoop true (.initial (Sending.peer L.K L.wants)) reads).calls =
          Sending.data c.world.accepted) := by
  obtain ⟨k, heard, complete⟩ := run.heard law.wslay law.codec law.asks read
  refine ⟨heard ▸ Sending.data_take k _, fun free fine whole => ?_⟩
  rw [heard, complete free fine whole]

theorem connect_part {host : Str} (hostLine : OneLine host) {c : Identity} (fit : Fit c.id)
    {bytes : Fin 16 → UInt8} {s t : Socket} {entered : Option SimpleClient} {out : Str}
    {reads : List Read} (asked : s.rest <+: request host (generateClientKey bytes) c.id)
    (wire : Wire L s entered out) (arrived : t.rest <+: out)
    (read : bytesOf true reads <+: (readResponseHeaders t).2.rest) :
    ((connect L c t reads).id = c.id ∨
      ∃ client, entered = some client ∧ (connect L c t reads).id = client.id) ∧
    ∀ client, entered = some client → ∃ dist, client.id = agreed c.id (randomId dist) := by
  have asks := handleConnection_part hostLine fit asked
  cases wire with
  | silent =>
    rw [connect_rejected (readResponseHeaders_nil (List.prefix_nil.1 arrived))]
    exact ⟨.inl rfl, fun client entered => by cases entered⟩
  | refused answered =>
    -- the client's request is not refused
    rcases asks _ with closed | upgraded
    · rw [closed] at answered
      cases answered
    · rw [upgraded] at answered
      cases answered
  | upgraded outcome greets follows run sent =>
    rename_i dist dist' key id ip gs later ls conn
    obtain ⟨rfl, rfl⟩ : generateClientKey bytes = key ∧ agreed c.id (randomId dist) = id := by
      rcases asks (randomId dist) with closed | upgraded
      · rw [closed] at outcome
        cases outcome
      · exact Outcome.upgraded.inj (upgraded.symm.trans outcome)
    refine ⟨?_, fun client entered => ⟨dist, ?_⟩⟩
    · rcases readResponseHeaders_spec (oneLine_encode _) arrived with ⟨headers, rest⟩ | ⟨none, -⟩
      · have arrived' : (readResponseHeaders t).2.rest <+: conn.world.wire := by
          rw [rest] at arrived
          exact (List.prefix_append_right_inj _).1 arrived
        have short := length_agreed fit dist
        obtain ⟨part, -⟩ := heard_part law run (read.trans arrived')
        rw [connect, headers, accepted_switchingProtocols, if_pos rfl]
        obtain ⟨same | new, -⟩ := handleAll_part law (clientInfo _ _ ip s) rfl short greets
          follows (part.trans sent) { c with pingIntervalMs := 25000 }
        · exact .inl same
        · exact .inr ⟨_, rfl, new⟩
      · rw [connect_rejected none]
        exact .inl rfl
    · obtain rfl := Option.some.inj entered
      rfl

theorem length_switchingProtocols (key : Str) :
    (switchingProtocols (computeAccept L.sha1 key)).length ≤ maxHeaderSize := by
  have fixed : switchingStart.length ≤ 200 ∧ (lit "\r\n\r\n").length ≤ 200 := by decide +kernel
  rw [switchingProtocols, computeAccept, List.length_append, List.length_append,
    Base64.length_encode, law.digest]
  unfold maxHeaderSize
  omega

/-- If everything arrives, the client is told all that the server keeps of it. -/
theorem connect_whole (client : SimpleClient) {dist : Fin 21 → Fin 64}
    (session : client.sessionId = randomId dist) (short : client.id.length < 2 ^ 32)
    {gs later : List (Bool × Str)} (greets : greeting L client = .ok gs)
    (follows : ∀ m ∈ later, Follows L (randomId dist) m)
    {ls : List (Label Sending.Answer (ℕ × List Sending.Call))} {conn : Sending.ConnectionConfig L.W}
    (run : Sending.Run L.W (Sending.ConnectionConfig.initial L.W) ls conn)
    (sent : Sending.data conn.world.accepted = gs ++ later) (free : conn.running = none)
    (fine : conn.world.failed = false) {key : Str} {t : Socket} {reads : List Read}
    (arrived : t.rest = switchingProtocols (computeAccept L.sha1 key) ++ conn.world.wire)
    (read : bytesOf true reads = (readResponseHeaders t).2.rest) (c : Identity) :
    connect L c t reads = ⟨client.id, client.sessionId, 25000⟩ := by
  rcases readResponseHeaders_spec (oneLine_encode _) ⟨[], (List.append_nil _).trans arrived⟩ with
    ⟨headers, rest⟩ | ⟨-, long⟩
  · have wire : bytesOf true reads = conn.world.wire :=
      read.trans (List.append_cancel_left (rest.symm.trans arrived))
    obtain ⟨-, all⟩ := heard_part law run ⟨[], (List.append_nil _).trans wire⟩
    rw [connect, headers, accepted_switchingProtocols, if_pos rfl, all free fine wire, sent]
    exact (handleAll_part law client session short greets follows List.prefix_rfl _).2 rfl
  · have inside := long (arrived ▸ List.prefix_append _ _)
    have bound := length_switchingProtocols law key
    rw [computeAccept] at bound
    exact absurd bound (Nat.not_le_of_lt inside)

/-- One round: the id is kept or agreed upon, and a known id is the one that is entered. -/
theorem Round.kept {host : Str} (hostLine : OneLine host) {c c' : Identity} (fit : Fit c.id)
    {entered : Option SimpleClient} (round : Round L host c entered c') :
    Fit c'.id ∧ (c'.id = c.id ∨ ∃ client, entered = some client ∧ client.id = c'.id) ∧
      (c.id ≠ [] → c'.id = c.id ∧ ∀ client, entered = some client → client.id = c.id) := by
  cases round with
  | unreached => exact ⟨fit, .inl rfl, fun _ => ⟨rfl, fun client entered => by cases entered⟩⟩
  | answered asked wire arrived read =>
    obtain ⟨kept, named⟩ := connect_part law hostLine fit asked wire arrived read
    have known : c.id ≠ [] → ∀ client, entered = some client → client.id = c.id := by
      intro some client here
      obtain ⟨dist, named⟩ := named client here
      rw [named, agreed, if_neg some]
    refine ⟨?_, kept.imp_right fun ⟨client, here, same⟩ => ⟨client, here, same.symm⟩, fun some => ?_⟩
    · rcases kept with same | ⟨client, here, same⟩
      · rw [same]
        exact fit
      · obtain ⟨dist, named⟩ := named client here
        rw [same, named, agreed]
        split
        · exact Fit.randomId dist
        · exact fit
    · refine ⟨?_, known some⟩
      rcases kept with same | ⟨client, here, same⟩
      · exact same
      · rw [same, known some client here]

theorem Rounds.kept {host : Str} (hostLine : OneLine host) {c c' : Identity} (fit : Fit c.id)
    {entered : List (Option SimpleClient)} (rounds : Rounds L host c entered c') :
    Fit c'.id ∧ (c'.id = c.id ∨ ∃ client, some client ∈ entered ∧ client.id = c'.id) ∧
      (c.id ≠ [] → c'.id = c.id ∧ ∀ client, some client ∈ entered → client.id = c.id) := by
  induction rounds with
  | nil => exact ⟨fit, .inl rfl, fun _ => ⟨rfl, fun client mem => absurd mem List.not_mem_nil⟩⟩
  | snoc before last ih =>
    obtain ⟨fitNow, was, known⟩ := ih
    obtain ⟨fitNext, now, kept⟩ := last.kept law hostLine fitNow
    refine ⟨fitNext, ?_, fun some => ?_⟩
    · rcases now with same | ⟨client, here, same⟩
      · rcases was with old | ⟨client, mem, named⟩
        · exact .inl (same.trans old)
        · exact .inr ⟨client, List.mem_append_left _ mem, named.trans same.symm⟩
      · exact .inr ⟨client, List.mem_append_right _ (here ▸ List.mem_singleton_self _), same⟩
    · obtain ⟨same, all⟩ := known some
      obtain ⟨same', last'⟩ := kept (same ▸ some)
      refine ⟨same'.trans same, fun client mem => ?_⟩
      rcases List.mem_append.1 mem with mem | mem
      · exact all client mem
      · exact (last' client (List.mem_singleton.1 mem).symm).trans same

end

/-- Whatever is lost between the two and wherever: the id that a client has is its first one or one that
a server entered for it, and from then on it stays, and every server enters the client under it. -/
theorem identity_kept (L : Stack) (law : L.Lawful) (host : Str) (hostLine : OneLine host)
    {start c c' : Identity} {entered entered' : List (Option SimpleClient)} (fit : Fit start.id)
    (first : Rounds L host start entered c) (rest : Rounds L host c entered' c') :
    (c.id = start.id ∨ ∃ client, some client ∈ entered ∧ client.id = c.id) ∧
      (c.id ≠ [] → c'.id = c.id ∧ ∀ client, some client ∈ entered' → client.id = c.id) := by
  obtain ⟨fitNow, was, -⟩ := first.kept law hostLine fit
  obtain ⟨-, -, known⟩ := rest.kept law hostLine fitNow
  exact ⟨was, known⟩

/-- The server upgrades the request of the client, under the client's own key, and the client ends up with
the id, the session id and the ping interval of the server, however the bytes are cut on their way. -/
theorem upgrade_completes (L : Stack) (law : L.Lawful) (host : Str) (hostLine : OneLine host)
    (short : host.length ≤ 60000) {c : Identity} (fit : Fit c.id) (bytes : Fin 16 → UInt8)
    (dist dist' : Fin 21 → Fin 64) (ip : Str) {s : Socket}
    (asked : s.rest = request host (generateClientKey bytes) c.id) :
    let client := clientInfo (agreed c.id (randomId dist)) (randomId dist') ip s
    handleConnection (randomId dist) s = .upgraded (generateClientKey bytes) client.id ∧
    ∃ gs, greeting L client = .ok gs ∧
      ∀ later, (∀ m ∈ later, Follows L (randomId dist') m) →
        ∀ ls conn, Sending.Run L.W (Sending.ConnectionConfig.initial L.W) ls conn →
          Sending.data conn.world.accepted = gs ++ later → conn.running = none →
          conn.world.failed = false →
          ∀ (t : Socket) (reads : List Read),
            t.rest = switchingProtocols (computeAccept L.sha1 (generateClientKey bytes)) ++
              conn.world.wire →
            bytesOf true reads = (readResponseHeaders t).2.rest →
            connect L c t reads = ⟨client.id, client.sessionId, pingIntervalMs⟩ := by
  intro client
  have idShort : client.id.length < 2 ^ 32 := length_agreed fit dist
  obtain ⟨opened, ack, set, greets, -⟩ := handle_greeting law client
    (utf8Valid_randomId dist') idShort
  refine ⟨handleConnection_whole hostLine short fit asked _, _, greets, ?_⟩
  intro later follows ls conn run sent free fine t reads arrived read
  exact connect_whole law client rfl idShort greets follows run sent free fine arrived read c

/-! A server that answers. -/

def stack : Stack where
  sha1 _ := List.replicate 20 0
  M := shortest
  J := Text.reference
  W := Sending.server
  K := Sending.serverFrames
  wants _ := 4096

theorem stack_lawful : stack.Lawful where
  digest _ := List.length_replicate
  msgpack := shortest_lawful
  json := Text.reference_lawful
  wslay := Sending.server_lawful
  codec := Sending.serverFrames_lawful
  asks _ := Nat.succ_pos 4095

def nobody : Identity := ⟨[], [], 0⟩

def asking (id : Str) : Socket :=
  { rest := request (lit "localhost") (generateClientKey fun _ => 7) id
    sizes := fun _ => 1
    reads := 0 }

def visitor (id : Str) : SimpleClient :=
  clientInfo (agreed id (randomId fun _ => 10)) (randomId fun _ => 36) (lit "127.0.0.1") (asking id)

/-- What the three calls of the greeting send, each in one write. -/
def greetingCalls : List (Bool × Str) → List Sending.Call
  | [] => []
  | (false, text) :: ms => .sendText text :: greetingCalls ms
  | (true, payload) :: ms => .sendBinary payload :: greetingCalls ms

def sendGreeting (ms : List (Bool × Str)) : List (Label Sending.Answer (ℕ × List Sending.Call)) :=
  .env (1, greetingCalls ms) :: ms.flatMap fun m => [.take 0, .act (.mask []),
    .act (.write (Sending.frame (if m.1 then 2 else 1, m.2)).length), .act (.write 0), .act (.write 0),
    .act (.write 0)]

/-- The socket of the client when the server's bytes have arrived, three at a time. -/
def answered (wire : Str) : Socket :=
  { rest := switchingProtocols (computeAccept stack.sha1 (generateClientKey fun _ => 7)) ++ wire
    sizes := fun _ => 3
    reads := 0 }

def greetedCheck (gs : List (Bool × Str)) (conn : Sending.ConnectionConfig Sending.server) : Bool :=
  conn.running.isNone && !conn.world.failed && Sending.data conn.world.accepted == gs &&
    (readResponseHeaders (answered conn.world.wire)).2.rest == conn.world.wire

theorem greetedCheck_sound {gs : List (Bool × Str)} {conn : Sending.ConnectionConfig Sending.server}
    (h : greetedCheck gs conn = true) : conn.running = none ∧ conn.world.failed = false ∧
      Sending.data conn.world.accepted = gs ∧
      (readResponseHeaders (answered conn.world.wire)).2.rest = conn.world.wire := by
  simp only [greetedCheck, Bool.and_eq_true, Option.isNone_iff_eq_none, beq_iff_eq,
    Bool.not_eq_true'] at h
  obtain ⟨⟨⟨free, fine⟩, sent⟩, rest⟩ := h
  exact ⟨free, fine, sent, rest⟩

def greets (id : Str) : Bool :=
  match greeting stack (visitor id) with
  | .ok gs => (execute (Sending.connection Sending.server) (fun _ _ => true)
      (Sending.ConnectionConfig.initial Sending.server) (sendGreeting gs)).any (greetedCheck gs)
  | .error _ => false

/-- A run of the server's connection that sends the greeting. -/
theorem exists_greeted {id : Str} (h : greets id = true) : ∃ gs ls conn,
    greeting stack (visitor id) = .ok gs ∧
    Sending.Run Sending.server (Sending.ConnectionConfig.initial Sending.server) ls conn ∧
    greetedCheck gs conn = true := by
  rw [greets] at h
  cases found : greeting stack (visitor id) with
  | error x =>
    rw [found] at h
    cases h
  | ok gs =>
    rw [found] at h
    obtain ⟨conn, run, check⟩ := Sending.run_of_check h
    exact ⟨gs, _, conn, rfl, run, check⟩

theorem oneLine_localhost : OneLine (lit "localhost") := ⟨by decide, by decide⟩

theorem greets_nobody : greets [] = true := by decide +kernel

theorem upgrade_completes_localhost : ∃ wire,
    connect stack nobody (answered wire) [.chunk wire] =
      ⟨randomId fun _ => 10, randomId fun _ => 36, 25000⟩ := by
  obtain ⟨gs, ls, conn, greeted, run, check⟩ := exists_greeted greets_nobody
  obtain ⟨free, fine, sent, rest⟩ := greetedCheck_sound check
  obtain ⟨-, gs', greeted', completes⟩ := upgrade_completes stack stack_lawful (lit "localhost")
    oneLine_localhost (by decide) (c := nobody) Fit.nil (fun _ => 7) (fun _ => 10) (fun _ => 36)
    (lit "127.0.0.1") (s := asking []) rfl
  obtain rfl : gs = gs' := Except.ok.inj (greeted.symm.trans greeted')
  refine ⟨conn.world.wire, completes [] (fun m mem => absurd mem List.not_mem_nil) ls conn run
    (by rw [sent, List.append_nil]) free fine (answered conn.world.wire) _ rfl ?_⟩
  rw [rest, bytesOf, bytesOf]
  split
  · rename_i none
    exact none.symm
  · exact List.append_nil _

/-- A first connection on which everything arrives. -/
theorem round_nobody : Round stack (lit "localhost") nobody (some (visitor []))
    ⟨randomId fun _ => 10, randomId fun _ => 36, 25000⟩ := by
  obtain ⟨gs, ls, conn, greeted, run, check⟩ := exists_greeted greets_nobody
  obtain ⟨free, fine, sent, rest⟩ := greetedCheck_sound check
  have outcome : handleConnection (randomId fun _ => 10) (asking []) =
      .upgraded (generateClientKey fun _ => 7) (agreed [] (randomId fun _ => 10)) :=
    handleConnection_whole oneLine_localhost (by decide) Fit.nil rfl _
  have read : bytesOf true [Read.chunk conn.world.wire] =
      (readResponseHeaders (answered conn.world.wire)).2.rest := by
    rw [rest, bytesOf, bytesOf]
    split
    · rename_i none
      exact none.symm
    · exact List.append_nil _
  have session : (visitor []).sessionId = randomId fun _ => 36 := rfl
  have nothing : ∀ m ∈ ([] : List (Bool × Str)), Follows stack (randomId fun _ => 36) m :=
    fun m mem => absurd mem List.not_mem_nil
  have all : Sending.data conn.world.accepted = gs ++ [] := by rw [sent, List.append_nil]
  have told : connect stack nobody (answered conn.world.wire) [.chunk conn.world.wire] =
      ⟨randomId fun _ => 10, randomId fun _ => 36, 25000⟩ :=
    connect_whole stack_lawful (visitor []) session (length_agreed Fit.nil fun _ => 10) greeted nothing
      run all free fine rfl read nobody
  rw [← told]
  have asked : (asking []).rest <+:
      request (lit "localhost") (generateClientKey fun _ => 7) nobody.id := List.prefix_rfl
  exact .answered asked (.upgraded outcome greeted nothing run ⟨[], by rw [all, List.append_nil]⟩)
    List.prefix_rfl ⟨[], by rw [read, List.append_nil]⟩

/-- A second one, on which nothing comes back from the server. -/
theorem round_visitor : Round stack (lit "localhost") ⟨randomId fun _ => 10, randomId fun _ => 36, 25000⟩
    (some (visitor (randomId fun _ => 10))) ⟨randomId fun _ => 10, randomId fun _ => 36, 25000⟩ := by
  have fit : Fit (randomId fun _ => 10) := Fit.randomId _
  have outcome : handleConnection (randomId fun _ => 10) (asking (randomId fun _ => 10)) =
      .upgraded (generateClientKey fun _ => 7) (agreed (randomId fun _ => 10) (randomId fun _ => 10)) :=
    handleConnection_whole oneLine_localhost (by decide) fit rfl _
  obtain ⟨opened, ack, set, greeted, -⟩ := handle_greeting stack_lawful (visitor (randomId fun _ => 10))
    (utf8Valid_randomId fun _ => 36) (length_agreed fit fun _ => 10)
  have asked : (asking (randomId fun _ => 10)).rest <+: request (lit "localhost")
      (generateClientKey fun _ => 7) (randomId fun _ => 10) := List.prefix_rfl
  have nothing : ∀ m ∈ ([] : List (Bool × Str)), Follows stack (randomId fun _ => 36) m :=
    fun m mem => absurd mem List.not_mem_nil
  have wire : Wire stack (asking (randomId fun _ => 10)) (some (visitor (randomId fun _ => 10)))
      (switchingProtocols (computeAccept stack.sha1 (generateClientKey fun _ => 7)) ++ []) :=
    .upgraded outcome greeted nothing .nil List.nil_prefix
  have unheard : (readResponseHeaders ⟨[], fun _ => 1, 0⟩).1 = [] := readResponseHeaders_nil rfl
  have lost := connect_rejected (L := stack) unheard
    ⟨randomId fun _ => 10, randomId fun _ => 36, 25000⟩ []
  have round : Round stack (lit "localhost") ⟨randomId fun _ => 10, randomId fun _ => 36, 25000⟩
      (some (visitor (randomId fun _ => 10))) (connect stack
        ⟨randomId fun _ => 10, randomId fun _ => 36, 25000⟩ ⟨[], fun _ => 1, 0⟩ []) :=
    .answered asked wire List.nil_prefix List.nil_prefix
  rwa [lost] at round

theorem identity_kept_localhost : ∃ c c' entered entered',
    Rounds stack (lit "localhost") nobody entered c ∧ Rounds stack (lit "localhost") c entered' c' ∧
      some (visitor (randomId fun _ => 10)) ∈ entered' ∧ c.id ≠ [] ∧ c'.id = c.id := by
  have first := Rounds.nil.snoc round_nobody
  have rest := Rounds.nil.snoc round_visitor
  have named : (randomId fun _ => 10) ≠ [] := fun none => by
    cases (length_randomId fun _ => 10).symm.trans (congrArg List.length none)
  have kept := (identity_kept stack stack_lawful (lit "localhost") oneLine_localhost Fit.nil first
    rest).2 named
  exact ⟨_, _, _, _, first, rest, List.mem_singleton_self _, named, kept.1⟩

end Blueboat.Upgrade
