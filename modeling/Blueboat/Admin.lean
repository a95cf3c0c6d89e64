import Blueboat.Disposal
import Blueboat.Http
import Blueboat.Snapshots

set_option autoImplicit false

/-! `Server::handle_admin_request` (`server.cpp`, `http.hpp`), and which requests an exception leaves. -/
namespace Blueboat.Admin

open Protocol LockMachine
open Http (Request)

structure Response where
  status : ℕ
  statusText : Str
  contentType : Str
  body : Str
  extraHeaders : List (Str × Str)

def padding (text : Str) : ℕ := (text.reverse.take 2).countP (· = 0x3d)

/-- What a request meets that is not in the server: OpenSSL, the hooks (with what the room, and the other
threads while the hook waits, do to the server), and the threads that run while the request waits. An
`on_external_message` throws a `std::exception` or returns. -/
structure Surroundings where
  decodeBlock : Str → Option Str
  decodeBlock_length : ∀ {text out}, decodeBlock text = some out → padding text ≤ out.length
  onExternalMessage : World → RoomRef → Str → Json → World × Option Str
  meanwhile : World → World
  answered : Option Json → Option Json

section
variable (J : JsonText) (s : Surroundings) (admins : Dict Str)

/-! Publishing. -/

/-- A listener of the server, for the payloads that a request publishes: none is a string, none is the
frame of a client. -/
def listener (answer : World → Json → World × Option Exn) (payload : Json) (w : World) :
    Handler → World × Option Exn
  | .infoRequest n => ({ w with infos := Function.update w.infos n (some payload) }, none)
  | .playerLeft _ =>
    match payload.getString with
    | .error x => (w, some x)
    | .ok _ => (w, none)
  | .gameMessage r =>
    match roomMessage payload with
    | .error x => (w, some x)
    | .ok .requestInfo => answer (w.touch r) (w.rooms r).info
    | .ok (.external key data) =>
      let called := s.onExternalMessage w r key data
      (called.1, called.2.map Exn.std)
    | .ok _ => (w, none)

def deliver (f : World → Handler → World × Option Exn) : World → List Handler → World × Option Exn
  | w, [] => (w, none)
  | w, handler :: handlers =>
    match f w handler with
    | (w', some x) => (w', some x)
    | (w', none) => deliver f w' handlers

/-- An answer has no action: nothing is published in return. -/
def publishAnswer (w : World) (info : Json) : World × Option Exn :=
  deliver (listener s (fun w _ => (w, none)) info) w (w.handlersOf REQUEST_INFO)

def publish (w : World) (key : Str) (payload : Json) : World × Option Exn :=
  deliver (listener s (publishAnswer s) payload) w (w.handlersOf key)

/-! The routes. -/

def ok (contentType body : Str) : Response := ⟨200, lit "OK", contentType, body, []⟩

def notFound (text : Str) : Response := ⟨404, lit "Not Found", lit "text/plain", text, []⟩

def serverError (contentType body : Str) : Response :=
  ⟨500, lit "Internal Server Error", contentType, body, []⟩

def unauthorized : Response :=
  ⟨401, lit "Unauthorized", lit "text/plain", lit "Authentication required",
    [(lit "WWW-Authenticate", lit "Basic realm=\"blueboat\"")]⟩

def jsonError (message : Str) : Except Exn Str := Sio.dumpText J (errorMessage message)

def respondJson (value : Json) : Except Exn Response :=
  (Sio.dumpText J value).map (ok (lit "application/json"))

def catchError : Exn → Except Exn Response
  | .other => .error .other
  | .std what => (jsonError J what).map (serverError (lit "application/json"))

def home : Except Exn Response :=
  respondJson J (errorMessage
    (lit "blueboat-cpp admin API. The bundled dashboard UI was not ported."))

def getRooms (w : World) : World × Except Exn Response :=
  ({ w with storage := w.storage.purge w.now }, respondJson J
    (.arr ((RoomFetcher.getListOfRoomsWithData J w.storage w.now).map RoomSnapshot.toJson)))

def subscribe (w : World) : World :=
  { w with
    pubsub := w.pubsub.on REQUEST_INFO w.nextListener (.infoRequest w.nextInfo)
    nextListener := w.nextListener + 1
    infos := Function.update w.infos w.nextInfo none
    nextInfo := w.nextInfo + 1 }

def getRoom (w : World) (roomId : Str) : World × Except Exn Response :=
  match publish s (subscribe w) roomId infoPayload with
  | (w', some x) => (w', .error x)
  | (w', none) =>
    ((s.meanwhile w').unsubscribe REQUEST_INFO (some w.nextListener),
      match s.answered (w'.infos w.nextInfo) with
      | none => .ok (notFound (lit "No room found"))
      | some result => respondJson J result)

def getGameValues (w : World) : Except Exn Response :=
  respondJson J (GameValues.getAll J w.storage w.now)

def postGameValues (w : World) (text : Str) : World × Except Exn Response :=
  match J.parse text with
  | .error what => (w, catchError J (.std what))
  | .ok body =>
    match GameValues.setAll J w.storage w.now body with
    | .error x => (w, catchError J x)
    | .ok storage => ({ w with storage := storage }, .ok (ok (lit "text/plain") (lit "OK")))

def stringAt (body : Json) (key : Str) : Option Str :=
  match body.find? key with
  | some (.str text) => some text
  | _ => none

def publishExternal (w : World) (room key : Str) (data : Json) : World × Except Exn Response :=
  match publish s w room (externalPayload key data) with
  | (w', some x) => (w', catchError J x)
  | (w', none) => (w', .ok (ok (lit "text/plain") (lit "OK")))

def postExternalMessage (w : World) (text : Str) : World × Except Exn Response :=
  match J.parse text with
  | .error what => (w, catchError J (.std what))
  | .ok body =>
    match stringAt body (lit "key"), stringAt body (lit "room") with
    | none, _ => (w, .ok (serverError (lit "text/plain")
        (lit "Key property required for external messages")))
    | some _, none => (w, .ok (serverError (lit "text/plain")
        (lit "Room property required for external messages")))
    | some key, some room =>
      match body.valueJson (lit "data") .null with
      | .error x => (w, catchError J x)
      | .ok data => publishExternal J s w room key data

inductive Route where
  | home
  | rooms
  | room (roomId : Str)
  | gameValues
  | setGameValues
  | externalMessage
  | unknown

def adminPrefix : Str := lit "/blueboat-panel"

def routeOf (request : Request) : Route :=
  let route := request.path.drop adminPrefix.length
  if request.method = lit "GET" ∧ (route = [] ∨ route = lit "/") then .home
  else if request.method = lit "GET" ∧ route = lit "/rooms" then .rooms
  else if request.method = lit "GET" ∧ (lit "/rooms/").isPrefixOf route then
    .room (route.drop (lit "/rooms/").length)
  else if request.method = lit "GET" ∧ route = lit "/gameValues" then .gameValues
  else if request.method = lit "POST" ∧ route = lit "/gameValues" then .setGameValues
  else if request.method = lit "POST" ∧ route = lit "/external-message" then .externalMessage
  else .unknown

/-- The padding is no longer than what was decoded, so the subtraction of the source does not wrap. -/
def base64Decode (text : Str) : Str :=
  if text = [] ∨ text.length % 4 ≠ 0 then []
  else
    match s.decodeBlock text with
    | none => []
    | some out => out.take (out.length - padding text)

def checkBasicAuth (request : Request) : Bool :=
  if admins.keys = [] then true
  else
    match request.headers.lookup (lit "authorization") with
    | none => false
    | some value =>
      if !(lit "Basic ").isPrefixOf value then false
      else
        let decoded := base64Decode s (value.drop 6)
        let user := decoded.takeWhile (· ≠ 0x3a)
        let pass := decoded.drop (user.length + 1)
        decoded.contains 0x3a && admins.lookup user == some pass

def handleAdminRequest (w : World) (request : Request) : World × Except Exn Response :=
  if !adminPrefix.isPrefixOf request.path then (w, .ok (notFound (lit "Not found")))
  else if !checkBasicAuth s admins request then (w, .ok unauthorized)
  else
    match routeOf request with
    | .home => (w, home J)
    | .rooms => getRooms J w
    | .room roomId => getRoom J s w roomId
    | .gameValues => (w, getGameValues J w)
    | .setGameValues => postGameValues J w request.body
    | .externalMessage => postExternalMessage J s w request.body
    | .unknown => (w, .ok (notFound (lit "Not found")))

end

/-! Which texts can be written. -/

/-- The reader of the library accepts valid UTF-8 only. -/
def Checked (J : JsonText) : Prop := ∀ {text j}, J.parse text = .ok j → j.utf8 = true

section
variable {J : JsonText}

theorem respondJson_ok (lawful : J.Lawful) (value : Json) :
    (∃ response, respondJson J value = .ok response) ↔ value.utf8 = true := by
  rw [respondJson, Sio.dumpText]
  cases utf8 : value.utf8 with
  | true =>
    obtain ⟨text, dump, -⟩ := lawful.dump_valid value utf8
    rw [dump]
    exact ⟨fun _ => rfl, fun _ => ⟨_, rfl⟩⟩
  | false =>
    obtain ⟨what, dump⟩ := lawful.dump_invalid value utf8
    rw [dump]
    constructor
    · rintro ⟨_, found⟩
      cases found
    · rintro ⟨⟩

theorem utf8_errorMessage (what : Str) : (errorMessage what).utf8 = utf8Valid what := by
  have fields : errorMessage what = .obj [(lit "message", .str what)] := rfl
  have key : utf8Valid (lit "message") = true := by decide
  rw [fields, Json.utf8, Json.utf8Fields, key, Json.utf8, Json.utf8Fields]
  simp

theorem catchError_ok (lawful : J.Lawful) (what : Str) :
    (∃ response, catchError J (.std what) = .ok response) ↔ utf8Valid what = true := by
  rw [← utf8_errorMessage, catchError, jsonError, Sio.dumpText]
  cases utf8 : (errorMessage what).utf8 with
  | true =>
    obtain ⟨text, dump, -⟩ := lawful.dump_valid _ utf8
    rw [dump]
    exact ⟨fun _ => rfl, fun _ => ⟨_, rfl⟩⟩
  | false =>
    obtain ⟨text, dump⟩ := lawful.dump_invalid _ utf8
    rw [dump]
    constructor
    · rintro ⟨_, found⟩
      cases found
    · rintro ⟨⟩

theorem utf8_lookup {fields : List (Str × Json)} (h : Json.utf8Fields fields = true) {key : Str}
    {value : Json} (found : fields.lookup key = some value) : value.utf8 = true := by
  induction fields with
  | nil => cases found
  | cons field fields ih =>
    obtain ⟨k, x⟩ := field
    simp only [Json.utf8Fields, Bool.and_eq_true] at h
    by_cases same : key = k
    · subst same
      rw [List.lookup_cons_self] at found
      obtain rfl := Option.some.inj found
      exact h.1.2
    · rw [List.lookup_cons, beq_false_of_ne same] at found
      exact ih h.2 found

theorem utf8_valueOf {j : Json} (h : j.utf8 = true) {key : Str} {value : Json}
    (found : j.valueOf key = .ok (some value)) : value.utf8 = true := by
  cases j with
  | obj fields => exact utf8_lookup h (Except.ok.inj found)
  | _ => cases found

theorem utf8_valueString {j : Json} (h : j.utf8 = true) {key default text : Str}
    (valid : utf8Valid default = true) (read : j.valueString key default = .ok text) :
    utf8Valid text = true := by
  unfold Json.valueString Json.value at read
  split at read
  · cases read
  · obtain rfl := Except.ok.inj read
    exact valid
  · rename_i value found
    have utf8 := utf8_valueOf h found
    cases value with
    | str text' =>
      obtain rfl := Except.ok.inj read
      exact utf8
    | _ => cases read

theorem utf8_valueJson {j : Json} (h : j.utf8 = true) {key : Str} {default value : Json}
    (valid : default.utf8 = true) (read : j.valueJson key default = .ok value) :
    value.utf8 = true := by
  unfold Json.valueJson Json.value at read
  split at read
  · cases read
  · obtain rfl := Except.ok.inj read
    exact valid
  · rename_i found
    obtain rfl := Except.ok.inj read
    exact utf8_valueOf h found

theorem bind_ok {α β : Type} {x : Except Exn α} {f : α → Except Exn β} {b : β}
    (h : x >>= f = .ok b) : ∃ a, x = .ok a ∧ f a = .ok b := by
  cases x with
  | error x => cases h
  | ok a => exact ⟨a, rfl, h⟩

theorem utf8_clientFromJson {j : Json} (h : j.utf8 = true) {client : SimpleClient}
    (read : SimpleClient.fromJson j = .ok client) : client.toJson.utf8 = true := by
  obtain ⟨id, readId, read⟩ := bind_ok read
  obtain ⟨sessionId, readSession, read⟩ := bind_ok read
  obtain ⟨origin, readOrigin, read⟩ := bind_ok read
  obtain ⟨ip, readIp, read⟩ := bind_ok read
  obtain rfl := Except.ok.inj read
  have fields : SimpleClient.toJson ⟨id, sessionId, origin, ip⟩ = .obj [(lit "id", .str id),
    (lit "ip", .str ip), (lit "origin", .str origin), (lit "sessionId", .str sessionId)] := rfl
  have keys : utf8Valid (lit "id") = true ∧ utf8Valid (lit "ip") = true ∧
      utf8Valid (lit "origin") = true ∧ utf8Valid (lit "sessionId") = true := by decide
  rw [fields]
  simp only [Json.utf8, Json.utf8Fields, keys, utf8_valueString h rfl readId,
    utf8_valueString h rfl readSession, utf8_valueString h rfl readOrigin,
    utf8_valueString h rfl readIp, Bool.and_self]

theorem utf8_owner {j : Json} (h : j.utf8 = true) {owner : SimpleClient}
    (read : (j.atKey (lit "owner")).bind SimpleClient.fromJson = .ok owner) :
    owner.toJson.utf8 = true := by
  obtain ⟨value, found, read⟩ := bind_ok read
  refine utf8_clientFromJson ?_ read
  cases j with
  | obj fields =>
    unfold Json.atKey at found
    dsimp only at found
    split at found
    · rename_i stored
      obtain rfl := Except.ok.inj found
      exact utf8_lookup h stored
    · cases found
  | _ => cases found

theorem utf8_snapshotFromJson {j : Json} (h : j.utf8 = true) {room : RoomSnapshot}
    (read : RoomSnapshot.fromJson j = .ok room) : room.toJson.utf8 = true := by
  obtain ⟨id, readId, read⟩ := bind_ok read
  obtain ⟨type, readType, read⟩ := bind_ok read
  obtain ⟨owner, ownerValid, read⟩ : ∃ owner : SimpleClient, owner.toJson.utf8 = true ∧
      (j.valueJson (lit "metadata") (.obj []) >>= fun metadata =>
        j.valueInt64 (lit "createdAt") 0 >>= fun createdAt =>
          pure (⟨id, type, owner, metadata, createdAt⟩ : RoomSnapshot)) = Except.ok room := by
    dsimp only at read
    split at read
    · obtain ⟨owner, readOwner, read⟩ := bind_ok read
      exact ⟨owner, utf8_owner h readOwner, read⟩
    · exact ⟨_, rfl, read⟩
  obtain ⟨metadata, readMetadata, read⟩ := bind_ok read
  obtain ⟨createdAt, -, read⟩ := bind_ok read
  obtain rfl := Except.ok.inj read
  have keys : utf8Valid (lit "createdAt") = true ∧ utf8Valid (lit "id") = true ∧
      utf8Valid (lit "metadata") = true ∧ utf8Valid (lit "owner") = true ∧
      utf8Valid (lit "type") = true := by decide
  rw [Snapshots.toJson_eq]
  simp only [Json.utf8, Json.utf8Fields, keys, utf8_valueString h rfl readId,
    utf8_valueString h rfl readType, utf8_valueJson h rfl readMetadata, ownerValid, Bool.and_self]

theorem utf8List_iff {xs : List Json} : Json.utf8List xs = true ↔ ∀ x ∈ xs, x.utf8 = true := by
  induction xs with
  | nil => simp [Json.utf8List]
  | cons x xs ih => simp [Json.utf8List, ih]

theorem getRooms_ok (lawful : J.Lawful) (checked : Checked J) (w : World) :
    ∃ response, (getRooms J w).2 = .ok response := by
  rw [getRooms, respondJson_ok lawful]
  change Json.utf8List _ = true
  rw [utf8List_iff]
  intro x mem
  obtain ⟨room, listed, rfl⟩ := List.mem_map.1 mem
  rw [RoomFetcher.getListOfRoomsWithData, List.mem_filterMap] at listed
  obtain ⟨id, -, found⟩ := listed
  split at found
  · cases found
  · rename_i raw _
    cases parsed : J.parse raw with
    | error what => rw [parsed] at found; cases found
    | ok j =>
      rw [parsed] at found
      simp only [Except.mapError, Except.bind] at found
      cases read : RoomSnapshot.fromJson j with
      | error x => rw [read] at found; cases found
      | ok room' =>
        rw [read] at found
        obtain rfl := Option.some.inj found
        exact utf8_snapshotFromJson (checked parsed) read

theorem getGameValues_ok (lawful : J.Lawful) (checked : Checked J) (w : World) :
    ∃ response, getGameValues J w = .ok response := by
  rw [getGameValues, respondJson_ok lawful, GameValues.getAll]
  split
  · rfl
  · split
    · rename_i parsed
      exact checked parsed
    · rfl

/-- The parser's message for this text can be written. -/
def Readable (J : JsonText) (text : Str) : Prop :=
  ∀ what, J.parse text = .error what → utf8Valid what = true

theorem postGameValues_ok (lawful : J.Lawful) (checked : Checked J) (w : World) (text : Str) :
    (∃ response, (postGameValues J w text).2 = .ok response) ↔ Readable J text := by
  unfold postGameValues Readable
  cases parsed : J.parse text with
  | error what =>
    refine (catchError_ok lawful what).trans ⟨fun valid what' e => ?_, fun valid => valid what rfl⟩
    rw [← Except.error.inj e]
    exact valid
  | ok body =>
    obtain ⟨text', dump, -⟩ := lawful.dump_valid body (checked parsed)
    have set : GameValues.setAll J w.storage w.now body =
        .ok (w.storage.set w.now GAME_VALUES text' true) := by
      rw [GameValues.setAll, Sio.dumpText, dump]
      rfl
    dsimp only
    rw [set]
    refine ⟨fun _ => ?_, fun _ => ⟨_, rfl⟩⟩
    rintro _ ⟨⟩

end

/-! What a listener does with what a request publishes. -/

/-- What the listener of request `n` receives from the listeners of a channel that are asked for
information, in turn. -/
def received (w : World) (n : ℕ) (handlers : List Handler) : List Json :=
  handlers.filterMap fun handler =>
    match handler with
    | .gameMessage r => some (w.rooms r).info
    | .infoRequest n' => if n' = n then some infoPayload else none
    | .playerLeft _ => none

def thrown (s : Surroundings) (key : Str) (data : Json) : World → List Handler → Option Str
  | _, [] => none
  | _, .playerLeft _ :: _ => none
  | w, .infoRequest n :: handlers => thrown s key data
      { w with infos := Function.update w.infos n (some (externalPayload key data)) } handlers
  | w, .gameMessage r :: handlers =>
    match s.onExternalMessage w r key data with
    | (_, some what) => some what
    | (w', none) => thrown s key data w' handlers

section
variable {s : Surroundings} {w : World}

structure SameBut (w w' : World) : Prop where
  rooms : w'.rooms = w.rooms
  pubsub : w'.pubsub = w.pubsub

theorem SameBut.trans {w' w'' : World} (h : SameBut w w') (h' : SameBut w' w'') : SameBut w w'' :=
  ⟨h'.rooms.trans h.rooms, h'.pubsub.trans h.pubsub⟩

theorem sameBut_touch (w : World) (r : RoomRef) : SameBut w (w.touch r) :=
  ⟨touch_rooms w r, congrArg Stores.pubsub (touch_toStores w r)⟩

theorem SameBut.handlersOf {w' : World} (h : SameBut w w') (key : Str) :
    w'.handlersOf key = w.handlersOf key := by
  rw [World.handlersOf, h.pubsub, World.handlersOf]

def Answered (w w' : World) : Prop :=
  ∃ infos dangling, w' = { w with infos := infos, dangling := dangling }

theorem Answered.refl (w : World) : Answered w w := ⟨_, _, rfl⟩

theorem Answered.trans {w' w'' : World} (h : Answered w w') (h' : Answered w' w'') :
    Answered w w'' := by
  obtain ⟨infos, dangling, rfl⟩ := h
  obtain ⟨infos', dangling', rfl⟩ := h'
  exact ⟨infos', dangling', rfl⟩

theorem answered_touch (w : World) (r : RoomRef) : Answered w (w.touch r) := by
  rw [World.touch]
  split
  · exact ⟨_, _, rfl⟩
  · exact .refl w

theorem Answered.sameBut {w' : World} (h : Answered w w') : SameBut w w' := by
  obtain ⟨infos, dangling, rfl⟩ := h
  exact ⟨rfl, rfl⟩

theorem roomMessage_answer (room : Room) : roomMessage room.info = .ok .ignored := rfl

/-- An answer reaches every waiting request, unless a listener of `PLAYER_LEFT` is among them. -/
theorem deliver_answer {answer : World → Json → World × Option Exn} {info : Json}
    (silent : roomMessage info = .ok .ignored) {handlers : List Handler}
    (accepts : ∀ r, .playerLeft r ∉ handlers) (w : World) :
    ∃ w', deliver (listener s answer info) w handlers = (w', none) ∧ Answered w w' ∧
      ∀ n, w'.infos n = if .infoRequest n ∈ handlers then some info else w.infos n := by
  induction handlers generalizing w with
  | nil => exact ⟨w, rfl, .refl w, fun n => rfl⟩
  | cons handler handlers ih =>
    have left : ∀ r, .playerLeft r ∉ handlers := fun r mem => accepts r (List.mem_cons_of_mem _ mem)
    cases handler with
    | playerLeft r => exact absurd List.mem_cons_self (accepts r)
    | gameMessage r =>
      obtain ⟨w', delivered, same, infos⟩ := ih left w
      refine ⟨w', ?_, same, fun n => ?_⟩
      · rw [deliver, listener, silent]
        exact delivered
      · rw [infos n]
        simp
    | infoRequest m =>
      obtain ⟨w', delivered, same, infos⟩ :=
        ih left { w with infos := Function.update w.infos m (some info) }
      have first : Answered w { w with infos := Function.update w.infos m (some info) } :=
        ⟨_, _, rfl⟩
      refine ⟨w', delivered, first.trans same, fun n => ?_⟩
      rw [infos n]
      by_cases e : n = m
      · subst e
        simp
      · simp [e]

theorem publishAnswer_ok {w : World} (accepts : ∀ r, .playerLeft r ∉ w.handlersOf REQUEST_INFO)
    (room : Room) : ∃ w', publishAnswer s w room.info = (w', none) ∧ Answered w w' ∧
      ∀ n, w'.infos n =
        if .infoRequest n ∈ w.handlersOf REQUEST_INFO then some room.info else w.infos n :=
  deliver_answer (roomMessage_answer room) accepts w

/-- The rooms of a channel answer in turn. -/
theorem deliver_info {n : ℕ} (handlers : List Handler) {w : World}
    (own : .infoRequest n ∈ w.handlersOf REQUEST_INFO)
    (answerable : ∀ r, .playerLeft r ∉ w.handlersOf REQUEST_INFO)
    (accepts : ∀ r, .playerLeft r ∉ handlers) :
    ∃ w', deliver (listener s (publishAnswer s) infoPayload) w handlers = (w', none) ∧
      w'.infos n = (received w n handlers).getLast?.or (w.infos n) := by
  induction handlers generalizing w with
  | nil => exact ⟨w, rfl, rfl⟩
  | cons handler handlers ih =>
    have left : ∀ r, .playerLeft r ∉ handlers := fun r mem => accepts r (List.mem_cons_of_mem _ mem)
    -- the rest of the listeners, after the first one
    have next : ∀ w₁ : World, listener s (publishAnswer s) infoPayload w handler = (w₁, none) →
        SameBut w w₁ → w₁.infos n = (received w n [handler]).getLast?.or (w.infos n) →
        ∃ w', deliver (listener s (publishAnswer s) infoPayload) w (handler :: handlers) =
            (w', none) ∧ w'.infos n = (received w n (handler :: handlers)).getLast?.or (w.infos n) := by
      intro w₁ first same infos
      obtain ⟨w', delivered, last⟩ := @ih w₁ (by rw [same.handlersOf]; exact own)
        (by rw [same.handlersOf]; exact answerable) left
      refine ⟨w', by rw [deliver, first]; exact delivered, ?_⟩
      have rest : received w₁ n handlers = received w n handlers := by
        rw [received, same.rooms, received]
      have split : received w n (handler :: handlers) =
          received w n [handler] ++ received w n handlers := by
        rw [received, received, received, ← List.filterMap_append]
        rfl
      rw [last, infos, rest, split, List.getLast?_append, Option.or_assoc]
    cases handler with
    | playerLeft r => exact absurd List.mem_cons_self (accepts r)
    | gameMessage r =>
      have touched := sameBut_touch w r
      obtain ⟨w₁, answered, same, infos⟩ := publishAnswer_ok (s := s) (w := w.touch r)
        (fun r' => by rw [touched.handlersOf]; exact answerable r') (w.rooms r)
      refine next w₁ answered (touched.trans same.sameBut) ?_
      rw [infos n, if_pos (by rw [touched.handlersOf]; exact own)]
      rfl
    | infoRequest m =>
      refine next { w with infos := Function.update w.infos m (some infoPayload) } rfl ⟨rfl, rfl⟩ ?_
      change Function.update w.infos m (some infoPayload) n = _
      by_cases e : m = n
      · subst e
        simp [received]
      · rw [Function.update_of_ne (Ne.symm e)]
        simp [received, e]

/-- A listener of `PLAYER_LEFT` rejects what is not a string. -/
theorem deliver_rejected (answer : World → Json → World × Option Exn) {payload : Json}
    (reads : ∀ text, payload.getString ≠ .ok text) {handlers : List Handler} {r : RoomRef}
    (mem : .playerLeft r ∈ handlers) (w : World) :
    ∃ x, (deliver (listener s answer payload) w handlers).2 = some x := by
  induction handlers generalizing w with
  | nil => cases mem
  | cons handler handlers ih =>
    rw [deliver]
    split
    · exact ⟨_, rfl⟩
    · rename_i w' accepted
      rcases List.mem_cons.1 mem with rfl | mem
      · cases read : payload.getString with
        | error x => rw [listener, read] at accepted; cases accepted
        | ok text => exact absurd read (reads text)
      · exact ih mem w'

theorem roomMessage_external (key : Str) (data : Json) :
    roomMessage (externalPayload key data) = .ok (.external key data) := rfl

theorem listener_external (answer : World → Json → World × Option Exn) (key : Str) (data : Json)
    (w : World) (r : RoomRef) :
    listener s answer (externalPayload key data) w (.gameMessage r) =
      ((s.onExternalMessage w r key data).1, (s.onExternalMessage w r key data).2.map Exn.std) := rfl

def notString : Str := lit "[json.exception.type_error.302] type must be string, but is object"

theorem getString_external (key : Str) (data : Json) :
    (externalPayload key data).getString = .error (.std notString) := rfl

/-- An external message ends with what the first hook throws, or with nothing worse than a listener of
`PLAYER_LEFT`. -/
theorem deliver_external (answer : World → Json → World × Option Exn) (key : Str) (data : Json)
    (handlers : List Handler) (w : World) :
    match thrown s key data w handlers with
    | some what => (deliver (listener s answer (externalPayload key data)) w handlers).2 =
        some (.std what)
    | none => (deliver (listener s answer (externalPayload key data)) w handlers).2 = none ∨
        (deliver (listener s answer (externalPayload key data)) w handlers).2 =
          some (.std notString) := by
  induction handlers generalizing w with
  | nil => exact .inl rfl
  | cons handler handlers ih =>
    cases handler with
    | playerLeft r =>
      right
      rw [deliver, listener, getString_external]
    | infoRequest n => exact ih _
    | gameMessage r =>
      rw [thrown, deliver, listener_external]
      cases called : s.onExternalMessage w r key data with
      | mk w' result =>
        cases result with
        | some what => rfl
        | none => exact ih w'

end

/-! When a request is answered. -/

def lastAnswer (w : World) (roomId : Str) : Option Json :=
  (received w w.nextInfo ((subscribe w).handlersOf roomId)).getLast?

/-- What `on_external_message` throws can be written. -/
def Speakable (J : JsonText) (s : Surroundings) (w : World) (text : Str) : Prop :=
  ∀ body key room data what, J.parse text = .ok body → stringAt body (lit "key") = some key →
    stringAt body (lit "room") = some room → body.valueJson (lit "data") .null = .ok data →
    thrown s key data w (w.handlersOf room) = some what → utf8Valid what = true

/-- No listener of the channel rejects the request, and every text that it leads to can be written. -/
def Sane (J : JsonText) (s : Surroundings) (admins : Dict Str) (w : World) (request : Request) :
    Prop :=
  adminPrefix.isPrefixOf request.path = true → checkBasicAuth s admins request = true →
  match routeOf request with
  | .room roomId => (∀ r, .playerLeft r ∉ w.handlersOf roomId) ∧
      ∀ info, s.answered (lastAnswer w roomId) = some info → info.utf8 = true
  | .setGameValues => Readable J request.body
  | .externalMessage => Readable J request.body ∧ Speakable J s w request.body
  | _ => True

section
variable {J : JsonText} {s : Surroundings} {w : World}

theorem playerLeft_subscribe {key : Str} {r : RoomRef} :
    .playerLeft r ∈ (subscribe w).handlersOf key ↔ .playerLeft r ∈ w.handlersOf key := by
  simp only [World.handlersOf, List.mem_map, subscribe, PubSub.mem_listenersOf_on]
  constructor
  · rintro ⟨l, mem | ⟨-, rfl⟩, handles⟩
    · exact ⟨l, mem, handles⟩
    · cases handles
  · rintro ⟨l, mem, handles⟩
    exact ⟨l, .inl mem, handles⟩

theorem infoRequest_subscribe (w : World) :
    .infoRequest w.nextInfo ∈ (subscribe w).handlersOf REQUEST_INFO :=
  List.mem_map.2 ⟨_, PubSub.mem_listenersOf_on.2 (.inr ⟨rfl, rfl⟩), rfl⟩

/-- A request for a room is answered if no listener rejects it and the answer can be written. -/
theorem getRoom_ok (lawful : J.Lawful) (answerable : ∀ r, .playerLeft r ∉ w.handlersOf REQUEST_INFO)
    (roomId : Str) : (∃ response, (getRoom J s w roomId).2 = .ok response) ↔
      (∀ r, .playerLeft r ∉ w.handlersOf roomId) ∧
        ∀ info, s.answered (lastAnswer w roomId) = some info → info.utf8 = true := by
  by_cases accepts : ∀ r, .playerLeft r ∉ w.handlersOf roomId
  · obtain ⟨w', delivered, last⟩ := deliver_info (s := s)
      ((subscribe w).handlersOf roomId) (infoRequest_subscribe w)
      (fun r mem => answerable r (playerLeft_subscribe.1 mem))
      (fun r mem => accepts r (playerLeft_subscribe.1 mem))
    have answer : w'.infos w.nextInfo = lastAnswer w roomId := by
      have unset : (subscribe w).infos w.nextInfo = none := Function.update_self ..
      rw [last, unset, Option.or_none]
      rfl
    rw [getRoom, publish, delivered]
    dsimp only
    rw [answer]
    cases s.answered (lastAnswer w roomId) with
    | none => exact ⟨fun _ => ⟨accepts, nofun⟩, fun _ => ⟨_, rfl⟩⟩
    | some info =>
      refine (respondJson_ok lawful info).trans ⟨fun utf8 => ⟨accepts, ?_⟩, fun h => h.2 info rfl⟩
      intro info' e
      rw [← Option.some.inj e]
      exact utf8
  · refine ⟨fun ⟨response, answered⟩ => ?_, fun h => absurd h.1 accepts⟩
    obtain ⟨r, rejects⟩ := not_forall.1 accepts
    have mem := playerLeft_subscribe.2 (not_not.1 rejects)
    obtain ⟨x, thrown⟩ := deliver_rejected (s := s) (publishAnswer s)
      (fun text => show infoPayload.getString ≠ .ok text from nofun) mem (subscribe w)
    rw [getRoom, publish] at answered
    split at answered
    · cases answered
    · rename_i delivered
      rw [delivered] at thrown
      cases thrown

theorem stringAt_data {body : Json} {key text : Str} (found : stringAt body key = some text) :
    ∃ data, body.valueJson (lit "data") .null = .ok data := by
  cases body with
  | obj fields =>
    unfold Json.valueJson Json.value Json.valueOf
    dsimp only
    cases fields.lookup (lit "data") with
    | none => exact ⟨_, rfl⟩
    | some data => exact ⟨data, rfl⟩
  | _ => cases found

theorem publishExternal_ok (lawful : J.Lawful) (room key : Str) (data : Json) :
    (∃ response, (publishExternal J s w room key data).2 = .ok response) ↔
      ∀ what, thrown s key data w (w.handlersOf room) = some what → utf8Valid what = true := by
  have delivered := deliver_external (s := s) (publishAnswer s) key data (w.handlersOf room) w
  have answered : ∀ what, (publish s w room (externalPayload key data)).2 = some (.std what) →
      (publishExternal J s w room key data).2 = catchError J (.std what) := by
    intro what threw
    unfold publishExternal
    split <;> (rename_i result; rw [result] at threw; cases threw)
    rfl
  cases threw : thrown s key data w (w.handlersOf room) with
  | some what =>
    rw [threw] at delivered
    rw [answered what delivered, catchError_ok lawful]
    refine ⟨fun valid what' e => ?_, fun valid => valid what rfl⟩
    rw [← Option.some.inj e]
    exact valid
  | none =>
    rw [threw] at delivered
    refine ⟨fun _ => nofun, fun _ => ?_⟩
    rcases delivered with returned | rejected
    · change (publish s w room (externalPayload key data)).2 = none at returned
      unfold publishExternal
      split
      · rename_i result
        rw [result] at returned
        cases returned
      · exact ⟨_, rfl⟩
    · rw [answered notString rejected]
      exact (catchError_ok lawful notString).2 (by decide)

theorem postExternalMessage_ok (lawful : J.Lawful) (text : Str) :
    (∃ response, (postExternalMessage J s w text).2 = .ok response) ↔
      Readable J text ∧ Speakable J s w text := by
  unfold postExternalMessage Readable Speakable
  cases parsed : J.parse text with
  | error what =>
    refine (catchError_ok lawful what).trans ⟨fun valid => ⟨fun what' e => ?_, nofun⟩,
      fun valid => valid.1 what rfl⟩
    rw [← Except.error.inj e]
    exact valid
  | ok body =>
    dsimp only
    cases keyed : stringAt body (lit "key") with
    | none =>
      refine ⟨fun _ => ⟨nofun, fun body' key room data what e found => ?_⟩, fun _ => ⟨_, rfl⟩⟩
      obtain rfl := Except.ok.inj e
      cases keyed.symm.trans found
    | some key =>
      cases roomed : stringAt body (lit "room") with
      | none =>
        refine ⟨fun _ => ⟨nofun, fun body' key room data what e _ found => ?_⟩, fun _ => ⟨_, rfl⟩⟩
        obtain rfl := Except.ok.inj e
        cases roomed.symm.trans found
      | some room =>
        obtain ⟨data, read⟩ := stringAt_data keyed
        dsimp only
        rw [read]
        refine (publishExternal_ok lawful room key data).trans
          ⟨fun valid => ⟨nofun, fun body' key' room' data' what e keyed' roomed' read' => ?_⟩,
            fun h what => h.2 body key room data what rfl keyed roomed read⟩
        obtain rfl := Except.ok.inj e
        obtain rfl := Option.some.inj (keyed.symm.trans keyed')
        obtain rfl := Option.some.inj (roomed.symm.trans roomed')
        obtain rfl := Except.ok.inj (read.symm.trans read')
        exact valid what

theorem handleAdminRequest_ok (lawful : J.Lawful) (checked : Checked J) (admins : Dict Str)
    (request : Request) (answerable : ∀ r, .playerLeft r ∉ w.handlersOf REQUEST_INFO) :
    (∃ response, (handleAdminRequest J s admins w request).2 = .ok response) ↔
      Sane J s admins w request := by
  unfold handleAdminRequest Sane
  cases inside : adminPrefix.isPrefixOf request.path with
  | false => exact ⟨fun _ => nofun, fun _ => ⟨_, rfl⟩⟩
  | true =>
    cases allowed : checkBasicAuth s admins request with
    | false => exact ⟨fun _ _ => nofun, fun _ => ⟨_, rfl⟩⟩
    | true =>
      simp only [Bool.not_true, Bool.false_eq_true, if_false, forall_const]
      cases routeOf request with
      | home => exact ⟨fun _ => trivial, fun _ => (respondJson_ok lawful _).2 (by decide)⟩
      | rooms => exact ⟨fun _ => trivial, fun _ => getRooms_ok lawful checked w⟩
      | room roomId => exact getRoom_ok lawful answerable roomId
      | gameValues => exact ⟨fun _ => trivial, fun _ => getGameValues_ok lawful checked w⟩
      | setGameValues => exact postGameValues_ok lawful checked w request.body
      | externalMessage => exact postExternalMessage_ok lawful request.body
      | unknown => exact ⟨fun _ => trivial, fun _ => ⟨_, rfl⟩⟩

end

/-- Only the channel `PLAYER_LEFT` has listeners that want a string. -/
theorem playerLeft_channel {w : World} (sound : w.ledger.Sound) {key : Str} {r : RoomRef}
    (mem : .playerLeft r ∈ w.handlersOf key) : key = PLAYER_LEFT := by
  obtain ⟨l, listens, handles⟩ := List.mem_map.1 mem
  have owns := (sound.owns listens).1
  rw [Ledger.Owns, handles] at owns
  exact owns.2.1

/-- In every state that the server reaches, an admin request is answered and throws nothing exactly if it
is sane. -/
theorem handleAdminRequest_returns_iff {M : MsgpackC} {J : JsonText}
    {met : ServerConfig → Label Answer EnvEvent → Prop} {ls : List (Label Answer EnvEvent)}
    {c : ServerConfig} (lawful : J.Lawful) (checked : Checked J)
    (run : Run (server M J) met ServerConfig.initial ls c) (s : Surroundings) (admins : Dict Str)
    (request : Request) :
    (∃ response, (handleAdminRequest J s admins c.world request).2 = .ok response) ↔
      Sane J s admins c.world request := by
  refine handleAdminRequest_ok lawful checked admins request fun r mem => ?_
  have kept : Kept c := Kept.run run
  exact absurd (playerLeft_channel kept.sound mem) (by decide)

def strict : JsonText :=
  ⟨Text.dump, fun text => (Text.parse text).bind fun j => if j.utf8 then .ok j
    else .error (lit "[json.exception.parse_error.101] parse error: ill-formed UTF-8 byte")⟩

theorem strict_lawful : strict.Lawful where
  dump_valid := fun j valid => by
    obtain ⟨text, dump, parse⟩ := Text.reference_lawful.dump_valid j valid
    refine ⟨text, dump, ?_⟩
    change (Text.parse text).bind _ = _
    rw [show Text.parse text = .ok j.reread from parse]
    exact if_pos (utf8_reread valid)
  dump_invalid := Text.reference_lawful.dump_invalid

theorem strict_checked : Checked strict := by
  intro text j read
  change (Text.parse text).bind _ = _ at read
  cases parsed : Text.parse text with
  | error what => rw [parsed] at read; cases read
  | ok j' =>
    rw [parsed] at read
    simp only [Except.bind] at read
    split at read
    · rename_i valid
      obtain rfl := Except.ok.inj read
      exact valid
    · cases read

/-- Hooks that do nothing, and nothing that happens meanwhile. -/
def calm : Surroundings where
  decodeBlock := fun _ => none
  decodeBlock_length := nofun
  onExternalMessage := fun w _ _ _ => (w, none)
  meanwhile := id
  answered := id

def roomRequest (roomId : Str) : Request :=
  ⟨lit "GET", adminPrefix ++ lit "/rooms/" ++ roomId, [], ∅, []⟩

/-- A room is asked for its information. -/
theorem handleAdminRequest_returns_iff_room : ∃ ls c, Run (server shortest strict) (fun _ _ => True)
    ServerConfig.initial ls c ∧ (lastAnswer c.world (lit "r")).isSome = true ∧
    (∃ response, (handleAdminRequest strict calm ∅ c.world (roomRequest (lit "r"))).2 =
      .ok response) := by
  have found : (execute (server shortest strict) (fun _ _ => true) ServerConfig.initial
      startsUp).any (fun c => (lastAnswer c.world (lit "r")).isSome &&
        (lastAnswer c.world (lit "r")).all Json.utf8 &&
          (c.world.handlersOf (lit "r")).all fun handler => !handler.isPlayerLeft) = true := by
    decide +kernel
  obtain ⟨c, run, facts⟩ := exists_run _ found
  obtain ⟨answers, accepts⟩ := Bool.and_eq_true_iff.1 facts
  obtain ⟨answers, writes⟩ := Bool.and_eq_true_iff.1 answers
  have run' : Run (server shortest strict) (fun _ _ => True) _ _ c := run.weaken _ fun _ => trivial
  refine ⟨_, c, run', answers, (handleAdminRequest_returns_iff strict_lawful strict_checked run' calm ∅
    (roomRequest (lit "r"))).2 fun _ _ => ⟨fun r mem => ?_, fun info last => ?_⟩⟩
  · exact absurd (List.all_eq_true.1 accepts _ mem) Bool.false_ne_true
  · rw [show lastAnswer c.world (lit "r") = some info from last] at writes
    exact writes

/-- `GET /blueboat-panel/rooms/blueboat-player-left`, while there is a room. -/
theorem handleAdminRequest_playerLeft : ¬ ∀ (M : MsgpackC) (J : JsonText)
    (ls : List (Label Answer EnvEvent)) (c : ServerConfig), J.Lawful → Checked J →
    Run (server M J) (fun _ _ => True) ServerConfig.initial ls c →
    ∀ (s : Surroundings) (admins : Dict Str) (request : Request), ∃ response,
      (handleAdminRequest J s admins c.world request).2 = .ok response := by
  intro returns
  have found : (execute (server shortest strict) (fun _ _ => true) ServerConfig.initial
      startsUp).any (fun c => match (handleAdminRequest strict calm ∅ c.world
        (roomRequest PLAYER_LEFT)).2 with
      | .ok _ => false
      | .error _ => true) = true := by
    decide +kernel
  obtain ⟨c, run, throws⟩ := exists_run _ found
  obtain ⟨response, answered⟩ := returns _ _ _ c strict_lawful strict_checked
    (run.weaken _ fun _ => trivial) calm ∅ (roomRequest PLAYER_LEFT)
  rw [answered] at throws
  cases throws

/-! The threads of the server do what `publish` says. -/

section
variable {M : MsgpackC} {J : JsonText} {s : Surroundings} {c : ServerConfig} {tid : Tid}

def holding (c : ServerConfig) (tid : Tid) (w : World) (stack : List Cmd) (x : Option Exn) :
    ServerConfig := { c with world := w, running := some ⟨tid, stack, x⟩ }

def Ends (M : MsgpackC) (J : JsonText) (c : ServerConfig) (tid : Tid) (w : World)
    (stack next rest : List Cmd) : World × Option Exn → Prop
  | (w', none) => ∃ ls, Run (server M J) (fun _ _ => True) (holding c tid w stack none) ls
      (holding c tid w' next none)
  | (w', some x) => ∃ ls above, Run (server M J) (fun _ _ => True) (holding c tid w stack none) ls
      (holding c tid w' (above ++ rest) (some x))

theorem Ends.after {w w₁ : World} {stack stack₁ next rest : List Cmd} {result : World × Option Exn}
    {ls : List (Label Answer EnvEvent)} (h : Ends M J c tid w₁ stack₁ next rest result)
    (before : Run (server M J) (fun _ _ => True) (holding c tid w stack none) ls
      (holding c tid w₁ stack₁ none)) : Ends M J c tid w stack next rest result := by
  obtain ⟨w', x⟩ := result
  cases x with
  | none =>
    obtain ⟨ls', run⟩ := h
    exact ⟨_, before.append _ run⟩
  | some x =>
    obtain ⟨ls', above, run⟩ := h
    exact ⟨_, above, before.append _ run⟩

theorem ends_exec (alive : c.crashed = none) {w : World} {cmd : Cmd} {o : Out} {rest : List Cmd}
    (run : exec M J w cmd .next = some o) (goes : o.parks = false) :
    Run (server M J) (fun _ _ => True) (holding c tid w (cmd :: rest) none) [.act .next]
      (holding c tid o.world (o.push ++ rest) o.exn) := by
  have step : Step (server M J) (holding c tid w (cmd :: rest) none) (.act .next)
      (settle (holding c tid w (cmd :: rest) none) tid rest o) := .exec alive rfl run
  have same : settle (holding c tid w (cmd :: rest) none) tid rest o =
      holding c tid o.world (o.push ++ rest) o.exn := by
    cases o with
    | go | raise => rfl
    | park => cases goes
  rw [same] at step
  exact .snoc .nil trivial step

/-- The listeners in turn, if each of them does what `f` says. -/
theorem ends_deliver (alive : c.crashed = none) {payload : Json} {rest : List Cmd}
    {f : World → Handler → World × Option Exn}
    (each : ∀ w handler handlers, Ends M J c tid w (.deliver payload (handler :: handlers) :: rest)
      (.deliver payload handlers :: rest) rest (f w handler)) (handlers : List Handler) (w : World) :
    Ends M J c tid w (.deliver payload handlers :: rest) rest rest (deliver f w handlers) := by
  induction handlers generalizing w with
  | nil =>
    have run : exec M J w (.deliver payload []) .next = some (.go w []) := rfl
    exact ⟨_, ends_exec alive run rfl⟩
  | cons handler handlers ih =>
    have first := each w handler handlers
    rw [deliver]
    cases result : f w handler with
    | mk w' x =>
      rw [result] at first
      cases x with
      | some x => exact first
      | none =>
        obtain ⟨ls, run⟩ := first
        exact (ih w').after run

/-- The listeners that are not those of a room's channel. -/
theorem ends_listener (alive : c.crashed = none) {payload : Json}
    (reads : ∀ text, payload.getString ≠ .ok text) (answer : World → Json → World × Option Exn)
    {rest : List Cmd} (w : World) {handler : Handler} (other : ∀ r, handler ≠ .gameMessage r)
    (handlers : List Handler) : Ends M J c tid w (.deliver payload (handler :: handlers) :: rest)
      (.deliver payload handlers :: rest) rest (listener s answer payload w handler) := by
  cases handler with
  | gameMessage r => exact absurd rfl (other r)
  | infoRequest n =>
    have run : exec M J w (.deliver payload (.infoRequest n :: handlers)) .next = some (.go
        { w with infos := Function.update w.infos n (some payload) } [.deliver payload handlers]) :=
      rfl
    exact ⟨_, ends_exec alive run rfl⟩
  | playerLeft r =>
    cases read : payload.getString with
    | ok text => exact absurd read (reads text)
    | error x =>
      have run : exec M J w (.deliver payload (.playerLeft r :: handlers)) .next =
          some (.raise w x []) := by
        rw [exec, handle, read]
      rw [listener, read]
      exact ⟨_, [], ends_exec alive run rfl⟩

theorem ends_answer (alive : c.crashed = none) {info : Json}
    (silent : roomMessage info = .ok .ignored) (reads : ∀ text, info.getString ≠ .ok text)
    {rest : List Cmd} (w : World) (handler : Handler) (handlers : List Handler) :
    Ends M J c tid w (.deliver info (handler :: handlers) :: rest) (.deliver info handlers :: rest)
      rest (listener s (fun w _ => (w, none)) info w handler) := by
  cases handler with
  | gameMessage r =>
    have run : exec M J w (.deliver info (.gameMessage r :: handlers)) .next =
        some (.go w [.deliver info handlers]) := by
      rw [exec, handle, silent]
    rw [listener, silent]
    exact ⟨_, ends_exec alive run rfl⟩
  | infoRequest | playerLeft => exact ends_listener alive reads _ w (fun _ h => by cases h) handlers

theorem ends_publishAnswer (alive : c.crashed = none) (room : Room) {rest : List Cmd} (w : World) :
    Ends M J c tid w (.publish REQUEST_INFO room.info :: rest) rest rest
      (publishAnswer s w room.info) := by
  have run : exec M J w (.publish REQUEST_INFO room.info) .next =
      some (.go w [.deliver room.info (w.handlersOf REQUEST_INFO)]) := rfl
  refine Ends.after ?_ (ends_exec alive run rfl)
  refine ends_deliver alive (fun w handler handlers => ?_) (w.handlersOf REQUEST_INFO) w
  exact ends_answer alive (roomMessage_answer room) (fun _ => nofun) w handler handlers

/-- A thread of the server that publishes a request for information does what `publish` says. -/
theorem ends_publish (alive : c.crashed = none) (s : Surroundings) (roomId : Str) {rest : List Cmd}
    (w : World) : Ends M J c tid w (.publish roomId infoPayload :: rest) rest rest
      (publish s w roomId infoPayload) := by
  have run : exec M J w (.publish roomId infoPayload) .next =
      some (.go w [.deliver infoPayload (w.handlersOf roomId)]) := rfl
  refine Ends.after ?_ (ends_exec alive run rfl)
  refine ends_deliver alive (fun w handler handlers => ?_) (w.handlersOf roomId) w
  cases handler with
  | gameMessage r =>
    have asked : exec M J w (.deliver infoPayload (.gameMessage r :: handlers)) .next =
        some (.go (w.touch r) [.publish REQUEST_INFO (w.rooms r).info,
          .deliver infoPayload handlers]) := rfl
    have answered : Ends M J c tid (w.touch r)
        (.publish REQUEST_INFO (w.rooms r).info :: .deliver infoPayload handlers :: rest)
        (.deliver infoPayload handlers :: rest) (.deliver infoPayload handlers :: rest)
        (publishAnswer s (w.touch r) (w.rooms r).info) := ends_publishAnswer alive _ _
    have whole := answered.after (ends_exec alive asked rfl)
    change Ends M J c tid w _ _ rest (publishAnswer s (w.touch r) (w.rooms r).info)
    cases result : publishAnswer s (w.touch r) (w.rooms r).info with
    | mk w' x =>
      rw [result] at whole
      cases x with
      | none => exact whole
      | some x =>
        obtain ⟨ls, above, run⟩ := whole
        exact ⟨ls, above ++ [.deliver infoPayload handlers], by simpa using run⟩
  | infoRequest | playerLeft =>
      exact ends_listener alive (fun _ h => by cases h) _ w (fun _ h => by cases h) handlers

end

end Blueboat.Admin
