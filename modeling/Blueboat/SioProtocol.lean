import Blueboat.JsonText
import Blueboat.MsgpackCodec

set_option autoImplicit false

/-! `sio_protocol.cpp`: the frames on the wire and their parser. -/
namespace Blueboat.Sio

inductive FrameKind where
  | Open | Connect | Disconnect | Event | Ping | Pong | Close | Error | Other
  deriving DecidableEq

def CONNECT : Int32 := 0
def DISCONNECT : Int32 := 1
def EVENT : Int32 := 2
def ERROR_ : Int32 := 4
def BINARY_EVENT : Int32 := 5

def pongPacket : Str := lit "3"

structure ParsedFrame where
  kind : FrameKind := .Other
  sid : Str := []
  pingIntervalMs : Int32 := 25000
  pingTimeoutMs : Int32 := 5000
  event : Str := []
  data : Json := .null

section
variable (M : MsgpackC) (J : JsonText)

def ofInt (n : Int32) : Json := .int n.toInt64

def dumpText (j : Json) : Except Exn Str := (J.dump j).mapError Exn.std

def buildOpenFrame (sid : Str) (pingIntervalMs pingTimeoutMs : Int32) : Except Exn Str :=
  let payload := Json.ofFields [(lit "sid", .str sid), (lit "upgrades", .arr []),
    (lit "pingInterval", ofInt pingIntervalMs), (lit "pingTimeout", ofInt pingTimeoutMs)]
  (dumpText J payload).map fun text => lit "0" ++ text

def buildAckFrame (type : Int32) : Except Exn Str :=
  let packet := Json.ofFields [(lit "type", ofInt type), (lit "nsp", .str (lit "/"))]
  (dumpText J packet).map fun text => lit "4" ++ text

def buildConnectAckFrame : Except Exn Str := buildAckFrame J CONNECT

def buildDisconnectFrame : Except Exn Str := buildAckFrame J DISCONNECT

def eventArgs (eventName : Str) (data : Json) : List Json :=
  if data.isNull then [.str eventName] else [.str eventName, data]

def eventPacket (eventName : Str) (data : Json) : Json :=
  Json.ofFields [(lit "type", ofInt EVENT), (lit "nsp", .str (lit "/")),
    (lit "data", .arr (eventArgs eventName data))]

def buildEventFrame (eventName : Str) (data : Json) : Str :=
  4 :: encodeMsgpack M (eventPacket eventName data)

/-- The part of the binary branch after the payload was decoded. Both reads may throw, and no
`try` surrounds them. -/
def parsePacket (packet : Json) : Except Exn ParsedFrame :=
  if packet.isObject then
    match packet.valueInt (lit "type") (-1) with
    | .error x => .error x
    | .ok type =>
      if type = EVENT ∨ type = BINARY_EVENT then
        match packet.valueJson (lit "data") (.arr []) with
        | .error x => .error x
        | .ok (.arr (.str event :: more)) =>
          .ok { kind := .Event, event := event, data := more.headD .null }
        | .ok _ => .ok {}
      else .ok {}
  else .ok {}

def parseBinary (first : UInt8) (rest : Str) : Except Exn ParsedFrame :=
  if first ≠ 4 then .ok {}
  else
    match decodeMsgpack M rest with
    | .error _ => .ok {}
    | .ok packet => parsePacket packet

/-- The kind is set before the fields are read, so a frame whose fields are ill typed is still
an `Open` one. -/
def parseOpen (rest : Str) : ParsedFrame :=
  match J.parse rest with
  | .error _ => {}
  | .ok opened =>
    match opened.valueString (lit "sid") [] with
    | .error _ => { kind := .Open }
    | .ok sid =>
      match opened.valueInt (lit "pingInterval") 25000 with
      | .error _ => { kind := .Open, sid := sid }
      | .ok interval =>
        match opened.valueInt (lit "pingTimeout") 5000 with
        | .error _ => { kind := .Open, sid := sid, pingIntervalMs := interval }
        | .ok timeout =>
          { kind := .Open, sid := sid, pingIntervalMs := interval, pingTimeoutMs := timeout }

def parseMessage (rest : Str) : ParsedFrame :=
  match J.parse rest with
  | .error _ => {}
  | .ok packet =>
    match packet.valueInt (lit "type") (-1) with
    | .error _ => {}
    | .ok type =>
      if type = CONNECT then { kind := .Connect }
      else if type = DISCONNECT then { kind := .Disconnect }
      else if type = ERROR_ then { kind := .Error }
      else {}

def parseText (typeChar : UInt8) (rest : Str) : ParsedFrame :=
  if typeChar = 0x30 then parseOpen J rest
  else if typeChar = 0x31 then { kind := .Close }
  else if typeChar = 0x32 then { kind := .Ping }
  else if typeChar = 0x33 then { kind := .Pong }
  else if typeChar = 0x34 then parseMessage J rest
  else {}

def parseFrame (isBinary : Bool) (payload : Str) : Except Exn ParsedFrame :=
  match payload with
  | [] => .ok {}
  | first :: rest => if isBinary then parseBinary M first rest else .ok (parseText J first rest)

end

theorem eventPacket_fields (eventName : Str) (data : Json) :
    eventPacket eventName data = .obj [(lit "data", .arr (eventArgs eventName data)),
      (lit "nsp", .str (lit "/")), (lit "type", .int 2)] := by
  rfl

theorem eventPacket_packable {eventName : Str} {data : Json} (hn : eventName.length < 2 ^ 32)
    (hd : packable data = true) : packable (eventPacket eventName data) = true := by
  rw [eventPacket_fields]
  by_cases h : data.isNull = true
  · simpa [packable, packableFields, packableList, eventArgs, h, lit] using hn
  · simpa [packable, packableFields, packableList, eventArgs, h, hd, lit] using hn

theorem eventPacket_ordered {eventName : Str} {data : Json} (hd : data.ordered = true) :
    (eventPacket eventName data).ordered = true := by
  have hkeys : [lit "data", lit "nsp", lit "type"].Pairwise (· < ·) := by decide
  rw [eventPacket_fields]
  by_cases h : data.isNull = true
  · simpa [Json.ordered, Json.orderedFields, Json.orderedList, eventArgs, h] using hkeys
  · simpa [Json.ordered, Json.orderedFields, Json.orderedList, eventArgs, h, hd] using hkeys

theorem parsePacket_event (name : Str) (more : List Json) :
    parsePacket (.obj [(lit "data", .arr (.str name :: more)), (lit "nsp", .str (lit "/")),
      (lit "type", .uint 2)]) =
      .ok { kind := .Event, event := name, data := more.headD .null } := by
  rfl

theorem parsePacket_copy {name : Str} {data packet : Json}
    (h : Copies (eventPacket name data) packet) :
    ∃ f, parsePacket packet = .ok f ∧ f.kind = .Event ∧ f.event = name ∧ Copies data f.data := by
  rw [eventPacket_fields] at h
  obtain ⟨_, rfl, _, _, rfl, ⟨ys, rfl, hys⟩, _, _, rfl, rfl, _, _, rfl, rfl, rfl⟩ := h
  by_cases hnull : data.isNull = true
  · obtain rfl : data = .null := by cases data <;> simp [Json.isNull] at hnull ⊢
    obtain ⟨_, _, rfl, rfl, rfl⟩ := hys
    exact ⟨_, parsePacket_event name [], rfl, rfl, rfl⟩
  · rw [eventArgs, if_neg hnull] at hys
    obtain ⟨_, _, rfl, rfl, y, _, rfl, hy, rfl⟩ := hys
    exact ⟨_, parsePacket_event name [y], rfl, rfl, hy⟩

theorem parseFrame_event {M : MsgpackC} (hM : M.Lawful) (J : JsonText) {name : Str} {data : Json}
    (hn : name.length < 2 ^ 32) (hp : packable data = true) (ho : data.ordered = true) :
    ∃ f, parseFrame M J true (buildEventFrame M name data) = .ok f ∧ f.kind = .Event ∧
      f.event = name ∧ Copies data f.data := by
  obtain ⟨packet, hdec, hcopy⟩ := decode_encode hM (eventPacket_packable hn hp)
    (eventPacket_ordered ho)
  obtain ⟨f, hf, hkind, hevent, hdata⟩ := parsePacket_copy hcopy
  refine ⟨f, ?_, hkind, hevent, hdata⟩
  simpa [parseFrame, buildEventFrame, parseBinary, hdec] using hf

/-! Text frames. -/

theorem dumpText_ok {J : JsonText} (hJ : J.Lawful) {j : Json} (hj : j.utf8 = true) :
    ∃ text, dumpText J j = .ok text ∧ J.parse text = .ok j.reread := by
  obtain ⟨text, hdump, hparse⟩ := hJ.dump_valid j hj
  exact ⟨text, by rw [dumpText, hdump]; rfl, hparse⟩

/-- The sign of an integer decides the kind it is read back as; `get<int>` does not see it. -/
theorem getInt_reread (n : Int32) : (ofInt n).reread.getInt = .ok n := by
  unfold ofInt Json.reread
  split_ifs with h
  · change Except.ok n.toInt64.toUInt64.toUInt32.toInt32 = Except.ok n
    congr 1
    apply Int32.toBitVec_inj.1
    change BitVec.setWidth 32 n.toInt64.toBitVec = n.toBitVec
    rw [← BitVec.signExtend_eq_setWidth_of_le _ (by omega)]
    exact congrArg Int32.toBitVec (Int32.toInt32_toInt64 n)
  · change Except.ok n.toInt64.toInt32 = Except.ok n
    rw [Int32.toInt32_toInt64]

def openFrame (sid : Str) (interval timeout : Int32) : ParsedFrame :=
  { kind := .Open, sid := sid, pingIntervalMs := interval, pingTimeoutMs := timeout }

theorem parseFrame_open {M : MsgpackC} {J : JsonText} (hJ : J.Lawful) {sid : Str}
    (hs : utf8Valid sid = true) (interval timeout : Int32) :
    ∃ frame, buildOpenFrame J sid interval timeout = .ok frame ∧
      parseFrame M J false frame = .ok (openFrame sid interval timeout) := by
  let payload := Json.ofFields [(lit "sid", .str sid), (lit "upgrades", .arr []),
    (lit "pingInterval", ofInt interval), (lit "pingTimeout", ofInt timeout)]
  have hutf8 : payload.utf8 = true := by
    have hkeys : [lit "pingInterval", lit "pingTimeout", lit "sid", lit "upgrades"].all
      utf8Valid = true := by decide
    simp only [List.all_cons, List.all_nil, Bool.and_true, Bool.and_eq_true] at hkeys
    change Json.utf8Fields [(lit "pingInterval", ofInt interval), (lit "pingTimeout", ofInt timeout),
      (lit "sid", .str sid), (lit "upgrades", .arr [])] = true
    simp only [Json.utf8Fields, Json.utf8, Json.utf8List, ofInt, hkeys, hs, Bool.and_true]
  have hread : payload.reread = .obj [(lit "pingInterval", (ofInt interval).reread),
      (lit "pingTimeout", (ofInt timeout).reread), (lit "sid", .str sid),
      (lit "upgrades", .arr [])] := by
    rfl
  obtain ⟨text, hdump, hparse⟩ := dumpText_ok hJ hutf8
  refine ⟨lit "0" ++ text, by rw [buildOpenFrame, hdump]; rfl, ?_⟩
  have hsid : payload.reread.valueString (lit "sid") [] = .ok sid := by rw [hread]; rfl
  have hinterval : payload.reread.valueInt (lit "pingInterval") 25000 = .ok interval := by
    rw [hread]; exact getInt_reread interval
  have htimeout : payload.reread.valueInt (lit "pingTimeout") 5000 = .ok timeout := by
    rw [hread]; exact getInt_reread timeout
  change Except.ok (parseOpen J text) = _
  simp only [parseOpen, hparse, hsid, hinterval, htimeout]
  rfl

theorem parseFrame_ack {M : MsgpackC} {J : JsonText} (hJ : J.Lawful) (type : Int32) :
    ∃ frame text, buildAckFrame J type = .ok frame ∧
      parseFrame M J false frame = .ok (parseMessage J text) ∧
      ∃ packet, J.parse text = .ok packet ∧ packet.valueInt (lit "type") (-1) = .ok type := by
  let payload := Json.ofFields [(lit "type", ofInt type), (lit "nsp", .str (lit "/"))]
  have hutf8 : payload.utf8 = true := by
    have hkeys : [lit "nsp", lit "/", lit "type"].all utf8Valid = true := by decide
    simp only [List.all_cons, List.all_nil, Bool.and_true, Bool.and_eq_true] at hkeys
    change Json.utf8Fields [(lit "nsp", .str (lit "/")), (lit "type", ofInt type)] = true
    simp only [Json.utf8Fields, Json.utf8, ofInt, hkeys, Bool.and_true]
  obtain ⟨text, hdump, hparse⟩ := dumpText_ok hJ hutf8
  refine ⟨lit "4" ++ text, text, by rw [buildAckFrame, hdump]; rfl, rfl, _, hparse, ?_⟩
  exact getInt_reread type

/-- Every frame that is built is parsed back to what it was built from. -/
theorem frame_round_trip (M : MsgpackC) (J : JsonText) (hM : M.Lawful) (hJ : J.Lawful) :
    (∀ (name : Str) (data : Value), name.length < 2 ^ 32 → packable data.json = true →
      ∃ f, parseFrame M J true (buildEventFrame M name data.json) = .ok f ∧ f.kind = .Event ∧
        f.event = name ∧ f.data.eqv data.json = true) ∧
    (∀ (sid : Str) (i t : Int32), utf8Valid sid = true →
      ∃ frame f, buildOpenFrame J sid i t = .ok frame ∧ parseFrame M J false frame = .ok f ∧
        f.kind = .Open ∧ f.sid = sid ∧ f.pingIntervalMs = i ∧ f.pingTimeoutMs = t) ∧
    (∃ frame f, buildConnectAckFrame J = .ok frame ∧ parseFrame M J false frame = .ok f ∧
      f.kind = .Connect) ∧
    ∃ frame f, buildDisconnectFrame J = .ok frame ∧ parseFrame M J false frame = .ok f ∧
      f.kind = .Disconnect := by
  refine ⟨fun name data hn hp => ?_, fun sid i t hs => ?_, ?_, ?_⟩
  · obtain ⟨f, hf, hkind, hevent, hcopy⟩ := parseFrame_event hM J hn hp data.ordered
    exact ⟨f, hf, hkind, hevent, hcopy.eqv hp⟩
  · obtain ⟨frame, hbuild, hparse⟩ := parseFrame_open (M := M) hJ hs i t
    exact ⟨frame, _, hbuild, hparse, rfl, rfl, rfl, rfl⟩
  · obtain ⟨frame, text, hbuild, hparse, packet, htext, htype⟩ := parseFrame_ack (M := M) hJ CONNECT
    exact ⟨frame, _, hbuild, hparse, by simp only [parseMessage, htext, htype]; rfl⟩
  · obtain ⟨frame, text, hbuild, hparse, packet, htext, htype⟩ :=
      parseFrame_ack (M := M) hJ DISCONNECT
    exact ⟨frame, _, hbuild, hparse, by simp only [parseMessage, htext, htype]; rfl⟩

def greeting : Value where
  json := .obj [(lit "n", .int 7), (lit "to", .arr [.str (lit "a"), .null])]
  ordered := by decide

theorem frame_round_trip_greeting :
    ∃ f, parseFrame shortest Text.reference true
        (buildEventFrame shortest (lit "chat") greeting.json) = .ok f ∧ f.kind = .Event ∧
      f.event = lit "chat" ∧ f.data.eqv greeting.json = true :=
  (frame_round_trip shortest Text.reference shortest_lawful Text.reference_lawful).1
    (lit "chat") greeting (by decide) (by decide)

end Blueboat.Sio
