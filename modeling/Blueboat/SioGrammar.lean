import Blueboat.SioProtocol

set_option autoImplicit false

/-! Which payloads are frames, and when `parse_frame` takes exactly these for what they are. -/
namespace Blueboat.Sio

/-- The value is the number `n`: an integer of either kind, or the float that equals it. -/
def denotes (v : Json) (n : Int32) : Bool :=
  match v with
  | .int k => k == n.toInt64
  | .uint k => (k.toNat : ℤ) == n.toInt
  | .float bits => Json.floatEq bits (Json.intToDouble n.toInt64)
  | _ => false

structure OpenFields (fields : List (Str × Json)) : Prop where
  sid : ∀ v, fields.lookup (lit "sid") = some v → v.isString = true
  pingInterval : ∀ v, fields.lookup (lit "pingInterval") = some v → ∃ n, denotes v n = true
  pingTimeout : ∀ v, fields.lookup (lit "pingTimeout") = some v → ∃ n, denotes v n = true

section
variable (M : MsgpackC) (J : JsonText)

/-- The grammar of the frames. -/
inductive IsFrame : Bool → Str → FrameKind → Prop where
  | event {rest event : Str} {fields : List (Str × Json)} {type : Json} {more : List Json}
      (decodes : decodeMsgpack M rest = .ok (.obj fields))
      (typed : fields.lookup (lit "type") = some type)
      (number : denotes type EVENT = true ∨ denotes type BINARY_EVENT = true)
      (args : fields.lookup (lit "data") = some (.arr (.str event :: more))) :
    IsFrame true (4 :: rest) .Event
  | connect {rest : Str} {fields : List (Str × Json)} {type : Json}
      (parses : J.parse rest = .ok (.obj fields)) (typed : fields.lookup (lit "type") = some type)
      (number : denotes type CONNECT = true) : IsFrame false (0x34 :: rest) .Connect
  | disconnect {rest : Str} {fields : List (Str × Json)} {type : Json}
      (parses : J.parse rest = .ok (.obj fields)) (typed : fields.lookup (lit "type") = some type)
      (number : denotes type DISCONNECT = true) : IsFrame false (0x34 :: rest) .Disconnect
  | error {rest : Str} {fields : List (Str × Json)} {type : Json}
      (parses : J.parse rest = .ok (.obj fields)) (typed : fields.lookup (lit "type") = some type)
      (number : denotes type ERROR_ = true) : IsFrame false (0x34 :: rest) .Error
  | opening {rest : Str} {fields : List (Str × Json)} (parses : J.parse rest = .ok (.obj fields))
      (fits : OpenFields fields) : IsFrame false (0x30 :: rest) .Open
  | close {rest : Str} : IsFrame false (0x31 :: rest) .Close
  | ping {rest : Str} : IsFrame false (0x32 :: rest) .Ping
  | pong {rest : Str} : IsFrame false (0x33 :: rest) .Pong

/-- `parse_frame` returns, with the kind that the payload has and with nothing if it has none. -/
def Grammatical (isBinary : Bool) (payload : Str) : Prop :=
  ∃ f, parseFrame M J isBinary payload = .ok f ∧
    (∀ kind, kind ≠ .Other → (f.kind = kind ↔ IsFrame M J isBinary payload kind)) ∧
    ((∀ kind, ¬ IsFrame M J isBinary payload kind) → f = {})

/-- The type of a packet is not taken for a number that it is not, and an open packet is one. -/
structure Plain (isBinary : Bool) (payload : Str) : Prop where
  event : ∀ rest fields type, isBinary = true → payload = 4 :: rest →
    decodeMsgpack M rest = .ok (.obj fields) → fields.lookup (lit "type") = some type →
      ∃ n, type.getInt = .ok n ∧ (n = EVENT ∨ n = BINARY_EVENT → ∀ event more,
        fields.lookup (lit "data") = some (.arr (.str event :: more)) → denotes type n = true)
  message : ∀ rest fields type n, isBinary = false → payload = 0x34 :: rest →
    J.parse rest = .ok (.obj fields) → fields.lookup (lit "type") = some type →
      type.getInt = .ok n → n = CONNECT ∨ n = DISCONNECT ∨ n = ERROR_ → denotes type n = true
  opening : ∀ rest packet, isBinary = false → payload = 0x30 :: rest → J.parse rest = .ok packet →
    ∃ fields, packet = .obj fields ∧ OpenFields fields

end

def types : List Int32 := [CONNECT, DISCONNECT, EVENT, ERROR_, BINARY_EVENT]

theorem mem_types {n : Int32} (listed : n ∈ types) :
    n = CONNECT ∨ n = DISCONNECT ∨ n = EVENT ∨ n = ERROR_ ∨ n = BINARY_EVENT := by
  simpa only [types, List.mem_cons, List.not_mem_nil, or_false] using listed

theorem truncate_zero {bits : UInt64} (zero : bits.toNat % 2 ^ 63 = 0) :
    Json.truncate 32 bits = 0 := by
  have exponent : bits.toNat / 2 ^ 52 % 2 ^ 11 < 1023 := by omega
  unfold Json.truncate
  dsimp only
  rw [if_pos exponent]

/-- A number that is one of the types is read as that type. -/
theorem getInt_denotes {type : Json} {n : Int32} (number : denotes type n = true)
    (listed : n ∈ types) : type.getInt = .ok n := by
  cases type with
  | int k =>
    have same : k = n.toInt64 := beq_iff_eq.1 number
    rw [Json.getInt, same, Int32.toInt32_toInt64]
  | uint k =>
    have same : (k.toNat : ℤ) = n.toInt := beq_iff_eq.1 number
    have bound := k.toNat_lt
    obtain rfl : k = UInt64.ofNat n.toInt.toNat := by
      refine UInt64.toNat_inj.1 ?_
      rw [UInt64.toNat_ofNat']
      omega
    clear number same bound
    rcases mem_types listed with rfl | rfl | rfl | rfl | rfl <;> rfl
  | float bits =>
    have same : Json.floatEq bits (Json.intToDouble n.toInt64) = true := number
    simp only [Json.floatEq, Bool.and_eq_true, Bool.or_eq_true, beq_iff_eq] at same
    refine congrArg Except.ok ?_
    obtain ⟨-, rfl | ⟨zero, none⟩⟩ := same
    · clear number
      rcases mem_types listed with rfl | rfl | rfl | rfl | rfl <;> decide +kernel
    · have nothing : n = 0 := by
        rcases mem_types listed with rfl | rfl | rfl | rfl | rfl <;> revert none <;>
          decide +kernel
      rw [truncate_zero zero, nothing]
      rfl
  | null | bool | str | arr | obj => cases number

section
variable {M : MsgpackC} {J : JsonText}

/-- A payload is a frame of one kind at most. -/
theorem IsFrame.unique {isBinary : Bool} {payload : Str} {kind kind' : FrameKind}
    (h : IsFrame M J isBinary payload kind) (h' : IsFrame M J isBinary payload kind') :
    kind = kind' := by
  cases h with
  | event => cases h'; rfl
  | connect parses typed number | disconnect parses typed number | error parses typed number =>
    have read := getInt_denotes number (by decide)
    cases h' with
    | connect parses' typed' number' | disconnect parses' typed' number'
    | error parses' typed' number' =>
      have read' := getInt_denotes number' (by decide)
      cases parses.symm.trans parses'
      cases typed.symm.trans typed'
      first | rfl | exact absurd (read.symm.trans read') (by decide)
  | opening => cases h'; rfl
  | close => cases h'; rfl
  | ping => cases h'; rfl
  | pong => cases h'; rfl

theorem IsFrame.proper {isBinary : Bool} {payload : Str} {kind : FrameKind}
    (h : IsFrame M J isBinary payload kind) : kind ≠ .Other := by
  cases h <;> nofun

theorem Grammatical.of_frame {isBinary : Bool} {payload : Str} {f : ParsedFrame}
    (parses : parseFrame M J isBinary payload = .ok f)
    (frame : IsFrame M J isBinary payload f.kind) : Grammatical M J isBinary payload :=
  ⟨f, parses, fun _ _ => ⟨fun same => same ▸ frame, fun other => frame.unique other⟩,
    fun none => absurd frame (none f.kind)⟩

theorem Grammatical.of_none {isBinary : Bool} {payload : Str}
    (parses : parseFrame M J isBinary payload = .ok {})
    (none : ∀ kind, ¬ IsFrame M J isBinary payload kind) : Grammatical M J isBinary payload :=
  ⟨{}, parses, fun kind proper => ⟨fun same => absurd same.symm proper,
    fun frame => absurd frame (none kind)⟩, fun _ => rfl⟩

theorem Grammatical.frame {isBinary : Bool} {payload : Str} {f : ParsedFrame}
    (h : Grammatical M J isBinary payload) (parses : parseFrame M J isBinary payload = .ok f)
    (proper : f.kind ≠ .Other) : IsFrame M J isBinary payload f.kind := by
  obtain ⟨f', parses', kinds, -⟩ := h
  cases parses.symm.trans parses'
  exact (kinds f.kind proper).1 rfl

theorem value_typed {α : Type} {get : Json → Except Exn α} {fields : List (Str × Json)} {key : Str}
    {v : Json} {default : α} (typed : fields.lookup key = some v) :
    Json.value get (.obj fields) key default = get v := by
  simp only [Json.value, Json.valueOf, typed]

theorem value_absent {α : Type} {get : Json → Except Exn α} {fields : List (Str × Json)} {key : Str}
    {default : α} (absent : fields.lookup key = none) :
    Json.value get (.obj fields) key default = .ok default := by
  simp only [Json.value, Json.valueOf, absent]

theorem parsePacket_typed {fields : List (Str × Json)} {type : Json} {n : Int32}
    (typed : fields.lookup (lit "type") = some type) (read : type.getInt = .ok n) :
    parsePacket (.obj fields) =
      if n = EVENT ∨ n = BINARY_EVENT then
        match Json.valueJson (.obj fields) (lit "data") (.arr []) with
        | .error x => .error x
        | .ok (.arr (.str event :: more)) =>
          .ok { kind := .Event, event := event, data := more.headD .null }
        | .ok _ => .ok {}
      else .ok {} := by
  have object : (Json.obj fields).isObject = true := rfl
  rewrite [parsePacket, if_pos object, Json.valueInt, value_typed typed, read]
  rfl

/-- The binary branch: the frame is an event, or there is nothing in it. -/
theorem parsePacket_cases {fields : List (Str × Json)} {type : Json} {n : Int32}
    (typed : fields.lookup (lit "type") = some type) (read : type.getInt = .ok n) :
    (∃ event more, (n = EVENT ∨ n = BINARY_EVENT) ∧
      fields.lookup (lit "data") = some (.arr (.str event :: more)) ∧
      parsePacket (.obj fields) = .ok { kind := .Event, event := event, data := more.headD .null }) ∨
    (parsePacket (.obj fields) = .ok {} ∧ ∀ event more, (n = EVENT ∨ n = BINARY_EVENT) →
      fields.lookup (lit "data") ≠ some (.arr (.str event :: more))) := by
  rw [parsePacket_typed typed read]
  by_cases typing : n = EVENT ∨ n = BINARY_EVENT
  · rw [if_pos typing, Json.valueJson]
    cases args : fields.lookup (lit "data") with
    | none =>
      rw [value_absent args]
      exact .inr ⟨rfl, nofun⟩
    | some data =>
      rw [value_typed args]
      split
      · contradiction
      · rename_i event more same
        cases same
        exact .inl ⟨event, more, typing, rfl, rfl⟩
      · rename_i other same
        cases same
        refine .inr ⟨rfl, fun event more _ same => ?_⟩
        cases same
        exact other event more rfl
  · rw [if_neg typing]
    exact .inr ⟨rfl, fun _ _ typed => absurd typed typing⟩

/-- The kind of a packet of that type; the other types are those of no frame. -/
def messageKind (n : Int32) : FrameKind :=
  if n = CONNECT then .Connect
  else if n = DISCONNECT then .Disconnect
  else if n = ERROR_ then .Error
  else .Other

theorem parseMessage_typed {rest : Str} {fields : List (Str × Json)} {type : Json} {n : Int32}
    (parses : J.parse rest = .ok (.obj fields)) (typed : fields.lookup (lit "type") = some type)
    (read : type.getInt = .ok n) : parseMessage J rest = { kind := messageKind n } := by
  rw [parseMessage, parses]
  dsimp only
  rw [Json.valueInt, value_typed typed, read, messageKind]
  dsimp only
  (repeat' split) <;> rfl

theorem isFrame_message {rest : Str} {kind : FrameKind} :
    IsFrame M J false (0x34 :: rest) kind ↔ ∃ fields type n, J.parse rest = .ok (.obj fields) ∧
      fields.lookup (lit "type") = some type ∧ denotes type n = true ∧
        (n = CONNECT ∨ n = DISCONNECT ∨ n = ERROR_) ∧ messageKind n = kind := by
  refine ⟨fun frame => ?_, ?_⟩
  · cases frame with
    | connect parses typed number =>
      exact ⟨_, _, CONNECT, parses, typed, number, .inl rfl, rfl⟩
    | disconnect parses typed number =>
      exact ⟨_, _, DISCONNECT, parses, typed, number, .inr (.inl rfl), rfl⟩
    | error parses typed number =>
      exact ⟨_, _, ERROR_, parses, typed, number, .inr (.inr rfl), rfl⟩
  · rintro ⟨fields, type, n, parses, typed, number, rfl | rfl | rfl, rfl⟩
    · exact .connect parses typed number
    · exact .disconnect parses typed number
    · exact .error parses typed number

theorem parseOpen_kind {rest : Str} {packet : Json} (parses : J.parse rest = .ok packet) :
    (parseOpen J rest).kind = .Open := by
  rw [parseOpen, parses]
  dsimp only
  (repeat' split) <;> rfl

/-! Grammatical payloads are plain. -/

theorem Grammatical.plain {isBinary : Bool} {payload : Str} (h : Grammatical M J isBinary payload) :
    Plain M J isBinary payload := by
  refine ⟨?_, ?_, ?_⟩
  · rintro rest fields type rfl rfl decodes typed
    have parses : parseFrame M J true (4 :: rest) = parsePacket (.obj fields) := by
      rw [parseFrame, if_pos rfl, parseBinary, if_neg (by decide), decodes]
    cases read : type.getInt with
    | error x =>
      obtain ⟨f, result, -⟩ := h
      have object : (Json.obj fields).isObject = true := rfl
      rw [parses, parsePacket, if_pos object, Json.valueInt, value_typed typed, read] at result
      cases result
    | ok n =>
      refine ⟨n, rfl, fun typing event more args => ?_⟩
      rcases parsePacket_cases typed read with ⟨event, more, -, -, result⟩ | ⟨-, other⟩
      · cases h.frame (parses.trans result) (by rintro ⟨⟩) with
        | event decodes' typed' number =>
          cases decodes.symm.trans decodes'
          cases typed.symm.trans typed'
          rcases number with number | number <;>
            have read' := getInt_denotes number (by decide) <;>
            cases read.symm.trans read' <;>
            exact number
      · exact absurd args (other event more typing)
  · rintro rest fields type n rfl rfl parses typed read typing
    have result : parseFrame M J false (0x34 :: rest) = .ok (parseMessage J rest) := rfl
    rw [parseMessage_typed parses typed read] at result
    have proper : messageKind n ≠ .Other := by rcases typing with rfl | rfl | rfl <;> decide
    obtain ⟨fields', type', n', parses', typed', number, typing', -⟩ :=
      isFrame_message.1 (h.frame result proper)
    cases parses.symm.trans parses'
    cases typed.symm.trans typed'
    have read' := getInt_denotes number (by rcases typing' with rfl | rfl | rfl <;> decide)
    cases read.symm.trans read'
    exact number
  · rintro rest packet rfl rfl parses
    have result : parseFrame M J false (0x30 :: rest) = .ok (parseOpen J rest) := rfl
    have frame := h.frame result (by rw [parseOpen_kind parses]; rintro ⟨⟩)
    rw [parseOpen_kind parses] at frame
    cases frame with
    | opening parses' fits =>
      cases parses.symm.trans parses'
      exact ⟨_, rfl, fits⟩

/-! Plain payloads are grammatical. -/

theorem Plain.binary {first : UInt8} {rest : Str} (h : Plain M J true (first :: rest)) :
    Grammatical M J true (first :: rest) := by
  by_cases frame : first = 4
  · subst frame
    have result : parseFrame M J true (4 :: rest) = parseBinary M 4 rest := rfl
    rw [parseBinary, if_neg (by decide)] at result
    cases decodes : decodeMsgpack M rest with
    | error x =>
      rw [decodes] at result
      refine .of_none result fun kind frame => ?_
      cases frame with
      | event decodes' => cases decodes.symm.trans decodes'
    | ok packet =>
      rw [decodes] at result
      cases packet with
      | obj fields =>
        cases typed : fields.lookup (lit "type") with
        | none =>
          have object : (Json.obj fields).isObject = true := rfl
          dsimp only at result
          rw [parsePacket, if_pos object, Json.valueInt, value_absent typed] at result
          refine .of_none result fun kind frame => ?_
          cases frame with
          | event decodes' typed' =>
            cases decodes.symm.trans decodes'
            cases typed.symm.trans typed'
        | some type =>
          obtain ⟨n, read, number⟩ := h.event rest fields type rfl rfl decodes typed
          rcases parsePacket_cases typed read with ⟨event, more, typing, args, same⟩ | ⟨same, other⟩
          · have denoted := number typing event more args
            refine .of_frame (result.trans same) (.event decodes typed ?_ args)
            exact typing.imp (fun same => by rwa [same] at denoted) fun same => by rwa [same] at denoted
          · refine .of_none (result.trans same) fun kind frame => ?_
            cases frame with
            | event decodes' typed' number' args =>
              cases decodes.symm.trans decodes'
              cases typed.symm.trans typed'
              refine other _ _ ?_ args
              refine number'.imp (fun number => ?_) fun number => ?_ <;>
                exact Except.ok.inj (read.symm.trans (getInt_denotes number (by decide)))
      | _ =>
        refine .of_none result fun kind frame => ?_
        cases frame with
        | event decodes' => cases decodes.symm.trans decodes'
  · have result : parseFrame M J true (first :: rest) = .ok {} := by
      rw [parseFrame, if_pos rfl, parseBinary, if_pos frame]
    refine .of_none result fun kind event => ?_
    cases event
    exact frame rfl

theorem Plain.opens {rest : Str} (h : Plain M J false (0x30 :: rest)) :
    Grammatical M J false (0x30 :: rest) := by
  have result : parseFrame M J false (0x30 :: rest) = .ok (parseOpen J rest) := rfl
  cases parses : J.parse rest with
  | error x =>
    rw [parseOpen, parses] at result
    refine .of_none result fun kind frame => ?_
    cases frame with
    | opening parses' => cases parses.symm.trans parses'
  | ok packet =>
    obtain ⟨fields, rfl, fits⟩ := h.opening rest packet rfl rfl parses
    refine .of_frame result ?_
    rw [parseOpen_kind parses]
    exact .opening parses fits

theorem Plain.packet {rest : Str} (h : Plain M J false (0x34 :: rest)) :
    Grammatical M J false (0x34 :: rest) := by
  have result : parseFrame M J false (0x34 :: rest) = .ok (parseMessage J rest) := rfl
  have absent : (∀ fields type, J.parse rest = .ok (.obj fields) →
      fields.lookup (lit "type") = some type → ∀ n, type.getInt = .ok n →
        messageKind n = .Other) → parseMessage J rest = {} →
      Grammatical M J false (0x34 :: rest) := by
    intro other same
    rw [same] at result
    refine .of_none result fun kind frame => ?_
    obtain ⟨fields, type, n, parses, typed, number, typing, rfl⟩ := isFrame_message.1 frame
    have read := getInt_denotes number (by rcases typing with rfl | rfl | rfl <;> decide)
    exact frame.proper (other fields type parses typed n read)
  cases parses : J.parse rest with
  | error x => exact absent (by rw [parses]; rintro _ _ ⟨⟩) (by rw [parseMessage, parses])
  | ok packet =>
    cases packet with
    | obj fields =>
      cases typed : fields.lookup (lit "type") with
      | none =>
        refine absent (fun fields' type' parses' typed' => ?_) ?_
        · cases parses.symm.trans parses'
          cases typed.symm.trans typed'
        · rw [parseMessage, parses]
          dsimp only
          rw [Json.valueInt, value_absent typed]
          rfl
      | some type =>
        cases read : type.getInt with
        | error x =>
          refine absent (fun fields' type' parses' typed' n read' => ?_) ?_
          · cases parses.symm.trans parses'
            cases typed.symm.trans typed'
            cases read.symm.trans read'
          · rw [parseMessage, parses]
            dsimp only
            rw [Json.valueInt, value_typed typed, read]
        | ok n =>
          by_cases typing : n = CONNECT ∨ n = DISCONNECT ∨ n = ERROR_
          · have number := h.message rest fields type n rfl rfl parses typed read typing
            rw [parseMessage_typed parses typed read] at result
            exact .of_frame result (isFrame_message.2
              ⟨fields, type, n, parses, typed, number, typing, rfl⟩)
          · have other : messageKind n = .Other := by
              obtain ⟨connect, disconnect, error⟩ : n ≠ CONNECT ∧ n ≠ DISCONNECT ∧ n ≠ ERROR_ := by
                simpa [not_or] using typing
              rw [messageKind, if_neg connect, if_neg disconnect, if_neg error]
            refine absent (fun fields' type' parses' typed' n' read' => ?_) ?_
            · cases parses.symm.trans parses'
              cases typed.symm.trans typed'
              cases read.symm.trans read'
              exact other
            · rw [parseMessage_typed parses typed read, other]
    | _ => exact absent (by rw [parses]; rintro _ _ ⟨⟩) (by rw [parseMessage, parses]; rfl)

theorem Plain.grammatical {isBinary : Bool} {payload : Str} (h : Plain M J isBinary payload) :
    Grammatical M J isBinary payload := by
  cases payload with
  | nil => exact .of_none rfl fun kind frame => by cases frame
  | cons first rest =>
    cases isBinary with
    | true => exact h.binary
    | false =>
      by_cases opens : first = 0x30
      · subst opens; exact h.opens
      by_cases closes : first = 0x31
      · subst closes; exact .of_frame rfl .close
      by_cases pings : first = 0x32
      · subst pings; exact .of_frame rfl .ping
      by_cases pongs : first = 0x33
      · subst pongs; exact .of_frame rfl .pong
      by_cases packet : first = 0x34
      · subst packet; exact h.packet
      have result : parseFrame M J false (first :: rest) = .ok {} := by
        simp [parseFrame, parseText, opens, closes, pings, pongs, packet]
      refine .of_none result fun kind frame => ?_
      cases frame <;> contradiction

/-- The parser takes exactly the frames for frames where no value is taken for a type that it is not,
no packet has a type that cannot be read, and every open packet is one. -/
theorem parseFrame_iff {isBinary : Bool} {payload : Str} :
    Grammatical M J isBinary payload ↔ Plain M J isBinary payload :=
  ⟨Grammatical.plain, Plain.grammatical⟩

end

def typedTrue : Except Str Json → Bool
  | .ok (.obj [(key, .bool true)]) => key = lit "type"
  | _ => false

theorem typedTrue_sound {parsed : Except Str Json} (h : typedTrue parsed = true) :
    parsed = .ok (.obj [(lit "type", .bool true)]) := by
  unfold typedTrue at h
  split at h
  · rw [of_decide_eq_true h]
  · cases h

/-- A packet whose type is `true` ends the connection. -/
theorem parseFrame_true : ¬ ∀ (M : MsgpackC) (J : JsonText) (isBinary : Bool) (payload : Str),
    Grammatical M J isBinary payload := by
  intro grammatical
  let text := lit "\x7b\"type\":true\x7d"
  have found : typedTrue (Text.reference.parse text) = true := by
    decide +kernel
  have parses := typedTrue_sound found
  generalize text = rest at parses
  have typed : [(lit "type", Json.bool true)].lookup (lit "type") = some (.bool true) :=
    List.lookup_cons_self
  have result : parseFrame shortest Text.reference false (0x34 :: rest) =
      .ok { kind := .Disconnect } :=
    congrArg Except.ok (parseMessage_typed parses typed rfl)
  cases (grammatical shortest Text.reference false _).frame result (by rintro ⟨⟩) with
  | disconnect parses' typed' number =>
    cases parses.symm.trans parses'
    cases typed.symm.trans typed'
    cases number
end Blueboat.Sio
