import Blueboat.Membership

set_option autoImplicit false

/-! The join branch of the game-message listener with `add_client` (`room.cpp`). What the hooks and
the listeners of the application do is a parameter. -/
namespace Blueboat.Joining

open Protocol

def joinedFrame (roomId sessionId : Str) : Event :=
  .frame sessionId (lit "message-" ++ roomId)
    (Json.ofFields [(lit "key", .str joinedRoom), (lit "data", .null)])

def errorFrame (roomId sessionId : Str) (data : Json) : Event :=
  .frame sessionId (roomId ++ lit "-error") data

def IsAnswer (roomId sessionId : Str) (e : Event) : Prop :=
  e = joinedFrame roomId sessionId ∨ ∃ data, e = errorFrame roomId sessionId data

/-- What application code may do while `client` joins: all that leaves the members and the owner of
the room alone and does not send the client what only the handler sends. -/
structure Keeps (r : RoomRef) (client : SimpleClient) (w w' : World) : Prop where
  roomId : (w'.rooms r).roomId = (w.rooms r).roomId
  clients : (w'.rooms r).clients = (w.rooms r).clients
  owner : (w'.rooms r).owner = (w.rooms r).owner
  connection : w'.connections.lookup client.sessionId = w.connections.lookup client.sessionId
  sent : ∃ sent, w'.log = w.log ++ sent ∧
    ∀ e ∈ sent, ¬ IsAnswer (w.rooms r).roomId client.sessionId e

/-- One call of application code: what it does, and the text of the exception that it throws. -/
structure Behaviour (r : RoomRef) (client : SimpleClient) where
  act : World → World
  thrown : Option Str
  keeps : ∀ w, Keeps r client w (act w)

/-- No subscription of `on_join` is added or cleared, and the waits that are registered there wait for
what they did. -/
structure Untouched (r : RoomRef) (w w' : World) : Prop where
  listeners : (w'.rooms r).onJoinListeners = (w.rooms r).onJoinListeners
  waits : ∀ {id v}, (id, JoinCallback.wait v) ∈ (w.rooms r).onJoinListeners →
    (w'.waits v).clientId = (w.waits v).clientId ∧ (w'.waits v).room = (w.waits v).room ∧
      (w'.waits v).joinSub = (w.waits v).joinSub

structure Hooks (r : RoomRef) (client : SimpleClient) where
  canClientJoin : Behaviour r client
  joinListener : ℕ → Behaviour r client
  onJoin : Behaviour r client
  untouched : ∀ id w, Untouched r w ((joinListener id).act w)

/-- A piece of the handler: the text of the exception that it ends with, and the world it leaves. -/
abbrev Piece := World → Option Str × World

def Piece.andThen (first next : Piece) : Piece := fun w =>
  match first w with
  | (none, w') => next w'
  | (some what, w') => (some what, w')

section
variable {r : RoomRef} {client : SimpleClient}

def note (w : World) (r : RoomRef) (hook : Hook) : World := { w with log := w.log ++ [.hook r hook] }

def call (hook : Hook) (body : Behaviour r client) : Piece := fun w =>
  (body.thrown, body.act (note w r hook))

/-- What `std::bad_function_call` says. -/
def badFunctionCall : Str := lit "bad_function_call"

/-- `on_join_listeners.call` from `slot` on, `left` slots before the end that was fixed when it began,
over the vector as it then stands. What is left behind the end by `erase` has been moved from: its
`std::function` is empty. -/
def callJoinListeners (hooks : Hooks r client) : ℕ → ℕ → Piece
  | 0, _ => fun w => (none, w)
  | left + 1, slot => fun w =>
    match (w.rooms r).onJoinListeners[slot]? with
    | none => (some badFunctionCall, w)
    | some (_, .wait v) => callJoinListeners hooks left (slot + 1) (w.rejoined v client)
    | some (id, .app) =>
      (call (.joinListener client) (hooks.joinListener id)).andThen
        (callJoinListeners hooks left (slot + 1)) w

/-- `add_client` and `client_has_joined`. -/
def addClient (hooks : Hooks r client) (options : Json) : Piece := fun w =>
  let w := Blueboat.addClient w r client
  ((callJoinListeners hooks (w.rooms r).onJoinListeners.length 0).andThen
    (call (.onJoin client options) hooks.onJoin)) w

def handleJoinRoom (hooks : Hooks r client) (options : Json) (w : World) : World :=
  match ((call (.canClientJoin client options) hooks.canClientJoin).andThen
    (addClient hooks options)) w with
  | (none, w') => w'
  | (some what, w') =>
    w'.sendFrameToClient client.sessionId ((w'.rooms r).roomId ++ lit "-error") (errorMessage what)

structure Refused (r : RoomRef) (client : SimpleClient) (w w' : World) : Prop where
  clients : (w'.rooms r).clients = (w.rooms r).clients
  owner : (w'.rooms r).owner = (w.rooms r).owner
  sent : ∃ sent, w'.log = w.log ++ sent ∧ joinedFrame (w.rooms r).roomId client.sessionId ∉ sent ∧
    ∃ data, errorFrame (w.rooms r).roomId client.sessionId data ∈ sent

def accepted (hooks : Hooks r client) (options : Json) (w : World) : World :=
  hooks.canClientJoin.act (note w r (.canClientJoin client options))

def Connected (w : World) (client : SimpleClient) : Prop :=
  w.connections.lookup client.sessionId ≠ none

/-- Wait `v` is for the client, so that its listener erases an entry of the room's `on_join_listeners`
(its own) while they are called. -/
def Erases (r : RoomRef) (client : SimpleClient) (w : World) (v : ℕ) : Prop :=
  client.id = (w.waits v).clientId ∧ (w.waits v).room = r ∧
    (w.waits v).joinSub ∈ (w.rooms r).onJoinListeners.map Prod.fst

/-- Of the listeners, none of the application throws, and none in front of the last one is that of a
wait for the client. -/
def Passes (hooks : Hooks r client) (w : World) (listeners : List (ℕ × JoinCallback)) : Prop :=
  (∀ id, (id, .app) ∈ listeners → (hooks.joinListener id).thrown = none) ∧
    ∀ id v, (id, .wait v) ∈ listeners.dropLast → ¬ Erases r client w v

def Welcomes (hooks : Hooks r client) (w : World) : Prop :=
  Passes hooks w (w.rooms r).onJoinListeners ∧ hooks.onJoin.thrown = none

/-- The client is connected, and nothing goes wrong once `can_client_join` has let it in. -/
def Clean (hooks : Hooks r client) (options : Json) (w : World) : Prop :=
  Connected w client ∧
    (hooks.canClientJoin.thrown = none → Welcomes hooks (accepted hooks options w))

theorem andThen_none {first next : Piece} {w w' : World} (h : first w = (none, w')) :
    first.andThen next w = next w' := by
  rw [Piece.andThen, h]

theorem andThen_some {first next : Piece} {w w' : World} {what : Str}
    (h : first w = (some what, w')) : first.andThen next w = (some what, w') := by
  rw [Piece.andThen, h]

theorem joinedFrame_ne (roomId sessionId : Str) (data : Json) :
    joinedFrame roomId sessionId ≠ errorFrame roomId sessionId data := by
  intro same
  have events : lit "message-" ++ roomId = roomId ++ lit "-error" := (Event.frame.inj same).2.1
  have lengths := congrArg List.length events
  have message : (lit "message-").length = 8 := by decide
  have error : (lit "-error").length = 6 := by decide
  rw [List.length_append, List.length_append, message, error] at lengths
  omega

/-! Application code and what the server does beside it keep the members and the owner. -/

theorem Keeps.refl (r : RoomRef) (client : SimpleClient) (w : World) : Keeps r client w w where
  roomId := rfl
  clients := rfl
  owner := rfl
  connection := rfl
  sent := ⟨[], (List.append_nil _).symm, fun _ mem => by cases mem⟩

theorem Keeps.trans {w w' w'' : World} (h : Keeps r client w w') (h' : Keeps r client w' w'') :
    Keeps r client w w'' where
  roomId := h'.roomId.trans h.roomId
  clients := h'.clients.trans h.clients
  owner := h'.owner.trans h.owner
  connection := h'.connection.trans h.connection
  sent := by
    obtain ⟨sent, log, quiet⟩ := h.sent
    obtain ⟨sent', log', quiet'⟩ := h'.sent
    refine ⟨sent ++ sent', by rw [log', log, List.append_assoc], fun e mem => ?_⟩
    rcases List.mem_append.1 mem with mem | mem
    · exact quiet e mem
    · have silent := quiet' e mem
      rwa [h.roomId] at silent

theorem keeps_note (w : World) (hook : Hook) : Keeps r client w (note w r hook) where
  roomId := rfl
  clients := rfl
  owner := rfl
  connection := rfl
  sent := by
    refine ⟨[.hook r hook], rfl, fun e mem answer => ?_⟩
    rw [List.mem_singleton.1 mem] at answer
    rcases answer with answer | ⟨data, answer⟩
    · cases answer
    · cases answer

theorem keeps_call (hook : Hook) (body : Behaviour r client) (w : World) :
    Keeps r client w (call hook body w).2 :=
  (keeps_note w hook).trans (body.keeps _)

theorem keeps_cancel (w : World) (task : Option ℕ) : Keeps r client w (w.cancel task) := by
  cases task with
  | none => exact Keeps.refl r client w
  | some id => exact ⟨rfl, rfl, rfl, rfl, [], (List.append_nil _).symm, fun _ mem => by cases mem⟩

theorem keeps_resolve (w : World) (v : ℕ) (value : Bool) :
    Keeps r client w (w.resolve v value) := by
  dsimp only [World.resolve]
  split
  · exact Keeps.refl r client w
  · exact ⟨rfl, rfl, rfl, rfl, [], (List.append_nil _).symm, fun _ mem => by cases mem⟩

theorem keeps_clearJoinSub (w : World) (v : ℕ) : Keeps r client w (w.clearJoinSub v) := by
  have room : ((w.clearJoinSub v).rooms r).roomId = (w.rooms r).roomId ∧
      ((w.clearJoinSub v).rooms r).clients = (w.rooms r).clients ∧
      ((w.clearJoinSub v).rooms r).owner = (w.rooms r).owner := by
    by_cases same : r = (w.waits v).room
    · subst same
      simp [World.clearJoinSub, World.setRoom]
    · simp [World.clearJoinSub, World.setRoom, same]
  exact ⟨room.1, room.2.1, room.2.2, rfl, [], (List.append_nil _).symm, fun _ mem => by cases mem⟩

theorem keeps_rejoined (w : World) (v : ℕ) : Keeps r client w (w.rejoined v client) := by
  unfold World.rejoined
  split
  · exact Keeps.refl r client w
  · exact ((keeps_resolve w v true).trans (keeps_cancel _ _)).trans (keeps_clearJoinSub _ v)

theorem keeps_andThen {first next : Piece} (h : ∀ w, Keeps r client w (first w).2)
    (h' : ∀ w, Keeps r client w (next w).2) (w : World) :
    Keeps r client w (first.andThen next w).2 := by
  have before := h w
  rcases result : first w with ⟨_ | what, w'⟩
  · rw [result] at before
    rw [andThen_none result]
    exact before.trans (h' w')
  · rw [result] at before
    rw [andThen_some result]
    exact before

theorem keeps_callJoinListeners (hooks : Hooks r client) (left slot : ℕ) (w : World) :
    Keeps r client w (callJoinListeners hooks left slot w).2 := by
  induction left generalizing slot w with
  | zero => exact Keeps.refl r client w
  | succ left ih =>
    rw [callJoinListeners]
    dsimp only
    split
    case h_1 => exact Keeps.refl r client w
    case h_2 v _ => exact (keeps_rejoined w v).trans (ih _ _)
    case h_3 id _ => exact keeps_andThen (keeps_call _ _) (ih (slot + 1)) w

/-! When a piece returns. -/

theorem andThen_returns (first next : Piece) (w : World) :
    (first.andThen next w).1 = none ↔ (first w).1 = none ∧ (next (first w).2).1 = none := by
  rcases result : first w with ⟨_ | what, w'⟩
  · rw [andThen_none result]
    exact ⟨fun h => ⟨rfl, h⟩, fun h => h.2⟩
  · rw [andThen_some result]
    exact ⟨fun h => (nomatch h), fun h => (nomatch h.1)⟩

/-! The vector while its listeners are called. -/

theorem Untouched.erases {w w' : World} (h : Untouched r w w') {id v : ℕ}
    (mem : (id, JoinCallback.wait v) ∈ (w.rooms r).onJoinListeners) :
    Erases r client w' v ↔ Erases r client w v := by
  obtain ⟨clientId, room, joinSub⟩ := h.waits mem
  rw [Erases, Erases, clientId, room, joinSub, h.listeners]

theorem Untouched.passes {hooks : Hooks r client} {w w' : World} (h : Untouched r w w')
    {listeners : List (ℕ × JoinCallback)}
    (registered : ∀ l ∈ listeners, l ∈ (w.rooms r).onJoinListeners) :
    Passes hooks w' listeners ↔ Passes hooks w listeners := by
  refine and_congr_right fun _ => forall_congr' fun id => forall_congr' fun v => ?_
  exact imp_congr_right fun mem => not_congr (h.erases (registered _ (List.dropLast_subset _ mem)))

theorem listeners_clearJoinSub (w : World) (v : ℕ) :
    ((w.clearJoinSub v).rooms r).onJoinListeners = if (w.waits v).room = r then
      (w.rooms r).onJoinListeners.filter fun l => l.1 != (w.waits v).joinSub
    else (w.rooms r).onJoinListeners := by
  unfold World.clearJoinSub World.setRoom
  split
  case isTrue same => simp [same]
  case isFalse other => simp [Ne.symm other]

/-- Up to the promise of the wait and its timer, the listener of a wait only clears its
subscription. -/
theorem rejoined_clears (w : World) (v : ℕ) (same : client.id = (w.waits v).clientId) :
    ∃ w₀ : World, w.rejoined v client = w₀.clearJoinSub v ∧ w₀.rooms = w.rooms ∧
      ∀ v', (w₀.waits v').clientId = (w.waits v').clientId ∧
        (w₀.waits v').room = (w.waits v').room ∧ (w₀.waits v').joinSub = (w.waits v').joinSub := by
  refine ⟨(w.resolve v true).cancel (some (w.waits v).timer), ?_, ?_, fun v' => ?_⟩
  · rw [World.rejoined, if_neg (not_not_intro same)]
  · unfold World.resolve World.cancel
    dsimp only
    split <;> rfl
  · unfold World.resolve World.cancel
    dsimp only
    split
    · exact ⟨rfl, rfl, rfl⟩
    · by_cases eq : v' = v
      · subst eq
        simp
      · simp [eq]

/-- The listener of a wait leaves the vector alone, or shortens it. -/
theorem rejoined_vector (w : World) (v : ℕ) :
    (¬ Erases r client w v → Untouched r w (w.rejoined v client)) ∧
      (Erases r client w v → ((w.rejoined v client).rooms r).onJoinListeners.length <
        (w.rooms r).onJoinListeners.length) := by
  by_cases same : client.id = (w.waits v).clientId
  · obtain ⟨w₀, cleared, rooms, waits⟩ := rejoined_clears w v same
    have listeners := listeners_clearJoinSub (r := r) w₀ v
    rw [rooms, (waits v).2.1, (waits v).2.2] at listeners
    rw [cleared]
    refine ⟨fun keeps => ⟨?_, fun {_ v'} _ => waits v'⟩, fun erases => ?_⟩
    · rw [listeners]
      split
      case isFalse => rfl
      case isTrue here =>
        refine List.filter_eq_self.2 fun l mem => bne_iff_ne.2 fun own => ?_
        exact keeps ⟨same, here, own ▸ List.mem_map_of_mem mem⟩
    · obtain ⟨-, here, own⟩ := erases
      obtain ⟨l, mem, eq⟩ := List.mem_map.1 own
      rw [listeners, if_pos here]
      exact List.length_filter_lt_length_iff_exists.2 ⟨l, mem, by simp [eq]⟩
  · rw [World.rejoined, if_pos same]
    exact ⟨fun _ => ⟨rfl, fun _ => ⟨rfl, rfl, rfl⟩⟩, fun erases => absurd erases.1 same⟩

theorem untouched_call (hooks : Hooks r client) (id : ℕ) (w : World) :
    Untouched r w (call (.joinListener client) (hooks.joinListener id) w).2 := by
  have untouched := hooks.untouched id (note w r (.joinListener client))
  exact ⟨untouched.listeners, untouched.waits⟩

/-- Once the vector ends in front of the end that was fixed, the loop runs into what is left there. -/
theorem callJoinListeners_behind (hooks : Hooks r client) {left slot : ℕ} {w : World}
    (behind : (w.rooms r).onJoinListeners.length < slot + left) (more : 0 < left) :
    (callJoinListeners hooks left slot w).1 ≠ none := by
  induction left generalizing slot w with
  | zero => exact absurd more (Nat.lt_irrefl 0)
  | succ left ih =>
    rw [callJoinListeners]
    dsimp only
    split
    case h_1 => exact Option.some_ne_none _
    case h_2 v read =>
      have inside := (List.getElem?_eq_some_iff.1 read).1
      have shorter : ((w.rejoined v client).rooms r).onJoinListeners.length ≤
          (w.rooms r).onJoinListeners.length := by
        by_cases erases : Erases r client w v
        · exact Nat.le_of_lt ((rejoined_vector w v).2 erases)
        · exact Nat.le_of_eq (congrArg List.length ((rejoined_vector w v).1 erases).listeners)
      exact ih (by omega) (by omega)
    case h_3 id read =>
      have inside := (List.getElem?_eq_some_iff.1 read).1
      have same := congrArg List.length (untouched_call hooks id w).listeners
      intro returns
      exact ih (by omega) (by omega) ((andThen_returns _ _ w).1 returns).2

theorem mem_dropLast_cons {l l' : ℕ × JoinCallback} {left : List (ℕ × JoinCallback)}
    (more : left ≠ []) : l ∈ (l' :: left).dropLast ↔ l = l' ∨ l ∈ left.dropLast := by
  rw [List.dropLast_cons_of_ne_nil more, List.mem_cons]

theorem passes_app (hooks : Hooks r client) (w : World) (id : ℕ) (left : List (ℕ × JoinCallback)) :
    Passes hooks w ((id, .app) :: left) ↔
      (hooks.joinListener id).thrown = none ∧ Passes hooks w left := by
  have waits : ∀ {id' v}, (id', JoinCallback.wait v) ∈ ((id, .app) :: left).dropLast ↔
      (id', JoinCallback.wait v) ∈ left.dropLast := by
    intro id' v
    by_cases last : left = []
    · subst last
      exact Iff.rfl
    · rw [mem_dropLast_cons last]
      exact or_iff_right fun same => by cases same
  constructor
  · rintro ⟨passes, keep⟩
    exact ⟨passes id List.mem_cons_self, fun id' mem => passes id' (List.mem_cons_of_mem _ mem),
      fun id' v mem => keep id' v (waits.2 mem)⟩
  · rintro ⟨returns, passes, keep⟩
    refine ⟨fun id' mem => ?_, fun id' v mem => keep id' v (waits.1 mem)⟩
    rcases List.mem_cons.1 mem with same | mem
    · cases same
      exact returns
    · exact passes id' mem

theorem passes_wait (hooks : Hooks r client) (w : World) (id v : ℕ) {left : List (ℕ × JoinCallback)}
    (more : left ≠ []) : Passes hooks w ((id, .wait v) :: left) ↔
      ¬ Erases r client w v ∧ Passes hooks w left := by
  constructor
  · rintro ⟨passes, keep⟩
    exact ⟨keep id v ((mem_dropLast_cons more).2 (.inl rfl)),
      fun id' mem => passes id' (List.mem_cons_of_mem _ mem),
      fun id' v' mem => keep id' v' ((mem_dropLast_cons more).2 (.inr mem))⟩
  · rintro ⟨keeps, passes, keep⟩
    refine ⟨fun id' mem => ?_, fun id' v' mem => ?_⟩
    · rcases List.mem_cons.1 mem with same | mem
      · cases same
      · exact passes id' mem
    · rcases (mem_dropLast_cons more).1 mem with same | mem
      · cases same
        exact keeps
      · exact keep id' v' mem

theorem callJoinListeners_returns (hooks : Hooks r client) {slot : ℕ}
    {listeners : List (ℕ × JoinCallback)} {w : World}
    (at_slot : (w.rooms r).onJoinListeners.drop slot = listeners) :
    (callJoinListeners hooks listeners.length slot w).1 = none ↔ Passes hooks w listeners := by
  induction listeners generalizing slot w with
  | nil => exact ⟨fun _ => ⟨fun _ mem => (nomatch mem), fun _ _ mem => (nomatch mem)⟩, fun _ => rfl⟩
  | cons listener left ih =>
    have read : (w.rooms r).onJoinListeners[slot]? = some listener := by
      rw [← List.head?_drop, at_slot, List.head?_cons]
    have later : (w.rooms r).onJoinListeners.drop (slot + 1) = left := by
      rw [← List.tail_drop, at_slot, List.tail_cons]
    have registered : ∀ l ∈ left, l ∈ (w.rooms r).onJoinListeners := fun l mem =>
      List.mem_of_mem_drop (later ▸ mem)
    have next : ∀ {w'}, Untouched r w w' →
        ((callJoinListeners hooks left.length (slot + 1) w').1 = none ↔ Passes hooks w left) :=
      fun untouched =>
        (ih (untouched.listeners.symm ▸ later)).trans (untouched.passes registered)
    obtain ⟨id, callback⟩ := listener
    rw [List.length_cons, callJoinListeners]
    dsimp only
    rw [read]
    cases callback with
    | wait v =>
      change (callJoinListeners hooks left.length (slot + 1) (w.rejoined v client)).1 = none ↔ _
      by_cases last : left = []
      · subst last
        refine ⟨fun _ => ⟨fun id' mem => ?_, fun _ _ mem => (nomatch mem)⟩, fun _ => rfl⟩
        cases List.mem_singleton.1 mem
      rw [passes_wait hooks w id v last]
      by_cases erases : Erases r client w v
      · -- The entry behind the wait is passed over, and the loop runs past the end.
        have shorter := (rejoined_vector w v).2 erases
        have total := congrArg List.length at_slot
        rw [List.length_drop, List.length_cons] at total
        have more := List.length_pos_iff.2 last
        have behind : ((w.rejoined v client).rooms r).onJoinListeners.length <
            slot + 1 + left.length := by omega
        have fails := callJoinListeners_behind hooks behind more
        exact iff_of_false fails fun passes => passes.1 erases
      · rw [and_iff_right erases]
        exact next ((rejoined_vector w v).1 erases)
    | app =>
      rw [passes_app, ← next (untouched_call hooks id w)]
      exact andThen_returns _ _ _

/-! What the client is sent. -/

def Answers (r : RoomRef) (client : SimpleClient) (w w' : World) (joined failed : Prop) : Prop :=
  ∃ sent, w'.log = w.log ++ sent ∧
    (joinedFrame (w.rooms r).roomId client.sessionId ∈ sent ↔ joined) ∧
    ((∃ data, errorFrame (w.rooms r).roomId client.sessionId data ∈ sent) ↔ failed)

theorem Keeps.answers {w w' : World} (h : Keeps r client w w') :
    Answers r client w w' False False := by
  obtain ⟨sent, log, quiet⟩ := h.sent
  exact ⟨sent, log, iff_false_intro fun mem => quiet _ mem (.inl rfl),
    iff_false_intro fun ⟨data, mem⟩ => quiet _ mem (.inr ⟨data, rfl⟩)⟩

theorem Answers.trans {w w' w'' : World} {joined failed joined' failed' : Prop}
    (h : Answers r client w w' joined failed) (h' : Answers r client w' w'' joined' failed')
    (roomId : (w'.rooms r).roomId = (w.rooms r).roomId) :
    Answers r client w w'' (joined ∨ joined') (failed ∨ failed') := by
  obtain ⟨sent, log, isJoined, isFailed⟩ := h
  obtain ⟨sent', log', isJoined', isFailed'⟩ := h'
  rw [roomId] at isJoined' isFailed'
  refine ⟨sent ++ sent', by rw [log', log, List.append_assoc], ?_, ?_⟩
  · rw [List.mem_append, isJoined, isJoined']
  · rw [← isFailed, ← isFailed', ← exists_or]
    exact exists_congr fun data => List.mem_append

theorem log_sendFrameToClient (w : World) (sessionId event : Str) (data : Json) :
    ∃ sent, (w.sendFrameToClient sessionId event data).log = w.log ++ sent ∧
      ∀ e, e ∈ sent ↔ w.connections.lookup sessionId ≠ none ∧ e = .frame sessionId event data := by
  unfold World.sendFrameToClient
  cases w.connections.lookup sessionId with
  | none =>
    refine ⟨[], (List.append_nil _).symm, fun e => ?_⟩
    exact ⟨fun mem => (nomatch mem), fun h => absurd rfl h.1⟩
  | some connection =>
    refine ⟨[.frame sessionId event data], rfl, fun e => List.mem_singleton.trans ?_⟩
    exact ⟨fun same => ⟨nofun, same⟩, And.right⟩

theorem addClient_eq (w : World) : Blueboat.addClient w r client =
    ((w.touch r).setRoom r ((w.rooms r).addMember client)).sendFrameToClient client.sessionId
      (lit "message-" ++ (w.rooms r).roomId)
      (Json.ofFields [(lit "key", .str joinedRoom), (lit "data", .null)]) := by
  simp [Blueboat.addClient, World.sendTo, World.setRoom, Room.addMember]

theorem room_addClient (w : World) :
    (Blueboat.addClient w r client).rooms r = (w.rooms r).addMember client := by
  rw [addClient_eq, sendFrameToClient_rooms]
  exact Function.update_self ..

theorem answers_addClient (w : World) :
    Answers r client w (Blueboat.addClient w r client) (Connected w client) False := by
  obtain ⟨sent, log, mem⟩ := log_sendFrameToClient
    ((w.touch r).setRoom r ((w.rooms r).addMember client)) client.sessionId
    (lit "message-" ++ (w.rooms r).roomId)
    (Json.ofFields [(lit "key", .str joinedRoom), (lit "data", .null)])
  have quiet := (touch_mute w r).trans (setRoom_mute (w.touch r) r ((w.rooms r).addMember client))
  rw [quiet.connections] at mem
  refine ⟨sent, by rw [addClient_eq, log, quiet.log], ?_, ?_⟩
  · rw [mem]
    exact ⟨And.left, fun connected => ⟨connected, rfl⟩⟩
  · refine iff_false_intro fun ⟨data, failed⟩ => ?_
    exact joinedFrame_ne _ _ data ((mem _).1 failed).2.symm

theorem answers_error (w : World) (what : Str) :
    Answers r client w
      (w.sendFrameToClient client.sessionId ((w.rooms r).roomId ++ lit "-error") (errorMessage what))
      False (Connected w client) := by
  obtain ⟨sent, log, mem⟩ := log_sendFrameToClient w client.sessionId
    ((w.rooms r).roomId ++ lit "-error") (errorMessage what)
  refine ⟨sent, log, ?_, ?_⟩
  · exact iff_false_intro fun joined => joinedFrame_ne _ _ _ ((mem _).1 joined).2
  · refine ⟨fun ⟨data, failed⟩ => ((mem _).1 failed).1, fun connected => ?_⟩
    exact ⟨errorMessage what, (mem _).2 ⟨connected, rfl⟩⟩

/-! The handler. -/

variable (hooks : Hooks r client) (options : Json)

theorem keeps_accepted (w : World) : Keeps r client w (accepted hooks options w) :=
  keeps_call (.canClientJoin client options) hooks.canClientJoin w

theorem Keeps.connected {w w' : World} (h : Keeps r client w w') :
    Connected w' client ↔ Connected w client := by
  rw [Connected, Connected, h.connection]

/-- After the append only application code runs. -/
theorem keeps_addClient (w : World) :
    Keeps r client (Blueboat.addClient w r client) (addClient hooks options w).2 :=
  keeps_andThen (keeps_callJoinListeners hooks _ _) (keeps_call _ _) _

theorem untouched_addClient (w : World) : Untouched r w (Blueboat.addClient w r client) where
  listeners := by
    rw [room_addClient]
    rfl
  waits := by
    intro _ v _
    have same : (Blueboat.addClient w r client).waits = w.waits := by
      rw [addClient_eq, sendFrameToClient_toStores]
      exact congrArg Stores.waits (touch_toStores w r)
    rw [same]
    exact ⟨rfl, rfl, rfl⟩

theorem addClient_returns (w : World) :
    (addClient hooks options w).1 = none ↔ Welcomes hooks w := by
  have untouched : Untouched r w (Blueboat.addClient w r client) := untouched_addClient w
  refine (andThen_returns _ _ _).trans (and_congr ?_ Iff.rfl)
  rw [callJoinListeners_returns hooks List.drop_zero, untouched.listeners]
  exact untouched.passes fun l mem => mem

theorem handleJoinRoom_accepting (h : hooks.canClientJoin.thrown = none) (w : World) :
    handleJoinRoom hooks options w =
      match addClient hooks options (accepted hooks options w) with
      | (none, w') => w'
      | (some what, w') => w'.sendFrameToClient client.sessionId
          ((w'.rooms r).roomId ++ lit "-error") (errorMessage what) := by
  have returns : call (.canClientJoin client options) hooks.canClientJoin w =
      (none, accepted hooks options w) := Prod.ext h rfl
  rw [handleJoinRoom, andThen_none returns]

theorem handleJoinRoom_failing (h : hooks.canClientJoin.thrown = none) {w : World}
    (fails : ¬ Welcomes hooks (accepted hooks options w)) :
    ∃ what, handleJoinRoom hooks options w =
      (addClient hooks options (accepted hooks options w)).2.sendFrameToClient client.sessionId
        ((((addClient hooks options (accepted hooks options w)).2).rooms r).roomId ++ lit "-error")
        (errorMessage what) := by
  have throws := mt (addClient_returns hooks options _).1 fails
  rw [handleJoinRoom_accepting hooks options h]
  rcases result : addClient hooks options (accepted hooks options w) with ⟨_ | what, w'⟩
  · rw [result] at throws
    exact absurd rfl throws
  · exact ⟨what, rfl⟩

/-! What the handler sends and what it leaves, for each way that it can go. -/

theorem roomId_addClient (w : World) :
    ((Blueboat.addClient w r client).rooms r).roomId = (w.rooms r).roomId := by
  rw [room_addClient]
  rfl

/-- Up to a frame of the handler itself, a client that was let in is told that it joined. -/
theorem answers_letIn (w : World) :
    Answers r client w (addClient hooks options (accepted hooks options w)).2
      (Connected w client) False := by
  have accepts := keeps_accepted hooks options w
  have joins : Answers r client (accepted hooks options w) _ _ _ :=
    answers_addClient (accepted hooks options w)
  rw [accepts.connected] at joins
  have told := (accepts.answers.trans joins accepts.roomId).trans
    (keeps_addClient hooks options _).answers ((roomId_addClient _).trans accepts.roomId)
  rwa [false_or, or_false, or_self, or_self] at told

theorem connected_letIn (w : World) :
    Connected (addClient hooks options (accepted hooks options w)).2 client ↔ Connected w client := by
  rw [(keeps_addClient hooks options _).connected, Connected, (addClient_local _ r client).connections]
  exact (keeps_accepted hooks options w).connected

theorem roomId_letIn (w : World) :
    ((addClient hooks options (accepted hooks options w)).2.rooms r).roomId = (w.rooms r).roomId :=
  ((keeps_addClient hooks options _).roomId.trans (roomId_addClient _)).trans
    (keeps_accepted hooks options w).roomId

theorem answers_failing (h : hooks.canClientJoin.thrown = none) {w : World}
    (fails : ¬ Welcomes hooks (accepted hooks options w)) :
    Answers r client w (handleJoinRoom hooks options w) (Connected w client) (Connected w client) := by
  obtain ⟨what, result⟩ := handleJoinRoom_failing hooks options h fails
  have error : Answers r client (addClient hooks options (accepted hooks options w)).2 _ _ _ :=
    answers_error (addClient hooks options (accepted hooks options w)).2 what
  rw [connected_letIn] at error
  rw [result]
  have both := (answers_letIn hooks options w).trans error (roomId_letIn hooks options w)
  rwa [or_false, false_or] at both

end

/-! A hook that throws after the append. -/

def plain (r : RoomRef) (client : SimpleClient) (thrown : Option Str) : Behaviour r client where
  act := id
  thrown := thrown
  keeps := Keeps.refl r client

def guest : SimpleClient := ⟨lit "ann", lit "s1", [], []⟩

/-- A world with one room, which is empty, and one connection. -/
def lobby : World :=
  { World.initial with
    rooms := fun _ => { Room.fresh with roomId := lit "r" }
    connections := World.initial.connections.insert guest.sessionId guest }

def welcoming (r : RoomRef) (client : SimpleClient) : Hooks r client where
  canClientJoin := plain r client none
  joinListener _ := plain r client none
  onJoin := plain r client none
  untouched _ _ := ⟨rfl, fun _ => ⟨rfl, rfl, rfl⟩⟩

def awaiting : World :=
  allowReconnection (allowReconnection lobby 0 guest.id 30) 0 guest.id 30

/-- Nothing throws, but the first of two waits is not the last listener. -/
theorem awaiting_unwelcome : ¬ Welcomes (welcoming 0 guest)
    (accepted (welcoming 0 guest) (.obj []) awaiting) := by
  intro welcomes
  refine welcomes.1.2 0 0 ?_ ⟨rfl, rfl, ?_⟩
  · exact List.mem_singleton_self _
  · exact List.mem_cons_self

/-- The client that both wait for is told that it joined, and an error. -/
theorem awaiting_answers : Answers 0 guest awaiting
    (handleJoinRoom (welcoming 0 guest) (.obj []) awaiting)
    (Connected awaiting guest) (Connected awaiting guest) :=
  answers_failing (welcoming 0 guest) (.obj []) rfl awaiting_unwelcome

end Blueboat.Joining
