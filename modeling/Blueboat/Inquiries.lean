import Blueboat.Admin
import Blueboat.Library.Machine

set_option autoImplicit false

/-! Concurrent requests `GET /blueboat-panel/rooms/<id>` (`server.cpp`), while the rooms stay as they
are. -/
namespace Blueboat.Inquiries

open Protocol LockMachine Admin

/-- A request subscribes and asks; it wakes up, at the latest after five seconds; it unsubscribes; it
reads its answer. -/
inductive Stage where
  | waiting
  | woken
  | left
  | answered (info : Option Json)

structure Inquiry where
  roomId : Str
  listener : ℕ
  stage : Stage

def Inquiry.subscribed (i : Inquiry) : Bool :=
  match i.stage with
  | .waiting | .woken => true
  | .left | .answered _ => false

/-- The requests are numbered like what they receive. -/
structure Desk where
  world : World
  inquiries : ℕ → Option Inquiry

inductive Step where
  | ask (roomId : Str)
  | wake (n : ℕ)
  | leave (n : ℕ)
  | respond (n : ℕ)

def Desk.opening (w : World) : Desk := { world := w, inquiries := fun _ => none }

def Desk.put (d : Desk) (n : ℕ) (i : Inquiry) : Desk :=
  { d with inquiries := Function.update d.inquiries n (some i) }

/-- Each atomic section of a request. An exception that escapes ends the process. -/
def step (s : Surroundings) (d : Desk) : Step → Option Desk
  | .ask roomId =>
    match publish s (subscribe d.world) roomId infoPayload with
    | (_, some _) => none
    | (w, none) =>
      some ({ d with world := w }.put d.world.nextInfo ⟨roomId, d.world.nextListener, .waiting⟩)
  | .wake n =>
    match d.inquiries n with
    | some ⟨roomId, listener, .waiting⟩ => some (d.put n ⟨roomId, listener, .woken⟩)
    | _ => none
  | .leave n =>
    match d.inquiries n with
    | some ⟨roomId, listener, .woken⟩ =>
      some ({ d with world := d.world.unsubscribe REQUEST_INFO (some listener) }.put n
        ⟨roomId, listener, .left⟩)
    | _ => none
  | .respond n =>
    match d.inquiries n with
    | some ⟨roomId, listener, .left⟩ =>
      some (d.put n ⟨roomId, listener, .answered (d.world.infos n)⟩)
    | _ => none

/-! What the rooms of a channel answer reaches every request that is subscribed. -/

section
variable {s : Surroundings}

theorem touch_infos (w : World) (r : RoomRef) : (w.touch r).infos = w.infos := by
  unfold World.touch
  split <;> rfl

theorem deliver_rooms {info : Json} {handlers : List Handler} {w : World}
    (rooms : ∀ h ∈ handlers, ∃ r, h = .gameMessage r ∧ (w.rooms r).info = info)
    (accepts : ∀ r, .playerLeft r ∉ w.handlersOf REQUEST_INFO) :
    ∃ w', deliver (listener s (publishAnswer s) infoPayload) w handlers = (w', none) ∧
      Answered w w' ∧ ∀ n, w'.infos n =
        if handlers ≠ [] ∧ .infoRequest n ∈ w.handlersOf REQUEST_INFO then some info
        else w.infos n := by
  induction handlers generalizing w with
  | nil => exact ⟨w, rfl, .refl w, fun n => by simp⟩
  | cons handler handlers ih =>
    obtain ⟨r, rfl, same⟩ := rooms handler List.mem_cons_self
    have touched := answered_touch w r
    obtain ⟨w₁, answered, frame, infos⟩ := publishAnswer_ok (s := s) (w := w.touch r)
      (fun r' => by rw [touched.sameBut.handlersOf]; exact accepts r') (w.rooms r)
    have first := touched.trans frame
    obtain ⟨w', delivered, rest, infos'⟩ := @ih w₁
      (fun h mem => by
        rw [first.sameBut.rooms]
        exact rooms h (List.mem_cons_of_mem _ mem))
      (fun r' => by rw [first.sameBut.handlersOf]; exact accepts r')
    refine ⟨w', ?_, first.trans rest, fun n => ?_⟩
    · rw [deliver, listener, roomMessage_info]
      dsimp only
      rw [answered]
      exact delivered
    · rw [infos' n, infos n, first.sameBut.handlersOf, touched.sameBut.handlersOf, touch_infos, same]
      by_cases mem : .infoRequest n ∈ w.handlersOf REQUEST_INFO
      · simp [mem]
      · simp [mem]

end

/-! The requests. -/

def roomInfo (w : World) (roomId : Str) : Option Json :=
  (w.managingRooms.lookup roomId).map fun r => (w.rooms r).info

/-- Rooms listen exactly where they are registered, and no request is under way. -/
structure Resting (w : World) : Prop where
  agreed : ∀ {roomId r}, .gameMessage r ∈ w.handlersOf roomId ↔
    w.managingRooms.lookup roomId = some r
  quiet : ∀ n, .infoRequest n ∉ w.handlersOf REQUEST_INFO

/-- No control channel is asked for as if it were a room, and nobody asks for a registered room while a
request for another one is subscribed. -/
def Sole (w : World) (d : Desk) : Step → Prop
  | .ask roomId => roomId ≠ REQUEST_INFO ∧ roomId ≠ PLAYER_LEFT ∧
      (w.managingRooms.lookup roomId = none ∨
        ∀ n < d.world.nextInfo, ∀ i ∈ d.inquiries n, i.subscribed = true → i.roomId = roomId)
  | _ => True

def Authentic (w : World) (d : Desk) : Prop :=
  ∀ n i info, d.inquiries n = some i → i.stage = .answered info → info = roomInfo w i.roomId

def held (d : Desk) (n : ℕ) : Stage → Option Json
  | .answered info => info
  | _ => d.world.infos n

structure Served (w : World) (d : Desk) : Prop where
  rooms : d.world.rooms = w.rooms
  handlers : ∀ {key}, key ≠ REQUEST_INFO → d.world.handlersOf key = w.handlersOf key
  accepts : ∀ r, .playerLeft r ∉ d.world.handlersOf REQUEST_INFO
  below : ∀ l ∈ d.world.pubsub.listenersOf REQUEST_INFO, l.id < d.world.nextListener
  ids : ((d.world.pubsub.listenersOf REQUEST_INFO).map Listener.id).Nodup
  asked : ∀ {n i}, d.inquiries n = some i → n < d.world.nextInfo
  listens : ∀ {n i}, d.inquiries n = some i → i.subscribed = true →
    ⟨i.listener, .infoRequest n⟩ ∈ d.world.pubsub.listenersOf REQUEST_INFO
  listener : ∀ {l n}, l ∈ d.world.pubsub.listenersOf REQUEST_INFO → l.handler = .infoRequest n →
    ∃ i, d.inquiries n = some i ∧ i.subscribed = true ∧ i.listener = l.id
  known : ∀ {n i}, d.inquiries n = some i → held d n i.stage = roomInfo w i.roomId

section
variable {s : Surroundings} {w : World} {d : Desk}

/-- Only rooms listen on a channel that is none of the two. -/
def RoomsOnly (w : World) : Prop := ∀ {key h}, key ≠ REQUEST_INFO → key ≠ PLAYER_LEFT →
  h ∈ w.handlersOf key → ∃ r, h = .gameMessage r

theorem put_self (d : Desk) (n : ℕ) (i : Inquiry) : (d.put n i).inquiries n = some i :=
  Function.update_self ..

theorem put_ne (d : Desk) {n n' : ℕ} (h : n' ≠ n) (i : Inquiry) :
    (d.put n i).inquiries n' = d.inquiries n' :=
  Function.update_of_ne h ..

theorem cases_put {n n' : ℕ} {i i' : Inquiry} (found : (d.put n i').inquiries n' = some i) :
    (n' = n ∧ i = i') ∨ (n' ≠ n ∧ d.inquiries n' = some i) := by
  by_cases same : n' = n
  · subst same
    rw [put_self] at found
    exact .inl ⟨rfl, (Option.some.inj found).symm⟩
  · rw [put_ne _ same] at found
    exact .inr ⟨same, found⟩

/-- The world in which the request has asked. -/
theorem publish_ask (served : Served w d) (resting : Resting w) (only : RoomsOnly w) {roomId : Str}
    (notInfo : roomId ≠ REQUEST_INFO) (notLeft : roomId ≠ PLAYER_LEFT) :
    ∃ w', publish s (subscribe d.world) roomId infoPayload = (w', none) ∧
      Answered (subscribe d.world) w' ∧ ∀ n, w'.infos n =
        if .infoRequest n ∈ (subscribe d.world).handlersOf REQUEST_INFO ∧ roomInfo w roomId ≠ none
        then roomInfo w roomId else (subscribe d.world).infos n := by
  have handlers : (subscribe d.world).handlersOf roomId = w.handlersOf roomId := by
    rw [← served.handlers notInfo, World.handlersOf, World.handlersOf]
    exact congrArg _ (PubSub.listenersOf_on_ne notInfo ..)
  have accepts : ∀ r, .playerLeft r ∉ (subscribe d.world).handlersOf REQUEST_INFO := fun r mem =>
    served.accepts r (playerLeft_subscribe.1 mem)
  rw [publish, handlers]
  cases room : w.managingRooms.lookup roomId with
  | none =>
    have empty : w.handlersOf roomId = [] := by
      refine List.eq_nil_iff_forall_not_mem.2 fun h mem => ?_
      obtain ⟨r, rfl⟩ := only notInfo notLeft mem
      rw [resting.agreed, room] at mem
      cases mem
    rw [empty]
    refine ⟨_, rfl, .refl _, fun n => ?_⟩
    simp [roomInfo, room]
  | some r =>
    have here : .gameMessage r ∈ w.handlersOf roomId := resting.agreed.2 room
    have rooms : ∀ h ∈ w.handlersOf roomId, ∃ r', h = .gameMessage r' ∧
        ((subscribe d.world).rooms r').info = (w.rooms r).info := by
      intro h mem
      obtain ⟨r', rfl⟩ := only notInfo notLeft mem
      obtain rfl : r = r' := Option.some.inj (room.symm.trans (resting.agreed.1 mem))
      refine ⟨r, rfl, ?_⟩
      rw [← served.rooms]
      rfl
    obtain ⟨w', delivered, frame, infos⟩ := deliver_rooms (s := s) rooms accepts
    refine ⟨w', delivered, frame, fun n => ?_⟩
    rw [infos n]
    simp [roomInfo, room, List.ne_nil_of_mem here, and_comm]

theorem held_congr {d' : Desk} {n : ℕ} (h : d'.world.infos n = d.world.infos n) (stage : Stage) :
    held d' n stage = held d n stage := by
  cases stage with
  | answered info => rfl
  | waiting | woken | left => exact h

theorem held_subscribed {i : Inquiry} (h : i.subscribed = true) (d : Desk) (n : ℕ) :
    held d n i.stage = d.world.infos n := by
  rw [Inquiry.subscribed] at h
  cases stage : i.stage with
  | waiting | woken | left => rfl
  | answered info =>
    rw [stage] at h
    cases h

theorem mem_handlersOf {w : World} {key : Str} {h : Handler} :
    h ∈ w.handlersOf key ↔ ∃ l ∈ w.pubsub.listenersOf key, l.handler = h :=
  List.mem_map

/-- A request that asks leaves the answers of the others as they should be. -/
theorem Served.ask (served : Served w d) (resting : Resting w) (only : RoomsOnly w) {roomId : Str}
    (sole : Sole w d (.ask roomId)) {d' : Desk} (h : step s d (.ask roomId) = some d') :
    Served w d' := by
  obtain ⟨notInfo, notLeft, alone⟩ := sole
  obtain ⟨w', delivered, ⟨infos, dangling, rfl⟩, told⟩ := publish_ask (s := s) served resting only
    notInfo notLeft
  rw [step, delivered] at h
  obtain rfl := Option.some.inj h
  dsimp only at told
  have on {key : Str} {l : Listener Handler} :
      l ∈ (subscribe d.world).pubsub.listenersOf key ↔ l ∈ d.world.pubsub.listenersOf key ∨
        (key = REQUEST_INFO ∧ l = ⟨d.world.nextListener, .infoRequest d.world.nextInfo⟩) :=
    PubSub.mem_listenersOf_on
  have old {n : ℕ} {i : Inquiry} (found : d.inquiries n = some i) : n ≠ d.world.nextInfo :=
    Nat.ne_of_lt (served.asked found)
  constructor
  · exact served.rooms
  · intro key notKey
    rw [← served.handlers notKey]
    exact congrArg (List.map Listener.handler) (PubSub.listenersOf_on_ne notKey ..)
  · exact fun r mem => served.accepts r (playerLeft_subscribe.1 mem)
  · intro l mem
    rcases on.1 mem with mem | ⟨-, rfl⟩
    · exact Nat.lt_succ_of_lt (served.below l mem)
    · exact Nat.lt_succ_self _
  · exact PubSub.nodup_on served.ids fun l mem => Nat.ne_of_lt (served.below l mem)
  · intro n i found
    rcases cases_put found with ⟨rfl, -⟩ | ⟨-, found⟩
    · exact Nat.lt_succ_self _
    · exact Nat.lt_succ_of_lt (served.asked found)
  · intro n i found subscribed
    rcases cases_put found with ⟨rfl, rfl⟩ | ⟨-, found⟩
    · exact on.2 (.inr ⟨rfl, rfl⟩)
    · exact on.2 (.inl (served.listens found subscribed))
  · intro l n mem handles
    rcases on.1 mem with mem | ⟨-, rfl⟩
    · obtain ⟨i, found, subscribed, listener⟩ := served.listener mem handles
      exact ⟨i, (put_ne d (old found) _).trans found, subscribed, listener⟩
    · obtain rfl := Handler.infoRequest.inj handles
      exact ⟨_, put_self .., rfl, rfl⟩
  · intro n i found
    rcases cases_put found with ⟨rfl, rfl⟩ | ⟨-, found⟩
    · change infos d.world.nextInfo = roomInfo w roomId
      rw [told]
      by_cases none : roomInfo w roomId = none
      · rw [if_neg (fun both => both.2 none), none]
        exact Function.update_self ..
      · rw [if_pos ⟨infoRequest_subscribe d.world, none⟩]
    · have before := served.known found
      by_cases reached : .infoRequest n ∈ (subscribe d.world).handlersOf REQUEST_INFO ∧
          roomInfo w roomId ≠ none
      · obtain ⟨l, mem, handles⟩ := mem_handlersOf.1 reached.1
        obtain ⟨r, room⟩ : ∃ r, w.managingRooms.lookup roomId = some r :=
          Option.ne_none_iff_exists'.1 fun none => reached.2 (by rw [roomInfo, none]; rfl)
        rcases on.1 mem with mem | ⟨-, rfl⟩
        · obtain ⟨i', found', subscribed, -⟩ := served.listener mem handles
          obtain rfl := Option.some.inj (found.symm.trans found')
          have same := (alone.resolve_left (by rw [room]; nofun)) n (served.asked found) i found
            subscribed
          rw [held_subscribed subscribed, same]
          exact (told n).trans (if_pos reached)
        · exact absurd (Handler.infoRequest.inj handles).symm (old found)
      · refine (held_congr ?_ i.stage).trans before
        change infos n = d.world.infos n
        rw [told, if_neg reached]
        exact Function.update_of_ne (old found) ..

/-- A request that goes on to its next section, while nothing is published. -/
theorem Served.advance (served : Served w d) {n : ℕ} {i i' : Inquiry} (found : d.inquiries n = some i)
    (roomId : i'.roomId = i.roomId) (listener : i'.listener = i.listener)
    (subscribed : i'.subscribed = i.subscribed) (holds : held d n i'.stage = held d n i.stage) :
    Served w (d.put n i') where
  rooms := served.rooms
  handlers := served.handlers
  accepts := served.accepts
  below := served.below
  ids := served.ids
  asked here := by
    rcases cases_put here with ⟨rfl, -⟩ | ⟨-, here⟩
    · exact served.asked found
    · exact served.asked here
  listens here waits := by
    rcases cases_put here with ⟨rfl, rfl⟩ | ⟨-, here⟩
    · rw [listener]
      exact served.listens found (subscribed ▸ waits)
    · exact served.listens here waits
  listener {l n'} mem handles := by
    obtain ⟨j, here, waits, same⟩ := served.listener mem handles
    by_cases own : n' = n
    · subst own
      obtain rfl := Option.some.inj (found.symm.trans here)
      exact ⟨i', put_self .., subscribed.trans waits, listener.trans same⟩
    · exact ⟨j, (put_ne d own i').trans here, waits, same⟩
  known here := by
    rcases cases_put here with ⟨rfl, rfl⟩ | ⟨-, here⟩
    · rw [roomId]
      exact holds.trans (served.known found)
    · exact served.known here

theorem Served.unsubscribe (served : Served w d) {n : ℕ} {i i' : Inquiry}
    (found : d.inquiries n = some i) (waits : i.subscribed = true) (roomId : i'.roomId = i.roomId)
    (left : i'.subscribed = false) (holds : held d n i'.stage = d.world.infos n) :
    Served w
      ({ d with world := d.world.unsubscribe REQUEST_INFO (some i.listener) }.put n i') := by
  have off {key : Str} {l : Listener Handler} :
      l ∈ (d.world.unsubscribe REQUEST_INFO (some i.listener)).pubsub.listenersOf key ↔
        l ∈ d.world.pubsub.listenersOf key ∧ (key = REQUEST_INFO → l.id ≠ i.listener) :=
    PubSub.mem_listenersOf_unsubscribe
  have own := served.listens found waits
  refine ⟨served.rooms, fun notKey => ?_, fun r mem => ?_, fun l mem => ?_, ?_, fun here => ?_,
    fun here waits' => ?_, fun {l n'} mem handles => ?_, fun here => ?_⟩
  · rw [← served.handlers notKey]
    exact congrArg (List.map Listener.handler) (PubSub.listenersOf_unsubscribe_ne notKey ..)
  · obtain ⟨l, mem, handles⟩ := mem_handlersOf.1 mem
    exact served.accepts r (mem_handlersOf.2 ⟨l, (off.1 mem).1, handles⟩)
  · exact served.below l (off.1 mem).1
  · exact PubSub.nodup_unsubscribe served.ids
  · rcases cases_put here with ⟨rfl, -⟩ | ⟨-, here⟩
    · exact served.asked found
    · exact served.asked here
  · rcases cases_put here with ⟨rfl, rfl⟩ | ⟨other, here⟩
    · rw [left] at waits'
      cases waits'
    · have mem := served.listens here waits'
      refine off.2 ⟨mem, fun _ same => other ?_⟩
      have equal := List.inj_on_of_nodup_map served.ids mem own same
      exact Handler.infoRequest.inj (congrArg Listener.handler equal)
  · obtain ⟨mem, kept⟩ := off.1 mem
    obtain ⟨j, here, waits', same⟩ := served.listener mem handles
    have other : n' ≠ n := by
      rintro rfl
      obtain rfl := Option.some.inj (found.symm.trans here)
      exact kept rfl same.symm
    exact ⟨j, (put_ne _ other i').trans here, waits', same⟩
  · rcases cases_put here with ⟨rfl, rfl⟩ | ⟨-, here⟩
    · rw [roomId, ← served.known found, held_subscribed waits]
      exact holds
    · exact served.known here

theorem Served.step (served : Served w d) (resting : Resting w) (only : RoomsOnly w) {label : Step}
    (sole : Sole w d label) {d' : Desk} (h : step s d label = some d') : Served w d' := by
  cases label with
  | ask roomId => exact served.ask resting only sole h
  | wake n =>
    rw [Inquiries.step] at h
    split at h
    · rename_i found
      obtain rfl := Option.some.inj h
      exact served.advance found rfl rfl rfl rfl
    · cases h
  | leave n =>
    rw [Inquiries.step] at h
    split at h
    · rename_i found
      obtain rfl := Option.some.inj h
      exact served.unsubscribe found rfl rfl rfl rfl
    · cases h
  | respond n =>
    rw [Inquiries.step] at h
    split at h
    · rename_i found
      obtain rfl := Option.some.inj h
      exact served.advance found rfl rfl rfl rfl
    · cases h

theorem roomsOnly_sound {w : World} (sound : w.ledger.Sound) : RoomsOnly w := by
  intro key h notInfo notLeft mem
  cases h with
  | gameMessage r => exact ⟨r, rfl⟩
  | playerLeft r => exact absurd (playerLeft_channel sound mem) notLeft
  | infoRequest n =>
    obtain ⟨l, listens, handles⟩ := mem_handlersOf.1 mem
    have owns := (sound.owns listens).1
    rw [Ledger.Owns, handles] at owns
    exact absurd owns notInfo

theorem served_opening {w : World} (sound : w.ledger.Sound) (resting : Resting w) :
    Served w (Desk.opening w) where
  rooms := rfl
  handlers _ := rfl
  accepts r mem := absurd (playerLeft_channel sound mem) (by decide)
  below l mem := (sound.owns mem).2
  ids := sound.ids REQUEST_INFO
  asked found := by cases found
  listens found := by cases found
  listener mem handles := absurd (mem_handlersOf.2 ⟨_, mem, handles⟩) (resting.quiet _)
  known found := by cases found

end

/-- In every state that the server reaches with its rooms registered where they listen, however many
requests are interleaved: if none asks for a control channel and no two for different rooms overlap, each
is told about its own room, or that there is none. -/
theorem inquiries_authentic {M : MsgpackC} {J : JsonText}
    {met : ServerConfig → Label Answer EnvEvent → Prop} {ls : List (Label Answer EnvEvent)}
    {c : ServerConfig} (run : Run (server M J) met ServerConfig.initial ls c)
    (resting : Resting c.world) (s : Surroundings) {steps : List Step} {d : Desk}
    (asked : Machine.Run (step s) (Sole c.world) (Desk.opening c.world) steps d) :
    Authentic c.world d := by
  have kept : Kept c := Kept.run run
  have served : Served c.world d :=
    asked.invariant (served_opening kept.sound resting) fun served sole h =>
      served.step resting (roomsOnly_sound kept.sound) sole h
  intro n i info found stage
  have known := served.known found
  rw [stage] at known
  exact known

/-! Two rooms, of which the second has a state. -/

def rests (w : World) : Bool :=
  (w.pubsub.listeners.entries.all fun e => e.2.all fun l =>
    match l.handler with
    | .gameMessage r => w.managingRooms.lookup e.1 == some r
    | .playerLeft _ => true
    | .infoRequest _ => false) &&
  w.managingRooms.entries.all fun e => (w.handlersOf e.1).contains (.gameMessage e.2)

theorem resting_of_rests {w : World} (h : rests w = true) : Resting w := by
  obtain ⟨listening, registered⟩ := Bool.and_eq_true_iff.1 h
  have checked : ∀ {key handler}, handler ∈ w.handlersOf key → (match handler with
      | .gameMessage r => w.managingRooms.lookup key == some r
      | .playerLeft _ => true
      | .infoRequest _ => false) = true := by
    intro key handler mem
    obtain ⟨l, listens, rfl⟩ := mem_handlersOf.1 mem
    rw [PubSub.listenersOf] at listens
    cases found : w.pubsub.listeners.lookup key with
    | none =>
      rw [found] at listens
      cases listens
    | some listeners =>
      rw [found] at listens
      exact List.all_eq_true.1 (List.all_eq_true.1 listening _ (AList.mem_lookup_iff.1 found)) l listens
  refine ⟨fun {roomId r} => ⟨fun mem => by simpa using checked mem, fun found => ?_⟩,
    fun n mem => absurd (checked mem) Bool.false_ne_true⟩
  exact List.contains_iff_mem.1 (List.all_eq_true.1 registered _ (AList.mem_lookup_iff.1 found))

def twoRooms : List (Label Answer EnvEvent) :=
  startsUp ++ opensRoom (lit "q") ([.setState (.str (lit "secret")), .ret] ++ Blueboat.steps 3)

instance (w : World) (d : Desk) : DecidablePred (Sole w d)
  | .ask roomId => inferInstanceAs (Decidable (roomId ≠ REQUEST_INFO ∧ roomId ≠ PLAYER_LEFT ∧
      (w.managingRooms.lookup roomId = none ∨
        ∀ n < d.world.nextInfo, ∀ i ∈ d.inquiries n, i.subscribed = true → i.roomId = roomId)))
  | .wake _ | .leave _ | .respond _ => inferInstanceAs (Decidable True)

def told (d : Desk) (n : ℕ) : Bool :=
  match d.inquiries n with
  | some ⟨_, _, .answered info⟩ => info.isSome
  | _ => false

/-- Two requests for `r` and then one for a room that there is not, all three subscribed at once. -/
theorem inquiries_authentic_overlap : ∃ ls c steps d,
    Run (server shortest strict) (fun _ _ => True) ServerConfig.initial ls c ∧
    Machine.Run (step calm) (Sole c.world) (Desk.opening c.world) steps d ∧
    told d 0 = true ∧ told d 1 = true ∧ Authentic c.world d := by
  have found : (execute (server shortest strict) (fun _ _ => true) ServerConfig.initial
      twoRooms).any (fun c => rests c.world && (Machine.execute (step calm)
        (fun d label => decide (Sole c.world d label)) (Desk.opening c.world)
        [.ask (lit "r"), .ask (lit "r"), .ask (lit "x"), .wake 1, .leave 1, .wake 0, .leave 0,
          .respond 0, .respond 1]).any fun d => told d 0 && told d 1) = true := by
    decide +kernel
  obtain ⟨c, run, facts⟩ := exists_run _ found
  obtain ⟨rest, answers⟩ := Bool.and_eq_true_iff.1 facts
  obtain ⟨d, asked, both⟩ := Machine.exists_run _ _ _ _ _ answers
  have run' : Run (server shortest strict) (fun _ _ => True) _ _ c := run.weaken _ fun _ => trivial
  have asked' : Machine.Run (step calm) (Sole c.world) (Desk.opening c.world) _ d :=
    asked.weaken fun sole => of_decide_eq_true sole
  obtain ⟨first, second⟩ := Bool.and_eq_true_iff.1 both
  exact ⟨_, c, _, d, run', asked', first, second,
    inquiries_authentic run' (resting_of_rests rest) calm asked'⟩

def stateText (info : Json) : Option Str :=
  (info.find? (lit "state")).bind fun state => state.getString.toOption

/-- The request for `q` is answered on the channel to which the one for `r` is still subscribed. -/
theorem inquiry_confused : ¬ ∀ (M : MsgpackC) (J : JsonText) (ls : List (Label Answer EnvEvent))
    (c : ServerConfig), Run (server M J) (fun _ _ => True) ServerConfig.initial ls c →
    Resting c.world → ∀ (s : Surroundings) (steps : List Step) (d : Desk),
    Machine.Run (step s) (fun _ _ => True) (Desk.opening c.world) steps d → Authentic c.world d := by
  intro authentic
  have found : (execute (server shortest strict) (fun _ _ => true) ServerConfig.initial
      twoRooms).any (fun c => rests c.world && (Machine.execute (step calm) (fun _ _ => true)
        (Desk.opening c.world) [.ask (lit "r"), .ask (lit "q"), .wake 0, .leave 0, .respond 0]).any
          fun d => match d.inquiries 0 with
            | some ⟨roomId, _, .answered info⟩ =>
              info.bind stateText != (roomInfo c.world roomId).bind stateText
            | _ => false) = true := by
    decide +kernel
  obtain ⟨c, run, facts⟩ := exists_run _ found
  obtain ⟨rest, answers⟩ := Bool.and_eq_true_iff.1 facts
  obtain ⟨d, asked, differs⟩ := Machine.exists_run _ _ _ _ _ answers
  have told := authentic _ _ _ c (run.weaken _ fun _ => trivial) (resting_of_rests rest) calm _ d
    (asked.weaken fun _ => trivial)
  split at differs
  · rename_i roomId listener info inquiry
    rw [told 0 _ info inquiry rfl, bne_self_eq_false] at differs
    cases differs
  · cases differs

end Blueboat.Inquiries
