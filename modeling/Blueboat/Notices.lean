import Mathlib.Algebra.BigOperators.Group.Finset.Basic
import Blueboat.Departures
import Blueboat.Presence

set_option autoImplicit false

/-! What a client is told about its memberships: the `joinedRoom` and `removedFromRoom` frames that the
server has sent it add up to the rooms that list it. -/
namespace Blueboat

open Protocol LockMachine Ledger

/-- A frame that tells a session that it has joined a room, or that it has been removed from one; the
second field is the event of the frame, which carries the id of the room. -/
def Event.notice : Event → Option (Str × Str × Bool)
  | .frame sessionId event data =>
    match data.find? (lit "key") with
    | some (.str key) =>
      if key = joinedRoom then some (sessionId, event, true)
      else if key = removedFromRoom then some (sessionId, event, false)
      else none
    | _ => none
  | _ => none

def World.notices (w : World) : List (Str × Str × Bool) := w.log.filterMap Event.notice

def roomEvent (roomId : Str) : Str := lit "message-" ++ roomId

def World.listings (w : World) (sessionId roomId : Str) (r : RoomRef) : ℕ :=
  if (w.rooms r).roomId = roomId then (w.sessionsIn r).count sessionId else 0

/-- How often the rooms with this id list the session. -/
def World.places (w : World) (sessionId roomId : Str) : ℕ :=
  ∑ r ∈ Finset.range w.nextRoom, w.listings sessionId roomId r

/-! The notices that one command sends. -/

section
variable (w : World)

theorem notice_sendTo (r : RoomRef) (sessionId key : Str) (data : Json) :
    Event.notice (.frame sessionId (roomEvent (w.rooms r).roomId)
      (Json.ofFields [(lit "key", .str key), (lit "data", data)])) =
      if key = joinedRoom then some (sessionId, roomEvent (w.rooms r).roomId, true)
      else if key = removedFromRoom then some (sessionId, roomEvent (w.rooms r).roomId, false)
      else none := rfl

theorem notices_log {w w' : World} {events : List Event} (log : w'.log = w.log ++ events) :
    w'.notices = w.notices ++ events.filterMap Event.notice := by
  rw [World.notices, log, List.filterMap_append]
  rfl

theorem notices_same {w w' : World} (log : w'.log = w.log) : w'.notices = w.notices :=
  congrArg (List.filterMap Event.notice) log

theorem log_sendFrameToClient (sessionId event : Str) (data : Json) :
    (w.sendFrameToClient sessionId event data).log =
      w.log ++ if (w.connections.lookup sessionId).isSome then [.frame sessionId event data]
        else [] := by
  unfold World.sendFrameToClient
  cases w.connections.lookup sessionId with
  | none => exact (List.append_nil _).symm
  | some client => rfl

theorem notices_sendQuiet {sessionId event : Str} {data : Json}
    (quiet : Event.notice (.frame sessionId event data) = none) :
    (w.sendFrameToClient sessionId event data).notices = w.notices := by
  rw [notices_log (log_sendFrameToClient w sessionId event data)]
  split
  · rw [List.filterMap_cons_none quiet]
    exact List.append_nil _
  · exact List.append_nil _

theorem Mute.notices {alive : Prop} {w w' : World} (h : Mute alive w w') : w'.notices = w.notices :=
  notices_same h.log

theorem notices_replyCreated (r : RoomRef) (creator : Creator) :
    (replyCreated w r creator).notices = w.notices := by
  cases creator with
  | api => rfl
  | frame => exact notices_sendQuiet w rfl

theorem notice_error (sessionId event what : Str) :
    Event.notice (.frame sessionId event (errorMessage what)) = none := rfl

/-- A leave tells the session that it was removed, if it was there and is connected. -/
theorem notices_removeClient (r : RoomRef) (sessionId : Str) (intentional : Bool) :
    (removeClient w r sessionId intentional).1.notices = w.notices ++
      if sessionId ∈ w.sessionsIn r ∧ (w.connections.lookup sessionId).isSome then
        [(sessionId, roomEvent (w.rooms r).roomId, false)] else [] := by
  unfold removeClient
  dsimp only
  rw [touch_rooms]
  cases found : (w.rooms r).member sessionId with
  | none =>
    have absent : sessionId ∉ w.sessionsIn r := by
      intro mem
      obtain ⟨client, listed, named⟩ := List.mem_map.1 mem
      exact List.find?_eq_none.1 found client listed (decide_eq_true named)
    rw [if_neg fun here => absent here.1, List.append_nil]
    exact (touch_mute w r).notices
  | some client =>
    have listed : client ∈ (w.rooms r).clients := List.mem_of_find?_eq_some found
    have named : client.sessionId = sessionId := by simpa using List.find?_some found
    subst named
    have here : client.sessionId ∈ w.sessionsIn r := List.mem_map_of_mem listed
    have quiet := (touch_mute w r).trans
      (setRoom_mute (w.touch r) r ((w.rooms r).eraseMember client.sessionId))
    dsimp only [World.sendTo]
    rw [notices_log (log_sendFrameToClient ..), quiet.notices, quiet.connections]
    refine congrArg (w.notices ++ ·) ?_
    cases (w.connections.lookup client.sessionId).isSome with
    | false => rw [if_neg Bool.false_ne_true, if_neg fun both => Bool.false_ne_true both.2]; rfl
    | true =>
      rw [if_pos rfl, if_pos ⟨here, rfl⟩]
      simp only [World.setRoom, Function.update_self]
      rfl

/-- An admission tells the session that it has joined, if it is connected. -/
theorem notices_addClient (r : RoomRef) (client : SimpleClient) :
    (addClient w r client).notices = w.notices ++
      if (w.connections.lookup client.sessionId).isSome then
        [(client.sessionId, roomEvent (w.rooms r).roomId, true)] else [] := by
  have quiet := (touch_mute w r).trans
    (setRoom_mute (w.touch r) r (((w.touch r).rooms r).addMember client))
  unfold addClient World.sendTo
  rw [notices_log (log_sendFrameToClient ..), quiet.notices, quiet.connections]
  refine congrArg (w.notices ++ ·) ?_
  split
  · simp only [World.setRoom, Function.update_self, touch_rooms]
    rfl
  · rfl

theorem sessionsIn_removeClient (r : RoomRef) (sessionId : Str) (intentional : Bool) :
    (removeClient w r sessionId intentional).1.sessionsIn r = (w.sessionsIn r).erase sessionId := by
  have ledger := (removeClient_cases w r sessionId intentional).1
  exact sessionsIn_eraseMember (sameStory_of_lives (congrArg Ledger.lives ledger))

theorem sessionsIn_addClient (r : RoomRef) (client : SimpleClient) :
    (addClient w r client).sessionsIn r = w.sessionsIn r ++ [client.sessionId] := by
  simp [addClient, World.sendTo, World.setRoom, World.sessionsIn, Room.addMember]

end

/-- No hook sends, as a message of its own, what the client takes for a change of its memberships. -/
def SendsNoNotice (_ : ServerConfig) (l : Label Answer EnvEvent) : Prop :=
  ∀ sessionId key data, l = .act (.send sessionId key data) →
    key ≠ joinedRoom ∧ key ≠ removedFromRoom

inductive Notifies (w w' : World) : Cmd → Answer → Prop where
  | none {cmd : Cmd} {a : Answer} (same : w'.notices = w.notices)
      (stays : ∀ r sessionId intentional left, ¬ Removes cmd a r sessionId intentional left)
      (adds : ∀ r client options, cmd ≠ .addClient r client options) : Notifies w w' cmd a
  | left {cmd : Cmd} {a : Answer} {r : RoomRef} {sessionId : Str} {intentional : Bool}
      {left : List Cmd} (calls : Removes cmd a r sessionId intentional left)
      (told : w'.notices = w.notices ++
        if sessionId ∈ w.sessionsIn r ∧ (w.connections.lookup sessionId).isSome then
          [(sessionId, roomEvent (w.rooms r).roomId, false)] else [])
      (members : w'.sessionsIn r = (w.sessionsIn r).erase sessionId) : Notifies w w' cmd a
  | joined {r : RoomRef} {client : SimpleClient} {options : Json} {a : Answer}
      (told : w'.notices = w.notices ++
        if (w.connections.lookup client.sessionId).isSome then
          [(client.sessionId, roomEvent (w.rooms r).roomId, true)] else [])
      (members : w'.sessionsIn r = w.sessionsIn r ++ [client.sessionId]) :
    Notifies w w' (.addClient r client options) a

section
variable {M : MsgpackC} {J : JsonText} {w : World} {cmd : Cmd} {a : Answer} {o : Out}

/-- A command that neither removes nor adds anyone. -/
theorem Notifies.plain {w' : World} (same : w'.notices = w.notices)
    (stays : ∀ r sessionId intentional left, ¬ Removes cmd a r sessionId intentional left := by
      rintro _ _ _ _ ⟨⟩)
    (adds : ∀ r client options, cmd ≠ .addClient r client options := by rintro _ _ _ ⟨⟩) :
    Notifies w w' cmd a := .none same stays adds

theorem notifies_inHook {r : RoomRef} {hook : Hook}
    (honest : ∀ sessionId key data, a = .send sessionId key data →
      key ≠ joinedRoom ∧ key ≠ removedFromRoom)
    (h : exec M J w (.inHook r hook) a = some o) : Notifies w o.world (.inHook r hook) a := by
  change inHook J w r hook a = some o at h
  cases a with
  | removeFromRoom sessionId =>
    obtain rfl := Option.some.inj h
    exact .left .hook (notices_removeClient w r sessionId true) (sessionsIn_removeClient ..)
  | send sessionId key data =>
    obtain rfl := Option.some.inj h
    obtain ⟨joined, removed⟩ := honest _ _ _ rfl
    refine .plain ((notices_sendQuiet _ ?_).trans (touch_mute w r).notices)
    refine (notice_sendTo (w.touch r) r sessionId key data).trans ?_
    rw [if_neg joined, if_neg removed]
  | _ => exact .plain (inHook_mute h (by rintro _ ⟨⟩) (by rintro _ _ _ ⟨⟩)).notices

theorem notifies_deliver {payload : Json} {handlers : List Handler}
    (h : exec M J w (.deliver payload handlers) a = some o) :
    Notifies w o.world (.deliver payload handlers) a := by
  cases handlers with
  | nil => obtain rfl := Option.some.inj h; exact .plain rfl
  | cons handler handlers =>
    obtain rfl := Option.some.inj h
    cases handler with
    | infoRequest | gameMessage =>
      exact .plain (handle_mute _ _ _ _ (by rintro _ ⟨⟩)).notices
    | playerLeft r =>
      unfold handle
      cases reads : payload.getString with
      | error x =>
        refine .plain rfl fun r' sessionId intentional left calls => ?_
        cases calls with
        | playerLeft reads' => cases reads.symm.trans reads'
      | ok sessionId =>
        exact .left (.playerLeft reads) (notices_removeClient w r sessionId false)
          (sessionsIn_removeClient w r sessionId false)

/-- What one command tells the clients about their memberships. -/
theorem exec_notifies
    (honest : ∀ sessionId key data, a = .send sessionId key data →
      key ≠ joinedRoom ∧ key ≠ removedFromRoom)
    (h : exec M J w cmd a = some o) : Notifies w o.world cmd a := by
  cases cmd with
  | inHook r hook => exact notifies_inHook honest h
  | deliver payload handlers => exact notifies_deliver h
  | disposeLoop r left =>
    cases left with
    | nil => obtain rfl := Option.some.inj h; exact .plain (touch_mute w r).notices
    | cons sessionId left =>
      obtain rfl := Option.some.inj h
      exact .left .loop (notices_removeClient w r sessionId true) (sessionsIn_removeClient ..)
  | addClient r client options =>
    obtain rfl := Option.some.inj h
    exact .joined (notices_addClient w r client) (sessionsIn_addClient w r client)
  | callHook r hook =>
    obtain rfl := Option.some.inj h
    refine .plain ((notices_log rfl).trans ?_)
    exact (List.append_nil _).trans (touch_mute w r).notices
  | dispatch client isBinary payload =>
    obtain rfl := Option.some.inj h
    refine .plain ?_
    unfold dispatch
    split
    · rfl
    · split
      · split
        · rfl
        · exact (notices_log rfl).trans (List.append_nil _)
      · rfl
      · rfl
      · rfl
  | created r client creator =>
    obtain rfl := Option.some.inj h
    refine .plain ?_
    unfold created
    dsimp only
    split
    · rfl
    · exact notices_replyCreated _ r creator
  | _ => exact .plain (notices_same (exec_log h rfl))

theorem unwind_notices {x : Exn} (h : unwind w cmd x a = some o) :
    o.world.notices = w.notices := by
  cases cmd with
  | catchCreate | catchJoinRoom =>
    cases x
    · obtain rfl := Option.some.inj h
      exact notices_sendQuiet w (notice_error ..)
    · obtain rfl := Option.some.inj h
      rfl
  | catchJoin r client =>
    cases x
    · obtain rfl := Option.some.inj h
      exact (notices_sendQuiet _ (notice_error ..)).trans (touch_mute w r).notices
    · obtain rfl := Option.some.inj h
      rfl
  | created r =>
    obtain rfl := Option.some.inj h
    exact (dispose_mute w r .rollback).notices
  | inHook =>
    simp only [unwind] at h
    split at h <;> cases h <;> rfl
  | boundary =>
    simp only [unwind] at h
    split at h <;> cases h <;> rfl
  | _ => obtain rfl := Option.some.inj h; rfl

end

/-! The frames add up, whatever one command does. -/

theorem Removes.unique {cmd : Cmd} {a : Answer} {r r' : RoomRef} {s s' : Str} {i i' : Bool}
    {left left' : List Cmd} (h : Removes cmd a r s i left) (h' : Removes cmd a r' s' i' left') :
    r = r' ∧ s = s' := by
  cases h with
  | playerLeft reads =>
    cases h' with
    | playerLeft reads' => exact ⟨rfl, Except.ok.inj (reads.symm.trans reads')⟩
  | hook => cases h'; exact ⟨rfl, rfl⟩
  | loop => cases h'; exact ⟨rfl, rfl⟩

/-- A sum changes by what one of its terms changes. -/
theorem sum_change {n r : ℕ} {f g : ℕ → ℕ} (mem : r < n) (same : ∀ r' ≠ r, g r' = f r') :
    ∑ i ∈ Finset.range n, g i + f r = ∑ i ∈ Finset.range n, f i + g r := by
  have split := fun h : ℕ → ℕ => Finset.add_sum_erase (Finset.range n) h (Finset.mem_range.2 mem)
  have rest : ∑ i ∈ (Finset.range n).erase r, g i = ∑ i ∈ (Finset.range n).erase r, f i := by
    apply Finset.sum_congr rfl
    intro i h
    exact same i (Finset.ne_of_mem_erase h)
  rw [← split g, ← split f, rest]
  omega

theorem roomEvent_inj {roomId roomId' : Str} : roomEvent roomId = roomEvent roomId' ↔ roomId = roomId' :=
  List.append_right_inj _

section
variable {J : JsonText} {w : World} {cmd : Cmd} {a : Answer} {o : Out}

/-- A room that the command neither empties nor fills keeps its members. -/
theorem Effect.untouched (h : Effect J w cmd a o) {r : RoomRef} (born : r < w.nextRoom)
    (stays : ∀ s intentional left, ¬ Removes cmd a r s intentional left)
    (adds : ∀ client options, cmd ≠ .addClient r client options) :
    o.world.sessionsIn r = w.sessionsIn r := by
  have same : ∀ {k : Ledger}, k.SameStory o.world.ledger →
      (k.lives r).clients = (w.rooms r).clients → o.world.sessionsIn r = w.sessionsIn r :=
    fun story kept => congrArg (List.map SimpleClient.sessionId) ((story.clients r).trans kept)
  cases h.tells with
  | same story => exact same story rfl
  | birth story => exact same story (congrArg Life.clients (birth_ne w.ledger _ born.ne))
  | @removed _ _ r' sessionId _ _ calls story =>
    have other : r ≠ r' := fun here => stays _ _ _ (here ▸ calls)
    exact same story (clients_eraseMember_ne w.ledger other sessionId)
  | disposed _ story | autoDisposed _ story => exact same story (clients_dispose ..)
  | @admitted r' client _ _ story =>
    have other : r ≠ r' := fun here => adds _ _ (by rw [here])
    exact same story (clients_addMember_ne w.ledger other client)
  | gone story => exact same story (by rw [onRoomDisposed_lives]; rfl)

theorem Housed.unborn (housed : Housed w.ledger) {r : RoomRef} (unborn : w.nextRoom ≤ r) :
    w.sessionsIn r = [] := by
  by_contra listed
  have alive := housed r fun none => listed (congrArg (List.map SimpleClient.sessionId) none)
  exact absurd alive.1 unborn.not_gt

/-- A room that is just made has no members. -/
theorem Effect.unborn (h : Effect J w cmd a o) (housed : Housed w.ledger) (ok : cmd.Ok w.ledger)
    {r : RoomRef} (unborn : w.nextRoom ≤ r) : o.world.sessionsIn r = [] := by
  rw [List.eq_nil_iff_forall_not_mem]
  intro s mem
  rcases h.listed mem with mem | ⟨client, options, rfl, -⟩
  · rw [housed.unborn unborn] at mem
    cases mem
  · exact absurd ok.1 unborn.not_gt

theorem Effect.listings (h : Effect J w cmd a o) (housed : Housed w.ledger) (ok : cmd.Ok w.ledger)
    {r : RoomRef} (stays : ∀ s intentional left, ¬ Removes cmd a r s intentional left)
    (adds : ∀ client options, cmd ≠ .addClient r client options) (sessionId roomId : Str) :
    o.world.listings sessionId roomId r = w.listings sessionId roomId r := by
  unfold World.listings
  rcases Nat.lt_or_ge r w.nextRoom with born | unborn
  · rw [h.roomId born, h.untouched born stays adds]
  · rw [h.unborn housed ok unborn, housed.unborn unborn]
    simp

theorem Housed.places (housed : Housed w.ledger) {n : ℕ} (le : w.nextRoom ≤ n)
    (sessionId roomId : Str) :
    w.places sessionId roomId = ∑ r ∈ Finset.range n, w.listings sessionId roomId r := by
  apply Finset.sum_subset (Finset.range_mono le)
  intro r _ unborn
  rw [World.listings, housed.unborn (by simpa using unborn)]
  simp

/-- Only the room that the command is about changes the sum. -/
theorem Effect.places (h : Effect J w cmd a o) (housed : Housed w.ledger) (ok : cmd.Ok w.ledger)
    (r : RoomRef) (stays : ∀ r' ≠ r, ∀ s intentional left, ¬ Removes cmd a r' s intentional left)
    (adds : ∀ r' ≠ r, ∀ client options, cmd ≠ .addClient r' client options)
    (sessionId roomId : Str) :
    o.world.places sessionId roomId +
        (if (w.rooms r).roomId = roomId then (w.sessionsIn r).count sessionId else 0) =
      w.places sessionId roomId +
        if (w.rooms r).roomId = roomId then (o.world.sessionsIn r).count sessionId else 0 := by
  have le := h.counters.1
  have others : ∀ r' ≠ r, o.world.listings sessionId roomId r' = w.listings sessionId roomId r' :=
    fun r' ne => h.listings housed ok (stays r' ne) (adds r' ne) sessionId roomId
  rw [housed.places le]
  rcases Nat.lt_or_ge r w.nextRoom with born | unborn
  · have change := sum_change (lt_of_lt_of_le born le) others
    rw [World.listings, World.listings, h.roomId born] at change
    exact change
  · have same : ∀ r' : ℕ, o.world.listings sessionId roomId r' = w.listings sessionId roomId r' := by
      intro r'
      by_cases here : r' = r
      · rw [here, World.listings, World.listings, h.unborn housed ok unborn, housed.unborn unborn]
        simp
      · exact others r' here
    rw [h.unborn housed ok unborn, housed.unborn unborn, Finset.sum_congr rfl fun r' _ => (same r').symm]
    rfl

theorem Effect.places_same (h : Effect J w cmd a o) (housed : Housed w.ledger)
    (ok : cmd.Ok w.ledger) (stays : ∀ r s intentional left, ¬ Removes cmd a r s intentional left)
    (adds : ∀ r client options, cmd ≠ .addClient r client options) (sessionId roomId : Str) :
    o.world.places sessionId roomId = w.places sessionId roomId := by
  rw [housed.places h.counters.1]
  exact Finset.sum_congr rfl fun r _ => h.listings housed ok (stays r) (adds r) sessionId roomId

/-- The joins that the session was told of are the removals that it was told of and the places it has. -/
def World.Truth (w : World) (sessionId : Str) : Prop := ∀ roomId,
  w.notices.count (sessionId, roomEvent roomId, true) =
    w.notices.count (sessionId, roomEvent roomId, false) + w.places sessionId roomId

theorem count_notice {notices : List (Str × Str × Bool)} {p : Prop} [Decidable p] (s s' e e' : Str)
    (b b' : Bool) : (notices ++ if p then [(s', roomEvent e', b')] else []).count (s, roomEvent e, b) =
      notices.count (s, roomEvent e, b) + if p ∧ s' = s ∧ e' = e ∧ b' = b then 1 else 0 := by
  rw [List.count_append]
  by_cases held : p
  · simp [held, List.count_singleton, Prod.ext_iff, roomEvent_inj]
  · simp [held]

theorem Effect.truth (h : Effect J w cmd a o) (notifies : Notifies w o.world cmd a)
    (housed : Housed w.ledger) (ok : cmd.Ok w.ledger) {sessionId : Str}
    (connected : w.Connected sessionId) (truth : w.Truth sessionId) : o.world.Truth sessionId := by
  intro roomId
  have before := truth roomId
  cases notifies with
  | none same stays adds =>
    rw [same, h.places_same housed ok stays adds]
    exact before
  | @left _ _ r left _ _ calls told members =>
    have places := h.places housed ok r (fun r' ne s i l calls' => ne (calls'.unique calls).1)
      (fun r' _ client options adds => by subst adds; cases calls) sessionId roomId
    rw [members, List.count_erase] at places
    rw [told, count_notice, count_notice]
    by_cases own : left = sessionId
    · subst own
      have connected : (w.connections.lookup left).isSome := connected
      by_cases here : left ∈ w.sessionsIn r
      · have counted := List.count_pos_iff.2 here
        by_cases there : (w.rooms r).roomId = roomId
        · simp [there, here, connected] at places ⊢
          omega
        · simp [there] at places ⊢
          omega
      · have none := List.count_eq_zero.2 here
        simp [here, none] at places ⊢
        omega
    · simp [own] at places ⊢
      omega
  | @joined r client options a told members =>
    have places := h.places housed ok r (fun r' ne s i l calls' => by cases calls')
      (fun r' ne client options adds => ne (by cases adds; rfl)) sessionId roomId
    rw [members, List.count_append, List.count_singleton] at places
    rw [told, count_notice, count_notice]
    by_cases own : client.sessionId = sessionId
    · subst own
      have connected : (w.connections.lookup client.sessionId).isSome := connected
      by_cases there : (w.rooms r).roomId = roomId
      · simp [there, connected] at places ⊢
        omega
      · simp [there] at places ⊢
        omega
    · simp [own] at places ⊢
      omega

end

def Unopened (sessionId : Str) (c : ServerConfig) : Prop :=
  c.world.sessions.lookup sessionId = none ∨
    ∃ t ∈ c.threads, ∃ client, .openConnection client ∈ t.stack ∧ client.sessionId = sessionId

structure World.Unheard (w : World) (sessionId : Str) : Prop where
  closed : w.connections.lookup sessionId = none
  out : ∀ r, sessionId ∉ w.sessionsIn r
  untold : ∀ event joins, (sessionId, event, joins) ∉ w.notices

/-- Who is connected has been told the truth, and of who is not connected yet nothing is known. -/
structure Truthful (c : ServerConfig) : Prop where
  told : ∀ sessionId, c.world.Connected sessionId → c.world.Truth sessionId
  fresh : ∀ sessionId, Unopened sessionId c → c.world.Unheard sessionId
  first : ∀ t ∈ c.threads, ∀ client, .openConnection client ∉ t.stack.tail

section
variable {M : MsgpackC} {J : JsonText} {c c' : ServerConfig} {l : Label Answer EnvEvent}

theorem unknown_before {k k' : Stores} (named : k.Named) (same : k.SameSessions k') {sessionId : Str}
    (unknown : k'.sessions.lookup sessionId = none) : k.sessions.lookup sessionId = none := by
  by_contra known
  obtain ⟨⟨client, phase⟩, found⟩ := Option.ne_none_iff_exists'.1 known
  obtain rfl : client.sessionId = sessionId := named _ _ _ found
  obtain ⟨phase', found'⟩ := same client ⟨phase, found⟩
  cases unknown.symm.trans found'

theorem Unopened.before {tid : Tid} {cmd : Cmd} {rest : List Cmd} {x : Option Exn} {o : Out}
    {sessionId : Str} (first : ∀ t ∈ c.threads, ∀ client, .openConnection client ∉ t.stack.tail)
    (kept : Kept c) (arranged : Arranged c) (top : c.running = some ⟨tid, cmd :: rest, x⟩)
    (same : c.world.SameSessions o.world.toStores)
    (closed : ∀ client, .openConnection client ∉ o.push)
    (unopened : Unopened sessionId (settle c tid rest o)) :
    Unopened sessionId c ∧ tid ≠ .conn sessionId := by
  have mem := running_mem_threads top
  rcases unopened with unknown | ⟨t, mem', client, opens, rfl⟩
  · rw [world_settle] at unknown
    have before := unknown_before arranged.1 same unknown
    refine ⟨.inl before, ?_⟩
    rintro rfl
    obtain ⟨client, phase, found, -⟩ := arranged.engaged kept mem rfl (List.cons_ne_nil _ _)
    cases before.symm.trans found
  · rcases List.mem_cons.1 ((threads_settle c tid rest o).mem_iff.1 mem') with rfl | parked
    · have below := (List.mem_append.1 opens).resolve_left (closed client)
      exact absurd below (first _ mem client)
    · refine ⟨.inr ⟨t, List.mem_append_right _ parked, client, opens, rfl⟩, ?_⟩
      rintro rfl
      have owner := (arranged.2.2 t parked).1.owner opens (.inl rfl)
      rw [arranged.single kept top rfl (List.cons_ne_nil _ _) parked owner] at opens
      cases opens

theorem first_settled {tid : Tid} {cmd : Cmd} {rest : List Cmd} {x : Option Exn} {o : Out}
    (first : ∀ t ∈ c.threads, ∀ client, .openConnection client ∉ t.stack.tail)
    (top : c.running = some ⟨tid, cmd :: rest, x⟩) (closed : ∀ client, .openConnection client ∉ o.push) :
    ∀ t ∈ (settle c tid rest o).threads, ∀ client, .openConnection client ∉ t.stack.tail := by
  intro t mem client opens
  rcases List.mem_cons.1 ((threads_settle c tid rest o).mem_iff.1 mem) with rfl | parked
  · rcases List.mem_append.1 (List.mem_of_mem_tail opens) with pushed | below
    · exact closed client pushed
    · exact first _ (running_mem_threads top) client below
  · exact first t (List.mem_append_right _ parked) client opens

/-- Of who was never heard of nothing is told. -/
theorem World.Unheard.truth {w : World} {sessionId : Str} (unheard : w.Unheard sessionId) :
    w.Truth sessionId := by
  intro roomId
  have none : w.places sessionId roomId = 0 := by
    apply Finset.sum_eq_zero
    intro r _
    rw [World.listings, List.count_eq_zero.2 (unheard.out r), ite_self]
  rw [none, List.count_eq_zero.2 (unheard.untold _ _), List.count_eq_zero.2 (unheard.untold _ _)]

/-- What is not about the session leaves it unheard of. -/
theorem World.Unheard.exec {w : World} {cmd : Cmd} {a : Answer} {o : Out} {sessionId : Str}
    (unheard : w.Unheard sessionId) (run : exec M J w cmd a = some o)
    (notifies : Notifies w o.world cmd a)
    (opens : ∀ client, cmd = .openConnection client → client.sessionId ≠ sessionId)
    (adds : ∀ r client options, cmd = .addClient r client options → client.sessionId ≠ sessionId) :
    o.world.Unheard sessionId := by
  constructor
  · cases exec_connects run with
    | same same => rw [same]; exact unheard.closed
    | @opened client opened =>
      rw [opened, AList.lookup_insert_ne (opens client rfl).symm]
      exact unheard.closed
    | @erased left erased =>
      rw [erased]
      by_cases here : sessionId = left
      · rw [here, AList.lookup_erase]
      · rw [AList.lookup_erase_ne here]
        exact unheard.closed
  · intro r listed
    rcases (exec_effect M J run).listed listed with listed | ⟨client, options, rfl, rfl⟩
    · exact unheard.out r listed
    · exact adds _ _ _ rfl rfl
  · intro event joins told
    cases notifies with
    | none same => exact unheard.untold event joins (same ▸ told)
    | @left _ _ r left _ _ _ told' =>
      rw [told'] at told
      rcases List.mem_append.1 told with told | told
      · exact unheard.untold event joins told
      · split at told
        · rename_i here
          obtain ⟨rfl, -⟩ := Prod.mk.inj (List.mem_singleton.1 told)
          exact unheard.out r here.1
        · cases told
    | @joined r client options _ told' =>
      rw [told'] at told
      rcases List.mem_append.1 told with told | told
      · exact unheard.untold event joins told
      · split at told
        · obtain ⟨same, -⟩ := Prod.mk.inj (List.mem_singleton.1 told)
          exact adds _ _ _ rfl same.symm
        · cases told

theorem Truthful.exec {tid : Tid} {cmd : Cmd} {rest : List Cmd} {a : Answer} {o : Out}
    (truthful : Truthful c) (kept : Kept c) (arranged : Arranged c) (own : AddsOwn c)
    (honest : SendsNoNotice c (.act a)) (top : c.running = some ⟨tid, cmd :: rest, none⟩)
    (run : exec M J c.world cmd a = some o) : Truthful (settle c tid rest o) := by
  have effect := exec_effect M J run
  have notifies : Notifies c.world o.world cmd a :=
    exec_notifies (fun s key data sends => honest s key data (by rw [sends])) run
  have closed : ∀ client, .openConnection client ∉ o.push :=
    fun client mem => (effect.pushed mem).closed
  have ok : cmd.Ok c.world.ledger := (kept.stack top).ok cmd List.mem_cons_self
  have opener : ∀ client, cmd = .openConnection client → tid = .conn client.sessionId := by
    rintro client rfl
    exact (arranged.alone kept top rfl).1
  refine ⟨fun sessionId connected => ?_, fun sessionId unopened => ?_,
    first_settled truthful.first top closed⟩
  · rw [world_settle] at connected ⊢
    have before : c.world.Connected sessionId → o.world.Truth sessionId := fun connected =>
      effect.truth notifies kept.housed ok connected (truthful.told sessionId connected)
    cases exec_connects run with
    | same same => exact before (by rwa [World.Connected, ← same])
    | @opened client opened =>
      by_cases here : client.sessionId = sessionId
      · have unheard := truthful.fresh sessionId
          (.inr ⟨_, running_mem_threads top, client, List.mem_cons_self, here⟩)
        obtain rfl := Option.some.inj run
        exact unheard.truth
      · refine before ?_
        rw [World.Connected, opened, AList.lookup_insert_ne (Ne.symm here)] at connected
        exact connected
    | @erased left erased =>
      have other : sessionId ≠ left := by
        rintro rfl
        rw [World.Connected, erased, AList.lookup_erase] at connected
        cases connected
      rw [World.Connected, erased, AList.lookup_erase_ne other] at connected
      exact before connected
  · rw [world_settle]
    obtain ⟨unopened, other⟩ :=
      unopened.before truthful.first kept arranged top effect.sameSessions closed
    apply (truthful.fresh sessionId unopened).exec run notifies
    · rintro client rfl rfl
      exact other (opener client rfl)
    · rintro r client options rfl rfl
      exact other (own _ _ _ _ _ top)

/-- A step that writes none of what the invariant reads. -/
theorem Truthful.same (truthful : Truthful c) (connections : c'.world.connections = c.world.connections)
    (members : ∀ r, c'.world.sessionsIn r = c.world.sessionsIn r)
    (roomIds : ∀ r, (c'.world.rooms r).roomId = (c.world.rooms r).roomId)
    (nextRoom : c'.world.nextRoom = c.world.nextRoom) (notices : c'.world.notices = c.world.notices)
    (unopened : ∀ sessionId, Unopened sessionId c' → Unopened sessionId c)
    (first : ∀ t ∈ c'.threads, ∀ client, .openConnection client ∉ t.stack.tail) : Truthful c' := by
  refine ⟨fun sessionId connected roomId => ?_, fun sessionId fresh => ?_, first⟩
  · rw [World.Connected, connections] at connected
    have told := truthful.told sessionId connected roomId
    have places : c'.world.places sessionId roomId = c.world.places sessionId roomId := by
      unfold World.places World.listings
      rw [nextRoom]
      apply Finset.sum_congr rfl
      intro r _
      rw [members, roomIds]
    rw [notices, places]
    exact told
  · have unheard := truthful.fresh sessionId (unopened sessionId fresh)
    refine ⟨by rw [connections]; exact unheard.closed, fun r => ?_, fun event joins => ?_⟩
    · rw [members]
      exact unheard.out r
    · rw [notices]
      exact unheard.untold event joins

theorem Truthful.step (truthful : Truthful c) (kept : Kept c) (arranged : Arranged c)
    (own : AddsOwn c) (honest : SendsNoNotice c l) (h : Step (server M J) c l c') : Truthful c' := by
  cases h with
  | finish _ top =>
    refine truthful.same rfl (fun _ => rfl) (fun _ => rfl) rfl rfl (fun sessionId fresh => ?_)
      fun t mem => truthful.first t (List.mem_append_right _ mem)
    exact fresh.imp_right fun ⟨t, mem, opens⟩ => ⟨t, List.mem_append_right _ mem, opens⟩
  | crash =>
    exact truthful.same rfl (fun _ => rfl) (fun _ => rfl) rfl rfl (fun _ => id) truthful.first
  | exec _ top run => exact truthful.exec kept arranged own honest top run
  | @unwind tid cmd rest x a o _ top run =>
    have effect := unwind_effect run
    have closed : ∀ client, .openConnection client ∉ o.push := fun client => effect.closed
    have stores := effect.stores
    refine truthful.same ?_ (fun r => ?_) (fun r => ?_) ?_ ?_ (fun sessionId fresh => ?_)
      (first_settled truthful.first top closed)
    · rw [world_settle, unwind_connections run]
    · rw [world_settle, effect.members]
    · rw [world_settle]
      exact congrArg Post.roomId (effect.rooms r)
    · rw [world_settle]
      exact congrArg Stores.nextRoom stores
    · rw [world_settle, unwind_notices run]
    · exact (fresh.before truthful.first kept arranged top effect.sameSessions closed).1
  | take _ free at_i =>
    have threads := threads_take free at_i
    refine truthful.same rfl (fun _ => rfl) (fun _ => rfl) rfl rfl (fun sessionId fresh => ?_)
      fun t mem => truthful.first t (threads.mem_iff.1 mem)
    exact fresh.imp_right fun ⟨t, mem, opens⟩ => ⟨t, threads.mem_iff.1 mem, opens⟩
  | @env e w new _ run =>
    have arrival := spawn_arrival run
    obtain ⟨rooms, -, -, -, nextRoom⟩ := arrival.frame
    have log : w.log = c.world.log := by cases arrival <;> rfl
    have old : ∀ {t : Thread Tid Cmd Exn}, t ∈ c.running.toList ++ (c.parked ++ new.map Thread.start) →
        t ∈ c.threads ∨ ∃ p ∈ new, t = Thread.start p := by
      intro t mem
      rcases List.mem_append.1 mem with mem | mem
      · exact .inl (List.mem_append_left _ mem)
      · rcases List.mem_append.1 mem with mem | mem
        · exact .inl (List.mem_append_right _ mem)
        · obtain ⟨p, hp, rfl⟩ := List.mem_map.1 mem
          exact .inr ⟨p, hp, rfl⟩
    refine truthful.same arrival.connections (fun r => ?_) (fun r => ?_) nextRoom
      (notices_same log) (fun sessionId fresh => ?_) fun t mem => ?_
    · simp only [World.sessionsIn, rooms]
    · simp only [rooms]
    · rcases fresh with unknown | ⟨t, mem, client, opens, rfl⟩
      · exact .inl (unknown_before arranged.1 arrival.sameSessions unknown)
      · rcases old mem with mem | ⟨p, hp, rfl⟩
        · exact .inr ⟨t, mem, client, opens, rfl⟩
        · left
          cases arrival with
          | connect fresh =>
            obtain rfl := List.mem_singleton.1 hp
            obtain rfl : client = _ := by simpa [Thread.start] using opens
            exact fresh
          | tick | dropped => cases hp
          | _ =>
            obtain rfl := List.mem_singleton.1 hp
            simp [Thread.start] at opens
    · rcases old mem with mem | ⟨p, hp, rfl⟩
      · exact truthful.first t mem
      · cases arrival with
        | tick | dropped => cases hp
        | _ =>
          obtain rfl := List.mem_singleton.1 hp
          simp [Thread.start]

theorem Truthful.initial : Truthful ServerConfig.initial := by
  refine ⟨nofun, fun sessionId _ => ⟨rfl, fun _ => nofun, fun _ _ => nofun⟩, nofun⟩

theorem Truthful.run {ls : List (Label Answer EnvEvent)}
    (run : Run (server M J) SendsNoNotice ServerConfig.initial ls c) : Truthful c := by
  induction run with
  | nil => exact .initial
  | @snoc ls l c c' before honest last ih =>
    have traced : Traced M J ls c := .run (before.weaken _ fun _ => trivial)
    exact ih.step traced.kept traced.arranged traced.addsOwn honest last

/-- In every run whose hooks send no notices themselves, the notices that a connected session was sent
add up, for every room id, to the places that it has in the rooms of this id: every admission and every
removal was told, once. -/
theorem notices_tell_places {ls : List (Label Answer EnvEvent)}
    (run : Run (server M J) SendsNoNotice ServerConfig.initial ls c) {sessionId : Str}
    (connected : c.world.Connected sessionId) (roomId : Str) :
    c.world.notices.count (sessionId, roomEvent roomId, true) =
      c.world.notices.count (sessionId, roomEvent roomId, false) + c.world.places sessionId roomId :=
  (Truthful.run run).told sessionId connected roomId

end

def sendsNoNoticeCheck (_ : ServerConfig) : Label Answer EnvEvent → Bool
  | .act (.send _ key _) => key != joinedRoom && key != removedFromRoom
  | _ => true

theorem sendsNoNoticeCheck_sound {c : ServerConfig} {l : Label Answer EnvEvent}
    (h : sendsNoNoticeCheck c l = true) : SendsNoNotice c l := by
  rintro sessionId key data rfl
  simpa [sendsNoNoticeCheck] using h

/-- Two clients are in a room, a hook takes one of them out again, and it joins once more. -/
theorem notices_tell_places_rejoined : ∃ ls c,
    Run (server shortest Text.reference) SendsNoNotice ServerConfig.initial ls c ∧
    c.world.Connected (lit "s") ∧ (lit "s", roomEvent (lit "r"), false) ∈ c.world.notices ∧
    c.world.notices.count (lit "s", roomEvent (lit "r"), true) =
      c.world.notices.count (lit "s", roomEvent (lit "r"), false) +
        c.world.places (lit "s") (lit "r") := by
  have found : (execute (server shortest Text.reference) sendsNoNoticeCheck ServerConfig.initial
      (startsUp ++ connects alice ++ joinsRoom (lit "s") ++ connects bob ++ joinsRoom (lit "t") ++
        receives (lit "s") (messageFrame (lit "r")) ++
        (steps 4 ++ .removeFromRoom (lit "s") :: steps 2 ++ .ret :: steps 1 ++ .ret :: steps 3).map .act ++
        joinsRoom (lit "s"))).any (fun c => (c.world.connections.lookup (lit "s")).isSome &&
          decide ((lit "s", roomEvent (lit "r"), false) ∈ c.world.notices)) = true := by
    decide +kernel
  obtain ⟨c, run, both⟩ := exists_run _ found
  obtain ⟨connected, told⟩ := Bool.and_eq_true_iff.1 both
  have run' : Run _ SendsNoNotice _ _ c := run.weaken _ sendsNoNoticeCheck_sound
  exact ⟨_, c, run', connected, of_decide_eq_true told, notices_tell_places run' connected _⟩

end Blueboat
