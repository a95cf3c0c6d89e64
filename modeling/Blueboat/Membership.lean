import Blueboat.Provenance
import Blueboat.Registry
import Blueboat.Unchanged

set_option autoImplicit false

/-! Sessions and the rooms that list them: a session leaves the connection table in one step and its
rooms one after the other. -/
namespace Blueboat

open Protocol LockMachine Ledger

/-! The connection table. -/

inductive Connects (w w' : World) : Cmd → Prop where
  | same {cmd : Cmd} (connections : w'.connections = w.connections) : Connects w w' cmd
  | opened {client : SimpleClient}
      (connections : w'.connections = w.connections.insert client.sessionId client) :
    Connects w w' (.openConnection client)
  | erased {sessionId : Str} (connections : w'.connections = w.connections.erase sessionId) :
    Connects w w' (.handleClientDisconnect sessionId)

section
variable {M : MsgpackC} {J : JsonText} {w : World} {cmd : Cmd} {a : Answer} {o : Out}

theorem exec_connects (h : exec M J w cmd a = some o) : Connects w o.world cmd := by
  cases cmd with
  | openConnection client => obtain rfl := Option.some.inj h; exact .opened rfl
  | handleClientDisconnect sessionId => obtain rfl := Option.some.inj h; exact .erased rfl
  | recordActivity =>
    simp only [exec] at h
    split at h <;> obtain rfl := Option.some.inj h <;> exact .same rfl
  | endOp sessionId =>
    obtain rfl := Option.some.inj h
    refine .same ?_
    change (endOp w sessionId).connections = _
    unfold endOp
    split <;> rfl
  | workerDone => obtain rfl := Option.some.inj h; exact .same rfl
  | _ => exact .same (exec_local h rfl).connections

theorem unwind_connections {x : Exn} (h : unwind w cmd x a = some o) :
    o.world.connections = w.connections := (unwind_local h).connections

end

/-! The members of a room. -/

def World.sessionsIn (w : World) (r : RoomRef) : List Str :=
  (w.rooms r).clients.map SimpleClient.sessionId

inductive Moves (w w' : World) (r : RoomRef) : Cmd → Answer → Prop where
  | same {cmd : Cmd} {a : Answer} (members : w'.sessionsIn r = w.sessionsIn r) : Moves w w' r cmd a
  | born {client : SimpleClient} {name override : Str} {options : Json} {creator : Creator}
      {a : Answer} (empty : w'.sessionsIn r = []) :
    Moves w w' r (.createNewRoom client name options override creator) a
  | left {cmd : Cmd} {a : Answer} {sessionId : Str} {intentional : Bool} {left : List Cmd}
      (calls : Removes cmd a r sessionId intentional left)
      (members : w'.sessionsIn r = (w.sessionsIn r).erase sessionId) : Moves w w' r cmd a
  | admitted {client : SimpleClient} {options : Json} {a : Answer}
      (members : w'.sessionsIn r = w.sessionsIn r ++ [client.sessionId]) :
    Moves w w' r (.addClient r client options) a

theorem map_eraseP_sessionId (clients : List SimpleClient) (sessionId : Str) :
    (clients.eraseP fun c => c.sessionId = sessionId).map SimpleClient.sessionId =
      (clients.map SimpleClient.sessionId).erase sessionId := by
  induction clients with
  | nil => rfl
  | cons client clients ih =>
    by_cases same : client.sessionId = sessionId
    · simp [same]
    · simp [same, List.erase_cons_tail, ih]

theorem sessionsIn_eraseMember {w w' : World} {r : RoomRef} {sessionId : Str}
    (story : (w.ledger.eraseMember r sessionId).SameStory w'.ledger) :
    w'.sessionsIn r = (w.sessionsIn r).erase sessionId := by
  have clients := (story.clients r).trans (clients_eraseMember_self w.ledger r sessionId)
  exact (congrArg (List.map SimpleClient.sessionId) clients).trans (map_eraseP_sessionId ..)

section
variable {M : MsgpackC} {J : JsonText} {w : World} {cmd : Cmd} {a : Answer} {o : Out}

theorem Effect.moves (h : Effect J w cmd a o) (r : RoomRef) : Moves w o.world r cmd a := by
  have same : ∀ {k : Ledger}, k.SameStory o.world.ledger →
      (k.lives r).clients = (w.rooms r).clients → Moves w o.world r cmd a := fun story kept =>
    .same (congrArg (List.map SimpleClient.sessionId) ((story.clients r).trans kept))
  cases h.tells with
  | same story => exact same story rfl
  | @birth _ _ _ roomId _ _ _ story =>
    by_cases fresh : r = w.nextRoom
    · subst fresh
      have clients := (story.clients w.nextRoom).trans
        (congrArg Life.clients (birth_self w.ledger roomId))
      exact .born (congrArg (List.map SimpleClient.sessionId) clients)
    · exact same story (congrArg Life.clients (birth_ne w.ledger roomId fresh))
  | @removed _ _ r' sessionId _ _ calls story =>
    by_cases e : r = r'
    · subst e
      exact .left calls (sessionsIn_eraseMember story)
    · exact same story (clients_eraseMember_ne w.ledger e sessionId)
  | disposed _ story | autoDisposed _ story => exact same story (clients_dispose ..)
  | @admitted r' client _ _ story =>
    by_cases e : r = r'
    · subst e
      have clients := (story.clients r).trans (clients_addMember_self w.ledger r client)
      refine .admitted ((congrArg (List.map SimpleClient.sessionId) clients).trans ?_)
      exact List.map_append
    · exact same story (clients_addMember_ne w.ledger e client)
  | gone story => exact same story (by rw [onRoomDisposed_lives]; rfl)

theorem Unwound.members {x : Exn} (h : Unwound w cmd x a o) (r : RoomRef) :
    o.world.sessionsIn r = w.sessionsIn r := by
  refine congrArg (List.map SimpleClient.sessionId) ?_
  cases h with
  | passed | handled => rfl
  | caught _ same => exact congrArg (fun k : Ledger => (k.lives r).clients) same
  | rolledBack ledger =>
    have lives := congrArg (fun k : Ledger => (k.lives r).clients) ledger
    exact lives.trans (clients_dispose ..)

end

section
variable {J : JsonText} {w : World} {cmd : Cmd} {a : Answer} {o : Out}

/-- Who is listed was listed before, or is the client that is added. -/
theorem Effect.listed (h : Effect J w cmd a o) {r : RoomRef} {sessionId : Str}
    (mem : sessionId ∈ o.world.sessionsIn r) : sessionId ∈ w.sessionsIn r ∨
      ∃ client options, cmd = .addClient r client options ∧ sessionId = client.sessionId := by
  rcases h.moves r with members | empty | ⟨-, members⟩ | members
  · exact .inl (members ▸ mem)
  · rw [empty] at mem; cases mem
  · exact .inl (List.mem_of_mem_erase (members ▸ mem))
  · rw [members] at mem
    exact (List.mem_append.1 mem).imp_right fun mem => ⟨_, _, rfl, List.mem_singleton.1 mem⟩

end

def World.Managed (w : World) (r : RoomRef) : Prop := ∃ roomId, w.managingRooms.lookup roomId = some r

/-! A room that takes members has been subscribed, and so has one that is about to take one. -/

inductive Admits : Cmd → RoomRef → Prop where
  | addClient {r : RoomRef} {client : SimpleClient} {options : Json} :
    Admits (.addClient r client options) r
  | deliver {payload : Json} {handlers : List Handler} {r : RoomRef}
      (mem : .gameMessage r ∈ handlers) : Admits (.deliver payload handlers) r

def World.Timed (w : World) (r : RoomRef) : Prop := (w.rooms r).autoDisposeTimer.isSome

structure Begun (w : World) : Prop where
  listens : ∀ r, (w.rooms r).gameMessageSub.isSome → w.Timed r
  lists : ∀ r, w.sessionsIn r ≠ [] → w.Timed r

def BegunStack (w : World) (t : Thread Tid Cmd Exn) : Prop :=
  ∀ cmd ∈ t.stack, ∀ r, Admits cmd r → w.Timed r

section
variable {J : JsonText} {w : World} {cmd : Cmd} {a : Answer} {o : Out}

theorem Effect.timed (h : Effect J w cmd a o) (sound : w.ledger.Sound) {r : RoomRef}
    (timed : w.Timed r) : o.world.Timed r := by
  rcases h.rewires r with post | ⟨fresh, -⟩ | ⟨post, -⟩ | ⟨post, -⟩ | post
  · exact (congrArg (fun p : Post => p.autoDisposeTimer.isSome) post).trans timed
  · have off : (w.rooms r).autoDisposeTimer = none := (sound.unborn fresh.ge).2.2.1
    rw [World.Timed, off] at timed
    cases timed
  · exact congrArg (fun p : Post => p.autoDisposeTimer.isSome) post
  · exact (congrArg (fun p : Post => p.autoDisposeTimer.isSome) post).trans timed
  · exact (congrArg (fun p : Post => p.autoDisposeTimer.isSome) post).trans timed

theorem Pushed.admits {c : Cmd} (h : Pushed w cmd a c) (sound : w.ledger.Sound) (begun : Begun w)
    (above : ∀ r, Admits cmd r → w.Timed r) : ∀ r, Admits c r → w.Timed r := by
  intro r admits
  cases h with
  | child child =>
    cases child with
    | deliver =>
      cases admits with
      | deliver mem =>
        obtain ⟨listener, listed, serves⟩ := List.mem_map.1 mem
        have owns := (sound.owns listed).1
        rw [Owns, serves] at owns
        exact begun.listens r (Option.isSome_iff_exists.2 ⟨_, owns.2.2⟩)
    | next =>
      cases admits with
      | deliver mem => exact above r (.deliver (List.mem_cons_of_mem _ mem))
    | addMember =>
      cases admits
      exact above r (.deliver List.mem_cons_self)
    | _ => cases admits
  | leave _ mem =>
    have family := (leaveOf_family c mem).1
    cases admits <;> cases family
  | _ => cases admits

theorem Effect.begun (h : Effect J w cmd a o) (sound : w.ledger.Sound) (begun : Begun w)
    (above : ∀ r, Admits cmd r → w.Timed r) : Begun o.world := by
  refine ⟨fun r subscribed => ?_, fun r listed => ?_⟩
  · have kept := fun before => h.timed sound (begun.listens r before)
    rcases h.rewires r with post | ⟨-, post⟩ | ⟨post, -⟩ | ⟨post, -⟩ | post
    · exact kept ((congrArg (fun p : Post => p.gameMessageSub.isSome) post).symm.trans subscribed)
    · cases (congrArg (fun p : Post => p.gameMessageSub.isSome) post).symm.trans subscribed
    · exact congrArg (fun p : Post => p.autoDisposeTimer.isSome) post
    · cases (congrArg (fun p : Post => p.gameMessageSub.isSome) post).symm.trans subscribed
    · exact kept ((congrArg (fun p : Post => p.gameMessageSub.isSome) post).symm.trans subscribed)
  · obtain ⟨s, mem⟩ := List.exists_mem_of_ne_nil _ listed
    refine h.timed sound ?_
    rcases h.listed mem with mem | ⟨client, options, rfl, -⟩
    · exact begun.lists r (List.ne_nil_of_mem mem)
    · exact above r .addClient

theorem begun_preserved (M : MsgpackC) (J : JsonText) :
    Preserved (server M J) Begun (Each BegunStack) BegunStack fun c _ => Kept c :=
  .each _
    (fun {c tid cmd rest a o} holds kept top run => by
      obtain ⟨begun, running, parked⟩ := holds
      have effect := exec_effect M J run
      have stack := running _ top
      have above := stack cmd List.mem_cons_self
      have timed : ∀ r, c.world.Timed r → o.world.Timed r := fun r => effect.timed kept.sound
      refine ⟨effect.begun kept.sound begun above, fun d mem r admits => timed r ?_,
        fun t mem d hd r admits => timed r (parked t mem d hd r admits)⟩
      rcases List.mem_append.1 mem with mem | mem
      · exact (effect.pushed mem).admits kept.sound begun above r admits
      · exact stack d (List.mem_cons_of_mem _ mem) r admits)
    (fun {c tid cmd rest x a o} holds kept top run => by
      obtain ⟨begun, running, parked⟩ := holds
      have effect := unwind_effect run
      have timed : ∀ r, c.world.Timed r → o.world.Timed r := fun r timed =>
        (congrArg (fun p : Post => p.autoDisposeTimer.isSome) (effect.rooms r)).trans timed
      refine ⟨⟨fun r subscribed => timed r (begun.listens r ?_), fun r listed => timed r ?_⟩,
        fun d mem r admits => timed r ?_, fun t mem d hd r admits => timed r (parked t mem d hd r admits)⟩
      · exact (congrArg (fun p : Post => p.gameMessageSub.isSome) (effect.rooms r)).symm.trans subscribed
      · exact begun.lists r (effect.members r ▸ listed)
      · rcases List.mem_append.1 mem with mem | mem
        · cases effect.resumed mem <;> cases admits
        · exact running _ top d (List.mem_cons_of_mem _ mem) r admits)
    (fun {c e w new} holds _ run => by
      obtain ⟨begun, running, parked⟩ := holds
      have arrival := spawn_arrival run
      have rooms := arrival.frame.1
      simp only [BegunStack, World.Timed, rooms, Each] at running parked ⊢
      refine ⟨⟨?_, ?_⟩, running, parked, fun p mem d hd r admits => ?_⟩
      · simpa only [World.Timed, rooms] using begun.listens
      · simpa only [World.Timed, World.sessionsIn, rooms] using begun.lists
      · cases arrival <;> simp only [List.mem_singleton, List.not_mem_nil] at mem <;> subst mem <;>
          simp [Thread.start] at hd <;> rcases hd with rfl | rfl | rfl <;> cases admits)

def Admitting (c : ServerConfig) : Prop := Holds Begun (Each BegunStack) BegunStack c

/-- A managed room that lists anyone was managed before: no one is in a room that is just registered. -/
theorem Admitting.managed {c : ServerConfig} {tid : Tid} {rest : List Cmd}
    (begun : Admitting c) (kept : Kept c) (top : c.running = some ⟨tid, cmd :: rest, none⟩)
    (effect : Effect J c.world cmd a o) {r : RoomRef} {sessionId : Str} (managed : o.world.Managed r)
    (mem : sessionId ∈ o.world.sessionsIn r) : c.world.Managed r := by
  obtain ⟨roomId, managed⟩ := managed
  refine ⟨roomId, (effect.managing managed).resolve_right fun makes => ?_⟩
  have untimed : ¬ c.world.Timed r := by
    have ok := (kept.stack top).ok cmd List.mem_cons_self
    cases cmd <;> cases makes
    have none : (c.world.rooms r).autoDisposeTimer = none := ok.2.2.2
    simp [World.Timed, none]
  rcases effect.listed mem with mem | ⟨client, options, rfl, -⟩
  · exact untimed (begun.1.lists r (List.ne_nil_of_mem mem))
  · cases makes

end

/-! What is still to be told. -/

inductive Announces : Cmd → Str → RoomRef → Prop where
  | publish {sessionId : Str} {r : RoomRef} :
    Announces (.publish PLAYER_LEFT (.str sessionId)) sessionId r
  | deliver {sessionId : Str} {handlers : List Handler} {r : RoomRef}
      (mem : .playerLeft r ∈ handlers) : Announces (.deliver (.str sessionId) handlers) sessionId r

def Cmd.tells : Cmd → Bool
  | .publish _ (.str _) => true
  | .deliver (.str _) _ => true
  | _ => false

def Cmd.closes : Cmd → Bool
  | .disconnected _ => true
  | .endOp _ => true
  | _ => false

def Cmd.inside : Cmd → Bool
  | .futureGet _ => true
  | cmd => cmd.family.isSome

/-- Above the news that a session has left are only hooks, leaves and disposals, and under it is only
the end of the operation. -/
structure Told (above below : Cmd) : Prop where
  under : above.tells = true → below.closes = true
  atop : below.tells = true → above.inside = true

theorem Announces.tells {cmd : Cmd} {sessionId : Str} {r : RoomRef} (h : Announces cmd sessionId r) :
    cmd.tells = true := by
  cases h <;> rfl

theorem inside_cases {cmd : Cmd} (h : cmd.inside = true) :
    cmd.family.isSome = true ∨ ∃ v, cmd = .futureGet v := by
  cases cmd with
  | futureGet v => exact .inr ⟨v, rfl⟩
  | _ => exact .inl h

theorem Told.plain {above below : Cmd} (quiet : above.tells = false := by rfl)
    (quiet' : below.tells = false := by rfl) : Told above below :=
  ⟨fun h => absurd (quiet.symm.trans h) Bool.false_ne_true,
    fun h => absurd (quiet'.symm.trans h) Bool.false_ne_true⟩

section
variable {M : MsgpackC} {J : JsonText} {w : World} {cmd : Cmd} {a : Answer} {o : Out}

/-- A step of a hook, a leave or a disposal leaves such steps. -/
theorem Pushed.inside {c : Cmd} (h : Pushed w cmd a c) (inside : cmd.inside = true) :
    c.inside = true := by
  cases h with
  | child child => cases child <;> first | rfl | cases inside
  | leave _ mem =>
    have family := (leaveOf_family c mem).1
    cases c <;> first | rfl | cases family
  | onCreate | created | askInfo | waitInfo | unsubscribeInfo | joinListeners | onJoin => cases inside
  | _ => rfl

theorem Child.tells {c : Cmd} (h : Child w cmd c) (tells : c.tells = true) :
    cmd.tells = true ∨ ∃ sessionId, cmd = .handleClientDisconnect sessionId := by
  cases h with
  | left => exact .inr ⟨_, rfl⟩
  | @deliver key payload => cases payload <;> first | exact .inl rfl | cases tells
  | @next payload => cases payload <;> first | exact .inl rfl | cases tells
  | _ => cases tells

theorem Pushed.tells {c : Cmd} (h : Pushed w cmd a c) (tells : c.tells = true) :
    cmd.tells = true ∨ ∃ sessionId, cmd = .handleClientDisconnect sessionId := by
  cases h with
  | child child => exact child.tells tells
  | leave _ mem =>
    have family := (leaveOf_family c mem).1
    cases c <;> first | cases tells | cases family
  | _ => cases tells

/-- The news goes on to the next listener. -/
theorem deliver_str {sessionId : Str} {handler : Handler} {handlers : List Handler}
    (h : exec M J w (.deliver (.str sessionId) (handler :: handlers)) a = some o) :
    o.parks = false ∧ ∃ push, o.push = push ++ [.deliver (.str sessionId) handlers] ∧
      ∀ c ∈ push, c.family.isSome = true := by
  obtain rfl := Option.some.inj h
  cases handler with
  | infoRequest n => exact ⟨rfl, [], rfl, nofun⟩
  | gameMessage r => exact ⟨rfl, [], rfl, nofun⟩
  | playerLeft r =>
    refine ⟨rfl, (removeClient w r sessionId false).2, rfl, fun c mem => ?_⟩
    obtain ⟨-, ⟨-, empty⟩ | ⟨client, listeners, -, leaves⟩⟩ := removeClient_cases w r sessionId false
    · rw [empty] at mem; cases mem
    · rw [leaves] at mem
      rw [(leaveOf_family c mem).1]
      rfl

theorem deliver_leaves {sessionId : Str} {r : RoomRef} {handlers : List Handler}
    (h : exec M J w (.deliver (.str sessionId) (.playerLeft r :: handlers)) a = some o) :
    o.world.sessionsIn r = (w.sessionsIn r).erase sessionId := by
  obtain rfl := Option.some.inj h
  have ledger := (removeClient_cases w r sessionId false).1
  exact sessionsIn_eraseMember (sameStory_of_lives (congrArg Ledger.lives ledger))

theorem told_of_quiet {push : List Cmd} (quiet : ∀ c ∈ push, c.tells = false) :
    push.Pairwise Told :=
  List.pairwise_of_forall_mem_list fun c hc d hd => .plain (quiet c hc) (quiet d hd)

theorem tells_of_family {c : Cmd} (family : c.family.isSome = true) :
    c.tells = false ∧ c.inside = true := by
  cases c <;> first | exact ⟨rfl, rfl⟩ | cases family

theorem exec_told (h : exec M J w cmd a = some o) : o.push.Pairwise Told := by
  have others : (cmd.tells = true ∨ ∃ sessionId, cmd = .handleClientDisconnect sessionId) ∨
      o.push.Pairwise Told := by
    by_contra none
    obtain ⟨loud, unordered⟩ := not_or.1 none
    refine unordered (told_of_quiet fun c mem => ?_)
    by_contra tells
    exact loud (((exec_effect M J h).pushed mem).tells (by simpa using tells))
  refine others.elim (fun loud => ?_) id
  rcases loud with tells | ⟨sessionId, rfl⟩
  · cases cmd with
    | publish key payload => obtain rfl := Option.some.inj h; exact List.pairwise_singleton _ _
    | deliver payload handlers =>
      cases payload with
      | str s =>
        cases handlers with
        | nil => obtain rfl := Option.some.inj h; exact .nil
        | cons handler handlers =>
          obtain ⟨-, push, pushed, family⟩ := deliver_str h
          rw [pushed]
          refine List.pairwise_append.2 ⟨?_, List.pairwise_singleton _ _, fun c hc d hd => ?_⟩
          · exact told_of_quiet fun c mem => (tells_of_family (family c mem)).1
          · obtain ⟨quiet, inside⟩ := tells_of_family (family c hc)
            exact ⟨fun loud => absurd (quiet.symm.trans loud) Bool.false_ne_true, fun _ => inside⟩
      | _ => cases tells
    | _ => cases tells
  · obtain rfl := Option.some.inj h
    exact List.pairwise_pair.2 ⟨fun _ => rfl, nofun⟩

theorem Unwound.quiet {x : Exn} (h : Unwound w cmd x a o) :
    (∀ c ∈ o.push, c.tells = false) ∧ (cmd.inside = true → ∀ c ∈ o.push, c.inside = true) := by
  refine ⟨fun c mem => ?_, fun inside c mem => ?_⟩
  · cases h.resumed mem <;> rfl
  · cases h.resumed mem with
    | again => rfl
    | disposal | rethrow => cases inside

theorem Effect.loops (h : Effect J w cmd a o) {r : RoomRef} {left : List Str}
    (mem : .disposeLoop r left ∈ o.push) :
    (∃ sessionId, cmd = .disposeLoop r (sessionId :: left) ∧
      o.world.sessionsIn r = (w.sessionsIn r).erase sessionId) ∨
    (left = w.sessionsIn r ∧ o.world.sessionsIn r = w.sessionsIn r) := by
  cases h.pushed mem with
  | child child => cases child
  | leave _ mem => simp [leaveOf] at mem
  | @loop _ sessionId =>
    refine .inl ⟨sessionId, rfl, ?_⟩
    cases h with
    | still _ _ _ _ _ keeps => cases keeps
    | removed calls ledger =>
      cases calls
      exact sessionsIn_eraseMember (sameStory_of_lives (congrArg Ledger.lives ledger))
    | disposed calls => cases calls
  | disposal calls =>
    refine .inr ⟨rfl, ?_⟩
    cases h.moves r with
    | same members => exact members
    | left calls' => cases calls <;> cases calls'
    | born | admitted => cases calls
  | autoDisposal =>
    refine .inr ⟨rfl, ?_⟩
    cases h.moves r with
    | same members => exact members
    | left calls => cases calls

theorem Effect.finishes (h : Effect J w cmd a o) {r : RoomRef} (mem : .finishDispose r ∈ o.push) :
    cmd = .disposeLoop r [] ∧ o.world.sessionsIn r = w.sessionsIn r := by
  cases h.pushed mem with
  | child child => cases child
  | leave _ mem => simp [leaveOf] at mem
  | finishDispose =>
    refine ⟨rfl, ?_⟩
    cases h.moves r with
    | same members => exact members
    | left calls => cases calls

end

/-- A managed room that lists anyone hears of those who leave, and a disposal ends with no one left. -/
structure Rosters (c : ServerConfig) : Prop where
  subscribed : ∀ r, c.world.Managed r → c.world.sessionsIn r ≠ [] →
    (c.world.rooms r).playerLeftSub.isSome
  loop : ∀ {tid stack x r left}, c.running = some ⟨tid, stack, x⟩ → .disposeLoop r left ∈ stack →
    (c.world.sessionsIn r).Sublist left
  finish : ∀ {tid stack x r}, c.running = some ⟨tid, stack, x⟩ → .finishDispose r ∈ stack →
    c.world.sessionsIn r = []

/-- A client that is added to a managed room is connected, and the room hears of those who leave. -/
def JoinsConnected (c : ServerConfig) (_ : Label Answer EnvEvent) : Prop :=
  ∀ tid r client options rest,
    c.running = some ⟨tid, .addClient r client options :: rest, none⟩ → c.world.Managed r →
      (c.world.connections.lookup client.sessionId).isSome ∧ (c.world.rooms r).playerLeftSub.isSome

/-- A managed room that takes a client hears of those who leave. -/
def JoinsHeard (c : ServerConfig) (_ : Label Answer EnvEvent) : Prop :=
  ∀ tid r client options rest,
    c.running = some ⟨tid, .addClient r client options :: rest, none⟩ → c.world.Managed r →
      (c.world.rooms r).playerLeftSub.isSome

section
variable {M : MsgpackC} {J : JsonText} {c c' : ServerConfig} {l : Label Answer EnvEvent}

theorem JoinsConnected.heard (joins : JoinsConnected c l) : JoinsHeard c l :=
  fun _ _ _ _ _ top managed => (joins _ _ _ _ _ top managed).2

/-- Who leaves a managed room, the room is told of. -/
theorem Rosters.hears (rosters : Rosters c) (kept : Kept c) {r : RoomRef} {sessionId : Str}
    (managed : c.world.Managed r) (listed : sessionId ∈ c.world.sessionsIn r) :
    .playerLeft r ∈ c.world.handlersOf PLAYER_LEFT := by
  have subscribed := rosters.subscribed r managed (List.ne_nil_of_mem listed)
  obtain ⟨i, sub⟩ := Option.isSome_iff_exists.1 subscribed
  exact List.mem_map.2 ⟨_, kept.sound.playerLeft sub, rfl⟩

theorem Rosters.exec {tid : Tid} {cmd : Cmd} {rest : List Cmd} {a : Answer} {o : Out}
    (rosters : Rosters c) (kept : Kept c) (begun : Admitting c) (joins : JoinsHeard c (.act a))
    (top : c.running = some ⟨tid, cmd :: rest, none⟩) (run : exec M J c.world cmd a = some o) :
    Rosters (settle c tid rest o) := by
  have effect := exec_effect M J run
  have stack := kept.stack top
  -- no one is added to a room while its disposal is under way
  have shrinks : ∀ {r : RoomRef} {d : Cmd}, d ∈ rest → d.withdraws = some r →
      (o.world.sessionsIn r).Sublist (c.world.sessionsIn r) := by
    intro r d mem withdraws
    have quiet := (List.pairwise_cons.1 stack.order).1 d mem (by rw [withdraws]; nofun)
    rcases effect.moves r with members | empty | ⟨-, members⟩ | -
    · rw [members]
    · rw [empty]; exact List.nil_sublist _
    · rw [members]; exact List.erase_sublist
    · cases quiet.choose_spec.1
  refine ⟨fun r managed listed => ?_, fun {tid' stack' x r left} running mem => ?_,
    fun {tid' stack' x r} running mem => ?_⟩
  · rw [world_settle] at managed listed ⊢
    obtain ⟨s, mem⟩ := List.exists_mem_of_ne_nil _ listed
    have managed := begun.managed kept top effect managed mem
    have before : (c.world.rooms r).playerLeftSub.isSome := by
      rcases effect.listed mem with mem | ⟨client, options, rfl, -⟩
      · exact rosters.subscribed r managed (List.ne_nil_of_mem mem)
      · exact joins _ _ _ _ _ top managed
    rcases effect.rewires r with post | ⟨fresh, -⟩ | ⟨post, -⟩ | - | post
    · exact (congrArg Option.isSome (congrArg Post.playerLeftSub post)).trans before
    · have off : (c.world.rooms r).playerLeftSub = none := (kept.sound.unborn fresh.ge).2.1
      rw [off] at before
      cases before
    · exact congrArg Option.isSome (congrArg Post.playerLeftSub post)
    · have none := rosters.finish top List.mem_cons_self
      cases effect.moves r with
      | same members => exact absurd (members.trans none) listed
      | left calls => cases calls
    · exact (congrArg Option.isSome (congrArg Post.playerLeftSub post)).trans before
  · obtain ⟨rfl, rfl, rfl⟩ := Thread.mk.inj (running_settle running)
    rw [world_settle]
    rcases List.mem_append.1 mem with mem | mem
    · rcases effect.loops mem with ⟨sessionId, rfl, members⟩ | ⟨rfl, members⟩
      · rw [members]
        have sub := (rosters.loop top List.mem_cons_self).erase sessionId
        rwa [List.erase_cons_head] at sub
      · rw [members]
    · exact (shrinks mem rfl).trans (rosters.loop top (List.mem_cons_of_mem _ mem))
  · obtain ⟨rfl, rfl, rfl⟩ := Thread.mk.inj (running_settle running)
    rw [world_settle]
    rcases List.mem_append.1 mem with mem | mem
    · obtain ⟨rfl, members⟩ := effect.finishes mem
      rw [members]
      exact List.sublist_nil.1 (rosters.loop top List.mem_cons_self)
    · have none := rosters.finish top (List.mem_cons_of_mem _ mem)
      exact List.sublist_nil.1 (none ▸ shrinks mem rfl)

theorem Rosters.step (rosters : Rosters c) (kept : Kept c) (begun : Admitting c)
    (joins : JoinsHeard c l) (h : Step (server M J) c l c') : Rosters c' := by
  cases h with
  | finish => exact ⟨rosters.subscribed, nofun, nofun⟩
  | crash => exact ⟨rosters.subscribed, rosters.loop, rosters.finish⟩
  | exec _ top run => exact rosters.exec kept begun joins top run
  | @unwind tid cmd rest x a o _ top run =>
    have effect := unwind_effect run
    have members := effect.members
    refine ⟨fun r managed listed => ?_, fun {tid' stack' x' r left} running mem => ?_,
      fun {tid' stack' x' r} running mem => ?_⟩
    · rw [world_settle] at managed listed ⊢
      rw [members] at listed
      rw [World.Managed, effect.stores] at managed
      have post := congrArg Post.playerLeftSub (effect.rooms r)
      exact (congrArg Option.isSome post).trans (rosters.subscribed r managed listed)
    · obtain ⟨rfl, rfl, rfl⟩ := Thread.mk.inj (running_settle running)
      rw [world_settle, members]
      rcases List.mem_append.1 mem with mem | mem
      · cases effect.resumed mem
        exact .refl _
      · exact rosters.loop top (List.mem_cons_of_mem _ mem)
    · obtain ⟨rfl, rfl, rfl⟩ := Thread.mk.inj (running_settle running)
      rw [world_settle, members]
      rcases List.mem_append.1 mem with mem | mem
      · cases effect.resumed mem
      · exact rosters.finish top (List.mem_cons_of_mem _ mem)
  | take _ _ at_i =>
    refine ⟨rosters.subscribed, fun running mem => ?_, fun running mem => ?_⟩ <;> cases running <;>
      exact absurd ((kept.parked (List.mem_of_getElem? at_i)).2 _ mem) (by simp [Cmd.withdraws])
  | env _ run =>
    obtain ⟨rooms, -, managing, -⟩ := (spawn_arrival run).frame
    refine ⟨fun r managed listed => ?_, fun running mem => ?_, fun running mem => ?_⟩
    · simp only [World.Managed, World.sessionsIn, rooms, managing] at managed listed ⊢
      exact rosters.subscribed r managed listed
    · simp only [World.sessionsIn, rooms]
      exact rosters.loop running mem
    · simp only [World.sessionsIn, rooms]
      exact rosters.finish running mem

def Spoken (c : ServerConfig) : Prop := ∀ t ∈ c.threads, t.stack.Pairwise Told

theorem Spoken.settled {tid : Tid} {cmd : Cmd} {rest : List Cmd} {x : Option Exn} {o : Out}
    (spoken : Spoken c) (top : c.running = some ⟨tid, cmd :: rest, x⟩)
    (order : o.push.Pairwise Told)
    (under : ∀ d ∈ o.push, d.tells = true → ∀ e ∈ rest, e.closes = true)
    (atop : cmd.inside = true → ∀ d ∈ o.push, d.inside = true) : Spoken (settle c tid rest o) := by
  have stack : (cmd :: rest).Pairwise Told :=
    spoken _ (running_mem_threads top)
  obtain ⟨first, below⟩ := List.pairwise_cons.1 stack
  intro t mem
  rcases List.mem_cons.1 ((threads_settle c tid rest o).mem_iff.1 mem) with rfl | mem
  · refine List.pairwise_append.2 ⟨order, below, fun d hd e he => ⟨fun tells => ?_, fun tells => ?_⟩⟩
    · exact under d hd tells e he
    · exact atop ((first e he).atop tells) d hd
  · exact spoken t (List.mem_append_right _ mem)

theorem Spoken.step (spoken : Spoken c) (arranged : Arranged c) (h : Step (server M J) c l c') :
    Spoken c' := by
  cases h with
  | finish => exact fun t mem => spoken t (List.mem_append_right _ mem)
  | crash => exact spoken
  | @exec tid cmd rest a o _ top run =>
    have effect := exec_effect M J run
    refine spoken.settled top (exec_told run) (fun d mem tells e below => ?_)
      fun inside d mem => (effect.pushed mem).inside inside
    rcases (effect.pushed mem).tells tells with tells | ⟨sessionId, rfl⟩
    · have stack : (cmd :: rest).Pairwise Told :=
        spoken _ (running_mem_threads top)
      exact ((List.pairwise_cons.1 stack).1 e below).under tells
    · have proper := arranged.proper top
      cases rest with
      | nil => cases below
      | cons first rest =>
        obtain rfl := (proper.order.rel_head? rfl).attends rfl
        rw [Follows.nothing proper.order.tail rfl] at below
        rw [List.mem_singleton.1 below]
        rfl
  | @unwind tid cmd rest x a o _ top run =>
    obtain ⟨quiet, inside⟩ := (unwind_effect run).quiet
    exact spoken.settled top (told_of_quiet quiet)
      (fun d mem tells => absurd ((quiet d mem).symm.trans tells) Bool.false_ne_true) inside
  | take _ free at_i => exact fun t mem => spoken t ((threads_take free at_i).mem_iff.1 mem)
  | @env e w new _ run =>
    intro t mem
    have started : ∀ p ∈ new, ∀ d ∈ p.2, d.tells = false := by
      cases spawn_arrival run <;> simp [Cmd.tells]
      rfl
    rcases List.mem_append.1 mem with mem | mem
    · exact spoken t (List.mem_append_left _ mem)
    · rcases List.mem_append.1 mem with mem | mem
      · exact spoken t (List.mem_append_right _ mem)
      · obtain ⟨p, hp, rfl⟩ := List.mem_map.1 mem
        exact told_of_quiet (started p hp)

end

end Blueboat
