import Blueboat.Effects
import Blueboat.Wiring

set_option autoImplicit false

/-! What holds of every run, whatever the hooks do: the wiring of the ledger, and for every stack
which rooms its commands may still use. -/
namespace Blueboat

open Protocol LockMachine Ledger

theorem chooseRoomId_fresh {existing : List Str} {candidates : List (Except Exn Str)} {roomId : Str}
    (h : chooseRoomId existing candidates = .ok roomId) : roomId ∉ existing := by
  induction candidates with
  | nil => cases h
  | cons candidate candidates ih =>
    cases candidate with
    | error x => cases h
    | ok id =>
      simp only [chooseRoomId] at h
      split at h
      · exact ih h
      · rename_i free
        cases h
        exact fun used => free (.inr used)

theorem newRoomId_fresh {existing : List Str} {override : Str} {candidates : List (Except Exn Str)}
    {roomId : Str} (h : newRoomId existing override candidates = .ok roomId) : roomId ∉ existing := by
  unfold newRoomId at h
  split at h
  · exact chooseRoomId_fresh h
  · split at h
    · cases h
    · rename_i free
      cases h
      exact free

/-! One continuation of `create_new_room` for every room, one thread for every session. -/

inductive Key where
  | room (r : RoomRef)
  | op (sessionId : Str)
  deriving DecidableEq

def Cmd.key : Cmd → Option Key
  | .created r _ _ => some (.room r)
  | .endOp sessionId => some (.op sessionId)
  | _ => none

def Stores.Engaged (k : Stores) (sessionId : Str) : Prop :=
  ∃ client phase, k.sessions.lookup sessionId = some (client, phase) ∧
    (phase = .busy ∨ phase = .closing)

def Key.Live (w : World) : Key → Prop
  | .room r => r < w.nextRoom
  | .op sessionId => w.Engaged sessionId

theorem Key.Live.mono {w w' : World} (nextRoom : w.nextRoom ≤ w'.nextRoom)
    (sessions : w'.sessions = w.sessions) {key : Key} (h : key.Live w) : key.Live w' := by
  cases key with
  | room r => exact lt_of_lt_of_le h nextRoom
  | op sessionId => simpa only [Key.Live, Stores.Engaged, sessions] using h

theorem Child.key_none {w : World} {cmd c : Cmd} (h : Child w cmd c) : c.key = none := by
  cases h <;> rfl

theorem spends_quiet {w : World} {cmd : Cmd} {o : Out} (keys : ∀ c ∈ o.push, c.key = none)
    (nextRoom : w.nextRoom ≤ o.world.nextRoom) (sessions : o.world.sessions = w.sessions) :
    Spends Cmd.key Key.Live w cmd o := by
  have none : o.push.filterMap Cmd.key = [] := List.filterMap_eq_nil_iff.2 keys
  exact ⟨by simp [none], by simp [none], by simp [none], fun key h _ => h.mono nextRoom sessions⟩

theorem Ledger.SameWiring.spends {w : World} {cmd : Cmd} {o : Out}
    (h : w.ledger.SameWiring o.world.ledger) (keys : ∀ c ∈ o.push, c.key = none) :
    Spends Cmd.key Key.Live w cmd o := spends_quiet keys h.nextRoom.ge h.sessions

theorem Engaged.ne {k : Stores} {sessionId sessionId' : Str} {session : SimpleClient × Phase}
    (h : k.Engaged sessionId) (ne : sessionId ≠ sessionId') :
    Stores.Engaged { k with sessions := k.sessions.insert sessionId' session } sessionId := by
  obtain ⟨client, phase, found, engaged⟩ := h
  exact ⟨client, phase, (AList.lookup_insert_ne ne).trans found, engaged⟩

theorem leaveOf_keys {r : RoomRef} {client : SimpleClient} {intentional : Bool} {left : List ℕ} :
    ∀ c ∈ leaveOf r client intentional left, c.key = none := by
  simp [leaveOf, Cmd.key]

theorem Removes.keys {cmd : Cmd} {a : Answer} {r : RoomRef} {sessionId : Str} {intentional : Bool}
    {left : List Cmd} (h : Removes cmd a r sessionId intentional left) : ∀ c ∈ left, c.key = none := by
  cases h <;> exact List.forall_mem_singleton.2 rfl

theorem Disposes.keys {w : World} {cmd : Cmd} {a : Answer} {r : RoomRef} {cause : Cause}
    {left : List Cmd} (h : Disposes w cmd a r cause left) : ∀ c ∈ left, c.key = none := by
  cases h <;> first | exact List.forall_mem_singleton.2 rfl | exact nofun

/-- Only `create_new_room` pushes a command that is the only one of its kind. -/
theorem Effect.keys {J : JsonText} {w : World} {cmd : Cmd} {a : Answer} {o : Out}
    (h : Effect J w cmd a o) : (∀ c ∈ o.push, c.key = none) ∨
      ∃ roomId hook client creator, hook.isCreate = true ∧ o.exn = none ∧ o.parks = false ∧
        o.push = [.callHook w.nextRoom hook, .created w.nextRoom client creator] ∧
        o.world.ledger = w.ledger.birth roomId ∧
        roomId ∉ RoomFetcher.getListOfRooms w.storage w.now := by
  cases h with
  | still _ children => exact .inl fun c hc => (children c hc).key_none
  | birth chosen ledger => exact .inr ⟨_, _, _, _, rfl, rfl, rfl, rfl, ledger, newRoomId_fresh chosen⟩
  | removed calls _ leaves =>
    refine .inl fun c hc => ?_
    rcases List.mem_append.1 hc with hc | hc
    · rcases leaves with ⟨-, rfl⟩ | ⟨client, listeners, -, rfl⟩
      · cases hc
      · exact leaveOf_keys c hc
    · exact calls.keys c hc
  | disposed calls _ starts =>
    refine .inl fun c hc => ?_
    rcases List.mem_append.1 hc with hc | hc
    · rw [mem_disposal starts hc]; rfl
    · exact calls.keys c hc
  | autoDisposed _ _ starts => exact .inl fun c hc => by rw [mem_disposal starts hc]; rfl
  | _ => exact .inl (by simp [Cmd.key])

theorem Effect.counters {J : JsonText} {w : World} {cmd : Cmd} {a : Answer} {o : Out}
    (h : Effect J w cmd a o) : w.nextRoom ≤ o.world.nextRoom ∧
      (o.world.sessions = w.sessions ∨
        ∃ sessionId, cmd = .endOp sessionId ∧ o.world.ledger = w.ledger.endOp sessionId) := by
  have kept : ∀ {k : Ledger}, o.world.ledger = k → w.nextRoom ≤ k.nextRoom →
      k.sessions = w.sessions → _ := fun e nextRoom sessions =>
    (⟨by subst e; exact nextRoom, .inl (by subst e; exact sessions)⟩ :
      w.nextRoom ≤ o.world.nextRoom ∧ (o.world.sessions = w.sessions ∨
        ∃ sessionId, cmd = .endOp sessionId ∧ o.world.ledger = w.ledger.endOp sessionId))
  have same : ∀ {k : Ledger}, o.world.ledger = k → w.ledger.SameWiring k → _ :=
    fun e wiring => kept e wiring.nextRoom.ge wiring.sessions
  cases h with
  | still e => exact same e (.refl _)
  | purged e | stored _ e => exact same e (keeps_storage _ _).toSameWiring
  | birth _ e => exact kept e (Nat.le_succ _) rfl
  | registered _ e | unrecorded _ e | openInfo e | closeInfo e | granted _ e => exact kept e le_rfl rfl
  | removed _ e => exact same e (keeps_eraseMember _ _ _).toSameWiring
  | disposed _ e => exact same e (keeps_dispose _ _ _).toSameWiring
  | autoDisposed _ e => exact same e ((keeps_dispose _ _ _).trans (keeps_started _ _)).toSameWiring
  | timedOut _ e =>
    exact same e ((keeps_reconnectTimeout _ _).trans (keeps_started _ _)).toSameWiring
  | listened e => exact same e (keeps_listen_app _ _ _).toSameWiring
  | admitted e => exact same e (keeps_addMember _ _ _).toSameWiring
  | rejoined _ e => exact same e (keeps_rejoined _ _).toSameWiring
  | emptied e => exact same e (.refl _)
  | @withdrawn r _ _ e =>
    obtain ⟨_, _, _, stores, -⟩ := finishDispose_stores w.ledger r
    exact kept e (by rw [stores]; exact le_rfl) (by rw [stores]; rfl)
  | gone e => exact same e (sameWiring_onRoomDisposed _ _)
  | @ended sessionId _ _ e =>
    obtain ⟨_, stores⟩ := endOp_stores w.ledger sessionId
    have nextRoom := congrArg Stores.nextRoom ((congrArg Ledger.toStores e).trans stores)
    exact ⟨le_of_eq nextRoom.symm, .inr ⟨_, rfl, e⟩⟩

theorem Effect.spends {J : JsonText} {w : World} {cmd : Cmd} {a : Answer} {o : Out}
    (h : Effect J w cmd a o) : Spends Cmd.key Key.Live w cmd o := by
  obtain ⟨nextRoom, sessions⟩ := h.counters
  rcases h.keys with keys | ⟨roomId, hook, client, creator, -, -, -, push, ledger, -⟩
  · rcases sessions with sessions | ⟨sessionId, rfl, ledger⟩
    · exact spends_quiet keys nextRoom sessions
    · have none : o.push.filterMap Cmd.key = [] := List.filterMap_eq_nil_iff.2 keys
      refine ⟨by simp [none], by simp [none], by simp [none], fun key live ne => ?_⟩
      cases key with
      | room r => exact lt_of_lt_of_le live nextRoom
      | op sessionId' =>
        have other : sessionId' ≠ sessionId := fun e => ne (by rw [e]; rfl)
        have engaged : o.world.ledger.Engaged sessionId' := by
          rw [ledger]
          unfold Ledger.endOp
          split
          · exact Engaged.ne live other
          · exact Engaged.ne live other
          · exact live
        exact engaged
  · have next : o.world.nextRoom = w.nextRoom + 1 := congrArg (fun k : Ledger => k.nextRoom) ledger
    have same : o.world.sessions = w.sessions := congrArg (fun k : Ledger => k.sessions) ledger
    have keys : o.push.filterMap Cmd.key = [.room w.nextRoom] := by rw [push]; rfl
    refine ⟨by simp [keys], ?_, ?_, fun key live _ => live.mono nextRoom same⟩
    · rw [keys]
      exact List.forall_mem_singleton.2 (.inr (lt_irrefl _))
    · rw [keys]
      exact List.forall_mem_singleton.2 (lt_of_lt_of_eq (Nat.lt_succ_self _) next.symm)

theorem Unwound.spends {w : World} {cmd : Cmd} {x : Exn} {a : Answer} {o : Out}
    (h : Unwound w cmd x a o) : Spends Cmd.key Key.Live w cmd o := by
  have keys : ∀ c ∈ o.push, c.key = none := fun c mem => by cases h.resumed mem <;> rfl
  cases h with
  | passed | handled => exact spends_quiet keys le_rfl rfl
  | caught _ same =>
    have stores := congrArg Ledger.toStores same
    exact spends_quiet keys (congrArg Stores.nextRoom stores).ge (congrArg Stores.sessions stores)
  | @rolledBack r _ _ _ _ w' push ledger =>
    have wiring : w.ledger.SameWiring w'.ledger := ledger ▸ (keeps_dispose _ _ _).toSameWiring
    exact wiring.spends keys

theorem Live.engage {w : World} {s : Str} {session : SimpleClient × Phase} (free : ¬ w.Engaged s)
    {key : Key} (live : key.Live w) :
    key.Live { w with sessions := w.sessions.insert s session } := by
  cases key with
  | room r => exact live
  | op s' => exact Engaged.ne live fun e => free (e ▸ live)

theorem engaged_insert {w : World} {s : Str} {client : SimpleClient} {phase : Phase}
    (engaged : phase = .busy ∨ phase = .closing) :
    Key.Live { w with sessions := w.sessions.insert s (client, phase) } (.op s) :=
  ⟨client, phase, AList.lookup_insert _, engaged⟩

theorem not_engaged {k : Stores} {s : Str} (h : k.sessions.lookup s = none ∨
    ∃ client, k.sessions.lookup s = some (client, .idle)) : ¬ k.Engaged s := by
  rintro ⟨client, phase, found, engaged⟩
  rcases h with none | ⟨client', idle⟩
  · rw [none] at found; cases found
  · rw [idle] at found
    cases found
    rcases engaged with h | h <;> cases h

theorem conserved (M : MsgpackC) (J : JsonText) :
    Conserved (server M J) Cmd.key Key.Live fun _ => True where
  exec := fun _ h => (exec_effect M J h).spends
  unwind := fun _ h => (unwind_effect h).spends
  spawn := fun {w w' e new} _ h => by
    have opened : ∀ {s : Str} {client : SimpleClient} {phase : Phase}, ¬ w.Engaged s →
        (phase = .busy ∨ phase = .closing) → [Key.op s].Nodup ∧
        (∀ k ∈ [Key.op s], ¬ k.Live w ∧
          k.Live { w with sessions := w.sessions.insert s (client, phase) }) ∧
        ∀ k : Key, k.Live w → k.Live { w with sessions := w.sessions.insert s (client, phase) } :=
      fun free engaged => ⟨List.nodup_singleton _,
        List.forall_mem_singleton.2 ⟨free, engaged_insert engaged⟩, fun _ => Live.engage free⟩
    cases spawn_arrival h with
    | connect fresh => exact opened (not_engaged (.inl fresh)) (.inl rfl)
    | receive idle => exact opened (not_engaged (.inr ⟨_, idle⟩)) (.inl rfl)
    | hangup idle => exact opened (not_engaged (.inr ⟨_, idle⟩)) (.inr rfl)
    | _ => exact ⟨.nil, nofun, fun k live => live.mono le_rfl rfl⟩

/-! Stacks. -/

/-- A command of a room that is being disposed of. -/
def Quiet (k : Ledger) (cmd : Cmd) : Prop :=
  ∃ r, cmd.family = some r ∧ r < k.nextRoom ∧ (k.lives r).disposing = true

/-- While a room is withdrawn, only the leaves and disposals that belong to it run. -/
def Ordered (k : Ledger) (above below : Cmd) : Prop := below.withdraws ≠ none → Quiet k above

def Handler.Ok (k : Ledger) : Handler → Prop
  | .gameMessage r => k.Alive r
  | .playerLeft r => k.Alive r
  | .infoRequest _ => True

def Cmd.Ok (k : Ledger) : Cmd → Prop
  | .created r _ _ => k.Unmade r
  | .deliver _ handlers => ∀ handler ∈ handlers, handler.Ok k
  | .unsubscribeInfo listener => k.Foreign listener
  | .timerBody task => k.Recorded task
  | .callHook r hook => (hook.isCreate = true ∧ r < k.nextRoom) ∨ k.Alive r
  | .inHook r hook => (hook.isCreate = true ∧ r < k.nextRoom) ∨ k.Alive r
  | .addClient r _ _ => k.Alive r
  | .callJoinListeners r _ _ => k.Alive r
  | .catchJoin r _ => k.Alive r
  | .callLeaveListeners r _ _ _ => k.Alive r
  | .disposeIfEmpty r => k.Alive r
  | .disposeLoop r _ => r < k.nextRoom ∧ (k.lives r).disposing = true
  | .finishDispose r => r < k.nextRoom ∧ (k.lives r).disposing = true
  | .onRoomDisposed r => k.Drained r
  | _ => True

theorem Cmd.family_of_makes {cmd : Cmd} (h : cmd.makes ≠ none) : cmd.family = none := by
  cases cmd <;> first | rfl | exact absurd rfl h

theorem Ledger.Later.quiet {k k' : Ledger} {made : Option RoomRef} (h : Later k k' made) {cmd : Cmd}
    (quiet : Quiet k cmd) : Quiet k' cmd := by
  obtain ⟨r, family, born, disposing⟩ := quiet
  exact ⟨r, family, lt_of_lt_of_le born h.nextRoom, h.disposing born disposing⟩

theorem Ledger.Later.ok {k k' : Ledger} {made : Option RoomRef} (h : Later k k' made) {cmd : Cmd}
    (makes : ∀ r, cmd.makes = some r → made ≠ some r)
    (withdraws : ∀ r, cmd.withdraws = some r → made ≠ some r) (ok : cmd.Ok k) : cmd.Ok k' := by
  cases cmd with
  | created r => exact h.unmade (makes r rfl) ok
  | deliver payload handlers =>
    intro handler mem
    have held := ok handler mem
    cases handler with
    | gameMessage r => exact h.alive held
    | playerLeft r => exact h.alive held
    | infoRequest n => trivial
  | unsubscribeInfo listener => exact h.foreign ok
  | timerBody task => exact h.recorded ok
  | callHook r hook =>
    exact ok.imp (fun o => ⟨o.1, lt_of_lt_of_le o.2 h.nextRoom⟩) h.alive
  | inHook r hook =>
    exact ok.imp (fun o => ⟨o.1, lt_of_lt_of_le o.2 h.nextRoom⟩) h.alive
  | addClient | callJoinListeners | catchJoin | callLeaveListeners | disposeIfEmpty =>
    exact h.alive ok
  | disposeLoop r left => exact ⟨lt_of_lt_of_le ok.1 h.nextRoom, h.disposing ok.1 ok.2⟩
  | finishDispose r => exact ⟨lt_of_lt_of_le ok.1 h.nextRoom, h.disposing ok.1 ok.2⟩
  | onRoomDisposed r => exact h.drained (withdraws r rfl) ok
  | _ => trivial

theorem Ledger.Later.ok_of_none {k k' : Ledger} (h : Later k k' none) {cmd : Cmd}
    (ok : cmd.Ok k) : cmd.Ok k' := h.ok (fun _ _ => nofun) (fun _ _ => nofun) ok

section
variable {J : JsonText} {w : World} {cmd : Cmd} {a : Answer} {o : Out}

theorem Removes.born {r : RoomRef} {sessionId : Str} {intentional : Bool} {left : List Cmd}
    (h : Removes cmd a r sessionId intentional left) {k : Ledger} (ok : cmd.Ok k) :
    r < k.nextRoom := by
  cases h with
  | playerLeft reads => exact (ok _ List.mem_cons_self).1
  | hook => exact ok.elim And.right And.left
  | loop => exact ok.1

theorem Disposes.born {r : RoomRef} {cause : Cause} {left : List Cmd}
    (h : Disposes w cmd a r cause left) (sound : w.ledger.Sound) (ok : cmd.Ok w.ledger) :
    r < w.nextRoom := by
  cases h with
  | hook made => exact made
  | shutdown managed => exact (sound.managed managed).1
  | lastLeave empty => exact ok.1

theorem Effect.sound (h : Effect J w cmd a o) (sound : w.ledger.Sound) (ok : cmd.Ok w.ledger) :
    o.world.ledger.Sound ∧ Later w.ledger o.world.ledger cmd.makes := by
  have kept : ∀ {k : Ledger}, w.ledger.Keeps k → k.Sound ∧ Later w.ledger k cmd.makes :=
    fun keeps => ⟨keeps.sound sound, keeps.later⟩
  cases h with
  | still same => rw [same]; exact kept (.refl _)
  | purged ledger | stored _ ledger =>
    rw [Outcome.world, ledger]
    exact kept (keeps_storage _ _)
  | birth _ ledger => rw [Outcome.world, ledger]; exact ⟨sound.birth _, later_birth _ _⟩
  | @registered r _ _ _ _ storage _ ledger =>
    rw [Outcome.world, ledger]
    have self := subscribeRoom_self w.ledger r
    exact ⟨(sound.subscribeRoom ok).registerNewRoom storage ok.1 (by rw [self]; exact ⟨rfl, rfl, rfl⟩),
      (later_subscribeRoom ok).trans (sameWiring_registerNewRoom _ r storage).later⟩
  | unrecorded _ ledger =>
    rw [Outcome.world, ledger]
    exact ⟨sound.subscribeRoom ok, later_subscribeRoom ok⟩
  | openInfo ledger => rw [Outcome.world, ledger]; exact ⟨sound.openInfo _, later_openInfo _ _⟩
  | closeInfo ledger =>
    rw [Outcome.world, ledger]
    exact ⟨sound.closeInfo ok, later_unsubscribe _ _ _⟩
  | removed _ ledger => rw [Outcome.world, ledger]; exact kept (keeps_eraseMember _ _ _)
  | disposed _ ledger => rw [Outcome.world, ledger]; exact kept (keeps_dispose _ _ _)
  | autoDisposed _ ledger =>
    rw [Outcome.world, ledger]
    exact kept ((keeps_dispose _ _ _).trans (keeps_started _ _))
  | timedOut _ ledger =>
    rw [Outcome.world, ledger]
    exact kept ((keeps_reconnectTimeout _ _).trans (keeps_started _ _))
  | @granted r _ clientId seconds _ id _ ledger =>
    rw [Outcome.world, ledger]
    have g := granted_allowReconnection w.ledger r clientId seconds id
    exact ⟨g.sound sound (ok.elim And.right And.left), g.later⟩
  | listened ledger => rw [Outcome.world, ledger]; exact kept (keeps_listen_app _ _ _)
  | admitted ledger => rw [Outcome.world, ledger]; exact kept (keeps_addMember _ _ _)
  | rejoined _ ledger => rw [Outcome.world, ledger]; exact kept (keeps_rejoined _ _)
  | emptied ledger => rw [Outcome.world, ledger]; exact kept (.refl _)
  | withdrawn ledger =>
    rw [Outcome.world, ledger]
    exact ⟨sound.finishDispose ok.1 ok.2, later_finishDispose ok.2⟩
  | gone ledger =>
    rw [Outcome.world, ledger]
    exact ⟨sound.onRoomDisposed ok.1 ok.2.1, (sameWiring_onRoomDisposed _ _).later⟩
  | @ended sessionId _ _ ledger =>
    rw [Outcome.world, ledger]
    unfold Ledger.endOp
    split
    · exact ⟨sound.sessions _, later_sessions _ _⟩
    · exact ⟨sound.sessions _, later_sessions _ _⟩
    · exact ⟨sound, .refl _ _⟩

def Housed (k : Ledger) : Prop := ∀ r, (k.lives r).clients ≠ [] → k.Alive r

theorem Effect.housed (h : Effect J w cmd a o) (sound : w.ledger.Sound) (housed : Housed w.ledger)
    (ok : cmd.Ok w.ledger) : Housed o.world.ledger := by
  have later := (h.sound sound ok).2
  intro r hr
  cases h.tells with
  | same story => rw [story.clients] at hr; exact later.alive (housed r hr)
  | birth story =>
    rw [story.clients] at hr
    by_cases new : r = w.ledger.nextRoom
    · rw [new, birth_self] at hr; exact absurd rfl hr
    · rw [birth_ne _ _ new] at hr; exact later.alive (housed r hr)
  | removed _ story =>
    rw [story.clients] at hr
    exact later.alive (housed r fun none =>
      hr (List.sublist_nil.1 (none ▸ clients_eraseMember_sublist ..)))
  | disposed _ story | autoDisposed _ story =>
    rw [story.clients, clients_dispose] at hr
    exact later.alive (housed r hr)
  | @admitted r' client _ _ story =>
    by_cases e : r = r'
    · rw [e]; exact later.alive ok
    · rw [story.clients, clients_addMember_ne _ e] at hr; exact later.alive (housed r hr)
  | gone story =>
    rw [story.clients, onRoomDisposed_lives] at hr
    exact later.alive (housed r hr)

theorem Child.ok {c : Cmd} (h : Child w cmd c) (sound : w.ledger.Sound) (ok : cmd.Ok w.ledger) :
    c.Ok w.ledger := by
  cases h with
  | deliver =>
    rintro handler mem
    obtain ⟨l, hl, rfl⟩ := List.mem_map.1 mem
    have owns := (sound.owns hl).1
    unfold Owns at owns
    unfold Handler.Ok
    split <;> rename_i handler <;> simp only [handler] at owns
    · exact owns.1
    · exact owns.1
    · trivial
  | next => exact fun handler mem => ok handler (List.mem_cons_of_mem _ mem)
  | message' | addMember | catchJoin =>
    first
      | exact ok _ List.mem_cons_self
      | exact .inr (ok _ List.mem_cons_self)
  | enter | stay | joinNext | leaveNext => exact ok
  | joinListener | leaveListener => exact .inr ok
  | _ => trivial

theorem Child.quiet {c : Cmd} (h : Child w cmd c) {k : Ledger} (quiet : Quiet k cmd) : Quiet k c := by
  obtain ⟨r, family, rest⟩ := quiet
  refine ⟨r, ?_, rest⟩
  cases h <;> first | exact family | cases family

theorem Child.withdraws {c : Cmd} (h : Child w cmd c) : c.withdraws = none := by
  cases h <;> rfl

theorem leaveOf_family {r : RoomRef} {client : SimpleClient} {intentional : Bool} {left : List ℕ} :
    ∀ c ∈ leaveOf r client intentional left, c.family = some r ∧ c.withdraws = none := by
  simp [leaveOf, Cmd.family, Cmd.withdraws]

theorem leaveOf_ok {k : Ledger} {r : RoomRef} {client : SimpleClient} {intentional : Bool}
    {left : List ℕ} (alive : k.Alive r) : ∀ c ∈ leaveOf r client intentional left, c.Ok k := by
  simp only [leaveOf, List.forall_mem_cons]
  exact ⟨alive, .inr alive, alive, nofun⟩

theorem Removes.left_ok {r : RoomRef} {sessionId : Str} {intentional : Bool} {left : List Cmd}
    (h : Removes cmd a r sessionId intentional left) {k : Ledger} (ok : cmd.Ok k) :
    cmd.makes = none ∧ (cmd.family ≠ none → cmd.family = some r) ∧ ∃ c, left = [c] ∧ c.Ok k ∧
      c.family = cmd.family ∧ (c.withdraws ≠ none → (k.lives r).disposing = true) := by
  cases h with
  | playerLeft reads =>
    exact ⟨rfl, fun h => absurd rfl h, _, rfl,
      fun handler mem => ok handler (List.mem_cons_of_mem _ mem), rfl, fun h => absurd rfl h⟩
  | hook => exact ⟨rfl, fun _ => rfl, _, rfl, ok, rfl, fun h => absurd rfl h⟩
  | loop => exact ⟨rfl, fun _ => rfl, _, rfl, ok, rfl, fun _ => ok.2⟩

theorem Disposes.left_ok {r : RoomRef} {cause : Cause} {left : List Cmd}
    (h : Disposes w cmd a r cause left) {k : Ledger} (ok : cmd.Ok k) : cmd.makes = none ∧
      ∀ c ∈ left, c.Ok k ∧ c.family = cmd.family ∧ c.withdraws = none := by
  cases h with
  | hook made => exact ⟨rfl, List.forall_mem_singleton.2 ⟨ok, rfl, rfl⟩⟩
  | shutdown managed => exact ⟨rfl, List.forall_mem_singleton.2 ⟨trivial, rfl, rfl⟩⟩
  | lastLeave empty => exact ⟨rfl, nofun⟩

structure Pushes (k k' : Ledger) (cmd : Cmd) (push : List Cmd) : Prop where
  ok : ∀ c ∈ push, c.Ok k'
  order : push.Pairwise (Ordered k')
  quiet : Quiet k cmd → ∀ c ∈ push, Quiet k' c

theorem Pushes.nil {k k' : Ledger} : Pushes k k' cmd [] := ⟨nofun, .nil, fun _ => nofun⟩

theorem Pushes.plain {k k' : Ledger} {push : List Cmd} (ok : ∀ c ∈ push, c.Ok k')
    (withdraws : ∀ c ∈ push, c.withdraws = none) (quiet : Quiet k cmd → ∀ c ∈ push, Quiet k' c) :
    Pushes k k' cmd push := by
  refine ⟨ok, ?_, quiet⟩
  exact List.pairwise_of_forall_mem_list fun _ _ below hbelow h => absurd (withdraws below hbelow) h

/-- A disposal is pushed on top of what its caller still has to do. -/
theorem Pushes.disposal {k k' : Ledger} {push left : List Cmd} {r : RoomRef} {clients : List Str}
    {running : Bool} (born : r < k'.nextRoom) (disposing : (k'.lives r).disposing = true)
    (starts : push = if running then [] else [.disposeLoop r clients])
    (ok : ∀ c ∈ left, c.Ok k' ∧ c.withdraws = none) (quiet : Quiet k cmd → ∀ c ∈ left, Quiet k' c) :
    Pushes k k' cmd (push ++ left) := by
  have top : ∀ c ∈ push, c = .disposeLoop r clients := by
    subst starts
    split <;> simp
  refine ⟨fun c hc => ?_, ?_, fun hq c hc => ?_⟩
  · rcases List.mem_append.1 hc with hc | hc
    · rw [top c hc]; exact ⟨born, disposing⟩
    · exact (ok c hc).1
  · refine List.pairwise_append.2 ⟨?_, ?_, ?_⟩
    · subst starts
      split <;> simp
    · exact List.pairwise_of_forall_mem_list fun _ _ c hc h => absurd (ok c hc).2 h
    · exact fun _ _ c hc h => absurd (ok c hc).2 h
  · rcases List.mem_append.1 hc with hc | hc
    · rw [top c hc]; exact ⟨r, rfl, born, disposing⟩
    · exact quiet hq c hc

/-- A leave is pushed on top of what its caller still has to do. -/
theorem Pushes.leave {k k' : Ledger} {push : List Cmd} {r : RoomRef} {c : Cmd}
    (later : Later k k' none) (born : r < k.nextRoom) (same : cmd.family ≠ none → cmd.family = some r)
    (leaving : ∀ c ∈ push, c.Ok k' ∧ c.family = some r ∧ c.withdraws = none) (ok : c.Ok k)
    (family : c.family = cmd.family) (withdraws : c.withdraws ≠ none → (k.lives r).disposing = true) :
    Pushes k k' cmd (push ++ [c]) := by
  have quiet : (k.lives r).disposing = true → ∀ c ∈ push, Quiet k' c := fun disposing c hc =>
    ⟨r, (leaving c hc).2.1, lt_of_lt_of_le born later.nextRoom, later.disposing born disposing⟩
  refine ⟨fun d hd => ?_, List.pairwise_append.2 ⟨?_, List.pairwise_singleton .., ?_⟩,
    fun hq d hd => ?_⟩
  · rcases List.mem_append.1 hd with hd | hd
    · exact (leaving d hd).1
    · rw [List.mem_singleton.1 hd]
      exact later.ok_of_none ok
  · exact List.pairwise_of_forall_mem_list fun _ _ d hd h => absurd (leaving d hd).2.2 h
  · intro d hd below hbelow h
    rw [List.mem_singleton.1 hbelow] at h
    exact quiet (withdraws h) d hd
  · obtain ⟨r', hr', rest⟩ := hq
    rcases List.mem_append.1 hd with hd | hd
    · have e : some r' = some r := hr'.symm.trans (same (by rw [hr']; nofun))
      exact quiet (Option.some.inj e ▸ rest.2) d hd
    · rw [List.mem_singleton.1 hd]
      exact later.quiet ⟨r', family.trans hr', rest⟩

theorem Effect.pushes (h : Effect J w cmd a o) (sound : w.ledger.Sound) (housed : Housed w.ledger)
    (ok : cmd.Ok w.ledger) : Pushes w.ledger o.world.ledger cmd o.push := by
  have later := (h.sound sound ok).2
  cases h with
  | still same children =>
    rw [same]
    exact .plain (fun c hc => (children c hc).ok sound ok) (fun c hc => (children c hc).withdraws)
      fun quiet c hc => (children c hc).quiet quiet
  | purged | registered | unrecorded | closeInfo | timedOut | gone | ended => exact .nil
  | @birth client _ _ _ _ creator _ _ _ _ w' init _ ledger =>
    have born : w.nextRoom < w'.ledger.nextRoom := by rw [ledger]; exact Nat.lt_succ_self _
    have unmade : w'.ledger.Unmade w.nextRoom := by
      refine ⟨born, ?_⟩
      rw [ledger, show w.nextRoom = w.ledger.nextRoom from rfl, birth_self]
      exact ⟨rfl, rfl, rfl⟩
    exact .plain (List.forall_mem_cons.2 ⟨.inl ⟨rfl, born⟩, List.forall_mem_singleton.2 unmade⟩)
      (by simp [Cmd.withdraws]) (fun quiet => by cases quiet.choose_spec.1)
  | @openInfo _ _ w' ledger =>
    have foreign : w'.ledger.Foreign w.nextListener := ledger ▸ sound.foreign_openInfo _
    exact .plain (by simpa [Cmd.Ok] using foreign) (by simp [Cmd.withdraws])
      (fun quiet => by cases quiet.choose_spec.1)
  | @removed _ _ r _ _ left w' push calls ledger leaves =>
    obtain ⟨makes, same, c, rfl, hok, family, withdraws⟩ := calls.left_ok ok
    rw [makes] at later
    refine .leave later (calls.born ok) same ?_ hok family withdraws
    rcases leaves with ⟨-, rfl⟩ | ⟨client, listeners, member, rfl⟩
    · exact nofun
    · have alive := later.alive (housed r fun empty => by
        rw [Life.member, show (w.rooms r).clients = [] from empty] at member; cases member)
      exact fun c hc => ⟨leaveOf_ok alive c hc, leaveOf_family c hc⟩
  | @disposed _ _ r cause left w' push calls ledger starts =>
    obtain ⟨makes, rest⟩ := calls.left_ok ok
    rw [makes] at later
    have disposing : (w'.ledger.lives r).disposing = true := ledger ▸ disposing_dispose _ r cause
    refine .disposal (lt_of_lt_of_le (calls.born sound ok) later.nextRoom) disposing starts
      (fun c hc => ⟨later.ok_of_none (rest c hc).1, (rest c hc).2.2⟩) fun hq c hc => ?_
    obtain ⟨r', family, quiet⟩ := hq
    exact later.quiet ⟨r', (rest c hc).2.1.trans family, quiet⟩
  | @autoDisposed task _ r w' push callback ledger starts =>
    have alive : w.ledger.Alive r := by
      have recorded : w.ledger.Recorded task := ok
      rw [Recorded, callback] at recorded
      exact recorded.1
    have disposing : (w'.ledger.lives r).disposing = true := ledger ▸ disposing_dispose _ r .timer
    have pushes : Pushes w.ledger w'.ledger (.timerBody task) (push ++ []) :=
      .disposal (lt_of_lt_of_le alive.1 later.nextRoom) disposing starts nofun fun _ => nofun
    rwa [List.append_nil] at pushes
  | @granted r hook _ _ w' _ lives _ =>
    refine .plain (List.forall_mem_cons.2 ⟨trivial, List.forall_mem_singleton.2 ?_⟩)
      (by simp [Cmd.withdraws]) fun quiet => ?_
    · exact later.ok_of_none ok
    · obtain ⟨r', family, -, disposing⟩ := quiet
      cases family
      exact absurd (lives.symm.trans disposing) Bool.false_ne_true
  | stored | listened =>
    exact .plain (List.forall_mem_singleton.2 (later.ok_of_none ok)) (by simp [Cmd.withdraws])
      fun quiet => List.forall_mem_singleton.2 (later.quiet quiet)
  | admitted =>
    have alive := later.alive ok
    exact .plain (List.forall_mem_cons.2 ⟨alive, List.forall_mem_singleton.2 (.inr alive)⟩)
      (by simp [Cmd.withdraws]) (fun quiet => by cases quiet.choose_spec.1)
  | rejoined =>
    exact .plain (List.forall_mem_singleton.2 (later.alive ok)) (by simp [Cmd.withdraws])
      (fun quiet => by cases quiet.choose_spec.1)
  | @emptied r _ w' ledger =>
    have born := lt_of_lt_of_le ok.1 later.nextRoom
    have disposing := later.disposing ok.1 ok.2
    have quiet : ∀ {c : Cmd}, c.family = some r → Quiet w'.ledger c :=
      fun family => ⟨r, family, born, disposing⟩
    refine ⟨List.forall_mem_cons.2 ⟨.inr ⟨born, .inl disposing⟩,
      List.forall_mem_singleton.2 ⟨born, disposing⟩⟩, ?_, fun _ => ?_⟩
    · exact List.pairwise_pair.2 fun _ => quiet rfl
    · exact List.forall_mem_cons.2 ⟨quiet rfl, List.forall_mem_singleton.2 (quiet rfl)⟩
  | @withdrawn r _ w' ledger =>
    have drained : w'.ledger.Drained r := ledger ▸ drained_finishDispose ok.1 ok.2
    have quiet : ∀ {c : Cmd}, c.family = some r → Quiet w'.ledger c :=
      fun family => ⟨r, family, drained.1, drained.2.1⟩
    refine ⟨List.forall_mem_cons.2 ⟨.inr ⟨drained.1, .inl drained.2.1⟩,
      List.forall_mem_singleton.2 drained⟩, ?_, fun _ => ?_⟩
    · exact List.pairwise_pair.2 fun _ => quiet rfl
    · exact List.forall_mem_cons.2 ⟨quiet rfl, List.forall_mem_singleton.2 (quiet rfl)⟩

theorem Effect.parks (h : Effect J w cmd a o) (parks : o.parks = true) :
    ¬ Quiet w.ledger cmd ∧ ∀ c ∈ o.push, c.withdraws = none := by
  cases h with
  | still _ children _ _ pauses =>
    refine ⟨fun ⟨r, family, _⟩ => ?_, fun c hc => (children c hc).withdraws⟩
    rw [pauses parks] at family
    cases family
  | granted lives =>
    refine ⟨fun ⟨r, family, _, disposing⟩ => ?_, by simp [Cmd.withdraws]⟩
    cases family
    exact absurd (lives.symm.trans disposing) Bool.false_ne_true
  | _ => cases parks

end

structure StackOk (k : Ledger) (stack : List Cmd) : Prop where
  ok : ∀ cmd ∈ stack, cmd.Ok k
  order : stack.Pairwise (Ordered k)

theorem StackOk.later {k k' : Ledger} {stack : List Cmd} (h : StackOk k stack)
    {made : Option RoomRef} (later : Later k k' made) (ok : ∀ cmd ∈ stack, cmd.Ok k') :
    StackOk k' stack := ⟨ok, h.order.imp fun quiet below => later.quiet (quiet below)⟩

theorem StackOk.step {k k' : Ledger} {cmd : Cmd} {rest push : List Cmd} {made : Option RoomRef}
    (h : StackOk k (cmd :: rest)) (later : Later k k' made) (pushes : Pushes k k' cmd push)
    (ok : ∀ c ∈ rest, c.Ok k') : StackOk k' (push ++ rest) := by
  obtain ⟨top, order⟩ := List.pairwise_cons.1 h.order
  refine ⟨fun c hc => (List.mem_append.1 hc).elim (pushes.ok c) (ok c), ?_⟩
  refine List.pairwise_append.2 ⟨pushes.order, order.imp fun quiet below => later.quiet (quiet below), ?_⟩
  exact fun c hc below hbelow withdraws => pushes.quiet (top below hbelow withdraws) c hc

theorem StackOk.no_withdraws {k : Ledger} {cmd : Cmd} {rest : List Cmd}
    (h : StackOk k (cmd :: rest)) (loud : ¬ Quiet k cmd) : ∀ c ∈ rest, c.withdraws = none := by
  intro c hc
  by_contra withdraws
  exact loud ((List.pairwise_cons.1 h.order).1 c hc withdraws)

def Base (w : World) : Prop := w.ledger.Sound ∧ Housed w.ledger

def BaseRunning (w : World) : Option (Thread Tid Cmd Exn) → Prop
  | none => True
  | some t => StackOk w.ledger t.stack

def BaseParked (w : World) (t : Thread Tid Cmd Exn) : Prop :=
  StackOk w.ledger t.stack ∧ ∀ cmd ∈ t.stack, cmd.withdraws = none

abbrev Unshared (c : ServerConfig) : Prop := Distinct Cmd.key Key.Live c

/-- The command that makes a room is the only one that holds it unmade. -/
theorem Unshared.makes {c : ServerConfig} (h : Unshared c) {tid : Tid} {cmd : Cmd} {rest : List Cmd}
    {e : Option Exn} (top : c.running = some ⟨tid, cmd :: rest, e⟩) {r : RoomRef}
    (made : cmd.makes = some r) : (∀ c' ∈ rest, c'.makes ≠ some r) ∧
      ∀ t ∈ c.parked, ∀ c' ∈ t.stack, c'.makes ≠ some r := by
  have key : ∀ {c' : Cmd}, c'.makes = some r → c'.key = some (.room r) := by
    intro c' h
    cases c' <;> cases h
    rfl
  obtain ⟨nodup, -⟩ := h
  rw [tokens_top Cmd.key top, key made] at nodup
  have alone : Key.room r ∉ rest.filterMap Cmd.key ++ c.parked.flatMap (Thread.tokens Cmd.key) :=
    (List.nodup_cons.1 nodup).1
  refine ⟨fun c' hc' made' => alone ?_, fun t ht c' hc' made' => alone ?_⟩
  · exact List.mem_append_left _ (List.mem_filterMap.2 ⟨c', hc', key made'⟩)
  · refine List.mem_append_right _ (List.mem_flatMap.2 ⟨t, ht, ?_⟩)
    exact List.mem_filterMap.2 ⟨c', hc', key made'⟩

theorem Arrival.base {w w' : World} {e : EnvEvent} {new : List (Tid × List Cmd)}
    (h : Arrival w e w' new) (base : Base w) : Base w' ∧ Later w.ledger w'.ledger none ∧
      ∀ p ∈ new, StackOk w'.ledger p.2 ∧ ∀ cmd ∈ p.2, cmd.withdraws = none := by
  obtain ⟨sound, housed⟩ := base
  have plain : ∀ {k : Ledger} {stack : List Cmd}, (∀ cmd ∈ stack, cmd.Ok k) →
      (∀ cmd ∈ stack, cmd.withdraws = none) →
      StackOk k stack ∧ ∀ cmd ∈ stack, cmd.withdraws = none :=
    fun ok none => ⟨⟨ok, List.pairwise_of_forall_mem_list fun _ _ below hbelow h =>
      absurd (none below hbelow) h⟩, none⟩
  have moved : ∀ {index : ℕ} {task : Task} {working : List Task}, w.tasks[index]? = some task →
      (∀ t ∈ working, t = task ∨ t ∈ w.working) →
      w.ledger.Keeps { w.ledger with tasks := w.tasks.eraseIdx index, working := working } :=
    fun listed sub => { Keeps.refl w.ledger with
      task := fun ht => by
        rcases ht with ht | ht
        · exact .inl (List.mem_of_mem_eraseIdx ht)
        · exact (sub _ ht).imp (fun e => by rw [e]; exact List.mem_of_getElem? listed) id }
  cases h with
  | @tick ms =>
    have keeps := keeps_tick w.ledger (w.now + ms)
    exact ⟨⟨keeps.sound sound, housed⟩, keeps.later, nofun⟩
  | connect | receive | hangup =>
    exact ⟨⟨sound.sessions _, housed⟩, later_sessions _ _,
      List.forall_mem_singleton.2 (plain (by simp [Cmd.Ok]) (by simp [Cmd.withdraws]))⟩
  | dropped listed =>
    have keeps := moved listed fun t ht => .inr ht
    exact ⟨⟨keeps.sound sound, housed⟩, keeps.later, nofun⟩
  | @fired index task listed =>
    have keeps : w.ledger.Keeps
        { w.ledger with tasks := w.tasks.eraseIdx index, working := task :: w.working } :=
      moved listed fun t ht => List.mem_cons.1 ht
    have recorded := keeps.recorded (sound.task (.inl (List.mem_of_getElem? listed)))
    exact ⟨⟨keeps.sound sound, housed⟩, keeps.later,
      List.forall_mem_singleton.2 (plain
        (List.forall_mem_cons.2 ⟨recorded, List.forall_mem_singleton.2 trivial⟩)
        (by simp [Cmd.withdraws]))⟩
  | _ =>
    exact ⟨⟨sound, housed⟩, .refl _ _,
      List.forall_mem_singleton.2 (plain (by simp [Cmd.Ok]) (by simp [Cmd.withdraws]))⟩

theorem base_preserved (M : MsgpackC) (J : JsonText) :
    Preserved (server M J) Base BaseRunning BaseParked fun c _ => Unshared c where
  exec := fun {c tid cmd rest a o} inv unshared top run => by
    obtain ⟨⟨sound, housed⟩, running, parked⟩ := inv
    rw [top] at running
    have stack : StackOk c.world.ledger (cmd :: rest) := running
    have effect := exec_effect M J run
    have ok := stack.ok cmd List.mem_cons_self
    obtain ⟨sound', later⟩ := effect.sound sound ok
    have loud : cmd.makes ≠ none → ∀ c' ∈ rest, c'.withdraws = none := fun made =>
      stack.no_withdraws fun ⟨_, family, _⟩ => by rw [Cmd.family_of_makes made] at family; cases family
    have unmade := fun {r} (made : cmd.makes = some r) => Unshared.makes unshared top made
    have restOk : ∀ c' ∈ rest, c'.Ok o.world.ledger := fun c' hc' =>
      later.ok (fun r made' made => (unmade made).1 c' hc' made')
        (fun r withdraws made => by
          rw [loud (by rw [made]; nofun) c' hc'] at withdraws; cases withdraws)
        (stack.ok c' (List.mem_cons_of_mem _ hc'))
    have next := stack.step later (effect.pushes sound housed ok) restOk
    refine .intro ⟨sound', effect.housed sound housed ok⟩ (fun _ => next) (fun parks => ?_) ?_
    · obtain ⟨loud, pushed⟩ := effect.parks parks
      refine ⟨trivial, next, fun c' hc' => ?_⟩
      exact (List.mem_append.1 hc').elim (pushed c') (stack.no_withdraws loud c')
    · intro t ht
      obtain ⟨tstack, none⟩ := parked t ht
      refine ⟨tstack.later later fun c' hc' => ?_, none⟩
      exact later.ok (fun r made' made => (unmade made).2 t ht c' hc' made')
        (fun r withdraws _ => by rw [none c' hc'] at withdraws; cases withdraws) (tstack.ok c' hc')
  unwind := fun {c tid cmd rest x a o} inv _ top run => by
    obtain ⟨⟨sound, housed⟩, running, parked⟩ := inv
    rw [top] at running
    have stack : StackOk c.world.ledger (cmd :: rest) := running
    have below : StackOk c.world.ledger rest :=
      ⟨fun c' hc' => stack.ok c' (List.mem_cons_of_mem _ hc'), (List.pairwise_cons.1 stack.order).2⟩
    cases unwind_effect run with
    | passed _ => exact ⟨⟨sound, housed⟩, below, parked⟩
    | caught _ same =>
      refine ⟨?_, ?_, ?_⟩
      · rw [Base, same]; exact ⟨sound, housed⟩
      · rw [BaseRunning, same]; exact below
      · intro t ht; rw [BaseParked, same]; exact parked t ht
    | handled => exact ⟨⟨sound, housed⟩, stack, parked⟩
    | @rolledBack r client creator _ _ w' push ledger starts =>
      have unmade : c.world.ledger.Unmade r := stack.ok _ List.mem_cons_self
      have keeps : c.world.ledger.Keeps w'.ledger := ledger ▸ keeps_dispose _ _ _
      have later : c.world.ledger.Later w'.ledger none := keeps.later
      have members : Housed w'.ledger := fun r' hr' =>
        later.alive (housed r' (by rwa [ledger, clients_dispose] at hr'))
      have disposing : (w'.ledger.lives r).disposing = true := ledger ▸ disposing_dispose _ r _
      have pushes : Pushes c.world.ledger w'.ledger (.created r client creator)
          (push ++ [.rethrow x]) :=
        .disposal (lt_of_lt_of_le unmade.1 later.nextRoom) disposing starts
          (List.forall_mem_singleton.2 ⟨trivial, rfl⟩) fun ⟨_, family, _⟩ => by cases family
      refine ⟨⟨keeps.sound sound, members⟩, ?_, fun t ht => ?_⟩
      · exact stack.step later pushes fun c' hc' => later.ok_of_none (below.ok c' hc')
      · obtain ⟨tstack, none⟩ := parked t ht
        exact ⟨tstack.later later fun c' hc' => later.ok_of_none (tstack.ok c' hc'), none⟩
  finish := fun _ _ => trivial
  take := fun inv _ ht _ => (inv.2.2 _ ht).1
  env := fun {c e w new} inv _ run => by
    obtain ⟨base, running, parked⟩ := inv
    obtain ⟨base', later, started⟩ := (spawn_arrival run).base base
    refine ⟨base', ?_, fun t ht => ?_, fun p hp => started p hp⟩
    · cases hr : c.running with
      | none => trivial
      | some t =>
        rw [hr] at running
        exact StackOk.later running later fun c' hc' => later.ok_of_none (running.ok c' hc')
    · obtain ⟨tstack, none⟩ := parked t ht
      exact ⟨tstack.later later fun c' hc' => later.ok_of_none (tstack.ok c' hc'), none⟩

structure Kept (c : ServerConfig) : Prop where
  unshared : Unshared c
  holds : Holds Base BaseRunning BaseParked c

theorem Kept.sound {c : ServerConfig} (kept : Kept c) : c.world.ledger.Sound := kept.holds.1.1

theorem Kept.housed {c : ServerConfig} (kept : Kept c) : Housed c.world.ledger := kept.holds.1.2

theorem Kept.stack {c : ServerConfig} (kept : Kept c) {tid : Tid} {stack : List Cmd}
    {e : Option Exn} (top : c.running = some ⟨tid, stack, e⟩) : StackOk c.world.ledger stack := by
  have running := kept.holds.2.1
  rw [top] at running
  exact running

theorem Kept.parked {c : ServerConfig} (kept : Kept c) {t : Thread Tid Cmd Exn}
    (mem : t ∈ c.parked) : StackOk c.world.ledger t.stack ∧ ∀ cmd ∈ t.stack, cmd.withdraws = none :=
  kept.holds.2.2 t mem

theorem Kept.step {M : MsgpackC} {J : JsonText} {c c' : ServerConfig} {l : Label Answer EnvEvent}
    (kept : Kept c) (h : Step (server M J) c l c') : Kept c' :=
  ⟨(conserved M J).step _ _ kept.unshared trivial h,
    (base_preserved M J).step _ kept.holds kept.unshared h⟩

theorem Kept.initial : Kept ServerConfig.initial := by
  refine ⟨⟨.nil, nofun⟩, ⟨⟨⟨?_, ?_⟩, fun r empty => absurd rfl empty⟩, trivial, nofun⟩⟩
  · exact
      { owns := nofun, ids := fun _ => .nil, gameMessage := nofun, playerLeft := nofun
        task := fun mem => mem.elim nofun nofun, timer := nofun, timers := nofun, wait := nofun
        waitTimer := nofun, listens := nofun }
  · exact
      { managed := nofun, unborn := fun _ => ⟨rfl, rfl, rfl, rfl⟩
        ended := fun stage => stage.elim nofun nofun
        registered := nofun }

theorem Kept.run {M : MsgpackC} {J : JsonText} {ok : ServerConfig → Label Answer EnvEvent → Prop}
    {ls : List (Label Answer EnvEvent)} {c : ServerConfig}
    (run : Run (server M J) ok ServerConfig.initial ls c) : Kept c :=
  run.invariant _ .initial fun kept _ h => kept.step h

end Blueboat
