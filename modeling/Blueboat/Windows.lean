import Blueboat.Agreement

set_option autoImplicit false

/-! A room whose `allow_reconnection` is pending stays open to the client, unless it is disposed of by
name: what keeps it so, and what does not. -/
namespace Blueboat

open Protocol LockMachine Ledger

/-- The client of the call has not rejoined, and its time has not been found to be over. -/
def Stores.Waiting (k : Stores) (v : ℕ) : Prop := v < k.nextWait ∧ (k.waits v).promise = none

def Cause.asked : Cause → Bool
  | .hook => true
  | .timer => true
  | .shutdown => true
  | _ => false

section
variable {M : MsgpackC} {J : JsonText} {w : World} {cmd : Cmd} {a : Answer} {o : Out} {r : RoomRef}

inductive Grants (w : World) (k' : Ledger) : Cmd → Answer → Prop where
  | kept {cmd : Cmd} {a : Answer} (nextWait : k'.nextWait = w.nextWait)
      (room : ∀ v, (k'.waits v).room = (w.waits v).room)
      (open' : ∀ v, (k'.waits v).promise = none → (w.waits v).promise = none) : Grants w k' cmd a
  | granted {r : RoomRef} {hook : Hook} {clientId : Str} {seconds : Int32} {wait : Wait}
      (nextWait : k'.nextWait = w.nextWait + 1)
      (waits : k'.waits = Function.update w.waits w.nextWait wait) (room : wait.room = r)
      (lives : (k'.lives r).disposing = false) :
    Grants w k' (.inHook r hook) (.allowReconnection clientId seconds)

theorem Ledger.resolve_open (k : Ledger) (v : ℕ) (value : Bool) (v' : ℕ)
    (none : ((k.resolve v value).waits v').promise = none) : (k.waits v').promise = .none := by
  unfold Ledger.resolve at none
  dsimp only at none
  split at none
  · exact none
  · rename_i unresolved
    by_cases same : v' = v
    · rw [same]
      exact unresolved
    · change (Function.update k.waits v _ v').promise = _ at none
      rwa [Function.update_of_ne same] at none

theorem Effect.grants (h : Effect J w cmd a o) : Grants w o.world.ledger cmd a := by
  have of : ∀ {k : Ledger}, o.world.ledger = k → Grants w k cmd a → Grants w o.world.ledger cmd a :=
    fun ledger grants => ledger ▸ grants
  have still : ∀ {k : Ledger}, o.world.ledger = k → k.nextWait = w.nextWait → k.waits = w.waits →
      Grants w o.world.ledger cmd a := fun ledger nextWait waits =>
    of ledger (.kept nextWait (fun v => by rw [waits]) fun v none => by rwa [waits] at none)
  cases h with
  | still ledger | emptied ledger | purged ledger | birth _ ledger | stored _ ledger
  | openInfo ledger | closeInfo ledger | removed _ ledger | listened ledger | admitted ledger
  | registered _ ledger | unrecorded _ ledger => exact still ledger rfl rfl
  | @disposed _ _ r cause _ _ _ _ ledger =>
    have stores := dispose_stores w.ledger r cause
    have nextWait := congrArg Stores.nextWait stores
    have waits := congrArg Stores.waits stores
    exact still ledger nextWait waits
  | @autoDisposed _ _ r _ _ _ ledger =>
    have stores := dispose_stores w.ledger r .timer
    have nextWait := congrArg Stores.nextWait stores
    have waits := congrArg Stores.waits stores
    exact still ledger nextWait waits
  | @timedOut task _ v _ _ ledger =>
    have keeps := keeps_reconnectTimeout w.ledger v
    refine of ledger (.kept keeps.nextWait keeps.waitRoom fun v' none => ?_)
    exact resolve_open w.ledger v _ v' none
  | @rejoined _ _ _ v _ _ _ _ ledger =>
    have keeps := keeps_rejoined w.ledger v
    refine of ledger (.kept keeps.nextWait keeps.waitRoom fun v' none => ?_)
    exact resolve_open w.ledger v true v' none
  | @granted r _ clientId seconds _ id lives ledger =>
    have same := (sameStory_allowReconnection w.ledger r clientId seconds id).disposing r
    exact of ledger (.granted rfl rfl rfl (same.trans lives))
  | @withdrawn r _ _ ledger =>
    obtain ⟨_, _, _, stores, -⟩ := finishDispose_stores w.ledger r
    exact still ledger (by rw [stores]; rfl) (by rw [stores]; rfl)
  | @gone r _ _ ledger =>
    have stores := onRoomDisposed_stores w.ledger r
    have nextWait := congrArg Stores.nextWait stores
    have waits := congrArg Stores.waits stores
    exact still ledger nextWait waits
  | @ended sessionId _ _ ledger =>
    obtain ⟨_, stores⟩ := endOp_stores w.ledger sessionId
    have nextWait := congrArg Stores.nextWait stores
    have waits := congrArg Stores.waits stores
    exact still ledger nextWait waits

/-- A disposal that begins has the cause that it is called for. -/
theorem Ledger.cause_dispose {k : Ledger} {r r' : RoomRef} {cause : Cause}
    (disposing : ((k.dispose r' cause).lives r).disposing = true) :
    ((k.lives r).disposing = true ∧ ((k.dispose r' cause).lives r).cause = (k.lives r).cause) ∨
      (r = r' ∧ (k.lives r).disposing = false ∧ ((k.dispose r' cause).lives r).cause = some cause) := by
  cases running : (k.lives r').disposing with
  | true =>
    have same : k.dispose r' cause = k := if_pos running
    rw [same] at disposing ⊢
    exact .inl ⟨disposing, rfl⟩
  | false =>
    have begins : k.dispose r' cause = k.setLife r' _ := if_neg (by simp [running])
    rw [begins] at disposing ⊢
    by_cases here : r = r'
    · subst here
      exact .inr ⟨rfl, running, by rw [setLife_self]⟩
    · rw [setLife_ne _ here] at disposing ⊢
      exact .inl ⟨disposing, rfl⟩

/-- A room that exists keeps the cause of its disposal, and one that begins is asked for or is that of
an empty room at the end of a leave. -/
theorem Effect.causes (h : Effect J w cmd a o) (born : r < w.nextRoom)
    (disposing : (o.world.rooms r).disposing = true) :
    ((w.rooms r).disposing = true ∧ (o.world.rooms r).cause = (w.rooms r).cause) ∨
      ((w.rooms r).disposing = false ∧
        ((∃ cause, (o.world.rooms r).cause = some cause ∧ cause.asked = true) ∨
          (cmd = .disposeIfEmpty r ∧ (w.rooms r).clients = []))) := by
  have kept : ∀ {k : Ledger}, k.SameStory o.world.ledger →
      (k.lives r).disposing = (w.rooms r).disposing → (k.lives r).cause = (w.rooms r).cause →
      (w.rooms r).disposing = true ∧ (o.world.rooms r).cause = (w.rooms r).cause :=
    fun story same cause => ⟨same.symm.trans ((story.disposing r).symm.trans disposing),
      (story.cause r).trans cause⟩
  cases h.tells with
  | same story => exact .inl (kept story rfl rfl)
  | @birth _ _ _ roomId _ _ _ story =>
    have old := birth_ne w.ledger roomId born.ne
    exact .inl (kept story (congrArg Life.disposing old) (congrArg Life.cause old))
  | removed _ story =>
    exact .inl (kept story (setLife_field (k := w.ledger) Life.disposing (by rfl) r)
      (setLife_field (k := w.ledger) Life.cause (by rfl) r))
  | admitted story =>
    exact .inl (kept story (setLife_field (k := w.ledger) Life.disposing (by rfl) r)
      (setLife_field (k := w.ledger) Life.cause (by rfl) r))
  | @gone r' _ story =>
    have lives := onRoomDisposed_lives w.ledger r' r
    have disposing := congrArg Life.disposing lives
    have cause := congrArg Life.cause lives
    exact .inl (kept story disposing cause)
  | @disposed _ _ r' cause left calls story =>
    rcases cause_dispose ((story.disposing r).symm.trans disposing) with ⟨before, same⟩ | ⟨rfl, before, new⟩
    · exact .inl ⟨before, (story.cause r).trans same⟩
    · refine .inr ⟨before, ?_⟩
      cases calls with
      | hook | shutdown => exact .inl ⟨_, (story.cause r).trans new, rfl⟩
      | lastLeave empty => exact .inr ⟨rfl, empty⟩
  | @autoDisposed _ _ r' _ story =>
    rcases cause_dispose ((story.disposing r).symm.trans disposing) with ⟨before, same⟩ | ⟨rfl, before, new⟩
    · exact .inl ⟨before, (story.cause r).trans same⟩
    · exact .inr ⟨before, .inl ⟨_, (story.cause r).trans new, rfl⟩⟩

end

/-- The end of a leave does not find the room empty while a call of `allow_reconnection` of the room
is pending. -/
def Spares (c : ServerConfig) (l : Label Answer EnvEvent) : Prop :=
  ∀ a tid r rest, l = .act a → c.running = some ⟨tid, .disposeIfEmpty r :: rest, none⟩ →
    (c.world.rooms r).clients = [] → (c.world.rooms r).disposing = false →
    ∀ v, c.world.Waiting v → (c.world.waits v).room ≠ r

structure Joinable (J : JsonText) (w : World) (r : RoomRef) : Prop where
  live : (w.rooms r).disposing = false
  managed : w.managingRooms.lookup (w.rooms r).roomId = some r
  recorded : ∃ snapshot, RoomFetcher.findRoomById J w.storage w.now (w.rooms r).roomId = .ok snapshot
  heard : .gameMessage r ∈ w.handlersOf (w.rooms r).roomId
  accepts : ∀ client data options, data.valueJson (lit "options") (.obj []) = .ok options →
    joinRoom J w client (w.rooms r).roomId data =
      .go w [.publish (w.rooms r).roomId (joinPayload client options)]

def Asked (w : World) (r : RoomRef) : Prop :=
  (w.rooms r).disposing = true ∧ ∃ cause, (w.rooms r).cause = some cause ∧ cause.asked = true

/-- Every pending call is one of a room that was subscribed, and that is not being disposed of unless
somebody asked for it. -/
structure Granting (c : ServerConfig) : Prop where
  alive : ∀ v < c.world.nextWait, c.world.ledger.Alive (c.world.waits v).room
  asked : ∀ v, c.world.Waiting v → (c.world.rooms (c.world.waits v).room).disposing = true →
    Asked c.world (c.world.waits v).room

section
variable {M : MsgpackC} {J : JsonText} {c c' : ServerConfig} {l : Label Answer EnvEvent}

theorem Standing.joinable {w : World} {r : RoomRef} (standing : Standing w r) (sound : w.ledger.Sound)
    (registered : Registered J w.toStores) : Joinable J w r := by
  obtain ⟨e, found, fresh⟩ := standing.recorded
  obtain ⟨-, snapshot, reads, -⟩ := registered _ e found
  have recorded : RoomFetcher.findRoomById J w.storage w.now (w.rooms r).roomId = .ok snapshot := by
    rw [RoomFetcher.findRoomById, MemoryStorage.get_eq_some.2 ⟨e, found, fresh, rfl⟩]
    exact reads
  obtain ⟨i, sub⟩ := Option.isSome_iff_exists.1 (sound.registered standing.stage).1
  refine ⟨standing.disposing, standing.managed, ⟨snapshot, recorded⟩,
    List.mem_map.2 ⟨_, sound.gameMessage sub, rfl⟩, fun client data options reads => ?_⟩
  rw [joinRoom, recorded]
  dsimp only
  rw [reads]

theorem Granting.exec (granting : Granting c) (acc : Accounted J c) {tid : Tid} {cmd : Cmd}
    {rest : List Cmd} {a : Answer} {o : Out} (steady : Steady c (.act a)) (spares : Spares c (.act a))
    (top : c.running = some ⟨tid, cmd :: rest, none⟩) (run : exec M J c.world cmd a = some o) :
    Granting (settle c tid rest o) := by
  have effect := exec_effect M J run
  have sound := acc.known.kept.sound
  have ok := (acc.known.kept.stack top).ok _ List.mem_cons_self
  have later := (effect.sound sound ok).2
  -- a call that was pending before
  have before : ∀ {v : ℕ}, v < c.world.nextWait → (c.world.waits v).promise = none →
      (o.world.waits v).room = (c.world.waits v).room →
      (o.world.rooms (o.world.waits v).room).disposing = true →
      Asked o.world (o.world.waits v).room := by
    intro v made waiting room disposing
    rw [room] at disposing ⊢
    have born : (c.world.waits v).room < c.world.nextRoom := (granting.alive v made).1
    rcases effect.causes born disposing with ⟨begun, same⟩ | ⟨lives, asked | ⟨rfl, empty⟩⟩
    · obtain ⟨-, cause, caused, asked⟩ := granting.asked v ⟨made, waiting⟩ begun
      exact ⟨disposing, cause, same.trans caused, asked⟩
    · exact ⟨disposing, asked⟩
    · exact absurd rfl (spares _ _ _ _ rfl top empty lives v ⟨made, waiting⟩)
  refine ⟨fun v made => ?_, fun v ⟨made, waiting⟩ disposing => ?_⟩
  · rw [world_settle] at made ⊢
    rcases effect.grants with ⟨nextWait, room, -⟩ | ⟨nextWait, waits, room, -⟩
    · rw [show (o.world.waits v).room = _ from room v]
      exact later.alive (granting.alive v (nextWait ▸ made))
    · rename_i r hook clientId seconds wait
      change o.world.nextWait = _ at nextWait
      rw [show o.world.waits = _ from waits]
      by_cases new : v = c.world.nextWait
      · rw [new, Function.update_self, room]
        refine later.alive (ok.resolve_left fun ⟨creates, _⟩ => ?_)
        cases hook with
        | onCreate options => exact absurd rfl ((steady.creates _ _ _ _ top).2 _ _)
        | _ => cases creates
      · rw [Function.update_of_ne new]
        exact later.alive (granting.alive v (by omega))
  · rw [world_settle] at made waiting disposing ⊢
    rcases effect.grants with ⟨nextWait, room, opened⟩ | ⟨nextWait, waits, room, lives⟩
    · exact before (nextWait ▸ made) (opened v waiting) (room v) disposing
    · rename_i r hook clientId seconds wait
      change o.world.nextWait = _ at nextWait
      by_cases new : v = c.world.nextWait
      · rw [show o.world.waits = _ from waits, new, Function.update_self, room] at disposing
        cases lives.symm.trans disposing
      · have old : o.world.waits v = c.world.waits v := by
          rw [show o.world.waits = _ from waits, Function.update_of_ne new]
        exact before (by omega) (old ▸ waiting) (congrArg Wait.room old) disposing

theorem Granting.unwind (granting : Granting c) (kept : Kept c) {tid : Tid} {cmd : Cmd}
    {rest : List Cmd} {x : Exn} {a : Answer} {o : Out}
    (top : c.running = some ⟨tid, cmd :: rest, some x⟩) (h : Unwound c.world cmd x a o) :
    Granting (settle c tid rest o) := by
  have stores := h.stores
  have nextWait : o.world.nextWait = c.world.nextWait := congrArg Stores.nextWait stores
  have waits : o.world.waits = c.world.waits := congrArg Stores.waits stores
  have same : ∀ v < c.world.nextWait, (o.world.rooms (c.world.waits v).room).disposing = true →
      (c.world.rooms (c.world.waits v).room).disposing = true ∧
        (o.world.rooms (c.world.waits v).room).cause = (c.world.rooms (c.world.waits v).room).cause := by
    intro v made disposing
    cases h with
    | passed | handled => exact ⟨disposing, rfl⟩
    | caught _ ledger =>
      have lives := congrArg (fun k : Ledger => k.lives (c.world.waits v).room) ledger
      exact ⟨(congrArg Life.disposing lives).symm.trans disposing, congrArg Life.cause lives⟩
    | @rolledBack r client creator _ _ w' push ledger =>
      have lives := congrArg (fun k : Ledger => k.lives (c.world.waits v).room) ledger
      rcases cause_dispose ((congrArg Life.disposing lives).symm.trans disposing) with
        ⟨before, cause⟩ | ⟨here, before, -⟩
      · exact ⟨before, (congrArg Life.cause lives).trans cause⟩
      · -- a room that was subscribed is not one that is being made
        obtain ⟨-, unmade, -⟩ : c.world.ledger.Unmade r := (kept.stack top).ok _ List.mem_cons_self
        obtain ⟨-, disposing | ⟨sub, -⟩⟩ := granting.alive v made
        · cases before.symm.trans disposing
        · rw [here, unmade] at sub
          cases sub
  refine ⟨fun v made => ?_, fun v ⟨made, waiting⟩ disposing => ?_⟩
  · rw [world_settle] at made ⊢
    rw [nextWait] at made
    rw [waits]
    obtain ⟨born, alive⟩ := granting.alive v made
    refine ⟨by rw [show o.world.ledger.nextRoom = _ from congrArg Stores.nextRoom stores]; exact born, ?_⟩
    refine alive.imp (fun disposing => ?_) fun subs => ?_
    · cases h with
      | passed | handled => exact disposing
      | caught _ ledger =>
        have lives := congrArg (fun k : Ledger => (k.lives (c.world.waits v).room).disposing) ledger
        exact lives.trans disposing
      | rolledBack ledger =>
        have lives := congrArg (fun k : Ledger => (k.lives (c.world.waits v).room).disposing) ledger
        exact lives.trans ((keeps_dispose _ _ _).disposing disposing)
    · have post := h.rooms (c.world.waits v).room
      have game := congrArg Post.gameMessageSub post
      have left := congrArg Post.playerLeftSub post
      exact ⟨(congrArg Option.isSome game).trans subs.1, (congrArg Option.isSome left).trans subs.2⟩
  · rw [world_settle] at made waiting disposing ⊢
    rw [nextWait] at made
    rw [waits] at waiting disposing ⊢
    obtain ⟨before, cause⟩ := same v made disposing
    obtain ⟨-, why, caused, asked⟩ := granting.asked v ⟨made, waiting⟩ before
    exact ⟨disposing, why, cause.trans caused, asked⟩

theorem Granting.step (granting : Granting c) (acc : Accounted J c) (steady : Steady c l)
    (spares : Spares c l) (h : Step (server M J) c l c') : Granting c' := by
  cases h with
  | finish | crash | take => exact ⟨granting.alive, granting.asked⟩
  | exec _ top run => exact granting.exec acc steady spares top run
  | unwind _ top run => exact granting.unwind acc.known.kept top (unwind_effect run)
  | @env e w new _ run =>
    have arrival := spawn_arrival run
    obtain ⟨rooms, -, -, -, nextRoom⟩ := arrival.frame
    have waits : w.waits = c.world.waits ∧ w.nextWait = c.world.nextWait := by
      cases arrival <;> exact ⟨rfl, rfl⟩
    refine ⟨fun v made => ?_, fun v ⟨made, waiting⟩ disposing => ?_⟩
    · dsimp only at made ⊢
      rw [waits.2] at made
      rw [waits.1, Alive, ledger_lives, rooms, show w.ledger.nextRoom = _ from nextRoom]
      exact granting.alive v made
    · dsimp only at made waiting disposing ⊢
      rw [waits.2] at made
      rw [waits.1] at waiting disposing ⊢
      rw [rooms] at disposing
      rw [Asked, rooms]
      exact granting.asked v ⟨made, waiting⟩ disposing

theorem Granting.initial : Granting ServerConfig.initial := ⟨nofun, fun _ waiting => nomatch waiting.1⟩

theorem Granting.run {ls : List (Label Answer EnvEvent)} (lawful : J.Lawful)
    (run : Run (server M J) (fun c l => Steady c l ∧ Spares c l) ServerConfig.initial ls c) :
    Accounted J c ∧ Granting c := by
  induction run with
  | nil => exact ⟨.initial, .initial⟩
  | snoc _ meets last ih =>
    exact ⟨ih.1.step lawful meets.1 last, ih.2.step ih.1 meets.1 meets.2 last⟩

/-- In a run in which no leave ends with the room empty while a call of `allow_reconnection` of the
room is pending (and whose rooms are accounted for), the room of every pending call is open, unless a
hook, its timer or the shutdown disposed of it. -/
theorem window_honoured {ls : List (Label Answer EnvEvent)} (lawful : J.Lawful)
    (run : Run (server M J) (fun c l => Steady c l ∧ Spares c l) ServerConfig.initial ls c) :
    ∀ v, c.world.Waiting v → Joinable J c.world (c.world.waits v).room ∨
      Asked c.world (c.world.waits v).room := by
  obtain ⟨acc, granting⟩ := Granting.run lawful run
  intro v waiting
  have sound := acc.known.kept.sound
  obtain ⟨born, alive⟩ := granting.alive v waiting.1
  rcases acc.rooms _ born with standing | disposing | ⟨t, client, creator, top, mem⟩
  · exact .inl (standing.joinable sound acc.known.filed.registered)
  · exact .inr (granting.asked v waiting disposing)
  · right
    obtain ⟨-, unmade, -⟩ : c.world.ledger.Unmade (c.world.waits v).room :=
      (acc.known.kept.stack top).ok _ mem
    refine granting.asked v waiting (alive.resolve_right fun ⟨sub, _⟩ => ?_)
    rw [unmade] at sub
    cases sub

end

def sparesCheck (c : ServerConfig) : Bool :=
  match c.running with
  | some ⟨_, .disposeIfEmpty r :: _, none⟩ =>
    !(c.world.rooms r).clients.isEmpty || (c.world.rooms r).disposing ||
      (List.range c.world.nextWait).all fun v =>
        (c.world.waits v).promise.isSome || (c.world.waits v).room != r
  | _ => true

theorem sparesCheck_sound {c : ServerConfig} {l : Label Answer EnvEvent} (h : sparesCheck c = true) :
    Spares c l := by
  intro a tid r rest acts top empty lives v waiting here
  rw [sparesCheck, top] at h
  dsimp only at h
  rw [empty, lives] at h
  have each := List.all_eq_true.1 h v (List.mem_range.2 waiting.1)
  simp [waiting.2, here] at each

def carol : SimpleClient := ⟨lit "c", lit "u", [], []⟩

def leavesWaiting : List (Label Answer EnvEvent) :=
  .env (.hangup (lit "s")) :: turn (steps 5 ++ [.allowReconnection (lit "a") 30])

/-- The only member may come back. -/
theorem window_honoured_alone : ∃ ls c, Run (server shortest Text.reference)
    (fun c l => Steady c l ∧ Spares c l) ServerConfig.initial ls c ∧ c.world.Waiting 0 ∧
    Joinable Text.reference c.world 0 := by
  have found : (execute (server shortest Text.reference)
      (fun c l => steadyCheck c l && sparesCheck c) ServerConfig.initial
      (startsUp ++ connects alice ++ joinsRoom (lit "s") ++ leavesWaiting)).any (fun c =>
        (decide (0 < c.world.nextWait) && decide ((c.world.waits 0).promise = none)) &&
        ((c.world.waits 0).room == 0 && !(c.world.rooms 0).disposing)) = true := by
    decide +kernel
  obtain ⟨c, run, finished⟩ := exists_run _ found
  have run' : Run _ (fun c l => Steady c l ∧ Spares c l) _ _ c := run.weaken _ fun checked =>
    have both := Bool.and_eq_true_iff.1 checked
    ⟨steadyCheck_sound both.1, sparesCheck_sound both.2⟩
  obtain ⟨waits, stays⟩ := Bool.and_eq_true_iff.1 finished
  obtain ⟨made, unresolved⟩ := Bool.and_eq_true_iff.1 waits
  obtain ⟨room, lives⟩ := Bool.and_eq_true_iff.1 stays
  have waiting : c.world.Waiting 0 := ⟨of_decide_eq_true made, of_decide_eq_true unresolved⟩
  have ends := window_honoured Text.reference_lawful run' 0 waiting
  rw [beq_iff_eq.1 room] at ends
  refine ⟨_, c, run', waiting, ends.resolve_right fun asked => ?_⟩
  rw [asked.1] at lives
  cases lives

/-- The other member leaves meanwhile, and its leave disposes of the room. -/
theorem window_broken : ¬ ∀ (M : MsgpackC) (J : JsonText) (ls : List (Label Answer EnvEvent))
    (c : ServerConfig), J.Lawful → Run (server M J) Steady ServerConfig.initial ls c →
      ∀ v, c.world.Waiting v → Joinable J c.world (c.world.waits v).room ∨
        Asked c.world (c.world.waits v).room := by
  intro honoured
  have found : (execute (server shortest Text.reference) steadyCheck ServerConfig.initial
      (startsUp ++ connects alice ++ connects carol ++ joinsRoom (lit "s") ++ joinsRoom (lit "u") ++
        leavesWaiting ++ .env (.hangup (lit "u")) :: .take 1 ::
        (steps 5 ++ .ret :: steps 1).map .act)).any (fun c =>
      (decide (0 < c.world.nextWait) && decide ((c.world.waits 0).promise = none)) &&
      ((c.world.waits 0).room == 0 && ((c.world.rooms 0).disposing &&
        decide ((c.world.rooms 0).cause = some .lastLeave)))) = true := by
    decide +kernel
  obtain ⟨c, run, finished⟩ := exists_run _ found
  obtain ⟨waits, stays⟩ := Bool.and_eq_true_iff.1 finished
  obtain ⟨made, unresolved⟩ := Bool.and_eq_true_iff.1 waits
  obtain ⟨room, lives⟩ := Bool.and_eq_true_iff.1 stays
  obtain ⟨disposing, cause⟩ := Bool.and_eq_true_iff.1 lives
  have ends := honoured _ _ _ c Text.reference_lawful (run.weaken _ steadyCheck_sound) 0
    ⟨of_decide_eq_true made, of_decide_eq_true unresolved⟩
  rw [beq_iff_eq.1 room] at ends
  rcases ends with opened | ⟨-, why, caused, asked⟩
  · cases disposing.symm.trans opened.live
  · obtain rfl := Option.some.inj ((of_decide_eq_true cause).symm.trans caused)
    cases asked

end Blueboat
