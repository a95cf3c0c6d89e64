import Blueboat.Provenance
import Blueboat.Registry

set_option autoImplicit false

/-! What a disposal leaves behind, when the hooks that it runs return and when they throw. -/
namespace Blueboat

open Protocol LockMachine Ledger

/-- The room has its listeners, or it is managed. -/
def World.Attached (w : World) (r : RoomRef) : Prop :=
  (w.rooms r).gameMessageSub.isSome ∨ ∃ roomId, w.managingRooms.lookup roomId = some r

/-- Nothing in the stores leads to the room: a record under its id is that of another room. -/
structure Unregistered (w : World) (r : RoomRef) : Prop where
  listeners : ∀ {key l}, l ∈ w.pubsub.listenersOf key →
    l.handler ≠ .gameMessage r ∧ l.handler ≠ .playerLeft r
  timer : ∀ {t}, t ∈ w.tasks → t.callback = .autoDispose r → w.cancelled t.id = true
  unmanaged : ∀ roomId, w.managingRooms.lookup roomId ≠ some r
  record : ∀ {e}, w.storage.entries.lookup (roomKey (w.rooms r).roomId) = some e →
    ∃ r', r' ≠ r ∧ w.managingRooms.lookup (w.rooms r).roomId = some r'

/-- What holds of every configuration that the server can reach, with the texts in storage read back
as they were written. -/
structure Known (J : JsonText) (c : ServerConfig) : Prop where
  kept : Kept c
  arranged : Arranged c
  filed : Filed J c

section
variable {M : MsgpackC} {J : JsonText} {c c' : ServerConfig} {l : Label Answer EnvEvent}

theorem Known.initial : Known J ServerConfig.initial := ⟨.initial, .initial, .initial⟩

theorem Known.step (known : Known J c) (lawful : J.Lawful) (h : Step (server M J) c l c') :
    Known J c' :=
  ⟨known.kept.step h, known.arranged.step h, known.filed.step known.kept lawful h⟩

theorem Known.run {ok : ServerConfig → Label Answer EnvEvent → Prop}
    {ls : List (Label Answer EnvEvent)} (lawful : J.Lawful) (known : Known J c)
    (run : Run (server M J) ok c ls c') : Known J c' :=
  run.invariant _ known fun known _ h => known.step lawful h

theorem Known.unregistered (known : Known J c) {r : RoomRef} (off : ¬ c.world.Attached r) :
    Unregistered c.world r := by
  have sound := known.kept.sound
  have game : (c.world.rooms r).gameMessageSub = none := by
    by_contra some
    exact off (.inl (Option.isSome_iff_ne_none.2 some))
  obtain ⟨left, stopped⟩ := known.filed.paired r game
  refine ⟨fun {key l} hl => ?_, fun {t} mem callback => ?_, fun roomId managed => off (.inr ⟨_, managed⟩),
    fun {e} stored => ?_⟩
  · have owns := (sound.owns hl).1
    refine ⟨fun handles => ?_, fun handles => ?_⟩ <;> rw [Owns, handles] at owns
    · cases game.symm.trans owns.2.2
    · cases left.symm.trans owns.2.2
  · have recorded := sound.task (.inl mem)
    rw [Recorded, callback] at recorded
    exact stopped t.id recorded.2
  · obtain ⟨managed, -⟩ := known.filed.registered _ e stored
    obtain ⟨r', lookup⟩ := Option.isSome_iff_exists.1 managed
    exact ⟨r', fun same => off (.inr ⟨_, same ▸ lookup⟩), lookup⟩

end

section
variable {J : JsonText} {w : World} {cmd : Cmd} {a : Answer} {o : Out}

/-- Only `create_new_room` attaches a room. -/
theorem Effect.attached (h : Effect J w cmd a o) (lawful : J.Lawful)
    (registered : Blueboat.Registered J w.toStores) {r : RoomRef} (born : r < w.nextRoom)
    (other : cmd.makes ≠ some r) (attached : o.world.Attached r) : w.Attached r := by
  rcases attached with game | ⟨roomId, managed⟩
  · left
    have kept : (o.world.rooms r).gameMessageSub = (w.rooms r).gameMessageSub →
        (w.rooms r).gameMessageSub.isSome := fun same => same ▸ game
    rcases h.rewires r with post | ⟨fresh, -⟩ | - | ⟨post, -⟩ | post
    · exact kept (congrArg Post.gameMessageSub post)
    · exact absurd fresh born.ne
    · exact absurd rfl other
    · have none : (o.world.rooms r).gameMessageSub = none := congrArg Post.gameMessageSub post
      rw [none] at game
      cases game
    · exact kept (congrArg Post.gameMessageSub post)
  · right
    refine ⟨roomId, ?_⟩
    rcases h.files lawful registered with ⟨-, managing⟩ | ⟨-, -, managing⟩ | ⟨-, managing⟩
    · rwa [managing] at managed
    · rename_i r' client creator text
      rw [managing] at managed
      by_cases same : roomId = (w.rooms r').roomId
      · subst same
        rw [AList.lookup_insert] at managed
        exact absurd managed other
      · rwa [AList.lookup_insert_ne same] at managed
    · rename_i r'
      rw [managing] at managed
      by_cases same : roomId = (w.rooms r').roomId
      · rw [same, AList.lookup_erase] at managed
        cases managed
      · rwa [AList.lookup_erase_ne same] at managed

/-- A disposal goes on until it has told the server. -/
theorem Effect.carries (h : Effect J w cmd a o) {r : RoomRef} (withdraws : cmd.withdraws = some r) :
    cmd = .onRoomDisposed r ∨ ∃ c ∈ o.push, c.withdraws = some r := by
  cases h with
  | still _ _ _ _ _ keeps => cases keeps.symm.trans withdraws
  | removed calls =>
    cases calls <;> cases withdraws
    exact .inr ⟨_, List.mem_append_right _ List.mem_cons_self, rfl⟩
  | disposed calls => cases calls <;> cases withdraws
  | emptied =>
    cases withdraws
    exact .inr ⟨.finishDispose r, List.mem_cons_of_mem _ List.mem_cons_self, rfl⟩
  | withdrawn =>
    cases withdraws
    exact .inr ⟨.onRoomDisposed r, List.mem_cons_of_mem _ List.mem_cons_self, rfl⟩
  | gone => cases withdraws; exact .inl rfl
  | _ => cases withdraws

theorem Effect.detaches {r : RoomRef} (h : Effect J w (.onRoomDisposed r) a o) (sound : w.ledger.Sound)
    (ok : (Cmd.onRoomDisposed r).Ok w.ledger) : ¬ o.world.Attached r := by
  cases h with
  | still _ _ _ _ _ keeps => cases keeps
  | removed calls => cases calls
  | disposed calls => cases calls
  | @gone _ _ w' ledger =>
    rintro (game | ⟨roomId, managed⟩)
    · have off : (w'.ledger.lives r).gameMessageSub = none := by
        rw [ledger, onRoomDisposed_lives]
        exact ok.2.2.1
      rw [show ((Outcome.go w' []).world.rooms r).gameMessageSub = none from off] at game
      cases game
    · have stores := (congrArg Ledger.toStores ledger).trans (onRoomDisposed_stores w.ledger r)
      have managing : w'.managingRooms = w.managingRooms.erase (w.ledger.lives r).roomId :=
        congrArg Stores.managingRooms stores
      rw [Outcome.world, managing] at managed
      by_cases same : roomId = (w.ledger.lives r).roomId
      · rw [same, AList.lookup_erase] at managed
        cases managed
      · rw [AList.lookup_erase_ne same] at managed
        exact same (sound.managed managed).2.1.symm

theorem Unwound.attached {x : Exn} (h : Unwound w cmd x a o) (r : RoomRef) :
    o.world.Attached r ↔ w.Attached r := by
  have game : (o.world.rooms r).gameMessageSub = (w.rooms r).gameMessageSub :=
    congrArg Post.gameMessageSub (h.rooms r)
  have managing : o.world.managingRooms = w.managingRooms :=
    congrArg Stores.managingRooms h.stores
  rw [World.Attached, World.Attached, game, managing]

theorem Unwound.disposing {x : Exn} (h : Unwound w cmd x a o) {r : RoomRef}
    (disposing : (o.world.rooms r).disposing = true) :
    (w.rooms r).disposing = true ∨ ∃ left, .disposeLoop r left ∈ o.push := by
  cases h with
  | passed | handled => exact .inl disposing
  | caught _ same =>
    have lives := congrArg (fun k : Ledger => (k.lives r).disposing) same
    exact .inl (lives.symm.trans disposing)
  | @rolledBack r' _ _ _ _ w' push ledger starts =>
    have lives := congrArg (fun k : Ledger => (k.lives r).disposing) ledger
    have disposing' : ((w.ledger.dispose r' .rollback).lives r).disposing = true :=
      lives.symm.trans disposing
    cases running : (w.rooms r').disposing with
    | true =>
      rw [show w.ledger.dispose r' .rollback = w.ledger from if_pos running] at disposing'
      exact .inl disposing'
    | false =>
      by_cases e : r = r'
      · subst e
        refine .inr ⟨(w.rooms r).clients.map SimpleClient.sessionId, ?_⟩
        rw [Outcome.push, starts, running]
        exact List.mem_append_left _ List.mem_cons_self
      · rw [show w.ledger.dispose r' .rollback = w.ledger.setLife r' _ from
          if_neg (by simp [running]), setLife_ne _ e] at disposing'
        exact .inl disposing'

end

/-- `on_create` does not return normally for a room that is being disposed of. -/
def CreatesLive (c : ServerConfig) (l : Label Answer EnvEvent) : Prop :=
  ∀ tid r options rest, l = .act .ret →
    c.running = some ⟨tid, .inHook r (.onCreate options) :: rest, none⟩ →
    (c.world.rooms r).disposing = false

/-- An exception that leaves a call of `dispose` leaves that of a room that is not attached. -/
def DisposesThrough (c : ServerConfig) (_ : Label Answer EnvEvent) : Prop :=
  ∀ tid cmd rest x r, c.running = some ⟨tid, cmd :: rest, some x⟩ → cmd.withdraws = some r →
    ¬ c.world.Attached r

/-- A room that is about to be subscribed has not been disposed of. -/
def Fresh (c : ServerConfig) : Prop :=
  ∀ tid r client creator rest, c.running = some ⟨tid, .created r client creator :: rest, none⟩ →
    (c.world.rooms r).disposing = false

def Disposing (c : ServerConfig) (r : RoomRef) : Prop :=
  ∃ t cmd, c.running = some t ∧ cmd ∈ t.stack ∧ cmd.withdraws = some r

/-- A room with the flag set is in its disposal, or nothing leads to it. -/
def Covered (c : ServerConfig) : Prop := ∀ r, (c.world.rooms r).disposing = true →
  r < c.world.nextRoom ∧ (Disposing c r ∨ ¬ c.world.Attached r)

section
variable {M : MsgpackC} {J : JsonText} {c c' : ServerConfig} {l : Label Answer EnvEvent}

theorem Fresh.step (arranged : Arranged c) (meets : CreatesLive c l) (fresh : Fresh c)
    (h : Step (server M J) c l c') : Fresh c' := by
  intro tid r client creator rest top
  rcases arranged.returned h top rfl with ⟨same, e, rfl⟩ | ⟨rfl, world, r', hook, awaits, before⟩
  · have disposing := fresh _ _ _ _ _ (same.trans top)
    cases h with
    | env _ run =>
      rw [(spawn_arrival run).frame.1]
      exact disposing
  · cases awaits
    rw [world]
    exact meets _ _ _ _ rfl before

/-- A room that nothing leads to stays so. -/
theorem Known.stays_off (known : Known J c) (lawful : J.Lawful) (fresh : Fresh c)
    (h : Step (server M J) c l c') {r : RoomRef} (born : r < c.world.nextRoom)
    (disposing : (c.world.rooms r).disposing = true) (off : ¬ c.world.Attached r) :
    ¬ c'.world.Attached r := by
  cases h with
  | finish | crash | take => exact off
  | @exec tid cmd rest a o _ top run =>
    have other : cmd.makes ≠ some r := by
      intro makes
      cases cmd with
      | created =>
        cases makes
        cases (fresh _ _ _ _ _ top).symm.trans disposing
      | _ => cases makes
    rw [world_settle]
    exact fun attached =>
      off ((exec_effect M J run).attached lawful known.filed.registered born other attached)
  | unwind _ top run =>
    rw [world_settle]
    exact fun attached => off (((unwind_effect run).attached r).1 attached)
  | env _ run =>
    obtain ⟨rooms, -, managing, -⟩ := (spawn_arrival run).frame
    rw [World.Attached, rooms, managing]
    exact off

theorem Disposing.exec {tid : Tid} {cmd : Cmd} {rest : List Cmd} {a : Answer} {o : Out}
    (known : Known J c) (top : c.running = some ⟨tid, cmd :: rest, none⟩)
    (run : exec M J c.world cmd a = some o) {r : RoomRef} (running : Disposing c r) :
    cmd = .onRoomDisposed r ∨ Disposing (settle c tid rest o) r := by
  have effect := exec_effect M J run
  have stack := known.kept.stack top
  obtain ⟨t, d, top', mem, withdraws⟩ := running
  cases top.symm.trans top'
  rcases List.mem_cons.1 mem with rfl | mem
  · refine (effect.carries withdraws).imp_right fun ⟨c', pushed, withdraws'⟩ => ?_
    have goes : o.parks = false := by
      cases parks : o.parks with
      | false => rfl
      | true => cases ((effect.parks parks).2 c' pushed).symm.trans withdraws'
    exact ⟨_, c', settle_goes goes, List.mem_append_left _ pushed, withdraws'⟩
  · have goes : o.parks = false := by
      cases parks : o.parks with
      | false => rfl
      | true =>
        have quiet := (List.pairwise_cons.1 stack.order).1 d mem (by rw [withdraws]; nofun)
        exact absurd quiet (effect.parks parks).1
    exact .inr ⟨_, d, settle_goes goes, List.mem_append_right _ mem, withdraws⟩

theorem Covered.step (known : Known J c) (lawful : J.Lawful) (fresh : Fresh c)
    (meets : DisposesThrough c l) (covered : Covered c) (h : Step (server M J) c l c') :
    Covered c' := by
  intro r disposing'
  -- a disposal that begins with this step
  have begins : ∀ {tid : Tid} {stack : List Cmd} {x : Option Exn} {left : List Str},
      c'.running = some ⟨tid, stack, x⟩ → .disposeLoop r left ∈ stack →
      r < c'.world.nextRoom ∧ (Disposing c' r ∨ ¬ c'.world.Attached r) := fun top mem =>
    ⟨(((known.kept.step h).stack top).ok _ mem).1, .inl ⟨_, _, top, mem, rfl⟩⟩
  -- one that has begun before
  have goes_on : (c.world.rooms r).disposing = true → (Disposing c r → Disposing c' r ∨
      ¬ c'.world.Attached r) → r < c'.world.nextRoom ∧ (Disposing c' r ∨ ¬ c'.world.Attached r) := by
    intro disposing next
    obtain ⟨born, now⟩ := covered r disposing
    refine ⟨(known.kept.stays_disposing h born disposing).1, now.elim next fun off => .inr ?_⟩
    exact known.stays_off lawful fresh h born disposing off
  cases h with
  | @finish tid a _ top =>
    refine goes_on disposing' fun ⟨t, cmd, top', mem, _⟩ => ?_
    cases top.symm.trans top'
    cases mem
  | crash => exact goes_on disposing' fun running => .inl running
  | @take i t _ free =>
    refine goes_on disposing' fun ⟨t, cmd, top', _⟩ => ?_
    cases free.symm.trans top'
  | env _ run =>
    rw [(spawn_arrival run).frame.1] at disposing'
    exact goes_on disposing' fun running => .inl running
  | @exec tid cmd rest a o _ top run =>
    rw [world_settle] at disposing'
    have effect := exec_effect M J run
    rcases effect.disposing disposing' with disposing | ⟨left, mem⟩
    · refine goes_on disposing fun running => ?_
      refine (running.exec known top run).elim (fun last => .inr ?_) .inl
      subst last
      rw [world_settle]
      have ok := (known.kept.stack top).ok _ List.mem_cons_self
      exact effect.detaches known.kept.sound ok
    · have goes : o.parks = false := by
        cases parks : o.parks with
        | false => rfl
        | true => cases (effect.parks parks).2 _ mem
      exact begins (settle_goes goes) (List.mem_append_left _ mem)
  | @unwind tid cmd rest x a o _ top run =>
    rw [world_settle] at disposing'
    have effect := unwind_effect run
    have goes : o.parks = false := by cases effect <;> rfl
    rcases effect.disposing disposing' with disposing | ⟨left, mem⟩
    · refine goes_on disposing fun ⟨t, d, top', mem, withdraws⟩ => ?_
      cases top.symm.trans top'
      rcases List.mem_cons.1 mem with rfl | mem
      · right
        rw [world_settle]
        exact fun attached => meets _ _ _ _ _ top withdraws ((effect.attached r).1 attached)
      · exact .inl ⟨_, d, settle_goes goes, List.mem_append_right _ mem, withdraws⟩
    · exact begins (settle_goes goes) (List.mem_append_left _ mem)

/-- A room with the flag set has its disposal under way, or it is fully unregistered. -/
def Clean (c : ServerConfig) : Prop := ∀ r, (c.world.rooms r).disposing = true →
  Disposing c r ∨ Unregistered c.world r

structure Careful (J : JsonText) (c : ServerConfig) : Prop where
  known : Known J c
  fresh : Fresh c

structure LeftBehind (r : RoomRef) (c : ServerConfig) : Prop where
  born : r < c.world.nextRoom
  disposing : (c.world.rooms r).disposing = true
  off : ¬ c.world.Attached r

theorem LeftBehind.step {r : RoomRef} (left : LeftBehind r c) (careful : Careful J c) (lawful : J.Lawful)
    (h : Step (server M J) c l c') : LeftBehind r c' := by
  obtain ⟨born, disposing⟩ := careful.known.kept.stays_disposing h left.born left.disposing
  exact ⟨born, disposing,
    careful.known.stays_off lawful careful.fresh h left.born left.disposing left.off⟩

theorem Careful.initial : Careful J ServerConfig.initial := ⟨.initial, nofun⟩

theorem Careful.step (careful : Careful J c) (lawful : J.Lawful) (meets : CreatesLive c l)
    (h : Step (server M J) c l c') : Careful J c' :=
  ⟨careful.known.step lawful h, Fresh.step careful.known.arranged meets careful.fresh h⟩

/-- No disposal is left half done in a run in which no exception leaves the disposal of a room that is
attached, and no `on_create` returns normally for a room that is being disposed of. -/
theorem disposal_clean {ls : List (Label Answer EnvEvent)} (lawful : J.Lawful)
    (run : Run (server M J) (fun c l => CreatesLive c l ∧ DisposesThrough c l) ServerConfig.initial ls c) :
    Clean c := by
  have careful : Careful J c :=
    run.invariant _ .initial fun careful meets h => careful.step lawful meets.1 h
  have run' := run.strengthen _ Careful.initial fun careful meets h => careful.step lawful meets.1 h
  have start : Covered ServerConfig.initial := nofun
  have covered := run'.invariant _ start fun covered meets h =>
    Covered.step meets.2.known lawful meets.2.fresh meets.1.2 covered h
  exact fun r disposing => (covered r disposing).2.imp_right careful.known.unregistered

end

def disposesThroughCheck (c : ServerConfig) : Bool :=
  match c.running with
  | some ⟨_, cmd :: _, some _⟩ => cmd.withdraws = none
  | _ => true

def createsLiveCheck (c : ServerConfig) : Label Answer EnvEvent → Bool
  | .act .ret =>
    match c.running with
    | some ⟨_, .inHook r (.onCreate _) :: _, none⟩ => !(c.world.rooms r).disposing
    | _ => true
  | _ => true

theorem disposesThroughCheck_sound {c : ServerConfig} {l : Label Answer EnvEvent}
    (h : disposesThroughCheck c = true) : DisposesThrough c l := by
  intro tid cmd rest x r top withdraws
  simp [disposesThroughCheck, top, withdraws] at h

theorem createsLiveCheck_sound {c : ServerConfig} {l : Label Answer EnvEvent}
    (h : createsLiveCheck c l = true) : CreatesLive c l := by
  rintro tid r options rest rfl top
  simpa [createsLiveCheck, top] using h

/-- An administrator's message to the room, and what the room does in `on_external_message`. -/
def asksRoom (answers : List Answer) : List (Label Answer EnvEvent) :=
  .env (.externalMessage (lit "r") (lit "k") .null) :: turn (steps 3 ++ answers)

/-- What a disposal does if its hooks return. -/
def disposes : List Answer := steps 2 ++ .ret :: steps 2 ++ .ret :: steps 1

theorem disposal_clean_asked : ∃ ls c, Run (server shortest Text.reference)
    (fun c l => CreatesLive c l ∧ DisposesThrough c l) ServerConfig.initial ls c ∧
    (c.world.rooms 0).disposing = true ∧ c.running = none ∧ Clean c := by
  have found : (execute (server shortest Text.reference)
      (fun c l => createsLiveCheck c l && disposesThroughCheck c) ServerConfig.initial
      (startsUp ++ asksRoom (.dispose 0 :: disposes ++ .ret :: steps 3))).any
      (fun c => (c.world.rooms 0).disposing && c.running.isNone) = true := by
    decide +kernel
  obtain ⟨c, run, finished⟩ := exists_run _ found
  have run' : Run _ (fun c l => CreatesLive c l ∧ DisposesThrough c l) _ _ c :=
    run.weaken _ fun checked =>
      have both := Bool.and_eq_true_iff.1 checked
      ⟨createsLiveCheck_sound both.1, disposesThroughCheck_sound both.2⟩
  obtain ⟨disposing, free⟩ := Bool.and_eq_true_iff.1 finished
  exact ⟨_, c, run', disposing, Option.isNone_iff_eq_none.1 free,
    disposal_clean Text.reference_lawful run'⟩

/-- `before_dispose` throws, and the request that led to the disposal ends there. -/
theorem disposal_clean_thrown : ¬ ∀ (M : MsgpackC) (J : JsonText) (ls : List (Label Answer EnvEvent))
    (c : ServerConfig), J.Lawful → Run (server M J) (fun _ _ => True) ServerConfig.initial ls c →
      Clean c := by
  intro clean
  have found : (execute (server shortest Text.reference) (fun _ _ => true) ServerConfig.initial
      (startsUp ++ asksRoom (.dispose 0 :: steps 2 ++ .throw (.std []) :: steps 1 ++
        .propagate :: steps 3))).any (fun c => (c.world.rooms 0).disposing && c.running.isNone &&
          c.world.managingRooms.lookup (lit "r") == some 0) = true := by
    decide +kernel
  obtain ⟨c, run, finished⟩ := exists_run _ found
  have run' : Run _ (fun _ _ => True) _ _ c := run.weaken _ fun _ => trivial
  obtain ⟨⟨disposing, free⟩, managed⟩ := (Bool.and_eq_true_iff.1 finished).imp_left Bool.and_eq_true_iff.1
  rcases clean _ _ _ c Text.reference_lawful run' 0 disposing with ⟨t, cmd, top, -⟩ | out
  · rw [top] at free
    cases free
  · exact out.unmanaged _ (beq_iff_eq.1 managed)

section
variable {M : MsgpackC} {J : JsonText} {c c' : ServerConfig} {l : Label Answer EnvEvent}

def Gone (c : ServerConfig) : Prop :=
  ∀ r, (c.world.rooms r).stage = .gone → ¬ c.world.Attached r

theorem Known.ended (known : Known J c) {r : RoomRef} (gone : (c.world.rooms r).stage = .gone) :
    r < c.world.nextRoom ∧ (c.world.rooms r).disposing = true := by
  have sound := known.kept.sound
  refine ⟨?_, sound.ended (.inr gone)⟩
  by_contra unborn
  cases gone.symm.trans (sound.unborn (not_lt.1 unborn)).2.2.2

theorem Gone.step (careful : Careful J c) (lawful : J.Lawful) (off : Gone c)
    (h : Step (server M J) c l c') : Gone c' := by
  intro r gone'
  have stays : (c'.world.rooms r).stage = (c.world.rooms r).stage → ¬ c'.world.Attached r := by
    intro same
    obtain ⟨born, disposing⟩ := careful.known.ended (same.symm.trans gone')
    have left : LeftBehind r c := ⟨born, disposing, off r (same.symm.trans gone')⟩
    exact (left.step careful lawful h).off
  cases h with
  | finish | crash | take => exact stays rfl
  | @exec tid cmd rest a o _ top run =>
    have effect := exec_effect M J run
    rw [world_settle] at gone' stays ⊢
    rcases effect.rewires r with post | ⟨-, post⟩ | ⟨post, same⟩ | ⟨post, -⟩ | -
    · exact stays (congrArg Post.stage post)
    · cases gone'.symm.trans (congrArg Post.stage post)
    · rcases same with same | same
      · exact stays ((congrArg Post.stage post).trans same)
      · cases gone'.symm.trans ((congrArg Post.stage post).trans same)
    · cases gone'.symm.trans (congrArg Post.stage post)
    · exact effect.detaches careful.known.kept.sound
        ((careful.known.kept.stack top).ok _ List.mem_cons_self)
  | unwind _ top run =>
    rw [world_settle] at gone' stays ⊢
    exact stays (congrArg Post.stage ((unwind_effect run).rooms r))
  | env _ run =>
    refine stays ?_
    rw [(spawn_arrival run).frame.1]

/-- Nothing leads any more to a room whose disposal has run to its end before, and a request is not
answered for a room that has been disposed of. -/
structure Forgotten (M : MsgpackC) (J : JsonText) (c₁ c₂ : ServerConfig) : Prop where
  off : ∀ r, (c₁.world.rooms r).stage = .gone → Unregistered c₂.world r
  unanswered : ∀ l c₃ tid r client creator rest, Step (server M J) c₂ l c₃ →
    c₂.running = some ⟨tid, .created r client creator :: rest, none⟩ →
    (c₂.world.rooms r).disposing = true → c₃.world.log = c₂.world.log

/-- A room that has been disposed of stays unregistered in a run in which no `on_create` returns
normally for a room that is being disposed of. -/
theorem disposed_forgotten {c₁ c₂ : ServerConfig} {ls₁ ls₂ : List (Label Answer EnvEvent)}
    (lawful : J.Lawful) (run₁ : Run (server M J) CreatesLive ServerConfig.initial ls₁ c₁)
    (run₂ : Run (server M J) CreatesLive c₁ ls₂ c₂) : Forgotten M J c₁ c₂ := by
  have step : ∀ {c c' l}, Careful J c → CreatesLive c l → Step (server M J) c l c' → Careful J c' :=
    fun careful meets h => careful.step lawful meets h
  have careful₁ := run₁.invariant _ Careful.initial step
  have careful₂ := run₂.invariant _ careful₁ step
  refine ⟨fun r gone => careful₂.known.unregistered ?_, fun l c₃ tid r client creator rest _ top
    disposing => ?_⟩
  · have start : Gone ServerConfig.initial := fun r gone => by cases gone
    have off := (run₁.strengthen _ Careful.initial step).invariant _ start
      fun off meets h => Gone.step meets.2 lawful off h
    obtain ⟨born, disposing⟩ := careful₁.known.ended gone
    have left : LeftBehind r c₁ := ⟨born, disposing, off r gone⟩
    exact ((run₂.strengthen _ careful₁ step).invariant _ left
      fun left meets h => left.step meets.2 lawful h).off
  · cases (careful₂.fresh _ _ _ _ _ top).symm.trans disposing

end

/-- A room is disposed of, and another one is opened under its id. -/
theorem disposed_forgotten_reopened : ∃ ls₁ ls₂ c₁ c₂, Run (server shortest Text.reference) CreatesLive
    ServerConfig.initial ls₁ c₁ ∧ (c₁.world.rooms 0).stage = .gone ∧
    Run (server shortest Text.reference) CreatesLive c₁ ls₂ c₂ ∧
    c₂.world.managingRooms.lookup (lit "r") = some 1 ∧
    Forgotten shortest Text.reference c₁ c₂ := by
  have found : (execute (server shortest Text.reference) createsLiveCheck ServerConfig.initial
      (startsUp ++ asksRoom (.dispose 0 :: disposes ++ .ret :: steps 3))).any (fun c₁ =>
        decide ((c₁.world.rooms 0).stage = .gone) &&
          (execute (server shortest Text.reference) createsLiveCheck c₁
            (opensRoom (lit "r") (.ret :: steps 3))).any fun c₂ =>
              c₂.world.managingRooms.lookup (lit "r") == some 1) = true := by
    decide +kernel
  obtain ⟨c₁, run₁, rest⟩ := exists_run _ found
  obtain ⟨gone, rest⟩ := Bool.and_eq_true_iff.1 rest
  obtain ⟨c₂, run₂, managed⟩ := exists_run _ rest
  have run₁' : Run _ CreatesLive _ _ c₁ := run₁.weaken _ createsLiveCheck_sound
  have run₂' : Run _ CreatesLive _ _ c₂ := run₂.weaken _ createsLiveCheck_sound
  exact ⟨_, _, c₁, c₂, run₁', of_decide_eq_true gone, run₂', beq_iff_eq.1 managed,
    disposed_forgotten Text.reference_lawful run₁' run₂'⟩

/-- `on_create` calls `dispose` and returns. -/
theorem disposed_forgotten_zombie : ¬ ∀ (M : MsgpackC) (J : JsonText)
    (ls₁ ls₂ : List (Label Answer EnvEvent)) (c₁ c₂ : ServerConfig), J.Lawful →
      Run (server M J) (fun _ _ => True) ServerConfig.initial ls₁ c₁ →
      Run (server M J) (fun _ _ => True) c₁ ls₂ c₂ → Forgotten M J c₁ c₂ := by
  intro forgotten
  have found : (execute (server shortest Text.reference) (fun _ _ => true) ServerConfig.initial
      (.env (.registerRoom (lit "t") .null) :: turn (steps 2) ++
        opensRoom (lit "r") (.dispose 0 :: disposes))).any (fun c₁ =>
        decide ((c₁.world.rooms 0).stage = .gone) &&
          (execute (server shortest Text.reference) (fun _ _ => true) c₁
            ((.ret :: steps 3).map .act)).any fun c₂ =>
              c₂.world.managingRooms.lookup (lit "r") == some 0) = true := by
    decide +kernel
  obtain ⟨c₁, run₁, rest⟩ := exists_run _ found
  obtain ⟨gone, rest⟩ := Bool.and_eq_true_iff.1 rest
  obtain ⟨c₂, run₂, managed⟩ := exists_run _ rest
  have out := (forgotten _ _ _ _ c₁ c₂ Text.reference_lawful (run₁.weaken _ fun _ => trivial)
    (run₂.weaken _ fun _ => trivial)).off 0 (of_decide_eq_true gone)
  exact out.unmanaged _ (beq_iff_eq.1 managed)

end Blueboat
