import Blueboat.Metadata

set_option autoImplicit false

/-! Where a room stands: `create_new_room` is making it, it is registered with a record that lasts as
long as its timer, or its disposal has begun. -/
namespace Blueboat

open Protocol LockMachine Ledger

/-! What a step does to the timers. -/

inductive Retimes (w : World) (k' : Stores) : Cmd → Prop where
  | kept {cmd : Cmd} (tasks : k'.tasks = w.tasks) (working : k'.working = w.working)
      (cancelled : k'.cancelled = w.cancelled) (nextTask : k'.nextTask = w.nextTask) : Retimes w k' cmd
  | set {cmd : Cmd} {task : Task} (tasks : k'.tasks = w.tasks ++ [task])
      (working : k'.working = w.working) (cancelled : k'.cancelled = w.cancelled)
      (nextTask : k'.nextTask = w.nextTask + 1)
      (made : ∀ r, cmd.makes = some r → task = ⟨w.nextTask, w.now + autoDisposeAfter, .autoDispose r⟩) :
    Retimes w k' cmd
  | ran {task : Task} (tasks : k'.tasks = w.tasks) (working : k'.working = w.working.erase task)
      (cancelled : k'.cancelled = w.cancelled) (nextTask : k'.nextTask = w.nextTask) :
    Retimes w k' (.timerBody task)
  | cancelled {cmd : Cmd} {i : ℕ} (tasks : k'.tasks = w.tasks) (working : k'.working = w.working)
      (cancelled : k'.cancelled = Function.update w.cancelled i true)
      (nextTask : k'.nextTask = w.nextTask)
      (owner : (∃ r, cmd = .finishDispose r ∧ (w.rooms r).autoDisposeTimer = some i) ∨
        ∃ v < w.nextWait, (w.waits v).timer = i) : Retimes w k' cmd

section
variable {J : JsonText} {w : World} {cmd : Cmd} {a : Answer} {o : Out}

theorem Retimes.finishDispose (w : World) (r : RoomRef) :
    Retimes w (w.ledger.finishDispose r).toStores (.finishDispose r) := by
  unfold Ledger.finishDispose
  simp only [setLife_toStores, ledger_lives]
  cases timer : (w.rooms r).autoDisposeTimer with
  | none =>
    cases (w.rooms r).gameMessageSub <;> cases (w.rooms r).playerLeftSub <;>
      exact .kept rfl rfl rfl rfl
  | some i =>
    cases (w.rooms r).gameMessageSub <;> cases (w.rooms r).playerLeftSub <;>
      exact .cancelled rfl rfl rfl rfl (.inl ⟨r, rfl, timer⟩)

theorem Effect.retimes (h : Effect J w cmd a o) (sound : w.ledger.Sound) :
    Retimes w o.world.toStores cmd := by
  have of : ∀ {k : Stores}, o.world.toStores = k → Retimes w k cmd → Retimes w o.world.toStores cmd :=
    fun same retimes => same ▸ retimes
  have still : ∀ {k : Ledger}, o.world.ledger = k → k.tasks = w.tasks → k.working = w.working →
      k.cancelled = w.cancelled → k.nextTask = w.nextTask → Retimes w o.world.toStores cmd :=
    fun ledger tasks working cancelled nextTask =>
      of (congrArg Ledger.toStores ledger) (.kept tasks working cancelled nextTask)
  cases h with
  | still ledger | emptied ledger | purged ledger | birth _ ledger | stored _ ledger
  | openInfo ledger | closeInfo ledger | removed _ ledger | listened ledger | admitted ledger =>
    exact still ledger rfl rfl rfl rfl
  | disposed _ ledger =>
    have stores := (congrArg Ledger.toStores ledger).trans (dispose_stores w.ledger _ _)
    exact of stores (.kept rfl rfl rfl rfl)
  | @autoDisposed task a r w' push callback ledger =>
    have stores : w'.toStores = { w.toStores with working := w.working.erase task } := by
      refine (congrArg Ledger.toStores ledger).trans ?_
      rw [← started_dispose]
      exact dispose_stores _ _ _
    exact of stores (.ran rfl rfl rfl rfl)
  | @timedOut task a v w' callback ledger =>
    obtain ⟨waits, resolved⟩ := reconnectTimeout_stores (w.ledger.started task) v
    have stores : w'.toStores =
        { w.toStores with working := w.working.erase task, waits := waits } := by
      refine (congrArg Ledger.toStores ledger).trans ?_
      rw [← started_reconnectTimeout]
      exact resolved
    exact of stores (.ran rfl rfl rfl rfl)
  | granted _ ledger =>
    exact of (congrArg Ledger.toStores ledger) (.set rfl rfl rfl rfl nofun)
  | registered _ ledger =>
    exact of (congrArg Ledger.toStores ledger) (.set rfl rfl rfl rfl (by rintro _ ⟨⟩; rfl))
  | unrecorded _ ledger =>
    exact of (congrArg Ledger.toStores ledger) (.set rfl rfl rfl rfl (by rintro _ ⟨⟩; rfl))
  | @rejoined r client id v left a w' listens ledger =>
    obtain ⟨waits, resolved⟩ := rejoined_stores w.ledger v
    have stores : w'.toStores = { w.toStores with
        waits := waits, cancelled := Function.update w.cancelled (w.waits v).timer true } :=
      (congrArg Ledger.toStores ledger).trans resolved
    exact of stores (.cancelled rfl rfl rfl rfl (.inr ⟨v, (sound.listens listens).1, rfl⟩))
  | @withdrawn r _ _ ledger =>
    exact of (congrArg Ledger.toStores ledger) (.finishDispose w r)
  | @gone r _ _ ledger =>
    have stores := (congrArg Ledger.toStores ledger).trans (onRoomDisposed_stores w.ledger r)
    exact of stores (.kept rfl rfl rfl rfl)
  | @ended sessionId _ _ ledger =>
    obtain ⟨sessions, ended⟩ := endOp_stores w.ledger sessionId
    exact of ((congrArg Ledger.toStores ledger).trans ended) (.kept rfl rfl rfl rfl)

end

/-! A registered room and its timer. -/

def halfHour : ℤ := 30 * 60 * 1000

/-- The room has a timer that is not late. -/
structure Watches (w : World) (r : RoomRef) (t : Task) : Prop where
  pending : t ∈ w.tasks ∨ t ∈ w.working
  callback : t.callback = .autoDispose r
  live : w.cancelled t.id = false
  set : t.due ≤ w.now + autoDisposeAfter
  due : w.now ≤ t.due + halfHour

/-- The room is managed and not being disposed of, and its record lasts longer than its timer. -/
structure Standing (w : World) (r : RoomRef) : Prop where
  disposing : (w.rooms r).disposing = false
  stage : (w.rooms r).stage = .registered
  managed : w.managingRooms.lookup (w.rooms r).roomId = some r
  watched : ∃ t e, Watches w r t ∧
    w.storage.entries.lookup (roomKey (w.rooms r).roomId) = some e ∧
    MemoryStorage.expired (t.due + halfHour) e = false

/-- A room that `create_new_room` is making: the only rooms managed under its id are being disposed
of. -/
structure Pristine (w : World) (r : RoomRef) : Prop where
  born : r < w.nextRoom
  disposing : (w.rooms r).disposing = false
  empty : (w.rooms r).clients = []
  stage : (w.rooms r).stage = .creating
  free : ∀ r', w.managingRooms.lookup (w.rooms r).roomId = some r' → (w.rooms r').disposing = true

theorem expired_mono {now now' : ℤ} {e : Entry} (le : now ≤ now')
    (fresh : MemoryStorage.expired now' e = false) : MemoryStorage.expired now e = false := by
  unfold MemoryStorage.expired at fresh ⊢
  split at fresh
  · rfl
  · rename_i at_t
    exact decide_eq_false fun early => of_decide_eq_false fresh (early.trans_le le)

theorem Standing.recorded {w : World} {r : RoomRef} (h : Standing w r) : ∃ e,
    w.storage.entries.lookup (roomKey (w.rooms r).roomId) = some e ∧
      MemoryStorage.expired w.now e = false := by
  obtain ⟨t, e, watches, found, fresh⟩ := h.watched
  exact ⟨e, found, expired_mono watches.due fresh⟩

section
variable {M : MsgpackC} {J : JsonText} {w : World} {cmd : Cmd} {a : Answer} {o : Out} {r : RoomRef}

/-- The timer of a room goes on unless its callback disposes of the room or the disposal cancels it. -/
theorem Retimes.watches {k : Stores} {w' : World} (h : Retimes w k cmd) (same : w'.toStores = k)
    (now : k.now = w.now) (sound : w.ledger.Sound) {t : Task} (watches : Watches w r t)
    (body : cmd ≠ .timerBody t) (finish : cmd ≠ .finishDispose r) : Watches w' r t := by
  have recorded := sound.task watches.pending
  rw [Recorded, watches.callback] at recorded
  subst same
  obtain ⟨pending, callback, live, set, due⟩ := watches
  refine ⟨?_, callback, ?_, by rw [now]; exact set, by rw [now]; exact due⟩
  · rcases h with ⟨tasks, working⟩ | ⟨tasks, working⟩ | ⟨tasks, working⟩ | ⟨tasks, working⟩
    · rwa [tasks, working]
    · rw [tasks, working]
      exact pending.imp_left (List.mem_append_left _)
    · rename_i task _ _
      rw [tasks, working]
      refine pending.imp_right fun mem => (List.mem_erase_of_ne ?_).2 mem
      rintro rfl
      exact body rfl
    · rwa [tasks, working]
  · rcases h with
      ⟨-, -, cancelled⟩ | ⟨-, -, cancelled⟩ | ⟨-, -, cancelled⟩ | ⟨-, -, cancelled, -, owner⟩
    · rwa [cancelled]
    · rwa [cancelled]
    · rwa [cancelled]
    · rename_i i
      rw [cancelled, Function.update_of_ne, live]
      rintro rfl
      rcases owner with ⟨r', rfl, timer⟩ | ⟨v, made, timer⟩
      · obtain rfl := sound.timers recorded.2 timer
        exact finish rfl
      · exact sound.waitTimer made (recorded.2.trans (congrArg some timer.symm))

/-- A record that `set_room_metadata` writes lasts three hours, whichever room it is of. -/
theorem setRoomMetadata_lasts (lawful : J.Lawful) {s s' : MemoryStorage} {now : ℤ}
    {roomId roomId' : Str} {metadata : Json} {e : Entry}
    (set : RoomFetcher.setRoomMetadata J s now roomId metadata = .ok s')
    (found : s.entries.lookup (roomKey roomId') = some e) {t : ℤ}
    (fresh : MemoryStorage.expired t e = false) (le : t ≤ now + MemoryStorage.threeHours) :
    ∃ e', s'.entries.lookup (roomKey roomId') = some e' ∧ MemoryStorage.expired t e' = false := by
  unfold RoomFetcher.setRoomMetadata at set
  cases read : RoomFetcher.findRoomById J s now roomId with
  | error x => rw [read] at set; cases set
  | ok room =>
    rw [read] at set
    obtain ⟨text, rfl, -⟩ := addRoom_ok lawful set
    by_cases same : roomId' = room.id
    · subst same
      exact ⟨_, AList.lookup_insert _, decide_eq_false (not_lt.2 le)⟩
    · refine ⟨e, ?_, fresh⟩
      rw [MemoryStorage.lookup_set_ne fun key => same (roomKey_injective.1 key)]
      exact found

theorem exec_autoDispose {t : Task} (run : exec M J w (.timerBody t) a = some o)
    (callback : t.callback = .autoDispose r) : (o.world.rooms r).disposing = true := by
  obtain rfl := Option.some.inj run
  unfold timerBody
  rw [callback]
  have ledger := (dispose_cases { w with working := w.working.erase t } r .timer).1
  have lives := congrArg (fun k : Ledger => (k.lives r).disposing) ledger
  exact lives.trans (disposing_dispose _ r .timer)

/-- A standing room stands until its disposal begins. -/
theorem exec_standing (run : exec M J w cmd a = some o) (lawful : J.Lawful) (sound : w.ledger.Sound)
    (made : ∀ r', cmd.makes = some r' → Pristine w r')
    (own : ∀ r', cmd.withdraws = some r' → ∀ r'', w.managingRooms.lookup (w.rooms r').roomId = some r'' →
      (w.rooms r'').disposing = true)
    (standing : Standing w r) : Standing o.world r ∨ (o.world.rooms r).disposing = true := by
  refine or_iff_not_imp_right.2 fun lives => ?_
  have effect := exec_effect M J run
  obtain ⟨now, filing⟩ := exec_filing run
  have born := (sound.managed standing.managed).1
  have roomId := effect.roomId born
  have mine : ∀ {r' : RoomRef}, (w.rooms r').roomId = (w.rooms r).roomId →
      ¬ ∀ r'', w.managingRooms.lookup (w.rooms r').roomId = some r'' → (w.rooms r'').disposing = true := by
    intro r' same all
    cases standing.disposing.symm.trans (all r (by rw [same]; exact standing.managed))
  have other : cmd.makes ≠ some r := fun makes => mine rfl (made r makes).free
  have keeps : cmd.withdraws ≠ some r := fun withdraws => mine rfl (own r withdraws)
  refine ⟨Bool.eq_false_iff.2 lives, ?_, ?_, ?_⟩
  · rcases effect.rewires r with post | ⟨fresh, -⟩ | - | - | -
    · exact (congrArg Post.stage post).trans standing.stage
    · exact absurd fresh born.ne
    · exact absurd rfl other
    · exact absurd rfl keeps
    · exact absurd rfl keeps
  · rw [roomId]
    rcases filing with ⟨-, managing⟩ | ⟨-, managing⟩ | ⟨-, managing⟩ | ⟨-, managing⟩ | ⟨-, managing⟩
    · rw [managing]; exact standing.managed
    · rw [managing]; exact standing.managed
    · rw [managing, AList.lookup_insert_ne]
      · exact standing.managed
      · exact fun same => mine same.symm (made _ rfl).free
    · rw [managing]; exact standing.managed
    · rw [managing, AList.lookup_erase_ne]
      · exact standing.managed
      · exact fun same => mine same.symm (own _ rfl)
  · obtain ⟨t, e, watches, found, fresh⟩ := standing.watched
    have watches' : Watches o.world r t := by
      refine (effect.retimes sound).watches rfl now sound watches ?_ ?_
      · rintro rfl
        exact lives (exec_autoDispose run watches.callback)
      · rintro rfl
        exact keeps rfl
    have kept : o.world.storage.entries.lookup (roomKey (w.rooms r).roomId) = some e →
        ∃ t e, Watches o.world r t ∧
          o.world.storage.entries.lookup (roomKey (o.world.rooms r).roomId) = some e ∧
          MemoryStorage.expired (t.due + halfHour) e = false := fun found' =>
      ⟨t, e, watches', by rw [roomId]; exact found', fresh⟩
    rcases filing with ⟨records, -⟩ | ⟨set, -⟩ | ⟨added, -⟩ | ⟨storage, -⟩ | ⟨storage, -⟩
    · exact kept (records _ e found (expired_mono watches.due fresh))
    · have le : t.due + halfHour ≤ w.now + MemoryStorage.threeHours := by
        have lasts : autoDisposeAfter + halfHour = MemoryStorage.threeHours := by decide
        have set := watches.set
        omega
      obtain ⟨e', found', fresh'⟩ := setRoomMetadata_lasts lawful set found fresh le
      exact ⟨t, e', watches', by rw [roomId]; exact found', fresh'⟩
    · refine kept ((addRoom_other lawful added ?_).trans found)
      exact fun same => mine same.symm (made _ rfl).free
    · refine kept ?_
      rw [storage, MemoryStorage.lookup_remove_ne, found]
      exact fun key => mine (roomKey_injective.1 key).symm (own _ rfl)
    · exact kept (by rw [storage]; exact found)

/-- A room whose strings can be written stands once `create_new_room` is done with it. -/
theorem exec_created {client : SimpleClient} {creator : Creator} (lawful : J.Lawful)
    (run : exec M J w (.created r client creator) a = some o) (utf8 : snapshotUtf8 w r client = true)
    (lives : (w.rooms r).disposing = false) (fresh : w.cancelled w.nextTask = false) :
    Standing o.world r := by
  obtain ⟨storage, added⟩ := addRoom_valid lawful w.storage w.now utf8
  have snapshot : snapshotOf (subscribeRoom w r) r client = snapshotOf w r client := by
    simp [snapshotOf, subscribeRoom, World.setRoom]
  have ledger : o.world.ledger = (w.ledger.subscribeRoom r).registerNewRoom r storage := by
    obtain rfl := Option.some.inj run
    unfold created
    simp only [snapshot]
    have added' : RoomFetcher.addRoom J (subscribeRoom w r).storage (subscribeRoom w r).now
        (snapshotOf w r client) = .ok storage := added
    simp only [added']
    simp
  have life : (o.world.rooms r).toLife = { (w.rooms r).toLife with
      autoDisposeTimer := some w.nextTask
      gameMessageSub := some w.nextListener
      playerLeftSub := some (w.nextListener + 1)
      stage := .registered } := by
    have lives := congrArg (fun k : Ledger => k.lives r) ledger
    refine lives.trans ?_
    rw [registerNewRoom_self, subscribeRoom_self]
    rfl
  have roomId : (o.world.rooms r).roomId = (w.rooms r).roomId :=
    (congrArg Life.roomId life).trans rfl
  have stores := congrArg Ledger.toStores ledger
  have managing := congrArg Stores.managingRooms stores
  have same : ((w.ledger.subscribeRoom r).lives r).roomId = (w.rooms r).roomId := by
    rw [subscribeRoom_self]
    rfl
  refine ⟨(congrArg Life.disposing life).trans lives, congrArg Life.stage life, ?_, ?_⟩
  · change o.world.managingRooms = w.managingRooms.insert ((w.ledger.subscribeRoom r).lives r).roomId r
      at managing
    rw [managing, roomId, same]
    exact AList.lookup_insert _
  · obtain ⟨text, rfl, -⟩ := addRoom_ok lawful added
    have tasks : o.world.tasks = w.tasks ++ [⟨w.nextTask, w.now + autoDisposeAfter, .autoDispose r⟩] :=
      congrArg Stores.tasks stores
    have cancelled : o.world.cancelled = w.cancelled := (congrArg Stores.cancelled stores).trans rfl
    have now : o.world.now = w.now := (congrArg Stores.now stores).trans rfl
    have stored := congrArg Stores.storage stores
    refine ⟨⟨w.nextTask, w.now + autoDisposeAfter, .autoDispose r⟩,
      ⟨text, some (w.now + MemoryStorage.threeHours)⟩, ⟨.inl ?_, rfl, ?_, ?_, ?_⟩, ?_, ?_⟩
    · rw [tasks]
      exact List.mem_append_right _ List.mem_cons_self
    · rw [cancelled]
      exact fresh
    · exact (congrArg (· + autoDisposeAfter) now).ge
    · rw [now]
      change w.now ≤ w.now + autoDisposeAfter + halfHour
      unfold autoDisposeAfter halfHour
      omega
    · rw [roomId]
      refine (congrArg (fun s : MemoryStorage => s.entries.lookup _) stored).trans ?_
      exact AList.lookup_insert _
    · refine decide_eq_false ?_
      change ¬ w.now + MemoryStorage.threeHours < w.now + autoDisposeAfter + halfHour
      unfold autoDisposeAfter halfHour MemoryStorage.threeHours
      omega

end

/-! The room that is being made. -/

def Cmd.opens : Cmd → Option RoomRef
  | .callHook r (.onCreate _) => some r
  | .inHook r (.onCreate _) => some r
  | .created r _ _ => some r
  | _ => none

def Alone (above below : Cmd) : Prop :=
  ∀ r, below.opens = some r → above.opens = some r ∧ above.makes = none

/-- `on_create` neither disposes of a room nor lets other threads run, what it leads to can be written
to storage, and no room outlives its timer by half an hour. -/
structure Steady (c : ServerConfig) (l : Label Answer EnvEvent) : Prop where
  creates : ∀ tid r options rest, c.running = some ⟨tid, .inHook r (.onCreate options) :: rest, none⟩ →
    (∀ r', l ≠ .act (.dispose r')) ∧
      ∀ clientId seconds, l ≠ .act (.allowReconnection clientId seconds)
  utf8 : ∀ tid r client creator rest,
    c.running = some ⟨tid, .created r client creator :: rest, none⟩ → snapshotUtf8 c.world r client = true
  punctual : ∀ ms, l = .env (.tick ms) → ∀ t r, t ∈ c.world.tasks ∨ t ∈ c.world.working →
    t.callback = .autoDispose r → c.world.cancelled t.id = false → c.world.now + ms ≤ t.due + halfHour

section
variable {M : MsgpackC} {J : JsonText} {w w' : World} {cmd : Cmd} {a : Answer} {o : Out} {r : RoomRef}

theorem Pristine.of {k : Ledger} (h : Pristine w r) (ledger : w'.ledger = k)
    (nextRoom : k.nextRoom = w.nextRoom) (managing : k.managingRooms = w.managingRooms)
    (roomId : ∀ r', (k.lives r').roomId = (w.rooms r').roomId)
    (clients : ∀ r', (k.lives r').clients = (w.rooms r').clients)
    (disposing : ∀ r', (k.lives r').disposing = (w.rooms r').disposing)
    (stage : ∀ r', (k.lives r').stage = (w.rooms r').stage) : Pristine w' r := by
  subst ledger
  refine ⟨nextRoom ▸ h.born, (disposing r).trans h.disposing, (clients r).trans h.empty,
    (stage r).trans h.stage, fun r' managed => ?_⟩
  have managed' : w.managingRooms.lookup (w.rooms r).roomId = some r' := by
    rw [← managing, ← roomId r]
    exact managed
  exact (disposing r').trans (h.free r' managed')

theorem Pristine.same (h : Pristine w r) (ledger : w'.ledger = w.ledger) : Pristine w' r :=
  h.of ledger rfl rfl (fun _ => rfl) (fun _ => rfl) (fun _ => rfl) (fun _ => rfl)

/-- `on_create` leaves the room as it was, and nothing else begins while it runs. -/
theorem exec_opens (run : exec M J w cmd a = some o) (opens : cmd.opens = some r)
    (makes : cmd.makes = none) (pristine : Pristine w r)
    (quiet : ∀ options, cmd = .inHook r (.onCreate options) →
      (∀ r', a ≠ .dispose r') ∧ ∀ clientId seconds, a ≠ .allowReconnection clientId seconds) :
    o.parks = false ∧ Pristine o.world r ∧
      ∀ c ∈ o.push, c.opens = some r ∧ c.makes = none ∧ c.withdraws = none := by
  cases cmd with
  | created => cases makes
  | callHook r' hook =>
    cases hook with
    | onCreate options =>
      cases opens
      obtain rfl := Option.some.inj run
      exact ⟨rfl, pristine.same (ledger_touch w r), List.forall_mem_singleton.2 ⟨rfl, rfl, rfl⟩⟩
    | _ => cases opens
  | inHook r' hook =>
    cases hook with
    | onCreate options =>
      cases opens
      obtain ⟨live, held⟩ := quiet options rfl
      have stays : ∀ c ∈ [Cmd.inHook r (.onCreate options)],
          c.opens = some r ∧ c.makes = none ∧ c.withdraws = none :=
        List.forall_mem_singleton.2 ⟨rfl, rfl, rfl⟩
      cases exec_effect M J run with
      | still same children _ _ parks =>
        refine ⟨Bool.eq_false_iff.2 fun parked => ?_, pristine.same same, fun c mem => ?_⟩
        · cases parks parked
        · cases children c mem
          exact ⟨rfl, rfl, rfl⟩
      | removed calls ledger leaves =>
        cases calls
        have absent : ∀ s, (w.rooms r).toLife.member s = none := fun s => by
          rw [Life.member, pristine.empty]
          rfl
        obtain ⟨-, rfl⟩ := leaves.resolve_right (by
          rintro ⟨_, _, found, -⟩
          cases (absent _).symm.trans found)
        have kept := fun s => keeps_eraseMember w.ledger r s
        refine ⟨rfl, pristine.of ledger rfl rfl (kept _).roomId (fun r' => ?_)
          (setLife_field (k := w.ledger) Life.disposing (by rfl)) (kept _).stage, stays⟩
        refine setLife_field (k := w.ledger) Life.clients ?_ r'
        change List.eraseP _ (w.rooms r).clients = (w.rooms r).clients
        rw [pristine.empty]
        rfl
      | disposed calls =>
        cases calls
        exact absurd rfl (live _)
      | granted => exact absurd rfl (held _ _)
      | stored _ ledger =>
        exact ⟨rfl, pristine.of ledger rfl rfl (fun _ => rfl) (fun _ => rfl) (fun _ => rfl)
          (fun _ => rfl), stays⟩
      | listened ledger =>
        have story := fun id => sameStory_listen w.ledger r id .app
        have kept := fun id => keeps_listen_app w.ledger r id
        exact ⟨rfl, pristine.of ledger rfl rfl (kept _).roomId (story _).clients (story _).disposing
          (kept _).stage, stays⟩
    | _ => cases opens
  | _ => cases opens

/-- Only `create_new_room` begins to make a room. -/
theorem Pushed.opens {c : Cmd} (h : Pushed w cmd a c) (opens : c.opens = some r) :
    (cmd.opens = some r ∧ cmd.makes = none) ∨
      ∃ client name options override creator,
        cmd = .createNewRoom client name options override creator := by
  cases h with
  | child child =>
    cases child with
    | @enter _ hook => cases hook <;> exact .inl ⟨opens, rfl⟩
    | stay => exact .inl ⟨opens, by rfl⟩
    | @message' _ _ _ hook runs =>
      cases hook with
      | onCreate => cases runs
      | _ => cases opens
    | _ => cases opens
  | leave _ mem =>
    simp only [leaveOf, List.mem_cons, List.not_mem_nil, or_false] at mem
    rcases mem with rfl | rfl | rfl <;> cases opens
  | onCreate | created => exact .inr ⟨_, _, _, _, _, rfl⟩
  | _ => cases opens

/-- A disposal that is on the stack after a step was on it before, or it begins with the step. -/
theorem Effect.begins (h : Effect J w cmd a o) (sound : w.ledger.Sound) (ok : cmd.Ok w.ledger) {c : Cmd}
    (mem : c ∈ o.push) (withdraws : c.withdraws = some r) : cmd.makes = none ∧
      (cmd.withdraws = some r ∨ (r < w.nextRoom ∧ (w.rooms r).disposing = false ∧
        (o.world.rooms r).disposing = true)) := by
  have started : ∀ {r' : RoomRef} {push : List Cmd} {members : List Str},
      push = (if (w.rooms r').disposing then [] else [.disposeLoop r' members]) → c ∈ push →
      r' = r ∧ (w.rooms r').disposing = false := by
    intro r' push members starts mem
    refine ⟨?_, ?_⟩
    · obtain rfl := mem_disposal starts mem
      exact Option.some.inj withdraws
    · cases running : (w.rooms r').disposing with
      | false => rfl
      | true =>
        rw [starts, running] at mem
        cases mem
  cases h with
  | still _ children => cases (children c mem).withdraws.symm.trans withdraws
  | removed calls _ leaves =>
    rcases List.mem_append.1 mem with mem | mem
    · rcases leaves with ⟨-, rfl⟩ | ⟨client, listeners, -, rfl⟩
      · cases mem
      · cases (leaveOf_family c mem).2.symm.trans withdraws
    · cases calls <;> obtain rfl := List.mem_singleton.1 mem
      · cases withdraws
      · cases withdraws
      · exact ⟨rfl, .inl withdraws⟩
  | @disposed _ _ r' cause left w' push calls ledger starts =>
    have makes : cmd.makes = none := by cases calls <;> rfl
    refine ⟨makes, .inr ?_⟩
    rcases List.mem_append.1 mem with mem | mem
    · obtain ⟨rfl, lives⟩ := started starts mem
      have after := congrArg (fun k : Ledger => (k.lives r').disposing) ledger
      exact ⟨calls.born sound ok, lives, after.trans (disposing_dispose _ r' cause)⟩
    · cases calls with
      | hook => rw [List.mem_singleton.1 mem] at withdraws; cases withdraws
      | shutdown => rw [List.mem_singleton.1 mem] at withdraws; cases withdraws
      | lastLeave => cases mem
  | @autoDisposed task _ r' w' _ callback ledger starts =>
    obtain ⟨rfl, lives⟩ := started starts mem
    have recorded : w.ledger.Recorded task := ok
    rw [Recorded, callback] at recorded
    have after := congrArg (fun k : Ledger => (k.lives r').disposing) ledger
    exact ⟨rfl, .inr ⟨recorded.1.1, lives, after.trans (disposing_dispose _ r' .timer)⟩⟩
  | emptied | withdrawn =>
    rcases List.mem_pair.1 mem with rfl | rfl
    · cases withdraws
    · exact ⟨rfl, .inl withdraws⟩
  | birth | granted | admitted =>
    rcases List.mem_pair.1 mem with rfl | rfl <;> cases withdraws
  | openInfo =>
    rcases List.mem_cons.1 mem with rfl | mem
    · cases withdraws
    · rcases List.mem_pair.1 mem with rfl | rfl <;> cases withdraws
  | stored | listened | rejoined => rw [List.mem_singleton.1 mem] at withdraws; cases withdraws
  | gone | ended | timedOut | closeInfo | unrecorded | registered | purged => cases mem

end

structure Holding (w : World) (stack : List Cmd) : Prop where
  pristine : ∀ cmd ∈ stack, ∀ r, cmd.opens = some r → Pristine w r
  alone : stack.Pairwise Alone
  own : ∀ cmd ∈ stack, ∀ r, cmd.withdraws = some r → ∀ r',
    w.managingRooms.lookup (w.rooms r).roomId = some r' → (w.rooms r').disposing = true

structure Accounted (J : JsonText) (c : ServerConfig) : Prop where
  known : Known J c
  rooms : ∀ r < c.world.nextRoom, Standing c.world r ∨ (c.world.rooms r).disposing = true ∨
    ∃ t client creator, c.running = some t ∧ .created r client creator ∈ t.stack
  holding : ∀ t, c.running = some t → Holding c.world t.stack
  parked : ∀ t ∈ c.parked, ∀ cmd ∈ t.stack, cmd.opens = none
  unset : ∀ i, c.world.cancelled i = true → i < c.world.nextTask

theorem Cmd.Ok.withdraws {k : Ledger} {cmd : Cmd} {r : RoomRef} (ok : cmd.Ok k)
    (withdraws : cmd.withdraws = some r) : r < k.nextRoom := by
  cases cmd with
  | disposeLoop | finishDispose | onRoomDisposed => cases withdraws; exact ok.1
  | _ => cases withdraws

section
variable {M : MsgpackC} {J : JsonText} {c c' : ServerConfig} {l : Label Answer EnvEvent} {tid : Tid}
  {cmd : Cmd} {rest : List Cmd} {a : Answer} {o : Out}

/-- The id that `create_new_room` chooses is not that of a room in use. -/
theorem Accounted.chosen (acc : Accounted J c) {e : Option Exn}
    (top : c.running = some ⟨tid, cmd :: rest, e⟩) (outside : cmd.opens = none) {override roomId : Str}
    {candidates : List (Except Exn Str)} (chosen : newRoomId
      (RoomFetcher.getListOfRooms c.world.storage c.world.now) override candidates = .ok roomId)
    {r : RoomRef} (managed : c.world.managingRooms.lookup roomId = some r) :
    (c.world.rooms r).disposing = true := by
  obtain ⟨born, named, -⟩ := acc.known.kept.sound.managed managed
  rcases acc.rooms r born with standing | disposing | ⟨t, client, creator, top', mem⟩
  · obtain ⟨e, found, fresh⟩ := standing.recorded
    rw [show (c.world.rooms r).roomId = roomId from named] at found
    refine absurd (MemoryStorage.mem_fetchKeys.2 ⟨e.value, ?_⟩) (newRoomId_fresh chosen)
    exact MemoryStorage.get_eq_some.2 ⟨e, found, fresh, rfl⟩
  · exact disposing
  · cases top.symm.trans top'
    rcases List.mem_cons.1 mem with rfl | mem
    · cases outside
    · have above := (List.pairwise_cons.1 (acc.holding _ top).alone).1 _ mem r rfl
      cases outside.symm.trans above.1

theorem Accounted.exec_own (acc : Accounted J c) (top : c.running = some ⟨tid, cmd :: rest, none⟩)
    (run : exec M J c.world cmd a = some o) : ∀ d ∈ o.push ++ rest, ∀ r, d.withdraws = some r → ∀ r',
      o.world.managingRooms.lookup (o.world.rooms r).roomId = some r' →
      (o.world.rooms r').disposing = true := by
  have effect := exec_effect M J run
  have sound := acc.known.kept.sound
  have stack := acc.known.kept.stack top
  have later := (effect.sound sound (stack.ok _ List.mem_cons_self)).2
  -- the rooms under the id were managed before
  have before : ∀ {r r' : RoomRef}, r < c.world.nextRoom → cmd.makes = none →
      o.world.managingRooms.lookup (o.world.rooms r).roomId = some r' →
      c.world.managingRooms.lookup (c.world.rooms r).roomId = some r' := by
    intro r r' born makes managed
    rw [effect.roomId born] at managed
    exact (effect.managing managed).resolve_right fun made => by cases makes.symm.trans made
  have stays : ∀ {r r' : RoomRef}, c.world.managingRooms.lookup (c.world.rooms r).roomId = some r' →
      (c.world.rooms r').disposing = true → (o.world.rooms r').disposing = true :=
    fun managed disposing => later.disposing (sound.managed managed).1 disposing
  have kept : ∀ {d : Cmd} {r r' : RoomRef}, d ∈ cmd :: rest → d.withdraws = some r →
      cmd.makes = none → o.world.managingRooms.lookup (o.world.rooms r).roomId = some r' →
      (o.world.rooms r').disposing = true := by
    intro d r r' mem withdraws makes managed
    have managed₀ := before ((stack.ok _ mem).withdraws withdraws) makes managed
    exact stays managed₀ ((acc.holding _ top).own _ mem r withdraws r' managed₀)
  intro d mem r withdraws r' managed
  rcases List.mem_append.1 mem with mem | mem
  · obtain ⟨makes, goes | ⟨born, lives, begun⟩⟩ :=
      effect.begins sound (stack.ok _ List.mem_cons_self) mem withdraws
    · exact kept List.mem_cons_self goes makes managed
    · have managed₀ := before born makes managed
      rcases acc.rooms r born with standing | disposing | ⟨t, client, creator, top', mem'⟩
      · obtain rfl := Option.some.inj (standing.managed.symm.trans managed₀)
        exact begun
      · cases lives.symm.trans disposing
      · exact stays managed₀ (((acc.holding _ top').pristine _ mem' r rfl).free r' managed₀)
  · have quiet := (List.pairwise_cons.1 stack.order).1 _ mem (by rw [withdraws]; nofun)
    have makes : cmd.makes = none := by
      by_contra made
      obtain ⟨r', family, -⟩ := quiet
      cases (Cmd.family_of_makes made).symm.trans family
    exact kept (List.mem_cons_of_mem _ mem) withdraws makes managed

/-- Only the call of `on_create` runs above what makes a room. -/
theorem Accounted.inner (acc : Accounted J c) (meets : Steady c (.act a))
    (top : c.running = some ⟨tid, cmd :: rest, none⟩) (run : exec M J c.world cmd a = some o)
    {r : RoomRef} (opens : cmd.opens = some r) (makes : cmd.makes = none) :
    o.parks = false ∧ Pristine o.world r ∧
      ∀ d ∈ o.push, d.opens = some r ∧ d.makes = none ∧ d.withdraws = none := by
  refine exec_opens run opens makes ((acc.holding _ top).pristine _ List.mem_cons_self r opens) ?_
  rintro options rfl
  obtain ⟨live, held⟩ := meets.creates _ _ _ _ top
  exact ⟨fun r' same => live r' (congrArg _ same),
    fun clientId seconds same => held clientId seconds (congrArg _ same)⟩

/-- What `create_new_room` leaves to do when it begins to make a room. -/
theorem Accounted.birth (acc : Accounted J c) {client : SimpleClient} {name override : Str}
    {options : Json} {creator : Creator}
    (top : c.running = some ⟨tid, .createNewRoom client name options override creator :: rest, none⟩)
    (run : exec M J c.world (.createNewRoom client name options override creator) a = some o) :
    (o.push = [] ∧ o.world.nextRoom = c.world.nextRoom) ∨
      ∃ init, o.parks = false ∧ o.world.nextRoom = c.world.nextRoom + 1 ∧
        Pristine o.world c.world.nextRoom ∧ o.push = [.callHook c.world.nextRoom (.onCreate init),
          .created c.world.nextRoom client creator] := by
  cases exec_effect M J run with
  | still ledger children =>
    have nextRoom := congrArg (fun k : Ledger => k.nextRoom) ledger
    exact .inl ⟨List.eq_nil_iff_forall_not_mem.2 fun d mem => (nomatch children d mem), nextRoom⟩
  | purged ledger =>
    have nextRoom := congrArg (fun k : Ledger => k.nextRoom) ledger
    exact .inl ⟨rfl, nextRoom⟩
  | removed calls => cases calls
  | disposed calls => cases calls
  | @birth _ _ _ roomId _ _ _ _ _ _ w' init chosen ledger =>
    have lives : ∀ r, (w'.rooms r).toLife = (c.world.ledger.birth roomId).lives r :=
      congrFun (congrArg Ledger.lives ledger)
    have self : (w'.rooms c.world.nextRoom).toLife = .born roomId :=
      (lives _).trans (birth_self c.world.ledger roomId)
    have managing : w'.managingRooms = c.world.managingRooms :=
      (congrArg (fun k : Ledger => k.managingRooms) ledger).trans rfl
    have nextRoom : w'.nextRoom = c.world.nextRoom + 1 :=
      (congrArg (fun k : Ledger => k.nextRoom) ledger).trans rfl
    have roomId' : (w'.rooms c.world.nextRoom).roomId = roomId := congrArg Life.roomId self
    refine .inr ⟨init, rfl, nextRoom, ⟨by rw [Outcome.world_go, nextRoom]; exact Nat.lt_succ_self _,
      congrArg Life.disposing self, congrArg Life.clients self, congrArg Life.stage self,
      fun r managed => ?_⟩, rfl⟩
    rw [Outcome.world_go, managing, roomId'] at managed
    have old : r ≠ c.world.nextRoom := (acc.known.kept.sound.managed managed).1.ne
    have same := (lives r).trans (birth_ne c.world.ledger roomId old)
    exact (congrArg Life.disposing same).trans (acc.chosen top rfl chosen managed)

theorem Accounted.exec_holding (acc : Accounted J c) (meets : Steady c (.act a))
    (top : c.running = some ⟨tid, cmd :: rest, none⟩) (run : exec M J c.world cmd a = some o) :
    Holding o.world (o.push ++ rest) ∧
      (o.parks = true → ∀ d ∈ o.push ++ rest, d.opens = none) := by
  have own := acc.exec_own top run
  obtain ⟨above, alone⟩ := List.pairwise_cons.1 (acc.holding _ top).alone
  have effect := exec_effect M J run
  have pushed : ∀ d ∈ o.push, ∀ r, d.opens = some r → (cmd.opens = some r ∧ cmd.makes = none) ∨
      ∃ client name options override creator,
        cmd = .createNewRoom client name options override creator :=
    fun d mem r opens => (effect.pushed mem).opens opens
  by_cases inner : ∃ r, cmd.opens = some r ∧ cmd.makes = none
  · obtain ⟨r, opens, makes⟩ := inner
    obtain ⟨goes, pristine, stays⟩ := acc.inner meets top run opens makes
    have only : ∀ d ∈ o.push ++ rest, ∀ r', d.opens = some r' → r' = r := by
      intro d mem r' opens'
      rcases List.mem_append.1 mem with mem | mem
      · exact Option.some.inj (opens'.symm.trans (stays d mem).1)
      · exact Option.some.inj ((above d mem r' opens').1.symm.trans opens)
    have below : ∀ d ∈ o.push, ∀ b ∈ o.push ++ rest, Alone d b := by
      intro d mem b mem' r' opens'
      obtain rfl := only b mem' r' opens'
      exact ⟨(stays d mem).1, (stays d mem).2.1⟩
    refine ⟨⟨fun d mem r' opens' => only d mem r' opens' ▸ pristine, ?_, own⟩, fun parks => ?_⟩
    · refine List.pairwise_append.2 ⟨?_, alone, fun d mem b mem' =>
        below d mem b (List.mem_append_right _ mem')⟩
      exact List.pairwise_of_forall_mem_list fun d mem b mem' =>
        below d mem b (List.mem_append_left _ mem')
    · cases goes.symm.trans parks
  · have quiet : ∀ b ∈ rest, b.opens = none := by
      intro b mem
      by_contra some
      obtain ⟨r, opens⟩ := Option.ne_none_iff_exists'.1 some
      exact inner ⟨r, above b mem r opens⟩
    by_cases creates : ∃ client name options override creator,
        cmd = .createNewRoom client name options override creator
    · obtain ⟨client, name, options, override, creator, rfl⟩ := creates
      rcases acc.birth top run with ⟨empty, -⟩ | ⟨init, goes, -, pristine, push⟩
      · rw [empty] at own ⊢
        exact ⟨⟨fun b mem r opens => (nomatch (quiet b mem).symm.trans opens), alone, own⟩,
          fun _ => quiet⟩
      · rw [push] at own ⊢
        refine ⟨⟨fun b mem r opens => ?_, ?_, own⟩, fun parks => by cases goes.symm.trans parks⟩
        · rcases List.mem_cons.1 mem with rfl | mem
          · cases opens; exact pristine
          · rcases List.mem_cons.1 mem with rfl | mem
            · cases opens; exact pristine
            · cases (quiet b mem).symm.trans opens
        · refine List.pairwise_append.2 ⟨List.pairwise_pair.2 ?_, alone, fun d mem b mem' r opens => ?_⟩
          · rintro r ⟨⟩
            exact ⟨rfl, rfl⟩
          · cases (quiet b mem').symm.trans opens
    · have none : ∀ d ∈ o.push ++ rest, d.opens = none := by
        intro d mem
        rcases List.mem_append.1 mem with mem | mem
        · by_contra some
          obtain ⟨r, opens⟩ := Option.ne_none_iff_exists'.1 some
          exact (pushed d mem r opens).elim (fun made => inner ⟨r, made⟩) creates
        · exact quiet d mem
      have nothing : ∀ d ∈ o.push, ∀ b ∈ o.push ++ rest, Alone d b :=
        fun d _ b mem r opens => (nomatch (none b mem).symm.trans opens)
      refine ⟨⟨fun d mem r opens => (nomatch (none d mem).symm.trans opens), ?_, own⟩, fun _ => none⟩
      refine List.pairwise_append.2 ⟨?_, alone, fun d mem b mem' =>
        nothing d mem b (List.mem_append_right _ mem')⟩
      exact List.pairwise_of_forall_mem_list fun d mem b mem' =>
        nothing d mem b (List.mem_append_left _ mem')

theorem Accounted.exec_rooms (acc : Accounted J c) (lawful : J.Lawful) (meets : Steady c (.act a))
    (top : c.running = some ⟨tid, cmd :: rest, none⟩) (run : exec M J c.world cmd a = some o) :
    ∀ r < o.world.nextRoom, Standing o.world r ∨ (o.world.rooms r).disposing = true ∨
      ∃ t client creator, (settle c tid rest o).running = some t ∧
        .created r client creator ∈ t.stack := by
  intro r born
  have holding := acc.holding _ top
  have sound := acc.known.kept.sound
  have stack := acc.known.kept.stack top
  by_cases old : r < c.world.nextRoom
  · rcases acc.rooms r old with standing | disposing | ⟨t, client, creator, top', mem⟩
    · refine (exec_standing run lawful sound (fun r' makes => ?_)
        (holding.own _ List.mem_cons_self) standing).imp_right .inl
      refine holding.pristine _ List.mem_cons_self r' ?_
      cases cmd <;> first | exact makes | cases makes
    · have later := ((exec_effect M J run).sound sound (stack.ok _ List.mem_cons_self)).2
      exact .inr (.inl (later.disposing old disposing))
    · cases top.symm.trans top'
      rcases List.mem_cons.1 mem with rfl | mem
      · have pristine := holding.pristine _ List.mem_cons_self r rfl
        have fresh : c.world.cancelled c.world.nextTask = false :=
          Bool.eq_false_iff.2 fun cancelled => absurd (acc.unset _ cancelled) (lt_irrefl _)
        exact .inl (exec_created lawful run (meets.utf8 _ _ _ _ _ top) pristine.disposing fresh)
      · obtain ⟨opens, makes⟩ := (List.pairwise_cons.1 holding.alone).1 _ mem r rfl
        have goes := (acc.inner meets top run opens makes).1
        exact .inr (.inr ⟨_, client, creator, settle_goes goes, List.mem_append_right _ mem⟩)
  · rcases (exec_effect M J run).nextRoom with same | ⟨client, name, options, override, creator, _, _, _, _,
      rfl, -⟩
    · exact absurd (same ▸ born) old
    · rcases acc.birth top run with ⟨-, same⟩ | ⟨init, goes, nextRoom, -, push⟩
      · exact absurd (same ▸ born) old
      · obtain rfl : r = c.world.nextRoom := by omega
        refine .inr (.inr ⟨_, client, creator, settle_goes goes, List.mem_append_left _ ?_⟩)
        rw [push]
        exact List.mem_cons_of_mem _ List.mem_cons_self

theorem Retimes.unset {w : World} {k : Stores} {cmd : Cmd} (h : Retimes w k cmd) (sound : w.ledger.Sound)
    (unset : ∀ i, w.cancelled i = true → i < w.nextTask) : ∀ i, k.cancelled i = true → i < k.nextTask := by
  intro i cancelled'
  rcases h with ⟨-, -, cancelled, nextTask⟩ | ⟨-, -, cancelled, nextTask⟩ | ⟨-, -, cancelled, nextTask⟩ |
    ⟨-, -, cancelled, nextTask, owner⟩
  · rw [cancelled] at cancelled'; rw [nextTask]; exact unset i cancelled'
  · rw [cancelled] at cancelled'; rw [nextTask]; exact Nat.lt_succ_of_lt (unset i cancelled')
  · rw [cancelled] at cancelled'; rw [nextTask]; exact unset i cancelled'
  · rename_i j
    rw [cancelled] at cancelled'
    rw [nextTask]
    by_cases same : i = j
    · subst same
      rcases owner with ⟨r, -, timer⟩ | ⟨v, made, rfl⟩
      · exact sound.timer timer
      · exact (sound.wait made).1
    · rw [Function.update_of_ne same] at cancelled'
      exact unset i cancelled'

theorem Standing.unwound {w : World} {x : Exn} {r : RoomRef} (standing : Standing w r)
    (h : Unwound w cmd x a o) : Standing o.world r ∨ (o.world.rooms r).disposing = true := by
  refine or_iff_not_imp_right.2 fun lives => ?_
  have stores := h.stores
  have post := h.rooms r
  have roomId : (o.world.rooms r).roomId = (w.rooms r).roomId := congrArg Post.roomId post
  obtain ⟨t, e, watches, found, fresh⟩ := standing.watched
  refine ⟨Bool.eq_false_iff.2 lives, (congrArg Post.stage post).trans standing.stage, ?_, t, e,
    ⟨?_, watches.callback, ?_, ?_, ?_⟩, ?_, fresh⟩
  · rw [roomId, stores]; exact standing.managed
  · rw [stores]; exact watches.pending
  · rw [stores]; exact watches.live
  · rw [stores]; exact watches.set
  · rw [stores]; exact watches.due
  · rw [roomId, stores]; exact found

theorem Accounted.unwind_holding (acc : Accounted J c) {x : Exn}
    (top : c.running = some ⟨tid, cmd :: rest, some x⟩) (h : Unwound c.world cmd x a o)
    (stays : ∀ {r}, r < c.world.nextRoom → (c.world.rooms r).disposing = true →
      (o.world.rooms r).disposing = true) : Holding o.world (o.push ++ rest) := by
  have holding := acc.holding _ top
  obtain ⟨above, alone⟩ := List.pairwise_cons.1 holding.alone
  have sound := acc.known.kept.sound
  have managing : o.world.managingRooms = c.world.managingRooms := congrArg Stores.managingRooms h.stores
  have before : ∀ {r r' : RoomRef}, o.world.managingRooms.lookup (o.world.rooms r).roomId = some r' →
      c.world.managingRooms.lookup (c.world.rooms r).roomId = some r' := by
    intro r r' managed
    rw [show (o.world.rooms r).roomId = (c.world.rooms r).roomId from congrArg Post.roomId (h.rooms r),
      managing] at managed
    exact managed
  have keeps : ∀ {r r' : RoomRef}, o.world.managingRooms.lookup (o.world.rooms r).roomId = some r' →
      (∀ r', c.world.managingRooms.lookup (c.world.rooms r).roomId = some r' →
        (c.world.rooms r').disposing = true) → (o.world.rooms r').disposing = true :=
    fun managed all => stays (sound.managed (before managed)).1 (all _ (before managed))
  have own : ∀ d ∈ rest, ∀ r, d.withdraws = some r → ∀ r',
      o.world.managingRooms.lookup (o.world.rooms r).roomId = some r' →
      (o.world.rooms r').disposing = true := fun d mem r withdraws r' managed =>
    keeps managed (holding.own _ (List.mem_cons_of_mem _ mem) r withdraws)
  have left : (∀ d ∈ rest, ∀ r, d.opens = some r → cmd.opens = some r ∧ cmd.makes = none →
      Pristine o.world r) → Holding o.world rest := fun pristine =>
    ⟨fun d mem r opens => pristine d mem r opens (above d mem r opens), alone, own⟩
  have resumed : ∀ d ∈ o.push, Resumed c.world cmd x d := fun _ => h.resumed
  cases h with
  | passed =>
    exact left fun d mem r opens _ => holding.pristine _ (List.mem_cons_of_mem _ mem) r opens
  | caught _ same =>
    exact left fun d mem r opens _ =>
      (holding.pristine _ (List.mem_cons_of_mem _ mem) r opens).same same
  | handled => exact ⟨holding.pristine, holding.alone, holding.own⟩
  | @rolledBack r₀ client creator _ _ w' push ledger starts =>
    have quiet : ∀ d ∈ rest, d.opens = none := by
      intro d mem
      by_contra some
      obtain ⟨r, opens⟩ := Option.ne_none_iff_exists'.1 some
      cases (above d mem r opens).2
    have none : ∀ d ∈ (push ++ [.rethrow x]) ++ rest, d.opens = none := by
      intro d mem
      rcases List.mem_append.1 mem with mem | mem
      · cases resumed d mem <;> rfl
      · exact quiet d mem
    refine ⟨fun d mem r opens => (nomatch (none d mem).symm.trans opens), ?_,
      fun d mem r withdraws r' managed => ?_⟩
    · exact List.pairwise_of_forall_mem_list fun d _ b mem r opens =>
        (nomatch (none b mem).symm.trans opens)
    · rcases List.mem_append.1 mem with mem | mem
      · cases resumed d mem with
        | disposal =>
          obtain rfl := Option.some.inj withdraws
          exact keeps managed (holding.pristine _ List.mem_cons_self r₀ rfl).free
        | rethrow => cases withdraws
      · exact own d mem r withdraws r' managed

/-- A timer that is not the one that is taken out stays. -/
theorem mem_eraseIdx_or {tasks : List Task} {index : ℕ} {task task' : Task}
    (listed : tasks[index]? = some task') (mem : task ∈ tasks) :
    task = task' ∨ task ∈ tasks.eraseIdx index := by
  obtain ⟨i, at_i⟩ := List.mem_iff_getElem?.1 mem
  by_cases here : i = index
  · subst here
    exact .inl (Option.some.inj (at_i.symm.trans listed))
  · exact .inr (List.mem_eraseIdx_iff_getElem?.2 ⟨i, here, at_i⟩)

/-- A timer that has not been cleared stays set until it is called. -/
theorem Arrival.pending {w w' : World} {e : EnvEvent} {new : List (Tid × List Cmd)} {t : Task}
    (h : Arrival w e w' new) (live : w.cancelled t.id = false)
    (pending : t ∈ w.tasks ∨ t ∈ w.working) : t ∈ w'.tasks ∨ t ∈ w'.working := by
  cases h with
  | dropped listed cancelled =>
    refine pending.imp_left fun mem => (mem_eraseIdx_or listed mem).resolve_left ?_
    rintro rfl
    cases live.symm.trans cancelled
  | fired listed =>
    rcases pending with mem | mem
    · rcases mem_eraseIdx_or listed mem with rfl | mem
      · exact .inr List.mem_cons_self
      · exact .inl mem
    · exact .inr (List.mem_cons_of_mem _ mem)
  | _ => exact pending

theorem Watches.arrival {w w' : World} {e : EnvEvent} {new : List (Tid × List Cmd)} {r : RoomRef}
    {t : Task} (watches : Watches w r t) (h : Arrival w e w' new)
    (punctual : ∀ ms, e = .tick ms → w.now + ms ≤ t.due + halfHour) : Watches w' r t := by
  obtain ⟨pending, callback, live, set, due⟩ := watches
  have stays := h.pending live pending
  cases h with
  | @tick ms =>
    refine ⟨stays, callback, live, ?_, punctual ms rfl⟩
    change t.due ≤ w.now + ms + autoDisposeAfter
    omega
  | _ => exact ⟨stays, callback, live, set, due⟩

theorem Arrival.unopened {w w' : World} {e : EnvEvent} {new : List (Tid × List Cmd)}
    (h : Arrival w e w' new) : ∀ p ∈ new, ∀ d ∈ p.2, d.opens = none := by
  cases h <;> simp [Cmd.opens]

theorem Accounted.env (acc : Accounted J c) {e : EnvEvent} {w : World} {new : List (Tid × List Cmd)}
    (meets : Steady c (.env e)) (h : Arrival c.world e w new) (known : Known J
      { c with world := w, parked := c.parked ++ new.map Thread.start }) :
    Accounted J { c with world := w, parked := c.parked ++ new.map Thread.start } := by
  obtain ⟨rooms, storage, managing, cancelled, nextRoom⟩ := h.frame
  have nextTask : w.nextTask = c.world.nextTask := by cases h <;> rfl
  have pristine : ∀ {r}, Pristine c.world r → Pristine w r := by
    rintro r ⟨born, disposing, empty, stage, free⟩
    refine ⟨by rw [nextRoom]; exact born, by rw [rooms]; exact disposing, by rw [rooms]; exact empty,
      by rw [rooms]; exact stage, ?_⟩
    rw [rooms, managing]
    exact free
  refine ⟨known, fun r born => ?_, fun t top => ?_, fun t mem => ?_, fun i set => ?_⟩
  · dsimp only at born ⊢
    rw [nextRoom] at born
    rw [rooms]
    refine (acc.rooms r born).imp_left fun standing => ?_
    obtain ⟨t, e', watches, found, fresh⟩ := standing.watched
    refine ⟨by rw [rooms]; exact standing.disposing, by rw [rooms]; exact standing.stage,
      by rw [rooms, managing]; exact standing.managed, t, e', ?_, by rw [rooms, storage]; exact found, fresh⟩
    refine watches.arrival h fun ms is => ?_
    subst is
    exact meets.punctual ms rfl t r watches.pending watches.callback watches.live
  · obtain ⟨makes, alone, own⟩ := acc.holding t top
    refine ⟨fun d mem r opens => pristine (makes d mem r opens), alone, ?_⟩
    dsimp only
    rw [rooms, managing]
    exact own
  · rcases List.mem_append.1 mem with mem | mem
    · exact acc.parked t mem
    · obtain ⟨p, started, rfl⟩ := List.mem_map.1 mem
      exact h.unopened p started
  · dsimp only at set ⊢
    rw [cancelled] at set
    rw [nextTask]
    exact acc.unset i set

theorem Accounted.step (acc : Accounted J c) (lawful : J.Lawful) (meets : Steady c l)
    (h : Step (server M J) c l c') : Accounted J c' := by
  have known := acc.known.step lawful h
  have stays : ∀ {r}, r < c.world.nextRoom → (c.world.rooms r).disposing = true →
      (c'.world.rooms r).disposing = true := fun born disposing =>
    (acc.known.kept.stays_disposing h born disposing).2
  cases h with
  | @finish tid a _ top =>
    refine ⟨known, fun r born => ?_, nofun, acc.parked, acc.unset⟩
    refine (acc.rooms r born).imp_right fun other => other.imp_right ?_
    rintro ⟨t, client, creator, top', mem⟩
    cases top.symm.trans top'
    cases mem
  | crash => exact ⟨known, acc.rooms, acc.holding, acc.parked, acc.unset⟩
  | @exec tid cmd rest a o _ top run =>
    obtain ⟨holding, unopened⟩ := acc.exec_holding meets top run
    refine ⟨known, fun r born => ?_, fun t top' => ?_, fun t mem => ?_, fun i set => ?_⟩
    · rw [world_settle] at born ⊢
      exact acc.exec_rooms lawful meets top run r born
    · rw [running_settle top', world_settle]
      exact holding
    · rcases parked_settle mem with mem | ⟨parks, rfl⟩
      · exact acc.parked t mem
      · exact unopened parks
    · rw [world_settle] at set ⊢
      exact ((exec_effect M J run).retimes acc.known.kept.sound).unset acc.known.kept.sound acc.unset i set
  | @unwind tid cmd rest x a o _ top run =>
    have effect := unwind_effect run
    have goes : o.parks = false := by cases effect <;> rfl
    have stores := effect.stores
    rw [world_settle] at stays
    refine ⟨known, fun r born => ?_, fun t top' => ?_, fun t mem => ?_, fun i set => ?_⟩
    · rw [world_settle] at born ⊢
      rw [show o.world.nextRoom = c.world.nextRoom from congrArg Stores.nextRoom stores] at born
      rcases acc.rooms r born with standing | disposing | ⟨t, client, creator, top', mem⟩
      · exact (standing.unwound effect).imp_right .inl
      · exact .inr (.inl (stays born disposing))
      · cases top.symm.trans top'
        rcases List.mem_cons.1 mem with rfl | mem
        · obtain rfl := Option.some.inj run
          have lives := congrArg (fun k : Ledger => (k.lives r).disposing)
            (dispose_cases c.world r .rollback).1
          exact .inr (.inl (lives.trans (disposing_dispose _ r .rollback)))
        · exact .inr (.inr ⟨_, client, creator, settle_goes goes, List.mem_append_right _ mem⟩)
    · rw [running_settle top', world_settle]
      exact acc.unwind_holding top effect stays
    · rcases parked_settle mem with mem | ⟨parks, -⟩
      · exact acc.parked t mem
      · cases goes.symm.trans parks
    · rw [world_settle, stores] at set ⊢
      exact acc.unset i set
  | @take i t _ free at_i =>
    have mem := List.mem_of_getElem? at_i
    have unopened := acc.parked t mem
    refine ⟨known, fun r born => ?_, fun t' top' => ?_, fun t' mem' => ?_, acc.unset⟩
    · refine (acc.rooms r born).imp_right fun other => other.imp_right ?_
      rintro ⟨t', client, creator, top', -⟩
      cases free.symm.trans top'
    · obtain rfl := Option.some.inj top'
      refine ⟨fun d mem r opens => (nomatch (unopened d mem).symm.trans opens), ?_,
        fun d mem' r withdraws => ?_⟩
      · exact List.pairwise_of_forall_mem_list fun d _ b mem r opens =>
          (nomatch (unopened b mem).symm.trans opens)
      · cases ((acc.known.kept.parked mem).2 d mem').symm.trans withdraws
    · exact acc.parked t' (List.mem_of_mem_eraseIdx mem')
  | env _ run => exact acc.env meets (spawn_arrival run) known

theorem Accounted.initial : Accounted J ServerConfig.initial :=
  ⟨.initial, nofun, nofun, nofun, nofun⟩

theorem Accounted.run {ok : ServerConfig → Label Answer EnvEvent → Prop}
    {ls : List (Label Answer EnvEvent)} (lawful : J.Lawful) (steady : ∀ {c l}, ok c l → Steady c l)
    (run : Run (server M J) ok ServerConfig.initial ls c) : Accounted J c :=
  run.invariant _ .initial fun acc meets step => acc.step lawful (steady meets) step

end

end Blueboat
