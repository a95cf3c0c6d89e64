import Blueboat.Unchanged
import Blueboat.Windows

set_option autoImplicit false

/-! A room that `on_room_disposed` has erased is destroyed: which activations still use it, and when none
of them does. -/
namespace Blueboat

open Protocol LockMachine Ledger

/-! What a step does to the record of the rooms that were used after they had been erased. -/

section
variable {M : MsgpackC} {J : JsonText} {w : World} {cmd : Cmd} {a : Answer} {o : Out}

/-- An exception that finds the room it is handled for alive leaves the record as it is. -/
theorem unwind_dangling {x : Exn} (h : unwind w cmd x a = some o)
    (live : ∀ r, cmd.uses w.toStores r = true → (w.rooms r).erased = false)
    (catches : ∀ r client what, cmd = .catchJoin r client → x = .std what →
      (w.rooms r).erased = false) : o.world.dangling = w.dangling := by
  refine (unwind_local h).dangling fun r handles => ?_
  rcases handles with uses | ⟨client, what, here, thrown⟩
  · exact live r uses
  · exact catches r client what here thrown

end

/-! What a step does to the rooms that have been erased, and which of them it may come back to. -/

section
variable {J : JsonText} {w : World} {cmd : Cmd} {a : Answer} {o : Out} {r : RoomRef}

/-- A room is erased as the one that is managed under the id of the room whose disposal ends. -/
theorem Effect.erases (h : Effect J w cmd a o) (erased : (o.world.rooms r).erased = true) :
    (w.rooms r).erased = true ∨ ∃ r', cmd = .onRoomDisposed r' ∧
      w.managingRooms.lookup (w.rooms r').roomId = some r := by
  have kept : ∀ {k : Ledger}, k.SameStory o.world.ledger → (k.lives r).erased = (w.rooms r).erased →
      (w.rooms r).erased = true :=
    fun story same => same.symm.trans ((story.erased r).symm.trans erased)
  cases h.tells with
  | same story => exact .inl (kept story rfl)
  | @birth _ _ _ roomId _ _ _ story =>
    by_cases fresh : r = w.nextRoom
    · subst fresh
      have born := congrArg Life.erased (birth_self w.ledger roomId)
      cases (born.symm.trans ((story.erased _).symm.trans erased))
    · exact .inl (kept story (congrArg Life.erased (birth_ne w.ledger roomId fresh)))
  | removed _ story =>
    exact .inl (kept story (setLife_field (k := w.ledger) Life.erased (by rfl) r))
  | admitted story =>
    exact .inl (kept story (setLife_field (k := w.ledger) Life.erased (by rfl) r))
  | @disposed _ _ r' cause _ _ story => exact .inl (kept story (erased_dispose w.ledger r' cause r))
  | @autoDisposed _ _ r' _ story => exact .inl (kept story (erased_dispose w.ledger r' .timer r))
  | @gone r' _ story =>
    have after : ((w.ledger.onRoomDisposed r').lives r).erased = true :=
      (story.erased r).symm.trans erased
    rw [onRoomDisposed_lives] at after
    rcases Bool.or_eq_true_iff.1 after with before | managed
    · exact .inl before
    · exact .inr ⟨r', rfl, of_decide_eq_true managed⟩

theorem Unwound.erases {x : Exn} (h : Unwound w cmd x a o) :
    (o.world.rooms r).erased = (w.rooms r).erased := by
  cases h with
  | passed | handled => rfl
  | caught _ same => exact congrArg (fun k : Ledger => (k.lives r).erased) same
  | @rolledBack r' _ _ _ _ w' push ledger =>
    have lives := congrArg (fun k : Ledger => (k.lives r).erased) ledger
    exact lives.trans (erased_dispose w.ledger r' .rollback r)

theorem leaveOf_uses {k : Stores} {r' : RoomRef} {client : SimpleClient} {intentional : Bool}
    {listeners : List ℕ} {c : Cmd} (mem : c ∈ leaveOf r' client intentional listeners)
    (uses : c.uses k r = true) : r' = r := by
  simp only [leaveOf, List.mem_cons, List.not_mem_nil, or_false] at mem
  rcases mem with rfl | rfl | rfl <;> exact beq_iff_eq.1 uses

theorem Removes.reaches {r' : RoomRef} {sessionId : Str} {intentional : Bool} {left : List Cmd}
    (h : Removes cmd a r' sessionId intentional left) : Reaches w r' cmd a := by
  cases h with
  | playerLeft => exact .uses (by simp [Cmd.uses, Handler.owner])
  | hook => exact .answered rfl
  | loop => exact .uses (beq_self_eq_true r')

theorem Disposes.reaches {r' : RoomRef} {cause : Cause} {left : List Cmd}
    (h : Disposes w cmd a r' cause left) : Reaches w r' cmd a := by
  cases h with
  | hook => exact .answered rfl
  | shutdown managed => exact .managed managed
  | lastLeave => exact .uses (beq_self_eq_true r')

theorem Child.reaches {c : Cmd} (h : Child w cmd c) (uses : c.uses w.toStores r = true) :
    Reaches w r cmd a := by
  have own : ∀ {r' : RoomRef}, (r' == r) = true → r' = r := fun same => beq_iff_eq.1 same
  cases h with
  | deliver =>
    obtain ⟨handler, mem, owner⟩ := List.any_eq_true.1 uses
    obtain ⟨l, listens, rfl⟩ := List.mem_map.1 mem
    exact .listens listens (beq_iff_eq.1 owner)
  | next =>
    refine .uses ?_
    obtain ⟨handler, mem, owner⟩ := List.any_eq_true.1 uses
    exact List.any_eq_true.2 ⟨handler, List.mem_cons_of_mem _ mem, owner⟩
  | message' | addMember =>
    obtain rfl := own uses
    exact .uses (by simp [Cmd.uses, Handler.owner])
  | joinListener | joinNext | leaveListener | leaveNext => exact .uses uses
  | _ => cases uses

/-- A command that a step leaves to do uses a new room or one that the step may come to. -/
theorem Pushed.reaches {c : Cmd} (h : Pushed w cmd a c) (uses : c.uses w.toStores r = true) :
    r = w.nextRoom ∨ Reaches w r cmd a := by
  have own : ∀ {r' : RoomRef}, (r' == r) = true → r' = r := fun same => beq_iff_eq.1 same
  cases h with
  | child child => exact .inr (child.reaches uses)
  | leave calls mem =>
    obtain rfl := leaveOf_uses mem uses
    exact .inr calls.reaches
  | disposal calls =>
    obtain rfl := own uses
    exact .inr calls.reaches
  | @autoDisposal task _ r' callback =>
    obtain rfl := own uses
    exact .inr (.uses (by simp [Cmd.uses, Stores.roomOf, callback]))
  | onCreate | created => exact .inl (own uses).symm
  | loop | joinListeners | onJoin | beforeDispose | finishDispose | onDispose | onRoomDisposed =>
    exact .inr (.uses uses)
  | askInfo | waitInfo | unsubscribeInfo | futureGet => cases uses

theorem Cmd.uses_congr {k k' : Stores} {c : Cmd}
    (same : ∀ task, c = .timerBody task → k'.roomOf task = k.roomOf task) : c.uses k' r = c.uses k r := by
  cases c with
  | timerBody task => rw [Cmd.uses, Cmd.uses, same task rfl]
  | _ => rfl

theorem Pushed.untimed {c : Cmd} (h : Pushed w cmd a c) (task : Task) : c ≠ .timerBody task := by
  rintro rfl
  cases h with
  | child child => cases child
  | leave _ mem => simp [leaveOf] at mem

/-- The room of a timer stays the same. -/
theorem Effect.roomOf (h : Effect J w cmd a o) {task : Task} (recorded : w.ledger.Recorded task) :
    o.world.roomOf task = w.roomOf task := by
  unfold Stores.roomOf
  cases callback : task.callback with
  | autoDispose r' => rfl
  | reconnect v =>
    rw [Recorded, callback] at recorded
    have grants := h.grants
    dsimp only
    cases grants with
    | kept _ room => exact room v
    | granted _ waits =>
      have other : v ≠ w.nextWait := recorded.1.ne
      change o.world.waits = _ at waits
      rw [waits, Function.update_of_ne other]

/-- A new timer is that of a room that is being made, or of the room whose hook asks for it. -/
theorem Effect.schedules (h : Effect J w cmd a o) {task : Task} (mem : task ∈ o.world.tasks) :
    task ∈ w.tasks ∨ Reaches w (o.world.roomOf task) cmd a := by
  have kept : ∀ {k : Ledger}, o.world.ledger = k → k.tasks = w.tasks → task ∈ w.tasks :=
    fun ledger same => by
      have tasks := congrArg Stores.tasks (congrArg Ledger.toStores ledger)
      rwa [show o.world.tasks = _ from tasks, same] at mem
  cases h with
  | still ledger | emptied ledger | purged ledger | birth _ ledger | stored _ ledger
  | openInfo ledger | closeInfo ledger | removed _ ledger | listened ledger | admitted ledger =>
    exact .inl (kept ledger rfl)
  | @disposed _ _ r' cause _ _ _ _ ledger =>
    have tasks := congrArg Stores.tasks (dispose_stores w.ledger r' cause)
    exact .inl (kept ledger tasks)
  | @autoDisposed _ _ r' _ _ _ ledger =>
    have tasks := congrArg Stores.tasks (dispose_stores w.ledger r' .timer)
    exact .inl (kept ledger tasks)
  | @timedOut _ _ v _ _ ledger =>
    obtain ⟨waits, resolved⟩ := reconnectTimeout_stores w.ledger v
    have tasks := congrArg Stores.tasks resolved
    exact .inl (kept ledger tasks)
  | @rejoined _ _ _ v _ _ _ _ ledger =>
    obtain ⟨waits, resolved⟩ := rejoined_stores w.ledger v
    have tasks := congrArg Stores.tasks resolved
    exact .inl (kept ledger tasks)
  | @withdrawn r' _ _ ledger =>
    obtain ⟨_, _, _, stores, -⟩ := finishDispose_stores w.ledger r'
    exact .inl (kept ledger (by rw [stores]; rfl))
  | @gone r' _ _ ledger =>
    have tasks := congrArg Stores.tasks (onRoomDisposed_stores w.ledger r')
    exact .inl (kept ledger tasks)
  | @ended sessionId _ _ ledger =>
    obtain ⟨_, stores⟩ := endOp_stores w.ledger sessionId
    have tasks := congrArg Stores.tasks stores
    exact .inl (kept ledger tasks)
  | @registered r' _ _ _ w' storage _ ledger =>
    have tasks := congrArg Stores.tasks (congrArg Ledger.toStores ledger)
    change w'.tasks = w.tasks ++ [_] at tasks
    rw [Outcome.world, tasks] at mem
    refine (List.mem_append.1 mem).imp_right fun mem => ?_
    obtain rfl := List.mem_singleton.1 mem
    exact .uses (beq_self_eq_true r')
  | @unrecorded r' _ _ _ w' _ _ ledger =>
    have tasks := congrArg Stores.tasks (congrArg Ledger.toStores ledger)
    change w'.tasks = w.tasks ++ [_] at tasks
    rw [Outcome.world, tasks] at mem
    refine (List.mem_append.1 mem).imp_right fun mem => ?_
    obtain rfl := List.mem_singleton.1 mem
    exact .uses (beq_self_eq_true r')
  | @granted r' hook clientId seconds w' id lives ledger =>
    have stores := congrArg Ledger.toStores ledger
    have tasks := congrArg Stores.tasks stores
    have waits := congrArg Stores.waits stores
    change w'.tasks = w.tasks ++ [_] at tasks
    change w'.waits = Function.update w.waits w.nextWait _ at waits
    rw [Outcome.world, tasks] at mem
    refine (List.mem_append.1 mem).imp_right fun mem => ?_
    obtain rfl := List.mem_singleton.1 mem
    refine .answered ?_
    rw [Outcome.world, Stores.roomOf, waits]
    simp [Answer.on]
end

/-- Nothing is left that leads to the room: no activation that is running or suspended uses it, its
listeners have been unsubscribed, and its timers are cancelled. -/
structure Released (w : World) (threads : List (Thread Tid Cmd Exn)) (r : RoomRef) : Prop where
  unused : ∀ t ∈ threads, ∀ cmd ∈ t.stack, cmd.uses w.toStores r = false
  unsubscribed : (w.rooms r).gameMessageSub = none ∧ (w.rooms r).playerLeftSub = none
  stopped : ∀ task ∈ w.tasks, w.roomOf task = r → w.cancelled task.id = true

/-- A room is erased when it is released, the hooks that go on afterwards make no call on it, and no
exception reaches the end of a join of it. -/
structure Releases (c : ServerConfig) (l : Label Answer EnvEvent) : Prop where
  erases : ∀ a tid r rest r₀, l = .act a → c.running = some ⟨tid, .onRoomDisposed r :: rest, none⟩ →
    c.world.managingRooms.lookup (c.world.rooms r).roomId = some r₀ →
    Released c.world (⟨tid, rest, none⟩ :: c.parked) r₀
  answers : ∀ a tid r hook rest r', l = .act a →
    c.running = some ⟨tid, .inHook r hook :: rest, none⟩ → a.on r = some r' →
    (c.world.rooms r').erased = false
  catches : ∀ a tid r client rest what, l = .act a →
    c.running = some ⟨tid, .catchJoin r client :: rest, some (.std what)⟩ →
    (c.world.rooms r).erased = false

structure Outlived (c : ServerConfig) : Prop where
  untouched : c.world.dangling = []
  born : ∀ r, (c.world.rooms r).erased = true → r < c.world.nextRoom
  unmanaged : ∀ r, (c.world.rooms r).erased = true → ∀ id, c.world.managingRooms.lookup id ≠ some r
  released : ∀ r, (c.world.rooms r).erased = true → Released c.world c.threads r

section
variable {M : MsgpackC} {J : JsonText} {c c' : ServerConfig} {l : Label Answer EnvEvent}

theorem Effect.goes {w : World} {r : RoomRef} {a : Answer} {o : Out}
    (h : Effect J w (.onRoomDisposed r) a o) :
    o.push = [] ∧ o.world.ledger = w.ledger.onRoomDisposed r := by
  cases h with
  | still _ _ _ _ _ keeps => cases keeps
  | removed calls => cases calls
  | disposed calls => cases calls
  | gone ledger => exact ⟨rfl, ledger⟩

theorem Outlived.unreached (outlived : Outlived c) (kept : Kept c) {tid : Tid} {cmd : Cmd}
    {rest : List Cmd} {a : Answer} (releases : Releases c (.act a))
    (top : c.running = some ⟨tid, cmd :: rest, none⟩) {r : RoomRef}
    (erased : (c.world.rooms r).erased = true) : ¬ Reaches c.world r cmd a := by
  intro reaches
  have released := outlived.released r erased
  cases reaches with
  | uses uses =>
    have free := released.unused _ (running_mem_threads top) _ List.mem_cons_self
    cases uses.symm.trans free
  | answered on => cases erased.symm.trans (releases.answers _ _ _ _ _ _ rfl top on)
  | managed managed => exact outlived.unmanaged r erased _ managed
  | @listens key payload a l listens handler =>
    have owns := (kept.sound.owns listens).1
    unfold Owns at owns
    obtain ⟨game, left⟩ := released.unsubscribed
    cases heard : l.handler with
    | gameMessage r' =>
      rw [heard] at owns handler
      obtain rfl := Option.some.inj handler
      cases game.symm.trans owns.2.2
    | playerLeft r' =>
      rw [heard] at owns handler
      obtain rfl := Option.some.inj handler
      cases left.symm.trans owns.2.2
    | infoRequest n =>
      rw [heard] at handler
      cases handler

/-- What a step leaves to do on the threads is still no use of a room that it does not come to. -/
theorem Released.exec {tid : Tid} {cmd : Cmd} {rest : List Cmd} {a : Answer} {o : Out} {r : RoomRef}
    (kept : Kept c) (top : c.running = some ⟨tid, cmd :: rest, none⟩)
    (run : exec M J c.world cmd a = some o) (born : r < c.world.nextRoom)
    (released : Released c.world c.threads r) (unreached : ¬ Reaches c.world r cmd a) :
    Released o.world (settle c tid rest o).threads r := by
  have effect := exec_effect M J run
  have stack := kept.stack top
  have still : ∀ {cmd' : Cmd}, cmd'.Ok c.world.ledger → cmd'.uses c.world.toStores r = false →
      cmd'.uses o.world.toStores r = false := by
    intro cmd' ok free
    rw [Cmd.uses_congr (k := c.world.toStores), free]
    rintro task rfl
    exact effect.roomOf ok
  refine ⟨fun t mem cmd' below => ?_, ?_, fun task mem own => ?_⟩
  · have before := (threads_settle c tid rest o).mem_iff.1 mem
    rcases List.mem_cons.1 before with rfl | parked
    · rcases List.mem_append.1 below with pushed | below
      · have pushed := effect.pushed pushed
        rw [Cmd.uses_congr (k := c.world.toStores) fun task timed => absurd timed (pushed.untimed task)]
        by_contra uses
        rcases pushed.reaches (eq_true_of_ne_false uses) with fresh | reaches
        · exact absurd fresh born.ne
        · exact unreached reaches
      · have inside := List.mem_cons_of_mem cmd below
        exact still (stack.ok _ inside) (released.unused _ (running_mem_threads top) _ inside)
    · have free := released.unused t (List.mem_append_right _ parked) _ below
      exact still ((kept.parked parked).1.ok _ below) free
  · have other : ∀ client creator, cmd ≠ .created r client creator := by
      rintro client creator rfl
      exact unreached (.uses (beq_self_eq_true r))
    obtain ⟨game, left⟩ := released.unsubscribed
    cases effect.rewires r with
    | same post =>
      exact ⟨(congrArg Post.gameMessageSub post).trans game, (congrArg Post.playerLeftSub post).trans left⟩
    | born fresh => exact absurd fresh born.ne
    | subscribed => exact absurd rfl (other _ _)
    | withdrawn post => exact ⟨congrArg Post.gameMessageSub post, congrArg Post.playerLeftSub post⟩
    | gone post =>
      exact ⟨(congrArg Post.gameMessageSub post).trans game, (congrArg Post.playerLeftSub post).trans left⟩
  · rcases effect.schedules mem with old | reaches
    · rw [effect.roomOf (kept.sound.task (.inl old))] at own
      exact effect.cancelled (released.stopped task old own)
    · rw [own] at reaches
      exact absurd reaches unreached

/-- A room that was released is still so once it has been erased. -/
theorem Released.erase {tid : Tid} {r r' : RoomRef} {rest : List Cmd} {a : Answer} {o : Out}
    (released : Released c.world (⟨tid, rest, none⟩ :: c.parked) r)
    (h : Effect J c.world (.onRoomDisposed r') a o) :
    Released o.world (settle c tid rest o).threads r := by
  obtain ⟨push, ledger⟩ := h.goes
  have stores : o.world.toStores = _ :=
    (congrArg Ledger.toStores ledger).trans (onRoomDisposed_stores c.world.ledger r')
  have lives := (congrArg (fun k : Ledger => k.lives r) ledger).trans
    (onRoomDisposed_lives c.world.ledger r' r)
  obtain ⟨game, left⟩ := released.unsubscribed
  refine ⟨fun t mem cmd below => ?_, ⟨?_, ?_⟩, fun task mem own => ?_⟩
  · rw [Cmd.uses_congr (k := c.world.toStores) fun task _ => by rw [stores]; rfl]
    have before := (threads_settle c tid rest o).mem_iff.1 mem
    rcases List.mem_cons.1 before with rfl | parked
    · rw [push] at below
      exact released.unused _ List.mem_cons_self cmd below
    · exact released.unused t (List.mem_cons_of_mem _ parked) cmd below
  · exact (congrArg Life.gameMessageSub lives).trans game
  · exact (congrArg Life.playerLeftSub lives).trans left
  · rw [stores] at mem own ⊢
    exact released.stopped task mem own

theorem Outlived.exec (outlived : Outlived c) (kept : Kept c) {tid : Tid} {cmd : Cmd}
    {rest : List Cmd} {a : Answer} {o : Out} (releases : Releases c (.act a))
    (top : c.running = some ⟨tid, cmd :: rest, none⟩) (run : exec M J c.world cmd a = some o) :
    Outlived (settle c tid rest o) := by
  have effect := exec_effect M J run
  have sound := kept.sound
  have later := (effect.sound sound ((kept.stack top).ok _ List.mem_cons_self)).2
  have unreached := fun {r} erased => outlived.unreached kept releases top (r := r) erased
  refine ⟨?_, fun r erased => ?_, fun r erased id managed => ?_, fun r erased => ?_⟩
  · rw [world_settle]
    refine (exec_dangling run fun r reaches => ?_).trans outlived.untouched
    by_contra erased
    exact unreached (eq_true_of_ne_false erased) reaches
  · rw [world_settle] at erased ⊢
    refine lt_of_lt_of_le ?_ later.nextRoom
    rcases effect.erases erased with before | ⟨r', -, managed⟩
    · exact outlived.born r before
    · exact (sound.managed managed).1
  · rw [world_settle] at erased managed
    rcases effect.erases erased with before | ⟨r', rfl, here⟩
    · rcases effect.managing managed with there | makes
      · exact outlived.unmanaged r before id there
      · refine unreached before (.uses ?_)
        cases cmd with
        | created => cases makes; exact beq_self_eq_true r
        | _ => cases makes
    · -- the entry of the room was the one that was erased
      obtain ⟨-, ledger⟩ := effect.goes
      have stores := (congrArg Ledger.toStores ledger).trans (onRoomDisposed_stores c.world.ledger r')
      have managing : o.world.managingRooms = c.world.managingRooms.erase (c.world.rooms r').roomId :=
        congrArg Stores.managingRooms stores
      rw [managing] at managed
      by_cases same : id = (c.world.rooms r').roomId
      · rw [same, AList.lookup_erase] at managed
        cases managed
      · rw [AList.lookup_erase_ne same] at managed
        exact same ((sound.managed managed).2.1.symm.trans (sound.managed here).2.1)
  · rw [world_settle] at erased ⊢
    rcases effect.erases erased with before | ⟨r', rfl, managed⟩
    · exact (outlived.released r before).exec kept top run (outlived.born r before) (unreached before)
    · exact (releases.erases _ _ _ _ _ rfl top managed).erase effect

theorem Outlived.unwind (outlived : Outlived c) {tid : Tid} {cmd : Cmd} {rest : List Cmd} {x : Exn}
    {a : Answer} {o : Out} (releases : Releases c (.act a))
    (top : c.running = some ⟨tid, cmd :: rest, some x⟩) (run : unwind c.world cmd x a = some o) :
    Outlived (settle c tid rest o) := by
  have effect := unwind_effect run
  have stores := effect.stores
  have live : ∀ r, cmd.uses c.world.toStores r = true → (c.world.rooms r).erased = false := by
    intro r uses
    by_contra erased
    have free := (outlived.released r (eq_true_of_ne_false erased)).unused _
      (running_mem_threads top) _ List.mem_cons_self
    cases uses.symm.trans free
  refine ⟨?_, fun r erased => ?_, fun r erased => ?_, fun r erased => ?_⟩
  · rw [world_settle]
    refine (unwind_dangling run live fun r client what here thrown => ?_).trans outlived.untouched
    subst here thrown
    exact releases.catches _ _ _ _ _ _ rfl top
  · rw [world_settle, effect.erases] at erased
    rw [world_settle, show o.world.nextRoom = _ from congrArg Stores.nextRoom stores]
    exact outlived.born r erased
  · rw [world_settle, effect.erases] at erased
    rw [world_settle, show o.world.managingRooms = _ from congrArg Stores.managingRooms stores]
    exact outlived.unmanaged r erased
  · rw [world_settle, effect.erases] at erased
    rw [world_settle]
    have released := outlived.released r erased
    obtain ⟨game, left⟩ := released.unsubscribed
    have post := effect.rooms r
    refine ⟨fun t mem cmd' below => ?_, ⟨(congrArg Post.gameMessageSub post).trans game,
      (congrArg Post.playerLeftSub post).trans left⟩, fun task mem own => ?_⟩
    · rw [stores]
      have before := (threads_settle c tid rest o).mem_iff.1 mem
      have above := fun {d} inside => released.unused _ (running_mem_threads top) d inside
      rcases List.mem_cons.1 before with rfl | parked
      · rcases List.mem_append.1 below with pushed | below
        · cases effect.resumed pushed with
          | again | rethrow => rfl
          | disposal =>
            have making := above List.mem_cons_self
            exact making
        · exact above (List.mem_cons_of_mem _ below)
      · exact released.unused t (List.mem_append_right _ parked) _ below
    · rw [stores] at mem own ⊢
      exact released.stopped task mem own

/-- The threads that an event starts use rooms that are not released. -/
theorem Arrival.released {w w' : World} {e : EnvEvent} {new : List (Tid × List Cmd)}
    (h : Arrival w e w' new) {threads : List (Thread Tid Cmd Exn)} {r : RoomRef}
    (released : Released w threads r) : Released w' (threads ++ new.map Thread.start) r := by
  obtain ⟨rooms, -, -, cancelled, -⟩ := h.frame
  have waits : w'.waits = w.waits := by cases h <;> rfl
  have tasks : ∀ task ∈ w'.tasks, task ∈ w.tasks := by
    intro task mem
    cases h with
    | dropped | fired => exact List.mem_of_mem_eraseIdx mem
    | _ => exact mem
  have roomOf : ∀ task, w'.roomOf task = w.roomOf task := fun task => by
    rw [Stores.roomOf, Stores.roomOf, waits]
  refine ⟨fun t mem cmd below => ?_, by rw [rooms]; exact released.unsubscribed,
    fun task mem own => ?_⟩
  · rw [Cmd.uses_congr fun task _ => roomOf task]
    rcases List.mem_append.1 mem with old | fresh
    · exact released.unused t old cmd below
    · obtain ⟨p, started, rfl⟩ := List.mem_map.1 fresh
      change cmd ∈ p.2 at below
      cases h with
      | tick | dropped => cases started
      | @fired index task listed due live =>
        obtain rfl := List.mem_singleton.1 started
        rcases List.mem_pair.1 below with rfl | rfl
        · by_contra uses
          have own : w.roomOf task = r := beq_iff_eq.1 (eq_true_of_ne_false uses)
          have stopped := released.stopped task (List.mem_of_getElem? listed) own
          cases live.symm.trans stopped
        · rfl
      | _ =>
        obtain rfl := List.mem_singleton.1 started
        simp only [List.mem_cons, List.not_mem_nil, or_false] at below
        rcases below with rfl | rfl | rfl <;> rfl
  · rw [roomOf] at own
    rw [cancelled]
    exact released.stopped task (tasks task mem) own

theorem Released.threads {w : World} {threads threads' : List (Thread Tid Cmd Exn)} {r : RoomRef}
    (released : Released w threads r) (sub : ∀ t ∈ threads', t ∈ threads) : Released w threads' r :=
  ⟨fun t mem => released.unused t (sub t mem), released.unsubscribed, released.stopped⟩

theorem Outlived.step (outlived : Outlived c) (kept : Kept c) (releases : Releases c l)
    (h : Step (server M J) c l c') : Outlived c' := by
  cases h with
  | exec _ top run => exact outlived.exec kept releases top run
  | unwind _ top run => exact outlived.unwind releases top run
  | finish =>
    refine ⟨outlived.untouched, outlived.born, outlived.unmanaged, fun r erased => ?_⟩
    exact (outlived.released r erased).threads fun t mem => List.mem_append_right _ mem
  | crash => exact ⟨outlived.untouched, outlived.born, outlived.unmanaged, outlived.released⟩
  | take _ free at_i =>
    refine ⟨outlived.untouched, outlived.born, outlived.unmanaged, fun r erased => ?_⟩
    exact (outlived.released r erased).threads fun t => (threads_take free at_i).mem_iff.1
  | env _ run =>
    have arrival := spawn_arrival run
    obtain ⟨rooms, -, managing, -, nextRoom⟩ := arrival.frame
    refine ⟨?_, fun r erased => ?_, fun r erased => ?_, fun r erased => ?_⟩
    · refine Eq.trans ?_ outlived.untouched
      cases arrival <;> rfl
    · rw [rooms] at erased
      exact nextRoom ▸ outlived.born r erased
    · rw [rooms] at erased
      exact managing ▸ outlived.unmanaged r erased
    · rw [rooms] at erased
      refine (arrival.released (outlived.released r erased)).threads fun t mem => ?_
      rwa [Config.threads, ← List.append_assoc] at mem

theorem Outlived.initial : Outlived ServerConfig.initial :=
  ⟨rfl, fun _ erased => (Bool.false_ne_true erased).elim,
    fun _ erased => (Bool.false_ne_true erased).elim, fun _ erased => (Bool.false_ne_true erased).elim⟩

theorem Outlived.run {ls : List (Label Answer EnvEvent)}
    (run : Run (server M J) Releases ServerConfig.initial ls c) : Outlived c := by
  have both : Kept c ∧ Outlived c := by
    induction run with
    | nil => exact ⟨.initial, .initial⟩
    | snoc _ meets last ih => exact ⟨ih.1.step last, ih.2.step ih.1 meets last⟩
  exact both.2

/-- In a run in which a room is erased only when it is released (and is left alone by the hooks and joins
that go on afterwards), no room is used after `on_room_disposed` has erased it. -/
theorem room_lifetime {ls : List (Label Answer EnvEvent)}
    (run : Run (server M J) Releases ServerConfig.initial ls c) : c.world.dangling = [] :=
  (Outlived.run run).untouched

end

def releasedCheck (w : World) (threads : List (Thread Tid Cmd Exn)) (r : RoomRef) : Bool :=
  (threads.all fun t => t.stack.all fun cmd => !cmd.uses w.toStores r) &&
    ((w.rooms r).gameMessageSub.isNone && (w.rooms r).playerLeftSub.isNone) &&
    w.tasks.all fun task => w.roomOf task != r || w.cancelled task.id

theorem releasedCheck_sound {w : World} {threads : List (Thread Tid Cmd Exn)} {r : RoomRef}
    (h : releasedCheck w threads r = true) : Released w threads r := by
  obtain ⟨both, stopped⟩ := Bool.and_eq_true_iff.1 h
  obtain ⟨unused, subs⟩ := Bool.and_eq_true_iff.1 both
  obtain ⟨game, left⟩ := Bool.and_eq_true_iff.1 subs
  refine ⟨fun t mem cmd below => ?_,
    ⟨Option.isNone_iff_eq_none.1 game, Option.isNone_iff_eq_none.1 left⟩, fun task mem own => ?_⟩
  · have each := List.all_eq_true.1 (List.all_eq_true.1 unused t mem) cmd below
    simpa using each
  · have each := List.all_eq_true.1 stopped task mem
    simpa [own] using each

def releasesCheck (c : ServerConfig) (l : Label Answer EnvEvent) : Bool :=
  match c.running, l with
  | some ⟨tid, .onRoomDisposed r :: rest, none⟩, _ =>
    (c.world.managingRooms.lookup (c.world.rooms r).roomId).all
      fun r₀ => releasedCheck c.world (⟨tid, rest, none⟩ :: c.parked) r₀
  | some ⟨_, .inHook r _ :: _, none⟩, .act a => (a.on r).all fun r' => !(c.world.rooms r').erased
  | some ⟨_, .catchJoin r _ :: _, some _⟩, _ => !(c.world.rooms r).erased
  | _, _ => true

theorem releasesCheck_sound {c : ServerConfig} {l : Label Answer EnvEvent}
    (h : releasesCheck c l = true) : Releases c l := by
  refine ⟨fun a tid r rest r₀ _ top managed => ?_, fun a tid r hook rest r' acts top on => ?_,
    fun a tid r client rest what _ top => ?_⟩
  · simp only [releasesCheck, top, managed] at h
    exact releasedCheck_sound h
  · simp only [releasesCheck, acts, top, on] at h
    simpa using h
  · simp only [releasesCheck, top] at h
    simpa using h

/-- A hook disposes of its room, which is erased while it is still in progress. -/
theorem room_lifetime_asked : ∃ ls c, Run (server shortest Text.reference) Releases
    ServerConfig.initial ls c ∧ (c.world.rooms 0).erased = true ∧ c.world.dangling = [] := by
  have found : (execute (server shortest Text.reference) releasesCheck ServerConfig.initial
      (startsUp ++ asksRoom (.dispose 0 :: disposes ++ .ret :: steps 3))).any
      (fun c => (c.world.rooms 0).erased) = true := by
    decide +kernel
  obtain ⟨c, run, erased⟩ := exists_run _ found
  have run' : Run _ Releases _ _ c := run.weaken _ releasesCheck_sound
  exact ⟨_, c, run', erased, room_lifetime run'⟩

/-- Both members hang up, and `on_leave` lets each of them come back. When the time of the first is over,
its leave disposes of the room; then the timer of the second goes off. -/
theorem room_used_after_erasure : ¬ ∀ (M : MsgpackC) (J : JsonText) (ls : List (Label Answer EnvEvent))
    (c : ServerConfig), Run (server M J) (fun _ _ => True) ServerConfig.initial ls c →
      c.world.dangling = [] := by
  intro untouched
  have found : (execute (server shortest Text.reference) (fun _ _ => true) ServerConfig.initial
      (startsUp ++ connects alice ++ connects carol ++ joinsRoom (lit "s") ++ joinsRoom (lit "u") ++
        leavesWaiting ++ .env (.hangup (lit "u")) :: .take 1 ::
        (steps 5 ++ [Answer.allowReconnection (lit "c") 30]).map .act ++
        .env (.tick 30000) :: .env (.fire 1) :: .take 2 :: (steps 3).map .act ++
        turn (steps 1 ++ .ret :: steps 1 ++ disposes ++ steps 4) ++
        .env (.fire 1) :: .take 1 :: [.act .next])).any
      (fun c => !c.world.dangling.isEmpty) = true := by
    decide +kernel
  obtain ⟨c, run, used⟩ := exists_run _ found
  rw [untouched _ _ _ c (run.weaken _ fun _ => trivial)] at used
  cases used

end Blueboat
