import Blueboat.Progress

set_option autoImplicit false

/-! A room that is managed has its timer, and somebody in it or somebody waited for. -/
namespace Blueboat

open Protocol LockMachine Ledger

/-! The timers of the rooms. -/

/-- The timer of the room is set, or its callback is about to run. -/
structure Ticks (w : World) (r : RoomRef) (task : Task) : Prop where
  callback : task.callback = .autoDispose r
  live : w.cancelled task.id = false
  pending : task ∈ w.tasks ∨ task ∈ w.working

structure Ticking (w : World) : Prop where
  ticks : ∀ r, w.Timed r → (w.rooms r).disposing = false → ∃ task, Ticks w r task
  unset : ∀ i, w.cancelled i = true → i < w.nextTask

section
variable {M : MsgpackC} {J : JsonText} {w : World} {cmd : Cmd} {a : Answer} {o : Out} {r : RoomRef}
  {c c' : ServerConfig} {l : Label Answer EnvEvent}

theorem timed_born (sound : w.ledger.Sound) (timed : w.Timed r) : r < w.nextRoom := by
  by_contra unborn
  rw [World.Timed, show (w.rooms r).autoDisposeTimer = none from
    (sound.unborn (Nat.not_lt.1 unborn)).2.2.1] at timed
  cases timed

/-- A room that has a timer afterwards had it before, or has just been given it. -/
theorem exec_timed (run : exec M J w cmd a = some o) (sound : w.ledger.Sound)
    (unset : ∀ i, w.cancelled i = true → i < w.nextTask) (timed : o.world.Timed r) :
    w.Timed r ∨ ∃ task, Ticks o.world r task := by
  have effect := exec_effect M J run
  rcases effect.rewires r with post | ⟨-, post⟩ | ⟨post, -⟩ | ⟨post, -⟩ | post
  · exact .inl ((congrArg (fun p : Post => p.autoDisposeTimer.isSome) post).symm.trans timed)
  · cases (congrArg (fun p : Post => p.autoDisposeTimer.isSome) post).symm.trans timed
  · right
    have fresh : w.cancelled w.nextTask = false := by
      by_contra set
      exact absurd (unset _ (by simpa using set)) (Nat.lt_irrefl _)
    have stores : ∃ storage managing, o.world.toStores =
        { (w.ledger.subscribeRoom r).toStores with storage := storage, managingRooms := managing } := by
      cases effect with
      | still same =>
        have timer := (congrArg (fun k : Ledger => (k.lives r).autoDisposeTimer) same).symm.trans
          (congrArg Post.autoDisposeTimer post)
        exact absurd (sound.timer timer) (Nat.lt_irrefl _)
      | registered _ ledger => exact ⟨_, _, congrArg Ledger.toStores ledger⟩
      | unrecorded _ ledger => exact ⟨_, _, congrArg Ledger.toStores ledger⟩
      | removed calls => cases calls
      | disposed calls => cases calls
    obtain ⟨storage, managing, stores⟩ := stores
    refine ⟨⟨w.nextTask, w.now + autoDisposeAfter, .autoDispose r⟩, rfl, ?_, .inl ?_⟩
    · rw [stores]
      exact fresh
    · rw [stores]
      exact List.mem_append_right _ List.mem_cons_self
  · exact .inl ((congrArg (fun p : Post => p.autoDisposeTimer.isSome) post).symm.trans timed)
  · exact .inl ((congrArg (fun p : Post => p.autoDisposeTimer.isSome) post).symm.trans timed)

theorem Ticking.exec (ticking : Ticking w) (sound : w.ledger.Sound) (ok : cmd.Ok w.ledger)
    (run : Blueboat.exec M J w cmd a = some o) : Ticking o.world := by
  have effect := exec_effect M J run
  have retimes := effect.retimes sound
  refine ⟨fun r timed lives => ?_, retimes.unset sound ticking.unset⟩
  rcases exec_timed run sound ticking.unset timed with before | new
  swap
  · exact new
  have spared : (w.rooms r).disposing = false := by
    by_contra disposing
    have stays := (effect.sound sound ok).2.disposing (timed_born sound before) (by simpa using disposing)
    cases lives.symm.trans stays
  obtain ⟨task, callback, live, pending⟩ := ticking.ticks r before spared
  have recorded : w.ledger.Recorded task := sound.task pending
  rw [Recorded, callback] at recorded
  refine ⟨task, callback, ?_, ?_⟩
  · cases retimes with
    | kept _ _ cancelled | set _ _ cancelled | ran _ _ cancelled => rw [cancelled]; exact live
    | @cancelled _ i _ _ cancelled _ owner =>
      rw [cancelled, Function.update_of_ne, live]
      rintro rfl
      rcases owner with ⟨r', rfl, timer⟩ | ⟨v, made, timer⟩
      · obtain rfl := sound.timers recorded.2 timer
        cases spared.symm.trans ok.2
      · exact sound.waitTimer made (recorded.2.trans (congrArg some timer.symm))
  · cases retimes with
    | kept tasks working | cancelled tasks working => rwa [tasks, working]
    | set tasks working =>
      rw [tasks, working]
      exact pending.imp_left (List.mem_append_left _)
    | @ran ran tasks working =>
      rw [tasks, working]
      refine pending.imp_right fun mem => (List.mem_erase_of_ne ?_).2 mem
      rintro rfl
      cases lives.symm.trans (exec_autoDispose run callback)

theorem Ticks.unwound {x : Exn} {task : Task} (ticks : Ticks w r task) (effect : Unwound w cmd x a o) :
    Ticks o.world r task := by
  obtain ⟨callback, live, pending⟩ := ticks
  have stores := effect.stores
  exact ⟨callback, by rw [stores]; exact live, by rw [stores]; exact pending⟩

theorem Ticks.arrival {w' : World} {e : EnvEvent} {new : List (Tid × List Cmd)} {task : Task}
    (ticks : Ticks w r task) (h : Arrival w e w' new) : Ticks w' r task := by
  obtain ⟨callback, live, pending⟩ := ticks
  have stays := h.pending live pending
  cases h <;> exact ⟨callback, live, stays⟩

theorem Ticking.step (ticking : Ticking c.world) (kept : Kept c) (h : Step (server M J) c l c') :
    Ticking c'.world := by
  cases h with
  | finish | crash | take => exact ticking
  | exec _ top run =>
    rw [world_settle]
    exact ticking.exec kept.sound ((kept.stack top).ok _ List.mem_cons_self) run
  | @unwind tid cmd rest x a o _ top run =>
    rw [world_settle]
    have effect := unwind_effect run
    have stores := effect.stores
    refine ⟨fun r timed lives => ?_, by rw [stores]; exact ticking.unset⟩
    have before : c.world.Timed r :=
      (congrArg (fun p : Post => p.autoDisposeTimer.isSome) (effect.rooms r)).symm.trans timed
    have spared : (c.world.rooms r).disposing = false := by
      by_contra disposing
      have stays := kept.stays_disposing (.unwind ‹_› top run) (timed_born kept.sound before)
        (by simpa using disposing)
      rw [world_settle] at stays
      cases lives.symm.trans stays.2
    obtain ⟨task, ticks⟩ := ticking.ticks r before spared
    exact ⟨task, ticks.unwound effect⟩
  | @env e w new _ run =>
    have arrival := spawn_arrival run
    obtain ⟨rooms, -, -, cancelled, -⟩ := arrival.frame
    have nextTask : w.nextTask = c.world.nextTask := by cases arrival <;> rfl
    refine ⟨fun r timed lives => ?_, fun i set => ?_⟩
    · rw [World.Timed, rooms] at timed
      rw [rooms] at lives
      obtain ⟨task, ticks⟩ := ticking.ticks r timed lives
      exact ⟨task, ticks.arrival arrival⟩
    · rw [cancelled] at set
      rw [nextTask]
      exact ticking.unset i set

theorem Ticking.run {ok : ServerConfig → Label Answer EnvEvent → Prop}
    {ls : List (Label Answer EnvEvent)} (run : Run (server M J) ok ServerConfig.initial ls c) :
    Ticking c.world := by
  replace run := run.strengthen _ Kept.initial fun kept _ h => kept.step h
  induction run with
  | nil => exact ⟨nofun, nofun⟩
  | snoc _ meets last ih => exact ih.step meets.2 last

end

/-! Who checks a room that has become empty. -/

/-- The last member has left the room, and its disposal has not begun. -/
structure World.Deserted (w : World) (r : RoomRef) : Prop where
  visited : (w.rooms r).visited = true
  empty : (w.rooms r).clients = []
  lives : (w.rooms r).disposing = false

/-- No exception leaves `remove_client` before it has looked whether the room is empty. -/
def LeavesReturn (c : ServerConfig) (_ : Label Answer EnvEvent) : Prop :=
  ∀ tid r rest x, c.running ≠ some ⟨tid, .disposeIfEmpty r :: rest, some x⟩

def Heeded (c : ServerConfig) : Prop :=
  ∀ r, c.world.Deserted r → ∃ t ∈ c.threads, .disposeIfEmpty r ∈ t.stack

section
variable {M : MsgpackC} {J : JsonText} {w : World} {cmd : Cmd} {a : Answer} {o : Out} {r : RoomRef}
  {c c' : ServerConfig} {l : Label Answer EnvEvent}

theorem removeClient_checks {sessionId : Str} {intentional : Bool} (listed : sessionId ∈ w.sessionsIn r) :
    .disposeIfEmpty r ∈ (removeClient w r sessionId intentional).2 := by
  obtain ⟨-, ⟨absent, -⟩ | ⟨client, listeners, -, leaves⟩⟩ := removeClient_cases w r sessionId intentional
  · obtain ⟨client, mem, rfl⟩ := List.mem_map.1 listed
    exact absurd (List.find?_eq_none.1 absent client mem) (by simp)
  · rw [leaves]
    simp [leaveOf]

theorem exec_checks {sessionId : Str} {intentional : Bool} {left : List Cmd}
    (run : exec M J w cmd a = some o) (calls : Removes cmd a r sessionId intentional left)
    (listed : sessionId ∈ w.sessionsIn r) : .disposeIfEmpty r ∈ o.push := by
  cases calls with
  | playerLeft reads =>
    simp only [exec, handle, reads] at run
    obtain rfl := Option.some.inj run
    exact List.mem_append_left _ (removeClient_checks listed)
  | hook | loop =>
    obtain rfl := Option.some.inj run
    exact List.mem_append_left _ (removeClient_checks listed)

/-- A room that is deserted afterwards was deserted before, or its last member is just leaving. -/
theorem exec_deserts (run : exec M J w cmd a = some o) (deserted : o.world.Deserted r) :
    w.Deserted r ∨ .disposeIfEmpty r ∈ o.push := by
  obtain ⟨visited, empty, lives⟩ := deserted
  have same : ∀ {k : Ledger}, k.SameStory o.world.ledger →
      (k.lives r).story = (w.rooms r).toLife.story → w.Deserted r ∨ .disposeIfEmpty r ∈ o.push := by
    intro k story kept
    have whole : (o.world.rooms r).toLife.story = (w.rooms r).toLife.story := (story r).trans kept
    exact .inl ⟨(congrArg Story.visited whole).symm.trans visited,
      (congrArg Story.clients whole).symm.trans empty,
      (congrArg Story.disposing whole).symm.trans lives⟩
  have disposed : ∀ {r' : RoomRef} {cause : Cause}, (w.ledger.dispose r' cause).SameStory o.world.ledger →
      w.Deserted r ∨ .disposeIfEmpty r ∈ o.push := by
    intro r' cause story
    by_cases here : r = r'
    · subst here
      cases lives.symm.trans ((story.disposing r).trans (disposing_dispose ..))
    · refine same story ?_
      unfold Ledger.dispose
      dsimp only
      split
      · rfl
      · exact congrArg Life.story (setLife_ne _ here _)
  cases (exec_effect M J run).tells with
  | same story => exact same story rfl
  | @birth _ _ _ roomId _ _ _ story =>
    by_cases fresh : r = w.nextRoom
    · subst fresh
      have born := (story.visited w.nextRoom).trans (congrArg Life.visited (birth_self w.ledger roomId))
      cases visited.symm.trans born
    · exact same story (congrArg Life.story (birth_ne w.ledger roomId fresh))
  | @removed _ _ r' sessionId _ _ calls story =>
    by_cases here : r = r'
    · subst here
      by_cases listed : sessionId ∈ w.sessionsIn r
      · exact .inr (exec_checks run calls listed)
      · refine same story ?_
        have kept : (w.rooms r).clients.eraseP (fun c => c.sessionId = sessionId) = (w.rooms r).clients :=
          List.eraseP_of_forall_not fun client mem named =>
            listed (List.mem_map.2 ⟨client, mem, of_decide_eq_true named⟩)
        refine (congrArg Life.story (setLife_self ..)).trans ?_
        rw [Life.story, ledger_lives, kept]
        rfl
    · exact same story (congrArg Life.story (setLife_ne _ here _))
  | disposed _ story => exact disposed story
  | autoDisposed _ story => exact disposed story
  | @admitted r' client _ _ story =>
    by_cases here : r = r'
    · subst here
      have some := (story.clients r).trans (clients_addMember_self w.ledger r client)
      cases List.append_ne_nil_of_right_ne_nil _ (List.cons_ne_nil _ _) (some.symm.trans empty)
    · exact same story (congrArg Life.story (setLife_ne _ here _))
  | @gone r' _ story =>
    have kept : ((w.ledger.onRoomDisposed r').lives r).visited = (w.rooms r).visited ∧
        ((w.ledger.onRoomDisposed r').lives r).clients = (w.rooms r).clients ∧
        ((w.ledger.onRoomDisposed r').lives r).disposing = (w.rooms r).disposing := by
      rw [onRoomDisposed_lives]
      exact ⟨rfl, rfl, rfl⟩
    exact .inl ⟨kept.1.symm.trans ((story.visited r).symm.trans visited),
      kept.2.1.symm.trans ((story.clients r).symm.trans empty),
      kept.2.2.symm.trans ((story.disposing r).symm.trans lives)⟩

/-- The check leaves no room deserted. -/
theorem disposeIfEmpty_heeds (run : exec M J w (.disposeIfEmpty r) a = some o) : ¬ o.world.Deserted r := by
  intro ⟨visited, empty, lives⟩
  by_cases nobody : (w.rooms r).clients = []
  · have result : some (goAfter (dispose w r .lastLeave) []) = some o := by
      rw [← run, Blueboat.exec, if_pos nobody]
    obtain rfl := Option.some.inj result
    have disposing := (congrArg (fun k : Ledger => (k.lives r).disposing)
      (dispose_cases w r .lastLeave).1).trans (disposing_dispose ..)
    cases lives.symm.trans disposing
  · have result : some (Outcome.go (w.touch r) []) = some o := by
      rw [← run, Blueboat.exec, if_neg nobody]
    obtain rfl := Option.some.inj result
    exact nobody ((congrArg (fun rooms => (rooms r).clients) (touch_rooms w r)).symm.trans empty)

theorem Unwound.deserts {x : Exn} (h : Unwound w cmd x a o) (deserted : o.world.Deserted r) :
    w.Deserted r := by
  obtain ⟨visited, empty, lives⟩ := deserted
  have same : (o.world.rooms r).toLife.story = (w.rooms r).toLife.story → w.Deserted r := fun whole =>
    ⟨(congrArg Story.visited whole).symm.trans visited, (congrArg Story.clients whole).symm.trans empty,
      (congrArg Story.disposing whole).symm.trans lives⟩
  cases h with
  | passed | handled => exact same rfl
  | caught _ ledger => exact same (congrArg (fun k : Ledger => (k.lives r).story) ledger)
  | @rolledBack r' _ _ _ _ _ _ ledger =>
    have story := congrArg (fun k : Ledger => (k.lives r).story) ledger
    by_cases here : r = r'
    · subst here
      have disposing := (congrArg Story.disposing story).trans (disposing_dispose w.ledger r .rollback)
      cases lives.symm.trans disposing
    · refine same (story.trans ?_)
      unfold Ledger.dispose
      dsimp only
      split
      · rfl
      · exact congrArg Life.story (setLife_ne _ here _)

theorem Heeded.step (heeded : Heeded c) (meets : LeavesReturn c l) (h : Step (server M J) c l c') :
    Heeded c' := by
  have settled : ∀ {tid : Tid} {cmd : Cmd} {rest : List Cmd} {x : Option Exn} {o : Out} {r : RoomRef},
      c.running = some ⟨tid, cmd :: rest, x⟩ → c.world.Deserted r → cmd ≠ .disposeIfEmpty r →
      ∃ t ∈ (settle c tid rest o).threads, .disposeIfEmpty r ∈ t.stack := by
    intro tid cmd rest x o r top deserted other
    obtain ⟨t, mem, checks⟩ := heeded r deserted
    have threads := threads_settle c tid rest o
    rcases List.mem_append.1 mem with mem | mem
    · cases (Option.mem_toList.1 mem).symm.trans top
      have below := (List.mem_cons.1 checks).resolve_left (Ne.symm other)
      exact ⟨_, threads.mem_iff.2 List.mem_cons_self, List.mem_append_right _ below⟩
    · exact ⟨t, threads.mem_iff.2 (List.mem_cons_of_mem _ mem), checks⟩
  intro r deserted
  cases h with
  | finish _ top =>
    obtain ⟨t, mem, checks⟩ := heeded r deserted
    refine ⟨t, (List.mem_append.1 mem).resolve_left fun mem => ?_, checks⟩
    cases (Option.mem_toList.1 mem).symm.trans top
    cases checks
  | crash => exact heeded r deserted
  | @exec tid cmd rest a o _ top run =>
    rw [world_settle] at deserted
    rcases exec_deserts run deserted with before | pushed
    · refine settled top before ?_
      rintro rfl
      exact disposeIfEmpty_heeds (M := M) (J := J) (a := a) run deserted
    · exact ⟨_, (threads_settle c tid rest o).mem_iff.2 List.mem_cons_self, List.mem_append_left _ pushed⟩
  | @unwind tid cmd rest x a o _ top run =>
    rw [world_settle] at deserted
    refine settled top ((unwind_effect run).deserts deserted) ?_
    rintro rfl
    exact meets _ _ _ _ top
  | take _ free at_i =>
    obtain ⟨t, mem, checks⟩ := heeded r deserted
    exact ⟨t, (threads_take free at_i).mem_iff.2 mem, checks⟩
  | @env e w new _ run =>
    obtain ⟨rooms, -⟩ := (spawn_arrival run).frame
    obtain ⟨visited, empty, lives⟩ := deserted
    rw [rooms] at visited empty lives
    obtain ⟨t, mem, checks⟩ := heeded r ⟨visited, empty, lives⟩
    exact ⟨t, mem_started (.inl mem), checks⟩

end

/-! Where a room's thread may be suspended. -/

def Cmd.pauses : Cmd → Bool
  | .recordActivity _ => true
  | .subscribeInfo _ => true
  | .waitInfo => true
  | _ => false

/-- Nothing of a room is under a command that releases the lock, and what is suspended with something of
a room waits for a reconnection. -/
structure Suspended (c : ServerConfig) : Prop where
  spaced : ∀ t ∈ c.threads,
    t.stack.Pairwise fun above below => above.pauses = true → below.family = none
  waits : ∀ t ∈ c.parked, ∀ cmd ∈ t.stack, cmd.family ≠ none → ∃ v, .futureGet v ∈ t.stack

section
variable {M : MsgpackC} {J : JsonText} {w : World} {cmd : Cmd} {a : Answer} {o : Out}
  {c c' : ServerConfig} {l : Label Answer EnvEvent}

theorem Pushed.pauses {c : Cmd} (h : Pushed w cmd a c) (pauses : c.pauses = true) :
    cmd.pauses = true := by
  cases h with
  | child child => cases child <;> cases pauses
  | leave _ mem =>
    have family := (leaveOf_family c mem).1
    cases c with
    | recordActivity | subscribeInfo | waitInfo => cases family
    | _ => cases pauses
  | waitInfo => rfl
  | _ => cases pauses

theorem pauses_pushes (run : exec M J w cmd a = some o) (pauses : cmd.pauses = true) :
    ∀ c ∈ o.push, c.family = none := by
  cases cmd with
  | recordActivity =>
    simp only [exec] at run
    split at run <;> obtain rfl := Option.some.inj run <;> simp
  | subscribeInfo =>
    obtain rfl := Option.some.inj run
    simp [Cmd.family]
  | waitInfo =>
    obtain rfl := Option.some.inj run
    simp
  | _ => cases pauses

/-- The lock is released by one of these commands, or for a reconnection. -/
theorem exec_suspends (run : exec M J w cmd a = some o) (parks : o.parks = true) :
    (o.push = [] ∧ cmd.pauses = true) ∨ ∃ v, .futureGet v ∈ o.push := by
  rcases exec_parks run parks with ⟨none, off⟩ | ⟨v, d, push⟩
  swap
  · exact .inr ⟨v, push ▸ List.mem_cons_self⟩
  refine .inl ⟨none, ?_⟩
  cases cmd with
  | recordActivity | waitInfo => rfl
  | inHook => cases off
  | deliver payload handlers =>
    cases handlers with
    | nil => cases run; cases parks
    | cons handler handlers =>
      cases run
      rw [handle_goes] at parks
      cases parks
  | createNewRoom | shutdown =>
    cases a <;> simp only [exec, createNewRoom, reduceCtorEq] at run
    (repeat' split at run) <;> cases run <;> cases parks
  | callJoinListeners r client left | callLeaveListeners r client intentional left
  | disposeLoop r left | disposeByIds left =>
    cases left <;> simp only [exec, joinListener, goAfter] at run
    all_goals (repeat' split at run) <;> cases run <;> cases parks
  | _ =>
    simp only [exec, dispatch, handleClientMessage, joinRoom, created, timerBody, goAfter] at run
    (repeat' split at run) <;> cases run <;> cases parks

theorem Suspended.settled {tid : Tid} {cmd : Cmd} {rest : List Cmd} {x : Option Exn} {o : Out}
    (suspended : Suspended c) (top : c.running = some ⟨tid, cmd :: rest, x⟩)
    (pushes : ∀ d ∈ o.push, d.pauses = true → cmd.pauses = true)
    (plain : cmd.pauses = true → ∀ d ∈ o.push, d.family = none)
    (parks : o.parks = true → (o.push = [] ∧ cmd.pauses = true) ∨ ∃ v, .futureGet v ∈ o.push) :
    Suspended (settle c tid rest o) := by
  obtain ⟨beneath, below⟩ := List.pairwise_cons.1 (suspended.spaced _ (running_mem_threads top))
  refine ⟨fun t mem => ?_, fun t mem d here family => ?_⟩
  · rcases List.mem_cons.1 ((threads_settle c tid rest o).mem_iff.1 mem) with rfl | mem
    · refine List.pairwise_append.2 ⟨?_, below, fun d pushed b mem pauses => ?_⟩
      · exact List.pairwise_of_forall_mem_list fun d pushed b pushed' pauses =>
          plain (pushes d pushed pauses) b pushed'
      · exact beneath b mem (pushes d pushed pauses)
    · exact suspended.spaced t (List.mem_append_right _ mem)
  · rcases parked_settle mem with mem | ⟨releases, rfl⟩
    · exact suspended.waits t mem d here family
    · rcases parks releases with ⟨none, pauses⟩ | ⟨v, waits⟩
      · rw [none] at here
        exact absurd (beneath d here pauses) family
      · exact ⟨v, List.mem_append_left _ waits⟩

theorem Arrival.outside {w' : World} {e : EnvEvent} {new : List (Tid × List Cmd)}
    (h : Arrival w e w' new) : ∀ p ∈ new, ∀ cmd ∈ p.2, cmd.family = none := by
  cases h <;> simp [Cmd.family]

theorem Suspended.step (suspended : Suspended c) (h : Step (server M J) c l c') : Suspended c' := by
  cases h with
  | finish => exact ⟨fun t mem => suspended.spaced t (List.mem_append_right _ mem), suspended.waits⟩
  | crash => exact ⟨suspended.spaced, suspended.waits⟩
  | exec _ top run =>
    exact suspended.settled top (fun d pushed => ((exec_effect M J run).pushed pushed).pauses)
      (pauses_pushes run) (exec_suspends run)
  | unwind _ top run =>
    have effect := unwind_effect run
    refine suspended.settled top (fun d pushed pauses => ?_) (fun pauses d pushed => ?_) fun parks => ?_
    · cases effect.resumed pushed <;> cases pauses
    · cases effect.resumed pushed <;> first | rfl | cases pauses
    · cases effect <;> cases parks
  | take _ free at_i =>
    have threads := threads_take free at_i
    exact ⟨fun t mem => suspended.spaced t (threads.mem_iff.1 mem),
      fun t mem => suspended.waits t (List.mem_of_mem_eraseIdx mem)⟩
  | @env e w new _ run =>
    have outside := (spawn_arrival run).outside
    refine ⟨fun t mem => ?_, fun t mem cmd here family => ?_⟩
    · rcases List.mem_append.1 mem with mem | mem
      · exact suspended.spaced t (List.mem_append_left _ mem)
      · rcases List.mem_append.1 mem with mem | mem
        · exact suspended.spaced t (List.mem_append_right _ mem)
        · obtain ⟨p, hp, rfl⟩ := List.mem_map.1 mem
          exact List.pairwise_of_forall_mem_list fun _ _ b below _ => outside p hp b below
    · rcases List.mem_append.1 mem with mem | mem
      · exact suspended.waits t mem cmd here family
      · obtain ⟨p, hp, rfl⟩ := List.mem_map.1 mem
        exact absurd (outside p hp cmd here) family

theorem Suspended.run {ok : ServerConfig → Label Answer EnvEvent → Prop}
    {ls : List (Label Answer EnvEvent)} (run : Run (server M J) ok ServerConfig.initial ls c) :
    Suspended c := by
  induction run with
  | nil => exact ⟨fun t mem => absurd mem List.not_mem_nil, fun t mem => absurd mem List.not_mem_nil⟩
  | snoc _ _ last ih => exact ih.step last

end

section
variable {M : MsgpackC} {J : JsonText} {c : ServerConfig}

end

end Blueboat
