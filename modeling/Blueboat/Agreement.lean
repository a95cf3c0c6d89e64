import Blueboat.Standing

set_option autoImplicit false

/-! The map of managed rooms, the records and the listeners of both channels name the same rooms
whenever the lock is free. -/
namespace Blueboat

open Protocol LockMachine Ledger

def Handler.isGameMessage : Handler → Bool
  | .gameMessage _ => true
  | _ => false

/-- The hooks other than `on_create` return normally. -/
def HooksReturn (c : ServerConfig) (l : Label Answer EnvEvent) : Prop :=
  ∀ tid r hook rest e, c.running = some ⟨tid, .inHook r hook :: rest, e⟩ → hook.isCreate = false →
    l ≠ .act .propagate ∧ ∀ x, l ≠ .act (.throw x)

/-- An exception that is under way leaves no disposal: it is at a hook that will handle it, or there
is no disposal below. -/
structure Sheltered (c : ServerConfig) : Prop where
  raised : ∀ tid stack x, c.running = some ⟨tid, stack, some x⟩ →
    (∀ cmd ∈ stack, cmd.withdraws = none) ∨
      ∃ r hook rest, stack = .inHook r hook :: rest ∧ hook.isCreate = false
  parked : ∀ t ∈ c.parked, t.exn = none

section
variable {M : MsgpackC} {J : JsonText} {c c' : ServerConfig} {l : Label Answer EnvEvent}

/-- A hook raises what the application throws, or what a call of the room raises. -/
theorem inHook_raises {w : World} {r : RoomRef} {hook : Hook} {a : Answer} {o : Out}
    (run : exec M J w (.inHook r hook) a = some o) (raises : o.exn.isSome = true) :
    (∃ x, a = .throw x ∧ o.push = []) ∨ o.push = [.inHook r hook] := by
  cases a with
  | throw x => obtain rfl := Option.some.inj run; exact .inl ⟨x, rfl, rfl⟩
  | ret | removeFromRoom | send | setState | addJoinListener | addLeaveListener =>
    obtain rfl := Option.some.inj run
    cases raises
  | dispose r' =>
    simp only [exec, inHook] at run
    split at run
    · obtain rfl := Option.some.inj run
      cases raises
    · cases run
  | allowReconnection clientId seconds =>
    simp only [exec, inHook] at run
    split at run <;> (obtain rfl := Option.some.inj run; cases raises)
  | setMetadata metadata =>
    simp only [exec, inHook] at run
    split at run <;> (obtain rfl := Option.some.inj run; exact .inr rfl)
  | setGameValues values =>
    simp only [exec, inHook] at run
    split at run <;> (obtain rfl := Option.some.inj run; exact .inr rfl)
  | _ => cases run

theorem Effect.raises {w : World} {cmd : Cmd} {a : Answer} {o : Out} (h : Effect J w cmd a o)
    (raises : o.exn.isSome = true) : (cmd.family = none ∧ ∀ d ∈ o.push, d.withdraws = none) ∨
      ∃ r hook, cmd = .inHook r hook := by
  cases h with
  | still _ children _ outside =>
    exact (outside raises).imp_left fun family => ⟨family, fun d mem => (children d mem).withdraws⟩
  | purged | unrecorded => exact .inl ⟨rfl, nofun⟩
  | _ => cases raises

theorem Sheltered.initial : Sheltered ServerConfig.initial := ⟨nofun, nofun⟩

theorem Sheltered.step (sheltered : Sheltered c) (acc : Accounted J c) (meets : HooksReturn c l)
    (h : Step (server M J) c l c') : Sheltered c' := by
  cases h with
  | finish => exact ⟨nofun, sheltered.parked⟩
  | crash => exact ⟨sheltered.raised, sheltered.parked⟩
  | @exec tid cmd rest a o _ top run =>
    refine ⟨fun tid' stack x top' => ?_, fun t mem => ?_⟩
    · obtain ⟨-, rfl, raised⟩ := Thread.mk.inj (running_settle top')
      have stack := acc.known.kept.stack top
      have raises : o.exn.isSome = true := by rw [← raised]; rfl
      rcases (exec_effect M J run).raises raises with ⟨family, pushed⟩ | ⟨r, hook, rfl⟩
      · left
        have below := stack.no_withdraws fun ⟨r, quiet, _⟩ => by cases family.symm.trans quiet
        exact fun d mem => (List.mem_append.1 mem).elim (pushed d) (below d)
      · -- nothing is disposed of below the `on_create` of a room
        have created : hook.isCreate = true → ∀ d ∈ rest, d.withdraws = none := by
          intro creates
          have opens : (Cmd.inHook r hook).opens = some r := by
            cases hook <;> first | rfl | cases creates
          have lives := ((acc.holding _ top).pristine _ List.mem_cons_self r opens).disposing
          refine stack.no_withdraws fun ⟨r', same, _, disposing⟩ => ?_
          cases same
          cases lives.symm.trans disposing
        rcases inHook_raises (M := M) run raises with ⟨x', rfl, push⟩ | push
        · cases creates : hook.isCreate with
          | true => rw [push]; exact .inl (created creates)
          | false => exact absurd rfl ((meets _ _ _ _ _ top creates).2 x')
        · rw [push]
          cases creates : hook.isCreate with
          | true =>
            refine .inl fun d mem => ?_
            rcases List.mem_cons.1 mem with rfl | mem
            · rfl
            · exact created creates d mem
          | false => exact .inr ⟨r, hook, rest, rfl, creates⟩
    · rcases parked_settle mem with mem | ⟨-, rfl⟩
      · exact sheltered.parked t mem
      · rfl
  | @unwind tid cmd rest x a o _ top run =>
    refine ⟨fun tid' stack x' top' => ?_, fun t mem => ?_⟩
    · obtain ⟨-, rfl, raised⟩ := Thread.mk.inj (running_settle top')
      rcases sheltered.raised _ _ _ top with quiet | ⟨r, hook, below, same, other⟩
      · cases unwind_effect run with
        | passed => exact .inl fun d mem => quiet d (List.mem_cons_of_mem _ mem)
        | _ => cases raised
      · cases same
        cases a with
        | handle => obtain rfl := Option.some.inj run; cases raised
        | propagate => exact absurd rfl (meets _ _ _ _ _ top other).1
        | _ => cases run
    · rcases parked_settle mem with mem | ⟨-, rfl⟩
      · exact sheltered.parked t mem
      · rfl
  | @take i t _ _ at_i =>
    refine ⟨fun tid stack x top => ?_, fun t' mem => sheltered.parked t' (List.mem_of_mem_eraseIdx mem)⟩
    obtain rfl := Option.some.inj top
    cases sheltered.parked _ (List.mem_of_getElem? at_i)
  | env =>
    refine ⟨sheltered.raised, fun t mem => ?_⟩
    rcases List.mem_append.1 mem with mem | mem
    · exact sheltered.parked t mem
    · obtain ⟨p, -, rfl⟩ := List.mem_map.1 mem
      rfl

structure Normal (J : JsonText) (c : ServerConfig) : Prop where
  acc : Accounted J c
  sheltered : Sheltered c
  covered : Covered c

theorem Normal.step (normal : Normal J c) (lawful : J.Lawful) (steady : Steady c l)
    (returns : HooksReturn c l) (h : Step (server M J) c l c') : Normal J c' := by
  refine ⟨normal.acc.step lawful steady h, normal.sheltered.step normal.acc returns h,
    Covered.step normal.acc.known lawful (fun tid r client creator rest top => ?_)
      (fun tid cmd rest x r top withdraws => ?_) normal.covered h⟩
  · exact ((normal.acc.holding _ top).pristine _ List.mem_cons_self r rfl).disposing
  · rcases normal.sheltered.raised _ _ _ top with quiet | ⟨r', hook, below, same, -⟩
    · cases (quiet _ List.mem_cons_self).symm.trans withdraws
    · cases same
      cases withdraws

theorem Normal.initial : Normal J ServerConfig.initial := ⟨.initial, .initial, nofun⟩

/-- A room that something leads to stands while the lock is free. -/
theorem Normal.standing (normal : Normal J c) (free : c.running = none) {r : RoomRef}
    (born : r < c.world.nextRoom) (attached : c.world.Attached r) : Standing c.world r := by
  rcases normal.acc.rooms r born with standing | disposing | ⟨t, _, _, top, -⟩
  · exact standing
  · rcases (normal.covered r disposing).2 with ⟨t, _, top, -⟩ | off
    · cases free.symm.trans top
    · exact absurd attached off
  · cases free.symm.trans top

/-- The id that `create_new_room` is about to register a room under is not in use. -/
theorem Normal.unused (normal : Normal J c) {tid : Tid} {r : RoomRef} {client : SimpleClient}
    {creator : Creator} {rest : List Cmd}
    (top : c.running = some ⟨tid, .created r client creator :: rest, none⟩) :
    c.world.managingRooms.lookup (c.world.rooms r).roomId = none := by
  rw [Option.eq_none_iff_forall_ne_some]
  intro r' managed
  have pristine := (normal.acc.holding _ top).pristine _ List.mem_cons_self r rfl
  rcases (normal.covered r' (pristine.free r' managed)).2 with ⟨t, d, top', mem, withdraws⟩ | off
  · cases top.symm.trans top'
    have quiet := (normal.acc.known.kept.stack top).no_withdraws fun ⟨_, family, _⟩ => by cases family
    rcases List.mem_cons.1 mem with rfl | mem
    · cases withdraws
    · cases (quiet d mem).symm.trans withdraws
  · exact off (.inr ⟨_, managed⟩)

end

/-! The counts. -/

theorem countP_one {l : List (Listener Handler)} (ids : (l.map Listener.id).Nodup)
    {p : Listener Handler → Bool} {x : Listener Handler} (mem : x ∈ l) (holds : p x = true)
    (only : ∀ y ∈ l, p y = true → y = x) : l.countP p = 1 := by
  rw [← List.count_eq_one_of_mem (.of_map _ ids) mem, List.count]
  refine List.countP_congr fun y listed => ⟨fun hears => beq_iff_eq.2 (only y listed hears), fun same => ?_⟩
  rw [beq_iff_eq.1 same]
  exact holds

theorem nodup_values {β : Type} {d : Dict β} (f : β → Str)
    (named : ∀ {key value}, d.lookup key = some value → f value = key) :
    (d.entries.map Sigma.snd).Nodup := by
  refine List.Nodup.map_on (fun e mem e' mem' same => ?_) d.nodupKeys.nodup
  have key := named (AList.mem_lookup_iff.2 mem)
  have key' := named (AList.mem_lookup_iff.2 mem')
  exact Sigma.ext (key.symm.trans ((congrArg f same).trans key')) (heq_of_eq same)

def Handler.room : Handler → RoomRef
  | .gameMessage r => r
  | .playerLeft r => r
  | .infoRequest _ => 0

section
variable {M : MsgpackC} {J : JsonText} {c : ServerConfig}

theorem Normal.managed (normal : Normal J c) (free : c.running = none) {roomId : Str} {r : RoomRef}
    (managed : c.world.managingRooms.lookup roomId = some r) :
    Standing c.world r ∧ (c.world.rooms r).roomId = roomId := by
  obtain ⟨born, named, -⟩ := normal.acc.known.kept.sound.managed managed
  exact ⟨normal.standing free born (.inr ⟨roomId, managed⟩), named⟩

/-- A game-message listener on a channel is that of the room managed under its name. -/
theorem Normal.gameMessage (normal : Normal J c) (free : c.running = none) {key : Str}
    {l : Listener Handler} (mem : l ∈ c.world.pubsub.listenersOf key)
    (hears : l.handler.isGameMessage = true) : ∃ r, l.handler = .gameMessage r ∧
      (c.world.rooms r).gameMessageSub = some l.id ∧ c.world.managingRooms.lookup key = some r := by
  obtain ⟨id, handler⟩ := l
  cases handler with
  | gameMessage r =>
    have owns := (normal.acc.known.kept.sound.owns mem).1
    rw [Owns] at owns
    obtain ⟨alive, rfl, sub⟩ := owns
    have attached : c.world.Attached r := .inl (Option.isSome_iff_exists.2 ⟨_, sub⟩)
    exact ⟨r, rfl, sub, (normal.standing free alive.1 attached).managed⟩
  | _ => cases hears

theorem Normal.playerLeft (normal : Normal J c) (free : c.running = none) {l : Listener Handler}
    (mem : l ∈ c.world.pubsub.listenersOf PLAYER_LEFT) (hears : l.handler.isPlayerLeft = true) :
    ∃ r roomId, l.handler = .playerLeft r ∧ (c.world.rooms r).playerLeftSub = some l.id ∧
      c.world.managingRooms.lookup roomId = some r := by
  obtain ⟨id, handler⟩ := l
  cases handler with
  | playerLeft r =>
    have owns := (normal.acc.known.kept.sound.owns mem).1
    rw [Owns] at owns
    obtain ⟨alive, -, sub⟩ := owns
    have attached : c.world.Attached r := by
      left
      by_contra off
      have paired := (normal.acc.known.filed.paired r (Option.not_isSome_iff_eq_none.1 off)).1
      cases paired.symm.trans sub
    exact ⟨r, _, rfl, sub, (normal.standing free alive.1 attached).managed⟩
  | _ => cases hears

theorem Normal.heard (normal : Normal J c) (free : c.running = none) (roomId : Str) :
    (c.world.managingRooms.lookup roomId).isSome ↔
      (c.world.pubsub.listenersOf roomId).countP (fun l => l.handler.isGameMessage) = 1 := by
  have sound := normal.acc.known.kept.sound
  constructor
  · intro managed
    obtain ⟨r, managed⟩ := Option.isSome_iff_exists.1 managed
    obtain ⟨standing, named⟩ := normal.managed free managed
    obtain ⟨i, sub⟩ := Option.isSome_iff_exists.1 (sound.registered standing.stage).1
    have listed := sound.gameMessage sub
    rw [show (c.world.ledger.lives r).roomId = roomId from named] at listed
    refine countP_one (sound.ids roomId) listed rfl fun l mem hears => ?_
    obtain ⟨r', handles, sub', managed'⟩ := normal.gameMessage free mem hears
    obtain rfl := Option.some.inj (managed.symm.trans managed')
    obtain ⟨id, handler⟩ := l
    obtain rfl := handles
    rw [Option.some.inj (sub.symm.trans sub')]
  · intro one
    obtain ⟨l, mem, hears⟩ := List.countP_pos_iff.1 (one.symm ▸ Nat.one_pos)
    obtain ⟨r, -, -, managed⟩ := normal.gameMessage free mem hears
    exact Option.isSome_iff_exists.2 ⟨r, managed⟩

theorem Normal.counted (normal : Normal J c) (free : c.running = none) :
    (c.world.pubsub.listenersOf PLAYER_LEFT).countP (fun l => l.handler.isPlayerLeft) =
      c.world.managingRooms.keys.length := by
  have sound := normal.acc.known.kept.sound
  let heard := (c.world.pubsub.listenersOf PLAYER_LEFT).filter fun l => l.handler.isPlayerLeft
  have left : ∀ {l}, l ∈ heard → ∃ r roomId, l.handler = .playerLeft r ∧
      (c.world.rooms r).playerLeftSub = some l.id ∧ c.world.managingRooms.lookup roomId = some r :=
    fun mem => normal.playerLeft free (List.mem_filter.1 mem).1 (List.mem_filter.1 mem).2
  have nodup : (heard.map fun l => l.handler.room).Nodup := by
    refine List.Nodup.map_on (fun l mem l' mem' same => ?_) ((List.Nodup.of_map _ (sound.ids _)).filter _)
    obtain ⟨r, -, handles, sub, -⟩ := left mem
    obtain ⟨r', -, handles', sub', -⟩ := left mem'
    obtain ⟨id, handler⟩ := l
    obtain ⟨id', handler'⟩ := l'
    obtain rfl := handles
    obtain rfl := handles'
    obtain rfl : r = r' := same
    obtain rfl : id = id' := Option.some.inj (sub.symm.trans sub')
    rfl
  have values : (c.world.managingRooms.entries.map Sigma.snd).Nodup :=
    nodup_values (fun r => (c.world.rooms r).roomId) fun managed => (sound.managed managed).2.1
  have perm : (heard.map fun l => l.handler.room).Perm
      (c.world.managingRooms.entries.map Sigma.snd) := by
    refine (List.perm_ext_iff_of_nodup nodup values).2 fun r => ⟨fun mem => ?_, fun mem => ?_⟩
    · obtain ⟨l, listed, rfl⟩ := List.mem_map.1 mem
      obtain ⟨r, roomId, handles, -, managed⟩ := left listed
      rw [handles]
      exact List.mem_map.2 ⟨_, AList.mem_lookup_iff.1 managed, rfl⟩
    · obtain ⟨⟨roomId, r'⟩, entry, rfl⟩ := List.mem_map.1 mem
      have standing := (normal.managed free (AList.mem_lookup_iff.2 entry)).1
      obtain ⟨i, sub⟩ := Option.isSome_iff_exists.1 (sound.registered standing.stage).2.1
      exact List.mem_map.2 ⟨_, List.mem_filter.2 ⟨sound.playerLeft sub, rfl⟩, rfl⟩
  calc
    _ = heard.length := List.countP_eq_length_filter
    _ = (heard.map fun l => l.handler.room).length := List.length_map _ |>.symm
    _ = (c.world.managingRooms.entries.map Sigma.snd).length := perm.length_eq
    _ = c.world.managingRooms.keys.length := by simp [AList.keys, List.keys]

theorem Normal.recorded (normal : Normal J c) (free : c.running = none) (roomId : Str) :
    (c.world.managingRooms.lookup roomId).isSome ↔
      (c.world.storage.get c.world.now (roomKey roomId)).isSome := by
  constructor
  · intro managed
    obtain ⟨r, managed⟩ := Option.isSome_iff_exists.1 managed
    obtain ⟨standing, rfl⟩ := normal.managed free managed
    obtain ⟨e, found, fresh⟩ := standing.recorded
    exact Option.isSome_iff_exists.2 ⟨e.value, MemoryStorage.get_eq_some.2 ⟨e, found, fresh, rfl⟩⟩
  · intro stored
    obtain ⟨value, stored⟩ := Option.isSome_iff_exists.1 stored
    obtain ⟨e, found, -, -⟩ := MemoryStorage.get_eq_some.1 stored
    exact (normal.acc.known.filed.registered roomId e found).1

end

def steadyCheck (c : ServerConfig) (l : Label Answer EnvEvent) : Bool :=
  (match c.running, l with
    | some ⟨_, .inHook _ (.onCreate _) :: _, none⟩, .act (.dispose _) => false
    | some ⟨_, .inHook _ (.onCreate _) :: _, none⟩, .act (.allowReconnection ..) => false
    | _, _ => true) &&
  (match c.running with
    | some ⟨_, .created r client _ :: _, none⟩ => snapshotUtf8 c.world r client
    | _ => true) &&
  match l with
  | .env (.tick ms) => (c.world.tasks ++ c.world.working).all fun t =>
      c.world.cancelled t.id || c.world.now + ms ≤ t.due + halfHour
  | _ => true

theorem steadyCheck_sound {c : ServerConfig} {l : Label Answer EnvEvent} (h : steadyCheck c l = true) :
    Steady c l := by
  obtain ⟨creates, utf8, punctual⟩ : _ ∧ _ ∧ _ := by
    simpa only [steadyCheck, Bool.and_eq_true, and_assoc] using h
  refine ⟨fun tid r options rest top => ⟨?_, ?_⟩, fun tid r client creator rest top => ?_, ?_⟩
  · rintro r' rfl
    simp [top] at creates
  · rintro clientId seconds rfl
    simp [top] at creates
  · simpa [top] using utf8
  · rintro ms rfl t r pending - live
    have each := List.all_eq_true.1 punctual t (List.mem_append.2 pending)
    simpa [live] using each

end Blueboat
