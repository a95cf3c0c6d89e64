import Blueboat.Ledger

set_option autoImplicit false

/-! Which listeners, timers and map entries belong to which room: every owner has recorded the number
of what it owns, and every operation on the ledger keeps that. -/
namespace Blueboat

open Protocol

def Handler.isPlayerLeft : Handler → Bool
  | .playerLeft _ => true
  | _ => false

/-! The operations that leave the wiring alone. -/

structure Life.SameWiring (life life' : Life) : Prop where
  roomId : life'.roomId = life.roomId
  gameMessageSub : life'.gameMessageSub = life.gameMessageSub
  playerLeftSub : life'.playerLeftSub = life.playerLeftSub
  autoDisposeTimer : life'.autoDisposeTimer = life.autoDisposeTimer
  disposing : life.disposing = true → life'.disposing = true
  listens : ∀ {id v}, (id, JoinCallback.wait v) ∈ life'.onJoinListeners →
    (id, JoinCallback.wait v) ∈ life.onJoinListeners

namespace Ledger

/-- Nothing is wired anew: numbers and channels stay, and at most join listeners and timers that
were there before are left. -/
structure SameWiring (k k' : Ledger) : Prop where
  pubsub : k'.pubsub = k.pubsub
  nextListener : k'.nextListener = k.nextListener
  nextRoom : k'.nextRoom = k.nextRoom
  nextWait : k'.nextWait = k.nextWait
  nextTask : k'.nextTask = k.nextTask
  sessions : k'.sessions = k.sessions
  task : ∀ {t}, t ∈ k'.tasks ∨ t ∈ k'.working → t ∈ k.tasks ∨ t ∈ k.working
  waitTimer : ∀ v, (k'.waits v).timer = (k.waits v).timer
  waitRoom : ∀ v, (k'.waits v).room = (k.waits v).room
  cancelled : ∀ {i}, k.cancelled i = true → k'.cancelled i = true
  roomId : ∀ r, (k'.lives r).roomId = (k.lives r).roomId
  gameMessageSub : ∀ r, (k'.lives r).gameMessageSub = (k.lives r).gameMessageSub
  playerLeftSub : ∀ r, (k'.lives r).playerLeftSub = (k.lives r).playerLeftSub
  autoDisposeTimer : ∀ r, (k'.lives r).autoDisposeTimer = (k.lives r).autoDisposeTimer
  disposing : ∀ {r}, (k.lives r).disposing = true → (k'.lives r).disposing = true
  listens : ∀ {r id v}, (id, .wait v) ∈ (k'.lives r).onJoinListeners →
    (id, .wait v) ∈ (k.lives r).onJoinListeners

structure Keeps (k k' : Ledger) : Prop extends k.SameWiring k' where
  managingRooms : k'.managingRooms = k.managingRooms
  stage : ∀ r, (k'.lives r).stage = (k.lives r).stage

theorem SameWiring.refl (k : Ledger) : k.SameWiring k :=
  ⟨rfl, rfl, rfl, rfl, rfl, rfl, id, fun _ => rfl, fun _ => rfl, id, fun _ => rfl,
    fun _ => rfl, fun _ => rfl, fun _ => rfl, id, id⟩

theorem SameWiring.trans {k k' k'' : Ledger} (h : k.SameWiring k') (h' : k'.SameWiring k'') :
    k.SameWiring k'' where
  pubsub := h'.pubsub.trans h.pubsub
  nextListener := h'.nextListener.trans h.nextListener
  nextRoom := h'.nextRoom.trans h.nextRoom
  nextWait := h'.nextWait.trans h.nextWait
  nextTask := h'.nextTask.trans h.nextTask
  sessions := h'.sessions.trans h.sessions
  task := fun ht => h.task (h'.task ht)
  waitTimer := fun v => (h'.waitTimer v).trans (h.waitTimer v)
  waitRoom := fun v => (h'.waitRoom v).trans (h.waitRoom v)
  cancelled := fun hi => h'.cancelled (h.cancelled hi)
  roomId := fun r => (h'.roomId r).trans (h.roomId r)
  gameMessageSub := fun r => (h'.gameMessageSub r).trans (h.gameMessageSub r)
  playerLeftSub := fun r => (h'.playerLeftSub r).trans (h.playerLeftSub r)
  autoDisposeTimer := fun r => (h'.autoDisposeTimer r).trans (h.autoDisposeTimer r)
  disposing := fun hr => h'.disposing (h.disposing hr)
  listens := fun hl => h.listens (h'.listens hl)

theorem Keeps.refl (k : Ledger) : k.Keeps k := ⟨.refl k, rfl, fun _ => rfl⟩

theorem Keeps.trans {k k' k'' : Ledger} (h : k.Keeps k') (h' : k'.Keeps k'') : k.Keeps k'' :=
  ⟨h.toSameWiring.trans h'.toSameWiring, h'.managingRooms.trans h.managingRooms,
    fun r => (h'.stage r).trans (h.stage r)⟩

theorem sameWiring_setLife {k : Ledger} {r : RoomRef} {life : Life}
    (h : (k.lives r).SameWiring life) : k.SameWiring (k.setLife r life) := by
  have lives : ∀ r', (k.lives r').SameWiring ((k.setLife r life).lives r') := by
    intro r'
    by_cases hr : r' = r
    · subst hr; rw [setLife_self]; exact h
    · rw [setLife_ne k hr]; exact ⟨rfl, rfl, rfl, rfl, id, id⟩
  exact { SameWiring.refl k with
    roomId := fun r' => (lives r').roomId
    gameMessageSub := fun r' => (lives r').gameMessageSub
    playerLeftSub := fun r' => (lives r').playerLeftSub
    autoDisposeTimer := fun r' => (lives r').autoDisposeTimer
    disposing := fun {r'} => (lives r').disposing
    listens := fun {r'} => (lives r').listens }

theorem keeps_setLife {k : Ledger} {r : RoomRef} {life : Life}
    (h : (k.lives r).SameWiring life) (stage : life.stage = (k.lives r).stage) :
    k.Keeps (k.setLife r life) := by
  refine ⟨sameWiring_setLife h, rfl, fun r' => ?_⟩
  by_cases hr : r' = r
  · subst hr; rw [setLife_self]; exact stage
  · rw [setLife_ne k hr]

theorem keeps_eraseMember (k : Ledger) (r : RoomRef) (sessionId : Str) :
    k.Keeps (k.eraseMember r sessionId) :=
  keeps_setLife ⟨rfl, rfl, rfl, rfl, id, id⟩ rfl

theorem keeps_addMember (k : Ledger) (r : RoomRef) (client : SimpleClient) :
    k.Keeps (k.addMember r client) :=
  keeps_setLife ⟨rfl, rfl, rfl, rfl, id, id⟩ rfl

theorem keeps_dispose (k : Ledger) (r : RoomRef) (cause : Cause) :
    k.Keeps (k.dispose r cause) := by
  unfold dispose
  dsimp only
  split
  · exact .refl k
  · exact keeps_setLife ⟨rfl, rfl, rfl, rfl, fun _ => rfl, id⟩ rfl

theorem keeps_listen_app (k : Ledger) (r : RoomRef) (joinSub : ℕ) :
    k.Keeps (k.listen r joinSub .app) :=
  keeps_setLife ⟨rfl, rfl, rfl, rfl, id, fun h => by simpa [List.mem_append] using h⟩ rfl

theorem keeps_clearJoinSub (k : Ledger) (v : ℕ) : k.Keeps (k.clearJoinSub v) :=
  keeps_setLife ⟨rfl, rfl, rfl, rfl, id, fun h => (List.mem_filter.1 h).1⟩ rfl

theorem keeps_cancel (k : Ledger) (task : Option ℕ) : k.Keeps (k.cancel task) := by
  cases task with
  | none => exact .refl k
  | some id =>
    refine { Keeps.refl k with cancelled := fun {i} hi => ?_ }
    by_cases h : i = id
    · subst h; exact Function.update_self ..
    · exact (Function.update_of_ne h ..).trans hi

theorem resolve_wait (k : Ledger) (v : ℕ) (value : Bool) (v' : ℕ) :
    ∃ promise, (k.resolve v value).waits v' = { k.waits v' with promise := promise } := by
  unfold resolve
  dsimp only
  split
  · exact ⟨_, rfl⟩
  · by_cases h : v' = v
    · subst h; exact ⟨some value, Function.update_self ..⟩
    · exact ⟨(k.waits v').promise, Function.update_of_ne h ..⟩

theorem keeps_resolve (k : Ledger) (v : ℕ) (value : Bool) : k.Keeps (k.resolve v value) := by
  have timer : ∀ v', ((k.resolve v value).waits v').timer = (k.waits v').timer := by
    intro v'
    obtain ⟨promise, h⟩ := resolve_wait k v value v'
    rw [h]
  have room : ∀ v', ((k.resolve v value).waits v').room = (k.waits v').room := by
    intro v'
    obtain ⟨promise, h⟩ := resolve_wait k v value v'
    rw [h]
  revert timer room
  unfold resolve
  dsimp only
  split
  · exact fun _ _ => .refl k
  · exact fun timer room => { Keeps.refl k with waitTimer := timer, waitRoom := room }

theorem keeps_started (k : Ledger) (task : Task) : k.Keeps (k.started task) :=
  { Keeps.refl k with task := fun h => h.imp id List.mem_of_mem_erase }

theorem keeps_rejoined (k : Ledger) (v : ℕ) : k.Keeps (k.rejoined v) :=
  ((keeps_resolve k v true).trans (keeps_cancel _ _)).trans (keeps_clearJoinSub _ _)

theorem keeps_reconnectTimeout (k : Ledger) (v : ℕ) : k.Keeps (k.reconnectTimeout v) :=
  (keeps_resolve k v _).trans (keeps_clearJoinSub _ _)

theorem keeps_storage (k : Ledger) (storage : MemoryStorage) :
    k.Keeps { k with storage := storage } := { Keeps.refl k with }

theorem keeps_tick (k : Ledger) (now : ℤ) : k.Keeps { k with now := now } := { Keeps.refl k with }

def Alive (k : Ledger) (r : RoomRef) : Prop :=
  r < k.nextRoom ∧ ((k.lives r).disposing = true ∨
    ((k.lives r).gameMessageSub.isSome ∧ (k.lives r).playerLeftSub.isSome))

/-- The owner of a listener has recorded its number. -/
def Owns (k : Ledger) (key : Str) (l : Listener Handler) : Prop :=
  match l.handler with
  | .gameMessage r => k.Alive r ∧ key = (k.lives r).roomId ∧ (k.lives r).gameMessageSub = some l.id
  | .playerLeft r => k.Alive r ∧ key = PLAYER_LEFT ∧ (k.lives r).playerLeftSub = some l.id
  | .infoRequest _ => key = REQUEST_INFO

def Recorded (k : Ledger) (t : Task) : Prop :=
  match t.callback with
  | .autoDispose r => k.Alive r ∧ (k.lives r).autoDisposeTimer = some t.id
  | .reconnect v => v < k.nextWait ∧ (k.waits v).timer = t.id

structure Wired (k : Ledger) : Prop where
  owns : ∀ {key l}, l ∈ k.pubsub.listenersOf key → k.Owns key l ∧ l.id < k.nextListener
  ids : ∀ key, ((k.pubsub.listenersOf key).map Listener.id).Nodup
  gameMessage : ∀ {r i}, (k.lives r).gameMessageSub = some i →
    ⟨i, .gameMessage r⟩ ∈ k.pubsub.listenersOf (k.lives r).roomId
  playerLeft : ∀ {r i}, (k.lives r).playerLeftSub = some i →
    ⟨i, .playerLeft r⟩ ∈ k.pubsub.listenersOf PLAYER_LEFT
  task : ∀ {t}, t ∈ k.tasks ∨ t ∈ k.working → k.Recorded t
  timer : ∀ {r i}, (k.lives r).autoDisposeTimer = some i → i < k.nextTask
  timers : ∀ {r r' i}, (k.lives r).autoDisposeTimer = some i →
    (k.lives r').autoDisposeTimer = some i → r = r'
  wait : ∀ {v}, v < k.nextWait → (k.waits v).timer < k.nextTask ∧ (k.waits v).room < k.nextRoom
  waitTimer : ∀ {v r}, v < k.nextWait → (k.lives r).autoDisposeTimer ≠ some (k.waits v).timer
  listens : ∀ {r id v}, (id, .wait v) ∈ (k.lives r).onJoinListeners →
    v < k.nextWait ∧ (k.waits v).room = r

structure Staged (k : Ledger) : Prop where
  managed : ∀ {roomId r}, k.managingRooms.lookup roomId = some r → r < k.nextRoom ∧
    (k.lives r).roomId = roomId ∧ ((k.lives r).stage = .registered ∨ (k.lives r).stage = .withdrawn)
  unborn : ∀ {r}, k.nextRoom ≤ r → (k.lives r).gameMessageSub = none ∧
    (k.lives r).playerLeftSub = none ∧ (k.lives r).autoDisposeTimer = none ∧
    (k.lives r).stage = .creating
  ended : ∀ {r}, (k.lives r).stage = .withdrawn ∨ (k.lives r).stage = .gone →
    (k.lives r).disposing = true
  registered : ∀ {r}, (k.lives r).stage = .registered → (k.lives r).gameMessageSub.isSome ∧
    (k.lives r).playerLeftSub.isSome ∧ (k.lives r).autoDisposeTimer.isSome

structure Sound (k : Ledger) : Prop extends k.Wired, k.Staged

theorem SameWiring.alive {k k' : Ledger} (h : k.SameWiring k') {r : RoomRef} (alive : k.Alive r) :
    k'.Alive r := by
  refine ⟨by rw [h.nextRoom]; exact alive.1, alive.2.imp h.disposing fun subs => ?_⟩
  rw [h.gameMessageSub, h.playerLeftSub]
  exact subs

theorem SameWiring.recorded {k k' : Ledger} (h : k.SameWiring k') {t : Task} (recorded : k.Recorded t) :
    k'.Recorded t := by
  unfold Recorded at *
  split
  · rename_i r callback
    simp only [callback] at recorded
    exact ⟨h.alive recorded.1, by rw [h.autoDisposeTimer]; exact recorded.2⟩
  · rename_i v callback
    simp only [callback] at recorded
    rw [h.nextWait, h.waitTimer]
    exact recorded

theorem SameWiring.owns {k k' : Ledger} (h : k.SameWiring k') {key : Str} {l : Listener Handler}
    (owns : k.Owns key l) : k'.Owns key l := by
  unfold Owns at *
  split
  · rename_i r handler
    simp only [handler] at owns
    exact ⟨h.alive owns.1, by rw [h.roomId, h.gameMessageSub]; exact owns.2⟩
  · rename_i r handler
    simp only [handler] at owns
    exact ⟨h.alive owns.1, by rw [h.playerLeftSub]; exact owns.2⟩
  · rename_i n handler
    simpa only [handler] using owns

theorem SameWiring.wired {k k' : Ledger} (h : k.SameWiring k') (sound : k.Wired) : k'.Wired where
  owns := fun {key l} hl => by
    rw [h.pubsub] at hl
    rw [h.nextListener]
    exact ⟨h.owns (sound.owns hl).1, (sound.owns hl).2⟩
  ids := by rw [h.pubsub]; exact sound.ids
  gameMessage := fun {r i} hi => by
    rw [h.pubsub, h.roomId]
    exact sound.gameMessage (by rw [← h.gameMessageSub]; exact hi)
  playerLeft := fun {r i} hi => by
    rw [h.pubsub]
    exact sound.playerLeft (by rw [← h.playerLeftSub]; exact hi)
  task := fun ht => h.recorded (sound.task (h.task ht))
  timer := fun {r i} hi => by
    rw [h.nextTask]
    exact sound.timer (by rw [← h.autoDisposeTimer]; exact hi)
  timers := fun {r r' i} hi hi' => sound.timers (by rw [← h.autoDisposeTimer]; exact hi)
    (by rw [← h.autoDisposeTimer]; exact hi')
  wait := fun {v} hv => by
    rw [h.nextWait] at hv
    rw [h.waitTimer, h.waitRoom, h.nextTask, h.nextRoom]
    exact sound.wait hv
  waitTimer := fun {v r} hv => by
    rw [h.nextWait] at hv
    rw [h.waitTimer, h.autoDisposeTimer]
    exact sound.waitTimer hv
  listens := fun {r id v} hl => by
    rw [h.nextWait, h.waitRoom]
    exact sound.listens (h.listens hl)

theorem Keeps.staged {k k' : Ledger} (h : k.Keeps k') (sound : k.Staged) : k'.Staged where
  managed := fun {roomId r} hr => by
    rw [h.managingRooms] at hr
    rw [h.nextRoom, h.roomId, h.stage]
    exact sound.managed hr
  unborn := fun {r} hr => by
    rw [h.nextRoom] at hr
    rw [h.gameMessageSub, h.playerLeftSub, h.autoDisposeTimer, h.stage]
    exact sound.unborn hr
  ended := fun {r} hr => by
    rw [h.stage] at hr
    exact h.disposing (sound.ended hr)
  registered := fun {r} hr => by
    rw [h.stage] at hr
    rw [h.gameMessageSub, h.playerLeftSub, h.autoDisposeTimer]
    exact sound.registered hr

theorem Keeps.sound {k k' : Ledger} (h : k.Keeps k') (sound : k.Sound) : k'.Sound :=
  ⟨h.wired sound.toWired, h.staged sound.toStaged⟩

theorem Sound.sessions {k : Ledger} (h : k.Sound) (sessions : Dict (SimpleClient × Phase)) :
    Sound { k with sessions := sessions } := ⟨{ h.toWired with }, { h.toStaged with }⟩

/-! The operations that wire. -/

def Unmade (k : Ledger) (r : RoomRef) : Prop :=
  r < k.nextRoom ∧ (k.lives r).gameMessageSub = none ∧ (k.lives r).playerLeftSub = none ∧
    (k.lives r).autoDisposeTimer = none

/-- A number that no room holds. -/
def Foreign (k : Ledger) (id : ℕ) : Prop :=
  id < k.nextListener ∧ ∀ {key l}, l ∈ k.pubsub.listenersOf key → l.id = id →
    ∃ n, l.handler = .infoRequest n

def Drained (k : Ledger) (r : RoomRef) : Prop :=
  r < k.nextRoom ∧ (k.lives r).disposing = true ∧ (k.lives r).gameMessageSub = none ∧
    (k.lives r).playerLeftSub = none ∧
    ∀ {i}, (k.lives r).autoDisposeTimer = some i → k.cancelled i = true

/-- What is never undone; `made` is the room that is being subscribed, if any. -/
structure Later (k k' : Ledger) (made : Option RoomRef) : Prop where
  nextRoom : k.nextRoom ≤ k'.nextRoom
  alive : ∀ {r}, k.Alive r → k'.Alive r
  recorded : ∀ {t}, k.Recorded t → k'.Recorded t
  foreign : ∀ {i}, k.Foreign i → k'.Foreign i
  disposing : ∀ {r}, r < k.nextRoom → (k.lives r).disposing = true → (k'.lives r).disposing = true
  unmade : ∀ {r}, made ≠ some r → k.Unmade r → k'.Unmade r
  drained : ∀ {r}, made ≠ some r → k.Drained r → k'.Drained r

theorem Later.refl (k : Ledger) (made : Option RoomRef) : Later k k made :=
  ⟨le_rfl, id, id, id, fun _ => id, fun _ => id, fun _ => id⟩

theorem Later.trans {k k' k'' : Ledger} {made : Option RoomRef} (h : Later k k' made)
    (h' : Later k' k'' none) : Later k k'' made where
  nextRoom := h.nextRoom.trans h'.nextRoom
  alive := fun ha => h'.alive (h.alive ha)
  recorded := fun ht => h'.recorded (h.recorded ht)
  foreign := fun hi => h'.foreign (h.foreign hi)
  disposing := fun hr hd => h'.disposing (lt_of_lt_of_le hr h.nextRoom) (h.disposing hr hd)
  unmade := fun ne hr => h'.unmade nofun (h.unmade ne hr)
  drained := fun ne hr => h'.drained nofun (h.drained ne hr)

theorem SameWiring.later {k k' : Ledger} (h : k.SameWiring k') {made : Option RoomRef} :
    Later k k' made where
  nextRoom := h.nextRoom.ge
  alive := h.alive
  recorded := h.recorded
  foreign := fun {i} hi => by
    rw [Foreign, h.nextListener, h.pubsub]
    exact hi
  disposing := fun _ => h.disposing
  unmade := fun {r} _ hr => by
    rw [Unmade, h.nextRoom, h.gameMessageSub, h.playerLeftSub, h.autoDisposeTimer]
    exact hr
  drained := fun {r} _ hr => by
    rw [Drained, h.nextRoom, h.gameMessageSub, h.playerLeftSub, h.autoDisposeTimer]
    exact ⟨hr.1, h.disposing hr.2.1, hr.2.2.1, hr.2.2.2.1, fun hi => h.cancelled (hr.2.2.2.2 hi)⟩

theorem Wired.unique {k : Ledger} (h : k.Wired) {key : Str} {l l' : Listener Handler}
    (hl : l ∈ k.pubsub.listenersOf key) (hl' : l' ∈ k.pubsub.listenersOf key)
    (same : l.id = l'.id) : l = l' := List.inj_on_of_nodup_map (h.ids key) hl hl' same

theorem mem_unsubscribe {k : Ledger} {key key' : Str} {sub : Option ℕ} {l : Listener Handler} :
    l ∈ (k.unsubscribe key sub).pubsub.listenersOf key' ↔
      l ∈ k.pubsub.listenersOf key' ∧ (key' = key → sub ≠ some l.id) := by
  cases sub with
  | none => simp [unsubscribe]
  | some id =>
    simp only [unsubscribe, PubSub.mem_listenersOf_unsubscribe, ne_eq, Option.some.injEq]
    exact and_congr_right fun _ => imp_congr_right fun _ => not_congr eq_comm

theorem later_birth (k : Ledger) (roomId : Str) : Later k (k.birth roomId) none := by
  have old : ∀ {r}, r < k.nextRoom → (k.birth roomId).lives r = k.lives r :=
    fun hr => birth_ne k roomId (Nat.ne_of_lt hr)
  have alive : ∀ {r}, k.Alive r → (k.birth roomId).Alive r := fun ha =>
    ⟨Nat.lt_succ_of_lt ha.1, by rw [old ha.1]; exact ha.2⟩
  refine
    { nextRoom := Nat.le_succ _, alive := alive, recorded := fun {t} ht => ?_, foreign := id
      disposing := fun hr hd => by rw [old hr]; exact hd
      unmade := fun {r} _ hr => ⟨Nat.lt_succ_of_lt hr.1, by rw [old hr.1]; exact hr.2⟩
      drained := fun {r} _ hr => ⟨Nat.lt_succ_of_lt hr.1, by rw [old hr.1]; exact hr.2⟩ }
  unfold Recorded at *
  split <;> rename_i callback <;> simp only [callback] at ht
  · exact ⟨alive ht.1, by rw [old ht.1.1]; exact ht.2⟩
  · exact ht

theorem Sound.birth {k : Ledger} (h : k.Sound) (roomId : Str) : (k.birth roomId).Sound := by
  have later := later_birth k roomId
  have old : ∀ {r}, r < k.nextRoom → (k.birth roomId).lives r = k.lives r :=
    fun hr => birth_ne k roomId (Nat.ne_of_lt hr)
  have new := birth_self k roomId
  have cases : ∀ r, (k.birth roomId).lives r = k.lives r ∨
      (r = k.nextRoom ∧ (k.birth roomId).lives r = .born roomId) := by
    intro r
    by_cases hr : r = k.nextRoom
    · exact .inr ⟨hr, hr ▸ new⟩
    · exact .inl (birth_ne k roomId hr)
  have timer : ∀ {r i}, ((k.birth roomId).lives r).autoDisposeTimer = some i →
      (k.lives r).autoDisposeTimer = some i := by
    intro r i hi
    rcases cases r with e | ⟨-, e⟩
    · rwa [e] at hi
    · rw [e] at hi; cases hi
  refine
    { owns := fun {key l} hl => ?_, ids := h.ids, gameMessage := fun {r i} hi => ?_
      playerLeft := fun {r i} hi => ?_, task := fun ht => later.recorded (h.task ht)
      timer := fun hi => h.timer (timer hi)
      timers := fun hi hi' => h.timers (timer hi) (timer hi')
      wait := fun hv => ⟨(h.wait hv).1, Nat.lt_succ_of_lt (h.wait hv).2⟩
      waitTimer := fun hv hi => h.waitTimer hv (timer hi), listens := fun {r id v} hl => ?_
      managed := fun {roomId r} hr => ?_, unborn := fun {r} hr => ?_, ended := fun {r} hr => ?_
      registered := fun {r} hr => ?_ }
  · obtain ⟨ho, hi⟩ := h.owns hl
    refine ⟨?_, hi⟩
    unfold Owns at *
    split <;> rename_i handler <;> simp only [handler] at ho
    · exact ⟨later.alive ho.1, by rw [old ho.1.1]; exact ho.2⟩
    · exact ⟨later.alive ho.1, by rw [old ho.1.1]; exact ho.2⟩
    · exact ho
  · rcases cases r with e | ⟨-, e⟩
    · rw [e] at hi ⊢; exact h.gameMessage hi
    · rw [e] at hi; cases hi
  · rcases cases r with e | ⟨-, e⟩
    · rw [e] at hi; exact h.playerLeft hi
    · rw [e] at hi; cases hi
  · rcases cases r with e | ⟨-, e⟩
    · rw [e] at hl; exact h.listens hl
    · rw [e] at hl; cases hl
  · obtain ⟨lt, rest⟩ := h.managed hr
    exact ⟨Nat.lt_succ_of_lt lt, by rw [old lt]; exact rest⟩
  · have lt : k.nextRoom < r := hr
    rcases cases r with e | ⟨rfl, -⟩
    · rw [e]; exact h.unborn (Nat.le_of_lt lt)
    · exact absurd lt (lt_irrefl _)
  · rcases cases r with e | ⟨-, e⟩
    · rw [e] at hr ⊢; exact h.ended hr
    · rw [e] at hr; rcases hr with hr | hr <;> cases hr
  · rcases cases r with e | ⟨-, e⟩
    · rw [e] at hr ⊢; exact h.registered hr
    · rw [e] at hr; cases hr

theorem mem_subscribeRoom {k : Ledger} {r : RoomRef} {key : Str} {l : Listener Handler} :
    l ∈ (k.subscribeRoom r).pubsub.listenersOf key ↔ l ∈ k.pubsub.listenersOf key ∨
      (key = (k.lives r).roomId ∧ l = ⟨k.nextListener, .gameMessage r⟩) ∨
      (key = PLAYER_LEFT ∧ l = ⟨k.nextListener + 1, .playerLeft r⟩) := by
  simp only [subscribeRoom, PubSub.mem_listenersOf_on, or_assoc]

theorem later_subscribeRoom {k : Ledger} {r : RoomRef} (unmade : k.Unmade r) :
    Later k (k.subscribeRoom r) (some r) := by
  have self := subscribeRoom_self k r
  have other := fun {r'} => @subscribeRoom_ne k r r'
  have alive : ∀ {r'}, k.Alive r' → (k.subscribeRoom r).Alive r' := by
    rintro r' ⟨lt, ha⟩
    refine ⟨lt, ?_⟩
    by_cases hr : r' = r
    · subst hr; rw [self]; exact .inr ⟨rfl, rfl⟩
    · rw [other hr]; exact ha
  refine
    { nextRoom := le_rfl, alive := alive, recorded := fun {t} ht => ?_, foreign := fun {i} hi => ?_
      disposing := fun {r'} _ hd => ?_
      unmade := fun {r'} ne hr => ⟨hr.1, by rw [other fun e => ne (e ▸ rfl)]; exact hr.2⟩
      drained := fun {r'} ne hr => ⟨hr.1, by rw [other fun e => ne (e ▸ rfl)]; exact hr.2⟩ }
  · unfold Recorded at *
    split <;> rename_i callback <;> simp only [callback] at ht
    · rename_i r'
      have hr : r' ≠ r := fun hr => by rw [hr, unmade.2.2.2] at ht; cases ht.2
      exact ⟨alive ht.1, by rw [other hr]; exact ht.2⟩
    · exact ht
  · refine ⟨Nat.lt_add_right 2 hi.1, fun {key l} hl same => ?_⟩
    rcases mem_subscribeRoom.1 hl with hl | ⟨-, rfl⟩ | ⟨-, rfl⟩
    · exact hi.2 hl same
    · exact absurd hi.1 (same ▸ lt_irrefl _)
    · exact absurd hi.1 (same ▸ (Nat.le_succ _).not_gt)
  · by_cases hr : r' = r
    · subst hr; rw [self]; exact hd
    · rw [other hr]; exact hd

theorem Sound.subscribeRoom {k : Ledger} (h : k.Sound) {r : RoomRef} (unmade : k.Unmade r) :
    (k.subscribeRoom r).Sound := by
  have later := later_subscribeRoom unmade
  obtain ⟨born, noGame, noLeft, -⟩ := unmade
  have self := subscribeRoom_self k r
  have other := fun {r'} => @subscribeRoom_ne k r r'
  have roomId : ∀ r', ((k.subscribeRoom r).lives r').roomId = (k.lives r').roomId := by
    intro r'
    by_cases hr : r' = r
    · rw [hr, self]
    · rw [other hr]
  have made : (k.subscribeRoom r).Alive r := ⟨born, .inr (by rw [self]; exact ⟨rfl, rfl⟩)⟩
  have kept : ∀ {key l}, l ∈ k.pubsub.listenersOf key →
      (k.subscribeRoom r).Owns key l ∧ l.id < k.nextListener := by
    intro key l hl
    obtain ⟨ho, hi⟩ := h.owns hl
    refine ⟨?_, hi⟩
    unfold Owns at *
    split <;> rename_i r' handler <;> simp only [handler] at ho
    · have hr : r' ≠ r := fun hr => by rw [hr, noGame] at ho; cases ho.2.2
      exact ⟨later.alive ho.1, by rw [other hr]; exact ho.2⟩
    · have hr : r' ≠ r := fun hr => by rw [hr, noLeft] at ho; cases ho.2.2
      exact ⟨later.alive ho.1, by rw [other hr]; exact ho.2⟩
    · exact ho
  have timer : ∀ {r' i}, ((k.subscribeRoom r).lives r').autoDisposeTimer = some i →
      (r' = r ∧ i = k.nextTask) ∨ (k.lives r').autoDisposeTimer = some i := by
    intro r' i hi
    by_cases hr : r' = r
    · subst hr; rw [self] at hi; exact .inl ⟨rfl, (Option.some.inj hi).symm⟩
    · rw [other hr] at hi; exact .inr hi
  refine
    { owns := fun {key l} hl => ?_, ids := fun key => ?_, gameMessage := fun {r' i} hi => ?_
      playerLeft := fun {r' i} hi => ?_, task := fun {t} ht => ?_
      timer := fun {r' i} hi => ?_, timers := fun {r₁ r₂ i} h₁ h₂ => ?_
      wait := fun hv => ⟨Nat.lt_succ_of_lt (h.wait hv).1, (h.wait hv).2⟩
      waitTimer := fun {v r'} hv hi => ?_, listens := fun {r' id v} hl => ?_
      managed := fun {X r'} hr => ?_, unborn := fun {r'} hr => ?_, ended := fun {r'} hr => ?_
      registered := fun {r'} hr => ?_ }
  · rcases mem_subscribeRoom.1 hl with hl | ⟨rfl, rfl⟩ | ⟨rfl, rfl⟩
    · exact ⟨(kept hl).1, Nat.lt_add_right 2 (kept hl).2⟩
    · exact ⟨⟨made, (roomId r).symm, by rw [self]⟩, Nat.lt_add_of_pos_right (by decide)⟩
    · exact ⟨⟨made, rfl, by rw [self]⟩, Nat.lt_succ_self _⟩
  · have fresh : ∀ l ∈ k.pubsub.listenersOf key, l.id < k.nextListener := fun l hl => (h.owns hl).2
    refine PubSub.nodup_on (PubSub.nodup_on (h.ids key) fun l hl => (fresh l hl).ne) ?_
    intro l hl
    rcases PubSub.mem_listenersOf_on.1 hl with hl | ⟨-, rfl⟩
    · exact (Nat.lt_succ_of_lt (fresh l hl)).ne
    · exact (Nat.lt_succ_self _).ne
  · rw [roomId]
    by_cases hr : r' = r
    · subst hr; rw [self] at hi; cases hi; exact mem_subscribeRoom.2 (.inr (.inl ⟨rfl, rfl⟩))
    · rw [other hr] at hi; exact mem_subscribeRoom.2 (.inl (h.gameMessage hi))
  · by_cases hr : r' = r
    · subst hr; rw [self] at hi; cases hi; exact mem_subscribeRoom.2 (.inr (.inr ⟨rfl, rfl⟩))
    · rw [other hr] at hi; exact mem_subscribeRoom.2 (.inl (h.playerLeft hi))
  · have listed : (t ∈ k.tasks ∨ t ∈ k.working) ∨
        t = ⟨k.nextTask, k.now + autoDisposeAfter, .autoDispose r⟩ := by
      rcases ht with ht | ht
      · rcases List.mem_append.1 ht with ht | ht
        · exact .inl (.inl ht)
        · exact .inr (List.mem_singleton.1 ht)
      · exact .inl (.inr ht)
    rcases listed with ht | rfl
    · exact later.recorded (h.task ht)
    · exact ⟨made, by rw [self]⟩
  · rcases timer hi with ⟨-, rfl⟩ | hi
    · exact Nat.lt_succ_self _
    · exact Nat.lt_succ_of_lt (h.timer hi)
  · rcases timer h₁ with ⟨e₁, i₁⟩ | old₁ <;> rcases timer h₂ with ⟨e₂, i₂⟩ | old₂
    · exact e₁.trans e₂.symm
    · exact absurd (i₁ ▸ h.timer old₂) (lt_irrefl _)
    · exact absurd (i₂ ▸ h.timer old₁) (lt_irrefl _)
    · exact h.timers old₁ old₂
  · rcases timer hi with ⟨-, e⟩ | hi
    · exact absurd (h.wait hv).1 (by rw [show k.nextTask = _ from e.symm]; exact lt_irrefl _)
    · exact h.waitTimer hv hi
  · by_cases hr : r' = r
    · subst hr; rw [self] at hl; exact h.listens hl
    · rw [other hr] at hl; exact h.listens hl
  · obtain ⟨lt, id, stage⟩ := h.managed hr
    refine ⟨lt, (roomId r').trans id, ?_⟩
    by_cases hr : r' = r
    · subst hr; rw [self]; exact stage
    · rw [other hr]; exact stage
  · have hr' : r' ≠ r := fun e => absurd born (not_lt.2 (e ▸ hr))
    rw [other hr']
    exact h.unborn hr
  · by_cases hr' : r' = r
    · subst hr'; rw [self] at hr ⊢; exact h.ended hr
    · rw [other hr'] at hr ⊢; exact h.ended hr
  · by_cases hr' : r' = r
    · subst hr'; rw [self]; exact ⟨rfl, rfl, rfl⟩
    · rw [other hr'] at hr ⊢; exact h.registered hr

theorem sameWiring_registerNewRoom (k : Ledger) (r : RoomRef) (storage : MemoryStorage) :
    k.SameWiring (k.registerNewRoom r storage) := by
  have stored : k.SameWiring { k with
      storage := storage, managingRooms := k.managingRooms.insert (k.lives r).roomId r } :=
    { SameWiring.refl k with }
  exact stored.trans (sameWiring_setLife ⟨rfl, rfl, rfl, rfl, id, id⟩)

theorem Sound.registerNewRoom {k : Ledger} (h : k.Sound) {r : RoomRef} (storage : MemoryStorage)
    (born : r < k.nextRoom) (subscribed : (k.lives r).gameMessageSub.isSome ∧
      (k.lives r).playerLeftSub.isSome ∧ (k.lives r).autoDisposeTimer.isSome) :
    (k.registerNewRoom r storage).Sound := by
  have wiring := sameWiring_registerNewRoom k r storage
  have other := fun {r'} (hr : r' ≠ r) => registerNewRoom_ne k hr storage
  have self := registerNewRoom_self k r storage
  refine ⟨wiring.wired h.toWired,
    { managed := fun {X r'} hr => ?_, unborn := fun {r'} hr => ?_, ended := fun {r'} hr => ?_
      registered := fun {r'} hr => ?_ }⟩
  · by_cases hX : X = (k.lives r).roomId
    · subst hX
      have found : r = r' := Option.some.inj ((AList.lookup_insert _).symm.trans hr)
      rw [← found, self]
      exact ⟨born, rfl, .inl rfl⟩
    · obtain ⟨lt, id, stage⟩ := h.managed ((AList.lookup_insert_ne hX).symm.trans hr)
      refine ⟨lt, (wiring.roomId r').trans id, ?_⟩
      by_cases hr' : r' = r
      · rw [hr', self]; exact .inl rfl
      · rw [other hr']; exact stage
  · have hr' : r' ≠ r := fun e => absurd born (not_lt.2 (e ▸ hr))
    rw [other hr']
    exact h.unborn hr
  · by_cases hr' : r' = r
    · rw [hr', self] at hr; rcases hr with hr | hr <;> cases hr
    · rw [other hr'] at hr ⊢; exact h.ended hr
  · by_cases hr' : r' = r
    · rw [hr', self]; exact subscribed
    · rw [other hr'] at hr ⊢; exact h.registered hr

theorem later_openInfo (k : Ledger) (n : ℕ) : Later k (k.openInfo n) none where
  nextRoom := le_rfl
  alive := id
  recorded := id
  foreign := fun {i} hi => by
    refine ⟨Nat.lt_succ_of_lt hi.1, fun {key l} hl same => ?_⟩
    rcases PubSub.mem_listenersOf_on.1 hl with hl | ⟨-, rfl⟩
    · exact hi.2 hl same
    · exact ⟨n, rfl⟩
  disposing := fun _ hd => hd
  unmade := fun _ hr => hr
  drained := fun _ hr => hr

/-- The number of a request's listener belongs to no room. -/
theorem Wired.foreign_openInfo {k : Ledger} (h : k.Wired) (n : ℕ) :
    (k.openInfo n).Foreign k.nextListener := by
  refine ⟨Nat.lt_succ_self _, fun {key l} hl same => ?_⟩
  rcases PubSub.mem_listenersOf_on.1 hl with hl | ⟨-, rfl⟩
  · exact absurd (h.owns hl).2 (same ▸ lt_irrefl _)
  · exact ⟨n, rfl⟩

theorem Sound.openInfo {k : Ledger} (h : k.Sound) (n : ℕ) : (k.openInfo n).Sound := by
  refine ⟨{ h.toWired with
    owns := fun {key l} hl => ?_
    ids := fun key => ?_
    gameMessage := ?_
    playerLeft := ?_ }, { h.toStaged with }⟩
  · rcases PubSub.mem_listenersOf_on.1 hl with hl | ⟨rfl, rfl⟩
    · exact ⟨(h.owns hl).1, Nat.lt_succ_of_lt (h.owns hl).2⟩
    · exact ⟨rfl, Nat.lt_succ_self _⟩
  · exact PubSub.nodup_on (h.ids key) fun l hl => (h.owns hl).2.ne
  · exact fun hi => PubSub.mem_listenersOf_on.2 (.inl (h.gameMessage hi))
  · exact fun hi => PubSub.mem_listenersOf_on.2 (.inl (h.playerLeft hi))

theorem nodup_ids_unsubscribe {k : Ledger} {key key' : Str} {sub : Option ℕ}
    (h : ((k.pubsub.listenersOf key').map Listener.id).Nodup) :
    (((k.unsubscribe key sub).pubsub.listenersOf key').map Listener.id).Nodup := by
  cases sub with
  | none => exact h
  | some id => exact PubSub.nodup_unsubscribe h

theorem later_unsubscribe (k : Ledger) (key : Str) (id : ℕ) :
    Later k (k.unsubscribe key (some id)) none where
  nextRoom := le_rfl
  alive := fun h => h
  recorded := fun h => h
  foreign := fun hi => ⟨hi.1, fun hl same => hi.2 (mem_unsubscribe.1 hl).1 same⟩
  disposing := fun _ hd => hd
  unmade := fun _ hr => hr
  drained := fun _ hr => hr

theorem later_sessions (k : Ledger) (sessions : Dict (SimpleClient × Phase)) :
    Later k { k with sessions := sessions } none :=
  ⟨le_rfl, id, id, id, fun _ => id, fun _ => id, fun _ => id⟩

theorem Sound.closeInfo {k : Ledger} (h : k.Sound) {id : ℕ} (foreign : k.Foreign id) :
    (k.unsubscribe REQUEST_INFO (some id)).Sound := by
  have kept : ∀ {key l}, l ∈ k.pubsub.listenersOf key → (∀ n, l.handler ≠ .infoRequest n) →
      l ∈ (k.unsubscribe REQUEST_INFO (some id)).pubsub.listenersOf key := by
    intro key l hl room
    refine mem_unsubscribe.2 ⟨hl, fun _ same => ?_⟩
    obtain ⟨n, hn⟩ := foreign.2 hl (Option.some.inj same).symm
    exact room n hn
  refine ⟨{ h.toWired with
    owns := fun hl => ?_
    ids := fun key => ?_
    gameMessage := ?_
    playerLeft := ?_ }, { h.toStaged with }⟩
  · exact h.owns (mem_unsubscribe.1 hl).1
  · exact nodup_ids_unsubscribe (h.ids key)
  · exact fun hi => kept (h.gameMessage hi) (fun n hn => by cases hn)
  · exact fun hi => kept (h.playerLeft hi) (fun n hn => by cases hn)

/-- What `allowReconnection` adds: one listener of the room, one wait and one task. -/
structure Granted (k k' : Ledger) (r : RoomRef) : Prop where
  nextRoom : k'.nextRoom = k.nextRoom
  pubsub : k'.pubsub = k.pubsub
  nextListener : k'.nextListener = k.nextListener
  managingRooms : k'.managingRooms = k.managingRooms
  cancelled : k'.cancelled = k.cancelled
  nextWait : k'.nextWait = k.nextWait + 1
  nextTask : k'.nextTask = k.nextTask + 1
  wait : ∀ {v}, v < k.nextWait → k'.waits v = k.waits v
  timer : (k'.waits k.nextWait).timer = k.nextTask
  room : (k'.waits k.nextWait).room = r
  task : ∀ {t}, t ∈ k'.tasks ∨ t ∈ k'.working → (t ∈ k.tasks ∨ t ∈ k.working) ∨
    (t.callback = .reconnect k.nextWait ∧ t.id = k.nextTask)
  lives : ∀ r', ∃ listeners, k'.lives r' = { k.lives r' with onJoinListeners := listeners } ∧
    ∀ {id v}, (id, .wait v) ∈ listeners → (id, .wait v) ∈ (k.lives r').onJoinListeners ∨
      (r' = r ∧ v = k.nextWait)

theorem granted_allowReconnection (k : Ledger) (r : RoomRef) (clientId : Str) (seconds : Int32)
    (joinSub : ℕ) : k.Granted (k.allowReconnection r clientId seconds joinSub) r where
  nextRoom := rfl
  pubsub := rfl
  nextListener := rfl
  managingRooms := rfl
  cancelled := rfl
  nextWait := rfl
  nextTask := rfl
  wait := fun hv => Function.update_of_ne (Nat.ne_of_lt hv) ..
  timer := by simp only [allowReconnection, Function.update_self]
  room := by simp only [allowReconnection, Function.update_self]
  task := fun {t} ht => by
    rcases ht with ht | ht
    · rcases List.mem_append.1 ht with ht | ht
      · exact .inl (.inl ht)
      · obtain rfl := List.mem_singleton.1 ht
        exact .inr ⟨rfl, rfl⟩
    · exact .inl (.inr ht)
  lives := fun r' => by
    by_cases hr : r' = r
    · subst hr
      refine ⟨_, Function.update_self .., fun {id v} hl => ?_⟩
      rcases List.mem_append.1 hl with hl | hl
      · exact .inl hl
      · cases List.mem_singleton.1 hl
        exact .inr ⟨rfl, rfl⟩
    · exact ⟨_, Function.update_of_ne hr .., .inl⟩

theorem Granted.later {k k' : Ledger} {r : RoomRef} (g : k.Granted k' r) : Later k k' none := by
  have alive : ∀ {r'}, k.Alive r' → k'.Alive r' := by
    intro r' ha
    obtain ⟨_, e, -⟩ := g.lives r'
    rw [Alive, g.nextRoom, e]
    exact ha
  refine
    { nextRoom := g.nextRoom.ge, alive := alive, recorded := fun {t} ht => ?_
      foreign := fun {i} hi => by rw [Foreign, g.nextListener, g.pubsub]; exact hi
      disposing := fun {r'} _ hd => ?_, unmade := fun {r'} _ hr => ?_
      drained := fun {r'} _ hr => ?_ }
  · unfold Recorded at *
    split <;> rename_i callback <;> simp only [callback] at ht
    · rename_i r'
      obtain ⟨_, e, -⟩ := g.lives r'
      rw [e]
      exact ⟨alive ht.1, ht.2⟩
    · rw [g.wait ht.1, g.nextWait]
      exact ⟨Nat.lt_succ_of_lt ht.1, ht.2⟩
  · obtain ⟨_, e, -⟩ := g.lives r'
    rw [e]
    exact hd
  · obtain ⟨_, e, -⟩ := g.lives r'
    rw [Unmade, g.nextRoom, e]
    exact hr
  · obtain ⟨_, e, -⟩ := g.lives r'
    rw [Drained, g.nextRoom, g.cancelled, e]
    exact hr

theorem Granted.sound {k k' : Ledger} {r : RoomRef} (g : k.Granted k' r) (h : k.Sound)
    (born : r < k.nextRoom) : k'.Sound := by
  have later := g.later
  have roomId : ∀ r', (k'.lives r').roomId = (k.lives r').roomId := fun r' => by
    obtain ⟨_, e, -⟩ := g.lives r'; rw [e]
  have gameMessageSub : ∀ r', (k'.lives r').gameMessageSub = (k.lives r').gameMessageSub :=
    fun r' => by obtain ⟨_, e, -⟩ := g.lives r'; rw [e]
  have playerLeftSub : ∀ r', (k'.lives r').playerLeftSub = (k.lives r').playerLeftSub :=
    fun r' => by obtain ⟨_, e, -⟩ := g.lives r'; rw [e]
  have timer : ∀ r', (k'.lives r').autoDisposeTimer = (k.lives r').autoDisposeTimer :=
    fun r' => by obtain ⟨_, e, -⟩ := g.lives r'; rw [e]
  have stage : ∀ r', (k'.lives r').stage = (k.lives r').stage :=
    fun r' => by obtain ⟨_, e, -⟩ := g.lives r'; rw [e]
  have disposing : ∀ r', (k'.lives r').disposing = (k.lives r').disposing :=
    fun r' => by obtain ⟨_, e, -⟩ := g.lives r'; rw [e]
  refine ⟨
    { owns := fun {key l} hl => ?_, ids := by rw [g.pubsub]; exact h.ids
      gameMessage := fun {r' i} hi => ?_, playerLeft := fun {r' i} hi => ?_, task := fun {t} ht => ?_
      timer := fun {r' i} hi => ?_, timers := fun {r₁ r₂ i} h₁ h₂ => ?_, wait := fun {v} hv => ?_
      waitTimer := fun {v r'} hv hi => ?_, listens := fun {r' id v} hl => ?_ },
    { managed := fun {X r'} hr => ?_, unborn := fun {r'} hr => ?_, ended := fun {r'} hr => ?_
      registered := fun {r'} hr => ?_ }⟩
  · rw [g.pubsub] at hl
    rw [g.nextListener]
    obtain ⟨ho, hi⟩ := h.owns hl
    refine ⟨?_, hi⟩
    unfold Owns at *
    split <;> rename_i handler <;> simp only [handler] at ho
    · rw [roomId, gameMessageSub]; exact ⟨later.alive ho.1, ho.2⟩
    · rw [playerLeftSub]; exact ⟨later.alive ho.1, ho.2⟩
    · exact ho
  · rw [gameMessageSub] at hi; rw [g.pubsub, roomId]; exact h.gameMessage hi
  · rw [playerLeftSub] at hi; rw [g.pubsub]; exact h.playerLeft hi
  · rcases g.task ht with ht | ⟨callback, id⟩
    · exact later.recorded (h.task ht)
    · rw [Recorded, callback, g.nextWait]
      exact ⟨Nat.lt_succ_self _, g.timer.trans id.symm⟩
  · rw [timer] at hi; rw [g.nextTask]; exact Nat.lt_succ_of_lt (h.timer hi)
  · rw [timer] at h₁ h₂; exact h.timers h₁ h₂
  · rw [g.nextTask, g.nextRoom]
    rcases Nat.lt_succ_iff_lt_or_eq.1 (g.nextWait ▸ hv) with hv | rfl
    · rw [g.wait hv]; exact ⟨Nat.lt_succ_of_lt (h.wait hv).1, (h.wait hv).2⟩
    · rw [g.timer, g.room]; exact ⟨Nat.lt_succ_self _, born⟩
  · rw [timer] at hi
    rcases Nat.lt_succ_iff_lt_or_eq.1 (g.nextWait ▸ hv) with hv | rfl
    · rw [g.wait hv] at hi; exact h.waitTimer hv hi
    · rw [g.timer] at hi; exact lt_irrefl _ (h.timer hi)
  · obtain ⟨listeners, e, sub⟩ := g.lives r'
    rw [e] at hl
    rw [g.nextWait]
    rcases sub hl with hl | ⟨rfl, rfl⟩
    · obtain ⟨lt, room⟩ := h.listens hl
      rw [g.wait lt]
      exact ⟨Nat.lt_succ_of_lt lt, room⟩
    · exact ⟨Nat.lt_succ_self _, g.room⟩
  · rw [g.managingRooms] at hr; rw [g.nextRoom, roomId, stage]; exact h.managed hr
  · rw [g.nextRoom] at hr; rw [gameMessageSub, playerLeftSub, timer, stage]; exact h.unborn hr
  · rw [stage] at hr; rw [disposing]; exact h.ended hr
  · rw [stage] at hr; rw [gameMessageSub, playerLeftSub, timer]; exact h.registered hr

theorem mem_finishDispose {k : Ledger} {r : RoomRef} {key : Str} {l : Listener Handler} :
    l ∈ (k.finishDispose r).pubsub.listenersOf key ↔ l ∈ k.pubsub.listenersOf key ∧
      (key = (k.lives r).roomId → (k.lives r).gameMessageSub ≠ some l.id) ∧
      (key = PLAYER_LEFT → (k.lives r).playerLeftSub ≠ some l.id) := by
  have cancelled : (k.cancel (k.lives r).autoDisposeTimer).pubsub = k.pubsub := by
    cases (k.lives r).autoDisposeTimer <;> rfl
  unfold finishDispose
  simp only [setLife_toStores, mem_unsubscribe, cancelled, and_assoc]

/-- What `finishDispose` does not change. -/
theorem finishDispose_stores (k : Ledger) (r : RoomRef) : ∃ pubsub storage cancelled,
    (k.finishDispose r).toStores =
      { k.toStores with pubsub := pubsub, storage := storage, cancelled := cancelled } ∧
    (∀ {i}, k.cancelled i = true → cancelled i = true) ∧
    ∀ {i}, (k.lives r).autoDisposeTimer = some i → cancelled i = true := by
  unfold finishDispose
  simp only [setLife_toStores]
  have stays : ∀ {i j : ℕ}, k.cancelled i = true → Function.update k.cancelled j true i = true := by
    intro i j hi
    by_cases e : i = j
    · rw [e]; exact Function.update_self ..
    · exact (Function.update_of_ne e ..).trans hi
  cases (k.lives r).autoDisposeTimer with
  | none =>
    cases (k.lives r).gameMessageSub <;> cases (k.lives r).playerLeftSub <;>
      exact ⟨_, _, _, rfl, id, nofun⟩
  | some i =>
    have done : ∀ {j}, some i = some j → Function.update k.cancelled i true j = true := by
      rintro j ⟨⟩; exact Function.update_self ..
    cases (k.lives r).gameMessageSub <;> cases (k.lives r).playerLeftSub <;>
      exact ⟨_, _, _, rfl, stays, done⟩

theorem later_finishDispose {k : Ledger} {r : RoomRef}
    (disposing : (k.lives r).disposing = true) : Later k (k.finishDispose r) none := by
  obtain ⟨pubsub, storage, cancelled, stores, cancels, -⟩ := finishDispose_stores k r
  have members := fun {key l} => @mem_finishDispose k r key l
  have self := finishDispose_self k r
  have other := fun {r'} => @finishDispose_ne k r r'
  generalize k.finishDispose r = k' at *
  have alive : ∀ {r'}, k.Alive r' → k'.Alive r' := by
    rintro r' ⟨lt, ha⟩
    refine ⟨by rw [stores]; exact lt, ?_⟩
    by_cases hr : r' = r
    · rw [hr, self]; exact .inl disposing
    · rw [other hr]; exact ha
  refine
    { nextRoom := by rw [stores], alive := alive, recorded := fun {t} ht => ?_
      foreign := fun {i} hi => ⟨by rw [stores]; exact hi.1, fun hl => hi.2 (members.1 hl).1⟩
      disposing := fun {r'} _ hd => ?_, unmade := fun {r'} _ hr => ?_
      drained := fun {r'} _ hr => ?_ }
  · unfold Recorded at *
    split <;> rename_i callback <;> simp only [callback] at ht
    · rename_i r'
      refine ⟨alive ht.1, ?_⟩
      by_cases hr : r' = r
      · rw [hr, self]; exact hr ▸ ht.2
      · rw [other hr]; exact ht.2
    · rw [stores]; exact ht
  · by_cases hr : r' = r
    · rw [hr, self]; exact disposing
    · rw [other hr]; exact hd
  · refine ⟨by rw [stores]; exact hr.1, ?_⟩
    by_cases e : r' = r
    · rw [e, self]; exact ⟨rfl, rfl, e ▸ hr.2.2.2⟩
    · rw [other e]; exact hr.2
  · refine ⟨by rw [stores]; exact hr.1, ?_⟩
    rw [stores]
    by_cases e : r' = r
    · subst e; rw [self]; exact ⟨hr.2.1, rfl, rfl, fun hi => cancels (hr.2.2.2.2 hi)⟩
    · rw [other e]
      exact ⟨hr.2.1, hr.2.2.1, hr.2.2.2.1, fun hi => cancels (hr.2.2.2.2 hi)⟩

theorem drained_finishDispose {k : Ledger} {r : RoomRef} (born : r < k.nextRoom)
    (disposing : (k.lives r).disposing = true) : (k.finishDispose r).Drained r := by
  obtain ⟨pubsub, storage, cancelled, stores, -, timer⟩ := finishDispose_stores k r
  have self := finishDispose_self k r
  refine ⟨by rw [stores]; exact born, ?_⟩
  rw [stores, self]
  exact ⟨disposing, rfl, rfl, timer⟩

theorem Sound.finishDispose {k : Ledger} (h : k.Sound) {r : RoomRef} (born : r < k.nextRoom)
    (disposing : (k.lives r).disposing = true) : (k.finishDispose r).Sound := by
  obtain ⟨pubsub, storage, cancelled, stores, -, -⟩ := finishDispose_stores k r
  have members : ∀ {key l}, l ∈ (k.finishDispose r).pubsub.listenersOf key ↔ _ :=
    fun {key l} => mem_finishDispose (k := k) (r := r) (l := l)
  have ids : ∀ key, (((k.finishDispose r).pubsub.listenersOf key).map Listener.id).Nodup := by
    intro key
    unfold Ledger.finishDispose
    refine nodup_ids_unsubscribe (nodup_ids_unsubscribe ?_)
    cases (k.lives r).autoDisposeTimer <;> exact h.ids key
  have later := later_finishDispose disposing
  have self := finishDispose_self k r
  have other := fun {r'} => @finishDispose_ne k r r'
  generalize k.finishDispose r = k' at *
  have nextRoom : k'.nextRoom = k.nextRoom := by rw [stores]
  have roomId : ∀ r', (k'.lives r').roomId = (k.lives r').roomId := by
    intro r'
    by_cases hr : r' = r
    · rw [hr, self]
    · rw [other hr]
  have timer : ∀ r', (k'.lives r').autoDisposeTimer = (k.lives r').autoDisposeTimer := by
    intro r'
    by_cases hr : r' = r
    · rw [hr, self]
    · rw [other hr]
  have listeners : ∀ r', (k'.lives r').onJoinListeners = (k.lives r').onJoinListeners := by
    intro r'
    by_cases hr : r' = r
    · rw [hr, self]
    · rw [other hr]
  refine ⟨
    { owns := fun {key l} hl => ?_, ids := ids, gameMessage := fun {r' i} hi => ?_
      playerLeft := fun {r' i} hi => ?_, task := fun ht => ?_, timer := fun {r' i} hi => ?_
      timers := fun {r₁ r₂ i} h₁ h₂ => ?_, wait := fun {v} hv => ?_
      waitTimer := fun {v r'} hv hi => ?_, listens := fun {r' id v} hl => ?_ },
    { managed := fun {X r'} hr => ?_, unborn := fun {r'} hr => ?_, ended := fun {r'} hr => ?_
      registered := fun {r'} hr => ?_ }⟩
  · obtain ⟨hl, game, left⟩ := members.1 hl
    obtain ⟨ho, hi⟩ := h.owns hl
    refine ⟨?_, by rw [stores]; exact hi⟩
    unfold Owns at *
    split <;> rename_i r' handler <;> simp only [handler] at ho
    · have hr : r' ≠ r := fun e => game (e ▸ ho.2.1) (e ▸ ho.2.2)
      exact ⟨later.alive ho.1, by rw [other hr]; exact ho.2⟩
    · have hr : r' ≠ r := fun e => left ho.2.1 (e ▸ ho.2.2)
      exact ⟨later.alive ho.1, by rw [other hr]; exact ho.2⟩
    · exact ho
  · by_cases hr : r' = r
    · rw [hr, self] at hi; cases hi
    · rw [other hr] at hi ⊢
      have hl := h.gameMessage hi
      refine members.2 ⟨hl, fun same hg => hr ?_, fun same hg => ?_⟩
      · have held := h.gameMessage hg
        rw [← same] at held
        cases h.unique hl held rfl
        rfl
      · have held := h.playerLeft hg
        rw [← same] at held
        cases h.unique hl held rfl
  · by_cases hr : r' = r
    · rw [hr, self] at hi; cases hi
    · rw [other hr] at hi
      have hl := h.playerLeft hi
      refine members.2 ⟨hl, fun same hg => ?_, fun same hg => hr ?_⟩
      · have held := h.gameMessage hg
        rw [← same] at held
        cases h.unique hl held rfl
      · cases h.unique hl (h.playerLeft hg) rfl
        rfl
  · exact later.recorded (h.task (by rwa [stores] at ht))
  · rw [timer] at hi; rw [stores]; exact h.timer hi
  · rw [timer] at h₁ h₂; exact h.timers h₁ h₂
  · rw [stores] at hv ⊢; exact h.wait hv
  · rw [timer] at hi; rw [stores] at hv hi; exact h.waitTimer hv hi
  · rw [listeners] at hl; rw [stores]; exact h.listens hl
  · rw [stores] at hr ⊢
    obtain ⟨lt, id, stage⟩ := h.managed hr
    refine ⟨lt, (roomId r').trans id, ?_⟩
    by_cases hr' : r' = r
    · rw [hr', self]; exact .inr rfl
    · rw [other hr']; exact stage
  · rw [nextRoom] at hr
    have hr' : r' ≠ r := fun e => absurd born (not_lt.2 (e ▸ hr))
    rw [other hr']
    exact h.unborn hr
  · by_cases hr' : r' = r
    · rw [hr', self]; exact disposing
    · rw [other hr'] at hr ⊢; exact h.ended hr
  · by_cases hr' : r' = r
    · rw [hr', self] at hr; cases hr
    · rw [other hr'] at hr ⊢; exact h.registered hr

theorem onRoomDisposed_stores (k : Ledger) (r : RoomRef) : (k.onRoomDisposed r).toStores =
    { k.toStores with managingRooms := k.managingRooms.erase (k.lives r).roomId } := by
  unfold onRoomDisposed
  dsimp only
  cases k.managingRooms.lookup (k.lives r).roomId <;> rfl

theorem sameWiring_onRoomDisposed (k : Ledger) (r : RoomRef) :
    k.SameWiring (k.onRoomDisposed r) := by
  have stores := onRoomDisposed_stores k r
  have lives := onRoomDisposed_lives k r
  generalize k.onRoomDisposed r = k' at *
  exact
    { pubsub := by rw [stores], nextListener := by rw [stores], nextRoom := by rw [stores]
      nextWait := by rw [stores], nextTask := by rw [stores], sessions := by rw [stores]
      task := by rw [stores]; exact id, waitTimer := by rw [stores]; exact fun _ => rfl
      waitRoom := by rw [stores]; exact fun _ => rfl, cancelled := by rw [stores]; exact id
      roomId := fun r' => by rw [lives], gameMessageSub := fun r' => by rw [lives]
      playerLeftSub := fun r' => by rw [lives], autoDisposeTimer := fun r' => by rw [lives]
      disposing := fun {r'} => by rw [lives]; exact id
      listens := fun {r' _ _} => by rw [lives]; exact id }

theorem Sound.onRoomDisposed {k : Ledger} (h : k.Sound) {r : RoomRef} (born : r < k.nextRoom)
    (disposing : (k.lives r).disposing = true) : (k.onRoomDisposed r).Sound := by
  have wiring := sameWiring_onRoomDisposed k r
  have stores := onRoomDisposed_stores k r
  have stage : ∀ r', ((k.onRoomDisposed r).lives r').stage =
      if r' = r then .gone else (k.lives r').stage := fun r' => by rw [onRoomDisposed_lives]
  refine ⟨wiring.wired h.toWired,
    { managed := fun {X r'} hr => ?_, unborn := fun {r'} hr => ?_, ended := fun {r'} hr => ?_
      registered := fun {r'} hr => ?_ }⟩
  · rw [stores] at hr
    have hX : X ≠ (k.lives r).roomId := by
      rintro rfl
      rw [show AList.lookup _ _ = none from AList.lookup_erase ..] at hr
      cases hr
    obtain ⟨lt, id, hs⟩ := h.managed ((AList.lookup_erase_ne hX).symm.trans hr)
    have hr' : r' ≠ r := fun e => hX (id.symm.trans (by rw [e]))
    rw [wiring.nextRoom, wiring.roomId, stage, if_neg hr']
    exact ⟨lt, id, hs⟩
  · rw [wiring.nextRoom] at hr
    have hr' : r' ≠ r := fun e => absurd born (not_lt.2 (e ▸ hr))
    rw [wiring.gameMessageSub, wiring.playerLeftSub, wiring.autoDisposeTimer, stage, if_neg hr']
    exact h.unborn hr
  · rw [stage] at hr
    apply wiring.disposing
    split at hr
    · rename_i e; rw [e]; exact disposing
    · exact h.ended hr
  · rw [stage] at hr
    rw [wiring.gameMessageSub, wiring.playerLeftSub, wiring.autoDisposeTimer]
    split at hr
    · cases hr
    · exact h.registered hr

end Ledger
end Blueboat
