import Blueboat.ClientJoins

set_option autoImplicit false

/-! How often a room is joined on one connection. -/
namespace Blueboat.Client

open Protocol LockMachine

def isJoin (link : ℕ) (roomId : Str) (frame : ℕ × Str × Json) : Bool :=
  frame.1 = link && frame.2.1 = Protocol.joinRoom &&
    match (frame.2.2.atKey (lit "roomId")).bind Json.getString with
    | .ok id => id = roomId
    | .error _ => false

def joinsSent (w : World) (link : ℕ) (roomId : Str) : ℕ := w.sent.countP (isJoin link roomId)

/-- There is one call for the room: none of the objects has its id yet. -/
def SingleCall (roomId : Str) (c : ClientConfig) : Cmd → Answer → Prop
  | .joinRoom id _, _ => id = roomId →
      ∀ o, (c.world.objects o).named = true → (c.world.objects o).id ≠ roomId
  | .handle (.created ..) data, _ => data.getString = .ok roomId →
      ∀ o, (c.world.objects o).named = true → (c.world.objects o).id ≠ roomId
  | _, _ => True

/-- When the rooms to join again are copied, none of them waits for the reply to a frame that was
sent on the same connection. -/
def Answered (roomId : Str) (c : ClientConfig) : Cmd → Answer → Prop
  | .copyRooms, _ => ∀ o ∈ c.world.rooms, (c.world.objects o).id = roomId →
      (c.world.objects o).joined = false → ∀ n, c.world.ws.map Link.number = some n →
      joinsSent c.world n roomId = 0
  | _, _ => True

structure Once (roomId : Str) (w : World) : Prop where
  one : ∀ n, joinsSent w n roomId ≤ 1
  unique : ∀ {o o'}, (w.objects o).named = true → (w.objects o).id = roomId →
    (w.objects o').named = true → (w.objects o').id = roomId → o = o'
  unnamed : (∀ o, (w.objects o).named = true → (w.objects o).id ≠ roomId) →
    ∀ n, joinsSent w n roomId = 0

def Fresh (roomId : Str) (w : World) (o : Ref) : Prop :=
  o ∉ w.rooms ∧ ∀ n, joinsSent w n roomId = 0

def Unsent (roomId : Str) (w : World) : Prop :=
  ∀ n, w.ws.map Link.number = some n → joinsSent w n roomId = 0

def Due (roomId : Str) (w : World) (o : Ref) : Prop :=
  (w.objects o).joined = true ∨ Unsent roomId w

def Cmd.Once (roomId : Str) (w : World) : Cmd → Prop
  | .joinRoomShared o id _ origin => id = roomId →
      if origin = .rejoin then Due roomId w o else Fresh roomId w o
  | .sendUnlessJoined o id _ origin => id = roomId →
      if origin = .rejoin then Due roomId w o else Fresh roomId w o
  | .sendJoin o id _ origin => id = roomId →
      if origin = .rejoin then Unsent roomId w else Fresh roomId w o
  | .rejoinRooms rooms => ∀ o ∈ rooms, (w.objects o).id = roomId → Due roomId w o
  | _ => True

section
variable {roomId : Str} {w w' : World}

theorem Fresh.mono {o : Ref} (h : Fresh roomId w o)
    (count : ∀ n, joinsSent w' n roomId = joinsSent w n roomId)
    (rooms : o ∈ w'.rooms → o ∈ w.rooms) : Fresh roomId w' o :=
  ⟨fun mem => h.1 (rooms mem), fun n => (count n).trans (h.2 n)⟩

theorem Unsent.mono (h : Unsent roomId w)
    (count : ∀ n, joinsSent w' n roomId = joinsSent w n roomId)
    (number : w'.ws.map Link.number = w.ws.map Link.number) : Unsent roomId w' :=
  fun n ws => (count n).trans (h n (number ▸ ws))

/-- What the manager has not begun does not depend on the connection. -/
theorem Cmd.Once.aside {cmd : Cmd} (h : cmd.Once roomId w) (aside : ¬ cmd.Rejoining)
    (count : ∀ n, joinsSent w' n roomId = joinsSent w n roomId)
    (rooms : ∀ {o}, o ∈ w'.rooms → o ∈ w.rooms) : cmd.Once roomId w' := by
  have first : ∀ {o id origin}, cmd.joins = some (o, id, origin) → origin ≠ .rejoin :=
    fun joins e => aside (.inr ⟨_, _, e ▸ joins⟩)
  cases cmd with
  | joinRoomShared | sendUnlessJoined | sendJoin =>
    intro e
    have ne := first rfl
    have fresh := h e
    rw [if_neg ne] at fresh ⊢
    exact fresh.mono count rooms
  | rejoinRooms rooms => exact absurd (.inl ⟨rooms, rfl⟩) aside
  | _ => trivial

structure Still (roomId : Str) (w w' : World) : Prop extends Later w w' where
  count : ∀ n, joinsSent w' n roomId = joinsSent w n roomId
  number : w'.ws.map Link.number = w.ws.map Link.number
  joined : ∀ {o}, (w.objects o).joined = true → (w'.objects o).joined = true

theorem Still.due (still : Still roomId w w') {o : Ref} (h : Due roomId w o) : Due roomId w' o :=
  h.imp still.joined fun unsent => unsent.mono still.count still.number

theorem Still.cmd (still : Still roomId w w') (sound : Sound w) {cmd : Cmd} (ok : cmd.Ok w)
    (h : cmd.Once roomId w) (old : ∀ {o id origin}, cmd.joins = some (o, id, origin) →
      Fresh roomId w o → o ∈ w'.rooms → o ∈ w.rooms) : cmd.Once roomId w' := by
  cases cmd with
  | joinRoomShared | sendUnlessJoined =>
    intro e
    have mine := h e
    split at mine
    · rename_i rejoin; rw [if_pos rejoin]; exact still.due mine
    · rename_i first; rw [if_neg first]; exact mine.mono still.count (old rfl mine)
  | sendJoin =>
    intro e
    have mine := h e
    split at mine
    · rename_i rejoin; rw [if_pos rejoin]; exact mine.mono still.count still.number
    · rename_i first; rw [if_neg first]; exact mine.mono still.count (old rfl mine)
  | rejoinRooms rooms =>
    intro o mem id
    refine still.due (h o mem ?_)
    exact (still.object (sound.rooms (ok.1 o mem))).2.symm.trans id
  | _ => trivial

theorem Once.same (h : Once roomId w) (count : ∀ n, joinsSent w' n roomId = joinsSent w n roomId)
    (named : ∀ o, (w'.objects o).named = (w.objects o).named)
    (id : ∀ {o}, (w.objects o).named = true → (w'.objects o).id = (w.objects o).id) :
    Once roomId w' := by
  have back : ∀ {o}, (w'.objects o).named = true → (w'.objects o).id = roomId →
      (w.objects o).named = true ∧ (w.objects o).id = roomId := fun {o} n e => by
    rw [named] at n
    exact ⟨n, (id n).symm.trans e⟩
  refine ⟨fun n => (count n).trans_le (h.one n), fun n e n' e' => ?_, fun none n => ?_⟩
  · exact h.unique (back n e).1 (back n e).2 (back n' e').1 (back n' e').2
  · refine (count n).trans (h.unnamed (fun o n e => none o ((named o).trans n) ?_) n)
    exact (id n).trans e

/-- An object gets its id. -/
theorem Once.named (h : Once roomId w) (count : ∀ n, joinsSent w' n roomId = joinsSent w n roomId)
    {o : Ref} (others : ∀ {o'}, o' ≠ o → w'.objects o' = w.objects o')
    (unnamed : (w.objects o).named = false)
    (single : (w'.objects o).id = roomId →
      ∀ o', (w.objects o').named = true → (w.objects o').id ≠ roomId) : Once roomId w' := by
  have old : ∀ {o'}, (w.objects o').named = true → o' ≠ o := fun n e => by
    rw [e, unnamed] at n
    cases n
  refine ⟨fun n => (count n).trans_le (h.one n), fun {o₁ o₂} n₁ e₁ n₂ e₂ => ?_, fun none n => ?_⟩
  · by_cases h₁ : o₁ = o <;> by_cases h₂ : o₂ = o
    · exact h₁.trans h₂.symm
    · rw [others h₂] at n₂ e₂
      exact absurd e₂ (single (h₁ ▸ e₁) o₂ n₂)
    · rw [others h₁] at n₁ e₁
      exact absurd e₁ (single (h₂ ▸ e₂) o₁ n₁)
    · rw [others h₁] at n₁ e₁
      rw [others h₂] at n₂ e₂
      exact h.unique n₁ e₁ n₂ e₂
  · refine (count n).trans (h.unnamed (fun o' n e => ?_) n)
    have same := others (old n)
    rw [← same] at n e
    exact none o' n e

/-! The frames. -/

theorem isJoin_joinData (link link' : ℕ) (id : Str) (options : Json) :
    isJoin link roomId (link', Protocol.joinRoom, joinData id options) =
      (link' = link && id = roomId) := by
  have field : ((joinData id options).atKey (lit "roomId")).bind Json.getString = .ok id := rfl
  simp [isJoin, field]

theorem joinsSent_send (w : World) {event : Str} (ne : event ≠ Protocol.joinRoom) (data : Json)
    (n : ℕ) : joinsSent (w.send event data) n roomId = joinsSent w n roomId := by
  unfold World.send
  split
  · rfl
  · split
    · rfl
    · simp [joinsSent, List.countP_append, isJoin, ne]

theorem joinsSent_join (w : World) (id : Str) (options : Json) (n : ℕ) :
    joinsSent (w.send Protocol.joinRoom (joinData id options)) n roomId = joinsSent w n roomId ∨
      (id = roomId ∧ w.ws.map Link.number = some n ∧
        joinsSent (w.send Protocol.joinRoom (joinData id options)) n roomId =
          joinsSent w n roomId + 1) := by
  unfold World.send
  split
  · exact .inl rfl
  · rename_i link ws
    split
    · exact .inl rfl
    · have count : joinsSent { w with sent := w.sent ++
          [(link.number, Protocol.joinRoom, joinData id options)] } n roomId =
          joinsSent w n roomId + if link.number = n ∧ id = roomId then 1 else 0 := by
        simp [joinsSent, List.countP_append, isJoin_joinData, List.countP_singleton]
      by_cases mine : link.number = n ∧ id = roomId
      · rw [if_pos mine] at count
        exact .inr ⟨mine.2, by rw [ws, ← mine.1]; rfl, count⟩
      · rw [if_neg mine] at count
        exact .inl count

end

section
variable {M : MsgpackC} {J : JsonText} {roomId : Str} {c : ClientConfig} {cmd : Cmd} {a : Answer}

theorem Pushes.once {push : List Cmd} (pushes : Pushes M J c.world cmd a push)
    (mine : cmd.Once roomId c.world) : ∀ cmd' ∈ push, cmd'.Once roomId c.world := by
  have one : ∀ {cmd' : Cmd}, cmd'.Once roomId c.world → ∀ c' ∈ [cmd'], c'.Once roomId c.world :=
    fun h => List.forall_mem_singleton.2 h
  cases pushes with
  | attempt => exact List.forall_mem_cons.2 ⟨trivial, one mine⟩
  | ask joined =>
    refine one fun e => ?_
    have mine := mine e
    split at mine
    · rename_i rejoin
      rw [if_pos rejoin]
      exact mine.resolve_left (by simp [joined])
    · rename_i first; rw [if_neg first]; exact mine
  | skipRoom => exact one fun o mem => mine o (List.mem_cons_of_mem _ mem)
  | rejoin =>
    refine List.forall_mem_cons.2 ⟨fun id => mine _ List.mem_cons_self id, one fun o mem => ?_⟩
    exact mine o (List.mem_cons_of_mem _ mem)
  | returns | ignored | stopped | quits => exact nofun
  | _ => simp [Cmd.Once]

/-- While a join is being sent, no other one of the same room is to come. -/
theorem Kept.sole {tid : Tid} {rest : List Cmd} {o : Ref} {options : Json} {origin : Origin}
    (kept : Kept c) (top : c.running = some ⟨tid, .sendJoin o roomId options origin :: rest, none⟩)
    (once : Once roomId c.world) (first : origin ≠ .rejoin → o ∉ c.world.rooms) {cmd' : Cmd}
    (waits : Waits c rest cmd') :
    (∀ {o' origin'}, cmd'.joins = some (o', roomId, origin') →
      (origin' ≠ .rejoin → o' ∉ c.world.rooms) → False) ∧
    ∀ {rooms}, cmd' = .rejoinRooms rooms → ∀ o' ∈ rooms, (c.world.objects o').id ≠ roomId := by
  have sound := kept.holds.1
  have ok := (kept.holds.2.1 _ top).ok _ List.mem_cons_self
  have ok' := kept.waits_ok top waits
  refine ⟨fun {o' origin'} joins fresh => ?_, ?_⟩
  · obtain ⟨named, id, listed⟩ := (Cmd.ok_of_joins joins).1 ok'
    obtain rfl := once.unique named id ok.1 ok.2.1
    by_cases again : origin = .rejoin
    · by_cases again' : origin' = .rejoin
      · subst again again'
        obtain ⟨rooms, rfl, -⟩ := kept.waits_rejoin top waits rfl (.inr ⟨_, _, joins⟩)
        cases joins
      · exact fresh again' (ok.2.2 again)
    · by_cases again' : origin' = .rejoin
      · exact first again (listed again')
      · exact kept.waits_key top waits (Key.chain_of_joins rfl again)
          (Key.chain_of_joins joins again')
  · rintro rooms rfl o' mem id
    have listed := ok'.1 o' mem
    obtain rfl := once.unique (sound.rooms listed) id ok.1 ok.2.1
    by_cases again : origin = .rejoin
    · subst again
      obtain ⟨rooms', e, fresh⟩ := kept.waits_rejoin top waits rfl (.inl ⟨_, rfl⟩)
      cases e
      exact fresh mem
    · exact first again listed

/-- What a step leaves of the claims of the commands that do not run. -/
theorem Kept.once_step {out : Out} {tid : Tid} {rest : List Cmd} (kept : Kept c)
    (top : c.running = some ⟨tid, cmd :: rest, none⟩) (effect : Effect M J c.world cmd a out)
    (once : Once roomId c.world) (mine : cmd.Once roomId c.world)
    (waiting : ∀ cmd', Waits c rest cmd' → cmd'.Once roomId c.world)
    (single : SingleCall roomId c cmd a) (answered : Answered roomId c cmd a) :
    Once roomId out.world ∧ (∀ cmd' ∈ out.push, cmd'.Once roomId out.world) ∧
      ∀ cmd', Waits c rest cmd' → cmd'.Once roomId out.world := by
  have sound := kept.holds.1
  have ok := (kept.holds.2.1 _ top).ok cmd List.mem_cons_self
  have later := (effect.sound sound ok).2
  have one : ∀ {w : World} {cmd' : Cmd}, cmd'.Once roomId w → ∀ c' ∈ [cmd'], c'.Once roomId w :=
    fun h => List.forall_mem_singleton.2 h
  have still : Still roomId c.world out.world → out.world.rooms = c.world.rooms →
      ∀ cmd', Waits c rest cmd' → cmd'.Once roomId out.world := fun still rooms cmd' waits =>
    still.cmd sound (kept.waits_ok top waits) (waiting cmd' waits) fun _ _ mem => rooms ▸ mem
  have aside : cmd.isManager = true → out.world.sent = c.world.sent →
      out.world.rooms = c.world.rooms →
      ∀ cmd', Waits c rest cmd' → cmd'.Once roomId out.world := fun manager sent rooms cmd' waits =>
    (waiting cmd' waits).aside (kept.waits_manager top waits manager)
      (fun n => by rw [joinsSent, sent]; rfl) fun mem => rooms ▸ mem
  cases effect with
  | throws => exact ⟨once, nofun, waiting⟩
  | stays pushes => exact ⟨once, pushes.once mine, waiting⟩
  | @joinRoom id options a =>
    have new : ∀ {o}, o ∈ c.world.rooms → o ≠ c.world.nextObject := fun mem =>
      Nat.ne_of_lt (sound.named_lt (sound.rooms mem))
    have id' : ((c.world.newObject (newRoom id options true)).objects c.world.nextObject).id = id :=
      congrArg Room.id (setObject_self c.world _ _)
    refine ⟨once.named (fun _ => rfl) (fun ne => setObject_ne c.world ne _)
      (sound.unborn le_rfl) fun e => single (id'.symm.trans e), one fun e => ?_,
      still ⟨later, fun _ => rfl, rfl, fun {o} h => ?_⟩ rfl⟩
    · rw [if_neg nofun]
      exact ⟨fun mem => new mem rfl, once.unnamed (single e)⟩
    · exact ((sound.joinRoom id options).2.joined o).trans h
  | @sendJoin o id options origin a =>
    have aside := (sound.send Protocol.joinRoom (joinData id options)).2
    have named : ∀ o', ((c.world.send Protocol.joinRoom (joinData id options)).objects o').named =
        (c.world.objects o').named := fun _ => by rw [objects_send]
    by_cases e : id = roomId
    · subst e
      have unsent : Unsent id c.world ∧ (origin ≠ .rejoin → o ∉ c.world.rooms) := by
        have mine := mine rfl
        split at mine
        · rename_i again; exact ⟨mine, fun ne => absurd again ne⟩
        · exact ⟨fun n _ => mine.2 n, fun _ => mine.1⟩
      obtain ⟨unsent, first⟩ := unsent
      refine ⟨⟨fun n => ?_, ?_, fun none => ?_⟩, one trivial, fun cmd' waits => ?_⟩
      · rcases joinsSent_join c.world id options n with same | ⟨-, ws, more⟩
        · exact same.trans_le (once.one n)
        · exact (more.trans (congrArg (· + 1) (unsent n ws))).le
      · rw [Outcome.world_park, objects_send]
        exact once.unique
      · rw [Outcome.world_park, objects_send] at none
        exact absurd ok.2.1 (none o ok.1)
      · obtain ⟨others, rejoins⟩ := kept.sole top once first waits
        have claim := waiting cmd' waits
        cases cmd' with
        | joinRoomShared o' id' options' origin' | sendUnlessJoined o' id' options' origin'
        | sendJoin o' id' options' origin' =>
          rintro rfl
          refine (others rfl fun ne => ?_).elim
          have fresh := claim rfl
          rw [if_neg ne] at fresh
          exact fresh.1
        | rejoinRooms rooms =>
          intro o' mem id'
          rw [Outcome.world_park, objects_send] at id'
          exact absurd id' (rejoins rfl o' mem)
        | _ => trivial
    · have count : ∀ n, joinsSent (c.world.send Protocol.joinRoom (joinData id options)) n roomId =
          joinsSent c.world n roomId := fun n =>
        (joinsSent_join c.world id options n).resolve_right fun more => e more.1
      exact ⟨once.same count named fun h => (later.object h).2, one trivial,
        still ⟨later, count, aside.ws, fun {o} h => (aside.joined o).trans h⟩ (rooms_send ..)⟩
  | @addRoom o id origin a =>
    refine ⟨once.same (fun _ => rfl) (fun _ => rfl) fun _ => rfl, nofun, fun cmd' waits => ?_⟩
    have ok' := kept.waits_ok top waits
    have still : Still roomId c.world (c.world.addRoom o id origin) :=
      ⟨later, fun _ => rfl, rfl, fun h => h⟩
    refine still.cmd sound ok' (waiting cmd' waits) fun {o' id' origin'} joins fresh mem => ?_
    rcases mem_addRoom mem with mem | ⟨rfl, -⟩
    · exact mem
    · have first : origin ≠ .rejoin := fun again => fresh.1 (ok.2.2 again)
      have first' : origin' ≠ .rejoin := fun again =>
        fresh.1 (((Cmd.ok_of_joins joins).1 ok').2.2 again)
      exact absurd (Key.chain_of_joins joins first')
        (kept.waits_key top waits (Key.chain_of_joins rfl first))
  | @createRoom roomName options id =>
    have aside := (sound.createdRoom roomName options id).2
    have named : ∀ o, ((createRoom c.world roomName options id).world.objects o).named =
        (c.world.objects o).named := fun o => by
      by_cases e : o = c.world.nextObject
      · rw [e, sound.unborn le_rfl]
        exact congrArg Room.named (setObject_self c.world _ _)
      · exact congrArg Room.named (setObject_ne c.world e _)
    exact ⟨once.same (fun _ => rfl) named fun h => (later.object h).2, one trivial,
      still ⟨later, fun _ => rfl, rfl, fun {o} h => (aside.joined o).trans h⟩ rfl⟩
  | @sendFrame event data a =>
    have aside := (sound.send event data).2
    exact ⟨once.same (joinsSent_send c.world ok data)
      (fun _ => by rw [Outcome.world_park, objects_send]) fun h => (later.object h).2, nofun,
      still ⟨later, joinsSent_send c.world ok data, aside.ws, fun {o} h => (aside.joined o).trans h⟩
        (rooms_send ..)⟩
  | disconnect closes =>
    refine ⟨once.same (fun _ => rfl) (fun _ => rfl) fun _ => rfl, ?_,
      still ⟨later, fun _ => rfl, rfl, fun h => h⟩ rfl⟩
    rcases closes with rfl | rfl
    · exact nofun
    · exact one trivial
  | closeWs =>
    exact ⟨once.same (fun _ => rfl) (fun _ => rfl) fun _ => rfl, nofun,
      still ⟨later, fun _ => rfl, (Aside.closeWs c.world).ws, fun h => h⟩ rfl⟩
  | closed =>
    exact ⟨once.same (fun _ => rfl) (fun _ => rfl) fun _ => rfl, one trivial,
      still ⟨later, fun _ => rfl, (Aside.closeWs c.world).ws, fun h => h⟩ rfl⟩
  | call =>
    exact ⟨once.same (fun _ => rfl) (fun _ => rfl) fun _ => rfl, one trivial,
      still ⟨later, fun _ => rfl, rfl, fun h => h⟩ rfl⟩
  | copyRooms =>
    refine ⟨once.same (fun _ => rfl) (fun _ => rfl) fun _ => rfl, one fun o mem id => ?_,
      still ⟨later, fun _ => rfl, rfl, fun h => h⟩ rfl⟩
    cases joined : (c.world.objects o).joined with
    | true => exact .inl joined
    | false => exact .inr (answered o mem id joined)
  | idSetDone | eraseRequest =>
    exact ⟨once.same (fun _ => rfl) (fun _ => rfl) fun _ => rfl, nofun,
      still ⟨later, fun _ => rfl, rfl, fun h => h⟩ rfl⟩
  | @joined o data a key =>
    refine ⟨once.same (fun _ => rfl) (fun o' => named_setJoined ..) fun h => (later.object h).2,
      one trivial, still ⟨later, fun _ => rfl, rfl, fun {o'} h => ?_⟩ rfl⟩
    rw [Outcome.world_park, objects_setJoined]
    simp [h]
  | @created o options requestId data id a reply =>
    have unnamed : ∀ {o'}, o' ∈ c.world.rooms → o' ≠ o := fun mem e => by
      have named := sound.rooms mem
      rw [e, ok.1] at named
      cases named
    have single : id = roomId → ∀ o', (c.world.objects o').named = true →
        (c.world.objects o').id ≠ roomId := fun e => single (e ▸ reply)
    refine ⟨once.named (fun _ => rfl) (fun ne => setObject_ne c.world ne _) ok.1 fun e => ?_, ?_,
      still ⟨later, fun _ => rfl, rfl, fun {o'} h => (joined_nameObject c.world o o' id).trans h⟩ rfl⟩
    · exact single ((congrArg Room.id (setObject_self c.world _ _)).symm.trans e)
    · refine List.forall_mem_cons.2 ⟨trivial, List.forall_mem_cons.2 ⟨trivial, one fun e => ?_⟩⟩
      rw [if_neg nofun]
      exact ⟨fun mem => unnamed mem rfl, once.unnamed (single e)⟩
  | setLeft =>
    exact ⟨once.same (fun _ => rfl) (fun o' => named_setJoined ..) fun h => (later.object h).2,
      nofun, aside rfl rfl rfl⟩
  | install reconnects =>
    refine ⟨once.same (fun _ => rfl) (fun _ => rfl) fun _ => rfl, ?_, aside rfl rfl rfl⟩
    rcases reconnects with rfl | rfl
    · exact one trivial
    · exact List.forall_mem_cons.2 ⟨trivial, one trivial⟩
  | resetWs =>
    exact ⟨once.same (fun _ => rfl) (fun _ => rfl) fun _ => rfl, one trivial, aside rfl rfl rfl⟩
  | leave =>
    exact ⟨once.same (fun _ => rfl) (fun o' => named_setJoined ..) fun h => (later.object h).2,
      List.forall_mem_cons.2 ⟨trivial, one trivial⟩, aside rfl rfl rfl⟩

def AllOnce (roomId : Str) (w : World) (t : Thread Tid Cmd Exn) : Prop :=
  ∀ cmd ∈ t.stack, cmd.Once roomId w

theorem once_preserved (M : MsgpackC) (J : JsonText) (roomId : Str) :
    Preserved (client M J) (Once roomId) (Each (AllOnce roomId)) (AllOnce roomId) fun c l =>
      OnSteps (fun c cmd a => SingleCall roomId c cmd a ∧ Answered roomId c cmd a) c l ∧ Kept c := by
  refine .each _ ?_ ?_ ?_
  · rintro c tid cmd rest a out ⟨once, running, parked⟩ ⟨meets, kept⟩ top run
    obtain ⟨single, answered⟩ := meets tid cmd rest top
    have waiting : ∀ cmd', Waits c rest cmd' → cmd'.Once roomId c.world := by
      rintro cmd' (mem | ⟨t, ht, mem⟩)
      · exact running _ top cmd' (List.mem_cons_of_mem _ mem)
      · exact parked t ht cmd' mem
    obtain ⟨once', pushed, others⟩ := kept.once_step top (exec_effect (M := M) (J := J) run) once
      (running _ top cmd List.mem_cons_self) waiting single answered
    refine ⟨once', fun cmd' mem => ?_, fun t ht cmd' mem => others cmd' (.inr ⟨t, ht, mem⟩)⟩
    rcases List.mem_append.1 mem with mem | mem
    · exact pushed cmd' mem
    · exact others cmd' (.inl mem)
  · rintro c tid cmd rest x a out ⟨once, running, parked⟩ - top run
    obtain rfl := Option.some.inj run
    exact ⟨once, fun cmd' mem => running _ top cmd' (List.mem_cons_of_mem _ mem), parked⟩
  · rintro c e w new ⟨once, running, parked⟩ - run
    obtain ⟨rfl, cmd, rfl, manager, joins, -⟩ := spawn_app run
    refine ⟨once, running, parked, List.forall_mem_singleton.2 (List.forall_mem_singleton.2 ?_)⟩
    cases cmd with
    | joinRoomShared | sendUnlessJoined | sendJoin => cases joins
    | rejoinRooms => cases manager
    | _ => trivial

theorem Once.initial (roomId : Str) :
    Holds (Once roomId) (Each (AllOnce roomId)) (AllOnce roomId) ClientConfig.initial :=
  ⟨⟨fun _ => Nat.zero_le _, nofun, fun _ _ => rfl⟩, nofun,
    List.forall_mem_singleton.2 (List.forall_mem_singleton.2 trivial)⟩

/-- A room that is joined with a single call is joined once on a connection. -/
theorem join_not_doubled (M : MsgpackC) (J : JsonText) (roomId : Str)
    {ls : List (Label Answer EnvEvent)} {c : ClientConfig}
    (run : Run (client M J) (OnSteps fun c cmd a => SingleCall roomId c cmd a ∧
      Answered roomId c cmd a) ClientConfig.initial ls c) (n : ℕ) :
    joinsSent c.world n roomId ≤ 1 := by
  have run' := run.strengthen _ Kept.initial fun kept _ h => kept.step h
  exact ((once_preserved M J roomId).run _ run' (Once.initial roomId)).1.one n

end

/-! An application that joins between the connection and `CLIENT_ID_SET`. -/

def joinedBetween : List (Label Answer EnvEvent) :=
  turn 0 .connected ++ turn 0 .next ++ joins 1 ++ turn 1 .next ++ turn 0 (.receive true idFrame) ++
    turn 1 .next ++ turn 1 .next ++ turn 1 .ret ++ turn 1 .next ++ turn 1 .next ++ turn 1 .next ++
    turn 1 .next ++ turn 1 .ret ++ turn 1 .next ++ turn 1 .next

/-- Enough for one call in a run that has no rooms yet when they are copied. -/
def singleCall (c : ClientConfig) : Label Answer EnvEvent → Bool
  | .act _ =>
    match c.running with
    | some ⟨_, .joinRoom .. :: _, none⟩ => c.world.nextObject = 0
    | some ⟨_, .handle .. :: _, none⟩ => false
    | _ => true
  | _ => true

def unlisted (c : ClientConfig) : Label Answer EnvEvent → Bool
  | .act _ =>
    match c.running with
    | some ⟨_, .copyRooms :: _, none⟩ => c.world.rooms.isEmpty
    | _ => true
  | _ => true

theorem singleCall_sound {roomId : Str} {c : ClientConfig} {l : Label Answer EnvEvent}
    (h : singleCall c l = true) (kept : Kept c) : OnSteps (SingleCall roomId) c l := by
  cases l with
  | act a =>
    intro tid cmd rest top
    simp only [singleCall, top] at h
    cases cmd with
    | joinRoom id options =>
      intro e o named
      have none : c.world.nextObject = 0 := by simpa using h
      rw [kept.holds.1.unborn (none ▸ Nat.zero_le o)] at named
      cases named
    | handle => cases h
    | _ => trivial
  | _ => trivial

theorem unlisted_sound {roomId : Str} {c : ClientConfig} {l : Label Answer EnvEvent}
    (h : unlisted c l = true) : OnSteps (Answered roomId) c l := by
  cases l with
  | act a =>
    intro tid cmd rest top
    simp only [unlisted, top] at h
    cases cmd with
    | copyRooms =>
      intro o mem
      rw [List.isEmpty_iff.1 h] at mem
      cases mem
    | _ => trivial
  | _ => trivial

/-- One call, and the room is joined twice on the first connection. -/
theorem join_doubled : ¬ ∀ (M : MsgpackC) (J : JsonText) (roomId : Str)
    (ls : List (Label Answer EnvEvent)) (c : ClientConfig),
    Run (client M J) (OnSteps (SingleCall roomId)) ClientConfig.initial ls c →
      ∀ n, joinsSent c.world n roomId ≤ 1 := by
  intro claim
  have found : (execute (client shortest Text.reference) singleCall ClientConfig.initial
      joinedBetween).any (fun c => joinsSent c.world 0 (lit "r") = 2) = true := by
    decide +kernel
  obtain ⟨c, run, twice⟩ := exists_run _ found
  have run' := run.strengthen _ Kept.initial fun kept _ h => kept.step h
  have once := claim _ _ (lit "r") _ c (run'.weaken _ fun h => singleCall_sound h.1 h.2) 0
  rw [of_decide_eq_true twice] at once
  exact absurd once (by decide)

/-- A call after `CLIENT_ID_SET` sends one frame. -/
theorem join_not_doubled_late : ∃ c, joinsSent c.world 0 (lit "r") = 1 ∧
    Run (client shortest Text.reference) (OnSteps fun c cmd a => SingleCall (lit "r") c cmd a ∧
      Answered (lit "r") c cmd a) ClientConfig.initial joinedLate c ∧
    ∀ n, joinsSent c.world n (lit "r") ≤ 1 := by
  have found : (execute (client shortest Text.reference)
      (fun c l => singleCall c l && unlisted c l) ClientConfig.initial joinedLate).any
      (fun c => joinsSent c.world 0 (lit "r") = 1) = true := by
    decide +kernel
  obtain ⟨c, run, once⟩ := exists_run _ found
  have run' := run.strengthen _ Kept.initial fun kept _ h => kept.step h
  have meets : Run _ (OnSteps fun c cmd a => SingleCall (lit "r") c cmd a ∧
      Answered (lit "r") c cmd a) _ _ c := run'.weaken _ fun h =>
    onSteps_and (singleCall_sound (Bool.and_eq_true_iff.1 h.1).1 h.2)
      (unlisted_sound (Bool.and_eq_true_iff.1 h.1).2)
  exact ⟨c, of_decide_eq_true once, meets, join_not_doubled _ _ _ meets⟩

end Blueboat.Client
