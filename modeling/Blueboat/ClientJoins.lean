import Blueboat.ClientRuns

set_option autoImplicit false

/-! Every room that `join_room` returned is joined again on every connection. -/
namespace Blueboat.Client

open Protocol LockMachine

def Sent (w : World) (link : ℕ) (roomId : Str) : Prop :=
  ∃ options, (link, Protocol.joinRoom, joinData roomId options) ∈ w.sent

def SaysJoined (data : Json) : Prop := (data.atKey (lit "key")).bind Json.getString = .ok joinedRoom

/-- Where a join is lost: a call that has sent its frame, or dropped it, and has not yet added its
room, while `CLIENT_ID_SET` or the loss of the connection goes through the rooms. The last case is
a server that confirms what was not asked. -/
def Undisturbed (M : MsgpackC) (J : JsonText) (c : ClientConfig) : Cmd → Answer → Prop
  | .copyRooms, _ => ∀ t ∈ c.threads, ∀ o roomId origin,
      .addRoom o roomId origin ∈ t.stack → Listed c.world roomId ∨
        ∀ n, c.world.ws.map Link.number = some n → Sent c.world n roomId
  | .copyLostRooms, _ => ∀ o, (c.world.objects o).joined = true →
      Listed c.world (c.world.objects o).id
  | .recvLoop, .receive isBinary payload => ∀ frame o,
      Sio.parseFrame M J isBinary payload = .ok frame →
      c.world.eventHandlers.lookup frame.event = some (.message o) → SaysJoined frame.data →
      ∀ n, c.world.ws.map Link.number = some n → Sent c.world n (c.world.objects o).id
  | _, _ => True

/-- A condition on the commands that a run executes. -/
def OnSteps (ok : ClientConfig → Cmd → Answer → Prop) (c : ClientConfig) :
    Label Answer EnvEvent → Prop
  | .act a => ∀ tid cmd rest, c.running = some ⟨tid, cmd :: rest, none⟩ → ok c cmd a
  | _ => True

theorem onSteps_and {ok ok' : ClientConfig → Cmd → Answer → Prop} {c : ClientConfig}
    {l : Label Answer EnvEvent} (h : OnSteps ok c l) (h' : OnSteps ok' c l) :
    OnSteps (fun c cmd a => ok c cmd a ∧ ok' c cmd a) c l := by
  cases l with
  | act a => exact fun tid cmd rest top => ⟨h tid cmd rest top, h' tid cmd rest top⟩
  | _ => trivial

structure Settled (w : World) : Prop where
  joined : ∀ {n}, w.ws = some ⟨n, false⟩ → ∀ {o}, (w.objects o).joined = true →
    Sent w n (w.objects o).id ∨ (Listed w (w.objects o).id ∧ o ∉ w.rooms)
  idSet : ∀ {n}, w.ws = some ⟨n, false⟩ → w.idSet = some n → w.copied = some n ∧
    ∀ {roomId}, roomId ≠ [] → Listed w roomId → Sent w n roomId

def Outside (w : World) : Prop := ∀ {o}, (w.objects o).joined = true →
  Listed w (w.objects o).id ∧ o ∉ w.rooms

def Reached (w : World) (roomId : Str) : Prop := ∀ n, w.ws = some ⟨n, false⟩ →
  w.copied = some n → Sent w n roomId ∨ Listed w roomId

def Cmd.Tracked (w : World) : Cmd → Prop
  | .leaveRooms rooms => ∀ {o}, (w.objects o).joined = true →
      Listed w (w.objects o).id ∧ (o ∉ w.rooms ∨ o ∈ rooms)
  | .connectionManagerLoop _ => Outside w
  | .install _ => Outside w
  | .addRoom _ roomId _ => Reached w roomId
  | .rejoinRooms _ => w.copied = w.ws.map Link.number
  | .idSetDone => w.copied = w.ws.map Link.number
  | .handle (.message o) data => SaysJoined data → ∀ {n}, w.ws.map Link.number = some n →
      Sent w n (w.objects o).id
  | _ => True

def Cmd.Rejoins (w : World) (roomId : Str) : Cmd → Prop
  | .rejoinRooms rooms => ∃ o ∈ rooms, (w.objects o).id = roomId
  | .joinRoomShared _ roomId' _ origin => origin = .rejoin ∧ roomId' = roomId
  | .sendUnlessJoined _ roomId' _ origin => origin = .rejoin ∧ roomId' = roomId
  | .sendJoin _ roomId' _ origin => origin = .rejoin ∧ roomId' = roomId
  | _ => False

structure Tracked (w : World) (t : Thread Tid Cmd Exn) : Prop where
  cmds : ∀ cmd ∈ t.stack, cmd.Tracked w
  covered : t.exn = none → .recvLoop ∈ t.stack → ∀ {n}, w.ws = some ⟨n, false⟩ →
    w.copied = some n → ∀ {roomId}, roomId ≠ [] → Listed w roomId →
    Sent w n roomId ∨ ∃ cmd ∈ t.stack, cmd.Rejoins w roomId

theorem Later.sentJoin {w w' : World} (h : Later w w') {n : ℕ} {roomId : Str}
    (sent : Sent w n roomId) : Sent w' n roomId := by
  obtain ⟨options, mem⟩ := sent
  exact ⟨options, h.sent mem⟩

structure Calm (w w' : World) : Prop extends Later w w' where
  number : w'.ws.map Link.number = w.ws.map Link.number
  opened : ∀ {n}, w'.ws = some ⟨n, false⟩ → w.ws = some ⟨n, false⟩
  copied : w'.copied = w.copied
  idSet : w'.idSet = w.idSet
  joined : ∀ {o}, (w'.objects o).joined = true → (w.objects o).joined = true
  added : ∀ {o}, o ∈ w'.rooms → o ∈ w.rooms ∨ ¬ Listed w (w.objects o).id
  listed : ∀ {n}, w.ws = some ⟨n, false⟩ → w.copied = some n → ∀ {roomId}, Listed w' roomId →
    Sent w n roomId ∨ Listed w roomId

section
variable {w w' : World}

theorem Later.listed_iff (later : Later w w') (sound : Sound w) (rooms : w'.rooms = w.rooms)
    {roomId : Str} : Listed w' roomId ↔ Listed w roomId := by
  refine ⟨fun ⟨o, mem, id⟩ => ?_, later.listed sound⟩
  rw [rooms] at mem
  exact ⟨o, mem, (later.object (sound.rooms mem)).2.symm.trans id⟩

theorem Later.calm (later : Later w w') (sound : Sound w) (rooms : w'.rooms = w.rooms)
    (ws : w'.ws = w.ws) (copied : w'.copied = w.copied) (idSet : w'.idSet = w.idSet)
    (joined : ∀ {o}, (w'.objects o).joined = true → (w.objects o).joined = true) : Calm w w' :=
  { later with
    number := by rw [ws]
    opened := fun h => ws ▸ h
    copied := copied
    idSet := idSet
    joined := joined
    added := fun h => .inl (rooms ▸ h)
    listed := fun _ _ _ h => .inr ((later.listed_iff sound rooms).1 h) }

theorem Calm.refl (w : World) : Calm w w :=
  { Later.refl w with
    number := rfl, opened := fun h => h, copied := rfl, idSet := rfl, joined := fun h => h
    added := .inl, listed := fun _ _ _ => .inr }

theorem Aside.calm (aside : Aside w w') (sound : Sound w) (rooms : w'.rooms = w.rooms) :
    Calm w w' :=
  { aside with
    number := aside.ws
    joined := fun {o} h => aside.joined o ▸ h
    added := fun h => .inl (rooms ▸ h)
    listed := fun _ _ _ h => .inr ((aside.toLater.listed_iff sound rooms).1 h) }

/-- A stale flag stays harmless. -/
theorem Calm.stale (calm : Calm w w') (sound : Sound w) {P : Ref → Prop}
    (h : ∀ {o}, (w.objects o).joined = true → Listed w (w.objects o).id ∧ (o ∉ w.rooms ∨ P o)) :
    ∀ {o}, (w'.objects o).joined = true → Listed w' (w'.objects o).id ∧ (o ∉ w'.rooms ∨ P o) := by
  intro o joined
  have before := calm.joined joined
  obtain ⟨listed, outside⟩ := h before
  refine ⟨?_, outside.imp_left fun outside mem => ?_⟩
  · rw [(calm.object (sound.joined before)).2]
    exact calm.toLater.listed sound listed
  · exact (calm.added mem).elim outside (absurd listed)

theorem Calm.outside (calm : Calm w w') (sound : Sound w) (h : Outside w) : Outside w' := by
  intro o joined
  have stale := calm.stale sound (P := fun _ => False)
    (fun joined => (h joined).imp_right .inl) joined
  exact stale.imp_right fun outside => outside.resolve_right nofun

theorem Calm.settled (calm : Calm w w') (sound : Sound w) (h : Settled w) : Settled w' := by
  refine ⟨fun {n} ws {o} joined => ?_, fun {n} ws idSet => ?_⟩
  · have before := calm.joined joined
    have id := (calm.object (sound.joined before)).2
    rcases h.joined (calm.opened ws) before with sent | ⟨listed, outside⟩
    · exact .inl (id ▸ calm.toLater.sentJoin sent)
    · refine .inr ⟨id ▸ calm.toLater.listed sound listed, fun mem => ?_⟩
      exact (calm.added mem).elim outside (absurd listed)
  · rw [calm.idSet] at idSet
    obtain ⟨copied, all⟩ := h.idSet (calm.opened ws) idSet
    refine ⟨calm.copied.trans copied, fun nonempty listed => calm.toLater.sentJoin ?_⟩
    exact (calm.listed (calm.opened ws) copied listed).elim (fun sent => sent) (all nonempty)

/-- Nothing was copied for a connection that is not the current one. -/
theorem Later.reached (later : Later w w') (sound : Sound w)
    (same : ∀ {n}, w'.ws = some ⟨n, false⟩ → w'.copied = some n →
      w.ws = some ⟨n, false⟩ ∧ w.copied = some n) {roomId : Str} (h : Reached w roomId) :
    Reached w' roomId := by
  intro n ws copied
  obtain ⟨ws, copied⟩ := same ws copied
  exact (h n ws copied).imp later.sentJoin (later.listed sound)

theorem Calm.cmd (calm : Calm w w') (sound : Sound w) {cmd : Cmd} (ok : cmd.Ok w)
    (h : cmd.Tracked w) : cmd.Tracked w' := by
  cases cmd with
  | leaveRooms rooms => exact calm.stale sound h
  | connectionManagerLoop attempt => exact calm.outside sound h
  | install attempt => exact calm.outside sound h
  | addRoom o roomId origin =>
    refine calm.toLater.reached sound (fun ws copied => ?_) h
    exact ⟨calm.opened ws, calm.copied.symm.trans copied⟩
  | rejoinRooms rooms => exact calm.copied.trans (h.trans calm.number.symm)
  | idSetDone => exact calm.copied.trans (h.trans calm.number.symm)
  | handle handler data =>
    cases handler with
    | message o =>
      intro confirms n number
      rw [(calm.object ok).2]
      exact calm.toLater.sentJoin (h confirms (calm.number.symm.trans number))
    | _ => trivial
  | _ => trivial

theorem Later.rejoins (later : Later w w') (sound : Sound w) {cmd : Cmd} (ok : cmd.Ok w)
    {roomId : Str} (h : cmd.Rejoins w roomId) : cmd.Rejoins w' roomId := by
  cases cmd with
  | rejoinRooms rooms =>
    obtain ⟨o, mem, id⟩ := h
    exact ⟨o, mem, (later.object (sound.rooms (ok.1 o mem))).2.trans id⟩
  | _ => exact h

theorem Calm.tracked (calm : Calm w w') (sound : Sound w) {t : Thread Tid Cmd Exn}
    (stacked : Stacked w t) (h : Tracked w t) : Tracked w' t := by
  refine ⟨fun cmd mem => calm.cmd sound (stacked.ok cmd mem) (h.cmds cmd mem), ?_⟩
  intro exn loop n ws copied roomId nonempty listed
  rw [calm.copied] at copied
  have sent : Sent w n roomId ∨ ∃ cmd ∈ t.stack, cmd.Rejoins w roomId :=
    (calm.listed (calm.opened ws) copied listed).elim .inl
      (h.covered exn loop (calm.opened ws) copied nonempty)
  refine sent.imp calm.toLater.sentJoin fun ⟨cmd, mem, rejoins⟩ => ?_
  exact ⟨cmd, mem, calm.toLater.rejoins sound (stacked.ok cmd mem) rejoins⟩

/-- The thread that takes the step. -/
theorem Calm.next (calm : Calm w w') (sound : Sound w) {tid : Tid} {cmd : Cmd} {rest push : List Cmd}
    (stacked : Stacked w ⟨tid, cmd :: rest, none⟩) (h : Tracked w ⟨tid, cmd :: rest, none⟩)
    (loop : .recvLoop ∈ push → cmd = .recvLoop) (cmds : ∀ c ∈ push, c.Tracked w')
    (pass : ∀ {n}, w'.ws = some ⟨n, false⟩ → ∀ {roomId}, roomId ≠ [] →
      cmd.Rejoins w' roomId → Sent w' n roomId ∨ ∃ c ∈ push, c.Rejoins w' roomId) :
    Tracked w' ⟨tid, push ++ rest, none⟩ := by
  obtain ⟨kept, covered⟩ := calm.tracked sound stacked h
  refine ⟨fun c mem => ?_, fun _ mem n ws copied roomId nonempty listed => ?_⟩
  · rcases List.mem_append.1 mem with mem | mem
    · exact cmds c mem
    · exact kept c (List.mem_cons_of_mem _ mem)
  · have mem' : .recvLoop ∈ cmd :: rest := by
      rcases List.mem_append.1 mem with mem | mem
      · rw [loop mem]; exact List.mem_cons_self
      · exact List.mem_cons_of_mem _ mem
    rcases covered rfl mem' ws copied nonempty listed with sent | ⟨c, hc, rejoins⟩
    · exact .inl sent
    · rcases List.mem_cons.1 hc with rfl | hc
      · refine (pass ws nonempty rejoins).imp_right fun ⟨c, hc, rejoins⟩ => ?_
        exact ⟨c, List.mem_append_left _ hc, rejoins⟩
      · exact .inr ⟨c, List.mem_append_right _ hc, rejoins⟩

end

section
variable {M : MsgpackC} {J : JsonText} {w : World} {cmd : Cmd} {a : Answer} {out : Out}

theorem Sound.calm_addRoom (sound : Sound w) {o : Ref} {roomId : Str} {origin : Origin}
    (ok : (Cmd.addRoom o roomId origin).Ok w) (reached : Reached w roomId) :
    Calm w (w.addRoom o roomId origin) := by
  have aside : Aside w (w.addRoom o roomId origin) := (sound.addRoom ok.1 ok.2.1).2.1
  refine { aside with
    number := aside.ws, joined := fun h => h, added := fun mem => ?_, listed := ?_ }
  · refine (mem_addRoom mem).imp_right ?_
    rintro ⟨rfl, fresh⟩
    rw [ok.2.1]
    exact fresh
  · intro n ws copied roomId' listed
    obtain ⟨o', mem, id⟩ := listed
    rcases mem_addRoom mem with mem | ⟨rfl, -⟩
    · exact .inr ⟨o', mem, id⟩
    · have same : roomId = roomId' := ok.2.1.symm.trans id
      exact same ▸ reached n ws copied

theorem Effect.calm (effect : Effect M J w cmd a out) (sound : Sound w) (ok : cmd.Ok w)
    (tracked : cmd.Tracked w) (other : cmd.isManager = false) : Calm w out.world := by
  have aside := effect.aside sound ok other
  cases effect with
  | addRoom => exact sound.calm_addRoom ok tracked
  | sendJoin => exact aside.calm sound (rooms_send w _ _)
  | sendFrame => exact aside.calm sound (rooms_send w _ _)
  | throws | stays | joinRoom | createRoom | disconnect | closeWs | call =>
    exact aside.calm sound rfl
  | _ => cases other

theorem calm_setLeft (sound : Sound w) {o : Ref} : Calm w (w.setJoined o false) := by
  have later : Later w (w.setJoined o false) := (sound.setJoined fun h => by cases h).2
  refine later.calm sound rfl rfl rfl rfl ?_
  intro o' joined
  rw [objects_setJoined] at joined
  simp only at joined
  split at joined
  · cases joined
  · exact joined

theorem sentJoin_send {n : ℕ} (ws : w.ws = some ⟨n, false⟩) (roomId : Str) (options : Json) :
    Sent (w.send Protocol.joinRoom (joinData roomId options)) n roomId := by
  have sends : w.send Protocol.joinRoom (joinData roomId options) =
      { w with sent := w.sent ++ [(n, Protocol.joinRoom, joinData roomId options)] } := by
    simp [World.send, ws]
  rw [sends]
  exact ⟨options, List.mem_append_right _ (List.mem_singleton_self _)⟩

/-- The commands that a step leaves behind have established what they say. -/
theorem Pushes.tracked {c : ClientConfig} {push : List Cmd}
    (pushes : Pushes M J c.world cmd a push) (settled : Settled c.world) (ok : cmd.Ok c.world)
    (tracked : cmd.Tracked c.world) (undisturbed : Undisturbed M J c cmd a) :
    ∀ cmd' ∈ push, cmd'.Tracked c.world := by
  have one : ∀ {cmd' : Cmd}, cmd'.Tracked c.world → ∀ c' ∈ [cmd'], c'.Tracked c.world :=
    fun h => List.forall_mem_singleton.2 h
  cases pushes with
  | skip joined =>
    refine one fun n ws _ => ?_
    rw [← ok.2.1]
    exact (settled.joined ws joined).imp_right And.left
  | skipRoom => exact one tracked
  | rejoin => exact List.forall_mem_cons.2 ⟨trivial, one tracked⟩
  | rejoined => exact List.forall_mem_cons.2 ⟨trivial, one tracked⟩
  | unreachable => exact List.forall_mem_cons.2 ⟨trivial, List.forall_mem_cons.2 ⟨trivial, one tracked⟩⟩
  | connected => exact one tracked
  | @dispatch isBinary payload frame handler parsed found =>
    refine List.forall_mem_cons.2 ⟨?_, one trivial⟩
    cases handler with
    | message o =>
      exact fun confirms {n} number => undisturbed frame o parsed found confirms n number
    | _ => trivial
  | copied => exact one fun {o} joined => ⟨undisturbed o joined, (em _).symm⟩
  | allLeft =>
    refine List.forall_mem_cons.2 ⟨trivial, one fun {o} joined => ?_⟩
    exact (tracked joined).imp_right fun outside => outside.resolve_right List.not_mem_nil
  | returns | ignored | stopped | quits => exact nofun
  | _ => simp [Cmd.Tracked]

theorem Pushes.loop {push : List Cmd} (pushes : Pushes M J w cmd a push)
    (loop : .recvLoop ∈ push) : cmd = .recvLoop := by
  cases pushes with
  | other | idSet | dispatch => rfl
  | _ => simp at loop

/-- A step of the list of rooms to join again passes on what it does not do. -/
theorem Pushes.pass {push : List Cmd} (pushes : Pushes M J w cmd a push) (settled : Settled w)
    (ok : cmd.Ok w) {n : ℕ} (ws : w.ws = some ⟨n, false⟩) {roomId : Str}
    (nonempty : roomId ≠ []) (rejoins : cmd.Rejoins w roomId) :
    Sent w n roomId ∨ ∃ cmd' ∈ push, cmd'.Rejoins w roomId := by
  cases pushes with
  | attempt => exact .inr ⟨_, List.mem_cons_of_mem _ List.mem_cons_self, rejoins⟩
  | skip joined =>
    obtain ⟨rejoin, rfl⟩ := rejoins
    rcases settled.joined ws joined with sent | ⟨-, outside⟩
    · exact .inl (ok.2.1 ▸ sent)
    · exact absurd (ok.2.2 rejoin) outside
  | ask => exact .inr ⟨_, List.mem_cons_self, rejoins⟩
  | skipRoom empty =>
    obtain ⟨o', mem, id⟩ := rejoins
    rcases List.mem_cons.1 mem with rfl | mem
    · exact absurd (id.symm.trans empty) nonempty
    · exact .inr ⟨_, List.mem_cons_self, o', mem, id⟩
  | rejoin =>
    obtain ⟨o', mem, id⟩ := rejoins
    rcases List.mem_cons.1 mem with rfl | mem
    · exact .inr ⟨_, List.mem_cons_self, rfl, id⟩
    · exact .inr ⟨_, List.mem_cons_of_mem _ List.mem_cons_self, o', mem, id⟩
  | rejoined =>
    obtain ⟨o', mem, -⟩ := rejoins
    cases mem
  | _ => cases rejoins

/-- Below a handler there is the loop, and nothing else of the manager. -/
theorem Stacked.below_handler {tid : Tid} {rest : List Cmd}
    (stacked : Stacked w ⟨tid, cmd :: rest, none⟩) (handler : cmd.isHandler = true) :
    ∀ cmd' ∈ rest, cmd'.isManager = false ∨ cmd' = .recvLoop := by
  obtain ⟨loop, others⟩ := stacked.ordered.1.handler handler
  intro cmd' mem
  cases phase : cmd'.isPhase with
  | true => exact .inr (stacked.ordered.2.phase mem loop phase rfl)
  | false => exact .inl (by rw [Cmd.isManager, phase, others cmd' mem]; rfl)

theorem Cmd.tracked_of_other {w w' : World} {cmd : Cmd} (h : cmd.Tracked w)
    (other : cmd.isManager = false ∨ cmd = .recvLoop)
    (reached : ∀ {o roomId origin}, cmd = .addRoom o roomId origin → Reached w roomId →
      Reached w' roomId) : cmd.Tracked w' := by
  cases cmd with
  | addRoom => exact reached rfl h
  | joinRoom | joinRoomShared | sendUnlessJoined | sendJoin | createRoom | sendFrame | disconnect
  | closeWs | call | inCallback | recvLoop => trivial
  | _ => rcases other with other | other <;> cases other

theorem Ordered.no_rejoins {rest : List Cmd} (ordered : Ordered rest)
    (others : ∀ cmd ∈ rest, cmd.isHandler = false) {roomId : Str} :
    ∀ cmd ∈ rest, ¬ cmd.Rejoins w roomId := by
  induction rest with
  | nil => exact nofun
  | cons top rest ih =>
    obtain ⟨above, ordered⟩ := ordered
    refine List.forall_mem_cons.2 ⟨fun rejoins => ?_, ih ordered fun cmd mem =>
      others cmd (List.mem_cons_of_mem _ mem)⟩
    have below : ∀ {o r}, top.joins = some (o, r, .rejoin) → False := fun joins => by
      obtain ⟨rooms, below, rfl, -⟩ := above.rejoin joins
      cases others _ (List.mem_cons_of_mem _ List.mem_cons_self)
    cases top with
    | rejoinRooms => cases others _ List.mem_cons_self
    | joinRoomShared | sendUnlessJoined | sendJoin =>
      obtain ⟨rfl, -⟩ := rejoins
      exact below rfl
    | _ => exact rejoins

/-- A step that goes on leaves the thread that took it in order. -/
theorem Effect.tracked {c : ClientConfig} {tid : Tid} {rest : List Cmd}
    (effect : Effect M J c.world cmd a out) (sound : Sound c.world) (settled : Settled c.world)
    (top : c.running = some ⟨tid, cmd :: rest, none⟩)
    (stacked : Stacked c.world ⟨tid, cmd :: rest, none⟩)
    (tracked : Tracked c.world ⟨tid, cmd :: rest, none⟩) (undisturbed : Undisturbed M J c cmd a) :
    Settled out.world ∧ Tracked out.world ⟨tid, out.push ++ rest, out.exn⟩ := by
  have ok := stacked.ok cmd List.mem_cons_self
  have mine := tracked.cmds cmd List.mem_cons_self
  have one : ∀ {w : World} {cmd' : Cmd}, cmd'.Tracked w → ∀ c' ∈ [cmd'], c'.Tracked w :=
    fun h => List.forall_mem_singleton.2 h
  have calm := effect.calm sound ok mine
  have later := (effect.sound sound ok).2
  cases effect with
  | throws =>
    exact ⟨settled, fun cmd' mem => tracked.cmds cmd' (List.mem_cons_of_mem _ mem), nofun⟩
  | stays pushes =>
    exact ⟨settled, (Calm.refl _).next sound stacked tracked pushes.loop
      (pushes.tracked settled ok mine undisturbed) (pushes.pass settled ok)⟩
  | joinRoom | createRoom | call =>
    have calm := calm rfl
    exact ⟨calm.settled sound settled, calm.next sound stacked tracked nofun (one trivial)
      fun _ _ => nofun⟩
  | sendFrame | closeWs =>
    have calm := calm rfl
    exact ⟨calm.settled sound settled, calm.next sound stacked tracked nofun nofun
      fun _ _ => nofun⟩
  | addRoom =>
    have calm := calm rfl
    exact ⟨calm.settled sound settled, calm.next sound stacked tracked nofun nofun
      fun _ _ => nofun⟩
  | disconnect closes =>
    have calm := calm rfl
    refine ⟨calm.settled sound settled, ?_⟩
    rcases closes with rfl | rfl
    · exact calm.next sound stacked tracked nofun nofun fun _ _ => nofun
    · exact calm.next sound stacked tracked nofun (one trivial) fun _ _ => nofun
  | @sendJoin o roomId options origin =>
    have calm := calm rfl
    have sent : ∀ {n}, (c.world.send Protocol.joinRoom
        (joinData roomId options)).ws = some ⟨n, false⟩ →
        Sent (c.world.send Protocol.joinRoom (joinData roomId options)) n roomId := fun ws =>
      sentJoin_send ((ws_send ..).symm.trans ws) roomId options
    refine ⟨calm.settled sound settled, calm.next sound stacked tracked nofun ?_ ?_⟩
    · exact one fun n ws _ => .inl (sent ws)
    · rintro n ws _ - ⟨-, rfl⟩
      exact .inl (sent ws)
  | eraseRequest =>
    have calm := later.calm sound rfl rfl rfl rfl fun h => h
    exact ⟨calm.settled sound settled, calm.next sound stacked tracked nofun nofun
      fun _ _ => nofun⟩
  | @created o options requestId data roomId a reply =>
    have calm := later.calm sound rfl rfl rfl rfl fun {o'} joined =>
      (joined_nameObject c.world o o' roomId).symm.trans joined
    refine ⟨calm.settled sound settled, calm.next sound stacked tracked nofun ?_ fun _ _ => nofun⟩
    exact List.forall_mem_cons.2 ⟨trivial, List.forall_mem_cons.2 ⟨trivial, one trivial⟩⟩
  | @setLeft o =>
    have calm := calm_setLeft sound (o := o)
    exact ⟨calm.settled sound settled, calm.next sound stacked tracked nofun nofun
      fun _ _ => nofun⟩
  | @leave o rooms a =>
    have calm := calm_setLeft sound (o := o)
    refine ⟨calm.settled sound settled, calm.next sound stacked tracked nofun ?_ fun _ _ => nofun⟩
    refine List.forall_mem_cons.2 ⟨trivial, one fun {o'} joined => ?_⟩
    have ne : o' ≠ o := by
      rintro rfl
      rw [objects_setJoined] at joined
      simp at joined
    have stale := calm.stale sound mine joined
    exact stale.imp_right fun outside => outside.imp_right fun mem =>
      (List.mem_cons.1 mem).resolve_left ne
  | closed =>
    have calm := (Aside.closeWs c.world).calm sound rfl
    exact ⟨calm.settled sound settled, calm.next sound stacked tracked nofun (one trivial)
      fun _ _ => nofun⟩
  | copyRooms =>
    refine ⟨⟨settled.joined, fun {n} ws idSet => ⟨?_, (settled.idSet ws idSet).2⟩⟩, ?_, ?_⟩
    · exact congrArg (Option.map Link.number) ws
    · refine List.forall_mem_cons.2 ⟨rfl, fun cmd' mem => ?_⟩
      refine Cmd.tracked_of_other (tracked.cmds cmd' (List.mem_cons_of_mem _ mem))
        (stacked.below_handler rfl cmd' mem) fun {o roomId origin} e _ n ws copied => ?_
      subst e
      have thread : ⟨tid, .copyRooms :: rest, none⟩ ∈ c.threads := by
        simp [Config.threads, top]
      rcases undisturbed _ thread o roomId origin (List.mem_cons_of_mem _ mem) with listed | sent
      · exact .inr listed
      · exact .inl (sent n copied)
    · intro _ _ n ws copied roomId nonempty listed
      exact .inr ⟨_, List.mem_cons_self, listed⟩
  | idSetDone =>
    have sent : ∀ {n}, c.world.ws = some ⟨n, false⟩ → c.world.copied = some n ∧
        ∀ {roomId}, roomId ≠ [] → Listed c.world roomId → Sent c.world n roomId := by
      intro n ws
      have copied : c.world.copied = some n := mine.trans (congrArg (Option.map Link.number) ws)
      refine ⟨copied, fun nonempty listed => ?_⟩
      obtain ⟨loop, others⟩ := stacked.ordered.1.handler rfl
      rcases tracked.covered rfl (List.mem_cons_of_mem _ loop) ws copied nonempty listed with
        sent | ⟨cmd', mem, rejoins⟩
      · exact sent
      · rcases List.mem_cons.1 mem with rfl | mem
        · cases rejoins
        · exact absurd rejoins (stacked.ordered.2.no_rejoins others cmd' mem)
    refine ⟨⟨settled.joined, fun ws _ => sent ws⟩, fun cmd' mem => ?_, ?_⟩
    · exact Cmd.tracked_of_other (tracked.cmds cmd' (List.mem_cons_of_mem _ mem))
        (stacked.below_handler rfl cmd' mem) fun _ reached => reached
    · exact fun _ _ _ ws _ _ nonempty listed => .inl ((sent ws).2 nonempty listed)
  | @joined o data a key =>
    have listed : ∀ {roomId}, Listed (c.world.setJoined o true) roomId ↔ Listed c.world roomId :=
      later.listed_iff sound rfl
    refine ⟨⟨fun {n} ws {o'} joined => ?_, fun {n} ws idSet => ?_⟩, fun cmd' mem => ?_, ?_⟩
    · rw [Outcome.world_park, objects_setJoined] at joined ⊢
      simp only at joined ⊢
      by_cases e : o' = o
      · subst e
        exact .inl (mine key (congrArg (Option.map Link.number) ws))
      · rw [if_neg e] at joined
        exact (settled.joined ws joined).imp_right (.imp_left listed.2)
    · obtain ⟨copied, all⟩ := settled.idSet ws idSet
      exact ⟨copied, fun nonempty h => all nonempty (listed.1 h)⟩
    · rcases List.mem_cons.1 mem with rfl | mem
      · trivial
      · exact Cmd.tracked_of_other (tracked.cmds cmd' (List.mem_cons_of_mem _ mem))
          (stacked.below_handler rfl cmd' mem) fun _ =>
            later.reached sound fun ws copied => ⟨ws, copied⟩
    · intro _ loop n ws copied roomId nonempty h
      have loop := List.mem_cons_of_mem (.handle (.message o) data) (stacked.ordered.1.handler rfl).1
      refine (tracked.covered rfl loop ws copied nonempty (listed.1 h)).imp_right ?_
      rintro ⟨cmd', mem, rejoins⟩
      rcases List.mem_cons.1 mem with rfl | mem
      · cases rejoins
      · exact ⟨cmd', List.mem_cons_of_mem _ mem, later.rejoins sound
          (stacked.ok cmd' (List.mem_cons_of_mem _ mem)) rejoins⟩
  | install reconnects =>
    obtain rfl := stacked.ordered.1.phase rfl
    have number : ∀ {n closed}, some (Link.mk c.world.nextLink closed) = some ⟨n, false⟩ →
        n = c.world.nextLink := fun ws => (congrArg Link.number (Option.some.inj ws)).symm
    refine ⟨⟨fun {n} ws {o} joined => .inr (mine joined), fun {n} ws idSet => ?_⟩, ?_, ?_⟩
    · exact absurd (sound.idSet idSet) (number ws ▸ lt_irrefl _)
    · rcases reconnects with rfl | rfl
      · exact one trivial
      · exact List.forall_mem_cons.2 ⟨trivial, one trivial⟩
    · intro _ _ n ws copied
      exact absurd (sound.copied copied) (number ws ▸ lt_irrefl _)
  | resetWs =>
    obtain rfl := stacked.ordered.1.phase rfl
    refine ⟨⟨?_, ?_⟩, one trivial, ?_⟩
    · rintro n ⟨⟩
    · rintro n ⟨⟩
    · rintro _ _ n ⟨⟩

/-- What the manager does leaves a thread in order that waits with a room still to be added. -/
theorem Effect.parked {c : ClientConfig} (effect : Effect M J c.world cmd a out)
    (sound : Sound c.world) (ok : cmd.Ok c.world) (manager : cmd.isManager = true)
    (undisturbed : Undisturbed M J c cmd a) {t : Thread Tid Cmd Exn} (mem : t ∈ c.parked)
    {o : Ref} {roomId : Str} {origin : Origin} (adding : .addRoom o roomId origin ∈ t.stack)
    (reached : Reached c.world roomId) : Reached out.world roomId := by
  have later := (effect.sound sound ok).2
  have number : ∀ {n closed}, some (Link.mk c.world.nextLink closed) = some ⟨n, false⟩ →
      n = c.world.nextLink := fun ws => (congrArg Link.number (Option.some.inj ws)).symm
  cases effect with
  | throws | stays | idSetDone | joined | created | eraseRequest | setLeft | leave =>
    exact later.reached sound (fun ws copied => ⟨ws, copied⟩) reached
  | closed =>
    exact later.reached sound (fun ws copied => ⟨(Aside.closeWs c.world).opened ws, copied⟩) reached
  | copyRooms =>
    intro n ws copied
    have thread : t ∈ c.threads := List.mem_append_right _ mem
    rcases undisturbed t thread o roomId origin adding with listed | sent
    · exact .inr listed
    · exact .inl (sent n copied)
  | install =>
    intro n ws copied
    exact absurd (sound.copied copied) (number ws ▸ lt_irrefl _)
  | resetWs => exact nofun
  | _ => cases manager

theorem tracked_preserved (M : MsgpackC) (J : JsonText) :
    Preserved (client M J) Settled (Each Tracked) Tracked
      fun c l => OnSteps (Undisturbed M J) c l ∧ Kept c := by
  refine .each _ ?_ ?_ ?_
  · rintro c tid cmd rest a out ⟨settled, running, parked⟩ ⟨undisturbed, kept⟩ top run
    have effect := exec_effect (M := M) (J := J) run
    obtain ⟨sound, threads, others⟩ := kept.holds
    have stacked := threads _ top
    have ok := stacked.ok cmd List.mem_cons_self
    have undisturbed := undisturbed tid cmd rest top
    obtain ⟨settled', next⟩ :=
      effect.tracked sound settled top stacked (running _ top) undisturbed
    refine ⟨settled', next, fun t ht => ?_⟩
    cases manager : cmd.isManager with
    | false =>
      have calm := effect.calm sound ok ((running _ top).cmds cmd List.mem_cons_self) manager
      exact calm.tracked sound (others t ht) (parked t ht)
    | true =>
      have aside := kept.no_manager top ht List.mem_cons_self manager
      refine ⟨fun cmd' mem => ?_, fun _ loop => ?_⟩
      · refine Cmd.tracked_of_other ((parked t ht).cmds cmd' mem) (.inl (aside cmd' mem)) ?_
        rintro o roomId origin rfl reached
        exact effect.parked sound ok manager undisturbed ht mem reached
      · cases aside _ loop
  · rintro c tid cmd rest x a out ⟨settled, running, parked⟩ - top run
    obtain rfl := Option.some.inj run
    refine ⟨settled, ⟨fun cmd' mem => ?_, nofun⟩, parked⟩
    exact (running _ top).cmds cmd' (List.mem_cons_of_mem _ mem)
  · rintro c e w new ⟨settled, running, parked⟩ - run
    obtain ⟨rfl, cmd, rfl, manager, joins, -⟩ := spawn_app run
    refine ⟨settled, running, parked, List.forall_mem_singleton.2 ⟨?_, fun _ loop => ?_⟩⟩
    · refine List.forall_mem_singleton.2 ?_
      cases cmd with
      | addRoom => cases joins
      | joinRoom | joinRoomShared | sendUnlessJoined | sendJoin | createRoom | sendFrame
      | disconnect | closeWs | call | inCallback => trivial
      | _ => cases manager
    · rw [← List.mem_singleton.1 loop] at manager
      cases manager

theorem Settled.initial : Holds Settled (Each Tracked) Tracked ClientConfig.initial := by
  refine ⟨⟨nofun, nofun⟩, nofun, List.forall_mem_singleton.2 ⟨?_, fun _ _ => nofun⟩⟩
  exact List.forall_mem_singleton.2 fun {o} => nofun

/-- Once `join_room` has returned a room and `CLIENT_ID_SET` was handled, the room was joined on the
current connection. -/
theorem join_not_lost (M : MsgpackC) (J : JsonText) {ls : List (Label Answer EnvEvent)}
    {c : ClientConfig} (run : Run (client M J) (OnSteps (Undisturbed M J)) ClientConfig.initial ls c)
    {o : Ref} (returned : o ∈ c.world.returned) (nonempty : (c.world.objects o).id ≠ []) {n : ℕ}
    (current : c.world.ws = some ⟨n, false⟩) (idSet : c.world.idSet = some n) :
    Sent c.world n (c.world.objects o).id := by
  have kept : Kept c := .run run
  have run' := run.strengthen _ Kept.initial fun kept _ h => kept.step h
  have holds := (tracked_preserved M J).run _ run' Settled.initial
  exact (holds.1.idSet current idSet).2 nonempty (kept.holds.1.returned returned).2

end

/-! An application that calls `join_room` before the connection is there, and one that waits for
`CLIENT_ID_SET`. -/

def idFrame : Str := Sio.buildEventFrame shortest clientIdSet (.str (lit "id"))

/-- One step of the waiting thread `i`. -/
def turn (i : ℕ) (answer : Answer) : List (Label Answer EnvEvent) := [.take i, .act answer]

/-- The manager, waiting at `i`, from its loop to the end of `CLIENT_ID_SET`, for no room. -/
def connects (i j : ℕ) : List (Label Answer EnvEvent) :=
  turn i .connected ++ turn j .next ++ turn j (.receive true idFrame) ++ turn j .next ++
    turn j .next ++ turn j .ret ++ turn j .next ++ turn j .next ++ turn j .next ++ turn j .ret ++
    turn j .next

/-- `join_room` up to the last section. -/
def joins (i : ℕ) : List (Label Answer EnvEvent) :=
  .env (.joinRoom (lit "r") .null) :: turn i .next ++ turn i .next ++ turn i .next ++ turn i .ret ++
    turn i .next ++ turn i .next

def joinedEarly : List (Label Answer EnvEvent) := joins 1 ++ connects 0 1 ++ turn 0 .next

def joinedLate : List (Label Answer EnvEvent) := connects 0 0 ++ joins 1 ++ turn 1 .next

/-- The call returns and `CLIENT_ID_SET` was handled, and no frame was sent. -/
theorem join_lost : ¬ ∀ (M : MsgpackC) (J : JsonText) (ls : List (Label Answer EnvEvent))
    (c : ClientConfig), Run (client M J) (fun _ _ => True) ClientConfig.initial ls c →
      ∀ o ∈ c.world.returned, ∀ n, c.world.ws = some ⟨n, false⟩ → c.world.idSet = some n →
        Sent c.world n (c.world.objects o).id := by
  intro claim
  have found : (execute (client shortest Text.reference) (fun _ _ => true) ClientConfig.initial
      joinedEarly).any (fun c => c.world.returned = [0] ∧ c.world.ws = some ⟨0, false⟩ ∧
        c.world.idSet = some 0 ∧ c.world.sent.isEmpty = true) = true := by
    decide +kernel
  obtain ⟨c, run, holds⟩ := exists_run _ found
  obtain ⟨returned, ws, idSet, empty⟩ := of_decide_eq_true holds
  have mem : 0 ∈ c.world.returned := by rw [returned]; exact List.mem_singleton_self 0
  obtain ⟨options, sent⟩ := claim _ _ _ c (run.weaken _ fun _ => trivial) 0 mem 0 ws idSet
  rw [List.isEmpty_iff.1 empty] at sent
  cases sent

/-- Enough for a run without a pending join when the rooms are copied, and without a loss of the
connection. -/
def undisturbed (c : ClientConfig) : Label Answer EnvEvent → Bool
  | .act a =>
    match c.running, a with
    | some ⟨_, .copyRooms :: _, none⟩, _ =>
      c.threads.all fun t => t.stack.all fun cmd => cmd.joins.isNone
    | some ⟨_, .copyLostRooms :: _, none⟩, _ => false
    | some ⟨_, .recvLoop :: _, none⟩, .receive .. => c.world.eventHandlers.entries.isEmpty
    | _, _ => true
  | _ => true

theorem undisturbed_sound {M : MsgpackC} {J : JsonText} {c : ClientConfig}
    {l : Label Answer EnvEvent} (h : undisturbed c l = true) : OnSteps (Undisturbed M J) c l := by
  cases l with
  | act a =>
    intro tid cmd rest top
    simp only [undisturbed, top] at h
    cases cmd with
    | copyRooms =>
      intro t mem o roomId origin adding
      have none := List.all_eq_true.1 (List.all_eq_true.1 h t mem) _ adding
      cases none
    | copyLostRooms => cases h
    | recvLoop =>
      cases a with
      | receive isBinary payload =>
        intro frame o parsed found
        rw [AList.lookup, List.isEmpty_iff.1 h] at found
        cases found
      | _ => trivial
    | _ => trivial
  | _ => trivial

/-- A call after `CLIENT_ID_SET` sends its frame. -/
theorem join_not_lost_late : ∃ c, Run (client shortest Text.reference)
    (OnSteps (Undisturbed shortest Text.reference)) ClientConfig.initial joinedLate c ∧
      Sent c.world 0 (lit "r") := by
  have found : (execute (client shortest Text.reference) undisturbed ClientConfig.initial
      joinedLate).any (fun c => c.world.returned = [0] ∧ (c.world.objects 0).id = lit "r" ∧
        c.world.ws = some ⟨0, false⟩ ∧ c.world.idSet = some 0) = true := by
    decide +kernel
  obtain ⟨c, run, holds⟩ := exists_run _ found
  have meets : Run _ (OnSteps (Undisturbed shortest Text.reference)) _ _ c :=
    run.weaken _ undisturbed_sound
  obtain ⟨returned, id, ws, idSet⟩ := of_decide_eq_true holds
  have mem : 0 ∈ c.world.returned := by rw [returned]; exact List.mem_singleton_self 0
  have nonempty : (c.world.objects 0).id ≠ [] := by rw [id]; decide
  exact ⟨c, meets, id ▸ join_not_lost _ _ meets mem nonempty ws idSet⟩

end Blueboat.Client
