import Blueboat.Membership

set_option autoImplicit false

/-! Who is a member of a managed room is connected: what keeps it so, and what does not. -/
namespace Blueboat

open Protocol LockMachine Ledger

/-- A managed room that is told that a session has left lists it once at most. -/
def LeavesOnce (c : ServerConfig) (_ : Label Answer EnvEvent) : Prop :=
  ∀ tid sessionId r handlers rest,
    c.running = some ⟨tid, .deliver (.str sessionId) (.playerLeft r :: handlers) :: rest, none⟩ →
      c.world.Managed r → (c.world.sessionsIn r).count sessionId ≤ 1

/-- No hook waits for a reconnection while a managed room has still to be told that one of those it
lists has left. -/
def WaitsTold (c : ServerConfig) (l : Label Answer EnvEvent) : Prop :=
  ∀ clientId seconds, l = .act (.allowReconnection clientId seconds) → ∀ tid r hook rest,
    c.running = some ⟨tid, .inHook r hook :: rest, none⟩ → (c.world.rooms r).disposing = false →
      ∀ cmd ∈ rest, ∀ sessionId r', Announces cmd sessionId r' → c.world.Managed r' →
        sessionId ∉ c.world.sessionsIn r'

inductive Pending (c : ServerConfig) (sessionId : Str) (r : RoomRef) : Prop where
  | told {tid : Tid} {stack : List Cmd} {x : Option Exn} {cmd : Cmd}
      (top : c.running = some ⟨tid, stack, x⟩) (mem : cmd ∈ stack)
      (announces : Announces cmd sessionId r)
  | doomed {tid : Tid} {stack : List Cmd} {x : Exn} (top : c.running = some ⟨tid, stack, some x⟩)
      (closes : ∀ cmd ∈ stack, cmd.closes = true)

def World.Connected (w : World) (sessionId : Str) : Prop :=
  (w.connections.lookup sessionId).isSome

def Members (c : ServerConfig) : Prop := ∀ r sessionId, c.world.Managed r →
  sessionId ∈ c.world.sessionsIn r → c.world.Connected sessionId ∨ Pending c sessionId r

section
variable {M : MsgpackC} {J : JsonText} {c c' : ServerConfig} {l : Label Answer EnvEvent}

/-- Inside a hook, a leave or a disposal the lock is released for a reconnection only. -/
theorem exec_waits {w : World} {cmd : Cmd} {a : Answer} {o : Out} (run : exec M J w cmd a = some o)
    (inside : cmd.inside = true) (parks : o.parks = true) : ∃ r hook clientId seconds,
      cmd = .inHook r hook ∧ a = .allowReconnection clientId seconds ∧
        (w.rooms r).disposing = false := by
  cases exec_effect M J run with
  | granted lives => exact ⟨_, _, _, _, rfl, rfl, lives⟩
  | still _ _ _ _ family =>
    rcases inside_cases inside with some | ⟨v, rfl⟩
    · rw [family parks] at some
      cases some
    · obtain rfl := Option.some.inj run
      cases parks
  | _ => cases parks

/-- Who is still listed after a step that had to be told of, the room is still going to be told of. -/
theorem Pending.exec {tid : Tid} {cmd : Cmd} {rest : List Cmd} {a : Answer} {o : Out} {d : Cmd}
    {r : RoomRef} {sessionId : Str} (kept : Kept c) (rosters : Rosters c) (spoken : Spoken c)
    (once : LeavesOnce c (.act a)) (waits : WaitsTold c (.act a))
    (top : c.running = some ⟨tid, cmd :: rest, none⟩) (run : exec M J c.world cmd a = some o)
    (held : d ∈ cmd :: rest) (announces : Announces d sessionId r) (managed : c.world.Managed r)
    (before : sessionId ∈ c.world.sessionsIn r) (after : sessionId ∈ o.world.sessionsIn r) :
    Pending (settle c tid rest o) sessionId r := by
  have stack : (cmd :: rest).Pairwise Told :=
    spoken _ (running_mem_threads top)
  rcases List.mem_cons.1 held with rfl | mem
  · cases announces with
    | publish =>
      obtain rfl := Option.some.inj run
      exact .told rfl List.mem_cons_self (.deliver (rosters.hears kept managed before))
    | @deliver _ handlers _ listed =>
      cases handlers with
      | nil => cases listed
      | cons handler handlers =>
        obtain ⟨goes, push, pushed, -⟩ := deliver_str run
        have held : .deliver (.str sessionId) handlers ∈ o.push := by
          rw [pushed]
          exact List.mem_append_right _ List.mem_cons_self
        have later : .playerLeft r ∈ handlers := by
          refine (List.mem_cons.1 listed).resolve_left fun here => ?_
          subst here
          rw [deliver_leaves run] at after
          have twice := List.count_pos_iff.2 after
          rw [List.count_erase_self] at twice
          have := once _ _ _ _ _ top managed
          omega
        exact .told (settle_goes goes) (List.mem_append_left _ held) (.deliver later)
  · have inside := ((List.pairwise_cons.1 stack).1 d mem).atop announces.tells
    have goes : o.parks = false := by
      by_contra parks
      obtain ⟨r', hook, clientId, seconds, rfl, rfl, lives⟩ :=
        exec_waits run inside (by simpa using parks)
      exact waits _ _ rfl _ _ _ _ top lives d mem _ _ announces managed before
    exact .told (settle_goes goes) (List.mem_append_right _ mem) announces

theorem Members.exec {tid : Tid} {cmd : Cmd} {rest : List Cmd} {a : Answer} {o : Out}
    (members : Members c) (kept : Kept c) (begun : Admitting c) (rosters : Rosters c)
    (spoken : Spoken c) (joins : JoinsConnected c (.act a)) (once : LeavesOnce c (.act a))
    (waits : WaitsTold c (.act a)) (top : c.running = some ⟨tid, cmd :: rest, none⟩)
    (run : exec M J c.world cmd a = some o) : Members (settle c tid rest o) := by
  intro r sessionId managed after
  rw [world_settle] at managed after ⊢
  have effect := exec_effect M J run
  have managed₀ := begun.managed kept top effect managed after
  rcases effect.listed after with before | ⟨client, options, rfl, rfl⟩
  · rcases members r sessionId managed₀ before with connected | pending
    · cases exec_connects run with
      | same same => exact .inl (by rwa [World.Connected, same])
      | @opened client opened =>
        refine .inl ?_
        rw [World.Connected, opened]
        by_cases here : sessionId = client.sessionId
        · rw [here, AList.lookup_insert]; rfl
        · rwa [AList.lookup_insert_ne here]
      | @erased left erased =>
        by_cases here : sessionId = left
        · subst here
          obtain rfl := Option.some.inj run
          exact .inr (.told rfl List.mem_cons_self .publish)
        · rw [World.Connected, erased, AList.lookup_erase_ne here]
          exact .inl connected
    · cases pending with
      | told top' mem announces =>
        cases top.symm.trans top'
        exact .inr (.exec kept rosters spoken once waits top run mem announces managed₀ before after)
      | doomed top' => cases top.symm.trans top'
  · refine .inl ?_
    obtain rfl := Option.some.inj run
    have connected := (joins _ _ _ _ _ top managed₀).1
    rwa [World.Connected, Outcome.world, (addClient_local ..).connections]

theorem Members.unwind {tid : Tid} {cmd : Cmd} {rest : List Cmd} {x : Exn} {a : Answer} {o : Out}
    (members : Members c) (spoken : Spoken c) (top : c.running = some ⟨tid, cmd :: rest, some x⟩)
    (run : Blueboat.unwind c.world cmd x a = some o) : Members (settle c tid rest o) := by
  intro r sessionId managed after
  rw [world_settle] at managed after ⊢
  have effect := unwind_effect run
  rw [World.Managed, effect.stores] at managed
  rw [effect.members] at after
  rw [World.Connected, unwind_connections run]
  refine (members r sessionId managed after).imp_right fun pending => ?_
  have stack : (cmd :: rest).Pairwise Told :=
    spoken _ (running_mem_threads top)
  have goes : o.parks = false := by cases effect <;> rfl
  cases pending with
  | @told _ _ _ d top' mem announces =>
    cases top.symm.trans top'
    rcases List.mem_cons.1 mem with rfl | mem
    · have passes : o = .raise c.world x [] := by
        cases announces <;> exact (Option.some.inj run).symm
      subst passes
      exact .doomed rfl fun e below => ((List.pairwise_cons.1 stack).1 e below).under announces.tells
    · exact .told (settle_goes goes) (List.mem_append_right _ mem) announces
  | doomed top' closes =>
    cases top.symm.trans top'
    have passes : o = .raise c.world x [] := by
      have here := closes cmd List.mem_cons_self
      cases cmd with
      | disconnected | endOp => exact (Option.some.inj run).symm
      | _ => cases here
    subst passes
    exact .doomed rfl fun e below => closes e (List.mem_cons_of_mem _ below)

theorem Arrival.connections {w w' : World} {e : EnvEvent} {new : List (Tid × List Cmd)}
    (h : Arrival w e w' new) : w'.connections = w.connections := by
  cases h <;> rfl

structure Attended (c : ServerConfig) : Prop where
  kept : Kept c
  arranged : Arranged c
  begun : Admitting c
  rosters : Rosters c
  spoken : Spoken c
  members : Members c

/-- Who joins is connected, no one joins a room twice, and a hook waits when everyone has been told. -/
structure Orderly (c : ServerConfig) (l : Label Answer EnvEvent) : Prop where
  joins : JoinsConnected c l
  once : LeavesOnce c l
  waits : WaitsTold c l

theorem Attended.initial : Attended ServerConfig.initial :=
  ⟨.initial, .initial, ⟨⟨nofun, fun _ listed => absurd rfl listed⟩, nofun, nofun⟩,
    ⟨fun _ _ listed => absurd rfl listed, nofun, nofun⟩, nofun, nofun⟩

theorem Attended.step (attended : Attended c) (meets : Orderly c l)
    (h : Step (server M J) c l c') : Attended c' := by
  obtain ⟨kept, arranged, begun, rosters, spoken, members⟩ := attended
  refine ⟨kept.step h, arranged.step h, (begun_preserved M J).step _ begun kept h,
    rosters.step kept begun meets.joins.heard h, spoken.step arranged h, ?_⟩
  cases h with
  | finish _ top =>
    refine fun r sessionId managed listed => .inl ?_
    refine (members r sessionId managed listed).resolve_right fun pending => ?_
    cases pending with
    | told top' mem => cases top.symm.trans top'; cases mem
    | doomed top' => cases top.symm.trans top'
  | crash =>
    intro r sessionId managed listed
    refine (members r sessionId managed listed).imp_right ?_
    rintro (⟨top, mem, announces⟩ | ⟨top, closes⟩)
    · exact .told top mem announces
    · exact .doomed top closes
  | exec _ top run =>
    exact members.exec kept begun rosters spoken meets.joins meets.once meets.waits top run
  | unwind _ top run => exact members.unwind spoken top run
  | take _ free =>
    refine fun r sessionId managed listed => .inl ?_
    refine (members r sessionId managed listed).resolve_right fun pending => ?_
    cases pending with
    | told top | doomed top => cases free.symm.trans top
  | env _ run =>
    have arrival := spawn_arrival run
    obtain ⟨rooms, -, managing, -⟩ := arrival.frame
    intro r sessionId managed listed
    simp only [World.Managed, World.sessionsIn, World.Connected, rooms, managing,
      arrival.connections] at managed listed ⊢
    refine (members r sessionId managed listed).imp_right ?_
    rintro (⟨top, mem, announces⟩ | ⟨top, closes⟩)
    · exact .told top mem announces
    · exact .doomed top closes

/-- The session has left for good: it is not in the table, and no thread is going to open it again. -/
structure Away (sessionId : Str) (c : ServerConfig) : Prop where
  erased : c.world.connections.lookup sessionId = none
  known : ∃ client, c.world.Session client ∧ client.sessionId = sessionId
  closed : ∀ t ∈ c.threads, ∀ client, .openConnection client ∈ t.stack → client.sessionId ≠ sessionId

theorem Pushed.closed {w : World} {cmd : Cmd} {a : Answer} {client : SimpleClient} :
    ¬ Pushed w cmd a (.openConnection client) := by
  intro h
  cases h with
  | child child => cases child
  | leave _ mem => simp [leaveOf] at mem

theorem Unwound.closed {w : World} {cmd : Cmd} {x : Exn} {a : Answer} {o : Out}
    (h : Unwound w cmd x a o) {client : SimpleClient} : .openConnection client ∉ o.push := by
  intro mem
  cases h.resumed mem

theorem Away.settled {sessionId : Str} {tid : Tid} {cmd : Cmd} {rest : List Cmd} {x : Option Exn}
    {o : Out} (away : Away sessionId c) (top : c.running = some ⟨tid, cmd :: rest, x⟩)
    (erased : o.world.connections.lookup sessionId = none)
    (same : c.world.SameSessions o.world.toStores)
    (closed : ∀ client, .openConnection client ∉ o.push) : Away sessionId (settle c tid rest o) := by
  obtain ⟨client, own, named⟩ := away.known
  refine ⟨by rwa [world_settle], ⟨client, by rw [world_settle]; exact same _ own, named⟩, ?_⟩
  intro t mem client mem'
  rcases List.mem_cons.1 ((threads_settle c tid rest o).mem_iff.1 mem) with rfl | mem
  · have below := (List.mem_append.1 mem').resolve_left (closed client)
    exact away.closed _ (running_mem_threads top) client (List.mem_cons_of_mem _ below)
  · exact away.closed t (List.mem_append_right _ mem) client mem'

theorem Away.step {sessionId : Str} (away : Away sessionId c) (h : Step (server M J) c l c') :
    Away sessionId c' := by
  cases h with
  | finish =>
    exact ⟨away.erased, away.known, fun t mem => away.closed t (List.mem_append_right _ mem)⟩
  | crash => exact ⟨away.erased, away.known, away.closed⟩
  | @exec tid cmd rest a o _ top run =>
    have effect := exec_effect M J run
    refine away.settled top ?_ effect.sameSessions fun client mem => (effect.pushed mem).closed
    cases exec_connects run with
    | same same => rw [same]; exact away.erased
    | @opened client opened =>
      have other := away.closed _ (running_mem_threads top) client List.mem_cons_self
      rw [opened, AList.lookup_insert_ne other.symm]
      exact away.erased
    | @erased left erased =>
      rw [erased]
      by_cases here : sessionId = left
      · rw [here, AList.lookup_erase]
      · rw [AList.lookup_erase_ne here]
        exact away.erased
  | unwind _ top run =>
    have effect := unwind_effect run
    refine away.settled top ?_ effect.sameSessions fun client => effect.closed
    rw [unwind_connections run]
    exact away.erased
  | take _ free at_i =>
    exact ⟨away.erased, away.known, fun t mem => away.closed t ((threads_take free at_i).mem_iff.1 mem)⟩
  | @env e w new _ run =>
    have arrival := spawn_arrival run
    obtain ⟨client, own, named⟩ := away.known
    refine ⟨by rw [arrival.connections]; exact away.erased,
      ⟨client, arrival.sameSessions client own, named⟩, fun t mem client' opens => ?_⟩
    rcases List.mem_append.1 mem with mem | mem
    · exact away.closed t (List.mem_append_left _ mem) client' opens
    · rcases List.mem_append.1 mem with mem | mem
      · exact away.closed t (List.mem_append_right _ mem) client' opens
      · obtain ⟨p, hp, rfl⟩ := List.mem_map.1 mem
        cases arrival with
        | connect fresh =>
          obtain rfl := List.mem_singleton.1 hp
          obtain rfl : client' = _ := by simpa [Thread.start] using opens
          rintro rfl
          obtain ⟨phase, own⟩ := own
          rw [named, fresh] at own
          cases own
        | tick | dropped => cases hp
        | _ =>
          obtain rfl := List.mem_singleton.1 hp
          simp [Thread.start] at opens

def Leaving (sessionId : Str) (c : ServerConfig) : Prop := Away sessionId c ∨
  ∃ tid rest, c.running = some ⟨tid, .handleClientDisconnect sessionId :: rest, none⟩

theorem Leaving.step {sessionId : Str} (leaving : Leaving sessionId c) (kept : Kept c)
    (arranged : Arranged c) (h : Step (server M J) c l c') : Leaving sessionId c' := by
  rcases leaving with away | ⟨tid, rest, top⟩
  · exact .inl (away.step h)
  · cases h with
    | finish _ top' | crash _ top' | unwind _ top' => cases top.symm.trans top'
    | take _ free => cases top.symm.trans free
    | env => exact .inr ⟨tid, rest, top⟩
    | exec _ top' run =>
      cases top.symm.trans top'
      obtain rfl := Option.some.inj run
      obtain ⟨rfl, rfl, alone⟩ := arranged.alone kept top rfl
      obtain ⟨client, phase, found, -⟩ :=
        arranged.engaged kept (running_mem_threads top) rfl (List.cons_ne_nil _ _)
      have named := arranged.1 _ _ _ found
      refine .inl ⟨AList.lookup_erase .., ⟨client, ⟨phase, by rw [named]; exact found⟩, named⟩, ?_⟩
      intro t mem client' opens here
      rcases List.mem_cons.1 mem with rfl | mem
      · simp at opens
      · have owner := (arranged.2.2 t mem).1.owner opens (.inl rfl)
        rw [alone t mem (owner.trans (by rw [here]))] at opens
        cases opens

/-- Whoever is listed is connected, and whoever has left is listed nowhere. -/
structure Present (c₁ c₂ : ServerConfig) : Prop where
  connected : ∀ r, c₂.world.Managed r → ∀ sessionId ∈ c₂.world.sessionsIn r,
    (c₂.world.connections.lookup sessionId).isSome
  gone : ∀ tid sessionId rest,
    c₁.running = some ⟨tid, .handleClientDisconnect sessionId :: rest, none⟩ →
      ∀ r, c₂.world.Managed r → sessionId ∉ c₂.world.sessionsIn r

/-- While the lock is free every member of a managed room is connected, if no one joins who is not
connected or is there already, and no hook waits while there are rooms to be told. -/
theorem members_connected {ls₁ ls₂ : List (Label Answer EnvEvent)} {c₁ c₂ : ServerConfig}
    (run₁ : Run (server M J) Orderly ServerConfig.initial ls₁ c₁)
    (run₂ : Run (server M J) Orderly c₁ ls₂ c₂) (free : c₂.running = none) : Present c₁ c₂ := by
  have step : ∀ {c c' l}, Attended c → Orderly c l → Step (server M J) c l c' → Attended c' :=
    fun attended meets h => attended.step meets h
  have attended₁ := run₁.invariant _ Attended.initial step
  have attended₂ := run₂.invariant _ attended₁ step
  have connected : ∀ r, c₂.world.Managed r → ∀ sessionId ∈ c₂.world.sessionsIn r,
      (c₂.world.connections.lookup sessionId).isSome := by
    intro r managed sessionId listed
    refine (attended₂.members r sessionId managed listed).resolve_right fun pending => ?_
    cases pending with
    | told top | doomed top => cases free.symm.trans top
  refine ⟨connected, fun tid sessionId rest top r managed listed => ?_⟩
  have start : Leaving sessionId c₁ := .inr ⟨tid, rest, top⟩
  have leaving := (run₂.strengthen _ attended₁ step).invariant _ start
    fun leaving meets h => leaving.step meets.2.kept meets.2.arranged h
  rcases leaving with away | ⟨tid, rest, top⟩
  · have here := connected r managed sessionId listed
    rw [away.erased] at here
    cases here
  · cases free.symm.trans top

end

def joinsConnectedCheck (c : ServerConfig) : Bool :=
  match c.running with
  | some ⟨_, .addClient r client _ :: _, none⟩ =>
    (c.world.connections.lookup client.sessionId).isSome && (c.world.rooms r).playerLeftSub.isSome
  | _ => true

def leavesOnceCheck (c : ServerConfig) : Bool :=
  match c.running with
  | some ⟨_, .deliver (.str sessionId) (.playerLeft r :: _) :: _, none⟩ =>
    (c.world.sessionsIn r).count sessionId ≤ 1
  | _ => true

/-- A run in which no hook waits at all. -/
def orderlyCheck (c : ServerConfig) (l : Label Answer EnvEvent) : Bool :=
  match l with
  | .act (.allowReconnection ..) => false
  | _ => joinsConnectedCheck c && leavesOnceCheck c

theorem orderlyCheck_sound {c : ServerConfig} {l : Label Answer EnvEvent}
    (h : orderlyCheck c l = true) : Orderly c l := by
  unfold orderlyCheck at h
  split at h
  · cases h
  · rename_i quick
    obtain ⟨joins, once⟩ := Bool.and_eq_true_iff.1 h
    refine ⟨fun tid r client options rest top _ => ?_, fun tid s r handlers rest top _ => ?_,
      fun clientId seconds here => absurd here (quick clientId seconds)⟩
    · simpa [joinsConnectedCheck, top] using joins
    · simpa [leavesOnceCheck, top] using once

def bob : SimpleClient := ⟨lit "b", lit "t", [], []⟩

def leavesCheck (sessionId : Str) (c : ServerConfig) : Bool :=
  match c.running with
  | some ⟨_, .handleClientDisconnect sessionId' :: _, none⟩ => sessionId' == sessionId
  | _ => false

theorem leavesCheck_sound {sessionId : Str} {c : ServerConfig} (h : leavesCheck sessionId c = true) :
    ∃ tid rest, c.running = some ⟨tid, .handleClientDisconnect sessionId :: rest, none⟩ := by
  rw [leavesCheck] at h
  split at h
  · rename_i tid sessionId' rest top
    obtain rfl := beq_iff_eq.1 h
    exact ⟨tid, rest, top⟩
  · cases h

/-- Two clients are in a room, and one of them hangs up. -/
theorem members_connected_hangup : ∃ ls₁ ls₂ c₁ c₂ tid rest,
    Run (server shortest Text.reference) Orderly ServerConfig.initial ls₁ c₁ ∧
    c₁.running = some ⟨tid, .handleClientDisconnect (lit "s") :: rest, none⟩ ∧
    c₁.world.sessionsIn 0 = [lit "s", lit "t"] ∧
    Run (server shortest Text.reference) Orderly c₁ ls₂ c₂ ∧ c₂.running = none ∧
    c₂.world.Managed 0 ∧ c₂.world.sessionsIn 0 = [lit "t"] ∧ Present c₁ c₂ := by
  have found : (execute (server shortest Text.reference) orderlyCheck ServerConfig.initial
      (startsUp ++ connects alice ++ joinsRoom (lit "s") ++ connects bob ++ joinsRoom (lit "t") ++
        .env (.hangup (lit "s")) :: turn [])).any (fun c₁ =>
      leavesCheck (lit "s") c₁ &&
      (decide (c₁.world.sessionsIn 0 = [lit "s", lit "t"]) &&
        (execute (server shortest Text.reference) orderlyCheck c₁
          ((steps 5 ++ .ret :: steps 5).map .act)).any fun c₂ => c₂.running.isNone &&
            (c₂.world.managingRooms.lookup (lit "r") == some 0 &&
              decide (c₂.world.sessionsIn 0 = [lit "t"])))) = true := by
    decide +kernel
  obtain ⟨c₁, run₁, rest⟩ := exists_run _ found
  obtain ⟨leaves, rest⟩ := Bool.and_eq_true_iff.1 rest
  obtain ⟨both, rest⟩ := Bool.and_eq_true_iff.1 rest
  obtain ⟨c₂, run₂, rest⟩ := exists_run _ rest
  obtain ⟨free, rest⟩ := Bool.and_eq_true_iff.1 rest
  obtain ⟨managed, one⟩ := Bool.and_eq_true_iff.1 rest
  have run₁' : Run _ Orderly _ _ c₁ := run₁.weaken _ orderlyCheck_sound
  have run₂' : Run _ Orderly _ _ c₂ := run₂.weaken _ orderlyCheck_sound
  have free' := Option.isNone_iff_eq_none.1 free
  obtain ⟨tid, below, top⟩ := leavesCheck_sound leaves
  exact ⟨_, _, c₁, c₂, tid, below, run₁', top, of_decide_eq_true both, run₂', free',
    ⟨_, beq_iff_eq.1 managed⟩, of_decide_eq_true one, members_connected run₁' run₂' free'⟩

def disconnectFrame : Str := (Sio.buildDisconnectFrame Text.reference).toOption.getD []

/-- A client says that it leaves, and then it joins a room on the same connection. -/
theorem members_connected_disconnect : ¬ ∀ (M : MsgpackC) (J : JsonText)
    (ls₁ ls₂ : List (Label Answer EnvEvent)) (c₁ c₂ : ServerConfig),
      Run (server M J) (fun _ _ => True) ServerConfig.initial ls₁ c₁ →
      Run (server M J) (fun _ _ => True) c₁ ls₂ c₂ → c₂.running = none → Present c₁ c₂ := by
  intro present
  have found : (execute (server shortest Text.reference) (fun _ _ => true) ServerConfig.initial
      (startsUp ++ connects alice ++ .env (.receive (lit "s") false disconnectFrame) ::
        turn (steps 1) ++ turn (steps 8) ++ joinsRoom (lit "s"))).any (fun c => c.running.isNone &&
          (c.world.managingRooms.lookup (lit "r") == some 0 &&
            (decide (lit "s" ∈ c.world.sessionsIn 0) &&
              (c.world.connections.lookup (lit "s")).isNone))) = true := by
    decide +kernel
  obtain ⟨c, run, rest⟩ := exists_run _ found
  obtain ⟨free, rest⟩ := Bool.and_eq_true_iff.1 rest
  obtain ⟨managed, rest⟩ := Bool.and_eq_true_iff.1 rest
  obtain ⟨listed, gone⟩ := Bool.and_eq_true_iff.1 rest
  have run' : Run _ (fun _ _ => True) _ _ c := run.weaken _ fun _ => trivial
  have here := (present _ _ _ [] c c run' .nil (Option.isNone_iff_eq_none.1 free)).connected 0
    ⟨_, beq_iff_eq.1 managed⟩ _ (of_decide_eq_true listed)
  rw [Option.isNone_iff_eq_none.1 gone] at here
  cases here

end Blueboat
