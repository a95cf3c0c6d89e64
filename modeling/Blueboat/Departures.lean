import Blueboat.Membership

set_option autoImplicit false

/-! No session is in a room twice, and when its disconnect has been handled it is in no room: what
keeps it so, and what does not. -/
namespace Blueboat

open Protocol LockMachine Ledger

inductive Cmd.Departs (sessionId : Str) : Cmd → Prop where
  | publish : Departs sessionId (.publish PLAYER_LEFT (.str sessionId))
  | deliver {handlers : List Handler} : Departs sessionId (.deliver (.str sessionId) handlers)
  | inside {cmd : Cmd} (inside : cmd.inside = true) : Departs sessionId cmd

structure Quitting (t : Thread Tid Cmd Exn) (sessionId : Str) (above : List Cmd) : Prop where
  tid : t.tid = .conn sessionId
  stack : t.stack = above ++ [.disconnected sessionId, .endOp sessionId]
  departs : ∀ cmd ∈ above, cmd.Departs sessionId

def Quits (c : ServerConfig) : Prop := ∀ t ∈ c.threads, ∀ sessionId, .disconnected sessionId ∈ t.stack →
  ∃ above, Quitting t sessionId above

section
variable {M : MsgpackC} {J : JsonText} {w : World} {cmd : Cmd} {a : Answer} {o : Out}

theorem exec_departs {sessionId : Str} (h : exec M J w cmd a = some o) (departs : cmd.Departs sessionId) :
    ∀ c ∈ o.push, c.Departs sessionId := by
  cases departs with
  | publish =>
    obtain rfl := Option.some.inj h
    exact List.forall_mem_singleton.2 .deliver
  | @deliver handlers =>
    cases handlers with
    | nil => obtain rfl := Option.some.inj h; exact nofun
    | cons handler handlers =>
      obtain ⟨-, push, pushed, family⟩ := deliver_str h
      rw [pushed]
      intro c mem
      rcases List.mem_append.1 mem with mem | mem
      · exact .inside (tells_of_family (family c mem)).2
      · rw [List.mem_singleton.1 mem]
        exact .deliver
  | inside inside => exact fun c mem => .inside (((exec_effect M J h).pushed mem).inside inside)

theorem Unwound.departs {x : Exn} {sessionId : Str} (h : Unwound w cmd x a o)
    (departs : cmd.Departs sessionId) : ∀ c ∈ o.push, c.Departs sessionId := by
  cases departs with
  | publish | deliver => cases h <;> exact nofun
  | inside inside => exact fun c mem => .inside (h.quiet.2 inside c mem)

theorem Pushed.disconnected {sessionId : Str} (h : Pushed w cmd a (.disconnected sessionId)) :
    cmd = .handleClientDisconnect sessionId := by
  cases h with
  | child child => cases child; rfl
  | leave _ mem => simp [leaveOf] at mem

theorem Unwound.disconnected {x : Exn} {sessionId : Str} (h : Unwound w cmd x a o) :
    .disconnected sessionId ∉ o.push := by
  intro mem
  cases h.resumed mem

end

section
variable {M : MsgpackC} {J : JsonText} {c c' : ServerConfig} {l : Label Answer EnvEvent}

/-- Only the last command of the function is followed by its end. -/
theorem Quitting.next {tid : Tid} {cmd : Cmd} {rest push : List Cmd} {x x' : Option Exn}
    {sessionId : Str} {above : List Cmd} (quitting : Quitting ⟨tid, cmd :: rest, x⟩ sessionId above)
    (below : .disconnected sessionId ∈ rest)
    (departs : cmd.Departs sessionId → ∀ d ∈ push, d.Departs sessionId) :
    ∃ above, Quitting ⟨tid, push ++ rest, x'⟩ sessionId above := by
  obtain ⟨own, stack, parts⟩ := quitting
  cases above with
  | nil =>
    obtain ⟨-, rfl⟩ := List.cons.inj stack
    simp at below
  | cons first above =>
    obtain ⟨rfl, rfl⟩ := List.cons.inj stack
    obtain ⟨here, parts⟩ := List.forall_mem_cons.1 parts
    refine ⟨push ++ above, own, (List.append_assoc ..).symm, fun d mem => ?_⟩
    rcases List.mem_append.1 mem with mem | mem
    · exact departs here d mem
    · exact parts d mem

theorem Quits.settled {tid : Tid} {cmd : Cmd} {rest : List Cmd} {x : Option Exn} {o : Out}
    (quits : Quits c) (top : c.running = some ⟨tid, cmd :: rest, x⟩)
    (departs : ∀ sessionId, cmd.Departs sessionId → ∀ d ∈ o.push, d.Departs sessionId)
    (pushed : ∀ sessionId, .disconnected sessionId ∈ o.push →
      ∃ above, Quitting ⟨tid, o.push ++ rest, o.exn⟩ sessionId above) :
    Quits (settle c tid rest o) := by
  intro t mem sessionId below
  rcases List.mem_cons.1 ((threads_settle c tid rest o).mem_iff.1 mem) with rfl | mem
  · rcases List.mem_append.1 below with new | below
    · exact pushed sessionId new
    · obtain ⟨above, quitting⟩ :=
        quits _ (running_mem_threads top) sessionId (List.mem_cons_of_mem _ below)
      exact quitting.next below (departs sessionId)
  · exact quits t (List.mem_append_right _ mem) sessionId below

theorem Quits.step (quits : Quits c) (kept : Kept c) (arranged : Arranged c)
    (h : Step (server M J) c l c') : Quits c' := by
  cases h with
  | finish => exact fun t mem => quits t (List.mem_append_right _ mem)
  | crash => exact quits
  | @exec tid cmd rest a o _ top run =>
    refine quits.settled top (fun _ => exec_departs run) fun sessionId mem => ?_
    obtain rfl := ((exec_effect M J run).pushed mem).disconnected
    obtain ⟨rfl, rfl, -⟩ := arranged.alone kept top rfl
    obtain rfl := Option.some.inj run
    exact ⟨[.publish PLAYER_LEFT (.str sessionId)], rfl, rfl, List.forall_mem_singleton.2 .publish⟩
  | unwind _ top run =>
    have effect := unwind_effect run
    exact quits.settled top (fun _ => effect.departs) fun sessionId mem =>
      absurd mem effect.disconnected
  | take _ free at_i => exact fun t mem => quits t ((threads_take free at_i).mem_iff.1 mem)
  | @env e w new _ run =>
    have started : ∀ p ∈ new, ∀ sessionId, .disconnected sessionId ∉ p.2 := by
      cases spawn_arrival run <;> simp
    intro t mem sessionId below
    rcases List.mem_append.1 mem with mem | mem
    · exact quits t (List.mem_append_left _ mem) sessionId below
    · rcases List.mem_append.1 mem with mem | mem
      · exact quits t (List.mem_append_right _ mem) sessionId below
      · obtain ⟨p, hp, rfl⟩ := List.mem_map.1 mem
        exact absurd below (started p hp sessionId)

end

/-! Who is listed twice, and who is listed and has left. -/

/-- No client is added to a room that lists its session. -/
def JoinsOnce (c : ServerConfig) (_ : Label Answer EnvEvent) : Prop :=
  ∀ tid r client options rest,
    c.running = some ⟨tid, .addClient r client options :: rest, none⟩ →
      client.sessionId ∉ c.world.sessionsIn r

def Unrepeated (c : ServerConfig) : Prop := ∀ r, (c.world.sessionsIn r).Nodup

def Owed (t : Thread Tid Cmd Exn) (sessionId : Str) (r : RoomRef) : Prop :=
  (∃ cmd ∈ t.stack, Announces cmd sessionId r) ∨
    (t.exn.isSome ∧ ∀ cmd ∈ t.stack, cmd.closes = true)

/-- A room that lists a session whose disconnect is being handled has still to be told. -/
def Owing (c : ServerConfig) : Prop := ∀ t ∈ c.threads, ∀ sessionId, .disconnected sessionId ∈ t.stack →
  ∀ r, c.world.Managed r → sessionId ∈ c.world.sessionsIn r → Owed t sessionId r

/-- A client is added by the thread of its own session. -/
def AddsOwn (c : ServerConfig) : Prop := ∀ tid r client options rest,
  c.running = some ⟨tid, .addClient r client options :: rest, none⟩ → tid = .conn client.sessionId

section
variable {M : MsgpackC} {J : JsonText} {c c' : ServerConfig} {l : Label Answer EnvEvent}

theorem Traced.addsOwn {ls : List (Label Answer EnvEvent)} (traced : Traced M J ls c) : AddsOwn c := by
  intro tid r client options rest top
  obtain ⟨e, current, serves⟩ :=
    (traced.origin _ (running_mem_threads top)).resolve_left (List.cons_ne_nil _ _)
  have asks : Handles M J e client Protocol.joinRoom := (serves _ List.mem_cons_self).1
  exact Option.some.inj (current.tid.symm.trans asks.tid)

theorem Unrepeated.step (unrepeated : Unrepeated c) (once : JoinsOnce c l)
    (h : Step (server M J) c l c') : Unrepeated c' := by
  intro r
  cases h with
  | finish | crash | take => exact unrepeated r
  | exec _ top run =>
    rw [world_settle]
    cases (exec_effect M J run).moves r with
    | same members => rw [members]; exact unrepeated r
    | born empty => rw [empty]; exact .nil
    | left _ members => rw [members]; exact (unrepeated r).erase _
    | admitted members =>
      rw [members]
      have new := once _ _ _ _ _ top
      exact List.nodup_append.2 ⟨unrepeated r, List.nodup_singleton _, fun s mem s' mem' same =>
        new (List.mem_singleton.1 mem' ▸ same ▸ mem)⟩
  | unwind _ top run =>
    rw [world_settle, (unwind_effect run).members]
    exact unrepeated r
  | env _ run =>
    simp only [World.sessionsIn, (spawn_arrival run).frame.1]
    exact unrepeated r

/-- What the thread that runs leaves of its news, if the room still lists the session. -/
theorem Owed.exec {tid : Tid} {cmd : Cmd} {rest : List Cmd} {a : Answer} {o : Out} {r : RoomRef}
    {sessionId : Str} (kept : Kept c) (rosters : Rosters c) (unrepeated : Unrepeated c)
    (run : exec M J c.world cmd a = some o) (managed : c.world.Managed r)
    (before : sessionId ∈ c.world.sessionsIn r) (after : sessionId ∈ o.world.sessionsIn r)
    (owed : Owed ⟨tid, cmd :: rest, none⟩ sessionId r) :
    Owed ⟨tid, o.push ++ rest, o.exn⟩ sessionId r := by
  obtain ⟨d, held, announces⟩ := owed.resolve_right fun doomed => nomatch doomed.1
  refine .inl ?_
  rcases List.mem_cons.1 held with rfl | mem
  · cases announces with
    | publish =>
      obtain rfl := Option.some.inj run
      exact ⟨_, List.mem_cons_self, .deliver (rosters.hears kept managed before)⟩
    | @deliver _ handlers _ listed =>
      cases handlers with
      | nil => cases listed
      | cons handler handlers =>
        obtain ⟨-, push, pushed, -⟩ := deliver_str run
        have later : .playerLeft r ∈ handlers := by
          refine (List.mem_cons.1 listed).resolve_left fun here => ?_
          subst here
          rw [deliver_leaves run] at after
          exact (unrepeated r).not_mem_erase after
        refine ⟨_, ?_, .deliver later⟩
        rw [pushed]
        exact List.mem_append_left _ (List.mem_append_right _ List.mem_cons_self)
  · exact ⟨d, List.mem_append_right _ mem, announces⟩

theorem Owed.unwind {w : World} {tid : Tid} {cmd : Cmd} {rest : List Cmd} {x : Exn} {a : Answer}
    {o : Out} {r : RoomRef} {sessionId : Str} (order : (cmd :: rest).Pairwise Told)
    (run : Blueboat.unwind w cmd x a = some o) (owed : Owed ⟨tid, cmd :: rest, some x⟩ sessionId r) :
    Owed ⟨tid, o.push ++ rest, o.exn⟩ sessionId r := by
  rcases owed with ⟨d, held, announces⟩ | ⟨-, closes⟩
  · rcases List.mem_cons.1 held with rfl | mem
    · have passes : o = .raise w x [] := by
        cases announces <;> exact (Option.some.inj run).symm
      subst passes
      exact .inr ⟨rfl, fun e below =>
        ((List.pairwise_cons.1 order).1 e below).under announces.tells⟩
    · exact .inl ⟨d, List.mem_append_right _ mem, announces⟩
  · have passes : o = .raise w x [] := by
      have here := closes cmd List.mem_cons_self
      cases cmd with
      | disconnected | endOp => exact (Option.some.inj run).symm
      | _ => cases here
    subst passes
    exact .inr ⟨rfl, fun e below => closes e (List.mem_cons_of_mem _ below)⟩

theorem Owing.exec {tid : Tid} {cmd : Cmd} {rest : List Cmd} {a : Answer} {o : Out}
    (owing : Owing c) (kept : Kept c) (arranged : Arranged c) (begun : Admitting c)
    (rosters : Rosters c) (unrepeated : Unrepeated c) (quits : Quits c) (own : AddsOwn c)
    (top : c.running = some ⟨tid, cmd :: rest, none⟩) (run : exec M J c.world cmd a = some o) :
    Owing (settle c tid rest o) := by
  have effect := exec_effect M J run
  intro t mem sessionId below r managed after
  rw [world_settle] at managed after
  have managed₀ := begun.managed kept top effect managed after
  rcases List.mem_cons.1 ((threads_settle c tid rest o).mem_iff.1 mem) with rfl | mem
  · rcases List.mem_append.1 below with new | below
    · -- the disconnect begins
      obtain rfl := (effect.pushed new).disconnected
      obtain rfl := Option.some.inj run
      exact .inl ⟨_, List.mem_cons_self, .publish⟩
    · have below' : .disconnected sessionId ∈ cmd :: rest := List.mem_cons_of_mem _ below
      rcases effect.listed after with before | ⟨client, options, rfl, -⟩
      · exact .exec kept rosters unrepeated run managed₀ before after
          (owing _ (running_mem_threads top) sessionId below' r managed₀ before)
      · obtain ⟨above, -, stack, departs⟩ := quits _ (running_mem_threads top) sessionId below'
        cases above with
        | nil => cases stack
        | cons first above =>
          obtain ⟨rfl, -⟩ := List.cons.inj stack
          cases departs _ List.mem_cons_self with
          | inside inside => cases inside
  · rcases effect.listed after with before | ⟨client, options, rfl, named⟩
    · exact owing t (List.mem_append_right _ mem) sessionId below r managed₀ before
    · -- the session's only thread is the one that runs
      obtain ⟨above, here, -, -⟩ := quits t (List.mem_append_right _ mem) sessionId below
      have none := arranged.single kept top (own _ _ _ _ _ top) (List.cons_ne_nil _ _) mem
        (named ▸ here)
      rw [none] at below
      cases below

theorem Owing.step (owing : Owing c) (kept : Kept c) (arranged : Arranged c) (begun : Admitting c)
    (rosters : Rosters c) (spoken : Spoken c) (unrepeated : Unrepeated c) (quits : Quits c)
    (own : AddsOwn c) (h : Step (server M J) c l c') : Owing c' := by
  cases h with
  | finish => exact fun t mem => owing t (List.mem_append_right _ mem)
  | crash => exact owing
  | exec _ top run => exact owing.exec kept arranged begun rosters unrepeated quits own top run
  | @unwind tid cmd rest x a o _ top run =>
    have effect := unwind_effect run
    intro t mem sessionId below r managed listed
    rw [world_settle] at managed listed
    rw [World.Managed, effect.stores] at managed
    rw [effect.members] at listed
    rcases List.mem_cons.1 ((threads_settle c tid rest o).mem_iff.1 mem) with rfl | mem
    · have below := (List.mem_append.1 below).resolve_left effect.disconnected
      exact .unwind (spoken _ (running_mem_threads top)) run
        (owing _ (running_mem_threads top) sessionId (List.mem_cons_of_mem _ below) r managed listed)
    · exact owing t (List.mem_append_right _ mem) sessionId below r managed listed
  | take _ free at_i => exact fun t mem => owing t ((threads_take free at_i).mem_iff.1 mem)
  | @env e w new _ run =>
    have arrival := spawn_arrival run
    obtain ⟨rooms, -, managing, -⟩ := arrival.frame
    have started : ∀ p ∈ new, ∀ sessionId, .disconnected sessionId ∉ p.2 := by
      cases arrival <;> simp
    intro t mem sessionId below r managed listed
    simp only [World.Managed, World.sessionsIn, rooms, managing] at managed listed
    rcases List.mem_append.1 mem with mem | mem
    · exact owing t (List.mem_append_left _ mem) sessionId below r managed listed
    · rcases List.mem_append.1 mem with mem | mem
      · exact owing t (List.mem_append_right _ mem) sessionId below r managed listed
      · obtain ⟨p, hp, rfl⟩ := List.mem_map.1 mem
        exact absurd below (started p hp sessionId)

structure Departing (c : ServerConfig) : Prop where
  kept : Kept c
  arranged : Arranged c
  begun : Admitting c
  rosters : Rosters c
  spoken : Spoken c
  unrepeated : Unrepeated c
  quits : Quits c
  owing : Owing c

/-- No one joins a room twice, and no one joins a managed room that has no listener for those who
leave. -/
structure Joins (c : ServerConfig) (l : Label Answer EnvEvent) : Prop where
  once : JoinsOnce c l
  heard : JoinsHeard c l

theorem Departing.initial : Departing ServerConfig.initial :=
  ⟨.initial, .initial, ⟨⟨nofun, fun _ listed => absurd rfl listed⟩, nofun, nofun⟩,
    ⟨fun _ _ listed => absurd rfl listed, nofun, nofun⟩, nofun, fun _ => .nil, nofun, nofun⟩

theorem Departing.step (departing : Departing c) (own : AddsOwn c) (meets : Joins c l)
    (h : Step (server M J) c l c') : Departing c' := by
  obtain ⟨kept, arranged, begun, rosters, spoken, unrepeated, quits, owing⟩ := departing
  exact ⟨kept.step h, arranged.step h, (begun_preserved M J).step _ begun kept h,
    rosters.step kept begun meets.heard h, spoken.step arranged h, unrepeated.step meets.once h,
    quits.step kept arranged h,
    owing.step kept arranged begun rosters spoken unrepeated quits own h⟩

theorem Departing.run {ls : List (Label Answer EnvEvent)}
    (run : Run (server M J) Joins ServerConfig.initial ls c) : Departing c := by
  induction run with
  | nil => exact .initial
  | snoc before meets last ih =>
    have traced : Traced M J _ _ := .run (before.weaken _ fun _ => trivial)
    exact ih.step traced.addsOwn meets last

/-- When the disconnect of a session has been handled no managed room lists it. -/
theorem Departing.departed (departing : Departing c) {tid : Tid} {sessionId : Str} {rest : List Cmd}
    (top : c.running = some ⟨tid, .disconnected sessionId :: rest, none⟩) {r : RoomRef}
    (managed : c.world.Managed r) : sessionId ∉ c.world.sessionsIn r := by
  intro listed
  have mem := running_mem_threads top
  obtain ⟨above, -, stack, departs⟩ := departing.quits _ mem sessionId List.mem_cons_self
  obtain ⟨d, held, announces⟩ := (departing.owing _ mem sessionId List.mem_cons_self r managed
    listed).resolve_right fun doomed => nomatch doomed.1
  have last : rest = [.endOp sessionId] := by
    cases above with
    | nil => exact (List.cons.inj stack).2
    | cons first above =>
      obtain ⟨rfl, -⟩ := List.cons.inj stack
      cases departs _ List.mem_cons_self with
      | inside inside => cases inside
  subst last
  have closes : d.closes = true := by
    rcases List.mem_cons.1 held with rfl | held
    · rfl
    · rw [List.mem_singleton.1 held]; rfl
  cases announces <;> cases closes

end

/-! A room whose only member leaves. -/

/-- Nobody is added to the room. -/
def NoJoin (r : RoomRef) (c : ServerConfig) (_ : Label Answer EnvEvent) : Prop :=
  ∀ tid client options rest, c.running ≠ some ⟨tid, .addClient r client options :: rest, none⟩

def Cmd.passes (cmd : Cmd) : Bool := cmd.tells || cmd.closes

def LastLeaves (sessionId : Str) (r : RoomRef) (c : ServerConfig) : Prop :=
  c.world.sessionsIn r = [sessionId] ∧ ∃ tid handlers rest, c.running =
    some ⟨tid, .deliver (.str sessionId) (.playerLeft r :: handlers) ::
      .disconnected sessionId :: rest, none⟩

inductive Emptying (sessionId : Str) (r : RoomRef) (c : ServerConfig) : Prop where
  | asked (asked : LastLeaves sessionId r c)
  | leaving {t : Thread Tid Cmd Exn} {above below : List Cmd} (mem : t ∈ c.threads)
      (own : t.tid = .conn sessionId) (stack : t.stack = above ++ .disposeIfEmpty r :: below)
      (passes : ∀ cmd ∈ below, cmd.passes = true) (empty : c.world.sessionsIn r = [])
  | doomed {tid : Tid} {stack : List Cmd} {x : Exn} (top : c.running = some ⟨tid, stack, some x⟩)
      (passes : ∀ cmd ∈ stack, cmd.passes = true)
  | disposing (born : r < c.world.nextRoom) (disposing : (c.world.rooms r).disposing = true)

section
variable {M : MsgpackC} {J : JsonText} {c c' : ServerConfig} {l : Label Answer EnvEvent}
  {sessionId : Str} {r : RoomRef}

theorem unwind_passes {w : World} {cmd : Cmd} {x : Exn} {a : Answer} {o : Out}
    (run : Blueboat.unwind w cmd x a = some o) (passes : cmd.passes = true) : o = .raise w x [] := by
  rcases Bool.or_eq_true_iff.1 passes with tells | closes
  · cases cmd <;> first | exact (Option.some.inj run).symm | cases tells
  · cases cmd <;> first | exact (Option.some.inj run).symm | cases closes

/-- An empty room stays empty if nobody is added. -/
theorem NoJoin.stays_empty {tid : Tid} {cmd : Cmd} {rest : List Cmd} {a : Answer} {o : Out}
    (alone : NoJoin r c (.act a)) (top : c.running = some ⟨tid, cmd :: rest, none⟩)
    (effect : Effect J c.world cmd a o) (empty : c.world.sessionsIn r = []) :
    o.world.sessionsIn r = [] := by
  cases effect.moves r with
  | same members => exact members.trans empty
  | born empty => exact empty
  | left _ members => rw [members, empty]; rfl
  | admitted => exact absurd top (alone _ _ _ _)

theorem Emptying.asked_exec {tid : Tid} {cmd : Cmd} {rest : List Cmd} {a : Answer} {o : Out}
    (quits : Quits c) (asked : LastLeaves sessionId r c)
    (top : c.running = some ⟨tid, cmd :: rest, none⟩) (run : exec M J c.world cmd a = some o) :
    Emptying sessionId r (settle c tid rest o) := by
  obtain ⟨last, tid', handlers, rest', top'⟩ := asked
  cases top.symm.trans top'
  obtain ⟨above, own, stack, departs⟩ := quits _ (running_mem_threads top) sessionId (by simp)
  have left : o.world.sessionsIn r = [] := by
    rw [deliver_leaves run, last]
    simp
  have closing : rest' = [.endOp sessionId] := by
    cases above with
    | nil => cases (List.cons.inj stack).1
    | cons first above =>
      have below := (List.cons.inj stack).2
      cases above with
      | nil => exact (List.cons.inj below).2
      | cons second above =>
        obtain ⟨rfl, -⟩ := List.cons.inj below
        cases departs _ (List.mem_cons_of_mem _ List.mem_cons_self) with
        | inside inside => cases inside
  subst closing
  obtain rfl := Option.some.inj run
  obtain ⟨-, ⟨absent, -⟩ | ⟨client, listeners, -, leaves⟩⟩ :=
    removeClient_cases c.world r sessionId false
  · have listed : sessionId ∈ c.world.sessionsIn r := by rw [last]; exact List.mem_cons_self
    obtain ⟨client, mem, rfl⟩ := List.mem_map.1 listed
    exact absurd (List.find?_eq_none.1 absent client mem) (by simp)
  · have stack' : (removeClient c.world r sessionId false).2 ++ [.deliver (.str sessionId) handlers] ++
        [.disconnected sessionId, .endOp sessionId] =
        [.callLeaveListeners r client false listeners, .callHook r (.onLeave client false)] ++
          .disposeIfEmpty r :: [.deliver (.str sessionId) handlers, .disconnected sessionId,
            .endOp sessionId] := by
      rw [leaves]
      rfl
    exact .leaving (List.mem_append_left _ List.mem_cons_self) own stack'
      (by simp [Cmd.passes, Cmd.tells, Cmd.closes]) left

theorem Emptying.exec {tid : Tid} {cmd : Cmd} {rest : List Cmd} {a : Answer} {o : Out}
    (emptying : Emptying sessionId r c) (kept : Kept c) (quits : Quits c) (alone : NoJoin r c (.act a))
    (top : c.running = some ⟨tid, cmd :: rest, none⟩) (run : exec M J c.world cmd a = some o)
    (step : Step (server M J) c (.act a) (settle c tid rest o)) :
    Emptying sessionId r (settle c tid rest o) := by
  have effect := exec_effect M J run
  cases emptying with
  | asked asked => exact .asked_exec quits asked top run
  | @leaving t above below mem own stack passes empty =>
    have empty' := alone.stays_empty top effect empty
    rw [← world_settle c tid rest o] at empty'
    have threads := threads_settle c tid rest o
    rcases List.mem_append.1 mem with mem | mem
    · obtain rfl : t = ⟨tid, cmd :: rest, none⟩ :=
        Option.some.inj ((Option.mem_toList.1 mem).symm.trans top)
      cases above with
      | nil =>
        -- nobody is left, and so the room is disposed of
        obtain ⟨rfl, rfl⟩ := List.cons.inj stack
        have born := ((kept.stack top).ok _ List.mem_cons_self).1
        have members : (c.world.rooms r).clients = [] := List.map_eq_nil_iff.1 empty
        have result : some (goAfter (dispose c.world r .lastLeave) []) = some o := by
          rw [← run, Blueboat.exec, if_pos members]
        obtain rfl := Option.some.inj result
        have ledger := (dispose_cases c.world r .lastLeave).1
        have stays : c.world.nextRoom = (dispose c.world r .lastLeave).1.nextRoom :=
          ((keeps_dispose c.world.ledger r .lastLeave).nextRoom.symm.trans
            (congrArg (fun k : Ledger => k.nextRoom) ledger).symm)
        refine .disposing (stays ▸ born) ?_
        exact (congrArg (fun k : Ledger => (k.lives r).disposing) ledger).trans
          (disposing_dispose ..)
      | cons first above =>
        obtain ⟨rfl, rfl⟩ := List.cons.inj stack
        have stack' : o.push ++ (above ++ .disposeIfEmpty r :: below) =
            (o.push ++ above) ++ .disposeIfEmpty r :: below := (List.append_assoc ..).symm
        exact .leaving (threads.mem_iff.2 List.mem_cons_self) own stack' passes empty'
    · exact .leaving (threads.mem_iff.2 (List.mem_cons_of_mem _ mem)) own stack passes empty'
  | doomed top' => cases top.symm.trans top'
  | disposing born disposing =>
    obtain ⟨born, disposing⟩ := kept.stays_disposing step born disposing
    exact .disposing born disposing

theorem Emptying.unwind {tid : Tid} {cmd : Cmd} {rest : List Cmd} {x : Exn} {a : Answer} {o : Out}
    (emptying : Emptying sessionId r c) (kept : Kept c)
    (top : c.running = some ⟨tid, cmd :: rest, some x⟩)
    (run : Blueboat.unwind c.world cmd x a = some o)
    (step : Step (server M J) c (.act a) (settle c tid rest o)) :
    Emptying sessionId r (settle c tid rest o) := by
  have effect := unwind_effect run
  cases emptying with
  | asked asked =>
    obtain ⟨-, tid', handlers, rest', top'⟩ := asked
    cases top.symm.trans top'
  | @leaving t above below mem own stack passes empty =>
    have empty' : (settle c tid rest o).world.sessionsIn r = [] := by
      rw [world_settle, effect.members, empty]
    have threads := threads_settle c tid rest o
    rcases List.mem_append.1 mem with mem | mem
    · obtain rfl : t = ⟨tid, cmd :: rest, some x⟩ :=
        Option.some.inj ((Option.mem_toList.1 mem).symm.trans top)
      cases above with
      | nil =>
        obtain ⟨rfl, rfl⟩ := List.cons.inj stack
        obtain rfl := Option.some.inj run
        exact .doomed rfl passes
      | cons first above =>
        obtain ⟨rfl, rfl⟩ := List.cons.inj stack
        have stack' : o.push ++ (above ++ .disposeIfEmpty r :: below) =
            (o.push ++ above) ++ .disposeIfEmpty r :: below := (List.append_assoc ..).symm
        exact .leaving (threads.mem_iff.2 List.mem_cons_self) own stack' passes empty'
    · exact .leaving (threads.mem_iff.2 (List.mem_cons_of_mem _ mem)) own stack passes empty'
  | doomed top' passes =>
    cases top.symm.trans top'
    obtain rfl := unwind_passes run (passes cmd List.mem_cons_self)
    exact .doomed rfl fun d below => passes d (List.mem_cons_of_mem _ below)
  | disposing born disposing =>
    obtain ⟨born, disposing⟩ := kept.stays_disposing step born disposing
    exact .disposing born disposing

theorem Emptying.step (emptying : Emptying sessionId r c) (kept : Kept c) (quits : Quits c)
    (alone : NoJoin r c l) (h : Step (server M J) c l c') : Emptying sessionId r c' := by
  cases h with
  | exec alive top run => exact emptying.exec kept quits alone top run (.exec alive top run)
  | unwind alive top run => exact emptying.unwind kept top run (.unwind alive top run)
  | finish _ top =>
    cases emptying with
    | asked asked => obtain ⟨-, tid', handlers, rest', top'⟩ := asked; cases top.symm.trans top'
    | @leaving t above below mem own stack passes empty =>
      refine .leaving ((List.mem_append.1 mem).resolve_left fun mem => ?_) own stack passes empty
      cases (Option.mem_toList.1 mem).symm.trans top
      exact List.append_ne_nil_of_right_ne_nil _ (List.cons_ne_nil _ _) stack.symm
    | doomed top' => cases top.symm.trans top'
    | disposing born disposing => exact .disposing born disposing
  | crash _ top =>
    cases emptying with
    | asked asked => exact .asked asked
    | leaving mem own stack passes empty => exact .leaving mem own stack passes empty
    | doomed top' passes => exact .doomed top' passes
    | disposing born disposing => exact .disposing born disposing
  | take _ free at_i =>
    cases emptying with
    | asked asked => obtain ⟨-, tid', handlers, rest', top'⟩ := asked; cases free.symm.trans top'
    | leaving mem own stack passes empty =>
      exact .leaving ((threads_take free at_i).mem_iff.2 mem) own stack passes empty
    | doomed top' => cases free.symm.trans top'
    | disposing born disposing => exact .disposing born disposing
  | @env e w new _ run =>
    obtain ⟨rooms, -, -, -, nextRoom⟩ := (spawn_arrival run).frame
    have members : w.sessionsIn r = c.world.sessionsIn r := by simp only [World.sessionsIn, rooms]
    cases emptying with
    | asked asked => exact .asked ⟨members.trans asked.1, asked.2⟩
    | leaving mem own stack passes empty =>
      refine .leaving ?_ own stack passes (members.trans empty)
      exact (List.mem_append.1 mem).elim (List.mem_append_left _)
        fun mem => List.mem_append_right _ (List.mem_append_left _ mem)
    | doomed top' passes => exact .doomed top' passes
    | disposing born disposing =>
      exact .disposing (nextRoom ▸ born) ((congrArg (fun rooms => (rooms r).disposing) rooms).trans disposing)

/-- The session's thread is at the end of `handle_client_disconnect`: the leave is not under way. -/
theorem Emptying.disposed (emptying : Emptying sessionId r c) (departing : Departing c) {tid : Tid}
    {rest : List Cmd} (top : c.running = some ⟨tid, .disconnected sessionId :: rest, none⟩) :
    (c.world.rooms r).disposing = true := by
  cases emptying with
  | asked asked => obtain ⟨-, tid', handlers, rest', top'⟩ := asked; cases top.symm.trans top'
  | doomed top' => cases top.symm.trans top'
  | disposing _ disposing => exact disposing
  | @leaving t above below mem own stack passes =>
    obtain ⟨upper, here, lower, departs⟩ :=
      departing.quits _ (running_mem_threads top) sessionId List.mem_cons_self
    rcases List.mem_append.1 mem with mem | mem
    · cases (Option.mem_toList.1 mem).symm.trans top
      cases upper with
      | nil =>
        obtain rfl := (List.cons.inj lower).2
        have same : [.disconnected sessionId, .endOp sessionId] =
          above ++ .disposeIfEmpty r :: below := stack
        have held := List.mem_append_right above (List.mem_cons_self (a := Cmd.disposeIfEmpty r) (l := below))
        rw [← same] at held
        simp at held
      | cons first upper =>
        obtain ⟨rfl, -⟩ := List.cons.inj lower
        cases departs _ List.mem_cons_self with
        | inside inside => cases inside
    · have none := departing.arranged.single departing.kept top here (List.cons_ne_nil _ _) mem own
      rw [none] at stack
      exact absurd stack.symm (List.append_ne_nil_of_right_ne_nil _ (List.cons_ne_nil _ _))

end

section
variable (M : MsgpackC) (J : JsonText)

/-- A session is in a room once at most; when its disconnect has been handled it is in none; and a
room whose only member it was, and to which nobody was added meanwhile, has been disposed of. -/
structure Ghostless (ok : ServerConfig → Label Answer EnvEvent → Prop) (c : ServerConfig) : Prop where
  once : ∀ r, (c.world.sessionsIn r).Nodup
  departed : ∀ tid sessionId rest, c.running = some ⟨tid, .disconnected sessionId :: rest, none⟩ →
    ∀ r, c.world.Managed r → sessionId ∉ c.world.sessionsIn r
  disposed : ∀ sessionId r ls c', LastLeaves sessionId r c →
    Run (server M J) (fun c l => ok c l ∧ NoJoin r c l) c ls c' →
      ∀ tid rest, c'.running = some ⟨tid, .disconnected sessionId :: rest, none⟩ →
        (c'.world.rooms r).disposing = true

variable {M J}

/-- There are no ghosts as long as nobody is added to a room twice, or to one that does not hear of
those who leave. -/
theorem no_ghosts {ls : List (Label Answer EnvEvent)} {c : ServerConfig}
    (run : Run (server M J) Joins ServerConfig.initial ls c) : Ghostless M J Joins c := by
  have departing : Departing c := .run run
  refine ⟨departing.unrepeated, fun tid sessionId rest top r managed => departing.departed top managed,
    fun sessionId r ls' c' asked run' tid rest top => ?_⟩
  have whole : ∀ {ls' c'}, Run (server M J) (fun c l => Joins c l ∧ NoJoin r c l) c ls' c' →
      Departing c' := fun run' => .run (run.append _ (run'.weaken _ And.left))
  have emptying : Emptying sessionId r c' := by
    clear top
    induction run' with
    | nil => exact .asked asked
    | snoc before meets last ih =>
      have now := whole before
      exact ih.step now.kept now.quits meets.2 last
  exact emptying.disposed (whole run') top

end

def joinsCheck (c : ServerConfig) : Bool :=
  match c.running with
  | some ⟨_, .addClient r client _ :: _, none⟩ =>
    !(c.world.sessionsIn r).contains client.sessionId && (c.world.rooms r).playerLeftSub.isSome
  | _ => true

theorem joinsCheck_sound {c : ServerConfig} {l : Label Answer EnvEvent} (h : joinsCheck c = true) :
    Joins c l := by
  refine ⟨fun tid r client options rest top => ?_, fun tid r client options rest top _ => ?_⟩
  · simp [joinsCheck, top] at h
    exact h.1
  · simp [joinsCheck, top] at h
    exact h.2

def noJoinCheck (r : RoomRef) (c : ServerConfig) : Bool :=
  match c.running with
  | some ⟨_, .addClient r' _ _ :: _, none⟩ => r' ≠ r
  | _ => true

theorem noJoinCheck_sound {r : RoomRef} {c : ServerConfig} {l : Label Answer EnvEvent}
    (h : noJoinCheck r c = true) : NoJoin r c l := by
  intro tid client options rest top
  simp [noJoinCheck, top] at h

def lastLeavesCheck (sessionId : Str) (r : RoomRef) (c : ServerConfig) : Bool :=
  match c.running with
  | some ⟨_, .deliver (.str s) (.playerLeft r' :: _) :: .disconnected s' :: _, none⟩ =>
    (s == sessionId && s' == sessionId) && (r' == r && c.world.sessionsIn r == [sessionId])
  | _ => false

theorem lastLeavesCheck_sound {sessionId : Str} {r : RoomRef} {c : ServerConfig}
    (h : lastLeavesCheck sessionId r c = true) : LastLeaves sessionId r c := by
  rw [lastLeavesCheck] at h
  split at h
  · rename_i tid s r' handlers s' rest top
    simp only [Bool.and_eq_true, beq_iff_eq] at h
    obtain ⟨⟨rfl, rfl⟩, rfl, one⟩ := h
    exact ⟨one, tid, handlers, rest, top⟩
  · cases h

def departedCheck (sessionId : Str) (c : ServerConfig) : Bool :=
  match c.running with
  | some ⟨_, .disconnected sessionId' :: _, none⟩ => sessionId' == sessionId
  | _ => false

theorem departedCheck_sound {sessionId : Str} {c : ServerConfig}
    (h : departedCheck sessionId c = true) :
    ∃ tid rest, c.running = some ⟨tid, .disconnected sessionId :: rest, none⟩ := by
  rw [departedCheck] at h
  split at h
  · rename_i tid sessionId' rest top
    obtain rfl := beq_iff_eq.1 h
    exact ⟨tid, rest, top⟩
  · cases h

/-- The only member of a room hangs up. -/
theorem no_ghosts_hangup : ∃ ls ls' c c' tid rest,
    Run (server shortest Text.reference) Joins ServerConfig.initial ls c ∧
    LastLeaves (lit "s") 0 c ∧
    Run (server shortest Text.reference) (fun c l => Joins c l ∧ NoJoin 0 c l) c ls' c' ∧
    c'.running = some ⟨tid, .disconnected (lit "s") :: rest, none⟩ ∧
    Ghostless shortest Text.reference Joins c := by
  have found : (execute (server shortest Text.reference) (fun c _ => joinsCheck c)
      ServerConfig.initial (startsUp ++ connects alice ++ joinsRoom (lit "s") ++
        .env (.hangup (lit "s")) :: turn (steps 2))).any (fun c => lastLeavesCheck (lit "s") 0 c &&
      (execute (server shortest Text.reference) (fun c _ => joinsCheck c && noJoinCheck 0 c) c
        ((steps 3 ++ .ret :: steps 3 ++ .ret :: steps 2 ++ .ret :: steps 2).map .act)).any
          (departedCheck (lit "s"))) = true := by
    decide +kernel
  obtain ⟨c, run, rest⟩ := exists_run _ found
  obtain ⟨asks, rest⟩ := Bool.and_eq_true_iff.1 rest
  obtain ⟨c', run', ended⟩ := exists_run _ rest
  have run : Run _ Joins _ _ c := run.weaken _ joinsCheck_sound
  have run' : Run _ (fun c l => Joins c l ∧ NoJoin 0 c l) _ _ c' := run'.weaken _ fun both =>
    ⟨joinsCheck_sound (Bool.and_eq_true_iff.1 both).1,
      noJoinCheck_sound (Bool.and_eq_true_iff.1 both).2⟩
  obtain ⟨tid, below, top⟩ := departedCheck_sound ended
  exact ⟨_, _, c, c', tid, below, run, lastLeavesCheck_sound asks, run', top, no_ghosts run⟩

/-- A client asks twice for the same room, and then it hangs up. -/
theorem ghost_left_behind : ¬ ∀ (M : MsgpackC) (J : JsonText) (ls : List (Label Answer EnvEvent))
    (c : ServerConfig), Run (server M J) (fun _ _ => True) ServerConfig.initial ls c →
      Ghostless M J (fun _ _ => True) c := by
  intro ghostless
  have found : (execute (server shortest Text.reference) (fun _ _ => true) ServerConfig.initial
      (startsUp ++ connects alice ++ joinsRoom (lit "s") ++ joinsRoom (lit "s") ++
        .env (.hangup (lit "s")) :: turn (steps 5 ++ .ret :: steps 2))).any (fun c =>
      departedCheck (lit "s") c && (c.world.managingRooms.lookup (lit "r") == some 0 &&
        decide (lit "s" ∈ c.world.sessionsIn 0))) = true := by
    decide +kernel
  obtain ⟨c, run, rest⟩ := exists_run _ found
  obtain ⟨ended, rest⟩ := Bool.and_eq_true_iff.1 rest
  obtain ⟨managed, listed⟩ := Bool.and_eq_true_iff.1 rest
  have run' : Run _ (fun _ _ => True) _ _ c := run.weaken _ fun _ => trivial
  obtain ⟨tid, below, top⟩ := departedCheck_sound ended
  exact (ghostless _ _ _ c run').departed _ _ _ top 0 ⟨_, beq_iff_eq.1 managed⟩
    (of_decide_eq_true listed)

end Blueboat
