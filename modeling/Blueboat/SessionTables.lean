import Blueboat.Progress

set_option autoImplicit false

/-! The tables of the sessions in every run: a session is in them while `handle_connection` is under way
for it, and in none of them afterwards. -/
namespace Blueboat

open Protocol LockMachine Ledger

def NoneEnters (s : Str) (c : ServerConfig) : Prop :=
  ∀ t ∈ c.threads, ∀ client, .openConnection client ∈ t.stack → client.sessionId ≠ s

inductive Begins (s : Str) : Thread Tid Cmd Exn → Prop where
  | enters {client : SimpleClient} : Begins s ⟨.conn s, [.openConnection client, .endOp s], none⟩
  | leaves : Begins s ⟨.conn s, [.handleClientDisconnect s, .endOp s], none⟩

def Cmd.connects : Cmd → Bool
  | .openConnection _ => true
  | .handleClientDisconnect _ => true
  | _ => false

def World.OwnEntry (w : World) (s : Str) (client : SimpleClient) : Prop :=
  ∀ client', w.connections.lookup s = some client' → client' = client

/-- How far `handle_connection` has come for the session, and which tables it is in there. -/
inductive Tabled (s : Str) (c : ServerConfig) : Prop where
  | unknown (free : c.world.sessions.lookup s = none)
      (out : c.world.connections.lookup s = none)
      (unrecorded : (c.world.lastActivity.lookup s).isSome = false)
  | entering {client : SimpleClient} (busy : c.world.sessions.lookup s = some (client, .busy))
      (thread : ⟨.conn s, [.openConnection client, .endOp s], none⟩ ∈ c.threads)
      (out : c.world.connections.lookup s = none)
      (unrecorded : (c.world.lastActivity.lookup s).isSome = false)
  | reading {client : SimpleClient} {phase : Phase}
      (here : c.world.sessions.lookup s = some (client, phase)) (goes : phase = .idle ∨ phase = .busy)
      (entered : NoneEnters s c) (own : c.world.OwnEntry s client)
      (recorded : (c.world.lastActivity.lookup s).isSome = true)
  | leaving {client : SimpleClient} (closing : c.world.sessions.lookup s = some (client, .closing))
      (thread : ⟨.conn s, [.handleClientDisconnect s, .endOp s], none⟩ ∈ c.threads)
      (entered : NoneEnters s c) (own : c.world.OwnEntry s client)
      (recorded : (c.world.lastActivity.lookup s).isSome = true)
  | left {client : SimpleClient} (closing : c.world.sessions.lookup s = some (client, .closing))
      (entered : NoneEnters s c) (out : c.world.connections.lookup s = none)
      (recorded : (c.world.lastActivity.lookup s).isSome = true)
  | finished {client : SimpleClient} (closed : c.world.sessions.lookup s = some (client, .closed))
      (out : c.world.connections.lookup s = none)
      (unrecorded : (c.world.lastActivity.lookup s).isSome = false)

inductive Enters (w w' : World) : Cmd → Prop where
  | same {cmd : Cmd} (other : cmd.connects = false)
      (sessions : w'.sessions = w.sessions) (connections : w'.connections = w.connections)
      (recorded : ∀ s, (w'.lastActivity.lookup s).isSome = (w.lastActivity.lookup s).isSome) :
    Enters w w' cmd
  | entered {client : SimpleClient} (sessions : w'.sessions = w.sessions)
      (connections : w'.connections = w.connections.insert client.sessionId client)
      (lastActivity : w'.lastActivity = w.lastActivity.insert client.sessionId w.now) :
    Enters w w' (.openConnection client)
  | removed {sessionId : Str} (sessions : w'.sessions = w.sessions)
      (connections : w'.connections = w.connections.erase sessionId)
      (lastActivity : w'.lastActivity = w.lastActivity) :
    Enters w w' (.handleClientDisconnect sessionId)
  | ended {sessionId : Str} (world : w' = endOp w sessionId) : Enters w w' (.endOp sessionId)

section
variable {M : MsgpackC} {J : JsonText} {w : World} {cmd : Cmd} {a : Answer} {o : Out} {s : Str}
  {c c' : ServerConfig} {l : Label Answer EnvEvent}

theorem exec_enters (run : exec M J w cmd a = some o) : Enters w o.world cmd := by
  have effect := exec_effect M J run
  have plain : cmd.books = false → cmd.connects = false → Enters w o.world cmd := by
    intro books stays
    have sessions : o.world.sessions = w.sessions := by
      rcases effect.counters.2 with same | ⟨sessionId, rfl, -⟩
      · exact same
      · cases books
    have lastActivity : o.world.lastActivity = w.lastActivity := (exec_aside run books).2
    refine .same stays sessions ?_ fun s => by rw [lastActivity]
    cases exec_connects run with
    | same connections => exact connections
    | opened => cases books
    | erased => cases stays
  cases cmd with
  | openConnection client => obtain rfl := Option.some.inj run; exact .entered rfl rfl rfl
  | handleClientDisconnect sessionId => obtain rfl := Option.some.inj run; exact .removed rfl rfl rfl
  | endOp sessionId => obtain rfl := Option.some.inj run; exact .ended rfl
  | recordActivity sessionId =>
    simp only [exec] at run
    split at run
    · obtain rfl := Option.some.inj run
      exact .same rfl rfl rfl fun _ => rfl
    · rename_i found
      obtain rfl := Option.some.inj run
      refine .same rfl rfl rfl fun s => ?_
      by_cases here : s = sessionId
      · subst here
        exact (congrArg Option.isSome (AList.lookup_insert _)).trans (by rw [found]; rfl)
      · exact congrArg Option.isSome (AList.lookup_insert_ne here)
  | workerDone => obtain rfl := Option.some.inj run; exact .same rfl rfl rfl fun _ => rfl
  | _ => exact plain rfl rfl

theorem Tabled.same (tabled : Tabled s c)
    (sessions : c'.world.sessions.lookup s = c.world.sessions.lookup s)
    (connections : c'.world.connections.lookup s = c.world.connections.lookup s)
    (recorded : (c'.world.lastActivity.lookup s).isSome = (c.world.lastActivity.lookup s).isSome)
    (begins : ∀ t ∈ c.threads, Begins s t → t ∈ c'.threads)
    (enters : NoneEnters s c → NoneEnters s c') : Tabled s c' := by
  have owns : ∀ {client}, c.world.OwnEntry s client → c'.world.OwnEntry s client :=
    fun own client' found => own client' (connections.symm.trans found)
  cases tabled with
  | unknown free out unrecorded =>
    exact .unknown (sessions.trans free) (connections.trans out) (recorded.trans unrecorded)
  | entering busy thread out unrecorded =>
    exact .entering (sessions.trans busy) (begins _ thread .enters) (connections.trans out)
      (recorded.trans unrecorded)
  | reading here goes entered own before =>
    exact .reading (sessions.trans here) goes (enters entered) (owns own) (recorded.trans before)
  | leaving closing thread entered own before =>
    exact .leaving (sessions.trans closing) (begins _ thread .leaves) (enters entered) (owns own)
      (recorded.trans before)
  | left closing entered out before =>
    exact .left (sessions.trans closing) (enters entered) (connections.trans out) (recorded.trans before)
  | finished closed out unrecorded =>
    exact .finished (sessions.trans closed) (connections.trans out) (recorded.trans unrecorded)

theorem NoneEnters.settled {tid : Tid} {cmd : Cmd} {rest : List Cmd} {x : Option Exn} {o : Out}
    (enters : NoneEnters s c) (top : c.running = some ⟨tid, cmd :: rest, x⟩)
    (closed : ∀ client, .openConnection client ∉ o.push) : NoneEnters s (settle c tid rest o) := by
  intro t mem client opens
  rcases List.mem_cons.1 ((threads_settle c tid rest o).mem_iff.1 mem) with rfl | mem
  · have below := (List.mem_append.1 opens).resolve_left (closed client)
    exact enters _ (running_mem_threads top) client (List.mem_cons_of_mem _ below)
  · exact enters t (List.mem_append_right _ mem) client opens

theorem Begins.settled {tid : Tid} {cmd : Cmd} {rest : List Cmd} {x : Option Exn} {o : Out}
    (top : c.running = some ⟨tid, cmd :: rest, x⟩) (other : ¬ Begins s ⟨tid, cmd :: rest, x⟩) :
    ∀ t ∈ c.threads, Begins s t → t ∈ (settle c tid rest o).threads := by
  intro t mem begins
  refine (threads_settle c tid rest o).mem_iff.2 (List.mem_cons_of_mem _ ?_)
  rcases List.mem_append.1 mem with mem | mem
  · cases (Option.mem_toList.1 mem).symm.trans top
    exact absurd begins other
  · exact mem

/-- The thread that a session has left to run is the one whose command is run. -/
theorem Begins.running (arranged : Arranged c) (kept : Kept c) {stack : List Cmd} {x : Option Exn}
    (top : c.running = some ⟨.conn s, stack, x⟩) (some : stack ≠ []) {t : Thread Tid Cmd Exn}
    (mem : t ∈ c.threads) (begins : Begins s t) : t = ⟨.conn s, stack, x⟩ := by
  rcases List.mem_append.1 mem with mem | mem
  · exact Option.some.inj ((Option.mem_toList.1 mem).symm.trans top)
  · have here : t.tid = .conn s := by cases begins <;> rfl
    have finished := arranged.single kept top rfl some mem here
    cases begins <;> cases finished

/-- A command that is not the session's own leaves its entries alone. -/
theorem Tabled.beside {tid : Tid} {cmd : Cmd} {rest : List Cmd} {x : Option Exn} {o : Out}
    (tabled : Tabled s c) (top : c.running = some ⟨tid, cmd :: rest, x⟩)
    (other : ¬ Begins s ⟨tid, cmd :: rest, x⟩) (closed : ∀ client, .openConnection client ∉ o.push)
    (sessions : o.world.sessions.lookup s = c.world.sessions.lookup s)
    (connections : o.world.connections.lookup s = c.world.connections.lookup s)
    (recorded : (o.world.lastActivity.lookup s).isSome = (c.world.lastActivity.lookup s).isSome) :
    Tabled s (settle c tid rest o) := by
  apply tabled.same
  · rw [world_settle, sessions]
  · rw [world_settle, connections]
  · rw [world_settle, recorded]
  · exact Begins.settled top other
  · exact fun enters => enters.settled top closed

theorem Tabled.entered {client : SimpleClient} {rest : List Cmd} {o : Out}
    (tabled : Tabled client.sessionId c) (kept : Kept c) (arranged : Arranged c)
    (top : c.running = some ⟨.conn client.sessionId, .openConnection client :: rest, none⟩)
    (closed : ∀ client, .openConnection client ∉ o.push)
    (sessions : o.world.sessions = c.world.sessions)
    (connections : o.world.connections = c.world.connections.insert client.sessionId client)
    (lastActivity : o.world.lastActivity =
      c.world.lastActivity.insert client.sessionId c.world.now) :
    Tabled client.sessionId (settle c (.conn client.sessionId) rest o) := by
  have running := running_mem_threads top
  have engaged := arranged.engaged kept running rfl (List.cons_ne_nil _ _)
  have here : ¬ NoneEnters client.sessionId c := fun enters =>
    enters _ running client List.mem_cons_self rfl
  cases tabled with
  | reading _ _ entered | leaving _ _ entered | left _ entered => exact absurd entered here
  | unknown free =>
    obtain ⟨client', phase, found, -⟩ := engaged
    cases free.symm.trans found
  | finished finished =>
    obtain ⟨client', phase, found, busy | closing⟩ := engaged
    · cases finished.symm.trans found; cases busy
    · cases finished.symm.trans found; cases closing
  | @entering client' busy thread =>
    obtain ⟨rfl, rfl⟩ : client' = client ∧ rest = [.endOp client.sessionId] := by
      cases Begins.running arranged kept top (List.cons_ne_nil _ _) thread .enters
      exact ⟨rfl, rfl⟩
    obtain ⟨-, -, alone⟩ := arranged.alone kept top rfl
    have here : (settle c (.conn client'.sessionId) [.endOp client'.sessionId] o).world.sessions.lookup
        client'.sessionId = some (client', .busy) := by
      rw [world_settle, sessions]
      exact busy
    refine .reading here (.inr rfl) ?_ ?_ ?_
    · intro t mem client'' opens here
      rcases List.mem_cons.1 ((threads_settle _ _ _ o).mem_iff.1 mem) with rfl | mem
      · have below := (List.mem_append.1 opens).resolve_left (closed client'')
        cases List.mem_singleton.1 below
      · have owner := (arranged.2.2 t mem).1.owner opens (.inl rfl)
        rw [alone t mem (owner.trans (by rw [here]))] at opens
        cases opens
    · intro client'' found
      rw [world_settle, connections, AList.lookup_insert] at found
      exact (Option.some.inj found).symm
    · rw [world_settle, lastActivity, AList.lookup_insert]
      rfl

theorem Tabled.removed {rest : List Cmd} {o : Out} (tabled : Tabled s c) (kept : Kept c)
    (arranged : Arranged c)
    (top : c.running = some ⟨.conn s, .handleClientDisconnect s :: rest, none⟩)
    (closed : ∀ client, .openConnection client ∉ o.push)
    (sessions : o.world.sessions = c.world.sessions)
    (connections : o.world.connections = c.world.connections.erase s)
    (lastActivity : o.world.lastActivity = c.world.lastActivity) :
    Tabled s (settle c (.conn s) rest o) := by
  have out : (settle c (.conn s) rest o).world.connections.lookup s = none := by
    rw [world_settle, connections]
    exact AList.lookup_erase ..
  have same : (settle c (.conn s) rest o).world.sessions = c.world.sessions := by
    rw [world_settle, sessions]
  have recorded : (settle c (.conn s) rest o).world.lastActivity = c.world.lastActivity := by
    rw [world_settle, lastActivity]
  cases tabled with
  | unknown free _ unrecorded => exact .unknown (same ▸ free) out (recorded ▸ unrecorded)
  | finished closed _ unrecorded => exact .finished (same ▸ closed) out (recorded ▸ unrecorded)
  | entering _ thread =>
    cases Begins.running arranged kept top (List.cons_ne_nil _ _) thread .enters
  | reading here goes entered _ before =>
    refine .reading (same ▸ here) goes (entered.settled top closed) ?_ (recorded ▸ before)
    exact fun client' found => nomatch out.symm.trans found
  | leaving closing _ entered _ before | left closing entered _ before =>
    exact .left (same ▸ closing) (entered.settled top closed) out (recorded ▸ before)

theorem Tabled.ended {rest : List Cmd} {o : Out} (tabled : Tabled s c) (kept : Kept c)
    (arranged : Arranged c) (top : c.running = some ⟨.conn s, .endOp s :: rest, none⟩)
    (closed : ∀ client, .openConnection client ∉ o.push) (world : o.world = endOp c.world s) :
    Tabled s (settle c (.conn s) rest o) := by
  have beside : endOp c.world s = c.world → Tabled s (settle c (.conn s) rest o) := fun same =>
    tabled.beside top nofun closed (by rw [world, same]) (by rw [world, same]) (by rw [world, same])
  have now : (settle c (.conn s) rest o).world = endOp c.world s := by rw [world_settle, world]
  cases tabled with
  | unknown free => exact beside (by rw [endOp, free])
  | finished finished => exact beside (by rw [endOp, finished])
  | entering _ thread =>
    cases Begins.running arranged kept top (List.cons_ne_nil _ _) thread .enters
  | leaving _ thread =>
    cases Begins.running arranged kept top (List.cons_ne_nil _ _) thread .leaves
  | @reading client phase here goes entered own recorded =>
    rcases goes with rfl | rfl
    · exact beside (by rw [endOp, here])
    · have idle : endOp c.world s =
          { c.world with sessions := c.world.sessions.insert s (client, .idle) } := by
        rw [endOp, here]
      rw [idle] at now
      have idles : (settle c (.conn s) rest o).world.sessions.lookup s = some (client, .idle) := by
        rw [now]
        exact AList.lookup_insert _
      refine .reading idles (.inl rfl) (entered.settled top closed) ?_ ?_
      · rw [now]
        exact own
      · rw [now]
        exact recorded
  | @left client closing entered out recorded =>
    have finished : endOp c.world s =
        { c.world with
          sessions := c.world.sessions.insert s (client, .closed)
          lastActivity := c.world.lastActivity.erase s } := by
      rw [endOp, closing]
    rw [finished] at now
    have closed : (settle c (.conn s) rest o).world.sessions.lookup s = some (client, .closed) := by
      rw [now]
      exact AList.lookup_insert _
    refine .finished closed ?_ ?_
    · rw [now]
      exact out
    · rw [now]
      exact congrArg Option.isSome (AList.lookup_erase ..)

theorem endOp_ne {w : World} {s s' : Str} (other : s' ≠ s) :
    (endOp w s).sessions.lookup s' = w.sessions.lookup s' ∧
      (endOp w s).connections = w.connections ∧
      (endOp w s).lastActivity.lookup s' = w.lastActivity.lookup s' := by
  unfold endOp
  split
  · exact ⟨AList.lookup_insert_ne other, rfl, rfl⟩
  · exact ⟨AList.lookup_insert_ne other, rfl, AList.lookup_erase_ne other⟩
  · exact ⟨rfl, rfl, rfl⟩

theorem Tabled.exec {tid : Tid} {cmd : Cmd} {rest : List Cmd} {a : Answer} {o : Out}
    (tabled : Tabled s c) (kept : Kept c) (arranged : Arranged c)
    (top : c.running = some ⟨tid, cmd :: rest, none⟩) (run : exec M J c.world cmd a = some o) :
    Tabled s (settle c tid rest o) := by
  have closed : ∀ client, .openConnection client ∉ o.push := fun client mem =>
    ((exec_effect M J run).pushed mem).closed
  have proper := arranged.proper top
  have elsewhere : ∀ {s' : Str}, tid = .conn s' → s ≠ s' → ¬ Begins s ⟨tid, cmd :: rest, none⟩ := by
    rintro s' rfl other begins
    cases begins <;> exact other rfl
  cases exec_enters run with
  | same other sessions connections recorded =>
    have begins : ¬ Begins s ⟨tid, cmd :: rest, none⟩ := by
      intro begins
      cases begins <;> cases other
    exact tabled.beside top begins closed (by rw [sessions]) (by rw [connections]) (recorded s)
  | @entered client sessions connections lastActivity =>
    obtain rfl : tid = .conn client.sessionId := proper.owner List.mem_cons_self (.inl rfl)
    by_cases here : s = client.sessionId
    · subst here
      exact tabled.entered kept arranged top closed sessions connections lastActivity
    · refine tabled.beside top (elsewhere rfl here) closed (by rw [sessions]) ?_ ?_
      · rw [connections, AList.lookup_insert_ne here]
      · rw [lastActivity, AList.lookup_insert_ne here]
  | @removed sessionId sessions connections lastActivity =>
    obtain rfl : tid = .conn sessionId := proper.owner List.mem_cons_self (.inl rfl)
    by_cases here : s = sessionId
    · subst here
      exact tabled.removed kept arranged top closed sessions connections lastActivity
    · refine tabled.beside top (elsewhere rfl here) closed (by rw [sessions]) ?_ (by rw [lastActivity])
      rw [connections, AList.lookup_erase_ne here]
  | @ended sessionId world =>
    obtain rfl : tid = .conn sessionId := proper.owner List.mem_cons_self (.inr rfl)
    by_cases here : s = sessionId
    · subst here
      exact tabled.ended kept arranged top closed world
    · obtain ⟨sessions, connections, lastActivity⟩ := endOp_ne (w := c.world) here
      rw [← world] at sessions connections lastActivity
      exact tabled.beside top (elsewhere rfl here) closed sessions (by rw [connections])
        (by rw [lastActivity])

theorem Tabled.unwound {tid : Tid} {cmd : Cmd} {rest : List Cmd} {x : Exn} {a : Answer} {o : Out}
    (tabled : Tabled s c) (top : c.running = some ⟨tid, cmd :: rest, some x⟩)
    (run : Blueboat.unwind c.world cmd x a = some o) : Tabled s (settle c tid rest o) := by
  have effect := unwind_effect run
  have sessions : o.world.sessions = c.world.sessions := congrArg Stores.sessions effect.stores
  have connections := unwind_connections run
  have lastActivity : o.world.lastActivity = c.world.lastActivity := (unwind_local run).lastActivity
  exact tabled.beside top nofun (fun client => effect.closed) (by rw [sessions]) (by rw [connections])
    (by rw [lastActivity])

theorem NoneEnters.more {w : World} {new : List (Tid × List Cmd)} (enters : NoneEnters s c)
    (plain : ∀ p ∈ new, ∀ client, .openConnection client ∈ p.2 → client.sessionId ≠ s) :
    NoneEnters s { c with world := w, parked := c.parked ++ new.map Thread.start } := by
  intro t mem client opens
  rcases List.mem_append.1 mem with mem | mem
  · exact enters t (List.mem_append_left _ mem) client opens
  · rcases List.mem_append.1 mem with mem | mem
    · exact enters t (List.mem_append_right _ mem) client opens
    · obtain ⟨p, hp, rfl⟩ := List.mem_map.1 mem
      exact plain p hp client opens

theorem Tabled.env {e : EnvEvent} {w : World} {new : List (Tid × List Cmd)} (tabled : Tabled s c)
    (arrival : Arrival c.world e w new) :
    Tabled s { c with world := w, parked := c.parked ++ new.map Thread.start } := by
  have connections := arrival.connections
  have lastActivity : w.lastActivity = c.world.lastActivity := by cases arrival <;> rfl
  have quiet : w.sessions.lookup s = c.world.sessions.lookup s →
      (∀ p ∈ new, ∀ client, .openConnection client ∈ p.2 → client.sessionId ≠ s) →
      Tabled s { c with world := w, parked := c.parked ++ new.map Thread.start } := fun same plain =>
    tabled.same same (by rw [connections]) (by rw [lastActivity])
      (fun t mem _ => mem_started (.inl mem)) fun enters => enters.more plain
  cases arrival with
  | @connect client fresh =>
    by_cases here : s = client.sessionId
    · subst here
      have began : Tabled client.sessionId c := tabled
      cases began with
      | unknown free out unrecorded =>
        exact .entering (AList.lookup_insert _) (mem_started (.inr List.mem_cons_self)) out unrecorded
      | entering known | reading known | leaving known | left known | finished known =>
        cases fresh.symm.trans known
    · refine quiet (AList.lookup_insert_ne here) fun p hp client' opens => ?_
      obtain rfl := List.mem_singleton.1 hp
      obtain rfl : client' = client := by simpa using opens
      exact Ne.symm here
  | @receive s' payload isBinary client idle =>
    have plain : ∀ p ∈ [(Tid.conn s', [.recordActivity s', .dispatch client isBinary payload,
        .endOp s'])], ∀ client', Cmd.openConnection client' ∈ p.2 → client'.sessionId ≠ s := by
      simp
    by_cases here : s = s'
    · subst here
      cases tabled with
      | @reading client' phase found goes entered own recorded =>
        cases idle.symm.trans found
        exact .reading (AList.lookup_insert _) (.inr rfl) (entered.more plain) own recorded
      | unknown known | entering known | leaving known | left known | finished known =>
        cases idle.symm.trans known
    · exact quiet (AList.lookup_insert_ne here) plain
  | @hangup s' client idle =>
    have plain : ∀ p ∈ [(Tid.conn s', [.handleClientDisconnect s', .endOp s'])],
        ∀ client', Cmd.openConnection client' ∈ p.2 → client'.sessionId ≠ s := by
      simp
    by_cases here : s = s'
    · subst here
      cases tabled with
      | @reading client' phase found goes entered own recorded =>
        cases idle.symm.trans found
        exact .leaving (AList.lookup_insert _) (mem_started (.inr List.mem_cons_self))
          (entered.more plain) own recorded
      | unknown known | entering known | leaving known | left known | finished known =>
        cases idle.symm.trans known
    · exact quiet (AList.lookup_insert_ne here) plain
  | _ => exact quiet rfl (by simp)

theorem Tabled.step (tabled : Tabled s c) (kept : Kept c) (arranged : Arranged c)
    (h : Step (server M J) c l c') : Tabled s c' := by
  cases h with
  | finish _ top =>
    refine tabled.same rfl rfl rfl (fun t mem begins => ?_) fun enters t mem =>
      enters t (List.mem_append_right _ mem)
    refine (List.mem_append.1 mem).resolve_left fun mem => ?_
    cases (Option.mem_toList.1 mem).symm.trans top
    cases begins
  | crash => exact tabled.same rfl rfl rfl (fun _ mem _ => mem) fun enters => enters
  | exec _ top run => exact tabled.exec kept arranged top run
  | unwind _ top run => exact tabled.unwound top run
  | take _ free at_i =>
    have threads := threads_take free at_i
    exact tabled.same rfl rfl rfl (fun _ mem _ => threads.mem_iff.2 mem) fun enters t mem =>
      enters t (threads.mem_iff.1 mem)
  | env _ run => exact tabled.env (spawn_arrival run)

end

/-- A session is in a table only as long as its `handle_connection` has not returned: once its loop has
ended it is connected only until its thread has run the close handler, and its last activity is
recorded from its entry to the end. -/
structure LiveEntries (c : ServerConfig) : Prop where
  connected : ∀ s client, c.world.connections.lookup s = some client →
    ∃ phase, c.world.sessions.lookup s = some (client, phase) ∧ phase ≠ .closed ∧
      (phase = .closing → ⟨.conn s, [.handleClientDisconnect s, .endOp s], none⟩ ∈ c.threads)
  recorded : ∀ s, (c.world.lastActivity.lookup s).isSome = true ↔
    ∃ client phase, c.world.sessions.lookup s = some (client, phase) ∧ phase ≠ .closed ∧ NoneEnters s c

section
variable {M : MsgpackC} {J : JsonText} {c : ServerConfig}

theorem Tabled.entries (tabled : ∀ s, Tabled s c) (named : c.world.Named) : LiveEntries c := by
  refine ⟨fun s client found => ?_, fun s => ?_⟩
  · cases tabled s with
    | unknown _ out | entering _ _ out | left _ _ out | finished _ out => cases out.symm.trans found
    | @reading client' phase here goes entered own =>
      obtain rfl := own client found
      refine ⟨phase, here, ?_, ?_⟩
      · rcases goes with rfl | rfl <;> exact nofun
      · rcases goes with rfl | rfl <;> exact nofun
    | @leaving client' closing thread entered own =>
      obtain rfl := own client found
      exact ⟨.closing, closing, nofun, fun _ => thread⟩
  · constructor
    · intro recorded
      cases tabled s with
      | unknown _ _ unrecorded | entering _ _ _ unrecorded | finished _ _ unrecorded =>
        cases unrecorded.symm.trans recorded
      | @reading client phase here goes entered =>
        refine ⟨client, phase, here, ?_, entered⟩
        rcases goes with rfl | rfl <;> exact nofun
      | leaving closing _ entered | left closing entered => exact ⟨_, .closing, closing, nofun, entered⟩
    · rintro ⟨client, phase, found, lasts, entered⟩
      cases tabled s with
      | reading _ _ _ _ recorded | leaving _ _ _ _ recorded | left _ _ _ recorded => exact recorded
      | unknown free => cases free.symm.trans found
      | finished finished =>
        cases finished.symm.trans found
        exact absurd rfl lasts
      | @entering client' busy thread =>
        exact absurd (named _ _ _ busy) (entered _ thread client' List.mem_cons_self)

theorem entries_live {ok : ServerConfig → Label Answer EnvEvent → Prop}
    {ls : List (Label Answer EnvEvent)} (run : Run (server M J) ok ServerConfig.initial ls c) :
    LiveEntries c := by
  have kept := run.strengthen _ Kept.initial fun kept _ h => kept.step h
  have arranged := kept.strengthen _ Arranged.initial fun arranged _ h => arranged.step h
  have tabled : ∀ s, Tabled s c := by
    intro s
    have unknown : Tabled s ServerConfig.initial := .unknown rfl rfl rfl
    exact arranged.invariant _ unknown fun tabled known h => tabled.step known.1.2 known.2 h
  exact Tabled.entries tabled (Arranged.run run).1

end

/-- The loop of a connection has ended, and its thread is going to run the close handler. -/
theorem entries_live_closing : ∃ ls c, Run (server shortest Text.reference) (fun _ _ => True)
    ServerConfig.initial ls c ∧ c.world.connections.lookup (lit "s") = some alice ∧
    (c.world.lastActivity.lookup (lit "s")).isSome = true ∧ LiveEntries c := by
  have found : (execute (server shortest Text.reference) (fun _ _ => true) ServerConfig.initial
      (connects alice ++ [.env (.hangup (lit "s"))])).any (fun c =>
        decide (c.world.connections.lookup (lit "s") = some alice) &&
          (c.world.lastActivity.lookup (lit "s")).isSome) = true := by
    decide +kernel
  obtain ⟨c, run, listed⟩ := exists_run _ found
  have run' : Run _ (fun _ _ => True) _ _ c := run.weaken _ fun _ => trivial
  obtain ⟨connected, recorded⟩ := Bool.and_eq_true_iff.1 listed
  exact ⟨_, c, run', of_decide_eq_true connected, recorded, entries_live run'⟩

end Blueboat
