import Mathlib.Data.List.Chain
import Blueboat.Bookkeeping

set_option autoImplicit false

/-! Which command may stand above which on a stack: what waits for a hook is under that hook until
it returns, and the end of an operation is under everything else. -/
namespace Blueboat

open Protocol LockMachine Ledger

/-- The command is run once the hook has returned. -/
inductive Awaits : Cmd → RoomRef → Hook → Prop where
  | creation {r : RoomRef} {client : SimpleClient} {creator : Creator} {options : Json} :
    Awaits (.created r client creator) r (.onCreate options)
  | admission {r : RoomRef} {client : SimpleClient} {options : Json} :
    Awaits (.addClient r client options) r (.canClientJoin client options)

def Cmd.waits : Cmd → Bool
  | .created .. => true
  | .addClient .. => true
  | _ => false

/-- The calls of `on_message`; a listener makes them at once. -/
def Cmd.urgent : Cmd → Bool
  | .callHook _ (.onMessage ..) => true
  | _ => false

def Cmd.attends : Cmd → Option Str
  | .openConnection client => some client.sessionId
  | .dispatch client _ _ => some client.sessionId
  | .handleClientMessage client _ _ => some client.sessionId
  | .handleClientDisconnect sessionId => some sessionId
  | _ => none

def Cmd.ends : Cmd → Bool
  | .endOp _ => true
  | _ => false

structure Follows (above below : Cmd) : Prop where
  hook : below.waits = true →
    ∃ r hook, Awaits below r hook ∧ (above = .callHook r hook ∨ above = .inHook r hook)
  urgent : below.urgent = false
  attends : ∀ {sessionId}, above.attends = some sessionId → below = .endOp sessionId
  ends : above.ends = false

theorem Follows.plain {above below : Cmd} (waits : below.waits = false := by rfl)
    (urgent : below.urgent = false := by rfl) (attends : above.attends = none := by rfl)
    (ends : above.ends = false := by rfl) : Follows above below :=
  ⟨fun h => (Bool.false_ne_true (waits.symm.trans h)).elim, urgent,
    fun h => (by rw [attends] at h; cases h), ends⟩

structure Lined (cmd : Cmd) (push : List Cmd) : Prop where
  order : push.IsChain Follows
  head : ∀ c ∈ push.head?, c.waits = false
  each : ∀ c ∈ push, c.ends = false ∧ (c.attends = none ∨ c.attends = cmd.attends)
  hook : ∀ {r hook}, cmd = .callHook r hook ∨ cmd = .inHook r hook →
    push = [] ∨ push.getLast? = some (.inHook r hook)

theorem Lined.nil {cmd : Cmd} : Lined cmd [] := ⟨.nil, nofun, nofun, fun _ => .inl rfl⟩

def Cmd.offHook : Cmd → Bool
  | .callHook .. => false
  | .inHook .. => false
  | _ => true

theorem Lined.one {cmd c : Cmd} (off : cmd.offHook = true := by rfl)
    (head : c.waits = false := by rfl) (ends : c.ends = false := by rfl)
    (attends : c.attends = none ∨ c.attends = cmd.attends := by exact .inl rfl) : Lined cmd [c] := by
  refine ⟨.singleton c, ?_, List.forall_mem_singleton.2 ⟨ends, attends⟩, ?_⟩
  · rintro _ ⟨⟩
    exact head
  · rintro r hook (rfl | rfl) <;> cases off

theorem Lined.stay {r : RoomRef} {hook : Hook} {cmd : Cmd}
    (calls : cmd = .callHook r hook ∨ cmd = .inHook r hook) : Lined cmd [.inHook r hook] := by
  refine ⟨.singleton _, ?_, List.forall_mem_singleton.2 ⟨rfl, .inl rfl⟩, ?_⟩
  · rintro _ ⟨⟩
    rfl
  · rintro r' hook' (rfl | rfl) <;> rcases calls with e | e <;> cases e <;> exact .inr rfl

theorem Lined.cons {cmd c d : Cmd} {push : List Cmd} (below : Lined cmd (d :: push))
    (order : Follows c d := by exact Follows.plain) (head : c.waits = false := by rfl)
    (attends : c.attends = none := by rfl) : Lined cmd (c :: d :: push) := by
  refine ⟨.cons_cons order below.order, ?_, List.forall_mem_cons.2 ⟨⟨order.ends, .inl attends⟩,
    below.each⟩, fun calls => ?_⟩
  · rintro _ ⟨⟩
    exact head
  · rw [List.getLast?_cons_cons]
    exact .inr ((below.hook calls).resolve_left nofun)

/-- A hook is called with what waits for it under the call. -/
theorem Lined.call {cmd c : Cmd} {r : RoomRef} {hook : Hook} {left : List Cmd}
    (awaits : Awaits c r hook) (below : Lined cmd left) (off : cmd.offHook = true := by rfl)
    (urgent : ∀ d ∈ left.head?, d.urgent = false := by rintro _ ⟨⟩ <;> rfl) :
    Lined cmd (.callHook r hook :: c :: left) := by
  have waits : Follows (.callHook r hook) c :=
    ⟨fun _ => ⟨r, hook, awaits, .inl rfl⟩, by cases awaits <;> rfl, nofun, rfl⟩
  have quiet : c.attends = none ∧ c.ends = false := by cases awaits <;> exact ⟨rfl, rfl⟩
  refine ⟨.cons_cons waits (.cons below.order fun d hd => ?_), ?_, ?_, ?_⟩
  · exact .plain (below.head d hd) (urgent d hd) quiet.1 quiet.2
  · rintro _ ⟨⟩
    rfl
  · exact List.forall_mem_cons.2 ⟨⟨rfl, .inl rfl⟩,
      List.forall_mem_cons.2 ⟨⟨quiet.2, .inl quiet.1⟩, below.each⟩⟩
  · rintro r' hook' (rfl | rfl) <;> cases off

theorem Lined.removal {cmd c : Cmd} {r : RoomRef} {push : List Cmd} {intentional : Bool}
    {member : Option SimpleClient} (below : Lined cmd [c])
    (order : Follows (.disposeIfEmpty r) c := by exact Follows.plain)
    (leaves : (member = none ∧ push = []) ∨ ∃ client listeners, member = some client ∧
      push = leaveOf r client intentional listeners) : Lined cmd (push ++ [c]) := by
  rcases leaves with ⟨-, rfl⟩ | ⟨client, listeners, -, rfl⟩
  · exact below
  · exact .cons (.cons (.cons below order))

theorem Lined.disposal {cmd : Cmd} {r : RoomRef} {push left : List Cmd} {running : Bool}
    {members : List Str} (below : Lined cmd (.disposeLoop r members :: left)) (rest : Lined cmd left)
    (starts : push = if running then [] else [.disposeLoop r members]) :
    Lined cmd (push ++ left) := by
  subst starts
  cases running with
  | true => exact rest
  | false => exact below

theorem Lined.stack {cmd : Cmd} {push rest : List Cmd} (lined : Lined cmd push)
    (order : (cmd :: rest).IsChain Follows) : (push ++ rest).IsChain Follows := by
  obtain ⟨top, order⟩ := List.isChain_cons.1 order
  refine lined.order.append order fun d last b head => ?_
  have follows := top b head
  obtain ⟨ends, attends⟩ := lined.each d (List.mem_of_getLast? last)
  refine ⟨fun waits => ?_, follows.urgent, fun {s} attended => ?_, ends⟩
  · obtain ⟨r, hook, awaits, calls⟩ := follows.hook waits
    have inside : push.getLast? = some (.inHook r hook) :=
      (lined.hook calls).resolve_left fun empty => by rw [empty] at last; cases last
    exact ⟨r, hook, awaits, .inr (Option.some.inj (last.symm.trans inside))⟩
  · rcases attends with none | same
    · rw [none] at attended; cases attended
    · exact follows.attends (same.symm.trans attended)

section
variable {M : MsgpackC} {J : JsonText} {w : World} {cmd : Cmd} {a : Answer} {o : Out}

/-- A hook goes on until it returns or throws. -/
theorem inHook_returns {r : RoomRef} {hook : Hook}
    (h : exec M J w (.inHook r hook) a = some o) : (a = .ret ∧ o = .go w []) ∨
      (∃ x, o = .raise w x []) ∨ (Lined (.inHook r hook) o.push ∧ o.push ≠ []) := by
  have stays : Lined (.inHook r hook) [.inHook r hook] := .stay (.inr rfl)
  have kept : o.push = [.inHook r hook] → Lined (.inHook r hook) o.push ∧ o.push ≠ [] :=
    fun push => by rw [push]; exact ⟨stays, List.cons_ne_nil _ _⟩
  cases a with
  | ret => obtain rfl := Option.some.inj h; exact .inl ⟨rfl, rfl⟩
  | throw x => obtain rfl := Option.some.inj h; exact .inr (.inl ⟨x, rfl⟩)
  | dispose r' =>
    simp only [exec, inHook] at h
    split at h
    · obtain rfl := Option.some.inj h
      refine .inr (.inr ⟨.disposal (.cons stays) stays (dispose_cases w r' .hook).2, ?_⟩)
      exact List.append_ne_nil_of_right_ne_nil _ (List.cons_ne_nil _ _)
    · cases h
  | removeFromRoom sessionId =>
    obtain rfl := Option.some.inj h
    obtain ⟨-, leaves⟩ := removeClient_cases w r sessionId true
    exact .inr (.inr ⟨.removal stays .plain leaves, List.append_ne_nil_of_right_ne_nil _ (List.cons_ne_nil _ _)⟩)
  | allowReconnection clientId seconds =>
    simp only [exec, inHook] at h
    split at h
    · obtain rfl := Option.some.inj h; exact .inr (.inr (kept rfl))
    · obtain rfl := Option.some.inj h; exact .inr (.inr ⟨.cons stays, List.cons_ne_nil _ _⟩)
  | setMetadata metadata =>
    simp only [exec, inHook] at h
    split at h <;> (obtain rfl := Option.some.inj h; exact .inr (.inr (kept rfl)))
  | setGameValues values =>
    simp only [exec, inHook] at h
    split at h <;> (obtain rfl := Option.some.inj h; exact .inr (.inr (kept rfl)))
  | send | setState | addJoinListener | addLeaveListener =>
    obtain rfl := Option.some.inj h; exact .inr (.inr (kept rfl))
  | _ => cases h

theorem lined_handleClientMessage {client : SimpleClient} {event : Str} {data : Json}
    (h : exec M J w (.handleClientMessage client event data) a = some o) :
    Lined (.handleClientMessage client event data) o.push := by
  obtain rfl := Option.some.inj h
  unfold handleClientMessage
  generalize (if data.isObject = true then data else Json.obj []) = fields
  dsimp only
  split
  · split
    · exact .nil
    · exact .nil
    · split
      · exact .nil
      · split
        · exact .cons .one
        · exact .cons .one
  · split
    · split
      · exact .nil
      · split
        · exact .nil
        · exact .cons .one
    · split
      · split
        · exact .nil
        · split
          · exact .nil
          · split
            · exact .nil
            · split
              · exact .nil
              · exact .one
      · exact .nil

theorem lined_deliver {payload : Json} {handlers : List Handler}
    (h : exec M J w (.deliver payload handlers) a = some o) :
    Lined (.deliver payload handlers) o.push := by
  cases handlers with
  | nil => obtain rfl := Option.some.inj h; exact .nil
  | cons handler handlers =>
    obtain rfl := Option.some.inj h
    have below : Lined (.deliver payload (handler :: handlers)) [.deliver payload handlers] := .one
    cases handler with
    | infoRequest n => exact below
    | playerLeft r =>
      unfold handle
      dsimp only
      split
      · exact .nil
      · exact .removal below .plain (removeClient_cases ..).2
    | gameMessage r =>
      unfold handle
      dsimp only
      cases roomMessage payload with
      | error x => exact .nil
      | ok message =>
        cases message with
        | ignored => exact below
        | requestInfo => exact .cons below
        | external key data => exact .cons below
        | join client options =>
          exact .call .admission (.cons below)
        | message client =>
          dsimp only
          split
          · exact below
          · split
            · exact .nil
            · exact .cons below

theorem exec_lined (h : exec M J w cmd a = some o) : Lined cmd o.push := by
  cases cmd with
  | handleClientMessage => exact lined_handleClientMessage h
  | deliver => exact lined_deliver h
  | inHook r hook =>
    rcases inHook_returns h with ⟨-, rfl⟩ | ⟨x, rfl⟩ | ⟨lined, -⟩
    · exact .nil
    · exact .nil
    · exact lined
  | callHook r hook => obtain rfl := Option.some.inj h; exact .stay (.inl rfl)
  | recordActivity | registerRoom =>
    simp only [exec] at h
    split at h <;> (obtain rfl := Option.some.inj h; exact .nil)
  | dispatch client isBinary payload =>
    obtain rfl := Option.some.inj h
    unfold dispatch
    split
    · exact .nil
    · split
      · split <;> exact .nil
      · exact .one rfl rfl rfl (.inr rfl)
      · exact .one rfl rfl rfl (.inr rfl)
      · exact .nil
  | handleClientDisconnect sessionId => obtain rfl := Option.some.inj h; exact .cons .one
  | createNewRoom client name options override creator =>
    cases a with
    | create id₁ id₂ id₃ factory =>
      obtain rfl := Option.some.inj h
      unfold createNewRoom
      split
      · exact .nil
      · dsimp only
        split
        · exact .nil
        · split
          · exact .nil
          · exact .call .creation .nil
    | _ => cases h
  | created r client creator =>
    obtain rfl := Option.some.inj h
    unfold created
    dsimp only
    split <;> exact .nil
  | joinRoom client roomId data =>
    obtain rfl := Option.some.inj h
    unfold joinRoom
    split
    · exact .nil
    · split
      · exact .nil
      · exact .one
  | subscribeInfo roomId => obtain rfl := Option.some.inj h; exact .cons (.cons .one)
  | shutdown =>
    cases a with
    | order ids =>
      simp only [exec] at h
      split at h
      · obtain rfl := Option.some.inj h; exact .one
      · cases h
    | _ => cases h
  | disposeByIds ids =>
    cases ids with
    | nil => obtain rfl := Option.some.inj h; exact .nil
    | cons id ids =>
      simp only [exec] at h
      split at h
      · obtain rfl := Option.some.inj h; exact .one
      · obtain rfl := Option.some.inj h; exact .disposal (.cons .one) .one (dispose_cases ..).2
  | timerBody task =>
    obtain rfl := Option.some.inj h
    unfold timerBody
    dsimp only
    split
    · exact .disposal .one .nil (dispose_cases ..).2
    · exact .nil
  | addClient => obtain rfl := Option.some.inj h; exact .cons .one
  | callJoinListeners r client left =>
    cases left with
    | nil => obtain rfl := Option.some.inj h; exact .nil
    | cons listener left =>
      obtain rfl := Option.some.inj h
      unfold joinListener
      dsimp only
      split
      · split
        · exact .one
        · exact .cons .one
      · exact .one
  | callLeaveListeners r client intentional left =>
    cases left with
    | nil => obtain rfl := Option.some.inj h; exact .nil
    | cons listener left => obtain rfl := Option.some.inj h; exact .cons .one
  | disposeIfEmpty r =>
    simp only [exec] at h
    split at h
    · obtain rfl := Option.some.inj h; exact .disposal .one .nil (dispose_cases ..).2
    · obtain rfl := Option.some.inj h; exact .nil
  | disposeLoop r left =>
    cases left with
    | nil => obtain rfl := Option.some.inj h; exact .cons .one
    | cons sessionId left =>
      obtain rfl := Option.some.inj h
      exact .removal .one .plain (removeClient_cases ..).2
  | finishDispose => obtain rfl := Option.some.inj h; exact .cons .one
  | publish => obtain rfl := Option.some.inj h; exact .one
  | _ => obtain rfl := Option.some.inj h; exact .nil

theorem handle_goes {payload : Json} {left : List Cmd} (handler : Handler) :
    (handle w payload left handler).parks = false := by
  cases handler with
  | infoRequest => rfl
  | playerLeft r =>
    unfold handle
    dsimp only
    split <;> rfl
  | gameMessage r =>
    unfold handle
    dsimp only
    split
    · rfl
    · rfl
    · rfl
    · rfl
    · rfl
    · split
      · rfl
      · split <;> rfl

/-- The lock is released by a command that is no part of a hook, or for a reconnection. -/
theorem exec_parks (h : exec M J w cmd a = some o) (parks : o.parks = true) :
    (o.push = [] ∧ cmd.offHook = true) ∨ ∃ v c, o.push = [.futureGet v, c] := by
  cases cmd with
  | inHook r hook =>
    cases exec_effect M J h with
    | granted => exact .inr ⟨_, _, rfl⟩
    | still _ _ _ _ family => cases family parks
    | _ => cases parks
  | recordActivity | waitInfo =>
    left
    simp only [exec] at h
    try split at h
    all_goals obtain rfl := Option.some.inj h; exact ⟨rfl, rfl⟩
  | deliver payload handlers =>
    cases handlers with
    | nil => cases h; cases parks
    | cons handler handlers =>
      cases h
      rw [handle_goes] at parks
      cases parks
  | createNewRoom | shutdown =>
    exfalso
    cases a <;> simp only [exec, createNewRoom, reduceCtorEq] at h
    (repeat' split at h) <;> cases h <;> cases parks
  | callJoinListeners r client left | callLeaveListeners r client intentional left
  | disposeLoop r left | disposeByIds left =>
    exfalso
    cases left <;> simp only [exec, joinListener, goAfter] at h
    all_goals (repeat' split at h) <;> cases h <;> cases parks
  | _ =>
    exfalso
    simp only [exec, dispatch, handleClientMessage, joinRoom, created, timerBody, goAfter] at h
    (repeat' split at h) <;> cases h <;> cases parks

theorem Unwound.lined {x : Exn} (h : Unwound w cmd x a o) : Lined cmd o.push := by
  cases h with
  | passed => exact .nil
  | caught => exact .nil
  | handled => exact .stay (.inr rfl)
  | rolledBack _ starts => exact .disposal (.cons .one) .one starts

end

/-- The stack is in order, and only the threads of a session attend to it. -/
structure Proper (t : Thread Tid Cmd Exn) : Prop where
  order : t.stack.IsChain Follows
  owner : ∀ {cmd sessionId}, cmd ∈ t.stack → cmd.attends = some sessionId ∨ cmd = .endOp sessionId →
    t.tid = .conn sessionId
  home : ∀ {sessionId}, t.tid = .conn sessionId → t.stack ≠ [] → .endOp sessionId ∈ t.stack

/-- A thread that does not have the lock is not about to run what waits for a hook. -/
def ProperParked (t : Thread Tid Cmd Exn) : Prop :=
  Proper t ∧ ∀ cmd ∈ t.stack.head?, cmd.waits = false ∧ cmd.urgent = false

def ProperRunning (running : Option (Thread Tid Cmd Exn)) : Prop := ∀ t, running = some t → Proper t

theorem Follows.nothing {cmd : Cmd} {rest : List Cmd} (order : (cmd :: rest).IsChain Follows)
    (ends : cmd.ends = true) : rest = [] := by
  cases rest with
  | nil => rfl
  | cons below rest =>
    have follows := order.rel_head? rfl
    exact absurd (follows.ends.symm.trans ends) Bool.false_ne_true

theorem Proper.step {tid : Tid} {cmd : Cmd} {rest push : List Cmd} {e e' : Option Exn}
    (proper : Proper ⟨tid, cmd :: rest, e⟩) (lined : Lined cmd push)
    (ends : cmd.ends = true → push = []) : Proper ⟨tid, push ++ rest, e'⟩ := by
  refine ⟨lined.stack proper.order, fun {c s} mem own => ?_, fun {s} here left => ?_⟩
  · rcases List.mem_append.1 mem with mem | mem
    · obtain ⟨open', attends⟩ := lined.each c mem
      have attended : c.attends = some s :=
        own.resolve_right fun e => by rw [e] at open'; cases open'
      rcases attends with none | same
      · rw [none] at attended; cases attended
      · exact proper.owner List.mem_cons_self (.inl (same.symm.trans attended))
    · exact proper.owner (List.mem_cons_of_mem _ mem) own
  · rcases List.mem_cons.1 (proper.home here (List.cons_ne_nil _ _)) with rfl | mem
    · exact absurd (by rw [ends rfl, Follows.nothing proper.order rfl]; rfl) left
    · exact List.mem_append_right _ mem

/-- What a hook call stands on is uncovered only when the hook is left. -/
theorem Proper.uncovered {tid : Tid} {cmd : Cmd} {rest : List Cmd} {e : Option Exn}
    (proper : Proper ⟨tid, cmd :: rest, e⟩) (off : cmd.offHook = true) :
    ∀ c ∈ rest.head?, c.waits = false ∧ c.urgent = false := by
  intro c head
  have follows := proper.order.rel_head? head
  refine ⟨?_, follows.urgent⟩
  by_contra waits
  obtain ⟨r, hook, -, rfl | rfl⟩ := follows.hook (by simpa using waits) <;> cases off

def Stores.Named (k : Stores) : Prop :=
  ∀ sessionId client phase, k.sessions.lookup sessionId = some (client, phase) →
    client.sessionId = sessionId

theorem Named.insert {k : Stores} (named : k.Named) {sessionId : Str} {client : SimpleClient}
    {phase : Phase} (own : client.sessionId = sessionId) :
    Stores.Named { k with sessions := k.sessions.insert sessionId (client, phase) } := by
  intro s client' phase' found
  by_cases e : s = sessionId
  · subst e
    have found' := (AList.lookup_insert _).symm.trans found
    cases found'
    exact own
  · exact named _ _ _ ((AList.lookup_insert_ne e).symm.trans found)

theorem Named.endOp {k : Ledger} (named : k.Named) (sessionId : Str) : (k.endOp sessionId).Named := by
  unfold Ledger.endOp
  split
  · rename_i found; exact Named.insert named (named _ _ _ found)
  · rename_i found; exact Named.insert named (named _ _ _ found)
  · exact named

section
variable {M : MsgpackC} {J : JsonText} {w : World} {cmd : Cmd} {a : Answer} {o : Out}

theorem Effect.named (h : Effect J w cmd a o) (named : w.Named) : o.world.Named := by
  rcases h.counters.2 with same | ⟨sessionId, -, ledger⟩
  · intro s client phase found
    rw [same] at found
    exact named _ _ _ found
  · have stores : o.world.toStores = (w.ledger.endOp sessionId).toStores :=
      congrArg Ledger.toStores ledger
    rw [stores]
    exact Named.endOp named sessionId

theorem Unwound.stores {x : Exn} (h : Unwound w cmd x a o) : o.world.toStores = w.toStores := by
  cases h with
  | passed | handled => rfl
  | caught _ same => exact congrArg Ledger.toStores same
  | @rolledBack r _ _ _ _ w' push ledger =>
    exact (congrArg Ledger.toStores ledger).trans (dispose_stores _ _ _)

end

theorem Arrival.proper {w w' : World} {e : EnvEvent} {new : List (Tid × List Cmd)}
    (h : Arrival w e w' new) (named : w.Named) :
    w'.Named ∧ ∀ p ∈ new, ProperParked (Thread.start p) := by
  have opened : ∀ {s : Str} {cmd : Cmd}, cmd.attends = some s → cmd.ends = false →
      cmd.waits = false → cmd.urgent = false →
      ProperParked (Thread.start (.conn s, [cmd, .endOp s])) := by
    intro s cmd attends ends waits urgent
    have follows : Follows cmd (.endOp s) := ⟨nofun, rfl, fun h => by cases attends.symm.trans h; rfl, ends⟩
    refine ⟨⟨.cons_cons follows (.singleton _), ?_, ?_⟩, by rintro _ ⟨⟩; exact ⟨waits, urgent⟩⟩
    · intro c s' mem own
      rcases List.mem_cons.1 mem with rfl | mem
      · rcases own with own | rfl
        · cases attends.symm.trans own; rfl
        · cases ends
      · obtain rfl := List.mem_singleton.1 mem
        rcases own with own | own <;> cases own
        rfl
    · rintro s' ⟨⟩ -
      exact List.mem_cons_of_mem _ List.mem_cons_self
  have plain : ∀ {tid : Tid} {stack : List Cmd}, (∀ s, tid ≠ .conn s) → stack.IsChain Follows →
      (∀ cmd ∈ stack, cmd.attends = none ∧ cmd.ends = false) →
      (∀ cmd ∈ stack.head?, cmd.waits = false ∧ cmd.urgent = false) →
      ProperParked (Thread.start (tid, stack)) := by
    intro tid stack away order each head
    refine ⟨⟨order, fun {c s} mem own => ?_, fun {s} here => absurd here (away s)⟩, head⟩
    obtain ⟨attends, ends⟩ := each c mem
    rcases own with own | rfl
    · rw [attends] at own; cases own
    · cases ends
  cases h with
  | tick | dropped => exact ⟨named, nofun⟩
  | @connect client fresh =>
    exact ⟨Named.insert named rfl, List.forall_mem_singleton.2 (opened rfl rfl rfl rfl)⟩
  | @receive s payload isBinary client idle =>
    have own := named _ _ _ idle
    refine ⟨Named.insert named own, List.forall_mem_singleton.2 ?_⟩
    subst own
    obtain ⟨⟨order, owner, home⟩, -⟩ : ProperParked (Thread.start (.conn client.sessionId,
        [.dispatch client isBinary payload, .endOp client.sessionId])) := opened rfl rfl rfl rfl
    refine ⟨⟨.cons_cons .plain order, fun {c s} mem own => ?_, fun here some => ?_⟩,
      by rintro _ ⟨⟩; exact ⟨rfl, rfl⟩⟩
    · rcases List.mem_cons.1 mem with rfl | mem
      · rcases own with own | own <;> cases own
      · exact owner mem own
    · exact List.mem_cons_of_mem _ (home here (List.cons_ne_nil _ _))
  | @hangup s client idle =>
    exact ⟨Named.insert named (named _ _ _ idle), List.forall_mem_singleton.2 (opened rfl rfl rfl rfl)⟩
  | fired =>
    refine ⟨named, List.forall_mem_singleton.2 (plain nofun (.cons_cons .plain (.singleton _)) ?_ ?_)⟩
    · simp [Cmd.attends, Cmd.ends]
    · rintro _ ⟨⟩; exact ⟨rfl, rfl⟩
  | createRoom | externalMessage =>
    refine ⟨named, List.forall_mem_singleton.2 (plain nofun (.cons_cons .plain (.singleton _)) ?_ ?_)⟩
    · simp [Cmd.attends, Cmd.ends]
    · rintro _ ⟨⟩; exact ⟨rfl, rfl⟩
  | _ =>
    refine ⟨named, List.forall_mem_singleton.2 (plain nofun (.singleton _) ?_ ?_)⟩
    · simp [Cmd.attends, Cmd.ends]
    · rintro _ ⟨⟩; exact ⟨rfl, rfl⟩

theorem proper_preserved (M : MsgpackC) (J : JsonText) : Preserved (server M J) (fun w => w.Named)
    (fun _ => ProperRunning) (fun _ => ProperParked) fun _ _ => True where
  exec := fun {c tid cmd rest a o} inv _ top run => by
    obtain ⟨named, running, parked⟩ := inv
    have proper := running _ top
    have ends : cmd.ends = true → o.push = [] := by
      cases cmd with
      | endOp => intro _; obtain rfl := Option.some.inj run; rfl
      | _ => exact nofun
    have next : ∀ e', Proper ⟨tid, o.push ++ rest, e'⟩ := fun _ => proper.step (exec_lined run) ends
    refine .intro ((exec_effect M J run).named named) (fun _ => ?_)
      (fun parks => ⟨nofun, next none, ?_⟩) parked
    · rintro _ ⟨⟩
      exact next _
    · rcases exec_parks run parks with ⟨push, off⟩ | ⟨v, c, push⟩
      · rw [push]; exact proper.uncovered off
      · rw [push]; rintro _ ⟨⟩; exact ⟨rfl, rfl⟩
  unwind := fun {c tid cmd rest x a o} inv _ top run => by
    obtain ⟨named, running, parked⟩ := inv
    have effect := unwind_effect run
    have ends : cmd.ends = true → o.push = [] := by
      cases cmd with
      | endOp => intro _; obtain rfl := Option.some.inj run; rfl
      | _ => exact nofun
    have goes : o.parks = false := by cases effect <;> rfl
    refine .intro (by rw [effect.stores]; exact named) (fun _ => ?_) (fun parks => ?_) parked
    · rintro _ ⟨⟩
      exact (running _ top).step effect.lined ends
    · rw [goes] at parks; cases parks
  finish := fun _ _ => nofun
  take := fun inv _ mem _ => by
    rintro _ ⟨⟩
    exact (inv.2.2 _ mem).1
  env := fun {c e w new} inv _ run =>
    have arrived := (spawn_arrival run).proper inv.1
    ⟨arrived.1, inv.2.1, inv.2.2, arrived.2⟩

def Arranged (c : ServerConfig) : Prop :=
  Holds (fun w => w.Named) (fun _ => ProperRunning) (fun _ => ProperParked) c

section
variable {M : MsgpackC} {J : JsonText} {c c' : ServerConfig} {l : Label Answer EnvEvent}

theorem Arranged.step (arranged : Arranged c) (h : Step (server M J) c l c') : Arranged c' :=
  (proper_preserved M J).step _ arranged trivial h

theorem Arranged.initial : Arranged ServerConfig.initial := ⟨nofun, nofun, nofun⟩

theorem Arranged.run {ok : ServerConfig → Label Answer EnvEvent → Prop}
    {ls : List (Label Answer EnvEvent)} (run : Run (server M J) ok ServerConfig.initial ls c) :
    Arranged c := run.invariant _ .initial fun arranged _ h => arranged.step h

theorem Arranged.proper (arranged : Arranged c) {t : Thread Tid Cmd Exn}
    (top : c.running = some t) : Proper t := arranged.2.1 t top

theorem Arranged.thread (arranged : Arranged c) {t : Thread Tid Cmd Exn} (mem : t ∈ c.threads) :
    Proper t := by
  rcases List.mem_append.1 mem with top | mem
  · exact arranged.proper (Option.mem_toList.1 top)
  · exact (arranged.2.2 t mem).1

/-- A session whose thread has work left is engaged. -/
theorem Arranged.engaged (arranged : Arranged c) (kept : Kept c) {t : Thread Tid Cmd Exn}
    (mem : t ∈ c.threads) {sessionId : Str} (here : t.tid = .conn sessionId) (left : t.stack ≠ []) :
    c.world.Engaged sessionId := by
  have held : Key.op sessionId ∈ c.tokens Cmd.key := List.mem_flatMap.2 ⟨t, mem,
    List.mem_filterMap.2 ⟨_, (arranged.thread mem).home here left, rfl⟩⟩
  exact kept.unshared.2 _ held

/-- A session has one thread. -/
theorem Arranged.single (arranged : Arranged c) (kept : Kept c) {tid : Tid} {stack : List Cmd}
    {x : Option Exn} {sessionId : Str} (top : c.running = some ⟨tid, stack, x⟩)
    (here : tid = .conn sessionId) (left : stack ≠ []) {t : Thread Tid Cmd Exn}
    (mem : t ∈ c.parked) (here' : t.tid = .conn sessionId) : t.stack = [] := by
  by_contra left'
  have held : ∀ {t' : Thread Tid Cmd Exn}, Proper t' → t'.tid = .conn sessionId → t'.stack ≠ [] →
      Key.op sessionId ∈ t'.tokens Cmd.key := fun proper here left =>
    List.mem_filterMap.2 ⟨_, proper.home here left, rfl⟩
  have nodup := kept.unshared.1
  rw [Config.tokens, top, Option.toList_some, List.singleton_append, List.flatMap_cons] at nodup
  exact (List.nodup_append.1 nodup).2.2 _ (held (arranged.proper top) here left) _
    (List.mem_flatMap.2 ⟨t, mem, held (arranged.2.2 t mem).1 here' left'⟩) rfl

/-- The thread that is about to attend to a session has nothing else to do, and is the session's only
one. -/
theorem Arranged.alone (arranged : Arranged c) (kept : Kept c) {tid : Tid} {cmd : Cmd}
    {rest : List Cmd} {x : Option Exn} {sessionId : Str} (top : c.running = some ⟨tid, cmd :: rest, x⟩)
    (attends : cmd.attends = some sessionId) : tid = .conn sessionId ∧ rest = [.endOp sessionId] ∧
      ∀ t ∈ c.parked, t.tid = .conn sessionId → t.stack = [] := by
  have proper := arranged.proper top
  obtain rfl : tid = .conn sessionId := proper.owner List.mem_cons_self (.inl attends)
  have ending : .endOp sessionId ∈ rest :=
    (List.mem_cons.1 (proper.home rfl (List.cons_ne_nil _ _))).resolve_left
      (by rintro rfl; cases attends)
  refine ⟨rfl, ?_, fun t mem here => arranged.single kept top rfl (List.cons_ne_nil _ _) mem here⟩
  cases rest with
  | nil => cases ending
  | cons below rest =>
    obtain rfl := (proper.order.rel_head? rfl).attends attends
    rw [Follows.nothing proper.order.tail rfl]

/-- What waits for a hook is run because the hook has returned. -/
theorem Arranged.returned (arranged : Arranged c) (h : Step (server M J) c l c') {tid : Tid}
    {cmd : Cmd} {rest : List Cmd} (top : c'.running = some ⟨tid, cmd :: rest, none⟩)
    (waits : cmd.waits = true) : (c.running = c'.running ∧ ∃ e, l = .env e) ∨
      (l = .act .ret ∧ c'.world = c.world ∧ ∃ r hook, Awaits cmd r hook ∧
        c.running = some ⟨tid, .inHook r hook :: cmd :: rest, none⟩) := by
  have covered : ∀ {cmd' : Cmd} {push rest' : List Cmd}, Lined cmd' push →
      push ++ rest' = cmd :: rest → push = [] ∧ rest' = cmd :: rest := by
    intro cmd' push rest' lined same
    cases push with
    | nil => exact ⟨rfl, same⟩
    | cons c push =>
      obtain ⟨rfl, -⟩ := List.cons.inj same
      cases waits.symm.trans (lined.head c rfl)
  cases h with
  | finish => cases top
  | crash _ before => cases before.symm.trans top
  | @exec tid' cmd' rest' a o _ before run =>
    have proper := arranged.proper before
    cases o with
    | raise => exact absurd (congrArg Thread.exn (Option.some.inj top)) nofun
    | park => cases top
    | go w push =>
      have same : push ++ rest' = cmd :: rest := congrArg Thread.stack (Option.some.inj top)
      obtain ⟨rfl, rfl⟩ := covered (exec_lined run) same
      obtain ⟨r, hook, awaits, calls⟩ := (proper.order.rel_head? rfl).hook waits
      rcases calls with rfl | rfl
      · cases run
      · rcases inHook_returns (M := M) run with ⟨rfl, left⟩ | ⟨x, thrown⟩ | ⟨-, some⟩
        · cases left
          cases top
          exact .inr ⟨rfl, rfl, r, hook, awaits, before⟩
        · cases thrown
        · exact absurd rfl some
  | @unwind tid' cmd' rest' x a o _ before run =>
    have proper := arranged.proper before
    have effect := unwind_effect run
    have lined := effect.lined
    cases effect with
    | passed => cases top
    | caught family =>
      obtain rfl : rest' = cmd :: rest := congrArg Thread.stack (Option.some.inj top)
      obtain ⟨r, hook, -, rfl | rfl⟩ := (proper.order.rel_head? rfl).hook waits <;> cases family
    | handled =>
      cases top
      cases waits
    | rolledBack ledger starts =>
      have same := congrArg Thread.stack (Option.some.inj top)
      obtain ⟨empty, -⟩ := covered lined same
      exact absurd empty (List.append_ne_nil_of_right_ne_nil _ nofun)
  | take _ _ at_i =>
    cases top
    have parked := arranged.2.2 _ (List.mem_of_getElem? at_i)
    cases waits.symm.trans (parked.2 cmd rfl).1
  | env => exact .inl ⟨rfl, _, rfl⟩

end

end Blueboat
