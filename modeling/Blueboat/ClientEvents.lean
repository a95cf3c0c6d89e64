import Mathlib.Data.List.Chain
import Blueboat.ClientJoins

set_option autoImplicit false

/-! In which order `on_join` and `on_leave` of a room object are called. -/
namespace Blueboat.Client

open Protocol LockMachine

/-- `on_join` of the object is `true`, `on_leave` is `false`. -/
def Callback.presence (o : Ref) : Callback → Option Bool
  | .join o' => if o' = o then some true else none
  | .leave o' => if o' = o then some false else none
  | _ => none

def World.presence (w : World) (o : Ref) : List Bool := w.called.filterMap (Callback.presence o)

/-- The calls alternate and begin with `on_join`: the object starts out as one that has been left. -/
def Alternates (calls : List Bool) : Prop := (false :: calls).IsChain (· ≠ ·)

/-- `joinedRoom` comes for an object that is not joined, `removedFromRoom` for one that is, and when
the connection is lost every object of `rooms_` is joined as its turn comes. -/
def InTurn (c : ClientConfig) : Cmd → Answer → Prop
  | .handle (.message o) data, _ =>
    ((data.atKey (lit "key")).bind Json.getString = .ok joinedRoom →
      (c.world.objects o).joined = false) ∧
    ((data.atKey (lit "key")).bind Json.getString = .ok removedFromRoom →
      (c.world.objects o).joined = true)
  | .leaveRooms (o :: _), _ => (c.world.objects o).joined = true
  | _, _ => True

inductive Owed where
  | join (o : Ref)
  | leave (o : Ref)
  | reset (o : Ref)

def Cmd.due : Cmd → Option Owed
  | .call (.join o) => some (.join o)
  | .call (.leave o) => some (.leave o)
  | .setLeft o => some (.reset o)
  | _ => none

def Balances (joined last : Ref → Bool) : List Owed → Prop
  | [] => joined = last
  | .join o :: dues => last o = false ∧ Balances joined (Function.update last o true) dues
  | .leave o :: dues => last o = true ∧ Balances joined (Function.update last o false) dues
  | .reset o :: dues => Balances (Function.update joined o false) last dues

def World.joined (w : World) (o : Ref) : Bool := (w.objects o).joined

def World.last (w : World) (o : Ref) : Bool := (w.presence o).getLastD false

def Fenced : List Cmd → Prop
  | [] => True
  | cmd :: rest =>
    ((∃ handler data, cmd = .handle handler data) → rest.filterMap Cmd.due = []) ∧ Fenced rest

structure Tallied (w : World) (t : Thread Tid Cmd Exn) : Prop where
  fenced : Fenced t.stack
  manager : t.exn = none → (∃ cmd ∈ t.stack, cmd.isPhase = true) →
    Balances w.joined w.last (t.stack.filterMap Cmd.due)
  other : (∀ cmd ∈ t.stack, cmd.isPhase = false) → t.exn = none → ∀ cmd ∈ t.stack, cmd.due = none

theorem alternates_concat {calls : List Bool} {b : Bool} (h : Alternates calls)
    (differs : calls.getLastD false ≠ b) : Alternates (calls ++ [b]) := by
  change List.IsChain _ ((false :: calls) ++ [b])
  refine List.isChain_append.2 ⟨h, List.isChain_singleton b, ?_⟩
  intro x hx y hy
  rw [List.getLast?_cons, Option.mem_some_iff] at hx
  rw [List.head?_cons, Option.mem_some_iff] at hy
  rw [← hx, ← hy, ← List.getLastD_eq_getLast?]
  exact differs

/-- What the handler of a room may do. -/
theorem handleMessage_cases {w : World} {o : Ref} {data : Json} {out : Out}
    (h : handleMessage w o data = out) :
    (∃ x, out = .raise w x []) ∨
    (out = .park (w.setJoined o true) [.call (.join o)] ∧
      (data.atKey (lit "key")).bind Json.getString = .ok joinedRoom) ∨
    (out = .park w [.call (.leave o), .setLeft o] ∧
      (data.atKey (lit "key")).bind Json.getString = .ok removedFromRoom) ∨
    ∃ push, out = .park w push ∧ push.filterMap Cmd.due = [] := by
  unfold handleMessage at h
  split at h
  · exact .inr (.inr (.inr ⟨[], h.symm, rfl⟩))
  · split at h
    · exact .inl ⟨_, h.symm⟩
    · rename_i key found
      split at h
      · exact .inl ⟨_, h.symm⟩
      · rename_i body _
        split at h
        · rename_i same; exact .inr (.inl ⟨h.symm, same ▸ found⟩)
        · split at h
          · rename_i same; exact .inr (.inr (.inl ⟨h.symm, same ▸ found⟩))
          · exact .inr (.inr (.inr ⟨_, h.symm, rfl⟩))

inductive Turn (c : ClientConfig) : Cmd → Out → Prop where
  | raises {cmd x} : Turn c cmd (.raise c.world x [])
  | silent {cmd out} (joined : out.world.joined = c.world.joined)
      (called : out.world.called = c.world.called) (due : cmd.due = none)
      (push : out.push.filterMap Cmd.due = []) : Turn c cmd out
  | calls {callback} : Turn c (.call callback)
      (.park { c.world with called := c.world.called ++ [callback] } [.inCallback callback])
  | resets {o} : Turn c (.setLeft o) (.park (c.world.setJoined o false) [])
  | joins {o data} (left : c.world.joined o = false) : Turn c (.handle (.message o) data)
      (.park (c.world.setJoined o true) [.call (.join o)])
  | leaves {o data} (joined : c.world.joined o = true) : Turn c (.handle (.message o) data)
      (.park c.world [.call (.leave o), .setLeft o])
  | loses {o rooms} (joined : c.world.joined o = true) : Turn c (.leaveRooms (o :: rooms))
      (.park (c.world.setJoined o false) [.call (.leave o), .leaveRooms rooms])

theorem turn_of_message {M : MsgpackC} {J : JsonText} {c : ClientConfig} {o : Ref} {data : Json}
    {a : Answer} {out : Out} (inTurn : InTurn c (.handle (.message o) data) a)
    (run : exec M J c.world (.handle (.message o) data) a = some out) :
    Turn c (.handle (.message o) data) out := by
  rcases handleMessage_cases (Option.some.inj run) with
    ⟨x, e⟩ | ⟨e, key⟩ | ⟨e, key⟩ | ⟨push, e, none⟩
  · rw [e]; exact .raises
  · rw [e]; exact .joins (inTurn.1 key)
  · rw [e]; exact .leaves (inTurn.2 key)
  · rw [e]; exact .silent rfl rfl rfl none

theorem called_send (w : World) (event : Str) (data : Json) :
    (w.send event data).called = w.called := by
  obtain ⟨sent, e⟩ := send_eq w event data
  rw [e]

theorem exec_turn {M : MsgpackC} {J : JsonText} {c : ClientConfig} {cmd : Cmd} {a : Answer}
    {out : Out} (sound : Sound c.world) (inTurn : InTurn c cmd a)
    (run : exec M J c.world cmd a = some out) : Turn c cmd out := by
  have effect := exec_effect run
  cases effect with
  | throws => exact .raises
  | stays pushes =>
    cases pushes with
    | ignored | left | message => exact turn_of_message inTurn run
    | _ => exact .silent rfl rfl rfl rfl
  | joinRoom =>
    exact .silent (funext (sound.joinRoom _ _).2.joined) rfl rfl rfl
  | sendJoin =>
    exact .silent (funext (sound.send _ _).2.joined) (called_send ..) rfl rfl
  | sendFrame =>
    exact .silent (funext (sound.send _ _).2.joined) (called_send ..) rfl rfl
  | createRoom =>
    exact .silent (funext (sound.createdRoom _ _ _).2.joined) rfl rfl rfl
  | created =>
    exact .silent (funext fun o => joined_nameObject c.world _ o _) rfl rfl rfl
  | disconnect closes =>
    refine .silent rfl rfl rfl ?_
    rcases closes with rfl | rfl <;> rfl
  | install reconnects =>
    refine .silent rfl rfl rfl ?_
    rcases reconnects with rfl | rfl <;> rfl
  | call => exact .calls
  | setLeft => exact .resets
  | joined => exact turn_of_message inTurn run
  | leave => exact .loses inTurn
  | _ => exact .silent rfl rfl rfl rfl

theorem joined_setJoined (w : World) (o : Ref) (joined : Bool) :
    (w.setJoined o joined).joined = Function.update w.joined o joined := by
  funext o'
  by_cases same : o' = o
  · subst same
    rw [Function.update_self]
    exact congrArg Room.joined (setObject_self w o' _)
  · rw [Function.update_of_ne same]
    exact congrArg Room.joined (setObject_ne w same _)

/-- The calls after one more callback. -/
theorem presence_call (w : World) (callback : Callback) (o : Ref) :
    World.presence { w with called := w.called ++ [callback] } o =
      w.presence o ++ (callback.presence o).toList := by
  rw [World.presence, List.filterMap_append, List.filterMap_cons, List.filterMap_nil]
  cases callback.presence o <;> rfl

theorem last_call (w : World) (callback : Callback) (o : Ref) :
    World.last { w with called := w.called ++ [callback] } o =
      (callback.presence o).getD (w.last o) := by
  rw [World.last, presence_call]
  cases callback.presence o with
  | none => rw [Option.toList_none, List.append_nil]; rfl
  | some b => rw [Option.toList_some, List.getLastD_concat]; rfl

theorem last_join (w : World) (o : Ref) :
    World.last { w with called := w.called ++ [.join o] } = Function.update w.last o true := by
  funext o'
  rw [last_call]
  by_cases same : o' = o
  · subst same; simp [Callback.presence]
  · simp [Callback.presence, same, Ne.symm same]

theorem last_leave (w : World) (o : Ref) :
    World.last { w with called := w.called ++ [.leave o] } = Function.update w.last o false := by
  funext o'
  rw [last_call]
  by_cases same : o' = o
  · subst same; simp [Callback.presence]
  · simp [Callback.presence, same, Ne.symm same]

theorem presence_of_due {callback : Callback} (none : (Cmd.call callback).due = none) (o : Ref) :
    callback.presence o = .none := by
  cases callback with
  | join | leave => cases none
  | _ => rfl

theorem last_of_due (w : World) {callback : Callback} (none : (Cmd.call callback).due = none) :
    World.last { w with called := w.called ++ [callback] } = w.last := by
  funext o
  rw [last_call, presence_of_due none]
  rfl

theorem last_of_called {w w' : World} (same : w'.called = w.called) : w'.last = w.last := by
  funext o
  rw [World.last, World.presence, same]
  rfl

/-- The step of the manager keeps what is due in balance. -/
theorem Turn.balances {c : ClientConfig} {cmd : Cmd} {out : Out} {rest : List Cmd}
    (turn : Turn c cmd out) (returns : out.exn = none) (fenced : Fenced (cmd :: rest))
    (above : cmd.Above rest)
    (before : Balances c.world.joined c.world.last ((cmd :: rest).filterMap Cmd.due)) :
    Balances out.world.joined out.world.last ((out.push ++ rest).filterMap Cmd.due) := by
  cases turn with
  | raises => cases returns
  | silent joined called due push =>
    rw [List.filterMap_append, push, List.nil_append, joined, last_of_called called]
    rwa [List.filterMap_cons_none due] at before
  | @calls callback =>
    change Balances c.world.joined
      (World.last { c.world with called := c.world.called ++ [callback] }) (rest.filterMap Cmd.due)
    cases callback with
    | join o => rw [last_join]; exact before.2
    | leave o => rw [last_leave]; exact before.2
    | _ => rw [last_of_due _ rfl]; exact before
  | @resets o =>
    rw [Outcome.world_park, joined_setJoined]
    exact before
  | @joins o data left =>
    have none : rest.filterMap Cmd.due = [] := fenced.1 ⟨_, _, rfl⟩
    rw [List.filterMap_cons_none rfl, none] at before
    have same : c.world.joined = c.world.last := before
    rw [List.filterMap_append, none, Outcome.world_park, joined_setJoined, same]
    exact ⟨same ▸ left, rfl⟩
  | @leaves o data joined =>
    have none : rest.filterMap Cmd.due = [] := fenced.1 ⟨_, _, rfl⟩
    rw [List.filterMap_cons_none rfl, none] at before
    have same : c.world.joined = c.world.last := before
    rw [List.filterMap_append, none, Outcome.world_park, same]
    exact ⟨same ▸ joined, rfl⟩
  | @loses o rooms joined =>
    obtain rfl := above.phase rfl
    have same : c.world.joined = c.world.last := before
    rw [Outcome.world_park, joined_setJoined, same]
    exact ⟨same ▸ joined, rfl⟩

/-- The step of another thread leaves the flags and the calls of the rooms as they are. -/
theorem Turn.aside {c : ClientConfig} {cmd : Cmd} {out : Out} (turn : Turn c cmd out)
    (none : cmd.due = none) (other : cmd.isManager = false) :
    out.world.joined = c.world.joined ∧ out.world.last = c.world.last := by
  cases turn with
  | raises => exact ⟨rfl, rfl⟩
  | silent joined called => exact ⟨joined, last_of_called called⟩
  | calls => exact ⟨rfl, last_of_due _ none⟩
  | resets | joins | leaves | loses => cases other

theorem fenced_append {push rest : List Cmd} (h : Fenced push) (h' : Fenced rest)
    (below : (∃ handler data, .handle handler data ∈ push) → rest.filterMap Cmd.due = []) :
    Fenced (push ++ rest) := by
  induction push with
  | nil => exact h'
  | cons cmd push ih =>
    refine ⟨?_, ih h.2 fun ⟨handler, data, mem⟩ =>
      below ⟨handler, data, List.mem_cons_of_mem _ mem⟩⟩
    rintro ⟨handler, data, rfl⟩
    change (push ++ rest).filterMap Cmd.due = []
    rw [List.filterMap_append, h.1 ⟨handler, data, rfl⟩, below ⟨handler, data, List.mem_cons_self⟩]
    rfl

theorem Effect.fenced {M : MsgpackC} {J : JsonText} {w : World} {cmd : Cmd} {a : Answer}
    {out : Out} (effect : Effect M J w cmd a out) : Fenced out.push ∧
      ((∃ handler data, .handle handler data ∈ out.push) → cmd = .recvLoop) := by
  have plain : ∀ {push : List Cmd}, (∀ c ∈ push, ∀ handler data, c ≠ .handle handler data) →
      Fenced push ∧ ((∃ handler data, .handle handler data ∈ push) → cmd = .recvLoop) := by
    intro push none
    refine ⟨?_, fun ⟨handler, data, mem⟩ => absurd rfl (none _ mem handler data)⟩
    induction push with
    | nil => trivial
    | cons c push ih =>
      exact ⟨fun ⟨handler, data, e⟩ => absurd e (none c List.mem_cons_self handler data),
        ih fun c mem => none c (List.mem_cons_of_mem _ mem)⟩
  cases effect with
  | stays pushes =>
    cases pushes with
    | dispatch => exact ⟨⟨fun _ => rfl, nofun, trivial⟩, fun _ => rfl⟩
    | _ => exact plain (by simp)
  | disconnect closes => rcases closes with rfl | rfl <;> exact plain (by simp)
  | install reconnects => rcases reconnects with rfl | rfl <;> exact plain (by simp)
  | createRoom => exact plain (by simp [Client.createRoom])
  | _ => exact plain (by simp)

/-- The call of a callback that is due is in turn. -/
theorem Turn.alternates {c : ClientConfig} {cmd : Cmd} {out : Out} (rest : List Cmd)
    (turn : Turn c cmd out) (holds : ∀ o, Alternates (c.world.presence o))
    (due : cmd.due ≠ none →
      Balances c.world.joined c.world.last ((cmd :: rest).filterMap Cmd.due)) :
    ∀ o, Alternates (out.world.presence o) := by
  intro o
  cases turn with
  | raises | resets | joins | leaves | loses => exact holds o
  | silent _ called =>
    rw [World.presence, called]
    exact holds o
  | @calls callback =>
    change Alternates (World.presence { c.world with called := c.world.called ++ [callback] } o)
    rw [presence_call]
    cases callback with
    | join o' =>
      have left : c.world.last o' = false := (due nofun).1
      by_cases same : o' = o
      · subst same
        simpa [Callback.presence] using alternates_concat (b := true) (holds o')
          (by rw [← World.last, left]; nofun)
      · simpa [Callback.presence, same] using holds o
    | leave o' =>
      have joined : c.world.last o' = true := (due nofun).1
      by_cases same : o' = o
      · subst same
        simpa [Callback.presence] using
          alternates_concat (b := false) (holds o') (by rw [← World.last, joined]; nofun)
      · simpa [Callback.presence, same] using holds o
    | _ => simpa [Callback.presence] using holds o

/-- A thread without a part of the loop does nothing for the manager. -/
theorem Ordered.plain {stack : List Cmd} (ordered : Ordered stack)
    (none : ∀ c ∈ stack, c.isPhase = false) : ∀ c ∈ stack, c.isManager = false := by
  intro c mem
  by_contra manager
  obtain ⟨c', mem, phase⟩ := ordered.manager mem (by simpa using manager)
  rw [none c' mem] at phase
  cases phase

theorem Tallied.managed {w : World} {t : Thread Tid Cmd Exn} (h : Tallied w t)
    (returns : t.exn = none) {cmd : Cmd} (mem : cmd ∈ t.stack) (due : cmd.due ≠ none) :
    ∃ c ∈ t.stack, c.isPhase = true := by
  by_contra none
  refine due (h.other (fun c mem => ?_) returns cmd mem)
  by_contra phase
  exact none ⟨c, mem, by simpa using phase⟩

/-- When no part of the loop is left on a stack, nothing is due on it. -/
theorem Turn.idle {c : ClientConfig} {tid : Tid} {cmd : Cmd} {out : Out} {rest : List Cmd}
    (turn : Turn c cmd out) (returns : out.exn = none)
    (stacked : Stacked c.world ⟨tid, cmd :: rest, none⟩)
    (tallied : Tallied c.world ⟨tid, cmd :: rest, none⟩)
    (idle : ∀ c' ∈ out.push ++ rest, c'.isPhase = false) : ∀ c' ∈ out.push ++ rest, c'.due = none := by
  cases phase : cmd.isPhase with
  | true =>
    obtain rfl := stacked.ordered.1.phase phase
    cases turn with
    | raises => cases returns
    | silent _ _ _ push =>
      rw [List.append_nil]
      exact List.filterMap_eq_nil_iff.1 push
    | @loses o rooms => cases idle (.leaveRooms rooms) (by simp)
    | calls | resets | joins | leaves => cases phase
  | false =>
    have none : ∀ c' ∈ cmd :: rest, c'.isPhase = false :=
      List.forall_mem_cons.2 ⟨phase, fun c' mem => idle c' (List.mem_append_right _ mem)⟩
    have due := tallied.other none rfl
    have below : ∀ c' ∈ rest, c'.due = .none := fun c' mem => due c' (List.mem_cons_of_mem _ mem)
    have plain := stacked.ordered.plain none cmd List.mem_cons_self
    cases turn with
    | raises => cases returns
    | silent _ _ _ push =>
      refine List.forall_mem_append.2 ⟨?_, below⟩
      exact List.filterMap_eq_nil_iff.1 push
    | calls => exact List.forall_mem_cons.2 ⟨rfl, below⟩
    | resets | joins | leaves | loses => cases plain

theorem spawn_due {w w' : World} {e : EnvEvent} {new : List (Tid × List Cmd)}
    (h : spawn w e = some (w', new)) : ∀ p ∈ new, ∀ cmd ∈ p.2, cmd.due = none := by
  cases e with
  | joinRoom | createRoom | send | disconnect =>
    cases h
    exact List.forall_mem_singleton.2 (List.forall_mem_singleton.2 rfl)

theorem tallied_preserved (M : MsgpackC) (J : JsonText) :
    Preserved (client M J) (fun w => ∀ o, Alternates (w.presence o)) (Each Tallied) Tallied
      fun c l => OnSteps InTurn c l ∧ Kept c := by
  refine .each _ ?_ ?_ ?_
  · rintro c tid cmd rest a out ⟨alternates, running, parked⟩ ⟨inTurn, kept⟩ top run
    have effect := exec_effect (M := M) (J := J) run
    obtain ⟨sound, threads, -⟩ := kept.holds
    have stacked := threads _ top
    have tallied := running _ top
    have ok := stacked.ok cmd List.mem_cons_self
    have above := stacked.ordered.1
    have turn := exec_turn sound (inTurn tid cmd rest top) run
    refine ⟨turn.alternates rest alternates fun due => ?_, ⟨?_, ?_, ?_⟩, fun t mem => ?_⟩
    · exact tallied.manager rfl (tallied.managed rfl List.mem_cons_self due)
    · refine fenced_append effect.fenced.1 tallied.fenced.2 fun handler => ?_
      obtain rfl := effect.fenced.2 handler
      rw [above.phase rfl]
      rfl
    · intro returns phase
      refine turn.balances returns tallied.fenced above (tallied.manager rfl ?_)
      obtain ⟨c', mem, phase⟩ := phase
      rcases List.mem_append.1 mem with mem | mem
      · have pushed := List.mem_filterMap.2 ⟨c', mem, Key.manager_of_phase phase⟩
        rcases (effect.spends sound ok).source _ pushed with key | dead
        · exact ⟨cmd, List.mem_cons_self, phase_of_key key⟩
        · exact absurd trivial dead
      · exact ⟨c', List.mem_cons_of_mem _ mem, phase⟩
    · exact fun idle returns => turn.idle returns stacked tallied idle
    · have waiting := parked t mem
      refine ⟨waiting.fenced, fun returns phase => ?_, waiting.other⟩
      -- The manager waits, so that the thread that runs has nothing to do with the rooms.
      obtain ⟨loop, below, phase⟩ := phase
      have none : ∀ c' ∈ cmd :: rest, c'.isPhase = false := by
        intro c' mem'
        by_contra phase'
        exact kept.unshared.managers top mem mem' below (Key.manager_of_phase (by simpa using phase'))
          (Key.manager_of_phase phase)
      have plain := stacked.ordered.plain none cmd List.mem_cons_self
      obtain ⟨joined, last⟩ := turn.aside (tallied.other none rfl cmd List.mem_cons_self) plain
      rw [joined, last]
      exact waiting.manager returns ⟨loop, below, phase⟩
  · rintro c tid cmd rest x a out ⟨alternates, running, parked⟩ - top run
    obtain rfl := Option.some.inj run
    exact ⟨alternates, ⟨(running _ top).fenced.2, nofun, fun _ => nofun⟩, parked⟩
  · rintro c e w new ⟨alternates, running, parked⟩ - run
    have due := spawn_due run
    obtain ⟨rfl, cmd, rfl, manager, joins, ok⟩ := spawn_app run
    refine ⟨alternates, running, parked, List.forall_mem_singleton.2 ⟨?_, ?_, ?_⟩⟩
    · refine ⟨?_, trivial⟩
      rintro ⟨handler, data, rfl⟩
      cases manager
    · rintro - ⟨c', mem, phase⟩
      rw [List.mem_singleton.1 mem] at phase
      rw [Cmd.isManager, phase] at manager
      cases manager
    · exact fun _ _ => List.forall_mem_singleton.1 due

/-- For every room object the calls of `on_join` and `on_leave` alternate, `on_join` first. -/
theorem calls_alternate (M : MsgpackC) (J : JsonText) {ls : List (Label Answer EnvEvent)}
    {c : ClientConfig} (run : Run (client M J) (OnSteps InTurn) ClientConfig.initial ls c)
    (o : Ref) : Alternates (c.world.presence o) := by
  have run' := run.strengthen _ Kept.initial fun kept _ h => kept.step h
  refine ((tallied_preserved M J).run _ run' ⟨fun _ => List.isChain_singleton _, nofun, ?_⟩).1 o
  refine List.forall_mem_singleton.2 ⟨⟨nofun, trivial⟩, fun _ _ => rfl, fun none => ?_⟩
  cases none _ (List.mem_singleton_self _)

/-! A connection that is lost before and after the room was joined. -/

/-- The manager, waiting at `i` and then at `j`, from the end of the connection to `on_leave` of the
only room. -/
def loses (i j : ℕ) : List (Label Answer EnvEvent) :=
  turn i .closed ++ turn j .next ++ turn j .next ++ turn j .next ++ turn j .ret ++ turn j .next ++
    turn j .next ++ turn j .next

def joinedFrame : Str :=
  Sio.buildEventFrame shortest (messageEvent (lit "r"))
    (Json.ofFields [(lit "key", .str joinedRoom)])

def lostUnjoined : List (Label Answer EnvEvent) := joinedLate ++ loses 0 1

def lostJoined : List (Label Answer EnvEvent) :=
  joinedLate ++ turn 0 (.receive true joinedFrame) ++ turn 1 .next ++ turn 1 .next ++
    turn 1 .ret ++ loses 1 1

/-- `on_leave` is called for a room that the server has not let the client join yet. -/
theorem left_unjoined : ¬ ∀ (M : MsgpackC) (J : JsonText) (ls : List (Label Answer EnvEvent))
    (c : ClientConfig), Run (client M J) (fun _ _ => True) ClientConfig.initial ls c →
      ∀ o, Alternates (c.world.presence o) := by
  intro claim
  have found : (execute (client shortest Text.reference) (fun _ _ => true) ClientConfig.initial
      lostUnjoined).any (fun c => c.world.presence 0 = [false]) = true := by
    decide +kernel
  obtain ⟨c, run, holds⟩ := exists_run _ found
  have alternates := claim _ _ _ c (run.weaken _ fun _ => trivial) 0
  rw [of_decide_eq_true holds] at alternates
  simp [Alternates] at alternates

def inTurn (c : ClientConfig) : Label Answer EnvEvent → Bool
  | .act _ =>
    match c.running with
    | some ⟨_, .handle (.message o) data :: _, none⟩ =>
      match (data.atKey (lit "key")).bind Json.getString with
      | .ok key => (key ≠ joinedRoom || !(c.world.objects o).joined) &&
          (key ≠ removedFromRoom || (c.world.objects o).joined)
      | .error _ => true
    | some ⟨_, .leaveRooms (o :: _) :: _, none⟩ => (c.world.objects o).joined
    | _ => true
  | _ => true

theorem inTurn_sound {c : ClientConfig} {l : Label Answer EnvEvent} (h : inTurn c l = true) :
    OnSteps InTurn c l := by
  cases l with
  | act a =>
    intro tid cmd rest top
    simp only [inTurn, top] at h
    cases cmd with
    | handle handler data =>
      cases handler with
      | message o =>
        refine ⟨fun key => ?_, fun key => ?_⟩
        · simp only [key] at h
          simpa using (Bool.and_eq_true_iff.1 h).1
        · simp only [key] at h
          simpa using (Bool.and_eq_true_iff.1 h).2
      | _ => trivial
    | leaveRooms rooms =>
      cases rooms with
      | nil => trivial
      | cons o rooms => exact h
    | _ => trivial
  | _ => trivial

theorem calls_alternate_lostJoined : ∃ c, Run (client shortest Text.reference) (OnSteps InTurn)
    ClientConfig.initial lostJoined c ∧ c.world.presence 0 = [true, false] ∧
      Alternates (c.world.presence 0) := by
  have found : (execute (client shortest Text.reference) inTurn ClientConfig.initial
      lostJoined).any (fun c => c.world.presence 0 = [true, false]) = true := by
    decide +kernel
  obtain ⟨c, run, calls⟩ := exists_run _ found
  have meets : Run _ (OnSteps InTurn) _ _ c := run.weaken _ inTurn_sound
  exact ⟨c, meets, of_decide_eq_true calls, calls_alternate _ _ meets 0⟩

end Blueboat.Client
