import Blueboat.ClientEvents
import Blueboat.ClientManager

set_option autoImplicit false

/-! In which order the messages of the rooms reach the application of the client. -/
namespace Blueboat.Client

open Protocol LockMachine

def readMessage (data : Json) : Option (Str × Json) :=
  match (data.atKey (lit "key")).bind Json.getString, data.valueJson (lit "data") .null with
  | .ok key, .ok body => some (key, body)
  | _, _ => none

def Callback.told (w : World) : Callback → Option (Str × Str × Json)
  | .message o key data => some (messageEvent (w.objects o).id, key, data)
  | _ => none

def World.told (w : World) : List (Str × Str × Json) := w.called.filterMap (Callback.told w)

def heard (M : MsgpackC) (J : JsonText) : Label Answer EnvEvent → Option (Str × Str × Json)
  | .act (.receive isBinary payload) =>
    match Sio.parseFrame M J isBinary payload with
    | .error _ => none
    | .ok frame => (readMessage frame.data).map fun m => (frame.event, m)
  | _ => none

def Cmd.telling (w : World) : Cmd → Option (Str × Str × Json)
  | .call callback => callback.told w
  | .handle (.message o) data =>
    (readMessage data).map fun m => (messageEvent (w.objects o).id, m)
  | _ => none

def telling (w : World) (stack : List Cmd) : List (Str × Str × Json) :=
  stack.filterMap (Cmd.telling w)

def Callback.Known (w : World) : Callback → Prop
  | .message o _ _ => (w.objects o).named = true
  | _ => True

def Cmd.Known (w : World) : Cmd → Prop
  | .call callback => callback.Known w
  | .handle (.message o) _ => (w.objects o).named = true
  | _ => True

/-! One step. -/

section
variable {M : MsgpackC} {J : JsonText} {w w' : World}

theorem Later.callback_known (later : Later w w') {callback : Callback} (known : callback.Known w) :
    callback.Known w' ∧ callback.told w' = callback.told w := by
  cases callback with
  | message o key data =>
    obtain ⟨named, id⟩ := later.object known
    exact ⟨named, by rw [Callback.told, Callback.told, id]⟩
  | _ => exact ⟨trivial, rfl⟩

theorem Later.known (later : Later w w') {cmd : Cmd} (known : cmd.Known w) :
    cmd.Known w' ∧ cmd.telling w' = cmd.telling w := by
  cases cmd with
  | call callback => exact later.callback_known known
  | handle handler data =>
    cases handler with
    | message o =>
      obtain ⟨named, id⟩ := later.object known
      exact ⟨named, by rw [Cmd.telling, Cmd.telling, id]⟩
    | _ => exact ⟨trivial, rfl⟩
  | _ => exact ⟨trivial, rfl⟩

theorem Later.telling (later : Later w w') {stack : List Cmd} (known : ∀ cmd ∈ stack, cmd.Known w) :
    telling w' stack = telling w stack :=
  List.filterMap_congr fun cmd mem => (later.known (known cmd mem)).2

theorem telling_append (w : World) (push rest : List Cmd) :
    telling w (push ++ rest) = telling w push ++ telling w rest := List.filterMap_append

theorem telling_singleton (w : World) (cmd : Cmd) : telling w [cmd] = (cmd.telling w).toList := by
  rw [telling, List.filterMap_cons, List.filterMap_nil]
  cases cmd.telling w <;> rfl

theorem known_called (later : Later w w') (same : w'.called = w.called)
    (known : ∀ callback ∈ w.called, callback.Known w) :
    (∀ callback ∈ w'.called, callback.Known w') ∧ w'.told = w.told := by
  refine ⟨fun callback mem => ?_, ?_⟩
  · rw [same] at mem
    exact (later.callback_known (known callback mem)).1
  · rw [World.told, World.told, same]
    exact List.filterMap_congr fun callback mem => (later.callback_known (known callback mem)).2

/-- What a step does to the calls: it makes one that was due, it drops it or leaves it due; only the
receive loop adds one, and that is the message received. -/
structure Tells (M : MsgpackC) (J : JsonText) (w : World) (cmd : Cmd) (a : Answer) (out : Out) :
    Prop where
  called : ∀ callback ∈ out.world.called, callback.Known out.world
  push : ∀ cmd' ∈ out.push, cmd'.Known out.world
  told : (cmd = .recvLoop ∧ out.world.told = w.told ∧
      telling out.world out.push = (heard M J (.act a)).toList) ∨
    ∃ made, out.world.told = w.told ++ made ∧
      (made ++ telling out.world out.push).Sublist (telling w [cmd])

theorem Tells.quiet {cmd : Cmd} {a : Answer} {out : Out} (later : Later w out.world)
    (known : ∀ callback ∈ w.called, callback.Known w) (same : out.world.called = w.called)
    (push : ∀ cmd' ∈ out.push, cmd'.Known out.world ∧ cmd'.telling out.world = none) :
    Tells M J w cmd a out := by
  obtain ⟨called, told⟩ := known_called later same known
  refine ⟨called, fun cmd' mem => (push cmd' mem).1, .inr ⟨[], told.trans (List.append_nil _).symm, ?_⟩⟩
  have nothing : telling out.world out.push = [] :=
    List.filterMap_eq_nil_iff.2 fun cmd' mem => (push cmd' mem).2
  rw [nothing]
  exact List.nil_sublist _

/-- The handler of a room calls what it reads. -/
theorem handleMessage_tells {o : Ref} {data : Json} {out : Out} {a : Answer} (later : Later w out.world)
    (known : ∀ callback ∈ w.called, callback.Known w) (named : (w.objects o).named = true)
    (h : handleMessage w o data = out) : Tells M J w (.handle (.message o) data) a out := by
  unfold handleMessage at h
  split at h
  · subst h
    exact .quiet later known rfl (by simp)
  · split at h
    · subst h
      exact .quiet later known rfl (by simp)
    · rename_i key found
      split at h
      · subst h
        exact .quiet later known rfl (by simp)
      · rename_i body read
        split at h
        · subst h
          exact .quiet later known rfl (by simp [Cmd.Known, Callback.Known, Cmd.telling, Callback.told])
        · split at h
          · subst h
            exact .quiet later known rfl
              (by simp [Cmd.Known, Callback.Known, Cmd.telling, Callback.told])
          · subst h
            refine ⟨known, List.forall_mem_singleton.2 named, .inr ⟨[], (List.append_nil _).symm, ?_⟩⟩
            have due : telling w [.handle (.message o) data] =
                [(messageEvent (w.objects o).id, key, body)] := by
              rw [telling_singleton, Cmd.telling, readMessage, found, read]
              rfl
            rw [due]
            exact List.Sublist.refl _

theorem exec_tells {cmd : Cmd} {a : Answer} {out : Out} (sound : Sound w) (ok : cmd.Ok w)
    (called : ∀ callback ∈ w.called, callback.Known w) (known : cmd.Known w)
    (run : exec M J w cmd a = some out) : Tells M J w cmd a out := by
  have effect := exec_effect run
  obtain ⟨-, later⟩ := effect.sound sound ok
  cases effect with
  | throws => exact .quiet later called rfl (by simp)
  | stays pushes =>
    cases pushes with
    | ignored | left | message =>
      exact handleMessage_tells later called known (Option.some.inj run)
    | @dispatch isBinary payload frame handler parsed found =>
      cases handler with
      | message o =>
        obtain ⟨named, event⟩ := sound.message found
        refine ⟨called, List.forall_mem_cons.2 ⟨named, List.forall_mem_singleton.2 trivial⟩,
          .inl ⟨rfl, rfl, ?_⟩⟩
        have received : heard M J (.act (.receive isBinary payload)) =
            (readMessage frame.data).map fun m => (messageEvent (w.objects o).id, m) := by
          rw [heard, parsed, ← event]
        rw [received, ← Cmd.telling, ← telling_singleton]
        rfl
      | _ => exact .quiet later called rfl (by simp [Cmd.Known, Cmd.telling])
    | _ => exact .quiet later called rfl (by simp [Cmd.Known, Callback.Known, Cmd.telling, Callback.told])
  | joined => exact handleMessage_tells later called known (Option.some.inj run)
  | @call callback =>
    refine ⟨fun callback' mem => ?_, List.forall_mem_singleton.2 trivial,
      .inr ⟨telling w [.call callback], ?_, ?_⟩⟩
    · rcases List.mem_append.1 mem with mem | mem
      · exact (later.callback_known (called callback' mem)).1
      · rw [List.mem_singleton.1 mem]
        exact (later.callback_known known).1
    · exact List.filterMap_append
    · exact (List.append_nil _).symm ▸ List.Sublist.refl _
  | disconnect closes =>
    rcases closes with rfl | rfl <;>
      exact .quiet later called rfl (by simp [Cmd.Known, Callback.Known, Cmd.telling, Callback.told])
  | install reconnects =>
    rcases reconnects with rfl | rfl <;>
      exact .quiet later called rfl (by simp [Cmd.Known, Callback.Known, Cmd.telling, Callback.told])
  | sendJoin | sendFrame =>
    exact .quiet later called (called_send ..)
      (by simp [Cmd.Known, Callback.Known, Cmd.telling, Callback.told])
  | _ =>
    exact .quiet later called rfl
      (by simp [Client.createRoom, Cmd.Known, Callback.Known, Cmd.telling, Callback.told])

end

/-! A whole run. -/

/-- What was called, with what a thread is about to call, was heard in this order. -/
structure Relays (M : MsgpackC) (J : JsonText) (ls : List (Label Answer EnvEvent)) (c : ClientConfig) :
    Prop where
  called : ∀ callback ∈ c.world.called, callback.Known c.world
  known : ∀ t ∈ c.threads, ∀ cmd ∈ t.stack, cmd.Known c.world
  told : c.world.told.Sublist (ls.filterMap (heard M J))
  due : ∀ t ∈ c.threads, (c.world.told ++ telling c.world t.stack).Sublist (ls.filterMap (heard M J))

section
variable {M : MsgpackC} {J : JsonText} {ls : List (Label Answer EnvEvent)} {c c' : ClientConfig}

theorem heard_sublist (l : Label Answer EnvEvent) :
    (ls.filterMap (heard M J)).Sublist ((ls ++ [l]).filterMap (heard M J)) := by
  rw [List.filterMap_append]
  exact List.sublist_append_left ..

/-- The world stays; a thread stays too, or loses its top, or is new and has nothing to tell. -/
theorem Relays.same (h : Relays M J ls c) (l : Label Answer EnvEvent) (world : c'.world = c.world)
    (threads : ∀ t' ∈ c'.threads, (∃ t ∈ c.threads, t'.stack.Sublist t.stack) ∨
      ∀ cmd ∈ t'.stack, cmd.Known c.world ∧ cmd.telling c.world = none) : Relays M J (ls ++ [l]) c' := by
  refine ⟨?_, fun t' mem => ?_, ?_, fun t' mem => ?_⟩
  · rw [world]
    exact h.called
  · rw [world]
    rcases threads t' mem with ⟨t, mem, sub⟩ | fresh
    · exact fun cmd mem' => h.known t mem cmd (sub.subset mem')
    · exact fun cmd mem => (fresh cmd mem).1
  · rw [world]
    exact h.told.trans (heard_sublist l)
  · rw [world]
    refine List.Sublist.trans ?_ (heard_sublist l)
    rcases threads t' mem with ⟨t, mem, sub⟩ | fresh
    · exact ((sub.filterMap _).append_left _).trans (h.due t mem)
    · have nothing : telling c.world t'.stack = [] :=
        List.filterMap_eq_nil_iff.2 fun cmd mem => (fresh cmd mem).2
      rw [nothing, List.append_nil]
      exact h.told

theorem anchored_of_telling {w : World} {stack : List Cmd} (some : telling w stack ≠ []) :
    ∃ cmd ∈ stack, cmd.isAnchored = true := by
  obtain ⟨m, mem⟩ := List.exists_mem_of_ne_nil _ some
  obtain ⟨cmd, mem, tells⟩ := List.mem_filterMap.1 mem
  refine ⟨cmd, mem, ?_⟩
  cases cmd with
  | call callback => cases callback <;> first | rfl | cases tells
  | handle => rfl
  | _ => cases tells

/-- Nothing is made of what was not due. -/
theorem Tells.silent {w : World} {cmd : Cmd} {a : Answer} {out : Out} (tells : Tells M J w cmd a out)
    (other : cmd ≠ .recvLoop) (nothing : telling w [cmd] = []) :
    out.world.told = w.told ∧ telling out.world out.push = [] := by
  rcases tells.told with ⟨rfl, -⟩ | ⟨made, told, sub⟩
  · exact absurd rfl other
  · rw [nothing] at sub
    obtain ⟨rfl, push⟩ := List.append_eq_nil_iff.1 (List.sublist_nil.1 sub)
    exact ⟨told.trans (List.append_nil _), push⟩

/-- The step of a thread that holds the lock. -/
theorem Relays.exec (h : Relays M J ls c) (kept : Kept c) (anchored : Anchored c) {tid : Tid}
    {cmd : Cmd} {rest : List Cmd} {a : Answer} {out : Out} (top : c.running = some ⟨tid, cmd :: rest, none⟩)
    (run : exec M J c.world cmd a = some out) : Relays M J (ls ++ [.act a]) (settle c tid rest out) := by
  obtain ⟨sound, running, -⟩ := kept.holds
  have stacked := running _ top
  have ok := stacked.ok cmd List.mem_cons_self
  have above := stacked.ordered.1
  have mem := running_mem_threads top
  have later := ((exec_effect run).sound sound ok).2
  have tells := exec_tells sound ok h.called (h.known _ mem cmd List.mem_cons_self) run
  have restKnown : ∀ cmd' ∈ rest, cmd'.Known c.world := fun cmd' mem' =>
    h.known _ mem cmd' (List.mem_cons_of_mem _ mem')
  have split : telling c.world (cmd :: rest) = telling c.world [cmd] ++ telling c.world rest :=
    telling_append c.world [cmd] rest
  have threads : ∀ t ∈ (settle c tid rest out).threads,
      t = ⟨tid, out.push ++ rest, out.exn⟩ ∨ t ∈ c.parked := fun t mem =>
    List.mem_cons.1 ((threads_settle c tid rest out).mem_iff.1 mem)
  have whole : (out.world.told ++ telling out.world (out.push ++ rest)).Sublist
      ((ls ++ [Label.act a]).filterMap (heard M J)) := by
    rw [telling_append, later.telling restKnown]
    rcases tells.told with ⟨rfl, told, received⟩ | ⟨made, told, sub⟩
    · obtain rfl := above.phase rfl
      have last : [Label.act a].filterMap (heard M J) = (heard M J (.act a)).toList := by
        rw [List.filterMap_cons, List.filterMap_nil]
        cases heard M J (.act a) <;> rfl
      rw [told, received, ← last, List.filterMap_append]
      exact h.told.append (List.append_nil _ ▸ List.Sublist.refl _)
    · have before := h.due _ mem
      rw [split] at before
      rw [told, List.append_assoc, ← List.append_assoc made]
      exact ((sub.append_right _).append_left _).trans (before.trans (heard_sublist _))
  -- without a part of the loop on its stack, the thread has nothing to tell
  have plain : (∀ cmd' ∈ cmd :: rest, cmd'.isPhase = false) →
      out.world.told = c.world.told ∧ telling out.world (out.push ++ rest) = [] := by
    intro none
    have nothing : telling c.world (cmd :: rest) = [] := by
      by_contra some
      obtain ⟨cmd', mem', mark⟩ := anchored_of_telling some
      obtain ⟨loop, below, phase⟩ := anchored _ mem cmd' mem' mark
      rw [none loop below] at phase
      cases phase
    rw [split] at nothing
    obtain ⟨first, below⟩ := List.append_eq_nil_iff.1 nothing
    have other : cmd ≠ .recvLoop := by
      rintro rfl
      cases none _ List.mem_cons_self
    obtain ⟨told, push⟩ := tells.silent other first
    exact ⟨told, by rw [telling_append, push, later.telling restKnown, below]; rfl⟩
  refine ⟨?_, fun t mem' => ?_, ?_, fun t mem' => ?_⟩
  · rw [world_settle]
    exact tells.called
  · rw [world_settle]
    rcases threads t mem' with rfl | parked
    · refine List.forall_mem_append.2 ⟨tells.push, fun cmd' below => ?_⟩
      exact (later.known (restKnown cmd' below)).1
    · exact fun cmd' below => (later.known (h.known t (List.mem_append_right _ parked) cmd' below)).1
  · rw [world_settle]
    exact (List.sublist_append_left ..).trans whole
  · rw [world_settle]
    rcases threads t mem' with rfl | parked
    · exact whole
    · have waits := List.mem_append_right c.running.toList parked
      rw [later.telling (h.known t waits)]
      by_cases nothing : telling c.world t.stack = []
      · rw [nothing, List.append_nil]
        exact (List.sublist_append_left ..).trans whole
      · -- the manager waits, so that the thread that runs is not the manager
        obtain ⟨cmd', below, mark⟩ := anchored_of_telling nothing
        obtain ⟨told, -⟩ := plain (anchored.alone kept top parked below mark)
        rw [told]
        exact (h.due t waits).trans (heard_sublist _)

theorem Relays.step (h : Relays M J ls c) (kept : Kept c) (anchored : Anchored c) {l : Label Answer EnvEvent}
    (last : Step (client M J) c l c') : Relays M J (ls ++ [l]) c' := by
  cases last with
  | @finish tid a alive top =>
    refine h.same _ rfl fun t mem => .inl ⟨t, List.mem_append_right _ ?_, List.Sublist.refl _⟩
    exact mem
  | crash _ top => exact h.same _ rfl fun t mem => .inl ⟨t, mem, List.Sublist.refl _⟩
  | exec _ top run => exact h.exec kept anchored top run
  | @unwind tid cmd rest x a o _ top run =>
    obtain rfl := Option.some.inj run
    refine h.same _ rfl fun t mem => .inl ?_
    rcases List.mem_cons.1 ((threads_settle c tid rest _).mem_iff.1 mem) with rfl | parked
    · exact ⟨_, running_mem_threads top, List.sublist_cons_self ..⟩
    · exact ⟨t, List.mem_append_right _ parked, List.Sublist.refl _⟩
  | take _ free at_i _ =>
    refine h.same _ rfl fun t mem => .inl ⟨t, (threads_take free at_i).mem_iff.1 mem, ?_⟩
    exact List.Sublist.refl _
  | @env e w new _ run =>
    have known : ∀ p ∈ new, ∀ cmd ∈ p.2, cmd.Known c.world ∧ cmd.telling c.world = none := by
      cases e <;> cases run <;>
        exact List.forall_mem_singleton.2 (List.forall_mem_singleton.2 ⟨trivial, rfl⟩)
    obtain ⟨rfl, -⟩ := spawn_app run
    refine h.same _ rfl fun t mem => ?_
    rcases List.mem_append.1 mem with mem | mem
    · exact .inl ⟨t, List.mem_append_left _ mem, List.Sublist.refl _⟩
    · rcases List.mem_append.1 mem with mem | mem
      · exact .inl ⟨t, List.mem_append_right _ mem, List.Sublist.refl _⟩
      · obtain ⟨p, fresh, rfl⟩ := List.mem_map.1 mem
        exact .inr (known p fresh)

theorem Relays.run {ok : ClientConfig → Label Answer EnvEvent → Prop}
    (run : Run (client M J) ok ClientConfig.initial ls c) : Relays M J ls c := by
  induction run with
  | nil =>
    exact ⟨nofun, List.forall_mem_singleton.2 (List.forall_mem_singleton.2 trivial),
      List.Sublist.refl _, List.forall_mem_singleton.2 (List.Sublist.refl _)⟩
  | snoc before _ last ih => exact ih.step (.run before) (.run before) last

/-- The messages that the application is called with were received, in this order, each at most as often
as it was received. -/
theorem messages_in_order (M : MsgpackC) (J : JsonText)
    {ok : ClientConfig → Label Answer EnvEvent → Prop} {ls : List (Label Answer EnvEvent)}
    {c : ClientConfig} (run : Run (client M J) ok ClientConfig.initial ls c) :
    c.world.told.Sublist (ls.filterMap (heard M J)) := (Relays.run run).told

end

def textFrame (key : Str) : Str :=
  Sio.buildEventFrame shortest (messageEvent (lit "r")) (Json.ofFields [(lit "key", .str key)])

/-- The manager, waiting at `i` and then at `j`, from a message to the end of `on_message`. -/
def hears (i j : ℕ) (key : Str) : List (Label Answer EnvEvent) :=
  turn i (.receive true (textFrame key)) ++ turn j .next ++ turn j .next ++ turn j .ret

theorem messages_in_order_two : ∃ ls c, Run (client shortest Text.reference) (fun _ _ => True)
    ClientConfig.initial ls c ∧ c.world.told.map (fun m => m.2.1) = [lit "a", lit "b"] ∧
      c.world.told.Sublist (ls.filterMap (heard shortest Text.reference)) := by
  have found : (execute (client shortest Text.reference) (fun _ _ => true) ClientConfig.initial
      (joinedLate ++ hears 0 1 (lit "a") ++ hears 1 1 (lit "b"))).any
        (fun c => c.world.told.map (fun m => m.2.1) = [lit "a", lit "b"]) = true := by
    decide +kernel
  obtain ⟨c, run, told⟩ := exists_run _ found
  have run' : Run _ (fun _ _ => True) _ _ c := run.weaken _ fun _ => trivial
  exact ⟨_, c, run', of_decide_eq_true told, messages_in_order _ _ run'⟩

end Blueboat.Client
