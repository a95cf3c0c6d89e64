import Blueboat.Disposal

set_option autoImplicit false

/-! The critical section of `shutdown`, and what the threads that come after it can still do. -/
namespace Blueboat

open Protocol LockMachine Ledger

/-- The section has not ended. -/
def Open (c : ServerConfig) (_ : Label Answer EnvEvent) : Prop :=
  c.running ≠ some ⟨.main, [], none⟩

/-- How far the section has come: every managed room is still listed, or its disposal is under way. -/
inductive Closing (c : ServerConfig) : Prop where
  | begins (top : c.running = some ⟨.main, [.shutdown], none⟩)
      (live : ∀ roomId r, c.world.managingRooms.lookup roomId = some r →
        (c.world.rooms r).disposing = false)
  | disposes {above : List Cmd} {left : List Str} {x : Option Exn}
      (top : c.running = some ⟨.main, above ++ [.disposeByIds left], x⟩)
      (quiet : ∀ cmd ∈ above, Quiet c.world.ledger cmd)
      (listed : ∀ roomId r, c.world.managingRooms.lookup roomId = some r →
        (c.world.rooms r).disposing = false → roomId ∈ left)
      (covered : ∀ roomId r, c.world.managingRooms.lookup roomId = some r →
        (c.world.rooms r).disposing = true → Disposing c r)
  | ended (top : c.running = some ⟨.main, [], none⟩)
      (empty : ∀ roomId, c.world.managingRooms.lookup roomId = none)
  | failed {x : Exn} (top : c.running = some ⟨.main, [], some x⟩)

section
variable {M : MsgpackC} {J : JsonText} {c c' : ServerConfig} {l : Label Answer EnvEvent}

theorem Closing.env {e : EnvEvent} {w : World} {new : List (Tid × List Cmd)} (closing : Closing c)
    (h : Arrival c.world e w new) :
    Closing { c with world := w, parked := c.parked ++ new.map Thread.start } := by
  obtain ⟨rooms, -, managing, -, nextRoom⟩ := h.frame
  cases closing with
  | begins top live =>
    refine .begins top fun roomId r managed => ?_
    dsimp only at managed ⊢
    rw [managing] at managed
    rw [rooms]
    exact live roomId r managed
  | @disposes above left x top quiet listed covered =>
    refine .disposes top (fun cmd mem => ?_) (fun roomId r managed live => ?_)
      fun roomId r managed disposing => ?_
    · obtain ⟨r, family, born, disposing⟩ := quiet cmd mem
      refine ⟨r, family, ?_, ?_⟩
      · exact lt_of_lt_of_eq born nextRoom.symm
      · exact (congrArg (fun rooms => (rooms r).disposing) rooms).trans disposing
    · dsimp only at managed live
      rw [managing] at managed
      rw [rooms] at live
      exact listed roomId r managed live
    · dsimp only at managed disposing
      rw [managing] at managed
      rw [rooms] at disposing
      exact covered roomId r managed disposing
  | ended top empty =>
    refine .ended top fun roomId => ?_
    dsimp only
    rw [managing]
    exact empty roomId
  | failed top => exact .failed top

/-- One of the disposals goes on. -/
theorem Closing.goes {tid : Tid} {cmd : Cmd} {above : List Cmd} {left : List Str} {a : Answer} {o : Out}
    (known : Known J c)
    (top : c.running = some ⟨tid, cmd :: above ++ [.disposeByIds left], none⟩) (main : tid = .main)
    (quiet : ∀ d ∈ cmd :: above, Quiet c.world.ledger d)
    (listed : ∀ roomId r, c.world.managingRooms.lookup roomId = some r →
      (c.world.rooms r).disposing = false → roomId ∈ left)
    (covered : ∀ roomId r, c.world.managingRooms.lookup roomId = some r →
      (c.world.rooms r).disposing = true → Disposing c r)
    (run : exec M J c.world cmd a = some o) :
    Closing (settle c tid (above ++ [.disposeByIds left]) o) := by
  have effect := exec_effect M J run
  have sound := known.kept.sound
  have ok := (known.kept.stack top).ok _ List.mem_cons_self
  have loud := quiet cmd List.mem_cons_self
  have makes : cmd.makes = none := by
    by_contra made
    obtain ⟨r, family, -⟩ := loud
    cases (Cmd.family_of_makes made).symm.trans family
  have later := (effect.sound sound ok).2
  have goes : o.parks = false := by
    cases parks : o.parks with
    | false => rfl
    | true => exact absurd loud (effect.parks parks).1
  have before : ∀ {roomId r}, o.world.managingRooms.lookup roomId = some r →
      c.world.managingRooms.lookup roomId = some r := fun managed =>
    (effect.managing managed).resolve_right (by rw [makes]; nofun)
  have running : (settle c tid (above ++ [.disposeByIds left]) o).running = _ := settle_goes goes
  rw [← List.append_assoc] at running
  subst main
  refine .disposes running (fun d mem => ?_) (fun roomId r managed live => ?_)
    fun roomId r managed disposing => ?_
  · rw [world_settle]
    rcases List.mem_append.1 mem with mem | mem
    · exact (effect.pushes sound known.kept.housed ok).quiet loud d mem
    · exact later.quiet (quiet d (List.mem_cons_of_mem _ mem))
  · rw [world_settle] at managed live
    refine listed roomId r (before managed) ?_
    by_contra disposing
    have born := (sound.managed (before managed)).1
    cases live.symm.trans (later.disposing born (by simpa using disposing))
  · rw [world_settle] at managed disposing
    rcases effect.disposing disposing with now | ⟨members, mem⟩
    · refine ((covered roomId r (before managed) now).exec known top run).resolve_left fun last => ?_
      subst last
      exact effect.detaches sound ok (.inr ⟨roomId, managed⟩)
    · exact ⟨_, _, running, List.mem_append_left _ (List.mem_append_left _ mem), rfl⟩

/-- The next room of the list is taken up. -/
theorem Closing.next {left : List Str} {a : Answer} {o : Out} (known : Known J c)
    (alive : c.crashed = none) (top : c.running = some ⟨.main, [.disposeByIds left], none⟩)
    (listed : ∀ roomId r, c.world.managingRooms.lookup roomId = some r →
      (c.world.rooms r).disposing = false → roomId ∈ left)
    (covered : ∀ roomId r, c.world.managingRooms.lookup roomId = some r →
      (c.world.rooms r).disposing = true → Disposing c r)
    (run : exec M J c.world (.disposeByIds left) a = some o) : Closing (settle c .main [] o) := by
  have idle : ∀ roomId r, c.world.managingRooms.lookup roomId = some r →
      (c.world.rooms r).disposing = false := by
    intro roomId r managed
    by_contra disposing
    obtain ⟨t, cmd, top', mem, withdraws⟩ := covered roomId r managed (by simpa using disposing)
    cases top.symm.trans top'
    obtain rfl := List.mem_singleton.1 mem
    cases withdraws
  have step : Step (server M J) c (.act a) (settle c .main [] o) := .exec alive top run
  have effect := exec_effect M J run
  have before : ∀ {roomId r}, o.world.managingRooms.lookup roomId = some r →
      c.world.managingRooms.lookup roomId = some r := fun managed =>
    (effect.managing managed).resolve_right (by rintro ⟨⟩)
  cases left with
  | nil =>
    obtain rfl := Option.some.inj run
    refine .ended rfl fun roomId => ?_
    cases managed : c.world.managingRooms.lookup roomId with
    | none => exact managed
    | some r => exact absurd (listed roomId r managed (idle roomId r managed)) List.not_mem_nil
  | cons id ids =>
    simp only [exec] at run
    cases found : c.world.managingRooms.lookup id with
    | none =>
      rw [found] at run
      obtain rfl := Option.some.inj run
      refine @Closing.disposes _ [] ids none rfl (List.forall_mem_nil _) (fun roomId r managed live => ?_)
        fun roomId r managed disposing => ?_
      · refine (List.mem_cons.1 (listed roomId r managed live)).resolve_left fun same => ?_
        subst same
        cases managed.symm.trans found
      · cases (idle roomId r managed).symm.trans disposing
    | some r =>
      rw [found] at run
      obtain ⟨ledger, push⟩ := dispose_cases c.world r .shutdown
      have running : (c.world.ledger.lives r).disposing = false := idle id r found
      rw [if_neg (by rw [running]; exact Bool.false_ne_true)] at push
      generalize (c.world.ledger.lives r).clients.map SimpleClient.sessionId = members at push
      have starts : o.push = [.disposeLoop r members, .disposeByIds ids] := by
        obtain rfl := Option.some.inj run
        exact congrArg (· ++ [Cmd.disposeByIds ids]) push
      have goes : o.parks = false ∧ o.exn = none := by
        obtain rfl := Option.some.inj run
        exact ⟨rfl, rfl⟩
      have running' : (settle c .main [] o).running = _ := settle_goes goes.1
      rw [starts] at running'
      have begun : r < o.world.nextRoom ∧ (o.world.rooms r).disposing = true := by
        have ok := ((known.kept.step step).stack running').ok _ List.mem_cons_self
        rwa [world_settle] at ok
      have later := (effect.sound known.kept.sound ((known.kept.stack top).ok _ List.mem_cons_self)).2
      refine @Closing.disposes _ [_] ids _ running' (List.forall_mem_singleton.2 ?_)
        (fun roomId r' managed live => ?_) fun roomId r' managed disposing => ?_
      · rw [world_settle]
        exact ⟨r, rfl, begun⟩
      · rw [world_settle] at managed live
        have was : (c.world.rooms r').disposing = false := idle roomId r' (before managed)
        refine (List.mem_cons.1 (listed roomId r' (before managed) was)).resolve_left fun same => ?_
        subst same
        cases (before managed).symm.trans found
        cases live.symm.trans begun.2
      · rw [world_settle] at managed disposing
        rcases effect.disposing disposing with now | ⟨left, mem⟩
        · cases (idle roomId r' (before managed)).symm.trans now
        · rw [starts] at mem
          exact ⟨_, _, running', mem, rfl⟩

/-- The section goes on, or it fails, until it ends. -/
theorem Closing.step (closing : Closing c) (known : Known J c)
    (through : DisposesThrough c l) (going : Open c l) (h : Step (server M J) c l c') : Closing c' := by
  cases h with
  | env _ run => exact closing.env (spawn_arrival run)
  | finish _ top =>
    cases closing with
    | begins top' => cases top.symm.trans top'
    | disposes top' =>
      have stack := congrArg Thread.stack (Option.some.inj (top.symm.trans top'))
      exact absurd stack.symm (List.append_ne_nil_of_right_ne_nil _ (List.cons_ne_nil _ _))
    | ended top' => exact absurd top' going
    | failed top' => cases top.symm.trans top'
  | crash _ top =>
    cases closing with
    | begins top' => cases top.symm.trans top'
    | disposes top' =>
      have stack := congrArg Thread.stack (Option.some.inj (top.symm.trans top'))
      exact absurd stack.symm (List.append_ne_nil_of_right_ne_nil _ (List.cons_ne_nil _ _))
    | ended top' => exact absurd top' going
    | failed top' => exact .failed top'
  | take _ free =>
    cases closing with
    | begins top | disposes top | ended top | failed top => cases free.symm.trans top
  | @exec tid cmd rest a o alive top run =>
    cases closing with
    | begins top' live =>
      cases top.symm.trans top'
      cases a with
      | order ids =>
        simp only [server, exec] at run
        split at run
        · rename_i perm
          obtain rfl := Option.some.inj run
          refine @Closing.disposes _ [] ids none rfl (List.forall_mem_nil _) (fun roomId r managed _ => ?_)
            fun roomId r managed disposing => ?_
          · refine (List.isPerm_iff.1 perm).mem_iff.2 (AList.mem_keys.1 ?_)
            exact AList.lookup_isSome.1 (Option.isSome_iff_exists.2 ⟨r, managed⟩)
          · cases (live roomId r managed).symm.trans disposing
        · cases run
      | _ => cases run
    | @disposes above left x top' quiet listed covered =>
      cases above with
      | nil =>
        cases top.symm.trans top'
        exact .next known alive top listed covered run
      | cons d above =>
        cases top.symm.trans top'
        exact .goes known top rfl quiet listed covered run
    | ended top' => exact absurd top' going
    | failed top' => cases top.symm.trans top'
  | @unwind tid cmd rest x a o _ top run =>
    cases closing with
    | begins top' => cases top.symm.trans top'
    | @disposes above left x top' quiet listed covered =>
      cases above with
      | nil =>
        cases top.symm.trans top'
        obtain rfl := Option.some.inj run
        exact .failed rfl
      | cons d above =>
        cases top.symm.trans top'
        obtain ⟨r₀, family, -⟩ := quiet _ List.mem_cons_self
        have carried : ∀ roomId r, c.world.managingRooms.lookup roomId = some r →
            (c.world.rooms r).disposing = true →
            ∃ d' ∈ above ++ [.disposeByIds left], Cmd.withdraws d' = some r := by
          intro roomId r managed disposing
          obtain ⟨t, d', top'', mem, withdraws⟩ := covered roomId r managed disposing
          cases top.symm.trans top''
          rcases List.mem_cons.1 mem with rfl | mem
          · exact absurd (.inr ⟨roomId, managed⟩) (through _ _ _ _ _ top withdraws)
          · exact ⟨d', mem, withdraws⟩
        have below := fun d' mem => quiet d' (List.mem_cons_of_mem _ mem)
        cases unwind_effect run with
        | passed =>
          refine .disposes rfl below listed fun roomId r managed disposing => ?_
          obtain ⟨d', mem, withdraws⟩ := carried roomId r managed disposing
          exact ⟨_, d', rfl, mem, withdraws⟩
        | caught none => cases none.symm.trans family
        | @handled r hook =>
          refine @Closing.disposes _ (.inHook r hook :: above) left none rfl quiet listed
            fun roomId r' managed disposing => ?_
          obtain ⟨d', mem, withdraws⟩ := carried roomId r' managed disposing
          exact ⟨_, d', rfl, List.mem_cons_of_mem _ mem, withdraws⟩
        | rolledBack => cases family
    | ended top' => exact absurd top' going
    | failed top' => cases top.symm.trans top'

def Refused (w : World) (name override : Str) (candidates : List (Except Exn Str))
    (factory : Option Exn) : Prop :=
  w.registeredRooms.lookup name = none ∨ factory.isSome ∨
    ∃ x, newRoomId (RoomFetcher.getListOfRooms w.storage w.now) override candidates = .error x

structure Barren (c : ServerConfig) (l : Label Answer EnvEvent) : Prop where
  refuses : ∀ tid client name options override creator rest id₁ id₂ id₃ factory,
    c.running = some ⟨tid, .createNewRoom client name options override creator :: rest, none⟩ →
    l = .act (.create id₁ id₂ id₃ factory) → Refused c.world name override [id₁, id₂, id₃] factory
  returns : ∀ tid r client creator rest,
    c.running ≠ some ⟨tid, .created r client creator :: rest, none⟩

/-- No room is managed, no record of a room is stored, and no room has been made since. -/
structure Closed (nextRoom : ℕ) (w : World) : Prop where
  unmanaged : ∀ roomId, w.managingRooms.lookup roomId = none
  unrecorded : ∀ roomId, w.storage.entries.lookup (roomKey roomId) = none
  unmade : w.nextRoom = nextRoom

theorem createNewRoom_refused {w : World} {client : SimpleClient} {name override : Str}
    {options : Json} {creator : Creator} {candidates : List (Except Exn Str)} {factory : Option Exn}
    (refused : Refused w name override candidates factory) :
    (createNewRoom J w client name options override creator candidates factory).world.nextRoom =
      w.nextRoom := by
  unfold createNewRoom
  split
  · rfl
  · rename_i options' registered
    dsimp only
    split
    · rfl
    · rename_i roomId chosen
      split
      · rfl
      · rcases refused with unknown | throws | ⟨x, fails⟩
        · cases registered.symm.trans unknown
        · cases throws
        · cases fails.symm.trans chosen

theorem Barren.unmade {tid : Tid} {cmd : Cmd} {rest : List Cmd} {a : Answer} {o : Out}
    (barren : Barren c (.act a)) (top : c.running = some ⟨tid, cmd :: rest, none⟩)
    (run : exec M J c.world cmd a = some o) : o.world.nextRoom = c.world.nextRoom := by
  refine (exec_effect M J run).nextRoom.elim id ?_
  rintro ⟨client, name, options, override, creator, id₁, id₂, id₃, factory, rfl, rfl⟩
  obtain rfl := Option.some.inj run
  exact createNewRoom_refused (barren.refuses _ _ _ _ _ _ _ _ _ _ _ top rfl)

structure Shut (J : JsonText) (nextRoom : ℕ) (c : ServerConfig) : Prop where
  known : Known J c
  unmanaged : ∀ roomId, c.world.managingRooms.lookup roomId = none
  unmade : c.world.nextRoom = nextRoom

theorem Shut.step {n : ℕ} (shut : Shut J n c) (lawful : J.Lawful) (barren : Barren c l)
    (h : Step (server M J) c l c') : Shut J n c' := by
  have known := shut.known.step lawful h
  cases h with
  | finish | crash | take => exact ⟨known, shut.unmanaged, shut.unmade⟩
  | @exec tid cmd rest a o _ top run =>
    refine ⟨known, fun roomId => ?_, ?_⟩
    · rw [world_settle]
      have makes : cmd.makes = none := by
        cases cmd with
        | created => exact absurd top (barren.returns _ _ _ _ _)
        | _ => rfl
      cases managed : o.world.managingRooms.lookup roomId with
      | none => rfl
      | some r =>
        have before := ((exec_effect M J run).managing managed).resolve_right (by rw [makes]; nofun)
        cases before.symm.trans (shut.unmanaged roomId)
    · rw [world_settle, barren.unmade top run]
      exact shut.unmade
  | unwind _ top run =>
    have stores := (unwind_effect run).stores
    refine ⟨known, fun roomId => ?_, ?_⟩
    · rw [world_settle, stores]
      exact shut.unmanaged roomId
    · rw [world_settle, stores]
      exact shut.unmade
  | env _ run =>
    obtain ⟨-, -, managing, -, nextRoom⟩ := (spawn_arrival run).frame
    refine ⟨known, fun roomId => ?_, ?_⟩
    · dsimp only
      rw [managing]
      exact shut.unmanaged roomId
    · exact nextRoom.trans shut.unmade

theorem Shut.closed {n : ℕ} (shut : Shut J n c) : Closed n c.world := by
  refine ⟨shut.unmanaged, fun roomId => ?_, shut.unmade⟩
  cases stored : c.world.storage.entries.lookup (roomKey roomId) with
  | none => rfl
  | some e =>
    have managed := (shut.known.filed.registered roomId e stored).1
    rw [shut.unmanaged roomId] at managed
    cases managed

end

end Blueboat
