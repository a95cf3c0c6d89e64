import Mathlib.Data.Finset.Max
import Blueboat.Presence
import Blueboat.Windows

set_option autoImplicit false

/-! The server is never stuck: the thread of the scheduler does not wait for anything, and whatever
another thread waits for, a timer is set for. -/
namespace Blueboat

open Protocol LockMachine Ledger

/-! Every pending call has its timer. -/

def Stores.Armed (k : Stores) (v : ℕ) : Prop :=
  ∃ task : Task, task.callback = .reconnect v ∧ k.cancelled task.id = false ∧
    (task ∈ k.tasks ∨ task ∈ k.working)

structure Timely (k : Stores) : Prop where
  armed : ∀ v, k.Waiting v → k.Armed v
  distinct : ∀ {v v'}, v < k.nextWait → v' < k.nextWait → (k.waits v).timer = (k.waits v').timer →
    v = v'
  unset : ∀ i, k.cancelled i = true → i < k.nextTask

section
variable {M : MsgpackC} {J : JsonText} {w : World} {cmd : Cmd} {a : Answer} {o : Out}

theorem Ledger.resolve_resolved (k : Ledger) (v : ℕ) (value : Bool) :
    ((k.resolve v value).waits v).promise ≠ none := by
  unfold Ledger.resolve
  dsimp only
  split
  · rename_i found
    rw [found]
    exact Option.some_ne_none _
  · simp

theorem Ledger.finishDispose_cancelled (k : Ledger) (r : RoomRef) (i : ℕ) :
    (k.finishDispose r).cancelled i = true → k.cancelled i = true ∨
      (k.lives r).autoDisposeTimer = some i := by
  unfold Ledger.finishDispose
  simp only [setLife_toStores]
  cases timer : (k.lives r).autoDisposeTimer with
  | none =>
    cases (k.lives r).gameMessageSub <;> cases (k.lives r).playerLeftSub <;> exact .inl
  | some j =>
    have updated : Function.update k.cancelled j true i = true → k.cancelled i = true ∨ some j = some i := by
      intro set
      by_cases here : i = j
      · exact .inr (congrArg some here.symm)
      · rw [Function.update_of_ne here] at set
        exact .inl set
    cases (k.lives r).gameMessageSub <;> cases (k.lives r).playerLeftSub <;> exact updated

/-- Only a rejoin cancels the timer of a call, and it resolves the call. -/
theorem Effect.silences (h : Effect J w cmd a o) (sound : w.ledger.Sound) {v : ℕ}
    (made : v < w.nextWait) (distinct : ∀ {v'}, v' < w.nextWait →
      (w.waits v).timer = (w.waits v').timer → v = v')
    (before : w.cancelled (w.waits v).timer = false)
    (after : o.world.cancelled (w.waits v).timer = true) : (o.world.waits v).promise ≠ none := by
  have kept : ∀ {k : Stores}, o.world.toStores = k → k.cancelled = w.cancelled → False := by
    intro k stores same
    rw [stores, same, before] at after
    cases after
  have still : ∀ {k : Ledger}, o.world.ledger = k → k.cancelled = w.cancelled → False :=
    fun ledger same => kept (congrArg Ledger.toStores ledger) same
  cases h with
  | still ledger | emptied ledger | purged ledger | birth _ ledger | stored _ ledger
  | openInfo ledger | closeInfo ledger | removed _ ledger | listened ledger | admitted ledger
  | registered _ ledger | unrecorded _ ledger | granted _ ledger => exact (still ledger rfl).elim
  | disposed _ ledger =>
    exact (kept ((congrArg Ledger.toStores ledger).trans (dispose_stores w.ledger _ _)) rfl).elim
  | @autoDisposed task a r w' push callback ledger =>
    refine (kept (k := { w.toStores with working := w.working.erase task }) ?_ rfl).elim
    refine (congrArg Ledger.toStores ledger).trans ?_
    rw [← started_dispose]
    exact dispose_stores _ _ _
  | @timedOut task a v w' callback ledger =>
    obtain ⟨waits, resolved⟩ := reconnectTimeout_stores (w.ledger.started task) v
    refine (kept (k := { w.toStores with working := w.working.erase task, waits := waits }) ?_ rfl).elim
    refine (congrArg Ledger.toStores ledger).trans ?_
    rw [← started_reconnectTimeout]
    exact resolved
  | @rejoined r client id v' left a w' listens ledger =>
    have stores := congrArg Ledger.toStores ledger
    by_cases same : v = v'
    · subst same
      have resolved := Ledger.resolve_resolved w.ledger v true
      have waits := congrArg Stores.waits stores
      exact fun open' => resolved ((congrArg (fun f => (f v).promise) waits).symm.trans open')
    · have made' := (sound.listens listens).1
      have other : (w.waits v).timer ≠ (w.waits v').timer := fun timer => same (distinct made' timer)
      obtain ⟨waits, resolved⟩ := rejoined_stores w.ledger v'
      have cancelled := congrArg Stores.cancelled (stores.trans resolved)
      have untouched : w'.cancelled (w.waits v).timer = w.cancelled (w.waits v).timer :=
        (congrFun cancelled _).trans (Function.update_of_ne other ..)
      cases before.symm.trans (untouched.symm.trans after)
  | @withdrawn r _ _ ledger =>
    have set : (w.ledger.finishDispose r).cancelled (w.waits v).timer = true := by
      rw [← ledger]
      exact after
    rcases Ledger.finishDispose_cancelled w.ledger r _ set with set | timer
    · cases before.symm.trans set
    · exact absurd timer (sound.waitTimer made)
  | @gone r _ _ ledger =>
    exact (kept ((congrArg Ledger.toStores ledger).trans (onRoomDisposed_stores w.ledger r)) rfl).elim
  | @ended sessionId _ _ ledger =>
    obtain ⟨sessions, ended⟩ := endOp_stores w.ledger sessionId
    exact (kept ((congrArg Ledger.toStores ledger).trans ended) rfl).elim

/-- What the call of `allow_reconnection` adds, if that is what the command does. -/
theorem exec_pending (run : exec M J w cmd a = some o) :
    (o.world.nextWait = w.nextWait ∧
      ∀ v, (o.world.waits v).promise = none → (w.waits v).promise = none) ∨
    ∃ wait due, wait.timer = w.nextTask ∧ o.world.nextWait = w.nextWait + 1 ∧
      o.world.waits = Function.update w.waits w.nextWait wait ∧
      o.world.tasks = w.tasks ++ [⟨w.nextTask, due, .reconnect w.nextWait⟩] ∧
      o.world.working = w.working ∧ o.world.cancelled = w.cancelled := by
  cases (exec_effect M J run).grants with
  | kept nextWait _ open' => exact .inl ⟨nextWait, open'⟩
  | @granted r hook clientId seconds wait nextWait =>
    simp only [exec, inHook] at run
    split at run
    · obtain rfl := Option.some.inj run
      have same : (w.touch r).nextWait = w.nextWait := by unfold World.touch; split <;> rfl
      exact absurd (same.symm.trans nextWait) (Nat.succ_ne_self _).symm
    · obtain rfl := Option.some.inj run
      right
      unfold World.touch
      split <;> exact ⟨_, _, rfl, rfl, rfl, rfl, rfl, rfl⟩

theorem timerBody_resolves {task : Task} {v : ℕ} (callback : task.callback = .reconnect v)
    (run : exec M J w (.timerBody task) a = some o) : (o.world.waits v).promise ≠ none := by
  obtain rfl := Option.some.inj run
  unfold timerBody
  rw [callback]
  have ledger := ledger_reconnectTimeout { w with working := w.working.erase task } v
  have waits := congrArg (fun k : Ledger => (k.waits v).promise) ledger
  exact fun open' => Ledger.resolve_resolved _ v _ (waits.symm.trans open')

/-- Whatever a command does, each call that stays pending keeps its timer. -/
theorem exec_timely (run : exec M J w cmd a = some o) (sound : w.ledger.Sound)
    (ok : cmd.Ok w.ledger) (timely : Timely w.toStores) : Timely o.world.toStores := by
  have effect := exec_effect M J run
  have retimes := effect.retimes sound
  have later := (effect.sound sound ok).2
  have timers : ∀ {v}, v < w.nextWait → v < o.world.nextWait ∧
      (o.world.waits v).timer = (w.waits v).timer := fun {v} made =>
    later.recorded (t := ⟨(w.waits v).timer, 0, .reconnect v⟩) ⟨made, rfl⟩
  have stays : ∀ {v}, v < w.nextWait → (w.waits v).promise = none →
      (o.world.waits v).promise = none → o.world.toStores.Armed v := by
    intro v made pending pending'
    obtain ⟨task, callback, live, place⟩ := timely.armed v ⟨made, pending⟩
    have timer : (w.waits v).timer = task.id := by
      have recorded : w.ledger.Recorded task := sound.task place
      rw [Recorded, callback] at recorded
      exact recorded.2
    refine ⟨task, callback, ?_, ?_⟩
    · by_contra silenced
      rw [← timer] at live silenced
      exact effect.silences sound made (timely.distinct made) live (by simpa using silenced) pending'
    · cases retimes with
      | kept tasks working | cancelled tasks working => rwa [tasks, working]
      | set tasks working =>
        rw [tasks, working]
        exact place.imp_left (List.mem_append_left _)
      | @ran ran tasks working =>
        rw [tasks, working]
        by_cases here : task = ran
        · exact absurd pending' (timerBody_resolves callback (here ▸ run))
        · exact place.imp_right (List.mem_erase_of_ne here).2
  refine ⟨fun v waiting => ?_, fun {v v'} made made' same => ?_, retimes.unset sound timely.unset⟩
  · obtain ⟨made, pending⟩ := waiting
    rcases exec_pending run with ⟨nextWait, open'⟩ | ⟨wait, due, timer, nextWait, waits, tasks, -, cancelled⟩
    · exact stays (nextWait ▸ made) (open' v pending) pending
    · by_cases new : v = w.nextWait
      · subst new
        refine ⟨⟨w.nextTask, due, .reconnect w.nextWait⟩, rfl, ?_, ?_⟩
        · rw [cancelled]
          by_contra set
          exact absurd (timely.unset _ (by simpa using set)) (Nat.lt_irrefl _)
        · rw [tasks]
          exact .inl (List.mem_append_right _ List.mem_cons_self)
      · rw [nextWait] at made
        rw [waits, Function.update_of_ne new] at pending
        exact stays (by omega) pending (by rw [waits, Function.update_of_ne new]; exact pending)
  · rcases exec_pending run with ⟨nextWait, -⟩ | ⟨wait, due, timer, nextWait, waits, -⟩
    · rw [nextWait] at made made'
      rw [(timers made).2, (timers made').2] at same
      exact timely.distinct made made' same
    · have older : ∀ {u}, u < o.world.nextWait → u ≠ w.nextWait →
          u < w.nextWait ∧ (o.world.waits u).timer < w.nextTask := by
        intro u made other
        have born : u < w.nextWait := by omega
        rw [(timers born).2]
        exact ⟨born, (sound.wait born).1⟩
      have newest : (o.world.waits w.nextWait).timer = w.nextTask := by
        rw [waits, Function.update_self]
        exact timer
      by_cases new : v = w.nextWait
      · by_cases new' : v' = w.nextWait
        · rw [new, new']
        · subst new
          have below := (older made' new').2
          omega
      · by_cases new' : v' = w.nextWait
        · subst new'
          have below := (older made new).2
          omega
        · rw [(timers (older made new).1).2, (timers (older made' new').1).2] at same
          exact timely.distinct (older made new).1 (older made' new').1 same

end

/-! The turns of the scheduler's thread. -/

def Cmd.scheduled : Cmd → Bool
  | .timerBody _ => true
  | .workerDone => true
  | _ => false

/-- What a thread has left to do: on the scheduler's, the whole turn, or commands of rooms that are
being disposed of and the end of the turn. -/
inductive Turn (w : World) : Thread Tid Cmd Exn → Prop where
  | start {task : Task} : Turn w ⟨.worker, [.timerBody task, .workerDone], none⟩
  | middle {above : List Cmd} {x : Option Exn} (quiet : ∀ cmd ∈ above, Quiet w.ledger cmd) :
    Turn w ⟨.worker, above ++ [.workerDone], x⟩
  | finished {x : Option Exn} : Turn w ⟨.worker, [], x⟩
  | other {t : Thread Tid Cmd Exn} (tid : t.tid ≠ .worker)
      (plain : ∀ cmd ∈ t.stack, cmd.scheduled = false) : Turn w t

section
variable {M : MsgpackC} {J : JsonText} {w w' : World} {cmd : Cmd} {a : Answer} {o : Out}

theorem Turn.later {t : Thread Tid Cmd Exn} (turn : Turn w t) {made : Option RoomRef}
    (later : Later w.ledger w'.ledger made) : Turn w' t := by
  cases turn with
  | start => exact .start
  | middle quiet => exact .middle fun cmd mem => later.quiet (quiet cmd mem)
  | finished => exact .finished
  | other tid plain => exact .other tid plain

theorem Pushed.unscheduled {c : Cmd} (h : Pushed w cmd a c) : c.scheduled = false := by
  cases h with
  | child child => cases child <;> rfl
  | leave _ mem =>
    have family := (leaveOf_family c mem).1
    cases c <;> first | rfl | cases family
  | _ => rfl

theorem Quiet.unscheduled {k : Ledger} (quiet : Quiet k cmd) : cmd.scheduled = false := by
  obtain ⟨r, family, -⟩ := quiet
  cases cmd <;> first | rfl | cases family

/-- What a timer leaves to do is the disposal that it has begun. -/
theorem timerBody_quiet {task : Task} (effect : Effect J w (.timerBody task) a o)
    (sound : w.ledger.Sound) (ok : (Cmd.timerBody task).Ok w.ledger) :
    ∀ c ∈ o.push, Quiet o.world.ledger c := by
  have later := (effect.sound sound ok).2
  cases effect with
  | still _ children => exact fun c mem => nomatch children c mem
  | timedOut => exact nofun
  | removed calls => cases calls
  | disposed calls => cases calls
  | @autoDisposed _ _ r w' push callback ledger starts =>
    have recorded : w.ledger.Recorded task := ok
    rw [Recorded, callback] at recorded
    intro c mem
    obtain rfl := mem_disposal starts mem
    refine ⟨r, rfl, lt_of_lt_of_le recorded.1.1 later.nextRoom, ?_⟩
    exact (congrArg (fun k : Ledger => (k.lives r).disposing) ledger).trans
      (disposing_dispose w.ledger r .timer)

theorem Turn.next {tid : Tid} {rest : List Cmd} (turn : Turn w ⟨tid, cmd :: rest, none⟩)
    (effect : Effect J w cmd a o) (base : Base w) (ok : cmd.Ok w.ledger) :
    Turn o.world ⟨tid, o.push ++ rest, o.exn⟩ := by
  obtain ⟨sound, housed⟩ := base
  have later := (effect.sound sound ok).2
  generalize shape : (⟨tid, cmd :: rest, none⟩ : Thread Tid Cmd Exn) = t at turn
  cases turn with
  | start =>
    cases shape
    exact .middle (timerBody_quiet effect sound ok)
  | @middle above x quiet =>
    cases above with
    | nil =>
      cases shape
      have none : o.push = [] := List.eq_nil_iff_forall_not_mem.2 fun c mem => by
        cases effect.pushed mem with
        | child child => cases child
        | leave calls => cases calls
        | disposal calls => cases calls
      rw [none]
      exact .finished
    | cons first above =>
      cases shape
      have pushes := (effect.pushes sound housed ok).quiet (quiet _ List.mem_cons_self)
      have split : o.push ++ above.append [Cmd.workerDone] = (o.push ++ above) ++ [Cmd.workerDone] :=
        (List.append_assoc ..).symm
      rw [split]
      refine .middle fun c mem => ?_
      rcases List.mem_append.1 mem with mem | mem
      · exact pushes c mem
      · exact later.quiet (quiet c (List.mem_cons_of_mem _ mem))
  | finished => cases shape
  | other tid plain =>
    subst shape
    refine .other tid fun c mem => ?_
    rcases List.mem_append.1 mem with mem | mem
    · exact (effect.pushed mem).unscheduled
    · exact plain c (List.mem_cons_of_mem _ mem)

/-- The scheduler's thread never waits. -/
theorem Turn.goes {rest : List Cmd} (turn : Turn w ⟨.worker, cmd :: rest, none⟩)
    (run : exec M J w cmd a = some o) : o.parks = false := by
  generalize shape : (⟨.worker, cmd :: rest, none⟩ : Thread Tid Cmd Exn) = t at turn
  cases turn with
  | start =>
    cases shape
    obtain rfl := Option.some.inj run
    unfold timerBody
    split <;> rfl
  | @middle above x quiet =>
    cases above with
    | nil => cases shape; obtain rfl := Option.some.inj run; rfl
    | cons first above =>
      cases shape
      by_contra parks
      exact ((exec_effect M J run).parks (by simpa using parks)).1 (quiet _ List.mem_cons_self)
  | finished => cases shape
  | other tid => exact absurd (by rw [← shape]) tid

theorem Turn.last {tid : Tid} {rest : List Cmd} {x : Option Exn}
    (turn : Turn w ⟨tid, .workerDone :: rest, x⟩) : rest = [] := by
  generalize shape : (⟨tid, .workerDone :: rest, x⟩ : Thread Tid Cmd Exn) = t at turn
  cases turn with
  | start | finished => cases shape
  | @middle above x' quiet =>
    cases above with
    | nil => cases shape; rfl
    | cons first above =>
      cases shape
      cases (quiet _ List.mem_cons_self).unscheduled
  | other _ plain =>
    subst shape
    cases plain _ List.mem_cons_self

theorem timerBody_working {task : Task} (run : exec M J w (.timerBody task) a = some o) :
    o.world.working = w.working.erase task := by
  obtain rfl := Option.some.inj run
  unfold timerBody
  split
  · rename_i r _
    have ledger := (dispose_cases { w with working := w.working.erase task } r .timer).1
    exact congrArg Stores.working ((congrArg Ledger.toStores ledger).trans (dispose_stores _ _ _))
  · rename_i v _
    have ledger := ledger_reconnectTimeout { w with working := w.working.erase task } v
    obtain ⟨waits, stores⟩ :=
      reconnectTimeout_stores (World.ledger { w with working := w.working.erase task }) v
    exact congrArg Stores.working ((congrArg Ledger.toStores ledger).trans stores)

theorem Turn.raised {tid : Tid} {rest : List Cmd} {x : Exn}
    (turn : Turn w ⟨tid, cmd :: rest, some x⟩) (effect : Unwound w cmd x a o) :
    Turn o.world ⟨tid, o.push ++ rest, o.exn⟩ := by
  generalize shape : (⟨tid, cmd :: rest, some x⟩ : Thread Tid Cmd Exn) = t at turn
  cases turn with
  | start => cases shape
  | @middle above x' quiet =>
    cases above with
    | nil =>
      cases shape
      have none : o.push = [] := List.eq_nil_iff_forall_not_mem.2 fun c mem => by
        cases effect.resumed mem
      rw [none]
      exact .finished
    | cons first above =>
      cases shape
      have family := (quiet _ List.mem_cons_self).choose_spec.1
      cases effect with
      | passed => exact .middle fun c mem => quiet c (List.mem_cons_of_mem _ mem)
      | caught none => cases none.symm.trans family
      | handled => exact .middle quiet
      | rolledBack => cases family
  | finished => cases shape
  | other tid plain =>
    subst shape
    refine .other tid fun c mem => ?_
    rcases List.mem_append.1 mem with mem | mem
    · cases effect.resumed mem <;> rfl
    · exact plain c (List.mem_cons_of_mem _ mem)

end

/-! One turn at a time. -/

def Cmd.ticket : Cmd → Option Unit
  | .workerDone => some ()
  | _ => none

def Busy (w : World) (_ : Unit) : Prop := w.workerBusy = true

section
variable {M : MsgpackC} {J : JsonText} {w w' : World} {cmd : Cmd} {a : Answer} {o : Out}

theorem ticket_of_ne (other : cmd ≠ .workerDone) : cmd.ticket = none := by
  cases cmd with
  | workerDone => exact absurd rfl other
  | _ => rfl

theorem no_tickets {push : List Cmd} (plain : ∀ c ∈ push, c.scheduled = false) :
    push.filterMap Cmd.ticket = [] :=
  List.filterMap_eq_nil_iff.2 fun c mem => ticket_of_ne fun done => by
    cases (congrArg Cmd.scheduled done).symm.trans (plain c mem)

theorem exec_busy (run : exec M J w cmd a = some o) (other : cmd ≠ .workerDone) :
    o.world.workerBusy = w.workerBusy := by
  have plain : cmd.books = false → o.world.workerBusy = w.workerBusy := fun plain =>
    (exec_aside run plain).1
  cases cmd with
  | openConnection | endOp =>
    obtain rfl := Option.some.inj run
    first | rfl | (change (endOp w _).workerBusy = _; unfold endOp; split <;> rfl)
  | recordActivity =>
    simp only [exec] at run
    split at run <;> cases run <;> rfl
  | workerDone => exact absurd rfl other
  | _ => exact plain rfl

/-- A timer goes off only when the scheduler's thread is free. -/
theorem spawn_fire {index : ℕ} {new : List (Tid × List Cmd)}
    (run : spawn w (.fire index) = some (w', new)) :
    w.workerBusy = false ∧ ∃ task, w.tasks[index]? = some task ∧
      ((w.cancelled task.id = true ∧ new = [] ∧
          w' = { w with tasks := w.tasks.eraseIdx index }) ∨
        (w.cancelled task.id = false ∧ new = [(.worker, [.timerBody task, .workerDone])] ∧
          w' = { w with
            tasks := w.tasks.eraseIdx index
            working := task :: w.working
            workerBusy := true })) := by
  simp only [spawn] at run
  split at run
  · cases run
  · rename_i task listed
    split at run
    · cases run
    · rename_i free
      have idle : w.workerBusy = false := by simpa using fun busy => free (.inl busy)
      refine ⟨idle, task, listed, ?_⟩
      split at run
      · rename_i cancelled
        cases run
        exact .inl ⟨cancelled, rfl, rfl⟩
      · rename_i live
        cases run
        exact .inr ⟨by simpa using live, rfl, rfl⟩

/-- Nothing else starts anything on it. -/
theorem spawn_plain {e : EnvEvent} {new : List (Tid × List Cmd)} (run : spawn w e = some (w', new))
    (other : ∀ index, e ≠ .fire index) : w'.working = w.working ∧ w'.workerBusy = w.workerBusy ∧
      ∀ p ∈ new, p.1 ≠ .worker ∧ ∀ cmd ∈ p.2, cmd.scheduled = false := by
  cases spawn_arrival run with
  | dropped | fired => exact absurd rfl (other _)
  | tick => exact ⟨rfl, rfl, nofun⟩
  | _ => exact ⟨rfl, rfl, by simp [Cmd.scheduled]⟩

theorem turns_conserved (M : MsgpackC) (J : JsonText) :
    Conserved (server M J) Cmd.ticket Busy fun _ => True where
  exec := fun {w cmd a o} _ run => by
    have none := no_tickets fun c mem => ((exec_effect M J run).pushed mem).unscheduled
    refine ⟨by rw [none]; exact .nil, by rw [none]; nofun, by rw [none]; nofun, fun k live other => ?_⟩
    exact (exec_busy run fun done => other (by rw [done]; rfl)).trans live
  unwind := fun {w cmd x a o} _ run => by
    have none : o.push.filterMap Cmd.ticket = [] := no_tickets fun c mem => by
      cases (unwind_effect run).resumed mem <;> rfl
    refine ⟨by rw [none]; exact .nil, by rw [none]; nofun, by rw [none]; nofun, fun k live _ => ?_⟩
    exact (unwind_local run).workerBusy.trans live
  spawn := fun {w w' e new} _ run => by
    have arrival : Arrival w e w' new := spawn_arrival run
    cases e with
    | fire index =>
      obtain ⟨idle, task, -, ⟨-, rfl, rfl⟩ | ⟨-, rfl, rfl⟩⟩ := spawn_fire run
      · exact ⟨.nil, nofun, fun _ live => live⟩
      · refine ⟨List.nodup_singleton _, fun k _ => ⟨fun busy => ?_, rfl⟩, fun _ _ => rfl⟩
        cases idle.symm.trans busy
    | _ =>
      cases arrival
      all_goals exact ⟨List.nodup_nil, nofun, fun _ live => live⟩

end

/-- The scheduler's thread has one turn at a time, and a turn that has begun is not suspended. -/
structure Scheduling (c : ServerConfig) : Prop where
  turns : ∀ t ∈ c.threads, Turn c.world t
  whole : ∀ t ∈ c.parked, t.tid = .worker → ∃ task, t = ⟨.worker, [.timerBody task, .workerDone], none⟩
  single : Distinct Cmd.ticket Busy c
  busy : c.world.workerBusy = true → () ∈ c.tokens Cmd.ticket ∨
    ∃ tid x, c.running = some ⟨tid, [], some x⟩
  working : ∀ task ∈ c.world.working, ⟨.worker, [.timerBody task, .workerDone], none⟩ ∈ c.threads
  one : c.world.working.length ≤ 1

section
variable {M : MsgpackC} {J : JsonText} {c c' : ServerConfig} {l : Label Answer EnvEvent}

/-- While the scheduler's thread is busy and is not just ending with an exception, its turn is held. -/
theorem Scheduling.held (scheduling : Scheduling c) (busy : c.world.workerBusy = true)
    (goes : ∀ tid x, c.running ≠ some ⟨tid, [], some x⟩) : () ∈ c.tokens Cmd.ticket := by
  rcases scheduling.busy busy with held | ⟨tid, x, ends⟩
  · exact held
  · exact absurd ends (goes tid x)

theorem Scheduling.initial : Scheduling ServerConfig.initial :=
  ⟨nofun, nofun, ⟨.nil, nofun⟩, nofun, nofun, Nat.zero_le _⟩

theorem Quiet.step (kept : Kept c) (h : Step (server M J) c l c') {cmd : Cmd}
    (quiet : Quiet c.world.ledger cmd) : Quiet c'.world.ledger cmd := by
  obtain ⟨r, family, born, disposing⟩ := quiet
  exact ⟨r, family, kept.stays_disposing h born disposing⟩

theorem Turn.step (kept : Kept c) (h : Step (server M J) c l c') {t : Thread Tid Cmd Exn}
    (turn : Turn c.world t) : Turn c'.world t := by
  cases turn with
  | start => exact .start
  | middle quiet => exact .middle fun cmd mem => (quiet cmd mem).step kept h
  | finished => exact .finished
  | other tid plain => exact .other tid plain

/-- A timer that is being run has its thread, before and after a command of another one. -/
theorem Scheduling.working_settle {tid : Tid} {cmd : Cmd} {rest : List Cmd} {x : Option Exn} {o : Out}
    (scheduling : Scheduling c) (top : c.running = some ⟨tid, cmd :: rest, x⟩) {task : Task}
    (mem : task ∈ c.world.working) (other : x = none → cmd ≠ .timerBody task) :
    ⟨.worker, [.timerBody task, .workerDone], none⟩ ∈ (settle c tid rest o).threads := by
  refine (threads_settle c tid rest o).mem_iff.2 (List.mem_cons_of_mem _ ?_)
  have before := scheduling.working task mem
  rw [Config.threads, top, Option.toList_some, List.singleton_append] at before
  refine (List.mem_cons.1 before).resolve_left fun same => ?_
  cases same
  exact other rfl rfl

theorem Scheduling.exec {tid : Tid} {cmd : Cmd} {rest : List Cmd} {a : Answer} {o : Out}
    (scheduling : Scheduling c) (kept : Kept c) (h : Step (server M J) c (.act a) (settle c tid rest o))
    (top : c.running = some ⟨tid, cmd :: rest, none⟩) (run : exec M J c.world cmd a = some o) :
    Scheduling (settle c tid rest o) := by
  have effect := exec_effect M J run
  have ok : cmd.Ok c.world.ledger := (kept.stack top).ok cmd List.mem_cons_self
  have turn := scheduling.turns _ (running_mem_threads top)
  have retimes := effect.retimes kept.sound
  have fewer : o.world.working = c.world.working ∨ ∃ task, cmd = .timerBody task ∧
      o.world.working = c.world.working.erase task := by
    cases retimes with
    | kept _ working | set _ working | cancelled _ working => exact .inl working
    | ran _ working => exact .inr ⟨_, rfl, working⟩
  refine ⟨fun t mem => ?_, fun t mem here => ?_, ?_, fun busy => ?_, fun task mem => ?_, ?_⟩
  · rcases List.mem_cons.1 ((threads_settle c tid rest o).mem_iff.1 mem) with rfl | mem
    · rw [world_settle]
      exact turn.next effect ⟨kept.sound, kept.housed⟩ ok
    · exact (scheduling.turns t (List.mem_append_right _ mem)).step kept h
  · rcases parked_settle mem with mem | ⟨parks, rfl⟩
    · exact scheduling.whole t mem here
    · obtain rfl : tid = .worker := here
      cases (turn.goes run).symm.trans parks
  · exact (turns_conserved M J).step _ _ scheduling.single trivial h
  · left
    rw [world_settle] at busy
    have other : cmd ≠ .workerDone := by
      rintro rfl
      obtain rfl := Option.some.inj run
      cases busy
    rw [exec_busy run other] at busy
    have held := scheduling.held busy fun tid' x ends => by cases top.symm.trans ends
    apply h.keeps_token _ _ held
    intro tid' cmd' rest' x top' ticket
    cases top.symm.trans top'
    cases (ticket_of_ne other).symm.trans ticket
  · rw [world_settle] at mem
    have before : task ∈ c.world.working := by
      rcases fewer with same | ⟨ran, -, erased⟩
      · exact same ▸ mem
      · exact List.mem_of_mem_erase (erased ▸ mem)
    apply scheduling.working_settle top before
    rintro - rfl
    rw [timerBody_working run] at mem
    have one := scheduling.one
    have length := List.length_erase_of_mem before
    have left := List.length_pos_of_mem mem
    omega
  · rw [world_settle]
    rcases fewer with same | ⟨ran, -, erased⟩
    · rw [same]; exact scheduling.one
    · rw [erased]
      exact le_trans (List.length_erase_le ..) scheduling.one

theorem Scheduling.unwind {tid : Tid} {cmd : Cmd} {rest : List Cmd} {x : Exn} {a : Answer} {o : Out}
    (scheduling : Scheduling c) (kept : Kept c) (h : Step (server M J) c (.act a) (settle c tid rest o))
    (top : c.running = some ⟨tid, cmd :: rest, some x⟩)
    (run : Blueboat.unwind c.world cmd x a = some o) : Scheduling (settle c tid rest o) := by
  have effect := unwind_effect run
  have turn := scheduling.turns _ (running_mem_threads top)
  have stores := effect.stores
  have working : o.world.working = c.world.working := congrArg Stores.working stores
  refine ⟨fun t mem => ?_, fun t mem here => ?_, ?_, fun busy => ?_, fun task mem => ?_, ?_⟩
  · rcases List.mem_cons.1 ((threads_settle c tid rest o).mem_iff.1 mem) with rfl | mem
    · rw [world_settle]
      exact turn.raised effect
    · exact (scheduling.turns t (List.mem_append_right _ mem)).step kept h
  · rcases parked_settle mem with mem | ⟨parks, -⟩
    · exact scheduling.whole t mem here
    · cases effect <;> cases parks
  · exact (turns_conserved M J).step _ _ scheduling.single trivial h
  · rw [world_settle] at busy
    have same : o.world.workerBusy = c.world.workerBusy := (unwind_local run).workerBusy
    rw [same] at busy
    have held := scheduling.held busy fun tid' x ends => by cases top.symm.trans ends
    by_cases done : cmd = .workerDone
    · right
      subst done
      obtain rfl := Option.some.inj run
      obtain rfl := turn.last
      exact ⟨tid, x, rfl⟩
    · left
      apply h.keeps_token _ _ held
      intro tid' cmd' rest' x top' ticket
      cases top.symm.trans top'
      cases (ticket_of_ne done).symm.trans ticket
  · rw [world_settle, working] at mem
    exact scheduling.working_settle top mem nofun
  · rw [world_settle, working]
    exact scheduling.one

theorem Scheduling.env {e : EnvEvent} {w : World} {new : List (Tid × List Cmd)}
    (scheduling : Scheduling c) (run : spawn c.world e = some (w, new))
    (turns : ∀ t ∈ c.threads, Turn w t)
    (single : Distinct Cmd.ticket Busy { c with world := w, parked := c.parked ++ new.map Thread.start }) :
    Scheduling { c with world := w, parked := c.parked ++ new.map Thread.start } := by
  have split : ({ c with world := w, parked := c.parked ++ new.map Thread.start } : ServerConfig).threads =
      c.threads ++ new.map Thread.start := (List.append_assoc ..).symm
  have tokens : () ∈ c.tokens Cmd.ticket → () ∈ Config.tokens Cmd.ticket
      { c with world := w, parked := c.parked ++ new.map Thread.start } := by
    intro held
    obtain ⟨t, mem, holds⟩ := List.mem_flatMap.1 held
    have mem' := split.symm ▸ List.mem_append_left (new.map Thread.start) mem
    exact List.mem_flatMap.2 ⟨t, mem', holds⟩
  -- either a timer goes off, or nothing that the scheduler's thread reads changes
  have fires : (∃ task, new = [(.worker, [.timerBody task, .workerDone])] ∧
      w.working = task :: c.world.working ∧ c.world.workerBusy = false) ∨
      (w.working = c.world.working ∧ w.workerBusy = c.world.workerBusy ∧
        ∀ p ∈ new, p.1 ≠ .worker ∧ ∀ cmd ∈ p.2, cmd.scheduled = false) := by
    cases e with
    | fire index =>
      obtain ⟨idle, task, -, ⟨-, rfl, rfl⟩ | ⟨-, rfl, rfl⟩⟩ := spawn_fire run
      · exact .inr ⟨rfl, rfl, nofun⟩
      · exact .inl ⟨task, rfl, rfl, idle⟩
    | _ => exact .inr (spawn_plain run nofun)
  refine ⟨fun t mem => ?_, fun t mem here => ?_, single, fun busy => ?_, fun task mem => ?_, ?_⟩
  · rw [split] at mem
    rcases List.mem_append.1 mem with mem | mem
    · exact turns t mem
    · obtain ⟨p, hp, rfl⟩ := List.mem_map.1 mem
      rcases fires with ⟨task, rfl, -⟩ | ⟨-, -, plain⟩
      · rw [List.mem_singleton.1 hp]
        exact .start
      · exact .other (plain p hp).1 (plain p hp).2
  · rcases List.mem_append.1 mem with mem | mem
    · exact scheduling.whole t mem here
    · obtain ⟨p, hp, rfl⟩ := List.mem_map.1 mem
      rcases fires with ⟨task, rfl, -⟩ | ⟨-, -, plain⟩
      · rw [List.mem_singleton.1 hp]
        exact ⟨task, rfl⟩
      · exact absurd here (plain p hp).1
  · rcases fires with ⟨task, rfl, -⟩ | ⟨-, same, -⟩
    · left
      refine List.mem_flatMap.2 ⟨Thread.start (.worker, [.timerBody task, .workerDone]), ?_, ?_⟩
      · rw [← Config.threads, split]
        exact List.mem_append_right _ List.mem_cons_self
      · exact List.mem_cons_self
    · exact (scheduling.busy (same ▸ busy)).imp_left tokens
  · rw [split]
    rcases fires with ⟨started, rfl, working, -⟩ | ⟨working, -⟩
    · rw [working] at mem
      rcases List.mem_cons.1 mem with rfl | mem
      · exact List.mem_append_right _ List.mem_cons_self
      · exact List.mem_append_left _ (scheduling.working task mem)
    · exact List.mem_append_left _ (scheduling.working task (working ▸ mem))
  · rcases fires with ⟨started, rfl, working, idle⟩ | ⟨working, -⟩
    · have none : c.world.working = [] := by
        rw [List.eq_nil_iff_forall_not_mem]
        intro task mem
        have held : () ∈ c.tokens Cmd.ticket :=
          List.mem_flatMap.2 ⟨_, scheduling.working task mem, List.mem_cons_self⟩
        cases idle.symm.trans (scheduling.single.2 _ held)
      exact (congrArg List.length working).trans_le (by rw [none]; exact le_rfl)
    · exact (congrArg List.length working).trans_le scheduling.one

theorem Scheduling.step (scheduling : Scheduling c) (kept : Kept c)
    (h : Step (server M J) c l c') : Scheduling c' := by
  have single : Distinct Cmd.ticket Busy c' :=
    (turns_conserved M J).step _ _ scheduling.single trivial h
  have turns : ∀ t ∈ c.threads, Turn c'.world t := fun t mem => (scheduling.turns t mem).step kept h
  cases h with
  | finish _ top =>
    have parked : ∀ {t : Thread Tid Cmd Exn}, t ∈ c.parked → t ∈ c.threads := List.mem_append_right _
    refine ⟨fun t mem => turns t (parked mem), scheduling.whole, single, fun busy => .inl ?_,
      fun task mem => ?_, scheduling.one⟩
    · have held := scheduling.held busy fun tid' x ends => by cases top.symm.trans ends
      simpa [Config.tokens, Thread.tokens, top] using held
    · have before := scheduling.working task mem
      rw [Config.threads, top, Option.toList_some, List.singleton_append] at before
      exact (List.mem_cons.1 before).resolve_left fun same => by cases same
  | crash => exact ⟨turns, scheduling.whole, single, scheduling.busy, scheduling.working, scheduling.one⟩
  | exec alive top run => exact scheduling.exec kept (.exec alive top run) top run
  | unwind alive top run => exact scheduling.unwind kept (.unwind alive top run) top run
  | @take i t _ free at_i =>
    have threads := threads_take free at_i
    refine ⟨fun t mem => turns t (threads.mem_iff.1 mem),
      fun t mem => scheduling.whole t (List.mem_of_mem_eraseIdx mem), single, fun busy => .inl ?_,
      fun task mem => threads.mem_iff.2 (scheduling.working task mem), scheduling.one⟩
    have held := scheduling.held busy fun tid' x ends => by cases free.symm.trans ends
    exact (threads.flatMap_right (Thread.tokens Cmd.ticket)).mem_iff.2 held
  | env _ run => exact scheduling.env run turns single

end

/-! What a thread waits for. -/

section
variable {M : MsgpackC} {J : JsonText} {w w' : World} {cmd : Cmd} {a : Answer} {o : Out}
  {c c' : ServerConfig} {l : Label Answer EnvEvent}

theorem nextWait_mono (run : exec M J w cmd a = some o) : w.nextWait ≤ o.world.nextWait := by
  rcases exec_pending run with ⟨nextWait, -⟩ | ⟨_, _, -, nextWait, -⟩ <;> omega

/-- Only the call of `allow_reconnection` waits, and for what it has just set. -/
theorem Effect.awaits (h : Effect J w cmd a o) {v : ℕ} (mem : .futureGet v ∈ o.push) :
    v < o.world.nextWait := by
  have off : ∀ {r : RoomRef} {client : SimpleClient} {intentional : Bool} {listeners : List ℕ},
      Cmd.futureGet v ∉ leaveOf r client intentional listeners := fun mem => by
    cases (leaveOf_family _ mem).1
  cases h with
  | still _ children => cases children _ mem
  | removed calls _ leaves =>
    rcases List.mem_append.1 mem with mem | mem
    · rcases leaves with ⟨-, rfl⟩ | ⟨client, listeners, -, rfl⟩
      · cases mem
      · exact absurd mem off
    · cases calls <;> cases List.mem_singleton.1 mem
  | disposed calls _ starts =>
    rcases List.mem_append.1 mem with mem | mem
    · cases mem_disposal starts mem
    · cases calls with
      | hook | shutdown => cases List.mem_singleton.1 mem
      | lastLeave => cases mem
  | autoDisposed _ _ starts => cases mem_disposal starts mem
  | granted _ ledger =>
    have nextWait := congrArg (fun k : Ledger => k.nextWait) ledger
    have here : v = w.nextWait := by simpa using mem
    rw [here]
    exact (Nat.lt_succ_self _).trans_eq nextWait.symm
  | _ => simp [Outcome.push] at mem

theorem Timely.same {k k' : Stores} (timely : Timely k) (nextWait : k'.nextWait = k.nextWait)
    (waits : k'.waits = k.waits) (tasks : ∀ task, task ∈ k.tasks → k.cancelled task.id = false →
      task ∈ k'.tasks ∨ task ∈ k'.working) (working : ∀ task ∈ k.working, task ∈ k'.working)
    (cancelled : k'.cancelled = k.cancelled) (nextTask : k'.nextTask = k.nextTask) : Timely k' := by
  refine ⟨fun v waiting => ?_, fun {v v'} made made' same => ?_, ?_⟩
  · rw [Stores.Waiting, nextWait, waits] at waiting
    obtain ⟨task, callback, live, place⟩ := timely.armed v waiting
    refine ⟨task, callback, cancelled ▸ live, ?_⟩
    exact place.elim (fun mem => tasks task mem live) fun mem => .inr (working task mem)
  · rw [nextWait] at made made'
    rw [waits] at same
    exact timely.distinct made made' same
  · rw [cancelled, nextTask]
    exact timely.unset

theorem Arrival.timely {e : EnvEvent} {new : List (Tid × List Cmd)} (h : Arrival w e w' new)
    (timely : Timely w.toStores) : Timely w'.toStores := by
  cases h with
  | dropped listed cancelled =>
    refine timely.same rfl rfl (fun task mem live => ?_) (fun _ mem => mem) rfl rfl
    rcases mem_eraseIdx_or listed mem with rfl | mem
    · cases live.symm.trans cancelled
    · exact .inl mem
  | fired listed =>
    refine timely.same rfl rfl (fun task mem live => ?_) (fun _ => List.mem_cons_of_mem _) rfl rfl
    rcases mem_eraseIdx_or listed mem with rfl | mem
    · exact .inr List.mem_cons_self
    · exact .inl mem
  | _ => exact timely.same rfl rfl (fun _ mem _ => .inl mem) (fun _ mem => mem) rfl rfl

structure Unstuck (c : ServerConfig) : Prop where
  kept : Kept c
  timely : Timely c.world.toStores
  scheduling : Scheduling c
  awaits : ∀ t ∈ c.threads, ∀ v, .futureGet v ∈ t.stack → v < c.world.nextWait

theorem Unstuck.initial : Unstuck ServerConfig.initial :=
  ⟨.initial, ⟨fun v waiting => absurd waiting.1 v.not_lt_zero,
    fun {v _} made => absurd made v.not_lt_zero, nofun⟩, .initial, nofun⟩

theorem Unstuck.step (unstuck : Unstuck c) (h : Step (server M J) c l c') : Unstuck c' := by
  obtain ⟨kept, timely, scheduling, awaits⟩ := unstuck
  refine ⟨kept.step h, ?_, scheduling.step kept h, ?_⟩
  · cases h with
    | finish | crash | take => exact timely
    | @exec tid cmd rest a o _ top run =>
      rw [world_settle]
      exact exec_timely run kept.sound ((kept.stack top).ok cmd List.mem_cons_self) timely
    | unwind _ top run =>
      rw [world_settle, (unwind_effect run).stores]
      exact timely
    | env _ run => exact (spawn_arrival run).timely timely
  · cases h with
    | finish => exact fun t mem => awaits t (List.mem_append_right _ mem)
    | crash => exact awaits
    | @exec tid cmd rest a o _ top run =>
      intro t mem v waits
      rw [world_settle]
      have mono := nextWait_mono run
      rcases List.mem_cons.1 ((threads_settle c tid rest o).mem_iff.1 mem) with rfl | mem
      · rcases List.mem_append.1 waits with pushed | below
        · exact (exec_effect M J run).awaits pushed
        · exact lt_of_lt_of_le
            (awaits _ (running_mem_threads top) v (List.mem_cons_of_mem _ below)) mono
      · exact lt_of_lt_of_le (awaits t (List.mem_append_right _ mem) v waits) mono
    | @unwind tid cmd rest x a o _ top run =>
      intro t mem v waits
      rw [world_settle, (unwind_effect run).stores]
      rcases List.mem_cons.1 ((threads_settle c tid rest o).mem_iff.1 mem) with rfl | mem
      · rcases List.mem_append.1 waits with pushed | below
        · cases (unwind_effect run).resumed pushed
        · exact awaits _ (running_mem_threads top) v (List.mem_cons_of_mem _ below)
      · exact awaits t (List.mem_append_right _ mem) v waits
    | take _ free at_i => exact fun t mem => awaits t ((threads_take free at_i).mem_iff.1 mem)
    | @env e w new _ run =>
      intro t mem v waits
      have arrival := spawn_arrival run
      have nextWait : w.nextWait = c.world.nextWait := by cases arrival <;> rfl
      rw [nextWait]
      rcases List.mem_append.1 mem with mem | mem
      · exact awaits t (List.mem_append_left _ mem) v waits
      · rcases List.mem_append.1 mem with mem | mem
        · exact awaits t (List.mem_append_right _ mem) v waits
        · obtain ⟨p, hp, rfl⟩ := List.mem_map.1 mem
          cases arrival with
          | tick | dropped => cases hp
          | _ =>
            obtain rfl := List.mem_singleton.1 hp
            simp [Thread.start] at waits

theorem Unstuck.run {ok : ServerConfig → Label Answer EnvEvent → Prop}
    {ls : List (Label Answer EnvEvent)} (run : Run (server M J) ok ServerConfig.initial ls c) :
    Unstuck c :=
  run.invariant _ .initial fun unstuck _ h => unstuck.step h

end

/-! Someone can go on. -/

section
variable {M : MsgpackC} {J : JsonText} {c : ServerConfig}

/-- Every pending `allow_reconnection` has a timer that has not been cancelled: it is set, or its callback
is just about to run. -/
theorem wait_never_forgotten {ok : ServerConfig → Label Answer EnvEvent → Prop}
    {ls : List (Label Answer EnvEvent)} (run : Run (server M J) ok ServerConfig.initial ls c)
    {t : Thread Tid Cmd Exn} (mem : t ∈ c.threads) {v : ℕ} (waits : .futureGet v ∈ t.stack)
    (pending : (c.world.waits v).promise = none) :
    ∃ task : Task, task.callback = .reconnect v ∧ c.world.cancelled task.id = false ∧
      (task ∈ c.world.tasks ∨ ⟨.worker, [.timerBody task, .workerDone], none⟩ ∈ c.threads) := by
  have unstuck : Unstuck c := .run run
  obtain ⟨task, callback, live, place⟩ :=
    unstuck.timely.armed v ⟨unstuck.awaits t mem v waits, pending⟩
  exact ⟨task, callback, live, place.imp_right (unstuck.scheduling.working task)⟩

end

def waitsCheck (c : ServerConfig) : Bool :=
  (c.running.isNone && c.crashed.isNone) &&
    match c.parked with
    | [⟨_, .futureGet v :: _, _⟩] => (c.world.waits v).promise.isNone
    | _ => false

theorem waitsCheck_sound {c : ServerConfig} (h : waitsCheck c = true) : c.running = none ∧
    c.crashed = none ∧ ∃ t v, t ∈ c.threads ∧ .futureGet v ∈ t.stack ∧
      (c.world.waits v).promise = none := by
  obtain ⟨both, waits⟩ := Bool.and_eq_true_iff.1 h
  obtain ⟨free, alive⟩ := Bool.and_eq_true_iff.1 both
  refine ⟨Option.isNone_iff_eq_none.1 free, Option.isNone_iff_eq_none.1 alive, ?_⟩
  split at waits
  · rename_i tid v rest x parked
    refine ⟨⟨tid, .futureGet v :: rest, x⟩, v, List.mem_append_right _ ?_, List.mem_cons_self,
      Option.isNone_iff_eq_none.1 waits⟩
    rw [parked]
    exact List.mem_cons_self
  · cases waits

/-- A member hangs up, and its leave waits for it to come back. -/
def waitingRun : List (Label Answer EnvEvent) :=
  startsUp ++ connects alice ++ joinsRoom (lit "s") ++ leavesWaiting

theorem exists_waiting : ∃ c, Run (server shortest Text.reference) (fun _ _ => True)
    ServerConfig.initial waitingRun c ∧ c.running = none ∧ c.crashed = none ∧
    ∃ t v, t ∈ c.threads ∧ .futureGet v ∈ t.stack ∧ (c.world.waits v).promise = none := by
  have found : (execute (server shortest Text.reference) (fun _ _ => true) ServerConfig.initial
      waitingRun).any waitsCheck = true := by
    decide +kernel
  obtain ⟨c, run, waits⟩ := exists_run _ found
  exact ⟨c, run.weaken _ fun _ => trivial, waitsCheck_sound waits⟩

theorem wait_never_forgotten_leave : ∃ (ls : List (Label Answer EnvEvent)) (c : ServerConfig)
    (t : Thread Tid Cmd Exn) (v : ℕ) (task : Task),
    Run (server shortest Text.reference) (fun _ _ => True) ServerConfig.initial ls c ∧
    t ∈ c.threads ∧ .futureGet v ∈ t.stack ∧ (c.world.waits v).promise = none ∧
    task.callback = .reconnect v ∧ c.world.cancelled task.id = false := by
  obtain ⟨c, run, -, -, t, v, mem, waits, pending⟩ := exists_waiting
  obtain ⟨task, callback, live, -⟩ := wait_never_forgotten run mem waits pending
  exact ⟨_, c, t, v, task, run, mem, waits, pending, callback, live⟩

end Blueboat
