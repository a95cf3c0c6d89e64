import Mathlib.Data.List.MinMax
import Blueboat.Library.Machine

set_option autoImplicit false

/-! `scheduler.cpp`: its worker thread among the threads that set and clear timers. The worker
holds the mutex of the scheduler up to the call of a task; the callback may begin with the game
lock, as both timers of a room do. -/
namespace Blueboat.Scheduler

open Machine

/-- `id` stands for the shared flag `cancelled`. -/
structure Task where
  due : ℕ
  id : ℕ
  takesGameLock : Bool
  deriving DecidableEq

/-- How far the worker has come with a task: the flag has been tested, the mutex is released, the
callback waits for the game lock, or its body has begun. -/
inductive Worker where
  | looking
  | tested (task : Task)
  | unlocked (task : Task)
  | waiting (task : Task)
  | running (task : Task)
  deriving DecidableEq

inductive Holder (T : Type) where
  | worker
  | thread (t : T)
  deriving DecidableEq

inductive Event where
  | cleared (id : ℕ)
  | body (id : ℕ)
  deriving DecidableEq

structure State (T : Type) where
  now : ℕ
  tasks : List Task
  nextId : ℕ
  cancelled : List ℕ
  stopping : Bool
  worker : Worker
  gameLock : Option (Holder T)
  log : List Event

def State.initial {T : Type} : State T where
  now := 0
  tasks := []
  nextId := 0
  cancelled := []
  stopping := false
  worker := .looking
  gameLock := none
  log := []

/-- The steps of the other threads, then those of the worker. -/
inductive Op (T : Type) where
  | pass (milliseconds : ℕ)
  | setTimeout (delay : ℕ) (takesGameLock : Bool)
  | clear (id : ℕ)
  | lock (t : T)
  | unlock (t : T)
  | stop
  | choose
  | release
  | call
  | acquire
  | finish

section
variable {T : Type} [DecidableEq T]

/-- `set_timeout` waits for the mutex, which the worker holds from its choice of a task to the
call; `clear` does not. -/
def step (s : State T) : Op T → Option (State T)
  | .pass milliseconds => some { s with now := s.now + milliseconds }
  | .setTimeout delay takesGameLock =>
    match s.worker with
    | .tested _ => none
    | _ => some { s with
        tasks := s.tasks ++ [⟨s.now + delay, s.nextId, takesGameLock⟩]
        nextId := s.nextId + 1 }
  | .clear id =>
    if id < s.nextId then some { s with
      cancelled := id :: s.cancelled
      log := s.log ++ [.cleared id] }
    else none
  | .lock t => if s.gameLock = none then some { s with gameLock := some (.thread t) } else none
  | .unlock t => if s.gameLock = some (.thread t) then some { s with gameLock := none } else none
  | .stop => some { s with stopping := true }
  | .choose =>
    match s.worker, s.stopping, s.tasks.argmin Task.due with
    | .looking, false, some next =>
      if s.now < next.due then none
      else if next.id ∈ s.cancelled then some { s with tasks := s.tasks.erase next }
      else some { s with tasks := s.tasks.erase next, worker := .tested next }
    | _, _, _ => none
  | .release =>
    match s.worker with
    | .tested task => some { s with worker := .unlocked task }
    | _ => none
  | .call =>
    match s.worker with
    | .unlocked task =>
      if task.takesGameLock then some { s with worker := .waiting task }
      else some { s with worker := .running task, log := s.log ++ [.body task.id] }
    | _ => none
  | .acquire =>
    match s.worker, s.gameLock with
    | .waiting task, none => some { s with
        worker := .running task
        gameLock := some .worker
        log := s.log ++ [.body task.id] }
    | _, _ => none
  | .finish =>
    match s.worker with
    | .running task => some { s with
        worker := .looking
        gameLock := if task.takesGameLock then none else s.gameLock }
    | _ => none

/-- The worker has found the task's flag unset and has not begun the body of its callback. -/
def Worker.committed : Worker → Option ℕ
  | .tested task | .unlocked task | .waiting task => some task.id
  | .looking | .running _ => none

/-- No body of a callback begins after `clear` on its handle has returned. -/
def Quiet (log : List Event) : Prop :=
  log.Pairwise fun before after => ∀ id, before = .cleared id → after ≠ .body id

/-- A handle is cleared when the worker is not already on its way to the body of its task. -/
def Timely (s : State T) : Op T → Prop
  | .clear id => s.worker.committed ≠ some id
  | _ => True

instance (s : State T) : (op : Op T) → Decidable (Timely s op)
  | .clear id => inferInstanceAs (Decidable (s.worker.committed ≠ some id))
  | .pass _ | .setTimeout .. | .lock _ | .unlock _ | .stop | .choose | .release | .call | .acquire
  | .finish => .isTrue trivial

/-- A cleared handle stays cancelled, and the worker is not on its way to its body. -/
structure Cancelled (s : State T) : Prop where
  cleared : ∀ id, .cleared id ∈ s.log → id ∈ s.cancelled ∧ s.worker.committed ≠ some id
  quiet : Quiet s.log

/-- The worker waits for the game lock only with a callback that takes it, and holds it only while it
runs one. -/
structure Held (s : State T) : Prop where
  waiting : ∀ task, s.worker = .waiting task → task.takesGameLock = true
  running : s.gameLock = some .worker → ∃ task, s.worker = .running task ∧ task.takesGameLock = true

/-- What each operation finds and what it leaves. -/
inductive Steps (s : State T) : Op T → State T → Prop where
  | pass (milliseconds : ℕ) : Steps s (.pass milliseconds) { s with now := s.now + milliseconds }
  | setTimeout (delay : ℕ) (takesGameLock : Bool) (untested : ∀ task, s.worker ≠ .tested task) :
    Steps s (.setTimeout delay takesGameLock) { s with
      tasks := s.tasks ++ [⟨s.now + delay, s.nextId, takesGameLock⟩]
      nextId := s.nextId + 1 }
  | clear {id : ℕ} (issued : id < s.nextId) : Steps s (.clear id) { s with
      cancelled := id :: s.cancelled
      log := s.log ++ [.cleared id] }
  | lock (t : T) (free : s.gameLock = none) :
    Steps s (.lock t) { s with gameLock := some (.thread t) }
  | unlock (t : T) (held : s.gameLock = some (.thread t)) :
    Steps s (.unlock t) { s with gameLock := none }
  | stop : Steps s .stop { s with stopping := true }
  | drop {next : Task} (looking : s.worker = .looking) (goes : s.stopping = false)
      (least : next ∈ s.tasks.argmin Task.due) (due : next.due ≤ s.now)
      (set : next.id ∈ s.cancelled) : Steps s .choose { s with tasks := s.tasks.erase next }
  | choose {next : Task} (looking : s.worker = .looking) (goes : s.stopping = false)
      (least : next ∈ s.tasks.argmin Task.due) (due : next.due ≤ s.now)
      (unset : next.id ∉ s.cancelled) :
    Steps s .choose { s with tasks := s.tasks.erase next, worker := .tested next }
  | release {task : Task} (tested : s.worker = .tested task) :
    Steps s .release { s with worker := .unlocked task }
  | wait {task : Task} (unlocked : s.worker = .unlocked task) (takes : task.takesGameLock = true) :
    Steps s .call { s with worker := .waiting task }
  | call {task : Task} (unlocked : s.worker = .unlocked task) (takes : task.takesGameLock = false) :
    Steps s .call { s with worker := .running task, log := s.log ++ [.body task.id] }
  | acquire {task : Task} (waiting : s.worker = .waiting task) (free : s.gameLock = none) :
    Steps s .acquire { s with
      worker := .running task
      gameLock := some .worker
      log := s.log ++ [.body task.id] }
  | finish {task : Task} (running : s.worker = .running task) : Steps s .finish { s with
      worker := .looking
      gameLock := if task.takesGameLock then none else s.gameLock }

theorem step_steps {s s' : State T} {op : Op T} (h : step s op = some s') : Steps s op s' := by
  cases op with
  | pass milliseconds =>
    obtain rfl := Option.some.inj h
    exact .pass milliseconds
  | stop =>
    obtain rfl := Option.some.inj h
    exact .stop
  | lock t =>
    obtain ⟨free, same⟩ := Option.ite_none_right_eq_some.1 h
    obtain rfl := Option.some.inj same
    exact .lock t free
  | unlock t =>
    obtain ⟨held, same⟩ := Option.ite_none_right_eq_some.1 h
    obtain rfl := Option.some.inj same
    exact .unlock t held
  | clear id =>
    obtain ⟨issued, same⟩ := Option.ite_none_right_eq_some.1 h
    obtain rfl := Option.some.inj same
    exact .clear issued
  | setTimeout delay takesGameLock =>
    rw [step] at h
    split at h
    · cases h
    · rename_i untested
      obtain rfl := Option.some.inj h
      exact .setTimeout delay takesGameLock untested
  | choose =>
    rw [step] at h
    split at h
    · rename_i next looking goes least
      split at h
      · cases h
      · rename_i due
        split at h
        · rename_i set
          obtain rfl := Option.some.inj h
          exact .drop looking goes least (Nat.not_lt.1 due) set
        · rename_i unset
          obtain rfl := Option.some.inj h
          exact .choose looking goes least (Nat.not_lt.1 due) unset
    · cases h
  | release =>
    rw [step] at h
    split at h
    · rename_i task tested
      obtain rfl := Option.some.inj h
      exact .release tested
    · cases h
  | call =>
    rw [step] at h
    split at h
    · rename_i task unlocked
      split at h
      · rename_i takes
        obtain rfl := Option.some.inj h
        exact .wait unlocked takes
      · rename_i takes
        obtain rfl := Option.some.inj h
        exact .call unlocked (Bool.eq_false_iff.2 takes)
    · cases h
  | acquire =>
    rw [step] at h
    split at h
    · rename_i task waiting free
      obtain rfl := Option.some.inj h
      exact .acquire waiting free
    · cases h
  | finish =>
    rw [step] at h
    split at h
    · rename_i task running
      obtain rfl := Option.some.inj h
      exact .finish running
    · cases h

/-- What a step means for the handles that have been cleared: the log grows by a handle, by the body
of the task that the worker is committed to, or not at all. -/
inductive Advances (s s' : State T) : Op T → Prop where
  | clears {id : ℕ} (log : s'.log = s.log ++ [.cleared id])
      (cancelled : s'.cancelled = id :: s.cancelled) (worker : s'.worker = s.worker) :
      Advances s s' (.clear id)
  | commits {op : Op T} {id : ℕ} (log : s'.log = s.log) (cancelled : s'.cancelled = s.cancelled)
      (unset : id ∉ s.cancelled) (worker : s'.worker.committed = some id) : Advances s s' op
  | begins {op : Op T} {id : ℕ} (log : s'.log = s.log ++ [.body id])
      (cancelled : s'.cancelled = s.cancelled) (committed : s.worker.committed = some id)
      (worker : s'.worker.committed = none) : Advances s s' op
  | keeps {op : Op T} (log : s'.log = s.log) (cancelled : s'.cancelled = s.cancelled)
      (worker : s'.worker.committed = s.worker.committed) : Advances s s' op

theorem step_advances {s s' : State T} {op : Op T} (h : step s op = some s') :
    Advances s s' op := by
  cases step_steps h with
  | pass | setTimeout | lock | unlock | stop | drop => exact .keeps rfl rfl rfl
  | clear => exact .clears rfl rfl rfl
  | choose _ _ _ _ unset => exact .commits rfl rfl unset rfl
  | release tested => exact .keeps rfl rfl (by rw [tested]; rfl)
  | wait unlocked => exact .keeps rfl rfl (by rw [unlocked]; rfl)
  | call unlocked => exact .begins rfl rfl (by rw [unlocked]; rfl) rfl
  | acquire waiting => exact .begins rfl rfl (by rw [waiting]; rfl) rfl
  | finish running => exact .keeps rfl rfl (by rw [running]; rfl)

theorem quiet_concat {log : List Event} {e : Event} (h : Quiet log)
    (last : ∀ id, e = .body id → .cleared id ∉ log) : Quiet (log ++ [e]) := by
  refine List.pairwise_append.2 ⟨h, List.pairwise_singleton _ _, ?_⟩
  rintro before mem after hafter id rfl rfl
  obtain rfl := List.mem_singleton.1 hafter
  exact last id rfl mem

theorem cancelled_step {s s' : State T} {op : Op T} (hs : Cancelled s) (timely : Timely s op)
    (h : step s op = some s') : Cancelled s' := by
  cases step_advances h with
  | @clears id log cancelled worker =>
    refine ⟨fun id' hid => ?_, log ▸ quiet_concat hs.quiet fun _ same => nomatch same⟩
    rw [cancelled, worker]
    rw [log] at hid
    rcases List.mem_append.1 hid with hid | hid
    · obtain ⟨set, free⟩ := hs.cleared id' hid
      exact ⟨List.mem_cons_of_mem _ set, free⟩
    · obtain rfl : id' = id := by simpa using hid
      exact ⟨List.mem_cons_self .., timely⟩
  | @commits op id log cancelled unset worker =>
    refine ⟨fun id' hid => ?_, log ▸ hs.quiet⟩
    obtain ⟨set, -⟩ := hs.cleared id' (log ▸ hid)
    rw [cancelled, worker]
    exact ⟨set, fun same => unset (Option.some.inj same ▸ set)⟩
  | @begins op id log cancelled committed worker =>
    refine ⟨fun id' hid => ?_, ?_⟩
    · rw [cancelled, worker]
      rw [log] at hid
      exact ⟨(hs.cleared id' (by simpa using hid)).1, fun same => nomatch same⟩
    · rw [log]
      refine quiet_concat hs.quiet fun id' same hid => ?_
      obtain rfl := Event.body.inj same
      exact (hs.cleared _ hid).2 committed
  | keeps log cancelled worker =>
    refine ⟨fun id hid => ?_, log ▸ hs.quiet⟩
    rw [cancelled, worker]
    exact hs.cleared id (log ▸ hid)

omit [DecidableEq T] in
theorem cancelled_initial : Cancelled (State.initial : State T) :=
  ⟨fun _ h => (nomatch h), .nil⟩

omit [DecidableEq T] in
theorem held_initial : Held (State.initial : State T) :=
  ⟨fun _ h => (nomatch h), fun h => (nomatch h)⟩

theorem held_step {s s' : State T} {op : Op T} (hs : Held s) (h : step s op = some s') :
    Held s' := by
  -- the worker has the game lock in its callback only
  have free : (∀ task, s.worker ≠ .running task) → s.gameLock ≠ some .worker := fun idle holder => by
    obtain ⟨task, running, -⟩ := hs.running holder
    exact idle task running
  cases step_steps h with
  | pass | setTimeout | clear | stop | drop => exact ⟨hs.waiting, hs.running⟩
  | lock | unlock => exact ⟨hs.waiting, fun holder => nomatch holder⟩
  | choose looking =>
    refine ⟨fun task same => (nomatch same), fun holder => absurd holder (free fun task running => ?_)⟩
    cases looking.symm.trans running
  | release tested =>
    refine ⟨fun task same => (nomatch same), fun holder => absurd holder (free fun task running => ?_)⟩
    cases tested.symm.trans running
  | wait unlocked takes =>
    refine ⟨fun task same => Worker.waiting.inj same ▸ takes,
      fun holder => absurd holder (free fun task running => ?_)⟩
    cases unlocked.symm.trans running
  | call unlocked =>
    refine ⟨fun task same => (nomatch same), fun holder => absurd holder (free fun task running => ?_)⟩
    cases unlocked.symm.trans running
  | @acquire task waiting =>
    exact ⟨fun task same => (nomatch same), fun _ => ⟨task, rfl, hs.waiting task waiting⟩⟩
  | @finish task running =>
    refine ⟨fun task same => (nomatch same), fun holder => ?_⟩
    by_cases takes : task.takesGameLock = true
    · rw [show (if task.takesGameLock then none else s.gameLock) = none from if_pos takes]
        at holder
      cases holder
    · obtain ⟨task', running', takes'⟩ := hs.running ((if_neg takes).symm.trans holder)
      obtain rfl := Worker.running.inj (running.symm.trans running')
      exact absurd takes' takes

def Reaches (s : State T) (id : ℕ) : Prop :=
  ∃ ops s' later, Run step Timely s ops s' ∧ s'.log = s.log ++ later ∧ .body id ∈ later

theorem Reaches.before {s s' : State T} {op : Op T} {id : ℕ} (timely : Timely s op)
    (h : step s op = some s') (log : s'.log = s.log) (reaches : Reaches s' id) : Reaches s id := by
  obtain ⟨ops, s'', later, run, rest, mem⟩ := reaches
  exact ⟨_, s'', later, (Run.one timely h).append run, log ▸ rest, mem⟩

theorem reaches_of_body {s s' : State T} {op : Op T} {id : ℕ} (timely : Timely s op)
    (h : step s op = some s') (log : s'.log = s.log ++ [.body id]) : Reaches s id :=
  ⟨_, s', [.body id], .one timely h, log, List.mem_singleton_self _⟩

theorem waiting_reaches {s : State T} (hs : Held s) {task : Task}
    (waiting : s.worker = .waiting task) : Reaches s task.id := by
  have acquires {s : State T} (waiting : s.worker = .waiting task) (free : s.gameLock = none) :
      Reaches s task.id := by
    have acquire : step s .acquire = some { s with
        worker := .running task
        gameLock := some .worker
        log := s.log ++ [.body task.id] } := by
      simp only [step, waiting, free]
    exact reaches_of_body (by trivial) acquire rfl
  cases holder : s.gameLock with
  | none => exact acquires waiting holder
  | some holding =>
    cases holding with
    | worker =>
      obtain ⟨task', running, -⟩ := hs.running holder
      cases waiting.symm.trans running
    | thread t =>
      have unlocks : step s (.unlock t) = some { s with gameLock := none } := by
        rw [step, if_pos holder]
      exact .before (by trivial) unlocks rfl (acquires waiting rfl)

theorem unlocked_reaches {s : State T} (hs : Held s) {task : Task}
    (unlocked : s.worker = .unlocked task) : Reaches s task.id := by
  by_cases takes : task.takesGameLock = true
  · have calls : step s .call = some { s with worker := .waiting task } := by
      simp only [step, unlocked, takes, if_true]
    exact .before (by trivial) calls rfl (waiting_reaches (held_step hs calls) rfl)
  · have calls : step s .call =
        some { s with worker := .running task, log := s.log ++ [.body task.id] } := by
      simp only [step, unlocked, if_neg takes]
    exact reaches_of_body (by trivial) calls rfl

/-- Once the flag has been tested, nothing but time keeps the worker from the body. -/
theorem committed_reaches {s : State T} (hs : Held s) {id : ℕ}
    (committed : s.worker.committed = some id) : Reaches s id := by
  cases phase : s.worker with
  | looking | running task =>
    rw [phase] at committed
    cases committed
  | waiting task =>
    rw [phase] at committed
    obtain rfl := Option.some.inj committed
    exact waiting_reaches hs phase
  | unlocked task =>
    rw [phase] at committed
    obtain rfl := Option.some.inj committed
    exact unlocked_reaches hs phase
  | tested task =>
    rw [phase] at committed
    obtain rfl := Option.some.inj committed
    have releases : step s .release = some { s with worker := .unlocked task } := by
      simp only [step, phase]
    exact .before (by trivial) releases rfl (unlocked_reaches (held_step hs releases) rfl)

theorem late_of_committed {s s' : State T} (hs : Held s) {id : ℕ}
    (committed : s.worker.committed = some id) (h : step s (.clear id) = some s') :
    ∃ ops s'', Run step Timely s' ops s'' ∧ ¬ Quiet s''.log := by
  have held := held_step hs h
  cases step_steps h
  obtain ⟨ops, s'', later, run, log, begun⟩ := committed_reaches held committed
  refine ⟨ops, s'', run, fun quiet => ?_⟩
  rw [log] at quiet
  exact (List.pairwise_append.1 quiet).2.2 (.cleared id) (by simp) _ begun id rfl rfl

/-- As long as a handle is cleared when the worker has not yet tested its flag or has already begun
its callback, no body of a callback begins after its handle has been cleared; and any other call of
`clear` can be followed by the body. -/
theorem no_late_callback {ops : List (Op T)} {s : State T}
    (run : Run step Timely State.initial ops s) :
    Quiet s.log ∧ ∀ op s', step s op = some s' →
      ((∀ ops s'', Run step Timely s' ops s'' → Quiet s''.log) ↔ Timely s op) := by
  have cancelled := run.invariant (P := Cancelled) cancelled_initial cancelled_step
  have held := run.invariant (P := Held) held_initial fun hs _ h => held_step hs h
  refine ⟨cancelled.quiet, fun op s' last => ⟨fun quiet => ?_, fun timely ops s'' later => ?_⟩⟩
  · cases op with
    | clear id =>
      intro committed
      obtain ⟨ops, s'', later, late⟩ := late_of_committed held committed last
      exact late (quiet ops s'' later)
    | _ => trivial
  · have next := cancelled_step cancelled timely last
    exact (later.invariant (P := Cancelled) next cancelled_step).quiet

end

/-- A thread that holds the game lock disposes of its room while the worker waits for the lock. -/
def disposedMeanwhile : List (Op Unit) :=
  [.setTimeout 5 true, .pass 5, .lock (), .choose, .release, .call, .clear 0, .unlock (), .acquire]

theorem late_callback :
    ¬ ∀ (ops : List (Op Unit)) (s : State Unit),
      Run step (fun _ _ => True) State.initial ops s → Quiet s.log := by
  intro h
  obtain ⟨s, run, log⟩ := exists_run step (fun _ _ => true) State.initial disposedMeanwhile
    (fun s => s.log == [.cleared 0, .body 0]) (by decide +kernel)
  have quiet := h disposedMeanwhile s (run.weaken fun _ => trivial)
  rw [beq_iff_eq.1 log] at quiet
  simp [Quiet] at quiet

/-- The room is disposed of before its timer is due. -/
def disposedBefore : List (Op Unit) :=
  [.setTimeout 5 true, .lock (), .clear 0, .unlock (), .pass 5, .choose]

theorem no_late_callback_disposedBefore :
    ∃ s : State Unit, Run step Timely State.initial disposedBefore s ∧ Quiet s.log := by
  obtain ⟨s, run, -⟩ := exists_run step (fun s op => decide (Timely s op)) State.initial
    disposedBefore (fun _ => true) (by decide +kernel)
  have timely := run.weaken fun h => of_decide_eq_true h
  exact ⟨s, timely, (no_late_callback timely).1⟩

end Blueboat.Scheduler
