import Blueboat.Scheduler

set_option autoImplicit false

/-! In which order, and when, the worker of the scheduler starts the callbacks of its tasks. -/
namespace Blueboat.Scheduler

open Machine

structure Start where
  task : Task
  now : ℕ
  pending : List Task

/-- A state of the scheduler, the callbacks started so far, and the handles that were cleared when
their task was still in the queue. -/
structure History (T : Type) where
  state : State T
  started : List Start
  cleared : List ℕ

namespace History
variable {T : Type}

def initial : History T := ⟨State.initial, [], []⟩

def starts (s : State T) : Op T → List Start
  | .call =>
    match s.worker with
    | .unlocked task => [⟨task, s.now, s.tasks⟩]
    | _ => []
  | _ => []

def clears (s : State T) : Op T → List ℕ
  | .clear id => if id ∈ s.tasks.map Task.id then [id] else []
  | _ => []

theorem mem_clears {s : State T} {id id' : ℕ} (h : id' ∈ clears s (.clear id)) :
    id' = id ∧ ∃ t ∈ s.tasks, t.id = id := by
  rw [clears] at h
  split at h
  · rename_i queued
    exact ⟨List.mem_singleton.1 h, List.mem_map.1 queued⟩
  · cases h

variable [DecidableEq T]

def step (h : History T) (op : Op T) : Option (History T) :=
  (Scheduler.step h.state op).map fun s =>
    ⟨s, h.started ++ starts h.state op, h.cleared ++ clears h.state op⟩

/-- Every run of the scheduler has a history. -/
theorem exists_history {ops : List (Op T)} {s : State T}
    (run : Run Scheduler.step (fun _ _ => True) State.initial ops s) :
    ∃ h : History T, Run step (fun _ _ => True) initial ops h ∧ h.state = s := by
  induction run with
  | nil => exact ⟨initial, .nil, rfl⟩
  | snoc _ _ last ih =>
    obtain ⟨h, before, rfl⟩ := ih
    exact ⟨_, .snoc before trivial (by rw [step, last]; rfl), rfl⟩

end History

/-- Two tasks, of which `a` was added first if they are due together. -/
def Task.Precedes (a b : Task) : Prop := a.id ≠ b.id ∧ (a.due = b.due → a.id < b.id)

def Worker.removed : Worker → Option Task
  | .tested task | .unlocked task => some task
  | .looking | .waiting _ | .running _ => none

section
variable {T : Type} [DecidableEq T]

inductive Moves (s s' : State T) : Op T → Prop where
  | goesOn {op : Op T} (now : s.now ≤ s'.now) (tasks : s'.tasks = s.tasks)
      (nextId : s'.nextId = s.nextId) (cancelled : s'.cancelled = s.cancelled)
      (removed : s'.worker.removed = s.worker.removed)
      (starts : History.starts s op = []) (clears : History.clears s op = []) : Moves s s' op
  | adds {delay : ℕ} {takesGameLock : Bool} (now : s'.now = s.now)
      (tasks : s'.tasks = s.tasks ++ [⟨s.now + delay, s.nextId, takesGameLock⟩])
      (nextId : s'.nextId = s.nextId + 1) (cancelled : s'.cancelled = s.cancelled)
      (removed : s'.worker.removed = s.worker.removed) :
      Moves s s' (.setTimeout delay takesGameLock)
  | clears {id : ℕ} (now : s'.now = s.now) (tasks : s'.tasks = s.tasks)
      (nextId : s'.nextId = s.nextId) (cancelled : s'.cancelled = id :: s.cancelled)
      (removed : s'.worker.removed = s.worker.removed) : Moves s s' (.clear id)
  | drops {next : Task} (now : s'.now = s.now) (tasks : s'.tasks = s.tasks.erase next)
      (nextId : s'.nextId = s.nextId) (cancelled : s'.cancelled = s.cancelled)
      (removed : s'.worker.removed = s.worker.removed) : Moves s s' .choose
  | takes {next : Task} (now : s'.now = s.now) (least : next ∈ s.tasks.argmin Task.due)
      (due : next.due ≤ s.now) (live : next.id ∉ s.cancelled)
      (tasks : s'.tasks = s.tasks.erase next) (nextId : s'.nextId = s.nextId)
      (cancelled : s'.cancelled = s.cancelled) (removed : s'.worker.removed = some next) :
      Moves s s' .choose
  | calls {task : Task} (now : s'.now = s.now) (tasks : s'.tasks = s.tasks)
      (nextId : s'.nextId = s.nextId) (cancelled : s'.cancelled = s.cancelled)
      (unlocked : s.worker = .unlocked task) (removed : s'.worker.removed = none) :
      Moves s s' .call

theorem step_moves {s s' : State T} {op : Op T} (h : step s op = some s') : Moves s s' op := by
  cases step_steps h with
  | pass milliseconds => exact .goesOn (Nat.le_add_right ..) rfl rfl rfl rfl rfl rfl
  | lock | unlock | stop => exact .goesOn (Nat.le_refl _) rfl rfl rfl rfl rfl rfl
  | setTimeout => exact .adds rfl rfl rfl rfl rfl
  | clear => exact .clears rfl rfl rfl rfl rfl
  | drop => exact .drops rfl rfl rfl rfl rfl
  | choose _ _ least due unset => exact .takes rfl least due unset rfl rfl rfl rfl
  | release tested => exact .goesOn (Nat.le_refl _) rfl rfl rfl (by rw [tested]; rfl) rfl rfl
  | wait unlocked | call unlocked => exact .calls rfl rfl rfl rfl unlocked rfl
  | acquire waiting => exact .goesOn (Nat.le_refl _) rfl rfl rfl (by rw [waiting]; rfl) rfl rfl
  | finish running => exact .goesOn (Nat.le_refl _) rfl rfl rfl (by rw [running]; rfl) rfl rfl

theorem id_lt_of_idxOf {tasks : List Task} (sorted : tasks.Pairwise fun a b => a.id < b.id)
    {a b : Task} (ha : a ∈ tasks) (hb : b ∈ tasks) (lt : tasks.idxOf a < tasks.idxOf b) :
    a.id < b.id := by
  have first := List.idxOf_lt_length_of_mem ha
  have second := List.idxOf_lt_length_of_mem hb
  have ids := List.pairwise_iff_getElem.1 sorted _ _ first second lt
  rwa [List.getElem_idxOf, List.getElem_idxOf] at ids

/-- Of the tasks that are due together the first in the queue is taken. -/
theorem argmin_precedes {tasks : List Task} (sorted : tasks.Pairwise fun a b => a.id < b.id)
    {next : Task} (least : next ∈ tasks.argmin Task.due) :
    ∀ p ∈ tasks.erase next, next.Precedes p ∧ next.due ≤ p.due := by
  intro p mem
  have nodup : tasks.Nodup := sorted.imp fun lt same => by rw [same] at lt; omega
  have member := List.mem_of_mem_erase mem
  have other : p ≠ next := fun same => nodup.not_mem_erase (same ▸ mem)
  have here := List.argmin_mem least
  have apart : tasks.idxOf next ≠ tasks.idxOf p := fun same =>
    other ((List.idxOf_inj here).1 same).symm
  refine ⟨⟨fun same => ?_, fun due => ?_⟩, List.le_of_mem_argmin member least⟩
  · rcases Nat.lt_or_gt_of_ne apart with lt | lt
    · exact absurd same (Nat.ne_of_lt (id_lt_of_idxOf sorted here member lt))
    · exact absurd same.symm (Nat.ne_of_lt (id_lt_of_idxOf sorted member here lt))
  · have le := List.index_of_argmin least member (Nat.le_of_eq due.symm)
    exact id_lt_of_idxOf sorted here member (Nat.lt_of_le_of_ne le apart)

/-- What holds of a history at any time: the queue is in the order of the ids, and whatever has been
started or removed precedes what is still to come. -/
structure InOrder (h : History T) : Prop where
  sorted : h.state.tasks.Pairwise fun a b => a.id < b.id
  drawn : ∀ t ∈ h.state.tasks, t.id < h.state.nextId
  removed_due : ∀ t, h.state.worker.removed = some t →
    t.due ≤ h.state.now ∧ t.id < h.state.nextId ∧ t.id ∉ h.cleared
  removed_first : ∀ t, h.state.worker.removed = some t →
    ∀ p ∈ h.state.tasks, t.Precedes p ∧ t.due ≤ p.due
  started_due : ∀ start ∈ h.started, start.task.due ≤ start.now ∧
    start.task.id < h.state.nextId ∧ start.task.id ∉ h.cleared ∧
    ∀ p ∈ start.pending, start.task.due ≤ p.due
  started_first : ∀ start ∈ h.started, ∀ p, p ∈ h.state.tasks ∨ h.state.worker.removed = some p →
    start.task.Precedes p
  started_order : h.started.Pairwise fun a b => a.task.Precedes b.task
  cleared : ∀ id ∈ h.cleared, id ∈ h.state.cancelled ∧ id < h.state.nextId

omit [DecidableEq T] in
theorem inOrder_initial : InOrder (History.initial : History T) where
  sorted := .nil
  drawn _ h := (nomatch h)
  removed_due _ h := (nomatch h)
  removed_first _ h := (nomatch h)
  started_due _ h := (nomatch h)
  started_first _ h := (nomatch h)
  started_order := .nil
  cleared _ h := (nomatch h)

theorem precedes_new {a : Task} {n : ℕ} (lt : a.id < n) (due : ℕ) (takesGameLock : Bool) :
    a.Precedes ⟨due, n, takesGameLock⟩ :=
  ⟨Nat.ne_of_lt lt, fun _ => lt⟩

theorem inOrder_step {h h' : History T} {op : Op T} (order : InOrder h)
    (last : History.step h op = some h') : InOrder h' := by
  obtain ⟨s', stepped, rfl⟩ := Option.map_eq_some_iff.1 last
  obtain ⟨s, started, cleared⟩ := h
  have moves : Moves s s' op := step_moves stepped
  cases moves with
  | goesOn now tasks nextId cancelled removed starts clears =>
    rw [starts, clears, List.append_nil, List.append_nil]
    exact {
      sorted := tasks ▸ order.sorted
      drawn := tasks ▸ nextId ▸ order.drawn
      removed_due := fun t same => by
        obtain ⟨due, drawn, live⟩ := order.removed_due t (removed ▸ same)
        exact ⟨due.trans now, nextId ▸ drawn, live⟩
      removed_first := fun t same => tasks ▸ order.removed_first t (removed ▸ same)
      started_due := nextId ▸ order.started_due
      started_first := by
        rw [tasks, removed]
        exact order.started_first
      started_order := order.started_order
      cleared := cancelled ▸ nextId ▸ order.cleared }
  | @adds delay takesGameLock now tasks nextId cancelled removed =>
    have quiet : started ++ History.starts s (.setTimeout delay takesGameLock) = started :=
      List.append_nil _
    have uncleared : cleared ++ History.clears s (.setTimeout delay takesGameLock) = cleared :=
      List.append_nil _
    have more : ∀ {n : ℕ}, n < s.nextId → n < s'.nextId := fun lt => by
      rw [nextId]
      exact Nat.lt_succ_of_lt lt
    rw [quiet, uncleared]
    refine ⟨?_, fun t mem => ?_, fun t same => ?_, fun t same p mem => ?_, fun start mem => ?_,
      fun start mem p ahead => ?_, order.started_order, fun id mem => ?_⟩
    · rw [tasks]
      refine List.pairwise_append.2 ⟨order.sorted, List.pairwise_singleton _ _, fun a ha b hb => ?_⟩
      rw [List.mem_singleton.1 hb]
      exact order.drawn a ha
    · rw [tasks] at mem
      rcases List.mem_append.1 mem with mem | mem
      · exact more (order.drawn t mem)
      · rw [List.mem_singleton.1 mem, nextId]
        exact Nat.lt_succ_self _
    · obtain ⟨due, drawn, live⟩ := order.removed_due t (removed ▸ same)
      exact ⟨now ▸ due, more drawn, live⟩
    · obtain ⟨due, drawn, -⟩ := order.removed_due t (removed ▸ same)
      rw [tasks] at mem
      rcases List.mem_append.1 mem with mem | mem
      · exact order.removed_first t (removed ▸ same) p mem
      · rw [List.mem_singleton.1 mem]
        exact ⟨precedes_new drawn _ _, due.trans (Nat.le_add_right ..)⟩
    · obtain ⟨due, drawn, rest⟩ := order.started_due start mem
      exact ⟨due, more drawn, rest⟩
    · rw [tasks, removed] at ahead
      rcases ahead with ahead | ahead
      · rcases List.mem_append.1 ahead with ahead | ahead
        · exact order.started_first start mem p (.inl ahead)
        · rw [List.mem_singleton.1 ahead]
          exact precedes_new (order.started_due start mem).2.1 _ _
      · exact order.started_first start mem p (.inr ahead)
    · obtain ⟨set, drawn⟩ := order.cleared id mem
      exact ⟨cancelled ▸ set, more drawn⟩
  | @clears id now tasks nextId cancelled removed =>
    have quiet : started ++ History.starts s (.clear id) = started := List.append_nil _
    have pending : ∀ {id'}, id' ∈ cleared ++ History.clears s (.clear id) →
        id' ∈ cleared ∨ id' = id ∧ ∃ t ∈ s.tasks, t.id = id := fun mem =>
      (List.mem_append.1 mem).imp_right History.mem_clears
    rw [quiet]
    refine ⟨tasks ▸ order.sorted, fun t mem => nextId ▸ order.drawn t (tasks ▸ mem),
      fun t same => ?_, fun t same => tasks ▸ order.removed_first t (removed ▸ same),
      fun start mem => ?_, fun start mem p ahead => ?_, order.started_order, fun id' mem => ?_⟩
    · obtain ⟨due, drawn, live⟩ := order.removed_due t (removed ▸ same)
      refine ⟨now ▸ due, nextId ▸ drawn, fun mem => ?_⟩
      rcases pending mem with old | ⟨here, p, hp, named⟩
      · exact live old
      · exact (order.removed_first t (removed ▸ same) p hp).1.1 (here.trans named.symm)
    · obtain ⟨due, drawn, live, rest⟩ := order.started_due start mem
      refine ⟨due, nextId ▸ drawn, fun new => ?_, rest⟩
      rcases pending new with old | ⟨same, p, hp, named⟩
      · exact live old
      · exact (order.started_first start mem p (.inl hp)).1 (same.trans named.symm)
    · rw [tasks, removed] at ahead
      exact order.started_first start mem p ahead
    · rw [cancelled, nextId]
      rcases pending mem with old | ⟨rfl, p, hp, rfl⟩
      · exact ⟨List.mem_cons_of_mem _ (order.cleared id' old).1, (order.cleared id' old).2⟩
      · exact ⟨List.mem_cons_self, order.drawn p hp⟩
  | @drops next now tasks nextId cancelled removed =>
    have quiet : started ++ History.starts s .choose = started := List.append_nil _
    have uncleared : cleared ++ History.clears s .choose = cleared := List.append_nil _
    have fewer : ∀ {t : Task}, t ∈ s'.tasks → t ∈ s.tasks := fun mem =>
      List.mem_of_mem_erase (tasks ▸ mem)
    rw [quiet, uncleared]
    refine ⟨?_, fun t mem => nextId ▸ order.drawn t (fewer mem), fun t same => ?_,
      fun t same p mem => order.removed_first t (removed ▸ same) p (fewer mem),
      nextId ▸ order.started_due, fun start mem p ahead => ?_, order.started_order,
      cancelled ▸ nextId ▸ order.cleared⟩
    · rw [tasks]
      exact order.sorted.sublist List.erase_sublist
    · rw [now, nextId]
      exact order.removed_due t (removed ▸ same)
    · exact order.started_first start mem p (ahead.imp fewer fun same => removed ▸ same)
  | @takes next now least due live tasks nextId cancelled removed =>
    have quiet : started ++ History.starts s .choose = started := List.append_nil _
    have uncleared : cleared ++ History.clears s .choose = cleared := List.append_nil _
    have here : next ∈ s.tasks := List.argmin_mem least
    have fewer : ∀ {t : Task}, t ∈ s'.tasks → t ∈ s.tasks := fun mem =>
      List.mem_of_mem_erase (tasks ▸ mem)
    rw [quiet, uncleared]
    refine ⟨?_, fun t mem => nextId ▸ order.drawn t (fewer mem), fun t same => ?_,
      fun t same p mem => ?_, nextId ▸ order.started_due, fun start mem p ahead => ?_,
      order.started_order, cancelled ▸ nextId ▸ order.cleared⟩
    · rw [tasks]
      exact order.sorted.sublist List.erase_sublist
    · obtain rfl := Option.some.inj (removed.symm.trans same)
      exact ⟨now ▸ due, nextId ▸ order.drawn next here,
        fun mem => live (order.cleared _ mem).1⟩
    · obtain rfl := Option.some.inj (removed.symm.trans same)
      exact argmin_precedes order.sorted least p (tasks ▸ mem)
    · rcases ahead with ahead | ahead
      · exact order.started_first start mem p (.inl (fewer ahead))
      · obtain rfl := Option.some.inj (removed.symm.trans ahead)
        exact order.started_first start mem next (.inl here)
  | @calls task now tasks nextId cancelled unlocked removed =>
    have quiet : History.starts s .call = [⟨task, s.now, s.tasks⟩] := by
      rw [History.starts, unlocked]
    have uncleared : cleared ++ History.clears s .call = cleared := List.append_nil _
    have gone : s.worker.removed = some task := by rw [unlocked]; rfl
    obtain ⟨due, drawn, live⟩ := order.removed_due task gone
    rw [quiet, uncleared]
    refine ⟨tasks ▸ order.sorted, fun t mem => nextId ▸ order.drawn t (tasks ▸ mem),
      fun t same => ?_, fun t same => ?_, fun start mem => ?_, fun start mem p ahead => ?_, ?_,
      cancelled ▸ nextId ▸ order.cleared⟩
    · cases removed.symm.trans same
    · cases removed.symm.trans same
    · rw [nextId]
      rcases List.mem_append.1 mem with mem | mem
      · exact order.started_due start mem
      · rw [List.mem_singleton.1 mem]
        exact ⟨due, drawn, live, fun p hp => (order.removed_first task gone p hp).2⟩
    · rw [tasks] at ahead
      rcases ahead with ahead | ahead
      · rcases List.mem_append.1 mem with mem | mem
        · exact order.started_first start mem p (.inl ahead)
        · rw [List.mem_singleton.1 mem]
          exact (order.removed_first task gone p ahead).1
      · cases removed.symm.trans ahead
    · refine List.pairwise_append.2 ⟨order.started_order, List.pairwise_singleton _ _, ?_⟩
      intro a ha b hb
      rw [List.mem_singleton.1 hb]
      exact order.started_first a ha task (.inr gone)

/-- In every run each callback is started at most once, when its task is due, and not if its handle
was cleared while the task was in the queue. No task in the queue is due before one that is started,
and tasks that are due together are started in the order in which they were added. -/
theorem starts_in_order {ops : List (Op T)} {h : History T}
    (run : Run History.step (fun _ _ => True) History.initial ops h) :
    (h.started.map fun start => start.task.id).Nodup ∧
    (∀ start ∈ h.started, start.task.due ≤ start.now) ∧
    (∀ start ∈ h.started, start.task.id ∉ h.cleared) ∧
    (∀ start ∈ h.started, ∀ p ∈ start.pending, start.task.due ≤ p.due) ∧
    h.started.Pairwise fun a b => a.task.due = b.task.due → a.task.id < b.task.id := by
  have order := run.invariant (P := InOrder) inOrder_initial fun order _ last =>
    inOrder_step order last
  refine ⟨List.pairwise_map.2 (order.started_order.imp And.left),
    fun start mem => (order.started_due start mem).1,
    fun start mem => (order.started_due start mem).2.2.1,
    fun start mem => (order.started_due start mem).2.2.2, order.started_order.imp And.right⟩

end

/-- Three timers of which two are due together and one is cleared. -/
def threeTimers : List (Op Unit) :=
  [.setTimeout 5 false, .setTimeout 3 false, .setTimeout 4 false, .clear 2, .pass 2, .setTimeout 1 true,
    .pass 1, .choose, .release, .call, .finish, .choose, .release, .call, .lock (), .unlock (),
    .acquire, .finish, .pass 1, .choose]

theorem starts_in_order_threeTimers :
    ∃ h : History Unit, h.started.map (fun start => start.task.id) = [1, 3] ∧
      h.started.Pairwise fun a b => a.task.due = b.task.due → a.task.id < b.task.id := by
  obtain ⟨h, run, started⟩ := exists_run History.step (fun _ _ => true) History.initial threeTimers
    (fun h => h.started.map (fun start => start.task.id) == [1, 3]) (by decide +kernel)
  have order := starts_in_order (run.weaken fun _ => trivial)
  exact ⟨h, beq_iff_eq.1 started, order.2.2.2.2⟩

end Blueboat.Scheduler
