import Blueboat.ClientJoins

set_option autoImplicit false

/-! The connections of a client over a run: how the attempts are numbered, and that `disconnect` is the
end of them. -/
namespace Blueboat.Client

open Protocol LockMachine

/-! What only the manager calls. -/

def Cmd.isAnchored : Cmd → Bool
  | .handle .. => true
  | .call (.message ..) => true
  | .call (.reconnectAttempt _) => true
  | .call (.reconnect _) => true
  | .call .disconnect => true
  | _ => false

def Anchored (c : ClientConfig) : Prop :=
  ∀ t ∈ c.threads, ∀ cmd ∈ t.stack, cmd.isAnchored = true → ∃ cmd' ∈ t.stack, cmd'.isPhase = true

section
variable {M : MsgpackC} {J : JsonText} {c c' : ClientConfig} {l : Label Answer EnvEvent}

theorem Effect.anchored {w : World} {cmd : Cmd} {a : Answer} {out : Out}
    (effect : Effect M J w cmd a out) {cmd' : Cmd} (mem : cmd' ∈ out.push)
    (anchored : cmd'.isAnchored = true) :
    (∃ loop ∈ out.push, loop.isPhase = true) ∨ cmd.isAnchored = true ∧ cmd.isPhase = false := by
  have unanchored : ∀ {push : List Cmd}, cmd' ∈ push → (∀ c ∈ push, c.isAnchored = false) → False := by
    intro push mem none
    rw [none cmd' mem] at anchored
    cases anchored
  cases effect with
  | stays pushes =>
    cases pushes with
    | message | left | ignored | failed | notCreated => exact .inr ⟨rfl, rfl⟩
    | dispatch | unreachable | lost | allLeft | idSet | other | connected | copied =>
      exact .inl (by simp [Cmd.isPhase])
    | _ => exact (unanchored mem (by simp [Cmd.isAnchored])).elim
  | install reconnects => exact .inl ⟨.recvLoop, List.mem_append_right _ List.mem_cons_self, rfl⟩
  | joined | created => exact .inr ⟨rfl, rfl⟩
  | leave => exact .inl (by simp [Cmd.isPhase])
  | disconnect closes =>
    rcases closes with rfl | rfl <;> exact (unanchored mem (by simp [Cmd.isAnchored])).elim
  | _ => exact (unanchored mem (by simp [Client.createRoom, Cmd.isAnchored])).elim

theorem Anchored.below (h : Anchored c) {t : Thread Tid Cmd Exn} (mem : t ∈ c.threads) {cmd : Cmd}
    {rest : List Cmd} (stack : t.stack = cmd :: rest) (above : cmd.Above rest) {cmd' : Cmd}
    (mem' : cmd' ∈ rest) (anchored : cmd'.isAnchored = true) : ∃ loop ∈ rest, loop.isPhase = true := by
  obtain ⟨loop, below, phase⟩ := h t mem cmd' (stack ▸ List.mem_cons_of_mem _ mem') anchored
  rw [stack] at below
  rcases List.mem_cons.1 below with rfl | below
  · rw [above.phase phase] at mem'
    cases mem'
  · exact ⟨loop, below, phase⟩

theorem Anchored.step (h : Anchored c) (kept : Kept c) (last : Step (client M J) c l c') :
    Anchored c' := by
  cases last with
  | finish => exact fun t mem => h t (List.mem_append_right _ mem)
  | crash => exact h
  | @exec tid cmd rest a out _ top run =>
    have effect := exec_effect (M := M) (J := J) run
    have above := (kept.holds.2.1 _ top).ordered.1
    intro t mem
    rcases List.mem_cons.1 ((threads_settle c tid rest out).mem_iff.1 mem) with rfl | waits
    · intro cmd' mem' anchored
      have beneath : (∃ loop ∈ rest, loop.isPhase = true) →
          ∃ loop ∈ out.push ++ rest, loop.isPhase = true := by
        rintro ⟨loop, below, phase⟩
        exact ⟨loop, List.mem_append_right _ below, phase⟩
      rcases List.mem_append.1 mem' with mem' | mem'
      · rcases effect.anchored mem' anchored with ⟨loop, pushed, phase⟩ | ⟨mine, other⟩
        · exact ⟨loop, List.mem_append_left _ pushed, phase⟩
        · obtain ⟨loop, below, phase⟩ := h _ (running_mem_threads top) cmd List.mem_cons_self mine
          rcases List.mem_cons.1 below with rfl | below
          · rw [other] at phase
            cases phase
          · exact beneath ⟨loop, below, phase⟩
      · exact beneath (h.below (running_mem_threads top) rfl above mem' anchored)
    · exact h t (List.mem_append_right _ waits)
  | @unwind tid cmd rest x a out _ top run =>
    obtain rfl := Option.some.inj run
    have above := (kept.holds.2.1 _ top).ordered.1
    intro t mem
    rcases List.mem_cons.1 ((threads_settle c tid rest _).mem_iff.1 mem) with rfl | waits
    · exact fun cmd' mem' anchored => h.below (running_mem_threads top) rfl above mem' anchored
    · exact h t (List.mem_append_right _ waits)
  | take _ free at_i _ => exact fun t mem => h t ((threads_take free at_i).mem_iff.1 mem)
  | @env e w new _ run =>
    have plain : ∀ p ∈ new, ∀ cmd ∈ p.2, cmd.isAnchored = false := by
      cases e <;> cases run <;>
        exact List.forall_mem_singleton.2 (List.forall_mem_singleton.2 rfl)
    intro t mem
    rcases List.mem_append.1 mem with mem | mem
    · exact h t (List.mem_append_left _ mem)
    · rcases List.mem_append.1 mem with mem | mem
      · exact h t (List.mem_append_right _ mem)
      · obtain ⟨p, fresh, rfl⟩ := List.mem_map.1 mem
        intro cmd mem' anchored
        rw [plain p fresh cmd mem'] at anchored
        cases anchored

theorem Anchored.run {ok : ClientConfig → Label Answer EnvEvent → Prop}
    {ls : List (Label Answer EnvEvent)} (run : Run (client M J) ok ClientConfig.initial ls c) :
    Anchored c := by
  have start : Anchored ClientConfig.initial :=
    List.forall_mem_singleton.2 (List.forall_mem_singleton.2 nofun)
  induction run with
  | nil => exact start
  | snoc before _ last ih => exact ih.step (.run before) last

/-- While a thread has something of this kind to do, the others have no part of the loop. -/
theorem Anchored.alone (h : Anchored c) (kept : Kept c) {t t' : Thread Tid Cmd Exn}
    (running : c.running = some t) (parked : t' ∈ c.parked) {cmd : Cmd} (mem : cmd ∈ t'.stack)
    (anchored : cmd.isAnchored = true) : ∀ cmd' ∈ t.stack, cmd'.isPhase = false := by
  obtain ⟨loop, below, phase⟩ := h t' (List.mem_append_right _ parked) cmd mem anchored
  intro cmd' mem'
  by_contra phase'
  exact kept.unshared.managers running parked mem' below
    (Key.manager_of_phase (by simpa using phase')) (Key.manager_of_phase phase)

end

/-! `disconnect`. -/

structure Stopped (w : World) : Prop where
  running : w.running = false
  closed : ∀ {link}, w.ws = some link → link.closed = true

def Calls (t : Thread Tid Cmd Exn) : Prop :=
  ∀ cmd ∈ t.stack, cmd = .disconnect ∨ cmd = .closeWs → t.stack = [cmd] ∧ t.exn = none

def Closing (c : ClientConfig) : Prop := ∃ t ∈ c.threads, .closeWs ∈ t.stack

section
variable {M : MsgpackC} {J : JsonText} {w : World} {cmd : Cmd} {a : Answer} {out : Out}

theorem send_stopped (stopped : Stopped w) (event : Str) (data : Json) : w.send event data = w := by
  unfold World.send
  split
  · rfl
  · rename_i link found
    rw [if_pos (stopped.closed found)]

theorem stopped_closeWs (stopped : w.running = false) : Stopped w.closeWs := by
  refine ⟨stopped, fun found => ?_⟩
  obtain ⟨link, -, rfl⟩ := Option.map_eq_some_iff.1 found
  rfl

/-- No step opens a connection again or sends anything. -/
theorem Effect.stopped (effect : Effect M J w cmd a out) (stopped : Stopped w) :
    Stopped out.world ∧ out.world.sent = w.sent := by
  cases effect with
  | sendJoin | sendFrame => exact ⟨(send_stopped stopped _ _).symm ▸ stopped,
      congrArg World.sent (send_stopped stopped _ _)⟩
  | closeWs | closed => exact ⟨stopped_closeWs stopped.running, rfl⟩
  | resetWs => exact ⟨⟨stopped.running, nofun⟩, rfl⟩
  | install =>
    refine ⟨⟨stopped.running, fun found => ?_⟩, rfl⟩
    obtain rfl := Option.some.inj found
    simp [stopped.running]
  | disconnect => exact ⟨⟨rfl, stopped.closed⟩, rfl⟩
  | _ => exact ⟨⟨stopped.running, stopped.closed⟩, rfl⟩

/-- Only `disconnect` ends the running and leaves the closing to do. -/
theorem Effect.ends (effect : Effect M J w cmd a out) (other : cmd ≠ .disconnect) :
    out.world.running = w.running ∧ ∀ cmd' ∈ out.push, cmd' ≠ .disconnect ∧ cmd' ≠ .closeWs := by
  cases effect with
  | disconnect => exact absurd rfl other
  | sendJoin | sendFrame =>
    obtain ⟨sent, e⟩ := send_eq w _ _
    rw [Outcome.world_park, e]
    exact ⟨rfl, by simp⟩
  | stays pushes =>
    refine ⟨rfl, ?_⟩
    cases pushes <;> simp
  | install reconnects => rcases reconnects with rfl | rfl <;> exact ⟨rfl, by simp⟩
  | _ => exact ⟨rfl, by simp [Client.createRoom]⟩

end

structure Ending (c : ClientConfig) : Prop where
  calls : ∀ t ∈ c.threads, Calls t
  ended : c.world.running = false → Stopped c.world ∨ Closing c

section
variable {M : MsgpackC} {J : JsonText} {c c' : ClientConfig} {l : Label Answer EnvEvent}

/-- The world stays, and so does what the calls have left to do. -/
theorem Ending.same (h : Ending c) (world : c'.world = c.world) (calls : ∀ t ∈ c'.threads, Calls t)
    (closing : Closing c → Closing c') : Ending c' := by
  refine ⟨calls, fun stops => ?_⟩
  rw [world] at stops ⊢
  exact (h.ended stops).imp_right closing

theorem Ending.exec (h : Ending c) {tid : Tid} {cmd : Cmd} {rest : List Cmd} {a : Answer} {out : Out}
    (top : c.running = some ⟨tid, cmd :: rest, none⟩) (run : exec M J c.world cmd a = some out) :
    Ending (settle c tid rest out) := by
  have effect := exec_effect run
  have mine := h.calls _ (running_mem_threads top)
  have threads : ∀ t, t ∈ (settle c tid rest out).threads ↔
      t ∈ (⟨tid, out.push ++ rest, out.exn⟩ : Thread Tid Cmd Exn) :: c.parked := fun t =>
    (threads_settle c tid rest out).mem_iff
  have parked : ∀ t ∈ c.parked, Calls t := fun t mem => h.calls t (List.mem_append_right _ mem)
  have below : ∀ cmd' ∈ rest, cmd' ≠ .disconnect ∧ cmd' ≠ .closeWs := by
    intro cmd' mem
    have alone : ¬ (cmd' = .disconnect ∨ cmd' = .closeWs) := fun call => by
      have single := (mine cmd' (List.mem_cons_of_mem _ mem) call).1
      rw [List.cons.injEq] at single
      rw [single.2] at mem
      cases mem
    exact not_or.1 alone
  have closing : cmd ≠ .closeWs → Closing c → Closing (settle c tid rest out) := by
    rintro other ⟨t, mem, closes⟩
    rcases List.mem_append.1 mem with running | waits
    · obtain rfl := Option.some.inj ((Option.mem_toList.1 running).symm.trans top)
      rcases List.mem_cons.1 closes with rfl | closes
      · exact absurd rfl other
      · exact absurd rfl (below _ closes).2
    · exact ⟨t, (threads t).2 (List.mem_cons_of_mem _ waits), closes⟩
  by_cases disconnects : cmd = .disconnect
  · subst disconnects
    have made : out = .park { c.world with running := false }
        (if c.world.running = true then [.closeWs] else []) := (Option.some.inj run).symm
    obtain ⟨-, rfl⟩ := List.cons.inj (mine _ List.mem_cons_self (.inl rfl)).1
    by_cases running : c.world.running = true
    · rw [if_pos running] at made
      subst made
      refine ⟨fun t mem => ?_, fun _ => .inr ⟨_, (threads _).2 List.mem_cons_self, List.mem_cons_self⟩⟩
      rcases List.mem_cons.1 ((threads t).1 mem) with rfl | waits
      · exact List.forall_mem_singleton.2 fun _ => ⟨rfl, rfl⟩
      · exact parked t waits
    · rw [if_neg running] at made
      subst made
      refine ⟨fun t mem => ?_, fun _ => ?_⟩
      · rcases List.mem_cons.1 ((threads t).1 mem) with rfl | waits
        · exact fun cmd' mem' => absurd mem' List.not_mem_nil
        · exact parked t waits
      · rcases h.ended (by simpa using running) with stopped | closes
        · exact .inl ⟨rfl, stopped.closed⟩
        · exact .inr (closing nofun closes)
  · obtain ⟨running, pushed⟩ := effect.ends disconnects
    refine ⟨fun t mem => ?_, fun stops => ?_⟩
    · rcases List.mem_cons.1 ((threads t).1 mem) with rfl | waits
      · intro cmd' mem' call
        rcases List.mem_append.1 mem' with mem' | mem'
        · exact absurd call (not_or.2 (pushed cmd' mem'))
        · exact absurd call (not_or.2 (below cmd' mem'))
      · exact parked t waits
    · rw [world_settle, running] at stops
      rw [world_settle]
      rcases h.ended stops with stopped | closes
      · exact .inl (effect.stopped stopped).1
      · by_cases last : cmd = .closeWs
        · subst last
          obtain rfl := Option.some.inj run
          exact .inl (stopped_closeWs stops)
        · exact .inr (closing last closes)

theorem Ending.step (h : Ending c) (last : Step (client M J) c l c') : Ending c' := by
  cases last with
  | @finish tid a alive top =>
    refine h.same rfl (fun t mem => h.calls t (List.mem_append_right _ mem)) ?_
    rintro ⟨t, mem, closes⟩
    rcases List.mem_append.1 mem with running | waits
    · obtain rfl := Option.some.inj ((Option.mem_toList.1 running).symm.trans top)
      cases closes
    · exact ⟨t, waits, closes⟩
  | crash => exact h.same rfl h.calls id
  | exec _ top run => exact h.exec top run
  | @unwind tid cmd rest x a o _ top run =>
    obtain rfl := Option.some.inj run
    have mine := h.calls _ (running_mem_threads top)
    refine h.same rfl (fun t mem => ?_) ?_
    · rcases List.mem_cons.1 ((threads_settle c tid rest _).mem_iff.1 mem) with rfl | waits
      · intro cmd' mem' call
        cases (mine cmd' (List.mem_cons_of_mem _ mem') call).2
      · exact h.calls t (List.mem_append_right _ waits)
    · rintro ⟨t, mem, closes⟩
      rcases List.mem_append.1 mem with running | waits
      · obtain rfl := Option.some.inj ((Option.mem_toList.1 running).symm.trans top)
        cases (mine _ closes (.inr rfl)).2
      · exact ⟨t, (threads_settle c tid rest _).mem_iff.2 (List.mem_cons_of_mem _ waits), closes⟩
  | take _ free at_i _ =>
    refine h.same rfl (fun t mem => h.calls t ((threads_take free at_i).mem_iff.1 mem)) ?_
    rintro ⟨t, mem, closes⟩
    exact ⟨t, (threads_take free at_i).mem_iff.2 mem, closes⟩
  | @env e w new _ run =>
    have alone : ∀ p ∈ new, ∃ cmd, p.2 = [cmd] := by
      cases e <;> cases run <;> exact List.forall_mem_singleton.2 ⟨_, rfl⟩
    obtain ⟨rfl, -⟩ := spawn_app run
    refine h.same rfl (fun t mem => ?_) ?_
    · rcases List.mem_append.1 mem with mem | mem
      · exact h.calls t (List.mem_append_left _ mem)
      · rcases List.mem_append.1 mem with mem | mem
        · exact h.calls t (List.mem_append_right _ mem)
        · obtain ⟨p, fresh, rfl⟩ := List.mem_map.1 mem
          obtain ⟨cmd, single⟩ := alone p fresh
          intro cmd' mem' _
          rw [Thread.start, single] at mem' ⊢
          exact ⟨by rw [List.mem_singleton.1 mem'], rfl⟩
    · rintro ⟨t, mem, closes⟩
      refine ⟨t, ?_, closes⟩
      rcases List.mem_append.1 mem with mem | mem
      · exact List.mem_append_left _ mem
      · exact List.mem_append_right _ (List.mem_append_left _ mem)

theorem Ending.initial : Ending ClientConfig.initial := by
  refine ⟨List.forall_mem_singleton.2 ?_, nofun⟩
  exact List.forall_mem_singleton.2 (by simp)

theorem step_stopped (stopped : Stopped c.world) (last : Step (client M J) c l c') :
    Stopped c'.world ∧ c'.world.sent = c.world.sent := by
  cases last with
  | exec _ top run =>
    rw [world_settle]
    exact (exec_effect run).stopped stopped
  | unwind _ top run =>
    obtain rfl := Option.some.inj run
    exact ⟨stopped, rfl⟩
  | env _ run =>
    obtain ⟨rfl, -⟩ := spawn_app run
    exact ⟨stopped, rfl⟩
  | _ => exact ⟨stopped, rfl⟩

/-- When a call of `disconnect` has returned, nothing is sent any more, whatever happens. -/
theorem disconnect_final (M : MsgpackC) (J : JsonText)
    {ok ok' : ClientConfig → Label Answer EnvEvent → Prop} {ls ls' : List (Label Answer EnvEvent)}
    {c c' : ClientConfig} (run : Run (client M J) ok ClientConfig.initial ls c)
    (stops : c.world.running = false) (returned : ¬ Closing c) (more : Run (client M J) ok' c ls' c') :
    Stopped c'.world ∧ c'.world.sent = c.world.sent := by
  have ending : Ending c := run.invariant _ .initial fun ending _ last => ending.step last
  have stopped := (ending.ended stops).resolve_right returned
  induction more with
  | nil => exact ⟨stopped, rfl⟩
  | snoc _ _ last ih =>
    obtain ⟨stopped', sent⟩ := step_stopped ih.1 last
    exact ⟨stopped', sent.trans ih.2⟩

end

def disconnects (i : ℕ) : List (Label Answer EnvEvent) :=
  .env .disconnect :: turn i .next ++ turn i .next

def disconnectedCheck (c : ClientConfig) : Bool :=
  !c.world.running && !c.world.sent.isEmpty && c.threads.all fun t => t.stack.all fun cmd =>
    match cmd with
    | .closeWs => false
    | _ => true

theorem disconnectedCheck_sound {c : ClientConfig} (h : disconnectedCheck c = true) :
    c.world.running = false ∧ ¬ Closing c ∧ c.world.sent ≠ [] := by
  simp only [disconnectedCheck, Bool.and_eq_true, Bool.not_eq_true', List.all_eq_true] at h
  obtain ⟨⟨stops, sent⟩, quiet⟩ := h
  refine ⟨stops, ?_, fun none => ?_⟩
  · rintro ⟨t, mem, closes⟩
    cases quiet t mem _ closes
  · rw [none] at sent
    cases sent

theorem disconnect_final_sends : ∃ ls ls' c c', Run (client shortest Text.reference) (fun _ _ => True)
    ClientConfig.initial ls c ∧ Run (client shortest Text.reference) (fun _ _ => True) c ls' c' ∧
      c.world.sent ≠ [] ∧ Stopped c'.world ∧ c'.world.sent = c.world.sent := by
  have found : (execute (client shortest Text.reference) (fun _ _ => true) ClientConfig.initial
      (joinedLate ++ disconnects 2)).any (fun c => disconnectedCheck c &&
        (execute (client shortest Text.reference) (fun _ _ => true) c
          (.env (.send 0 (lit "k") .null) :: turn 3 .next)).any fun _ => true) = true := by
    decide +kernel
  obtain ⟨c, run, both⟩ := exists_run _ found
  obtain ⟨check, more⟩ := Bool.and_eq_true_iff.1 both
  obtain ⟨stops, returned, sent⟩ := disconnectedCheck_sound check
  obtain ⟨c', run', -⟩ := exists_run _ more
  have before : Run _ (fun _ _ => True) _ _ c := run.weaken _ fun _ => trivial
  have after : Run _ (fun _ _ => True) c _ c' := run'.weaken _ fun _ => trivial
  exact ⟨_, _, c, c', before, after, sent, disconnect_final _ _ before stops returned after⟩

/-! The attempts. -/

/-- The attempts since the last connection, before and after a callback; `none` if it is not the turn of
the callback. -/
def Callback.counts (k : ℕ) : Callback → Option ℕ
  | .reconnectAttempt n => if n = k + 1 then some n else none
  | .reconnect n => if n = k ∧ 0 < n then some 0 else none
  | .disconnect => if k = 0 then some 0 else none
  | _ => some k

def attempts (called : List Callback) : Option ℕ := called.foldlM Callback.counts 0

def Cmd.Meets (w : World) (k : ℕ) : Cmd → Prop
  | .connectionManagerLoop attempt => k = attempt
  | .install attempt => k = attempt
  | .recvLoop => k = 0 ∨ w.running = false
  | .resetWs => k = 0 ∨ w.running = false
  | .afterLoop => k = 0 ∨ w.running = false
  | .copyLostRooms => k = 0
  | .leaveRooms _ => k = 0
  | _ => True

def Cmd.counted (k : ℕ) : Cmd → Option ℕ
  | .call callback => callback.counts k
  | _ => some k

def Expects (w : World) : ℕ → List Cmd → Prop
  | _, [] => True
  | k, cmd :: rest => cmd.Meets w k ∧ ∃ k', cmd.counted k = some k' ∧ Expects w k' rest

def Cmd.Neutral (w : World) (cmd : Cmd) : Prop := ∀ k, cmd.Meets w k ∧ cmd.counted k = some k

section
variable {M : MsgpackC} {J : JsonText} {w w' : World} {k : ℕ} {push rest : List Cmd}

theorem neutral_of_plain {cmd : Cmd} (unanchored : cmd.isAnchored = false) (phase : cmd.isPhase = false) :
    cmd.Neutral w := by
  intro k
  cases cmd with
  | call callback => cases callback <;> first | exact ⟨trivial, rfl⟩ | cases unanchored
  | _ => first | exact ⟨trivial, rfl⟩ | cases phase

theorem Expects.append (neutral : ∀ cmd ∈ push, cmd.Neutral w) (h : Expects w k rest) :
    Expects w k (push ++ rest) := by
  induction push with
  | nil => exact h
  | cons cmd push ih =>
    obtain ⟨meets, counted⟩ := neutral cmd List.mem_cons_self k
    exact ⟨meets, k, counted, ih fun cmd' mem => neutral cmd' (List.mem_cons_of_mem _ mem)⟩

theorem Expects.neutral (neutral : ∀ cmd ∈ push, cmd.Neutral w) : Expects w k push :=
  List.append_nil push ▸ Expects.append neutral trivial

theorem Expects.later (halts : w.running = false → w'.running = false) (h : Expects w k rest) :
    Expects w' k rest := by
  induction rest generalizing k with
  | nil => trivial
  | cons cmd rest ih =>
    obtain ⟨meets, k', counted, below⟩ := h
    refine ⟨?_, k', counted, ih below⟩
    cases cmd with
    | recvLoop | resetWs | afterLoop => exact meets.imp_right halts
    | _ => exact meets

theorem attempts_snoc (called : List Callback) (callback : Callback) :
    attempts (called ++ [callback]) = (attempts called).bind fun k => callback.counts k := by
  rw [attempts, attempts, List.foldlM_append]
  cases called.foldlM Callback.counts 0 with
  | none => rfl
  | some k => exact bind_pure (callback.counts k)

theorem Effect.halts {cmd : Cmd} {a : Answer} {out : Out} (effect : Effect M J w cmd a out)
    (stops : w.running = false) : out.world.running = false := by
  by_cases disconnects : cmd = .disconnect
  · subst disconnects
    cases effect with
    | throws => exact stops
    | stays pushes => exact stops
    | disconnect => rfl
  · exact (effect.ends disconnects).1.trans stops

/-- The step of the loop. -/
theorem manage_expects {cmd : Cmd} {a : Answer} {out : Out} (phase : cmd.isPhase = true)
    (meets : cmd.Meets w k) (run : exec M J w cmd a = some out) :
    out.world.called = w.called ∧ (out.exn = none → Expects out.world k out.push) := by
  cases cmd with
  | connectionManagerLoop attempt =>
    obtain rfl : k = attempt := meets
    simp only [exec, manage] at run
    split at run
    · cases a <;> cases run
      · refine ⟨rfl, fun _ => ⟨trivial, k, rfl, trivial, k + 1, if_pos rfl, rfl, _, rfl, trivial⟩⟩
      · exact ⟨rfl, fun _ => ⟨rfl, k, rfl, trivial⟩⟩
    · cases run
      exact ⟨rfl, fun _ => trivial⟩
  | install attempt =>
    obtain rfl : k = attempt := meets
    obtain rfl := Option.some.inj run
    refine ⟨rfl, fun _ => ?_⟩
    rw [Outcome.push_park]
    split
    · rename_i reconnects
      exact ⟨trivial, 0, if_pos ⟨rfl, reconnects.1⟩, .inl rfl, 0, rfl, trivial⟩
    · rename_i silent
      refine ⟨?_, k, rfl, trivial⟩
      rcases Nat.eq_zero_or_pos k with none | some
      · exact .inl none
      · exact .inr (by simpa using fun running => silent ⟨some, running⟩)
  | recvLoop =>
    have effect := exec_effect run
    cases effect with
    | throws => exact ⟨rfl, fun none => by cases none⟩
    | stays pushes =>
      refine ⟨rfl, fun _ => ?_⟩
      cases pushes with
      | other => exact ⟨meets, k, rfl, trivial⟩
      | idSet | dispatch => exact ⟨trivial, k, rfl, meets, k, rfl, trivial⟩
    | closed => exact ⟨rfl, fun _ => ⟨meets, k, rfl, trivial⟩⟩
  | resetWs =>
    obtain rfl := Option.some.inj run
    exact ⟨rfl, fun _ => ⟨meets, k, rfl, trivial⟩⟩
  | afterLoop =>
    simp only [exec, manage] at run
    split at run <;> cases run
    · rename_i running
      obtain rfl : k = 0 := meets.resolve_right (by simp [running])
      exact ⟨rfl, fun _ => ⟨trivial, 0, rfl, rfl, 0, rfl, trivial⟩⟩
    · exact ⟨rfl, fun _ => trivial⟩
  | copyLostRooms =>
    obtain rfl := Option.some.inj run
    exact ⟨rfl, fun _ => ⟨meets, k, rfl, trivial⟩⟩
  | leaveRooms rooms =>
    obtain rfl : k = 0 := meets
    cases rooms with
    | nil =>
      obtain rfl := Option.some.inj run
      exact ⟨rfl, fun _ => ⟨trivial, 1, rfl, rfl, 1, rfl, trivial⟩⟩
    | cons o rooms =>
      obtain rfl := Option.some.inj run
      exact ⟨rfl, fun _ => ⟨trivial, 0, rfl, rfl, 0, rfl, trivial⟩⟩
  | _ => cases phase

/-- A step that is neither of the loop nor a call. -/
theorem Effect.neutral {cmd : Cmd} {a : Answer} {out : Out} (effect : Effect M J w cmd a out)
    (phase : cmd.isPhase = false) (other : ∀ callback, cmd ≠ .call callback) :
    out.world.called = w.called ∧ ∀ cmd' ∈ out.push, cmd'.Neutral out.world := by
  cases effect with
  | stays pushes =>
    refine ⟨rfl, ?_⟩
    cases pushes with
    | unreachable | connected | stopped | other | idSet | dispatch | lost | quits | copied | allLeft =>
      cases phase
    | _ => simp [Cmd.Neutral, Cmd.Meets, Cmd.counted, Callback.counts]
  | call => exact absurd rfl (other _)
  | install | closed | resetWs | leave => cases phase
  | disconnect closes =>
    rcases closes with rfl | rfl <;> exact ⟨rfl, by simp [Cmd.Neutral, Cmd.Meets, Cmd.counted]⟩
  | sendJoin | sendFrame =>
    obtain ⟨sent, e⟩ := send_eq w _ _
    rw [Outcome.world_park, e]
    exact ⟨rfl, by simp [Cmd.Neutral, Cmd.Meets, Cmd.counted]⟩
  | _ =>
    exact ⟨rfl, by simp [Client.createRoom, Cmd.Neutral, Cmd.Meets, Cmd.counted, Callback.counts]⟩

theorem exec_expects {cmd : Cmd} {a : Answer} {out : Out} (above : cmd.Above rest)
    (called : attempts w.called = some k) (expects : Expects w k (cmd :: rest))
    (run : exec M J w cmd a = some out) : ∃ k', attempts out.world.called = some k' ∧
      (out.exn = none → Expects out.world k' (out.push ++ rest)) ∧
      (cmd.isAnchored = false → k' = k) := by
  have effect := exec_effect run
  obtain ⟨meets, k', counted, below⟩ := expects
  have later := below.later effect.halts
  by_cases phase : cmd.isPhase = true
  · obtain rfl := above.phase phase
    obtain ⟨same, goes⟩ := manage_expects phase meets run
    exact ⟨k, same ▸ called, fun returns => (List.append_nil out.push).symm ▸ goes returns, fun _ => rfl⟩
  · by_cases call : ∃ callback, cmd = .call callback
    · obtain ⟨callback, rfl⟩ := call
      obtain rfl := Option.some.inj run
      refine ⟨k', ?_, fun _ => ⟨trivial, k', rfl, later⟩, fun unanchored => ?_⟩
      · rw [Outcome.world_park, attempts_snoc, called]
        exact counted
      · exact Option.some.inj (counted.symm.trans (neutral_of_plain (w := w) unanchored rfl k).2)
    · have other : ∀ callback, cmd ≠ .call callback := fun callback same => call ⟨callback, same⟩
      obtain ⟨same, neutral⟩ := effect.neutral (by simpa using phase) other
      have stays : cmd.counted k = some k := by
        cases cmd with
        | call callback => exact absurd rfl (other callback)
        | _ => rfl
      obtain rfl := Option.some.inj (counted.symm.trans stays)
      exact ⟨k', same ▸ called, fun _ => later.append neutral, fun _ => rfl⟩

end

def Numbered (c : ClientConfig) : Prop :=
  ∃ k, attempts c.world.called = some k ∧
    ∀ t ∈ c.threads, t.exn = none → Expects c.world k t.stack

section
variable {M : MsgpackC} {J : JsonText} {c c' : ClientConfig} {l : Label Answer EnvEvent}

theorem Numbered.step (h : Numbered c) (kept : Kept c) (anchored : Anchored c)
    (last : Step (client M J) c l c') : Numbered c' := by
  obtain ⟨k, called, expects⟩ := h
  cases last with
  | finish => exact ⟨k, called, fun t mem => expects t (List.mem_append_right _ mem)⟩
  | crash => exact ⟨k, called, expects⟩
  | @exec tid cmd rest a out _ top run =>
    have stacked := kept.holds.2.1 _ top
    have mine := running_mem_threads top
    have effect := exec_effect (M := M) (J := J) run
    obtain ⟨k', called', goes, same⟩ := exec_expects stacked.ordered.1 called (expects _ mine rfl) run
    refine ⟨k', world_settle c tid rest out ▸ called', fun t mem returns => ?_⟩
    rw [world_settle]
    rcases List.mem_cons.1 ((threads_settle c tid rest out).mem_iff.1 mem) with rfl | waits
    · exact goes returns
    · cases mark : cmd.isAnchored with
      | false =>
        rw [same mark]
        exact (expects t (List.mem_append_right _ waits) returns).later effect.halts
      | true =>
        -- the manager runs, so that nothing of what waits counts
        obtain ⟨loop, below, phase⟩ := anchored _ mine cmd List.mem_cons_self mark
        refine Expects.neutral fun cmd' mem' => neutral_of_plain ?_ ?_
        · by_contra mark'
          have none := anchored.alone kept top waits mem' (by simpa using mark') loop below
          rw [none] at phase
          cases phase
        · by_contra phase'
          exact kept.unshared.managers top waits below mem' (Key.manager_of_phase phase)
            (Key.manager_of_phase (by simpa using phase'))
  | @unwind tid cmd rest x a out _ top run =>
    obtain rfl := Option.some.inj run
    refine ⟨k, called, fun t mem returns => ?_⟩
    rcases List.mem_cons.1 ((threads_settle c tid rest _).mem_iff.1 mem) with rfl | waits
    · cases returns
    · exact expects t (List.mem_append_right _ waits) returns
  | take _ free at_i _ =>
    exact ⟨k, called, fun t mem => expects t ((threads_take free at_i).mem_iff.1 mem)⟩
  | @env e w new _ run =>
    have plain : ∀ p ∈ new, ∀ cmd ∈ p.2, cmd.Neutral c.world := by
      cases e <;> cases run <;>
        exact List.forall_mem_singleton.2 (List.forall_mem_singleton.2 fun k => ⟨trivial, rfl⟩)
    obtain ⟨rfl, -⟩ := spawn_app run
    refine ⟨k, called, fun t mem returns => ?_⟩
    rcases List.mem_append.1 mem with mem | mem
    · exact expects t (List.mem_append_left _ mem) returns
    · rcases List.mem_append.1 mem with mem | mem
      · exact expects t (List.mem_append_right _ mem) returns
      · obtain ⟨p, fresh, rfl⟩ := List.mem_map.1 mem
        exact Expects.neutral (plain p fresh)

/-- The attempts are numbered from one after every loss of the connection, each call of `on_reconnect` has
the number of the last of them, and `on_disconnect` is called between them only. -/
theorem attempts_numbered (M : MsgpackC) (J : JsonText)
    {ok : ClientConfig → Label Answer EnvEvent → Prop} {ls : List (Label Answer EnvEvent)}
    {c : ClientConfig} (run : Run (client M J) ok ClientConfig.initial ls c) :
    (attempts c.world.called).isSome = true := by
  suffices numbered : Numbered c by
    obtain ⟨k, called, -⟩ := numbered
    rw [called]
    rfl
  have start : Numbered ClientConfig.initial :=
    ⟨0, rfl, List.forall_mem_singleton.2 fun _ => ⟨rfl, 0, rfl, trivial⟩⟩
  induction run with
  | nil => exact start
  | snoc before _ last ih => exact ih.step (.run before) (.run before) last

end

/-- The first attempt fails, the second gives a connection, which is lost. -/
def losesFirst : List (Label Answer EnvEvent) :=
  turn 0 .failed ++ turn 0 .next ++ turn 0 .ret ++ turn 0 .next ++ turn 0 .ret ++
    turn 0 .connected ++ turn 0 .next ++ turn 0 .next ++ turn 0 .ret ++ turn 0 .closed ++
    turn 0 .next ++ turn 0 .next ++ turn 0 .next ++ turn 0 .ret ++ turn 0 .next ++ turn 0 .next ++
    turn 0 .next

theorem attempts_numbered_lost : ∃ ls c, Run (client shortest Text.reference) (fun _ _ => True)
    ClientConfig.initial ls c ∧ c.world.called.length = 5 ∧
      (attempts c.world.called).isSome = true := by
  have found : (execute (client shortest Text.reference) (fun _ _ => true) ClientConfig.initial
      losesFirst).any (fun c => c.world.called.length = 5) = true := by
    decide +kernel
  obtain ⟨c, run, called⟩ := exists_run _ found
  have run' : Run _ (fun _ _ => True) _ _ c := run.weaken _ fun _ => trivial
  exact ⟨_, c, run', of_decide_eq_true called, attempts_numbered _ _ run'⟩

end Blueboat.Client
