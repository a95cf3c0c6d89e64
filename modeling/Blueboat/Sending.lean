import Blueboat.Library.Framing
import Blueboat.Library.LockMachine
import Blueboat.ReceiveLoop
import Blueboat.SioProtocol

set_option autoImplicit false

/-! The sending side of `WsConnection`: the threads that send and close and the receive loop, under
`io_mutex_`, one call of `Socket::write` at a time. -/
namespace Blueboat.Sending

open LockMachine Framing
open ReceiveLoop (Message TEXT_FRAME BINARY_FRAME dispatch)

def CONNECTION_CLOSE : ℕ := 0x8

/-- A context of wslay for sending. `offered` is what `wslay_event_send` passes to the callback next,
`wrote` and `failed` what becomes of the context when the callback returns; the last argument of
`queueMsg` and `recv` is what `genmask_cb` answers, and the messages of `recv` are the pongs and the
close with which wslay replies. -/
structure Wslay where
  State : Type
  start : State
  queueMsg : State → Message → Str → Option State
  recv : State → Str → Str → State × List Message
  offered : State → Option Str
  wrote : State → ℕ → State
  failed : State → State
  pending : State → Str
  enabled : State → Bool

/-- What is relied on: a message is one frame, and after a close or a failure nothing can be queued. -/
structure Wslay.Lawful (W : Wslay) (K : Codec UInt8 Message) : Prop where
  start : W.pending W.start = []
  queue_enabled : ∀ {s m mask s'}, W.queueMsg s m mask = some s' → W.enabled s = true
  queue_frame : ∀ {s m mask s'}, W.queueMsg s m mask = some s' → W.pending s = [] →
    K.encodes (W.pending s') m
  queue_last : ∀ {s m mask s'}, W.queueMsg s m mask = some s' → W.enabled s' = true →
    K.last m = false
  recv_frames : ∀ s bytes mask, W.pending s = [] →
    K.Encodes (W.recv s bytes mask).2 (W.pending (W.recv s bytes mask).1)
  recv_ordered : ∀ s bytes mask, K.Ordered (W.recv s bytes mask).2
  recv_control : ∀ s bytes mask, ∀ m ∈ (W.recv s bytes mask).2, dispatch m = none
  recv_enabled : ∀ s bytes mask, (W.recv s bytes mask).2 ≠ [] → W.enabled s = true
  recv_last : ∀ s bytes mask, W.enabled (W.recv s bytes mask).1 = true →
    W.enabled s = true ∧ ∀ m ∈ (W.recv s bytes mask).2, K.last m = false
  offered_none : ∀ {s}, W.offered s = none → W.pending s = []
  offered_some : ∀ {s data}, W.offered s = some data → data <+: W.pending s
  wrote_pending : ∀ {s data n}, W.offered s = some data → n ≤ data.length →
    W.pending (W.wrote s n) = (W.pending s).drop n
  wrote_enabled : ∀ {s n}, W.enabled (W.wrote s n) = true → W.enabled s = true
  failed_pending : ∀ s, W.pending (W.failed s) = []
  failed_enabled : ∀ s, W.enabled (W.failed s) = false

/-- The last four fields are not in the source: what has been written, whether a write has failed, the
messages that wslay took, and the calls of `send_text` and `send_binary` that have returned. -/
structure Connection (W : Wslay) where
  ctx : W.State
  closed : Bool
  shut : Bool
  wire : Str
  failed : Bool
  accepted : List Message
  returned : List (Message × Bool)

def Connection.initial (W : Wslay) : Connection W :=
  { ctx := W.start, closed := false, shut := false, wire := [], failed := false, accepted := [],
    returned := [] }

/-- What takes the mutex: the calls, what the receive loop does with a chunk, and its end. -/
inductive Call where
  | sendText (text : Str)
  | sendBinary (bytes : Str)
  | close (code : UInt16)
  | received (bytes : Str)
  | loopEnded

inductive Cmd where
  | enter (call : Call)
  | eventSend
  | shutdownClose
  | ret (message : Message) (value : Bool)
  | unlock

/-- What `genmask_cb` or `Socket::write` returns. -/
inductive Answer where
  | mask (bytes : Str)
  | write (n : ℤ)

section
variable {W : Wslay}

abbrev Out (W : Wslay) := Outcome (Connection W) Cmd Empty

def queueMsg (c : Connection W) (message : Message) (mask : Str) : Option (Connection W) :=
  (W.queueMsg c.ctx message mask).map fun ctx =>
    { c with ctx := ctx, accepted := c.accepted ++ [message] }

/-- `send_text` and `send_binary`; what `wslay_event_send` returns is not looked at. -/
def send (c : Connection W) (message : Message) (mask : Str) : Out W :=
  if c.closed = true then .go c [.ret message false]
  else
    match queueMsg c message mask with
    | none => .go c [.ret message false]
    | some c => .go c [.eventSend, .ret message true]

/-- The payload of a close frame without a reason. -/
def closeMessage (code : UInt16) : Message :=
  (CONNECTION_CLOSE, [UInt8.ofNat (code.toNat / 256), UInt8.ofNat (code.toNat % 256)])

def close (c : Connection W) (code : UInt16) (mask : Str) : Out W :=
  if c.closed = true then .go c [.shutdownClose]
  else .go ((queueMsg c (closeMessage code) mask).getD c) [.eventSend, .shutdownClose]

def received (c : Connection W) (bytes mask : Str) : Out W :=
  if c.closed = true then .go c []
  else
    let replies := W.recv c.ctx bytes mask
    .go { c with ctx := replies.1, accepted := c.accepted ++ replies.2 } [.eventSend]

/-- One round of `wslay_event_send`, with `send_cb`. Nothing is written after `shutdown_close`. -/
def eventSend (c : Connection W) (n : ℤ) : Option (Out W) :=
  match W.offered c.ctx with
  | none => some (.go c [])
  | some data =>
    if n ≤ 0 then some (.go { c with ctx := W.failed c.ctx, failed := true } [])
    else if c.shut = false ∧ n.toNat ≤ data.length then
      some (.go { c with ctx := W.wrote c.ctx n.toNat, wire := c.wire ++ data.take n.toNat }
        [.eventSend])
    else none

def exec (c : Connection W) : Cmd → Answer → Option (Out W)
  | .enter (.sendText text), .mask mask => some (send c (TEXT_FRAME, text) mask)
  | .enter (.sendBinary bytes), .mask mask => some (send c (BINARY_FRAME, bytes) mask)
  | .enter (.close code), .mask mask => some (close c code mask)
  | .enter (.received bytes), .mask mask => some (received c bytes mask)
  | .enter .loopEnded, .mask _ => some (.go { c with closed := true } [])
  | .eventSend, .write n => eventSend c n
  | .shutdownClose, _ => some (.go { c with shut := true } [])
  | .ret message value, _ =>
    some (.go { c with returned := c.returned ++ [(message, value)] } [])
  | .unlock, _ => some (.park c [])
  | _, _ => none

def thread (calls : List Call) : List Cmd := calls.flatMap fun call => [.enter call, .unlock]

variable (W) in
def connection : Language (Connection W) Cmd Empty ℕ Answer (ℕ × List Call) where
  exec := exec
  unwind _ _ _ _ := none
  ready _ _ := true
  spawn c e := some (c, [(e.1, thread e.2)])

abbrev ConnectionConfig (W : Wslay) := LockMachine.Config (Connection W) Cmd Empty ℕ

variable (W) in
def ConnectionConfig.initial : ConnectionConfig W :=
  ⟨Connection.initial W, none, [], none⟩

/-! What a run keeps. -/

/-- Where what wslay has taken is: written, pending, or lost with a failure. -/
structure Carried (K : Codec UInt8 Message) (c : Connection W) : Prop where
  ordered : K.Ordered c.accepted
  opened : W.enabled c.ctx = true → c.failed = false ∧ ∀ m ∈ c.accepted, K.last m = false
  frames : ∃ fs, K.Encodes c.accepted fs ∧ c.wire <+: fs ∧
    (c.failed = false → fs = c.wire ++ W.pending c.ctx)
  lost : c.failed = true → W.pending c.ctx = []

theorem Carried.initial {K : Codec UInt8 Message} (law : W.Lawful K) :
    Carried K (Connection.initial W) where
  ordered := .nil
  opened _ := ⟨rfl, fun _ mem => absurd mem List.not_mem_nil⟩
  frames := ⟨[], .nil, List.prefix_rfl, fun _ => law.start.symm⟩
  lost failed := by cases failed

/-- Messages are taken while nothing is pending. -/
theorem Carried.accept {K : Codec UInt8 Message} {c c' : Connection W} (h : Carried K c)
    {ms : List Message} (ready : W.pending c.ctx = [])
    (accepted : c'.accepted = c.accepted ++ ms) (wire : c'.wire = c.wire)
    (failed : c'.failed = c.failed) (ordered : K.Ordered ms)
    (enabled : ms ≠ [] → W.enabled c.ctx = true)
    (frames : K.Encodes ms (W.pending c'.ctx))
    (opened : W.enabled c'.ctx = true →
      W.enabled c.ctx = true ∧ ∀ m ∈ ms, K.last m = false) : Carried K c' := by
  by_cases none : ms = []
  · subst none
    rw [List.append_nil] at accepted
    have still : W.pending c'.ctx = [] := by
      cases hp : W.pending c'.ctx with
      | nil => rfl
      | cons b bs =>
        rw [hp] at frames
        cases frames
    obtain ⟨fs, encodes, started, all⟩ := h.frames
    refine ⟨by rw [accepted]; exact h.ordered, fun now => ?_, ⟨fs, ?_, ?_, fun fine => ?_⟩,
      fun _ => still⟩
    · rw [failed, accepted]
      exact h.opened (opened now).1
    · rw [accepted]
      exact encodes
    · rw [wire]
      exact started
    · rw [wire, still, ← ready]
      exact all (failed ▸ fine)
  · obtain ⟨fine, before⟩ := h.opened (enabled none)
    obtain ⟨fs, encodes, -, all⟩ := h.frames
    have written : fs = c.wire := by
      have eq := all fine
      rwa [ready, List.append_nil] at eq
    subst written
    refine ⟨?_, fun now => ⟨failed.trans fine, ?_⟩, ⟨c.wire ++ W.pending c'.ctx, ?_, ?_, ?_⟩, ?_⟩
    · rw [accepted]
      exact .append before ordered
    · rw [accepted]
      intro m mem
      exact (List.mem_append.1 mem).elim (before m) ((opened now).2 m)
    · rw [accepted]
      exact encodes.append frames
    · rw [wire]
      exact List.prefix_append ..
    · rw [wire]
      exact fun _ => rfl
    · intro broken
      rw [failed, fine] at broken
      cases broken

theorem Carried.write {K : Codec UInt8 Message} {c : Connection W} (law : W.Lawful K)
    (h : Carried K c) {data : Str} (offered : W.offered c.ctx = some data) {n : ℕ}
    (some : 0 < n) (le : n ≤ data.length) :
    Carried K { c with ctx := W.wrote c.ctx n, wire := c.wire ++ data.take n } := by
  obtain ⟨rest, split⟩ := law.offered_some offered
  have left := law.wrote_pending offered le
  have fine : c.failed = false := by
    refine Bool.eq_false_iff.2 fun failed => ?_
    have none := h.lost failed
    rw [none, List.append_eq_nil_iff] at split
    rw [split.1] at le
    exact absurd le (Nat.not_le_of_lt some)
  obtain ⟨fs, encodes, -, all⟩ := h.frames
  have whole : fs = c.wire ++ data.take n ++ (W.pending c.ctx).drop n := by
    rw [all fine, ← split, List.drop_append_of_le_length le, List.append_assoc,
      ← List.append_assoc (data.take n), List.take_append_drop]
  refine ⟨h.ordered, fun now => h.opened (law.wrote_enabled now), ⟨fs, encodes, ?_, fun _ => ?_⟩,
    fun failed => ?_⟩
  · rw [whole]
    exact List.prefix_append ..
  · exact whole.trans (congrArg (_ ++ ·) left.symm)
  · rw [show c.failed = true from failed] at fine
    cases fine

theorem Carried.fail {K : Codec UInt8 Message} {c : Connection W} (law : W.Lawful K)
    (h : Carried K c) : Carried K { c with ctx := W.failed c.ctx, failed := true } := by
  obtain ⟨fs, encodes, started, -⟩ := h.frames
  refine ⟨h.ordered, fun now => ?_, ⟨fs, encodes, started, fun fine => ?_⟩,
    fun _ => law.failed_pending c.ctx⟩
  · rw [law.failed_enabled] at now
    cases now
  · cases fine

def Cmd.inner : Cmd → Bool
  | .eventSend => true
  | .shutdownClose => true
  | .ret .. => true
  | _ => false

def data (messages : List Message) : List (Bool × Str) := messages.filterMap dispatch

/-- What the calls that returned `true` have sent. -/
def Connection.confirmed (c : Connection W) : List (Bool × Str) :=
  c.returned.filterMap fun r => if r.2 = true then dispatch r.1 else none

def Cmd.due : Cmd → Option (Bool × Str)
  | .ret message true => dispatch message
  | _ => none

structure Kept (K : Codec UInt8 Message) (c : Connection W) (cmd : Cmd) (o : Out W) : Prop where
  carried : Carried K o.world
  pushed : ∀ cmd' ∈ o.push, cmd'.inner = true
  sends : Cmd.eventSend ∉ o.push.tail
  writing : W.pending o.world.ctx ≠ [] → o.push.head? = some .eventSend
  parks : o.parks = true → cmd.inner = false ∧ o.world = c ∧ o.push = []
  accounted : (data o.world.accepted = data c.accepted ∧
      c.confirmed ++ cmd.due.toList = o.world.confirmed ++ o.push.filterMap Cmd.due) ∨
    (cmd.inner = false ∧ o.world.confirmed = c.confirmed ∧
      data o.world.accepted = data c.accepted ++ o.push.filterMap Cmd.due)

theorem data_append (ms ms' : List Message) : data (ms ++ ms') = data ms ++ data ms' :=
  List.filterMap_append ..

theorem due_sent (m : Message) : [Cmd.eventSend, .ret m true].filterMap Cmd.due = data [m] := by
  have last : [Cmd.ret m true].filterMap Cmd.due = data [m] := by
    rw [data, List.filterMap_cons, List.filterMap_cons, Cmd.due]
    rfl
  exact last

theorem Carried.queueMsg {K : Codec UInt8 Message} (law : W.Lawful K) {c c' : Connection W}
    (h : Carried K c) (ready : W.pending c.ctx = []) {m : Message} {mask : Str}
    (queued : queueMsg c m mask = some c') :
    Carried K c' ∧ c'.accepted = c.accepted ++ [m] ∧ c'.returned = c.returned := by
  obtain ⟨ctx, taken, rfl⟩ := Option.map_eq_some_iff.1 queued
  refine ⟨h.accept ready rfl rfl rfl (List.pairwise_singleton ..)
    (fun _ => law.queue_enabled taken) (.one (law.queue_frame taken ready)) fun now => ?_, rfl, rfl⟩
  refine ⟨law.queue_enabled taken, fun m' mem => ?_⟩
  obtain rfl := List.mem_singleton.1 mem
  exact law.queue_last taken now

section
variable {K : Codec UInt8 Message} {c : Connection W}

theorem send_kept (law : W.Lawful K) (h : Carried K c) (ready : W.pending c.ctx = [])
    {cmd : Cmd} (outer : cmd.inner = false) (none : cmd.due = none) (m : Message) (mask : Str) :
    Kept K c cmd (send c m mask) := by
  have refused : Kept K c cmd (.go c [.ret m false]) := by
    refine ⟨h, ?_, List.not_mem_nil, fun busy => absurd ready busy, fun parks => ?_, .inl ⟨rfl, ?_⟩⟩
    · intro cmd' mem
      obtain rfl := List.mem_singleton.1 mem
      rfl
    · cases parks
    · rw [none]
      rfl
  rw [send]
  split
  · exact refused
  · split
    · exact refused
    · rename_i c' queued
      obtain ⟨carried, accepted, returned⟩ := h.queueMsg law ready queued
      refine ⟨carried, ?_, ?_, fun _ => rfl, fun parks => ?_, .inr ⟨outer, ?_, ?_⟩⟩
      · simp [Cmd.inner]
      · simp
      · cases parks
      · rw [Connection.confirmed, Outcome.world_go, returned, Connection.confirmed]
      · rw [Outcome.world_go, accepted, data_append]
        exact congrArg (data c.accepted ++ ·) (due_sent m).symm

theorem close_kept (law : W.Lawful K) (h : Carried K c) (ready : W.pending c.ctx = [])
    (code : UInt16) (mask : Str) : Kept K c (.enter (.close code)) (close c code mask) := by
  rw [close]
  split
  · refine ⟨h, ?_, List.not_mem_nil, fun busy => absurd ready busy, fun parks => ?_, .inl ⟨rfl, rfl⟩⟩
    · simp [Cmd.inner]
    · cases parks
  · have inner : ∀ cmd' ∈ [Cmd.eventSend, Cmd.shutdownClose], cmd'.inner = true := by
      simp [Cmd.inner]
    cases queued : queueMsg c (closeMessage code) mask with
    | none =>
      refine ⟨h, inner, by simp, fun _ => rfl, fun parks => ?_, .inl ⟨rfl, rfl⟩⟩
      cases parks
    | some c' =>
      obtain ⟨carried, accepted, returned⟩ := h.queueMsg law ready queued
      refine ⟨carried, inner, by simp, fun _ => rfl, fun parks => ?_, .inl ⟨?_, ?_⟩⟩
      · cases parks
      · rw [Option.getD_some, Outcome.world_go, accepted, data_append]
        exact List.append_nil _
      · rw [Option.getD_some, Outcome.world_go, Connection.confirmed, Connection.confirmed, returned]
        rfl

theorem received_kept (law : W.Lawful K) (h : Carried K c) (ready : W.pending c.ctx = [])
    (bytes mask : Str) : Kept K c (.enter (.received bytes)) (received c bytes mask) := by
  rw [received]
  split
  · refine ⟨h, ?_, List.not_mem_nil, fun busy => absurd ready busy, fun parks => ?_, .inl ⟨rfl, rfl⟩⟩
    · simp
    · cases parks
  · refine ⟨?_, ?_, List.not_mem_nil, fun _ => rfl, fun parks => ?_, .inl ⟨?_, rfl⟩⟩
    · exact h.accept ready rfl rfl rfl (law.recv_ordered ..) (law.recv_enabled c.ctx bytes mask)
        (law.recv_frames _ _ _ ready) (law.recv_last c.ctx bytes mask)
    · simp [Cmd.inner]
    · cases parks
    · rw [Outcome.world_go, data_append]
      refine (congrArg (data c.accepted ++ ·) ?_).trans (List.append_nil _)
      exact List.filterMap_eq_nil_iff.2 (law.recv_control c.ctx bytes mask)

theorem eventSend_kept (law : W.Lawful K) (h : Carried K c) {n : ℤ} {o : Out W}
    (run : eventSend c n = some o) : Kept K c .eventSend o := by
  rw [eventSend] at run
  split at run
  · rename_i offered
    obtain rfl := Option.some.inj run
    refine ⟨h, ?_, List.not_mem_nil, fun busy => absurd (law.offered_none offered) busy,
      fun parks => ?_, .inl ⟨rfl, rfl⟩⟩
    · simp
    · cases parks
  · rename_i data offered
    split at run
    · obtain rfl := Option.some.inj run
      refine ⟨h.fail law, ?_, List.not_mem_nil, fun busy => absurd (law.failed_pending _) busy,
        fun parks => ?_, .inl ⟨rfl, rfl⟩⟩
      · simp
      · cases parks
    · rename_i positive
      split at run
      · rename_i fits
        obtain rfl := Option.some.inj run
        refine ⟨h.write law offered (by omega) fits.2, ?_, List.not_mem_nil, fun _ => rfl,
          fun parks => ?_, .inl ⟨rfl, rfl⟩⟩
        · simp [Cmd.inner]
        · cases parks
      · cases run

theorem exec_kept (law : W.Lawful K) (h : Carried K c) {cmd : Cmd} {a : Answer} {o : Out W}
    (ready : W.pending c.ctx ≠ [] → cmd = .eventSend) (run : exec c cmd a = some o) :
    Kept K c cmd o := by
  have idle : cmd ≠ .eventSend → W.pending c.ctx = [] := fun other =>
    Decidable.byContradiction fun busy => other (ready busy)
  have goes : ∀ {c' : Connection W}, W.pending c'.ctx = W.pending c.ctx → Carried K c' →
      cmd ≠ .eventSend → data c'.accepted = data c.accepted →
      c.confirmed ++ cmd.due.toList = c'.confirmed → Kept K c cmd (.go c' []) := by
    intro c' same carried other accepted confirmed
    refine ⟨carried, ?_, List.not_mem_nil, fun busy => absurd (same.trans (idle other)) busy,
      fun parks => ?_, .inl ⟨accepted, ?_⟩⟩
    · simp
    · cases parks
    · rw [confirmed]
      exact (List.append_nil _).symm
  cases cmd with
  | enter call =>
    have none : W.pending c.ctx = [] := idle (by simp)
    cases call with
    | sendText text =>
      cases a <;> cases run
      exact send_kept law h none rfl rfl _ _
    | sendBinary bytes =>
      cases a <;> cases run
      exact send_kept law h none rfl rfl _ _
    | close code =>
      cases a <;> cases run
      exact close_kept law h none code _
    | received bytes =>
      cases a <;> cases run
      exact received_kept law h none bytes _
    | loopEnded =>
      cases a <;> cases run
      exact goes rfl ⟨h.ordered, h.opened, h.frames, h.lost⟩ (by simp) rfl (List.append_nil _)
  | eventSend =>
    cases a with
    | mask => cases run
    | write n => exact eventSend_kept law h run
  | shutdownClose =>
    cases run
    exact goes rfl ⟨h.ordered, h.opened, h.frames, h.lost⟩ (by simp) rfl (List.append_nil _)
  | ret m value =>
    cases run
    refine goes rfl ⟨h.ordered, h.opened, h.frames, h.lost⟩ (by simp) rfl ?_
    cases value <;> cases sent : dispatch m <;> simp [Connection.confirmed, Cmd.due, sent]
  | unlock =>
    cases run
    refine ⟨h, ?_, List.not_mem_nil, fun busy => absurd (idle (by simp)) busy,
      fun _ => ⟨rfl, rfl, rfl⟩, .inl ⟨rfl, rfl⟩⟩
    simp

end

structure Section (c : Connection W) (stack : List Cmd) : Prop where
  split : ∃ section_ calls, stack = section_ ++ calls ∧ (∀ cmd ∈ section_, cmd.inner = true) ∧
    ∀ cmd ∈ calls, cmd.inner = false
  sends : Cmd.eventSend ∉ stack.tail
  writing : W.pending c.ctx ≠ [] → stack.head? = some .eventSend
  accounted : data c.accepted = c.confirmed ++ stack.filterMap Cmd.due

def Idle (c : Connection W) : Prop := W.pending c.ctx = [] ∧ data c.accepted = c.confirmed

def Held (c : Connection W) : Option (Thread ℕ Cmd Empty) → Prop
  | none => Idle c
  | some t => Section c t.stack

def Outside (_ : Connection W) (t : Thread ℕ Cmd Empty) : Prop :=
  ∀ cmd ∈ t.stack, cmd.inner = false

theorem due_outer {stack : List Cmd} (h : ∀ cmd ∈ stack, cmd.inner = false) :
    stack.filterMap Cmd.due = [] := by
  refine List.filterMap_eq_nil_iff.2 fun cmd mem => ?_
  have outer := h cmd mem
  cases cmd <;> first | rfl | cases outer

theorem eventSend_outer {stack : List Cmd} (h : ∀ cmd ∈ stack, cmd.inner = false) :
    Cmd.eventSend ∉ stack := by
  intro mem
  have outer := h _ mem
  cases outer

/-- The rest of a stack whose top is the last command of its section, or not in one, is calls. -/
theorem Section.rest {c : Connection W} {cmd : Cmd} {rest : List Cmd}
    (h : Section c (cmd :: rest)) (outer : cmd.inner = false) :
    ∀ cmd' ∈ rest, cmd'.inner = false := by
  obtain ⟨ins, calls, split, inner, outside⟩ := h.split
  cases ins with
  | nil =>
    obtain rfl : cmd :: rest = calls := split
    exact fun cmd' mem => outside cmd' (List.mem_cons_of_mem _ mem)
  | cons first ins =>
    obtain ⟨rfl, -⟩ := List.cons.inj split
    rw [inner _ List.mem_cons_self] at outer
    cases outer

theorem Section.start {c : Connection W} (h : Idle c) {stack : List Cmd}
    (outer : ∀ cmd ∈ stack, cmd.inner = false) : Section c stack where
  split := ⟨[], stack, rfl, fun _ mem => absurd mem List.not_mem_nil, outer⟩
  sends mem := eventSend_outer outer (List.mem_of_mem_tail mem)
  writing busy := absurd h.1 busy
  accounted := by rw [h.2, due_outer outer, List.append_nil]

theorem Section.next {K : Codec UInt8 Message} {c : Connection W} {cmd : Cmd} {rest : List Cmd}
    {o : Out W} (h : Section c (cmd :: rest)) (kept : Kept K c cmd o) :
    Section o.world (o.push ++ rest) := by
  have quiet : Cmd.eventSend ∉ rest := h.sends
  refine ⟨?_, ?_, fun busy => ?_, ?_⟩
  · obtain ⟨ins, calls, split, inner, outside⟩ := h.split
    cases ins with
    | nil =>
      obtain rfl : cmd :: rest = calls := split
      exact ⟨o.push, rest, rfl, kept.pushed, fun c mem => outside c (List.mem_cons_of_mem _ mem)⟩
    | cons first ins =>
      obtain ⟨rfl, rfl⟩ := List.cons.inj split
      refine ⟨o.push ++ ins, calls, (List.append_assoc ..).symm, fun c mem => ?_, outside⟩
      exact (List.mem_append.1 mem).elim (kept.pushed c)
        fun mem => inner c (List.mem_cons_of_mem _ mem)
  · have sends := kept.sends
    revert sends
    cases o.push with
    | nil => exact fun _ mem => quiet (List.mem_of_mem_tail mem)
    | cons first push =>
      intro sends mem
      exact (List.mem_append.1 mem).elim sends quiet
  · have first := kept.writing busy
    revert first
    cases o.push with
    | nil =>
      intro first
      cases first
    | cons cmd' push => exact id
  · have before := h.accounted
    rw [List.filterMap_append]
    rcases kept.accounted with ⟨same, moved⟩ | ⟨outer, same, more⟩
    · have due : (cmd :: rest).filterMap Cmd.due = cmd.due.toList ++ rest.filterMap Cmd.due := by
        rw [List.filterMap_cons]
        cases cmd.due <;> rfl
      rw [same, before, due, ← List.append_assoc, moved, List.append_assoc]
    · have none : (cmd :: rest).filterMap Cmd.due = [] := due_outer fun cmd' mem =>
        (List.mem_cons.1 mem).elim (fun eq => eq ▸ outer) (h.rest outer cmd')
      rw [more, before, none, same, List.append_nil, due_outer (h.rest outer), List.append_nil]

theorem thread_outer (calls : List Call) : ∀ cmd ∈ thread calls, cmd.inner = false := by
  intro cmd mem
  obtain ⟨call, -, mem⟩ := List.mem_flatMap.1 mem
  rcases List.mem_cons.1 mem with rfl | mem
  · rfl
  · obtain rfl := List.mem_singleton.1 mem
    rfl

theorem preserved {K : Codec UInt8 Message} (law : W.Lawful K) :
    Preserved (connection W) (Carried K) Held Outside fun _ _ => True := by
  refine ⟨?_, fun {c tid cmd rest x} => x.elim, ?_, ?_, ?_⟩
  · rintro c tid cmd rest a o ⟨carried, held, outside⟩ - top run
    rw [top] at held
    have holder : Section c.world (cmd :: rest) := held
    have kept := exec_kept law carried (fun busy => Option.some.inj (holder.writing busy)) run
    refine .intro kept.carried (fun _ => holder.next kept) (fun parks => ?_) outside
    obtain ⟨outer, world, push⟩ := kept.parks parks
    have next := holder.next kept
    have calls := holder.rest outer
    rw [push] at next ⊢
    refine ⟨⟨?_, ?_⟩, calls⟩
    · refine Decidable.byContradiction fun busy => eventSend_outer calls ?_
      exact List.mem_of_head? (next.writing busy)
    · have all := next.accounted
      rwa [List.nil_append, due_outer calls, List.append_nil] at all
  · rintro c tid ⟨-, held, -⟩ top
    rw [top] at held
    have holder : Section c.world [] := held
    refine ⟨Decidable.byContradiction fun busy => ?_, ?_⟩
    · cases holder.writing busy
    · exact holder.accounted.trans (List.append_nil _)
  · rintro c t ⟨-, held, outside⟩ free mem -
    rw [free] at held
    exact Section.start held (outside t mem)
  · rintro c e w new ⟨carried, held, outside⟩ - run
    obtain ⟨rfl, rfl⟩ := Prod.mk.inj (Option.some.inj run)
    refine ⟨carried, held, outside, fun p mem => ?_⟩
    obtain rfl := List.mem_singleton.1 mem
    exact thread_outer e.2

abbrev Run (W : Wslay) := LockMachine.Run (connection W) fun _ _ => True

theorem Run.holds {K : Codec UInt8 Message} (law : W.Lawful K) {ls : List (Label Answer (ℕ × List Call))}
    {c : ConnectionConfig W} (run : Run W (ConnectionConfig.initial W) ls c) :
    Holds (Carried K) Held Outside c :=
  (preserved law).run _ run
    ⟨.initial law, ⟨law.start, rfl⟩, fun _ mem => absurd mem List.not_mem_nil⟩

def peer (K : Codec UInt8 Message) (wants : K.decoder.State → ℕ) : ReceiveLoop.Wslay :=
  ⟨K.decoder, wants⟩

open ReceiveLoop in
/-- The other end is given the messages whose frames are whole in the bytes that arrive. -/
theorem Run.heard {K : Codec UInt8 Message} (law : W.Lawful K) (codec : K.Lawful)
    {wants : K.decoder.State → ℕ} (asks : ∀ s, 0 < wants s)
    {ls : List (Label Answer (ℕ × List Call))} {c : ConnectionConfig W}
    (run : Run W (ConnectionConfig.initial W) ls c) {onIdle : Bool} {reads : List Read}
    (arrived : bytesOf onIdle reads <+: c.world.wire) :
    ∃ k, messages (runRecvLoop onIdle (.initial (peer K wants)) reads).calls =
        data (c.world.accepted.take k) ∧
      (c.running = none → c.world.failed = false → bytesOf onIdle reads = c.world.wire →
        c.world.accepted.take k = c.world.accepted) := by
  obtain ⟨carried, held, -⟩ := run.holds law
  obtain ⟨fs, encodes, started, all⟩ := carried.frames
  obtain ⟨k, whole, part, -, -, found, complete⟩ := codec.decoded encodes carried.ordered
    (arrived.trans started) codec.start
  have heard := (runRecvLoop_spec (w := peer K wants) ⟨codec.decoder, asks⟩ onIdle reads
    (c := .initial (peer K wants)) ⟨rfl, rfl, rfl⟩ codec.decoder.start).1
  refine ⟨k, heard.trans (congrArg data found), fun free fine same => ?_⟩
  rw [free] at held
  refine complete (same.trans ?_)
  rw [all fine, held.1, List.append_nil]

theorem data_take (k : ℕ) (ms : List Message) : data (ms.take k) <+: data ms := by
  conv_rhs => rw [← List.take_append_drop k ms, data_append]
  exact List.prefix_append ..

theorem Run.accepted {K : Codec UInt8 Message} (law : W.Lawful K)
    {ls : List (Label Answer (ℕ × List Call))} {c : ConnectionConfig W}
    (run : Run W (ConnectionConfig.initial W) ls c) (free : c.running = none) :
    data c.world.accepted = c.world.confirmed := by
  obtain ⟨-, held, -⟩ := run.holds law
  rw [free] at held
  exact held.2

open ReceiveLoop in
/-- For any threads that send and close, any order of their sections and any sizes of writes and reads,
what the handler of the other end is given begins what was accepted, in order; while the mutex is free
that is what the calls that returned `true` have sent; and all of it arrives unless a write has failed. -/
theorem sections_deliver (W : Wslay) (K : Codec UInt8 Message) (law : W.Lawful K)
    (codec : K.Lawful) (wants : K.decoder.State → ℕ) (asks : ∀ s, 0 < wants s)
    {ls : List (Label Answer (ℕ × List Call))} {c : ConnectionConfig W}
    (run : Run W (ConnectionConfig.initial W) ls c) :
    (c.running = none → data c.world.accepted = c.world.confirmed) ∧
      ∀ (onIdle : Bool) (reads : List Read), bytesOf onIdle reads <+: c.world.wire →
        messages (runRecvLoop onIdle (.initial (peer K wants)) reads).calls <+:
            data c.world.accepted ∧
          (c.running = none → c.world.failed = false → bytesOf onIdle reads = c.world.wire →
            messages (runRecvLoop onIdle (.initial (peer K wants)) reads).calls =
              c.world.confirmed) := by
  refine ⟨run.accepted law, fun onIdle reads arrived => ?_⟩
  obtain ⟨k, heard, complete⟩ := run.heard law codec asks arrived
  rw [heard]
  refine ⟨data_take k _, fun free fine same => ?_⟩
  rw [complete free fine same, run.accepted law free]

open ReceiveLoop in
/-- Events that are sent as `build_event_frame` writes them are read by `parse_frame` at the other end as
they were, in order, without gaps. -/
theorem events_arrive (W : Wslay) (K : Codec UInt8 Message) (law : W.Lawful K)
    (codec : K.Lawful) (wants : K.decoder.State → ℕ) (asks : ∀ s, 0 < wants s)
    (M : MsgpackC) (J : JsonText) (hM : M.Lawful)
    {ls : List (Label Answer (ℕ × List Call))} {c : ConnectionConfig W}
    (run : Run W (ConnectionConfig.initial W) ls c) (events : List (Str × Value))
    (sent : data c.world.accepted = events.map fun e => (true, Sio.buildEventFrame M e.1 e.2.json))
    (sizes : ∀ e ∈ events, e.1.length < 2 ^ 32 ∧ packable e.2.json = true)
    (onIdle : Bool) (reads : List Read) (arrived : bytesOf onIdle reads <+: c.world.wire) :
    ∃ k, List.Forall₂ (fun m e => ∃ f, Sio.parseFrame M J m.1 m.2 = .ok f ∧ f.kind = .Event ∧
        f.event = e.1 ∧ f.data.eqv e.2.json = true)
      (messages (runRecvLoop onIdle (.initial (peer K wants)) reads).calls) (events.take k) ∧
      (c.running = none → c.world.failed = false → bytesOf onIdle reads = c.world.wire →
        events.take k = events) := by
  obtain ⟨n, heard, complete⟩ := run.heard law codec asks arrived
  have begins := data_take n c.world.accepted
  rw [← heard, sent] at begins
  obtain ⟨k, same⟩ : ∃ k, messages (runRecvLoop onIdle (.initial (peer K wants)) reads).calls =
      (events.take k).map fun e => (true, Sio.buildEventFrame M e.1 e.2.json) :=
    ⟨_, (List.prefix_iff_eq_take.1 begins).trans List.map_take.symm⟩
  refine ⟨k, ?_, fun free fine whole => ?_⟩
  · rw [same, List.forall₂_map_left_iff, List.forall₂_same]
    intro e mem
    obtain ⟨short, packs⟩ := sizes e (List.mem_of_mem_take mem)
    obtain ⟨f, parsed, kind, event, copy⟩ := Sio.parseFrame_event hM J short packs e.2.ordered
    exact ⟨f, parsed, kind, event, copy.eqv packs⟩
  · rw [complete free fine whole, sent] at heard
    have lengths := congrArg List.length (heard.symm.trans same)
    rw [List.length_map, List.length_map, List.length_take] at lengths
    exact List.take_of_length_le (by omega)

/-! After a close, a failure or the end of the loop. -/

def Over (c : Connection W) : Prop := W.enabled c.ctx = false ∨ c.closed = true

/-- A connection that is over takes no message, and one on which a write has failed writes nothing. -/
structure Silent (c c' : Connection W) : Prop where
  finished : Over c'
  accepted : c'.accepted = c.accepted
  failed : c.failed = true → c'.failed = true
  wire : c.failed = true → W.pending c.ctx = [] → c'.wire = c.wire

theorem queueMsg_over {K : Codec UInt8 Message} (law : W.Lawful K) {c : Connection W} (finished : Over c)
    (opened : ¬ c.closed = true) (m : Message) (mask : Str) : queueMsg c m mask = none := by
  have disabled := finished.resolve_right opened
  rw [queueMsg, Option.map_eq_none_iff]
  cases queued : W.queueMsg c.ctx m mask with
  | none => rfl
  | some ctx =>
    have enabled := law.queue_enabled queued
    rw [disabled] at enabled
    cases enabled

theorem exec_silent {K : Codec UInt8 Message} (law : W.Lawful K) {c : Connection W} {cmd : Cmd}
    {a : Answer} {o : Out W} (finished : Over c) (run : exec c cmd a = some o) : Silent c o.world := by
  have same : ∀ {c' : Connection W}, c'.ctx = c.ctx → c'.closed = c.closed →
      c'.accepted = c.accepted → c'.failed = c.failed → c'.wire = c.wire → Silent c c' := by
    intro c' ctx closed accepted failed wire
    refine ⟨?_, accepted, fun broken => failed.trans broken, fun _ _ => wire⟩
    rw [Over, ctx, closed]
    exact finished
  have sent : ∀ m mask, Silent c (send c m mask).world := by
    intro m mask
    rw [send]
    split
    · exact same rfl rfl rfl rfl rfl
    · rename_i opened
      rw [queueMsg_over law finished opened]
      exact same rfl rfl rfl rfl rfl
  cases cmd with
  | enter call =>
    cases call with
    | sendText text =>
      cases a <;> cases run
      exact sent _ _
    | sendBinary bytes =>
      cases a <;> cases run
      exact sent _ _
    | close code =>
      cases a <;> cases run
      rw [close]
      split
      · exact same rfl rfl rfl rfl rfl
      · rename_i opened
        rw [queueMsg_over law finished opened]
        exact same rfl rfl rfl rfl rfl
    | received bytes =>
      cases a <;> cases run
      rename_i mask
      rw [received]
      split
      · exact same rfl rfl rfl rfl rfl
      · rename_i opened
        have disabled := finished.resolve_right opened
        refine ⟨.inl (Bool.eq_false_iff.2 fun enabled => ?_), ?_, id, fun _ _ => rfl⟩
        · rw [(law.recv_last _ _ _ enabled).1] at disabled
          cases disabled
        · refine (congrArg (c.accepted ++ ·) ?_).trans (List.append_nil _)
          refine Decidable.byContradiction fun some => ?_
          rw [law.recv_enabled _ _ _ some] at disabled
          cases disabled
    | loopEnded =>
      cases a <;> cases run
      exact ⟨.inr rfl, rfl, id, fun _ _ => rfl⟩
  | eventSend =>
    cases a with
    | mask => cases run
    | write n =>
      change eventSend c n = some o at run
      rw [eventSend] at run
      split at run
      · cases run
        exact same rfl rfl rfl rfl rfl
      · rename_i data offered
        split at run
        · cases run
          exact ⟨.inl (law.failed_enabled _), rfl, fun _ => rfl, fun _ _ => rfl⟩
        · split at run
          · cases run
            refine ⟨finished.imp_left fun disabled => ?_, rfl, id, fun _ none => ?_⟩
            · refine Bool.eq_false_iff.2 fun enabled => ?_
              rw [law.wrote_enabled enabled] at disabled
              cases disabled
            · have empty := law.offered_some offered
              rw [none] at empty
              rw [List.prefix_nil.1 empty]
              exact (congrArg (c.wire ++ ·) List.take_nil).trans (List.append_nil _)
          · cases run
  | shutdownClose | ret =>
    cases run
    exact same rfl rfl rfl rfl rfl
  | unlock =>
    cases run
    exact same rfl rfl rfl rfl rfl

/-- After a close frame was accepted, a write has failed or the receive loop has ended, no call is
successful any more and no reply is queued; after a failed write the other end gets no byte more. -/
theorem silent_for_good (W : Wslay) (K : Codec UInt8 Message) (law : W.Lawful K)
    {ls ls' : List (Label Answer (ℕ × List Call))} {c c' : ConnectionConfig W}
    (run : Run W (ConnectionConfig.initial W) ls c) (later : Run W c ls' c')
    (finished : c.world.failed = true ∨ c.world.closed = true ∨
      ∃ m ∈ c.world.accepted, K.last m = true) :
    c'.world.accepted = c.world.accepted ∧
      (c'.running = none → c'.world.confirmed = data c.world.accepted) ∧
      (c.world.failed = true → c'.world.wire = c.world.wire) := by
  have start := run.holds law
  have disabled : ∀ {m : Message}, (c.world.failed = true ∨
      m ∈ c.world.accepted ∧ K.last m = true) → W.enabled c.world.ctx = false := by
    intro m finished
    refine Bool.eq_false_iff.2 fun enabled => ?_
    obtain ⟨fine, before⟩ := start.1.opened enabled
    rcases finished with failed | ⟨mem, last⟩
    · rw [failed] at fine
      cases fine
    · rw [before m mem] at last
      cases last
  have finished : Over c.world := by
    rcases finished with failed | closed | ⟨m, mem, last⟩
    · exact .inl (disabled (m := (0, [])) (.inl failed))
    · exact .inr closed
    · exact .inl (disabled (.inr ⟨mem, last⟩))
  have keep : ∀ {d d' : ConnectionConfig W} {l : Label Answer (ℕ × List Call)},
      Holds (Carried K) Held Outside d ∧ Silent c.world d.world → True →
      LockMachine.Step (connection W) d l d' →
      Holds (Carried K) Held Outside d' ∧ Silent c.world d'.world := by
    rintro d d' l ⟨holds, silent⟩ - step
    refine ⟨(preserved law).step _ holds trivial step, ?_⟩
    cases step with
    | finish | crash | take => exact silent
    | exec alive top run =>
      have next := exec_silent law silent.finished run
      rw [world_settle]
      refine ⟨next.finished, next.accepted.trans silent.accepted,
        fun failed => next.failed (silent.failed failed), fun failed none => ?_⟩
      have failed' := silent.failed failed
      exact (next.wire failed' (holds.1.lost failed')).trans (silent.wire failed none)
    | unwind alive top run => cases run
    | env alive run =>
      obtain ⟨rfl, -⟩ := Prod.mk.inj (Option.some.inj run)
      exact silent
  obtain ⟨⟨-, held, -⟩, silent⟩ :=
    later.invariant _ ⟨start, finished, rfl, id, fun _ _ => rfl⟩ keep
  refine ⟨silent.accepted, fun free => ?_, fun failed => silent.wire failed (start.1.lost failed)⟩
  rw [free] at held
  exact held.2.symm.trans (congrArg data silent.accepted)

end

/-! The frames that `ReceiveLoop.frames` reads: those of a server, of less than 126 bytes. -/

open ReceiveLoop (FrameState frameStep complete)
open Incremental (feedSteps)

def fits (m : Message) : Bool :=
  [TEXT_FRAME, BINARY_FRAME, CONNECTION_CLOSE, 0x9, 0xa].contains m.1 && m.2.length < 126

def frame (m : Message) : Str := UInt8.ofNat (0x80 + m.1) :: UInt8.ofNat m.2.length :: m.2

def serverFrames : Codec UInt8 Message where
  decoder := ReceiveLoop.frames.decoder
  between s := s = FrameState.header
  encodes f m := fits m = true ∧ f = frame m
  last m := m.1 == CONNECTION_CLOSE

def feedFrames : FrameState → Str → FrameState × List Message :=
  feedSteps (fun s => s == .stopped) frameStep

theorem feedFrames_cons {s : FrameState} (running : (s == .stopped) = false) (b : UInt8)
    (bs : Str) : feedFrames s (b :: bs) =
      ((feedFrames (frameStep s b).1 bs).1, (frameStep s b).2 ++ (feedFrames (frameStep s b).1 bs).2) := by
  rw [feedFrames, feedSteps, if_neg (by rw [running]; exact Bool.false_ne_true)]

theorem feedFrames_payload (opcode : ℕ) (got : Str) {left : ℕ} {bs : Str} (short : bs.length < left) :
    feedFrames (.payload opcode left got) bs =
      (.payload opcode (left - bs.length) (got ++ bs), []) := by
  induction bs generalizing left got with
  | nil => rw [List.append_nil]; rfl
  | cons b bs ih =>
    rw [List.length_cons] at short
    have more : ¬ left ≤ 1 := by omega
    have step : frameStep (.payload opcode left got) b =
        (.payload opcode (left - 1) (got ++ [b]), []) := if_neg more
    rw [feedFrames_cons rfl, step, ih (got ++ [b]) (by omega), List.append_assoc,
      List.length_cons, Nat.sub_sub, Nat.add_comm 1]
    rfl

theorem feedFrames_complete (opcode : ℕ) (got bs : Str) (b : UInt8) :
    feedFrames (.payload opcode (bs.length + 1) got) (bs ++ [b]) =
      complete opcode (got ++ (bs ++ [b])) := by
  induction bs generalizing got with
  | nil =>
    have step : frameStep (.payload opcode 1 got) b = complete opcode (got ++ [b]) := by
      rw [frameStep, if_pos (Nat.le_refl 1)]
    have all : feedFrames (.payload opcode 1 got) [b] = _ := feedFrames_cons rfl b []
    rw [step] at all
    refine all.trans (Prod.ext rfl ?_)
    exact List.append_nil _
  | cons x bs ih =>
    have more : ¬ bs.length + 1 + 1 ≤ 1 := by omega
    have step : frameStep (.payload opcode (bs.length + 1 + 1) got) x =
        (.payload opcode (bs.length + 1) (got ++ [x]), []) := by
      rw [frameStep, if_neg more]
      rfl
    rw [List.length_cons, List.cons_append, feedFrames_cons rfl, step, ih (got ++ [x]),
      List.append_assoc]
    rfl

theorem frameStep_header {m : Message} (h : fits m = true) :
    frameStep .header (UInt8.ofNat (0x80 + m.1)) = (.length m.1, []) := by
  have known := (Bool.and_eq_true_iff.1 h).1
  rw [List.contains_iff_mem] at known
  generalize m.1 = opcode at known ⊢
  simp only [List.mem_cons, List.not_mem_nil, or_false] at known
  rcases known with rfl | rfl | rfl | rfl | rfl <;> decide

theorem frameStep_length {m : Message} (h : fits m = true) :
    frameStep (.length m.1) (UInt8.ofNat m.2.length) =
      if m.2 = [] then complete m.1 [] else (.payload m.1 m.2.length [], []) := by
  have short : m.2.length < 126 := of_decide_eq_true (Bool.and_eq_true_iff.1 h).2
  have value : (UInt8.ofNat m.2.length).toNat = m.2.length := by
    rw [UInt8.toNat_ofNat']
    exact Nat.mod_eq_of_lt (by omega)
  rw [frameStep, value, if_neg (by omega)]
  by_cases none : m.2 = []
  · rw [if_pos none, if_pos (by rw [none]; rfl)]
  · rw [if_neg none, if_neg (fun zero => none (List.length_eq_zero_iff.1 zero))]

/-- A whole frame is decoded to its message, and the beginning of one to nothing. -/
theorem feedFrames_frame {m : Message} (h : fits m = true) :
    feedFrames .header (frame m) = complete m.1 m.2 := by
  rw [frame, feedFrames_cons rfl, frameStep_header h, feedFrames_cons rfl, frameStep_length h]
  rcases List.eq_nil_or_concat m.2 with none | ⟨bs, b, payload⟩
  · rw [if_pos none, none]
    refine Prod.ext rfl ?_
    exact List.append_nil _
  · rw [List.concat_eq_append] at payload
    have some : m.2 ≠ [] := by rw [payload]; simp
    rw [if_neg some, payload, List.length_append]
    exact feedFrames_complete m.1 [] bs b

theorem feedFrames_part {m : Message} (h : fits m = true) {p q : Str} (split : frame m = p ++ q)
    (missing : q ≠ []) : (feedFrames .header p).2 = [] := by
  cases p with
  | nil => rfl
  | cons first p =>
    obtain ⟨rfl, rest⟩ : UInt8.ofNat (0x80 + m.1) = first ∧
      UInt8.ofNat m.2.length :: m.2 = p ++ q := List.cons.inj split
    rw [feedFrames_cons rfl, frameStep_header h]
    cases p with
    | nil => rfl
    | cons second p =>
      obtain ⟨rfl, payload⟩ : UInt8.ofNat m.2.length = second ∧ m.2 = p ++ q :=
        List.cons.inj rest
      have some : m.2 ≠ [] := by
        intro none
        rw [none] at payload
        exact missing (List.append_eq_nil_iff.1 payload.symm).2
      have short : p.length < m.2.length := by
        have := List.length_pos_of_ne_nil missing
        rw [payload, List.length_append]
        omega
      rw [feedFrames_cons rfl, frameStep_length h, if_neg some, feedFrames_payload m.1 [] short]
      rfl

theorem serverFrames_lawful : serverFrames.Lawful where
  decoder := ReceiveLoop.frames_lawful.decoder
  start := rfl
  whole := by
    rintro s f m rfl ⟨fit, rfl⟩
    exact congrArg Prod.snd (feedFrames_frame fit)
  next := by
    rintro s f m rfl ⟨fit, rfl⟩ more
    refine (congrArg Prod.fst (feedFrames_frame fit)).trans (if_neg fun close => ?_)
    rw [show serverFrames.last m = (m.1 == CONNECTION_CLOSE) from rfl, close] at more
    cases more
  part := by
    rintro s p q m rfl ⟨fit, split⟩ missing
    exact feedFrames_part fit split.symm missing

inductive MaskedState where
  | header
  | length (opcode : ℕ)
  | key (opcode left : ℕ) (key : Str)
  | payload (opcode left : ℕ) (key got : Str)
  | stopped
  deriving DecidableEq

def completeMasked (opcode : ℕ) (payload : Str) : MaskedState × List Message :=
  (if opcode = CONNECTION_CLOSE then .stopped else .header, [(opcode, payload)])

def maskedStep : MaskedState → UInt8 → MaskedState × List Message
  | .header, b =>
    if b.toNat ∈ [0x81, 0x82, 0x88, 0x89, 0x8a] then (.length (b.toNat - 0x80), [])
    else (.stopped, [])
  | .length opcode, b =>
    if b.toNat < 0x80 ∨ 0x80 + 126 ≤ b.toNat then (.stopped, [])
    else (.key opcode (b.toNat - 0x80) [], [])
  | .key opcode left key, b =>
    if key.length < 3 then (.key opcode left (key ++ [b]), [])
    else if left = 0 then completeMasked opcode []
    else (.payload opcode left (key ++ [b]) [], [])
  | .payload opcode left key got, b =>
    let got := got ++ [b ^^^ key.getD (got.length % 4) 0]
    if left ≤ 1 then completeMasked opcode got else (.payload opcode (left - 1) key got, [])
  | .stopped, _ => (.stopped, [])

structure ServerState where
  input : MaskedState
  pending : Str
  enabled : Bool

/-- A ping is answered with its payload, and so is a close. -/
def replyTo (m : Message) : Option Message :=
  if m.1 = 0x9 then some (0xa, m.2)
  else if m.1 = CONNECTION_CLOSE then some m
  else none

def upToClose : List Message → List Message
  | [] => []
  | m :: ms => if m.1 = CONNECTION_CLOSE then [m] else m :: upToClose ms

def ServerState.replies (s : ServerState) (found : List Message) : List Message :=
  if s.enabled = true then upToClose ((found.filterMap replyTo).filter fits) else []

def isClose (m : Message) : Bool := m.1 == CONNECTION_CLOSE

def server : Wslay where
  State := ServerState
  start := ⟨.header, [], true⟩
  queueMsg s m _ :=
    if s.enabled = true ∧ fits m = true then
      some { s with pending := s.pending ++ frame m, enabled := !isClose m }
    else none
  recv s bytes _ :=
    let read := feedSteps (fun s => s == .stopped) maskedStep s.input bytes
    let replies := s.replies read.2
    (⟨read.1, s.pending ++ replies.flatMap frame, s.enabled && !replies.any isClose⟩, replies)
  offered s := if s.pending = [] then none else some s.pending
  wrote s n := { s with pending := s.pending.drop n }
  failed s := { s with pending := [], enabled := false }
  pending := ServerState.pending
  enabled := ServerState.enabled

theorem upToClose_ordered (ms : List Message) : serverFrames.Ordered (upToClose ms) := by
  induction ms with
  | nil => exact .nil
  | cons m ms ih =>
    rw [upToClose]
    split
    · exact List.pairwise_singleton ..
    · rename_i other
      exact .cons (fun _ _ => beq_eq_false_iff_ne.2 other) ih

theorem upToClose_subset (ms : List Message) : ∀ m ∈ upToClose ms, m ∈ ms := by
  induction ms with
  | nil => exact fun _ => id
  | cons m ms ih =>
    intro m' mem
    rw [upToClose] at mem
    split at mem
    · rw [List.mem_singleton.1 mem]
      exact List.mem_cons_self
    · exact (List.mem_cons.1 mem).elim (fun eq => eq ▸ List.mem_cons_self)
        fun mem => List.mem_cons_of_mem _ (ih m' mem)

theorem replies_spec {s : ServerState} {found : List Message} {m : Message}
    (mem : m ∈ s.replies found) : s.enabled = true ∧ fits m = true ∧ dispatch m = none := by
  rw [ServerState.replies] at mem
  split at mem
  · rename_i enabled
    obtain ⟨reply, fit⟩ := List.mem_filter.1 (upToClose_subset _ m mem)
    refine ⟨enabled, fit, ?_⟩
    obtain ⟨asked, -, answers⟩ := List.mem_filterMap.1 reply
    rw [replyTo] at answers
    split at answers
    · obtain rfl := Option.some.inj answers
      rfl
    · split at answers
      · rename_i close
        obtain rfl := Option.some.inj answers
        rw [dispatch, close]
        rfl
      · cases answers
  · cases mem

theorem replies_ordered (s : ServerState) (found : List Message) :
    serverFrames.Ordered (s.replies found) := by
  rw [ServerState.replies]
  split
  · exact upToClose_ordered _
  · exact .nil

theorem not_isClose {ms : List Message} (h : (!ms.any isClose) = true) {m : Message}
    (mem : m ∈ ms) : isClose m = false := by
  refine Bool.eq_false_iff.2 fun close => ?_
  rw [List.any_eq_true.2 ⟨m, mem, close⟩] at h
  cases h

theorem frames_encode {ms : List Message} (h : ∀ m ∈ ms, fits m = true) :
    serverFrames.Encodes ms (ms.flatMap frame) := by
  induction ms with
  | nil => exact .nil
  | cons m ms ih =>
    exact .cons ⟨h m List.mem_cons_self, rfl⟩ (ih fun m mem => h m (List.mem_cons_of_mem _ mem))

theorem server_queueMsg {s s' : ServerState} {m : Message} {mask : Str}
    (h : server.queueMsg s m mask = some s') : s.enabled = true ∧ fits m = true ∧
      s' = { s with pending := s.pending ++ frame m, enabled := !isClose m } := by
  obtain ⟨⟨enabled, fit⟩, same⟩ := Option.ite_none_right_eq_some.1 h
  exact ⟨enabled, fit, (Option.some.inj same).symm⟩

theorem server_lawful : server.Lawful serverFrames where
  start := rfl
  queue_enabled h := (server_queueMsg h).1
  queue_frame {s m mask s'} h none := by
    obtain ⟨-, fit, rfl⟩ := server_queueMsg h
    exact ⟨fit, congrArg (· ++ frame m) none⟩
  queue_last {s m mask s'} h enabled := by
    obtain ⟨-, -, rfl⟩ := server_queueMsg h
    have opened : (!isClose m) = true := enabled
    have other : isClose m = false := by simpa using opened
    exact other
  recv_frames s bytes mask none := by
    have none : ServerState.pending s = [] := none
    change serverFrames.Encodes (ServerState.replies s _) (ServerState.pending s ++ _)
    rw [none]
    exact frames_encode fun m mem => (replies_spec mem).2.1
  recv_ordered s bytes mask := replies_ordered s _
  recv_control s bytes mask m mem := (replies_spec mem).2.2
  recv_enabled s bytes mask some := by
    obtain ⟨m, mem⟩ := List.exists_mem_of_ne_nil _ some
    exact (replies_spec mem).1
  recv_last s bytes mask enabled := by
    obtain ⟨before, none⟩ := Bool.and_eq_true_iff.1 enabled
    exact ⟨before, fun m mem => not_isClose none mem⟩
  offered_none {s} h := by
    refine Decidable.byContradiction fun some => ?_
    cases (if_neg some).symm.trans h
  offered_some {s data} h := by
    obtain ⟨-, same⟩ := Option.ite_none_left_eq_some.1 h
    rw [← Option.some.inj same]
    exact List.prefix_rfl
  wrote_pending _ _ := rfl
  wrote_enabled := id
  failed_pending _ := rfl
  failed_enabled _ := rfl

/-- A text, the answer to a ping and a binary message, the first in three writes. -/
def exchange : List (Label Answer (ℕ × List Call)) :=
  [.env (1, [.sendText (lit "hi"), .sendBinary [7]]),
    .env (2, [.received [0x89, 0x80, 1, 2, 3, 4]]),
    .take 0, .act (.mask []), .act (.write 1), .act (.write 1), .act (.write 2), .act (.write 0),
    .act (.write 0), .act (.write 0),
    .take 0, .act (.mask []), .act (.write 2), .act (.write 0), .act (.write 0),
    .take 0, .act (.mask []), .act (.write 3), .act (.write 0), .act (.write 0), .act (.write 0)]

def exchanged : List ReceiveLoop.Read :=
  [.chunk [0x81, 2, 0x68], .idle, .chunk [0x69, 0x8a, 0, 0x82], .chunk [1, 7]]

def exchangeCheck (c : ConnectionConfig server) : Bool :=
  c.running.isNone && !c.world.failed && c.world.wire == ReceiveLoop.bytesOf true exchanged &&
    c.world.confirmed == [(false, lit "hi"), (true, [7])]

theorem exchangeCheck_sound {c : ConnectionConfig server} (h : exchangeCheck c = true) :
    c.running = none ∧ c.world.failed = false ∧
      ReceiveLoop.bytesOf true exchanged = c.world.wire ∧
      c.world.confirmed = [(false, lit "hi"), (true, [7])] := by
  simp only [exchangeCheck, Bool.and_eq_true, Option.isNone_iff_eq_none, beq_iff_eq,
    Bool.not_eq_true'] at h
  obtain ⟨⟨⟨free, fine⟩, wire⟩, confirmed⟩ := h
  exact ⟨free, fine, wire.symm, confirmed⟩

/-- A run of the connection of a server found by running it. -/
theorem run_of_check {c : ConnectionConfig server} {ls : List (Label Answer (ℕ × List Call))}
    {check : ConnectionConfig server → Bool}
    (found : (execute (connection server) (fun _ _ => true) c ls).any check = true) :
    ∃ c', Run server c ls c' ∧ check c' = true := by
  obtain ⟨c', run, holds⟩ := exists_run (connection server) found
  exact ⟨c', run.weaken _ fun _ => trivial, holds⟩

theorem sections_deliver_exchange : ReceiveLoop.messages (ReceiveLoop.runRecvLoop true
    (.initial (peer serverFrames fun _ => 4096)) exchanged).calls =
      [(false, lit "hi"), (true, [7])] := by
  have found : (execute (connection server) (fun _ _ => true) (ConnectionConfig.initial server)
      exchange).any exchangeCheck = true := by
    decide +kernel
  obtain ⟨c, run, check⟩ := run_of_check found
  obtain ⟨free, fine, wire, confirmed⟩ := exchangeCheck_sound check
  have delivers := sections_deliver server serverFrames server_lawful serverFrames_lawful
    (fun _ => 4096) (fun _ => Nat.succ_pos 4095) run
  have all := (delivers.2 true exchanged (wire ▸ List.prefix_rfl)).2 free fine wire
  rw [confirmed] at all
  exact all

def greetingFrame : Str := Sio.buildEventFrame shortest (lit "chat") Sio.greeting.json

def greet : List (Label Answer (ℕ × List Call)) :=
  [.env (1, [.sendBinary greetingFrame]), .take 0, .act (.mask []), .act (.write 2),
    .act (.write greetingFrame.length), .act (.write 0), .act (.write 0), .act (.write 0)]

def greetCheck (c : ConnectionConfig server) : Bool :=
  c.world.wire == frame (BINARY_FRAME, greetingFrame) &&
    data c.world.accepted == [(true, greetingFrame)]

theorem events_arrive_greeting : ∃ k, List.Forall₂ (fun m e => ∃ f,
    Sio.parseFrame shortest Text.reference m.1 m.2 = .ok f ∧ f.kind = .Event ∧
      f.event = e.1 ∧ f.data.eqv e.2.json = true)
    (ReceiveLoop.messages (ReceiveLoop.runRecvLoop true (.initial (peer serverFrames fun _ => 4096))
      [.chunk (frame (BINARY_FRAME, greetingFrame))]).calls)
    ([(lit "chat", Sio.greeting)].take k) := by
  have found : (execute (connection server) (fun _ _ => true) (ConnectionConfig.initial server)
      greet).any greetCheck = true := by
    decide +kernel
  obtain ⟨c, run, check⟩ := run_of_check found
  obtain ⟨wire, sent⟩ := Bool.and_eq_true_iff.1 check
  have sizes : ∀ e ∈ [(lit "chat", Sio.greeting)], e.1.length < 2 ^ 32 ∧
      packable e.2.json = true := by
    intro e mem
    rw [List.mem_singleton.1 mem]
    decide
  obtain ⟨k, arrive, -⟩ := events_arrive server serverFrames server_lawful serverFrames_lawful
    (fun _ => 4096) (fun _ => Nat.succ_pos 4095) shortest Text.reference shortest_lawful run
    [(lit "chat", Sio.greeting)] (beq_iff_eq.1 sent) sizes true
    [.chunk (frame (BINARY_FRAME, greetingFrame))]
    (by rw [beq_iff_eq.1 wire]; exact List.prefix_rfl)
  exact ⟨k, arrive⟩

/-- A write that fails in the middle of a frame, and a call after it. -/
def broken : List (Label Answer (ℕ × List Call)) :=
  [.env (1, [.sendText (lit "hi"), .sendText (lit "you")]), .take 0, .act (.mask []),
    .act (.write 3), .act (.write (-1))]

def refused : List (Label Answer (ℕ × List Call)) :=
  [.act (.write 0), .act (.write 0), .take 0, .act (.mask []), .act (.write 0), .act (.write 0)]

theorem silent_for_good_broken : ∃ c c', Run server (ConnectionConfig.initial server) broken c ∧
    Run server c refused c' ∧ c'.world.accepted = c.world.accepted := by
  have found : (execute (connection server) (fun _ _ => true) (ConnectionConfig.initial server)
      broken).any (fun c => c.world.failed &&
        (execute (connection server) (fun _ _ => true) c refused).isSome) = true := by
    decide +kernel
  obtain ⟨c, run, check⟩ := run_of_check found
  obtain ⟨failed, more⟩ := Bool.and_eq_true_iff.1 check
  obtain ⟨d, further⟩ := Option.isSome_iff_exists.1 more
  have found : (execute (connection server) (fun _ _ => true) c refused).any (fun _ => true) =
      true := by
    rw [further]
    rfl
  obtain ⟨c', later, -⟩ := run_of_check found
  exact ⟨c, c', run, later,
    (silent_for_good server serverFrames server_lawful run later (.inl failed)).1⟩

end Blueboat.Sending
