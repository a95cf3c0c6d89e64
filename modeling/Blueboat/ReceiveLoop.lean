import Blueboat.Json
import Blueboat.Library.Incremental

set_option autoImplicit false

/-! `WsConnection::run_recv_loop`, over what it needs of wslay: an incremental decoder that pulls bytes
through `recv_cb`. Both handlers are set. -/
namespace Blueboat.ReceiveLoop

open Incremental

/-- An opcode and a payload, as `on_msg_recv_cb` gets them. -/
abbrev Message := ℕ × Str

def TEXT_FRAME : ℕ := 0x1
def BINARY_FRAME : ℕ := 0x2

/-- A context of wslay for receiving: it has stopped when `wslay_event_recv` returned an error or reading
is no longer enabled. `wants` is how many bytes the next call of the callback asks for. -/
structure Wslay where
  decoder : Decoder UInt8 Message
  wants : decoder.State → ℕ

structure Wslay.Lawful (w : Wslay) : Prop where
  decoder : Incremental.Lawful w.decoder
  asks : ∀ s, 0 < w.wants s

/-- One return of `read`: bytes, where none is the end of the stream; a timeout; any other error. -/
inductive Read where
  | chunk (bytes : Str)
  | idle
  | error

inductive Call where
  | message (isBinary : Bool) (payload : Str)
  | idle
  | close
  deriving DecidableEq

section
variable (w : Wslay)

structure Connection where
  ctx : w.decoder.State
  pendingRecv : Str
  pendingMessages : List Message
  closed : Bool

def Connection.initial : Connection w :=
  { ctx := w.decoder.start, pendingRecv := [], pendingMessages := [], closed := false }

end

section
variable {w : Wslay}

/-- `recv_cb`: nothing is `WSLAY_ERR_WOULDBLOCK`. -/
def recvCb (pending : Str) (len : ℕ) : Option (Str × Str) :=
  if pending = [] then none
  else
    let take := min len pending.length
    some (pending.take take, pending.drop take)

/-- `wslay_event_recv`: the callback is called until it would block or the decoder stops. Each call
takes a byte at least, so there are no more `rounds` than pending bytes. -/
def eventRecv : ℕ → Connection w → Connection w
  | 0, c => c
  | rounds + 1, c =>
    if w.decoder.stopped c.ctx = true then c
    else
      match recvCb c.pendingRecv (w.wants c.ctx) with
      | none => c
      | some (chunk, rest) =>
        eventRecv rounds
          { c with
            ctx := (w.decoder.feed c.ctx chunk).1
            pendingRecv := rest
            pendingMessages := c.pendingMessages ++ (w.decoder.feed c.ctx chunk).2 }

def dispatch (message : Message) : Option (Bool × Str) :=
  if message.1 = TEXT_FRAME then some (false, message.2)
  else if message.1 = BINARY_FRAME then some (true, message.2)
  else none

def callOf (message : Bool × Str) : Call := .message message.1 message.2

/-- What follows one chunk: the connection, the calls of `on_message_`, and whether to stop. -/
def receive (c : Connection w) (bytes : Str) : Connection w × List Call × Bool :=
  if c.closed = true then (c, [], true)
  else
    let pending := { c with pendingRecv := c.pendingRecv ++ bytes }
    let received := eventRecv pending.pendingRecv.length pending
    ({ received with pendingMessages := [] },
      (received.pendingMessages.filterMap dispatch).map callOf, w.decoder.stopped received.ctx)

structure Run (w : Wslay) where
  conn : Connection w
  calls : List Call
  returned : Bool

def Run.after (calls : List Call) (r : Run w) : Run w := { r with calls := calls ++ r.calls }

def finish (c : Connection w) : Run w :=
  { conn := { c with closed := true }, calls := [.close], returned := true }

/-- The loop over what the calls of `read` return; `onIdle` says whether there is an idle handler. -/
def runRecvLoop (onIdle : Bool) : Connection w → List Read → Run w
  | c, [] => { conn := c, calls := [], returned := false }
  | c, .error :: _ => finish c
  | c, .idle :: reads =>
    if onIdle = true then (runRecvLoop onIdle c reads).after [.idle] else finish c
  | c, .chunk bytes :: reads =>
    if bytes = [] then finish c
    else
      match receive c bytes with
      | (c, calls, true) => (finish c).after calls
      | (c, calls, false) => (runRecvLoop onIdle c reads).after calls

end

/-! What the reads hold. -/

def bytesOf (onIdle : Bool) : List Read → Str
  | [] => []
  | .error :: _ => []
  | .idle :: reads => if onIdle = true then bytesOf onIdle reads else []
  | .chunk bytes :: reads => if bytes = [] then [] else bytes ++ bytesOf onIdle reads

def Ends (onIdle : Bool) : List Read → Prop
  | [] => False
  | .error :: _ => True
  | .idle :: reads => onIdle = false ∨ Ends onIdle reads
  | .chunk bytes :: reads => bytes = [] ∨ Ends onIdle reads

def messages (calls : List Call) : List (Bool × Str) :=
  calls.filterMap fun call =>
    match call with
    | .message isBinary payload => some (isBinary, payload)
    | _ => none

section
variable {w : Wslay}

theorem recvCb_cons {pending : Str} (h : pending ≠ []) {len : ℕ} (asked : 0 < len) :
    ∃ chunk rest, recvCb pending len = some (chunk, rest) ∧ pending = chunk ++ rest ∧
      rest.length < pending.length := by
  have some := List.length_pos_of_ne_nil h
  refine ⟨_, _, if_neg h, (List.take_append_drop _ _).symm, ?_⟩
  rw [List.length_drop]
  omega

/-- Whatever the callback is asked for, the decoder gets the pending bytes in order, all of them if it
does not stop. -/
theorem eventRecv_spec (law : w.Lawful) (rounds : ℕ) (c : Connection w)
    (enough : c.pendingRecv.length ≤ rounds) :
    ∃ taken, c.pendingRecv = taken ++ (eventRecv rounds c).pendingRecv ∧
      (eventRecv rounds c).ctx = (w.decoder.feed c.ctx taken).1 ∧
      (eventRecv rounds c).pendingMessages =
        c.pendingMessages ++ (w.decoder.feed c.ctx taken).2 ∧
      (w.decoder.stopped (eventRecv rounds c).ctx = false →
        (eventRecv rounds c).pendingRecv = []) ∧
      (eventRecv rounds c).closed = c.closed := by
  induction rounds generalizing c with
  | zero =>
    have none : c.pendingRecv = [] := List.length_eq_zero_iff.1 (Nat.le_zero.1 enough)
    refine ⟨[], rfl, ?_, ?_, fun _ => none, rfl⟩
    · rw [law.decoder.nil]
      rfl
    · rw [law.decoder.nil, List.append_nil]
      rfl
  | succ rounds ih =>
    by_cases stopped : w.decoder.stopped c.ctx = true
    · rw [eventRecv, if_pos stopped]
      refine ⟨[], rfl, ?_, ?_, fun running => ?_, rfl⟩
      · rw [law.decoder.nil]
      · rw [law.decoder.nil, List.append_nil]
      · rw [running] at stopped
        cases stopped
    · rw [eventRecv, if_neg stopped]
      by_cases none : c.pendingRecv = []
      · have blocked : recvCb c.pendingRecv (w.wants c.ctx) = Option.none := if_pos none
        rw [blocked]
        refine ⟨[], rfl, ?_, ?_, fun _ => none, rfl⟩
        · rw [law.decoder.nil]
        · rw [law.decoder.nil, List.append_nil]
      · obtain ⟨chunk, rest, pulled, split, shorter⟩ := recvCb_cons none (law.asks c.ctx)
        rw [pulled]
        dsimp only
        obtain ⟨taken, left, ctx, found, all, closed⟩ := ih
          { c with
            ctx := (w.decoder.feed c.ctx chunk).1
            pendingRecv := rest
            pendingMessages := c.pendingMessages ++ (w.decoder.feed c.ctx chunk).2 }
          (by change rest.length ≤ rounds; omega)
        dsimp only at left ctx found closed
        refine ⟨chunk ++ taken, ?_, ?_, ?_, all, closed⟩
        · rw [split, List.append_assoc]
          exact congrArg (chunk ++ ·) left
        · rw [ctx, law.decoder.append]
        · rw [found, law.decoder.append, List.append_assoc]

/-- Between two reads nothing is pending. -/
structure Ready (c : Connection w) : Prop where
  pendingRecv : c.pendingRecv = []
  pendingMessages : c.pendingMessages = []
  opened : c.closed = false

theorem messages_append (calls calls' : List Call) :
    messages (calls ++ calls') = messages calls ++ messages calls' :=
  List.filterMap_append ..

theorem messages_callOf (found : List (Bool × Str)) : messages (found.map callOf) = found := by
  induction found with
  | nil => rfl
  | cons m found ih => exact congrArg (m :: ·) ih

theorem close_callOf (found : List (Bool × Str)) : Call.close ∉ found.map callOf := by
  intro mem
  obtain ⟨m, -, same⟩ := List.mem_map.1 mem
  cases same

/-- One chunk is decoded to the end, or up to where the decoder stops. -/
theorem receive_spec (law : w.Lawful) {c : Connection w} (ready : Ready c) (bytes : Str) :
    ∃ c' stop, receive c bytes =
        (c', ((w.decoder.feed c.ctx bytes).2.filterMap dispatch).map callOf, stop) ∧
      stop = w.decoder.stopped (w.decoder.feed c.ctx bytes).1 ∧
      (stop = false → Ready c' ∧ c'.ctx = (w.decoder.feed c.ctx bytes).1) := by
  obtain ⟨taken, left, ctx, found, all, closed⟩ := eventRecv_spec law
    (c.pendingRecv ++ bytes).length { c with pendingRecv := c.pendingRecv ++ bytes }
    (Nat.le_refl _)
  have opened : ¬ c.closed = true := by rw [ready.opened]; exact Bool.false_ne_true
  rw [receive, if_neg opened]
  dsimp only at ctx found all closed left ⊢
  generalize eventRecv (c.pendingRecv ++ bytes).length
    { c with pendingRecv := c.pendingRecv ++ bytes } = received at left ctx found all closed ⊢
  rw [ready.pendingRecv, List.nil_append] at left
  rw [ready.pendingMessages, List.nil_append] at found
  cases stopped : w.decoder.stopped received.ctx with
  | true =>
    rw [ctx] at stopped
    obtain ⟨same, still⟩ := law.decoder.feed_stopped stopped received.pendingRecv
    rw [← left] at same still
    exact ⟨_, true, by rw [found, same], still.symm, fun running => (nomatch running)⟩
  | false =>
    have none := all stopped
    rw [none, List.append_nil] at left
    rw [ctx] at stopped
    subst left
    refine ⟨{ received with pendingMessages := [] }, false, by rw [found], stopped.symm,
      fun _ => ⟨⟨none, rfl, closed.trans ready.opened⟩, ctx⟩⟩

/-- The calls of a loop that has returned end with the only call of `on_close_`. -/
structure ClosesOnce (r : Run w) : Prop where
  last : r.returned = true → ∃ before, r.calls = before ++ [.close] ∧ Call.close ∉ before
  none : r.returned = false → Call.close ∉ r.calls

theorem closesOnce_finish (c : Connection w) : ClosesOnce (finish c) where
  last _ := ⟨[], rfl, List.not_mem_nil⟩
  none waiting := by cases waiting

theorem ClosesOnce.after {r : Run w} (h : ClosesOnce r) {calls : List Call}
    (none : Call.close ∉ calls) : ClosesOnce (r.after calls) where
  last returned := by
    obtain ⟨before, last, before_none⟩ := h.last returned
    refine ⟨calls ++ before, ?_, ?_⟩
    · rw [Run.after, last, List.append_assoc]
    · rw [List.mem_append, not_or]
      exact ⟨none, before_none⟩
  none waiting := by
    rw [Run.after, List.mem_append, not_or]
    exact ⟨none, h.none waiting⟩

theorem runRecvLoop_spec (law : w.Lawful) (onIdle : Bool) (reads : List Read) {c : Connection w}
    (ready : Ready c) (running : w.decoder.stopped c.ctx = false) :
    messages (runRecvLoop onIdle c reads).calls =
        (w.decoder.feed c.ctx (bytesOf onIdle reads)).2.filterMap dispatch ∧
      ((runRecvLoop onIdle c reads).returned = true ↔ Ends onIdle reads ∨
        w.decoder.stopped (w.decoder.feed c.ctx (bytesOf onIdle reads)).1 = true) ∧
      ClosesOnce (runRecvLoop onIdle c reads) := by
  induction reads generalizing c with
  | nil =>
    rw [runRecvLoop, bytesOf, law.decoder.nil]
    exact ⟨rfl, by simp [Ends, running], fun returned => (nomatch returned),
      fun _ => List.not_mem_nil⟩
  | cons read reads ih =>
    cases read with
    | error =>
      rw [runRecvLoop, bytesOf, law.decoder.nil]
      exact ⟨rfl, by simp [finish, Ends], closesOnce_finish c⟩
    | idle =>
      rw [runRecvLoop, bytesOf]
      cases onIdle with
      | false =>
        rw [if_neg Bool.false_ne_true, if_neg Bool.false_ne_true, law.decoder.nil]
        exact ⟨rfl, by simp [finish, Ends], closesOnce_finish c⟩
      | true =>
        rw [if_pos rfl, if_pos rfl]
        obtain ⟨delivered, returned, once⟩ := ih ready running
        refine ⟨delivered, returned.trans ?_, once.after (by decide)⟩
        simp [Ends]
    | chunk bytes =>
      rw [runRecvLoop, bytesOf]
      by_cases none : bytes = []
      · rw [if_pos none, if_pos none, law.decoder.nil]
        exact ⟨rfl, by simp [finish, Ends, none], closesOnce_finish c⟩
      · rw [if_neg none, if_neg none]
        obtain ⟨c', stop, received, same, next⟩ := receive_spec law ready bytes
        rw [received]
        cases stop with
        | true =>
          obtain ⟨found, still⟩ := law.decoder.feed_stopped same.symm (bytesOf onIdle reads)
          refine ⟨?_, ?_, (closesOnce_finish c').after (close_callOf _)⟩
          · rw [found]
            change messages (_ ++ [Call.close]) = _
            rw [messages_append, messages_callOf]
            exact List.append_nil _
          · simp [finish, Run.after, still]
        | false =>
          obtain ⟨ready', ctx⟩ := next rfl
          have running' : w.decoder.stopped c'.ctx = false := by rw [ctx]; exact same.symm
          obtain ⟨delivered, returned, once⟩ := ih ready' running'
          rw [law.decoder.append, ← ctx]
          refine ⟨?_, returned.trans ?_, once.after (close_callOf _)⟩
          · change messages (_ ++ (runRecvLoop onIdle c' reads).calls) = _
            rw [messages_append, messages_callOf, delivered, List.filterMap_append]
          · simp [Ends, none]

/-- Whatever the sizes of the reads and of what the decoder asks for, `on_message_` is called with the text
and binary messages in the bytes up to the end, in order; the loop returns exactly at an end, an error
or a close; and it has then called `on_close_` once, after everything else. -/
theorem runRecvLoop_delivers (w : Wslay) (law : w.Lawful) (onIdle : Bool) (reads : List Read) :
    messages (runRecvLoop onIdle (Connection.initial w) reads).calls =
        (w.decoder.feed w.decoder.start (bytesOf onIdle reads)).2.filterMap dispatch ∧
      (∀ reads', bytesOf onIdle reads' = bytesOf onIdle reads →
        messages (runRecvLoop onIdle (Connection.initial w) reads').calls =
          messages (runRecvLoop onIdle (Connection.initial w) reads).calls) ∧
      ((runRecvLoop onIdle (Connection.initial w) reads).returned = true ↔ Ends onIdle reads ∨
        w.decoder.stopped (w.decoder.feed w.decoder.start (bytesOf onIdle reads)).1 = true) ∧
      ClosesOnce (runRecvLoop onIdle (Connection.initial w) reads) := by
  have run := fun reads => runRecvLoop_spec law onIdle reads (c := Connection.initial w)
    ⟨rfl, rfl, rfl⟩ law.decoder.start
  obtain ⟨delivered, returned, once⟩ := run reads
  refine ⟨delivered, fun reads' same => ?_, returned, once⟩
  rw [delivered, (run reads').1, same]

end

/-! A decoder for frames of a server: unmasked, whole messages of less than 126 bytes. -/

inductive FrameState where
  | header
  | length (opcode : ℕ)
  | payload (opcode left : ℕ) (got : Str)
  | stopped
  deriving DecidableEq

def complete (opcode : ℕ) (payload : Str) : FrameState × List Message :=
  (if opcode = 0x8 then .stopped else .header, [(opcode, payload)])

def frameStep : FrameState → UInt8 → FrameState × List Message
  | .header, b =>
    if b.toNat ∈ [0x81, 0x82, 0x88, 0x89, 0x8a] then (.length (b.toNat - 0x80), []) else (.stopped, [])
  | .length opcode, b =>
    if 126 ≤ b.toNat then (.stopped, [])
    else if b.toNat = 0 then complete opcode []
    else (.payload opcode b.toNat [], [])
  | .payload opcode left got, b =>
    if left ≤ 1 then complete opcode (got ++ [b]) else (.payload opcode (left - 1) (got ++ [b]), [])
  | .stopped, _ => (.stopped, [])

def frames : Wslay where
  decoder := ofSteps (fun s => s == .stopped) frameStep .header
  wants _ := 4096

theorem frames_lawful : frames.Lawful where
  decoder := ofSteps_lawful frameStep rfl
  asks _ := Nat.succ_pos 4095

/-- Two messages and a ping, cut in the middle of a payload and of a header, and a close. -/
theorem runRecvLoop_delivers_frames :
    messages (runRecvLoop true (Connection.initial frames) [.chunk [0x81, 2, 0x68], .idle,
        .chunk [0x69, 0x89, 0, 0x82], .chunk [1, 7, 0x88, 0, 0x81, 0]]).calls =
      [(false, lit "hi"), (true, [7])] :=
  (runRecvLoop_delivers frames frames_lawful true _).1.trans (by decide)

end Blueboat.ReceiveLoop
