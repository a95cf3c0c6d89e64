import Mathlib.Data.List.Induction
import Blueboat.KeepAlive

set_option autoImplicit false

/-! The receive loop of one connection of the server with its inactivity check. An exception that
leaves the message handler ends the process, and with it the sequence of reads. -/
namespace Blueboat.Inactivity

open KeepAlive

structure RecvLoop (W : Wslay) where
  wslay : W.State
  lastActivityMs : ℤ
  closed : Bool
  stopped : Bool

section
variable {W : Wslay}

def RecvLoop.start (wslay : W.State) (now : ℤ) : RecvLoop W where
  wslay := wslay
  lastActivityMs := now
  closed := false
  stopped := false

/-- Every complete message counts as activity, before anything in it is looked at. -/
def handleWsPayload (now : ℤ) (s : RecvLoop W) (_message : Bool × Str) : RecvLoop W :=
  { s with lastActivityMs := now }

def onIdle (s : RecvLoop W) (now : ℤ) : RecvLoop W :=
  if now - s.lastActivityMs ≥ (pingIntervalMs + pingTimeoutMs).toInt then { s with closed := true }
  else s

def iterate (s : RecvLoop W) (now : ℤ) : Read → RecvLoop W
  | .timeout => onIdle s now
  | .chunk bytes =>
    let received := W.recv s.wslay bytes
    let dispatched := received.2.1.foldl (handleWsPayload now) { s with wslay := received.1 }
    { dispatched with stopped := received.2.2 }

/-- The loop does not read any more once it has stopped. -/
def runRecvLoop (s : RecvLoop W) (reads : List (ℤ × Read)) : RecvLoop W :=
  reads.foldl (fun s read => if s.stopped then s else iterate s read.1 read.2) s

end

/-- What a read brings: a complete text or binary message, other bytes, or nothing for a second. -/
inductive Arrival where
  | message
  | bytes
  | silence
  deriving DecidableEq

def Wslay.arrival (W : Wslay) (w : W.State) : Read → Arrival
  | .timeout => .silence
  | .chunk bytes => if (W.recv w bytes).2.1 = [] then .bytes else .message

def Wslay.after (W : Wslay) (w : W.State) : Read → W.State
  | .timeout => w
  | .chunk bytes => (W.recv w bytes).1

def Wslay.arrivals (W : Wslay) : W.State → List (ℤ × Read) → List (ℤ × Arrival)
  | _, [] => []
  | w, (now, read) :: reads =>
    (now, Wslay.arrival W w read) :: Wslay.arrivals W (Wslay.after W w read) reads

def lastMessage (start : ℤ) (arrivals : List (ℤ × Arrival)) : ℤ :=
  arrivals.foldl (fun last e => if e.2 = .message then e.1 else last) start

/-- Some read timed out 30 s or more after the last complete message before it. -/
def TimedOut (start : ℤ) (arrivals : List (ℤ × Arrival)) : Prop :=
  ∃ before now, before ++ [(now, .silence)] <+: arrivals ∧ lastMessage start before + 30000 ≤ now

/-- The loop has not ended before the last of the reads. -/
def Reads {W : Wslay} (s : RecvLoop W) (reads : List (ℤ × Read)) : Prop :=
  ∀ before read, before ++ [read] <+: reads → (runRecvLoop s before).stopped = false

/-- Once no complete message has come for 31 s, `ws.close()` has been called. -/
def DropsDeadPeers {W : Wslay} (wslay : W.State) (start : ℤ) (reads : List (ℤ × Read)) : Prop :=
  ∀ before now read, before ++ [(now, read)] <+: reads →
    lastMessage start (Wslay.arrivals W wslay (before ++ [(now, read)])) + 31000 ≤ now →
    (runRecvLoop (.start wslay start) (before ++ [(now, read)])).closed = true

/-- Whenever the loop still reads 31 s after the last complete message, one of its reads timed out
when such a silence had lasted 30 s. -/
def SilentWhenOverdue (W : Wslay) (wslay : W.State) (start : ℤ) (reads : List (ℤ × Read)) : Prop :=
  ∀ before now read, before ++ [(now, read)] <+: reads →
    lastMessage start (Wslay.arrivals W wslay (before ++ [(now, read)])) + 31000 ≤ now →
    TimedOut start (Wslay.arrivals W wslay (before ++ [(now, read)]))

theorem lastMessage_concat (start : ℤ) (arrivals : List (ℤ × Arrival)) (e : ℤ × Arrival) :
    lastMessage start (arrivals ++ [e]) =
      if e.2 = .message then e.1 else lastMessage start arrivals := by
  simp only [lastMessage, List.foldl_append, List.foldl_cons, List.foldl_nil]

theorem timedOut_nil (start : ℤ) : ¬ TimedOut start [] := by
  rintro ⟨before, now, h, -⟩
  exact absurd (List.prefix_nil.1 h) (by simp)

theorem timedOut_concat (start : ℤ) (arrivals : List (ℤ × Arrival)) (e : ℤ × Arrival) :
    TimedOut start (arrivals ++ [e]) ↔ TimedOut start arrivals ∨
      (e.2 = .silence ∧ lastMessage start arrivals + 30000 ≤ e.1) := by
  unfold TimedOut
  constructor
  · rintro ⟨before, now, h, overdue⟩
    rcases List.prefix_concat_iff.1 h with h | h
    · obtain ⟨rfl, last⟩ := List.append_inj' h rfl
      obtain rfl := (List.singleton_inj.1 last).symm
      exact .inr ⟨rfl, overdue⟩
    · exact .inl ⟨before, now, h, overdue⟩
  · rintro (⟨before, now, h, overdue⟩ | ⟨silence, overdue⟩)
    · exact ⟨before, now, h.trans (List.prefix_append _ _), overdue⟩
    · obtain ⟨now, arrival⟩ := e
      obtain rfl : arrival = .silence := silence
      exact ⟨arrivals, now, List.prefix_rfl, overdue⟩

section
variable {W : Wslay}

theorem runRecvLoop_concat (s : RecvLoop W) (reads : List (ℤ × Read)) (read : ℤ × Read)
    (going : (runRecvLoop s reads).stopped = false) :
    runRecvLoop s (reads ++ [read]) = iterate (runRecvLoop s reads) read.1 read.2 := by
  have last : runRecvLoop s (reads ++ [read]) = if (runRecvLoop s reads).stopped then
      runRecvLoop s reads else iterate (runRecvLoop s reads) read.1 read.2 := by
    unfold runRecvLoop
    rw [List.foldl_append]
    rfl
  rw [last, going, if_neg Bool.false_ne_true]

theorem arrivals_concat (wslay : W.State) (reads : List (ℤ × Read)) (read : ℤ × Read) :
    Wslay.arrivals W wslay (reads ++ [read]) = Wslay.arrivals W wslay reads ++
      [(read.1, Wslay.arrival W (reads.foldl (fun w r => Wslay.after W w r.2) wslay) read.2)] := by
  induction reads generalizing wslay with
  | nil => rfl
  | cons r reads ih =>
    simp only [List.cons_append, Wslay.arrivals, List.foldl_cons]
    rw [ih]

theorem foldl_handleWsPayload (now : ℤ) (s : RecvLoop W) (messages : List (Bool × Str)) :
    messages.foldl (handleWsPayload now) s =
      { s with lastActivityMs := if messages = [] then s.lastActivityMs else now } := by
  induction messages generalizing s with
  | nil => rfl
  | cons message messages ih =>
    rw [List.foldl_cons, ih]
    simp [handleWsPayload]

/-- What one read does to the activity stamp, the closed flag and the library. -/
theorem iterate_facts (s : RecvLoop W) (now : ℤ) (read : Read) :
    (iterate s now read).lastActivityMs =
        (if Wslay.arrival W s.wslay read = .message then now else s.lastActivityMs) ∧
      ((iterate s now read).closed = true ↔ s.closed = true ∨
        (Wslay.arrival W s.wslay read = .silence ∧ s.lastActivityMs + 30000 ≤ now)) ∧
      (iterate s now read).wslay = Wslay.after W s.wslay read := by
  cases read with
  | timeout =>
    have limit : (pingIntervalMs + pingTimeoutMs).toInt = 30000 := by decide
    simp only [iterate, onIdle, limit, Wslay.arrival, Wslay.after]
    split
    · refine ⟨rfl, ?_, rfl⟩
      simp
      omega
    · refine ⟨rfl, ?_, rfl⟩
      simp
      omega
  | chunk bytes =>
    simp only [iterate, foldl_handleWsPayload, Wslay.arrival, Wslay.after]
    split <;> simp

/-- The loop's own stamp is the time of the last message, and it has closed the connection exactly
where one of its reads timed out too late. -/
theorem runRecvLoop_refines (wslay : W.State) (start : ℤ) (reads : List (ℤ × Read))
    (going : Reads (.start wslay start) reads) :
    (runRecvLoop (.start wslay start) reads).lastActivityMs =
        lastMessage start (Wslay.arrivals W wslay reads) ∧
      ((runRecvLoop (.start wslay start) reads).closed = true ↔
        TimedOut start (Wslay.arrivals W wslay reads)) ∧
      (runRecvLoop (.start wslay start) reads).wslay =
        reads.foldl (fun w r => Wslay.after W w r.2) wslay := by
  induction reads using List.reverseRecOn with
  | nil => exact ⟨rfl, iff_of_false Bool.false_ne_true (timedOut_nil start), rfl⟩
  | append_singleton reads read ih =>
    obtain ⟨stamp, closed, state⟩ :=
      ih fun before r h => going before r (h.trans (List.prefix_append _ _))
    obtain ⟨stamp', closed', state'⟩ :=
      iterate_facts (runRecvLoop (.start wslay start) reads) read.1 read.2
    rw [runRecvLoop_concat _ _ _ (going reads read List.prefix_rfl), arrivals_concat,
      lastMessage_concat, timedOut_concat, List.foldl_append]
    rw [state] at stamp' closed' state'
    refine ⟨?_, ?_, state'⟩
    · rw [stamp', stamp]
    · rw [closed', closed, stamp]

theorem Reads.of_prefix {s : RecvLoop W} {reads reads' : List (ℤ × Read)} (h : Reads s reads)
    (le : reads' <+: reads) : Reads s reads' := fun before read hr => h before read (hr.trans le)

/-- Dead peers are dropped exactly when the socket falls silent for a second in time. -/
theorem drops_dead_peers_iff (wslay : W.State) (start : ℤ) (reads : List (ℤ × Read))
    (going : Reads (.start wslay start) reads) :
    DropsDeadPeers wslay start reads ↔ SilentWhenOverdue W wslay start reads := by
  have closed : ∀ before now read, before ++ [(now, read)] <+: reads →
      ((runRecvLoop (.start wslay start) (before ++ [(now, read)])).closed = true ↔
        TimedOut start (Wslay.arrivals W wslay (before ++ [(now, read)]))) := fun _ _ _ h =>
    (runRecvLoop_refines wslay start _ (going.of_prefix h)).2.1
  constructor
  · intro drops before now read h overdue
    exact (closed before now read h).1 (drops before now read h overdue)
  · intro silent before now read h overdue
    exact (closed before now read h).2 (silent before now read h overdue)

/-- A peer that sends nothing at all is always found out. -/
theorem silentWhenOverdue_of_timeouts (wslay : W.State) (start : ℤ) {reads : List (ℤ × Read)}
    (quiet : ∀ read ∈ reads, read.2 = .timeout) : SilentWhenOverdue W wslay start reads := by
  intro before now read h overdue
  have last : read = .timeout := quiet (now, read) (h.subset (by simp))
  subst last
  rw [arrivals_concat] at overdue ⊢
  rw [lastMessage_concat] at overdue
  refine (timedOut_concat _ _ _).2 (.inr ⟨rfl, ?_⟩)
  have unchanged : lastMessage start (Wslay.arrivals W wslay before) + 31000 ≤ now := overdue
  change lastMessage start (Wslay.arrivals W wslay before) + 30000 ≤ now
  omega

theorem reads_of_timeouts (wslay : W.State) (start : ℤ) {reads : List (ℤ × Read)}
    (quiet : ∀ read ∈ reads, read.2 = .timeout) : Reads (RecvLoop.start wslay start) reads := by
  intro before read h
  have quiet' : ∀ r ∈ before, r.2 = .timeout := fun r hr =>
    quiet r (h.subset (List.mem_append_left _ hr))
  clear h
  induction before using List.reverseRecOn with
  | nil => rfl
  | append_singleton before r ih =>
    have going := ih fun r hr => quiet' r (List.mem_append_left _ hr)
    rw [runRecvLoop_concat _ _ _ going, quiet' r (by simp)]
    change (onIdle _ _).stopped = false
    unfold onIdle
    split <;> exact going

end

/-- Each read comes at most a second after the one before. -/
def Paced : ℤ → List (ℤ × Read) → Prop
  | _, [] => True
  | before, (now, _) :: reads => before ≤ now ∧ now ≤ before + 1000 ∧ Paced now reads

def controlFrames (start : ℤ) : ℕ → List (ℤ × Read)
  | 0 => []
  | n + 1 => (start + 900, .chunk [0x89, 0x00]) :: controlFrames (start + 900) n

theorem controlFrames_paced (start : ℤ) (n : ℕ) : Paced start (controlFrames start n) := by
  induction n generalizing start with
  | zero => trivial
  | succ n ih => exact ⟨by omega, by omega, ih (start + 900)⟩

theorem controlFrames_chunks (start : ℤ) (n : ℕ) :
    ∀ read ∈ controlFrames start n, read.2 = .chunk [0x89, 0x00] := by
  induction n generalizing start with
  | zero => simp [controlFrames]
  | succ n ih => exact List.forall_mem_cons.2 ⟨rfl, ih (start + 900)⟩

theorem controlFrames_last (start : ℤ) (n : ℕ) : controlFrames start (n + 1) =
    controlFrames start n ++ [(start + 900 * (n + 1), .chunk [0x89, 0x00])] := by
  induction n generalizing start with
  | zero => simp [controlFrames]
  | succ n ih =>
    have time : start + 900 + 900 * ((n : ℤ) + 1) = start + 900 * (((n + 1 : ℕ) : ℤ) + 1) := by
      push_cast; ring
    rw [controlFrames, ih (start + 900), time]
    rfl

/-- Control frames change nothing that the loop knows. -/
theorem runRecvLoop_controlFrames {reads : List (ℤ × Read)}
    (chunks : ∀ read ∈ reads, read.2 = .chunk [0x89, 0x00]) :
    runRecvLoop (RecvLoop.start (W := shortMessages) () 0) reads = .start () 0 := by
  induction reads with
  | nil => rfl
  | cons read reads ih =>
    obtain ⟨now, read⟩ := read
    obtain rfl : read = .chunk [0x89, 0x00] := chunks (now, read) List.mem_cons_self
    exact ih fun r hr => chunks r (List.mem_cons_of_mem _ hr)

theorem lastMessage_controlFrames {reads : List (ℤ × Read)}
    (chunks : ∀ read ∈ reads, read.2 = .chunk [0x89, 0x00]) :
    lastMessage 0 (Wslay.arrivals shortMessages () reads) = 0 := by
  induction reads with
  | nil => rfl
  | cons read reads ih =>
    obtain ⟨now, read⟩ := read
    obtain rfl : read = .chunk [0x89, 0x00] := chunks (now, read) List.mem_cons_self
    exact ih fun r hr => chunks r (List.mem_cons_of_mem _ hr)

/-- A peer that only sends pings stays connected for more than 31 s. -/
theorem dead_peer_stays : ∃ reads, Paced 0 reads ∧
    Reads (RecvLoop.start (W := shortMessages) () 0) reads ∧
    ¬ DropsDeadPeers (W := shortMessages) () 0 reads := by
  refine ⟨controlFrames 0 35, controlFrames_paced 0 35, fun before read h => ?_, fun drops => ?_⟩
  · have chunks : ∀ r ∈ before, r.2 = .chunk [0x89, 0x00] := fun r hr =>
      controlFrames_chunks 0 35 r (h.subset (List.mem_append_left _ hr))
    rw [runRecvLoop_controlFrames chunks]
    rfl
  · have last := controlFrames_last 0 34
    have closed := drops (controlFrames 0 34) (0 + 900 * ((34 : ℕ) + 1)) (.chunk [0x89, 0x00])
      ⟨[], by rw [last, List.append_nil]⟩
    rw [← last, lastMessage_controlFrames (controlFrames_chunks 0 35),
      runRecvLoop_controlFrames (controlFrames_chunks 0 35)] at closed
    exact absurd (closed (by omega)) Bool.false_ne_true

theorem seconds_paced (start : ℤ) (n : ℕ) : Paced start (seconds start n) := by
  induction n generalizing start with
  | zero => trivial
  | succ n ih => exact ⟨by omega, by omega, ih (start + 1000)⟩

/-- After 30 reads that timed out the connection is closed, and it still is after the next ones. -/
theorem drops_dead_peers_silent : Paced 0 (seconds 0 40) ∧
    (runRecvLoop (RecvLoop.start (W := shortMessages) () 0) (seconds 0 40)).closed = true ∧
    DropsDeadPeers (W := shortMessages) () 0 (seconds 0 40) := by
  have quiet := seconds_timeouts 0 40
  have drops := (drops_dead_peers_iff (W := shortMessages) () 0 _
    (reads_of_timeouts (W := shortMessages) () 0 quiet)).2
    (silentWhenOverdue_of_timeouts (W := shortMessages) () 0 quiet)
  exact ⟨seconds_paced 0 40, by decide, drops⟩

end Blueboat.Inactivity
