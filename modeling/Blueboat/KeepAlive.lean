import Blueboat.SioProtocol

set_option autoImplicit false

/-! The client's receive loop with its ping, and the server's inactivity check. Times are
milliseconds of the steady clock. -/
namespace Blueboat.KeepAlive

open Sio

def pingIntervalMs : Int32 := 25000
def pingTimeoutMs : Int32 := 5000

/-- The WebSocket library: received bytes give complete messages, and whether the loop must end. -/
structure Wslay where
  State : Type
  recv : State → Str → State × List (Bool × Str) × Bool

inductive Read where
  | chunk (bytes : Str)
  | timeout

structure ClientLoop (W : Wslay) where
  wslay : W.State
  sessionId : Str
  pingIntervalMs : Int32
  lastPing : ℤ
  pings : List ℤ
  stopped : Bool

section
variable {W : Wslay} (M : MsgpackC) (J : JsonText)

def ClientLoop.start (wslay : W.State) (now : ℤ) : ClientLoop W where
  wslay := wslay
  sessionId := []
  pingIntervalMs := 25000
  lastPing := now
  pings := []
  stopped := false

/-- The loop that began at `now`, from where an `Open` frame has announced `interval`; with 25000 it is
the loop from its start. -/
def ClientLoop.opened (wslay : W.State) (interval : Int32) (now : ℤ) : ClientLoop W :=
  { ClientLoop.start wslay now with pingIntervalMs := interval }

/-- What `Client::handle_ws_payload` does to the loop; an exception leaves it. -/
def handleWsPayload (s : ClientLoop W) (message : Bool × Str) : ClientLoop W :=
  if s.stopped then s
  else
    match parseFrame M J message.1 message.2 with
    | .error _ => { s with stopped := true }
    | .ok frame =>
      if frame.kind = .Open then
        { s with sessionId := frame.sid, pingIntervalMs := frame.pingIntervalMs }
      else s

def onIdle (s : ClientLoop W) (now : ℤ) : ClientLoop W :=
  if now - s.lastPing ≥ s.pingIntervalMs.toInt then
    { s with lastPing := now, pings := s.pings ++ [now] }
  else s

def iterate (s : ClientLoop W) (now : ℤ) : Read → ClientLoop W
  | .timeout => onIdle s now
  | .chunk bytes =>
    let received := W.recv s.wslay bytes
    let dispatched := received.2.1.foldl (handleWsPayload M J) { s with wslay := received.1 }
    { dispatched with stopped := dispatched.stopped || received.2.2 }

def runRecvLoop : ClientLoop W → List (ℤ × Read) → ClientLoop W
  | s, [] => s
  | s, (now, read) :: reads =>
    if s.stopped then s else runRecvLoop (iterate M J s now read) reads

/-- The reads of a loop that has not ended before the last of them: a read comes at most a second
after the one before. -/
def Timely : ClientLoop W → ℤ → List (ℤ × Read) → Prop
  | _, _, [] => True
  | s, before, (now, read) :: reads =>
    s.stopped = false ∧ before ≤ now ∧ now ≤ before + 1000 ∧
      Timely (iterate M J s now read) now reads

end

/-! The same loop without the frames: which reads are pings. -/

def Fresh (interval : ℤ) : ℤ → List (ℤ × Read) → Prop
  | _, [] => True
  | last, (now, .chunk _) :: reads => now - last < interval + 1000 ∧ Fresh interval last reads
  | last, (now, .timeout) :: reads =>
    now - last < interval + 1000 ∧
      if interval ≤ now - last then Fresh interval now reads else Fresh interval last reads

section
variable {W : Wslay} {M : MsgpackC} {J : JsonText}

theorem Timely.sorted {s : ClientLoop W} {before : ℤ} {reads : List (ℤ × Read)}
    (h : Timely M J s before reads) : (before :: reads.map Prod.fst).Pairwise (· ≤ ·) := by
  induction reads generalizing s before with
  | nil => simp
  | cons read reads ih =>
    obtain ⟨now, read⟩ := read
    obtain ⟨-, hle, -, rest⟩ := h
    have tail := ih rest
    rw [List.map_cons, List.pairwise_cons]
    refine ⟨fun t ht => ?_, tail⟩
    rcases List.mem_cons.1 ht with rfl | ht
    · exact hle
    · exact hle.trans ((List.pairwise_cons.1 tail).1 t ht)

end

/-! The server's side of one connection. -/

/-- Each ping arrives; the delays, the first of them between the starts of the two loops, grow by
at most 4 s and are not below -4 s. -/
def Delivered : ℤ → ℤ → List ℤ → List ℤ → Prop
  | ping, arrival, [], arrivals => ping ≤ arrival + 4000 ∧ arrivals = []
  | _, _, _ :: _, [] => False
  | ping, arrival, p :: pings, a :: arrivals =>
    a - p ≤ arrival - ping + 4000 ∧ Delivered p a pings arrivals

/-- No gap of `limit` between pings, nor between the last one and `last`. -/
def Gaps (limit last : ℤ) : ℤ → List ℤ → Prop
  | ping, [] => last < ping + limit
  | ping, p :: pings => p < ping + limit ∧ Gaps limit last p pings

theorem Gaps.mono {limit limit' last ping : ℤ} {pings : List ℤ} (le : limit ≤ limit')
    (h : Gaps limit last ping pings) : Gaps limit' last ping pings := by
  induction pings generalizing ping with
  | nil => exact h.trans_le (by omega)
  | cons p pings ih => exact ⟨h.1.trans_le (by omega), ih h.2⟩

def shortMessages : Wslay where
  State := Unit
  recv _ bytes :=
    match bytes with
    | 0x82 :: len :: payload =>
      ((), if payload.length = len.toNat then [(true, payload)] else [], false)
    | 0x81 :: len :: payload =>
      ((), if payload.length = len.toNat then [(false, payload)] else [], false)
    | _ => ((), [], false)

abbrev loop := ClientLoop.start (W := shortMessages) () 0

/-- A read that times out every second, from `start` on. -/
def seconds (start : ℤ) : ℕ → List (ℤ × Read)
  | 0 => []
  | n + 1 => (start + 1000, .timeout) :: seconds (start + 1000) n

section
variable {M : MsgpackC} {J : JsonText}

end

theorem seconds_timeouts (start : ℤ) (n : ℕ) : ∀ read ∈ seconds start n, read.2 = .timeout := by
  induction n generalizing start with
  | zero => exact fun _ mem => absurd mem List.not_mem_nil
  | succ n ih => exact List.forall_mem_cons.2 ⟨rfl, ih (start + 1000)⟩

end Blueboat.KeepAlive
