import Blueboat.Notices

set_option autoImplicit false

/-! What the server sends: `send_frame_to_client` and its callers in `server.cpp` and `room.cpp`. -/
namespace Blueboat

open Protocol LockMachine

def envelope (key : Str) (data : Json) : Json :=
  Json.ofFields [(lit "key", .str key), (lit "data", data)]

/-- An event of the server and its data. -/
inductive Reply : Str → Json → Prop where
  | created (requestId roomId : Str) : Reply (requestId ++ lit "-create") (.str roomId)
  | failed (id what : Str) : Reply (id ++ lit "-error") (errorMessage what)
  | message (roomId key : Str) (data : Json) : Reply (roomEvent roomId) (envelope key data)

def Event.Proper : Event → Prop
  | .frame _ event data => Reply event data
  | .pong _ => True
  | .hook .. => True

def World.Proper (w : World) : Prop := ∀ e ∈ w.log, e.Proper

section
variable {w : World}

theorem World.Proper.same {w' : World} (h : w.Proper) (log : w'.log = w.log) : w'.Proper := by
  intro e mem
  rw [log] at mem
  exact h e mem

theorem World.Proper.snoc {w' : World} {e : Event} (h : w.Proper) (log : w'.log = w.log ++ [e])
    (last : e.Proper) : w'.Proper := by
  intro e' mem
  rw [log] at mem
  rcases List.mem_append.1 mem with mem | mem
  · exact h e' mem
  · rw [List.mem_singleton.1 mem]
    exact last

theorem World.Proper.sendFrameToClient (h : w.Proper) (sessionId : Str) {event : Str} {data : Json}
    (reply : Reply event data) : (w.sendFrameToClient sessionId event data).Proper := by
  unfold World.sendFrameToClient
  split
  · exact h
  · exact h.snoc rfl reply

theorem World.Proper.sendTo (h : w.Proper) (r : RoomRef) (sessionId key : Str) (data : Json) :
    (w.sendTo r sessionId key data).Proper :=
  h.sendFrameToClient sessionId (.message ..)

theorem World.Proper.removeClient (h : w.Proper) (r : RoomRef) (sessionId : Str)
    (intentional : Bool) : (removeClient w r sessionId intentional).1.Proper := by
  unfold Blueboat.removeClient
  dsimp only
  split
  · exact h.same (touch_mute w r).log
  · refine World.Proper.sendTo ?_ r _ _ _
    exact h.same (touch_mute w r).log

theorem World.Proper.replyCreated (h : w.Proper) (r : RoomRef) (creator : Creator) :
    (replyCreated w r creator).Proper := by
  cases creator with
  | api => exact h
  | frame client requestId => exact h.sendFrameToClient _ (.created ..)

end

/-! One command. -/

section
variable {M : MsgpackC} {J : JsonText} {w : World} {cmd : Cmd} {a : Answer} {o : Out}

theorem proper_inHook (before : w.Proper) {r : RoomRef} {hook : Hook}
    (h : exec M J w (.inHook r hook) a = some o) : o.world.Proper := by
  change inHook J w r hook a = some o at h
  cases a with
  | removeFromRoom sessionId =>
    obtain rfl := Option.some.inj h
    exact before.removeClient r sessionId true
  | send sessionId key data =>
    obtain rfl := Option.some.inj h
    exact World.Proper.sendTo (before.same (touch_mute w r).log) r _ _ _
  | _ => exact before.same (inHook_mute h (by rintro _ ⟨⟩) (by rintro _ _ _ ⟨⟩)).log

theorem proper_deliver (before : w.Proper) {payload : Json} {handlers : List Handler}
    (h : exec M J w (.deliver payload handlers) a = some o) : o.world.Proper := by
  cases handlers with
  | nil => obtain rfl := Option.some.inj h; exact before
  | cons handler handlers =>
    obtain rfl := Option.some.inj h
    cases handler with
    | infoRequest | gameMessage => exact before.same (handle_mute _ _ _ _ (by rintro _ ⟨⟩)).log
    | playerLeft r =>
      unfold handle
      cases payload.getString with
      | error x => exact before
      | ok sessionId => exact before.removeClient r sessionId false

theorem exec_proper (before : w.Proper) (h : exec M J w cmd a = some o) : o.world.Proper := by
  cases cmd with
  | inHook r hook => exact proper_inHook before h
  | deliver payload handlers => exact proper_deliver before h
  | disposeLoop r left =>
    cases left with
    | nil => obtain rfl := Option.some.inj h; exact before.same (touch_mute w r).log
    | cons sessionId left =>
      obtain rfl := Option.some.inj h
      exact before.removeClient r sessionId true
  | addClient r client options =>
    obtain rfl := Option.some.inj h
    refine World.Proper.sendTo ?_ r _ _ _
    exact before.same (touch_mute w r).log
  | callHook r hook =>
    obtain rfl := Option.some.inj h
    exact World.Proper.snoc (e := .hook r hook) (before.same (touch_mute w r).log) rfl trivial
  | dispatch client isBinary payload =>
    obtain rfl := Option.some.inj h
    unfold dispatch
    split
    · exact before
    · split
      · split
        · exact before
        · exact before.snoc (e := .pong client.sessionId) rfl trivial
      · exact before
      · exact before
      · exact before
  | created r client creator =>
    obtain rfl := Option.some.inj h
    unfold created
    dsimp only
    split
    · exact before.same rfl
    · refine World.Proper.replyCreated ?_ r creator
      exact before.same rfl
  | _ => exact before.same (exec_log h rfl)

theorem unwind_proper (before : w.Proper) {x : Exn} (h : unwind w cmd x a = some o) :
    o.world.Proper := by
  cases cmd with
  | catchCreate | catchJoinRoom =>
    cases x
    · obtain rfl := Option.some.inj h
      exact before.sendFrameToClient _ (.failed ..)
    · obtain rfl := Option.some.inj h
      exact before
  | catchJoin r client =>
    cases x
    · obtain rfl := Option.some.inj h
      exact World.Proper.sendFrameToClient (before.same (touch_mute w r).log) _ (.failed ..)
    · obtain rfl := Option.some.inj h
      exact before
  | created r =>
    obtain rfl := Option.some.inj h
    exact before.same (dispose_mute w r .rollback).log
  | inHook | boundary =>
    simp only [unwind] at h
    split at h <;> cases h <;> exact before
  | _ => obtain rfl := Option.some.inj h; exact before

end

theorem proper_step {M : MsgpackC} {J : JsonText} {c c' : ServerConfig} {l : Label Answer EnvEvent}
    (before : c.world.Proper) (h : Step (server M J) c l c') : c'.world.Proper := by
  cases h with
  | finish => exact before
  | crash => exact before
  | exec _ top run =>
    rw [world_settle]
    exact exec_proper before run
  | unwind _ top run =>
    rw [world_settle]
    exact unwind_proper before run
  | take => exact before
  | env _ run =>
    refine before.same ?_
    cases spawn_arrival run <;> rfl

/-- In every run the frames that are sent are answers to a creation, errors and messages of a room. -/
theorem proper_run {M : MsgpackC} {J : JsonText} {ok : ServerConfig → Label Answer EnvEvent → Prop}
    {ls : List (Label Answer EnvEvent)} {c : ServerConfig}
    (run : Run (server M J) ok ServerConfig.initial ls c) : c.world.Proper := by
  induction run with
  | nil => exact fun e mem => absurd mem List.not_mem_nil
  | snoc _ _ last ih => exact proper_step ih last

theorem ne_of_getLast {s t : Str} (h : s.getLast? ≠ t.getLast?) : s ≠ t := fun same =>
  h (congrArg List.getLast? same)

/-- None of them is taken for the frame that sets the id of a client. -/
theorem Reply.event_ne {event : Str} {data : Json} (h : Reply event data) : event ≠ clientIdSet := by
  cases h with
  | created requestId roomId =>
    apply ne_of_getLast
    rw [List.getLast?_append_of_ne_nil _ (by decide)]
    decide
  | failed id what =>
    apply ne_of_getLast
    rw [List.getLast?_append_of_ne_nil _ (by decide)]
    decide
  | message roomId key data =>
    intro same
    have first := congrArg List.head? same
    rw [roomEvent, List.head?_append_of_ne_nil _ (by decide)] at first
    exact absurd first (by decide)

end Blueboat
