import Blueboat.Agreement
import Blueboat.Confinement
import Blueboat.SioGrammar

set_option autoImplicit false

/-! What a frame of a client can make `handle_ws_payload` throw: which reads no `try` surrounds, and that
every other exception is caught on the way. -/
namespace Blueboat

open Protocol LockMachine Ledger

/-! Computations that throw nothing but a `std::exception`. -/

def Exn.isStd : Exn → Bool
  | .std _ => true
  | .other => false

def Standard {α : Type} (m : Except Exn α) : Prop := ∀ x, m = .error x → x.isStd = true

section
variable {α β : Type}

theorem Standard.ok (a : α) : Standard (.ok a) := nofun

theorem Standard.error (what : Str) : Standard (.error (.std what) : Except Exn α) := by
  rintro _ ⟨⟩
  rfl

theorem Standard.bind {m : Except Exn α} {f : α → Except Exn β} (first : Standard m)
    (next : ∀ a, Standard (f a)) : Standard (m >>= f) := by
  intro x throws
  cases m with
  | error => cases throws; exact first _ rfl
  | ok a => exact next a x throws

theorem Standard.map {m : Except Exn α} (h : Standard m) (f : α → β) : Standard (m.map f) := by
  intro x throws
  cases m with
  | error => cases throws; exact h _ rfl
  | ok a => cases throws

end

inductive Posted : Json → Prop where
  | left (sessionId : Str) : Posted (.str sessionId)
  | join (client : SimpleClient) (options : Json) : Posted (joinPayload client options)
  | message (client : SimpleClient) (key data : Json) : Posted (messagePayload client key data)

def isJoin (payload : Json) : Bool :=
  match roomMessage payload with
  | .ok (.join ..) => true
  | _ => false

def Cmd.risky : Cmd → Bool
  | .createNewRoom .. => true
  | .created .. => true
  | .rethrow _ => true
  | .joinRoom .. => true
  | .publish _ payload => isJoin payload
  | .deliver payload _ => isJoin payload
  | _ => false

def Cmd.catches : Cmd → Bool
  | .inHook .. => true
  | .catchCreate .. => true
  | .catchJoinRoom .. => true
  | .catchJoin .. => true
  | _ => false

def Cmd.Fit : Cmd → Prop
  | .rethrow x => x.isStd = true
  | .publish _ payload => Posted payload
  | .deliver payload handlers => Posted payload ∧ ∀ client key data,
      payload = messagePayload client key data → ∀ handler ∈ handlers, handler.isPlayerLeft = false
  | .subscribeInfo _ => False
  | _ => True

section
variable {M : MsgpackC} {J : JsonText} {w : World}

end

def Guarded : List Cmd → Prop
  | [] => True
  | cmd :: rest => (cmd.risky = true → ∃ d ∈ rest, d.catches = true) ∧ Guarded rest

theorem Guarded.append {push rest : List Cmd} (pushed : Guarded push) (below : Guarded rest) :
    Guarded (push ++ rest) := by
  induction push with
  | nil => exact below
  | cons cmd push ih =>
    refine ⟨fun risky => ?_, ih pushed.2⟩
    obtain ⟨d, mem, catches⟩ := pushed.1 risky
    exact ⟨d, List.mem_append_left _ mem, catches⟩

theorem Guarded.over {push rest : List Cmd} (below : Guarded rest)
    (covered : ∀ c ∈ push, c.risky = true → ∃ d ∈ rest, d.catches = true) : Guarded (push ++ rest) := by
  induction push with
  | nil => exact below
  | cons cmd push ih =>
    refine ⟨fun risky => ?_, ih fun c mem => covered c (List.mem_cons_of_mem _ mem)⟩
    obtain ⟨d, mem, catches⟩ := covered cmd List.mem_cons_self risky
    exact ⟨d, List.mem_append_right _ mem, catches⟩

theorem Guarded.pair {cmd d : Cmd} (catches : d.catches = true) (calm : d.risky = false) :
    Guarded [cmd, d] :=
  ⟨fun _ => ⟨d, List.mem_cons_self, catches⟩,
    fun risky => absurd (calm.symm.trans risky) Bool.false_ne_true, trivial⟩

section
variable {M : MsgpackC} {J : JsonText} {w : World}

structure Fits (cmd : Cmd) (o : Out) : Prop where
  fit : ∀ c ∈ o.push, c.Fit
  guarded : Guarded o.push ∨ ∀ c ∈ o.push, c.risky = true → cmd.risky = true
  raises : ∀ x, o.exn = some x → (cmd.risky = true ∧ x.isStd = true) ∨
    ∃ r hook, cmd = .inHook r hook ∧ o.push = [.inHook r hook]

theorem Fits.raise {cmd : Cmd} {x : Exn} (risky : cmd.risky = true) (std : x.isStd = true) :
    Fits cmd (.raise w x []) := by
  refine ⟨List.forall_mem_nil _, .inl trivial, fun x' raised => .inl ⟨risky, ?_⟩⟩
  obtain rfl := Option.some.inj raised
  exact std

def Cmd.tame : Cmd → Bool
  | .createNewRoom .. => false
  | .handleClientMessage .. => false
  | .joinRoom .. => false
  | .publish .. => false
  | .deliver .. => false
  | .subscribeInfo _ => false
  | _ => true

theorem Pushed.fit {cmd c : Cmd} {a : Answer} (h : Pushed w cmd a c) (tame : cmd.tame = true) :
    c.Fit ∧ c.risky = false := by
  cases h with
  | child child =>
    cases child with
    | left => exact ⟨.left _, rfl⟩
    | _ => first | exact ⟨trivial, rfl⟩ | cases tame
  | leave _ mem =>
    simp only [leaveOf, List.mem_cons, List.not_mem_nil, or_false] at mem
    rcases mem with rfl | rfl | rfl <;> exact ⟨trivial, rfl⟩
  | created | askInfo => cases tame
  | _ => exact ⟨trivial, rfl⟩

theorem Fits.tame {cmd : Cmd} {a : Answer} {o : Out} (h : Effect J w cmd a o) (tame : cmd.tame = true)
    (raises : ∀ x, o.exn = some x → (cmd.risky = true ∧ x.isStd = true) ∨
      ∃ r hook, cmd = .inHook r hook ∧ o.push = [.inHook r hook]) : Fits cmd o :=
  ⟨fun _ mem => ((h.pushed mem).fit tame).1,
    .inr fun _ mem risky => absurd (((h.pushed mem).fit tame).2.symm.trans risky) Bool.false_ne_true,
    raises⟩

end

section
variable {M : MsgpackC} {J : JsonText} {c c' : ServerConfig} {l : Label Answer EnvEvent}

/-- The commands that run to their end whatever they find. -/
def Cmd.returns : Cmd → Bool
  | .dispatch .. => false
  | .handleClientMessage .. => false
  | .createNewRoom .. => false
  | .created .. => false
  | .rethrow _ => false
  | .joinRoom .. => false
  | .publish .. => false
  | .deliver .. => false
  | .inHook .. => false
  | _ => true

end

/-- An exception that is under way on the stack will be caught: it is a `std::exception` and something
catches these, or it has reached a hook. -/
structure Contained (stack : List Cmd) (e : Option Exn) : Prop where
  fit : ∀ cmd ∈ stack, cmd.Fit
  guarded : Guarded stack
  caught : ∀ x, e = some x → (∃ d ∈ stack, d.catches = true) ∧
    (x.isStd = true ∨ ∃ r hook below, stack = .inHook r hook :: below)

section
variable {cmd : Cmd} {rest : List Cmd} {x : Exn} {e : Option Exn} {o : Out}

theorem Contained.resume (h : Contained (cmd :: rest) e) : Contained rest none :=
  ⟨fun d mem => h.fit d (List.mem_cons_of_mem _ mem), h.guarded.2, nofun⟩

theorem Contained.exec (h : Contained (cmd :: rest) none) (fits : Fits cmd o) :
    Contained (o.push ++ rest) o.exn := by
  obtain ⟨fit, guarded, -⟩ := h
  refine ⟨fun d mem => ?_, ?_, fun x raised => ?_⟩
  · rcases List.mem_append.1 mem with pushed | below
    · exact fits.fit d pushed
    · exact fit d (List.mem_cons_of_mem _ below)
  · rcases fits.guarded with own | same
    · exact own.append guarded.2
    · exact guarded.2.over fun d mem risky => guarded.1 (same d mem risky)
  · rcases fits.raises x raised with ⟨risky, std⟩ | ⟨r, hook, -, push⟩
    · obtain ⟨d, mem, catches⟩ := guarded.1 risky
      exact ⟨⟨d, List.mem_append_right _ mem, catches⟩, .inl std⟩
    · rw [push]
      exact ⟨⟨_, List.mem_cons_self, rfl⟩, .inr ⟨r, hook, rest, rfl⟩⟩

/-- Elsewhere than at a hook only a `std::exception` is under way. -/
theorem Contained.standard (h : Contained (cmd :: rest) (some x)) (off : ∀ r hook, cmd ≠ .inHook r hook) :
    x.isStd = true := by
  refine (h.caught x rfl).2.resolve_right fun ⟨r, hook, below, same⟩ => ?_
  cases same
  exact off r hook rfl

theorem Contained.pass (h : Contained (cmd :: rest) (some x)) (open' : cmd.catches = false) :
    Contained rest (some x) := by
  have std := h.standard fun r hook same => by subst same; cases open'
  refine ⟨h.resume.fit, h.resume.guarded, ?_⟩
  rintro _ ⟨⟩
  obtain ⟨d, mem, catches⟩ := (h.caught x rfl).1
  refine ⟨⟨d, (List.mem_cons.1 mem).resolve_left ?_, catches⟩, .inl std⟩
  rintro rfl
  cases open'.symm.trans catches

theorem Contained.unwind {w : World} {a : Answer} (h : Contained (cmd :: rest) (some x))
    (stays : ∀ r hook, cmd = .inHook r hook → a ≠ .propagate) (run : unwind w cmd x a = some o) :
    Contained (o.push ++ rest) o.exn := by
  have caught : ∀ {w' : World}, some (Outcome.go w' []) = some o → Contained (o.push ++ rest) o.exn := by
    intro w' same
    obtain rfl := Option.some.inj same
    exact h.resume
  cases cmd with
  | inHook r hook =>
    cases a with
    | handle =>
      obtain rfl := Option.some.inj run
      exact ⟨h.fit, h.guarded, nofun⟩
    | propagate => exact absurd rfl (stays r hook rfl)
    | _ => cases run
  | created r client creator =>
    have std := h.standard nofun
    obtain rfl := Option.some.inj run
    obtain ⟨-, starts⟩ := dispose_cases w r .rollback
    have pushed : ∀ d ∈ (dispose w r .rollback).2 ++ [.rethrow x], d.Fit := by
      intro d mem
      rcases List.mem_append.1 mem with mem | mem
      · rw [mem_disposal starts mem]
        trivial
      · rw [List.mem_singleton.1 mem]
        exact std
    refine ⟨fun d mem => ?_, h.guarded.2.over fun _ _ _ => h.guarded.1 rfl, nofun⟩
    exact (List.mem_append.1 mem).elim (pushed d) (h.resume.fit d)
  | catchCreate | catchJoinRoom | catchJoin =>
    have std := h.standard nofun
    cases x with
    | std what => exact caught run
    | other => cases std
  | boundary onlyStd =>
    simp only [Blueboat.unwind] at run
    split at run
    · obtain rfl := Option.some.inj run
      exact h.pass rfl
    · exact caught run
  | _ =>
    obtain rfl := Option.some.inj run
    exact h.pass rfl

end

def Watched (_ : World) (t : Thread Tid Cmd Exn) : Prop :=
  ∀ sessionId, t.tid = .conn sessionId → Contained t.stack t.exn

theorem Arrival.watched {w w' : World} {e : EnvEvent} {new : List (Tid × List Cmd)}
    (h : Arrival w e w' new) : ∀ p ∈ new, Watched w' (Thread.start p) := by
  have plain : ∀ {stack : List Cmd}, (∀ cmd ∈ stack, cmd.Fit) →
      (∀ cmd ∈ stack, cmd.risky = false) → Contained stack none := by
    intro stack fit calm
    refine ⟨fit, ?_, nofun⟩
    have guarded : Guarded (stack ++ []) :=
      Guarded.over trivial fun d mem risky => absurd ((calm d mem).symm.trans risky) Bool.false_ne_true
    rwa [List.append_nil] at guarded
  intro p mem sessionId here
  cases h with
  | tick | dropped => cases mem
  | connect | receive | hangup =>
    obtain rfl := List.mem_singleton.1 mem
    refine plain (fun cmd mem => ?_) fun cmd mem => ?_
    · simp only [Thread.start, List.mem_cons, List.not_mem_nil, or_false] at mem
      rcases mem with rfl | rfl | rfl <;> trivial
    · simp only [Thread.start, List.mem_cons, List.not_mem_nil, or_false] at mem
      rcases mem with rfl | rfl | rfl <;> rfl
  | _ =>
    obtain rfl := List.mem_singleton.1 mem
    cases here

section
variable {M : MsgpackC} {J : JsonText} {c : ServerConfig} {ls : List (Label Answer EnvEvent)}

end

end Blueboat
