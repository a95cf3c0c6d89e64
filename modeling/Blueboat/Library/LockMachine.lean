import Mathlib.Data.List.Perm.Basic
import Mathlib.Order.Basic

set_option autoImplicit false

/-! Threads under one lock. A thread is a stack of commands; the holder of the lock runs its
top command, which may push commands, raise an exception or release the lock and wait. An
exception discards commands until one of them catches it. The choices that the program does
not make (the answers of called-back code, the order in which waiting threads get the lock,
new threads, the clock) are labels. -/
namespace LockMachine

inductive Outcome (W C X : Type) where
  | go (world : W) (push : List C)
  | raise (world : W) (x : X) (push : List C)
  | park (world : W) (push : List C)

namespace Outcome
variable {W C X : Type}

def world : Outcome W C X → W
  | .go w _ => w
  | .raise w _ _ => w
  | .park w _ => w

def push : Outcome W C X → List C
  | .go _ push => push
  | .raise _ _ push => push
  | .park _ push => push

def exn : Outcome W C X → Option X
  | .raise _ x _ => some x
  | _ => none

def parks : Outcome W C X → Bool
  | .park .. => true
  | _ => false

variable (w : W) (x : X) (p : List C)

@[simp] theorem world_go : (go w p : Outcome W C X).world = w := rfl
@[simp] theorem world_raise : (raise w x p).world = w := rfl
@[simp] theorem world_park : (park w p : Outcome W C X).world = w := rfl
@[simp] theorem push_go : (go w p : Outcome W C X).push = p := rfl
@[simp] theorem push_raise : (raise w x p).push = p := rfl
@[simp] theorem push_park : (park w p : Outcome W C X).push = p := rfl
@[simp] theorem exn_go : (go w p : Outcome W C X).exn = none := rfl
@[simp] theorem exn_raise : (raise w x p).exn = some x := rfl
@[simp] theorem exn_park : (park w p : Outcome W C X).exn = none := rfl
@[simp] theorem parks_go : (go w p : Outcome W C X).parks = false := rfl
@[simp] theorem parks_raise : (raise w x p).parks = false := rfl
@[simp] theorem parks_park : (park w p : Outcome W C X).parks = true := rfl

end Outcome

structure Thread (T C X : Type) where
  tid : T
  stack : List C
  exn : Option X

structure Config (W C X T : Type) where
  world : W
  running : Option (Thread T C X)
  parked : List (Thread T C X)
  crashed : Option T

/-- `unwind` is what a command does when an exception reaches it. -/
structure Language (W C X T A E : Type) where
  exec : W → C → A → Option (Outcome W C X)
  unwind : W → C → X → A → Option (Outcome W C X)
  ready : W → C → Bool
  spawn : W → E → Option (W × List (T × List C))

inductive Label (A E : Type) where
  | act (answer : A)
  | take (index : ℕ)
  | env (event : E)

section
variable {W C X T A E : Type}

def Thread.start (p : T × List C) : Thread T C X := ⟨p.1, p.2, none⟩

/-- The configuration after the holder `tid` ran a command that had `rest` below it. -/
def settle (c : Config W C X T) (tid : T) (rest : List C) : Outcome W C X → Config W C X T
  | .go w push => { c with world := w, running := some ⟨tid, push ++ rest, none⟩ }
  | .raise w x push => { c with world := w, running := some ⟨tid, push ++ rest, some x⟩ }
  | .park w push =>
    { c with world := w, running := none, parked := c.parked ++ [⟨tid, push ++ rest, none⟩] }

def Config.threads (c : Config W C X T) : List (Thread T C X) := c.running.toList ++ c.parked

theorem running_mem_threads {c : Config W C X T} {t : Thread T C X} (top : c.running = some t) :
    t ∈ c.threads :=
  List.mem_append_left _ (by rw [top]; exact List.mem_cons_self)

theorem world_settle (c : Config W C X T) (tid : T) (rest : List C) (o : Outcome W C X) :
    (settle c tid rest o).world = o.world := by
  cases o <;> rfl

theorem crashed_settle (c : Config W C X T) (tid : T) (rest : List C) (o : Outcome W C X) :
    (settle c tid rest o).crashed = c.crashed := by
  cases o <;> rfl

theorem running_settle {c : Config W C X T} {tid : T} {rest : List C} {o : Outcome W C X}
    {t : Thread T C X} (h : (settle c tid rest o).running = some t) :
    t = ⟨tid, o.push ++ rest, o.exn⟩ := by
  cases o with
  | go | raise => exact (Option.some.inj h).symm
  | park => cases h

theorem settle_goes {c : Config W C X T} {tid : T} {rest : List C} {o : Outcome W C X}
    (goes : o.parks = false) :
    (settle c tid rest o).running = some ⟨tid, o.push ++ rest, o.exn⟩ := by
  cases o with
  | go | raise => rfl
  | park => cases goes

theorem parked_settle {c : Config W C X T} {tid : T} {rest : List C} {o : Outcome W C X}
    {t : Thread T C X} (h : t ∈ (settle c tid rest o).parked) :
    t ∈ c.parked ∨ (o.parks = true ∧ t = ⟨tid, o.push ++ rest, none⟩) := by
  cases o with
  | go | raise => exact .inl h
  | park =>
    rcases List.mem_append.1 h with h | h
    · exact .inl h
    · exact .inr ⟨rfl, List.mem_singleton.1 h⟩

theorem threads_settle (c : Config W C X T) (tid : T) (rest : List C) (o : Outcome W C X) :
    (settle c tid rest o).threads.Perm (⟨tid, o.push ++ rest, o.exn⟩ :: c.parked) := by
  cases o with
  | go w push => exact .refl _
  | raise w x push => exact .refl _
  | park w push => exact List.perm_append_singleton _ _

theorem threads_take {c : Config W C X T} {i : ℕ} {t : Thread T C X} (free : c.running = none)
    (at_i : c.parked[i]? = some t) :
    ({ c with running := some t, parked := c.parked.eraseIdx i } : Config W C X T).threads.Perm
      c.threads := by
  obtain ⟨hi, rfl⟩ := List.getElem?_eq_some_iff.1 at_i
  rw [Config.threads, Config.threads, free]
  exact List.getElem_cons_eraseIdx_perm hi

/-- A thread that an event starts is there afterwards, and so is every thread that was. -/
theorem mem_started {c : Config W C X T} {w : W} {new : List (T × List C)} {t : Thread T C X}
    (mem : t ∈ c.threads ∨ t ∈ new.map Thread.start) :
    t ∈ Config.threads { c with world := w, parked := c.parked ++ new.map Thread.start } := by
  rcases mem with mem | mem
  · rcases List.mem_append.1 mem with mem | mem
    · exact List.mem_append_left _ mem
    · exact List.mem_append_right _ (List.mem_append_left _ mem)
  · exact List.mem_append_right _ (List.mem_append_right _ mem)

variable (L : Language W C X T A E)

def readyThread (w : W) (t : Thread T C X) : Bool :=
  match t.stack with
  | [] => true
  | cmd :: _ => L.ready w cmd

def stepHolder (c : Config W C X T) (t : Thread T C X) (a : A) : Option (Config W C X T) :=
  match t.stack, t.exn with
  | [], none => some { c with running := none }
  | [], some _ => some { c with crashed := some t.tid }
  | cmd :: rest, none => (L.exec c.world cmd a).map (settle c t.tid rest)
  | cmd :: rest, some x => (L.unwind c.world cmd x a).map (settle c t.tid rest)

def stepTake (c : Config W C X T) (i : ℕ) : Option (Config W C X T) :=
  match c.parked[i]? with
  | none => none
  | some t =>
    if readyThread L c.world t then
      some { c with running := some t, parked := c.parked.eraseIdx i }
    else none

def step (c : Config W C X T) (l : Label A E) : Option (Config W C X T) :=
  match c.crashed, l, c.running with
  | some _, _, _ => none
  | none, .act a, some t => stepHolder L c t a
  | none, .act _, none => none
  | none, .take _, some _ => none
  | none, .take i, none => stepTake L c i
  | none, .env e, _ =>
    (L.spawn c.world e).map fun p =>
      { c with world := p.1, parked := c.parked ++ p.2.map Thread.start }

inductive Step : Config W C X T → Label A E → Config W C X T → Prop where
  | finish {c : Config W C X T} {tid : T} {a : A} (alive : c.crashed = none)
      (top : c.running = some ⟨tid, [], none⟩) : Step c (.act a) { c with running := none }
  | crash {c : Config W C X T} {tid : T} {x : X} {a : A} (alive : c.crashed = none)
      (top : c.running = some ⟨tid, [], some x⟩) : Step c (.act a) { c with crashed := some tid }
  | exec {c : Config W C X T} {tid : T} {cmd : C} {rest : List C} {a : A} {o : Outcome W C X}
      (alive : c.crashed = none) (top : c.running = some ⟨tid, cmd :: rest, none⟩)
      (run : L.exec c.world cmd a = some o) : Step c (.act a) (settle c tid rest o)
  | unwind {c : Config W C X T} {tid : T} {cmd : C} {rest : List C} {x : X} {a : A}
      {o : Outcome W C X} (alive : c.crashed = none)
      (top : c.running = some ⟨tid, cmd :: rest, some x⟩)
      (run : L.unwind c.world cmd x a = some o) : Step c (.act a) (settle c tid rest o)
  | take {c : Config W C X T} {i : ℕ} {t : Thread T C X} (alive : c.crashed = none)
      (free : c.running = none) (at_i : c.parked[i]? = some t)
      (ready : readyThread L c.world t = true) :
      Step c (.take i) { c with running := some t, parked := c.parked.eraseIdx i }
  | env {c : Config W C X T} {e : E} {w : W} {new : List (T × List C)} (alive : c.crashed = none)
      (run : L.spawn c.world e = some (w, new)) :
      Step c (.env e) { c with world := w, parked := c.parked ++ new.map Thread.start }

theorem step_sound {c c' : Config W C X T} {l : Label A E} (h : step L c l = some c') :
    Step L c l c' := by
  obtain ⟨w, running, parked, crashed⟩ := c
  cases crashed with
  | some t => simp [step] at h
  | none =>
    cases l with
    | act a =>
      cases running with
      | none => simp [step] at h
      | some t =>
        obtain ⟨tid, stack, exn⟩ := t
        cases stack with
        | nil =>
          cases exn with
          | none => simp [step, stepHolder] at h; subst h; exact .finish rfl rfl
          | some x => simp [step, stepHolder] at h; subst h; exact .crash rfl rfl
        | cons cmd rest =>
          cases exn with
          | none =>
            simp only [step, stepHolder, Option.map_eq_some_iff] at h
            obtain ⟨o, ho, rfl⟩ := h
            exact .exec rfl rfl ho
          | some x =>
            simp only [step, stepHolder, Option.map_eq_some_iff] at h
            obtain ⟨o, ho, rfl⟩ := h
            exact .unwind rfl rfl ho
    | take i =>
      cases running with
      | some t => simp [step] at h
      | none =>
        simp only [step, stepTake] at h
        split at h
        · simp at h
        · rename_i t ht
          split at h
          · rename_i hr
            obtain rfl := Option.some.inj h
            exact .take rfl rfl ht hr
          · simp at h
    | env e =>
      simp only [step, Option.map_eq_some_iff] at h
      obtain ⟨⟨w', new⟩, hs, rfl⟩ := h
      exact .env rfl hs

/-- A run whose every step meets `ok`. -/
inductive Run (ok : Config W C X T → Label A E → Prop) (start : Config W C X T) :
    List (Label A E) → Config W C X T → Prop where
  | nil : Run ok start [] start
  | snoc {ls : List (Label A E)} {l : Label A E} {c c' : Config W C X T}
      (before : Run ok start ls c) (meets : ok c l) (last : Step L c l c') :
      Run ok start (ls ++ [l]) c'

theorem Run.invariant {ok : Config W C X T → Label A E → Prop} {Inv : Config W C X T → Prop}
    {start c : Config W C X T} {ls : List (Label A E)} (h : Run L ok start ls c)
    (init : Inv start) (keep : ∀ {c c' l}, Inv c → ok c l → Step L c l c' → Inv c') : Inv c := by
  induction h with
  | nil => exact init
  | snoc _ meets last ih => exact keep ih meets last

/-- An invariant of a configuration and of the labels that led to it. -/
theorem Run.history {ok : Config W C X T → Label A E → Prop}
    {Inv : List (Label A E) → Config W C X T → Prop} {start c : Config W C X T}
    {ls : List (Label A E)} (h : Run L ok start ls c) (init : Inv [] start)
    (keep : ∀ {ls c c' l}, Run L ok start ls c → Inv ls c → ok c l → Step L c l c' →
      Inv (ls ++ [l]) c') : Inv ls c := by
  induction h with
  | nil => exact init
  | snoc before meets last ih => exact keep before ih meets last

/-- A machine that has crashed did so with nothing left to run. -/
theorem Run.crashed {ok : Config W C X T → Label A E → Prop} {start c : Config W C X T}
    {ls : List (Label A E)} (h : Run L ok start ls c) (alive : start.crashed = none) :
    c.crashed = none ∨ ∃ tid x, c.running = some ⟨tid, [], some x⟩ := by
  induction h with
  | nil => exact .inl alive
  | snoc before _ last ih =>
    cases last with
    | crash _ top => exact .inr ⟨_, _, top⟩
    | exec alive' | unwind alive' => exact .inl ((crashed_settle ..).trans alive')
    | finish alive' | take alive' | env alive' => exact .inl alive'

theorem Run.weaken {ok ok' : Config W C X T → Label A E → Prop} {start c : Config W C X T}
    {ls : List (Label A E)} (h : Run L ok start ls c) (le : ∀ {c l}, ok c l → ok' c l) :
    Run L ok' start ls c := by
  induction h with
  | nil => exact .nil
  | snoc _ meets last ih => exact .snoc ih (le meets) last

theorem Run.append {ok : Config W C X T → Label A E → Prop} {c₁ c₂ c₃ : Config W C X T}
    {ls ls' : List (Label A E)} (h : Run L ok c₁ ls c₂) (h' : Run L ok c₂ ls' c₃) :
    Run L ok c₁ (ls ++ ls') c₃ := by
  induction h' with
  | nil => simpa using h
  | snoc _ meets last ih => simpa only [List.append_assoc] using Run.snoc ih meets last

def execute (ok : Config W C X T → Label A E → Bool) :
    Config W C X T → List (Label A E) → Option (Config W C X T)
  | c, [] => some c
  | c, l :: ls => if ok c l then (step L c l).bind fun c' => execute ok c' ls else none

theorem execute_run {ok : Config W C X T → Label A E → Bool}
    {ok' : Config W C X T → Label A E → Prop} (sound : ∀ {c l}, ok c l = true → ok' c l)
    {c c' : Config W C X T} {ls : List (Label A E)} (h : execute L ok c ls = some c') :
    Run L ok' c ls c' := by
  induction ls generalizing c with
  | nil => obtain rfl := Option.some.inj h; exact .nil
  | cons l ls ih =>
    simp only [execute] at h
    split at h
    · rename_i hok
      obtain ⟨d, hd, hrest⟩ := Option.bind_eq_some_iff.1 h
      have first : Run L ok' c [l] d := .snoc .nil (sound hok) (step_sound L hd)
      exact Run.append L first (ih hrest)
    · simp at h

/-- A run found by running it. -/
theorem exists_run {ok : Config W C X T → Label A E → Bool} {c : Config W C X T}
    {ls : List (Label A E)} {p : Config W C X T → Bool}
    (h : (execute L ok c ls).any p = true) :
    ∃ c', Run L (fun c l => ok c l = true) c ls c' ∧ p c' = true := by
  obtain ⟨c', found, holds⟩ := (Option.any_eq_true ..).1 h
  exact ⟨c', execute_run L (fun h => h) found, holds⟩

/-- An invariant found once may be assumed at every further step. -/
theorem Run.strengthen {ok : Config W C X T → Label A E → Prop} {Inv : Config W C X T → Prop}
    {start c : Config W C X T} {ls : List (Label A E)} (h : Run L ok start ls c)
    (init : Inv start) (keep : ∀ {c c' l}, Inv c → ok c l → Step L c l c' → Inv c') :
    Run L (fun c l => ok c l ∧ Inv c) start ls c := by
  induction h with
  | nil => exact .nil
  | snoc before meets last ih => exact .snoc ih ⟨meets, before.invariant L init keep⟩ last

/-! A world invariant `I` with what holds of the running thread (`R`, of `none` while the lock is
free) and of each parked one (`P`). -/

def Holds (I : W → Prop) (R : W → Option (Thread T C X) → Prop) (P : W → Thread T C X → Prop)
    (c : Config W C X T) : Prop :=
  I c.world ∧ R c.world c.running ∧ ∀ t ∈ c.parked, P c.world t

def Settled (I : W → Prop) (R : W → Option (Thread T C X) → Prop) (P : W → Thread T C X → Prop)
    (c : Config W C X T) (tid : T) (rest : List C) : Outcome W C X → Prop
  | .go w push => I w ∧ R w (some ⟨tid, push ++ rest, none⟩) ∧ ∀ t ∈ c.parked, P w t
  | .raise w x push => I w ∧ R w (some ⟨tid, push ++ rest, some x⟩) ∧ ∀ t ∈ c.parked, P w t
  | .park w push => I w ∧ R w none ∧ P w ⟨tid, push ++ rest, none⟩ ∧ ∀ t ∈ c.parked, P w t

theorem Settled.holds {I : W → Prop} {R : W → Option (Thread T C X) → Prop}
    {P : W → Thread T C X → Prop} {c : Config W C X T} {tid : T} {rest : List C}
    {o : Outcome W C X} (h : Settled I R P c tid rest o) : Holds I R P (settle c tid rest o) := by
  cases o with
  | go w push => exact h
  | raise w x push => exact h
  | park w push =>
    obtain ⟨hi, hr, ht, hp⟩ := h
    refine ⟨hi, hr, fun t h => ?_⟩
    rcases List.mem_append.1 h with h | h
    · exact hp t h
    · obtain rfl := List.mem_singleton.1 h; exact ht

theorem Settled.intro {I : W → Prop} {R : W → Option (Thread T C X) → Prop}
    {P : W → Thread T C X → Prop} {c : Config W C X T} {tid : T} {rest : List C}
    {o : Outcome W C X} (world : I o.world)
    (goes : o.parks = false → R o.world (some ⟨tid, o.push ++ rest, o.exn⟩))
    (parks : o.parks = true → R o.world none ∧ P o.world ⟨tid, o.push ++ rest, none⟩)
    (parked : ∀ t ∈ c.parked, P o.world t) : Settled I R P c tid rest o := by
  cases o with
  | go w push => exact ⟨world, goes rfl, parked⟩
  | raise w x push => exact ⟨world, goes rfl, parked⟩
  | park w push => exact ⟨world, (parks rfl).1, (parks rfl).2, parked⟩

structure Preserved (I : W → Prop) (R : W → Option (Thread T C X) → Prop)
    (P : W → Thread T C X → Prop) (ok : Config W C X T → Label A E → Prop) : Prop where
  exec : ∀ {c : Config W C X T} {tid : T} {cmd : C} {rest : List C} {a : A} {o : Outcome W C X},
    Holds I R P c → ok c (.act a) → c.running = some ⟨tid, cmd :: rest, none⟩ →
    L.exec c.world cmd a = some o → Settled I R P c tid rest o
  unwind : ∀ {c : Config W C X T} {tid : T} {cmd : C} {rest : List C} {x : X} {a : A}
    {o : Outcome W C X}, Holds I R P c → ok c (.act a) →
    c.running = some ⟨tid, cmd :: rest, some x⟩ →
    L.unwind c.world cmd x a = some o → Settled I R P c tid rest o
  finish : ∀ {c : Config W C X T} {tid : T}, Holds I R P c →
    c.running = some ⟨tid, [], none⟩ → R c.world none
  take : ∀ {c : Config W C X T} {t : Thread T C X}, Holds I R P c → c.running = none →
    t ∈ c.parked → readyThread L c.world t = true → R c.world (some t)
  env : ∀ {c : Config W C X T} {e : E} {w : W} {new : List (T × List C)}, Holds I R P c →
    ok c (.env e) → L.spawn c.world e = some (w, new) →
    I w ∧ R w c.running ∧ (∀ t ∈ c.parked, P w t) ∧ ∀ p ∈ new, P w (Thread.start p)

theorem Preserved.step {I : W → Prop} {R : W → Option (Thread T C X) → Prop}
    {P : W → Thread T C X → Prop} {ok : Config W C X T → Label A E → Prop}
    (pres : Preserved L I R P ok) {c c' : Config W C X T} {l : Label A E} (inv : Holds I R P c)
    (meets : ok c l) (h : Step L c l c') : Holds I R P c' := by
  cases h with
  | finish _ top =>
    have free := pres.finish inv top
    exact ⟨inv.1, free, inv.2.2⟩
  | crash _ top => exact inv
  | exec _ top run => exact (pres.exec inv meets top run).holds
  | unwind _ top run => exact (pres.unwind inv meets top run).holds
  | take _ free at_i ready =>
    have taken := pres.take inv free (List.mem_of_getElem? at_i) ready
    exact ⟨inv.1, taken, fun t ht => inv.2.2 t (List.mem_of_mem_eraseIdx ht)⟩
  | env _ run =>
    obtain ⟨hi, hr, hp, hnew⟩ := pres.env inv meets run
    refine ⟨hi, hr, fun t ht => ?_⟩
    rcases List.mem_append.1 ht with ht | ht
    · exact hp t ht
    · obtain ⟨p, hp, rfl⟩ := List.mem_map.1 ht
      exact hnew p hp

theorem Preserved.run {I : W → Prop} {R : W → Option (Thread T C X) → Prop}
    {P : W → Thread T C X → Prop} {ok : Config W C X T → Label A E → Prop}
    (pres : Preserved L I R P ok) {start c : Config W C X T} {ls : List (Label A E)}
    (h : Run L ok start ls c) (init : Holds I R P start) : Holds I R P c :=
  h.invariant L init (fun inv meets last => pres.step L inv meets last)

/-- The same of the running thread as of a parked one. -/
def Each (P : W → Thread T C X → Prop) (w : W) (running : Option (Thread T C X)) : Prop :=
  ∀ t, running = some t → P w t

theorem Preserved.each {I : W → Prop} {P : W → Thread T C X → Prop}
    {ok : Config W C X T → Label A E → Prop}
    (exec : ∀ {c : Config W C X T} {tid : T} {cmd : C} {rest : List C} {a : A} {o : Outcome W C X},
      Holds I (Each P) P c → ok c (.act a) → c.running = some ⟨tid, cmd :: rest, none⟩ →
      L.exec c.world cmd a = some o →
      I o.world ∧ P o.world ⟨tid, o.push ++ rest, o.exn⟩ ∧ ∀ t ∈ c.parked, P o.world t)
    (unwind : ∀ {c : Config W C X T} {tid : T} {cmd : C} {rest : List C} {x : X} {a : A}
      {o : Outcome W C X}, Holds I (Each P) P c → ok c (.act a) →
      c.running = some ⟨tid, cmd :: rest, some x⟩ → L.unwind c.world cmd x a = some o →
      I o.world ∧ P o.world ⟨tid, o.push ++ rest, o.exn⟩ ∧ ∀ t ∈ c.parked, P o.world t)
    (env : ∀ {c : Config W C X T} {e : E} {w : W} {new : List (T × List C)},
      Holds I (Each P) P c → ok c (.env e) → L.spawn c.world e = some (w, new) →
      I w ∧ Each P w c.running ∧ (∀ t ∈ c.parked, P w t) ∧ ∀ p ∈ new, P w (Thread.start p)) :
    Preserved L I (Each P) P ok := by
  have settled : ∀ {c : Config W C X T} {tid : T} {rest : List C} {o : Outcome W C X},
      (I o.world ∧ P o.world ⟨tid, o.push ++ rest, o.exn⟩ ∧ ∀ t ∈ c.parked, P o.world t) →
      Settled I (Each P) P c tid rest o := by
    rintro c tid rest o ⟨world, next, parked⟩
    refine .intro world (fun _ => ?_) (fun parks => ⟨nofun, ?_⟩) parked
    · rintro _ ⟨⟩
      exact next
    · have returns : o.exn = none := by
        cases o <;> first | rfl | cases parks
      exact returns ▸ next
  refine ⟨fun holds meets top run => settled (exec holds meets top run),
    fun holds meets top run => settled (unwind holds meets top run), fun _ _ => nofun, ?_, env⟩
  rintro c t ⟨-, -, parked⟩ free mem - _ ⟨⟩
  exact parked t mem

/-! Tokens. A command may carry one; a step passes on the token of its command or a new one, so no
token is ever held twice. -/

variable {K : Type} (token : C → Option K)

def Thread.tokens (t : Thread T C X) : List K := t.stack.filterMap token

def Config.tokens (c : Config W C X T) : List K :=
  (c.running.toList ++ c.parked).flatMap (Thread.tokens token)

/-- `live w k` holds of every token that may be held in the world `w`. -/
structure Spends (live : W → K → Prop) (w : W) (cmd : C) (o : Outcome W C X) : Prop where
  nodup : (o.push.filterMap token).Nodup
  source : ∀ k ∈ o.push.filterMap token, token cmd = some k ∨ ¬ live w k
  alive : ∀ k ∈ o.push.filterMap token, live o.world k
  kept : ∀ k, live w k → token cmd ≠ some k → live o.world k

structure Conserved (live : W → K → Prop) (I : W → Prop) : Prop where
  exec : ∀ {w : W} {cmd : C} {a : A} {o : Outcome W C X}, I w → L.exec w cmd a = some o →
    Spends token live w cmd o
  unwind : ∀ {w : W} {cmd : C} {x : X} {a : A} {o : Outcome W C X}, I w →
    L.unwind w cmd x a = some o → Spends token live w cmd o
  spawn : ∀ {w w' : W} {e : E} {new : List (T × List C)}, I w → L.spawn w e = some (w', new) →
    (new.flatMap fun p => p.2.filterMap token).Nodup ∧
      (∀ k ∈ new.flatMap fun p => p.2.filterMap token, ¬ live w k ∧ live w' k) ∧
      ∀ k, live w k → live w' k

def Distinct (live : W → K → Prop) (c : Config W C X T) : Prop :=
  (c.tokens token).Nodup ∧ ∀ k ∈ c.tokens token, live c.world k

theorem tokens_top {c : Config W C X T} {tid : T} {cmd : C} {rest : List C} {e : Option X}
    (top : c.running = some ⟨tid, cmd :: rest, e⟩) :
    c.tokens token = (token cmd).toList ++
      (rest.filterMap token ++ c.parked.flatMap (Thread.tokens token)) := by
  simp only [Config.tokens, top, Option.toList_some, List.singleton_append, List.flatMap_cons,
    Thread.tokens, List.filterMap_cons]
  cases token cmd <;> simp

theorem tokens_settle (c : Config W C X T) (tid : T) (rest : List C) (o : Outcome W C X) :
    ((settle c tid rest o).tokens token).Perm (o.push.filterMap token ++
      (rest.filterMap token ++ c.parked.flatMap (Thread.tokens token))) := by
  cases o with
  | go w push => simp [settle, Config.tokens, Thread.tokens]
  | raise w x push => simp [settle, Config.tokens, Thread.tokens]
  | park w push =>
    simp only [settle, Config.tokens, Thread.tokens, Option.toList_none, List.nil_append,
      List.flatMap_append, List.flatMap_cons, List.flatMap_nil, List.append_nil,
      List.filterMap_append, Outcome.push]
    refine List.perm_append_comm.trans ?_
    rw [List.append_assoc]

theorem Spends.distinct {live : W → K → Prop} {c : Config W C X T} {tid : T} {cmd : C}
    {rest : List C} {e : Option X} {o : Outcome W C X}
    (top : c.running = some ⟨tid, cmd :: rest, e⟩) (h : Spends token live c.world cmd o)
    (inv : Distinct token live c) : Distinct token live (settle c tid rest o) := by
  obtain ⟨hnodup, hlive⟩ := inv
  rw [tokens_top token top] at hnodup hlive
  have hperm := tokens_settle token c tid rest o
  have others := (List.nodup_append.1 hnodup).2
  have world := world_settle c tid rest o
  have spent : ∀ k ∈ rest.filterMap token ++ c.parked.flatMap (Thread.tokens token),
      token cmd ≠ some k := by
    intro k hk hcmd
    exact others.2 k (by rw [hcmd]; exact List.mem_singleton_self k) k hk rfl
  refine ⟨hperm.nodup_iff.2 (List.nodup_append.2 ⟨h.nodup, others.1, ?_⟩), fun k hk => ?_⟩
  · rintro k hpush _ hother rfl
    rcases h.source k hpush with hcmd | hdead
    · exact spent k hother hcmd
    · exact hdead (hlive k (List.mem_append_right _ hother))
  · rw [world]
    rcases List.mem_append.1 (hperm.mem_iff.1 hk) with hpush | hother
    · exact h.alive k hpush
    · exact h.kept k (hlive k (List.mem_append_right _ hother)) (spent k hother)

/-- A token stays where it is unless the command that holds it is run. -/
theorem Step.keeps_token {c c' : Config W C X T} {l : Label A E} (h : Step L c l c') {k : K}
    (held : k ∈ c.tokens token) (other : ∀ tid cmd rest x,
      c.running = some ⟨tid, cmd :: rest, x⟩ → token cmd ≠ some k) : k ∈ c'.tokens token := by
  have settled : ∀ {tid : T} {cmd : C} {rest : List C} {x : Option X} {o : Outcome W C X},
      c.running = some ⟨tid, cmd :: rest, x⟩ → k ∈ (settle c tid rest o).tokens token := by
    intro tid cmd rest x o top
    rw [tokens_top token top] at held
    refine (tokens_settle token c tid rest o).mem_iff.2 (List.mem_append_right _ ?_)
    refine (List.mem_append.1 held).resolve_left fun mem => other _ _ _ _ top ?_
    exact Option.mem_toList.1 mem
  cases h with
  | finish _ top => simpa [Config.tokens, Thread.tokens, top] using held
  | crash _ top => exact held
  | exec _ top run => exact settled top
  | unwind _ top run => exact settled top
  | take _ free at_i _ =>
    exact ((threads_take free at_i).flatMap_right (Thread.tokens token)).mem_iff.2 held
  | env _ run =>
    obtain ⟨t, mem, holds⟩ := List.mem_flatMap.1 held
    refine List.mem_flatMap.2 ⟨t, ?_, holds⟩
    exact (List.mem_append.1 mem).elim (List.mem_append_left _)
      fun mem => List.mem_append_right _ (List.mem_append_left _ mem)

/-- A step keeps the tokens apart if its command, or the event, spends them properly here. -/
theorem Distinct.step {live : W → K → Prop} {c c' : Config W C X T} {l : Label A E}
    (inv : Distinct token live c) (h : Step L c l c')
    (exec : ∀ {tid : T} {cmd : C} {rest : List C} {a : A} {o : Outcome W C X},
      c.running = some ⟨tid, cmd :: rest, none⟩ → L.exec c.world cmd a = some o →
      Spends token live c.world cmd o)
    (unwind : ∀ {tid : T} {cmd : C} {rest : List C} {x : X} {a : A} {o : Outcome W C X},
      c.running = some ⟨tid, cmd :: rest, some x⟩ → L.unwind c.world cmd x a = some o →
      Spends token live c.world cmd o)
    (spawn : ∀ {e : E} {w : W} {new : List (T × List C)}, L.spawn c.world e = some (w, new) →
      (new.flatMap fun p => p.2.filterMap token).Nodup ∧
        (∀ k ∈ new.flatMap fun p => p.2.filterMap token, ¬ live c.world k ∧ live w k) ∧
        ∀ k, live c.world k → live w k) : Distinct token live c' := by
  cases h with
  | finish _ top => simpa [Distinct, Config.tokens, Thread.tokens, top] using inv
  | crash _ top => exact inv
  | exec _ top run => exact (exec top run).distinct token top inv
  | unwind _ top run => exact (unwind top run).distinct token top inv
  | @take i t _ free at_i _ =>
    have same := (threads_take free at_i).flatMap_right (Thread.tokens token)
    exact ⟨same.nodup_iff.2 inv.1, fun k hk => inv.2 k (same.mem_iff.1 hk)⟩
  | @env e w new _ run =>
    obtain ⟨hnodup, hfresh, hkept⟩ := spawn run
    have split : ({ c with world := w, parked := c.parked ++ new.map Thread.start } :
        Config W C X T).tokens token =
        c.tokens token ++ new.flatMap fun p => p.2.filterMap token := by
      simp [Config.tokens, Thread.tokens, Thread.start, List.flatMap_map]
    refine ⟨?_, fun k hk => ?_⟩
    · rw [split]
      refine List.nodup_append.2 ⟨inv.1, hnodup, ?_⟩
      rintro k hold _ hnew rfl
      exact (hfresh k hnew).1 (inv.2 k hold)
    · rw [split] at hk
      rcases List.mem_append.1 hk with hold | hnew
      · exact hkept k (inv.2 k hold)
      · exact (hfresh k hnew).2

theorem Conserved.step {live : W → K → Prop} {I : W → Prop} (cons : Conserved L token live I)
    {c c' : Config W C X T} {l : Label A E} (inv : Distinct token live c) (hI : I c.world)
    (h : Step L c l c') : Distinct token live c' :=
  inv.step L token h (fun _ run => cons.exec hI run) (fun _ run => cons.unwind hI run)
    fun run => cons.spawn hI run

theorem Conserved.run {live : W → K → Prop} {I : W → Prop} (cons : Conserved L token live I)
    {ok : Config W C X T → Label A E → Prop} (hI : ∀ {c l}, ok c l → I c.world)
    {start c : Config W C X T} {ls : List (Label A E)} (h : Run L ok start ls c)
    (init : Distinct token live start) : Distinct token live c :=
  h.invariant L init (fun inv meets last => cons.step L token inv (hI meets) last)

end
end LockMachine
