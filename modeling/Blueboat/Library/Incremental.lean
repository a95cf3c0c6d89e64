set_option autoImplicit false

/-! Decoders that are fed a stream piece by piece. What a lawful decoder makes of a stream does not
depend on the pieces, and once it has stopped nothing more comes out of it. -/
namespace Incremental

structure Decoder (B M : Type) where
  State : Type
  start : State
  stopped : State → Bool
  feed : State → List B → State × List M

section
variable {B M : Type}

structure Lawful (D : Decoder B M) : Prop where
  start : D.stopped D.start = false
  nil : ∀ s, D.feed s [] = (s, [])
  append : ∀ s a b, D.feed s (a ++ b) =
    ((D.feed (D.feed s a).1 b).1, (D.feed s a).2 ++ (D.feed (D.feed s a).1 b).2)
  stop : ∀ s a, D.stopped s = true → (D.feed s a).2 = [] ∧ D.stopped (D.feed s a).1 = true

/-- What follows a piece at which the decoder stops is lost. -/
theorem Lawful.feed_stopped {D : Decoder B M} (law : Lawful D) {s : D.State} {a : List B}
    (h : D.stopped (D.feed s a).1 = true) (b : List B) :
    (D.feed s (a ++ b)).2 = (D.feed s a).2 ∧ D.stopped (D.feed s (a ++ b)).1 = true := by
  have after := law.stop (D.feed s a).1 b h
  rw [law.append]
  exact ⟨by rw [after.1, List.append_nil], after.2⟩

/-! A decoder that takes one symbol at a time. -/

section
variable {S : Type} (stopped : S → Bool) (step : S → B → S × List M)

def feedSteps : S → List B → S × List M
  | s, [] => (s, [])
  | s, b :: bs =>
    if stopped s = true then (s, [])
    else ((feedSteps (step s b).1 bs).1, (step s b).2 ++ (feedSteps (step s b).1 bs).2)

def ofSteps (start : S) : Decoder B M where
  State := S
  start := start
  stopped := stopped
  feed := feedSteps stopped step

variable {stopped}

theorem feedSteps_stopped {s : S} (h : stopped s = true) (bs : List B) :
    feedSteps stopped step s bs = (s, []) := by
  cases bs with
  | nil => rfl
  | cons b bs => rw [feedSteps, if_pos h]

theorem feedSteps_append (s : S) (a b : List B) :
    feedSteps stopped step s (a ++ b) =
      ((feedSteps stopped step (feedSteps stopped step s a).1 b).1,
        (feedSteps stopped step s a).2 ++
          (feedSteps stopped step (feedSteps stopped step s a).1 b).2) := by
  induction a generalizing s with
  | nil => rfl
  | cons x a ih =>
    cases h : stopped s with
    | true =>
      rw [feedSteps_stopped step h, feedSteps_stopped step h, feedSteps_stopped step h]
      rfl
    | false =>
      have running : ¬ stopped s = true := by rw [h]; exact Bool.false_ne_true
      rw [List.cons_append, feedSteps, if_neg running, feedSteps, if_neg running, ih,
        List.append_assoc]

theorem ofSteps_lawful {start : S} (h : stopped start = false) :
    Lawful (ofSteps stopped step start) where
  start := h
  nil _ := rfl
  append := feedSteps_append step
  stop s a h := by
    have still : (ofSteps stopped step start).feed s a = (s, []) := feedSteps_stopped step h a
    rw [still]
    exact ⟨rfl, h⟩

end

end

end Incremental
