import Mathlib.Data.List.Basic
import Blueboat.Library.Incremental

set_option autoImplicit false

/-! Messages that one side writes as frames and an incremental decoder reads back. -/
namespace Framing

open Incremental

/-- `encodes f m`: the frame `f` stands for `m`. Nothing is decoded after a message that is `last`;
`between` holds of the decoder where a frame may begin. -/
structure Codec (B M : Type) where
  decoder : Decoder B M
  between : decoder.State → Prop
  encodes : List B → M → Prop
  last : M → Bool

section
variable {B M : Type}

structure Codec.Lawful (K : Codec B M) : Prop where
  decoder : Incremental.Lawful K.decoder
  start : K.between K.decoder.start
  whole : ∀ {s f m}, K.between s → K.encodes f m → (K.decoder.feed s f).2 = [m]
  next : ∀ {s f m}, K.between s → K.encodes f m → K.last m = false →
    K.between (K.decoder.feed s f).1
  part : ∀ {s p q m}, K.between s → K.encodes (p ++ q) m → q ≠ [] → (K.decoder.feed s p).2 = []

inductive Codec.Encodes (K : Codec B M) : List M → List B → Prop where
  | nil : K.Encodes [] []
  | cons {m : M} {ms : List M} {f fs : List B} (first : K.encodes f m) (rest : K.Encodes ms fs) :
      K.Encodes (m :: ms) (f ++ fs)

/-- Nothing follows a last message. -/
def Codec.Ordered (K : Codec B M) (ms : List M) : Prop :=
  ms.Pairwise fun m _ => K.last m = false

variable {K : Codec B M}

theorem Codec.Encodes.append {ms ms' : List M} {fs fs' : List B} (h : K.Encodes ms fs)
    (h' : K.Encodes ms' fs') : K.Encodes (ms ++ ms') (fs ++ fs') := by
  induction h with
  | nil => exact h'
  | cons first _ ih =>
    rw [List.append_assoc]
    exact .cons first ih

theorem Codec.Encodes.one {m : M} {f : List B} (h : K.encodes f m) : K.Encodes [m] f := by
  simpa only [List.append_nil] using Codec.Encodes.cons h .nil

theorem Codec.Ordered.append {ms ms' : List M} (before : ∀ m ∈ ms, K.last m = false)
    (h : K.Ordered ms') : K.Ordered (ms ++ ms') :=
  List.pairwise_append.2
    ⟨.imp_of_mem (fun mem _ _ => before _ mem) (List.pairwise_of_forall (fun _ _ => trivial)), h,
      fun m mem _ _ => before m mem⟩

/-- What is decoded of the beginning of a stream of frames: the messages whose frames are whole in it,
and no others. -/
theorem Codec.Lawful.decoded (law : K.Lawful) {ms : List M} {fs bytes : List B}
    (h : K.Encodes ms fs) (ordered : K.Ordered ms) (started : bytes <+: fs)
    {s : K.decoder.State} (ready : K.between s) :
    ∃ k whole part, bytes = whole ++ part ∧ K.Encodes (ms.take k) whole ∧
      (K.decoder.feed s bytes).2 = ms.take k ∧ (bytes = fs → ms.take k = ms) := by
  induction h generalizing bytes s with
  | nil =>
    obtain rfl := List.prefix_nil.1 started
    refine ⟨0, [], [], rfl, .nil, ?_, fun _ => rfl⟩
    rw [law.decoder.nil]
    rfl
  | @cons m ms f fs first rest ih =>
    by_cases short : bytes.length < f.length
    · obtain ⟨q, rfl⟩ : bytes <+: f :=
        List.prefix_of_prefix_length_le started (List.prefix_append f fs)
          (Nat.le_of_lt short)
      have missing : q ≠ [] := by
        rintro rfl
        rw [List.append_nil] at short
        exact Nat.lt_irrefl _ short
      refine ⟨0, [], bytes, rfl, .nil, law.part ready first missing, fun all => ?_⟩
      have lengths := congrArg List.length all
      rw [List.length_append] at lengths
      omega
    · obtain ⟨b, rfl⟩ : f <+: bytes :=
        List.prefix_of_prefix_length_le (List.prefix_append f fs) started (Nat.le_of_not_lt short)
      have started : b <+: fs := (List.prefix_append_right_inj f).1 started
      rw [Codec.Ordered, List.pairwise_cons] at ordered
      cases last : K.last m with
      | false =>
        obtain ⟨k, whole, part, rfl, some, found, all⟩ :=
          ih ordered.2 started (law.next ready first last)
        refine ⟨k + 1, f ++ whole, part, (List.append_assoc ..).symm, .cons first some, ?_,
          fun same => ?_⟩
        · rw [law.decoder.append, law.whole ready first, found]
          rfl
        · exact congrArg (m :: ·) (all (List.append_cancel_left same))
      | true =>
        cases rest with
        | nil =>
          obtain rfl := List.prefix_nil.1 started
          refine ⟨1, f, [], rfl, .one first, ?_, fun _ => rfl⟩
          rw [List.append_nil]
          exact law.whole ready first
        | cons =>
          have more := ordered.1 _ List.mem_cons_self
          rw [last] at more
          cases more

end

end Framing
