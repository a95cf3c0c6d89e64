import Mathlib.Data.List.DropRight
import Blueboat.Http

set_option autoImplicit false

/-! `trim` of `http.cpp` and the header values that `read_request` stores. -/
namespace Blueboat.Http

def blanks : Str := [0x20, 0x09]
def trailing : Str := [0x20, 0x09, CR, LF]

/-- The text without the blanks in front of it and the blanks and line ends behind it. -/
def stripped (text : Str) : Str :=
  (text.dropWhile (· ∈ blanks)).rdropWhile (· ∈ trailing)

/-- Nothing is left to strip. -/
structure Trimmed (value : Str) : Prop where
  front : ∀ b, value.head? = some b → b ∉ blanks
  back : ∀ b, value.getLast? = some b → b ∉ trailing

/-- Only characters that `trim` strips at the end, the first of them one that it strips in front, and
not all of them such. -/
structure LineEndsOnly (text : Str) : Prop where
  all : ∀ b ∈ text, b ∈ trailing
  front : ∃ b, text.head? = some b ∧ b ∈ blanks
  lineEnd : ∃ b ∈ text, b ∉ blanks

/-- `end - start + 1` is computed, and is not the index that it stands for. -/
def Wraps (text : Str) : Prop :=
  let start := findFirstNotOf blanks text
  let last := findLastNotOf trailing text
  start ≠ npos ∧ ¬ (start ≤ last ∧ last - start + 1 < 2 ^ 64)

theorem mem_trailing {b : UInt8} (h : b ∈ blanks) : b ∈ trailing := by
  simp only [blanks, trailing, List.mem_cons, List.not_mem_nil, or_false] at h ⊢
  tauto

theorem findFirstNotOf_none {chars s : Str} (all : ∀ b ∈ s, b ∈ chars) :
    findFirstNotOf chars s = npos := by
  have none : s.findIdx? (fun b => b ∉ chars) = none :=
    List.findIdx?_eq_none_iff.2 fun b mem => by simpa using all b mem
  rw [findFirstNotOf, none]

theorem findLastNotOf_none {chars s : Str} (all : ∀ b ∈ s, b ∈ chars) :
    findLastNotOf chars s = npos := by
  have none : s.reverse.findIdx? (fun b => b ∉ chars) = none :=
    List.findIdx?_eq_none_iff.2 fun b mem => by simpa using all b (List.mem_reverse.1 mem)
  rw [findLastNotOf, none]

theorem findFirstNotOf_append {chars front rest : Str} {b : UInt8} (all : ∀ x ∈ front, x ∈ chars)
    (other : b ∉ chars) : findFirstNotOf chars (front ++ b :: rest) = front.length := by
  have none : front.findIdx? (fun b => b ∉ chars) = none :=
    List.findIdx?_eq_none_iff.2 fun x mem => by simpa using all x mem
  rw [findFirstNotOf, List.findIdx?_append, none, List.findIdx?_cons, if_pos (by simpa using other)]
  simp

theorem findLastNotOf_append {chars front rest : Str} {b : UInt8} (all : ∀ x ∈ rest, x ∈ chars)
    (other : b ∉ chars) : findLastNotOf chars (front ++ b :: rest) = front.length := by
  have none : rest.reverse.findIdx? (fun b => b ∉ chars) = none :=
    List.findIdx?_eq_none_iff.2 fun x mem => by simpa using all x (List.mem_reverse.1 mem)
  rw [findLastNotOf, List.reverse_append, List.reverse_cons, List.append_assoc, List.singleton_append,
    List.findIdx?_append, none, List.findIdx?_cons, if_pos (by simpa using other)]
  simp only [Option.none_or, Option.map_some, List.length_append, List.length_cons, List.length_reverse]
  omega

/-- A text is what `trim` passes over in front, what it keeps, and what it passes over behind. -/
theorem stripped_split (text : Str) : text = text.takeWhile (· ∈ blanks) ++
    (stripped text ++ (text.dropWhile (· ∈ blanks)).rtakeWhile (· ∈ trailing)) := by
  rw [stripped, List.rdropWhile_append_rtakeWhile, List.takeWhile_append_dropWhile]

theorem stripped_eq_nil {text : Str} : stripped text = [] ↔ ∀ b ∈ text, b ∈ trailing := by
  rw [stripped, List.rdropWhile_eq_nil_iff]
  constructor
  · intro all b mem
    rw [← List.takeWhile_append_dropWhile (p := fun b => decide (b ∈ blanks)) (l := text)] at mem
    rcases List.mem_append.1 mem with mem | mem
    · exact mem_trailing (by simpa using List.mem_takeWhile_imp mem)
    · simpa using all b mem
  · intro all b mem
    simpa using all b ((List.dropWhile_suffix _).subset mem)

theorem trimmed_stripped (text : Str) : Trimmed (stripped text) := by
  refine ⟨fun b head => ?_, fun b last => ?_⟩
  · obtain ⟨rest, kept⟩ := List.head?_eq_some_iff.1 head
    obtain ⟨behind, whole⟩ := List.rdropWhile_prefix (fun b => decide (b ∈ trailing))
      (text.dropWhile (· ∈ blanks))
    change stripped text ++ behind = _ at whole
    rw [kept, List.cons_append] at whole
    have stops := List.head?_dropWhile_not (fun b => decide (b ∈ blanks)) text
    rw [← whole] at stops
    simpa using stops
  · have kept : stripped text ≠ [] := by
      rintro nothing
      rw [nothing] at last
      cases last
    obtain rfl : (stripped text).getLast kept = b :=
      Option.some.inj ((List.getLast?_eq_some_getLast kept).symm.trans last)
    have stops := List.rdropWhile_last_not (fun b => decide (b ∈ trailing)) _ kept
    change ¬ decide ((stripped text).getLast kept ∈ trailing) = true at stops
    simpa using stops

theorem takeWhile_blanks {text : Str} : ∀ b ∈ text.takeWhile (· ∈ blanks), b ∈ blanks :=
  fun b mem => by simpa using List.mem_takeWhile_imp mem

theorem length_split (text : Str) : text.length = (text.takeWhile (· ∈ blanks)).length +
    (text.dropWhile (· ∈ blanks)).length := by
  rw [← List.length_append, List.takeWhile_append_dropWhile]

theorem drop_blanks (text : Str) :
    text.drop (text.takeWhile (· ∈ blanks)).length = text.dropWhile (· ∈ blanks) := by
  calc text.drop (text.takeWhile (· ∈ blanks)).length
    _ = (text.takeWhile (· ∈ blanks) ++ text.dropWhile (· ∈ blanks)).drop
          (text.takeWhile (· ∈ blanks)).length := by rw [List.takeWhile_append_dropWhile]
    _ = text.dropWhile (· ∈ blanks) := List.drop_left

/-! What the two searches find. -/

theorem find_blanks {text : Str} (nothing : text.dropWhile (· ∈ blanks) = []) :
    findFirstNotOf blanks text = npos :=
  findFirstNotOf_none fun b mem => by simpa using List.dropWhile_eq_nil_iff.1 nothing b mem

theorem find_front {text : Str} (kept : text.dropWhile (· ∈ blanks) ≠ []) :
    findFirstNotOf blanks text = (text.takeWhile (· ∈ blanks)).length := by
  obtain ⟨b, rest, found⟩ := List.exists_cons_of_ne_nil kept
  have stops := List.head?_dropWhile_not (fun b => decide (b ∈ blanks)) text
  rw [found] at stops
  have whole : text = text.takeWhile (· ∈ blanks) ++ b :: rest := by
    rw [← found, List.takeWhile_append_dropWhile]
  have front : ∀ b ∈ text.takeWhile (· ∈ blanks), b ∈ blanks := takeWhile_blanks
  generalize text.takeWhile (· ∈ blanks) = before at front whole
  rw [whole, findFirstNotOf_append front (by simpa using stops)]

/-- The search from behind ends at the last character that is kept. -/
theorem find_back {text : Str} (kept : stripped text ≠ []) : findLastNotOf trailing text + 1 =
    (text.takeWhile (· ∈ blanks)).length + (stripped text).length := by
  have split := stripped_split text
  have trimmed := trimmed_stripped text
  have behind : ∀ b ∈ (text.dropWhile (· ∈ blanks)).rtakeWhile (· ∈ trailing), b ∈ trailing :=
    fun b mem => by simpa using List.mem_rtakeWhile_imp mem
  generalize text.takeWhile (· ∈ blanks) = before at split
  generalize (text.dropWhile (· ∈ blanks)).rtakeWhile (· ∈ trailing) = after at split behind
  generalize stripped text = value at split trimmed kept
  obtain ⟨rest, b, rfl⟩ := (List.eq_nil_or_concat' value).resolve_left kept
  have whole : text = (before ++ rest) ++ b :: after := by
    rw [split]
    simp
  rw [whole, findLastNotOf_append behind (trimmed.back b (by simp))]
  simp only [List.length_append, List.length_singleton]
  omega

theorem find_nothing {text : Str} (nothing : stripped text = []) :
    findLastNotOf trailing text = npos := findLastNotOf_none (stripped_eq_nil.1 nothing)

theorem stripped_nil {text : Str} (nothing : text.dropWhile (· ∈ blanks) = []) : stripped text = [] := by
  rw [stripped, nothing, List.rdropWhile_nil]

theorem lineEndsOnly_iff {text : Str} : LineEndsOnly text ↔ stripped text = [] ∧
    text.dropWhile (· ∈ blanks) ≠ [] ∧ text.takeWhile (· ∈ blanks) ≠ [] := by
  have dropped : text.dropWhile (· ∈ blanks) ≠ [] ↔ ∃ b ∈ text, b ∉ blanks := by
    rw [ne_eq, List.dropWhile_eq_nil_iff]
    simp
  have taken : text.takeWhile (· ∈ blanks) ≠ [] ↔ ∃ b, text.head? = some b ∧ b ∈ blanks := by
    cases text with
    | nil => simp
    | cons b rest =>
      rw [List.takeWhile_cons]
      split <;> rename_i here <;> simpa using here
  rw [stripped_eq_nil, dropped, taken]
  exact ⟨fun h => ⟨h.all, h.lineEnd, h.front⟩, fun ⟨all, lineEnd, front⟩ => ⟨all, front, lineEnd⟩⟩

/-- `trim` strips what it is to strip, unless there is nothing but that: then the line ends that follow
blanks are left. -/
theorem trim_spec {text : Str} (short : text.length < npos) :
    (LineEndsOnly text → trim text = text.dropWhile (· ∈ blanks)) ∧
      (¬ LineEndsOnly text → trim text = stripped text) := by
  have length := length_split text
  have opened : trim text =
      if findFirstNotOf blanks text = npos then []
      else substr text (findFirstNotOf blanks text)
        ((findLastNotOf trailing text + (2 ^ 64 - findFirstNotOf blanks text) + 1) % 2 ^ 64) := rfl
  rw [lineEndsOnly_iff, opened]
  unfold npos at short
  by_cases nothing : text.dropWhile (· ∈ blanks) = []
  · rw [find_blanks nothing, if_pos rfl]
    exact ⟨fun h => absurd nothing h.2.1, fun _ => (stripped_nil nothing).symm⟩
  rw [find_front nothing, if_neg (by unfold npos; omega), substr, drop_blanks]
  by_cases kept : stripped text = []
  · rw [find_nothing kept, npos]
    refine ⟨fun ⟨_, _, front⟩ => ?_, fun other => ?_⟩
    · have some := List.length_pos_iff.2 front
      have count : (2 ^ 64 - 1 + (2 ^ 64 - (text.takeWhile (· ∈ blanks)).length) + 1) % 2 ^ 64 =
          2 ^ 64 - (text.takeWhile (· ∈ blanks)).length := by omega
      rw [count, List.take_of_length_le (by omega)]
    · have front : text.takeWhile (· ∈ blanks) = [] := by
        by_contra front
        exact other ⟨kept, nothing, front⟩
      rw [front, kept]
      rfl
  · refine ⟨fun h => absurd h.1 kept, fun _ => ?_⟩
    have back := find_back kept
    have inside := congrArg List.length (stripped_split text)
    simp only [List.length_append] at inside
    have count : (findLastNotOf trailing text + (2 ^ 64 - (text.takeWhile (· ∈ blanks)).length) + 1) %
        2 ^ 64 = (stripped text).length := by omega
    rw [count]
    have dropped : text.dropWhile (· ∈ blanks) =
        stripped text ++ (text.dropWhile (· ∈ blanks)).rtakeWhile (· ∈ trailing) := by
      rw [stripped, List.rdropWhile_append_rtakeWhile]
    conv_lhs => rw [dropped]
    exact List.take_left

theorem wraps_iff {text : Str} (short : text.length < npos) :
    Wraps text ↔ (∃ b, text.head? = some b ∧ b ∉ blanks) ∧ ∀ b ∈ text, b ∈ trailing := by
  have length := length_split text
  have start : (∃ b, text.head? = some b ∧ b ∉ blanks) ↔
      text.dropWhile (· ∈ blanks) ≠ [] ∧ text.takeWhile (· ∈ blanks) = [] := by
    cases text with
    | nil => simp
    | cons b rest =>
      rw [List.takeWhile_cons, List.dropWhile_cons]
      split <;> rename_i here <;> simpa using here
  rw [Wraps, start, ← stripped_eq_nil]
  unfold npos at short ⊢
  by_cases nothing : text.dropWhile (· ∈ blanks) = []
  · have first := find_blanks nothing
    rw [npos] at first
    simp [first, nothing]
  rw [find_front nothing, ← List.length_eq_zero_iff (l := text.takeWhile _)]
  by_cases kept : stripped text = []
  · rw [find_nothing kept, npos]
    simp only [ne_eq, nothing, kept, not_false_eq_true, true_and, and_true]
    omega
  · have back := find_back kept
    have some := List.length_pos_iff.2 kept
    have inside := congrArg List.length (stripped_split text)
    simp only [List.length_append] at inside
    simp only [kept, and_false, iff_false]
    omega

/-! The values that a request keeps. -/

def texts (head : Str) : List (Str × Str) :=
  ((head.splitOn LF).drop 1).filterMap fun line =>
    (cut 0x3a (popCr line)).map fun p => (toLower p.1, p.2)

theorem fields_texts (head : Str) : fields head = (texts head).map fun p => (p.1, trim p.2) := by
  rw [fields, texts, List.map_filterMap]
  refine List.filterMap_congr fun line _ => ?_
  rw [field, Option.map_map]
  rfl

theorem lookup_map_snd {β γ : Type} (f : β → γ) (l : List (Str × β)) (name : Str) :
    (l.map fun p => (p.1, f p.2)).lookup name = (l.lookup name).map f := by
  induction l with
  | nil => rfl
  | cons p l ih =>
    rw [List.map_cons, List.lookup_cons, List.lookup_cons]
    cases name == p.1 with
    | true => rfl
    | false => exact ih

/-- Of the lines with one name the last one counts, and its value is trimmed. -/
theorem lookup_headersOf (head name : Str) :
    (headersOf head).lookup name = ((texts head).reverse.lookup name).map trim := by
  rw [headersOf, lookup_foldl_insert, fields_texts, ← List.map_reverse, lookup_map_snd]

theorem length_splitOn (head : Str) : ∀ line ∈ head.splitOn LF, line.length ≤ head.length := by
  induction head with
  | nil =>
    intro line mem
    obtain rfl := List.mem_singleton.1 mem
    exact Nat.le_refl _
  | cons b head ih =>
    intro line mem
    rw [List.splitOn_cons_eq_if_modifyHead] at mem
    split at mem
    · rcases List.mem_cons.1 mem with rfl | mem
      · exact Nat.zero_le _
      · exact Nat.le_succ_of_le (ih line mem)
    · cases lines : head.splitOn LF with
      | nil =>
        rw [lines] at mem
        cases mem
      | cons first more =>
        rw [lines] at mem ih
        rcases List.mem_cons.1 mem with rfl | mem
        · exact Nat.succ_le_succ (ih first List.mem_cons_self)
        · exact Nat.le_succ_of_le (ih line (List.mem_cons_of_mem _ mem))

theorem length_text {head name text : Str} (found : (texts head).reverse.lookup name = some text) :
    text.length ≤ head.length := by
  obtain ⟨before, more, split, -⟩ := List.lookup_eq_some_iff.1 found
  have mem : (name, text) ∈ texts head := by
    rw [← List.mem_reverse, split]
    simp
  obtain ⟨line, listed, parts⟩ := List.mem_filterMap.1 mem
  obtain ⟨⟨raw, after⟩, colon, same⟩ := Option.map_eq_some_iff.1 parts
  obtain rfl : after = text := congrArg Prod.snd same
  have popped : (popCr line).length ≤ line.length := by
    rw [popCr]
    split
    · simp
    · exact Nat.le_refl _
  have whole := congrArg List.length (cut_some colon).1
  have short := length_splitOn head line (List.mem_of_mem_drop listed)
  simp only [List.length_append, List.length_cons] at whole
  omega

/-- Every value that a request keeps is trimmed, and is what is left of the text behind the first
colon of the last line with its name. -/
def ValuesTrimmed (s : Socket) : Prop :=
  ∀ request s' name value, readRequest s = (some request, s') →
    request.headers.lookup name = some value → Trimmed value ∧
      ∃ head rest n text, Accepts s.rest head rest n ∧
        (texts head).reverse.lookup name = some text ∧ value = stripped text

theorem valuesTrimmed_iff (s : Socket) : ValuesTrimmed s ↔
    ∀ head rest n name text, Accepts s.rest head rest n →
      (texts head).reverse.lookup name = some text → ¬ LineEndsOnly text := by
  have brief : ∀ {head rest n name text}, Accepts s.rest head rest n →
      (texts head).reverse.lookup name = some text → text.length < npos := by
    intro head rest n name text accepts found
    have within := accepts.short
    have inside := length_text found
    unfold maxHeaderSize at within
    unfold npos
    omega
  constructor
  · intro trimmed head rest n name text accepts found lineEnds
    rcases readRequest_spec s with ⟨head', rest', n', s', accepts', read, -⟩ | ⟨-, none⟩
    · obtain ⟨rfl, rfl, rfl⟩ := accepts_unique accepts accepts'
      have stored : (headersOf head').lookup name = some (trim text) := by
        rw [lookup_headersOf, found]
        rfl
      obtain ⟨-, head, rest, n, text', accepts', found', same⟩ := trimmed _ _ _ _ read stored
      obtain ⟨rfl, -, -⟩ := accepts_unique accepts accepts'
      obtain rfl := Option.some.inj (found.symm.trans found')
      obtain ⟨nothing, kept, -⟩ := lineEndsOnly_iff.1 lineEnds
      rw [(trim_spec (brief accepts found)).1 lineEnds, nothing] at same
      exact kept same
    · exact none head rest n accepts
  · intro fits request s' name value read stored
    rcases readRequest_spec s with ⟨head, rest, n, s₁, accepts, read', -⟩ | ⟨fails, -⟩
    · rw [read'] at read
      obtain ⟨rfl, rfl⟩ : requestOf head (rest.take n) = request ∧ s₁ = s' := by simpa using read
      have stored : (headersOf head).lookup name = some value := stored
      rw [lookup_headersOf] at stored
      obtain ⟨text, found, rfl⟩ := Option.map_eq_some_iff.1 stored
      have plain := fits head rest n name text accepts found
      rw [(trim_spec (brief accepts found)).2 plain]
      exact ⟨trimmed_stripped text, head, rest, n, text, accepts, found, rfl⟩
    · rw [read] at fails
      cases fails

/-- A request keeps a value that is not trimmed exactly if the text behind the colon has nothing but
blanks and line ends, the first a blank; and `trim` leaves the range of its indices exactly on a text
that has nothing else, the first a line end. -/
theorem trim_iff (s : Socket) (text : Str) (short : text.length < npos) :
    (ValuesTrimmed s ↔ ∀ head rest n name value, Accepts s.rest head rest n →
      (texts head).reverse.lookup name = some value → ¬ LineEndsOnly value) ∧
    (¬ Wraps text ↔ ¬ ((∃ b, text.head? = some b ∧ b ∉ blanks) ∧ ∀ b ∈ text, b ∈ trailing)) :=
  ⟨valuesTrimmed_iff s, not_congr (wraps_iff short)⟩

/-- A value between blanks. -/
theorem trim_iff_plain : (lit " a ").length < npos ∧ ¬ Wraps (lit " a ") := by
  have short : (lit " a ").length < npos := by decide
  have iff := (trim_iff { rest := lit "GET / HTTP/1.1\r\nHost: a \r\n\r\n", sizes := fun _ => 1, reads := 0 }
    (lit " a ") short).2
  exact ⟨short, iff.2 fun both => absurd (both.2 0x61 (by decide)) (by decide)⟩

/-- The blank is stripped and the carriage return behind it is kept. -/
theorem trim_keeps_cr : ¬ ValuesTrimmed
    { rest := lit "GET / HTTP/1.1\r\nX: \r\r\n\r\n", sizes := fun _ => 1, reads := 0 } ∧
    Wraps [CR] := by
  have read : (readRequest
      { rest := lit "GET / HTTP/1.1\r\nX: \r\r\n\r\n", sizes := fun _ => 1, reads := 0 }).1.bind
        (·.headers.lookup (lit "x")) = some [CR] := by decide +kernel
  have ends : ∀ b ∈ [CR], b ∈ trailing := fun b mem => by rw [List.mem_singleton.1 mem]; decide
  refine ⟨fun trimmed => ?_, (wraps_iff (by decide)).2 ⟨⟨CR, rfl, by decide⟩, ends⟩⟩
  obtain ⟨request, reads, found⟩ := Option.bind_eq_some_iff.1 read
  exact (trimmed request _ _ _ (Prod.ext reads rfl) found).1.back CR rfl (by decide)

end Blueboat.Http
