import Mathlib.Data.List.Induction
import Mathlib.Data.List.TakeWhile
import Blueboat.MemoryStorage

set_option autoImplicit false

/-! `http.cpp`: a request is read from a socket byte by byte up to the empty line, and then as much
of its body as the content length says. -/
namespace Blueboat.Http

def CR : UInt8 := 0x0d
def LF : UInt8 := 0x0a

def doubleCrlf : Str := [CR, LF, CR, LF]

def maxHeaderSize : ℕ := 64 * 1024
def maxBodySize : ℕ := 8 * 1024 * 1024

/-- The bytes that are still to come, and how many of them each call of `read` takes at most. -/
structure Socket where
  rest : Str
  sizes : ℕ → ℕ
  reads : ℕ

/-- `read` returns between one byte and as many as are asked for, or, at the end, no more than 0. -/
def Socket.read (s : Socket) (len : ℕ) : Option Str × Socket :=
  if s.rest = [] then (none, s)
  else
    let n := max 1 (min (s.sizes s.reads) (min len s.rest.length))
    (some (s.rest.take n), { s with rest := s.rest.drop n, reads := s.reads + 1 })

/-- The loop of `read_until_double_crlf`; `room` is what is left of the size limit. -/
def readHead : ℕ → Str → Socket → Option Str × Socket
  | 0, _, s => (none, s)
  | room + 1, buf, s =>
    match s.read 1 with
    | (none, s) => (none, s)
    | (some c, s) =>
      if doubleCrlf.isSuffixOf (buf ++ c) then (some (buf ++ c), s) else readHead room (buf ++ c) s

def readUntilDoubleCrlf (s : Socket) : Option Str × Socket := readHead maxHeaderSize [] s

/-- `std::isspace` in the C locale. -/
def isSpace (b : UInt8) : Bool := b == 0x20 || (0x09 ≤ b && b ≤ 0x0d)

def toLower (s : Str) : Str := s.map fun b => if 0x41 ≤ b && b ≤ 0x5a then b + 0x20 else b

/-! `std::string` searches; indices are 64 bits wide. -/

def npos : ℕ := 2 ^ 64 - 1

def findFirstNotOf (chars s : Str) : ℕ :=
  match s.findIdx? fun b => b ∉ chars with
  | some i => i
  | none => npos

def findLastNotOf (chars s : Str) : ℕ :=
  match s.reverse.findIdx? fun b => b ∉ chars with
  | some i => s.length - 1 - i
  | none => npos

def substr (s : Str) (pos count : ℕ) : Str := (s.drop pos).take count

/-- `end - start + 1` is computed modulo `2 ^ 64`. -/
def trim (s : Str) : Str :=
  let start := findFirstNotOf [0x20, 0x09] s
  let last := findLastNotOf [0x20, 0x09, CR, LF] s
  if start = npos then []
  else substr s start ((last + (2 ^ 64 - start) + 1) % 2 ^ 64)

def getline (delim : UInt8) : Str → Option (Str × Str)
  | [] => none
  | s => some (s.takeWhile (· != delim), (s.dropWhile (· != delim)).drop 1)

def getlines (delim : UInt8) : Str → List Str
  | [] => []
  | b :: s =>
    if b = delim then [] :: getlines delim s
    else
      match getlines delim s with
      | [] => [[b]]
      | line :: lines => (b :: line) :: lines

/-- `>>` into a string: the next word and what follows it. -/
def word (s : Str) : Option (Str × Str) :=
  match s.dropWhile isSpace with
  | [] => none
  | s => some (s.takeWhile (!isSpace ·), s.dropWhile (!isSpace ·))

def popCr (line : Str) : Str := if line.getLast? = some CR then line.dropLast else line

def cut (mark : UInt8) (s : Str) : Option (Str × Str) :=
  match s.dropWhile (· != mark) with
  | [] => none
  | _ :: after => some (s.takeWhile (· != mark), after)

def decimal (digits : Str) : ℕ := digits.foldl (fun n b => 10 * n + (b.toNat - 0x30)) 0

/-- `std::stoul`: leading white space, a sign, and the digits up to the first other character; a
negative number is negated modulo `2 ^ 64`. -/
def stoul (s : Str) : Option ℕ :=
  let s := s.dropWhile isSpace
  let negative := s.head? = some 0x2d
  let digits := (if negative ∨ s.head? = some 0x2b then s.drop 1 else s).takeWhile isDigit
  if digits = [] then none
  else if 2 ^ 64 ≤ decimal digits then none
  else if negative then some ((2 ^ 64 - decimal digits) % 2 ^ 64)
  else some (decimal digits)

structure Request where
  method : Str
  path : Str
  query : Str
  headers : Dict Str
  body : Str

def addHeader (headers : Dict Str) (line : Str) : Dict Str :=
  match cut 0x3a (popCr line) with
  | none => headers
  | some (name, value) => headers.insert (toLower name) (trim value)

/-- The loop over the body; every `read` brings at least one byte, so `content_length` rounds do. -/
def readBody (contentLength : ℕ) : ℕ → Str → Socket → Option Str × Socket
  | 0, body, s => (some body, s)
  | rounds + 1, body, s =>
    if body.length < contentLength then
      match s.read (contentLength - body.length) with
      | (none, s) => (none, s)
      | (some chunk, s) => readBody contentLength rounds (body ++ chunk) s
    else (some body, s)

def readContent (headers : Dict Str) (s : Socket) : Option Str × Socket :=
  match headers.lookup (lit "content-length") with
  | none => (some [], s)
  | some value =>
    match stoul value with
    | none => (none, s)
    | some contentLength =>
      if maxBodySize < contentLength then (none, s) else readBody contentLength contentLength [] s

def requestLine (line : Str) : Option (Str × Str × Str) := do
  let (method, line) ← word line
  let (target, line) ← word line
  let (version, _) ← word line
  return (method, target, version)

def readRequest (s : Socket) : Option Request × Socket :=
  match readUntilDoubleCrlf s with
  | (none, s) => (none, s)
  | (some raw, s) =>
    match getline LF raw with
    | none => (none, s)
    | some (first, stream) =>
      match requestLine (popCr first) with
      | none => (none, s)
      | some (method, target, _) =>
        let (path, query) := (cut 0x3f target).getD (target, [])
        let headers := (getlines LF stream).foldl addHeader ∅
        match readContent headers s with
        | (none, s) => (none, s)
        | (some body, s) => (some { method, path, query, headers, body }, s)

/-- `result[key] = value` for one piece of the query. -/
def addPair (result : Dict Str) (pair : Str) : Dict Str :=
  match cut 0x3d pair with
  | none => result.insert pair []
  | some (key, value) => result.insert key value

def parseQuery (query : Str) : Dict Str := (getlines 0x26 query).foldl addPair ∅

theorem getlines_eq (delim : UInt8) (s : Str) : getlines delim s =
    match getline delim s with
    | none => []
    | some (line, rest) => line :: getlines delim rest := by
  induction s with
  | nil => rfl
  | cons b s ih =>
    by_cases same : b = delim
    · subst same
      simp [getlines, getline]
    · have step : getline delim (b :: s) = some ((b :: s.takeWhile (· != delim)),
          (s.dropWhile (· != delim)).drop 1) := by
        simp [getline, same]
      rw [step, getlines, if_neg same, ih]
      cases s with
      | nil => simp [getline, getlines]
      | cons c s => simp [getline]

example : (parseQuery (lit "EIO=3&id=&id=a=b&x")).lookup (lit "id") = some (lit "a=b") := by decide

/-! The request line and the fields, as a description of the head. -/

def words (s : Str) : List Str := (s.splitOnP isSpace).filter fun w => w ≠ []

def field (line : Str) : Option (Str × Str) :=
  (cut 0x3a (popCr line)).map fun p => (toLower p.1, trim p.2)

def firstLine (head : Str) : Str := head.takeWhile (· != LF)

def fields (head : Str) : List (Str × Str) := ((head.splitOn LF).drop 1).filterMap field

theorem splitOnP_dropWhile (p : UInt8 → Bool) (s : Str) :
    s.splitOnP p = s.takeWhile (!p ·) ::
      match s.dropWhile (!p ·) with
      | [] => []
      | _ :: after => after.splitOnP p := by
  induction s with
  | nil => rfl
  | cons b s ih =>
    rw [List.splitOnP_cons_eq_if_modifyHead]
    cases h : p b with
    | true => simp [h]
    | false =>
      rw [if_neg (by simp), ih]
      simp [h]

theorem words_dropWhile (s : Str) : words (s.dropWhile isSpace) = words s := by
  induction s with
  | nil => rfl
  | cons b s ih =>
    cases h : isSpace b with
    | true =>
      rw [List.dropWhile_cons_of_pos h, ih, words, words, List.splitOnP_cons_eq_if_modifyHead,
        if_pos h]
      rfl
    | false => rw [List.dropWhile_cons_of_neg (by simp [h])]

theorem words_cons_space {b : UInt8} (h : isSpace b = true) (s : Str) : words (b :: s) = words s := by
  rw [words, words, List.splitOnP_cons_eq_if_modifyHead, if_pos h]
  rfl

theorem words_cons {b : UInt8} (h : isSpace b = false) (s : Str) :
    words (b :: s) = (b :: s).takeWhile (!isSpace ·) :: words ((b :: s).dropWhile (!isSpace ·)) := by
  have first : (b :: s).takeWhile (!isSpace ·) ≠ [] := by simp [h]
  rw [words, splitOnP_dropWhile, List.filter_cons_of_pos (by simpa using first)]
  congr 1
  cases rest : (b :: s).dropWhile (!isSpace ·) with
  | nil => rfl
  | cons c after =>
    have space : isSpace c = true := by
      have head := List.head?_dropWhile_not (!isSpace ·) (b :: s)
      rw [rest] at head
      simpa using head
    rw [words_cons_space space]
    rfl

theorem words_eq (s : Str) : words s =
    match word s with
    | none => []
    | some (w, rest) => w :: words rest := by
  rw [← words_dropWhile, word]
  cases h : s.dropWhile isSpace with
  | nil => rfl
  | cons b t =>
    have notSpace : isSpace b = false := by
      have head := List.head?_dropWhile_not isSpace s
      rw [h] at head
      simpa using head
    exact words_cons notSpace t

/-- The request line is read if it has three words. -/
theorem requestLine_eq (line : Str) : requestLine line =
    match words line with
    | method :: target :: version :: _ => some (method, target, version)
    | _ => none := by
  rw [requestLine, words_eq line]
  cases word line with
  | none => rfl
  | some p =>
    obtain ⟨method, line⟩ := p
    dsimp only [Option.bind_eq_bind, Option.bind_some]
    rw [words_eq line]
    cases word line with
    | none => rfl
    | some p =>
      obtain ⟨target, line⟩ := p
      dsimp only [Option.bind_some]
      rw [words_eq line]
      cases word line with
      | none => rfl
      | some p => rfl

theorem words_popCr (line : Str) : words (popCr line) = words line := by
  unfold popCr
  split
  · rename_i last
    obtain ⟨before, rfl⟩ := List.getLast?_eq_some_iff.1 last
    rw [List.dropLast_concat, words, words, List.splitOnP_append_cons before [] (by decide)]
    simp
  · rfl

theorem getlines_splitOn (s : Str) :
    s.splitOn LF = getlines LF s ∨ s.splitOn LF = getlines LF s ++ [[]] := by
  induction s with
  | nil => exact .inr rfl
  | cons b s ih =>
    rw [List.splitOn_cons_eq_if_modifyHead, getlines]
    by_cases same : b = LF
    · subst same
      rw [if_pos (beq_self_eq_true LF), if_pos rfl]
      exact ih.imp (congrArg _) (congrArg _)
    · rw [if_neg (by simpa using same), if_neg same]
      cases lines : getlines LF s with
      | nil =>
        rw [lines] at ih
        rcases ih with ih | ih
        · exact absurd ih (List.splitOn_ne_nil _ _)
        · exact .inl (by rw [ih]; rfl)
      | cons line lines' =>
        rw [lines] at ih
        exact ih.imp (fun whole => by rw [whole]; rfl) fun whole => by rw [whole]; rfl

theorem filterMap_getlines (s : Str) :
    (getlines LF s).filterMap field = (s.splitOn LF).filterMap field := by
  rcases getlines_splitOn s with same | same
  · rw [same]
  · rw [same, List.filterMap_append]
    exact (List.append_nil _).symm

/-- The first line and the fields of a head that has a line feed. -/
theorem getline_fields {head first stream : Str} (h : getline LF head = some (first, stream)) :
    first = firstLine head ∧ (getlines LF stream).filterMap field = fields head := by
  cases head with
  | nil => cases h
  | cons b s =>
    obtain ⟨rfl, rfl⟩ := Prod.mk.inj (Option.some.inj h)
    refine ⟨rfl, ?_⟩
    have split : (b :: s).splitOn LF = (b :: s).splitOnP (· == LF) := List.splitOn_eq_splitOnP
    rw [filterMap_getlines, fields, split, splitOnP_dropWhile]
    change _ = (match (b :: s).dropWhile (· != LF) with
      | [] => []
      | _ :: after => after.splitOn LF).filterMap field
    cases (b :: s).dropWhile (· != LF) with
    | nil => rfl
    | cons c after => rfl

/-! The two loops. -/

/-- A head ends with the first empty line. -/
def IsHead (head : Str) : Prop :=
  doubleCrlf <:+ head ∧ ∀ shorter, shorter <+: head → doubleCrlf <:+ shorter → shorter = head

theorem read_nil {s : Socket} (h : s.rest = []) (len : ℕ) : s.read len = (none, s) := if_pos h

theorem read_cons {s : Socket} (h : s.rest ≠ []) {len : ℕ} (asked : 1 ≤ len) :
    ∃ n s', s.read len = (some (s.rest.take n), s') ∧ s'.rest = s.rest.drop n ∧
      1 ≤ n ∧ n ≤ len ∧ n ≤ s.rest.length := by
  have some := List.length_pos_of_ne_nil h
  exact ⟨max 1 (min (s.sizes s.reads) (min len s.rest.length)), _, if_neg h, rfl, by omega, by omega,
    by omega⟩

theorem read_one {s : Socket} {c : UInt8} {rest : Str} (h : s.rest = c :: rest) :
    ∃ s', s.read 1 = (some [c], s') ∧ s'.rest = rest := by
  obtain ⟨n, s', read, left, least, most, -⟩ := read_cons (s := s) (by simp [h]) (Nat.le_refl 1)
  obtain rfl : n = 1 := Nat.le_antisymm most least
  rw [h] at read left
  exact ⟨s', read, left⟩

theorem readHead_spec (room : ℕ) (buf : Str) (s : Socket)
    (unfinished : ∀ shorter, shorter <+: buf → ¬ doubleCrlf <:+ shorter) :
    (∃ head s', readHead room buf s = (some head, s') ∧ head ++ s'.rest = buf ++ s.rest ∧
      IsHead head ∧ head.length ≤ buf.length + room) ∨
    ((readHead room buf s).1 = none ∧
      ∀ head, head <+: buf ++ s.rest → IsHead head → buf.length + room < head.length) := by
  induction room generalizing buf s with
  | zero =>
    refine .inr ⟨rfl, fun head whole ends => ?_⟩
    by_contra short
    have inside : head <+: buf :=
      List.prefix_of_prefix_length_le whole (List.prefix_append ..) (Nat.not_lt.1 short)
    exact unfinished head inside ends.1
  | succ room ih =>
    cases rest : s.rest with
    | nil =>
      refine .inr ⟨by rw [readHead, read_nil rest], fun head whole ends => ?_⟩
      rw [List.append_nil] at whole
      exact absurd ends.1 (unfinished head whole)
    | cons c t =>
      obtain ⟨s', read, left⟩ := read_one rest
      have longer : (buf ++ [c]).length + room = buf.length + (room + 1) := by
        rw [List.length_append, List.length_singleton]
        omega
      have split : (buf ++ [c]) ++ s'.rest = buf ++ c :: t := by
        rw [left, List.append_assoc, List.singleton_append]
      rw [readHead, read]
      dsimp only
      by_cases ends : doubleCrlf <:+ buf ++ [c]
      · rw [if_pos (List.isSuffixOf_iff_suffix.2 ends)]
        refine .inl ⟨_, s', rfl, split, ⟨ends, fun shorter inside again => ?_⟩, by omega⟩
        rcases List.prefix_concat_iff.1 inside with whole | before
        · exact whole
        · exact absurd again (unfinished shorter before)
      · rw [if_neg fun ended => ends (List.isSuffixOf_iff_suffix.1 ended)]
        rw [← split, ← longer]
        refine ih (buf ++ [c]) s' fun shorter inside again => ?_
        rcases List.prefix_concat_iff.1 inside with rfl | before
        · exact ends again
        · exact unfinished shorter before again

theorem head_unique {head head' stream : Str} (h : head <+: stream) (h' : head' <+: stream)
    (ends : IsHead head) (ends' : IsHead head') : head = head' := by
  rcases List.prefix_or_prefix_of_prefix h h' with inside | inside
  · exact ends'.2 head inside ends.1
  · exact (ends.2 head' inside ends'.1).symm

theorem readBody_complete {n : ℕ} {body : Str} (h : body.length = n) (rounds : ℕ) (s : Socket) :
    readBody n rounds body s = (some body, s) := by
  cases rounds with
  | zero => rfl
  | succ rounds => exact if_neg (by omega)

/-- Whatever the sizes of the reads, the body is the next bytes, if there are enough of them. -/
theorem readBody_spec (n rounds : ℕ) (body : Str) (s : Socket) (enough : n ≤ body.length + rounds)
    (within : body.length ≤ n) :
    (∃ s', readBody n rounds body s = (some (body ++ s.rest.take (n - body.length)), s') ∧
      s'.rest = s.rest.drop (n - body.length) ∧ n ≤ body.length + s.rest.length) ∨
    ((readBody n rounds body s).1 = none ∧ body.length + s.rest.length < n) := by
  induction rounds generalizing body s with
  | zero =>
    have all : body.length = n := by omega
    refine .inl ⟨s, ?_, ?_, by omega⟩
    · rw [readBody_complete all, all, Nat.sub_self, List.take_zero, List.append_nil]
    · rw [all, Nat.sub_self, List.drop_zero]
  | succ rounds ih =>
    rcases Nat.eq_or_lt_of_le within with all | more
    · refine .inl ⟨s, ?_, ?_, by omega⟩
      · rw [readBody_complete all, all, Nat.sub_self, List.take_zero, List.append_nil]
      · rw [all, Nat.sub_self, List.drop_zero]
    · rw [readBody, if_pos more]
      by_cases rest : s.rest = []
      · rw [read_nil rest]
        exact .inr ⟨rfl, by rw [rest]; exact more⟩
      · have asked : 1 ≤ n - body.length := by omega
        obtain ⟨k, s', read, left, least, most, inside⟩ := read_cons rest asked
        have longer : (body ++ s.rest.take k).length = body.length + k := by
          rw [List.length_append, List.length_take, Nat.min_eq_left inside]
        have remaining : s'.rest.length = s.rest.length - k := by rw [left, List.length_drop]
        have split : n - body.length = k + (n - (body.length + k)) := by omega
        rw [read]
        dsimp only
        rcases ih (body ++ s.rest.take k) s' (by omega) (by omega) with
          ⟨s'', whole, left', filled⟩ | ⟨fails, short⟩
        · refine .inl ⟨s'', ?_, ?_, by omega⟩
          · rw [whole, longer, left, split, List.take_add, List.append_assoc]
          · rw [left', longer, left, List.drop_drop, split]
        · exact .inr ⟨fails, by omega⟩

/-! What a stream holds. -/

def headersOf (head : Str) : Dict Str :=
  (fields head).foldl (fun headers p => headers.insert p.1 p.2) ∅

def contentLength (headers : Dict Str) : Option ℕ :=
  match headers.lookup (lit "content-length") with
  | none => some 0
  | some value => (stoul value).filter fun n => n ≤ maxBodySize

def splitTarget (target : Str) : Str × Str := (cut 0x3f target).getD (target, [])

def requestOf (head body : Str) : Request :=
  let target := splitTarget ((words (firstLine head)).getD 1 [])
  { method := (words (firstLine head)).getD 0 []
    path := target.1
    query := target.2
    headers := headersOf head
    body := body }

/-- The stream begins with a request with this head and a body of `n` bytes. -/
structure Accepts (stream head rest : Str) (n : ℕ) : Prop where
  whole : stream = head ++ rest
  ends : IsHead head
  short : head.length ≤ maxHeaderSize
  line : 3 ≤ (words (firstLine head)).length
  length : contentLength (headersOf head) = some n
  follows : n ≤ rest.length

theorem foldl_addHeader (lines : List Str) (headers : Dict Str) :
    lines.foldl addHeader headers =
      (lines.filterMap field).foldl (fun headers p => headers.insert p.1 p.2) headers := by
  induction lines generalizing headers with
  | nil => rfl
  | cons line lines ih =>
    rw [List.foldl_cons, ih, addHeader, List.filterMap_cons, field]
    cases cut 0x3a (popCr line) with
    | none => rfl
    | some p => rfl

theorem lookup_foldl_insert (fields : List (Str × Str)) (name : Str) :
    (fields.foldl (fun headers p => headers.insert p.1 p.2) (∅ : Dict Str)).lookup name =
      fields.reverse.lookup name := by
  induction fields using List.reverseRecOn with
  | nil => rfl
  | append_singleton fields p ih =>
    rw [List.foldl_append, List.foldl_cons, List.foldl_nil, List.reverse_append,
      List.reverse_singleton, List.singleton_append]
    by_cases same : name = p.1
    · subst same
      rw [AList.lookup_insert, List.lookup_cons, beq_self_eq_true]
    · rw [AList.lookup_insert_ne same, List.lookup_cons, beq_false_of_ne same]
      exact ih

theorem readContent_spec (headers : Dict Str) (s : Socket) :
    (∃ n s', contentLength headers = some n ∧ n ≤ s.rest.length ∧
      readContent headers s = (some (s.rest.take n), s') ∧ s'.rest = s.rest.drop n) ∨
    ((readContent headers s).1 = none ∧ ∀ n, contentLength headers = some n → s.rest.length < n) := by
  rw [readContent, contentLength]
  cases headers.lookup (lit "content-length") with
  | none => exact .inl ⟨0, s, rfl, Nat.zero_le _, rfl, rfl⟩
  | some value =>
    dsimp only
    cases stoul value with
    | none => exact .inr ⟨rfl, fun _ h => (nomatch h)⟩
    | some n =>
      by_cases big : maxBodySize < n
      · rw [Option.filter_some, if_neg (by simpa using big)]
        refine .inr ⟨?_, fun _ h => (nomatch h)⟩
        dsimp only
        rw [if_pos big]
      · rw [Option.filter_some, if_pos (by simpa using big)]
        dsimp only
        rw [if_neg big]
        rcases readBody_spec n n [] s (by simp) (Nat.zero_le n) with
          ⟨s', read, left, enough⟩ | ⟨fails, short⟩
        · exact .inl ⟨n, s', rfl, by simpa using enough, by simpa using read, by simpa using left⟩
        · refine .inr ⟨fails, fun m same => ?_⟩
          obtain rfl := Option.some.inj same
          simpa using short

/-- `read_request` takes the request that the stream begins with, however the stream is cut. -/
theorem readRequest_spec (s : Socket) :
    (∃ head rest n s', Accepts s.rest head rest n ∧
      readRequest s = (some (requestOf head (rest.take n)), s') ∧ s'.rest = rest.drop n) ∨
    ((readRequest s).1 = none ∧ ∀ head rest n, ¬ Accepts s.rest head rest n) := by
  have start : ∀ shorter, shorter <+: ([] : Str) → ¬ doubleCrlf <:+ shorter := fun shorter nothing =>
    by rw [List.prefix_nil.1 nothing]; decide
  rw [readRequest, readUntilDoubleCrlf]
  rcases readHead_spec maxHeaderSize [] s start with
    ⟨head, s', read, whole, ends, short⟩ | ⟨fails, long⟩
  · have unique : ∀ {head' rest n}, Accepts s.rest head' rest n → head' = head ∧ rest = s'.rest := by
      intro head' rest n accepts
      have same := head_unique ⟨rest, accepts.whole.symm⟩ ⟨s'.rest, whole⟩ accepts.ends ends
      refine ⟨same, ?_⟩
      have split := accepts.whole.symm.trans whole.symm
      rw [same] at split
      exact List.append_cancel_left split
    obtain ⟨first, stream, line⟩ : ∃ first stream, getline LF head = some (first, stream) := by
      cases head with
      | nil => exact absurd ends.1 (by decide)
      | cons b t => exact ⟨_, _, rfl⟩
    obtain ⟨rfl, lines⟩ := getline_fields line
    rw [read]
    dsimp only
    rw [line]
    dsimp only
    rw [requestLine_eq, words_popCr, foldl_addHeader, lines]
    -- a request line with fewer than three words is refused
    have refused : ∀ few, words (firstLine head) = few → few.length < 3 →
        ∀ head' rest n, ¬ Accepts s.rest head' rest n := by
      intro few parts short head' rest n accepts
      have three := accepts.line
      rw [(unique accepts).1, parts] at three
      exact absurd three (Nat.not_le_of_lt short)
    rcases parts : words (firstLine head) with _ | ⟨method, _ | ⟨target, _ | ⟨version, more⟩⟩⟩
    · exact .inr ⟨rfl, refused _ parts (by simp)⟩
    · exact .inr ⟨rfl, refused _ parts (by simp)⟩
    · exact .inr ⟨rfl, refused _ parts (by simp)⟩
    · dsimp only
      rcases readContent_spec (headersOf head) s' with
        ⟨n, s'', length, follows, content, left⟩ | ⟨fails, missing⟩
      · have accepts : Accepts s.rest head s'.rest n :=
          ⟨whole.symm, ends, by simpa using short, by rw [parts]; simp, length, follows⟩
        refine .inl ⟨head, s'.rest, n, s'', accepts, ?_, left⟩
        rw [headersOf] at content
        rw [content, requestOf, parts]
        rfl
      · rw [headersOf] at fails
        refine .inr ⟨?_, fun head' rest n accepts => ?_⟩
        · cases content : readContent
            ((fields head).foldl (fun headers p => headers.insert p.1 p.2) ∅) s' with
          | mk found s'' =>
            rw [content] at fails
            obtain rfl : found = none := fails
            rfl
        · obtain ⟨rfl, rfl⟩ := unique accepts
          exact absurd accepts.follows (Nat.not_le.2 (missing n accepts.length))
  · cases result : readHead maxHeaderSize [] s with
    | mk found s' =>
      rw [result] at fails
      obtain rfl : found = none := fails
      refine .inr ⟨rfl, fun head rest n accepts => ?_⟩
      have inside : head <+: [] ++ s.rest := ⟨rest, accepts.whole.symm⟩
      have over_ := long head inside accepts.ends
      have within := accepts.short
      simp only [List.length_nil] at over_
      omega

theorem cut_none {mark : UInt8} {s : Str} (h : cut mark s = none) : mark ∉ s := by
  rw [cut] at h
  split at h
  · rename_i all
    intro mem
    have passes := List.dropWhile_eq_nil_iff.1 all mark mem
    simp at passes
  · cases h

theorem cut_some {mark : UInt8} {s before after : Str} (h : cut mark s = some (before, after)) :
    s = before ++ mark :: after ∧ mark ∉ before := by
  rw [cut] at h
  split at h
  · cases h
  · rename_i b rest found
    obtain ⟨rfl, rfl⟩ := Prod.mk.inj (Option.some.inj h)
    have here : b = mark := by
      have head := List.head?_dropWhile_not (· != mark) s
      rw [found] at head
      simpa using head
    refine ⟨?_, fun mem => ?_⟩
    · conv_lhs => rw [← List.takeWhile_append_dropWhile (p := (· != mark)) (l := s)]
      rw [found, here]
    · have passes := List.mem_takeWhile_imp mem
      simp at passes

/-- The target is split at its first question mark. -/
theorem splitTarget_spec (target : Str) : 0x3f ∉ (splitTarget target).1 ∧
    (target = (splitTarget target).1 ∧ (splitTarget target).2 = [] ∨
      target = (splitTarget target).1 ++ 0x3f :: (splitTarget target).2) := by
  rw [splitTarget]
  cases parts : cut 0x3f target with
  | none => exact ⟨cut_none parts, .inl ⟨rfl, rfl⟩⟩
  | some p =>
    obtain ⟨before, after⟩ := p
    obtain ⟨whole, first⟩ := cut_some parts
    exact ⟨first, .inr whole⟩

structure Describes (head : Str) (request : Request) : Prop where
  line : ∃ target version more,
    words (firstLine head) = request.method :: target :: version :: more ∧
    0x3f ∉ request.path ∧ (target = request.path ∧ request.query = [] ∨
      target = request.path ++ 0x3f :: request.query)
  headers : ∀ name, request.headers.lookup name = (fields head).reverse.lookup name

theorem describes_requestOf {head : Str} (h : 3 ≤ (words (firstLine head)).length) (body : Str) :
    Describes head (requestOf head body) where
  line := by
    rcases parts : words (firstLine head) with _ | ⟨method, _ | ⟨target, _ | ⟨version, more⟩⟩⟩
    · rw [parts] at h
      exact absurd h (by simp)
    · rw [parts] at h
      exact absurd h (by simp)
    · rw [parts] at h
      exact absurd h (by simp)
    · rw [requestOf, parts]
      exact ⟨target, version, more, rfl, splitTarget_spec target⟩
  headers name := lookup_foldl_insert (fields head) name

theorem accepts_unique {stream head head' rest rest' : Str} {n n' : ℕ}
    (h : Accepts stream head rest n) (h' : Accepts stream head' rest' n') :
    head' = head ∧ rest' = rest ∧ n' = n := by
  obtain rfl := head_unique ⟨rest, h.whole.symm⟩ ⟨rest', h'.whole.symm⟩ h.ends h'.ends
  exact ⟨rfl, List.append_cancel_left (h'.whole.symm.trans h.whole),
    Option.some.inj (h'.length.symm.trans h.length)⟩

/-- A request is read exactly if the stream begins with one; it says what its head says, its body is
the next `n` bytes, nothing else is consumed, and all this does not depend on how `read` cuts the
stream. -/
theorem readRequest_framing (s : Socket) :
    ((readRequest s).1.isSome ↔ ∃ head rest n, Accepts s.rest head rest n) ∧
    (∀ request s', readRequest s = (some request, s') → ∃ head rest n, Accepts s.rest head rest n ∧
      Describes head request ∧ request.body = rest.take n ∧ request.body.length = n ∧
      s.rest = head ++ request.body ++ s'.rest) ∧
    ∀ s₂ : Socket, s₂.rest = s.rest → (readRequest s₂).1 = (readRequest s).1 ∧
      ((readRequest s).1.isSome → (readRequest s₂).2.rest = (readRequest s).2.rest) := by
  rcases readRequest_spec s with ⟨head, rest, n, s', accepts, read, left⟩ | ⟨fails, none⟩
  · rw [read]
    refine ⟨⟨fun _ => ⟨head, rest, n, accepts⟩, fun _ => rfl⟩, fun request s₁ same => ?_,
      fun s₂ same => ?_⟩
    · obtain ⟨rfl, rfl⟩ : requestOf head (rest.take n) = request ∧ s' = s₁ := by simpa using same
      refine ⟨head, rest, n, accepts, describes_requestOf accepts.line _, rfl, ?_, ?_⟩
      · exact (List.length_take ..).trans (Nat.min_eq_left accepts.follows)
      · rw [left, accepts.whole, List.append_assoc]
        exact congrArg (head ++ ·) (List.take_append_drop n rest).symm
    · rcases readRequest_spec s₂ with ⟨head', rest', n', s₂', accepts', read', left'⟩ | ⟨-, none⟩
      · obtain ⟨rfl, rfl, rfl⟩ := accepts_unique accepts (same ▸ accepts')
        rw [read', left', left]
        exact ⟨rfl, fun _ => rfl⟩
      · exact absurd (same ▸ accepts) (none head rest n)
  · rw [fails]
    refine ⟨⟨fun some => (nomatch some), fun ⟨head, rest, n, accepts⟩ =>
      absurd accepts (none head rest n)⟩, fun request s' same => ?_, fun s₂ same => ?_⟩
    · rw [same] at fails
      cases fails
    · rcases readRequest_spec s₂ with ⟨head, rest, n, s₂', accepts, -, -⟩ | ⟨fails', -⟩
      · exact absurd (same ▸ accepts) (none head rest n)
      · exact ⟨fails', fun some => (nomatch some)⟩

/-! What counts as a content length. -/

/-- How `stoul` takes a value apart. -/
structure Numeral (value spaces sign digits tail : Str) : Prop where
  whole : value = spaces ++ (sign ++ (digits ++ tail))
  blank : ∀ b ∈ spaces, isSpace b = true
  signed : sign = [] ∨ sign = [0x2b] ∨ sign = [0x2d]
  some_digits : digits ≠ []
  all_digits : ∀ b ∈ digits, isDigit b = true
  ends : ∀ b, tail.head? = some b → isDigit b = false
  fits : decimal digits < 2 ^ 64

def numeralValue (sign digits : Str) : ℕ :=
  if sign = [0x2d] then (2 ^ 64 - decimal digits) % 2 ^ 64 else decimal digits

theorem numeral_stoul {value : Str} {n : ℕ} (h : stoul value = some n) :
    ∃ spaces sign digits tail, Numeral value spaces sign digits tail ∧
      numeralValue sign digits = n := by
  have blank : ∀ b ∈ value.takeWhile isSpace, isSpace b = true := fun b => List.mem_takeWhile_imp
  have whole : value.takeWhile isSpace ++ value.dropWhile isSpace = value :=
    List.takeWhile_append_dropWhile
  rw [stoul] at h
  generalize value.takeWhile isSpace = spaces at blank whole
  generalize value.dropWhile isSpace = after at h whole
  obtain ⟨sign, number, split, signed, minus, taken⟩ : ∃ sign number, after = sign ++ number ∧
      (sign = [] ∨ sign = [0x2b] ∨ sign = [0x2d]) ∧ (sign = [0x2d] ↔ after.head? = some 0x2d) ∧
      (if after.head? = some 0x2d ∨ after.head? = some 0x2b then after.drop 1 else after) =
        number := by
    cases after with
    | nil => exact ⟨[], [], rfl, .inl rfl, by simp, rfl⟩
    | cons b rest =>
      by_cases minus : b = 0x2d
      · exact ⟨[b], rest, rfl, by simp [minus], by simp [minus], by simp [minus]⟩
      · by_cases plus : b = 0x2b
        · exact ⟨[b], rest, rfl, by simp [plus], by simp [plus], by simp [plus]⟩
        · exact ⟨[], b :: rest, rfl, .inl rfl, by simp [minus], by simp [minus, plus]⟩
  rw [taken] at h
  have digits : ∀ b ∈ number.takeWhile isDigit, isDigit b = true := fun b => List.mem_takeWhile_imp
  have rest : ∀ b, (number.dropWhile isDigit).head? = some b → isDigit b = false := fun b head => by
    have first := List.head?_dropWhile_not isDigit number
    rw [head] at first
    simpa using first
  split at h
  · cases h
  rename_i some_digits
  split at h
  · cases h
  rename_i fits
  refine ⟨spaces, sign, number.takeWhile isDigit, number.dropWhile isDigit,
    ⟨?_, blank, signed, some_digits, digits, rest, Nat.not_le.1 fits⟩, ?_⟩
  · rw [List.takeWhile_append_dropWhile, ← split, whole]
  · rw [numeralValue]
    by_cases neg : after.head? = some 0x2d
    · rw [if_pos neg] at h
      rw [if_pos (minus.2 neg)]
      exact Option.some.inj h
    · rw [if_neg neg] at h
      rw [if_neg (fun same => neg (minus.1 same))]
      exact Option.some.inj h

theorem not_isDigit_of_isSpace {b : UInt8} (h : isSpace b = true) : isDigit b = false := by
  simp only [isSpace, Bool.or_eq_true, Bool.and_eq_true, beq_iff_eq,
    decide_eq_true_eq] at h
  rcases h with rfl | ⟨-, small⟩
  · rfl
  · have least : ¬ (0x30 : UInt8) ≤ b := fun large => absurd (UInt8.le_trans large small) (by decide)
    simp [isDigit, least]

/-- A value that consists of digits is read as the number it denotes. -/
theorem Numeral.plain {value spaces sign digits tail : Str}
    (h : Numeral value spaces sign digits tail) (plain : ∀ b ∈ value, isDigit b = true) :
    spaces = [] ∧ sign = [] ∧ tail = [] := by
  have no : ∀ b ∈ value, isDigit b = false → False := fun b mem odd => by
    rw [plain b mem] at odd
    cases odd
  refine ⟨?_, ?_, ?_⟩
  · refine List.eq_nil_iff_forall_not_mem.2 fun b mem => ?_
    exact no b (by simp [h.whole, mem]) (not_isDigit_of_isSpace (h.blank b mem))
  · rcases h.signed with none | plus | minus
    · exact none
    · exact (no 0x2b (by simp [h.whole, plus]) rfl).elim
    · exact (no 0x2d (by simp [h.whole, minus]) rfl).elim
  · cases last : tail with
    | nil => rfl
    | cons b rest => exact (no b (by simp [h.whole, last]) (h.ends b (by rw [last]; rfl))).elim

/-- A request that is read and has a content length has one in decimal digits, of at most 8 MiB, and
a body of that length. -/
def LengthIsNumber (s : Socket) : Prop :=
  ∀ request s' value, readRequest s = (some request, s') →
    request.headers.lookup (lit "content-length") = some value →
    value ≠ [] ∧ (∀ b ∈ value, isDigit b = true) ∧ decimal value ≤ maxBodySize ∧
      request.body.length = decimal value

/-- The content length is digits with something around them that `stoul` passes over. -/
def Lax (value : Str) (n : ℕ) : Prop :=
  ∃ spaces sign digits tail, Numeral value spaces sign digits tail ∧
    numeralValue sign digits = n ∧ ¬ (spaces = [] ∧ sign = [] ∧ tail = [])

theorem lengthIsNumber_iff (s : Socket) : LengthIsNumber s ↔
    ∀ head rest n value, Accepts s.rest head rest n →
      (headersOf head).lookup (lit "content-length") = some value → ¬ Lax value n := by
  constructor
  · intro number head rest n value accepts found ⟨spaces, sign, digits, tail, numeral, _, extra⟩
    rcases readRequest_spec s with ⟨head', rest', n', s', accepts', read, -⟩ | ⟨-, none⟩
    · obtain ⟨rfl, rfl, rfl⟩ := accepts_unique accepts accepts'
      have plain := (number _ s' value read found).2.1
      exact extra (numeral.plain plain)
    · exact none head rest n accepts
  · intro strict request s' value read found
    rcases readRequest_spec s with ⟨head, rest, n, s₁, accepts, read', -⟩ | ⟨fails, -⟩
    · rw [read'] at read
      obtain ⟨rfl, rfl⟩ : requestOf head (rest.take n) = request ∧ s₁ = s' := by simpa using read
      have found : (headersOf head).lookup (lit "content-length") = some value := found
      have length := accepts.length
      rw [contentLength, found] at length
      obtain ⟨converts, bound⟩ := Option.filter_eq_some_iff.1 length
      obtain ⟨spaces, sign, digits, tail, numeral, same⟩ := numeral_stoul converts
      have bare : spaces = [] ∧ sign = [] ∧ tail = [] := by
        by_contra extra
        exact strict head rest n value accepts found ⟨_, _, _, _, numeral, same, extra⟩
      obtain ⟨rfl, rfl, rfl⟩ := bare
      have whole : value = digits := by simpa using numeral.whole
      subst whole
      have same : decimal value = n := same
      refine ⟨numeral.some_digits, numeral.all_digits, ?_, ?_⟩
      · rw [same]
        simpa using bound
      · rw [same]
        exact (List.length_take ..).trans (Nat.min_eq_left accepts.follows)
    · rw [read] at fails
      cases fails

/-- `-18446744073709551615` is taken for 1. -/
theorem negative_length : ¬ LengthIsNumber
    { rest := lit "POST / HTTP/1.1\r\nContent-Length: -18446744073709551615\r\n\r\nx"
      sizes := fun _ => 1
      reads := 0 } := by
  intro number
  have read : (readRequest
      { rest := lit "POST / HTTP/1.1\r\nContent-Length: -18446744073709551615\r\n\r\nx"
        sizes := fun _ => 1
        reads := 0 }).1.bind (·.headers.lookup (lit "content-length")) =
      some (lit "-18446744073709551615") := by decide +kernel
  obtain ⟨request, reads, found⟩ := Option.bind_eq_some_iff.1 read
  have digits := (number request _ _ (Prod.ext reads rfl) found).2.1
  exact absurd (digits 0x2d (by decide)) (by decide)

end Blueboat.Http
