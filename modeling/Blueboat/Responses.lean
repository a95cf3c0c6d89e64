import Blueboat.Admin
import Blueboat.Handshake
import Blueboat.Headers
import Blueboat.JsonText

set_option autoImplicit false

/-! `write_response` of `http.cpp`, and what the other end makes of the bytes. -/
namespace Blueboat.Responses

open Http Handshake
open Admin (Response)

/-- What a socket has taken, and what each call of `write` returns. `failed` is not in the source: a
call has returned 0 or less. -/
structure Sink where
  written : Str
  results : ℕ → ℤ
  writes : ℕ
  failed : Bool

def Sink.fresh (results : ℕ → ℤ) : Sink := ⟨[], results, 0, false⟩

/-- `write` takes no more than it is given. -/
def Sink.write (s : Sink) (data : Str) : Option ℕ × Sink :=
  let n := s.results s.writes
  if n ≤ 0 then (none, { s with writes := s.writes + 1, failed := true })
  else
    let n := min n.toNat data.length
    (some n, { s with written := s.written ++ data.take n, writes := s.writes + 1 })

/-- The loop of `write_response`; every `write` takes at least one byte, so `data.size()` rounds do. -/
def writeAll : ℕ → Str → Sink → Sink
  | 0, _, s => s
  | rounds + 1, data, s =>
    if data = [] then s
    else
      match s.write data with
      | (none, s) => s
      | (some n, s) => writeAll rounds (data.drop n) s

def responseText (r : Response) : Str :=
  lit "HTTP/1.1 " ++ Text.natural r.status ++ lit " " ++ r.statusText ++ lit "\r\n" ++
    (lit "Content-Type: " ++ r.contentType ++ lit "\r\n") ++
    (lit "Content-Length: " ++ Text.natural r.body.length ++ lit "\r\n") ++
    lit "Connection: close\r\n" ++
    (r.extraHeaders.flatMap fun h => h.1 ++ lit ": " ++ h.2 ++ lit "\r\n") ++
    (lit "\r\n" ++ r.body)

def writeResponse (s : Sink) (r : Response) : Sink :=
  writeAll (responseText r).length (responseText r) s

def badRequest : Response :=
  ⟨400, lit "Bad Request", lit "text/plain", lit "Expected a WebSocket upgrade request", []⟩

def answer (J : JsonText) (s : Admin.Surroundings) (admins : Dict Str) (w : World) :
    Outcome → Option (Except Exn Response)
  | .closed => none
  | .admin r => some (Admin.handleAdminRequest J s admins w r).2
  | .badRequest => some (.ok badRequest)
  | .upgraded .. => none

/-- A peer that reads the head as `read_request` does and then as much as the content length says: the
status line, the headers and the body. -/
def readResponse (s : Socket) : Option (Str × Dict Str × Str) :=
  match readUntilDoubleCrlf s with
  | (none, _) => none
  | (some raw, s) =>
    match ((headersOf raw).lookup (lit "content-length")).bind stoul with
    | none => none
    | some n => (readBody n n [] s).1.map fun body => (popCr (firstLine raw), headersOf raw, body)

/-! The bytes that go out. -/

theorem writeAll_spec (rounds : ℕ) (data : Str) (s : Sink) (enough : data.length ≤ rounds)
    (fine : s.failed = false) :
    ∃ k, k ≤ data.length ∧ (writeAll rounds data s).written = s.written ++ data.take k ∧
      ((writeAll rounds data s).failed = true ↔ k < data.length) := by
  induction rounds generalizing data s with
  | zero =>
    have none : data = [] := List.length_eq_zero_iff.1 (Nat.le_zero.1 enough)
    subst none
    refine ⟨0, Nat.le_refl 0, (List.append_nil _).symm, ?_⟩
    rw [writeAll, fine]
    simp
  | succ rounds ih =>
    rw [writeAll]
    by_cases none : data = []
    · subst none
      rw [if_pos rfl]
      refine ⟨0, Nat.le_refl 0, (List.append_nil _).symm, ?_⟩
      rw [fine]
      simp
    · have some := List.length_pos_of_ne_nil none
      rw [if_neg none, Sink.write]
      by_cases refused : s.results s.writes ≤ 0
      · rw [if_pos refused]
        refine ⟨0, Nat.zero_le _, (List.append_nil _).symm, ?_⟩
        exact ⟨fun _ => some, fun _ => rfl⟩
      · rw [if_neg refused]
        dsimp only
        generalize taken : min (s.results s.writes).toNat data.length = n
        have least : 1 ≤ n := by omega
        have most : n ≤ data.length := by omega
        have left : (data.drop n).length = data.length - n := List.length_drop
        obtain ⟨k, inside, written, failed⟩ := ih (data.drop n)
          { s with written := s.written ++ data.take n, writes := s.writes + 1 } (by omega) fine
        refine ⟨n + k, by omega, ?_, failed.trans (by omega)⟩
        rw [written, List.append_assoc, ← List.take_add]

/-! The text, line by line. -/

def statusLine (r : Response) : Str :=
  lit "HTTP/1.1 " ++ Text.natural r.status ++ lit " " ++ r.statusText

def responseFields (r : Response) : List (Str × Str) :=
  [(lit "content-type", r.contentType), (lit "content-length", Text.natural r.body.length),
    (lit "connection", lit "close")] ++ r.extraHeaders.map fun h => (toLower h.1, h.2)

def fieldLine (h : Str × Str) : Str := h.1 ++ lit ": " ++ h.2

def fieldLines (r : Response) : List Str :=
  [lit "Content-Type: " ++ r.contentType, lit "Content-Length: " ++ Text.natural r.body.length,
    lit "Connection: close"] ++ r.extraHeaders.map fieldLine

def headText (r : Response) : Str := head (statusLine r :: fieldLines r)

theorem responseText_eq (r : Response) : responseText r = headText r ++ r.body := by
  have crlf : lit "\r\n" = [CR, LF] := by decide
  have close : lit "Connection: close\r\n" = lit "Connection: close" ++ [CR, LF] := by
    simp [lit, CR, LF]
  have extra : (r.extraHeaders.flatMap fun h => h.1 ++ lit ": " ++ h.2 ++ [CR, LF]) =
      (r.extraHeaders.map fieldLine).flatMap fun line => line ++ [CR, LF] := by
    rw [List.flatMap_map]
    rfl
  rw [responseText, close, crlf, extra, headText, statusLine, fieldLines, List.cons_append,
    List.cons_append, List.cons_append, List.nil_append]
  simp only [head, List.flatMap_cons, List.append_assoc, List.cons_append, List.nil_append]

/-- A value that is read as it is written. -/
structure Legible (value : Str) : Prop where
  some : value ≠ []
  oneLine : OneLine value
  trimmed : Trimmed value
  short : value.length ≤ 1000

structure LegibleField (h : Str × Str) : Prop where
  name : 0x3a ∉ h.1
  oneLine : OneLine h.1
  value : Legible h.2

structure Sendable (r : Response) : Prop where
  status : r.status < 1000
  statusText : OneLine r.statusText
  contentType : Legible r.contentType
  extra : ∀ h ∈ r.extraHeaders, LegibleField h ∧ toLower h.1 ≠ lit "content-length"
  short : (headText r).length ≤ maxHeaderSize
  body : r.body.length < 2 ^ 64

/-! Numbers. -/

theorem decimal_concat (s : Str) (b : UInt8) :
    decimal (s ++ [b]) = 10 * decimal s + (b.toNat - 0x30) := by
  rw [decimal, decimal, List.foldl_append]
  rfl

theorem digit_of_lt {d : ℕ} (h : d < 10) :
    isDigit (UInt8.ofNat (48 + d)) = true ∧ (UInt8.ofNat (48 + d)).toNat - 0x30 = d := by
  revert d
  decide

theorem decimal_decimal (fuel : ℕ) {n : ℕ} (h : n < 10 ^ fuel) :
    decimal (Text.decimal fuel n) = n := by
  induction fuel generalizing n with
  | zero =>
    obtain rfl : n = 0 := by simpa using h
    rfl
  | succ fuel ih =>
    rw [Text.decimal]
    split
    · rename_i small
      have digit := (digit_of_lt small).2
      rw [← List.nil_append [UInt8.ofNat (48 + n)], decimal_concat, digit]
      exact Nat.zero_add n
    · have fewer : n / 10 < 10 ^ fuel := by
        apply Nat.div_lt_of_lt_mul
        rw [Nat.pow_succ] at h
        omega
      rw [decimal_concat, ih fewer, (digit_of_lt (Nat.mod_lt n (by decide))).2]
      omega

theorem digits_decimal (fuel n : ℕ) : ∀ b ∈ Text.decimal fuel n, isDigit b = true := by
  induction fuel generalizing n with
  | zero => exact fun b mem => absurd mem List.not_mem_nil
  | succ fuel ih =>
    intro b mem
    rw [Text.decimal] at mem
    split at mem
    · rename_i small
      rw [List.mem_singleton.1 mem]
      exact (digit_of_lt small).1
    · rcases List.mem_append.1 mem with mem | mem
      · exact ih _ b mem
      · rw [List.mem_singleton.1 mem]
        exact (digit_of_lt (Nat.mod_lt n (by decide))).1

theorem length_decimal (fuel n : ℕ) : (Text.decimal fuel n).length ≤ fuel := by
  induction fuel generalizing n with
  | zero => exact Nat.le_refl 0
  | succ fuel ih =>
    rw [Text.decimal]
    split
    · exact Nat.succ_le_succ (Nat.zero_le _)
    · rw [List.length_append]
      exact Nat.succ_le_succ (ih _)

theorem natural_ne_nil (n : ℕ) : Text.natural n ≠ [] := by
  obtain ⟨d, ds, cons, -⟩ := Text.decimal_head 19 n
  rw [Text.natural, cons]
  exact List.cons_ne_nil _ _

theorem not_mem_trailing {b : UInt8} (digit : isDigit b = true) : b ∉ trailing := by
  intro mem
  simp only [trailing, List.mem_cons, List.not_mem_nil, or_false] at mem
  rcases mem with rfl | rfl | rfl | rfl <;> cases digit

theorem legible_natural (n : ℕ) : Legible (Text.natural n) where
  some := natural_ne_nil n
  oneLine := by
    have no : ∀ b ∈ trailing, b ∉ Text.natural n := fun b mem inside =>
      not_mem_trailing (digits_decimal 20 n b inside) mem
    exact ⟨no CR (by decide), no LF (by decide)⟩
  trimmed := by
    refine ⟨fun b first blank => ?_, fun b last => ?_⟩
    · exact not_mem_trailing (digits_decimal 20 n b (List.mem_of_mem_head? first))
        (mem_trailing blank)
    · exact not_mem_trailing (digits_decimal 20 n b (List.mem_of_getLast? last))
  short := (length_decimal 20 n).trans (by decide)

/-- The length that is written is the one that is read. -/
theorem stoul_natural {n : ℕ} (h : n < 2 ^ 64) : stoul (Text.natural n) = some n := by
  have digits : ∀ b ∈ Text.natural n, isDigit b = true := digits_decimal 20 n
  have value : decimal (Text.natural n) = n := decimal_decimal 20 (by omega)
  obtain ⟨b, rest, text⟩ := List.exists_cons_of_ne_nil (natural_ne_nil n)
  rw [text] at digits value ⊢
  have first : isDigit b = true := digits b (.head _)
  have plain : isSpace b = false := by
    cases space : isSpace b with
    | false => rfl
    | true =>
      rw [not_isDigit_of_isSpace space] at first
      cases first
  have minus : b ≠ 0x2d := by
    rintro rfl
    cases first
  have plus : b ≠ 0x2b := by
    rintro rfl
    cases first
  have all : (b :: rest).takeWhile isDigit = b :: rest := List.takeWhile_eq_self_iff.2 digits
  rw [stoul, List.dropWhile_cons_of_neg (by simp [plain])]
  simp only [List.head?_cons, Option.some.injEq, minus, plus, or_self, if_false, all, value,
    reduceCtorEq, Nat.not_le.2 h]

/-! What is read of the head. -/

theorem trim_trimmed {value : Str} (h : Legible value) : trim (0x20 :: value) = value := by
  have blank : (0x20 : UInt8) ∈ blanks := by decide
  have short : (0x20 :: value).length < npos := by
    have length := h.short
    rw [List.length_cons, npos]
    omega
  obtain ⟨before, last, rfl⟩ := (List.eq_nil_or_concat' value).resolve_left h.some
  have kept : last ∉ trailing := h.trimmed.back last (by simp)
  have other : ¬ LineEndsOnly (0x20 :: (before ++ [last])) := fun only =>
    kept (only.all last (by simp))
  have front : (before ++ [last]).dropWhile (· ∈ blanks) = before ++ [last] := by
    cases before with
    | nil => exact List.dropWhile_cons_of_neg (by simpa using h.trimmed.front last rfl)
    | cons b before => exact List.dropWhile_cons_of_neg (by simpa using h.trimmed.front b rfl)
  rw [(trim_spec short).2 other, stripped, List.dropWhile_cons_of_pos (by simpa using blank), front,
    List.rdropWhile_concat_neg _ _ _ (by simpa using kept)]

theorem oneLine_fieldLine {h : Str × Str} (legible : LegibleField h) : OneLine (fieldLine h) :=
  (legible.oneLine.append ⟨by decide, by decide⟩).append legible.value.oneLine

theorem field_fieldLine {h : Str × Str} (legible : LegibleField h) :
    field (fieldLine h) = some (toLower h.1, h.2) := by
  have mark : h.1 ++ lit ": " = h.1 ++ [0x3a, 0x20] := by simp [lit]
  rw [fieldLine, field_header mark rfl legible.name (oneLine_fieldLine legible),
    trim_trimmed legible.value]

theorem legible_of_ends {value : Str} {first last : UInt8} (oneLine : OneLine value)
    (starts : value.head? = some first) (stops : value.getLast? = some last) (front : first ∉ blanks)
    (back : last ∉ trailing) (short : value.length ≤ 1000) : Legible value := by
  refine ⟨?_, oneLine, ⟨fun b here => ?_, fun b here => ?_⟩, short⟩
  · rintro rfl
    cases starts
  · obtain rfl := Option.some.inj (starts.symm.trans here)
    exact front
  · obtain rfl := Option.some.inj (stops.symm.trans here)
    exact back

theorem legible_close : Legible (lit "close") :=
  legible_of_ends ⟨by decide, by decide⟩ rfl rfl (by decide) (by decide) (by decide)

def allHeaders (r : Response) : List (Str × Str) :=
  [(lit "Content-Type", r.contentType), (lit "Content-Length", Text.natural r.body.length),
    (lit "Connection", lit "close")] ++ r.extraHeaders

theorem fieldLines_eq (r : Response) : fieldLines r = (allHeaders r).map fieldLine := by
  have type : lit "Content-Type" ++ lit ": " = lit "Content-Type: " := by decide
  have length : lit "Content-Length" ++ lit ": " = lit "Content-Length: " := by decide
  have close : lit "Connection" ++ lit ": " ++ lit "close" = lit "Connection: close" := by decide
  rw [fieldLines, allHeaders, List.map_append, List.map_cons, List.map_cons, List.map_cons,
    List.map_nil, fieldLine, fieldLine, fieldLine, type, length, close]

theorem Sendable.headers {r : Response} (h : Sendable r) : ∀ f ∈ allHeaders r, LegibleField f := by
  intro f mem
  rcases List.mem_append.1 mem with mem | mem
  · simp only [List.mem_cons, List.not_mem_nil, or_false] at mem
    have names : ∀ name ∈ [lit "Content-Type", lit "Content-Length", lit "Connection"],
        0x3a ∉ name ∧ CR ∉ name ∧ LF ∉ name := by decide
    rcases mem with rfl | rfl | rfl
    · obtain ⟨colon, oneLine⟩ := names (lit "Content-Type") (by simp)
      exact ⟨colon, oneLine, h.contentType⟩
    · obtain ⟨colon, oneLine⟩ := names (lit "Content-Length") (by simp)
      exact ⟨colon, oneLine, legible_natural _⟩
    · obtain ⟨colon, oneLine⟩ := names (lit "Connection") (by simp)
      exact ⟨colon, oneLine, legible_close⟩
  · exact (h.extra f mem).1

theorem Sendable.lines {r : Response} (h : Sendable r) :
    ∀ line ∈ statusLine r :: fieldLines r, OneLine line ∧ line ≠ [] := by
  intro line mem
  rcases List.mem_cons.1 mem with rfl | mem
  · refine ⟨?_, by simp [statusLine, lit]⟩
    have start : OneLine (lit "HTTP/1.1 ") := ⟨by decide, by decide⟩
    have blank : OneLine (lit " ") := ⟨by decide, by decide⟩
    exact ((start.append (legible_natural _).oneLine).append blank).append h.statusText
  · rw [fieldLines_eq] at mem
    obtain ⟨f, listed, rfl⟩ := List.mem_map.1 mem
    refine ⟨oneLine_fieldLine (h.headers f listed), ?_⟩
    simp [fieldLine, lit]

theorem Sendable.isHead {r : Response} (h : Sendable r) : IsHead (headText r) :=
  isHead_head (List.cons_ne_nil _ _) h.lines

theorem fields_headText {r : Response} (h : Sendable r) : fields (headText r) = responseFields r := by
  have lines := h.lines
  have names : responseFields r = (allHeaders r).map fun f => (toLower f.1, f.2) := by
    have type : toLower (lit "Content-Type") = lit "content-type" := by decide
    have length : toLower (lit "Content-Length") = lit "content-length" := by decide
    have close : toLower (lit "Connection") = lit "connection" := by decide
    rw [responseFields, allHeaders, List.map_append, List.map_cons, List.map_cons, List.map_cons,
      List.map_nil, type, length, close]
  rw [headText, fields_head (lines _ (.head _)).1 fun line mem => (lines line (.tail _ mem)).1,
    fieldLines_eq, names, List.filterMap_map]
  refine List.filterMap_eq_map_iff_forall_eq_some.2 fun f mem => ?_
  exact field_fieldLine (h.headers f mem)

theorem headersOf_headText {r : Response} (h : Sendable r) : headersOf (headText r) =
    (responseFields r).foldl (fun headers p => headers.insert p.1 p.2) ∅ := by
  rw [headersOf, fields_headText h]

theorem lookup_append {l l' : List (Str × Str)} {name : Str} (none : ∀ p ∈ l, p.1 ≠ name) :
    (l ++ l').lookup name = l'.lookup name := by
  induction l with
  | nil => rfl
  | cons p l ih =>
    rw [List.cons_append, List.lookup_cons, beq_false_of_ne (none p (.head _)).symm]
    exact ih fun q mem => none q (.tail _ mem)

/-- No other header stands for the length. -/
theorem length_headText {r : Response} (h : Sendable r) :
    (headersOf (headText r)).lookup (lit "content-length") = some (Text.natural r.body.length) := by
  have others : ∀ p ∈ (r.extraHeaders.map fun h => (toLower h.1, h.2)).reverse,
      p.1 ≠ lit "content-length" := by
    intro p mem
    obtain ⟨f, listed, rfl⟩ := List.mem_map.1 (List.mem_reverse.1 mem)
    exact (h.extra f listed).2
  rw [headersOf, lookup_foldl_insert, fields_headText h, responseFields, List.reverse_append,
    lookup_append others]
  rfl

/-- What a peer makes of a text that is cut off somewhere: the whole response or nothing. -/
theorem readResponse_spec {r : Response} (h : Sendable r) {k : ℕ} (inside : k ≤ (responseText r).length)
    (sizes : ℕ → ℕ) (reads : ℕ) :
    readResponse { rest := (responseText r).take k, sizes, reads } =
      if k < (responseText r).length then none
      else some (statusLine r, (responseFields r).foldl (fun headers p => headers.insert p.1 p.2) ∅,
        r.body) := by
  have text := responseText_eq r
  have length : (responseText r).length = (headText r).length + r.body.length := by
    rw [text, List.length_append]
  generalize here : ({ rest := (responseText r).take k, sizes, reads } : Socket) = s
  have stream : s.rest = (responseText r).take k := by rw [← here]
  have start : ∀ shorter, shorter <+: ([] : Str) → ¬ doubleCrlf <:+ shorter := fun shorter nothing =>
    by rw [List.prefix_nil.1 nothing]; decide
  have cutOff : s.rest <+: responseText r := stream ▸ List.take_prefix _ _
  have whole : headText r <+: responseText r := text ▸ List.prefix_append _ _
  rw [readResponse, readUntilDoubleCrlf]
  rcases readHead_spec maxHeaderSize [] s start with ⟨raw, s', read, split, ends, -⟩ | ⟨fails, long⟩
  · rw [List.nil_append] at split
    have begins : raw <+: s.rest := ⟨s'.rest, split⟩
    obtain rfl : raw = headText r := head_unique (begins.trans cutOff) whole ends h.isHead
    have longer : (headText r).length ≤ k := by
      have lengths := begins.length_le
      rw [stream, List.length_take] at lengths
      omega
    have rest : s'.rest = r.body.take (k - (headText r).length) := by
      have both := split.trans stream
      rw [text, List.take_append, List.take_of_length_le longer] at both
      exact List.append_cancel_left both
    rw [read]
    dsimp only
    rw [length_headText h, Option.bind_some, stoul_natural h.body]
    dsimp only
    have left : s'.rest.length = k - (headText r).length := by
      rw [rest, List.length_take]
      omega
    rcases readBody_spec r.body.length r.body.length [] s' (by simp) (Nat.zero_le _) with
      ⟨s'', body, -, enough⟩ | ⟨fails, short⟩
    · have all : k = (responseText r).length := by
        rw [List.length_nil] at enough
        omega
      have same : s'.rest = r.body := by
        rw [rest, List.take_of_length_le (by omega)]
      rw [body, if_neg (by omega), headersOf_headText h, headText,
        firstLine_head (h.lines _ (.head _)).1, popCr_append, same]
      simp
    · rw [fails, if_pos]
      · rfl
      · rw [List.length_nil, left] at short
        omega
  · have cut : k < (responseText r).length := by
      by_contra complete
      rw [List.take_of_length_le (Nat.not_lt.1 complete)] at stream
      have over_ := long (headText r) (by rw [List.nil_append, stream]; exact whole) h.isHead
      have short := h.short
      rw [List.length_nil] at over_
      omega
    rw [if_pos cut]
    cases result : readHead maxHeaderSize [] s with
    | mk found s' =>
      rw [result] at fails
      obtain rfl : found = none := fails
      rfl

/-! The responses of the server. -/

structure Standard (r : Response) : Prop where
  status : (r.status, r.statusText) ∈ [(200, lit "OK"), (400, lit "Bad Request"),
    (401, lit "Unauthorized"), (404, lit "Not Found"), (500, lit "Internal Server Error")]
  contentType : r.contentType ∈ [lit "application/json", lit "text/plain"]
  extra : r.extraHeaders ∈
    [[], [(lit "WWW-Authenticate", lit "Basic realm=\"blueboat\"")]]

theorem length_head (lines : List Str) :
    (head lines).length = (lines.map fun line => line.length + 2).sum + 2 := by
  induction lines with
  | nil => rfl
  | cons line lines ih =>
    rw [head_cons, List.length_append, List.length_cons, List.length_cons, ih, List.map_cons,
      List.sum_cons]
    omega

theorem Standard.legible {r : Response} (h : Standard r) : Legible r.contentType := by
  have type := h.contentType
  simp only [List.mem_cons, List.not_mem_nil, or_false] at type
  rcases type with same | same
  · rw [same]
    exact legible_of_ends ⟨by decide, by decide⟩ rfl rfl (by decide) (by decide) (by decide)
  · rw [same]
    exact legible_of_ends ⟨by decide, by decide⟩ rfl rfl (by decide) (by decide) (by decide)

theorem Standard.sendable {r : Response} (h : Standard r) (body : r.body.length < 2 ^ 64) :
    Sendable r := by
  have known : r.status < 1000 ∧ OneLine r.statusText ∧ r.statusText.length ≤ 100 := by
    have status := h.status
    simp only [List.mem_cons, List.not_mem_nil, or_false, Prod.mk.injEq] at status
    rcases status with ⟨code, text⟩ | ⟨code, text⟩ | ⟨code, text⟩ | ⟨code, text⟩ | ⟨code, text⟩ <;>
      rw [code, text] <;> exact ⟨by decide, ⟨by decide, by decide⟩, by decide⟩
  obtain ⟨status, statusText, brief⟩ := known
  have further : (∀ f ∈ r.extraHeaders, LegibleField f ∧ toLower f.1 ≠ lit "content-length") ∧
      ((r.extraHeaders.map fieldLine).map fun line => line.length + 2).sum ≤ 100 := by
    have extra := h.extra
    simp only [List.mem_cons, List.not_mem_nil, or_false] at extra
    rcases extra with same | same
    · rw [same]
      exact ⟨fun f mem => absurd mem List.not_mem_nil, Nat.zero_le _⟩
    · rw [same]
      refine ⟨fun f mem => ?_, by decide⟩
      obtain rfl := List.mem_singleton.1 mem
      refine ⟨⟨by decide, ⟨by decide, by decide⟩, ?_⟩, by decide⟩
      exact legible_of_ends ⟨by decide, by decide⟩ rfl rfl (by decide) (by decide) (by decide)
  refine ⟨status, statusText, h.legible, further.1, ?_, body⟩
  have type := h.legible.short
  have digits : (Text.natural r.status).length ≤ 20 ∧ (Text.natural r.body.length).length ≤ 20 :=
    ⟨length_decimal 20 _, length_decimal 20 _⟩
  have fixed : (lit "HTTP/1.1 ").length = 9 ∧ (lit " ").length = 1 ∧
      (lit "Content-Type: ").length = 14 ∧ (lit "Content-Length: ").length = 16 ∧
      (lit "Connection: close").length = 17 := by decide
  rw [headText, length_head, fieldLines, List.map_cons, List.map_append, List.sum_cons,
    List.sum_append, statusLine]
  simp only [List.length_append, List.map_cons, List.map_nil, List.sum_cons, List.sum_nil, fixed]
  unfold maxHeaderSize
  omega

section
variable (J : JsonText) (s : Admin.Surroundings) (admins : Dict Str)

theorem standard_ok {type : Str} (known : type ∈ [lit "application/json", lit "text/plain"])
    (body : Str) : Standard (Admin.ok type body) := ⟨.head _, known, .head _⟩

theorem standard_serverError {type : Str}
    (known : type ∈ [lit "application/json", lit "text/plain"]) (body : Str) :
    Standard (Admin.serverError type body) :=
  ⟨.tail _ (.tail _ (.tail _ (.tail _ (.head _)))), known, .head _⟩

theorem standard_notFound (text : Str) : Standard (Admin.notFound text) :=
  ⟨.tail _ (.tail _ (.tail _ (.head _))), .tail _ (.head _), .head _⟩

theorem standard_unauthorized : Standard Admin.unauthorized :=
  ⟨.tail _ (.tail _ (.head _)), .tail _ (.head _), .tail _ (.head _)⟩

theorem standard_badRequest : Standard badRequest :=
  ⟨.tail _ (.head _), .tail _ (.head _), .head _⟩

theorem standard_respondJson {value : Json} {r : Response}
    (h : Admin.respondJson J value = .ok r) : Standard r := by
  rw [Admin.respondJson] at h
  cases text : Sio.dumpText J value with
  | error x =>
    rw [text] at h
    cases h
  | ok text' =>
    rw [text] at h
    obtain rfl := Except.ok.inj h
    exact standard_ok (.head _) _

theorem standard_catchError {x : Exn} {r : Response} (h : Admin.catchError J x = .ok r) :
    Standard r := by
  cases x with
  | other => cases h
  | std what =>
    rw [Admin.catchError] at h
    cases text : Admin.jsonError J what with
    | error x =>
      rw [text] at h
      cases h
    | ok text' =>
      rw [text] at h
      obtain rfl := Except.ok.inj h
      exact standard_serverError (.head _) _

theorem standard_getRoom {w : World} {roomId : Str} {r : Response}
    (h : (Admin.getRoom J s w roomId).2 = .ok r) : Standard r := by
  rw [Admin.getRoom] at h
  split at h
  · cases h
  · dsimp only at h
    split at h
    · obtain rfl := Except.ok.inj h
      exact standard_notFound _
    · exact standard_respondJson J h

theorem standard_postGameValues {w : World} {text : Str} {r : Response}
    (h : (Admin.postGameValues J w text).2 = .ok r) : Standard r := by
  rw [Admin.postGameValues] at h
  split at h
  · exact standard_catchError J (x := .std _) h
  · split at h
    · exact standard_catchError J h
    · obtain rfl := Except.ok.inj h
      exact standard_ok (.tail _ (.head _)) _

theorem standard_postExternalMessage {w : World} {text : Str} {r : Response}
    (h : (Admin.postExternalMessage J s w text).2 = .ok r) : Standard r := by
  rw [Admin.postExternalMessage] at h
  split at h
  · exact standard_catchError J (x := .std _) h
  · split at h
    · obtain rfl := Except.ok.inj h
      exact standard_serverError (.tail _ (.head _)) _
    · obtain rfl := Except.ok.inj h
      exact standard_serverError (.tail _ (.head _)) _
    · split at h
      · exact standard_catchError J h
      · rw [Admin.publishExternal] at h
        split at h
        · exact standard_catchError J h
        · obtain rfl := Except.ok.inj h
          exact standard_ok (.tail _ (.head _)) _

theorem standard_handleAdminRequest {w : World} {request : Request} {r : Response}
    (h : (Admin.handleAdminRequest J s admins w request).2 = .ok r) : Standard r := by
  rw [Admin.handleAdminRequest] at h
  split at h
  · obtain rfl := Except.ok.inj h
    exact standard_notFound _
  · split at h
    · obtain rfl := Except.ok.inj h
      exact standard_unauthorized
    · split at h
      · exact standard_respondJson J h
      · exact standard_respondJson J h
      · exact standard_getRoom J s h
      · exact standard_respondJson J h
      · exact standard_postGameValues J h
      · exact standard_postExternalMessage J s h
      · obtain rfl := Except.ok.inj h
        exact standard_notFound _

theorem standard_answer {w : World} {outcome : Outcome} {r : Response}
    (h : answer J s admins w outcome = some (.ok r)) : Standard r := by
  cases outcome with
  | closed => cases h
  | admin request => exact standard_handleAdminRequest J s admins (Option.some.inj h)
  | badRequest =>
    obtain rfl := Except.ok.inj (Option.some.inj h)
    exact standard_badRequest
  | upgraded => cases h

end

/-- For every connection that is not upgraded, whatever the socket takes at a time and however its bytes
arrive: if no call of `write` fails, the other end reads the answer as it was given, and otherwise it reads
none. -/
theorem answer_whole_or_none (J : JsonText) (surroundings : Admin.Surroundings) (admins : Dict Str)
    (w : World) (random : Str) (s : Socket) {r : Response}
    (answered : answer J surroundings admins w (handleConnection random s) = some (.ok r))
    (body : r.body.length < 2 ^ 64) (results : ℕ → ℤ) (sizes : ℕ → ℕ) (reads : ℕ) :
    let sent := writeResponse (Sink.fresh results) r
    readResponse { rest := sent.written, sizes, reads } =
      if sent.failed = true then none
      else some (statusLine r, (responseFields r).foldl (fun headers p => headers.insert p.1 p.2) ∅,
        r.body) := by
  intro sent
  obtain ⟨k, inside, written, failed⟩ := writeAll_spec (responseText r).length (responseText r)
    (Sink.fresh results) (Nat.le_refl _) rfl
  have sendable := (standard_answer J surroundings admins answered).sendable body
  have out : sent.written = (responseText r).take k := written
  rw [out, readResponse_spec sendable inside]
  exact if_congr failed.symm rfl rfl

def askNothing : Socket :=
  { rest := lit "GET /nothing HTTP/1.1\r\nHost: a\r\n\r\n", sizes := fun _ => 5, reads := 0 }

def isNotFound : Option (Except Exn Response) → Bool
  | some (.ok r) => r.status == 404 && r.body == lit "Not found"
  | _ => false

theorem isNotFound_sound {a : Option (Except Exn Response)} (h : isNotFound a = true) :
    ∃ r, a = some (.ok r) ∧ r.status = 404 ∧ r.body = lit "Not found" := by
  unfold isNotFound at h
  split at h
  · rename_i r
    obtain ⟨status, body⟩ := Bool.and_eq_true_iff.1 h
    exact ⟨r, rfl, beq_iff_eq.1 status, beq_iff_eq.1 body⟩
  · cases h

/-- Seven bytes at a time. -/
theorem answer_whole_or_none_notFound : ∃ r, r.status = 404 ∧
    readResponse { rest := (writeResponse (Sink.fresh fun _ => 7) r).written
                   sizes := fun _ => 3
                   reads := 0 } =
      if (writeResponse (Sink.fresh fun _ => 7) r).failed = true then none
      else some (statusLine r, (responseFields r).foldl (fun headers p => headers.insert p.1 p.2) ∅,
        lit "Not found") := by
  have asked : isNotFound (answer Text.reference Admin.calm ∅ World.initial
      (handleConnection (lit "a") askNothing)) = true := by
    decide +kernel
  obtain ⟨r, answered, status, body⟩ := isNotFound_sound asked
  refine ⟨r, status, ?_⟩
  rw [← body]
  exact answer_whole_or_none Text.reference Admin.calm ∅ World.initial (lit "a") askNothing answered
    (by rw [body]; decide) (fun _ => 7) (fun _ => 3) 0

end Blueboat.Responses
