import Blueboat.Http

set_option autoImplicit false

/-! The handshake: `Client::connection_manager_loop` writes it, `Server::handle_connection` reads
it. -/
namespace Blueboat.Handshake

open Http

def path (id : Str) : Str :=
  lit "/blueboat/?EIO=3&transport=websocket" ++ if id = [] then [] else lit "&id=" ++ id

def request (host key id : Str) : Str :=
  lit "GET " ++ path id ++ lit " HTTP/1.1\r\nHost: " ++ host ++
    lit "\r\nUpgrade: websocket\r\nConnection: Upgrade\r\nSec-WebSocket-Key: " ++ key ++
    lit "\r\nSec-WebSocket-Version: 13\r\n\r\n"

def headerContainsToken (value token : Str) : Bool :=
  (toLower value).tails.any fun rest => (toLower token).isPrefixOf rest

/-- What becomes of a connection: it is closed, served as an admin request, answered with 400, or
upgraded for a client with this id. -/
inductive Outcome where
  | closed
  | admin (request : Request)
  | badRequest
  | upgraded (key id : Str)

def clientId (query : Dict Str) (random : Str) : Str :=
  match query.lookup (lit "id") with
  | some id => if id = [] then random else id
  | none => random

/-- `handle_connection` up to the upgrade; `random` is what `random_id` returns. -/
def handleConnection (random : Str) (s : Socket) : Outcome :=
  match (readRequest s).1 with
  | none => .closed
  | some request =>
    if request.path ≠ lit "/blueboat" ∧ request.path ≠ lit "/blueboat/" then .admin request
    else
      match request.headers.lookup (lit "upgrade"),
        request.headers.lookup (lit "sec-websocket-key") with
      | some upgrade, some key =>
        if request.method ≠ lit "GET" ∨ headerContainsToken upgrade (lit "websocket") = false then
          .badRequest
        else .upgraded key (clientId (parseQuery request.query) random)
      | _, _ => .badRequest

/-! A head that is written line by line. -/

/-- Lines, each with its line break, and the empty line. -/
def head (lines : List Str) : Str := (lines.flatMap fun line => line ++ [CR, LF]) ++ [CR, LF]

def OneLine (s : Str) : Prop := CR ∉ s ∧ LF ∉ s

theorem OneLine.append {s t : Str} (h : OneLine s) (h' : OneLine t) : OneLine (s ++ t) :=
  ⟨by simp [h.1, h'.1], by simp [h.2, h'.2]⟩

theorem head_cons (line : Str) (lines : List Str) :
    head (line :: lines) = line ++ CR :: LF :: head lines := by
  simp [head]

/-- Only the empty line starts with a line break. -/
theorem head_blank {lines : List Str} (h : ∀ line ∈ lines, OneLine line ∧ line ≠ []) {t : Str}
    (starts : head lines = CR :: LF :: t) : t = [] := by
  cases lines with
  | nil => simpa [head] using starts.symm
  | cons line lines =>
    obtain ⟨oneLine, some⟩ := h line (.head _)
    cases line with
    | nil => exact absurd rfl some
    | cons b line =>
      rw [head_cons] at starts
      obtain ⟨rfl, -⟩ := List.cons.inj starts
      exact absurd (.head _) oneLine.1

theorem head_ends {lines : List Str} (h : ∀ line ∈ lines, OneLine line ∧ line ≠ []) {a t : Str}
    (split : head lines = a ++ (doubleCrlf ++ t)) : t = [] := by
  induction lines generalizing a with
  | nil =>
    have length := congrArg List.length split
    simp [head, doubleCrlf] at length
    omega
  | cons line lines ih =>
    have rest : ∀ line ∈ lines, OneLine line ∧ line ≠ [] := fun line mem => h line (.tail _ mem)
    rw [head_cons, List.append_eq_append_iff] at split
    rcases split with ⟨more, rfl, after⟩ | ⟨more, whole, after⟩
    · rcases more with _ | ⟨b, _ | ⟨c, more⟩⟩
      · exact head_blank rest (by simpa [doubleCrlf] using after)
      · exact absurd (List.cons.inj (List.cons.inj after).2).1 (by decide)
      · exact ih rest (List.cons.inj (List.cons.inj after).2).2
    · cases more with
      | nil => exact head_blank rest (by simpa [doubleCrlf] using after.symm)
      | cons b more =>
        obtain ⟨rfl, -⟩ := List.cons.inj after
        exact absurd (by simp [whole]) (h line (.head _)).1.1

theorem isHead_head {lines : List Str} (some : lines ≠ [])
    (h : ∀ line ∈ lines, OneLine line ∧ line ≠ []) : IsHead (head lines) := by
  refine ⟨?_, fun shorter ⟨t, whole⟩ ⟨a, ends⟩ => ?_⟩
  · obtain ⟨before, last, rfl⟩ := List.eq_nil_or_concat lines |>.resolve_left some
    refine ⟨(before.flatMap fun line => line ++ [CR, LF]) ++ last, ?_⟩
    simp [head, doubleCrlf]
  · have split : head lines = a ++ (doubleCrlf ++ t) := by
      rw [← whole, ← ends, List.append_assoc]
    rw [← whole, head_ends h split, List.append_nil]

theorem takeWhile_stop {mark : UInt8} {s : Str} (h : mark ∉ s) (t : Str) :
    (s ++ mark :: t).takeWhile (· != mark) = s := by
  have passes : ∀ b ∈ s, (b != mark) = true := fun b mem => by
    simpa using ne_of_mem_of_not_mem mem h
  rw [List.takeWhile_append_of_pos passes, List.takeWhile_cons_of_neg (by simp), List.append_nil]

theorem dropWhile_stop {mark : UInt8} {s : Str} (h : mark ∉ s) (t : Str) :
    (s ++ mark :: t).dropWhile (· != mark) = mark :: t := by
  have passes : ∀ b ∈ s, (b != mark) = true := fun b mem => by
    simpa using ne_of_mem_of_not_mem mem h
  rw [List.dropWhile_append_of_pos passes, List.dropWhile_cons_of_neg (by simp)]

theorem cut_append {mark : UInt8} {s : Str} (h : mark ∉ s) (t : Str) :
    cut mark (s ++ mark :: t) = some (s, t) := by
  rw [cut, dropWhile_stop h, takeWhile_stop h]

theorem firstLine_head {line : Str} (h : OneLine line) (lines : List Str) :
    firstLine (head (line :: lines)) = line ++ [CR] := by
  have split : head (line :: lines) = (line ++ [CR]) ++ LF :: head lines := by
    simp [head_cons]
  rw [split]
  exact takeWhile_stop (by simpa using ⟨h.2, by decide⟩) _

theorem popCr_append (line : Str) : popCr (line ++ [CR]) = line := by
  simp [popCr]

theorem popCr_oneLine {line : Str} (h : OneLine line) : popCr line = line := by
  refine if_neg fun last => ?_
  exact h.1 (List.mem_of_getLast? last)

theorem field_append {line : Str} (h : OneLine line) : field (line ++ [CR]) = field line := by
  rw [field, field, popCr_append, popCr_oneLine h]

theorem splitOn_line {line : Str} (h : OneLine line) (rest : Str) :
    (line ++ CR :: LF :: rest).splitOn LF = (line ++ [CR]) :: rest.splitOn LF := by
  have inside : ∀ b ∈ line ++ [CR], (b == LF) = false := fun b mem => by
    rcases List.mem_append.1 mem with mem | mem
    · simpa using ne_of_mem_of_not_mem mem h.2
    · rw [List.mem_singleton.1 mem]
      rfl
  rw [List.append_cons, List.splitOn_eq_splitOnP,
    List.splitOnP_append_cons_of_forall_mem inside LF (beq_self_eq_true LF)]
  rfl

theorem splitOn_head {lines : List Str} (h : ∀ line ∈ lines, OneLine line) :
    ((head lines).splitOn LF).filterMap field = lines.filterMap field := by
  induction lines with
  | nil => decide
  | cons line lines ih =>
    rw [head_cons, splitOn_line (h line (.head _)), List.filterMap_cons, List.filterMap_cons,
      field_append (h line (.head _)), ih fun line mem => h line (.tail _ mem)]

/-- The fields of the head are those of its lines after the first. -/
theorem fields_head {line : Str} {lines : List Str} (first : OneLine line)
    (h : ∀ line ∈ lines, OneLine line) : fields (head (line :: lines)) = lines.filterMap field := by
  rw [fields, head_cons, splitOn_line first, List.drop_one, List.tail_cons, splitOn_head h]

theorem words_word {w : Str} (some : w ≠ []) (h : ∀ b ∈ w, isSpace b = false) {b : UInt8}
    (space : isSpace b = true) (rest : Str) : words (w ++ b :: rest) = w :: words rest := by
  have passes : ∀ b ∈ w, (!isSpace b) = true := fun b mem => by simp [h b mem]
  cases w with
  | nil => exact absurd rfl some
  | cons c w =>
    have first : isSpace c = false := h c (.head _)
    rw [List.cons_append, words_cons first, ← List.cons_append,
      List.takeWhile_append_of_pos passes, List.dropWhile_append_of_pos passes,
      List.takeWhile_cons_of_neg (by simp [space]), List.dropWhile_cons_of_neg (by simp [space]),
      words_cons_space space, List.append_nil]

theorem mem_splitOnP {p : UInt8 → Bool} {s w : Str} (h : w ∈ s.splitOnP p) {b : UInt8}
    (mem : b ∈ w) : b ∈ s ∧ p b = false := by
  induction s generalizing w with
  | nil =>
    rw [List.mem_singleton.1 h] at mem
    cases mem
  | cons c s ih =>
    rw [List.splitOnP_cons_eq_if_modifyHead] at h
    by_cases mark : p c = true
    · rw [if_pos mark] at h
      rcases List.mem_cons.1 h with rfl | h
      · cases mem
      · exact (ih h mem).imp_left (.tail _)
    · rw [if_neg mark] at h
      cases pieces : s.splitOnP p with
      | nil => exact absurd pieces (List.splitOnP_ne_nil p s)
      | cons piece pieces' =>
        rw [pieces] at h ih
        rcases List.mem_cons.1 h with rfl | h
        · rcases List.mem_cons.1 mem with rfl | mem
          · exact ⟨.head _, by simpa using mark⟩
          · exact (ih (.head _) mem).imp_left (.tail _)
        · exact (ih (.tail _ h) mem).imp_left (.tail _)

theorem mem_getlines {delim : UInt8} {s line : Str} (h : line ∈ getlines delim s) {b : UInt8}
    (mem : b ∈ line) : b ∈ s ∧ b ≠ delim := by
  induction s generalizing line with
  | nil => cases h
  | cons c s ih =>
    rw [getlines] at h
    by_cases mark : c = delim
    · rw [if_pos mark] at h
      rcases List.mem_cons.1 h with rfl | h
      · cases mem
      · exact (ih h mem).imp_left (.tail _)
    · rw [if_neg mark] at h
      cases lines : getlines delim s with
      | nil =>
        rw [lines] at h
        rw [List.mem_singleton.1 h, List.mem_singleton] at mem
        subst mem
        exact ⟨.head _, mark⟩
      | cons next lines' =>
        rw [lines] at h ih
        rcases List.mem_cons.1 h with rfl | h
        · rcases List.mem_cons.1 mem with rfl | mem
          · exact ⟨.head _, mark⟩
          · exact (ih (.head _) mem).imp_left (.tail _)
        · exact (ih (.tail _ h) mem).imp_left (.tail _)

theorem getlines_append {delim : UInt8} {line : Str} (h : delim ∉ line) (rest : Str) :
    getlines delim (line ++ delim :: rest) = line :: getlines delim rest := by
  rw [getlines_eq]
  have piece := takeWhile_stop h rest
  have after := dropWhile_stop h rest
  cases line with
  | nil => simp [getline]
  | cons b line =>
    rw [List.cons_append] at piece after ⊢
    rw [getline, piece, after, List.drop_one, List.tail_cons]
    exact List.cons_ne_nil _ _

theorem getlines_last {delim : UInt8} {line : Str} (some : line ≠ []) (h : delim ∉ line) :
    getlines delim line = [line] := by
  have passes : ∀ b ∈ line, (b != delim) = true := fun b mem => by
    simpa using ne_of_mem_of_not_mem mem h
  have piece : line.takeWhile (· != delim) = line := List.takeWhile_eq_self_iff.2 passes
  have after : line.dropWhile (· != delim) = [] := List.dropWhile_eq_nil_iff.2 passes
  rw [getlines_eq]
  cases line with
  | nil => exact absurd rfl some
  | cons b line =>
    rw [getline, piece, after]
    · rfl
    · exact List.cons_ne_nil _ _

/-! The query. -/

def pair (piece : Str) : Str × Str := (cut 0x3d piece).getD (piece, [])

theorem lookup_parseQuery (query name : Str) : (parseQuery query).lookup name =
    ((getlines 0x26 query).map pair).reverse.lookup name := by
  have step : addPair = fun result piece => result.insert (pair piece).1 (pair piece).2 := by
    funext result piece
    rw [addPair, pair]
    cases cut 0x3d piece with
    | none => rfl
    | some p => rfl
  rw [← lookup_foldl_insert, List.foldl_map, parseQuery, step]

/-- Values are made of the bytes of the query, and not of ampersands. -/
theorem mem_parseQuery {query name value : Str} (h : (parseQuery query).lookup name = some value)
    {b : UInt8} (mem : b ∈ value) : b ∈ query ∧ b ≠ 0x26 := by
  rw [lookup_parseQuery] at h
  obtain ⟨before, after, split, -⟩ := List.lookup_eq_some_iff.1 h
  have found : (name, value) ∈ ((getlines 0x26 query).map pair).reverse := by simp [split]
  obtain ⟨piece, line, same⟩ := List.mem_map.1 (List.mem_reverse.1 found)
  refine mem_getlines line ?_
  rw [pair] at same
  cases parts : cut 0x3d piece with
  | none =>
    rw [parts] at same
    obtain ⟨-, rfl⟩ := Prod.mk.inj same
    cases mem
  | some p =>
    rw [parts] at same
    obtain ⟨rfl, -⟩ := cut_some (parts.trans (congrArg some same))
    exact List.mem_append_right _ (.tail _ mem)

/-! The client's request, line by line. -/

def requestLineOf (id : Str) : Str := lit "GET " ++ path id ++ lit " HTTP/1.1"

def headerLines (host key : Str) : List Str :=
  [lit "Host: " ++ host, lit "Upgrade: websocket", lit "Connection: Upgrade",
    lit "Sec-WebSocket-Key: " ++ key, lit "Sec-WebSocket-Version: 13"]

theorem request_eq (host key id : Str) :
    request host key id = head (requestLineOf id :: headerLines host key) := by
  have first : lit " HTTP/1.1\r\nHost: " = lit " HTTP/1.1" ++ CR :: LF :: lit "Host: " := by
    simp [lit, CR, LF]
  have middle : lit "\r\nUpgrade: websocket\r\nConnection: Upgrade\r\nSec-WebSocket-Key: " =
      CR :: LF :: (lit "Upgrade: websocket" ++ CR :: LF :: (lit "Connection: Upgrade" ++
        CR :: LF :: lit "Sec-WebSocket-Key: ")) := by
    simp [lit, CR, LF]
  have last : lit "\r\nSec-WebSocket-Version: 13\r\n\r\n" =
      CR :: LF :: (lit "Sec-WebSocket-Version: 13" ++ CR :: LF :: head []) := by
    simp [lit, head, CR, LF]
  rw [request, first, middle, last]
  simp only [requestLineOf, headerLines, head_cons, List.append_assoc, List.cons_append]

theorem oneLine_path {id : Str} (h : OneLine id) : OneLine (path id) := by
  rw [path]
  refine OneLine.append ⟨by decide, by decide⟩ ?_
  split
  · exact ⟨List.not_mem_nil, List.not_mem_nil⟩
  · exact OneLine.append ⟨by decide, by decide⟩ h

theorem oneLine_lines {host key id : Str} (hostLine : OneLine host) (keyLine : OneLine key)
    (idLine : OneLine id) :
    ∀ line ∈ requestLineOf id :: headerLines host key, OneLine line ∧ line ≠ [] := by
  have lead : OneLine (lit "GET ") ∧ OneLine (lit " HTTP/1.1") ∧ OneLine (lit "Host: ") ∧
      OneLine (lit "Sec-WebSocket-Key: ") := by
    refine ⟨⟨?_, ?_⟩, ⟨?_, ?_⟩, ⟨?_, ?_⟩, ⟨?_, ?_⟩⟩ <;> decide
  have fixed : OneLine (lit "Upgrade: websocket") ∧ OneLine (lit "Connection: Upgrade") ∧
      OneLine (lit "Sec-WebSocket-Version: 13") := by
    refine ⟨⟨?_, ?_⟩, ⟨?_, ?_⟩, ⟨?_, ?_⟩⟩ <;> decide
  obtain ⟨get, version, hostName, keyName⟩ := lead
  obtain ⟨upgrade, connection, number⟩ := fixed
  intro line mem
  simp only [headerLines, List.mem_cons, List.not_mem_nil, or_false] at mem
  rcases mem with rfl | rfl | rfl | rfl | rfl | rfl
  · exact ⟨(get.append (oneLine_path idLine)).append version, by simp [requestLineOf, lit]⟩
  · exact ⟨hostName.append hostLine, by simp [lit]⟩
  · exact ⟨upgrade, by decide⟩
  · exact ⟨connection, by decide⟩
  · exact ⟨keyName.append keyLine, by simp [lit]⟩
  · exact ⟨number, by decide⟩

theorem isHead_request {host key id : Str} (hostLine : OneLine host) (keyLine : OneLine key)
    (idLine : OneLine id) : IsHead (request host key id) := by
  rw [request_eq]
  exact isHead_head (List.cons_ne_nil _ _) (oneLine_lines hostLine keyLine idLine)

theorem field_header {before s lower : Str} (split : before = s ++ [0x3a, 0x20])
    (lowered : toLower s = lower) (named : 0x3a ∉ s) {value : Str} (h : OneLine (before ++ value)) :
    field (before ++ value) = some (lower, trim (0x20 :: value)) := by
  have parts : before ++ value = s ++ 0x3a :: 0x20 :: value := by
    rw [split, List.append_assoc]
    rfl
  rw [field, popCr_oneLine h, parts, cut_append named, ← lowered]
  rfl

theorem fields_request {host key id : Str} (hostLine : OneLine host) (keyLine : OneLine key)
    (idLine : OneLine id) : fields (request host key id) =
      [(lit "host", trim (0x20 :: host)), (lit "upgrade", lit "websocket"),
        (lit "connection", lit "Upgrade"), (lit "sec-websocket-key", trim (0x20 :: key)),
        (lit "sec-websocket-version", lit "13")] := by
  have lines := oneLine_lines hostLine keyLine idLine
  have hostField : field (lit "Host: " ++ host) = some (lit "host", trim (0x20 :: host)) :=
    field_header (s := lit "Host") (by simp [lit]) (by decide) (by decide)
      (lines _ (.tail _ (.head _))).1
  have keyField : field (lit "Sec-WebSocket-Key: " ++ key) =
      some (lit "sec-websocket-key", trim (0x20 :: key)) :=
    field_header (s := lit "Sec-WebSocket-Key") (by simp [lit]) (by decide) (by decide)
      (lines _ (.tail _ (.tail _ (.tail _ (.tail _ (.head _)))))).1
  have fixed : field (lit "Upgrade: websocket") = some (lit "upgrade", lit "websocket") ∧
      field (lit "Connection: Upgrade") = some (lit "connection", lit "Upgrade") ∧
      field (lit "Sec-WebSocket-Version: 13") = some (lit "sec-websocket-version", lit "13") := by
    simp only [lit, String.reduceToList, List.map_cons, List.map_nil]
    decide +kernel
  rw [request_eq, fields_head (lines _ (.head _)).1 fun line mem => (lines line (.tail _ mem)).1]
  simp only [headerLines, List.filterMap_cons, List.filterMap_nil, hostField, fixed.1, fixed.2.1,
    keyField, fixed.2.2]

theorem oneLine_of_plain {s : Str} (plain : ∀ b ∈ s, isSpace b = false) : OneLine s :=
  ⟨fun mem => absurd (plain CR mem) (by decide), fun mem => absurd (plain LF mem) (by decide)⟩

theorem plain_of_all {s : Str} (h : s.all (fun b => !isSpace b) = true) :
    ∀ b ∈ s, isSpace b = false := by
  simpa using h

theorem plain_path {id : Str} (plain : ∀ b ∈ id, isSpace b = false) :
    ∀ b ∈ path id, isSpace b = false := by
  have start : ∀ b ∈ lit "/blueboat/?EIO=3&transport=websocket", isSpace b = false :=
    plain_of_all (by decide)
  have name : ∀ b ∈ lit "&id=", isSpace b = false := plain_of_all (by decide)
  intro b mem
  rcases List.mem_append.1 mem with mem | mem
  · exact start b mem
  · split at mem
    · cases mem
    · rcases List.mem_append.1 mem with mem | mem
      · exact name b mem
      · exact plain b mem

/-- The target is one word if the id has no white space. -/
theorem words_request (host key : Str) {id : Str} (plain : ∀ b ∈ id, isSpace b = false) :
    words (firstLine (request host key id)) = [lit "GET", path id, lit "HTTP/1.1"] := by
  have lines : OneLine (requestLineOf id) :=
    (OneLine.append ⟨by decide, by decide⟩ (oneLine_path (oneLine_of_plain plain))).append
      ⟨by decide, by decide⟩
  have split : requestLineOf id ++ [CR] =
      lit "GET" ++ 0x20 :: (path id ++ 0x20 :: (lit "HTTP/1.1" ++ [CR])) := by
    have get : lit "GET " = lit "GET" ++ [0x20] := by decide
    have version : lit " HTTP/1.1" = 0x20 :: lit "HTTP/1.1" := by decide
    rw [requestLineOf, get, version]
    simp only [List.append_assoc, List.cons_append, List.nil_append]
  have target : path id ≠ [] := by simp [path, lit]
  rw [request_eq, firstLine_head lines, split,
    words_word (by decide) (plain_of_all (by decide)) (by decide),
    words_word target (plain_path plain) (by decide),
    words_word (by decide) (plain_of_all (by decide)) (by decide)]
  rfl

theorem splitTarget_path (id : Str) : splitTarget (path id) =
    (lit "/blueboat/", lit "EIO=3&transport=websocket" ++
      if id = [] then [] else lit "&id=" ++ id) := by
  have split : lit "/blueboat/?EIO=3&transport=websocket" =
      lit "/blueboat/" ++ 0x3f :: lit "EIO=3&transport=websocket" := by simp [lit]
  rw [splitTarget, path, split, List.append_assoc, List.cons_append,
    cut_append (by decide), Option.getD_some]

theorem lookup_id {id : Str} (plain : 0x26 ∉ id) :
    (parseQuery (lit "EIO=3&transport=websocket" ++
      if id = [] then [] else lit "&id=" ++ id)).lookup (lit "id") =
    if id = [] then none else some id := by
  by_cases empty : id = []
  · rw [if_pos empty, if_pos empty]
    decide
  · rw [if_neg empty, if_neg empty]
    have split : lit "EIO=3&transport=websocket" ++ (lit "&id=" ++ id) =
        lit "EIO=3" ++ 0x26 :: (lit "transport=websocket" ++ 0x26 :: (lit "id=" ++ id)) := by
      simp [lit]
    have last : 0x26 ∉ lit "id=" ++ id := by
      rw [List.mem_append, not_or]
      exact ⟨by decide, plain⟩
    have value : pair (lit "id=" ++ id) = (lit "id", id) := by
      have name : lit "id=" ++ id = lit "id" ++ 0x3d :: id := by simp [lit]
      rw [pair, name, cut_append (by decide), Option.getD_some]
    rw [lookup_parseQuery, split, getlines_append (by decide), getlines_append (by decide),
      getlines_last (by simp [lit]) last, List.map_cons, List.map_cons, List.map_cons,
      List.map_nil, value, List.reverse_cons, List.reverse_cons, List.reverse_cons]
    simp only [List.reverse_nil, List.nil_append, List.cons_append]
    rw [List.lookup_cons, beq_self_eq_true]

/-! The identity. -/

/-- The server reads the request, finds the path, an upgrade and the client's id in it, and gives the
connection that id. -/
structure Kept (id random : Str) (s : Socket) : Prop where
  parsed : ∃ request s' upgrade, readRequest s = (some request, s') ∧
    request.path = lit "/blueboat/" ∧
    request.headers.lookup (lit "upgrade") = some upgrade ∧
    headerContainsToken upgrade (lit "websocket") = true ∧
    ((parseQuery request.query).lookup (lit "id")).getD [] = id
  echoed : id ≠ [] → ∃ key, handleConnection random s = .upgraded key id

/-- An id that stays one value of the query and one word of the request line. -/
def Plain (id : Str) : Prop := ∀ b ∈ id, isSpace b = false ∧ b ≠ 0x26

/-- The parsed id is a part of one word, between ampersands. -/
theorem plain_of_parsed {s s' : Socket} {request : Request} {id : Str}
    (read : readRequest s = (some request, s'))
    (found : ((parseQuery request.query).lookup (lit "id")).getD [] = id) : Plain id := by
  intro b mem
  rcases readRequest_spec s with ⟨head, rest, n, s₁, accepts, read', -⟩ | ⟨fails, -⟩
  · rw [read'] at read
    obtain ⟨rfl, -⟩ : requestOf head (rest.take n) = request ∧ s₁ = s' := by simpa using read
    obtain ⟨target, version, more, line, -, split⟩ := (describes_requestOf accepts.line
      (rest.take n)).line
    cases value : (parseQuery (requestOf head (rest.take n)).query).lookup (lit "id") with
    | none =>
      rw [value] at found
      rw [← found] at mem
      cases mem
    | some v =>
      rw [value] at found
      obtain rfl : v = id := found
      obtain ⟨inQuery, notMark⟩ := mem_parseQuery value mem
      have inTarget : b ∈ target := by
        rcases split with ⟨-, none⟩ | whole
        · rw [none] at inQuery
          cases inQuery
        · rw [whole]
          exact List.mem_append_right _ (.tail _ inQuery)
      have isWord : target ∈ words (firstLine head) := by simp [line]
      rw [words, List.mem_filter] at isWord
      exact ⟨(mem_splitOnP isWord.1 inTarget).2, notMark⟩
  · rw [read] at fails
    cases fails

theorem accepts_request {host key id : Str} (hostLine : OneLine host) (keyLine : OneLine key)
    (plain : Plain id) (short : (request host key id).length ≤ maxHeaderSize) (later : Str) :
    Accepts (request host key id ++ later) (request host key id) later 0 where
  whole := rfl
  ends := isHead_request hostLine keyLine (oneLine_of_plain fun b mem => (plain b mem).1)
  short := short
  line := by
    rw [words_request host key fun b mem => (plain b mem).1]
    exact Nat.le_refl 3
  length := by
    have idLine := oneLine_of_plain fun b mem => (plain b mem).1
    rw [contentLength, headersOf, lookup_foldl_insert, fields_request hostLine keyLine idLine]
    rfl
  follows := Nat.zero_le _

theorem requestOf_target {head method target version : Str}
    (h : words (firstLine head) = [method, target, version]) (body : Str) :
    (requestOf head body).method = method ∧ (requestOf head body).path = (splitTarget target).1 ∧
      (requestOf head body).query = (splitTarget target).2 := by
  rw [requestOf, h]
  exact ⟨rfl, rfl, rfl⟩

theorem requestOf_headers (head body name : Str) :
    (requestOf head body).headers.lookup name = (fields head).reverse.lookup name :=
  lookup_foldl_insert (fields head) name

/-- What the server makes of the head. -/
theorem requestOf_request {host key id : Str} (hostLine : OneLine host) (keyLine : OneLine key)
    (plain : Plain id) (body : Str) :
    (requestOf (request host key id) body).method = lit "GET" ∧
    (requestOf (request host key id) body).path = lit "/blueboat/" ∧
    (parseQuery (requestOf (request host key id) body).query).lookup (lit "id") =
      (if id = [] then none else some id) ∧
    (requestOf (request host key id) body).headers.lookup (lit "upgrade") =
      some (lit "websocket") ∧
    (requestOf (request host key id) body).headers.lookup (lit "sec-websocket-key") =
      some (trim (0x20 :: key)) := by
  obtain ⟨method, path, query⟩ := requestOf_target
    (words_request host key fun b mem => (plain b mem).1) body
  have idLine := oneLine_of_plain fun b mem => (plain b mem).1
  rw [splitTarget_path] at path query
  refine ⟨method, path, ?_, ?_, ?_⟩
  · rw [query]
    exact lookup_id fun mem => (plain _ mem).2 rfl
  · rw [requestOf_headers, fields_request hostLine keyLine idLine]
    rfl
  · rw [requestOf_headers, fields_request hostLine keyLine idLine]
    rfl

/-- The identity survives the handshake exactly if the id has no white space and no ampersand and the
request fits into the server's limit. -/
theorem kept_iff {host key : Str} (hostLine : OneLine host) (keyLine : OneLine key)
    (id random later : Str) (sizes : ℕ → ℕ) (reads : ℕ) :
    Kept id random { rest := request host key id ++ later, sizes, reads } ↔
      Plain id ∧ (request host key id).length ≤ maxHeaderSize := by
  generalize here : ({ rest := request host key id ++ later, sizes, reads } : Socket) = s
  have stream : s.rest = request host key id ++ later := by rw [← here]
  constructor
  · intro kept
    obtain ⟨request', s', upgrade, read, -, -, -, found⟩ := kept.parsed
    have plain := plain_of_parsed read found
    refine ⟨plain, ?_⟩
    rcases readRequest_spec s with ⟨head, rest, n, s₁, accepts, -, -⟩ | ⟨fails, -⟩
    · have ends := isHead_request hostLine keyLine
        (oneLine_of_plain (s := id) fun b mem => (plain b mem).1)
      rw [head_unique ⟨later, stream.symm⟩ ⟨rest, accepts.whole.symm⟩ ends accepts.ends]
      exact accepts.short
    · rw [read] at fails
      cases fails
  · intro ⟨plain, short⟩
    have accepts := accepts_request hostLine keyLine plain short later
    rw [← stream] at accepts
    rcases readRequest_spec s with ⟨head, rest, n, s₁, accepts', read, -⟩ | ⟨-, none⟩
    · obtain ⟨rfl, rfl, rfl⟩ := accepts_unique accepts accepts'
      obtain ⟨method, path, query, upgrade, wsKey⟩ :=
        requestOf_request hostLine keyLine plain (rest.take 0)
      have token : headerContainsToken (lit "websocket") (lit "websocket") = true := by
        decide
      refine ⟨⟨_, s₁, _, read, path, upgrade, token, ?_⟩, fun some => ?_⟩
      · rw [query]
        by_cases empty : id = []
        · rw [if_pos empty, empty]
          rfl
        · rw [if_neg empty]
          rfl
      · refine ⟨trim (0x20 :: key), ?_⟩
        rw [handleConnection, read]
        dsimp only
        rw [path, method, upgrade, wsKey, clientId, query, if_neg some]
        dsimp only
        rw [if_neg some]
        rfl
    · exact absurd accepts (none _ _ _)

/-- The id that a server made survives. -/
theorem kept_random : Kept (lit "mZ0-_9") (lit "other")
    { rest := request (lit "localhost") (lit "dGhlIHNhbXBsZSBub25jZQ==") (lit "mZ0-_9") ++ []
      sizes := fun _ => 1
      reads := 0 } :=
  (kept_iff ⟨by decide, by decide⟩ ⟨by decide, by decide⟩ _ _ _ _ _).2
    ⟨fun b mem => ⟨plain_of_all (by decide) b mem, ne_of_mem_of_not_mem mem (by decide)⟩,
      by decide +kernel⟩

/-- The id `a b` comes back as `a`. -/
theorem lost_space : ¬ Kept (lit "a b") (lit "other")
    { rest := request (lit "localhost") (lit "dGhlIHNhbXBsZSBub25jZQ==") (lit "a b")
      sizes := fun _ => 1
      reads := 0 } := by
  intro kept
  obtain ⟨request, s', -, read, -, -, -, found⟩ := kept.parsed
  exact absurd ((plain_of_parsed read found) 0x20 (by decide)).1 (by decide)

end Blueboat.Handshake
