import Blueboat.StackOrder

set_option autoImplicit false

/-! The map of managed rooms and the records in storage: every record is that of a managed room, and a
room that nothing leads to any more. -/
namespace Blueboat

open Protocol LockMachine Ledger

def Older (J : JsonText) (storage storage' : MemoryStorage) : Prop :=
  ∀ roomId e, storage'.entries.lookup (roomKey roomId) = some e →
    ∃ e₀, storage.entries.lookup (roomKey roomId) = some e₀ ∧
      (Records J e₀.value roomId → Records J e.value roomId)

def Registered (J : JsonText) (k : Stores) : Prop :=
  ∀ roomId e, k.storage.entries.lookup (roomKey roomId) = some e →
    (k.managingRooms.lookup roomId).isSome ∧ Records J e.value roomId

inductive Files (J : JsonText) (w : World) (k' : Stores) : Cmd → Prop where
  | kept {cmd : Cmd} (older : Older J w.storage k'.storage)
      (managing : k'.managingRooms = w.managingRooms) : Files J w k' cmd
  | registered {r : RoomRef} {client : SimpleClient} {creator : Creator} {text : Str}
      (records : Records J text (w.rooms r).roomId)
      (storage : k'.storage = w.storage.set w.now (roomKey (w.rooms r).roomId) text false)
      (managing : k'.managingRooms = w.managingRooms.insert (w.rooms r).roomId r) :
    Files J w k' (.created r client creator)
  | gone {r : RoomRef} (storage : k'.storage = w.storage)
      (managing : k'.managingRooms = w.managingRooms.erase (w.rooms r).roomId) :
    Files J w k' (.onRoomDisposed r)

section
variable {J : JsonText} {storage : MemoryStorage}

theorem Older.refl : Older J storage storage := fun _ e stored => ⟨e, stored, id⟩

theorem older_purge (now : ℤ) : Older J storage (storage.purge now) := fun roomId e stored => by
  rw [MemoryStorage.lookup_purge] at stored
  exact ⟨e, (Option.filter_eq_some_iff.1 stored).1, id⟩

theorem older_remove (key : Str) : Older J storage (storage.remove key) := fun roomId e stored => by
  by_cases same : roomKey roomId = key
  · rw [same, MemoryStorage.lookup_remove_self] at stored; cases stored
  · rw [MemoryStorage.lookup_remove_ne same] at stored; exact ⟨e, stored, id⟩

/-- A record is rewritten under the id that it names. -/
theorem older_writes (lawful : J.Lawful) {k : Stores} (registered : Registered J k) {roomId : Str}
    (h : k.Writes J roomId storage) : Older J k.storage storage := by
  cases h with
  | @metadata metadata set =>
    unfold RoomFetcher.setRoomMetadata RoomFetcher.findRoomById at set
    cases found : k.storage.get k.now (roomKey roomId) with
    | none => rw [found] at set; cases set
    | some raw =>
      obtain ⟨e₀, stored₀, -, rfl⟩ := MemoryStorage.get_eq_some.1 found
      obtain ⟨-, snapshot, reads, named⟩ := registered roomId e₀ stored₀
      rw [found] at set
      dsimp only at set
      rw [reads] at set
      obtain ⟨text, rfl, records⟩ := addRoom_ok lawful set
      change Records J text snapshot.id at records
      intro roomId' e stored
      by_cases same : roomId' = snapshot.id
      · subst same
        rw [MemoryStorage.set, AList.lookup_insert] at stored
        obtain rfl := Option.some.inj stored
        exact ⟨e₀, by rw [named]; exact stored₀, fun _ => records⟩
      · rw [MemoryStorage.lookup_set_ne fun e => same (roomKey_injective.1 e)] at stored
        exact ⟨e, stored, id⟩
  | @gameValues values set =>
    unfold GameValues.setAll at set
    intro roomId' e stored
    cases dumped : Sio.dumpText J values with
    | error x => rw [dumped] at set; cases set
    | ok text =>
      rw [dumped] at set
      obtain rfl := Except.ok.inj set
      rw [MemoryStorage.lookup_set_ne (roomKey_ne_gameValues roomId')] at stored
      exact ⟨e, stored, id⟩

theorem storage_finishDispose (k : Ledger) (r : RoomRef) : (k.finishDispose r).storage =
    k.storage.remove (roomKey (k.lives r).roomId) := by
  unfold Ledger.finishDispose
  simp only [setLife_toStores]
  cases (k.lives r).autoDisposeTimer <;> cases (k.lives r).gameMessageSub <;>
    cases (k.lives r).playerLeftSub <;> rfl

/-- A room that is managed after a step was managed before, or the step registered it. -/
theorem Effect.managing {w : World} {cmd : Cmd} {a : Answer} {o : Out} (h : Effect J w cmd a o)
    {roomId : Str} {r : RoomRef} (managed : o.world.managingRooms.lookup roomId = some r) :
    w.managingRooms.lookup roomId = some r ∨ cmd.makes = some r := by
  have same : ∀ {k : Ledger}, o.world.ledger = k → k.managingRooms = w.managingRooms →
      w.managingRooms.lookup roomId = some r ∨ cmd.makes = some r := fun ledger kept => by
    have managing : o.world.managingRooms = w.managingRooms :=
      (congrArg Stores.managingRooms (congrArg Ledger.toStores ledger)).trans kept
    exact .inl (managing ▸ managed)
  have keeps : ∀ {k : Ledger}, o.world.ledger = k → w.ledger.Keeps k →
      w.managingRooms.lookup roomId = some r ∨ cmd.makes = some r :=
    fun ledger keeps => same ledger keeps.managingRooms
  cases h with
  | removed _ ledger => exact keeps ledger (keeps_eraseMember _ _ _)
  | disposed _ ledger => exact keeps ledger (keeps_dispose _ _ _)
  | autoDisposed _ ledger => exact keeps ledger ((keeps_dispose _ _ _).trans (keeps_started _ _))
  | timedOut _ ledger =>
    exact keeps ledger ((keeps_reconnectTimeout _ _).trans (keeps_started _ _))
  | rejoined _ ledger => exact keeps ledger (keeps_rejoined _ _)
  | still ledger | emptied ledger | purged ledger | birth _ ledger | stored _ ledger
  | unrecorded _ ledger | openInfo ledger | granted _ ledger | listened ledger | admitted ledger
  | closeInfo ledger => exact same ledger rfl
  | @ended sessionId _ _ ledger =>
    obtain ⟨_, stores⟩ := endOp_stores w.ledger sessionId
    exact same ledger (by rw [stores]; rfl)
  | @withdrawn r' _ _ ledger =>
    obtain ⟨_, _, _, stores, -⟩ := finishDispose_stores w.ledger r'
    exact same ledger (by rw [stores]; rfl)
  | @registered r' client creator _ w' storage _ ledger =>
    have managing := congrArg Stores.managingRooms (congrArg Ledger.toStores ledger)
    change w'.managingRooms = w.managingRooms.insert _ r' at managing
    change w'.managingRooms.lookup roomId = some r at managed
    rw [managing] at managed
    by_cases here : roomId = ((w.ledger.subscribeRoom r').lives r').roomId
    · rw [here, AList.lookup_insert] at managed
      exact .inr managed
    · rw [AList.lookup_insert_ne here] at managed
      exact .inl managed
  | @gone r' _ w' ledger =>
    have stores := (congrArg Ledger.toStores ledger).trans (onRoomDisposed_stores w.ledger r')
    have managing : w'.managingRooms = w.managingRooms.erase (w.rooms r').roomId :=
      congrArg Stores.managingRooms stores
    change w'.managingRooms.lookup roomId = some r at managed
    rw [managing] at managed
    by_cases here : roomId = (w.rooms r').roomId
    · rw [here, AList.lookup_erase] at managed
      cases managed
    · exact .inl (by rwa [AList.lookup_erase_ne here] at managed)

theorem Effect.files {w : World} {cmd : Cmd} {a : Answer} {o : Out} (lawful : J.Lawful)
    (registered : Registered J w.toStores) (h : Effect J w cmd a o) : Files J w o.world.toStores cmd := by
  have kept : ∀ {k : Ledger}, o.world.ledger = k → Older J w.storage k.storage →
      k.managingRooms = w.managingRooms → Files J w o.world.toStores cmd := fun ledger older same => by
    have stores := congrArg Ledger.toStores ledger
    exact .kept (by rw [show o.world.toStores = _ from stores]; exact older)
      (by rw [show o.world.toStores = _ from stores]; exact same)
  have keeps : ∀ {k : Ledger}, o.world.ledger = k → w.ledger.Keeps k → k.storage = w.storage →
      Files J w o.world.toStores cmd := fun ledger keeps same =>
    kept ledger (by rw [same]; exact .refl) keeps.managingRooms
  cases h with
  | still same | emptied same => exact keeps same (.refl _) rfl
  | purged ledger | birth _ ledger => exact kept ledger (older_purge _) rfl
  | stored writes ledger => exact kept ledger (older_writes lawful registered writes) rfl
  | unrecorded _ ledger | openInfo ledger | granted _ ledger | listened ledger | admitted ledger =>
    exact kept ledger .refl rfl
  | closeInfo ledger => exact kept ledger .refl rfl
  | removed _ ledger => exact keeps ledger (keeps_eraseMember _ _ _) rfl
  | @disposed _ _ r cause _ _ _ _ ledger =>
    exact keeps ledger (keeps_dispose _ _ _) (by rw [dispose_stores]; rfl)
  | @autoDisposed task _ r _ _ _ ledger =>
    have storage := congrArg Stores.storage (dispose_stores w.ledger r .timer)
    exact keeps ledger ((keeps_dispose _ _ _).trans (keeps_started _ _)) storage
  | @timedOut _ _ v _ _ ledger =>
    obtain ⟨_, stores⟩ := reconnectTimeout_stores w.ledger v
    have storage := congrArg Stores.storage stores
    exact keeps ledger ((keeps_reconnectTimeout _ _).trans (keeps_started _ _)) storage
  | @rejoined _ _ _ v _ _ _ _ ledger =>
    obtain ⟨_, stores⟩ := rejoined_stores w.ledger v
    have storage := congrArg Stores.storage stores
    exact keeps ledger (keeps_rejoined _ _) storage
  | @ended sessionId _ _ ledger =>
    obtain ⟨_, stores⟩ := endOp_stores w.ledger sessionId
    exact kept ledger (by rw [stores]; exact .refl) (by rw [stores]; rfl)
  | @withdrawn r _ _ ledger =>
    obtain ⟨_, _, _, stores, -⟩ := finishDispose_stores w.ledger r
    refine kept ledger ?_ (by rw [stores]; rfl)
    rw [storage_finishDispose]
    exact older_remove _
  | @registered r client creator _ w' storage added ledger =>
    obtain ⟨text, rfl, records⟩ := addRoom_ok lawful added
    have stores := congrArg Ledger.toStores ledger
    refine .registered records (congrArg Stores.storage stores) ?_
    have same : ((w.ledger.subscribeRoom r).lives r).roomId = (w.rooms r).roomId := by
      rw [subscribeRoom_self]; rfl
    refine (congrArg Stores.managingRooms stores).trans ?_
    change w.managingRooms.insert ((w.ledger.subscribeRoom r).lives r).roomId r = _
    rw [same]
  | @gone r _ w' ledger =>
    have stores := (congrArg Ledger.toStores ledger).trans (onRoomDisposed_stores w.ledger r)
    have storage := congrArg Stores.storage stores
    have managing := congrArg Stores.managingRooms stores
    exact .gone storage managing

end

/-! What a step does to one room. -/

/-- What the stores know of a room. -/
structure Post where
  roomId : Str
  gameMessageSub : Option ℕ
  playerLeftSub : Option ℕ
  autoDisposeTimer : Option ℕ
  stage : Stage

def Life.post (life : Life) : Post :=
  ⟨life.roomId, life.gameMessageSub, life.playerLeftSub, life.autoDisposeTimer, life.stage⟩

inductive Rewires (w : World) (k' : Ledger) (r : RoomRef) : Cmd → Prop where
  | same {cmd : Cmd} (post : (k'.lives r).post = (w.rooms r).toLife.post) : Rewires w k' r cmd
  | born {client : SimpleClient} {name override roomId : Str} {options : Json} {creator : Creator}
      (fresh : r = w.nextRoom) (post : (k'.lives r).post = (Life.born roomId).post) :
    Rewires w k' r (.createNewRoom client name options override creator)
  | subscribed {client : SimpleClient} {creator : Creator} {stage : Stage}
      (post : (k'.lives r).post = ⟨(w.rooms r).roomId, some w.nextListener, some (w.nextListener + 1),
        some w.nextTask, stage⟩)
      (stage : stage = (w.rooms r).stage ∨ stage = .registered) :
    Rewires w k' r (.created r client creator)
  | withdrawn (post : (k'.lives r).post =
        ⟨(w.rooms r).roomId, none, none, (w.rooms r).autoDisposeTimer, .withdrawn⟩)
      (timer : ∀ {i}, (w.rooms r).autoDisposeTimer = some i → k'.cancelled i = true) :
    Rewires w k' r (.finishDispose r)
  | gone (post : (k'.lives r).post = { (w.rooms r).toLife.post with stage := .gone }) :
    Rewires w k' r (.onRoomDisposed r)

theorem Ledger.Keeps.post {k k' : Ledger} (h : k.Keeps k') (r : RoomRef) :
    (k'.lives r).post = (k.lives r).post := by
  rw [Life.post, h.roomId, h.gameMessageSub, h.playerLeftSub, h.autoDisposeTimer, h.stage, Life.post]

section
variable {J : JsonText} {w : World} {cmd : Cmd} {a : Answer} {o : Out}

theorem Effect.rewires (h : Effect J w cmd a o) (r : RoomRef) : Rewires w o.world.ledger r cmd := by
  have same : ∀ {k : Ledger}, o.world.ledger = k → (k.lives r).post = (w.rooms r).toLife.post →
      Rewires w o.world.ledger r cmd := fun ledger post => .same (by rw [ledger]; exact post)
  have keeps : ∀ {k : Ledger}, o.world.ledger = k → w.ledger.Keeps k →
      Rewires w o.world.ledger r cmd := fun ledger keeps => same ledger (keeps.post r)
  cases h with
  | still ledger | emptied ledger => exact keeps ledger (.refl _)
  | purged ledger | stored _ ledger | openInfo ledger | closeInfo ledger => exact same ledger rfl
  | @birth _ _ _ roomId _ _ _ _ _ _ _ _ _ ledger =>
    by_cases fresh : r = w.nextRoom
    · subst fresh
      have lives := congrArg (fun k : Ledger => k.lives w.nextRoom) ledger
      exact .born rfl (congrArg Life.post (lives.trans (birth_self w.ledger roomId)))
    · exact same ledger (congrArg Life.post (birth_ne w.ledger _ fresh))
  | @registered r' _ _ _ _ storage _ ledger =>
    by_cases e : r = r'
    · subst e
      refine .subscribed ?_ (.inr rfl)
      rw [Outcome.world, ledger, registerNewRoom_self, subscribeRoom_self]
      rfl
    · refine same ledger ?_
      rw [registerNewRoom_ne _ e, subscribeRoom_ne _ e]
      rfl
  | @unrecorded r' _ _ _ _ _ _ ledger =>
    by_cases e : r = r'
    · subst e
      refine .subscribed ?_ (.inl rfl)
      rw [Outcome.world, ledger, subscribeRoom_self]
      rfl
    · refine same ledger ?_
      rw [subscribeRoom_ne _ e]
      rfl
  | removed _ ledger => exact keeps ledger (keeps_eraseMember _ _ _)
  | disposed _ ledger => exact keeps ledger (keeps_dispose _ _ _)
  | autoDisposed _ ledger => exact keeps ledger ((keeps_dispose _ _ _).trans (keeps_started _ _))
  | timedOut _ ledger => exact keeps ledger ((keeps_reconnectTimeout _ _).trans (keeps_started _ _))
  | granted _ ledger => exact same ledger (setLife_field (k := w.ledger) Life.post (by rfl) r)
  | listened ledger => exact keeps ledger (keeps_listen_app _ _ _)
  | admitted ledger => exact keeps ledger (keeps_addMember _ _ _)
  | rejoined _ ledger => exact keeps ledger (keeps_rejoined _ _)
  | @withdrawn r' _ _ ledger =>
    by_cases e : r = r'
    · subst e
      obtain ⟨_, _, _, stores, -, timer⟩ := finishDispose_stores w.ledger r
      refine .withdrawn ?_ fun set => ?_
      · rw [Outcome.world, ledger, finishDispose_self]
        rfl
      · rw [Outcome.world, ledger, stores]
        exact timer set
    · refine same ledger ?_
      rw [finishDispose_ne _ e]
      rfl
  | @gone r' _ _ ledger =>
    by_cases e : r = r'
    · subst e
      refine .gone ?_
      rw [Outcome.world, ledger, onRoomDisposed_lives]
      simp [Life.post]
    · refine same ledger ?_
      rw [onRoomDisposed_lives]
      simp [Life.post, e]
  | ended ledger => exact same ledger (by rw [endOp_lives]; rfl)

/-- A room that exists keeps its id. -/
theorem Effect.roomId (h : Effect J w cmd a o) {r : RoomRef} (born : r < w.nextRoom) :
    (o.world.rooms r).roomId = (w.rooms r).roomId := by
  rcases h.rewires r with post | ⟨fresh, -⟩ | ⟨post, -⟩ | ⟨post, -⟩ | post
  · exact congrArg Post.roomId post
  · exact absurd fresh born.ne
  · exact congrArg Post.roomId post
  · exact congrArg Post.roomId post
  · exact congrArg Post.roomId post

theorem Effect.cancelled (h : Effect J w cmd a o) {i : ℕ} (cancelled : w.cancelled i = true) :
    o.world.cancelled i = true := by
  have kept : ∀ {k : Ledger}, o.world.ledger = k → k.cancelled i = true →
      o.world.cancelled i = true := fun ledger holds => by
    have stores := congrArg Ledger.toStores ledger
    rw [show o.world.toStores = _ from stores]
    exact holds
  have same : ∀ {k : Ledger}, o.world.ledger = k → w.ledger.SameWiring k →
      o.world.cancelled i = true := fun ledger wiring => kept ledger (wiring.cancelled cancelled)
  cases h with
  | still ledger | emptied ledger => exact same ledger (.refl _)
  | purged ledger | stored _ ledger | openInfo ledger | birth _ ledger | registered _ ledger
  | unrecorded _ ledger | granted _ ledger | closeInfo ledger => exact kept ledger cancelled
  | removed _ ledger => exact same ledger (keeps_eraseMember _ _ _).toSameWiring
  | disposed _ ledger => exact same ledger (keeps_dispose _ _ _).toSameWiring
  | autoDisposed _ ledger =>
    exact same ledger ((keeps_dispose _ _ _).trans (keeps_started _ _)).toSameWiring
  | timedOut _ ledger =>
    exact same ledger ((keeps_reconnectTimeout _ _).trans (keeps_started _ _)).toSameWiring
  | listened ledger => exact same ledger (keeps_listen_app _ _ _).toSameWiring
  | admitted ledger => exact same ledger (keeps_addMember _ _ _).toSameWiring
  | rejoined _ ledger => exact same ledger (keeps_rejoined _ _).toSameWiring
  | @withdrawn r _ _ ledger =>
    obtain ⟨_, _, _, stores, cancels, -⟩ := finishDispose_stores w.ledger r
    exact kept ledger (by rw [stores]; exact cancels cancelled)
  | gone ledger => exact same ledger (sameWiring_onRoomDisposed _ _)
  | @ended sessionId _ _ ledger =>
    obtain ⟨_, stores⟩ := endOp_stores w.ledger sessionId
    exact kept ledger (by rw [stores]; exact cancelled)

/-- A disposal that begins is on the stack. -/
theorem Effect.disposing (h : Effect J w cmd a o) {r : RoomRef}
    (disposing : (o.world.rooms r).disposing = true) :
    (w.rooms r).disposing = true ∨ ∃ left, .disposeLoop r left ∈ o.push := by
  have same : ∀ {k : Ledger}, o.world.ledger = k →
      (k.lives r).disposing = (w.rooms r).disposing → (w.rooms r).disposing = true ∨
        ∃ left, .disposeLoop r left ∈ o.push := fun ledger kept => by
    have lives := congrArg (fun k : Ledger => (k.lives r).disposing) ledger
    exact .inl (kept.symm.trans (lives.symm.trans disposing))
  have begins : ∀ {k : Ledger} {r' : RoomRef} {cause : Cause} {push left : List Cmd},
      o.world.ledger.lives = k.lives → k = w.ledger.dispose r' cause → o.push = push ++ left →
      push = (if (w.rooms r').disposing then []
        else [.disposeLoop r' ((w.rooms r').clients.map SimpleClient.sessionId)]) →
      (w.rooms r).disposing = true ∨ ∃ left, .disposeLoop r left ∈ o.push := by
    rintro k r' cause push left lives rfl pushed starts
    cases running : (w.rooms r').disposing with
    | true =>
      have kept : w.ledger.dispose r' cause = w.ledger := if_pos running
      rw [kept] at lives
      exact .inl ((congrArg Life.disposing (congrFun lives r)).symm.trans disposing)
    | false =>
      by_cases e : r = r'
      · subst e
        refine .inr ⟨(w.rooms r).clients.map SimpleClient.sessionId, ?_⟩
        rw [pushed, starts, running]
        exact List.mem_append_left _ List.mem_cons_self
      · left
        have kept : w.ledger.dispose r' cause = w.ledger.setLife r' _ := if_neg (by simp [running])
        rw [kept] at lives
        have other := (congrFun lives r).trans (setLife_ne _ e _)
        exact (congrArg Life.disposing other).symm.trans disposing
  cases h with
  | still ledger | emptied ledger => exact same ledger rfl
  | purged ledger | stored _ ledger | openInfo ledger | closeInfo ledger => exact same ledger rfl
  | @birth _ _ _ roomId _ _ _ _ _ _ _ _ _ ledger =>
    by_cases fresh : r = w.nextRoom
    · subst fresh
      have lives := congrArg (fun k : Ledger => (k.lives w.nextRoom).disposing) ledger
      have born := congrArg Life.disposing (birth_self w.ledger roomId)
      cases disposing.symm.trans (lives.trans born)
    · exact same ledger (congrArg Life.disposing (birth_ne w.ledger roomId fresh))
  | registered _ ledger =>
    exact same ledger (((Ledger.sameStory_subscribeRoom _ _).trans
      (Ledger.sameStory_registerNewRoom _ _ _)).disposing r)
  | unrecorded _ ledger => exact same ledger ((Ledger.sameStory_subscribeRoom _ _).disposing r)
  | removed _ ledger =>
    exact same ledger (setLife_field (k := w.ledger) Life.disposing (by rfl) r)
  | disposed _ ledger starts => exact begins (congrArg Ledger.lives ledger) rfl rfl starts
  | @autoDisposed _ _ r' _ _ _ ledger starts =>
    have lives := congrArg Ledger.lives ledger
    exact begins (k := w.ledger.dispose r' .timer) lives rfl (List.append_nil _).symm starts
  | timedOut _ ledger => exact same ledger ((Ledger.sameStory_reconnectTimeout _ _).disposing r)
  | granted _ ledger => exact same ledger ((Ledger.sameStory_allowReconnection _ _ _ _ _).disposing r)
  | listened ledger => exact same ledger ((Ledger.sameStory_listen _ _ _ _).disposing r)
  | admitted ledger =>
    exact same ledger (setLife_field (k := w.ledger) Life.disposing (by rfl) r)
  | rejoined _ ledger => exact same ledger ((Ledger.sameStory_rejoined _ _).disposing r)
  | withdrawn ledger => exact same ledger ((Ledger.sameStory_finishDispose _ _).disposing r)
  | gone ledger => exact same ledger (by rw [onRoomDisposed_lives]; rfl)
  | ended ledger => exact same ledger (by rw [endOp_lives]; rfl)

theorem Effect.nextRoom (h : Effect J w cmd a o) :
    o.world.nextRoom = w.nextRoom ∨ ∃ client name options override creator id₁ id₂ id₃ factory,
      cmd = .createNewRoom client name options override creator ∧ a = .create id₁ id₂ id₃ factory := by
  have kept : ∀ {k : Ledger}, o.world.ledger = k → k.nextRoom = w.nextRoom →
      o.world.nextRoom = w.nextRoom := fun ledger same =>
    (congrArg (fun k : Ledger => k.nextRoom) ledger).trans same
  have wiring : ∀ {k : Ledger}, o.world.ledger = k → w.ledger.SameWiring k →
      o.world.nextRoom = w.nextRoom := fun ledger same => kept ledger same.nextRoom
  cases h with
  | birth => exact .inr ⟨_, _, _, _, _, _, _, _, _, rfl, rfl⟩
  | still ledger | emptied ledger => exact .inl (wiring ledger (.refl _))
  | purged ledger | stored _ ledger | openInfo ledger | registered _ ledger | unrecorded _ ledger
  | granted _ ledger | closeInfo ledger => exact .inl (kept ledger rfl)
  | removed _ ledger => exact .inl (wiring ledger (keeps_eraseMember _ _ _).toSameWiring)
  | disposed _ ledger => exact .inl (wiring ledger (keeps_dispose _ _ _).toSameWiring)
  | autoDisposed _ ledger =>
    exact .inl (wiring ledger ((keeps_dispose _ _ _).trans (keeps_started _ _)).toSameWiring)
  | timedOut _ ledger =>
    exact .inl (wiring ledger ((keeps_reconnectTimeout _ _).trans (keeps_started _ _)).toSameWiring)
  | listened ledger => exact .inl (wiring ledger (keeps_listen_app _ _ _).toSameWiring)
  | admitted ledger => exact .inl (wiring ledger (keeps_addMember _ _ _).toSameWiring)
  | rejoined _ ledger => exact .inl (wiring ledger (keeps_rejoined _ _).toSameWiring)
  | @withdrawn r _ _ ledger =>
    obtain ⟨_, _, _, stores, -⟩ := finishDispose_stores w.ledger r
    exact .inl (kept ledger (by rw [stores]; rfl))
  | gone ledger => exact .inl (wiring ledger (sameWiring_onRoomDisposed _ _))
  | @ended sessionId _ _ ledger =>
    obtain ⟨_, stores⟩ := endOp_stores w.ledger sessionId
    exact .inl (kept ledger (by rw [stores]; rfl))

theorem Unwound.rooms {x : Exn} (h : Unwound w cmd x a o) (r : RoomRef) :
    (o.world.rooms r).toLife.post = (w.rooms r).toLife.post := by
  cases h with
  | passed | handled => rfl
  | caught _ same => exact congrArg (fun k : Ledger => (k.lives r).post) same
  | rolledBack ledger =>
    have lives := congrArg (fun k : Ledger => (k.lives r).post) ledger
    exact lives.trans ((keeps_dispose _ _ _).post r)

theorem Arrival.frame {w' : World} {e : EnvEvent} {new : List (Tid × List Cmd)}
    (h : Arrival w e w' new) : w'.rooms = w.rooms ∧ w'.storage = w.storage ∧
      w'.managingRooms = w.managingRooms ∧ w'.cancelled = w.cancelled ∧ w'.nextRoom = w.nextRoom := by
  cases h <;> exact ⟨rfl, rfl, rfl, rfl, rfl⟩

theorem Kept.stays_disposing {M : MsgpackC} {c c' : ServerConfig} {l : Label Answer EnvEvent}
    (kept : Kept c) (h : Step (server M J) c l c') {r : RoomRef}
    (born : r < c.world.nextRoom) (disposing : (c.world.rooms r).disposing = true) :
    r < c'.world.nextRoom ∧ (c'.world.rooms r).disposing = true := by
  have later : ∀ {w : World} {made : Option RoomRef}, Later c.world.ledger w.ledger made →
      r < w.nextRoom ∧ (w.rooms r).disposing = true := fun later =>
    ⟨lt_of_lt_of_le born later.nextRoom, later.disposing born disposing⟩
  cases h with
  | finish | crash | take => exact ⟨born, disposing⟩
  | exec _ top run =>
    rw [world_settle]
    have stack := kept.stack top
    exact later ((exec_effect M J run).sound kept.sound (stack.ok _ List.mem_cons_self)).2
  | unwind _ top run =>
    rw [world_settle]
    have effect := unwind_effect run
    have stores := effect.stores
    refine ⟨by rw [show _ = c.world.nextRoom from congrArg Stores.nextRoom stores]; exact born, ?_⟩
    cases effect with
    | passed | handled => exact disposing
    | caught _ same =>
      have lives := congrArg (fun k : Ledger => (k.lives r).disposing) same
      exact lives.trans disposing
    | rolledBack ledger =>
      have lives := congrArg (fun k : Ledger => (k.lives r).disposing) ledger
      exact lives.trans ((keeps_dispose _ _ _).disposing disposing)
  | env _ run =>
    obtain ⟨rooms, -, -, -, nextRoom⟩ := (spawn_arrival run).frame
    exact ⟨by rw [nextRoom]; exact born, by rw [rooms]; exact disposing⟩

/-- A room without listeners has no timer left. -/
def Paired (k : Ledger) : Prop := ∀ r, (k.lives r).gameMessageSub = none →
  (k.lives r).playerLeftSub = none ∧
    ∀ i, (k.lives r).autoDisposeTimer = some i → k.cancelled i = true

theorem Effect.paired (h : Effect J w cmd a o) (paired : Paired w.ledger) :
    Paired o.world.ledger := by
  intro r loose
  have kept : (o.world.ledger.lives r).gameMessageSub = (w.rooms r).gameMessageSub →
      (o.world.ledger.lives r).playerLeftSub = (w.rooms r).playerLeftSub →
      (o.world.ledger.lives r).autoDisposeTimer = (w.rooms r).autoDisposeTimer →
      (o.world.ledger.lives r).playerLeftSub = none ∧
        ∀ i, (o.world.ledger.lives r).autoDisposeTimer = some i → o.world.cancelled i = true := by
    intro game left timer
    obtain ⟨none, stopped⟩ := paired r (game.symm.trans loose)
    exact ⟨left.trans none, fun i set => h.cancelled (stopped i (timer.symm.trans set))⟩
  rcases h.rewires r with post | ⟨-, post⟩ | ⟨post, -⟩ | ⟨post, timer⟩ | post
  · exact kept (congrArg Post.gameMessageSub post) (congrArg Post.playerLeftSub post)
      (congrArg Post.autoDisposeTimer post)
  · refine ⟨congrArg Post.playerLeftSub post, fun i set => ?_⟩
    cases (congrArg Post.autoDisposeTimer post).symm.trans set
  · cases loose.symm.trans (congrArg Post.gameMessageSub post)
  · refine ⟨congrArg Post.playerLeftSub post, fun i set => timer ?_⟩
    exact (congrArg Post.autoDisposeTimer post).symm.trans set
  · exact kept (congrArg Post.gameMessageSub post) (congrArg Post.playerLeftSub post)
      (congrArg Post.autoDisposeTimer post)

/-- Only `dispose` itself leaves `on_room_disposed` to do, after it has removed the record. -/
theorem Effect.withdrawing (h : Effect J w cmd a o) {r : RoomRef} (mem : .onRoomDisposed r ∈ o.push) :
    o.world.storage.entries.lookup (roomKey (o.world.rooms r).roomId) = none := by
  cases h.pushed mem with
  | child child => cases child
  | leave _ mem => simp [leaveOf] at mem
  | onRoomDisposed =>
    cases h with
    | still _ children => cases children _ mem
    | removed calls => cases calls
    | disposed calls => cases calls
    | @withdrawn _ _ w' ledger =>
      have storage : w'.ledger.storage = _ := ledger ▸ storage_finishDispose w.ledger r
      have roomId : (w'.ledger.lives r).roomId = (w.ledger.lives r).roomId := by
        rw [ledger, finishDispose_self]
      change w'.ledger.storage.entries.lookup (roomKey (w'.ledger.lives r).roomId) = none
      rw [storage, roomId]
      exact MemoryStorage.lookup_remove_self _ _

end

structure Filed (J : JsonText) (c : ServerConfig) : Prop where
  registered : Registered J c.world.toStores
  paired : Paired c.world.ledger
  withdrawn : ∀ {tid stack x r}, c.running = some ⟨tid, stack, x⟩ → .onRoomDisposed r ∈ stack →
    c.world.storage.entries.lookup (roomKey (c.world.rooms r).roomId) = none

section
variable {M : MsgpackC} {J : JsonText} {c c' : ServerConfig} {l : Label Answer EnvEvent}

theorem Filed.exec {tid : Tid} {cmd : Cmd} {rest : List Cmd} {a : Answer} {o : Out}
    (filed : Filed J c) (kept : Kept c) (lawful : J.Lawful)
    (top : c.running = some ⟨tid, cmd :: rest, none⟩) (run : exec M J c.world cmd a = some o) :
    Filed J (settle c tid rest o) := by
  have effect := exec_effect M J run
  have files := effect.files lawful filed.registered
  have stack := kept.stack top
  refine ⟨?_, ?_, fun {tid' stack' x r} running mem => ?_⟩
  · rw [world_settle]
    intro roomId e stored
    rcases files with ⟨older, managing⟩ | ⟨records, storage, managing⟩ | ⟨storage, managing⟩
    · obtain ⟨e₀, stored₀, records⟩ := older roomId e stored
      obtain ⟨managed, records₀⟩ := filed.registered roomId e₀ stored₀
      exact ⟨by rw [managing]; exact managed, records records₀⟩
    · rename_i r client creator text
      rw [storage] at stored
      rw [managing]
      by_cases same : roomId = (c.world.rooms r).roomId
      · subst same
        rw [MemoryStorage.set, AList.lookup_insert] at stored
        obtain rfl := Option.some.inj stored
        exact ⟨by rw [AList.lookup_insert]; rfl, records⟩
      · rw [MemoryStorage.lookup_set_ne fun e => same (roomKey_injective.1 e)] at stored
        rw [AList.lookup_insert_ne same]
        exact filed.registered roomId e stored
    · rename_i r
      rw [storage] at stored
      have other : roomId ≠ (c.world.rooms r).roomId := by
        rintro rfl
        rw [filed.withdrawn top List.mem_cons_self] at stored
        cases stored
      rw [managing, AList.lookup_erase_ne other]
      exact filed.registered roomId e stored
  · rw [world_settle]
    exact effect.paired filed.paired
  · obtain ⟨rfl, rfl, rfl⟩ := Thread.mk.inj (running_settle running)
    rw [world_settle]
    rcases List.mem_append.1 mem with mem | mem
    · exact effect.withdrawing mem
    · have absent := filed.withdrawn top (List.mem_cons_of_mem _ mem)
      have born : r < c.world.nextRoom := (stack.ok _ (List.mem_cons_of_mem _ mem)).1
      have quiet : Quiet c.world.ledger cmd :=
        (List.pairwise_cons.1 stack.order).1 _ mem (by simp [Cmd.withdraws])
      rw [effect.roomId born]
      rcases files with ⟨older, -⟩ | ⟨-, -, -⟩ | ⟨storage, -⟩
      · cases stored : o.world.storage.entries.lookup (roomKey (c.world.rooms r).roomId) with
        | none => rfl
        | some e =>
          obtain ⟨e₀, stored₀, -⟩ := older _ e stored
          cases absent.symm.trans stored₀
      · cases quiet.choose_spec.1
      · rw [storage]
        exact absent

theorem Filed.step (filed : Filed J c) (kept : Kept c) (lawful : J.Lawful)
    (h : Step (server M J) c l c') : Filed J c' := by
  cases h with
  | finish => exact ⟨filed.registered, filed.paired, nofun⟩
  | crash => exact ⟨filed.registered, filed.paired, filed.withdrawn⟩
  | exec _ top run => exact filed.exec kept lawful top run
  | @unwind tid cmd rest x a o _ top run =>
    have effect := unwind_effect run
    have stores := effect.stores
    have posts := effect.rooms
    refine ⟨?_, fun r loose => ?_, fun {tid' stack' x' r} running mem => ?_⟩
    · rw [world_settle, stores]
      exact filed.registered
    · rw [world_settle] at loose ⊢
      obtain ⟨none, stopped⟩ := filed.paired r
        ((congrArg Post.gameMessageSub (posts r)).symm.trans loose)
      refine ⟨(congrArg Post.playerLeftSub (posts r)).trans none, fun i set => ?_⟩
      have cancelled : o.world.cancelled = c.world.cancelled := congrArg Stores.cancelled stores
      exact (congrFun cancelled i).trans
        (stopped i ((congrArg Post.autoDisposeTimer (posts r)).symm.trans set))
    · obtain ⟨rfl, rfl, rfl⟩ := Thread.mk.inj (running_settle running)
      have below : .onRoomDisposed r ∈ cmd :: rest := by
        refine List.mem_cons_of_mem _ ((List.mem_append.1 mem).resolve_left fun mem => ?_)
        cases effect.resumed mem
      have roomId : (o.world.rooms r).roomId = (c.world.rooms r).roomId :=
        congrArg Post.roomId (posts r)
      have storage : o.world.storage = c.world.storage := congrArg Stores.storage stores
      rw [world_settle, roomId, storage]
      exact filed.withdrawn top below
  | take _ _ at_i =>
    refine ⟨filed.registered, filed.paired, fun running mem => ?_⟩
    cases running
    exact absurd ((kept.parked (List.mem_of_getElem? at_i)).2 _ mem) (by simp [Cmd.withdraws])
  | env _ run =>
    obtain ⟨rooms, storage, managing, cancelled, -⟩ := (spawn_arrival run).frame
    refine ⟨?_, fun r loose => ?_, fun running mem => ?_⟩
    · intro roomId e stored
      dsimp only at stored ⊢
      rw [storage] at stored
      rw [managing]
      exact filed.registered roomId e stored
    · rw [ledger_lives] at loose ⊢
      dsimp only at loose ⊢
      rw [rooms] at loose ⊢
      rw [ledger_toStores, cancelled]
      exact filed.paired r loose
    · dsimp only
      rw [rooms, storage]
      exact filed.withdrawn running mem

theorem Filed.initial : Filed J ServerConfig.initial :=
  ⟨nofun, fun _ _ => ⟨rfl, nofun⟩, nofun⟩

end

end Blueboat
