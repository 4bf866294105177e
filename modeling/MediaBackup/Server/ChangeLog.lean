import MediaBackup.Server.Ownership

/-!
# What a client is told

Every transaction that changes what a client sees of an asset is to record that in the change log
of the account. All of them do, but for the first transaction of `create_upload`, which rewrites
an asset it finds.
-/

namespace MediaBackup

/-- What a client sees of an asset row. -/
structure AssetView where
  mediaKind : MediaKind
  sourceCreatedAtMs : Int
  favorite : Bool
  archived : Bool
  trashed : Bool
  deriving DecidableEq

def Asset.view (a : Asset) : AssetView :=
  ⟨a.mediaKind, a.sourceCreatedAtMs, a.favorite, a.archived, a.deletedAt.isSome⟩

/-- The asset and its resources are shown as before. -/
structure SameView (assetId : Uuid) (db db' : Database) : Prop where
  asset : (db'.assets.lookup assetId).map Asset.view = (db.assets.lookup assetId).map Asset.view
  resources : ∀ id, (db'.resources.lookup id).filter (fun r => r.assetId = assetId) =
    (db.resources.lookup id).filter fun r => r.assetId = assetId

/-- The log has grown by a row of the account that names the asset. -/
def Announces (assetId accountId : Uuid) (db db' : Database) : Prop :=
  ∃ rows, db'.accountChanges = db.accountChanges ++ rows ∧ ∃ change ∈ rows,
    change.accountId = accountId ∧ change.entityKind = "asset" ∧ change.entityId = assetId

/-- Every asset that was there is shown as before, or its change has been recorded. -/
def Announced (db db' : Database) : Prop :=
  ∀ id a, db.assets.lookup id = some a → SameView id db db' ∨ Announces id a.accountId db db'

/-- The request names an asset that is shown otherwise than it says, or is in the trash. -/
def Overwrites (auth : AuthContext) (request : CreateUploadRequest) (db : Database) : Prop :=
  ∃ id a, findAsset auth.accountId auth.deviceId request.sourceAssetId db = some (id, a) ∧
    (a.mediaKind ≠ request.mediaKind ∨ a.sourceCreatedAtMs ≠ request.sourceCreatedAtMs ∨
      a.deletedAt.isSome)

/-- The step is the first transaction of a `create_upload` whose request overwrites an asset. -/
def Unannounced (s s' : Server) : Prop :=
  ∃ auth request now plan db, planUpload auth request now s.uuids s.db = .ok (plan, db) ∧
    s' = s.store db ∧ Overwrites auth request s.db

theorem SameView.of_eq {assetId : Uuid} {db db' : Database} (ha : db'.assets = db.assets)
    (hr : db'.resources = db.resources) : SameView assetId db db' :=
  ⟨by rw [ha], fun id => by rw [hr]⟩

theorem SameView.trans {assetId : Uuid} {db db' db'' : Database} (h : SameView assetId db db')
    (h' : SameView assetId db' db'') : SameView assetId db db'' :=
  ⟨h'.asset.trans h.asset, fun id => (h'.resources id).trans (h.resources id)⟩

theorem Announces.of_append {assetId accountId : Uuid} {db db' db'' : Database}
    (h : Announces assetId accountId db db') {rows : List AccountChange}
    (hrows : db''.accountChanges = db'.accountChanges ++ rows) :
    Announces assetId accountId db db'' := by
  obtain ⟨rows', hrows', change, hmem, hchange⟩ := h
  exact ⟨rows' ++ rows, by rw [hrows, hrows', List.append_assoc], change,
    List.mem_append_left _ hmem, hchange⟩

theorem Announces.of_prepend {assetId accountId : Uuid} {db db' db'' : Database}
    {rows : List AccountChange} (hrows : db'.accountChanges = db.accountChanges ++ rows)
    (h : Announces assetId accountId db' db'') : Announces assetId accountId db db'' := by
  obtain ⟨rows', hrows', change, hmem, hchange⟩ := h
  exact ⟨rows ++ rows', by rw [hrows', hrows, List.append_assoc], change,
    List.mem_append_right _ hmem, hchange⟩

/-! ## The first transaction of `create_upload` -/

/-- The asset row a request leaves. -/
theorem planUpload_assets {auth : AuthContext} {request : CreateUploadRequest} {now fresh : Nat}
    {db db' : Database} {plan : UploadPlan}
    (h : planUpload auth request now fresh db = .ok (plan, db')) :
    db'.accountChanges = db.accountChanges ∧ db'.resources = db.resources ∧
      ((∃ id a, findAsset auth.accountId auth.deviceId request.sourceAssetId db = some (id, a) ∧
          db'.assets = db.assets.insert id { a with
            mediaKind := request.mediaKind
            sourceCreatedAtMs := request.sourceCreatedAtMs
            updatedAt := now
            deletedAt := none }) ∨
        ∃ row, db'.assets = db.assets.insert fresh row ∧
          findAsset auth.accountId auth.deviceId request.sourceAssetId db = none) := by
  obtain ⟨account, assetId, db₁, -, hup, hcase⟩ := planUpload_ok h
  have hrest : db'.accountChanges = db₁.accountChanges ∧ db'.resources = db₁.resources ∧
      db'.assets = db₁.assets := by
    rcases hcase with ⟨_, _, _, _, rfl⟩ | ⟨_, _, _, _, rfl⟩ | ⟨_, _, _, rfl⟩ <;>
      exact ⟨rfl, rfl, rfl⟩
  obtain ⟨hchanges, hresources, hassets⟩ := hrest
  rw [hchanges, hresources, hassets]
  unfold upsertAsset at hup
  split at hup
  · rename_i id a hfind
    obtain ⟨rfl, rfl⟩ := Prod.mk.inj hup
    exact ⟨rfl, rfl, .inl ⟨id, a, hfind, rfl⟩⟩
  · rename_i hfind
    obtain ⟨rfl, rfl⟩ := Prod.mk.inj hup
    exact ⟨rfl, rfl, .inr ⟨_, rfl, hfind⟩⟩

/-- A request that overwrites an asset changes its view and records nothing. -/
theorem Unannounced.not_announced {s s' : Server} (h : Unannounced s s') :
    ¬Announced s.db s'.db := by
  obtain ⟨auth, request, now, plan, db, hplan, rfl, id, a, hfind, hdiffers⟩ := h
  obtain ⟨hchanges, -, hcase⟩ := planUpload_assets hplan
  have hlook := (findAsset_some hfind).1
  intro hannounced
  rcases hannounced id a hlook with hsame | ⟨rows, hrows, change, hmem, -⟩
  · have hview := hsame.asset
    rcases hcase with ⟨id', a', hfind', hassets⟩ | ⟨row, -, hnone⟩
    · obtain ⟨rfl, rfl⟩ := Prod.mk.inj (Option.some.inj (hfind.symm.trans hfind'))
      simp only [Server.store, hassets, AList.lookup_insert, hlook, Option.map_some, Asset.view,
        Option.some.injEq, AssetView.mk.injEq, Option.isSome_none] at hview
      rcases hdiffers with hkind | hcreated | htrashed
      · exact hkind hview.1.symm
      · exact hcreated hview.2.1.symm
      · rw [← hview.2.2.2.2] at htrashed
        cases htrashed
    · rw [hfind] at hnone
      cases hnone
  · have hlog : db.accountChanges = s.db.accountChanges ++ rows := hrows
    have hnil : rows = [] := by simpa [hchanges] using hlog
    rw [hnil] at hmem
    cases hmem

/-- A request that overwrites no asset leaves every asset as it was shown. -/
theorem planUpload_sameView {s : Server} (ho : s.Owned) {auth : AuthContext}
    {request : CreateUploadRequest} {now : Nat} {plan : UploadPlan} {db : Database}
    (hplan : planUpload auth request now s.uuids s.db = .ok (plan, db))
    (h : ¬Overwrites auth request s.db) {id : Uuid} {a : Asset}
    (ha : s.db.assets.lookup id = some a) : SameView id s.db db := by
  obtain ⟨-, hresources, hcase⟩ := planUpload_assets hplan
  refine ⟨?_, fun resourceId => by rw [hresources]⟩
  rcases hcase with ⟨id', a', hfind, hassets⟩ | ⟨row, hassets, -⟩
  · rw [hassets, Table.lookup_insert_eq]
    split
    · rename_i hid
      subst hid
      have hlook := (findAsset_some hfind).1
      have hkeeps : a'.mediaKind = request.mediaKind ∧
          a'.sourceCreatedAtMs = request.sourceCreatedAtMs ∧ a'.deletedAt = none := by
        refine ⟨?_, ?_, ?_⟩ <;> by_contra hne
        · exact h ⟨_, a', hfind, .inl hne⟩
        · exact h ⟨_, a', hfind, .inr (.inl hne)⟩
        · exact h ⟨_, a', hfind, .inr (.inr (Option.isSome_iff_ne_none.mpr hne))⟩
      rw [hlook]
      simp [Asset.view, hkeeps.1, hkeeps.2.1, hkeeps.2.2]
    · rfl
  · rw [hassets, Table.lookup_insert_eq, if_neg (Nat.ne_of_lt (ho.assets id a ha))]

/-! ## The other steps -/

/-- The statements that write rows a client sees. -/
def Kind.shows : Kind → Bool
  | .plan .. | .attach .. | .change .. | .delete .. | .commit .. => true
  | _ => false

namespace Change

variable [Blake3] {t : Nat} {site : Site} {k : Kind} {s s' : Server}

theorem quiet (h : Change t site k s s') (hk : k.shows = false) :
    s'.db.assets = s.db.assets ∧ s'.db.resources = s.db.resources ∧
      s'.db.accountChanges = s.db.accountChanges := by
  cases k with
  | receive =>
    obtain ⟨-, -, a, db, hrun, rfl⟩ := h
    cases hrun
    exact ⟨rfl, rfl, rfl⟩
  | start =>
    obtain ⟨-, -, -, a, db, hrun, rfl⟩ := h
    obtain ⟨u, account, policy, start, -, -, -, -, -, -, rfl⟩ := startCommit_ok hrun
    exact ⟨rfl, rfl, rfl⟩
  | finalize =>
    obtain ⟨-, -, a, db, hrun, rfl⟩ := h
    obtain ⟨u, -, -, rfl⟩ := finalizeUpload_ok hrun
    exact ⟨rfl, rfl, rfl⟩
  | doubt | reject =>
    obtain ⟨-, -, -, a, db, hrun, rfl⟩ := h
    cases hrun
    exact ⟨rfl, rfl, rfl⟩
  | commitReclaim =>
    obtain ⟨-, -, rfl⟩ := h
    exact ⟨rfl, rfl, rfl⟩
  | plan | attach | change | delete | commit => cases hk
  | _ =>
    rw [h.db_eq rfl]
    exact ⟨rfl, rfl, rfl⟩

theorem changed_rows {auth : AuthContext} {assetId : Uuid} {action : String}
    {f : Nat → Asset → Asset} {now : Nat} (h : Change t site (.change auth assetId action f now) s s') :
    ∃ asset, s.db.assets.lookup assetId = some asset ∧ asset.accountId = auth.accountId ∧
      s'.db.assets = s.db.assets.insert assetId (f now asset) ∧
      s'.db.resources = s.db.resources ∧ s'.db.accountChanges =
        s.db.accountChanges ++ [⟨auth.accountId, "asset", assetId, "upsert", now⟩] := by
  obtain ⟨-, -, a, db, hrun, rfl⟩ := h
  obtain ⟨asset, hasset, hacc, rfl⟩ := changeAsset_ok hrun
  exact ⟨asset, hasset, hacc, rfl, rfl, rfl⟩

theorem deleted_log {auth : AuthContext} {assetId : Uuid} {now : Nat}
    (h : Change t site (.delete auth assetId now) s s') : s'.db.accountChanges =
      s.db.accountChanges ++ [⟨auth.accountId, "asset", assetId, "delete", now⟩] := by
  obtain ⟨-, a, db, hrun, rfl⟩ := h
  obtain ⟨asset, -, -, rfl⟩ := deleteAsset_ok hrun
  rfl

/-- The log only grows. -/
theorem log (h : Change t site k s s') :
    ∃ rows, s'.db.accountChanges = s.db.accountChanges ++ rows := by
  cases k with
  | plan =>
    obtain ⟨-, plan, db, hrun, rfl⟩ := h
    exact ⟨[], by simpa [Server.store] using (planUpload_assets hrun).1⟩
  | attach =>
    obtain ⟨_, _, -, -, -, -, -, -, -, -, -, hlog, -⟩ := h.attached_rows
    exact ⟨_, hlog⟩
  | change =>
    obtain ⟨_, -, -, -, -, hlog⟩ := h.changed_rows
    exact ⟨_, hlog⟩
  | delete => exact ⟨_, h.deleted_log⟩
  | commit =>
    rcases h.committed_rows with hdb | ⟨_, _, _, _, -, -, -, -, -, -, -, -, -, -, hlog, -⟩
    · exact ⟨[], by simp [hdb]⟩
    · exact ⟨_, hlog⟩
  | _ => exact ⟨[], by simpa using (h.quiet rfl).2.2⟩

omit [Blake3] in
/-- A resource that is written belongs to the asset that is named with it. -/
theorem sameView_of_resource {db db' : Database} {assetId id : Uuid} {row : Resource}
    (hassets : db'.assets = db.assets) (hresources : db'.resources = db.resources.insert id row)
    (hrow : row.assetId = assetId)
    (hold : ∀ old, db.resources.lookup id = some old → old.assetId = assetId) {other : Uuid}
    (hne : other ≠ assetId) : SameView other db db' := by
  refine ⟨by rw [hassets], fun resourceId => ?_⟩
  rw [hresources, Table.lookup_insert_eq]
  split
  · rename_i hid
    subst hid
    have hnew : Option.filter (fun r : Resource => decide (r.assetId = other)) (some row) = none := by
      simp [Option.filter, hrow, hne.symm]
    rw [hnew]
    cases hlook : db.resources.lookup resourceId with
    | none => rfl
    | some old => simp [Option.filter, hold old hlook, hne.symm]
  · rfl

omit [Blake3] in
/-- The resource row an upsert writes was of the asset before, if it was there. -/
theorem resource_target (ho : s.Owned) {id assetId : Uuid} {source : String}
    (target : (∃ old, findResource assetId source s.db = some (id, old)) ∨
      findResource assetId source s.db = none ∧ id = s.uuids) (old : Resource)
    (hlook : s.db.resources.lookup id = some old) : old.assetId = assetId := by
  rcases target with ⟨old', hfind⟩ | ⟨-, hfresh⟩
  · obtain ⟨hlook', hasset, -⟩ := findResource_some hfind
    rw [hlook] at hlook'
    cases hlook'
    exact hasset
  · exact absurd hfresh (Nat.ne_of_lt (ho.drawn id old hlook))

/-- Every step but an overwriting first transaction of `create_upload` records what it changes. -/
theorem announced {W : World} (h : Change t site k s s')
    (hinv : ∀ s, W.inv s → s.Valid ∧ s.Owned) (hg : Grounds W t k s) (ho : s.Owned)
    (hno : ¬Unannounced s s') : Announced s.db s'.db := by
  intro id a ha
  cases k with
  | plan auth request now =>
    obtain ⟨-, plan, db, hrun, rfl⟩ := h
    have hover : ¬Overwrites auth request s.db := fun hover =>
      hno ⟨auth, request, now, plan, db, hrun, rfl, hover⟩
    exact .inl (planUpload_sameView ho hrun hover ha)
  | attach auth assetId blobId request now =>
    obtain ⟨resourceId, row, hresources, hrow, -, -, -, hassets, -, -, -, hlog, htarget⟩ :=
      h.attached_rows
    by_cases hid : id = assetId
    · have hacc : a.accountId = auth.accountId := (hg.attach_owned hinv).1.2 a (hid ▸ ha)
      exact .inr ⟨_, hlog, _, List.mem_singleton.mpr rfl, hacc.symm, rfl, hid.symm⟩
    · exact .inl (sameView_of_resource hassets hresources hrow (resource_target ho htarget) hid)
  | change auth assetId action f now =>
    obtain ⟨asset, hasset, hacc, hassets, hresources, hlog⟩ := h.changed_rows
    by_cases hid : id = assetId
    · rw [hid, hasset] at ha
      cases ha
      exact .inr ⟨_, hlog, _, List.mem_singleton.mpr rfl, hacc.symm, rfl, hid.symm⟩
    · refine .inl ⟨?_, fun resourceId => by rw [hresources]⟩
      rw [hassets, AList.lookup_insert_ne hid]
  | delete auth assetId now =>
    obtain ⟨asset, hasset, hacc, hassets, -, hresources, -⟩ := h.deleted_rows
    by_cases hid : id = assetId
    · rw [hid, hasset] at ha
      cases ha
      exact .inr ⟨_, h.deleted_log, _, List.mem_singleton.mpr rfl, hacc.symm, rfl, hid.symm⟩
    · refine .inl ⟨?_, fun resourceId => ?_⟩
      · rw [hassets, AList.lookup_erase_ne hid]
      · rw [hresources, Table.lookup_deleteWhere, Option.filter_filter]
        congr 1
        funext r
        by_cases hr : r.assetId = id
        · simp [hr, hid]
        · simp [hr]
  | commit ready approved now =>
    rcases h.committed_rows with hdb | ⟨u, resourceId, row, b, hu, hready, -, hresources, hrow, -,
      -, -, hassets, -, hlog, htarget⟩
    · exact .inl (.of_eq (by rw [hdb]) (by rw [hdb]))
    · by_cases hid : id = ready.assetId
      · obtain ⟨a', ha', hacc, -⟩ := ho.uploads _ u hu
        rw [hready.assetId, ← hid, ha] at ha'
        cases ha'
        refine .inr ⟨_, hlog, _, List.mem_singleton.mpr rfl, ?_, rfl, hid.symm⟩
        rw [hacc, hready.accountId]
      · exact .inl (sameView_of_resource hassets hresources hrow (resource_target ho htarget) hid)
  | _ =>
    obtain ⟨hassets, hresources, -⟩ := h.quiet rfl
    exact .inl (.of_eq hassets hresources)

end Change

/-! ## Runs -/

section

variable [Blake3]

/-- What one event of a run does to the assets and to the log. -/
theorem event_announced_iff {config : Config} {p : ServerPool}
    (hp : Sound World.sound.context World.sound.inv (fun _ _ _ _ => True) p) (ev : ServerEvent) :
    (Announced p.state.db ((machine config).next p ev).state.db ↔
      ¬Unannounced p.state ((machine config).next p ev).state) ∧
    ∃ rows, ((machine config).next p ev).state.db.accountChanges =
      p.state.db.accountChanges ++ rows := by
  have unchanged : ∀ s' : Server, s'.db = p.state.db → Announced p.state.db s'.db := by
    intro s' hdb id a _
    rw [hdb]
    exact .inl (.of_eq rfl rfl)
  refine ⟨⟨fun h hun => hun.not_announced h, fun hno => ?_⟩, ?_⟩
  · rcases World.sound_governs.moves config hp ev trivial with
      hsame | ⟨t, e, c, site, k, -, -, hc, hg⟩ | ⟨-, hcrash⟩
    · exact unchanged _ (by rw [hsame])
    · exact hc.announced (fun _ h => h) hg hp.inv.2 hno
    · exact unchanged _ (by rw [hcrash]; rfl)
  · rcases World.sound_governs.moves config hp ev trivial with
      hsame | ⟨t, e, c, site, k, -, -, hc, -⟩ | ⟨-, hcrash⟩
    · exact ⟨[], by simp [hsame]⟩
    · exact hc.log
    · exact ⟨[], by rw [hcrash]; simp [Server.reboot]⟩

/-- An asset that is still there after an event is of the same account. -/
theorem event_account {config : Config} {p : ServerPool}
    (hp : Sound World.sound.context World.sound.inv (fun _ _ _ _ => True) p) (ev : ServerEvent)
    {id : Uuid} {a a' : Asset} (ha : p.state.db.assets.lookup id = some a)
    (ha' : ((machine config).next p ev).state.db.assets.lookup id = some a') :
    a'.accountId = a.accountId := by
  rcases World.sound_governs.moves config hp ev trivial with
    hsame | ⟨t, e, c, site, k, -, -, hc, -⟩ | ⟨-, hcrash⟩
  · rw [hsame, ha] at ha'
    cases ha'
    rfl
  · exact ((hp.inv.2.assetOf ha).step hc).2 a' ha'
  · rw [hcrash] at ha'
    have heq : p.state.db.assets.lookup id = some a' := ha'
    rw [ha] at heq
    cases heq
    rfl

theorem run_log {config : Config} {p : ServerPool}
    (hp : Sound World.sound.context World.sound.inv (fun _ _ _ _ => True) p)
    (events : List ServerEvent) : ∃ rows, ((machine config).run p events).state.db.accountChanges =
      p.state.db.accountChanges ++ rows := by
  induction events generalizing p with
  | nil => exact ⟨[], by simp⟩
  | cons ev events ih =>
    obtain ⟨-, rows, hrows⟩ := event_announced_iff hp ev
    obtain ⟨rows', hrows'⟩ := ih (World.sound_governs.next hp trivial)
    exact ⟨rows ++ rows', by rw [Machine.run_cons, hrows', hrows, List.append_assoc]⟩

/-- Over any number of events that record what they change, an asset is shown as before or has
been named in the log. -/
theorem run_announced {config : Config} {p : ServerPool}
    (hp : Sound World.sound.context World.sound.inv (fun _ _ _ _ => True) p)
    (events : List ServerEvent) (hno : (machine config).Along (fun p ev =>
      ¬Unannounced p.state ((machine config).next p ev).state) p events) :
    Announced p.state.db ((machine config).run p events).state.db := by
  induction events generalizing p with
  | nil => exact fun id a _ => .inl (.of_eq rfl rfl)
  | cons ev events ih =>
    intro id a ha
    have hnext : Sound World.sound.context World.sound.inv (fun _ _ _ _ => True)
        ((machine config).next p ev) := World.sound_governs.next hp trivial
    have hrest := ih hnext hno.2
    obtain ⟨hstep, rows, hrows⟩ := event_announced_iff hp ev
    obtain ⟨later, hlater⟩ : ∃ rows,
        ((machine config).run p (ev :: events)).state.db.accountChanges =
          ((machine config).next p ev).state.db.accountChanges ++ rows := run_log hnext events
    rcases hstep.mpr hno.1 id a ha with hsame | hnamed
    · cases ha' : ((machine config).next p ev).state.db.assets.lookup id with
      | none =>
        have := hsame.asset
        rw [ha, ha'] at this
        cases this
      | some a' =>
        rcases hrest id a' ha' with hsame' | hnamed'
        · exact .inl (hsame.trans hsame')
        · rw [event_account hp ev ha ha'] at hnamed'
          exact .inr (Announces.of_prepend hrows hnamed')
    · exact .inr (hnamed.of_append hlater)

/-- In every run every transaction records in the change log what it changes of an asset, unless
it is the first transaction of a `create_upload` whose request overwrites an asset; and a client
that knew the assets at some moment finds each of them as it was, or named in the log since, as
long as no such transaction has fallen in between. -/
theorem changes_are_announced (config : Config) {s : Server} (hs : Reachable config s)
    (events : List ServerEvent) :
    (machine config).Along (fun p ev =>
      Announced p.state.db ((machine config).next p ev).state.db ↔
        ¬Unannounced p.state ((machine config).next p ev).state) s.idle events ∧
    ∀ before after, events = before ++ after →
      (machine config).Along (fun p ev => ¬Unannounced p.state ((machine config).next p ev).state)
        ((machine config).run s.idle before) after →
      Announced ((machine config).run s.idle before).state.db
        ((machine config).run s.idle events).state.db := by
  have hstart : Sound World.sound.context World.sound.inv (fun _ _ _ _ => True) s.idle :=
    World.Governs.idle ⟨hs.valid, hs.owned⟩
  refine ⟨?_, ?_⟩
  · refine World.sound_governs.along hstart ((machine config).along_true _ events) ?_
    exact fun p ev hp _ => (event_announced_iff hp ev).1
  · rintro before after rfl hno
    rw [Machine.run_append]
    exact run_announced (World.sound_governs.run hstart ((machine config).along_true _ before))
      after hno

end

section

open Sample

/-- A photo is backed up and put in the trash; then its edited version is announced. -/
def trashedAndEdited : List ServerEvent :=
  call 0 (.createUpload phone (manifest "a" "r" [7])) 2 ++
    call 1 (.putPart phone 11 0 [.data [7]]) 8 ++ call 2 (.complete 1 11) 30 ++
    call 3 (.trashAsset phone 10) 2 ++ [.start (.createUpload phone (manifest "a" "r" [8]))]

theorem changes_are_announced_sample :
    (machine config).Along (fun p ev =>
      Announced p.state.db ((machine config).next p ev).state.db ↔
        ¬Unannounced p.state ((machine config).next p ev).state) server.idle trashedAndEdited :=
  (changes_are_announced config ⟨server, [], server_fresh, rfl⟩ trashedAndEdited).1

/-- The photo comes back from the trash and no change is recorded. -/
theorem create_upload_unannounced :
    ¬Announced ((machine config).run server.idle trashedAndEdited).state.db
      ((machine config).next ((machine config).run server.idle trashedAndEdited)
        (.step 4 calm)).state.db := by
  have hbefore : (((machine config).run server.idle trashedAndEdited).state.db.assets.lookup 10).map
      Asset.view = some ⟨.photo, 0, false, false, true⟩ := by decide +kernel
  have hafter : (((machine config).next ((machine config).run server.idle trashedAndEdited)
      (.step 4 calm)).state.db.assets.lookup 10).map Asset.view =
        some ⟨.photo, 0, false, false, false⟩ := by decide +kernel
  have hlog : ((machine config).next ((machine config).run server.idle trashedAndEdited)
      (.step 4 calm)).state.db.accountChanges =
        ((machine config).run server.idle trashedAndEdited).state.db.accountChanges := by
    decide +kernel
  intro h
  obtain ⟨a, ha, -⟩ := Option.map_eq_some_iff.mp hbefore
  rcases h 10 a ha with hsame | ⟨rows, hrows, change, hmem, -⟩
  · have hview := hsame.asset
    rw [hbefore, hafter] at hview
    exact absurd hview (by decide)
  · have hnil : rows = [] := by simpa [hlog] using hrows
    rw [hnil] at hmem
    cases hmem

end

end MediaBackup
