import MediaBackup.Server.Delivery
import MediaBackup.Server.PartFiles

/-!
# What has been announced

The manifest of an upload is checked before the upload is opened. Its parts have rows, the file of
a part fits its row, and no commit starts before all of them are there.
-/

namespace MediaBackup

variable [Blake3]

/-- The manifests of the uploads are numbered and add up, and their parts are what they say. -/
structure Server.Announced (s : Server) : Prop where
  numbered : ∀ id r, s.db.uploads.lookup id = some r →
    ∃ maxPartBytes, r.request.Numbered maxPartBytes
  rows : ∀ id r part, s.db.uploads.lookup id = some r → part ∈ r.request.parts →
    ∃ row, s.db.uploadParts.lookup (id, part.index) = some row ∧ row.expectedSize = part.size ∧
      row.expectedBlake3 = part.blake3
  files : ∀ key bytes, s.files.parts.lookup key = some bytes →
    key.1 < s.uuids ∧ s.PartFits key.1 key.2 bytes
  stored : ∀ key row, s.db.uploadParts.lookup key = some row → row.receivedAt ≠ none →
    ∃ bytes, s.files.parts.lookup key = some bytes
  received : ∀ id r, s.db.uploads.lookup id = some r →
    r.commitState = .commitStarted ∨ r.commitState = .finalizing → countMissing id s.db = 0

/-- Every object is named by its content. -/
def Server.Named (s : Server) : Prop :=
  ∀ account shard name bytes,
    s.files.objects.lookup (.object account shard name) = some bytes → Blake3.hash bytes = name

theorem Server.Fresh.announced {s : Server} (h : s.Fresh) : s.Announced := by
  constructor
  · intro id r hr
    simp [h.uploads] at hr
  · intro id r part hr
    simp [h.uploads] at hr
  · intro key bytes hfile
    simp [h.parts] at hfile
  · intro key row hrow
    simp [h.uploadParts] at hrow
  · intro id r hr
    simp [h.uploads] at hr

theorem Server.Fresh.named {s : Server} (h : s.Fresh) : s.Named := by
  intro account shard name bytes hobject
  simp [h.objects] at hobject

namespace Server.Announced

variable {s : Server} {id : Uuid} {r : Upload}

/-- The file of an announced part has its size and its hash. -/
theorem fits (h : s.Announced) (hr : s.db.uploads.lookup id = some r) {part : UploadPartSpec}
    (hpart : part ∈ r.request.parts) {bytes : Bytes}
    (hfile : s.files.parts.lookup (id, part.index) = some bytes) :
    contentMatches bytes part.size part.blake3 = true := by
  obtain ⟨row, hrow, hsize, hdigest⟩ := h.rows id r part hr hpart
  have hfits := (h.files _ bytes hfile).2 row hrow
  rw [hsize, hdigest] at hfits
  exact hfits

/-- All parts of a commit under way are there. -/
theorem readAs (h : s.Announced) (hr : s.db.uploads.lookup id = some r)
    (hstate : r.commitState = .commitStarted ∨ r.commitState = .finalizing) :
    ∃ contents, ReadAs id r.request.parts contents s := by
  have hall := countMissing_eq_zero.mp (h.received id r hr hstate)
  have hfile : ∀ part ∈ r.request.parts, ∃ bytes,
      s.files.parts.lookup (id, part.index) = some bytes ∧
        contentMatches bytes part.size part.blake3 = true := by
    intro part hpart
    obtain ⟨row, hrow, -⟩ := h.rows id r part hr hpart
    obtain ⟨bytes, hbytes⟩ := h.stored _ row hrow (hall _ row hrow)
    exact ⟨bytes, hbytes, h.fits hr hpart hbytes⟩
  unfold ReadAs
  generalize r.request.parts = parts at hfile
  induction parts with
  | nil => exact ⟨[], .nil⟩
  | cons part rest ih =>
    obtain ⟨bytes, hbytes⟩ := hfile part List.mem_cons_self
    obtain ⟨contents, hrest⟩ := ih fun other hother => hfile other (List.mem_cons_of_mem _ hother)
    exact ⟨bytes :: contents, .cons hbytes hrest⟩

end Server.Announced

/-! ## Steps -/

namespace Change

variable {t : Nat} {site : Site} {k : Kind} {s s' : Server}

omit [Blake3] in
theorem lookup_uploads_deleteAssetRow {assetId id : Uuid} {db : Database} {r : Upload}
    (h : (deleteAssetRow assetId db).uploads.lookup id = some r) : r.assetId ≠ assetId := by
  unfold deleteAssetRow at h
  rw [Table.lookup_deleteWhere, Option.filter_eq_some_iff] at h
  simpa using h.2

/-- The row of a part keeps what is expected of it. -/
theorem part_same_or_opened (h : Change t site k s s') {key : Uuid × Nat} {row : UploadPart}
    (hrow : s'.db.uploadParts.lookup key = some row) :
    (∃ old, s.db.uploadParts.lookup key = some old ∧ old.expectedSize = row.expectedSize ∧
        old.expectedBlake3 = row.expectedBlake3) ∨
      key.1 = s.uuids + 1 ∧ row.receivedAt = none := by
  have hc := h.part key
  rw [hrow] at hc
  generalize hold : s.db.uploadParts.lookup key = old at hc
  cases hc with
  | same => exact .inl ⟨row, rfl, rfl, rfl⟩
  | opened _ fresh => exact .inr ⟨fresh, rfl⟩
  | @received old => exact .inl ⟨old, rfl, rfl, rfl⟩

theorem announced_rows (h : Change t site k s s') (hv : s.Valid) (ho : s.Owned)
    (ha : s.Announced) (hplan : ∀ auth request now, k = .plan auth request now →
      ∃ maxPartBytes, validateUploadRequest request maxPartBytes = .ok ())
    {id : Uuid} {r' : Upload} {part : UploadPartSpec} (hr' : s'.db.uploads.lookup id = some r')
    (hpart : part ∈ r'.request.parts) :
    ∃ row, s'.db.uploadParts.lookup (id, part.index) = some row ∧ row.expectedSize = part.size ∧
      row.expectedBlake3 = part.blake3 := by
  rcases h.upload_origin hr' with ⟨r, hr, hsame⟩ | ⟨auth, assetId, request, now, rfl, hid, hopened⟩
  · rw [hsame.request] at hpart
    obtain ⟨row, hrow, hsize, hdigest⟩ := ha.rows id r part hr hpart
    have hc := h.part (id, part.index)
    rw [hrow] at hc
    generalize hnew : s'.db.uploadParts.lookup (id, part.index) = new at hc
    cases hc with
    | same => exact ⟨row, rfl, hsize, hdigest⟩
    | opened _ fresh =>
      have hdrawn := hv.drawn id r hr
      exact absurd fresh (Nat.ne_of_lt (Nat.lt_succ_of_lt hdrawn))
    | received => exact ⟨_, rfl, hsize, hdigest⟩
    | @deleted _ auth assetId now owner kind howner hasset =>
      subst kind
      obtain ⟨-, _, db, hrun, rfl⟩ := h
      obtain ⟨asset, -, -, rfl⟩ := deleteAsset_ok hrun
      rw [hr] at howner
      cases howner
      exact absurd (hsame.assetId.trans hasset) (lookup_uploads_deleteAssetRow hr')
  · obtain ⟨maxPartBytes, hvalid⟩ := hplan auth request now rfl
    have hn := numbered_of_valid hvalid
    have hparts : r'.request.parts = request.parts := by rw [hopened]; rfl
    rw [hparts] at hpart
    obtain ⟨i, hi⟩ := List.mem_iff_getElem?.mp hpart
    rw [hn.index i part hi]
    obtain ⟨-, plan, db, hrun, rfl⟩ := h
    obtain ⟨account, assetId', db₁, -, hup, hcase⟩ := planUpload_ok hrun
    obtain ⟨row, rfl, -⟩ := upsertAsset_eq hup
    have hfresh : s.db.uploads.lookup id = none := by
      cases hold : s.db.uploads.lookup id with
      | none => rfl
      | some r =>
        have hdrawn := hv.drawn id r hold
        rw [hid] at hdrawn
        exact absurd hdrawn (Nat.not_lt_of_le (Nat.le_succ _))
    have hnone : s.db.uploadParts.lookup (id, i) = none := by
      cases hold : s.db.uploadParts.lookup (id, i) with
      | none => rfl
      | some row =>
        obtain ⟨r, hr⟩ := ho.parts (id, i) row hold
        rw [hfresh] at hr
        cases hr
    rcases hcase with ⟨_, _, _, _, rfl⟩ | ⟨_, _, _, _, rfl⟩ | ⟨-, -, -, rfl⟩
    · have hr'' : s.db.uploads.lookup id = some r' := hr'
      rw [hfresh] at hr''
      cases hr''
    · have hr'' : s.db.uploads.lookup id = some r' := hr'
      rw [hfresh] at hr''
      cases hr''
    · subst hid
      exact ⟨_, lookup_insertParts_mem hn _ hnone hi, rfl, rfl⟩

theorem announced_files (h : Change t site k s s') (ha : s.Announced) {key : Uuid × Nat}
    {bytes : Bytes} (hfile : s'.files.parts.lookup key = some bytes) :
    key.1 < s'.uuids ∧ s'.PartFits key.1 key.2 bytes := by
  rcases h.partFile_origin hfile with hold | ⟨id, index, rfl, rfl⟩
  · obtain ⟨hdrawn, hfits⟩ := ha.files key bytes hold
    refine ⟨hdrawn.trans_le h.uuids, fun row hrow => ?_⟩
    rcases h.part_same_or_opened hrow with ⟨old, hold, hsize, hdigest⟩ | ⟨fresh, -⟩
    · rw [← hsize, ← hdigest]
      exact hfits old hold
    · exact absurd fresh (Nat.ne_of_lt (Nat.lt_succ_of_lt hdrawn))
  · obtain ⟨-, hfits, hdrawn, rfl⟩ := h
    exact ⟨hdrawn, hfits⟩

theorem announced_stored (h : Change t site k s s') (ha : s.Announced) {key : Uuid × Nat}
    {row : UploadPart} (hrow : s'.db.uploadParts.lookup key = some row)
    (hreceived : row.receivedAt ≠ none) : ∃ bytes, s'.files.parts.lookup key = some bytes := by
  have hc := h.part key
  rw [hrow] at hc
  generalize hold : s.db.uploadParts.lookup key = old at hc
  cases hc with
  | same =>
    obtain ⟨bytes, hbytes⟩ := ha.stored key row hold hreceived
    exact ⟨bytes, h.partFile hbytes⟩
  | opened => exact absurd rfl hreceived
  | received _ stored =>
    obtain ⟨bytes, hbytes, -⟩ := stored
    exact ⟨bytes, h.partFile hbytes⟩

theorem announced_received {W : World} (h : Change t site k s s') (hg : Grounds W t k s)
    (hv : s.Valid) (ha : s.Announced) {id : Uuid} {r' : Upload}
    (hr' : s'.db.uploads.lookup id = some r')
    (hstate : r'.commitState = .commitStarted ∨ r'.commitState = .finalizing) :
    countMissing id s'.db = 0 := by
  have hc := h.upload id
  rw [hr'] at hc
  generalize hold : s.db.uploads.lookup id = old at hc
  cases hc with
  | same => exact h.received (hv.drawn id r' hold) (ha.received id r' hold hstate)
  | opened => rcases hstate with hstate | hstate <;> cases hstate
  | @started r record now account policy start kind upload =>
    subst kind
    subst upload
    exact h.received (hv.drawn _ r hold) hg
  | @finalized r now kind holds state =>
    exact h.received (hv.drawn id r hold) (ha.received id r hold (.inl state))
  | settled => rcases hstate with hstate | hstate <;> cases hstate
  | doubted =>
    unfold Upload.doubted at hstate
    split at hstate
    · rename_i hunknown
      rcases hstate with hstate | hstate <;> rw [hunknown] at hstate <;> cases hstate
    · rcases hstate with hstate | hstate <;> cases hstate
  | rejected => rcases hstate with hstate | hstate <;> cases hstate

/-- What a step keeps of what has been announced. -/
theorem keeps_announced {W : World} (h : Change t site k s s') (hg : Grounds W t k s)
    (hplan : ∀ auth request now, W.does (.plan auth request now) →
      ∃ maxPartBytes, validateUploadRequest request maxPartBytes = .ok ())
    (hv : s.Valid) (ho : s.Owned) (ha : s.Announced) : s'.Announced := by
  have hvalid : ∀ auth request now, k = .plan auth request now →
      ∃ maxPartBytes, validateUploadRequest request maxPartBytes = .ok () := by
    intro auth request now hk
    subst hk
    exact hplan auth request now hg
  constructor
  · intro id r' hr'
    rcases h.upload_origin hr' with ⟨r, hr, hsame⟩ | ⟨auth, assetId, request, now, hk, -, hopened⟩
    · rw [hsame.request]
      exact ha.numbered id r hr
    · obtain ⟨maxPartBytes, hrequest⟩ := hvalid auth request now hk
      rw [hopened]
      exact ⟨maxPartBytes, numbered_of_valid hrequest⟩
  · exact fun id r' part hr' hpart => h.announced_rows hv ho ha hvalid hr' hpart
  · exact fun key bytes hfile => h.announced_files ha hfile
  · exact fun key row hrow hreceived => h.announced_stored ha hrow hreceived
  · exact fun id r' hr' hstate => h.announced_received hg hv ha hr' hstate

end Change

/-! ## Objects -/

/-- A stage that stands at the end of a while in which others acted stood there before. -/
theorem World.Later.stage_before {W : World} {t : Nat} {s₀ s : Server} (h : W.Later t s₀ s)
    {id : Uuid} (hl : s.Holds t id) {account : AccountPath} {nonce : Uuid} {bytes : Bytes}
    (hb : s.files.objects.lookup (.stage account id nonce) = some bytes) :
    s₀.files.objects.lookup (.stage account id nonce) = some bytes := by
  induction h with
  | refl => exact hb
  | tail _ hstep ih =>
    obtain ⟨site, -, -, -, t', hne, site', k, hc, -⟩ := hstep
    have hbefore := not_imp_not.mp (hc.not_holds_of_ne hne) hl
    exact ih hbefore (hc.stage_of_held hne hbefore hb)

/-- On its grounds a step publishes objects only under the names of their contents. -/
theorem Change.keeps_named {W : World} (hvalid : ∀ s, W.inv s → s.Valid) {t : Nat} {site : Site}
    {k : Kind} {s s' : Server} (h : Change t site k s s') (hg : Grounds W t k s)
    (hn : s.Named) : s'.Named := by
  intro account shard name bytes hobject
  have hc := h.object (.object account shard name)
  rw [hobject] at hc
  generalize hold : s.files.objects.lookup (.object account shard name) = old at hc
  cases hc with
  | same => exact hn account shard name bytes hold
  | created _ owned =>
    obtain ⟨_, _, _, heq, -⟩ := owned
    cases heq
  | grown _ owned =>
    obtain ⟨_, _, _, heq, -⟩ := owned
    cases heq
  | published kind final holds stagedKey object source =>
    subst kind
    obtain ⟨⟨s₁, r, hi₁, hr, hready⟩, s₀, -, hmatch, hlater⟩ := hg
    have hfits := (hvalid s₁ hi₁).fits _ r hr
    obtain ⟨_, -, hkey⟩ := hfits.final _ hready.finalKey
    obtain ⟨path, nonce, -, hstaged⟩ := hfits.stage _ (hready.stagedKey.trans stagedKey)
    subst hstaged
    have hsource := hlater.stage_before holds source
    obtain ⟨bytes', hbytes', hhash, -⟩ := stateOf_isMatch.mp hmatch
    rw [hsource] at hbytes'
    cases hbytes'
    have hdigest : Blake3.hash bytes = r.request.contentBlake3 := by
      rw [hhash, hready.blake3, hready.request]
    rw [hkey] at final
    cases final
    rw [← hdigest, Blake3.hash_lowercase]

/-! ## Runs -/

/-- The world in which uploads are opened for checked manifests only. -/
def World.announcing : World :=
  .crowd (fun s => s.Valid ∧ s.Owned ∧ s.Announced ∧ s.Named) (fun _ => True) (fun _ _ => True)
    (fun _ _ _ => True)
    (fun k => ∀ auth request now, k = .plan auth request now →
      ∃ maxPartBytes, validateUploadRequest request maxPartBytes = .ok ())
    fun _ h => h.1

theorem World.announcing_governs :
    World.announcing.Governs (fun _ _ => True) fun _ _ _ _ => True where
  crowded _ h := h
  serves _ c _ := by
    cases c with
    | createUpload auth request =>
      refine ⟨fun maxPartBytes hvalid now auth' request' now' hk => ?_, ?_⟩
      · cases hk
        exact ⟨maxPartBytes, hvalid⟩
      · intro _ _ _ _ _ _ hk
        cases hk
    | _ => simp [World.Serves, World.announcing, World.crowd]
  may _ _ _ _ _ _ _ := ⟨trivial, trivial⟩
  step _ _ _ _ _ _ _ hi _ _ hc hg := by
    obtain ⟨hv, ho, ha, hn⟩ := hi
    refine ⟨⟨hc.valid hv, ?_, ?_, ?_⟩, fun _ _ _ _ _ => trivial⟩
    · exact hc.owned (W := World.announcing) (fun _ h => ⟨h.1, h.2.1⟩) hg hv ho
    · exact hc.keeps_announced hg (fun auth request now hdoes => hdoes auth request now rfl) hv ho ha
    · exact hc.keeps_named (W := World.announcing) (fun _ h => h.1) hg hn
  reboot _ hi := by
    obtain ⟨hv, ho, ha, hn⟩ := hi
    exact ⟨hv.reboot, ho.reboot, ⟨ha.numbered, ha.rows, ha.files, ha.stored, ha.received⟩, hn⟩
  answered _ _ _ _ _ := trivial
  keeps _ _ _ _ _ _ _ _ _ _ _ _ := trivial
  restarts _ _ _ _ _ _ := trivial

theorem Server.Fresh.announcing {s : Server} (h : s.Fresh) : World.announcing.inv s :=
  ⟨h.valid, h.owned, h.announced, h.named⟩

theorem Reachable.announcing {config : Config} {s : Server} (h : Reachable config s) :
    World.announcing.inv s := by
  obtain ⟨s₀, events, hfresh, rfl⟩ := h
  exact (World.announcing_governs.run (World.Governs.idle hfresh.announcing)
    ((machine config).along_true _ events)).inv

end MediaBackup
