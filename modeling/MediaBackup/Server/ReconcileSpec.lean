import MediaBackup.Server.RequestSpec

/-!
# What the passes do

The reclaimer with its open transaction, the deletion of an asset, the reconciliation pass, and
the specification of a request as a whole.
-/

namespace MediaBackup

open Call Relation

variable [Blake3] {W : World} {t : Nat}

/-! ## The reclaimer -/

/-- The thread has the write lock for a blob that nothing names. -/
structure Reclaiming (W : World) (t : Nat) (blobId : Uuid) (key : ObjectKey) (s : Server) :
    Prop where
  writer : s.writer = some t
  reclaimable : s.Reclaimable blobId key
  object : key.isObject = true
  locks : W.live t → ∀ id, ¬s.Holds t id

theorem Reclaiming.kept (blobId : Uuid) (key : ObjectKey) :
    W.Kept t (Reclaiming W t blobId key) := by
  apply World.kept_of_change
  intro t' site k s s' hne hc h
  refine ⟨(hc.writer_of_ne hne).mpr h.writer, ?_, h.object, fun hlive id =>
    hc.not_holds_of_ne hne (h.locks hlive id)⟩
  rw [Server.Reclaimable, hc.db_of_writer h.writer hne.symm]
  exact h.reclaimable

omit [Blake3] in
theorem Reclaiming.idle {blobId : Uuid} {key : ObjectKey} {s : Server}
    (h : Reclaiming W t blobId key s) (db : Database) : Idle W t { s with db, writer := none } :=
  fun hlive => ⟨h.locks hlive, by simp⟩

theorem openReclaim_spec (blobId : Uuid) :
    Spec (W.context t) (Idle W t) (openReclaim t blobId)
      (fun found s => match found with
        | none => Idle W t s
        | some (_, key) => Reclaiming W t blobId key s)
      (fun _ s => Idle W t s) := by
  refine Spec.atomic (Idle.kept.at .other) fun s hi hidle => ⟨fun hlive => ?_, fun e he ha hr => ?_⟩
  · cases hw : s.writer with
    | none => rfl
    | some t' =>
      obtain rfl := (W.alone t hlive s hi).2 t' hw
      exact absurd hw (hidle hlive).2
  · have hnone : s.writer = none := by simpa using hr
    have idle : ∃ k, Change t .other k s s ∧ Grounds W t k s := ⟨.idle, rfl, trivial⟩
    cases hf : e.fault with
    | before | after =>
      simp only
      exact ⟨idle, hidle⟩
    | none =>
      cases hb : s.db.blobs.lookup blobId with
      | none =>
        simp only
        exact ⟨idle, hidle⟩
      | some blob =>
        simp only
        split
        · rename_i horphan
          have hrec : s.Reclaimable blobId blob.storagePath := ⟨horphan, blob, hb, rfl⟩
          split
          · exact ⟨⟨.openReclaim blobId, ⟨hnone, ⟨_, hrec⟩, rfl⟩, trivial⟩, rfl, hrec,
              W.blobs s hi blobId blob hb, fun hlive => (hidle hlive).1⟩
          · exact ⟨idle, hidle⟩
        · exact ⟨idle, hidle⟩

theorem removeBlob_spec (blobId : Uuid) (account : AccountPath) (key : ObjectKey) :
    Spec (W.context t) (Reclaiming W t blobId key) (removeBlob account key)
      (fun _ s => Reclaiming W t blobId key s) (fun _ s => Reclaiming W t blobId key s) := by
  unfold removeBlob
  split
  · exact Spec.throw fun s h => h
  · rename_i key' hkey
    obtain rfl := scopedBlobKey_ok hkey
    refine (rooted_spec ((Reclaiming.kept blobId key').at _) ?_).weaken (fun _ h => h) ?_ ?_
    · rintro s a files hi h - hop
      cases hop
      exact ⟨.unlinkBlob blobId key', ⟨rfl, h.writer, h.reclaimable, h.object, rfl⟩, trivial⟩
    · rintro a s' ⟨s, files, hi, h, hop, rfl⟩
      cases hop
      exact ⟨h.writer, h.reclaimable, h.object, h.locks⟩
    · rintro e s' (⟨hi, h, hf | hop⟩ | ⟨hf, a, s, files, hi, h, hop, rfl⟩)
      · exact h
      · exact h
      · cases hop
        exact ⟨h.writer, h.reclaimable, h.object, h.locks⟩

theorem commitReclaim_spec (blobId : Uuid) (key : ObjectKey) :
    Spec (W.context t) (Reclaiming W t blobId key) (commitReclaim blobId)
      (fun _ s => Idle W t s) (fun _ s => Idle W t s) := by
  refine Spec.atomic ((Reclaiming.kept blobId key).at .other) fun s hi h =>
    ⟨fun _ => rfl, fun e he ha hr => ?_⟩
  have gone : ∃ k, Change t .other k s { s with
      db := { s.db with blobs := s.db.blobs.erase blobId }
      writer := none } ∧ Grounds W t k s :=
    ⟨.commitReclaim blobId, ⟨h.writer, ⟨key, h.reclaimable⟩, rfl⟩, trivial⟩
  cases hf : e.fault with
  | none => exact ⟨gone, h.idle _⟩
  | before => exact ⟨⟨.rollbackReclaim, ⟨h.writer, rfl⟩, trivial⟩, h.idle s.db⟩
  | after => exact ⟨gone, h.idle _⟩

theorem rollbackReclaim_spec (blobId : Uuid) (key : ObjectKey) :
    Spec (W.context t) (Reclaiming W t blobId key) rollbackReclaim
      (fun _ s => Idle W t s) (fun _ s => Idle W t s) := by
  refine Spec.atomic ((Reclaiming.kept blobId key).at .other) fun s hi h =>
    ⟨fun _ => rfl, fun e he ha hr => ?_⟩
  cases hf : e.fault with
  | none | before | after =>
    exact ⟨⟨.rollbackReclaim, ⟨h.writer, rfl⟩, trivial⟩, h.idle s.db⟩

theorem reclaimBlobs_spec (blobIds : List Uuid) (report : OrphanBlobReconcileReport) :
    Spec (W.context t) (Idle W t) (reclaimBlobs t blobIds report)
      (fun _ s => Idle W t s) (fun _ s => Idle W t s) := by
  induction blobIds generalizing report with
  | nil => exact Spec.pure fun s h => h
  | cons blobId rest ih =>
    refine Spec.bind (openReclaim_spec blobId) fun found => ?_
    match found with
    | none => exact ih report
    | some (account, key) =>
      refine Spec.bind (Spec.attempt (R := fun _ s => Reclaiming W t blobId key s)
        (removeBlob_spec blobId account key)) fun result => ?_
      match result with
      | .ok () => exact Spec.bind (commitReclaim_spec blobId key) fun _ => ih _
      | .error e => exact Spec.bind (rollbackReclaim_spec blobId key) fun _ => ih _

theorem reconcileOrphanBlobs_spec (accountFilter : Option Uuid) :
    Spec (W.context t) (Idle W t) (reconcileOrphanBlobs t accountFilter)
      (fun _ s => Idle W t s) (fun _ s => Idle W t s) :=
  Spec.bind ((query_spec (Idle.kept.at .other)).weaken (fun _ h => h) (fun _ _ h => h.2.1)
    fun _ _ h => h.2.1) fun blobIds => reclaimBlobs_spec blobIds ⟨0, 0⟩

theorem deleteAssetPermanently_spec (auth : AuthContext) (assetId : Uuid)
    (hserves : W.Serves (.deleteAsset auth assetId)) :
    Spec (W.context t) (Idle W t) (deleteAssetPermanently t auth assetId)
      (fun _ s => Idle W t s) (fun _ s => Idle W t s) := by
  refine Spec.bind ((idle_transaction_spec (World.Kept.const True)
    (fun now => .delete auth assetId now) fun s now a db _ _ hw hbody =>
      ⟨⟨hw, a, db, hbody, rfl⟩, hserves now⟩).weaken (fun s h => ⟨h, trivial⟩) (fun _ _ h => h.1)
    fun _ _ h => h) fun _ => ?_
  refine Spec.bind (Spec.attempt (R := fun _ s => Idle W t s)
    (reconcileOrphanBlobs_spec (some auth.accountId))) fun result => ?_
  cases result with
  | ok report => exact Spec.pure fun s h => h
  | error e => exact Spec.pure fun s h => h

/-! ## The reconciliation pass -/

/-- The loop over the uploads. What is known of the uploads before (`X`) and what a call on one
of them leaves behind (`D`) has to last. -/
theorem reconcileUploads_spec {X D : Uuid → Server → Prop}
    (hX : ∀ id, (W.context t).Lasting (X id)) (hD : ∀ id, (W.context t).Lasting (D id))
    (hdone : ∀ id outcome s, X id s → Past W t (Completed W t id outcome) s → D id s)
    (hset : ∀ id s, X id s → W.Faulty ∨ Past W t (Setback W t id) s → D id s)
    (ids : List Uuid) (hdoes : ∀ id ∈ ids, W.does (.lock id)) (report : ReconcileReport) :
    Spec (W.context t) (fun s => Idle W t s ∧ ∀ id ∈ ids, X id s)
      (reconcileUploads t ids report) (fun _ s => Idle W t s ∧ ∀ id ∈ ids, D id s)
      (fun _ s => Idle W t s ∧ (W.Faulty ∨ ∃ s₀ id, W.inv s₀ ∧ id ∈ ids ∧ X id s₀ ∧
        s₀.db.uploads.lookup id = none)) := by
  induction ids generalizing report with
  | nil => exact Spec.pure fun s h => ⟨h.1, by simp⟩
  | cons id rest ih =>
    have allX : (W.context t).Lasting fun s => ∀ id' ∈ id :: rest, X id' s :=
      ⟨fun site h s s' hi hi' hr hx id' hid => (hX id').stable site h s s' hi hi' hr (hx id' hid),
        fun site s s' hi hg hx id' hid => (hX id').step site s s' hi hg (hx id' hid)⟩
    have hF : W.Kept t fun s => Idle W t s ∧ ∀ id' ∈ id :: rest, X id' s :=
      World.Kept.and Idle.kept allX.stable
    refine Spec.bind ((query_spec (hF.at _)).weaken (fun _ h => h) (fun _ _ h => h.2.1)
      fun e s h => ⟨h.2.1.1, ?_⟩) fun before => ?_
    · refine h.2.2.imp_right fun hq => ⟨s, id, h.1, by simp, h.2.1.2 id (by simp), ?_⟩
      cases hrow : s.db.uploads.lookup id with
      | none => rfl
      | some r => simp [hrow] at hq
    have hnext : ∀ report', Spec (W.context t)
        (fun s => (Idle W t s ∧ ∀ id' ∈ id :: rest, X id' s) ∧ D id s)
        (reconcileUploads t rest report') (fun _ s => Idle W t s ∧ ∀ id' ∈ id :: rest, D id' s)
        (fun _ s => Idle W t s ∧ (W.Faulty ∨ ∃ s₀ id', W.inv s₀ ∧ id' ∈ id :: rest ∧ X id' s₀ ∧
          s₀.db.uploads.lookup id' = none)) := by
      intro report'
      refine ((ih (fun id' hid => hdoes id' (by simp [hid])) report').frame (hD id)).weaken
        (fun s h => ⟨⟨h.1.1, fun id' hid => h.1.2 id' (by simp [hid])⟩, h.2⟩)
        (fun _ s h => ⟨h.1.1, List.forall_mem_cons.mpr ⟨h.2, h.1.2⟩⟩) fun _ s h => ⟨h.1.1, ?_⟩
      refine h.1.2.imp_right fun ⟨s₀, id', hi, hid, hx, hnone⟩ => ?_
      exact ⟨s₀, id', hi, List.mem_cons_of_mem _ hid, hx, hnone⟩
    refine Spec.bind (Spec.attempt (R := fun _ s =>
      (Idle W t s ∧ ∀ id' ∈ id :: rest, X id' s) ∧ D id s)
      (((completeInner_spec (hdoes id (by simp)) none).frame allX).weaken (fun _ h => h)
        (fun outcome s h => ⟨⟨h.1.1, h.2⟩, hdone id outcome s (h.2 id (by simp)) h.1.2⟩)
        fun _ s h => ⟨⟨h.1.1, h.2⟩, hset id s (h.2 id (by simp)) h.1.2⟩)) fun result => ?_
    cases result with
    | ok outcome => exact Spec.pure_bind (hnext _)
    | error e =>
      have hDkept : W.Kept t fun s => (Idle W t s ∧ ∀ id' ∈ id :: rest, X id' s) ∧ D id s :=
        World.Kept.and hF (hD id).stable
      refine Spec.bind ((query_spec (hDkept.at .other)).weaken (fun _ h => h) (fun _ _ h => h.2.1)
        fun e s h => ⟨h.2.1.1.1, .inl ?_⟩) fun after => Spec.pure_bind (hnext _)
      exact h.2.2.elim (fun h => h) fun h => nomatch h

/-! ## The staging directories -/

/-- The keys were referenced at some moment of the pass. -/
def ReferencedSeen (W : World) (t : Nat) (referenced : List ObjectKey) (s : Server) : Prop :=
  ∃ s₀, (W.inv s₀ ∧ referenced = referencedStages s₀.db) ∧ W.Since t (fun _ => True) s₀ s

/-- The unreferenced stages were listed at some moment of the pass. -/
def OrphansListed (W : World) (t : Nat) (account : AccountPath) (referenced : List ObjectKey)
    (keys : List ObjectKey) (s : Server) : Prop :=
  ∃ s₁, (W.inv s₁ ∧ ReferencedSeen W t referenced s₁ ∧
    W.allowed (.listStaging account referenced) s₁ ∧ ∀ key ∈ keys,
      (s₁.files.objects.lookup key).isSome = true ∧ key ∉ referenced ∧
        isStageOf account key = true) ∧ W.Since t (fun _ => True) s₁ s

theorem removeOrphanStages_spec (account : AccountPath) (referenced keys : List ObjectKey)
    (removed : Nat) :
    Spec (W.context t)
      (fun s => Idle W t s ∧ ReferencedSeen W t referenced s ∧
        OrphansListed W t account referenced keys s)
      (removeOrphanStages keys removed)
      (fun _ s => Idle W t s ∧ ReferencedSeen W t referenced s)
      (fun _ s => Idle W t s ∧ ReferencedSeen W t referenced s) := by
  induction keys generalizing removed with
  | nil => exact Spec.pure fun s h => ⟨h.1, h.2.1⟩
  | cons key rest ih =>
    have hF : W.Kept t fun s => Idle W t s ∧ ReferencedSeen W t referenced s ∧
        OrphansListed W t account referenced (key :: rest) s :=
      World.Kept.and Idle.kept (World.Kept.and (World.kept_since _ _) (World.kept_since _ _))
    have swept : ∀ s, Idle W t s ∧ ReferencedSeen W t referenced s ∧
        OrphansListed W t account referenced (key :: rest) s →
        Change t (.removeOrphanStage key) (.removeOrphan key) s
          (s.withObjects fun o => o.erase key) := by
      rintro s ⟨-, -, s₁, ⟨-, -, -, hkeys⟩, -⟩
      refine ⟨rfl, ?_, rfl⟩
      have := (hkeys key (by simp)).2.2
      cases key with
      | stage owner uploadId nonce => exact ⟨owner, uploadId, nonce, rfl⟩
      | object => cases this
    have after : ∀ s, Idle W t s ∧ ReferencedSeen W t referenced s ∧
        OrphansListed W t account referenced (key :: rest) s →
        Idle W t (s.withObjects fun o => o.erase key) ∧
          ReferencedSeen W t referenced (s.withObjects fun o => o.erase key) ∧
          OrphansListed W t account referenced rest (s.withObjects fun o => o.erase key) := by
      intro s h
      obtain ⟨hidle, ⟨s₀, hs₀, hsince₀⟩, s₁, ⟨hi₁, hr, ha, hkeys⟩, hsince⟩ := h
      have hstep := swept s ⟨hidle, ⟨s₀, hs₀, hsince₀⟩, s₁, ⟨hi₁, hr, ha, hkeys⟩, hsince⟩
      exact ⟨hidle, ⟨s₀, hs₀, hsince₀.tail (.inr ⟨_, _, trivial, hstep⟩)⟩, s₁,
        ⟨hi₁, hr, ha, fun k hk => hkeys k (by simp [hk])⟩,
        hsince.tail (.inr ⟨_, _, trivial, hstep⟩)⟩
    refine Spec.bind ((rooted_spec (hF.at _) ?_).weaken (fun _ h => h)
      (R := fun _ s => Idle W t s ∧ ReferencedSeen W t referenced s ∧
        OrphansListed W t account referenced rest s) ?_ ?_) fun present => ih _
    · rintro s a files hi h - hop
      cases hop
      obtain ⟨-, -, s₁, ⟨hi₁, ⟨s₀, ⟨hi₀, href⟩, hsince₀⟩, ha, hkeys⟩, hsince⟩ := id h
      obtain ⟨hsome, hnot, -⟩ := hkeys key (by simp)
      exact ⟨.removeOrphan key, swept s h, s₀, s₁, account, referenced, hi₀, hi₁, href, hsince₀, ha,
        hsome, hnot, hsince⟩
    · rintro a s' ⟨s, files, hi, h, hop, rfl⟩
      cases hop
      exact after s h
    · rintro e s' (⟨hi, h, hf | hop⟩ | ⟨hf, a, s, files, hi, h, hop, rfl⟩)
      · exact ⟨h.1, h.2.1⟩
      · cases hop
      · cases hop
        exact ⟨(after s h).1, (after s h).2.1⟩

theorem cleanupOrphanStaging_spec (account : AccountPath) (referenced : List ObjectKey) :
    Spec (W.context t) (fun s => Idle W t s ∧ ReferencedSeen W t referenced s)
      (cleanupOrphanStaging account referenced)
      (fun _ s => Idle W t s ∧ ReferencedSeen W t referenced s)
      (fun _ s => Idle W t s ∧ ReferencedSeen W t referenced s) := by
  have hF : W.Kept t fun s => Idle W t s ∧ ReferencedSeen W t referenced s :=
    World.Kept.and Idle.kept (World.kept_since _ _)
  refine Spec.bind (Q := fun names s => Idle W t s ∧ ReferencedSeen W t referenced s ∧
    OrphansListed W t account referenced (names.filter fun key => key ∉ referenced) s) ?_
    fun names => removeOrphanStages_spec account referenced _ 0
  refine Spec.atomic (hF.at _) fun s hi h => ⟨fun _ => rfl, fun e he ha hr => ?_⟩
  have idle : ∃ k, Change t (.listStaging account referenced) k s s ∧ Grounds W t k s :=
    ⟨.idle, rfl, trivial⟩
  cases hf : e.fault with
  | before | after => exact ⟨idle, h⟩
  | none =>
    refine ⟨idle, h.1, h.2, s, ⟨hi, h.2, ha, fun key hkey => ?_⟩, .refl⟩
    simp only [List.mem_filter, List.mem_map, Prod.exists, exists_and_right, exists_eq_right,
      decide_eq_true_eq] at hkey
    obtain ⟨⟨bytes, hbytes⟩, hnot⟩ := hkey
    obtain ⟨hlook, hstage⟩ := Table.mem_select.mp hbytes
    exact ⟨by simp [hlook], hnot, hstage⟩

theorem cleanupAccounts_spec (referenced : List ObjectKey) (accounts : List AccountPath)
    (report : ReconcileReport) :
    Spec (W.context t) (fun s => Idle W t s ∧ ReferencedSeen W t referenced s)
      (cleanupAccounts referenced accounts report) (fun _ s => Idle W t s)
      (fun _ s => Idle W t s) := by
  induction accounts generalizing report with
  | nil => exact Spec.pure fun s h => h.1
  | cons account rest ih =>
    refine Spec.bind (Spec.attempt (R := fun _ s => Idle W t s ∧ ReferencedSeen W t referenced s)
      (cleanupOrphanStaging_spec account referenced)) fun result => ?_
    cases result with
    | ok removed => exact Spec.pure_bind (ih _)
    | error e => exact Spec.pure_bind (ih _)

/-- Every upload that was a candidate of the pass has been dealt with. -/
def Resumed (W : World) (F : Server → Prop) (D : Uuid → Server → Prop) (s : Server) : Prop :=
  ∃ s₀, W.inv s₀ ∧ F s₀ ∧ ∀ id ∈ reconcileCandidates s₀.db, D id s

/-- `reconcile_all`. Unless a step failed or an upload vanished, it deals with every candidate. -/
theorem reconcileAll_spec {F : Server → Prop} {X D : Uuid → Server → Prop} (hF : W.Kept t F)
    (hX : ∀ id, (W.context t).Lasting (X id)) (hD : ∀ id, (W.context t).Lasting (D id))
    (hdone : ∀ id outcome s, X id s → Past W t (Completed W t id outcome) s → D id s)
    (hset : ∀ id s, X id s → W.Faulty ∨ Past W t (Setback W t id) s → D id s)
    (hstart : ∀ s, W.inv s → F s → ∀ id ∈ reconcileCandidates s.db, X id s ∧ W.does (.lock id)) :
    Spec (W.context t) (fun s => Idle W t s ∧ F s) (reconcileAll t)
      (fun _ s => Idle W t s ∧ Resumed W F D s)
      (fun _ s => Idle W t s ∧ (Resumed W F D s ∨ W.Faulty ∨ ∃ s₀ id, W.inv s₀ ∧ X id s₀ ∧
        s₀.db.uploads.lookup id = none)) := by
  have lasts : (W.context t).Lasting (Resumed W F D) := by
    constructor
    · rintro site h s s' hi hi' hr ⟨s₀, hi₀, hf, hd⟩
      exact ⟨s₀, hi₀, hf, fun id hid => (hD id).stable site h s s' hi hi' hr (hd id hid)⟩
    · rintro site s s' hi hg ⟨s₀, hi₀, hf, hd⟩
      exact ⟨s₀, hi₀, hf, fun id hid => (hD id).step site s s' hi hg (hd id hid)⟩
  refine Spec.bind ((query_spec ((World.Kept.and Idle.kept hF).at .other)).weaken (fun _ h => h)
    (fun _ _ h => h) fun _ s h => ⟨h.2.1.1, .inr (.inl ?_)⟩) fun ids => ?_
  · exact h.2.2.elim (fun h => h) fun h => nomatch h
  intro s hs
  obtain ⟨hi₀, ⟨hidle, hf⟩, hids⟩ := hs
  cases hids
  refine Spec.bind (Q := fun _ s => Idle W t s ∧ Resumed W F D s)
    ((reconcileUploads_spec hX hD hdone hset _ (fun id hid => (hstart s hi₀ hf id hid).2)
      _).weaken (fun _ h => h)
      (fun _ s' h => ⟨h.1, ⟨s, hi₀, hf, h.2⟩⟩) fun _ s h => ⟨h.1, .inr (h.2.imp_right
        fun ⟨s₀, id, hi, _, hx, hnone⟩ => ⟨s₀, id, hi, hx, hnone⟩)⟩) (fun report => ?_) s
    ⟨hidle, fun id hid => (hstart s hi₀ hf id hid).1⟩
  · have rest : Spec (W.context t) (Idle W t)
        (do
          let blobReport ← reconcileOrphanBlobs t none
          let report := { report with
            orphanBlobsRemoved := report.orphanBlobsRemoved + blobReport.removed
            errors := report.errors + blobReport.errors }
          let accounts ← query .other fun db => .ok (accountPaths db)
          let referenced ← query .other fun db => .ok (referencedStages db)
          cleanupAccounts referenced accounts report)
        (fun _ s => Idle W t s) (fun _ s => Idle W t s) := by
      refine Spec.bind (reconcileOrphanBlobs_spec none) fun blobReport => Spec.bind
        ((query_spec (Idle.kept.at .other)).weaken (fun _ h => h) (fun _ _ h => h.2.1)
          fun _ _ h => h.2.1) fun accounts => Spec.bind
        ((query_spec (Idle.kept.at .other)).weaken (fun _ h => h) (fun _ _ h => h)
          fun _ _ h => h.2.1) fun referenced => ?_
      exact (cleanupAccounts_spec referenced accounts _).weaken
        (fun s h => ⟨h.2.1, s, ⟨h.1, (Except.ok.inj h.2.2).symm⟩, .refl⟩) (fun _ _ h => h)
        fun _ _ h => h
    exact (rest.frame lasts).weaken (fun _ h => h) (fun _ _ h => h) fun _ _ h => ⟨h.1, .inl h.2⟩

/-! ## Requests -/

/-- What an answer says of the server. -/
def Answered (W : World) (t : Nat) : Request → Answer → Server → Prop
  | .createUpload auth request, .ok (.created response), s => Created W t auth request s response
  | .complete _ uploadId, .ok (.completed outcome), s => Past W t (Completed W t uploadId outcome) s
  | .complete _ uploadId, .error _, s => W.Faulty ∨ Past W t (Setback W t uploadId) s
  | _, _, _ => True

theorem answer_spec {α : Type} {f : α → Response} {call : Call α} {P : Server → Prop}
    {Q : α → Server → Prop} {E : AppError → Server → Prop} (h : Spec (W.context t) P call Q E) :
    Spec (W.context t) P (answer f call) (fun response s => ∃ a, response = f a ∧ Q a s) E :=
  Spec.bind h fun a => Spec.pure fun _ hq => ⟨a, rfl, hq⟩

/-- Every request, from a thread that holds no lock: it takes its steps on their grounds and
answers truthfully. -/
theorem handle_spec (config : Config) {request : Request} (hserves : W.Serves request) :
    Spec (W.context t) (Idle W t) (handle config t request)
      (fun response s => Idle W t s ∧ Answered W t request (.ok response) s)
      (fun error s => Idle W t s ∧ Answered W t request (.error error) s) := by
  have plain : ∀ {α : Type} {f : α → Response} {call : Call α} {A : Answer → Server → Prop},
      (∀ r s, A r s) → Spec (W.context t) (Idle W t) call (fun _ s => Idle W t s)
        (fun _ s => Idle W t s) →
      Spec (W.context t) (Idle W t) (answer f call) (fun r s => Idle W t s ∧ A (.ok r) s)
        (fun e s => Idle W t s ∧ A (.error e) s) := by
    intro α f call A hA h
    exact (answer_spec h).weaken (fun _ h => h) (fun _ _ ⟨_, _, h⟩ => ⟨h, hA _ _⟩)
      fun _ _ h => ⟨h, hA _ _⟩
  cases request with
  | createUpload auth request =>
    refine (answer_spec (createUpload_spec config auth request hserves)).weaken (fun _ h => h)
      ?_ fun _ _ h => ⟨h, trivial⟩
    rintro response s ⟨a, rfl, h⟩
    exact h
  | complete accountId uploadId =>
    refine (answer_spec (completeInner_spec hserves (some accountId))).weaken (fun _ h => h)
      ?_ fun _ _ h => h
    rintro response s ⟨a, rfl, h⟩
    exact h
  | putPart auth uploadId index body =>
    exact plain (fun _ _ => trivial) (putPart_spec config auth uploadId index body hserves)
  | updateAsset auth assetId request =>
    exact plain (fun _ _ => trivial) (updateAsset_spec auth assetId request hserves)
  | trashAsset auth assetId | restoreAsset auth assetId =>
    exact plain (fun _ _ => trivial) (setTrashed_spec auth assetId _ hserves)
  | deleteAsset auth assetId =>
    exact plain (fun _ _ => trivial) (deleteAssetPermanently_spec auth assetId hserves)
  | reconcileAll =>
    refine plain (fun _ _ => trivial) ((reconcileAll_spec (F := fun _ => True)
      (X := fun _ _ => True) (D := fun _ _ => True) (World.Kept.const True) ?_ ?_
      (fun _ _ _ _ _ => trivial) (fun _ _ _ _ => trivial) fun _ _ _ id _ =>
        ⟨trivial, hserves id⟩).weaken
      (fun _ h => ⟨h, trivial⟩) (fun _ _ h => h.1) fun _ _ h => h.1)
    · exact fun _ => ⟨Context.Stable.const True, fun _ _ _ _ _ _ => trivial⟩
    · exact fun _ => ⟨Context.Stable.const True, fun _ _ _ _ _ _ => trivial⟩
  | reconcileOrphanBlobs accountFilter =>
    exact plain (fun _ _ => trivial) (reconcileOrphanBlobs_spec accountFilter)

end MediaBackup
