import MediaBackup.Server.Ownership
import MediaBackup.Server.Progress
import MediaBackup.Framework.Steps

/-!
# Sessions of uploads

Requests that announce, receive and complete uploads, served one after the other. What
`create_upload` answers is about the asset and the parts of the request as long as the upload it
resumes was opened for them.
-/

namespace MediaBackup

open Call Relation

/-! ## What an upload is linked to -/

/-- The resource of an upload stands for its own asset and source, and its parts are those of its
manifest. -/
structure Server.Linked (s : Server) : Prop where
  resource : ∀ id r resourceId, s.db.uploads.lookup id = some r →
    r.commitResourceId = some resourceId → resourceId < s.uuids ∧
      ∀ resource, s.db.resources.lookup resourceId = some resource →
        resource.assetId = r.assetId ∧
          resource.sourceResourceId = r.request.sourceResourceId
  part : ∀ key row r, s.db.uploadParts.lookup key = some row →
    s.db.uploads.lookup key.1 = some r → ∃ part ∈ r.request.parts, part.index = key.2 ∧
      part.size = row.expectedSize ∧ part.blake3 = row.expectedBlake3

theorem Server.Fresh.linked {s : Server} (h : s.Fresh) : s.Linked where
  resource id r resourceId hr := by simp [h.uploads] at hr
  part key row r hrow := by simp [h.uploadParts] at hrow

namespace Change

variable [Blake3] {t : Nat} {site : Site} {k : Kind} {s s' : Server}

/-- The resource of an upload was its resource before, or its commit is the step. -/
theorem resourceId_same_or_settled (h : Change t site k s s') {id : Uuid} {r' : Upload}
    {resourceId : Uuid} (hr' : s'.db.uploads.lookup id = some r')
    (hid : r'.commitResourceId = some resourceId) :
    (∃ r, s.db.uploads.lookup id = some r ∧ r.commitResourceId = some resourceId ∧
        r.SameRequest r') ∨
      ∃ r ready approved now, s.db.uploads.lookup id = some r ∧ k = .commit ready approved now ∧
        ready.uploadId = id ∧ r.commitState = .finalizing ∧ ReadyFor ready r ∧
        r'.commitState = .committed ∧ r.SameRequest r' := by
  have hc := h.upload id
  rw [hr'] at hc
  generalize s.db.uploads.lookup id = old at hc
  cases hc with
  | same => exact .inl ⟨r', rfl, hid, .refl r'⟩
  | opened => cases hid
  | started => cases hid
  | finalized | rejected => exact .inl ⟨_, rfl, hid, rfl, rfl, rfl, rfl⟩
  | settled kind upload holds state fits =>
    exact .inr ⟨_, _, _, _, rfl, kind, upload, state, fits, rfl, rfl, rfl, rfl, rfl⟩
  | @doubted old reason now =>
    have hsame := Upload.sameRequest_doubted old reason now
    refine .inl ⟨old, rfl, ?_, hsame.accountId.symm, hsame.deviceId.symm, hsame.assetId.symm,
      hsame.request.symm⟩
    unfold Upload.doubted at hid
    split at hid <;> exact hid

/-- The resource a commit writes. -/
theorem settled_resource {ready : ReadyCommit} {approved : Option BlobCandidate} {now : Nat}
    (h : Change t site (.commit ready approved now) s s') {r r' : Upload}
    (hr : s.db.uploads.lookup ready.uploadId = some r) (hstate : r.commitState = .finalizing)
    (hr' : s'.db.uploads.lookup ready.uploadId = some r') (hstate' : r'.commitState = .committed) :
    ∃ resourceId resource, r'.commitResourceId = some resourceId ∧
      s'.db.resources.lookup resourceId = some resource ∧ resource.assetId = ready.assetId ∧
      resource.sourceResourceId = ready.request.sourceResourceId ∧
      ((∃ old, s.db.resources.lookup resourceId = some old) ∨ resourceId = s.uuids) := by
  obtain ⟨-, -, -, result, db, hrun, rfl⟩ := h
  have unchanged : s.db.uploads.lookup ready.uploadId = some r' → False := by
    intro hsame
    rw [hr] at hsame
    cases hsame
    rw [hstate] at hstate'
    cases hstate'
  rcases commitMetadataIn_ok hrun with ⟨-, rfl, -⟩ | ⟨_, -, rfl, -⟩ |
    ⟨actual, outcome, -, -, -, -, hsettle⟩
  · exact (unchanged hr').elim
  · exact (unchanged hr').elim
  · obtain ⟨u, row, -, -, hup, -, -, changes, events, rfl, -⟩ := settleUpload_ok hsettle
    obtain ⟨row', hrow, hasset, -, hsource, -, -, htarget⟩ := upsertResource_ok hup
    have hrows : row = row' := by
      have := congrArg (fun db : Database => db.resources.lookup outcome.resourceId) hrow
      simpa using this
    subst hrows
    have hsettled : u.settled actual.id outcome.resourceId actual.storagePath outcome.deduplicated
        now = r' := by
      simpa [Server.store, Database.setUpload, Database.setResource] using hr'
    subst hsettled
    refine ⟨outcome.resourceId, row, rfl, ?_, hasset, hsource, ?_⟩
    · simp [Server.store, Database.setUpload, Database.setResource]
    · rw [findResource_congr (insertBlob_resources now ready s.db)] at htarget
      rcases htarget with ⟨old, hfind⟩ | ⟨-, hfresh⟩
      · exact .inl ⟨old, (findResource_some hfind).1⟩
      · exact .inr hfresh

/-- The asset and the source of a resource row never change. -/
theorem resource_source (h : Change t site k s s') {id : Uuid} {row : Resource}
    (hid : id < s.uuids) (hrow : s'.db.resources.lookup id = some row) :
    ∃ old, s.db.resources.lookup id = some old ∧ row.assetId = old.assetId ∧
      row.sourceResourceId = old.sourceResourceId := by
  have found : (∃ old, findResource row.assetId row.sourceResourceId s.db = some (id, old)) ∨
      findResource row.assetId row.sourceResourceId s.db = none ∧ id = s.uuids →
      ∃ old, s.db.resources.lookup id = some old ∧ row.assetId = old.assetId ∧
        row.sourceResourceId = old.sourceResourceId := by
    rintro (⟨old, hfind⟩ | ⟨-, hfresh⟩)
    · obtain ⟨hlook, hasset, hsource⟩ := findResource_some hfind
      exact ⟨old, hlook, hasset.symm, hsource.symm⟩
    · exact absurd hfresh (Nat.ne_of_lt hid)
  have hc := h.resource id
  rw [hrow] at hc
  generalize hold : s.db.resources.lookup id = old at hc
  cases hc with
  | same => exact ⟨row, rfl, rfl, rfl⟩
  | attached _ _ target =>
    rw [← hold]
    exact found target
  | settled _ _ _ _ target =>
    rw [← hold]
    exact found target

theorem linked_resource (h : Change t site k s s') (ho : s.Owned) (hl : s.Linked) {id : Uuid}
    {r' : Upload} {resourceId : Uuid} (hr' : s'.db.uploads.lookup id = some r')
    (hid : r'.commitResourceId = some resourceId) :
    resourceId < s'.uuids ∧ ∀ resource, s'.db.resources.lookup resourceId = some resource →
      resource.assetId = r'.assetId ∧ resource.sourceResourceId = r'.request.sourceResourceId := by
  rcases h.resourceId_same_or_settled hr' hid with ⟨r, hr, hrid, hsame⟩ |
    ⟨r, ready, approved, now, hr, hk, hupload, hstate, hfits, hstate', hsame⟩
  · obtain ⟨hdrawn, hlink⟩ := hl.resource id r resourceId hr hrid
    refine ⟨hdrawn.trans_le h.uuids, fun resource hresource => ?_⟩
    obtain ⟨old, hold, hasset, hsource⟩ := h.resource_source hdrawn hresource
    obtain ⟨hasset', hsource'⟩ := hlink old hold
    rw [hasset, hsource, hasset', hsource', hsame.assetId, hsame.request]
    exact ⟨rfl, rfl⟩
  · subst hk
    subst hupload
    obtain ⟨resourceId', row, hid', hrow, hasset, hsource, htarget⟩ :=
      h.settled_resource hr hstate hr' hstate'
    rw [hid] at hid'
    cases hid'
    constructor
    · rcases htarget with ⟨old, hold⟩ | hfresh
      · exact (ho.drawn resourceId old hold).trans_le h.uuids
      · rw [hfresh, h.2.2.eq.2.2.2]
        exact Nat.lt_add_of_pos_right (by decide)
    · intro resource hresource
      rw [hrow] at hresource
      cases hresource
      rw [hasset, hsource, ← hfits.assetId, ← hfits.request, hsame.assetId, hsame.request]
      exact ⟨rfl, rfl⟩

theorem linked_part (h : Change t site k s s') (hv : s.Valid) (ho : s.Owned) (hl : s.Linked)
    {key : Uuid × Nat} {row : UploadPart} {r' : Upload}
    (hrow : s'.db.uploadParts.lookup key = some row)
    (hr' : s'.db.uploads.lookup key.1 = some r') :
    ∃ part ∈ r'.request.parts, part.index = key.2 ∧ part.size = row.expectedSize ∧
      part.blake3 = row.expectedBlake3 := by
  have hc := h.part key
  rw [hrow] at hc
  generalize hold : s.db.uploadParts.lookup key = old at hc
  have before : ∀ row₀, s.db.uploadParts.lookup key = some row₀ →
      ∃ part ∈ r'.request.parts, part.index = key.2 ∧ part.size = row₀.expectedSize ∧
        part.blake3 = row₀.expectedBlake3 := by
    intro row₀ hrow₀
    rcases h.upload_origin hr' with ⟨r, hr, hsame⟩ | ⟨auth, assetId, request, now, -, hid, -⟩
    · rw [hsame.request]
      exact hl.part key row₀ r hrow₀ hr
    · obtain ⟨r, hr⟩ := ho.parts key row₀ hrow₀
      have hdrawn := hv.drawn _ r hr
      rw [hid] at hdrawn
      exact absurd hdrawn (Nat.not_lt_of_le (Nat.le_succ _))
  cases hc with
  | same => exact before row hold
  | @opened _ auth request now part kind fresh mem index =>
    rcases h.upload_origin hr' with ⟨r, hr, -⟩ | ⟨auth', assetId, request', now', hk, -, hopened⟩
    · have hdrawn := hv.drawn _ r hr
      rw [fresh] at hdrawn
      exact absurd hdrawn (Nat.not_lt_of_le (Nat.le_succ _))
    · rw [kind] at hk
      cases hk
      rw [hopened]
      exact ⟨part, mem, index, rfl, rfl⟩
  | @received old => exact before old hold

theorem linked (h : Change t site k s s') (hv : s.Valid) (ho : s.Owned) (hl : s.Linked) :
    s'.Linked where
  resource _ _ _ hr' hid := h.linked_resource ho hl hr' hid
  part _ _ _ hrow hr' := h.linked_part hv ho hl hrow hr'

end Change

section

variable [Blake3]

/-! ## Requests that run alone -/

/-- Announcing, receiving and completing uploads. -/
def Request.uploads : Request → Bool
  | .createUpload .. | .putPart .. | .complete .. => true
  | _ => false

/-- The server answers a request that runs alone, with any faults on the way. -/
def Served (config : Config) (c : Request) (s : Server) (a : Answer) (s' : Server) : Prop :=
  ∃ t es, (handle config t c).run.run es s = some (a, s')

/-- Requests served one after the other. -/
inductive Session (config : Config) (s : Server) : Server → Prop
  | nil : Session config s s
  | serve {s₁ s₂ : Server} {c : Request} {a : Answer} (h : Session config s s₁)
      (uploads : c.uploads = true) (served : Served config c s₁ a s₂) : Session config s s₂

/-- The world in which nobody takes a step between two steps of a call, and nothing is deleted. -/
def World.serial : World :=
  .crowd (fun s => s.Valid ∧ s.Owned ∧ s.Linked) (fun _ => True) (fun _ _ => True)
    (fun _ _ _ => False) (fun k => ¬k.isDelete) fun _ h => h.1

theorem World.serial_later {t : Nat} {s s' : Server} (h : World.serial.Later t s s') : s' = s := by
  induction h with
  | refl => rfl
  | tail _ hstep =>
    obtain ⟨site, -, hi, hi', t', -, site', k, -, hs⟩ := hstep
    exact hs.elim

theorem World.serial_since {t : Nat} {own : Kind → Prop} (hown : ∀ k, own k → k.touchesDb = false)
    {s s' : Server} (h : World.serial.Since t own s s') : s'.db = s.db := by
  induction h with
  | refl => rfl
  | tail _ hstep ih =>
    rcases hstep with ⟨site, hi, hi', t', -, site', k, -, hs⟩ | ⟨site, k, hk, hc⟩
    · exact hs.elim
    · rw [hc.db_eq (hown k hk), ih]

/-- The upload was opened for the asset and for the content of the request. -/
structure Serving (auth : AuthContext) (request : CreateUploadRequest) (id : Uuid) (s : Server) :
    Prop where
  known : id < s.uuids
  row : ∃ r a, s.db.uploads.lookup id = some r ∧
    r.request.sourceResourceId = request.sourceResourceId ∧
    r.request.contentBlake3 = request.contentBlake3 ∧
    s.db.assets.lookup r.assetId = some a ∧ a.accountId = auth.accountId ∧
    a.deviceId = auth.deviceId ∧ a.sourceAssetId = request.sourceAssetId

theorem Serving.step {auth : AuthContext} {request : CreateUploadRequest} {id : Uuid} {t : Nat}
    {site : Site} {k : Kind} {s s' : Server} (h : Serving auth request id s)
    (hc : Change t site k s s') (ho : s.Owned) (hk : ¬k.isDelete) : Serving auth request id s' := by
  have hdelete : ∀ auth assetId now, k ≠ .delete auth assetId now := by
    rintro auth assetId now rfl
    exact hk trivial
  obtain ⟨r, a, hr, hsource, hcontent, ha, hacc, hdevice, hasset⟩ := h.row
  refine ⟨h.known.trans_le hc.uuids, ?_⟩
  rcases hc.upload_kept hr h.known with ⟨r', hr', hsame⟩ | ⟨auth', now, hdeleted⟩
  · rcases hc.asset_kept ha (ho.assets _ a ha) with ⟨a', ha', hsame'⟩ | ⟨auth', now, hdeleted⟩
    · refine ⟨r', a', hr', ?_, ?_, ?_, ?_, ?_, ?_⟩
      · rw [hsame.request, hsource]
      · rw [hsame.request, hcontent]
      · rw [hsame.assetId, ha']
      · rw [hsame'.accountId, hacc]
      · rw [hsame'.deviceId, hdevice]
      · rw [hsame'.sourceAssetId, hasset]
    · exact absurd hdeleted (hdelete _ _ _)
  · exact absurd hdeleted (hdelete _ _ _)

/-- What serving one request keeps, and what its answer says. -/
theorem Served.spec {config : Config} {c : Request} {s s' : Server} {a : Answer}
    (h : Served config c s a s') (hc : c.uploads = true) (hi : World.serial.inv s) :
    World.serial.inv s' ∧ (∃ t, Answered World.serial t c a s') ∧
      ∀ auth request id, Serving auth request id s → Serving auth request id s' := by
  obtain ⟨t, es, hrun⟩ := h
  have hserves : World.serial.Serves c := by
    cases c with
    | createUpload | putPart | complete =>
      simp [World.Serves, World.serial, World.crowd, Kind.isDelete]
    | _ => cases hc
  have hidle : Idle World.serial t s := fun hl => hl.elim
  have hmeets := handle_spec config hserves s hidle
  have hnot : ∀ k s, Grounds World.serial t k s → ¬k.isDelete := by
    intro k s hg
    cases k with
    | delete => exact hg
    | _ => exact fun h => h
  have hinv : ∀ site s s', World.serial.inv s → (World.serial.context t).guarantee site s s' →
      World.serial.inv s' := by
    intro site s s' hi hstep
    obtain ⟨k, hc, hg⟩ := hstep
    exact ⟨hc.valid hi.1, hc.owned (W := World.serial) (fun _ h => ⟨h.1, h.2.1⟩) hg hi.1 hi.2.1,
      hc.linked hi.1 hi.2.1 hi.2.2⟩
  have hlasting : ∀ auth request id,
      (World.serial.context t).Lasting (Serving auth request id) := by
    intro auth request id
    constructor
    · rintro site - s s' - - ⟨t', -, site', k, -, hs⟩
      exact hs.elim
    · intro site s s' hi hstep hserving
      obtain ⟨k, hc, hg⟩ := hstep
      exact hserving.step hc hi.2.1 (hnot k s hg)
  have hend := (Meets.run (fun _ => trivial) (fun _ _ => trivial) hinv hi hmeets).1 a s' hrun
  refine ⟨hend.2, ⟨t, ?_⟩, fun auth request id hserving => ?_⟩
  · cases a with
    | ok response => exact hend.1.2
    | error error => exact hend.1.2
  · have hframed := Meets.frame (hlasting auth request id) hmeets hserving
    exact ((Meets.run (fun _ => trivial) (fun _ _ => trivial) hinv hi hframed).1 a s' hrun).1.2

/-- What a session keeps. -/
theorem Session.keeps {config : Config} {s s' : Server} (h : Session config s s')
    (hi : World.serial.inv s) : World.serial.inv s' ∧
      ∀ auth request id, Serving auth request id s → Serving auth request id s' := by
  induction h with
  | nil => exact ⟨hi, fun _ _ _ hserving => hserving⟩
  | serve _ uploads served ih =>
    have hspec := served.spec uploads ih.1
    exact ⟨hspec.1, fun auth request id hserving =>
      hspec.2.2 auth request id (ih.2 auth request id hserving)⟩

/-! ## What `create_upload` answers -/

/-- Every missing part is one that the upload expects as the request describes it. -/
def PartsExpected (request : CreateUploadRequest) (id : Uuid) (missing : List Nat) (s : Server) :
    Prop :=
  ∀ index ∈ missing, ∃ part ∈ request.parts, part.index = index ∧
    ∃ row, s.db.uploadParts.lookup (id, index) = some row ∧ row.expectedSize = part.size ∧
      row.expectedBlake3 = part.blake3

/-- The asset of the request has the resource of the request, with its content. -/
def Provides (auth : AuthContext) (request : CreateUploadRequest) (s : Server) : Prop :=
  ∃ assetId a resourceId resource b, s.db.assets.lookup assetId = some a ∧
    a.accountId = auth.accountId ∧ a.deviceId = auth.deviceId ∧
    a.sourceAssetId = request.sourceAssetId ∧
    s.db.resources.lookup resourceId = some resource ∧ resource.assetId = assetId ∧
    resource.sourceResourceId = request.sourceResourceId ∧
    s.db.blobs.lookup resource.blobId = some b ∧ b.contentBlake3 = request.contentBlake3

/-- The upload that `create_upload` would resume was opened for the asset of the request, and its
parts are parts of the request unless they have been received. -/
def Agrees (auth : AuthContext) (request : CreateUploadRequest) (s : Server) : Prop :=
  findBlob auth.accountId request.contentBlake3 s.db = none →
    ∀ id r, findActiveUpload auth request s.db = some id → s.db.uploads.lookup id = some r →
      (∃ a, s.db.assets.lookup r.assetId = some a ∧ a.sourceAssetId = request.sourceAssetId) ∧
        ∀ part ∈ r.request.parts, part ∈ request.parts ∨
          ∃ row, s.db.uploadParts.lookup (id, part.index) = some row ∧ row.receivedAt.isSome

/-- Where the upload of an answer comes from. -/
inductive Planned (auth : AuthContext) (request : CreateUploadRequest) (s : Server) (id : Uuid) :
    List Nat → Server → Prop
  | resumed (now : Nat) (db : Database)
      (plan : planUpload auth request now s.uuids s.db = .ok (.resume id, db)) :
      Planned auth request s id (missingPartsOf id db) (s.store db)
  | opened (now : Nat) (db : Database)
      (plan : planUpload auth request now s.uuids s.db = .ok (.opened id, db)) :
      Planned auth request s id (request.parts.map (·.index)) (s.store db)

theorem createUpload_alone (config : Config) (auth : AuthContext) (request : CreateUploadRequest)
    (s₁ : Server) :
    Spec (.alone fun _ => True) (fun s => s = s₁) (createUpload config auth request)
      (fun response s => ∀ id, response.uploadId = some id →
        Planned auth request s₁ id response.missingParts s) fun _ _ => True := by
  unfold createUpload
  split
  · exact Spec.throw fun _ _ => trivial
  apply Spec.bind (Q := fun plan s => ∃ now db,
    planUpload auth request now s₁.uuids s₁.db = .ok (plan, db) ∧ s = s₁.store db)
  · apply Spec.alone_when
    intro e s _ hs
    subst hs
    cases hfault : e.fault with
    | before => trivial
    | none | after =>
      cases hplan : planUpload auth request e.now s.uuids s.db with
      | error error => trivial
      | ok planned => first | exact ⟨e.now, planned.2, hplan, rfl⟩ | trivial
  intro plan
  cases plan with
  | opened id =>
    apply Spec.pure
    intro s hs id' hid
    obtain ⟨now, db, hplan, rfl⟩ := hs
    cases hid
    exact .opened now db hplan
  | resume id =>
    apply Spec.bind (Q := fun missing s => Planned auth request s₁ id missing s)
    · apply Spec.alone
      intro e s _ hs
      obtain ⟨now, db, hplan, rfl⟩ := hs
      cases hfault : e.fault with
      | none => exact .resumed now db hplan
      | before | after => trivial
    · intro missing
      apply Spec.pure
      intro s hs id' hid
      cases hid
      exact hs
  | deduplicate path assetId blobId storagePath storedSize =>
    dsimp only
    split
    all_goals
      apply Spec.bind Spec.alone_any
      intro _
    · apply Spec.bind Spec.alone_any
      intro _
      apply Spec.bind Spec.alone_any
      intro _
      apply Spec.bind Spec.alone_any
      intro _
      apply Spec.pure
      intro s _ id hid
      cases hid
    · apply Spec.bind Spec.alone_any
      intro _
      apply Spec.bind Spec.alone_any
      intro _
      apply Spec.pure
      intro s _ id hid
      cases hid

theorem created_planned {config : Config} {auth : AuthContext} {request : CreateUploadRequest}
    {s s' : Server} {response : CreateUploadResponse}
    (h : Served config (.createUpload auth request) s (.ok (.created response)) s') {id : Uuid}
    (hid : response.uploadId = some id) : Planned auth request s id response.missingParts s' := by
  obtain ⟨t, es, hrun⟩ := h
  have hspec : Spec (.alone fun _ => True) (fun s₁ => s₁ = s)
      (handle config t (.createUpload auth request))
      (fun a s' => ∀ response, a = .created response → ∀ id, response.uploadId = some id →
        Planned auth request s id response.missingParts s') fun _ _ => True := by
    apply Spec.bind (createUpload_alone config auth request s)
    intro answered
    apply Spec.pure
    intro s' hs response hresponse
    cases hresponse
    exact hs
  exact Spec.run_ok hspec rfl (fun _ => trivial) hrun response rfl id hid

omit [Blake3] in
theorem exists_lookup_insertParts (id : Uuid) (parts : List UploadPartSpec) (index : Nat) :
    ∀ rows : Table (Uuid × Nat) UploadPart,
      (∃ part ∈ parts, part.index = index) ∨ (∃ row, rows.lookup (id, index) = some row) →
      ∃ row, (insertParts id parts rows).lookup (id, index) = some row := by
  unfold insertParts
  induction parts with
  | nil => simp
  | cons part rest ih =>
    intro rows h
    rw [List.foldl_cons]
    apply ih
    by_cases hindex : part.index = index
    · right
      simp [hindex]
    · simpa [Table.lookup_insert_eq, hindex, Ne.symm hindex] using h

omit [Blake3] in
/-- The parts an upload misses are parts of its manifest. -/
theorem missingPartsOf_expected {s : Server} (hl : s.Linked) {id : Uuid} {r : Upload}
    (hr : s.db.uploads.lookup id = some r) {index : Nat}
    (hindex : index ∈ missingPartsOf id s.db) :
    ∃ part ∈ r.request.parts, part.index = index ∧
      ∃ row, s.db.uploadParts.lookup (id, index) = some row ∧ row.expectedSize = part.size ∧
        row.expectedBlake3 = part.blake3 ∧ row.receivedAt = none := by
  have hmem := (List.mem_insertionSort _).mp hindex
  obtain ⟨⟨⟨upload, index'⟩, row⟩, hselect, hindex'⟩ := List.mem_map.mp hmem
  obtain ⟨hrow, hkey⟩ := Table.mem_select.mp hselect
  simp only [Option.isNone_iff_eq_none, Bool.decide_and, Bool.and_eq_true,
    decide_eq_true_eq] at hkey hindex'
  obtain ⟨hid, hmissing⟩ := hkey
  subst hid
  subst hindex'
  obtain ⟨part, hpart, hindex, hsize, hdigest⟩ := hl.part _ row r hrow hr
  exact ⟨part, hpart, hindex, row, hrow, hsize.symm, hdigest.symm, hmissing⟩

omit [Blake3] in
/-- An upload that is resumed for a request it agrees with. -/
theorem resumed_serves {auth : AuthContext} {request : CreateUploadRequest} {s : Server}
    (hi : World.serial.inv s) (ha : Agrees auth request s) {id : Uuid}
    (hblob : findBlob auth.accountId request.contentBlake3 s.db = none)
    (hactive : findActiveUpload auth request s.db = some id) :
    Serving auth request id s ∧ PartsExpected request id (missingPartsOf id s.db) s := by
  obtain ⟨hv, ho, hl⟩ := hi
  obtain ⟨r, hr, haccount, hdevice, hsource, hcontent, -, -⟩ := findActiveUpload_some hactive
  obtain ⟨⟨a, hasset, hsourceAsset⟩, hparts⟩ := ha hblob id r hactive hr
  obtain ⟨a', hasset', haccount', hdevice'⟩ := ho.uploads id r hr
  have hsame : a' = a := Option.some.inj (hasset'.symm.trans hasset)
  rw [hsame] at haccount' hdevice'
  have hfits := hv.fits id r hr
  constructor
  · refine ⟨hv.drawn id r hr, r, a, hr, ?_, ?_, hasset, ?_, ?_, hsourceAsset⟩
    · rw [← hfits.source, hsource]
    · rw [← hfits.content, hcontent]
    · rw [haccount', haccount]
    · rw [hdevice', hdevice]
  · intro index hindex
    obtain ⟨part, hpart, hpartIndex, row, hrow, hsize, hdigest, hmissing⟩ :=
      missingPartsOf_expected hl hr hindex
    refine ⟨part, ?_, hpartIndex, row, hrow, hsize, hdigest⟩
    rcases hparts part hpart with hmem | ⟨row', hrow', hreceived⟩
    · exact hmem
    · rw [hpartIndex, hrow] at hrow'
      cases hrow'
      simp [hmissing] at hreceived

omit [Blake3] in
/-- The upload of an answer stands for the request. -/
theorem Planned.serves {auth : AuthContext} {request : CreateUploadRequest} {s s' : Server}
    {id : Uuid} {missing : List Nat} (h : Planned auth request s id missing s')
    (hi : World.serial.inv s) (hi' : World.serial.inv s') (ha : Agrees auth request s)
    (hkeeps : Serving auth request id s → Serving auth request id s') :
    Serving auth request id s' ∧ PartsExpected request id missing s' := by
  cases h with
  | resumed now db plan =>
    obtain ⟨account, assetId, db₁, -, hup, hcase⟩ := planUpload_ok plan
    obtain ⟨row, rfl, -⟩ := upsertAsset_eq hup
    rcases hcase with ⟨_, _, -, hplan, -⟩ | ⟨id', hblob, hactive, hplan, rfl⟩ | ⟨-, -, hplan, -⟩
    · cases hplan
    · cases hplan
      obtain ⟨hserving, hparts⟩ := resumed_serves hi ha hblob hactive
      exact ⟨hkeeps hserving, hparts⟩
    · cases hplan
  | opened now db plan =>
    obtain ⟨account, assetId, db₁, -, hup, hcase⟩ := planUpload_ok plan
    obtain ⟨row, rfl, haccount, hdevice, hsource, -⟩ := upsertAsset_eq hup
    rcases hcase with ⟨_, _, -, hplan, -⟩ | ⟨_, -, -, hplan, -⟩ | ⟨-, -, hplan, rfl⟩
    · cases hplan
    · cases hplan
    · cases hplan
      have hr : (s.store (insertUpload now (s.uuids + 1) auth assetId request
          (s.db.setAsset assetId row))).db.uploads.lookup (s.uuids + 1) =
          some (.opened auth assetId request now) := by
        simp [Server.store, insertUpload, Database.setUpload]
      constructor
      · refine ⟨Nat.lt_succ_self _, _, row, hr, rfl, rfl, ?_, haccount, hdevice, hsource⟩
        simp [Server.store, insertUpload, Database.setUpload, Database.setAsset, Upload.opened]
      · intro index hindex
        obtain ⟨part, hpart, hpartIndex⟩ := List.mem_map.mp hindex
        obtain ⟨row', hrow'⟩ := exists_lookup_insertParts (s.uuids + 1) request.parts index
          s.db.uploadParts (.inl ⟨part, hpart, hpartIndex⟩)
        obtain ⟨part', hpart', hindex', hsize, hdigest⟩ := hi'.2.2.part _ row' _ hrow' hr
        exact ⟨part', hpart', hindex', row', hrow', hsize.symm, hdigest.symm⟩

omit [Blake3] in
/-- What a completed upload provides. -/
theorem completed_provides {auth : AuthContext} {request : CreateUploadRequest} {id : Uuid}
    {outcome : CommitOutcome} {s : Server} (hi : World.serial.inv s)
    (hserving : Serving auth request id s) (hattached : Attached id outcome s) :
    Provides auth request s := by
  obtain ⟨r, a, hr, hsource, hcontent, hasset, haccount, hdevice, hsourceAsset⟩ := hserving.row
  obtain ⟨hrecorded, resource, b, hresource, hassetId, -, hblob, hblobContent⟩ := hattached r hr
  obtain ⟨-, hlink⟩ := hi.2.2.resource id r _ hr hrecorded.resourceId
  obtain ⟨-, hresourceSource⟩ := hlink resource hresource
  refine ⟨r.assetId, a, outcome.resourceId, resource, b, hasset, haccount, hdevice, hsourceAsset,
    hresource, hassetId, ?_, hblob, ?_⟩
  · rw [hresourceSource, hsource]
  · rw [hblobContent, hcontent]

/-- A completed upload, once its call has let go of it. -/
theorem Completed.past_attached {t : Nat} {id : Uuid} {outcome : CommitOutcome} {s : Server}
    (h : Past World.serial t (Completed World.serial t id outcome) s) :
    Attached id outcome s := by
  obtain ⟨s₁, hdone, hunlock⟩ := h
  obtain ⟨s₀, hattached, hdrop⟩ := hdone.attached
  have hdb : s.db = s₀.db := by
    rw [World.serial_since ?_ hunlock, World.serial_since ?_ hdrop]
    · intro k hk
      cases k with
      | dropStage => rfl
      | _ => exact hk.elim
    · intro k hk
      cases k with
      | unlock => rfl
      | _ => exact hk.elim
  unfold Attached
  rw [hdb]
  exact hattached

/-- In every session, the upload that answers `create_upload` misses parts of the request only, and
a `complete` of it that succeeds gives the asset of the request its resource with its content, as
long as the upload is not one that was opened for another asset or for parts that are still missing
and are not parts of the request. -/
theorem create_upload_serves_request (config : Config) {s₀ s₁ s₂ : Server} (hs : s₀.Fresh)
    (hbefore : Session config s₀ s₁) {auth : AuthContext} {request : CreateUploadRequest}
    (hagrees : Agrees auth request s₁) {response : CreateUploadResponse}
    (hcreated : Served config (.createUpload auth request) s₁ (.ok (.created response)) s₂)
    {id : Uuid} (hid : response.uploadId = some id) :
    PartsExpected request id response.missingParts s₂ ∧
      ∀ account outcome s₃ s₄, Session config s₂ s₃ →
        Served config (.complete account id) s₃ (.ok (.completed outcome)) s₄ →
        Provides auth request s₄ := by
  have hi : World.serial.inv s₁ := (hbefore.keeps ⟨hs.valid, hs.owned, hs.linked⟩).1
  obtain ⟨hi', -, hkeeps⟩ := hcreated.spec rfl hi
  obtain ⟨hserving, hparts⟩ :=
    (created_planned hcreated hid).serves hi hi' hagrees (hkeeps auth request id)
  refine ⟨hparts, fun account outcome s₃ s₄ hafter hcompleted => ?_⟩
  obtain ⟨hi₃, hkeeps₃⟩ := hafter.keeps hi'
  obtain ⟨hi₄, ⟨t, hanswered⟩, hkeeps₄⟩ := hcompleted.spec rfl hi₃
  have hserving₄ := hkeeps₄ auth request id (hkeeps₃ auth request id hserving)
  exact completed_provides hi₄ hserving₄ (Completed.past_attached hanswered)

end

section

open Sample

/-- A request that runs alone, without faults. -/
def serve (c : Request) (s : Server) : Option (Answer × Server) :=
  (handle config 0 c).run.run (fun _ => calm) s

def served (c : Request) (s : Server) : Server :=
  ((serve c s).map Prod.snd).getD s

theorem served_of_answer {c : Request} {s : Server} {a : Answer}
    (h : (serve c s).map Prod.fst = some a) : Served config c s a (served c s) := by
  obtain ⟨⟨a', s'⟩, hserve, ha⟩ := Option.map_eq_some_iff.mp h
  have hserved : served c s = s' := by
    unfold served
    rw [hserve]
    rfl
  rw [hserved, ← ha]
  exact ⟨0, fun _ => calm, hserve⟩

/-- The upload of a photo is announced. -/
def photoOpened : Server := served (.createUpload phone (manifest "a" "r" [7])) server

/-- It is announced a second time. -/
def photoResumed : Server := served (.createUpload phone (manifest "a" "r" [7])) photoOpened

/-- Another photo with the same resource identifier and the same content is announced. -/
def otherResumed : Server := served (.createUpload phone (manifest "b" "r" [7])) photoOpened

def partReceived (s : Server) : Server := served (.putPart phone 11 0 [.data [7]]) s

def finished (s : Server) : Server := served (.complete 1 11) (partReceived s)

set_option maxRecDepth 10000 in
theorem photoOpened_session : Session config server photoOpened := by
  have hserved : Served config (.createUpload phone (manifest "a" "r" [7])) server
      (.ok (.created ⟨.upload, some 11, none, [0]⟩)) photoOpened :=
    served_of_answer (by decide)
  exact .serve .nil rfl hserved

theorem partReceived_session {s : Server}
    (h : (serve (.putPart phone 11 0 [.data [7]]) s).map Prod.fst = some (.ok .noContent)) :
    Session config s (partReceived s) :=
  .serve .nil rfl (served_of_answer h)

/-- The upload that is resumed for the second announcement is the one of the first. -/
theorem photoOpened_agrees : Agrees phone (manifest "a" "r" [7]) photoOpened := by
  intro _ id r hid hr
  have hactive : findActiveUpload phone (manifest "a" "r" [7]) photoOpened.db = some 11 := by
    decide
  rw [hactive] at hid
  cases hid
  have hrow : (photoOpened.db.uploads.lookup 11).map (fun r => (r.assetId, r.request)) =
      some (10, manifest "a" "r" [7]) := by decide
  rw [hr] at hrow
  obtain ⟨hassetId, hrequest⟩ := Prod.mk.inj (Option.some.inj hrow)
  have hasset : (photoOpened.db.assets.lookup 10).map (·.sourceAssetId) = some "a" := by
    decide
  obtain ⟨a, ha, hsource⟩ := Option.map_eq_some_iff.mp hasset
  constructor
  · rw [hassetId]
    exact ⟨a, ha, hsource⟩
  · intro part hpart
    rw [hrequest] at hpart
    exact .inl hpart

set_option maxRecDepth 10000 in
theorem create_upload_serves_request_sample :
    PartsExpected (manifest "a" "r" [7]) 11 [0] photoResumed ∧
      Provides phone (manifest "a" "r" [7]) (finished photoResumed) := by
  have hcreated : Served config (.createUpload phone (manifest "a" "r" [7])) photoOpened
      (.ok (.created ⟨.upload, some 11, none, [0]⟩)) photoResumed :=
    served_of_answer (by decide +kernel)
  have hserves := create_upload_serves_request config server_fresh photoOpened_session
    photoOpened_agrees hcreated rfl
  have hcompleted : Served config (.complete 1 11) (partReceived photoResumed)
      (.ok (.completed ⟨20, 10, false⟩)) (finished photoResumed) :=
    served_of_answer (by decide +kernel)
  exact ⟨hserves.1, hserves.2 1 _ _ _ (partReceived_session (by decide +kernel)) hcompleted⟩

set_option maxRecDepth 10000 in
/-- The second photo is answered with the upload of the first, and completing it leaves the second
photo without a resource. -/
theorem resumed_for_another_photo :
    Session config server photoOpened ∧
      Served config (.createUpload phone (manifest "b" "r" [7])) photoOpened
        (.ok (.created ⟨.upload, some 11, none, [0]⟩)) otherResumed ∧
      Session config otherResumed (partReceived otherResumed) ∧
      Served config (.complete 1 11) (partReceived otherResumed)
        (.ok (.completed ⟨20, 10, false⟩)) (finished otherResumed) ∧
      ¬Provides phone (manifest "b" "r" [7]) (finished otherResumed) := by
  refine ⟨photoOpened_session, served_of_answer (by decide +kernel),
    partReceived_session (by decide +kernel), served_of_answer (by decide +kernel), ?_⟩
  have hnone : ∀ e ∈ (finished otherResumed).db.assets.entries,
      ∀ f ∈ (finished otherResumed).db.resources.entries,
        e.2.sourceAssetId = "b" → f.2.assetId ≠ e.1 := by decide +kernel
  intro hprovides
  obtain ⟨assetId, a, resourceId, resource, b, hasset, -, -, hsource, hresource, hassetId, -⟩ :=
    hprovides
  exact hnone ⟨assetId, a⟩ (Table.mem_entries.mpr hasset) ⟨resourceId, resource⟩
    (Table.mem_entries.mpr hresource) hsource hassetId

end

end MediaBackup
