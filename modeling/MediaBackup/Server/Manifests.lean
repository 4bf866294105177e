import MediaBackup.Server.Announced
import MediaBackup.Server.Quota
import MediaBackup.Server.Refusals
import MediaBackup.Server.Timeline

/-!
# Manifests of resources

The part manifest of a blob is that of the upload which inserted its row. It describes the object
as far as the parts of that upload did, also where the object came from another upload.
-/

namespace MediaBackup

open Call

inductive StorageEncoding
  | plainV1
  deriving DecidableEq

structure ResourceManifest where
  resourceId : Uuid
  assetId : Uuid
  sourceAssetId : String
  sourceResourceId : String
  mediaKind : MediaKind
  role : String
  filename : String
  mimeType : String
  sourceCreatedAtMs : Int
  contentSize : Nat
  contentBlake3 : HexString
  storageEncoding : StorageEncoding
  metadata : Option Metadata
  parts : List UploadPartSpec
  contentPath : String
  deriving DecidableEq

def resourceManifestFromRow (resourceId : Uuid) (r : Resource) (a : Asset) (b : Blob) :
    ResourceManifest where
  resourceId := resourceId
  assetId := r.assetId
  sourceAssetId := a.sourceAssetId
  sourceResourceId := r.sourceResourceId
  mediaKind := a.mediaKind
  role := r.role
  filename := r.filename
  mimeType := r.mimeType
  sourceCreatedAtMs := a.sourceCreatedAtMs
  contentSize := b.plaintextSize
  contentBlake3 := b.contentBlake3
  storageEncoding := .plainV1
  metadata := r.metadata
  parts := b.partManifest
  contentPath := s!"{apiBasePath}/resources/{resourceId}/content"

/-- The join of a resource with its asset and its blob, for one account. -/
def manifestRow (accountId : Uuid) (r : Resource) (db : Database) : Option (Asset × Blob) :=
  match db.assets.lookup r.assetId, db.blobs.lookup r.blobId with
  | some a, some b => if a.accountId = accountId then some (a, b) else none
  | _, _ => none

def loadManifest (accountId resourceId : Uuid) (db : Database) :
    Except AppError ResourceManifest :=
  match db.resources.lookup resourceId with
  | none => .error (.notFound "resource not found")
  | some r =>
      match manifestRow accountId r db with
      | none => .error (.notFound "resource not found")
      | some (a, b) => .ok (resourceManifestFromRow resourceId r a b)

/-- `ORDER BY a.source_created_at_ms DESC, r.created_at DESC LIMIT 1000`, outside the trash. -/
def listResources (accountId : Uuid) (db : Database) : List ResourceManifest :=
  ((((db.resources.select fun _ _ => true).filterMap fun e =>
      ((manifestRow accountId e.2 db).filter fun row => row.1.deletedAt.isNone).map
        fun row => (e.1, e.2, row)).insertionSort fun x y =>
      y.2.2.1.sourceCreatedAtMs < x.2.2.1.sourceCreatedAtMs ∨
        y.2.2.1.sourceCreatedAtMs = x.2.2.1.sourceCreatedAtMs ∧
          y.2.1.createdAt ≤ x.2.1.createdAt).take 1000).map
    fun row => resourceManifestFromRow row.1 row.2.1 row.2.2.1 row.2.2.2

theorem manifestRow_some {accountId : Uuid} {r : Resource} {db : Database} {a : Asset} {b : Blob}
    (h : manifestRow accountId r db = some (a, b)) :
    db.assets.lookup r.assetId = some a ∧ db.blobs.lookup r.blobId = some b := by
  unfold manifestRow at h
  split at h
  · rename_i a' b' ha hb
    split at h
    · cases h
      exact ⟨ha, hb⟩
    · cases h
  · cases h

/-- A listed manifest is one that is loaded under its identifier. -/
theorem parts_of_manifest {accountId resourceId : Uuid} {db : Database}
    {manifest : ResourceManifest} (h : loadManifest accountId resourceId db = .ok manifest ∨
      manifest ∈ listResources accountId db ∧ manifest.resourceId = resourceId) :
    ∃ r b, db.resources.lookup resourceId = some r ∧ db.blobs.lookup r.blobId = some b ∧
      manifest.parts = b.partManifest := by
  rcases h with h | ⟨hmem, hid⟩
  · unfold loadManifest at h
    split at h
    · cases h
    · rename_i r hr
      split at h
      · cases h
      · rename_i a b hrow
        cases h
        exact ⟨r, b, hr, (manifestRow_some hrow).2, rfl⟩
  · obtain ⟨row, hrow, hmanifest⟩ := List.mem_map.mp hmem
    have hjoined := (List.mem_insertionSort _).mp (List.mem_of_mem_take hrow)
    obtain ⟨e, he, hjoin⟩ := List.mem_filterMap.mp hjoined
    obtain ⟨pair, hpair, heq⟩ := Option.map_eq_some_iff.mp hjoin
    obtain ⟨hkept, -⟩ := Option.filter_eq_some_iff.mp hpair
    have hresource := (Table.mem_select.mp he).1
    subst heq
    subst hmanifest
    subst hid
    exact ⟨e.2, pair.2, hresource, (manifestRow_some hkept).2, rfl⟩

section

variable [Blake3]

/-! ## Descriptions -/

/-- The parts are consecutive slices of the content, up to its end. -/
def Describes : List UploadPartSpec → Bytes → Prop
  | [], content => content = []
  | part :: rest, content => part.size ≤ content.length ∧
      Blake3.hash (content.take part.size) = part.blake3 ∧
      Describes rest (content.drop part.size)

instance decidableDescribes : ∀ parts content, Decidable (Describes parts content)
  | [], content => inferInstanceAs (Decidable (content = []))
  | _ :: rest, content =>
      have := decidableDescribes rest
      inferInstanceAs (Decidable (_ ∧ _ ∧ Describes rest (content.drop _)))

/-- A part in front of what is described. -/
theorem describes_append {part : UploadPartSpec} {rest : List UploadPartSpec}
    {bytes content : Bytes} (h : contentMatches bytes part.size part.blake3 = true)
    (hrest : Describes rest content) : Describes (part :: rest) (bytes ++ content) := by
  obtain ⟨hdigest, hsize⟩ := contentMatches_iff.mp h
  have htake : (bytes ++ content).take part.size = bytes := by
    rw [← hsize, List.take_left]
  have hdrop : (bytes ++ content).drop part.size = content := by
    rw [← hsize, List.drop_left]
  refine ⟨?_, ?_, ?_⟩
  · rw [← hsize, List.length_append]
    exact Nat.le_add_right _ _
  · rw [htake]
    exact hdigest
  · rw [hdrop]
    exact hrest

/-- The blob can be read part by part as its manifest says. -/
structure Blob.Manifested (b : Blob) (files : Files) : Prop where
  index : ∀ (i : Nat) (part : UploadPartSpec), b.partManifest[i]? = some part → part.index = i
  total : (b.partManifest.map (·.size)).sum = b.plaintextSize
  stored : b.plaintextSize = b.storedSize
  content : ∀ bytes, files.objects.lookup b.storagePath = some bytes →
    Describes b.partManifest bytes

/-- The same of the row alone. -/
structure Blob.Itemized (b : Blob) : Prop where
  index : ∀ (i : Nat) (part : UploadPartSpec), b.partManifest[i]? = some part → part.index = i
  total : (b.partManifest.map (·.size)).sum = b.plaintextSize
  stored : b.plaintextSize = b.storedSize
  content : ∃ content, Blake3.hash content = b.contentBlake3 ∧ Describes b.partManifest content

def Server.Itemized (s : Server) : Prop := ∀ id b, s.db.blobs.lookup id = some b → b.Itemized

/-- What is at the path of an itemized blob is what its parts describe. -/
theorem Server.Itemized.manifested {s : Server} (h : s.Itemized)
    (hinj : Function.Injective (Blake3.hash : Bytes → HexString)) (hv : s.Valid) (hn : s.Named)
    {id : Uuid} {b : Blob} (hb : s.db.blobs.lookup id = some b) : b.Manifested s.files := by
  obtain ⟨hindex, htotal, hstored, content, hdigest, hdescribes⟩ := h id b hb
  refine ⟨hindex, htotal, hstored, fun bytes hbytes => ?_⟩
  obtain ⟨account, -, hkey⟩ := hv.blobKey id b hb
  rw [hkey] at hbytes
  have hname := hn _ _ _ bytes hbytes
  rw [← hdigest, Blake3.hash_lowercase] at hname
  rw [hinj hname]
  exact hdescribes

/-! ## The parts of an upload -/

omit [Blake3] in
/-- The received parts one after the other. -/
def Server.partsOf (s : Server) (id : Uuid) : List UploadPartSpec → Option Bytes
  | [] => some []
  | part :: rest =>
      match s.files.parts.lookup (id, part.index), s.partsOf id rest with
      | some bytes, some content => some (bytes ++ content)
      | _, _ => none

/-- The received parts, put together, have the hash that the upload declares. -/
def Server.AddsUp (s : Server) (id : Uuid) (request : CreateUploadRequest) : Prop :=
  (s.partsOf id request.parts).map Blake3.hash = some request.contentBlake3

instance (s : Server) (id : Uuid) (request : CreateUploadRequest) :
    Decidable (s.AddsUp id request) := inferInstanceAs (Decidable (_ = _))

theorem partsOf_describes {s : Server} {id : Uuid} {parts : List UploadPartSpec}
    (hfits : ∀ part ∈ parts, ∀ bytes, s.files.parts.lookup (id, part.index) = some bytes →
      contentMatches bytes part.size part.blake3 = true) {content : Bytes}
    (h : s.partsOf id parts = some content) : Describes parts content := by
  induction parts generalizing content with
  | nil =>
    cases h
    exact rfl
  | cons part rest ih =>
    rw [Server.partsOf] at h
    split at h
    · rename_i bytes content' hbytes hrest
      cases h
      apply describes_append (hfits part List.mem_cons_self bytes hbytes)
      exact ih (fun other hother => hfits other (List.mem_cons_of_mem _ hother)) hrest
    · cases h

/-- The step commits an upload while the account has no blob of its content, although the parts
of the upload do not add up to that content. -/
def Adopts (s s' : Server) : Prop :=
  ∃ id r, s.db.uploads.lookup id = some r ∧ (r.commitState = .finalizing ∧
    (s'.db.uploads.lookup id).map (·.commitState) = some .committed ∧
    findBlob r.accountId r.request.contentBlake3 s.db = none ∧ ¬s.AddsUp id r.request)

instance decidableAdopts (s s' : Server) : Decidable (Adopts s s') :=
  decidable_of_iff (s.db.uploads.exists? fun id r => r.commitState = .finalizing ∧
    (s'.db.uploads.lookup id).map (·.commitState) = some .committed ∧
    findBlob r.accountId r.request.contentBlake3 s.db = none ∧ ¬s.AddsUp id r.request) (by
  rw [Table.exists?_eq_true]
  simp only [decide_eq_true_eq]
  rfl)

/-! ## Runs -/

omit [Blake3] in
theorem insertBlob_row {now : Nat} {ready : ReadyCommit} {db : Database} {id : Uuid} {b : Blob}
    (hb : (insertBlob now ready db).blobs.lookup id = some b) (hnone : db.blobs.lookup id = none) :
    b.partManifest = ready.request.parts ∧ b.plaintextSize = ready.request.contentSize ∧
      b.storedSize = ready.expectedSize ∧ b.contentBlake3 = ready.expectedBlake3 := by
  unfold insertBlob at hb
  split at hb
  · rw [hnone] at hb
    cases hb
  · simp only [Database.setBlob, Table.lookup_insert_eq] at hb
    split at hb
    · cases hb
      exact ⟨rfl, rfl, rfl, rfl⟩
    · rw [hnone] at hb
      cases hb

/-- A step that adopts no object for parts that are not its own keeps the rows itemized. -/
theorem Change.itemized {t : Nat} {site : Site} {k : Kind} {s s' : Server}
    (h : Change t site k s s') (ha : s.Announced) (hi : s.Itemized) (hno : ¬Adopts s s') :
    s'.Itemized := by
  intro id b hb
  rcases h.blob_same_or_inserted hb with hsame |
    ⟨hnone, ready, approved, now, r, hk, -, hr, hready, hstate, hfind, -⟩
  · exact hi id b hsame
  · subst hk
    rcases h.settled_rows with hsame | ⟨r', _, _, _, _, hr', -, -, huploads, -, hblobs⟩
    · rw [hsame, hnone] at hb
      cases hb
    · rw [hblobs] at hb
      obtain ⟨hparts, hplain, hstored, hdigest⟩ := insertBlob_row hb hnone
      obtain ⟨maxPartBytes, hn⟩ := ha.numbered _ r hr
      have haddsUp : s.AddsUp ready.uploadId r.request := by
        by_contra hnot
        apply hno
        refine ⟨ready.uploadId, r, hr, hstate, ?_, hfind, hnot⟩
        rw [huploads, AList.lookup_insert]
        rfl
      obtain ⟨content, hcontent, hhash⟩ := Option.map_eq_some_iff.mp haddsUp
      have hdescribes := partsOf_describes (fun part hpart bytes => ha.fits hr hpart) hcontent
      rw [← hready.request] at hparts hplain
      constructor
      · rw [hparts]
        exact hn.index
      · rw [hparts, hplain]
        exact checkedSum_eq_some hn.total
      · rw [hplain, hstored, hready.size, hready.request]
      · refine ⟨content, ?_, ?_⟩
        · rw [hhash, hdigest, hready.blake3, hready.request]
        · rw [hparts]
          exact hdescribes

theorem Server.Fresh.itemized {s : Server} (h : s.Fresh) : s.Itemized := by
  intro id b hb
  simp [h.blobs] at hb

theorem run_itemized {config : Config} {s : Server} (hs : s.Fresh) {events : List ServerEvent}
    (hno : (machine config).Along
      (fun p ev => ¬Adopts p.state ((machine config).next p ev).state) s.idle events) :
    ((machine config).run s.idle events).state.Itemized := by
  have hstart : Sound World.announcing.context World.announcing.inv (fun _ _ _ _ => True) s.idle ∧
      s.idle.state.Itemized :=
    ⟨World.Governs.idle (W := World.announcing) hs.announcing, hs.itemized⟩
  refine (Machine.run_induction (machine config) (P := fun p =>
    Sound World.announcing.context World.announcing.inv (fun _ _ _ _ => True) p ∧
      p.state.Itemized) ?_ hstart hno).2
  intro p ev hp hnot
  refine ⟨World.announcing_governs.next hp.1 trivial, ?_⟩
  rcases World.announcing_governs.moves config hp.1 ev trivial with
    hsame | ⟨t, e, c, site, k, -, -, hc, -⟩ | ⟨-, hcrash⟩
  · rw [hsame]
    exact hp.2
  · exact hc.itemized hp.1.inv.2.2.1 hp.2 hnot
  · rw [hcrash]
    exact hp.2

/-! ## What is served -/

omit [Blake3] in
theorem contentRow_ok {accountId resourceId : Uuid} {db : Database} {account : AccountPath}
    {b : Blob} {r : Resource} (h : contentRow accountId resourceId db = .ok (account, b, r)) :
    db.resources.lookup resourceId = some r ∧ db.blobs.lookup r.blobId = some b := by
  unfold contentRow at h
  split at h
  · cases h
  · rename_i r' hr
    split at h
    · rename_i a b' ha hb
      split at h
      · split at h
        · cases h
          exact ⟨hr, hb⟩
        · cases h
      · cases h
    · cases h

omit [Blake3] in
theorem openBlob_alone {P : Server → Prop} {account : AccountPath} {key : ObjectKey} :
    Spec (.alone fun _ => True) P (openBlob account key)
      (fun body s => P s ∧ s.files.objects.lookup key = some body) fun _ _ => True := by
  unfold openBlob
  split
  · exact Spec.throw fun _ _ => trivial
  · rename_i key' hkey
    have hsame := scopedBlobKey_ok hkey
    subst hsame
    apply Spec.alone
    intro e s _ hs
    cases hbytes : s.files.objects.lookup key' with
    | none => cases hfault : e.fault <;> simp [hbytes]
    | some bytes => cases hfault : e.fault <;> simp [hbytes, hs]

omit [Blake3] in
/-- What the answer of `resource_content` is read from. -/
theorem resourceContent_body {auth : AuthContext} {resourceId : Uuid} {es : Nat → Choice}
    {s s' : Server} {response : ContentResponse}
    (h : (resourceContent auth resourceId).run.run es s = some (.ok response, s')) :
    ∃ r b, s.db.resources.lookup resourceId = some r ∧ s.db.blobs.lookup r.blobId = some b ∧
      s.files.objects.lookup b.storagePath = some response.body := by
  have hspec : Spec (.alone fun _ => True) (· = s) (resourceContent auth resourceId)
      (fun response _ => ∃ r b, s.db.resources.lookup resourceId = some r ∧
        s.db.blobs.lookup r.blobId = some b ∧
        s.files.objects.lookup b.storagePath = some response.body) fun _ _ => True := by
    apply Spec.bind (Q := fun row s' => s' = s ∧ ∃ r, s.db.resources.lookup resourceId = some r ∧
      s.db.blobs.lookup r.blobId = some row.2.1)
    · apply query_alone
      · intro s' row hs' hrow
        subst hs'
        obtain ⟨account, b, r⟩ := row
        obtain ⟨hr, hb⟩ := contentRow_ok hrow
        exact ⟨rfl, r, hr, hb⟩
      · exact fun _ _ _ => trivial
    · intro row
      obtain ⟨account, b, r⟩ := row
      apply Spec.bind openBlob_alone
      intro body
      apply Spec.pure
      intro s' hs'
      obtain ⟨⟨hsame, r, hr, hb⟩, hobject⟩ := hs'
      subst hsame
      exact ⟨r, b, hr, hb, hobject⟩
  exact hspec.run_ok rfl (fun _ => trivial) h

/-- In every run, with faults and crashes anywhere, in which no step adopts an object for an upload
whose parts do not add up to it, the part manifest of every blob describes its object, and the
manifests that are answered describe the content that is served. -/
theorem manifests_describe (config : Config)
    (hinj : Function.Injective (Blake3.hash : Bytes → HexString)) {s : Server} (hs : s.Fresh)
    (events : List ServerEvent) (hno : (machine config).Along
      (fun p ev => ¬Adopts p.state ((machine config).next p ev).state) s.idle events) :
    (∀ id b, ((machine config).run s.idle events).state.db.blobs.lookup id = some b →
      b.Manifested ((machine config).run s.idle events).state.files) ∧
    ∀ auth resourceId es response s' manifest,
      (resourceContent auth resourceId).run.run es ((machine config).run s.idle events).state =
        some (.ok response, s') →
      loadManifest auth.accountId resourceId ((machine config).run s.idle events).state.db =
          .ok manifest ∨
        manifest ∈ listResources auth.accountId
          ((machine config).run s.idle events).state.db ∧ manifest.resourceId = resourceId →
      Describes manifest.parts response.body := by
  have hsound : World.announcing.inv ((machine config).run s.idle events).state :=
    Reachable.announcing ⟨s, events, hs, rfl⟩
  have hitemized := run_itemized hs hno
  have hmanifested : ∀ id b, ((machine config).run s.idle events).state.db.blobs.lookup id =
      some b → b.Manifested ((machine config).run s.idle events).state.files :=
    fun id b hb => hitemized.manifested hinj hsound.1 hsound.2.2.2 hb
  refine ⟨hmanifested, ?_⟩
  intro auth resourceId es response s' manifest hrun hmanifest
  obtain ⟨r, b, hr, hb, hbody⟩ := resourceContent_body hrun
  obtain ⟨r', b', hr', hb', hparts⟩ := parts_of_manifest hmanifest
  rw [hr] at hr'
  cases hr'
  rw [hb] at hb'
  cases hb'
  rw [hparts]
  exact (hmanifested _ b hb).content response.body hbody

end

section

open Sample

/-- Two uploads announce the same content of one byte; the part of the second one is another
byte. -/
def impostor : CreateUploadRequest :=
  { manifest "b" "r2" [7] with parts := [⟨0, 1, Blake3.hash [9]⟩] }

def impostorReceived : List ServerEvent :=
  call 0 (.createUpload phone (manifest "a" "r" [7])) 2 ++
    call 1 (.createUpload phone impostor) 2 ++
    call 2 (.putPart phone 11 0 [.data [7]]) 8 ++ call 3 (.putPart phone 13 0 [.data [9]]) 8

/-- The first is completed, and then the second one, which shares its blob. -/
def impostorSecond : List ServerEvent :=
  impostorReceived ++ call 4 (.complete 1 11) 30 ++ call 5 (.complete 1 13) 30

set_option maxRecDepth 10000 in
theorem manifests_describe_sample :
    (machine config).Along (fun p ev => ¬Adopts p.state ((machine config).next p ev).state)
        server.idle impostorSecond ∧
      ((machine config).run server.idle impostorSecond).returned 5 =
        some (.complete 1 13, .ok (.completed ⟨26, 12, true⟩)) ∧
      ∀ id b, ((machine config).run server.idle impostorSecond).state.db.blobs.lookup id = some b →
        b.Manifested ((machine config).run server.idle impostorSecond).state.files := by
  have hno : (machine config).Along
      (fun p ev => ¬Adopts p.state ((machine config).next p ev).state) server.idle
        impostorSecond := by decide +kernel
  refine ⟨hno, by decide +kernel, ?_⟩
  exact (manifests_describe config paddedHex_injective server_fresh impostorSecond hno).1

/-- The completion of the first has published its object, and the second one is completed before
it has inserted its row. -/
def impostorFirst : List ServerEvent :=
  impostorReceived ++ call 4 (.complete 1 11) 18 ++ call 5 (.complete 1 13) 30 ++ steps 4 20

set_option maxRecDepth 10000 in
/-- Both are completed, and the part of the second one is said to be in the object of the first. -/
theorem impostor_adopted :
    Function.Injective (Blake3.hash : Bytes → HexString) ∧ server.Fresh ∧
      ((machine config).run server.idle impostorFirst).returned 4 =
        some (.complete 1 11, .ok (.completed ⟨28, 10, true⟩)) ∧
      ((machine config).run server.idle impostorFirst).returned 5 =
        some (.complete 1 13, .ok (.completed ⟨26, 12, false⟩)) ∧
      ∃ id b, ((machine config).run server.idle impostorFirst).state.db.blobs.lookup id = some b ∧
        ¬b.Manifested ((machine config).run server.idle impostorFirst).state.files := by
  refine ⟨paddedHex_injective, server_fresh, by decide +kernel, by decide +kernel, ?_⟩
  have hwrong : ((((machine config).run server.idle impostorFirst).state.db.blobs.lookup 23).bind
      fun b => (((machine config).run server.idle impostorFirst).state.files.objects.lookup
        b.storagePath).map fun bytes => decide (Describes b.partManifest bytes)) =
          some false := by decide +kernel
  obtain ⟨b, hb, hrest⟩ := Option.bind_eq_some_iff.mp hwrong
  obtain ⟨bytes, hbytes, hnot⟩ := Option.map_eq_some_iff.mp hrest
  refine ⟨23, b, hb, fun h => ?_⟩
  exact of_decide_eq_false hnot (h.content bytes hbytes)

end

end MediaBackup
