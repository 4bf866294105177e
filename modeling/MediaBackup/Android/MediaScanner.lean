import MediaBackup.Admin.Accounts

/-!
# The media scan of a phone

`MediaScanner.scan` goes through the photos and the videos of the phone, collects the members of the
albums and queues what the server lacks, and the worker sends the members of each album. A query may
give no cursor, or be refused before or between its rows.
-/

namespace MediaBackup

namespace MediaScanner

open Admin (Text isWhitespace)

/-! ## The phone -/

/-- The two collections, `Images.Media` and `Video.Media`. -/
inductive Collection
  | images
  | video
  deriving DecidableEq

/-- `ContentUris.withAppendedId(collection, id)`. -/
structure MediaUri where
  collection : Collection
  id : Int
  deriving DecidableEq

/-- The columns of a row the scan decides by. -/
structure Row where
  id : Int
  bucketName : Option String
  bucketId : Option String
  relativePath : Option String
  deriving DecidableEq

/-- What the steps of an export meet: the copy of the stream (its length, or no stream), the
queueing of the primary file, the thumbnail (its length, or none) and its queueing. An error is an
exception. -/
structure Export where
  copied : Except Unit (Option Nat)
  primaryQueued : Bool
  thumbnail : Except Unit (Option Nat)
  thumbnailQueued : Bool

/-- A row with the answers of the agent and what its export meets. -/
structure Entry where
  row : Row
  needsPrimary : Bool
  needsThumbnail : Bool
  content : Export

/-- What a query comes to. -/
inductive Outcome
  | cursor
  | null
  | securityException (after : Nat)
  deriving DecidableEq

structure Media where
  entries : List Entry
  outcome : Outcome

/-- The rows the cursor moves to if nobody stops. -/
def Media.delivered (media : Media) : List Entry :=
  match media.outcome with
  | .cursor => media.entries
  | .null => []
  | .securityException after => media.entries.take after

/-! ## The scan -/

structure ScanOptions where
  includePhotos : Bool
  includeVideos : Bool
  cameraOnly : Bool
  selectedAlbumIds : Finset String
  maxItems : Int

def ScanOptions.includes (options : ScanOptions) : Collection → Bool
  | .images => options.includePhotos
  | .video => options.includeVideos

structure ScannedAlbum where
  name : String
  sourceAssetIds : Finset MediaUri
  deriving DecidableEq

structure Counts where
  queued : Nat
  bytes : Nat
  skipped : Nat
  deriving DecidableEq

instance : Add Counts :=
  ⟨fun a b => ⟨a.queued + b.queued, a.bytes + b.bytes, a.skipped + b.skipped⟩⟩

/-- What one scan of a collection has collected so far. -/
structure CollectionResult where
  counts : Counts
  albums : Table String ScannedAlbum

/-- The letters of `Camera` and `DCIM` have no other case variants than these. -/
def equalIgnoringCase (c d : Char) : Bool :=
  c.toLower == d.toLower || (d.toLower == 'i' && (c == 'ı' || c == 'İ'))

def matchesIgnoringCase (text pattern : List Char) : Bool :=
  text.length == pattern.length && (text.zip pattern).all fun e => equalIgnoringCase e.1 e.2

def isCameraMedia (bucketName relativePath : Option String) : Bool :=
  relativePath.any (fun path => matchesIgnoringCase
      ((path.toList.map fun c => if c == '\\' then '/' else c).take 5) ['D', 'C', 'I', 'M', '/']) ||
    bucketName.any fun name => matchesIgnoringCase name.toList ['C', 'a', 'm', 'e', 'r', 'a']

def ScanOptions.passes (options : ScanOptions) (row : Row) : Bool :=
  if options.cameraOnly then isCameraMedia row.bucketName row.relativePath
  else row.bucketId.any fun id => id ∈ options.selectedAlbumIds

/-- `getOrPut` and the new member. -/
def addMembers (albums : Table String ScannedAlbum) (bucketId bucketName : String)
    (uris : Finset MediaUri) : Table String ScannedAlbum :=
  let album := (albums.lookup bucketId).getD ⟨bucketName, ∅⟩
  albums.insert bucketId { album with sourceAssetIds := album.sourceAssetIds ∪ uris }

/-- The body of the loop from the copy on; an exception loses what has not been queued yet. -/
def Entry.queue (e : Entry) : Counts :=
  match e.content.copied with
  | .error _ => ⟨0, 0, 1⟩
  | .ok none => ⟨0, 0, 0⟩
  | .ok (some length) =>
      if e.needsPrimary && !e.content.primaryQueued then ⟨0, 0, 1⟩
      else
        let primary : Counts := if e.needsPrimary then ⟨1, length, 0⟩ else ⟨0, 0, 0⟩
        if !e.needsThumbnail then primary
        else
          match e.content.thumbnail with
          | .error _ => primary + ⟨0, 0, 1⟩
          | .ok none => primary
          | .ok (some length) =>
              primary + if e.content.thumbnailQueued then ⟨1, length, 0⟩ else ⟨0, 0, 1⟩

def visit (collection : Collection) (options : ScanOptions) (result : CollectionResult)
    (e : Entry) : CollectionResult :=
  if !options.passes e.row then result
  else
    { counts :=
        if e.needsPrimary || e.needsThumbnail then result.counts + e.queue else result.counts
      albums :=
        match e.row.bucketId, e.row.bucketName with
        | some id, some name => addMembers result.albums id name {⟨collection, e.row.id⟩}
        | _, _ => result.albums }

def CollectionResult.empty : CollectionResult := ⟨⟨0, 0, 0⟩, ∅⟩

structure SyncAlbumRequest where
  sourceAlbumId : String
  name : String
  sourceAssetIds : Finset MediaUri
  replaceMembers : Bool

/-- The assets of the device and its albums, whose members are such assets. -/
structure Library where
  assets : Finset MediaUri
  albums : Table String ScannedAlbum
  known : ∀ id album, albums.lookup id = some album → album.sourceAssetIds ⊆ assets

def validateName (sourceId name : Text) : Except AppError Unit :=
  if sourceId.all isWhitespace || 1024 < sourceId.len || name.all isWhitespace ||
      512 < name.len then
    .error (.badRequest "invalid name")
  else .ok ()

/-- The members after the transaction: `DELETE` on replace, then one `INSERT` for each asset that
is there. -/
def membersAfter (request : SyncAlbumRequest) (library : Library) : Finset MediaUri :=
  (if request.replaceMembers then ∅
    else ((library.albums.lookup request.sourceAlbumId).map ScannedAlbum.sourceAssetIds).getD ∅) ∪
    request.sourceAssetIds.filter fun uri => uri ∈ library.assets

theorem membersAfter_subset (request : SyncAlbumRequest) (library : Library) :
    membersAfter request library ⊆ library.assets := by
  intro uri huri
  rcases Finset.mem_union.mp huri with hold | hnew
  · split at hold
    · simp at hold
    · cases hlookup : library.albums.lookup request.sourceAlbumId with
      | none => simp [hlookup] at hold
      | some album =>
        rw [hlookup] at hold
        exact library.known _ _ hlookup hold
  · exact (Finset.mem_filter.mp hnew).2

def syncAlbum (request : SyncAlbumRequest) (library : Library) : Except AppError Library := do
  validateName request.sourceAlbumId.toList request.name.toList
  if 10000 < request.sourceAssetIds.card then
    throw (.badRequest "album contains too many assets in one request")
  else
    pure
      { assets := library.assets
        albums := library.albums.insert request.sourceAlbumId
          ⟨request.name, membersAfter request library⟩
        known := by
          intro id album hlookup
          rw [Table.lookup_insert_eq] at hlookup
          split at hlookup
          · cases hlookup
            exact membersAfter_subset request library
          · exact library.known id album hlookup }

/-- No album stands there without a member. -/
def Peopled (albums : Table String ScannedAlbum) : Prop :=
  ∀ id album, albums.lookup id = some album → album.sourceAssetIds.Nonempty

/-- The row makes the scan put a member into an album. -/
def ScanOptions.Gathers (options : ScanOptions) (id : String) (row : Row) : Prop :=
  options.passes row = true ∧ row.bucketId = some id ∧ row.bucketName ≠ none

theorem Peopled.addMembers {albums : Table String ScannedAlbum} (h : Peopled albums)
    {bucketId bucketName : String} {uris : Finset MediaUri} (huris : uris.Nonempty) :
    Peopled (addMembers albums bucketId bucketName uris) := by
  intro id album hlookup
  simp only [MediaScanner.addMembers, Table.lookup_insert_eq] at hlookup
  split at hlookup
  · cases hlookup
    obtain ⟨uri, huri⟩ := huris
    exact ⟨uri, Finset.mem_union_right _ huri⟩
  · exact h id album hlookup

theorem Peopled.visit {collection : Collection} {options : ScanOptions} {result : CollectionResult}
    (h : Peopled result.albums) (e : Entry) :
    Peopled (visit collection options result e).albums := by
  unfold MediaScanner.visit
  split
  · exact h
  · dsimp only
    split
    · exact h.addMembers (Finset.singleton_nonempty _)
    · exact h

/-! ## The budget -/

/-- How many resources the row has to give. -/
def Entry.resources (options : ScanOptions) (e : Entry) : Nat :=
  if options.passes e.row && (e.needsPrimary || e.needsThumbnail) then e.queue.queued else 0

/-- The resources that the rows of the collection which are handed out have to give. -/
def available (options : ScanOptions) (media : Media) : Nat :=
  (media.delivered.map (Entry.resources options)).sum

/-- The collections the scan goes through have that much to give. -/
def budget (options : ScanOptions) (media : Collection → Media) : Nat :=
  (if options.includePhotos then available options (media .images) else 0) +
    if options.includeVideos then available options (media .video) else 0

/-- The scan takes the row for a member of the album. -/
def Taken (options : ScanOptions) (media : Collection → Media) (id : String)
    (uri : MediaUri) : Prop :=
  options.includes uri.collection = true ∧
    ∃ e ∈ (media uri.collection).delivered, options.Gathers id e.row ∧ uri.id = e.row.id

/-- The rows on the phone that the options let through and that lie in the album. -/
def OnPhone (options : ScanOptions) (media : Collection → Media) (id : String)
    (uri : MediaUri) : Prop :=
  options.includes uri.collection = true ∧
    ∃ e ∈ (media uri.collection).entries, options.passes e.row = true ∧
      e.row.bucketId = some id ∧ uri.id = e.row.id

/-- Of an album that the scan finds at all, no row is out of its reach: neither behind the end of a
query that was refused, nor without the name of its album. -/
def Reached (options : ScanOptions) (media : Collection → Media) : Prop :=
  ∀ id, (∃ uri, Taken options media id uri) →
    ∀ uri, OnPhone options media id uri → Taken options media id uri

namespace Holiday

/-- A row of the camera album that the server already has. -/
def entry (id : Int) : Entry where
  row := ⟨id, some "Camera", some "7", some "DCIM/Camera/"⟩
  needsPrimary := false
  needsThumbnail := false
  content := ⟨.ok none, true, .ok none, true⟩

def options : ScanOptions := ⟨true, true, true, ∅, 40⟩

/-- A photo and a video of one album; the query of the videos is refused. -/
def media : Collection → Media
  | .images => ⟨[entry 1], .cursor⟩
  | .video => ⟨[entry 2], .securityException 0⟩

def video : MediaUri := ⟨.video, 2⟩

def album : ScannedAlbum := ⟨"Camera", {⟨.images, 1⟩, video}⟩

def library : Library where
  assets := {⟨.images, 1⟩, video}
  albums := (∅ : Table String ScannedAlbum).insert "7" album
  known := by
    intro id other hlookup
    rw [Table.lookup_insert_eq] at hlookup
    split at hlookup
    · cases hlookup
      exact Finset.Subset.refl _
    · simp at hlookup

end Holiday

end MediaScanner

end MediaBackup
