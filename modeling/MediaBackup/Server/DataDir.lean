import MediaBackup.Server.CommitFrame
import MediaBackup.Server.Refusals
import MediaBackup.Framework.Lift

/-!
# The directory of an upload

`complete` takes the lock of the upload before it looks at the upload, and the lock is a file in
the directory of the upload.
-/

namespace MediaBackup

open Call

/-! ## An upload whose commit has begun -/

/-- The upload is there and no longer receives parts. -/
def Begun (uploadId : Uuid) (s : Server) : Prop :=
  ∃ r, s.db.uploads.lookup uploadId = some r ∧ r.commitState ≠ .receiving

theorem begun_of_insert {uploadId id : Uuid} {s s' : Server} (row : Upload)
    (huploads : s'.db.uploads = s.db.uploads.insert id row) (hrow : row.commitState ≠ .receiving)
    (h : Begun uploadId s) : Begun uploadId s' := by
  obtain ⟨r, hr, hstate⟩ := h
  by_cases hid : uploadId = id
  · refine ⟨row, ?_, hrow⟩
    rw [huploads, Table.lookup_insert_eq, if_pos hid]
  · refine ⟨r, ?_, hstate⟩
    rw [huploads, Table.lookup_insert_eq, if_neg hid, hr]

theorem begun_of_modify {uploadId id : Uuid} {s s' : Server} {f : Upload → Upload}
    (huploads : s'.db.uploads = s.db.uploads.modify id f)
    (hf : ∀ r, (f r).commitState ≠ .receiving) (h : Begun uploadId s) : Begun uploadId s' := by
  obtain ⟨r, hr, hstate⟩ := h
  by_cases hid : uploadId = id
  · refine ⟨f r, ?_, hf r⟩
    rw [huploads, Table.lookup_modify, if_pos hid, ← hid, hr]
    rfl
  · refine ⟨r, ?_, hstate⟩
    rw [huploads, Table.lookup_modify, if_neg hid, hr]

theorem doubted_begun (r : Upload) (reason : String) (now : Nat) :
    (r.doubted reason now).commitState ≠ .receiving := by
  unfold Upload.doubted
  split
  · rename_i hunknown
    rw [hunknown]
    decide
  · exact fun h => by cases h

theorem startCommit_begun {record : CommitRecord} {now : Nat} {s : Server} {db : Database}
    (h : startCommit record now s.uuids s.db = .ok ((), db)) :
    ∃ row : Upload, (s.store db).db.uploads = s.db.uploads.insert record.uploadId row ∧
      row.commitState ≠ .receiving := by
  obtain ⟨u, account, policy, start, -, -, -, -, -, hstart, hdb⟩ := startCommit_ok h
  subst hdb
  refine ⟨_, rfl, ?_⟩
  rcases chooseStart_ok hstart with ⟨b, -, hnext, -⟩ | ⟨-, hnext, -⟩
  · simp [Upload.started, hnext]
  · simp [Upload.started, hnext]

/-- No step of a completion takes a commit back. -/
theorem begun_frame (uploadId : Uuid) :
    CommitFrame fun s s' => Begun uploadId s → Begun uploadId s' where
  files s files := fun h => h
  locks s locks := fun h => h
  unknown s id reason now := begun_of_modify rfl fun r => doubted_begun r reason now
  failed s id reason now := begun_of_modify rfl fun r h => by cases h
  started s record now db hok := by
    obtain ⟨row, huploads, hrow⟩ := startCommit_begun hok
    exact begun_of_insert row huploads hrow
  finalized s id now db hok := by
    obtain ⟨u, -, -, hdb⟩ := finalizeUpload_ok hok
    subst hdb
    exact begun_of_insert _ rfl fun h => by cases h
  committed s ready approved now result db hok := by
    rcases commitMetadataIn_ok hok with ⟨-, hdb, -⟩ | ⟨actual, -, hdb, -⟩ |
      ⟨actual, outcome, -, -, -, -, hsettle⟩
    · subst hdb
      exact fun h => h
    · subst hdb
      exact fun h => h
    · obtain ⟨u, row, -, -, -, -, -, changes, events, hdb, -⟩ := settleUpload_ok hsettle
      subst hdb
      have huploads : (insertBlob now ready s.db).uploads = s.db.uploads :=
        insertBlob_uploads now ready s.db
      intro h
      apply @begun_of_insert uploadId ready.uploadId s _ (u.settled actual.id outcome.resourceId
        actual.storagePath outcome.deduplicated now) _ _ h
      · simp [Server.store, Database.setUpload, Database.setResource, huploads]
      · exact fun hstate => by cases hstate

/-- The upload is there and belongs to the account. -/
def OwnUpload (accountId uploadId : Uuid) (db : Database) : Prop :=
  ∃ r, db.uploads.lookup uploadId = some r ∧ r.accountId = accountId

section

variable [Blake3]

/-- Nothing in the database or in a file has changed, or the commit of the caller's own upload has
begun. -/
def Untouched (accountId uploadId : Uuid) (s₀ s : Server) : Prop :=
  s.db = s₀.db ∧ s.files = s₀.files ∨ OwnUpload accountId uploadId s₀.db ∧ Begun uploadId s

omit [Blake3] in
/-- What begins a commit leaves everything as it is until then. -/
theorem beginCommit_untouched {record : CommitRecord} {s₀ : Server} {r : Upload}
    (hrow : s₀.db.uploads.lookup record.uploadId = some r) :
    Spec (.alone fun _ => True) (fun s => s.db = s₀.db ∧ s.files = s₀.files) (beginCommit record)
      (fun _ => Begun record.uploadId) fun _ s =>
        s.db = s₀.db ∧ s.files = s₀.files ∨ Begun record.uploadId s := by
  have hfailed : ∀ reason, Spec (.alone fun _ => True)
      (fun s => s.db = s₀.db ∧ s.files = s₀.files)
      (markFailed record.uploadId reason : Call CommitRecord) (fun _ => Begun record.uploadId)
      fun _ s => s.db = s₀.db ∧ s.files = s₀.files ∨ Begun record.uploadId s := by
    intro reason
    apply Spec.bind (Q := fun _ => Begun record.uploadId)
    · apply transaction_alone
      · intro s now a db hs hok
        cases hok
        have hbegun : Begun record.uploadId (s.store { s.db with
            uploads := s.db.uploads.modify record.uploadId fun u => u.rejected reason now }) := by
          refine ⟨r.rejected reason now, ?_, fun h => by cases h⟩
          simp [Server.store, Table.lookup_modify, hs.1, hrow]
        exact ⟨hbegun, fun _ => .inr hbegun⟩
      · exact fun e s hs => .inl hs
    · exact fun _ => Spec.throw fun s hs => .inr hs
  unfold beginCommit
  split
  · split
    · exact hfailed _
    · exact Spec.throw fun _ hs => .inl hs
  · split
    · exact hfailed _
    · apply Spec.bind (query_alone (fun s a hs _ => hs) fun e s hs => .inl hs)
      intro missing
      apply Spec.bind (Q := fun _ s => s.db = s₀.db ∧ s.files = s₀.files)
      · unfold ensure
        split
        · exact Spec.pure fun _ hs => hs
        · exact Spec.throw fun _ hs => .inl hs
      intro _
      apply Spec.bind (Q := fun _ => Begun record.uploadId)
      · apply transaction_alone
        · intro s now a db hs hok
          obtain ⟨row, huploads, hstate⟩ := startCommit_begun hok
          have hbegun : Begun record.uploadId (s.store db) := by
            refine ⟨row, ?_, hstate⟩
            rw [huploads, Table.lookup_insert_eq, if_pos rfl]
          exact ⟨hbegun, fun _ => .inr hbegun⟩
        · exact fun e s hs => .inl hs
      · intro _
        exact query_alone (fun s a hs _ => hs) fun e s hs => .inr hs

/-- A completion leaves everything as it is until the commit of the caller's upload has begun. -/
theorem completeLocked_untouched (uploadId accountId : Uuid) (s₀ : Server) :
    Spec (.alone fun _ => True) (fun s => s.db = s₀.db ∧ s.files = s₀.files)
      (completeLocked uploadId (some accountId)) (fun _ _ => True)
      fun _ s => Untouched accountId uploadId s₀ s := by
  unfold completeLocked
  apply Spec.bind (Q := fun record s =>
    loadCommit uploadId (some accountId) s₀.db = .ok record ∧ s.db = s₀.db ∧ s.files = s₀.files)
  · apply query_alone
    · intro s record hs hload
      rw [hs.1] at hload
      exact ⟨hload, hs⟩
    · exact fun e s hs => .inl hs
  intro record
  apply Spec.of_prop
  intro hload
  obtain ⟨u, account, hu, -, hrecord, howner⟩ := loadCommit_ok hload
  have hown : OwnUpload accountId uploadId s₀.db := ⟨u, hu, howner accountId rfl⟩
  have hid : record.uploadId = uploadId := by
    rw [hrecord]
    rfl
  have hstate : record.commitState = u.commitState := by
    rw [hrecord]
    rfl
  have hbegun : record.commitState ≠ .receiving → ∀ s : Server,
      s.db = s₀.db ∧ s.files = s₀.files → Begun uploadId s := by
    intro hne s hs
    refine ⟨u, ?_, ?_⟩
    · rw [hs.1, hu]
    · rw [← hstate]
      exact hne
  have hgoes : ∀ (c : Call CommitOutcome) (P : Server → Prop),
      Each (fun s s' => Begun uploadId s → Begun uploadId s') c → (∀ s, P s → Begun uploadId s) →
        Spec (.alone fun _ => True) P c (fun _ _ => True)
          fun _ s => Untouched accountId uploadId s₀ s := by
    intro c P hc hP
    have hkeeps : Keeps (Begun uploadId) c := hc.keeps fun s s' hstep => hstep
    exact Spec.weaken hkeeps hP (fun _ _ _ => trivial) fun _ _ hs => .inr ⟨hown, hs⟩
  have hresume : ∀ record : CommitRecord,
      Each (fun s s' => Begun uploadId s → Begun uploadId s') (resumeCommit record) :=
    fun _ => (begun_frame uploadId).resumeCommit_each
  cases hcase : record.commitState with
  | committed =>
    refine hgoes _ _ (begun_frame uploadId).validateCommitted_each (hbegun ?_)
    rw [hcase]
    decide
  | unknown => exact Spec.throw fun _ hs => .inl hs
  | failed => exact Spec.throw fun _ hs => .inl hs
  | commitStarted =>
    refine hgoes _ _ (hresume record) (hbegun ?_)
    rw [hcase]
    decide
  | finalizing =>
    refine hgoes _ _ (hresume record) (hbegun ?_)
    rw [hcase]
    decide
  | receiving =>
    rw [← hid] at hu
    have hbegin := beginCommit_untouched hu
    rw [hid] at hbegin
    apply Spec.bind (Q := fun _ => Begun uploadId)
    · apply Spec.weaken hbegin (fun _ hs => hs) (fun _ _ hs => hs)
      intro _ s hs
      rcases hs with hsame | hstarted
      · exact .inl hsame
      · exact .inr ⟨hown, hstarted⟩
    · intro started
      exact hgoes _ _ (hresume started) fun _ hs => hs

end

/-! ## The data directory -/

/-- The server with the directories `uploads/{id}` and the files `commit.lock` in them. -/
structure DataDir where
  server : Server
  uploadDirs : Finset Uuid
  lockFiles : Finset Uuid

namespace DataDir

def serverPart : StatePart DataDir Server where
  get d := d.server
  set d s := { d with server := s }
  get_set _ _ := rfl
  set_set _ _ _ := rfl
  set_get _ := rfl

/-- A `RootedFs` call on the directories. -/
def rootedDir (operation : DataDir → DataDir) :
    ExceptT AppError (Prog Site Choice DataDir) Unit :=
  ExceptT.mk (.atomic .other (fun _ => true) fun e d =>
    match e.fault with
    | .before => (.error .storage, d)
    | .none => (.ok (), operation d)
    | .after => (.error .storage, operation d))

def addDir (uploadId : Uuid) (d : DataDir) : DataDir :=
  { d with uploadDirs := insert uploadId d.uploadDirs }

def addLockFile (uploadId : Uuid) (d : DataDir) : DataDir :=
  { d with
    uploadDirs := insert uploadId d.uploadDirs
    lockFiles := insert uploadId d.lockFiles }

/-- `ensure_dir` on the directory of the upload. -/
def ensureDir (uploadId : Uuid) : ExceptT AppError (Prog Site Choice DataDir) Unit :=
  rootedDir (addDir uploadId)

/-- `open_lock_file` on the lock of the upload. -/
def openLockFile (uploadId : Uuid) : ExceptT AppError (Prog Site Choice DataDir) Unit :=
  rootedDir (addLockFile uploadId)

/-- `lock_exclusive`, which waits for the lock. -/
def lockExclusive (thread : Nat) (uploadId : Uuid) : Call Unit :=
  ExceptT.mk (.atomic .other (fun s => (s.commitLocks.lookup uploadId).isNone) fun e s =>
    match e.fault with
    | .none => (.ok (), { s with commitLocks := s.commitLocks.insert uploadId thread })
    | _ => (.error .storage, s))

def lockUploadCommit (thread : Nat) (uploadId : Uuid) :
    ExceptT AppError (Prog Site Choice DataDir) Unit := do
  ensureDir uploadId
  openLockFile uploadId
  onPart serverPart (lockExclusive thread uploadId)

section

variable [Blake3]

def complete (thread : Nat) (uploadId accountId : Uuid) :
    ExceptT AppError (Prog Site Choice DataDir) CommitOutcome := do
  lockUploadCommit thread uploadId
  let result ← Prog.attempt (onPart serverPart (completeLocked uploadId (some accountId)))
  onPart serverPart (unlockUploadCommit uploadId)
  match result with
  | .ok outcome => pure outcome
  | .error error => throw error

/-- What follows the opening of the lock file happens on the server. -/
def afterOpen (thread : Nat) (uploadId accountId : Uuid) : Call CommitOutcome := do
  lockExclusive thread uploadId
  let result ← Prog.attempt (completeLocked uploadId (some accountId))
  unlockUploadCommit uploadId
  match result with
  | .ok outcome => pure outcome
  | .error error => throw error

theorem complete_eq (thread : Nat) (uploadId accountId : Uuid) :
    complete thread uploadId accountId = (do
      ensureDir uploadId
      openLockFile uploadId
      onPart serverPart (afterOpen thread uploadId accountId)) := by
  have hafter : onPart serverPart (afterOpen thread uploadId accountId) = (do
      onPart serverPart (lockExclusive thread uploadId)
      let result ← Prog.attempt (onPart serverPart (completeLocked uploadId (some accountId)))
      onPart serverPart (unlockUploadCommit uploadId)
      match result with
      | .ok outcome => pure outcome
      | .error error => throw error) := by
    rw [afterOpen, onPart_bind]
    congr 1
    funext _
    rw [onPart_bind, onPart_attempt]
    congr 1
    funext result
    rw [onPart_bind]
    congr 1
    funext _
    cases result <;> rfl
  rw [hafter, complete, lockUploadCommit, call_bind_assoc]
  congr 1
  funext _
  rw [call_bind_assoc]

/-- A run over the data directory is a run of the server's `complete`, whose first step stands for
the calls on the directory. -/
theorem complete_on_server {thread : Nat} {uploadId accountId : Uuid} {es : Nat → Choice}
    {d d' : DataDir} {r : Except AppError CommitOutcome}
    (h : (complete thread uploadId accountId).run.run es d = some (r, d')) :
    ∃ es', (MediaBackup.complete thread uploadId accountId).run.run es' d.server =
      some (r, d'.server) := by
  have herror : (MediaBackup.complete thread uploadId accountId).run.run (fun _ => ⟨.before, 0⟩)
      d.server = some (.error .storage, d.server) := rfl
  rw [complete_eq] at h
  cases hfirst : (es 0).fault with
  | before | after =>
    rw [ensureDir, rootedDir, run_bind_error rfl (by simp only [hfirst]; rfl)] at h
    cases h
    exact ⟨_, herror⟩
  | none =>
    rw [ensureDir, rootedDir, run_bind_ok rfl (by simp only [hfirst]; rfl)] at h
    cases hsecond : (es 1).fault with
    | before | after =>
      rw [openLockFile, rootedDir, run_bind_error (w := fun n => es (n + 1)) rfl
        (by simp only [hsecond]; rfl)] at h
      cases h
      exact ⟨_, herror⟩
    | none =>
      rw [openLockFile, rootedDir, run_bind_ok (w := fun n => es (n + 1)) rfl
        (by simp only [hsecond]; rfl)] at h
      have hserver : MediaBackup.complete thread uploadId accountId = (do
          scratch
          afterOpen thread uploadId accountId) := by
        rw [MediaBackup.complete, completeInner, withCommitLock, MediaBackup.lockUploadCommit,
          call_bind_assoc]
        congr 1
        funext _
        rw [afterOpen, lockExclusive]
        congr 1
        funext _
        congr 1
        funext result
        cases result <;> rfl
      change ((afterOpen thread uploadId accountId).run.lift serverPart).run _ _ = _ at h
      rw [Prog.run_lift, Option.map_eq_some_iff] at h
      obtain ⟨⟨r', s'⟩, hrun, heq⟩ := h
      cases heq
      refine ⟨fun n => if n = 0 then ⟨.none, 0⟩ else es (n + 1), ?_⟩
      rw [hserver, scratch, rooted, run_bind_ok (u := d.server) (a := ()) rfl rfl]
      exact hrun

/-- Of the directories and lock files at most those of the upload have been added. -/
structure Widened (uploadId : Uuid) (d d' : DataDir) : Prop where
  dirs : d'.uploadDirs = d.uploadDirs ∨ d'.uploadDirs = insert uploadId d.uploadDirs
  locks : d'.lockFiles = d.lockFiles ∨ d'.lockFiles = insert uploadId d.lockFiles

omit [Blake3] in
theorem Widened.addDir {uploadId : Uuid} {d d' : DataDir} (h : Widened uploadId d d') :
    Widened uploadId d (addDir uploadId d') where
  dirs := by
    right
    change insert uploadId d'.uploadDirs = _
    rcases h.dirs with heq | heq
    · rw [heq]
    · rw [heq, Finset.insert_idem]
  locks := h.locks

omit [Blake3] in
theorem Widened.addLockFile {uploadId : Uuid} {d d' : DataDir} (h : Widened uploadId d d') :
    Widened uploadId d (addLockFile uploadId d') where
  dirs := h.addDir.dirs
  locks := by
    right
    change insert uploadId d'.lockFiles = _
    rcases h.locks with heq | heq
    · rw [heq]
    · rw [heq, Finset.insert_idem]

omit [Blake3] in
theorem rootedDir_alone {operation : DataDir → DataDir} {P : DataDir → Prop}
    (h : ∀ d, P d → P (operation d)) :
    Spec (.alone fun _ => True) P (rootedDir operation) (fun _ => P) fun _ => P := by
  apply Spec.alone
  intro e d _ hd
  cases hfault : e.fault with
  | before => exact hd
  | none | after => exact h d hd

/-- The same database and files, under the directories at hand. -/
def SameServer (s₀ s : Server) : Prop := s.db = s₀.db ∧ s.files = s₀.files

omit [Blake3] in
theorem lockUploadCommit_widened (thread : Nat) (uploadId : Uuid) (d : DataDir) :
    Spec (.alone fun _ => True) (· = d) (lockUploadCommit thread uploadId)
      (fun _ d' => SameServer d.server d'.server ∧ Widened uploadId d d')
      fun _ d' => SameServer d.server d'.server ∧ Widened uploadId d d' := by
  have hfirst : SameServer d.server d.server ∧ Widened uploadId d d :=
    ⟨⟨rfl, rfl⟩, ⟨.inl rfl, .inl rfl⟩⟩
  have hstart : ∀ d', d' = d → SameServer d.server d'.server ∧ Widened uploadId d d' := by
    intro d' hd
    rw [hd]
    exact hfirst
  have hdir : Spec (.alone fun _ => True)
      (fun d' => SameServer d.server d'.server ∧ Widened uploadId d d') (ensureDir uploadId)
      (fun _ d' => SameServer d.server d'.server ∧ Widened uploadId d d')
      fun _ d' => SameServer d.server d'.server ∧ Widened uploadId d d' :=
    rootedDir_alone fun d' hd => ⟨hd.1, hd.2.addDir⟩
  have hfile : Spec (.alone fun _ => True)
      (fun d' => SameServer d.server d'.server ∧ Widened uploadId d d') (openLockFile uploadId)
      (fun _ d' => SameServer d.server d'.server ∧ Widened uploadId d d')
      fun _ d' => SameServer d.server d'.server ∧ Widened uploadId d d' :=
    rootedDir_alone fun d' hd => ⟨hd.1, hd.2.addLockFile⟩
  apply Spec.bind (Spec.weaken hdir hstart (fun _ _ hd => hd) fun _ _ hd => hd)
  intro _
  apply Spec.bind hfile
  intro _
  apply Spec.lift (L := serverPart) (P := SameServer d.server) (Q := fun _ => SameServer d.server)
    (E := fun _ => SameServer d.server) (G := Widened uploadId d)
  · exact fun d' s hd => ⟨hd.dirs, hd.locks⟩
  · apply Spec.alone_when
    intro e s _ hs
    cases hfault : e.fault with
    | none => exact hs
    | before | after => exact hs

theorem complete_untouched (thread : Nat) (uploadId accountId : Uuid) (d : DataDir) :
    Spec (.alone fun _ => True) (· = d) (complete thread uploadId accountId) (fun _ _ => True)
      fun _ d' => Untouched accountId uploadId d.server d'.server ∧ Widened uploadId d d' := by
  have hwide : ∀ d' s, Widened uploadId d d' → Widened uploadId d (serverPart.set d' s) :=
    fun d' s hd => ⟨hd.dirs, hd.locks⟩
  apply Spec.bind (Spec.weaken (lockUploadCommit_widened thread uploadId d) (fun _ hd => hd)
    (fun _ _ hd => hd) fun _ d' hd => ⟨.inl hd.1, hd.2⟩)
  intro _
  have hbody := Spec.lift hwide (completeLocked_untouched uploadId accountId d.server)
  apply Spec.bind (Q := fun result d' =>
    (∀ e, result = .error e → Untouched accountId uploadId d.server d'.server) ∧
      Widened uploadId d d')
  · apply Spec.attempt
    apply Spec.weaken hbody (fun _ hd => hd)
    · intro a d' hd
      refine ⟨fun e he => ?_, hd.2⟩
      cases he
    · intro e d' hd
      exact ⟨fun _ _ => hd.1, hd.2⟩
  intro result
  apply Spec.bind (Q := fun _ d' =>
    (∀ e, result = .error e → Untouched accountId uploadId d.server d'.server) ∧
      Widened uploadId d d')
  · have hunlock : Spec (.alone fun _ => True)
        (fun s => ∀ e, result = .error e → Untouched accountId uploadId d.server s)
        (unlockUploadCommit uploadId)
        (fun _ s => ∀ e, result = .error e → Untouched accountId uploadId d.server s)
        fun _ _ => False := by
      apply Spec.alone
      intro e s _ hs
      exact hs
    exact Spec.weaken (Spec.lift hwide hunlock) (fun _ hd => hd) (fun _ _ hd => hd)
      fun _ _ hd => hd.1.elim
  intro _
  cases result with
  | ok outcome => exact Spec.pure fun _ _ => trivial
  | error e => exact Spec.throw fun d' hd => ⟨hd.1 e rfl, hd.2⟩

/-- The upload does not exist or is not the caller's, or it still receives parts afterwards. -/
def Refused (accountId uploadId : Uuid) (d d' : DataDir) : Prop :=
  ¬OwnUpload accountId uploadId d.server.db ∨
    ∃ r, d'.server.db.uploads.lookup uploadId = some r ∧ r.commitState = .receiving

/-- Nothing has changed but the lock file of the caller's own upload. -/
structure LeftAlone (accountId uploadId : Uuid) (d d' : DataDir) : Prop where
  db : d'.server.db = d.server.db
  files : d'.server.files = d.server.files
  dirs : d'.uploadDirs = d.uploadDirs
  locks : d'.lockFiles = d.lockFiles ∨
    OwnUpload accountId uploadId d.server.db ∧ d'.lockFiles = insert uploadId d.lockFiles

/-- The directory and the lock file are there already; for the caller's own upload the directory
is enough, and nothing is when its commit has begun. -/
def DirReady (accountId uploadId : Uuid) (d : DataDir) : Prop :=
  (uploadId ∈ d.uploadDirs ∧ uploadId ∈ d.lockFiles) ∨
    OwnUpload accountId uploadId d.server.db ∧
      (uploadId ∈ d.uploadDirs ∨ Begun uploadId d.server)

omit [Blake3] in
theorem Widened.dirs_eq {uploadId : Uuid} {d d' : DataDir} (h : Widened uploadId d d')
    (hmem : uploadId ∈ d.uploadDirs) : d'.uploadDirs = d.uploadDirs := by
  rcases h.dirs with heq | heq
  · exact heq
  · rw [heq, Finset.insert_eq_of_mem hmem]

/-- A refused completion leaves everything alone when the directory is ready. -/
theorem complete_leaves_alone {thread : Nat} {uploadId accountId : Uuid} {d d' : DataDir}
    {es : Nat → Choice} {error : AppError} (hready : DirReady accountId uploadId d)
    (hrun : (complete thread uploadId accountId).run.run es d = some (.error error, d'))
    (hrefused : Refused accountId uploadId d d') : LeftAlone accountId uploadId d d' := by
  obtain ⟨huntouched, hwide⟩ :=
    Spec.run_error (complete_untouched thread uploadId accountId d) rfl (fun _ => trivial) hrun
  have hsame : d'.server.db = d.server.db ∧ d'.server.files = d.server.files := by
    rcases huntouched with hsame | ⟨hown, r, hr, hbegun⟩
    · exact hsame
    · rcases hrefused with hother | ⟨r', hr', hreceiving⟩
      · exact absurd hown hother
      · rw [hr] at hr'
        cases hr'
        exact absurd hreceiving hbegun
  rcases hready with ⟨hdir, hlock⟩ | ⟨hown, hdir⟩
  · refine ⟨hsame.1, hsame.2, hwide.dirs_eq hdir, .inl ?_⟩
    rcases hwide.locks with heq | heq
    · exact heq
    · rw [heq, Finset.insert_eq_of_mem hlock]
  · have hmem : uploadId ∈ d.uploadDirs := by
      rcases hdir with hmem | ⟨r, hr, hbegun⟩
      · exact hmem
      · rcases hrefused with hother | ⟨r', hr', hreceiving⟩
        · exact absurd hown hother
        · rw [hsame.1, hr] at hr'
          cases hr'
          exact absurd hreceiving hbegun
    refine ⟨hsame.1, hsame.2, hwide.dirs_eq hmem, ?_⟩
    rcases hwide.locks with heq | heq
    · exact .inl heq
    · exact .inr ⟨hown, heq⟩

/-- For an upload that is not the caller's, the lock comes before the refusal. -/
theorem complete_other_run (thread : Nat) {uploadId accountId : Uuid} {d : DataDir}
    (hfree : d.server.commitLocks.lookup uploadId = none)
    (hother : ¬OwnUpload accountId uploadId d.server.db) :
    ∃ error d', (complete thread uploadId accountId).run.run (fun _ => ⟨.none, 0⟩) d =
        some (.error error, d') ∧
      d'.uploadDirs = insert uploadId d.uploadDirs ∧
      d'.lockFiles = insert uploadId d.lockFiles := by
  obtain ⟨error, hload⟩ : ∃ error, loadCommit uploadId (some accountId) d.server.db =
      .error error := by
    cases hload : loadCommit uploadId (some accountId) d.server.db with
    | error error => exact ⟨error, rfl⟩
    | ok record =>
      obtain ⟨u, account, hu, -, -, howner⟩ := loadCommit_ok hload
      exact absurd ⟨u, hu, howner accountId rfl⟩ hother
  let d₁ := addLockFile uploadId (addDir uploadId d)
  let s₁ := { d.server with commitLocks := d.server.commitLocks.insert uploadId thread }
  let s₂ := { s₁ with commitLocks := s₁.commitLocks.erase uploadId }
  have hlock : (lockUploadCommit thread uploadId).run.run (fun _ => ⟨.none, 0⟩) d =
      some (.ok (), serverPart.set d₁ s₁) := by
    have hexclusive : (lockExclusive thread uploadId).run.run (fun _ => ⟨.none, 0⟩) d.server =
        some (.ok (), s₁) := by
      change (if (d.server.commitLocks.lookup uploadId).isNone then _ else none) = _
      rw [hfree]
      rfl
    have hdir : (ensureDir uploadId).run.run (fun _ => ⟨.none, 0⟩) d =
        some (.ok (), addDir uploadId d) := rfl
    have hfile : (openLockFile uploadId).run.run (fun _ => ⟨.none, 0⟩) (addDir uploadId d) =
        some (.ok (), d₁) := rfl
    exact (run_const_ok hdir).trans ((run_const_ok hfile).trans (run_onPart hexclusive))
  have hbody : (completeLocked uploadId (some accountId)).run.run (fun _ => ⟨.none, 0⟩) s₁ =
      some (.error error, s₁) := by
    apply run_bind_error rfl
    simp only [s₁, hload]
  have hresult : (Prog.attempt (onPart serverPart
      (completeLocked uploadId (some accountId)))).run.run (fun _ => ⟨.none, 0⟩)
        (serverPart.set d₁ s₁) = some (.ok (.error error), serverPart.set d₁ s₁) :=
    run_const_attempt (run_onPart hbody)
  have hunlock : (onPart serverPart (unlockUploadCommit uploadId)).run.run (fun _ => ⟨.none, 0⟩)
      (serverPart.set d₁ s₁) = some (.ok (), serverPart.set d₁ s₂) := by
    have hserver : (unlockUploadCommit uploadId).run.run (fun _ => ⟨.none, 0⟩) s₁ =
        some (.ok (), s₂) := rfl
    exact run_onPart (L := serverPart) (t := serverPart.set d₁ s₁) hserver
  refine ⟨error, serverPart.set d₁ s₂, ?_, ?_, ?_⟩
  · exact (run_const_ok hlock).trans ((run_const_ok hresult).trans ((run_const_ok hunlock).trans rfl))
  · exact Finset.insert_idem uploadId d.uploadDirs
  · rfl

/-- `complete`, run alone, leaves the database and `DATA_DIR` alone whenever it refuses an upload
that does not exist, is another account's or still receives parts, exactly when the directory and
the lock file that it opens first are there, or are the caller's to be opened. -/
theorem complete_leaves_alone_iff (thread : Nat) (uploadId accountId : Uuid) (d : DataDir)
    (hfree : d.server.commitLocks.lookup uploadId = none) :
    (∀ es error d', (complete thread uploadId accountId).run.run es d = some (.error error, d') →
        Refused accountId uploadId d d' → LeftAlone accountId uploadId d d') ↔
      DirReady accountId uploadId d := by
  constructor
  · intro halone
    by_cases hown : OwnUpload accountId uploadId d.server.db
    · right
      refine ⟨hown, ?_⟩
      by_contra hnot
      obtain ⟨hdir, hbegun⟩ := not_or.mp hnot
      obtain ⟨r, hr, -⟩ := hown
      have hreceiving : r.commitState = .receiving := by
        by_contra hne
        exact hbegun ⟨r, hr, hne⟩
      -- the directory is made, and then an error is reported
      have hrun : (complete thread uploadId accountId).run.run (fun _ => ⟨.after, 0⟩) d =
          some (.error .storage, addDir uploadId d) := rfl
      have hleft := halone _ _ _ hrun (.inr ⟨r, hr, hreceiving⟩)
      have hdirs : insert uploadId d.uploadDirs = d.uploadDirs := hleft.dirs
      exact hdir (Finset.insert_eq_self.mp hdirs)
    · left
      obtain ⟨error, d', hrun, hdirs, hlocks⟩ := complete_other_run thread hfree hown
      have hleft := halone _ _ _ hrun (.inl hown)
      have hsame : d'.lockFiles = d.lockFiles := by
        rcases hleft.locks with heq | hmine
        · exact heq
        · exact absurd hmine.1 hown
      have hdirsSame := hleft.dirs
      rw [hdirs] at hdirsSame
      rw [hlocks] at hsame
      exact ⟨Finset.insert_eq_self.mp hdirsSame, Finset.insert_eq_self.mp hsame⟩
  · intro hready es error d' hrun hrefused
    exact complete_leaves_alone hready hrun hrefused

end

section

open Sample

/-- A new installation. -/
def installed : DataDir := ⟨Sample.server, ∅, ∅⟩

/-- The same with the directory of one upload. -/
def withDirectory : DataDir := ⟨Sample.server, {99}, {99}⟩

theorem complete_leaves_alone_sample :
    99 ∈ withDirectory.uploadDirs ∧ ∀ es error d',
      (complete 0 99 1).run.run es withDirectory = some (.error error, d') →
        Refused 1 99 withDirectory d' → LeftAlone 1 99 withDirectory d' :=
  ⟨Finset.mem_singleton_self 99, (complete_leaves_alone_iff 0 99 1 withDirectory rfl).mpr
    (.inl ⟨Finset.mem_singleton_self 99, Finset.mem_singleton_self 99⟩)⟩

set_option maxRecDepth 10000 in
/-- The upload does not exist, and its directory and its lock file do afterwards. -/
theorem complete_opens_unknown_directory :
    ((complete 0 99 1).run.run (fun _ => calm) installed).map
        (fun r => (r.1, r.2.uploadDirs, r.2.lockFiles)) =
      some (.error (.notFound "upload not found"), {99}, {99}) ∧
    installed.uploadDirs = ∅ ∧ ¬OwnUpload 1 99 installed.server.db := by
  refine ⟨by decide +kernel, rfl, ?_⟩
  intro hown
  obtain ⟨r, hr, -⟩ := hown
  cases hr

end

end DataDir

end MediaBackup
