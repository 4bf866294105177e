import MediaBackup.Framework.Interference
import MediaBackup.Server.Step

/-!
# What a call can know

A call sees the server at some moments and acts at others. What the steps of the other calls in
between leave of its knowledge is collected here, together with the grounds on which it commits
an upload, doubts it or rejects it: what it saw, and that only the others acted since.
-/

namespace MediaBackup

open Relation

variable [Blake3]

/-- The circumstances of a run: an invariant of the server, the choices of the scheduler, what is
promised where a call acts, which steps of others may fall between two steps of a call that
stands at a site, and what requests may ask for. A thread that is `live` shares the locks with nobody; an upload has an
identifier that has been drawn, and the rows name objects, never stages, as final. -/
structure World where
  inv : Server → Prop
  may : Choice → Prop
  allowed : Site → Server → Prop
  shares : Site → Kind → Server → Prop
  does : Kind → Prop
  live : Nat → Prop
  alone : ∀ t, live t → ∀ s, inv s →
    (∀ id t', s.Holds t' id → t' = t) ∧ ∀ t', s.writer = some t' → t' = t
  drawn : ∀ s, inv s → ∀ id r, s.db.uploads.lookup id = some r → id < s.uuids
  finals : ∀ s, inv s → ∀ id r key, s.db.uploads.lookup id = some r →
    r.commitFinalKey = some key → key.isObject = true
  blobs : ∀ s, inv s → ∀ id b, s.db.blobs.lookup id = some b → b.storagePath.isObject = true

namespace World

variable (W : World) (t : Nat)

/-- A step of another thread while `t` stands at `site`. -/
def Others (site : Site) (s s' : Server) : Prop :=
  ∃ t', t' ≠ t ∧ ∃ site' k, Change t' site' k s s' ∧ W.shares site k s

/-- The context of a thread, before anything is asked of its own steps. -/
def outlook : Context Site Choice Server where
  inv := W.inv
  may := W.may
  allowed := W.allowed
  rely := W.Others t
  guarantee _ _ _ := True
  live := W.live t

/-- Only other threads acted, wherever `t` stood. -/
def Later : Server → Server → Prop := (W.outlook t).Meanwhile fun _ => True

/-- Only other threads acted while `t` stood in the metadata phase of the upload; `t` itself may
have drawn identifiers it did not use. -/
def LaterIn (id : Uuid) : Server → Server → Prop :=
  ReflTransGen fun s s' => (W.outlook t).Env (.commitMetadata id) s s' ∨ s' = s.store s.db

/-- Any thread acted, `t` itself by steps of the kinds `own`. -/
def Since (own : Kind → Prop) : Server → Server → Prop :=
  ReflTransGen fun s s' => (∃ site, (W.outlook t).Env site s s') ∨
    ∃ site k, own k ∧ Change t site k s s'

/-- The scheduler may let a step fail. -/
def Faulty : Prop := ∃ e, W.may e ∧ e.fault ≠ .none

variable {W t}

theorem Later.inv_left {s s' : Server} (h : W.Later t s s') (hi : W.inv s') : W.inv s := by
  cases h.cases_head with
  | inl heq => exact heq ▸ hi
  | inr hstep =>
    obtain ⟨_, ⟨_, _, henv⟩, _⟩ := hstep
    exact henv.1

theorem Later.since {own : Kind → Prop} {s s' : Server} (h : W.Later t s s') :
    W.Since t own s s' :=
  ReflTransGen.mono (fun _ _ ⟨site, _, henv⟩ => .inl ⟨site, henv⟩) _ _ h

/-- What is stable under the steps of the others, wherever the thread stands. -/
abbrev Kept (W : World) (t : Nat) (P : Server → Prop) : Prop :=
  (W.outlook t).Stable (fun _ => True) P

theorem Kept.later {P : Server → Prop} (h : W.Kept t P) {s s' : Server} (hs : W.Later t s s')
    (hp : P s) : P s' := h.meanwhile hs hp

/-- What is stable as long as the thread stands at the site. -/
abbrev KeptAt (W : World) (t : Nat) (site : Site) (P : Server → Prop) : Prop :=
  (W.outlook t).Stable (· = site) P

theorem Kept.at {P : Server → Prop} (h : W.Kept t P) (site : Site) : W.KeptAt t site P :=
  fun site' _ => h site' trivial

theorem KeptAt.and {site : Site} {P R : Server → Prop} (hp : W.KeptAt t site P)
    (hr : W.KeptAt t site R) : W.KeptAt t site fun s => P s ∧ R s := Context.Stable.and hp hr

theorem keptAt_seen (id : Uuid) (P : Server → Prop) :
    W.KeptAt t (.commitMetadata id) fun s => ∃ s₀, P s₀ ∧ W.LaterIn t id s₀ s := by
  rintro site rfl s s' hi hi' hr ⟨s₀, hp, hs⟩
  exact ⟨s₀, hp, hs.tail (.inl ⟨hi, hi', hr⟩)⟩

theorem Kept.and {P R : Server → Prop} (hp : W.Kept t P) (hr : W.Kept t R) :
    W.Kept t fun s => P s ∧ R s := Context.Stable.and hp hr

theorem Kept.const (φ : Prop) : W.Kept t fun _ => φ := Context.Stable.const φ

/-- A step of another thread is enough to look at. -/
theorem kept_of_change {P : Server → Prop}
    (h : ∀ t' site' k s s', t' ≠ t → Change t' site' k s s' → P s → P s') : W.Kept t P := by
  rintro site - s s' - - ⟨t', hne, site', k, hc, -⟩ hp
  exact h t' site' k s s' hne hc hp

theorem kept_seen (P : Server → Prop) :
    W.Kept t fun s => ∃ s₀, P s₀ ∧ W.Later t s₀ s := Context.stable_seen P

theorem kept_since (own : Kind → Prop) (P : Server → Prop) :
    W.Kept t fun s => ∃ s₀, P s₀ ∧ W.Since t own s₀ s := by
  rintro site - s s' hi hi' hr ⟨s₀, hp, hs⟩
  exact ⟨s₀, hp, hs.tail (.inl ⟨site, hi, hi', hr⟩)⟩

end World

/-- What the steps of the others and the thread's own keep is kept. -/
theorem World.Since.keeps {W : World} {t : Nat} {own : Kind → Prop} {P : Server → Prop}
    (hothers : ∀ site t' site' k s s', W.inv s → Change t' site' k s s' → W.shares site k s →
      P s → P s')
    (hown : ∀ site k s s', own k → Change t site k s s' → P s → P s') {s s' : Server}
    (h : W.Since t own s s') (hp : P s) : P s' := by
  induction h with
  | refl => exact hp
  | tail _ hstep ih =>
    rcases hstep with ⟨site, hi, -, t', -, site', k, hc, hs⟩ | ⟨site, k, ho, hc⟩
    · exact hothers site t' site' k _ _ hi hc hs ih
    · exact hown site k _ _ ho hc ih

/-! ## Knowledge -/

variable {W : World} {t : Nat}

/-- The thread holds the commit lock of upload `id`, and no other lock as far as that matters. -/
structure Locked (W : World) (t : Nat) (id : Uuid) (s : Server) : Prop where
  holds : s.Holds t id
  rest : W.live t → (∀ id', id' ≠ id → ¬s.Holds t id') ∧ s.writer ≠ some t

/-- It also knows the row: if that is still there, it satisfies `P`. -/
structure Owns (W : World) (t : Nat) (id : Uuid) (P : Upload → Prop) (s : Server) : Prop
    extends Locked W t id s where
  known : id < s.uuids
  row : ∀ r, s.db.uploads.lookup id = some r → P r

/-- The thread holds no lock, as far as that matters. -/
def Idle (W : World) (t : Nat) (s : Server) : Prop :=
  W.live t → (∀ id, ¬s.Holds t id) ∧ s.writer ≠ some t

omit [Blake3] in
theorem Owns.mono {id : Uuid} {P R : Upload → Prop} {s : Server} (h : Owns W t id P s)
    (hPR : ∀ r, P r → R r) : Owns W t id R s :=
  ⟨h.toLocked, h.known, fun r hr => hPR r (h.row r hr)⟩

namespace Change

variable {site : Site} {k : Kind} {s s' : Server} {t' : Nat}

theorem holds_of_ne (h : Change t' site k s s') (hne : t' ≠ t) {id : Uuid}
    (hl : s.Holds t id) : s'.Holds t id := by
  rcases lock h id with heq | ⟨hnone, -⟩ | ⟨hown, -⟩
  · exact heq.trans hl
  · rw [Server.Holds, hnone] at hl
    cases hl
  · rw [Server.Holds, hown] at hl
    exact absurd (Option.some.inj hl) hne

theorem not_holds_of_ne (h : Change t' site k s s') (hne : t' ≠ t) {id : Uuid}
    (hl : ¬s.Holds t id) : ¬s'.Holds t id := by
  intro hl'
  rcases lock h id with heq | ⟨-, hown⟩ | ⟨-, hnone⟩
  · exact hl (heq.symm.trans hl')
  · rw [Server.Holds, hown] at hl'
    exact hne (Option.some.inj hl')
  · rw [Server.Holds, hnone] at hl'
    cases hl'

theorem writer_of_ne (h : Change t' site k s s') (hne : t' ≠ t) :
    s'.writer = some t ↔ s.writer = some t := by
  rcases writer h with heq | ⟨hnone, hown⟩ | ⟨hown, hnone⟩
  · rw [heq]
  · rw [hnone, hown]
    simp [hne]
  · rw [hnone, hown]
    simp [hne]

/-- The row of an upload whose lock another thread holds is left alone, or deleted. -/
theorem upload_of_held (h : Change t' site k s s') (hne : t' ≠ t) {id : Uuid}
    (hl : s.Holds t id) (hid : id < s.uuids) {r : Upload}
    (hr : s'.db.uploads.lookup id = some r) : s.db.uploads.lookup id = some r := by
  have hnot : ¬s.Holds t' id := fun hl' =>
    hne (Option.some.inj (hl'.symm.trans hl))
  have hc := upload h id
  rw [hr] at hc
  generalize s.db.uploads.lookup id = old at hc ⊢
  cases hc with
  | same => rfl
  | opened _ hfresh => exact absurd hfresh (Nat.ne_of_lt (Nat.lt_succ_of_lt hid))
  | started _ _ holds => exact absurd holds hnot
  | finalized _ holds => exact absurd holds hnot
  | settled _ _ holds => exact absurd holds hnot
  | doubted _ holds => exact absurd holds hnot
  | rejected _ holds => exact absurd holds hnot

end Change

theorem Locked.kept (id : Uuid) : W.Kept t (Locked W t id) := by
  apply World.kept_of_change
  intro t' site k s s' hne hc h
  refine ⟨hc.holds_of_ne hne h.holds, fun hlive => ?_⟩
  obtain ⟨hlocks, hwriter⟩ := h.rest hlive
  exact ⟨fun id' hid => hc.not_holds_of_ne hne (hlocks id' hid),
    fun hw => hwriter ((hc.writer_of_ne hne).mp hw)⟩

theorem Owns.kept (id : Uuid) (P : Upload → Prop) : W.Kept t (Owns W t id P) := by
  rintro site hsite s s' hi hi' hr h
  refine ⟨Locked.kept id site hsite s s' hi hi' hr h.toLocked, ?_, fun r hrow => ?_⟩
  · obtain ⟨t', -, site', k, hc, -⟩ := hr
    exact h.known.trans_le hc.uuids
  · obtain ⟨t', hne, site', k, hc, -⟩ := hr
    exact h.row r (hc.upload_of_held hne h.holds h.known hrow)

theorem Idle.kept : W.Kept t (Idle W t) := by
  apply World.kept_of_change
  intro t' site k s s' hne hc h hlive
  obtain ⟨hlocks, hwriter⟩ := h hlive
  exact ⟨fun id => hc.not_holds_of_ne hne (hlocks id),
    fun hw => hwriter ((hc.writer_of_ne hne).mp hw)⟩

/-! ## Grounds -/

/-- What `inspect_object` of the commit at hand finds at a key. -/
def Server.stateOf (s : Server) (key : ObjectKey) (ready : ReadyCommit) : ObjectState :=
  existingFileMatches s.files key ready.expectedSize ready.expectedBlake3

def Kind.isGrow : Kind → Prop
  | .growStage _ _ => True
  | _ => False

/-- The stage has been created and then only grown, by the thread itself. -/
def Standing (W : World) (t : Nat) (staged : ObjectKey) (s : Server) : Prop :=
  ∃ s₀, (s₀.files.objects.lookup staged).isSome = true ∧ W.Since t Kind.isGrow s₀ s

/-- Why a commit in `commit_started` or `finalizing` cannot be proved. -/
inductive Doubt (W : World) (t : Nat) (ready : ReadyCommit) (s : Server) : Prop
  | faulty (h : W.Faulty)
  | outside (h : scopedBlobKey ready.accountPath ready.finalKey ≠ .ok ready.finalKey)
  | foreignStage (staged : ObjectKey) (hstaged : ready.stagedKey = some staged)
      (h : commitStageKey ready.accountPath ready.uploadId staged ≠ .ok staged)
  | conflict (s₀ : Server) (hi : W.inv s₀) (h : s₀.stateOf ready.finalKey ready = .mismatch)
      (later : W.Later t s₀ s)
  | unstaged (s₀ : Server) (hi : W.inv s₀) (hstaged : ready.stagedKey = none)
      (h : s₀.stateOf ready.finalKey ready ≠ .isMatch) (later : W.Later t s₀ s)
  | unproved (s₀ s₁ : Server) (staged : ObjectKey) (hi : W.inv s₀) (hi₁ : W.inv s₁)
      (hstaged : ready.stagedKey = some staged)
      (hfinal : s₀.stateOf ready.finalKey ready = .missing) (between : W.Later t s₀ s₁)
      (h : s₁.stateOf staged ready ≠ .isMatch) (later : W.Later t s₁ s)
  | unpublished (s₀ s₁ : Server) (hi₁ : W.inv s₁)
      (hfinal : s₀.stateOf ready.finalKey ready ≠ .missing) (between : W.Later t s₀ s₁)
      (h : s₁.stateOf ready.finalKey ready ≠ .isMatch) (later : W.Later t s₁ s)
  | candidateConflict (s₀ : Server) (id : Uuid) (b : Blob) (hi : W.inv s₀)
      (found : findBlob ready.accountId ready.expectedBlake3 s₀.db = some (id, b))
      (h : b.storedSize ≠ ready.expectedSize) (later : W.Later t s₀ s)
  | candidateBroken (s₀ s₁ : Server) (id : Uuid) (b : Blob) (hi : W.inv s₀) (hi₁ : W.inv s₁)
      (found : findBlob ready.accountId ready.expectedBlake3 s₀.db = some (id, b))
      (between : W.Later t s₀ s₁) (h : s₁.stateOf b.storagePath ready ≠ .isMatch ∨
        scopedBlobKey ready.accountPath b.storagePath ≠ .ok b.storagePath)
      (later : W.Later t s₁ s)
  | moved (s₀ : Server) (hi : W.inv s₀)
      (h : (s₀.db.accounts.lookup ready.accountId).map (·.storagePath) ≠ some ready.accountPath)
      (later : W.Later t s₀ s)

/-- The recorded resource and blob are not the ones the upload committed. -/
def Conflicting (ready : ReadyCommit) (resourceId : Uuid) (db : Database) : Prop :=
  ∀ b, committedMetadata ready resourceId db = some b →
    b.storagePath ≠ ready.finalKey ∨ b.storedSize ≠ ready.expectedSize ∨
      b.contentBlake3 ≠ ready.expectedBlake3

/-- Why a committed upload cannot be proved any more. -/
inductive Stale (W : World) (t : Nat) (ready : ReadyCommit) (resourceId : Option Uuid)
    (s : Server) : Prop
  | faulty (h : W.Faulty)
  | unrecorded (h : resourceId = none)
  | outside (h : scopedBlobKey ready.accountPath ready.finalKey ≠ .ok ready.finalKey)
  | conflicting (s₀ : Server) (id : Uuid) (hi : W.inv s₀) (recorded : resourceId = some id)
      (h : Conflicting ready id s₀.db) (later : W.Later t s₀ s)
  | broken (s₀ s₁ : Server) (id : Uuid) (b : Blob) (hi : W.inv s₀) (hi₁ : W.inv s₁)
      (recorded : resourceId = some id) (found : committedMetadata ready id s₀.db = some b)
      (path : b.storagePath = ready.finalKey) (between : W.Later t s₀ s₁)
      (h : s₁.stateOf ready.finalKey ready ≠ .isMatch) (later : W.Later t s₁ s)

/-- Why an upload is marked unknown. -/
inductive Suspicion (W : World) (t : Nat) (id : Uuid) (s : Server) : Prop
  | unready (message : String) (s₀ : Server) (r : Upload) (account : Account)
      (hi : W.inv s₀) (row : s₀.db.uploads.lookup id = some r)
      (state : r.commitState ≠ .receiving)
      (found : s₀.db.accounts.lookup r.accountId = some account)
      (h : readyCommit (commitRecord id r account) = .error message) (later : W.Later t s₀ s)
  | doubt (ready : ReadyCommit) (hid : ready.uploadId = id)
      (row : ∀ r, s.db.uploads.lookup id = some r → ReadyFor ready r ∧
        (r.commitState = .commitStarted ∨ r.commitState = .finalizing))
      (h : Doubt W t ready s)
  | stale (ready : ReadyCommit) (resourceId : Option Uuid) (hid : ready.uploadId = id)
      (row : ∀ r, s.db.uploads.lookup id = some r → ReadyFor ready r ∧
        r.commitState = .committed ∧ r.commitResourceId = resourceId)
      (h : Stale W t ready resourceId s)

/-- Why an upload is marked failed. -/
inductive Rejection (W : World) (t : Nat) (id : Uuid) (s : Server) : Prop
  | manifest (request : CreateUploadRequest)
      (row : ∀ r, s.db.uploads.lookup id = some r → r.request = request)
      (h : request.parts = [] ∨
        checkedSum (request.parts.map (·.size)) ≠ some request.contentSize)
  | part (s₀ : Server) (ready : ReadyCommit) (part : UploadPartSpec) (hi : W.inv s₀)
      (owns : Owns W t id (fun r => ReadyFor ready r ∧ r.commitState = .commitStarted) s₀)
      (mem : part ∈ ready.request.parts)
      (h : ∀ bytes, s₀.files.parts.lookup (id, part.index) = some bytes →
        contentMatches bytes part.size part.blake3 = false)
  | content (ready : ReadyCommit) (contents : List Bytes)
      (row : ∀ r, s.db.uploads.lookup id = some r →
        ReadyFor ready r ∧ r.commitState = .commitStarted)
      (read : List.Forall₂ (fun part bytes =>
        s.files.parts.lookup (id, part.index) = some bytes ∧
          contentMatches bytes part.size part.blake3 = true) ready.request.parts contents)
      (h : contentMatches contents.flatten ready.expectedSize ready.expectedBlake3 = false)

/-! ## Outcomes -/

/-- Why a commit does not get under way. -/
inductive Refusal (id : Uuid) (s : Server) : Prop
  | missing (h : countMissing id s.db ≠ 0)
  | overflow (r : Upload) (row : s.db.uploads.lookup id = some r)
      (h : checkedSum (r.request.parts.map (·.size)) = none)
  | start (r : Upload) (account : Account) (now : Nat) (error : AppError)
      (row : ∀ r', s.db.uploads.lookup id = some r' → r' = r)
      (h : startCommit (commitRecord id r account) now s.uuids s.db = .error error)

def Kind.isLock : Kind → Prop
  | .lock _ => True
  | _ => False

/-- The commit lock was free before the thread took it. -/
def Entered (W : World) (t : Nat) (id : Uuid) (s : Server) : Prop :=
  ∃ s₀, (W.inv s₀ ∧ s₀.commitLocks.lookup id = none) ∧ W.Since t Kind.isLock s₀ s

/-- How a call on an upload can end without completing it. -/
inductive Setback (W : World) (t : Nat) (id : Uuid) (s : Server) : Prop
  | faulty (h : W.Faulty)
  | closed (row : ∀ r, s.db.uploads.lookup id = some r →
      r.commitState = .unknown ∨ r.commitState = .failed)
  | lost (s₀ : Server) (required : Option Uuid) (error : AppError) (hi : W.inv s₀)
      (entered : Entered W t id s) (h : loadCommit id required s₀.db = .error error)
      (later : W.Later t s₀ s)
  | stranded (s₀ : Server) (accountId : Uuid) (error : AppError) (hi : W.inv s₀)
      (row : ∀ r, s₀.db.uploads.lookup id = some r → r.accountId = accountId)
      (h : loadCommit id (some accountId) s₀.db = .error error) (later : W.Later t s₀ s)
  | refused (s₀ : Server) (hi : W.inv s₀) (h : Refusal id s₀) (later : W.Later t s₀ s)
      (row : ∀ r, s.db.uploads.lookup id = some r → r.commitState = .receiving)
  | foreignStage (account : AccountPath) (staged : ObjectKey)
      (row : ∀ r, s.db.uploads.lookup id = some r →
        r.commitStagedKey = some staged ∧ r.commitAccountPath = some account)
      (h : commitStageKey account id staged ≠ .ok staged)
  | stageTaken (s₀ s₁ : Server) (key : ObjectKey) (hi : W.inv s₁)
      (gone : s₀.files.objects.lookup key = none) (between : W.Later t s₀ s₁)
      (h : s₁.files.objects.lookup key ≠ none)
  | unsettled (s₀ : Server) (ready : ReadyCommit) (approved : Option BlobCandidate) (now : Nat)
      (error : AppError) (hi : W.inv s₀) (hid : ready.uploadId = id)
      (row : ∀ r, s₀.db.uploads.lookup id = some r →
        ReadyFor ready r ∧ r.commitState = .finalizing)
      (h : commitMetadataIn ready approved now s₀.uuids s₀.db = .error error)
      (later : W.Later t s₀ s)
  | raced (s₀ s₁ : Server) (ready : ReadyCommit) (between : W.Later t s₀ s₁)
      (h : findBlob ready.accountId ready.expectedBlake3 s₀.db ≠
        findBlob ready.accountId ready.expectedBlake3 s₁.db)

/-- The row of a completed upload, as its outcome describes it. -/
structure Recorded (outcome : CommitOutcome) (r : Upload) : Prop where
  state : r.commitState = .committed
  resourceId : r.commitResourceId = some outcome.resourceId
  assetId : r.assetId = outcome.assetId
  deduplicated : r.commitDeduplicated = outcome.deduplicated

/-- The resource of the outcome carries the content of the upload. -/
def Attached (id : Uuid) (outcome : CommitOutcome) (s : Server) : Prop :=
  ∀ r, s.db.uploads.lookup id = some r → Recorded outcome r ∧
    ∃ resource b, s.db.resources.lookup outcome.resourceId = some resource ∧
      resource.assetId = r.assetId ∧ r.commitBlobId = some resource.blobId ∧
      s.db.blobs.lookup resource.blobId = some b ∧
      b.contentBlake3 = r.request.contentBlake3

def Kind.isDrop : Kind → Prop
  | .dropStage _ => True
  | _ => False

/-- A completed upload at the end of its call: its resource was seen, and its stage is gone. -/
structure Completed (W : World) (t : Nat) (id : Uuid) (outcome : CommitOutcome) (s : Server) :
    Prop where
  owns : Owns W t id (Recorded outcome) s
  attached : ∃ s₀, Attached id outcome s₀ ∧ W.Since t Kind.isDrop s₀ s
  present : ∃ s₀, (∃ r, s₀.db.uploads.lookup id = some r ∧ Recorded outcome r) ∧
    W.Since t Kind.isDrop s₀ s
  cleared : W.Faulty ∨ ∃ s₀, W.Later t s₀ s ∧ ∀ r, s₀.db.uploads.lookup id = some r →
    ∀ staged, r.commitStagedKey = some staged →
      s₀.files.objects.lookup staged = none ∨
        ∃ path, r.commitAccountPath = some path ∧ commitStageKey path id staged ≠ .ok staged

/-- A call on an upload has done what it could. -/
def Ended (W : World) (t : Nat) (id : Uuid) (s : Server) : Prop :=
  (∃ outcome, Completed W t id outcome s) ∨ Setback W t id s

/-! ## Grounds of the steps -/

/-- The row of a commit under way. -/
def Active (ready : ReadyCommit) (r : Upload) : Prop :=
  ReadyFor ready r ∧ (r.commitState = .commitStarted ∨ r.commitState = .finalizing)

def InState (ready : ReadyCommit) (state : CommitState) (r : Upload) : Prop :=
  ReadyFor ready r ∧ r.commitState = state

/-- The commit is that of a row that was there. -/
def RowSeen (W : World) (ready : ReadyCommit) : Prop :=
  ∃ s r, W.inv s ∧ s.db.uploads.lookup ready.uploadId = some r ∧ ReadyFor ready r

/-- The grounds a step of each kind rests on. -/
def Grounds (W : World) (t : Nat) : Kind → Server → Prop
  | .plan auth request now, _ => W.does (.plan auth request now)
  | .receive uploadId index now, _ => W.does (.receive uploadId index now)
  | .linkPart uploadId index bytes, _ => W.does (.linkPart uploadId index bytes)
  | .change auth assetId action f now, _ => W.does (.change auth assetId action f now)
  | .delete auth assetId now, _ => W.does (.delete auth assetId now)
  | .lock id, _ => W.does (.lock id)
  | .unlock id, s => ∃ s₀, Ended W t id s₀ ∧ W.Later t s₀ s
  | .start record _, s => countMissing record.uploadId s.db = 0
  | .doubt id _ _, s => Suspicion W t id s
  | .reject id _ _, s => Rejection W t id s
  | .finalize id _, s =>
      ∃ ready : ReadyCommit, (∀ r, s.db.uploads.lookup id = some r → ReadyFor ready r) ∧
        ((∃ s₀, W.inv s₀ ∧ s₀.stateOf ready.finalKey ready = .isMatch ∧ W.Later t s₀ s) ∨
          ∃ staged, ready.stagedKey = some staged ∧ Standing W t staged s ∧
            s.stateOf staged ready ≠ .mismatch)
  | .publish ready staged _, s =>
      RowSeen W ready ∧ ∃ s₀, W.inv s₀ ∧ s₀.stateOf staged ready = .isMatch ∧ W.Later t s₀ s
  | .commit ready approved _, s =>
      (∃ s₀, W.inv s₀ ∧ Owns W t ready.uploadId (InState ready .finalizing) s₀ ∧
          s₀.stateOf ready.finalKey ready = .isMatch ∧ W.LaterIn t ready.uploadId s₀ s) ∧
        ∀ c, approved = some c → ∃ s₀, W.inv s₀ ∧
          Owns W t ready.uploadId (InState ready .finalizing) s₀ ∧
          s₀.stateOf c.storagePath ready = .isMatch ∧ c.storedSize = ready.expectedSize ∧
          W.LaterIn t ready.uploadId s₀ s
  | .attach auth assetId blobId request now, s =>
      W.does (.attach auth assetId blobId request now) ∧ ∃ s₀ s₁ b account, W.inv s₁ ∧
        findBlob auth.accountId request.contentBlake3 s₀.db = some (blobId, b) ∧
        (∃ a, findAsset auth.accountId auth.deviceId request.sourceAssetId s₀.db =
          some (assetId, a)) ∧
        s₀.db.accounts.lookup auth.accountId = some account ∧
        b.storedSize = request.contentSize ∧ W.Later t s₀ s₁ ∧
        existingFileMatches s₁.files b.storagePath request.contentSize request.contentBlake3 =
          .isMatch ∧
        W.Later t s₁ s
  | .removeOrphan key, s =>
      ∃ s₀ s₁ account referenced, W.inv s₀ ∧ W.inv s₁ ∧ referenced = referencedStages s₀.db ∧
        W.Since t (fun _ => True) s₀ s₁ ∧ W.allowed (.listStaging account referenced) s₁ ∧
        (s₁.files.objects.lookup key).isSome = true ∧ key ∉ referenced ∧
        W.Since t (fun _ => True) s₁ s
  | _, _ => True

/-- The context of a thread: every step it takes is of some kind, on its grounds. -/
def World.context (W : World) (t : Nat) : Context Site Choice Server :=
  { W.outlook t with
    guarantee := fun site s s' => ∃ k, Change t site k s s' ∧ Grounds W t k s }

end MediaBackup
