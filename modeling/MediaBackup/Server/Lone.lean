import MediaBackup.Server.Stored
import MediaBackup.Server.Reclaim

/-!
# What a call commits when it runs alone

The files may hold anything when the call starts. Whatever it finds, it commits an upload only to
an object that has the content of its manifest, and it never writes over an object.
-/

namespace MediaBackup

open Call

section

variable [Blake3]

/-- The rows of a server that can be reached, over any files, with nobody in a transaction. -/
structure Server.Found (config : Config) (s : Server) : Prop where
  rows : ∃ s₀, Reachable config s₀ ∧ s.db = s₀.db ∧ s.uuids = s₀.uuids
  writer : s.writer = none

theorem Server.Found.valid {config : Config} {s : Server} (h : s.Found config) : s.Valid := by
  obtain ⟨s₀, hs₀, hdb, huuids⟩ := h.rows
  exact hs₀.valid.congr hdb huuids

/-! ## Steps -/

/-- The world in which nobody takes a step between two steps of a call. -/
def World.lone : World :=
  .crowd Server.Valid (fun _ => True) (fun _ _ => True) (fun _ _ _ => False) (fun _ => True)
    fun _ h => h

theorem World.lone_laterIn {t : Nat} {id : Uuid} {s s' : Server}
    (h : World.lone.LaterIn t id s s') : s'.files = s.files := by
  induction h with
  | refl => rfl
  | tail _ hstep ih =>
    rcases hstep with ⟨-, -, t', -, site, k, -, hs⟩ | rfl
    · exact hs.elim
    · exact ih

/-- The step commits uploads only to objects with the content of their manifests, and objects stay
as they are, but for the one of a blob row that nothing names. -/
structure Server.Proper (s s' : Server) : Prop where
  commits : ∀ id r r', s.db.uploads.lookup id = some r → r.commitState ≠ .committed →
    s'.db.uploads.lookup id = some r' → r'.commitState = .committed →
    ∃ blobId b, r'.commitBlobId = some blobId ∧ s'.db.blobs.lookup blobId = some b ∧
      s'.files.Holds b.storagePath r.request.contentBlake3 r.request.contentSize
  objects : ∀ key bytes, key.isObject = true → s.files.objects.lookup key = some bytes →
    s'.files.objects.lookup key = some bytes ∨
      s'.files.objects.lookup key = none ∧ s.writer ≠ none ∧
        ∃ blobId, s.Reclaimable blobId key

theorem Change.proper {t : Nat} {site : Site} {k : Kind} {s s' : Server}
    (h : Change t site k s s') (hg : Grounds World.lone t k s) (hv : s.Valid) : s.Proper s' := by
  constructor
  · intro id r r' hr hstate hr' hstate'
    rcases h.committed_row hr' hstate' with
      hsame | ⟨r₀, ready, approved, now, hold, hk, hid, state, fits, hsame⟩
    · rw [hr] at hsame
      cases hsame
      exact absurd hstate' hstate
    · rw [hr] at hold
      cases hold
      subst hk
      subst hid
      obtain ⟨⟨s₀, -, -, hfinal, hlater⟩, -⟩ := hg
      have hholds := stateOf_isMatch.mp hfinal
      rw [← World.lone_laterIn hlater] at hholds
      obtain ⟨blobId, b, hid, hb, -, -, hobject⟩ :=
        h.commit_holds hv hr fits state hholds hr' hstate' hsame
      exact ⟨blobId, b, hid, hb, hobject⟩
  · intro key bytes hkey hbytes
    rcases h.object_kept hkey hbytes with hkept | ⟨blobId, hk, -, hreclaimable⟩
    · exact .inl hkept
    · subst hk
      obtain ⟨-, hwriter, -, -, rfl⟩ := h
      refine .inr ⟨?_, ?_, blobId, hreclaimable⟩
      · simp [Server.withObjects]
      · simp [hwriter]

theorem lone_visits (config : Config) (c : Request) (t : Nat) (es : Nat → Choice) {s : Server}
    (hv : s.Valid) : ((handle config t c).run.visits es s).IsChain Server.Proper := by
  have hserves : World.lone.Serves c := by
    cases c <;> simp [World.Serves, World.lone, World.crowd]
  have hidle : Idle World.lone t s := fun hl => hl.elim
  have hmeets := handle_spec config hserves s hidle
  have hvalid : ∀ site s s', World.lone.inv s → (World.lone.context t).guarantee site s s' →
      World.lone.inv s' := by
    intro site s s' hi hstep
    obtain ⟨k, hc, -⟩ := hstep
    exact hc.valid hi
  have hvisits : ((handle config t c).run.visits es s).IsChain _ ∧ _ :=
    Meets.visits (fun _ => trivial) (fun _ _ => trivial) hvalid hv hmeets
  apply hvisits.1.imp_of_mem_imp
  intro s₁ s₂ hs₁ _ hstep
  obtain ⟨site, k, hc, hg⟩ := hstep
  exact hc.proper hg (hvisits.2 s₁ hs₁)

/-! ## An upload that cannot be proved -/

/-- Neither the final object nor the stage of the upload has its content. -/
structure Server.Unproved (s : Server) (r : Upload) : Prop where
  final : ∀ key, r.commitFinalKey = some key →
    ¬s.files.Holds key r.request.contentBlake3 r.request.contentSize
  staged : ∀ key, r.commitStagedKey = some key →
    ¬s.files.Holds key r.request.contentBlake3 r.request.contentSize

/-- The upload is finalizing without anything that could be published. -/
def Stranded (id : Uuid) (s : Server) : Prop :=
  ∃ r, s.db.uploads.lookup id = some r ∧ r.commitState = .finalizing ∧ s.Unproved r

def NotCommitted (id : Uuid) (s : Server) : Prop :=
  ∀ r, s.db.uploads.lookup id = some r → r.commitState ≠ .committed

section Lost

variable {α : Type} {id : Uuid}

omit [Blake3] in
/-- Nothing comes after a doubt. -/
theorem markUnknown_within {site : Site} {reason : String} {P : Server → Prop} :
    Spec (.within (NotCommitted id)) P (markUnknown site id reason : Call α) (fun _ _ => False)
      fun _ _ => True := by
  have hdoubt : ∀ s now, NotCommitted id s → NotCommitted id
      (s.store { s.db with uploads := s.db.uploads.modify id fun u => u.doubted reason now }) := by
    intro s now _ r hr
    simp only [Server.store, Table.lookup_modify, if_true, Option.map_eq_some_iff] at hr
    obtain ⟨u, -, rfl⟩ := hr
    unfold Upload.doubted
    split
    · rename_i hunknown
      simp [hunknown]
    · simp
  apply Spec.bind (Q := fun _ _ => True)
  · apply Spec.within
    intro e s hG _
    cases hfault : e.fault with
    | before => exact ⟨hG, trivial⟩
    | none | after => exact ⟨hdoubt s e.now hG, trivial⟩
  · intro _
    exact Spec.throw fun _ _ => trivial

omit [Blake3] in
/-- A look at the files. -/
theorem look_within {α : Type} {site : Site} {f : Files → α} {P : Server → Prop} :
    Spec (.within (NotCommitted id)) P (rooted site fun files => .ok (f files, files))
      (fun a s => P s ∧ a = f s.files) fun _ s => P s := by
  apply Spec.within
  intro e s hG hp
  cases hfault : e.fault with
  | before | after => exact ⟨hG, hp⟩
  | none => exact ⟨hG, hp, rfl⟩

theorem inspectObject_within {site : Site} {account : AccountPath} {key : ObjectKey} {size : Nat}
    {digest : HexString} {P : Server → Prop} :
    Spec (.within (NotCommitted id)) P (inspectObject site account key size digest)
      (fun found s => P s ∧ found = existingFileMatches s.files key size digest)
      fun _ s => P s := by
  unfold inspectObject
  split
  · exact Spec.throw fun _ h => h
  · rename_i hkey
    obtain rfl := scopedBlobKey_ok hkey
    exact look_within

theorem inspectCommitStage_within {account : AccountPath} {staged : ObjectKey} {size : Nat}
    {digest : HexString} {P : Server → Prop} :
    Spec (.within (NotCommitted id)) P (inspectCommitStage account id staged size digest)
      (fun found s => P s ∧ found = existingFileMatches s.files staged size digest)
      fun _ s => P s := by
  unfold inspectCommitStage
  split
  · exact Spec.throw fun _ h => h
  · rename_i hkey
    obtain ⟨rfl, -⟩ := commitStageKey_ok hkey
    exact look_within

variable {ready : ReadyCommit}

/-- Neither key of the commit at hand can be published. -/
def Lost (ready : ReadyCommit) (s : Server) : Prop :=
  s.stateOf ready.finalKey ready ≠ .isMatch ∧
    ∀ staged, ready.stagedKey = some staged → s.stateOf staged ready ≠ .isMatch

theorem proveStage_within {staged : ObjectKey} (hstaged : ready.stagedKey = some staged) :
    Spec (.within (NotCommitted ready.uploadId)) (Lost ready) (proveStage ready staged)
      (fun _ _ => False) fun _ _ => True := by
  apply Spec.bind (Spec.attempt (R := fun result s => ∀ found, result = .ok found →
    found ≠ ObjectState.isMatch) ?_)
  · intro result
    split
    · exact Spec.pure fun s h => h _ rfl rfl
    all_goals exact markUnknown_within
  · apply Spec.weaken inspectCommitStage_within (fun _ h => h)
    · intro found s h found' heq
      cases heq
      rw [h.2]
      exact h.1.2 staged hstaged
    · intro e s _ found heq
      cases heq

theorem proveFinal_within :
    Spec (.within (NotCommitted ready.uploadId)) (Lost ready) (proveFinal ready)
      (fun _ _ => False) fun _ _ => True := by
  apply Spec.bind (Spec.attempt (R := fun result s => Lost ready s ∧ ∀ found, result = .ok found →
    found ≠ ObjectState.isMatch) ?_)
  · intro found
    split
    · exact Spec.pure fun s h => h.2 _ rfl rfl
    · exact markUnknown_within
    · exact markUnknown_within
    · rename_i hstaged
      apply Spec.bind ((proveStage_within hstaged).weaken (fun _ h => h.1) (fun _ _ h => h)
        fun _ _ h => h)
      intro _ s h
      exact h.elim
    · exact markUnknown_within
  · apply Spec.weaken inspectObject_within (fun _ h => h)
    · intro found s h
      refine ⟨h.1, fun found' heq => ?_⟩
      cases heq
      rw [h.2]
      exact h.1.1
    · intro e s h
      refine ⟨h, fun found heq => ?_⟩
      cases heq

/-- What is known when the row of a stranded upload has been read. -/
theorem resumeCommit_within {record : CommitRecord} :
    Spec (.within (NotCommitted id))
      (fun s => ∃ r account, record = commitRecord id r account ∧ r.commitState = .finalizing ∧
        s.Unproved r)
      (resumeCommit record) (fun _ _ => True) fun _ _ => True := by
  apply Spec.of_exists
  intro r
  apply Spec.of_exists
  intro account
  apply Spec.of_prop
  rintro rfl
  apply Spec.of_prop
  intro hstate
  unfold resumeCommit
  split
  · exact markUnknown_within.weaken (fun _ h => h) (fun _ _ _ => trivial) fun _ _ h => h
  · rename_i ready hready
    obtain ⟨rfl, hfits, -⟩ := readyCommit_ok hready
    have hlost : ∀ s, s.Unproved r → Lost ready s := by
      intro s hs
      constructor
      · intro hmatch
        have hholds := stateOf_isMatch.mp hmatch
        rw [hfits.blake3, hfits.size, ← hfits.request] at hholds
        exact hs.final _ hfits.finalKey hholds
      · intro staged hstaged hmatch
        have hholds := stateOf_isMatch.mp hmatch
        rw [hfits.blake3, hfits.size, ← hfits.request] at hholds
        exact hs.staged staged (hfits.stagedKey.trans hstaged) hholds
    have hrecord : (commitRecord ready.uploadId r account).commitState = .finalizing := hstate
    simp only [hrecord, reduceCtorEq, or_true, if_true, if_false]
    apply Spec.bind (proveFinal_within.weaken hlost (fun _ _ h => h) fun _ _ h => h)
    intro _ s h
    exact h.elim

/-- A stranded upload is not committed by any step of its completion. -/
theorem completeInner_within {thread : Nat} {required : Option Uuid} :
    Spec (.within (NotCommitted id)) (Stranded id) (completeInner thread id required)
      (fun _ _ => True) fun _ _ => True := by
  apply Spec.bind (Q := fun _ s => Stranded id s)
  · apply Spec.bind (Q := fun _ s => Stranded id s)
    · apply Spec.weaken look_within (fun _ h => h) (fun _ _ h => h.1) fun _ _ _ => trivial
    intro _
    apply Spec.within
    intro e s hG hs
    cases hfault : e.fault with
    | none =>
      obtain ⟨r, hr, hstate, hunproved⟩ := hs
      exact ⟨hG, r, hr, hstate, hunproved.final, hunproved.staged⟩
    | before | after => exact ⟨hG, trivial⟩
  intro _
  apply Spec.bind (Spec.attempt (R := fun _ _ => True) ?_)
  · intro result
    apply Spec.bind (Q := fun _ _ => True)
    · apply Spec.within
      intro e s hG _
      exact ⟨hG, trivial⟩
    intro _
    cases result with
    | ok a => exact Spec.pure fun _ _ => trivial
    | error e => exact Spec.throw fun _ _ => trivial
  · apply Spec.bind (Q := fun record s => ∃ r account, record = commitRecord id r account ∧
      r.commitState = .finalizing ∧ s.Unproved r)
    · apply Spec.within
      intro e s hG hs
      cases hfault : e.fault with
      | before | after => exact ⟨hG, trivial⟩
      | none =>
        refine ⟨hG, ?_⟩
        cases hload : loadCommit id required s.db with
        | error error => trivial
        | ok record =>
          obtain ⟨u, account, hu, -, hrecord, -⟩ := loadCommit_ok hload
          obtain ⟨r, hr, hstate, hunproved⟩ := hs
          rw [hr] at hu
          cases hu
          exact ⟨u, account, hrecord, hstate, hunproved⟩
    · intro record
      cases hstate : record.commitState with
      | finalizing => exact resumeCommit_within
      | _ =>
        intro s hs
        obtain ⟨r, account, hrecord, hfinalizing, -⟩ := hs
        have hcopied : record.commitState = r.commitState := by rw [hrecord]; rfl
        rw [hcopied, hfinalizing] at hstate
        cases hstate

end Lost

/-! ## Calls -/

/-- The objects of a run in which nobody takes the write lock. -/
def ObjectsKept (s s' : Server) : Prop :=
  ∀ key bytes, key.isObject = true → s.files.objects.lookup key = some bytes →
    s'.files.objects.lookup key = some bytes

theorem objectsKept_of_chains {visited : List Server} (hproper : visited.IsChain Server.Proper)
    (hspares : visited.IsChain Server.Spares) (hhead : ∀ s ∈ visited.head?, s.writer = none) :
    visited.IsChain ObjectsKept := by
  induction visited with
  | nil => exact .nil
  | cons s rest ih =>
    rw [List.isChain_cons] at hproper hspares ⊢
    have hwriter : s.writer = none := hhead s rfl
    constructor
    · intro s' hs' key bytes hkey hbytes
      rcases (hproper.1 s' hs').objects key bytes hkey hbytes with hkept | ⟨-, hheld, -⟩
      · exact hkept
      · exact absurd hwriter hheld
    · apply ih hproper.2 hspares.2
      intro s' hs'
      rw [(hspares.1 s' hs').writer]
      exact hwriter

/-- A call that runs alone over the rows of a reachable server and any files, with faults
anywhere. Each of its steps commits uploads only to objects with the content of their manifests and
leaves the objects alone, but for those of blob rows that nothing names; completing an upload
leaves them all alone; and it never commits a finalizing upload that starts with neither a matching
stage nor a matching final object. -/
theorem lone_call_commits_what_matches (config : Config) {s : Server} (hs : s.Found config)
    (t : Nat) (es : Nat → Choice) :
    (∀ c, ((handle config t c).run.visits es s).IsChain Server.Proper) ∧
      ∀ account id,
        ((handle config t (.complete account id)).run.visits es s).IsChain ObjectsKept ∧
          (Stranded id s → ∀ s' ∈ (handle config t (.complete account id)).run.visits es s,
            NotCommitted id s') := by
  refine ⟨fun c => lone_visits config c t es hs.valid, fun account id => ⟨?_, ?_⟩⟩
  · have hchain := lone_visits config (.complete account id) t es hs.valid
    have hspares : Each Server.Spares (handle config t (.complete account id)) :=
      Each.bind completeInner_spares fun _ => Each.pure _
    apply objectsKept_of_chains hchain (hspares.visits es s)
    intro s' hs'
    rw [Prog.head?_visits] at hs'
    cases hs'
    exact hs.writer
  · intro hstranded
    have hstart : NotCommitted id s := by
      obtain ⟨r, hr, hstate, -⟩ := hstranded
      intro r' hr'
      rw [hr] at hr'
      cases hr'
      simp [hstate]
    have hspec : Spec (.within (NotCommitted id)) (Stranded id)
        (handle config t (.complete account id)) (fun _ _ => True) fun _ _ => True :=
      Spec.bind completeInner_within fun _ => Spec.pure fun _ _ => trivial
    exact hspec.visits_within hstart hstranded es

end

/-! ## An altered object -/

section

open Sample

/-- Two photos with the same content. The completion of the second is cut off once it is
finalizing; the first is completed, and its deletion is cut off before the reclaimer runs. -/
def deletionCutOff : List ServerEvent :=
  twinsReceived ++ call 4 (.complete 1 13) 14 ++ [.crash] ++ call 5 (.complete 1 11) 30 ++
    call 6 (.trashAsset phone 10) 3 ++ call 7 (.deleteAsset phone 10) 1 ++ [.crash]

/-- The rows that leaves, over files that have all been altered. -/
def altered : Server :=
  let s := ((machine config).run server.idle deletionCutOff).state
  { s with files := { s.files with objects := s.files.objects.mapRows fun _ => [9] } }

set_option maxRecDepth 10000 in
theorem altered_found : altered.Found config where
  rows := ⟨((machine config).run server.idle deletionCutOff).state,
    ⟨server, deletionCutOff, server_fresh, rfl⟩, rfl, rfl⟩
  writer := by decide

theorem altered_bytes {key : ObjectKey} {bytes : Bytes}
    (h : altered.files.objects.lookup key = some bytes) : bytes = [9] := by
  unfold altered at h
  rw [Table.lookup_mapRows] at h
  obtain ⟨_, -, heq⟩ := Option.map_eq_some_iff.mp h
  exact heq.symm

set_option maxRecDepth 10000 in
theorem altered_stranded : Stranded 13 altered := by
  have hrow : (altered.db.uploads.lookup 13).map (fun r => (r.commitState, r.request.contentBlake3)) =
      some (.finalizing, paddedHex [7]) := by decide
  obtain ⟨r, hr, hfields⟩ := Option.map_eq_some_iff.mp hrow
  obtain ⟨hstate, hdigest⟩ := Prod.mk.inj hfields
  have hother : ∀ key, ¬altered.files.Holds key r.request.contentBlake3 r.request.contentSize := by
    intro key h
    obtain ⟨bytes, hbytes, hhash, -⟩ := h
    rw [altered_bytes hbytes, hdigest] at hhash
    exact absurd hhash (by decide)
  exact ⟨r, hr, hstate, fun key _ => hother key, fun key _ => hother key⟩

theorem lone_call_commits_what_matches_sample :
    altered.Found config ∧ Stranded 13 altered ∧
      ((handle config 8 (.complete 1 13)).run.visits (fun _ => calm) altered).IsChain ObjectsKept ∧
      ∀ s' ∈ (handle config 8 (.complete 1 13)).run.visits (fun _ => calm) altered,
        NotCommitted 13 s' := by
  have hcomplete := (lone_call_commits_what_matches config altered_found 8 fun _ => calm).2 1 13
  exact ⟨altered_found, altered_stranded, hcomplete.1, hcomplete.2 altered_stranded⟩

set_option maxRecDepth 10000 in
/-- A pass that runs alone removes the final object of the finalizing upload, with the other bytes
it has: its blob row is left over from the first photo, and nothing names it. -/
theorem altered_object_removed :
    ((altered.db.uploads.lookup 13).bind (·.commitFinalKey)).bind
        (fun key => altered.files.objects.lookup key) = some [9] ∧
      altered.reconciled.map (fun r => ((altered.db.uploads.lookup 13).bind
        (·.commitFinalKey)).bind fun key => r.2.files.objects.lookup key) = some none := by
  decide +kernel

end

end MediaBackup
