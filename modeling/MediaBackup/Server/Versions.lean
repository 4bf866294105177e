import MediaBackup.Server.Progress

/-!
# Which content a resource shows

A resource shows the content that was attached to it last, and an upload attaches its content
once: in the step that commits it.
-/

namespace MediaBackup

/-- The statement of `create_upload` that points the resource at a stored blob. -/
def Attaches (s s' : Server) (resource : Resource) : Prop :=
  ∃ auth request now, Ran (attachStored auth resource.assetId resource.blobId request) now s s'

/-- The upload is committed in this step, and the resource is its own. -/
structure Commits (s s' : Server) (uploadId resourceId : Uuid) (resource : Resource) : Prop where
  before : ∃ r, s.db.uploads.lookup uploadId = some r ∧ r.commitState = .finalizing
  after : ∃ r, s'.db.uploads.lookup uploadId = some r ∧ r.commitState = .committed ∧
    r.commitResourceId = some resourceId ∧ r.commitBlobId = some resource.blobId

/-- The commit of the upload has come to its end, well or badly. -/
def Concluded (id : Uuid) (s : Server) : Prop :=
  ∃ r, s.db.uploads.lookup id = some r ∧
    (r.commitState = .committed ∨ r.commitState = .unknown ∨ r.commitState = .failed)

theorem Concluded.not_commits {id resourceId : Uuid} {resource : Resource} {s s' : Server}
    (h : Concluded id s) : ¬Commits s s' id resourceId resource := by
  obtain ⟨r, hr, hstate⟩ := h
  intro hcommits
  obtain ⟨r', hr', hstate'⟩ := hcommits.before
  rw [hr] at hr'
  cases hr'
  rw [hstate'] at hstate
  simp at hstate

section

variable [Blake3] {t : Nat} {site : Site} {k : Kind} {s s' : Server}

/-- What writes a resource. -/
theorem Change.written (h : Change t site k s s') {id : Uuid} {resource : Resource}
    (hnew : s'.db.resources.lookup id = some resource)
    (hold : s.db.resources.lookup id ≠ some resource) :
    Attaches s s' resource ∨ ∃ uploadId, Commits s s' uploadId id resource := by
  have hc := h.resource id
  rw [hnew] at hc
  generalize hlookup : s.db.resources.lookup id = old at hc hold
  cases hc with
  | same => exact absurd rfl hold
  | attached kind =>
    subst kind
    exact .inl ⟨_, _, _, h⟩
  | @settled _ ready approved now actual kind assetId blobId =>
    subst kind
    obtain ⟨-, hfits, -, result, db, hrun, rfl⟩ := h
    rcases commitMetadataIn_ok hrun with ⟨-, rfl, -⟩ | ⟨actual', -, rfl, -⟩ |
      ⟨actual', outcome, -, -, -, -, hsettle⟩
    · exact absurd (hlookup.symm.trans hnew) hold
    · exact absurd (hlookup.symm.trans hnew) hold
    · obtain ⟨u, row, hu, hstate, hup, -, -, changes, events, rfl, -⟩ := settleUpload_ok hsettle
      obtain ⟨row', hrow', -, hblob, -⟩ := upsertResource_ok hup
      simp only [Server.store, Database.setUpload, Database.setResource, insertBlob_resources,
        Table.lookup_insert_eq] at hnew
      split at hnew
      · rename_i hid
        cases hnew
        have hsame : row' = resource := by
          have hrows := congrArg (fun db : Database => db.resources.lookup outcome.resourceId) hrow'
          simpa [Table.lookup_insert_eq] using hrows.symm
        rw [insertBlob_uploads] at hu
        refine .inr ⟨ready.uploadId, ⟨u, hu, hstate⟩, ?_⟩
        refine ⟨_, AList.lookup_insert _, rfl, ?_, ?_⟩
        · simp [Upload.settled, hid]
        · rw [hsame] at hblob
          simp [Upload.settled, hblob]
      · exact absurd (hlookup.symm.trans hnew) hold

theorem Concluded.step {id : Uuid} (h : Concluded id s) (hc : Change t site k s s')
    (hv : s.Valid) (hk : ¬k.isDelete) : Concluded id s' := by
  obtain ⟨r, hr, hstate⟩ := h
  obtain ⟨r', hr', hmoves⟩ := hc.moves hv hk hr
  refine ⟨r', hr', ?_⟩
  rcases hstate with hstate | hstate | hstate
  · rw [hstate] at hmoves
    generalize r'.commitState = state at hmoves ⊢
    cases hmoves with
    | stay => exact .inl rfl
    | doubt => exact .inr (.inl rfl)
    | reject hreject => simp at hreject
  · rw [hstate] at hmoves
    exact .inr (.inl hmoves.of_unknown)
  · rw [hstate] at hmoves
    exact .inr (.inr hmoves.of_failed)

end

section

variable [Blake3]

/-- The server after so many events. -/
def Server.after (config : Config) (s : Server) (events : List ServerEvent) (n : Nat) : Server :=
  ((machine config).run s.idle (events.take n)).state

/-- One event more. -/
theorem Server.after_succ (config : Config) (s : Server) {events : List ServerEvent} {n : Nat}
    {ev : ServerEvent} (hev : events[n]? = some ev) :
    s.after config events (n + 1) =
      ((machine config).next ((machine config).run s.idle (events.take n)) ev).state := by
  have hlt : n < events.length := (List.getElem?_eq_some_iff.mp hev).1
  have htake : events.take (n + 1) = events.take n ++ [ev] := by
    rw [List.take_add_one, hev]
    rfl
  rw [Server.after, htake, Machine.run_append]
  rfl

theorem Server.after_ge (config : Config) (s : Server) {events : List ServerEvent} {n : Nat}
    (hev : events[n]? = none) : s.after config events (n + 1) = s.after config events n := by
  have hlen : events.length ≤ n := List.getElem?_eq_none_iff.mp hev
  rw [Server.after, Server.after, List.take_of_length_le hlen,
    List.take_of_length_le (Nat.le_succ_of_le hlen)]

/-- What one step of the run does, if no call deletes an asset. -/
theorem keeping_step (config : Config) {s : Server} (hs : s.Valid) {events : List ServerEvent}
    (hcalls : ∀ c, Event.start c ∈ events → c.deletes = false) (n : Nat) :
    (s.after config events n).Valid ∧
      (s.after config events (n + 1) = s.after config events n ∨
        (∃ t site k, Change t site k (s.after config events n) (s.after config events (n + 1)) ∧
          ¬k.isDelete) ∨
        s.after config events (n + 1) = (s.after config events n).reboot) := by
  have hcalls' : (machine config).Along (fun _ ev => ∀ c, ev = .start c → c.deletes = false)
      s.idle (events.take n) := by
    apply Machine.along_of_forall
    intro ev hev c hc
    rw [hc] at hev
    exact hcalls c (List.mem_of_mem_take hev)
  have hsound := World.keeping_governs.run (World.Governs.idle hs) hcalls'
  refine ⟨hsound.inv, ?_⟩
  cases hev : events[n]? with
  | none => exact .inl (s.after_ge config hev)
  | some ev =>
    rw [s.after_succ config hev]
    have hC : ∀ c, ev = .start c → c.deletes = false := by
      intro c hc
      rw [hc] at hev
      exact hcalls c (List.mem_of_getElem? hev)
    rcases World.keeping_governs.moves config hsound ev hC with
      hsame | ⟨t, e, c, site, k, -, -, hc, hg⟩ | ⟨-, hcrash⟩
    · exact .inl hsame
    · exact .inr (.inl ⟨t, site, k, hc, hg.not_isDelete⟩)
    · exact .inr (.inr hcrash)

/-- In every run without deletions, with faults and crashes anywhere: a resource is pointed at a
blob by the statement of `create_upload` or by the step that commits an upload, and an upload that
has been committed, doubted or rejected is never committed again. -/
theorem resource_shows_last_attached (config : Config) {s : Server} (hs : Reachable config s)
    (events : List ServerEvent) (hcalls : ∀ c, Event.start c ∈ events → c.deletes = false) :
    (∀ n resourceId resource,
        (s.after config events (n + 1)).db.resources.lookup resourceId = some resource →
        (s.after config events n).db.resources.lookup resourceId ≠ some resource →
        Attaches (s.after config events n) (s.after config events (n + 1)) resource ∨
          ∃ uploadId, Commits (s.after config events n) (s.after config events (n + 1)) uploadId
            resourceId resource) ∧
      ∀ n m uploadId, n ≤ m → Concluded uploadId (s.after config events n) →
        ∀ resourceId resource, ¬Commits (s.after config events m) (s.after config events (m + 1))
          uploadId resourceId resource := by
  constructor
  · intro n resourceId resource hnew hold
    obtain ⟨-, hsame | ⟨t, site, k, hc, -⟩ | hreboot⟩ := keeping_step config hs.valid hcalls n
    · rw [hsame] at hnew
      exact absurd hnew hold
    · exact hc.written hnew hold
    · rw [hreboot] at hnew
      exact absurd hnew hold
  · intro n m uploadId hle hconcluded resourceId resource
    have hlater : Concluded uploadId (s.after config events m) := by
      induction m, hle using Nat.le_induction with
      | base => exact hconcluded
      | succ m _ ih =>
        obtain ⟨hvalid, hsame | ⟨t, site, k, hc, hk⟩ | hreboot⟩ :=
          keeping_step config hs.valid hcalls m
        · rw [hsame]
          exact ih
        · exact ih.step hc hvalid hk
        · rw [hreboot]
          exact ih
    exact hlater.not_commits

end

/-! ## An older version finished later -/

section

open Sample

/-- Two versions of one photo are announced and uploaded, and the second is completed. -/
def secondCompleted : List ServerEvent :=
  call 0 (.createUpload phone (manifest "a" "r" [7])) 2 ++
    call 1 (.putPart phone 11 0 [.data [7]]) 8 ++
    call 2 (.createUpload phone (manifest "a" "r" [8])) 2 ++
    call 3 (.putPart phone 15 0 [.data [8]]) 8 ++ call 4 (.complete 1 15) 30

/-- Then the first. -/
def firstCompleted : List ServerEvent := secondCompleted ++ call 5 (.complete 1 11) 30

/-- The content of the photo. -/
def Server.photoContent (s : Server) : Option HexString := do
  let resource ← s.db.resources.lookup 22
  let blob ← s.db.blobs.lookup resource.blobId
  pure blob.contentBlake3

theorem firstCompleted_keeps : ∀ c, Event.start c ∈ firstCompleted → c.deletes = false := by
  intro c hc
  simp [firstCompleted, secondCompleted, call, steps] at hc
  rcases hc with rfl | rfl | rfl | rfl | rfl | rfl <;> rfl

set_option maxRecDepth 10000 in
/-- The second upload has been committed after the fifty-fifth event and is not committed again. -/
theorem resource_shows_last_attached_sample :
    Concluded 15 (server.after config firstCompleted 55) ∧
      ∀ m, 55 ≤ m → ∀ resourceId resource, ¬Commits (server.after config firstCompleted m)
        (server.after config firstCompleted (m + 1)) 15 resourceId resource := by
  have hstate : ((server.after config firstCompleted 55).db.uploads.lookup 15).map
      (·.commitState) = some .committed := by decide +kernel
  obtain ⟨r, hr, hcommitted⟩ := Option.map_eq_some_iff.mp hstate
  have hconcluded : Concluded 15 (server.after config firstCompleted 55) :=
    ⟨r, hr, .inl hcommitted⟩
  refine ⟨hconcluded, fun m hle => ?_⟩
  exact (resource_shows_last_attached config ⟨server, [], server_fresh, rfl⟩ firstCompleted
    firstCompleted_keeps).2 55 m 15 hle hconcluded

set_option maxRecDepth 10000 in
/-- The newer version is in place, and completing the older upload takes it back. -/
theorem older_version_returns :
    ((machine config).run server.idle firstCompleted).returned 4 =
        some (.complete 1 15, .ok (.completed ⟨22, 10, false⟩)) ∧
      (server.after config firstCompleted 55).photoContent = some (paddedHex [8]) ∧
      ((machine config).run server.idle firstCompleted).returned 5 =
        some (.complete 1 11, .ok (.completed ⟨22, 10, false⟩)) ∧
      ((machine config).run server.idle firstCompleted).state.photoContent =
        some (paddedHex [7]) := by
  decide +kernel

end

end MediaBackup
