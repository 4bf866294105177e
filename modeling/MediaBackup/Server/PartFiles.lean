import MediaBackup.Server.Ownership

/-!
# Part files

The file of a received part stands beside the row that asks for it. No call removes a part file,
so that a file loses its row when the asset of its upload is deleted, and a part that is stored
while its asset is deleted never has one.
-/

namespace MediaBackup

/-- Every part file is named by a row. -/
def Server.PartsNamed (s : Server) : Prop :=
  ∀ key bytes, s.files.parts.lookup key = some bytes →
    ∃ part, s.db.uploadParts.lookup key = some part

/-- The step deletes an asset of which a part is on disk. -/
def DeletesParts (s s' : Server) : Prop :=
  ∃ auth assetId now db, deleteAsset auth assetId now s.uuids s.db = .ok ((), db) ∧
    s' = s.store db ∧ ∃ id index r bytes, s.db.uploads.lookup id = some r ∧
      r.assetId = assetId ∧ s.files.parts.lookup (id, index) = some bytes

/-- The step stores a part whose row is gone. -/
def StoresUnnamed (s s' : Server) : Prop :=
  ∃ id index bytes, s.files.parts.lookup (id, index) = none ∧
    s.db.uploadParts.lookup (id, index) = none ∧ s' = { s with
      files := { s.files with parts := s.files.parts.insert (id, index) bytes } }

def Strands (s s' : Server) : Prop := DeletesParts s s' ∨ StoresUnnamed s s'

theorem Server.Fresh.partsNamed {s : Server} (h : s.Fresh) : s.PartsNamed := by
  intro key bytes hfile
  simp [h.parts] at hfile

theorem Strands.not_partsNamed {s s' : Server} (h : Strands s s') : ¬s'.PartsNamed := by
  intro hnamed
  rcases h with ⟨auth, assetId, now, db, hdelete, rfl, id, index, r, bytes, hr, hasset, hfile⟩ |
    ⟨id, index, bytes, -, hrow, rfl⟩
  · obtain ⟨asset, -, -, rfl⟩ := deleteAsset_ok hdelete
    obtain ⟨part, hpart⟩ := hnamed (id, index) bytes hfile
    have hpart' : (s.db.uploadParts.deleteWhere fun key _ =>
        (s.db.uploads.lookup key.1).any fun u => u.assetId = assetId).lookup (id, index) =
          some part := hpart
    rw [Table.lookup_deleteWhere, Option.filter_eq_some_iff] at hpart'
    simp [hr, hasset] at hpart'
  · obtain ⟨part, hpart⟩ := hnamed (id, index) bytes (AList.lookup_insert _)
    rw [hrow] at hpart
    cases hpart

section

variable [Blake3]

/-- A part row that was there is still there, or its asset has been deleted. -/
theorem Change.part_kept {t : Nat} {site : Site} {k : Kind} {s s' : Server}
    (h : Change t site k s s') {key : Uuid × Nat} {part : UploadPart}
    (hpart : s.db.uploadParts.lookup key = some part) :
    (∃ part', s'.db.uploadParts.lookup key = some part') ∨
      ∃ auth assetId now r, k = .delete auth assetId now ∧
        s.db.uploads.lookup key.1 = some r ∧ r.assetId = assetId := by
  have hc := h.part key
  rw [hpart] at hc
  generalize s'.db.uploadParts.lookup key = new at hc
  cases hc with
  | same => exact .inl ⟨part, rfl⟩
  | opened => exact .inl ⟨_, rfl⟩
  | received => exact .inl ⟨_, rfl⟩
  | @deleted part auth assetId now r kind hr hasset =>
    exact .inr ⟨auth, assetId, now, r, kind, hr, hasset⟩

/-- What a step adds to the part files. -/
theorem Change.partFile_origin {t : Nat} {site : Site} {k : Kind} {s s' : Server}
    (h : Change t site k s s') {key : Uuid × Nat} {bytes : Bytes}
    (hfile : s'.files.parts.lookup key = some bytes) :
    s.files.parts.lookup key = some bytes ∨ ∃ id index, key = (id, index) ∧
      k = .linkPart id index bytes := by
  cases k with
  | linkPart id index new =>
    obtain ⟨-, -, -, rfl⟩ := h
    simp only [Table.lookup_insert_eq] at hfile
    split at hfile
    · rename_i hkey
      cases hfile
      exact .inr ⟨id, index, hkey, rfl⟩
    · exact .inl hfile
  | idle =>
    rw [show s' = s from h] at hfile
    exact .inl hfile
  | lock | unlock | createStage | growStage | dropStage | rollbackReclaim =>
    obtain ⟨-, rfl⟩ := h
    exact .inl hfile
  | openReclaim | removeOrphan | commitReclaim =>
    obtain ⟨-, -, rfl⟩ := h
    exact .inl hfile
  | unlinkBlob =>
    obtain ⟨-, -, -, -, rfl⟩ := h
    exact .inl hfile
  | publish =>
    obtain ⟨-, -, -, -, -, -, rfl⟩ := h
    exact .inl hfile
  | _ =>
    rcases h.ran_of_touchesDb rfl with ⟨_, hk, -⟩ | ⟨-, hf, -⟩
    · cases hk
    · rw [hf] at hfile
      exact .inl hfile

theorem Change.partsNamed {t : Nat} {site : Site} {k : Kind} {s s' : Server}
    (h : Change t site k s s') (hnamed : s.PartsNamed) (hno : ¬Strands s s') : s'.PartsNamed := by
  intro key bytes hfile
  rcases h.partFile_origin hfile with hold | ⟨id, index, rfl, rfl⟩
  · obtain ⟨part, hpart⟩ := hnamed key bytes hold
    rcases h.part_kept hpart with hkept | ⟨auth, assetId, now, r, rfl, hr, hasset⟩
    · exact hkept
    · obtain ⟨-, a, db, hrun, rfl⟩ := h
      exact absurd (.inl ⟨auth, assetId, now, db, hrun, rfl, key.1, key.2, r, bytes, hr, hasset,
        hold⟩) hno
  · obtain ⟨hnone, -, -, rfl⟩ := h
    by_contra hrow
    have hmissing : s.db.uploadParts.lookup (id, index) = none := by
      by_contra hne
      exact hrow (Option.ne_none_iff_exists'.mp hne)
    exact hno (.inr ⟨id, index, bytes, hnone, hmissing, rfl⟩)

/-- One event of a run. -/
theorem event_partsNamed_iff {config : Config} {p : ServerPool}
    (hp : Sound World.sound.context World.sound.inv (fun _ _ _ _ => True) p) (ev : ServerEvent)
    (hnamed : p.state.PartsNamed) :
    ((machine config).next p ev).state.PartsNamed ↔
      ¬Strands p.state ((machine config).next p ev).state := by
  refine ⟨fun h hs => hs.not_partsNamed h, fun hno => ?_⟩
  rcases World.sound_governs.moves config hp ev trivial with
    hsame | ⟨t, e, c, site, k, -, -, hc, -⟩ | ⟨-, hcrash⟩
  · rw [hsame]
    exact hnamed
  · exact hc.partsNamed hnamed hno
  · rw [hcrash]
    exact hnamed

theorem run_partsNamed_iff {config : Config} {p : ServerPool}
    (hp : Sound World.sound.context World.sound.inv (fun _ _ _ _ => True) p)
    (hnamed : p.state.PartsNamed) (events : List ServerEvent) :
    (∀ n, ((machine config).run p (events.take n)).state.PartsNamed) ↔
      (machine config).Along (fun p ev => ¬Strands p.state ((machine config).next p ev).state)
        p events := by
  apply (machine config).along_iff_prefixes (P := Server.PartsNamed)
    (fun p ev hp => World.sound_governs.next hp trivial)
    (fun p ev hp hnamed => event_partsNamed_iff hp ev hnamed) hp hnamed events

/-- In every state of a run every part file is named by a row, if and only if no step of the run
deletes an asset of which a part is on disk and none stores a part whose row is gone. Where every
part file is named, none is left of an asset that has been deleted. -/
theorem part_files_named_iff (config : Config) {s : Server} (hs : s.Fresh)
    (events : List ServerEvent) :
    ((∀ n, ((machine config).run s.idle (events.take n)).state.PartsNamed) ↔
      (machine config).Along (fun p ev => ¬Strands p.state ((machine config).next p ev).state)
        s.idle events) ∧
    (((machine config).run s.idle events).state.PartsNamed →
      ∀ key bytes, ((machine config).run s.idle events).state.files.parts.lookup key = some bytes →
        ∃ r a, ((machine config).run s.idle events).state.db.uploads.lookup key.1 = some r ∧
          ((machine config).run s.idle events).state.db.assets.lookup r.assetId = some a) := by
  have howned : ((machine config).run s.idle events).state.Owned :=
    Reachable.owned ⟨s, events, hs, rfl⟩
  refine ⟨run_partsNamed_iff (World.Governs.idle ⟨hs.valid, hs.owned⟩) hs.partsNamed events, ?_⟩
  intro hnamed key bytes hfile
  obtain ⟨part, hpart⟩ := hnamed key bytes hfile
  obtain ⟨r, hr⟩ := howned.parts key part hpart
  obtain ⟨a, ha, -⟩ := howned.uploads key.1 r hr
  exact ⟨r, a, hr, ha⟩

end

section

open Sample

theorem part_files_named_iff_sample :
    (∀ n, ((machine config).run server.idle
      ((call 0 (.createUpload phone (manifest "a" "r" [7])) 2).take n)).state.PartsNamed) ↔
      (machine config).Along (fun p ev => ¬Strands p.state ((machine config).next p ev).state)
        server.idle (call 0 (.createUpload phone (manifest "a" "r" [7])) 2) :=
  (part_files_named_iff config server_fresh _).1

/-- A photo is backed up, put in the trash and deleted for good, and a reconciliation has run. -/
def deletedForGood : List ServerEvent :=
  call 0 (.createUpload phone (manifest "a" "r" [7])) 2 ++
    call 1 (.putPart phone 11 0 [.data [7]]) 8 ++ call 2 (.complete 1 11) 30 ++
    call 3 (.trashAsset phone 10) 2 ++ call 4 (.deleteAsset phone 10) 10 ++
    call 5 .reconcileAll 20

/-- The deletion has been answered, and the bytes of the photo are still on disk. -/
theorem deleted_part_left :
    ((machine config).run server.idle deletedForGood).returned 4 =
        some (.deleteAsset phone 10, .ok (.deleted .noContent)) ∧
      ((machine config).run server.idle deletedForGood).returned 5 =
        some (.reconcileAll, .ok (.reconciled ⟨0, 0, 0, 0, 0⟩)) ∧
      ((machine config).run server.idle deletedForGood).state.files.parts.lookup (11, 0) =
        some [7] ∧
      ¬((machine config).run server.idle deletedForGood).state.PartsNamed := by
  have hfile : ((machine config).run server.idle deletedForGood).state.files.parts.lookup
      (11, 0) = some [7] := by decide +kernel
  refine ⟨by decide +kernel, by decide +kernel, hfile, fun hnamed => ?_⟩
  obtain ⟨part, hpart⟩ := hnamed (11, 0) [7] hfile
  have hnone : ((machine config).run server.idle deletedForGood).state.db.uploadParts.lookup
      (11, 0) = none := by decide +kernel
  rw [hnone] at hpart
  cases hpart

end

end MediaBackup
