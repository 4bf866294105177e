import MediaBackup.Server.CommitFrame

/-!
# What completing an upload spares

No step of it takes a blob row away or touches the write lock, which are the reclaimer's.
-/

namespace MediaBackup

open Call

/-- No blob row goes or changes. -/
def BlobsKept (db db' : Database) : Prop :=
  ∀ id b, db.blobs.lookup id = some b → db'.blobs.lookup id = some b

theorem BlobsKept.of_eq {db db' : Database} (h : db'.blobs = db.blobs) : BlobsKept db db' := by
  intro id b hb
  rw [h]
  exact hb

theorem insertBlob_blobsKept (now : Nat) (ready : ReadyCommit) (db : Database) :
    BlobsKept db (insertBlob now ready db) := by
  intro id b hb
  rcases insertBlob_eq now ready db with heq | ⟨hnone, -, b', heq, -⟩
  · rw [heq]
    exact hb
  · rw [heq]
    simp only [Database.setBlob, Table.lookup_insert_eq]
    split
    · rename_i hid
      rw [hid, hnone] at hb
      cases hb
    · exact hb

/-- The step takes no blob row away and leaves the write lock alone. -/
structure Server.Spares (s s' : Server) : Prop where
  writer : s'.writer = s.writer
  blobs : BlobsKept s.db s'.db

theorem Server.Spares.of_db {s s' : Server} (hwriter : s'.writer = s.writer)
    (hdb : s'.db = s.db) : s.Spares s' :=
  ⟨hwriter, .of_eq (by rw [hdb])⟩

theorem spares_frame : CommitFrame Server.Spares where
  files s files := .of_db rfl rfl
  locks s locks := .of_db rfl rfl
  unknown s id reason now := ⟨rfl, .of_eq rfl⟩
  failed s id reason now := ⟨rfl, .of_eq rfl⟩
  started s record now db hok := by
    obtain ⟨u, account, policy, start, -, -, -, -, -, -, rfl⟩ := startCommit_ok hok
    exact ⟨rfl, .of_eq rfl⟩
  finalized s id now db hok := by
    obtain ⟨u, -, -, rfl⟩ := finalizeUpload_ok hok
    exact ⟨rfl, .of_eq rfl⟩
  committed s ready approved now result db hok := by
    refine ⟨rfl, ?_⟩
    rcases commitMetadataIn_ok hok with ⟨-, rfl, -⟩ | ⟨actual, -, rfl, -⟩ |
      ⟨actual, outcome, -, -, -, -, hsettle⟩
    · exact .of_eq rfl
    · exact .of_eq rfl
    · obtain ⟨u, row, -, -, -, -, -, changes, events, rfl, -⟩ := settleUpload_ok hsettle
      exact insertBlob_blobsKept now ready s.db

section

variable [Blake3] {thread : Nat}

theorem completeInner_spares {uploadId : Uuid} {required : Option Uuid} :
    Each Server.Spares (completeInner thread uploadId required) := spares_frame.completeInner_each

end

end MediaBackup
