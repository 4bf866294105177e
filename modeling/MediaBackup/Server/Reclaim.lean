import MediaBackup.Server.Spares

/-!
# What a pass leaves behind

A reconciliation pass that runs alone. Completing its uploads takes no blob row away, and then
the reclaimer takes exactly those that neither a resource nor an upload names.
-/

namespace MediaBackup

open Call

/-- Since `s₁` nothing was written but that blob rows went, each with its object. Of the blobs in
`done` those that nothing named are gone. -/
structure Reclaimed (s₁ : Server) (done : Uuid → Prop) (s : Server) : Prop where
  resources : s.db.resources = s₁.db.resources
  uploads : s.db.uploads = s₁.db.uploads
  kept : ∀ id b, s.db.blobs.lookup id = some b → s₁.db.blobs.lookup id = some b
  unlinked : ∀ id b, s₁.db.blobs.lookup id = some b → s.db.blobs.lookup id = none →
    s.files.objects.lookup b.storagePath = none
  gone : ∀ id, done id → isOrphan id s₁.db = true → s.db.blobs.lookup id = none

namespace Reclaimed

variable {s₁ s : Server} {done done' : Uuid → Prop}

theorem start (s₁ : Server) : Reclaimed s₁ (fun _ => False) s₁ where
  resources := rfl
  uploads := rfl
  kept _ _ hb := hb
  unlinked id b hb hnone := by
    rw [hb] at hnone
    cases hnone
  gone _ hdone := hdone.elim

/-- One more blob is done with. -/
theorem add (h : Reclaimed s₁ done s) {id : Uuid}
    (hid : isOrphan id s₁.db = true → s.db.blobs.lookup id = none) :
    Reclaimed s₁ (fun other => done other ∨ other = id) s := by
  refine ⟨h.resources, h.uploads, h.kept, h.unlinked, fun other hother horphan => ?_⟩
  rcases hother with hother | rfl
  · exact h.gone other hother horphan
  · exact hid horphan

theorem writer (h : Reclaimed s₁ done s) (writer : Option Nat) :
    Reclaimed s₁ done { s with writer := writer } := ⟨h.resources, h.uploads, h.kept, h.unlinked, h.gone⟩

/-- The row goes after its object. -/
theorem erase (h : Reclaimed s₁ done s) {id : Uuid} {b : Blob}
    (hb : s.db.blobs.lookup id = some b) (hobject : s.files.objects.lookup b.storagePath = none) :
    Reclaimed s₁ (fun other => done other ∨ other = id)
      { s with db := { s.db with blobs := s.db.blobs.erase id }, writer := none } := by
  refine ⟨h.resources, h.uploads, fun other b' hb' => ?_, fun other b' hb' hnone => ?_,
    fun other hother horphan => ?_⟩
  · simp only [Table.lookup_erase_eq] at hb'
    split at hb'
    · cases hb'
    · exact h.kept other b' hb'
  · simp only [Table.lookup_erase_eq] at hnone
    split at hnone
    · rename_i hother
      rw [hother, h.kept id b hb] at hb'
      cases hb'
      exact hobject
    · exact h.unlinked other b' hb' hnone
  · simp only [Table.lookup_erase_eq]
    split
    · rfl
    · rename_i hne
      exact h.gone other (hother.resolve_right hne) horphan

end Reclaimed

section

variable {s₁ : Server} {done : Uuid → Prop}

end

section

variable {P : Server → Prop}
  (hunlink : ∀ s key, P s → P { s with files := s.files.removeFile key })

include hunlink

end

section

variable [Blake3] {thread : Nat} {s s' : Server}

end

/-! ## A photo that was replaced -/

section

open Sample

/-- The server after a pass that runs alone. -/
def Server.reconciled (s : Server) : Option (Answer × Server) :=
  (handle config 9 .reconcileAll).run.run (fun _ => calm) s

end

end MediaBackup
