import MediaBackup.Server.Rules

/-!
# What assembling a stage does

The file operations of the commit stage, from the look at it up to `assemble_commit`: the steps
each takes and how it can fail.
-/

namespace MediaBackup

open Call Relation

variable [Blake3] {W : World} {t : Nat} {id : Uuid} {α : Type}

/-! ## Keys and stages -/

omit [Blake3] in
theorem scopedBlobKey_ok {account : AccountPath} {key key' : ObjectKey}
    (h : scopedBlobKey account key = .ok key') : key' = key := by
  simp only [scopedBlobKey] at h
  split at h
  · cases h
    rfl
  · cases h

omit [Blake3] in
theorem commitStageKey_ok {account : AccountPath} {key key' : ObjectKey}
    (h : commitStageKey account id key = .ok key') :
    key' = key ∧ ∃ nonce, key = .stage account id nonce := by
  unfold commitStageKey at h
  split at h
  · split at h
    · rename_i hsame
      obtain ⟨rfl, rfl⟩ := hsame
      cases h
      exact ⟨rfl, _, rfl⟩
    · cases h
  · cases h

/-- Others can only remove a stage of an upload whose lock is held. -/
theorem Change.stage_of_held {t' : Nat} {site : Site} {k : Kind} {s s' : Server}
    (h : Change t' site k s s') (hne : t' ≠ t) (hl : s.Holds t id) {account : AccountPath}
    {nonce : Uuid} {b : Bytes}
    (hb : s'.files.objects.lookup (.stage account id nonce) = some b) :
    s.files.objects.lookup (.stage account id nonce) = some b := by
  have hnot : ¬s.OwnsStage t' (.stage account id nonce) := by
    rintro ⟨account', id', nonce', heq, hl'⟩
    cases heq
    exact hne (Option.some.inj (hl'.symm.trans hl))
  have hc := object h (.stage account id nonce)
  rw [hb] at hc
  generalize s.files.objects.lookup (.stage account id nonce) = old at hc ⊢
  cases hc with
  | same => rfl
  | created _ owned => exact absurd owned hnot
  | grown _ owned => exact absurd owned hnot
  | published _ _ _ _ object => cases object

/-- Whatever stands in the stage satisfies `R`. -/
def StageIs (staged : ObjectKey) (R : Bytes → Prop) (s : Server) : Prop :=
  ∀ b, s.files.objects.lookup staged = some b → R b

theorem stageIs_kept {account : AccountPath} {nonce : Uuid} {P : Upload → Prop}
    (R : Bytes → Prop) : W.Kept t fun s =>
      Owns W t id P s ∧ StageIs (.stage account id nonce) R s := by
  rintro site hsite s s' hi hi' hr ⟨ho, hst⟩
  refine ⟨Owns.kept id P site hsite s s' hi hi' hr ho, fun b hb => ?_⟩
  obtain ⟨t', hne, site', k, hc, -⟩ := hr
  exact hst b (hc.stage_of_held hne ho.holds hb)

theorem standing_kept (staged : ObjectKey) : W.Kept t (Standing W t staged) :=
  World.kept_since _ fun s₀ => (s₀.files.objects.lookup staged).isSome = true

/-- Received parts stay as they are. -/
theorem parts_kept (key : Uuid × Nat) (bytes : Bytes) :
    W.Kept t fun s => s.files.parts.lookup key = some bytes := by
  apply World.kept_of_change
  intro t' site k s s' hne hc h
  exact hc.partFile h

omit [Blake3] in
theorem Owns.writer {P : Upload → Prop} {s : Server} (h : Owns W t id P s) (hlive : W.live t) :
    s.writer ≠ some t := (h.rest hlive).2

omit [Blake3] in
theorem owns_store {P R : Upload → Prop} {s : Server} (h : Owns W t id P s) {db : Database}
    (hrow : ∀ r, db.uploads.lookup id = some r → R r) : Owns W t id R (s.store db) :=
  ⟨⟨h.holds, h.rest⟩, h.known.trans_le (Nat.le_add_right _ _), hrow⟩

/-! ## Looking at objects and stages -/

theorem inspectObject_spec {site : Site} {P : Server → Prop} (hP : W.KeptAt t site P)
    (account : AccountPath) (key : ObjectKey) (size : Nat) (digest : HexString) :
    Spec (W.context t) P (inspectObject site account key size digest)
      (fun found s => W.inv s ∧ P s ∧ scopedBlobKey account key = .ok key ∧
        existingFileMatches s.files key size digest = found)
      (fun _ s => P s ∧ (W.Faulty ∨ scopedBlobKey account key ≠ .ok key)) := by
  unfold inspectObject
  split
  · rename_i error herr
    exact Spec.throw fun s hp => ⟨hp, .inr (by simp [herr])⟩
  · rename_i key' hkey
    obtain rfl := scopedBlobKey_ok hkey
    exact (look_spec hP).weaken (fun _ h => h) (fun found s h => ⟨h.1, h.2.1, hkey, h.2.2.symm⟩)
      fun _ s h => ⟨h.2.1, .inl h.2.2.1⟩

theorem inspectCommitStage_spec {P : Server → Prop} (hP : W.KeptAt t .other P)
    (account : AccountPath) (uploadId : Uuid) (staged : ObjectKey) (size : Nat)
    (digest : HexString) :
    Spec (W.context t) P (inspectCommitStage account uploadId staged size digest)
      (fun found s => W.inv s ∧ P s ∧ commitStageKey account uploadId staged = .ok staged ∧
        existingFileMatches s.files staged size digest = found)
      (fun e s => P s ∧ e.status ≠ .conflict ∧
        (W.Faulty ∨ commitStageKey account uploadId staged ≠ .ok staged)) := by
  unfold inspectCommitStage
  split
  · rename_i error herr
    refine Spec.throw fun s hp => ⟨hp, ?_, .inr (by simp [herr])⟩
    unfold commitStageKey at herr
    split at herr
    · split at herr
      · cases herr
      · cases herr
        decide
    · cases herr
      decide
  · rename_i key' hkey
    obtain rfl := (commitStageKey_ok hkey).1
    exact (look_spec hP).weaken (fun _ h => h) (fun found s h => ⟨h.1, h.2.1, hkey, h.2.2.symm⟩)
      fun e s h => ⟨h.2.1, by rw [h.2.2.2]; decide, .inl h.2.2.1⟩

/-! ## Assembling the stage -/

omit [Blake3] in
theorem owns_withObjects {P : Upload → Prop} {s : Server} (h : Owns W t id P s)
    (f : Table ObjectKey Bytes → Table ObjectKey Bytes) : Owns W t id P (s.withObjects f) :=
  ⟨⟨h.holds, h.rest⟩, h.known, h.row⟩

section Stage

variable {account : AccountPath} {nonce : Uuid} {P : Upload → Prop}

theorem removeStage_spec {F : Server → Prop} (hF : W.KeptAt t .other F)
    (howns : ∀ s, F s → s.Holds t id)
    (hclosed : ∀ s, F s → F (s.withObjects fun o => o.erase (.stage account id nonce))) :
    Spec (W.context t) F (removeObject .other (.stage account id nonce))
      (fun _ s => F s ∧ s.files.objects.lookup (.stage account id nonce) = none)
      (fun e s => F s ∧ W.Faulty ∧ e = .storage) := by
  refine (rooted_spec hF ?_).weaken (fun _ h => h) ?_ ?_
  · rintro s a files hi hp - hop
    cases hop
    exact ⟨.dropStage (.stage account id nonce), ⟨⟨account, id, nonce, rfl, howns s hp⟩, rfl⟩,
      trivial⟩
  · rintro a s' ⟨s, files, hi, hp, hop, rfl⟩
    cases hop
    exact ⟨hclosed s hp, by simp [Files.removeFile]⟩
  · rintro e s' (⟨hi, hp, hf | hop⟩ | ⟨hf, a, s, files, hi, hp, hop, rfl⟩)
    · exact ⟨hp, hf⟩
    · cases hop
    · cases hop
      exact ⟨hclosed s hp, hf⟩

theorem discardStage_spec {F : Server → Prop} {E : AppError → Server → Prop} (hF : W.Kept t F)
    (howns : ∀ s, F s → s.Holds t id)
    (hclosed : ∀ s, F s → F (s.withObjects fun o => o.erase (.stage account id nonce))) :
    Spec (W.context t) F (discardStage (.stage account id nonce)) (fun _ s => F s) E := by
  have once := Spec.attempt (E := E) (R := fun _ s => F s) ((removeStage_spec (W := W) (hF.at .other)
    howns hclosed).weaken (fun _ h => h) (fun _ _ h => h.1) fun _ _ h => h.1)
  refine Spec.bind once fun result => ?_
  cases result with
  | ok a => exact Spec.pure fun s h => h
  | error e => exact Spec.bind once fun _ => Spec.pure fun s h => h

/-- The stage has been created by this commit, and whatever is left of it satisfies `R`. -/
structure Staged (W : World) (t : Nat) (id : Uuid) (P : Upload → Prop) (staged : ObjectKey)
    (R : Bytes → Prop) (s : Server) : Prop where
  owns : Owns W t id P s
  standing : Standing W t staged s
  content : StageIs staged R s

theorem Staged.kept (R : Bytes → Prop) :
    W.Kept t (Staged W t id P (.stage account id nonce) R) := by
  have h : W.Kept t fun s => Standing W t (.stage account id nonce) s ∧
      Owns W t id P s ∧ StageIs (.stage account id nonce) R s :=
    World.Kept.and (standing_kept _) (stageIs_kept R)
  intro site hsite s s' hi hi' hr hs
  obtain ⟨hst, ho, hc⟩ := h site hsite s s' hi hi' hr ⟨hs.standing, hs.owns, hs.content⟩
  exact ⟨ho, hst, hc⟩

/-- Why assembling a stage fails without a conflict. -/
def Obstructed (W : World) (t : Nat) (staged : ObjectKey) (s : Server) : Prop :=
  W.Faulty ∨ ∃ s₀ s₁, W.inv s₁ ∧ s₀.files.objects.lookup staged = none ∧ W.Later t s₀ s₁ ∧
    s₁.files.objects.lookup staged ≠ none ∧ W.Later t s₁ s

/-- The file operation of `createNew`. -/
def createNewIn (staged : ObjectKey) (files : Files) : Except AppError (Unit × Files) :=
  match files.objects.lookup staged with
  | some _ => .error .storage
  | none => .ok ((), { files with objects := files.objects.insert staged [] })

theorem createNew_spec :
    Spec (W.context t)
      (fun s => Owns W t id P s ∧
        ∃ s₀, s₀.files.objects.lookup (.stage account id nonce) = none ∧ W.Later t s₀ s)
      (createNew (.stage account id nonce))
      (fun _ s => Staged W t id P (.stage account id nonce) (· = []) s)
      (fun e s => Owns W t id P s ∧ e.status ≠ .conflict ∧
        Obstructed W t (.stage account id nonce) s) := by
  have created : ∀ a s', Operated W (fun s => Owns W t id P s ∧
      ∃ s₀, s₀.files.objects.lookup (.stage account id nonce) = none ∧ W.Later t s₀ s)
      (createNewIn (.stage account id nonce)) a s' →
      Staged W t id P (.stage account id nonce) (· = []) s' := by
    rintro a s' ⟨s, files, hi, ⟨ho, -⟩, hop, rfl⟩
    unfold createNewIn at hop
    split at hop
    · cases hop
    · cases hop
      refine ⟨owns_withObjects ho fun o => o.insert (.stage account id nonce) [],
        ⟨_, by simp, .refl⟩, fun b hb => ?_⟩
      simpa using hb.symm
  refine (rooted_spec (World.KeptAt.and ((Owns.kept id P).at .other)
    ((World.kept_seen _).at .other)) ?_).weaken (fun _ h => h) created ?_
  · rintro s a files hi ⟨ho, -⟩ - hop
    split at hop
    · cases hop
    · cases hop
      exact ⟨.createStage (.stage account id nonce), ⟨⟨account, id, nonce, rfl, ho.holds⟩, rfl⟩,
        trivial⟩
  · rintro e s' (⟨hi, ⟨ho, s₀, hnone, hlater⟩, ⟨hf, rfl⟩ | hop⟩ | ⟨⟨hf, rfl⟩, a, hs⟩)
    · exact ⟨ho, by decide, .inl hf⟩
    · split at hop
      · rename_i b hb
        cases hop
        exact ⟨ho, by decide, .inr ⟨s₀, s', hi, hnone, hlater, by simp [hb], .refl⟩⟩
      · cases hop
    · exact ⟨(created a s' hs).owns, by decide, .inl hf⟩

theorem writeAll_spec {F : Server → Prop} (hF : W.Kept t F)
    (hclosed : ∀ s f, F s → F (s.withObjects f)) (bytes written : Bytes) :
    Spec (W.context t) (fun s => Staged W t id P (.stage account id nonce) (· = written) s ∧ F s)
      (writeAll (.stage account id nonce) bytes)
      (fun _ s => Staged W t id P (.stage account id nonce) (· = written ++ bytes) s ∧ F s)
      (fun e s => Owns W t id P s ∧ W.Faulty ∧ e = .storage) := by
  induction bytes generalizing written with
  | nil => exact Spec.pure fun s h => by simpa using h
  | cons byte rest ih =>
    have grown : ∀ a s', Operated W (fun s =>
        Staged W t id P (.stage account id nonce) (· = written) s ∧ F s)
        (fun files => .ok ((), { files with
          objects := files.objects.modify (.stage account id nonce) (· ++ [byte]) })) a s' →
        Staged W t id P (.stage account id nonce) (· = written ++ [byte]) s' ∧ F s' := by
      rintro a s' ⟨s, files, hi, ⟨hst, hf⟩, hop, rfl⟩
      cases hop
      obtain ⟨s₀, hsome, hsince⟩ := hst.standing
      refine ⟨⟨owns_withObjects hst.owns fun o => o.modify (.stage account id nonce) (· ++ [byte]),
        ⟨s₀, hsome, hsince.tail (.inr ⟨.other, .growStage (.stage account id nonce) byte, trivial,
          ⟨account, id, nonce, rfl, hst.owns.holds⟩, rfl⟩)⟩, fun b hb => ?_⟩,
        hclosed s (fun o => o.modify (.stage account id nonce) (· ++ [byte])) hf⟩
      simp only [Table.lookup_modify, if_true, Option.map_eq_some_iff] at hb
      obtain ⟨b₀, hb₀, rfl⟩ := hb
      rw [hst.content b₀ hb₀]
    refine Spec.bind (Q := fun _ s => Staged W t id P (.stage account id nonce)
      (· = written ++ [byte]) s ∧ F s)
      ((rooted_spec ((World.Kept.and (Staged.kept _) hF).at .other) ?_).weaken
        (fun _ h => h) grown ?_) fun _ => ?_
    · rintro s a files hi ⟨hst, -⟩ - hop
      cases hop
      exact ⟨.growStage (.stage account id nonce) byte,
        ⟨⟨account, id, nonce, rfl, hst.owns.holds⟩, rfl⟩, trivial⟩
    · rintro e s' (⟨hi, hst, hf | hop⟩ | ⟨hf, a, hs⟩)
      · exact ⟨hst.1.owns, hf⟩
      · cases hop
      · exact ⟨(grown a s' hs).1.owns, hf⟩
    · simpa using ih (written ++ [byte])

/-- The parts on disk are these contents, each as its specification says. -/
def ReadAs (id : Uuid) (parts : List UploadPartSpec) (contents : List Bytes) (s : Server) : Prop :=
  List.Forall₂ (fun part bytes => s.files.parts.lookup (id, part.index) = some bytes ∧
    contentMatches bytes part.size part.blake3 = true) parts contents

/-- At some moment of the commit a part was missing, or not what its specification says. -/
def Unreadable (W : World) (t : Nat) (id : Uuid) (P : Upload → Prop)
    (parts : List UploadPartSpec) : Prop :=
  ∃ s₀ part, W.inv s₀ ∧ Owns W t id P s₀ ∧ part ∈ parts ∧
    ∀ bytes, s₀.files.parts.lookup (id, part.index) = some bytes →
      contentMatches bytes part.size part.blake3 = false

theorem ReadAs.kept (parts : List UploadPartSpec) (contents : List Bytes) :
    W.Kept t (ReadAs id parts contents) := by
  apply World.kept_of_change
  intro t' site k s s' hne hc h
  exact h.imp fun part bytes hpart => ⟨hc.partFile hpart.1, hpart.2⟩

theorem openPart_spec {F : Server → Prop} (hF : W.Kept t F)
    (howns : ∀ s, F s → Owns W t id P s) (part : UploadPartSpec) {parts : List UploadPartSpec} (hmem : part ∈ parts) :
    Spec (W.context t) F (openPart id part.index)
      (fun bytes s => W.inv s ∧ F s ∧ s.files.parts.lookup (id, part.index) = some bytes)
      (fun e s => F s ∧ (e.status = .conflict → Unreadable W t id P parts) ∧
        (e.status ≠ .conflict → W.Faulty)) := by
  refine (rooted_spec (hF.at .other) ?_).weaken (fun _ h => h) ?_ ?_
  · rintro s a files - - - hop
    split at hop
    · cases hop
    · cases hop
      exact ⟨.idle, rfl, trivial⟩
  · rintro bytes s' ⟨s, files, hi, hf, hop, rfl⟩
    beta_reduce at hop
    split at hop
    · cases hop
    · rename_i b hb
      cases hop
      exact ⟨hi, hf, hb⟩
  · rintro e s' (⟨hi, hf, ⟨hfault, rfl⟩ | hop⟩ | ⟨⟨hfault, rfl⟩, a, s, files, hi, hf, hop, rfl⟩)
    · exact ⟨hf, fun h => absurd h (by decide), fun _ => hfault⟩
    · split at hop
      · rename_i hnone
        cases hop
        exact ⟨hf, fun _ => ⟨s', part, hi, howns s' hf, hmem, by simp [hnone]⟩,
          fun h => absurd rfl h⟩
      · cases hop
    · beta_reduce at hop
      split at hop
      · cases hop
      · cases hop
        exact ⟨hf, fun h => absurd h (by decide), fun _ => hfault⟩

/-- The loop over the parts: `done` have been read as `contents`, which is what stands in the
stage. -/
theorem assembleParts_spec (parts done : List UploadPartSpec) (contents : List Bytes) :
    Spec (W.context t)
      (fun s => Staged W t id P (.stage account id nonce) (· = contents.flatten) s ∧
        ReadAs id done contents s)
      (assembleParts id (.stage account id nonce) parts contents.flatten)
      (fun content s => ∃ all, content = all.flatten ∧
        Staged W t id P (.stage account id nonce) (· = content) s ∧
        ReadAs id (done ++ parts) all s)
      (fun e s => Owns W t id P s ∧
        (e.status = .conflict → Unreadable W t id P (done ++ parts)) ∧
        (e.status ≠ .conflict → W.Faulty)) := by
  induction parts generalizing done contents with
  | nil => exact Spec.pure fun s h => ⟨contents, rfl, h.1, by simpa using h.2⟩
  | cons part rest ih =>
    have hmem : part ∈ done ++ part :: rest := by simp
    refine Spec.bind ((openPart_spec (World.Kept.and (Staged.kept _) (ReadAs.kept done contents))
      (fun s h => h.1.owns) part hmem).weaken (fun _ h => h) (fun _ _ h => h) fun e s h => ⟨h.1.1.owns, h.2⟩)
      fun bytes => ?_
    have hread : W.Kept t fun s => (∃ s₀, W.inv s₀ ∧ Owns W t id P s₀ ∧
        s₀.files.parts.lookup (id, part.index) = some bytes) ∧ ReadAs id done contents s ∧
        s.files.parts.lookup (id, part.index) = some bytes :=
      World.Kept.and (World.Kept.const _) (World.Kept.and (ReadAs.kept done contents)
        (parts_kept _ _))
    refine Spec.bind ((writeAll_spec hread (fun s f h => h) bytes contents.flatten).weaken
      (fun s h => ⟨h.2.1.1, ⟨s, h.1, h.2.1.1.owns, h.2.2⟩, h.2.1.2, h.2.2⟩) (fun _ _ h => h)
      fun e s ⟨ho, hf, he⟩ => ⟨ho, fun h => absurd h (by rw [he]; decide), fun _ => hf⟩)
      fun _ => ?_
    refine Spec.bind (ensure_spec fun hbad s h => ?_) fun _ => ?_
    · obtain ⟨hst, ⟨s₀, hi, ho, hb⟩, -⟩ := h
      exact ⟨hst.owns, fun _ => ⟨s₀, part, hi, ho, hmem, fun b' hb' => by
        rw [hb] at hb'
        cases hb'
        exact hbad⟩, fun h => absurd rfl h⟩
    · have hnext := ih (done ++ [part]) (contents ++ [bytes])
      simp only [List.append_assoc, List.singleton_append, List.flatten_append,
        List.flatten_singleton] at hnext
      refine hnext.weaken (fun s h => ?_) (fun _ _ h => h) fun _ _ h => h
      obtain ⟨⟨hst, -, hdone, hpart⟩, hgood⟩ := h
      exact ⟨hst, List.rel_append hdone (.cons ⟨hpart, hgood⟩ .nil)⟩

/-- Why assembling a stage fails with a conflict. -/
def Misassembled (W : World) (t : Nat) (id : Uuid) (P : Upload → Prop)
    (parts : List UploadPartSpec) (size : Nat) (digest : HexString) (s : Server) : Prop :=
  Unreadable W t id P parts ∨
    ∃ contents, ReadAs id parts contents s ∧ contentMatches contents.flatten size digest = false

theorem Misassembled.kept (parts : List UploadPartSpec) (size : Nat) (digest : HexString) :
    W.Kept t (Misassembled W t id P parts size digest) := by
  rintro site hsite s s' hi hi' hr (h | ⟨contents, hread, hbad⟩)
  · exact .inl h
  · exact .inr ⟨contents, ReadAs.kept parts contents site hsite s s' hi hi' hr hread, hbad⟩

theorem writeStage_spec (parts : List UploadPartSpec) (size : Nat) (digest : HexString) :
    Spec (W.context t) (Staged W t id P (.stage account id nonce) (· = []))
      (writeStage id parts (.stage account id nonce) size digest)
      (fun _ s => Staged W t id P (.stage account id nonce)
        (contentMatches · size digest = true) s)
      (fun e s => Owns W t id P s ∧
        (e.status = .conflict → Misassembled W t id P parts size digest s) ∧
        (e.status ≠ .conflict → W.Faulty)) := by
  refine Spec.bind ((assembleParts_spec parts [] []).weaken (fun s h => ⟨h, .nil⟩)
    (fun _ _ h => h) fun e s h => ⟨h.1, fun hc => .inl (h.2.1 hc), h.2.2⟩) fun content => ?_
  refine Spec.bind (ensure_spec fun hbad s h => ?_) fun _ => ?_
  · obtain ⟨all, rfl, hst, hread⟩ := h
    exact ⟨hst.owns, fun _ => .inr ⟨all, hread, hbad⟩, fun h => absurd rfl h⟩
  · refine (scratch_spec (Staged.kept _)).weaken (fun s h => ?_) (fun _ _ h => h.2)
      fun e s h => ⟨h.2.1.owns, fun hc => ?_, fun _ => h.2.2.1⟩
    · obtain ⟨⟨all, -, hst, -⟩, hgood⟩ := h
      exact ⟨hst.owns, hst.standing, fun b hb => by rw [hst.content b hb]; exact hgood⟩
    · rw [h.2.2.2] at hc
      exact absurd hc (by decide)

theorem existingFileMatches_missing {files : Files} {key : ObjectKey} {size : Nat}
    {digest : HexString} (h : existingFileMatches files key size digest = .missing) :
    files.objects.lookup key = none := by
  unfold existingFileMatches at h
  split at h
  · assumption
  · split at h <;> cases h

theorem existingFileMatches_isMatch {files : Files} {key : ObjectKey} {size : Nat}
    {digest : HexString} (h : existingFileMatches files key size digest = .isMatch) :
    ∃ b, files.objects.lookup key = some b ∧ contentMatches b size digest = true := by
  unfold existingFileMatches at h
  split at h
  · cases h
  · rename_i b hb
    split at h
    · rename_i hmatch
      exact ⟨b, hb, hmatch⟩
    · cases h

/-- The stage is assembled anew: whatever stood there is gone. -/
theorem reassemble_spec (parts : List UploadPartSpec) (size : Nat) (digest : HexString) :
    Spec (W.context t)
      (fun s => Owns W t id P s ∧
        ∃ s₀, s₀.files.objects.lookup (.stage account id nonce) = none ∧ W.Later t s₀ s)
      (do
        createNew (.stage account id nonce)
        match ← Prog.attempt (writeStage id parts (.stage account id nonce) size digest) with
        | .error error => do
            discardStage (.stage account id nonce)
            throw error
        | .ok () =>
            match ← Prog.attempt scratch with
            | .ok () => pure ()
            | .error error => do
                let _ ← Prog.attempt (removeObject .other (.stage account id nonce))
                throw error)
      (fun _ s => Staged W t id P (.stage account id nonce)
        (contentMatches · size digest = true) s)
      (fun e s => Owns W t id P s ∧
        (e.status = .conflict → Misassembled W t id P parts size digest s) ∧
        (e.status ≠ .conflict → Obstructed W t (.stage account id nonce) s)) := by
  refine Spec.bind (createNew_spec.weaken (fun _ h => h) (fun _ _ h => h)
    fun e s h => ⟨h.1, fun hc => absurd hc h.2.1, fun _ => h.2.2⟩) fun _ => ?_
  refine Spec.bind (Spec.attempt (R := fun result s => match result with
    | .ok _ => Staged W t id P (.stage account id nonce) (contentMatches · size digest = true) s
    | .error e => Owns W t id P s ∧
        (e.status = .conflict → Misassembled W t id P parts size digest s) ∧
        (e.status ≠ .conflict → W.Faulty)) (writeStage_spec parts size digest)) fun result => ?_
  cases result with
  | error e =>
    have hF : W.Kept t fun s => Owns W t id P s ∧
        (e.status = .conflict → Misassembled W t id P parts size digest s) ∧
        (e.status ≠ .conflict → W.Faulty) := by
      rintro site hsite s s' hi hi' hr ⟨ho, hc, hn⟩
      exact ⟨Owns.kept id P site hsite s s' hi hi' hr ho, fun h =>
        Misassembled.kept parts size digest site hsite s s' hi hi' hr (hc h), hn⟩
    refine Spec.bind (discardStage_spec hF (fun s h => h.1.holds)
      fun s h => ⟨owns_withObjects h.1 _, h.2⟩) fun _ => Spec.throw fun s h => ?_
    exact ⟨h.1, h.2.1, fun hn => .inl (h.2.2 hn)⟩
  | ok _ =>
    refine Spec.bind (Spec.attempt (R := fun result s => match result with
      | .ok _ => Staged W t id P (.stage account id nonce) (contentMatches · size digest = true) s
      | .error e => Owns W t id P s ∧ W.Faulty ∧ e = .storage)
      ((scratch_spec (Staged.kept _)).weaken (fun _ h => h) (fun _ _ h => h.2)
        fun e s h => ⟨h.2.1.owns, h.2.2⟩)) fun result => ?_
    cases result with
    | ok _ => exact Spec.pure fun s h => h
    | error e =>
      have hF : W.Kept t fun s => Owns W t id P s ∧ W.Faulty ∧ e = .storage :=
        World.Kept.and (Owns.kept id P) (World.Kept.const _)
      refine Spec.bind (Spec.attempt (R := fun _ s => Owns W t id P s ∧ W.Faulty ∧ e = .storage)
        ((removeStage_spec (hF.at .other) (fun s h => h.1.holds)
          fun s h => ⟨owns_withObjects h.1 _, h.2⟩).weaken (fun _ h => h) (fun _ _ h => h.1)
          fun _ _ h => h.1)) fun _ => Spec.throw fun s h => ?_
      exact ⟨h.1, fun hc => absurd hc (by rw [h.2.2]; decide), fun _ => .inl h.2.1⟩

end Stage

/-- `assemble_commit`: the stage is complete, or it fails for a reason. -/
theorem assembleCommit_spec {P : Upload → Prop} (account : AccountPath)
    (parts : List UploadPartSpec) (staged : ObjectKey) (size : Nat) (digest : HexString) :
    Spec (W.context t) (Owns W t id P) (assembleCommit account id parts staged size digest)
      (fun _ s => commitStageKey account id staged = .ok staged ∧
        Staged W t id P staged (contentMatches · size digest = true) s)
      (fun e s => Owns W t id P s ∧
        (e.status = .conflict → Misassembled W t id P parts size digest s) ∧
        (e.status ≠ .conflict → commitStageKey account id staged ≠ .ok staged ∨
          Obstructed W t staged s)) := by
  refine Spec.bind ((inspectCommitStage_spec ((Owns.kept id P).at .other) account id staged size
    digest).weaken (fun _ h => h) (fun _ _ h => h)
    fun e s h => ⟨h.1, fun hc => absurd hc h.2.1, fun _ => h.2.2.symm.imp_right .inl⟩) fun found => ?_
  cases found with
  | isMatch =>
    refine Spec.pure fun s h => ?_
    obtain ⟨-, ho, hkey, hfound⟩ := h
    obtain ⟨b, hb, hmatch⟩ := existingFileMatches_isMatch hfound
    refine ⟨hkey, ho, ⟨s, by simp [hb], .refl⟩, fun b' hb' => ?_⟩
    rw [hb] at hb'
    cases hb'
    exact hmatch
  | missing =>
    intro s h
    obtain ⟨-, ho, hkey, hfound⟩ := h
    obtain ⟨-, nonce, rfl⟩ := commitStageKey_ok hkey
    exact (reassemble_spec parts size digest).weaken (fun _ h => h) (fun _ _ h => ⟨hkey, h⟩)
      (fun e s h => ⟨h.1, h.2.1, fun hn => .inr (h.2.2 hn)⟩) s
      ⟨ho, s, existingFileMatches_missing hfound, .refl⟩
  | mismatch =>
    intro s h
    obtain ⟨-, ho, hkey, -⟩ := h
    obtain ⟨-, nonce, rfl⟩ := commitStageKey_ok hkey
    refine Spec.bind (P := Owns W t id P) ((removeStage_spec ((Owns.kept id P).at .other)
      (fun s h => h.holds) fun s h => owns_withObjects h _).weaken (fun _ h => h) (fun _ _ h => h)
      fun e s h => ⟨h.1, fun hc => absurd hc (by rw [h.2.2]; decide),
        fun _ => .inr (.inl h.2.1)⟩) (fun _ => ?_) s ho
    exact (reassemble_spec parts size digest).weaken (fun s h => ⟨h.1, s, h.2, .refl⟩)
      (fun _ _ h => ⟨hkey, h⟩) fun e s h => ⟨h.1, h.2.1, fun hn => .inr (h.2.2 hn)⟩

end MediaBackup
