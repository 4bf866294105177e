import MediaBackup.Framework.Disk
import MediaBackup.Agent.Splitting
import MediaBackup.Server.System

/-!
# Restoring several files at once

`restore_file` down to its file operations, and any number of calls of it whose operations happen
in any order. Every call writes to a temporary file whose name is its output's with another
extension.
-/

namespace MediaBackup

namespace Agent

namespace Restore

/-- A path is a directory and what `file_name` finds in it, which is empty for `/` and `..`. -/
structure FilePath (δ : Type) where
  directory : δ
  name : List Char
  deriving DecidableEq

/-- `Path::file_stem`: up to the last dot, unless nothing is before it. -/
def fileStem (name : List Char) : List Char :=
  let before := (name.rdropWhile (· ≠ '.')).dropLast
  if before = [] then name else before

def temporaryExtension : List Char := ".media-backup.tmp".toList

structure RestoreCall (δ : Type) where
  downloaded : FilePath δ
  output : FilePath δ
  expectedSize : Nat
  expectedBlake3 : HexString

/-- `output.with_extension("media-backup.tmp")`. -/
def RestoreCall.temporary {δ : Type} (call : RestoreCall δ) : FilePath δ :=
  if call.output.name = [] then call.output
  else ⟨call.output.directory, fileStem call.output.name ++ temporaryExtension⟩

/-- What the closure works with: its two files with their positions, the bytes the hasher has
seen, and how many they are. -/
structure Copying where
  input : Nat
  readAt : Nat
  restored : Nat
  writeAt : Nat
  hasher : Bytes
  size : Nat
  deriving DecidableEq

/-- How far a call has got. -/
inductive Stage
  | start
  | opened (input : Nat)
  | reading (copying : Copying)
  | writing (copying : Copying) (rest : Bytes)
  | syncing (copying : Copying)
  | publishing (copying : Copying)
  | removing (error : ContentError)
  | returned (result : Except ContentError Unit)
  deriving DecidableEq

/-- What the system makes of an operation: it fails, or it is done for so many bytes at most. -/
inductive Outcome
  | done (count : Nat)
  | fault
  deriving DecidableEq

def bufferSize : Nat := 1024 * 1024

section

variable [Blake3] {δ : Type} [DecidableEq δ]

abbrev FileSystem (δ : Type) := Disk (FilePath δ) UInt8

/-- One file operation of a call. A path without a file name cannot be created or removed. -/
def RestoreCall.advance (call : RestoreCall δ) (disk : FileSystem δ) :
    Stage → Outcome → FileSystem δ × Stage
  | .start, .fault => (disk, .returned (.error .io))
  | .start, .done _ =>
      match disk.entries call.downloaded with
      | none => (disk, .returned (.error .io))
      | some file => (disk, .opened file)
  | .opened _, .fault => (disk, .removing .io)
  | .opened input, .done _ =>
      if call.output.name = [] then (disk, .removing .io)
      else
        let created := disk.create call.temporary
        (created.1, .reading ⟨input, 0, created.2, 0, [], 0⟩)
  | .reading _, .fault => (disk, .removing .io)
  | .reading copying, .done count =>
      -- nothing comes back at the end of the file only
      let chunk := ((disk.data copying.input).drop copying.readAt).take
        (min bufferSize (max 1 count))
      if chunk = [] then
        if copying.size ≠ call.expectedSize ∨
            Blake3.hash copying.hasher ≠ call.expectedBlake3 then (disk, .removing .integrity)
        else (disk, .syncing copying)
      else
        (disk, .writing { copying with
          readAt := copying.readAt + chunk.length
          hasher := copying.hasher ++ chunk
          size := copying.size + chunk.length } chunk)
  | .writing _ _, .fault => (disk, .removing .io)
  | .writing copying rest, .done count =>
      -- `write_all` goes on until all is written
      let piece := rest.take (max 1 count)
      let copying' := { copying with writeAt := copying.writeAt + piece.length }
      (disk.write copying.restored copying.writeAt piece,
        if rest.drop (max 1 count) = [] then .reading copying'
        else .writing copying' (rest.drop (max 1 count)))
  | .syncing _, .fault => (disk, .removing .io)
  | .syncing copying, .done _ => (disk, .publishing copying)
  | .publishing _, .fault => (disk, .returned (.error .io))
  | .publishing _, .done _ =>
      match disk.rename call.temporary call.output with
      | none => (disk, .returned (.error .io))
      | some renamed => (renamed, .returned (.ok ()))
  | .removing error, _ =>
      (if call.output.name = [] then disk else disk.remove call.temporary,
        .returned (.error error))
  | .returned result, _ => (disk, .returned result)

/-- The calls over one file system. -/
structure Restores (ι δ : Type) where
  disk : FileSystem δ
  stage : ι → Stage

variable {ι : Type} [DecidableEq ι]

def next (calls : ι → RestoreCall δ) (s : Restores ι δ) (event : ι × Outcome) : Restores ι δ :=
  let after := (calls event.1).advance s.disk (s.stage event.1) event.2
  ⟨after.1, Function.update s.stage event.1 after.2⟩

def run (calls : ι → RestoreCall δ) (disk : FileSystem δ) (events : List (ι × Outcome)) :
    Restores ι δ :=
  events.foldl (next calls) ⟨disk, fun _ => .start⟩

/-- The rename of a call that has verified its copy fails. -/
def RenameFails (s : Restores ι δ) (event : ι × Outcome) : Prop :=
  (∃ copying, s.stage event.1 = .publishing copying) ∧ event.2 = .fault

/-- No rename fails in the whole run. -/
def Calm (calls : ι → RestoreCall δ) : Restores ι δ → List (ι × Outcome) → Prop
  | _, [] => True
  | s, event :: events => ¬RenameFails s event ∧ Calm calls (next calls s event) events

/-! ## The temporary name -/

omit [Blake3] [DecidableEq δ] in
theorem fileStem_append_extension (stem : List Char) :
    fileStem (stem ++ temporaryExtension) = stem ++ ".media-backup".toList := by
  have hsplit : stem ++ temporaryExtension =
      stem ++ ".media-backup".toList ++ ['.'] ++ ['t'] ++ ['m'] ++ ['p'] := by
    have hextension : temporaryExtension =
        ".media-backup".toList ++ (['.'] ++ ['t'] ++ ['m'] ++ ['p']) := by rfl
    rw [hextension]
    simp only [List.append_assoc]
  have hbefore : ((stem ++ temporaryExtension).rdropWhile (· ≠ '.')).dropLast =
      stem ++ ".media-backup".toList := by
    rw [hsplit, List.rdropWhile_concat_pos _ _ _ (by decide),
      List.rdropWhile_concat_pos _ _ _ (by decide), List.rdropWhile_concat_pos _ _ _ (by decide),
      List.rdropWhile_concat_neg _ _ _ (by decide), List.dropLast_concat]
  have hne : stem ++ ".media-backup".toList ≠ [] :=
    List.append_ne_nil_of_right_ne_nil _ (by decide)
  rw [fileStem, hbefore, if_neg hne]

omit [Blake3] [DecidableEq δ] in
/-- A temporary file is never the output of the same call. -/
theorem RestoreCall.output_ne_temporary {call : RestoreCall δ} (hname : call.output.name ≠ []) :
    call.output ≠ call.temporary := by
  intro heq
  rw [temporary, if_neg hname] at heq
  have htext : call.output.name = fileStem call.output.name ++ temporaryExtension :=
    congrArg FilePath.name heq
  have hstem : fileStem call.output.name =
      fileStem call.output.name ++ ".media-backup".toList := by
    conv_lhs => rw [htext]
    exact fileStem_append_extension _
  exact absurd (List.self_eq_append_right.mp hstem) (by decide)

/-! ## One call among others -/

section

variable (calls : ι → RestoreCall δ)

/-- The names that the calls write to. -/
def Written (path : FilePath δ) : Prop :=
  ∃ i, path = (calls i).output ∨ path = (calls i).temporary

/-- The calls share no name but perhaps their inputs, and nothing that is there at the start
shares a file with a temporary name. -/
structure Apart (disk : FileSystem δ) : Prop where
  outputs : ∀ i j, i ≠ j → (calls i).output ≠ (calls j).output
  temporaries : ∀ i j, i ≠ j → (calls i).temporary ≠ (calls j).temporary
  crossed : ∀ i j, i ≠ j → (calls i).output ≠ (calls j).temporary
  linked : ∀ i, (calls i).output.name ≠ [] → disk.Sole (Written calls) (calls i).temporary

end

/-- The temporary file holds what has been hashed but for the rest of the last chunk. -/
structure Holds (call : RestoreCall δ) (disk₀ disk : FileSystem δ) (copying : Copying)
    (rest : Bytes) : Prop where
  named : call.output.name ≠ []
  entry : disk.entries call.temporary = some copying.restored
  written : disk.data copying.restored ++ rest = copying.hasher
  position : copying.writeAt = (disk.data copying.restored).length
  counted : copying.size = copying.hasher.length
  output : Disk.Same call.output disk₀ disk

structure Verified (call : RestoreCall δ) (disk₀ disk : FileSystem δ) (copying : Copying) :
    Prop where
  holds : Holds call disk₀ disk copying []
  size : copying.size = call.expectedSize
  hash : Blake3.hash copying.hasher = call.expectedBlake3

/-- The output has the expected size and hash. -/
def RestoreCall.Restored (call : RestoreCall δ) (disk : FileSystem δ) : Prop :=
  ∃ bytes, disk.read call.output = some bytes ∧ bytes.length = call.expectedSize ∧
    Blake3.hash bytes = call.expectedBlake3

/-- What is at the temporary name was there before the calls. -/
def RestoreCall.Tidy (call : RestoreCall δ) (disk₀ disk : FileSystem δ) : Prop :=
  disk.entries call.temporary = none ∨ Disk.Same call.temporary disk₀ disk

/-- What is true of a call at each stage; if `quiet`, no rename has failed. -/
def Standing (quiet : Prop) (call : RestoreCall δ) (disk₀ disk : FileSystem δ) : Stage → Prop
  | .start => Disk.Same call.temporary disk₀ disk ∧ Disk.Same call.output disk₀ disk
  | .opened _ => Disk.Same call.temporary disk₀ disk ∧ Disk.Same call.output disk₀ disk
  | .reading copying => Holds call disk₀ disk copying []
  | .writing copying rest => Holds call disk₀ disk copying rest
  | .syncing copying => Verified call disk₀ disk copying
  | .publishing copying => Verified call disk₀ disk copying
  | .removing _ => Disk.Same call.output disk₀ disk
  | .returned (.ok ()) => call.Restored disk ∧ disk.entries call.temporary = none
  | .returned (.error _) => Disk.Same call.output disk₀ disk ∧ (quiet → call.Tidy disk₀ disk)

variable {quiet : Prop} {call : RestoreCall δ} {disk₀ disk disk' : FileSystem δ}

omit [Blake3] [DecidableEq δ] in
theorem Holds.frame {copying : Copying} {rest : Bytes} (h : Holds call disk₀ disk copying rest)
    (htemporary : Disk.Same call.temporary disk disk')
    (houtput : Disk.Same call.output disk disk') :
    Holds call disk₀ disk' copying rest where
  named := h.named
  entry := htemporary.entry.trans h.entry
  written := by rw [htemporary.contents _ h.entry, h.written]
  position := by rw [htemporary.contents _ h.entry, h.position]
  counted := h.counted
  output := h.output.trans houtput

omit [DecidableEq δ] in
theorem Verified.frame {copying : Copying} (h : Verified call disk₀ disk copying)
    (htemporary : Disk.Same call.temporary disk disk')
    (houtput : Disk.Same call.output disk disk') :
    Verified call disk₀ disk' copying :=
  ⟨h.holds.frame htemporary houtput, h.size, h.hash⟩

omit [DecidableEq δ] in
theorem RestoreCall.Restored.frame (h : call.Restored disk)
    (houtput : Disk.Same call.output disk disk') : call.Restored disk' := by
  obtain ⟨bytes, hread, hverified⟩ := h
  exact ⟨bytes, houtput.read.trans hread, hverified⟩

omit [Blake3] [DecidableEq δ] in
theorem RestoreCall.Tidy.frame (h : call.Tidy disk₀ disk)
    (htemporary : Disk.Same call.temporary disk disk') : call.Tidy disk₀ disk' := by
  cases h with
  | inl hnone => exact .inl (htemporary.entry.trans hnone)
  | inr hsame => exact .inr (hsame.trans htemporary)

omit [DecidableEq δ] in
/-- Whoever leaves a call's two names alone does not disturb it. -/
theorem Standing.frame {stage : Stage} (h : Standing quiet call disk₀ disk stage)
    (htemporary : Disk.Same call.temporary disk disk')
    (houtput : Disk.Same call.output disk disk') :
    Standing quiet call disk₀ disk' stage := by
  cases stage with
  | start => exact ⟨h.1.trans htemporary, h.2.trans houtput⟩
  | opened input => exact ⟨h.1.trans htemporary, h.2.trans houtput⟩
  | reading copying => exact Holds.frame h htemporary houtput
  | writing copying rest => exact Holds.frame h htemporary houtput
  | syncing copying => exact Verified.frame h htemporary houtput
  | publishing copying => exact Verified.frame h htemporary houtput
  | removing error => exact Disk.Same.trans h houtput
  | returned result =>
    cases result with
    | ok value => exact ⟨h.1.frame houtput, htemporary.entry.trans h.2⟩
    | error error => exact ⟨h.1.trans houtput, fun hquiet => (h.2 hquiet).frame htemporary⟩

/-- What an operation of a call does to everything else. -/
structure Effect (among : FilePath δ → Prop) (call : RestoreCall δ) (disk disk' : FileSystem δ) :
    Prop where
  same : ∀ other, among other → other ≠ call.temporary → other ≠ call.output →
    Disk.Same other disk disk'
  sole : ∀ other, other ≠ call.output → disk.Sole among other → disk'.Sole among other

omit [Blake3] [DecidableEq δ] in
theorem Effect.refl (among : FilePath δ → Prop) (call : RestoreCall δ) (disk : FileSystem δ) :
    Effect among call disk disk :=
  ⟨fun other _ _ _ => .refl other disk, fun _ _ h => h⟩

variable {among : FilePath δ → Prop}

omit [Blake3] in
/-- Creating the temporary file. -/
theorem create_holds (hnamed : call.output.name ≠ []) (hamong : among call.output)
    (hsole : disk.Sole among call.temporary) (houtput : Disk.Same call.output disk₀ disk)
    (input : Nat) :
    Effect among call disk (disk.create call.temporary).1 ∧
      Holds call disk₀ (disk.create call.temporary).1
        ⟨input, 0, (disk.create call.temporary).2, 0, [], 0⟩ [] := by
  constructor
  · constructor
    · intro other hother htemporary _
      exact Disk.same_create hsole hother htemporary
    · intro other _ hother
      exact hother.create
  · have hempty : (disk.create call.temporary).1.data (disk.create call.temporary).2 = [] :=
      Disk.create_data
    constructor
    · exact hnamed
    · exact Disk.create_entry
    · rw [hempty]
      rfl
    · rw [hempty]
      rfl
    · rfl
    · exact houtput.trans
        (Disk.same_create hsole hamong (RestoreCall.output_ne_temporary hnamed))

omit [Blake3] [DecidableEq δ] in
/-- Writing a piece of what is left of a chunk. -/
theorem write_holds {copying : Copying} {rest : Bytes} (h : Holds call disk₀ disk copying rest)
    (hamong : among call.output) (hsole : disk.Sole among call.temporary) (count : Nat) :
    let disk' := disk.write copying.restored copying.writeAt (rest.take count)
    Effect among call disk disk' ∧
      Holds call disk₀ disk'
        { copying with writeAt := copying.writeAt + (rest.take count).length }
        (rest.drop count) := by
  intro disk'
  have hdata : disk'.data copying.restored = disk.data copying.restored ++ rest.take count := by
    rw [Disk.write_data, h.position, Disk.overwrite_length]
  constructor
  · constructor
    · intro other hother htemporary _
      exact Disk.same_write hsole h.entry hother htemporary
    · intro other _ hother
      exact hother.of_entries rfl
  · constructor
    · exact h.named
    · exact h.entry
    · rw [hdata, List.append_assoc, List.take_append_drop, h.written]
    · rw [hdata, List.length_append, ← h.position]
    · exact h.counted
    · exact h.output.trans (Disk.same_write hsole h.entry hamong
        (RestoreCall.output_ne_temporary h.named))

/-- Publishing a verified copy. -/
theorem publish_restores {copying : Copying} (h : Verified call disk₀ disk copying)
    (hamong : among call.output) (hamong' : among call.temporary)
    (hsole : disk.Sole among call.temporary) :
    ∃ disk', disk.rename call.temporary call.output = some disk' ∧
      Effect among call disk disk' ∧ call.Restored disk' ∧
      disk'.entries call.temporary = none := by
  have hne := RestoreCall.output_ne_temporary h.holds.named
  obtain ⟨disk', hrename, htarget, hsource, hdata⟩ :=
    Disk.rename_eq h.holds.entry (hsole _ h.holds.entry _ hamong hne) hne
  refine ⟨disk', hrename, ?_, ?_, hsource⟩
  · constructor
    · intro other _ htemporary houtput
      exact Disk.same_rename hrename htemporary houtput
    · intro other houtput hother
      exact hother.rename hamong' hrename houtput
  · have hbytes : disk'.data copying.restored = copying.hasher := by
      rw [hdata, ← h.holds.written, List.append_nil]
    refine ⟨copying.hasher, ?_, h.holds.counted.symm.trans h.size, h.hash⟩
    rw [Disk.read, htarget, Option.map_some, hbytes]

omit [Blake3] in
theorem remove_effect : Effect among call disk (disk.remove call.temporary) where
  same _ _ htemporary _ := Disk.same_remove htemporary
  sole _ _ hother := hother.remove

/-- One operation of a call keeps it standing, and touches nothing else. -/
theorem advance_standing (hamong : among call.output) (hamong' : among call.temporary)
    (hsole : call.output.name ≠ [] → disk.Sole among call.temporary) {stage : Stage}
    (h : Standing quiet call disk₀ disk stage) (outcome : Outcome)
    (hquiet : quiet → ¬((∃ copying, stage = .publishing copying) ∧ outcome = .fault)) :
    Effect among call disk (call.advance disk stage outcome).1 ∧
      Standing quiet call disk₀ (call.advance disk stage outcome).1
        (call.advance disk stage outcome).2 := by
  have hidle := Effect.refl among call disk
  cases stage with
  | start =>
    have herror : Disk.Same call.output disk₀ disk ∧ (quiet → call.Tidy disk₀ disk) :=
      ⟨h.2, fun _ => .inr h.1⟩
    cases outcome with
    | fault => exact ⟨hidle, herror⟩
    | done count =>
      simp only [RestoreCall.advance]
      split
      · exact ⟨hidle, herror⟩
      · exact ⟨hidle, h⟩
  | opened input =>
    cases outcome with
    | fault => exact ⟨hidle, h.2⟩
    | done count =>
      simp only [RestoreCall.advance]
      by_cases hname : call.output.name = []
      · rw [if_pos hname]
        exact ⟨hidle, h.2⟩
      · rw [if_neg hname]
        exact create_holds hname hamong (hsole hname) h.2 input
  | reading copying =>
    have hholds : Holds call disk₀ disk copying [] := h
    cases outcome with
    | fault => exact ⟨hidle, hholds.output⟩
    | done count =>
      simp only [RestoreCall.advance]
      split_ifs with hend hwrong
      · exact ⟨hidle, hholds.output⟩
      · rw [not_or, not_not, not_not] at hwrong
        exact ⟨hidle, hholds, hwrong.1, hwrong.2⟩
      · refine ⟨hidle, hholds.named, hholds.entry, ?_, hholds.position, ?_, hholds.output⟩
        · rw [← hholds.written, List.append_nil]
        · rw [hholds.counted, List.length_append]
  | writing copying rest =>
    have hholds : Holds call disk₀ disk copying rest := h
    cases outcome with
    | fault => exact ⟨hidle, hholds.output⟩
    | done count =>
      simp only [RestoreCall.advance]
      have hwritten := write_holds hholds hamong (hsole hholds.named) (max 1 count)
      refine ⟨hwritten.1, ?_⟩
      split_ifs with hrest
      · rw [hrest] at hwritten
        exact hwritten.2
      · exact hwritten.2
  | syncing copying =>
    have hverified : Verified call disk₀ disk copying := h
    cases outcome with
    | fault => exact ⟨hidle, hverified.holds.output⟩
    | done count => exact ⟨hidle, hverified⟩
  | publishing copying =>
    have hverified : Verified call disk₀ disk copying := h
    cases outcome with
    | fault =>
      refine ⟨hidle, hverified.holds.output, ?_⟩
      intro hq
      exact absurd ⟨⟨copying, rfl⟩, rfl⟩ (hquiet hq)
    | done count =>
      obtain ⟨disk', hrename, heffect, hrestored⟩ :=
        publish_restores hverified hamong hamong' (hsole hverified.holds.named)
      simp only [RestoreCall.advance, hrename]
      exact ⟨heffect, hrestored⟩
  | removing error =>
    have houtput : Disk.Same call.output disk₀ disk := h
    simp only [RestoreCall.advance]
    by_cases hname : call.output.name = []
    · have hsame : call.temporary = call.output := if_pos hname
      rw [if_pos hname]
      exact ⟨hidle, houtput, fun _ => .inr (hsame ▸ houtput)⟩
    · rw [if_neg hname]
      refine ⟨remove_effect, ?_, fun _ => .inl Disk.remove_entry⟩
      exact houtput.trans (Disk.same_remove (RestoreCall.output_ne_temporary hname))
  | returned result => exact ⟨hidle, h⟩

/-! ## Any order of operations -/

/-- What holds between the operations of calls that are apart. -/
structure Standings (quiet : Prop) (calls : ι → RestoreCall δ) (disk₀ : FileSystem δ)
    (s : Restores ι δ) : Prop where
  sole : ∀ i, (calls i).output.name ≠ [] → s.disk.Sole (Written calls) (calls i).temporary
  standing : ∀ i, Standing quiet (calls i) disk₀ s.disk (s.stage i)

section

variable {calls : ι → RestoreCall δ} {s : Restores ι δ}

theorem Standings.effect (h : Standings quiet calls disk₀ s) (event : ι × Outcome)
    (hquiet : quiet → ¬RenameFails s event) :
    Effect (Written calls) (calls event.1) s.disk (next calls s event).disk ∧
      Standing quiet (calls event.1) disk₀ (next calls s event).disk
        ((next calls s event).stage event.1) := by
  have hadvance := advance_standing ⟨event.1, .inl rfl⟩ ⟨event.1, .inr rfl⟩ (h.sole event.1)
    (h.standing event.1) event.2 hquiet
  refine ⟨hadvance.1, ?_⟩
  have hstage : (next calls s event).stage event.1 =
      ((calls event.1).advance s.disk (s.stage event.1) event.2).2 := Function.update_self _ _ _
  rw [hstage]
  exact hadvance.2

/-- The two names of another call are left alone. -/
theorem Standings.others (hapart : Apart calls disk₀) (h : Standings quiet calls disk₀ s)
    (event : ι × Outcome) (hquiet : quiet → ¬RenameFails s event) {i : ι} (hne : i ≠ event.1) :
    Disk.Same (calls i).temporary s.disk (next calls s event).disk ∧
      Disk.Same (calls i).output s.disk (next calls s event).disk := by
  have hsame := (h.effect event hquiet).1.same
  constructor
  · exact hsame _ ⟨i, .inr rfl⟩ (hapart.temporaries _ _ hne) (hapart.crossed _ _ hne.symm).symm
  · exact hsame _ ⟨i, .inl rfl⟩ (hapart.crossed _ _ hne) (hapart.outputs _ _ hne)

theorem Standings.next (hapart : Apart calls disk₀) (h : Standings quiet calls disk₀ s)
    (event : ι × Outcome) (hquiet : quiet → ¬RenameFails s event) :
    Standings quiet calls disk₀ (next calls s event) := by
  obtain ⟨heffect, hown⟩ := h.effect event hquiet
  constructor
  · intro i hname
    apply heffect.sole _ _ (h.sole i hname)
    by_cases hi : event.1 = i
    · rw [hi]
      exact (RestoreCall.output_ne_temporary hname).symm
    · exact (hapart.crossed _ _ hi).symm
  · intro i
    by_cases hi : i = event.1
    · rw [hi]
      exact hown
    · obtain ⟨htemporary, houtput⟩ := h.others hapart event hquiet hi
      have hstage : (Restore.next calls s event).stage i = s.stage i :=
        Function.update_of_ne hi _ _
      rw [hstage]
      exact (h.standing i).frame htemporary houtput

/-- What one operation keeps holds along a run, in which no rename fails if `quiet`. -/
theorem Standings.foldl (hapart : Apart calls disk₀) (h : Standings quiet calls disk₀ s)
    (events : List (ι × Outcome)) (hquiet : quiet → Calm calls s events) :
    Standings quiet calls disk₀ (events.foldl (Restore.next calls) s) := by
  induction events generalizing s with
  | nil => exact h
  | cons event events ih =>
    exact ih (h.next hapart event fun hq => (hquiet hq).1) fun hq => (hquiet hq).2

omit [DecidableEq δ] [DecidableEq ι] in
theorem Standings.start (hapart : Apart calls disk₀) :
    Standings quiet calls disk₀ ⟨disk₀, fun _ => .start⟩ where
  sole := hapart.linked
  standing _ := ⟨.refl _ _, .refl _ _⟩

end

/-- Calls that are apart restore their files, or leave their outputs alone, in any order of their
operations and whatever fails; and if no rename fails, they leave no temporary file that was not
there before. -/
theorem restores_apart (calls : ι → RestoreCall δ) (disk₀ : FileSystem δ)
    (hapart : Apart calls disk₀) (events : List (ι × Outcome)) :
    (∀ i, (run calls disk₀ events).stage i = .returned (.ok ()) →
      ∃ bytes, (run calls disk₀ events).disk.read (calls i).output = some bytes ∧
        bytes.length = (calls i).expectedSize ∧
        Blake3.hash bytes = (calls i).expectedBlake3) ∧
    (∀ i error, (run calls disk₀ events).stage i = .returned (.error error) →
      (run calls disk₀ events).disk.read (calls i).output = disk₀.read (calls i).output) ∧
    (∀ event i, i ≠ event.1 →
      (run calls disk₀ (events ++ [event])).disk.read (calls i).output =
        (run calls disk₀ events).disk.read (calls i).output) ∧
    (Calm calls ⟨disk₀, fun _ => .start⟩ events →
      ∀ i result, (run calls disk₀ events).stage i = .returned result →
        (run calls disk₀ events).disk.entries (calls i).temporary = none ∨
          (run calls disk₀ events).disk.entries (calls i).temporary =
              disk₀.entries (calls i).temporary ∧
            (run calls disk₀ events).disk.read (calls i).temporary =
              disk₀.read (calls i).temporary) := by
  have hany : Standings False calls disk₀ (run calls disk₀ events) :=
    Standings.foldl hapart (Standings.start hapart) events False.elim
  refine ⟨?_, ?_, ?_, ?_⟩
  · intro i hstage
    have hstanding := hany.standing i
    rw [hstage] at hstanding
    exact hstanding.1
  · intro i error hstage
    have hstanding := hany.standing i
    rw [hstage] at hstanding
    exact hstanding.1.read
  · intro event i hi
    rw [run, List.foldl_append]
    exact (hany.others hapart event False.elim hi).2.read
  · intro hcalm i result hstage
    have hquiet : Standings True calls disk₀ (run calls disk₀ events) :=
      Standings.foldl hapart (Standings.start hapart) events fun _ => hcalm
    have hstanding := hquiet.standing i
    rw [hstage] at hstanding
    cases result with
    | ok value => exact .inl hstanding.2
    | error error =>
      cases hstanding.2 trivial with
      | inl hnone => exact .inl hnone
      | inr hsame => exact .inr ⟨hsame.entry, hsame.read⟩

end

/-! ## A live photo -/

namespace Photos

def path (name : String) : FilePath Unit := ⟨(), name.toList⟩

/-- The image and the film of one picture, and a note with another name. -/
def download : Fin 3 → FilePath Unit
  | 0 => path "0.part"
  | 1 => path "1.part"
  | 2 => path "2.part"

def content (i : Fin 3) : Bytes := [i.val.toUInt8]

def output : Fin 3 → FilePath Unit
  | 0 => path "IMG_1.HEIC"
  | 1 => path "IMG_1.MOV"
  | 2 => path "IMG_2.HEIC"

def call (i : Fin 3) : RestoreCall Unit :=
  ⟨download i, output i, 1, MediaBackup.Sample.paddedHex (content i)⟩

/-- Nothing but the downloads. -/
def disk : FileSystem Unit where
  entries name :=
    if name = path "0.part" then some 0
    else if name = path "1.part" then some 1
    else if name = path "2.part" then some 2
    else none
  data file := [file.toUInt8]
  next := 3
  used := by
    intro name file h
    split_ifs at h <;> cases h <;> decide

def done (i : Fin 3) (count : Nat) : List (Fin 3 × Outcome) := List.replicate count (i, .done 1)

/-- The film is written while the image is, and before the image is published. -/
def overlap : List (Fin 3 × Outcome) :=
  done 0 2 ++ done 1 2 ++ done 0 3 ++ done 1 2 ++ done 0 2 ++ done 1 3

/-- The rename of the third call fails. -/
def refused : List (Fin 3 × Outcome) := done 2 6 ++ [(2, .fault)]

/-- The two images without the film. -/
def images : Fin 2 → RestoreCall Unit
  | 0 => call 0
  | 1 => call 2

def bothImages : List (Fin 2 × Outcome) :=
  [0, 1, 0, 1, 1, 0, 0, 1, 0, 0, 0, 1, 1, 1].map fun i => (i, .done 1)

theorem images_apart : Apart images disk where
  outputs := by decide
  temporaries := by decide
  crossed := by decide
  linked i _ file hfile := by
    have hnone : ∀ i, disk.entries (images i).temporary = none := by decide
    rw [hnone i] at hfile
    cases hfile

end Photos

open scoped MediaBackup.Sample
open Photos

/-- An image is returned as restored while its file is the film, as both have the same temporary
name; and when a rename fails, the temporary file stays. -/
theorem live_photo_mixed_up :
    (∀ i j, i ≠ j → (call i).output ≠ (call j).output) ∧
    (run call disk overlap).stage 0 = .returned (.ok ()) ∧
    (run call disk overlap).disk.read (call 0).output = some (content 1) ∧
    Blake3.hash (content 1) ≠ (call 0).expectedBlake3 ∧
    (run call disk refused).stage 2 = .returned (.error .io) ∧
    disk.read (call 2).temporary = none ∧
    (run call disk refused).disk.read (call 2).temporary = some (content 2) := by
  decide +kernel

theorem restores_apart_sample :
    (∃ bytes, (run images disk bothImages).disk.read (images 0).output = some bytes ∧
      bytes.length = 1 ∧ Blake3.hash bytes = MediaBackup.Sample.paddedHex (content 0)) ∧
    (run images disk bothImages).disk.entries (images 1).temporary = none := by
  obtain ⟨hok, -, -, htidy⟩ := restores_apart images disk images_apart bothImages
  have hcalm : Calm images ⟨disk, fun _ => .start⟩ bothImages := by
    simp [bothImages, Calm, RenameFails]
  have hreturned : (run images disk bothImages).stage 1 = .returned (.ok ()) := by decide +kernel
  refine ⟨hok 0 (by decide +kernel), ?_⟩
  cases htidy hcalm 1 _ hreturned with
  | inl hnone => exact hnone
  | inr hsame => rw [hsame.1, (show disk.entries (images 1).temporary = none by decide +kernel)]

end Restore

end Agent

end MediaBackup
