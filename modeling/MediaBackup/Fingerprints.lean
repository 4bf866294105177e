import MediaBackup.Framework.LengthPrefix
import MediaBackup.Protocol

/-!
# Fingerprints

The bytes that the fingerprint of a schema and the hash of a bundle are made of.
-/

namespace MediaBackup

namespace Fingerprints

open LengthPrefix (frame stream Fits)

/-- A row of `sqlite_schema` as the query returns it, without a text for no `sql`. -/
structure SchemaRow where
  type : Bytes
  name : Bytes
  tblName : Bytes
  sql : Bytes
  deriving DecidableEq

/-- A file of a bundle. -/
structure BundleEntry where
  path : Bytes
  bytes : Bytes
  deriving DecidableEq

def SchemaRow.fields (row : SchemaRow) : List Bytes := [row.type, row.name, row.tblName, row.sql]

def BundleEntry.fields (entry : BundleEntry) : List Bytes := [entry.path, entry.bytes]

/-- What `schema_fingerprint` feeds to the hash: row by row, field by field. -/
def schemaStream (rows : List SchemaRow) : Bytes := rows.flatMap fun row => row.fields.flatMap frame

/-- What `bundle_sha256` feeds to the hash. -/
def bundleStream (entries : List BundleEntry) : Bytes :=
  entries.flatMap fun entry => frame entry.path ++ frame entry.bytes

def lowerHex (bytes : Bytes) : List Char :=
  bytes.flatMap fun b => [Nat.digitChar (b.toNat / 16), Nat.digitChar (b.toNat % 16)]

def schemaFingerprint (sha256 : Bytes → Bytes) (rows : List SchemaRow) : List Char :=
  lowerHex (sha256 (schemaStream rows))

def bundleSha256 (sha256 : Bytes → Bytes) (entries : List BundleEntry) : List Char :=
  lowerHex (sha256 (bundleStream entries))

/-- The lengths of the fields are below 2^64. -/
def SchemaRow.Fits (row : SchemaRow) : Prop := ∀ field ∈ row.fields, LengthPrefix.Fits field

def BundleEntry.Fits (entry : BundleEntry) : Prop := ∀ field ∈ entry.fields, LengthPrefix.Fits field

/-! ## Rows from their stream -/

theorem schemaStream_eq (rows : List SchemaRow) :
    schemaStream rows = stream (rows.flatMap SchemaRow.fields) := by
  induction rows with
  | nil => rfl
  | cons row rows ih =>
    rw [List.flatMap_cons, LengthPrefix.stream_append, ← ih]
    rfl

theorem bundleStream_eq (entries : List BundleEntry) :
    bundleStream entries = stream (entries.flatMap BundleEntry.fields) := by
  induction entries with
  | nil => rfl
  | cons entry entries ih =>
    rw [List.flatMap_cons, LengthPrefix.stream_append, ← ih]
    simp [bundleStream, BundleEntry.fields, stream]

theorem SchemaRow.fields_injective : Function.Injective SchemaRow.fields := by
  intro a b h
  cases a
  cases b
  simpa [fields] using h

theorem BundleEntry.fields_injective : Function.Injective BundleEntry.fields := by
  intro a b h
  cases a
  cases b
  simpa [fields] using h

theorem schemaStream_inj {rows rows' : List SchemaRow} (hfits : ∀ row ∈ rows, row.Fits)
    (hfits' : ∀ row ∈ rows', row.Fits) (h : schemaStream rows = schemaStream rows') :
    rows = rows' := by
  have hfields : ∀ rows : List SchemaRow, (∀ row ∈ rows, row.Fits) →
      ∀ field ∈ rows.flatMap SchemaRow.fields, LengthPrefix.Fits field := by
    intro rows hrows field hfield
    obtain ⟨row, hrow, hmem⟩ := List.mem_flatMap.mp hfield
    exact hrows row hrow field hmem
  rw [schemaStream_eq, schemaStream_eq] at h
  have hflat := LengthPrefix.stream_inj (hfields rows hfits) (hfields rows' hfits') h
  exact LengthPrefix.flatMap_inj (by decide : 0 < 4) (fun _ => rfl) SchemaRow.fields_injective hflat

theorem bundleStream_inj {entries entries' : List BundleEntry}
    (hfits : ∀ entry ∈ entries, entry.Fits) (hfits' : ∀ entry ∈ entries', entry.Fits)
    (h : bundleStream entries = bundleStream entries') : entries = entries' := by
  have hfields : ∀ entries : List BundleEntry, (∀ entry ∈ entries, entry.Fits) →
      ∀ field ∈ entries.flatMap BundleEntry.fields, LengthPrefix.Fits field := by
    intro entries hentries field hfield
    obtain ⟨entry, hentry, hmem⟩ := List.mem_flatMap.mp hfield
    exact hentries entry hentry field hmem
  rw [bundleStream_eq, bundleStream_eq] at h
  have hflat := LengthPrefix.stream_inj (hfields entries hfits) (hfields entries' hfits') h
  exact LengthPrefix.flatMap_inj (by decide : 0 < 2) (fun _ => rfl) BundleEntry.fields_injective
    hflat

/-! ## Fingerprints -/

theorem digitChar_inj : ∀ m < 16, ∀ n < 16, Nat.digitChar m = Nat.digitChar n → m = n := by decide

theorem lowerHex_injective : Function.Injective lowerHex := by
  intro a b h
  induction a generalizing b with
  | nil =>
    cases b with
    | nil => rfl
    | cons y b => simp [lowerHex] at h
  | cons x a ih =>
    cases b with
    | nil => simp [lowerHex] at h
    | cons y b =>
      have hsplit := List.append_inj h rfl
      have hx := x.toNat_lt
      have hy := y.toNat_lt
      have hdigits := List.cons_eq_cons.mp hsplit.1
      have hhigh := digitChar_inj _ (by omega) _ (by omega) hdigits.1
      have hlow := digitChar_inj _ (by omega) _ (by omega) (List.cons_eq_cons.mp hdigits.2).1
      have hbyte : x = y := UInt8.toNat_inj.mp (by omega)
      rw [hbyte, ih hsplit.2]

/-- Two lists of rows, or of files, never give the same stream; under a hash without collisions
they never give the same fingerprint. -/
theorem streams_determine_lists :
    (∀ rows rows' : List SchemaRow, (∀ row ∈ rows, row.Fits) → (∀ row ∈ rows', row.Fits) →
      schemaStream rows = schemaStream rows' → rows = rows') ∧
    (∀ entries entries' : List BundleEntry, (∀ entry ∈ entries, entry.Fits) →
      (∀ entry ∈ entries', entry.Fits) →
      bundleStream entries = bundleStream entries' → entries = entries') ∧
    ∀ sha256 : Bytes → Bytes, Function.Injective sha256 →
      (∀ rows rows' : List SchemaRow, (∀ row ∈ rows, row.Fits) → (∀ row ∈ rows', row.Fits) →
        schemaFingerprint sha256 rows = schemaFingerprint sha256 rows' → rows = rows') ∧
      ∀ entries entries' : List BundleEntry, (∀ entry ∈ entries, entry.Fits) →
        (∀ entry ∈ entries', entry.Fits) →
        bundleSha256 sha256 entries = bundleSha256 sha256 entries' → entries = entries' := by
  refine ⟨fun _ _ => schemaStream_inj, fun _ _ => bundleStream_inj, ?_⟩
  intro sha256 hinj
  constructor
  · intro rows rows' hfits hfits' h
    exact schemaStream_inj hfits hfits' (hinj (lowerHex_injective h))
  · intro entries entries' hfits hfits' h
    exact bundleStream_inj hfits hfits' (hinj (lowerHex_injective h))

/-- A text in another column gives another stream, and so does a file cut in two. -/
theorem streams_determine_lists_sample :
    schemaStream [⟨[1], [], [2], []⟩] ≠ schemaStream [⟨[1], [2], [], []⟩] ∧
      schemaFingerprint id [⟨[1], [], [2], []⟩] ≠ schemaFingerprint id [] ∧
      bundleSha256 id [⟨[1], [2]⟩] ≠ bundleSha256 id [⟨[1], []⟩, ⟨[], [2]⟩] := by
  have hrow : ∀ row ∈ [(⟨[1], [], [2], []⟩ : SchemaRow)], row.Fits := by
    simp [SchemaRow.Fits, SchemaRow.fields, LengthPrefix.Fits]
  have hother : ∀ row ∈ [(⟨[1], [2], [], []⟩ : SchemaRow)], row.Fits := by
    simp [SchemaRow.Fits, SchemaRow.fields, LengthPrefix.Fits]
  have hnone : ∀ row ∈ ([] : List SchemaRow), row.Fits := by simp
  have hwhole : ∀ entry ∈ [(⟨[1], [2]⟩ : BundleEntry)], entry.Fits := by
    simp [BundleEntry.Fits, BundleEntry.fields, LengthPrefix.Fits]
  have hhalves : ∀ entry ∈ [(⟨[1], []⟩ : BundleEntry), ⟨[], [2]⟩], entry.Fits := by
    simp [BundleEntry.Fits, BundleEntry.fields, LengthPrefix.Fits]
  obtain ⟨hrows, -, hhash⟩ := streams_determine_lists
  obtain ⟨hprint, hbundle⟩ := hhash id Function.injective_id
  refine ⟨?_, ?_, ?_⟩
  · intro h
    exact absurd (hrows _ _ hrow hother h) (by decide)
  · intro h
    exact absurd (hprint _ _ hrow hnone h) (by decide)
  · intro h
    exact absurd (hbundle _ _ hwhole hhalves h) (by decide)

end Fingerprints

end MediaBackup
