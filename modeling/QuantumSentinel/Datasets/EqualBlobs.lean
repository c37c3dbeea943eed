import QuantumSentinel.Datasets.AcceptedBlobs
import QuantumSentinel.Lib.Rearrange

/-!
# Datasets: equal content and equal bytes

The id of a dataset hashes its tables by their names, and so it does not depend on their order.
The blob has the tables in the order of the dataset.

Main results:

- Theorem `encodeBlob_names`: a blob gives the names of its tables, in their order.
- Theorem `equal_blobs_iff`: when two datasets with one id have one blob.
-/

namespace QuantumSentinel.Datasets

open Lib

/-- The names of the tables, in their order. -/
def Dataset.names (d : Dataset) : List String :=
  d.tables.map fun t => t.schema.name

/-! ## What a blob says -/

/-- Two blobs of the same bytes have headers of the same text. -/
theorem text_of_blob {text text' compressed compressed' : Bytes} (hsmall : text.length < 2 ^ 64)
    (hsmall' : text'.length < 2 ^ 64)
    (h : blobMagic ++ (leBytes 8 text.length ++ (text ++ compressed)) =
      blobMagic ++ (leBytes 8 text'.length ++ (text' ++ compressed'))) : text = text' := by
  obtain ⟨-, hlength, hrest, -⟩ := blob_places hsmall rfl
  obtain ⟨-, hlength', hrest', -⟩ := blob_places hsmall' h
  have hsame : text.length = text'.length := hlength.symm.trans hlength'
  exact List.append_inj_left (hrest.symm.trans hrest') hsame

/-- The header says the names of the tables. -/
theorem names_of_header {d d' : Dataset} {id id' : String} {text : Bytes}
    (h : canonicalJson (blobHeader d.identity id (d.tables.map fun t => (t, t.chunks))) = .ok text)
    (h' : canonicalJson (blobHeader d'.identity id' (d'.tables.map fun t => (t, t.chunks))) =
      .ok text) : d.names = d'.names := by
  have hsorted := canonicalJson_injective h h'
  rw [sorted_blobHeader, sorted_blobHeader] at hsorted
  simp only [Json.obj.injEq, List.cons.injEq, Prod.mk.injEq, Json.arr.injEq, true_and,
    and_true] at hsorted
  have hspecs : d.tables.map (fun t => tableSpec t t.chunks) =
      d'.tables.map fun t => tableSpec t t.chunks := hsorted.2.2.2
  have hname : ∀ t : Table, item "name" (tableSpec t t.chunks) = .ok (.str t.schema.name) :=
    fun t => rfl
  have hitems := congrArg (List.map (item "name")) hspecs
  rw [List.map_map, List.map_map] at hitems
  have hread : ∀ e : Dataset, (e.tables.map (item "name" ∘ fun t => tableSpec t t.chunks)) =
      e.names.map fun n => Except.ok (Json.str n) := by
    intro e
    rw [Dataset.names, List.map_map]
    exact List.map_congr_left fun t _ => hname t
  rw [hread, hread] at hitems
  refine eq_of_map_eq hitems fun n _ n' _ hsame => ?_
  cases hsame
  rfl

/-- A blob gives the names of its tables, in their order. -/
theorem encodeBlob_names {sha256 : Bytes → String} {compress : List Bytes → Bytes}
    {d d' : Dataset} {blob : Bytes} (h : encodeBlob sha256 compress d = .ok blob)
    (h' : encodeBlob sha256 compress d' = .ok blob) : d.names = d'.names := by
  obtain ⟨id, text, -, hheader, hsmall, hblob⟩ := encodeBlob_eq_ok h
  obtain ⟨id', text', -, hheader', hsmall', hblob'⟩ := encodeBlob_eq_ok h'
  have htext : text = text' := text_of_blob hsmall hsmall' (hblob.symm.trans hblob')
  subst htext
  exact names_of_header hheader.text hheader'.text

/-! ## One id -/

/-- The tables of one content stand in the order of their names. -/
theorem Dataset.eq_of_names {d d' : Dataset} (hidentity : d.identity = d'.identity)
    (htables : ∀ t, t ∈ d.tables ↔ t ∈ d'.tables) (hnames : d.names = d'.names) : d = d' := by
  have hsame : d.tables = d'.tables := by
    refine eq_of_map_eq hnames fun t ht t' ht' hname => ?_
    exact List.inj_on_of_nodup_map d.valid.2 ht ((htables t').mpr ht') hname
  cases d
  cases d'
  cases hidentity
  cases hsame
  rfl

/-- Two datasets with one id have one blob when their tables stand in one order. -/
theorem equal_blobs_iff {sha256 : Bytes → String} (hsha : ∀ a b, sha256 a = sha256 b → a = b)
    {compress : List Bytes → Bytes} {d d' : Dataset} (hbuild : d.FromBuild)
    (hbuild' : d'.FromBuild) {id : String} (hid : d.datasetId sha256 = .ok id)
    (hid' : d'.datasetId sha256 = .ok id) {blob : Bytes}
    (h : encodeBlob sha256 compress d = .ok blob) :
    encodeBlob sha256 compress d' = .ok blob ↔ d.names = d'.names := by
  refine ⟨fun h' => encodeBlob_names h h', fun hnames => ?_⟩
  obtain ⟨hidentity, htables⟩ :=
    content_of_datasetId hsha hbuild.built hbuild'.built (fun _ _ => rfl) (fun _ _ => rfl) hid hid'
  rw [← Dataset.eq_of_names hidentity htables hnames]
  exact h

/-! ## Two orders of two tables -/

/-- A dataset with a short header has a blob. -/
theorem exists_blob {sha256 : Bytes → String} {compress : List Bytes → Bytes} {d : Dataset}
    {id : String} {header : Json} (hid : d.datasetId sha256 = .ok id)
    (hheader : blobHeader d.identity id (d.tables.map fun t => (t, t.chunks)) = header)
    (hcanonical : canonicalError header = none)
    (hshort : (encodeChars (canonicalStyle.render header.sorted)).length ≤ maxHeader) :
    ∃ blob, encodeBlob sha256 compress d = .ok blob := by
  have hhas := Dataset.hasHeader_of_id hid hheader hcanonical
  obtain ⟨_, -, hencode⟩ := encodeBlob_eq compress hhas hshort
  exact ⟨_, hencode⟩

/-- Both orders have this id. -/
theorem sample_datasetIds : sampleDataset.datasetId sampleSha256 = .ok sampleId ∧
    sampleReordered.datasetId sampleSha256 = .ok sampleId := by
  obtain ⟨id, hfirst, hsecond⟩ := sample_ids sampleSha256
  rw [sample_datasetId, Except.ok.injEq] at hfirst
  subst hfirst
  exact ⟨sample_datasetId, hsecond⟩

/-- Both orders have a blob. -/
theorem sample_blobs (compress : List Bytes → Bytes) :
    (∃ blob, encodeBlob sampleSha256 compress sampleDataset = .ok blob) ∧
      ∃ blob, encodeBlob sampleSha256 compress sampleReordered = .ok blob := by
  have hheaders : ∀ d ∈ [sampleDataset, sampleReordered],
      canonicalError (blobHeader d.identity sampleId (d.tables.map fun t => (t, t.chunks))) =
          none ∧
        (encodeChars (canonicalStyle.render
          (blobHeader d.identity sampleId (d.tables.map fun t => (t, t.chunks))).sorted)).length ≤
            maxHeader := by
    decide +kernel
  obtain ⟨hcanonical, hshort⟩ := hheaders _ (List.mem_cons_self ..)
  obtain ⟨hcanonical', hshort'⟩ :=
    hheaders _ (List.mem_cons_of_mem _ (List.mem_cons_self ..))
  exact ⟨exists_blob sample_datasetIds.1 rfl hcanonical hshort,
    exists_blob sample_datasetIds.2 rfl hcanonical' hshort'⟩

/-- A dataset has the blob of itself. -/
theorem equal_blobs_sample : ∃ blob,
    encodeBlob sampleSha256 (knownCompress samplePayload sampleZlib) sampleDataset = .ok blob ∧
      (encodeBlob sampleSha256 (knownCompress samplePayload sampleZlib) sampleReordered = .ok blob ↔
        sampleDataset.names = sampleReordered.names) := by
  obtain ⟨⟨blob, hblob⟩, -⟩ := sample_blobs (knownCompress samplePayload sampleZlib)
  obtain ⟨hbuild, hbuild'⟩ := sample_fromBuild
  obtain ⟨hid, hid'⟩ := sample_datasetIds
  exact ⟨blob, hblob,
    equal_blobs_iff (Digests.hash_injective _) hbuild hbuild' hid hid' hblob⟩

/-- Two orders of two tables have one id and two blobs. -/
theorem equal_content_unequal_blobs : (∀ a b, sampleSha256 a = sampleSha256 b → a = b) ∧
    sampleDataset.FromBuild ∧ sampleReordered.FromBuild ∧
      sampleDataset.datasetId sampleSha256 = .ok sampleId ∧
      sampleReordered.datasetId sampleSha256 = .ok sampleId ∧ ∃ blob blob',
        encodeBlob sampleSha256 (knownCompress samplePayload sampleZlib) sampleDataset = .ok blob ∧
          encodeBlob sampleSha256 (knownCompress samplePayload sampleZlib) sampleReordered = .ok blob' ∧ blob ≠ blob' := by
  obtain ⟨⟨blob, hblob⟩, blob', hblob'⟩ := sample_blobs (knownCompress samplePayload sampleZlib)
  refine ⟨Digests.hash_injective _, sample_fromBuild.1, sample_fromBuild.2,
    sample_datasetIds.1, sample_datasetIds.2, blob, blob', hblob, hblob', fun hsame => ?_⟩
  subst hsame
  have hnames : sampleDataset.names ≠ sampleReordered.names := by decide
  exact hnames (encodeBlob_names hblob hblob')

end QuantumSentinel.Datasets
