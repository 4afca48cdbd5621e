import Screening.Proofs.Decoding

/-!
# Which streams are files, and what is wrong with the others

The two sides of decoding, for every stream and every manner of delivery.

* `decode_files` — decoding succeeds exactly on streams that begin with a file, gives what lies in
  it, and takes its bytes and no others.
* `decode_error_iff` — decoding fails exactly with the first fault of the stream.
-/

set_option autoImplicit false

namespace Screening

/-- Decoding fails with the first fault of the stream or gives the contents of what lies in it. -/
theorem decode_ends {source : Source} (steady : source.Steady) (label : String) :
    (∃ kind cause r, decode source label = (.error (.format cause), r) ∧
      FirstFault source.pending kind cause) ∨
    ∃ c r, decode source label = (.ok c, r) ∧ ContentsOf label (Payloads.found source.pending) c ∧
      Reached source RecordKind.sequence r := by
  rcases read_ends steady label with ⟨kind, cause, r, hread, hfirst⟩ | ⟨c, r, hread, hc, hr⟩
  · exact Or.inl ⟨kind, cause, r, by rw [decode, Reading.outcome, hread], hfirst⟩
  · exact Or.inr ⟨c, r, by rw [decode, Reading.outcome, hread], hc, hr⟩

/-- A stream with a fault does not begin with a file. -/
theorem FirstFault.not_file {bytes : List UInt8} {kind : RecordKind} {cause : FormatError}
    (h : FirstFault bytes kind cause) {p : Payloads} (hp : p.IsFile) :
    ¬ p.bytes RecordKind.sequence <+: bytes :=
  h.not_prefix (before_append_prefix_sequence kind) fun other _ => hp other

theorem RecordKind.mem_sequence (kind : RecordKind) : kind ∈ RecordKind.sequence := by
  cases kind <;> decide

namespace Payloads

variable {p q : Payloads}

/-- A stream begins with no more than one file. -/
theorem IsFile.eq (hp : p.IsFile) (hq : q.IsFile) {bytes : List UInt8}
    (h : p.bytes RecordKind.sequence <+: bytes) (h' : q.bytes RecordKind.sequence <+: bytes) :
    p = q := by
  obtain ⟨rest, hrest⟩ := h
  obtain ⟨rest', hrest'⟩ := h'
  obtain ⟨heq, -⟩ := eq_of_bytes_append (fun kind _ => hp kind) (fun kind _ => hq kind)
    (hrest.trans hrest'.symm)
  exact funext fun kind => heq kind kind.mem_sequence

/-- The bytes of a file are as many as its first payload says. -/
theorem IsFile.length_bytes (hp : p.IsFile) : (p.bytes RecordKind.sequence).length =
    184 + (p .dimensions).length + 96 * p.rows + 16 * (p.rows * p.rows) := by
  have hheader : (p .header).length = 144 := (hp .header).2
  have hwing : (p .wing).length = 48 * p.rows := (hp .wing).2
  have hcwing : (p .cwing).length = 48 * p.rows := (hp .cwing).2
  have hresponse : (p .response).length = 16 * (p.rows * p.rows) := (hp .response).2
  simp only [RecordKind.sequence, bytes_cons, List.length_append, length_frame, span, markerSize,
    hheader, hwing, hcwing, hresponse]
  have hnil : (p.bytes []).length = 0 := rfl
  omega

end Payloads

namespace Reached

variable {source : Source} {r : Reader}

/-- Where five records have been read, the stream begins with a file. -/
theorem isFile (h : Reached source RecordKind.sequence r) :
    (Payloads.found source.pending).IsFile :=
  fun kind => h.holds kind kind.mem_sequence

theorem isPrefix (h : Reached source RecordKind.sequence r) :
    (Payloads.found source.pending).bytes RecordKind.sequence <+: source.pending :=
  ⟨r.source.pending, h.bytes.symm⟩

end Reached

/-- A stream that begins with a file is decoded, and the bytes of the file are taken. -/
theorem decode_of_isFile {source : Source} (steady : source.Steady) (label : String) {p : Payloads}
    (hp : p.IsFile) (hfront : p.bytes RecordKind.sequence <+: source.pending) :
    ∃ c r, decode source label = (.ok c, r) ∧
      r.source.taken = source.taken + (p.bytes RecordKind.sequence).length := by
  rcases decode_ends steady label with ⟨kind, cause, r, -, hfirst⟩ | ⟨c, r, hdecode, -, hr⟩
  · exact absurd hfront (hfirst.not_file hp)
  · obtain rfl : p = Payloads.found source.pending := hp.eq hr.isFile hfront hr.isPrefix
    exact ⟨c, r, hdecode, hr.taken⟩

/-- What is decoded is the file at the front of the stream, and its bytes are those that are
taken. -/
theorem file_of_decode {source : Source} (steady : source.Steady) {label : String} {c : Contents}
    {r : Reader} (h : decode source label = (.ok c, r)) :
    ∃ p : Payloads, p.IsFile ∧ p.bytes RecordKind.sequence <+: source.pending ∧
      ContentsOf label p c ∧
      r.source.taken = source.taken + (p.bytes RecordKind.sequence).length := by
  rcases decode_ends steady label with ⟨kind, cause, r', hdecode, -⟩ | ⟨c', r', hdecode, hc, hr⟩
  · rw [h] at hdecode
    cases hdecode
  · rw [h] at hdecode
    cases hdecode
    exact ⟨_, hr.isFile, hr.isPrefix, hc, hr.taken⟩

/-- A stream is decoded to its first fault. -/
theorem decode_of_firstFault {source : Source} (steady : source.Steady) (label : String)
    {kind : RecordKind} {cause : FormatError} (h : FirstFault source.pending kind cause) :
    (decode source label).1 = .error (.format cause) := by
  rcases decode_ends steady label with ⟨kind', cause', r, hdecode, h'⟩ | ⟨c, r, -, -, hr⟩
  · obtain ⟨-, rfl⟩ := h.unique h'
    rw [hdecode]
  · exact absurd hr.isPrefix (h.not_file hr.isFile)

/-- What a stream is decoded to, if it fails, is a first fault of the stream. -/
theorem firstFault_of_decode {source : Source} (steady : source.Steady) {label : String} {e : Error}
    (h : (decode source label).1 = .error e) :
    ∃ kind cause, e = .format cause ∧ FirstFault source.pending kind cause := by
  rcases decode_ends steady label with ⟨kind, cause, r, hdecode, hfirst⟩ | ⟨c, r, hdecode, -, -⟩
  · rw [hdecode] at h
    cases h
    exact ⟨kind, cause, rfl, hfirst⟩
  · rw [hdecode] at h
    cases h

/-- **Decoding accepts files and nothing else.**  Where a stream begins with five payloads that make
a file, decoding gives the contents that lie in them and takes the bytes of the file, whatever
follows; and where decoding gives contents, the stream begins with a file. -/
theorem decode_files {source : Source} (steady : source.Steady) (label : String) :
    (∀ p : Payloads, p.IsFile → p.bytes RecordKind.sequence <+: source.pending →
      ∃ c r, decode source label = (.ok c, r) ∧ ContentsOf label p c ∧
        r.source.taken = source.taken + (184 + 4 * c.dimensions.fieldCount +
          96 * c.dimensions.ngvector + 16 * (c.dimensions.ngvector * c.dimensions.ngvector))) ∧
    ∀ c r, decode source label = (.ok c, r) →
      ∃ p : Payloads, p.IsFile ∧ p.bytes RecordKind.sequence <+: source.pending := by
  constructor
  · intro p hp hprefix
    rcases decode_ends steady label with ⟨kind, cause, r, -, hfirst⟩ | ⟨c, r, hdecode, hc, hr⟩
    · exact absurd hprefix (hfirst.not_file hp)
    obtain rfl : p = Payloads.found source.pending := hp.eq hr.isFile hprefix hr.isPrefix
    refine ⟨c, r, hdecode, hc, ?_⟩
    have hrows : c.dimensions.ngvector = (Payloads.found source.pending).rows :=
      hc.dimensions.rows
    have hfields : 4 * c.dimensions.fieldCount =
        (Payloads.found source.pending .dimensions).length := by
      have hmod := (hp .dimensions).2.1
      have hcount := hc.dimensions.fieldCount
      omega
    rw [hr.taken, hp.length_bytes, hrows, hfields]
  · intro c r hdecode
    rcases decode_ends steady label with ⟨kind, cause, r', herror, -⟩ | ⟨c', r', -, -, hr⟩
    · rw [hdecode] at herror
      cases herror
    · exact ⟨_, hr.isFile, hr.isPrefix⟩

/-- The payloads of a file with a single G-vector. -/
def single : Payloads
  | .dimensions => [1, 0, 0, 0, 2, 0, 0, 0]
  | .header => List.replicate 144 0
  | .wing => List.replicate 48 1
  | .cwing => List.replicate 48 2
  | .response => List.replicate 16 3

theorem single_isFile : single.IsFile := by
  intro kind
  cases kind <;> exact ⟨by decide +kernel, by decide +kernel⟩

/-- The bytes of that file and two more, a few at a time, with an interruption. -/
def singleSource : Source :=
  ⟨single.bytes RecordKind.sequence ++ [7, 7], 0, (some 5 : Option Nat), [3, 100], none⟩

theorem decode_files_single :
    singleSource.Steady ∧ single.IsFile ∧
      ∃ c r, decode singleSource "single" = (.ok c, r) ∧ ContentsOf "single" single c ∧
        r.source.taken = 0 + (184 + 4 * c.dimensions.fieldCount +
          96 * c.dimensions.ngvector + 16 * (c.dimensions.ngvector * c.dimensions.ngvector)) := by
  have steady : singleSource.Steady := ⟨fun _ => show some 5 ≠ some 0 by decide, rfl⟩
  exact ⟨steady, single_isFile,
    (decode_files steady "single").1 single single_isFile (List.prefix_append _ _)⟩

/-- **Decoding fails exactly with the first fault of the stream.** -/
theorem decode_error_iff {source : Source} (steady : source.Steady) (label : String) (e : Error) :
    (decode source label).1 = .error e ↔
      ∃ kind cause, e = .format cause ∧ FirstFault source.pending kind cause := by
  constructor
  · intro herror
    rcases decode_ends steady label with ⟨kind, cause, r, hdecode, hfirst⟩ | ⟨c, r, hdecode, -, -⟩
    · rw [hdecode] at herror
      cases herror
      exact ⟨kind, cause, rfl, hfirst⟩
    · rw [hdecode] at herror
      cases herror
  · rintro ⟨kind, cause, rfl, hfirst⟩
    rcases decode_ends steady label with ⟨kind', cause', r, hdecode, hfirst'⟩ | ⟨c, r, -, -, hr⟩
    · obtain ⟨-, rfl⟩ := hfirst.unique hfirst'
      rw [hdecode]
    · exact absurd hr.isPrefix (hfirst.not_file hr.isFile)

/-- A good first record, then a header of one value, then a record that is cut short. -/
def badHeader : Source :=
  ⟨single.bytes [.dimensions] ++ (frame [0, 0, 0, 0, 0, 0, 0, 0] ++ marker 48), 0,
    (some 3 : Option Nat), [5], none⟩

theorem decode_error_iff_badHeader :
    badHeader.Steady ∧
      (decode badHeader "short").1 = .error (.format (.wrongCount .header 18 1)) := by
  have steady : badHeader.Steady := ⟨fun _ => show some 3 ≠ some 0 by decide, rfl⟩
  have holds : ∀ kind ∈ RecordKind.header.before, single.Holds kind :=
    fun kind _ => single_isFile kind
  exact ⟨steady, (decode_error_iff steady "short" _).2
    ⟨.header, .wrongCount .header 18 1, rfl, single, _, rfl, holds, by decide⟩⟩

end Screening
