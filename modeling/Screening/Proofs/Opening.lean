import Screening.Proofs.Acceptance
import Screening.Proofs.Looking
import Screening.Proofs.MatrixAccess
import Screening.Proofs.NamesInBytes
import Screening.Proofs.Preparation

/-!
# The three ways to open a file

A file is opened under its name if that carries an index, under its name or its path whatever these
are, or under a label that is given.  The three share the reading of the file and differ in what
comes before it.  That the label plays no part in the reading needs an argument, since it is handed
through all of it: contents are determined by what lies in the payloads of the file.

* `ContentsOf.eq_relabel` — contents of the same payloads differ in their label at most.
* `decode_relabel` — so does what two sources of the same bytes are decoded to.
* `DataFile.IsIndexed path` — the path has a name that begins with the letters and four digits.
* `DataFile.labelledIn_of_file` — a file is opened under a label by decoding its bytes.
* `DataFile.openings_agree` — how the three ways compare, with each other and with decoding.
-/

set_option autoImplicit false

namespace Screening

/-! ## Contents are determined by their payloads -/

theorem Binary64.ext_toNat {x y : Binary64} (h : x.bits.toNat = y.bits.toNat) : x = y := by
  cases x
  cases y
  exact congrArg Binary64.mk (UInt64.toNat_inj.1 h)

/-- Matrices of one shape with the same elements are the same. -/
theorem Matrix.ext_get? {α : Type} {m n : Matrix α} (hshape : m.shape = n.shape)
    (h : ∀ row < m.nrows, ∀ col < m.ncols, m.get? row col = n.get? row col) : m = n := by
  obtain ⟨hrows, hcols⟩ := Prod.mk.inj hshape
  have hsize : m.data.size = n.data.size := by rw [m.size_eq, n.size_eq, hrows, hcols]
  have hdata : m.data = n.data := by
    refine Array.ext_getElem? fun index => ?_
    by_cases hindex : index < m.data.size
    · have hplace := m.size_eq ▸ hindex
      have hpos : 0 < m.nrows := Nat.pos_of_ne_zero fun hzero => by simp [hzero] at hplace
      rw [m.getElem?_data hindex, n.getElem?_data (hsize ▸ hindex), ← hrows]
      exact h _ (Nat.mod_lt _ hpos) _ (Nat.div_lt_of_lt_mul hplace)
    · rw [Array.getElem?_eq_none (Nat.le_of_not_lt hindex),
        Array.getElem?_eq_none (hsize ▸ Nat.le_of_not_lt hindex)]
  cases m
  cases n
  simp_all

section

variable {payload : List UInt8}

theorem SizesOf.eq {d e : Dimensions} (h : SizesOf payload d) (h' : SizesOf payload e) : d = e := by
  have hfirst : d.ngvector = e.ngvector := by
    have := h.ngvector.trans h'.ngvector.symm
    omega
  have hsecond : d.ngvector2 = e.ngvector2 := by
    have := h.ngvector2.trans h'.ngvector2.symm
    omega
  have hcount : d.fieldCount = e.fieldCount := h.fieldCount.trans h'.fieldCount.symm
  cases d
  cases e
  simp_all

theorem HeaderOf.eq {h k : Header} (hh : HeaderOf payload h) (hk : HeaderOf payload k) :
    h = k := by
  have hvalues : h.values = k.values := by
    refine List.ext_getElem? fun slot => ?_
    by_cases hslot : slot < 18
    · obtain ⟨x, hx, hbits⟩ := hh slot hslot
      obtain ⟨y, hy, hbits'⟩ := hk slot hslot
      rw [Header.get?] at hx hy
      rw [hx, hy, Binary64.ext_toNat (hbits.trans hbits'.symm)]
    · rw [List.getElem?_eq_none (by rw [h.length_eq]; omega),
        List.getElem?_eq_none (by rw [k.length_eq]; omega)]
  cases h
  cases k
  simp_all

theorem MatrixOf.eq {nrows ncols : Nat} {m n : ComplexMatrix} (h : MatrixOf nrows ncols payload m)
    (h' : MatrixOf nrows ncols payload n) : m = n := by
  refine Matrix.ext_get? (h.shape.trans h'.shape.symm) fun row hrow col hcol => ?_
  obtain ⟨hrows, hcols⟩ := Prod.mk.inj h.shape
  obtain ⟨z, hz, hre, him⟩ := h.get? row (hrows ▸ hrow) col (hcols ▸ hcol)
  obtain ⟨w, hw, hre', him'⟩ := h'.get? row (hrows ▸ hrow) col (hcols ▸ hcol)
  have hsame : z = w := by
    have hreal := Binary64.ext_toNat (hre.trans hre'.symm)
    have himaginary := Binary64.ext_toNat (him.trans him'.symm)
    cases z
    cases w
    simp_all
  rw [hz, hw, hsame]

end

/-- The same contents under another label. -/
def Contents.relabel (label : String) (c : Contents) : Contents := { c with source := label }

/-- **Contents of the same payloads differ in their label at most.** -/
theorem ContentsOf.eq_relabel {label other : String} {p : Payloads} {c d : Contents}
    (h : ContentsOf label p c) (h' : ContentsOf other p d) : d = c.relabel other := by
  have hdimensions := h'.dimensions.eq h.dimensions
  have hheader := h'.header.eq h.header
  have hwing := h'.wing.eq h.wing
  have hcwing := h'.cwing.eq h.cwing
  have hresponse := h'.response.eq h.response
  have hsource := h'.source
  cases d
  simp_all [Contents.relabel]

/-- Two sources of the same bytes are decoded to the same contents, each under its label, or fail
alike. -/
theorem decode_alike {source other : Source} (steady : source.Steady) (steady' : other.Steady)
    (hbytes : other.pending = source.pending) (label label' : String) :
    (∃ e, (decode source label).1 = .error e ∧ (decode other label').1 = .error e) ∨
      ∃ c, c.source = label ∧ (decode source label).1 = .ok c ∧
        (decode other label').1 = .ok (c.relabel label') := by
  rcases decode_ends steady label with ⟨kind, cause, r, hdecode, hfirst⟩ | ⟨c, r, hdecode, hc, -⟩
  · exact .inl ⟨_, by rw [hdecode], decode_of_firstFault steady' label' (hbytes ▸ hfirst)⟩
  · rcases decode_ends steady' label' with ⟨kind, cause, r', -, hfirst⟩ | ⟨d, r', hdecode', hd, -⟩
    · have hfail := decode_of_firstFault steady label (hbytes ▸ hfirst)
      rw [hdecode] at hfail
      cases hfail
    · rw [hbytes] at hd
      exact .inr ⟨c, hc.source, by rw [hdecode], by rw [hdecode', hc.eq_relabel hd]⟩

/-- **Decoding does not look at the label.** -/
theorem decode_relabel {source : Source} (steady : source.Steady) (label label' : String) :
    (decode source label').1 = (decode source label).1.map (Contents.relabel label') := by
  rcases decode_alike steady steady rfl label label' with ⟨e, h, h'⟩ | ⟨c, -, h, h'⟩
  · rw [h, h']
    rfl
  · rw [h, h']
    rfl

/-- **Nor does it look at the manner of delivery.** -/
theorem decode_delivered {source other : Source} (steady : source.Steady) (steady' : other.Steady)
    (hbytes : other.pending = source.pending) (label : String) :
    (decode other label).1 = (decode source label).1 := by
  rcases decode_alike steady steady' hbytes label label with ⟨e, h, h'⟩ | ⟨c, rfl, h, h'⟩
  · rw [h, h']
  · rw [h, h']
    rfl

namespace DataFile

open Working

variable {path label : String} {tree : FileTree}

/-! ## Names -/

/-- A path has a name, and that begins with the letters and the digits of an index. -/
def IsIndexed (path : String) : Prop :=
  ∃ name digits, Path.fileName? path = some name ∧ FileName.Carries name digits

theorem isSome_kpoint?_iff {name : String} :
    (FileName.kpoint? name).isSome = true ↔ ∃ digits, FileName.Carries name digits := by
  constructor
  · intro hsome
    by_contra hnone
    have hfail := FileName.kpoint_of_not_carries (not_exists.1 hnone)
    obtain ⟨n, hn⟩ := Option.isSome_iff_exists.1 hsome
    rw [FileName.kpoint, hn] at hfail
    cases hfail
  · rintro ⟨digits, hcarries⟩
    have hok := FileName.kpoint_of_carries hcarries
    rw [FileName.kpoint] at hok
    cases hindex : FileName.kpoint? name with
    | some n => rfl
    | none =>
      rw [hindex] at hok
      cases hok

/-- The name of a path is taken if it carries an index. -/
theorem indexedName_of_carries {name : String} {digits : List Char}
    (hname : Path.fileName? path = some name) (hcarries : FileName.Carries name digits) :
    indexedName path = .ok name := by
  rw [indexedName, hname, Option.filter_some, if_pos (isSome_kpoint?_iff.2 ⟨digits, hcarries⟩)]

/-- No name is taken of any other path. -/
theorem indexedName_of_not_isIndexed (h : ¬ IsIndexed path) :
    indexedName path = .error (.format .invalidFileName) := by
  cases hname : Path.fileName? path with
  | none => simp [indexedName, hname]
  | some name =>
    have hnone : ¬ (FileName.kpoint? name).isSome = true := fun hsome => by
      obtain ⟨digits, hcarries⟩ := isSome_kpoint?_iff.1 hsome
      exact h ⟨name, digits, hname, hcarries⟩
    rw [indexedName, hname, Option.filter_some, if_neg hnone]

/-- The index of a path is the one that its name is read as. -/
theorem kpointOfPath_eq_some_iff {n : Nat} :
    kpointOfPath path = some n ↔
      ∃ name, Path.fileName? path = some name ∧ FileName.kpoint name = .ok n := by
  rw [kpointOfPath, Option.bind_eq_some_iff]
  refine exists_congr fun name => and_congr_right fun _ => ?_
  rw [FileName.kpoint]
  cases FileName.kpoint? name <;> simp

/-- **A path whose name carries no index is refused, and nothing is looked at.** -/
theorem openIndexed_of_not_isIndexed (h : ¬ IsIndexed path) (w : Workspace) :
    openIndexed path w = .error (.format .invalidFileName) w := by
  rw [openIndexed, bind_eq, indexedName_of_not_isIndexed h]
  rfl

/-- **A path whose name carries an index is opened under that name.** -/
theorem openIndexed_of_carries {name : String} {digits : List Char}
    (hname : Path.fileName? path = some name) (hcarries : FileName.Carries name digits) :
    openIndexed path = openLabelled path name := by
  rw [openIndexed, indexedName_of_carries hname hcarries]
  rfl

theorem openLeniently_of_fileName? {name : String} (hname : Path.fileName? path = some name) :
    openLeniently path = openLabelled path name := by
  rw [openLeniently, lenientLabel, hname]
  rfl

/-! ## Files -/

/-- The same file with its contents under another label. -/
def relabel (label : String) (file : DataFile) : DataFile :=
  { file with contents := file.contents.relabel label }

/-- **A file is opened under a label by decoding its bytes**, however they are delivered. -/
theorem labelledIn_of_file {place : Location} {source : Source}
    (hplace : tree.open? path = .ok place)
    (hfile : tree.entryAt? place = some (.file source.pending)) (steady : source.Steady) :
    labelledIn path label tree =
      (decode source label).1.map fun c => ⟨path, kpointOfPath path, c⟩ := by
  have hdecode := decode_delivered steady (Source.steady_ofBytes source.pending) rfl label
  rw [labelledIn, hplace]
  show loadFrom path label place tree = _
  rw [loadFrom, FileTree.mappedAt_file hfile]
  show (decode (Source.ofBytes source.pending) label).1 >>= _ = _
  rw [hdecode]
  cases (decode source label).1 <;> rfl

/-- What is opened under another label is the same file under that label. -/
theorem labelledIn_relabel (path label label' : String) (tree : FileTree) :
    labelledIn path label' tree = (labelledIn path label tree).map (relabel label') := by
  rw [labelledIn, labelledIn]
  cases tree.open? path with
  | error cause => rfl
  | ok place =>
    show loadFrom path label' place tree = (loadFrom path label place tree).map (relabel label')
    rw [loadFrom, loadFrom]
    cases tree.mappedAt place with
    | error cause => rfl
    | ok bytes =>
      show (decode (Source.ofBytes bytes) label').1 >>= _ =
        ((decode (Source.ofBytes bytes) label).1 >>= _).map (relabel label')
      rw [decode_relabel (Source.steady_ofBytes bytes) label label']
      cases (decode (Source.ofBytes bytes) label).1 <;> rfl

/-! ## All three -/

/-- Opening a path comes to decoding: it gives a file just if decoding gives contents, and then
these are its contents, the path is its path, and its index is the one that the name of the path is
read as; otherwise it fails alike. -/
structure OpensLike (given : String) (decoded : Except Error Contents)
    (opened : Except Error DataFile) : Prop where
  /-- There is a file just if there are contents. -/
  succeeds : (∃ file, opened = .ok file) ↔ ∃ c, decoded = .ok c
  /-- Its contents are those. -/
  contents : ∀ file, opened = .ok file → decoded = .ok file.contents
  /-- It keeps the path. -/
  path : ∀ file, opened = .ok file → file.path = given
  /-- Its index is that of the name. -/
  kpoint : ∀ file, opened = .ok file → ∀ n, file.kpoint = some n ↔
    ∃ name, Path.fileName? given = some name ∧ FileName.kpoint name = .ok n
  /-- The failures are the same. -/
  fails : ∀ e, opened = .error e ↔ decoded = .error e

theorem opensLike_map (path : String) (decoded : Except Error Contents) :
    OpensLike path decoded (decoded.map fun c => ⟨path, kpointOfPath path, c⟩) := by
  cases decoded with
  | error cause => constructor <;> simp [Except.map]
  | ok c =>
    refine ⟨by simp [Except.map], ?_, ?_, ?_, by simp [Except.map]⟩
    · rintro file ⟨⟩
      rfl
    · rintro file ⟨⟩
      rfl
    · rintro file ⟨⟩ n
      exact kpointOfPath_eq_some_iff

/-- **The three ways to open a file agree.**  A path that has no name, or one that does not begin
with the letters and four digits, is refused when its index is asked for, whatever the files are,
and nothing happens; any other path is opened under its name in each of the three ways.  Where a
path leads to a file, opening it under a label comes to decoding its bytes under that label, in
whatever way they are delivered.  The label shows in the label of the contents and nowhere else. -/
theorem openings_agree (path : String) :
    (¬ IsIndexed path → ∀ w, openIndexed path w = .error (.format .invalidFileName) w) ∧
    (∀ name digits, Path.fileName? path = some name → FileName.Carries name digits →
      openIndexed path = openLabelled path name ∧ openLeniently path = openLabelled path name) ∧
    (∀ (w : Workspace) (place : Location) (source : Source), w.tree.open? path = .ok place →
      w.tree.entryAt? place = some (.file source.pending) → source.Steady → ∀ label,
        OpensLike path (decode source label).1 ((openLabelled path label).outcome w).1) ∧
    ∀ (w : Workspace) (label label' : String),
      ((openLabelled path label).outcome w).2.tree = w.tree ∧
      ((openLabelled path label').outcome w).1 =
        ((openLabelled path label).outcome w).1.map (relabel label') := by
  refine ⟨openIndexed_of_not_isIndexed, fun name digits hname hcarries => ?_,
    fun w place source hplace hfile steady label => ?_, fun w label label' => ?_⟩
  · rw [openIndexed_of_carries hname hcarries, openLeniently_of_fileName? hname]
    exact ⟨rfl, rfl⟩
  · rw [((looks_openLabelled path label).outcome w).1, labelledIn_of_file hplace hfile steady]
    exact opensLike_map path _
  · obtain ⟨hanswer, htree⟩ := (looks_openLabelled path label).outcome w
    rw [hanswer, ((looks_openLabelled path label').outcome w).1]
    exact ⟨htree, labelledIn_relabel path label label' w.tree⟩

section OneFile

variable {bytes : List UInt8}

theorem open?_oneFile :
    (Batch.oneFile bytes).open? "d/WFULL0007.tmp" = .ok ["WFULL0007.tmp", "d"] := by
  have hname : FileName.isStandard "WFULL0007.tmp" = true := by decide
  have hjoin := FileTree.open?_join (Batch.noLinks_oneFile bytes) (Batch.leadsTo_oneFile bytes)
    (FileName.isPlain_of_isStandard hname) (FileName.utf8ByteSize_of_isStandard hname)
  rw [show Path.join "d" "WFULL0007.tmp" = "d/WFULL0007.tmp" by decide] at hjoin
  rw [hjoin, Batch.entryAt?_oneFile]
  rfl

theorem entryAt?_oneFile_file :
    (Batch.oneFile bytes).entryAt? ["WFULL0007.tmp", "d"] = some (.file bytes) := by
  rw [Batch.entryAt?_oneFile]
  rfl

end OneFile

/-- Nothing at all is a file without its first record. -/
theorem decode_empty {source : Source} (steady : source.Steady) (hempty : source.pending = [])
    (label : String) : (decode source label).1 = .error (.format (.missing .dimensions)) := by
  have hbefore : RecordKind.dimensions.before = [] := rfl
  have hfirst : FirstFault source.pending .dimensions (.missing .dimensions) := by
    rw [hempty]
    exact ⟨Payloads.found [], [], rfl, by simp [hbefore], rfl⟩
  exact decode_of_firstFault steady label hfirst

/-- A path that ends in dots, a name in which a letter stands for a digit, and a file in a directory
with a name that goes on after its digits, once with nothing in it. -/
theorem openings_agree_oneFile :
    let w : Workspace := ⟨Batch.oneFile singleSource.pending, #[]⟩
    let empty : Workspace := ⟨Batch.oneFile [], #[]⟩
    (¬ IsIndexed "d/.." ∧ openIndexed "d/.." w = .error (.format .invalidFileName) w) ∧
    (¬ IsIndexed "d/WFULL012é" ∧
      openIndexed "d/WFULL012é" w = .error (.format .invalidFileName) w) ∧
    (FileName.Carries "WFULL0007.tmp" ['0', '0', '0', '7'] ∧
      openIndexed "d/WFULL0007.tmp" = openLabelled "d/WFULL0007.tmp" "WFULL0007.tmp") ∧
    (∃ file, ((openLabelled "d/WFULL0007.tmp" "a").outcome w).1 = .ok file ∧
      file.path = "d/WFULL0007.tmp" ∧ file.kpoint = some 7 ∧
      ((openLabelled "d/WFULL0007.tmp" "b").outcome w).1 = .ok (file.relabel "b")) ∧
    ((openLabelled "d/WFULL0007.tmp" "a").outcome empty).1 =
      .error (.format (.missing .dimensions)) := by
  intro w empty
  have hdots : ¬ IsIndexed "d/.." := by
    rintro ⟨name, digits, hname, -⟩
    rw [show Path.fileName? "d/.." = none by decide] at hname
    cases hname
  have hletter : ¬ IsIndexed "d/WFULL012é" := by
    rintro ⟨name, digits, hname, hcarries⟩
    rw [show Path.fileName? "d/WFULL012é" = some "WFULL012é" by decide] at hname
    cases hname
    exact absurd (isSome_kpoint?_iff.2 ⟨digits, hcarries⟩) (by decide)
  have hname : Path.fileName? "d/WFULL0007.tmp" = some "WFULL0007.tmp" := by decide
  have hcarries : FileName.Carries "WFULL0007.tmp" ['0', '0', '0', '7'] :=
    ⟨⟨rfl, by decide⟩, by decide⟩
  have steady : singleSource.Steady := ⟨fun _ => show some 5 ≠ some 0 by decide, rfl⟩
  have hempty := Source.steady_ofBytes []
  obtain ⟨hrefused, hsame, hopened, hlabel⟩ := openings_agree "d/WFULL0007.tmp"
  refine ⟨⟨hdots, (openings_agree "d/..").1 hdots w⟩,
    ⟨hletter, (openings_agree "d/WFULL012é").1 hletter w⟩,
    ⟨hcarries, (hsame _ _ hname hcarries).1⟩, ?_, ?_⟩
  · obtain ⟨c, r, hdecode, -⟩ :=
      decode_of_isFile steady "a" single_isFile (List.prefix_append _ _)
    have hlike := hopened w _ singleSource open?_oneFile entryAt?_oneFile_file steady "a"
    obtain ⟨file, hfile⟩ := hlike.succeeds.2 ⟨c, by rw [hdecode]⟩
    have hkpoint := (hlike.kpoint file hfile 7).2
      ⟨_, hname, FileName.kpoint_of_carries hcarries⟩
    exact ⟨file, hfile, hlike.path file hfile, hkpoint, by rw [(hlabel w "a" "b").2, hfile]; rfl⟩
  · have hlike := hopened empty _ (Source.ofBytes []) open?_oneFile entryAt?_oneFile_file hempty "a"
    exact (hlike.fails _).2 (decode_empty hempty rfl "a")

end DataFile

end Screening
