import Screening.Proofs.Opening

/-!
# Decoding the same bytes again

The same bytes are decoded to the same contents, bit for bit.  Contents are however compared as
numbers, and no NaN equals anything, itself included.  So contents equal themselves exactly if there
is no NaN in them, and whether there is one can be seen in the bytes of the file.

* `IsNaNPattern bits` — the bits of a number spell a NaN.
* `Payloads.HoldsNoNaN` — no slot of the four records behind the sizes does.
* `HeaderOf.sameNumbers_self_iff`, `MatrixOf.sameAs_self_iff` — a part of the contents equals itself
  exactly if the slots of its payload hold no NaN.
* `sameNumbers_decoded_iff` — what the same bytes are decoded to is equal exactly if the file holds
  no NaN.
-/

set_option autoImplicit false

namespace Screening

-- Powers of natural numbers are those of core here, whatever other power is in scope.
attribute [local instance (2000)] instPowNat

/-! ## Numbers -/

/-- The bits of a NaN: all eleven exponent bits are set, and some of the fifty-two fraction bits
is. -/
def IsNaNPattern (bits : Nat) : Prop := bits / 2 ^ 52 % 2 ^ 11 = 2 ^ 11 - 1 ∧ bits % 2 ^ 52 ≠ 0

instance (bits : Nat) : Decidable (IsNaNPattern bits) :=
  inferInstanceAs (Decidable (_ ∧ _))

theorem Binary64.isNaN_eq_false_iff (x : Binary64) :
    x.isNaN = false ↔ ¬ IsNaNPattern x.bits.toNat := by
  have hexponent : x.biasedExponent = x.bits.toNat / 2 ^ 52 % 2 ^ 11 := by
    have hweight : signWeight = 2 ^ 52 * 2 ^ 11 := rfl
    rw [biasedExponent, unsignedBits, hweight]
    exact Nat.mod_mul_right_div_self ..
  have hfraction : x.fraction = x.bits.toNat % 2 ^ 52 := rfl
  rw [isNaN, hexponent, hfraction, ← Bool.not_eq_true, Bool.and_eq_true, beq_iff_eq, bne_iff_ne]
  exact Iff.rfl

theorem Complex128.sameNumber_self_iff (z : Complex128) :
    z.sameNumber z = true ↔ ¬ IsNaNPattern z.re.bits.toNat ∧ ¬ IsNaNPattern z.im.bits.toNat := by
  rw [sameNumber, Bool.and_eq_true, Binary64.sameNumber_self, Binary64.sameNumber_self,
    Bool.not_eq_true', Bool.not_eq_true', Binary64.isNaN_eq_false_iff, Binary64.isNaN_eq_false_iff]

/-! ## Parts of the contents -/

theorem all_zip_self {α : Type} (same : α → α → Bool) (items : List α) :
    ((items.zip items).all fun pair => same pair.1 pair.2) = true ↔
      ∀ x ∈ items, same x x = true := by
  induction items with
  | nil => simp
  | cons x rest ih => rw [List.zip_cons_cons, List.all_cons, Bool.and_eq_true, ih,
      List.forall_mem_cons]

theorem Matrix.sameAs_self_iff {α : Type} {same : α → α → Bool} (m : Matrix α) :
    m.sameAs same m = true ↔ ∀ x ∈ m.data, same x x = true := by
  rw [sameAs, beq_self_eq_true, Bool.true_and, all_zip_self, toList]
  simp only [Array.mem_toList_iff]

/-- No slot of a payload of eight-byte numbers holds a NaN. -/
def NoNaNIn (payload : List UInt8) : Prop :=
  ∀ slot < payload.length / 8, ¬ IsNaNPattern (numberAt 8 (8 * slot) payload)

instance (payload : List UInt8) : Decidable (NoNaNIn payload) :=
  inferInstanceAs (Decidable (∀ slot < payload.length / 8, _))

variable {payload : List UInt8}

theorem HeaderOf.sameNumbers_self_iff {h : Header} (hof : HeaderOf payload h)
    (hlength : payload.length = 144) : h.sameNumbers h = true ↔ NoNaNIn payload := by
  have hslot {slot : Nat} {x : Binary64} (hx : h.values[slot]? = some x) :
      slot < 18 ∧ x.bits.toNat = numberAt 8 (8 * slot) payload := by
    obtain ⟨hlt, -⟩ := List.getElem?_eq_some_iff.1 hx
    rw [h.length_eq] at hlt
    obtain ⟨y, hy, hbits⟩ := hof slot hlt
    rw [Header.get?, hx] at hy
    exact ⟨hlt, Option.some.inj hy ▸ hbits⟩
  rw [Header.sameNumbers, all_zip_self, NoNaNIn, hlength]
  simp only [Binary64.sameNumber_self, Bool.not_eq_true', Binary64.isNaN_eq_false_iff]
  constructor
  · intro hall slot hlt
    obtain ⟨x, hx, hbits⟩ := hof slot hlt
    exact hbits ▸ hall x (List.mem_of_getElem? hx)
  · intro hall x hx
    obtain ⟨slot, hget⟩ := List.mem_iff_getElem?.1 hx
    obtain ⟨hlt, hbits⟩ := hslot hget
    exact hbits ▸ hall slot hlt

namespace MatrixOf

variable {nrows ncols : Nat} {m : ComplexMatrix}

/-- The elements of the storage are the pairs of the payload, one after the other. -/
theorem getElem?_data (h : MatrixOf nrows ncols payload m) {index : Nat}
    (hindex : index < m.data.size) : ∃ z, m.data[index]? = some z ∧
      z.re.bits.toNat = numberAt 8 (8 * (2 * index)) payload ∧
      z.im.bits.toNat = numberAt 8 (8 * (2 * index + 1)) payload := by
  obtain ⟨hrows, hcols⟩ := Prod.mk.inj h.shape
  have hplace := m.size_eq ▸ hindex
  have hpos : 0 < m.nrows := Nat.pos_of_ne_zero fun hzero => by simp [hzero] at hplace
  obtain ⟨z, hz, hre, him⟩ := h.get? (index % m.nrows) (hrows ▸ Nat.mod_lt _ hpos)
    (index / m.nrows) (hcols ▸ Nat.div_lt_of_lt_mul hplace)
  rw [← hrows, Nat.mul_comm _ m.nrows, Nat.div_add_mod] at hre him
  refine ⟨z, (m.getElem?_data hindex).trans hz, ?_, ?_⟩
  · rw [hre, ← Nat.mul_assoc]
  · rw [him, Nat.mul_add, ← Nat.mul_assoc]

theorem sameAs_self_iff (h : MatrixOf nrows ncols payload m)
    (hlength : payload.length = 16 * (nrows * ncols)) :
    m.sameAs Complex128.sameNumber m = true ↔ NoNaNIn payload := by
  obtain ⟨hrows, hcols⟩ := Prod.mk.inj h.shape
  have hsize : payload.length / 8 = 2 * m.data.size := by
    rw [hlength, m.size_eq, hrows, hcols]
    omega
  rw [m.sameAs_self_iff, NoNaNIn, hsize]
  simp only [Complex128.sameNumber_self_iff]
  constructor
  · -- each slot is one of the two halves of an element
    intro hall slot hlt
    obtain ⟨z, hz, hre, him⟩ := h.getElem?_data (show slot / 2 < m.data.size by omega)
    obtain ⟨hreal, himaginary⟩ := hall z (Array.mem_of_getElem? hz)
    rcases Nat.mod_two_eq_zero_or_one slot with heven | hodd
    · have hslot : slot = 2 * (slot / 2) := by omega
      rwa [hslot, ← hre]
    · have hslot : slot = 2 * (slot / 2) + 1 := by omega
      rwa [hslot, ← him]
  · intro hall z hz
    obtain ⟨index, hget⟩ := Array.mem_iff_getElem?.1 hz
    obtain ⟨hindex, -⟩ := Array.getElem?_eq_some_iff.1 hget
    obtain ⟨w, hw, hre, him⟩ := h.getElem?_data hindex
    rw [hget] at hw
    rw [Option.some.inj hw, hre, him]
    exact ⟨hall _ (by omega), hall _ (by omega)⟩

end MatrixOf

/-! ## Whole files -/

namespace Payloads

/-- There is no NaN in the four records behind the sizes. -/
def HoldsNoNaN (p : Payloads) : Prop :=
  ∀ kind ∈ [RecordKind.header, .wing, .cwing, .response], NoNaNIn (p kind)

instance (p : Payloads) : Decidable p.HoldsNoNaN :=
  inferInstanceAs (Decidable (∀ kind ∈ [RecordKind.header, .wing, .cwing, .response], _))

/-- The number of slots of each of the four records behind the sizes. -/
structure SlotCounts (p : Payloads) : Prop where
  header : (p .header).length / 8 = 18
  wing : (p .wing).length / 8 = 6 * p.rows
  cwing : (p .cwing).length / 8 = 6 * p.rows
  response : (p .response).length / 8 = 2 * p.rows * p.rows

theorem IsFile.slotCounts {p : Payloads} (h : p.IsFile) : p.SlotCounts := by
  have hheader : (p .header).length = 144 := (h .header).2
  have hwing : (p .wing).length = 48 * p.rows := (h .wing).2
  have hcwing : (p .cwing).length = 48 * p.rows := (h .cwing).2
  have hresponse : (p .response).length = 16 * (p.rows * p.rows) := (h .response).2
  refine ⟨?_, ?_, ?_, ?_⟩
  · rw [hheader]
  · rw [hwing]
    omega
  · rw [hcwing]
    omega
  · rw [hresponse, Nat.mul_assoc]
    omega

end Payloads

/-- **Contents equal themselves exactly if their file holds no NaN.** -/
theorem ContentsOf.sameNumbers_self_iff {label : String} {p : Payloads} {c : Contents}
    (h : ContentsOf label p c) (hp : p.IsFile) : c.sameNumbers c = true ↔ p.HoldsNoNaN := by
  have hheader := h.header.sameNumbers_self_iff (hp .header).2
  have hwing := h.wing.sameAs_self_iff ((hp .wing).2.trans (by omega))
  have hcwing := h.cwing.sameAs_self_iff ((hp .cwing).2.trans (by omega))
  have hresponse := h.response.sameAs_self_iff (hp .response).2
  simp only [Contents.sameNumbers, beq_self_eq_true, Bool.true_and, Bool.and_eq_true, hheader,
    hwing, hcwing, hresponse, Payloads.HoldsNoNaN, List.forall_mem_cons, and_assoc]
  simp

/-- **What the same bytes are decoded to is equal exactly if the file holds no NaN.**  The bytes are
those of a file, in whatever ways they are delivered the one and the other time.  An infinity, a
negative zero or anything in the first record makes no difference, nor does it matter whether
contents are compared with what is decoded again or with themselves. -/
theorem sameNumbers_decoded_iff {source other : Source} (steady : source.Steady)
    (steady' : other.Steady) (hbytes : other.pending = source.pending) {label : String}
    {c : Contents} (hc : (decode source label).1 = .ok c) :
    ∃ (d : Contents) (p : Payloads), (decode other label).1 = .ok d ∧
      p.IsFile ∧ p.bytes RecordKind.sequence <+: source.pending ∧ p.SlotCounts ∧
      (c.sameNumbers d = true ↔ p.HoldsNoNaN) ∧ (c.sameNumbers c = true ↔ p.HoldsNoNaN) := by
  have hdecode : decode source label = (.ok c, (decode source label).2) := by rw [← hc]
  obtain ⟨p, hp, hprefix, hof, -⟩ := file_of_decode steady hdecode
  have hself := hof.sameNumbers_self_iff hp
  exact ⟨c, p, (decode_delivered steady steady' hbytes label).trans hc, hp, hprefix, hp.slotCounts,
    hself, hself⟩

/-- The payloads of a file with both infinities, a negative zero and the least positive number, and
the exponent bits of a NaN in the first record. -/
def withInfinities : Payloads
  | .dimensions => [1, 0, 0, 0, 2, 0, 0, 0, 0xff, 0xff, 0xff, 0x7f]
  | .header =>
    ([0x7ff0000000000000, 0xfff0000000000000, 0x8000000000000000, 1] ++ List.replicate 14 0).flatMap
      (LittleEndian.toBytes 8)
  | kind => single kind

/-- The payloads of a file that holds a NaN as its very last number. -/
def withNaN : Payloads
  | .response => [0, 0x7ff0000000000001].flatMap (LittleEndian.toBytes 8)
  | kind => single kind

theorem withInfinities_isFile : withInfinities.IsFile := by
  intro kind
  cases kind <;> exact ⟨by decide +kernel, by decide +kernel⟩

theorem withNaN_isFile : withNaN.IsFile := by
  intro kind
  cases kind <;> exact ⟨by decide +kernel, by decide +kernel⟩

/-- A file, five bytes at a time and with an interruption. -/
def inPieces (p : Payloads) : Source :=
  ⟨p.bytes RecordKind.sequence, 0, (some 5 : Option Nat), [3], none⟩

/-- A file with infinities, decoded at once and in pieces, and one with a NaN. -/
theorem sameNumbers_decoded_iff_withInfinities :
    (∃ c d, (decode (.ofBytes (withInfinities.bytes RecordKind.sequence)) "a").1 = .ok c ∧
      (decode (inPieces withInfinities) "a").1 = .ok d ∧ c.sameNumbers d = true) ∧
    ∃ c, (decode (inPieces withNaN) "a").1 = .ok c ∧ c.sameNumbers c = false := by
  have steady (p : Payloads) : (inPieces p).Steady := ⟨fun _ => show some 5 ≠ some 0 by decide, rfl⟩
  constructor
  · have hwhole := Source.steady_ofBytes (withInfinities.bytes RecordKind.sequence)
    obtain ⟨c, r, hc, -⟩ := decode_of_isFile hwhole "a" withInfinities_isFile (List.prefix_refl _)
    obtain ⟨d, p, hd, hp, hprefix, -, hiff, -⟩ :=
      sameNumbers_decoded_iff hwhole (steady withInfinities) rfl (congrArg Prod.fst hc)
    obtain rfl := hp.eq withInfinities_isFile hprefix (List.prefix_refl _)
    exact ⟨c, d, congrArg Prod.fst hc, hd, hiff.2 (by decide +kernel)⟩
  · obtain ⟨c, r, hc, -⟩ :=
      decode_of_isFile (steady withNaN) "a" withNaN_isFile (List.prefix_refl _)
    obtain ⟨d, p, -, hp, hprefix, -, -, hiff⟩ :=
      sameNumbers_decoded_iff (steady withNaN) (steady withNaN) rfl (congrArg Prod.fst hc)
    obtain rfl := hp.eq withNaN_isFile hprefix (List.prefix_refl _)
    refine ⟨c, congrArg Prod.fst hc, ?_⟩
    rw [← Bool.not_eq_true, hiff]
    decide +kernel

end Screening
