import Screening.FileName.InBytes
import Screening.Proofs.IndexOrder

/-!
# Names read from their bytes

A name is read in bytes, and yet what is read are characters: the letters and digits of a name are
one byte each, and no byte of another character is one of theirs.  So a cut never falls inside a
character that matters, and four digits always fit in 32 bits.

* `encoded` — the bytes of characters; a text begins with given letters exactly where its bytes begin
  with theirs (`encoded_prefix_iff`), and may be cut between any two characters
  (`InBytes.isBoundary_encoded`).
* `InBytes.extend_eq` — bytes are read as digits or complained of, where there is room for the number.
* `Carries name digits` — a name begins as it should, with these digits.
* `InBytes.kpoint_eq`, `InBytes.isStandard_eq` — reading in bytes never breaks off and gives what
  reading the characters does.
* `names_read_exactly` — which names are read, as what, and in which order they come.
-/

set_option autoImplicit false

namespace Screening.FileName

/-! ## Characters in bytes -/

/-- The bytes of characters. -/
def encoded (chars : List Char) : List UInt8 := chars.flatMap String.utf8EncodeChar

theorem bytesOf_eq (text : String) : InBytes.bytesOf text = encoded text.toList := by
  obtain ⟨chars, rfl⟩ : ∃ chars, text = String.ofList chars := ⟨_, String.ofList_toList.symm⟩
  rw [InBytes.bytesOf, String.toUTF8_eq_toByteArray, String.toByteArray_ofList, List.utf8Encode,
    List.data_toByteArray, String.toList_ofList]
  rfl

theorem encoded_append (front rest : List Char) :
    encoded (front ++ rest) = encoded front ++ encoded rest := List.flatMap_append

theorem encoded_cons (c : Char) (rest : List Char) :
    encoded (c :: rest) = String.utf8EncodeChar c ++ encoded rest := rfl

/-- One of the first characters is one byte, its number; any other begins with a byte that is none
of these numbers, and that does not go on with a character. -/
theorem utf8EncodeChar_cases (c : Char) :
    (c.toNat < 128 ∧ String.utf8EncodeChar c = [UInt8.ofNat c.toNat]) ∨
      ∃ byte rest, String.utf8EncodeChar c = byte :: rest ∧ 192 ≤ byte.toNat := by
  fun_cases String.utf8EncodeChar c
  · rename_i v h
    exact Or.inl ⟨Nat.lt_succ_of_le h, rfl⟩
  all_goals
    refine Or.inr ⟨_, _, rfl, ?_⟩
    rw [UInt8.toNat_ofNat']
    omega

/-- The characters that are one byte each. -/
def Ascii (chars : List Char) : Prop := ∀ c ∈ chars, c.toNat < 128

theorem ascii_of_all {chars : List Char} (h : chars.all (fun c => decide (c.toNat < 128)) = true) :
    Ascii chars := fun c hmem => of_decide_eq_true (List.all_eq_true.1 h c hmem)

theorem toNat_ofNat_of_lt {n : Nat} (h : n < 128) : (UInt8.ofNat n).toNat = n := by
  rw [UInt8.toNat_ofNat']
  exact Nat.mod_eq_of_lt (by omega)

theorem utf8EncodeChar_ascii {c : Char} (h : c.toNat < 128) :
    String.utf8EncodeChar c = [UInt8.ofNat c.toNat] := by
  have hsmall : c.val.toNat ≤ 127 := Nat.le_of_lt_succ h
  rw [String.utf8EncodeChar, if_pos hsmall]
  rfl

theorem encoded_ascii {letters : List Char} (h : Ascii letters) :
    encoded letters = letters.map fun c => UInt8.ofNat c.toNat := by
  induction letters with
  | nil => rfl
  | cons c rest ih =>
    obtain ⟨hc, hrest⟩ := List.forall_mem_cons.1 h
    rw [encoded_cons, utf8EncodeChar_ascii hc, ih hrest]
    rfl

/-- **A text begins with given letters where its bytes begin with theirs.** -/
theorem encoded_prefix_iff {letters chars : List Char} (h : Ascii letters) :
    encoded letters <+: encoded chars ↔ letters <+: chars := by
  refine ⟨fun hbytes => ?_, fun ⟨rest, hrest⟩ => ⟨encoded rest, ?_⟩⟩
  · induction letters generalizing chars with
    | nil => exact List.nil_prefix
    | cons letter letters ih =>
      obtain ⟨hletter, hletters⟩ := List.forall_mem_cons.1 h
      rw [encoded_cons, utf8EncodeChar_ascii hletter] at hbytes
      cases chars with
      | nil => cases List.prefix_nil.1 hbytes
      | cons c chars =>
        rw [encoded_cons] at hbytes
        rcases utf8EncodeChar_cases c with ⟨hc, hone⟩ | ⟨byte, more, hmany, hbyte⟩
        · rw [hone] at hbytes
          obtain ⟨hsame, hrest⟩ := List.cons_prefix_cons.1 hbytes
          have hnat := congrArg UInt8.toNat hsame
          rw [toNat_ofNat_of_lt hletter, toNat_ofNat_of_lt hc] at hnat
          rw [Char.toNat_inj.1 hnat]
          exact (List.prefix_cons_inj c).2 (ih hletters hrest)
        · rw [hmany] at hbytes
          obtain ⟨hsame, -⟩ := List.cons_prefix_cons.1 hbytes
          have hnat := congrArg UInt8.toNat hsame
          rw [toNat_ofNat_of_lt hletter] at hnat
          omega
  · rw [← hrest, encoded_append]

/-! ## Cuts -/

namespace InBytes

/-- **A text may be cut between any two of its characters.** -/
theorem isBoundary_encoded (front rest : List Char) :
    isBoundary (encoded front ++ encoded rest) (encoded front).length = true := by
  rw [isBoundary, Bool.or_eq_true, List.getElem?_append_right (Nat.le_refl _), Nat.sub_self]
  refine Or.inr ?_
  cases rest with
  | nil => simp [encoded]
  | cons c rest =>
    rw [encoded_cons]
    rcases utf8EncodeChar_cases c with ⟨hc, hone⟩ | ⟨byte, more, hmany, hbyte⟩
    · rw [hone]
      simp [goesOn, toNat_ofNat_of_lt hc]
      omega
    · rw [hmany]
      simp [goesOn]
      omega

theorem le_length_of_isBoundary {bytes : List UInt8} {place : Nat}
    (h : isBoundary bytes place = true) : place ≤ bytes.length := by
  rw [isBoundary, Bool.or_eq_true] at h
  rcases h with h | h
  · rw [eq_of_beq h]
    exact Nat.zero_le _
  · split at h
    · rename_i byte hbyte
      exact Nat.le_of_lt (List.getElem?_eq_some_iff.1 hbyte).1
    · exact Nat.le_of_eq (eq_of_beq h)

/-- A cut gives as many bytes as it should. -/
theorem of_front? {count : Nat} {bytes cut : List UInt8} (h : front? count bytes = some cut) :
    cut <+: bytes ∧ cut.length = count := by
  rw [front?] at h
  split at h
  · rename_i hboundary
    cases h
    refine ⟨List.take_prefix _ _, ?_⟩
    rw [List.length_take, Nat.min_eq_left (le_length_of_isBoundary hboundary)]
  · cases h

theorem eq_of_behind? {front bytes rest : List UInt8} (h : behind? front bytes = some rest) :
    bytes = front ++ rest := by
  rw [behind?] at h
  split at h
  · rename_i hfront
    obtain ⟨later, rfl⟩ := List.isPrefixOf_iff_prefix.1 hfront
    cases h
    rw [List.drop_left]
  · cases h

end InBytes

/-! ## Digits -/

theorem ascii_of_digits {digits : List Char} (h : digits.all Char.isDigit = true) :
    Ascii digits := by
  intro digit hmem
  have hle := (toNat_of_isDigit (List.all_eq_true.1 h digit hmem)).2
  have hnine : '9'.toNat = 57 := rfl
  omega

theorem utf8EncodeChar_digit {digit : Char} (h : digit.isDigit = true) :
    String.utf8EncodeChar digit = [UInt8.ofNat digit.toNat] ∧
      (UInt8.ofNat digit.toNat).toNat = digit.toNat := by
  have hlt : digit.toNat < 128 := Nat.lt_of_le_of_lt (toNat_of_isDigit h).2 (by decide)
  exact ⟨utf8EncodeChar_ascii hlt, toNat_ofNat_of_lt hlt⟩

theorem length_encoded_isIndex {digits : List Char} (h : IsIndex digits) :
    (encoded digits).length = indexDigits := by
  rw [encoded_ascii (ascii_of_digits h.2), List.length_map, h.1]

/-- Digits in bytes are digits, and spell the same number. -/
theorem encoded_digits {digits : List Char} (h : digits.all Char.isDigit = true) (n : Nat) :
    (encoded digits).all InBytes.isDigit = true ∧
      (encoded digits).foldl (fun n byte => 10 * n + (byte.toNat - '0'.toNat)) n =
        digits.foldl (fun n digit => 10 * n + (digit.toNat - '0'.toNat)) n := by
  induction digits generalizing n with
  | nil => exact ⟨rfl, rfl⟩
  | cons digit rest ih =>
    rw [List.all_cons, Bool.and_eq_true] at h
    obtain ⟨hone, hnat⟩ := utf8EncodeChar_digit h.1
    obtain ⟨hall, hvalue⟩ := ih h.2 (10 * n + (digit.toNat - '0'.toNat))
    have hbyte : InBytes.isDigit (UInt8.ofNat digit.toNat) = true := by
      rw [InBytes.isDigit, hnat]
      exact decide_eq_true (toNat_of_isDigit h.1)
    rw [encoded_cons, hone, List.singleton_append, List.all_cons, hbyte, hall, List.foldl_cons,
      hnat, hvalue]
    exact ⟨rfl, rfl⟩

theorem exists_digit_of_byte {byte : UInt8} (h : InBytes.isDigit byte = true) :
    ∃ digit : Char, digit.isDigit = true ∧ String.utf8EncodeChar digit = [byte] := by
  have hall : ∀ n < 10, (Char.ofNat (48 + n)).isDigit = true ∧
      String.utf8EncodeChar (Char.ofNat (48 + n)) = [UInt8.ofNat (48 + n)] := by decide
  obtain ⟨hzero, hnine⟩ := of_decide_eq_true h
  have hrange : 48 ≤ byte.toNat ∧ byte.toNat ≤ 57 := ⟨hzero, hnine⟩
  have hplace : 48 + (byte.toNat - 48) = byte.toNat := by omega
  obtain ⟨hdigit, hbyte⟩ := hall (byte.toNat - 48) (by omega)
  rw [hplace] at hdigit hbyte
  rw [UInt8.ofNat_toNat] at hbyte
  exact ⟨_, hdigit, hbyte⟩

/-- Bytes of digits are the bytes of characters that are digits. -/
theorem exists_digits_of_bytes {bytes : List UInt8} (h : bytes.all InBytes.isDigit = true) :
    ∃ digits : List Char, digits.all Char.isDigit = true ∧ digits.length = bytes.length ∧
      bytes = encoded digits := by
  induction bytes with
  | nil => exact ⟨[], rfl, rfl, rfl⟩
  | cons byte rest ih =>
    rw [List.all_cons, Bool.and_eq_true] at h
    obtain ⟨digit, hdigit, hbyte⟩ := exists_digit_of_byte h.1
    obtain ⟨digits, hdigits, hlength, rfl⟩ := ih h.2
    refine ⟨digit :: digits, ?_, congrArg Nat.succ hlength, ?_⟩
    · rw [List.all_cons, hdigit, hdigits]
      rfl
    · rw [encoded_cons, hbyte]
      rfl

namespace InBytes

variable {digits : List Char} {byte : UInt8} {bytes : List UInt8} {n : Nat}

theorem shift_eq {digit : Nat} (h : 10 * n + digit < UInt32.size) :
    shift n digit = .ok (10 * n + digit) := by
  have htens : held? (n * 10) = some (n * 10) := if_pos (by omega)
  have hsum : held? (n * 10 + digit) = some (n * 10 + digit) := if_pos (by omega)
  rw [shift, htens, Option.bind_some, hsum, Nat.mul_comm]

/-- One step: a digit goes behind the number, as long as 32 bits hold the result. -/
theorem extend_cons (hdigit : isDigit byte = true)
    (h : 10 * n + (byte.toNat - '0'.toNat) < UInt32.size) :
    extend n (byte :: bytes) = extend (10 * n + (byte.toNat - '0'.toNat)) bytes := by
  have hzero : '0'.toNat ≤ byte.toNat := (of_decide_eq_true hdigit).1
  have hvalue : digitValue byte = .ok (byte.toNat - '0'.toNat) := if_pos hzero
  rw [extend, if_pos hdigit, hvalue]
  simp only [bind, Except.bind, shift_eq h]

/-- **Where 32 bits hold as many digits, bytes are either digits and read in full, or complained
of.** -/
theorem extend_eq (h : (n + 1) * 10 ^ bytes.length ≤ UInt32.size) :
    extend n bytes = .ok (if bytes.all isDigit then
      .ok (bytes.foldl (fun n byte => 10 * n + (byte.toNat - '0'.toNat)) n)
    else .error .invalidFileName) := by
  -- The room that is left for the digits to come shrinks by the factor that the number grows by.
  induction bytes generalizing n with
  | nil => rfl
  | cons byte rest ih =>
    rw [List.all_cons]
    cases hdigit : isDigit byte with
    | false =>
      rw [extend, hdigit]
      rfl
    | true =>
      have hnine : byte.toNat - '0'.toNat ≤ 9 := Nat.sub_le_sub_right (of_decide_eq_true hdigit).2 _
      have hpow : 0 < 10 ^ rest.length := Nat.pow_pos (by decide)
      have hnext : (10 * n + (byte.toNat - '0'.toNat) + 1) * 10 ^ rest.length ≤ UInt32.size := by
        refine Nat.le_trans (Nat.mul_le_mul_right _ (?_ : _ ≤ (n + 1) * 10)) ?_
        · omega
        · rwa [List.length_cons, Nat.pow_succ', ← Nat.mul_assoc] at h
      have hfits : 10 * n + (byte.toNat - '0'.toNat) < UInt32.size :=
        Nat.lt_of_lt_of_le (Nat.lt_succ_self _) (Nat.le_trans (Nat.le_mul_of_pos_right _ hpow) hnext)
      rw [extend_cons hdigit hfits, ih hnext, Bool.true_and, List.foldl_cons]

/-- Four digits always fit. -/
theorem number_eq (hlength : bytes.length = indexDigits) :
    number bytes = .ok (if bytes.all isDigit then
      .ok (bytes.foldl (fun n byte => 10 * n + (byte.toNat - '0'.toNat)) 0)
    else .error .invalidFileName) := by
  have hne : bytes.isEmpty = false := by
    rw [List.isEmpty_eq_false_iff, ← List.length_pos_iff, hlength]
    decide
  have hroom : (0 + 1) * 10 ^ bytes.length ≤ UInt32.size := by
    rw [hlength]
    decide
  rw [number, hne, ← extend_eq hroom]
  rfl

/-- The digits of an index are read in full. -/
theorem number_of_isIndex (h : IsIndex digits) :
    number (encoded digits) = .ok (.ok (numberOf digits)) := by
  obtain ⟨hall, hvalue⟩ := encoded_digits h.2 0
  rw [number_eq (length_encoded_isIndex h), if_pos hall, hvalue, numberOf]

/-- Four bytes that are not the digits of an index are complained of. -/
theorem number_of_not_isIndex (hlength : bytes.length = indexDigits)
    (h : ∀ digits, IsIndex digits → bytes ≠ encoded digits) :
    number bytes = .ok (.error .invalidFileName) := by
  have hother : ¬ bytes.all isDigit = true := fun hall => by
    obtain ⟨digits, hdigits, hsame, hbytes⟩ := exists_digits_of_bytes hall
    exact h digits ⟨hsame.trans hlength, hdigits⟩ hbytes
  rw [number_eq hlength, if_neg hother]

end InBytes

/-! ## Names -/

/-- A name carries digits: it begins with the letters and goes on with the digits of an index. -/
def Carries (name : String) (digits : List Char) : Prop :=
  IsIndex digits ∧ stemLetters ++ digits <+: name.toList

section Names

variable {name : String} {digits : List Char}

theorem ascii_stemLetters : Ascii stemLetters := ascii_of_all (by decide)

theorem ascii_ending : Ascii ending := ascii_of_all (by decide)

theorem carries_nameOf (h : IsIndex digits) : Carries (nameOf digits) digits := by
  refine ⟨h, ?_⟩
  rw [toList_nameOf]
  exact List.prefix_append _ _

theorem kpoint_of_carries (h : Carries name digits) : kpoint name = .ok (numberOf digits) := by
  obtain ⟨rest, hrest⟩ := h.2
  rw [kpoint, kpoint?, ← hrest, splitIndex?_append h.1]
  rfl

theorem kpoint_of_not_carries (h : ∀ digits, ¬ Carries name digits) :
    kpoint name = .error .invalidFileName := by
  rw [kpoint, kpoint?]
  cases hsplit : splitIndex? name.toList with
  | none => rfl
  | some found =>
    obtain ⟨index, rest⟩ := found
    obtain ⟨digits, hindex, hname, -⟩ := eq_of_splitIndex? hsplit
    exact absurd ⟨hindex, ⟨rest, hname.symm⟩⟩ (h digits)

namespace InBytes

theorem stem_eq : stem = encoded stemLetters := by
  rw [stem, bytesOf_eq, String.toList_ofList]

theorem suffix_eq : suffix = encoded ending := by
  rw [suffix, bytesOf_eq, String.toList_ofList]

/-- What a name carries is cut out of its bytes and read. -/
theorem kpoint_of_carries (h : Carries name digits) : kpoint name = .ok (.ok (numberOf digits)) := by
  obtain ⟨rest, hrest⟩ := h.2
  have hbytes : bytesOf name = stem ++ (encoded digits ++ encoded rest) := by
    rw [bytesOf_eq, ← hrest, encoded_append, encoded_append, List.append_assoc, stem_eq]
  have hlength := length_encoded_isIndex h.1
  have hbehind : behind? stem (stem ++ (encoded digits ++ encoded rest)) =
      some (encoded digits ++ encoded rest) := by
    rw [behind?, if_pos (List.isPrefixOf_iff_prefix.2 (List.prefix_append _ _)), List.drop_left]
  have hfront : front? indexDigits (encoded digits ++ encoded rest) = some (encoded digits) := by
    rw [front?, ← hlength, if_pos (isBoundary_encoded digits rest), List.take_left]
  rw [kpoint, hbytes, hbehind, Option.bind_some, hfront]
  exact number_of_isIndex h.1

/-- Where a name carries no index, the complaint is always the same, wherever the reading stops. -/
theorem kpoint_of_not_carries (h : ∀ digits, ¬ Carries name digits) :
    kpoint name = .ok (.error .invalidFileName) := by
  rw [kpoint]
  split
  · rename_i bytes hcut
    obtain ⟨rest, hbehind, hfront⟩ := Option.bind_eq_some_iff.1 hcut
    obtain ⟨hbytes, hlength⟩ := of_front? hfront
    refine number_of_not_isIndex hlength fun digits hindex hsame => h digits ⟨hindex, ?_⟩
    have hascii : Ascii (stemLetters ++ digits) :=
      List.forall_mem_append.2 ⟨ascii_stemLetters, ascii_of_digits hindex.2⟩
    rw [← encoded_prefix_iff hascii, ← bytesOf_eq, eq_of_behind? hbehind, encoded_append, ← stem_eq,
      ← hsame]
    exact (List.prefix_append_right_inj _).2 hbytes
  · rfl

/-- **Reading a name in bytes never breaks off and gives its index.** -/
theorem kpoint_eq (name : String) : kpoint name = .ok (FileName.kpoint name) := by
  by_cases h : ∃ digits, Carries name digits
  · obtain ⟨digits, hcarries⟩ := h
    rw [kpoint_of_carries hcarries, FileName.kpoint_of_carries hcarries]
  · rw [not_exists] at h
    rw [kpoint_of_not_carries h, FileName.kpoint_of_not_carries h]

/-- A name in the usual form is as long as it should be and ends as it should. -/
theorem bytes_nameOf (h : IsIndex digits) :
    (bytesOf (nameOf digits)).length = stem.length + indexDigits + suffix.length ∧
      suffix <:+ bytesOf (nameOf digits) := by
  rw [bytesOf_eq, toList_nameOf, encoded_append, encoded_append, ← stem_eq, ← suffix_eq,
    List.length_append, List.length_append, length_encoded_isIndex h]
  exact ⟨rfl, List.suffix_append _ _⟩

/-- A name that carries an index and has that length and end is in the usual form. -/
theorem eq_nameOf_of_bytes (h : Carries name digits)
    (hlength : (bytesOf name).length = stem.length + indexDigits + suffix.length)
    (hsuffix : suffix <:+ bytesOf name) : name = nameOf digits := by
  obtain ⟨hindex, rest, hrest⟩ := h
  have hbytes : bytesOf name = stem ++ encoded digits ++ encoded rest := by
    rw [bytesOf_eq, ← hrest, encoded_append, encoded_append, stem_eq]
  rw [hbytes] at hlength hsuffix
  rw [List.length_append, List.length_append, length_encoded_isIndex hindex] at hlength
  have hsame : encoded ending = encoded rest := by
    rw [← suffix_eq]
    exact (List.suffix_of_suffix_length_le hsuffix (List.suffix_append _ _) (by omega)).eq_of_length
      (by omega)
  obtain ⟨more, hmore⟩ : ending <+: rest :=
    (encoded_prefix_iff ascii_ending).1 (hsame ▸ List.prefix_refl _)
  have hnone : more = [] := by
    cases more with
    | nil => rfl
    | cons c more =>
      rw [← hmore, encoded_append, encoded_cons] at hsame
      have hcount := congrArg List.length hsame
      have hpos := c.utf8Size_pos
      simp only [List.length_append, String.length_utf8EncodeChar] at hcount
      omega
  rw [hnone, List.append_nil] at hmore
  rw [← String.toList_inj, toList_nameOf, ← hrest, hmore]

/-- **The usual form is told from the bytes**, and telling it never breaks off. -/
theorem isStandard_eq (name : String) : isStandard name = .ok (FileName.isStandard name) := by
  rw [isStandard, kpoint_eq]
  show (if _ then _ else _) = _
  split
  · rename_i hform
    show Except.ok (FileName.kpoint name).toBool = _
    rw [Except.ok.injEq, Bool.eq_iff_iff, isStandard_iff]
    constructor
    · intro hread
      by_cases h : ∃ digits, Carries name digits
      · obtain ⟨digits, hcarries⟩ := h
        exact ⟨digits, hcarries.1,
          eq_nameOf_of_bytes hcarries hform.1 (List.isSuffixOf_iff_suffix.1 hform.2)⟩
      · rw [FileName.kpoint_of_not_carries (not_exists.1 h)] at hread
        cases hread
    · rintro ⟨digits, hindex, rfl⟩
      rw [FileName.kpoint_of_carries (carries_nameOf hindex)]
      rfl
  · rename_i hform
    show Except.ok false = _
    rw [Except.ok.injEq, eq_comm, Bool.eq_false_iff, Ne, isStandard_iff]
    rintro ⟨digits, hindex, rfl⟩
    obtain ⟨hlength, hsuffix⟩ := bytes_nameOf hindex
    exact hform ⟨hlength, List.isSuffixOf_iff_suffix.2 hsuffix⟩

end InBytes

end Names

/-- Names in the usual form are ordered byte by byte as their indices. -/
theorem bytesOf_nameOf_lt_iff {digits digits' : List Char} (h : IsIndex digits)
    (h' : IsIndex digits') :
    InBytes.bytesOf (nameOf digits) < InBytes.bytesOf (nameOf digits') ↔
      numberOf digits < numberOf digits' := by
  have hlt (c d : Char) (hc : c.isDigit = true) (hd : d.isDigit = true) :
      UInt8.ofNat c.toNat < UInt8.ofNat d.toNat ↔ c.toNat < d.toNat := by
    rw [UInt8.lt_iff_toNat_lt, (utf8EncodeChar_digit hc).2, (utf8EncodeChar_digit hd).2]
  have hinj (c d : Char) (hc : c.isDigit = true) (hd : d.isDigit = true)
      (hsame : UInt8.ofNat c.toNat = UInt8.ofNat d.toNat) : c = d := by
    have hnat := congrArg UInt8.toNat hsame
    rw [(utf8EncodeChar_digit hc).2, (utf8EncodeChar_digit hd).2] at hnat
    exact Char.toNat_inj.1 hnat
  rw [bytesOf_eq, bytesOf_eq, toList_nameOf, toList_nameOf, encoded_append, encoded_append,
    encoded_append, encoded_append, List.append_assoc, List.append_assoc, append_lt_append_left_iff,
    encoded_ascii (ascii_of_digits h.2), encoded_ascii (ascii_of_digits h'.2),
    append_lt_append_iff hlt hinj h.2 h'.2 (h.1.trans h'.1.symm)]

theorem nameOf_inj {digits digits' : List Char} (h : nameOf digits = nameOf digits') :
    digits = digits' := by
  rw [← String.toList_inj, toList_nameOf, toList_nameOf] at h
  exact List.append_cancel_left (List.append_cancel_right h)

/-- **Names are read exactly.**  Reading a name in bytes never breaks off, and what it gives is this.
A name has an index just if it begins with the letters and four digits, which spell the index in the
decimal way, so that it is below ten thousand; every other name gets the same complaint.  A name is
in the usual form just if it is the letters, four digits and the ending, and then it has an index.
Names in the usual form come in the order of their indices, byte by byte, and no two of them share
one. -/
theorem names_read_exactly :
    (∀ name : String,
      (InBytes.kpoint name = .ok (kpoint name) ∧
        InBytes.isStandard name = .ok (isStandard name)) ∧
      (∀ n, kpoint name = .ok n ↔
        ∃ digits, Carries name digits ∧ Nat.ofDigits 10 (digits.map valueOf).reverse = n) ∧
      (∀ n, kpoint name = .ok n → n ≤ 9999) ∧
      ((¬ ∃ digits, Carries name digits) → kpoint name = .error .invalidFileName) ∧
      (isStandard name = true ↔
        ∃ digits, IsIndex digits ∧ name.toList = stemLetters ++ digits ++ ending) ∧
      (isStandard name = true → ∃ n, kpoint name = .ok n)) ∧
    ∀ a b, isStandard a = true → isStandard b = true →
      ∃ i j, kpoint a = .ok i ∧ kpoint b = .ok j ∧
        (InBytes.bytesOf a < InBytes.bytesOf b ↔ i < j) ∧ (a = b ↔ i = j) := by
  refine ⟨fun name => ?_, fun a b ha hb => ?_⟩
  · have hread (n : Nat) : kpoint name = .ok n ↔
        ∃ digits, Carries name digits ∧ Nat.ofDigits 10 (digits.map valueOf).reverse = n := by
      constructor
      · intro h
        by_cases hcarries : ∃ digits, Carries name digits
        · obtain ⟨digits, hdigits⟩ := hcarries
          rw [kpoint_of_carries hdigits, numberOf_eq] at h
          exact ⟨digits, hdigits, Except.ok.inj h⟩
        · rw [kpoint_of_not_carries (not_exists.1 hcarries)] at h
          cases h
      · rintro ⟨digits, hdigits, rfl⟩
        rw [kpoint_of_carries hdigits, numberOf_eq]
    refine ⟨⟨InBytes.kpoint_eq name, InBytes.isStandard_eq name⟩, hread, fun n hn => ?_,
      fun hnone => kpoint_of_not_carries (not_exists.1 hnone), ?_, fun hstandard => ?_⟩
    · obtain ⟨digits, ⟨hindex, -⟩, rfl⟩ := (hread n).1 hn
      have hlt := numberOf_lt hindex.2
      rw [hindex.1, numberOf_eq] at hlt
      exact Nat.le_of_lt_succ hlt
    · simp only [isStandard_iff, ← String.toList_inj, toList_nameOf]
    · obtain ⟨digits, hindex, rfl⟩ := isStandard_iff.1 hstandard
      exact ⟨_, kpoint_of_carries (carries_nameOf hindex)⟩
  · obtain ⟨digits, hindex, rfl⟩ := isStandard_iff.1 ha
    obtain ⟨digits', hindex', rfl⟩ := isStandard_iff.1 hb
    refine ⟨_, _, kpoint_of_carries (carries_nameOf hindex),
      kpoint_of_carries (carries_nameOf hindex'), bytesOf_nameOf_lt_iff hindex hindex', ?_⟩
    exact ⟨fun hsame => by rw [nameOf_inj hsame], fun hsame => by
      rw [numberOf_inj hindex.2 hindex'.2 (hindex.1.trans hindex'.1.symm) hsame]⟩

theorem names_read_exactly_twoFiles :
    InBytes.kpoint "WFULL012é.tmp" = .ok (.error .invalidFileName) ∧
      isStandard "WFULL0009.tmp" = true ∧ isStandard "WFULL0010.tmp" = true ∧
      InBytes.bytesOf "WFULL0009.tmp" < InBytes.bytesOf "WFULL0010.tmp" := by
  have hnine : isStandard "WFULL0009.tmp" = true := by decide
  have hten : isStandard "WFULL0010.tmp" = true := by decide
  have hother : kpoint "WFULL012é.tmp" = .error .invalidFileName := by decide
  obtain ⟨i, j, hi, hj, horder, -⟩ := names_read_exactly.2 _ _ hnine hten
  have hi' : kpoint "WFULL0009.tmp" = .ok 9 := by decide
  have hj' : kpoint "WFULL0010.tmp" = .ok 10 := by decide
  obtain rfl : i = 9 := Except.ok.inj (hi.symm.trans hi')
  obtain rfl : j = 10 := Except.ok.inj (hj.symm.trans hj')
  exact ⟨hother ▸ (names_read_exactly.1 "WFULL012é.tmp").1.1, hnine, hten, horder.2 (by decide)⟩

end Screening.FileName
