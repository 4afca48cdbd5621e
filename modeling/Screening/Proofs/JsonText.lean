import Screening.Json.Parser
import Screening.Json.Printer

/-!
# Written JSON is read back

What the printer writes, the parser reads back, in every style that sets the parts of a value apart
by blanks.  The readers are taken one by one, each in front of an arbitrary rest of the text:

* `digits?_append`, `number?_append` — digits and numbers, in front of a rest that does not go on
  with the number (`EndsNumber`).
* `string?_append` — strings, by the pieces that their characters are escaped to.
* `ValuesBack`, `ItemsBack`, `MembersBack` — values, items and members within a bound; a bound of
  the length of the text is enough, since every value and every comma takes a character.
* `parse_write` — whole texts; `parse_compact` and `parse_pretty` for the two styles there are.

The digits of a number are kept as they are written, so a value has to have numbers for it
(`Json.WellFormed`).
-/

set_option autoImplicit false

namespace Screening

/-! ## Values that can be written -/

/-- Digits, and at least one. -/
def IsDigits (run : List Char) : Prop := run ≠ [] ∧ ∀ c ∈ run, c.isDigit = true

/-- A literal that follows the grammar of numbers. -/
structure NumberLiteral.WellFormed (literal : NumberLiteral) : Prop where
  /-- There are digits before the point. -/
  whole : IsDigits literal.whole
  /-- A zero in front stands alone. -/
  leading : ¬ (literal.whole.head? = some '0' ∧ 1 < literal.whole.length)
  /-- There are digits after the point, if there is one. -/
  fraction : ∀ run ∈ literal.fraction, IsDigits run
  /-- There are digits in the exponent, if there is one. -/
  exponent : ∀ e ∈ literal.exponent, IsDigits e.2

namespace Json

/-- A value all of whose numbers follow the grammar. -/
inductive WellFormed : Json → Prop
  | null : WellFormed .null
  | bool (value : Bool) : WellFormed (.bool value)
  | number {literal : NumberLiteral} (h : literal.WellFormed) : WellFormed (.number literal)
  | string (text : Option String) : WellFormed (.string text)
  | array {items : List Json} (h : ∀ item ∈ items, WellFormed item) : WellFormed (.array items)
  | object {members : List (Option String × Json)} (h : ∀ member ∈ members, WellFormed member.2) :
      WellFormed (.object members)

theorem wellFormed_array_iff {items : List Json} :
    (Json.array items).WellFormed ↔ ∀ item ∈ items, item.WellFormed :=
  ⟨fun | .array h => h, .array⟩

theorem wellFormed_object_iff {members : List (Option String × Json)} :
    (Json.object members).WellFormed ↔ ∀ member ∈ members, member.2.WellFormed :=
  ⟨fun | .object h => h, .object⟩

/-! ## Blanks -/

/-- Nothing but blanks. -/
def Blanks (text : List Char) : Prop := ∀ c ∈ text, isBlank c = true

theorem skipBlanks_append {blanks : List Char} (h : Blanks blanks) (text : List Char) :
    skipBlanks (blanks ++ text) = skipBlanks text :=
  List.dropWhile_append_of_pos h

theorem skipBlanks_cons {c : Char} (h : isBlank c = false) (text : List Char) :
    skipBlanks (c :: text) = c :: text :=
  List.dropWhile_cons_of_neg (by simp [h])

/-- The parts of a value are set apart by blanks, and by the colons that have to be there. -/
structure Style.Spaced (style : Style) : Prop where
  /-- Lines are broken by blanks. -/
  lineBreak : ∀ depth, Blanks (style.lineBreak depth)
  /-- A colon may have blanks behind it. -/
  colon : ∃ blanks, Blanks blanks ∧ style.colon = ':' :: blanks

theorem Style.spaced_compact : Style.compact.Spaced :=
  ⟨fun _ _ hc => absurd hc List.not_mem_nil, [], fun _ hc => absurd hc List.not_mem_nil, rfl⟩

theorem Style.spaced_pretty : Style.pretty.Spaced := by
  refine ⟨fun depth c hc => ?_, [' '], by simp [Blanks, isBlank], rfl⟩
  obtain rfl | ⟨-, rfl⟩ : c = '\n' ∨ _ ∧ c = ' ' := by simpa [Style.pretty] using hc
  · rfl
  · rfl

/-! ## Numbers -/

/-- A rest that does not go on with a number before it. -/
def EndsNumber (rest : List Char) : Prop :=
  ∀ c ∈ rest.head?, c.isDigit = false ∧ c ≠ '.' ∧ c ≠ 'e' ∧ c ≠ 'E'

theorem endsNumber_cons {c : Char} (h : c.isDigit = false ∧ c ≠ '.' ∧ c ≠ 'e' ∧ c ≠ 'E')
    (rest : List Char) : EndsNumber (c :: rest) := by
  rintro _ ⟨⟩
  exact h

/-- Blanks end a number. -/
theorem EndsNumber.append_blanks {blanks rest : List Char} (hblanks : Blanks blanks)
    (hrest : EndsNumber rest) : EndsNumber (blanks ++ rest) := by
  cases blanks with
  | nil => exact hrest
  | cons c blanks =>
    have hc : isBlank c = true := hblanks c List.mem_cons_self
    refine endsNumber_cons ?_ (blanks ++ rest)
    simp only [isBlank, Bool.or_eq_true, beq_iff_eq] at hc
    obtain ((rfl | rfl) | rfl) | rfl := hc <;> decide

/-- Digits are read up to the first character that is none. -/
theorem digits?_append {run rest : List Char} (hrun : IsDigits run)
    (hrest : ∀ c ∈ rest.head?, c.isDigit = false) : digits? (run ++ rest) = some (run, rest) := by
  have htake : rest.takeWhile Char.isDigit = [] := by
    cases rest with
    | nil => rfl
    | cons c rest => exact List.takeWhile_cons_of_neg (by simp [hrest c rfl])
  have hdrop : rest.dropWhile Char.isDigit = rest := by
    cases rest with
    | nil => rfl
    | cons c rest => exact List.dropWhile_cons_of_neg (by simp [hrest c rfl])
  simp [digits?, List.takeWhile_append_of_pos hrun.2, List.dropWhile_append_of_pos hrun.2, htake,
    hdrop, hrun.1]

theorem EndsNumber.not_isDigit {rest : List Char} (h : EndsNumber rest) :
    ∀ c ∈ rest.head?, c.isDigit = false :=
  fun c hc => (h c hc).1

theorem exponentDigits?_append {negative : Bool} {run rest : List Char} (hrun : IsDigits run)
    (hrest : EndsNumber rest) :
    exponentDigits? ((if negative then '-' else '+') :: run ++ rest) =
      some (some (negative, run), rest) := by
  have hdigits := digits?_append hrun hrest.not_isDigit
  cases negative <;> simp [exponentDigits?, sign, hdigits]

/-- The text of an exponent that may be absent. -/
theorem exponent?_append {exponent : Option (Bool × List Char)} {rest : List Char}
    (h : ∀ e ∈ exponent, IsDigits e.2) (hrest : EndsNumber rest) :
    exponent? ((exponent.map exponentText).getD [] ++ rest) = some (exponent, rest) := by
  cases exponent with
  | none =>
    show exponent? rest = some (none, rest)
    cases rest with
    | nil => rfl
    | cons c rest =>
      obtain ⟨-, -, hlower, hupper⟩ := hrest c rfl
      simp [exponent?, hlower, hupper]
  | some e => exact exponentDigits?_append (h e rfl) hrest

/-- The text of a fraction that may be absent. -/
theorem fraction?_append {fraction : Option (List Char)} {rest : List Char}
    (h : ∀ run ∈ fraction, IsDigits run)
    (hrest : ∀ c ∈ rest.head?, c.isDigit = false ∧ c ≠ '.') :
    fraction? ((fraction.map ('.' :: ·)).getD [] ++ rest) = some (fraction, rest) := by
  cases fraction with
  | none =>
    show fraction? rest = some (none, rest)
    cases rest with
    | nil => rfl
    | cons c rest => simp [fraction?, (hrest c rfl).2]
  | some run =>
    have hdigits := digits?_append (h run rfl) fun c hc => (hrest c hc).1
    simp [fraction?, hdigits]

/-- What follows the fraction of a number is no digit and no point. -/
theorem head?_exponentText_append (exponent : Option (Bool × List Char)) {rest : List Char}
    (hrest : EndsNumber rest) :
    ∀ c ∈ ((exponent.map exponentText).getD [] ++ rest).head?, c.isDigit = false ∧ c ≠ '.' := by
  intro c hc
  cases exponent with
  | none => exact ⟨(hrest c hc).1, (hrest c hc).2.1⟩
  | some e =>
    obtain rfl : 'e' = c := by simpa [exponentText] using hc
    decide

/-- What follows the whole part of a number is no digit. -/
theorem head?_fractionText_append (fraction : Option (List Char)) {rest : List Char}
    (hrest : ∀ c ∈ rest.head?, c.isDigit = false ∧ c ≠ '.') :
    ∀ c ∈ ((fraction.map ('.' :: ·)).getD [] ++ rest).head?, c.isDigit = false := by
  intro c hc
  cases fraction with
  | none => exact (hrest c hc).1
  | some run =>
    obtain rfl : '.' = c := by simpa using hc
    decide

/-- The text of a number without its sign is read back. -/
theorem unsigned?_append {literal : NumberLiteral} (h : literal.WellFormed) {rest : List Char}
    (hrest : EndsNumber rest) :
    unsigned? literal.negative (literal.whole ++ ((literal.fraction.map ('.' :: ·)).getD [] ++
      ((literal.exponent.map exponentText).getD [] ++ rest))) = some (literal, rest) := by
  have hexponent := exponent?_append h.exponent hrest
  have hafter := head?_exponentText_append literal.exponent hrest
  have hfraction := fraction?_append h.fraction hafter
  have hwhole := digits?_append h.whole (head?_fractionText_append literal.fraction hafter)
  simp [unsigned?, whole?, hwhole, h.leading, hfraction, hexponent]

/-- **A number is read back in front of whatever ends it.** -/
theorem number?_append {literal : NumberLiteral} (h : literal.WellFormed) {rest : List Char}
    (hrest : EndsNumber rest) : number? (numberText literal ++ rest) = some (literal, rest) := by
  have hback := unsigned?_append h hrest
  simp only [numberText, List.append_assoc]
  by_cases hsign : literal.negative = true
  · rw [hsign] at hback
    rw [if_pos hsign]
    exact hback
  · rw [Bool.not_eq_true] at hsign
    rw [hsign] at hback
    rw [if_neg (by simp [hsign]), List.nil_append, number?]
    · exact hback
    · -- a number without a sign begins with a digit
      intro text htext
      obtain ⟨hne, hdigits⟩ := h.whole
      obtain ⟨c, run, hrun⟩ := List.exists_cons_of_ne_nil hne
      rw [hrun, List.cons_append, List.cons.injEq] at htext
      have := hdigits c (hrun ▸ List.mem_cons_self)
      rw [htext.1] at this
      exact absurd this (by decide)

/-! ## Strings -/

/-- What a character inside a string is read as: those that are escaped by their number are read as
a number, all others as themselves. -/
def pieceOf (c : Char) : Piece :=
  if c.toNat < 0x20 ∧ c ∉ ['\x08', '\t', '\n', '\x0c', '\r'] then .unit c.toNat else .char c

theorem hexValue?_digitChar : ∀ d < 16, hexValue? (Nat.digitChar d) = some d := by decide

/-- Four digits are read as the number they were written for. -/
theorem pieces?_hex4_append {n : Nat} (h : n < 0x10000) (text : List Char) :
    pieces? ('\\' :: 'u' :: hex4 n ++ text) =
      (pieces? text).map fun found => (.unit n :: found.1, found.2) := by
  have hdigit (k : Nat) : hexValue? (Nat.digitChar (k % 16)) = some (k % 16) :=
    hexValue?_digitChar _ (Nat.mod_lt _ (by decide))
  have hunit : ((n / 4096 % 16) * 16 + n / 256 % 16) * 256 + ((n / 16 % 16) * 16 + n % 16) = n := by
    omega
  show pieces? ('\\' :: 'u' :: Nat.digitChar _ :: Nat.digitChar _ :: Nat.digitChar _ ::
    Nat.digitChar _ :: text) = _
  rw [pieces?]
  simp only [hexUnit?, hdigit, Option.bind_eq_bind, Option.bind_some, Option.pure_def, hunit]
  cases pieces? text <;> rfl

/-- **A character inside a string is read as its piece.** -/
theorem pieces?_escape_append (c : Char) (text : List Char) :
    pieces? (escape c ++ text) =
      (pieces? text).map fun found => (pieceOf c :: found.1, found.2) := by
  by_cases hletter : c ∈ ['"', '\\', '\x08', '\t', '\n', '\x0c', '\r']
  · simp only [List.mem_cons, List.not_mem_nil, or_false] at hletter
    obtain rfl | rfl | rfl | rfl | rfl | rfl | rfl := hletter <;>
      cases hback : pieces? text <;> simp [escape, pieces?, unescape?, pieceOf, hback]
  · simp only [List.mem_cons, List.not_mem_nil, or_false, not_or] at hletter
    obtain ⟨hquote, hslash, hb, ht, hn, hf, hr⟩ := hletter
    by_cases hcontrol : c.toNat < 0x20
    · have hpiece : pieceOf c = .unit c.toNat := by simp [pieceOf, hcontrol, hb, ht, hn, hf, hr]
      have hescape : escape c = '\\' :: 'u' :: hex4 c.toNat := by
        simp [escape, hquote, hslash, hb, ht, hn, hf, hr, hcontrol]
      rw [hescape, hpiece]
      exact pieces?_hex4_append (by omega) text
    · have hpiece : pieceOf c = .char c := by simp [pieceOf, hcontrol]
      have hescape : escape c = [c] := by
        simp [escape, hquote, hslash, hb, ht, hn, hf, hr, hcontrol]
      rw [hescape, hpiece, List.singleton_append, pieces?, if_neg (by simp [hslash, hcontrol])]
      · cases pieces? text <;> rfl
      all_goals simp [hquote, hslash]

theorem pieces?_flatMap_escape_append (chars rest : List Char) :
    pieces? (chars.flatMap escape ++ '"' :: rest) = some (chars.map pieceOf, rest) := by
  induction chars with
  | nil => simp [pieces?]
  | cons c chars ih =>
    rw [List.flatMap_cons, List.append_assoc, pieces?_escape_append, ih]
    rfl

/-- A number below the surrogates is a character, whatever follows it. -/
theorem assemble?_unit {n : Nat} (h : n < 0xd800) (pieces : List Piece) :
    assemble? (.unit n :: pieces) = (Char.ofNat n :: ·) <$> assemble? pieces := by
  have hhigh : isHighSurrogate n = false := by simp [isHighSurrogate]; omega
  have hlow : isLowSurrogate n = false := by simp [isLowSurrogate]; omega
  rcases pieces with _ | ⟨_ | _, pieces⟩ <;> simp [assemble?, hhigh, hlow]

theorem assemble?_map_pieceOf (chars : List Char) :
    assemble? (chars.map pieceOf) = some chars := by
  induction chars with
  | nil => rfl
  | cons c chars ih =>
    rw [List.map_cons, pieceOf]
    split
    · rename_i h
      rw [assemble?_unit (by omega), ih, Char.ofNat_toNat]
      rfl
    · rw [assemble?, ih]
      rfl

/-- **A string is read back, whether it denotes a text or not.** -/
theorem string?_append (text : Option String) (rest : List Char) :
    ∃ inside, stringText text ++ rest = '"' :: inside ∧ string? inside = some (text, rest) := by
  cases text with
  | none =>
    refine ⟨'\\' :: 'u' :: hex4 0xd800 ++ '"' :: rest, by simp [stringText], ?_⟩
    rw [string?, pieces?_hex4_append (by decide)]
    simp [pieces?, assemble?, isHighSurrogate]
  | some text =>
    refine ⟨text.toList.flatMap escape ++ '"' :: rest, by simp [stringText], ?_⟩
    simp [string?, pieces?_flatMap_escape_append, assemble?_map_pieceOf]

/-- A name is read back with the colon behind it. -/
theorem name?_append (name : Option String) (rest : List Char) :
    name? (stringText name ++ ':' :: rest) = some (name, rest) := by
  obtain ⟨inside, hinside, hback⟩ := string?_append name (':' :: rest)
  rw [hinside]
  simp [name?, hback, skipBlanks_cons (show isBlank ':' = false from rfl), expect?]

/-! ## How texts begin -/

/-- A digit is none of the characters that other values begin or end with. -/
theorem ne_of_isDigit {c d : Char} (hc : c.isDigit = true) (hd : d.isDigit = false) : c ≠ d := by
  rintro rfl
  simp [hc] at hd

theorem isBlank_of_isDigit {c : Char} (hc : c.isDigit = true) : isBlank c = false := by
  have hne (d : Char) (hd : d.isDigit = false) : c ≠ d := ne_of_isDigit hc hd
  simp [isBlank, hne ' ' rfl, hne '\n' rfl, hne '\t' rfl, hne '\r' rfl]

/-- A number begins with a minus sign or a digit. -/
theorem exists_numberText_eq_cons {literal : NumberLiteral} (h : literal.WellFormed) :
    ∃ c text, numberText literal = c :: text ∧ (c = '-' ∨ c.isDigit = true) := by
  obtain ⟨hne, hdigits⟩ := h.whole
  obtain ⟨c, run, hrun⟩ := List.exists_cons_of_ne_nil hne
  cases hsign : literal.negative with
  | true => exact ⟨'-', _, by simp only [numberText, hsign]; rfl, .inl rfl⟩
  | false =>
    refine ⟨c, _, by simp only [numberText, hsign, hrun]; rfl, .inr ?_⟩
    exact hdigits c (hrun ▸ List.mem_cons_self)

theorem exists_stringText_eq_cons (text : Option String) :
    ∃ inside, stringText text = '"' :: inside := by
  cases text <;> exact ⟨_, rfl⟩

/-- No value begins with a blank or with the bracket that closes an array. -/
theorem exists_write_eq_cons (style : Style) (depth : Nat) {v : Json} (hv : v.WellFormed) :
    ∃ c text, write style depth v = c :: text ∧ isBlank c = false ∧ c ≠ ']' := by
  cases hv with
  | null => exact ⟨'n', _, rfl, rfl, by decide⟩
  | bool value => cases value <;> exact ⟨_, _, rfl, rfl, by decide⟩
  | number h =>
    obtain ⟨c, text, htext, rfl | hc⟩ := exists_numberText_eq_cons h
    · exact ⟨'-', text, htext, rfl, by decide⟩
    · exact ⟨c, text, htext, isBlank_of_isDigit hc, ne_of_isDigit hc rfl⟩
  | string text =>
    obtain ⟨inside, hinside⟩ := exists_stringText_eq_cons text
    exact ⟨'"', inside, hinside, rfl, by decide⟩
  | @array items h =>
    cases items with
    | nil => exact ⟨'[', _, rfl, rfl, by decide⟩
    | cons item items => exact ⟨'[', _, rfl, rfl, by decide⟩
  | @object members h =>
    cases members with
    | nil => exact ⟨'\x7b', _, rfl, rfl, by decide⟩
    | cons member members => exact ⟨'\x7b', _, rfl, rfl, by decide⟩

theorem skipBlanks_write_append (style : Style) (depth : Nat) {v : Json} (hv : v.WellFormed)
    (text : List Char) :
    skipBlanks (write style depth v ++ text) = write style depth v ++ text := by
  obtain ⟨c, front, hfront, hc, -⟩ := exists_write_eq_cons style depth hv
  rw [hfront, List.cons_append, skipBlanks_cons hc]

/-! ## Values -/

/-- Values are read back within a bound of the length of their text. -/
def ValuesBack (style : Style) (bound : Nat) : Prop :=
  ∀ (v : Json) (depth : Nat) (rest : List Char), v.WellFormed →
    (write style depth v).length ≤ bound → EndsNumber rest →
    value? bound (write style depth v ++ rest) = some (v, rest)

/-- The items of an array are read back up to the bracket that closes it. -/
def ItemsBack (style : Style) (bound : Nat) : Prop :=
  ∀ (item : Json) (items : List Json) (depth : Nat) (blanks rest : List Char),
    (∀ v ∈ item :: items, v.WellFormed) → Blanks blanks →
    (write style depth item).length + (writeItems style depth items).length < bound →
    items? bound (write style depth item ++ (writeItems style depth items ++
      (blanks ++ ']' :: rest))) = some (item :: items, rest)

/-- The members of an object are read back up to the brace that closes it. -/
def MembersBack (style : Style) (bound : Nat) : Prop :=
  ∀ (name : Option String) (v : Json) (members : List (Option String × Json)) (depth : Nat)
    (blanks rest : List Char),
    (∀ member ∈ (name, v) :: members, member.2.WellFormed) → Blanks blanks →
    (write style depth v).length + (writeMembers style depth members).length < bound →
    members? bound (stringText name ++ (style.colon ++ (write style depth v ++
      (writeMembers style depth members ++ (blanks ++ '\x7d' :: rest))))) =
        some ((name, v) :: members, rest)

variable {style : Style} {bound : Nat}

/-- A number is read as one, since it begins like no other value. -/
theorem value?_numberText_append {literal : NumberLiteral} (h : literal.WellFormed)
    {rest : List Char} (hrest : EndsNumber rest) :
    value? (bound + 1) (numberText literal ++ rest) = some (.number literal, rest) := by
  have hback := number?_append h hrest
  obtain ⟨c, text, htext, hc⟩ := exists_numberText_eq_cons h
  rw [htext, List.cons_append] at hback ⊢
  have hne {d : Char} (hd : d.isDigit = false) (hd' : d ≠ '-') : c ≠ d := by
    rintro rfl
    simp [hd, hd'] at hc
  rw [value?]
  · simp [hback]
  all_goals
    intro front hfront
    simp only [List.cons.injEq] at hfront
    exact hne (by decide) (by decide) hfront.1

/-- An array with an item is read as its items. -/
theorem value?_bracket {text : List Char} (h : ∀ rest, skipBlanks text ≠ ']' :: rest) :
    value? (bound + 1) ('[' :: text) =
      (items? bound (skipBlanks text)).map fun found => (.array found.1, found.2) := by
  rw [value?]
  split
  · rename_i rest hclosed
    exact absurd hclosed (h rest)
  · cases items? bound (skipBlanks text) <;> rfl

/-- An object with a member is read as its members. -/
theorem value?_brace {text : List Char} (h : ∀ rest, skipBlanks text ≠ '\x7d' :: rest) :
    value? (bound + 1) ('\x7b' :: text) =
      (members? bound (skipBlanks text)).map fun found => (.object found.1, found.2) := by
  rw [value?]
  split
  · rename_i rest hclosed
    exact absurd hclosed (h rest)
  · cases members? bound (skipBlanks text) <;> rfl

/-- Behind an item there is a comma or the end of the array, which ends a number. -/
theorem endsNumber_writeItems (style : Style) (depth : Nat) (items : List Json) {blanks : List Char}
    (hblanks : Blanks blanks) (rest : List Char) :
    EndsNumber (writeItems style depth items ++ (blanks ++ ']' :: rest)) := by
  cases items with
  | nil =>
    rw [writeItems, List.nil_append]
    exact .append_blanks hblanks (endsNumber_cons (by decide) rest)
  | cons item items => exact endsNumber_cons (by decide) _

/-- Behind a member there is a comma or the end of the object, which ends a number. -/
theorem endsNumber_writeMembers (style : Style) (depth : Nat)
    (members : List (Option String × Json)) {blanks : List Char} (hblanks : Blanks blanks)
    (rest : List Char) :
    EndsNumber (writeMembers style depth members ++ (blanks ++ '\x7d' :: rest)) := by
  cases members with
  | nil =>
    rw [writeMembers, List.nil_append]
    exact .append_blanks hblanks (endsNumber_cons (by decide) rest)
  | cons member members => exact endsNumber_cons (by decide) _

theorem skipBlanks_comma (text : List Char) : skipBlanks (',' :: text) = ',' :: text :=
  skipBlanks_cons rfl text

theorem skipBlanks_stringText_append (name : Option String) (text : List Char) :
    skipBlanks (stringText name ++ text) = stringText name ++ text := by
  obtain ⟨inside, hinside⟩ := exists_stringText_eq_cons name
  rw [hinside, List.cons_append, skipBlanks_cons rfl]

theorem itemsBack_succ (spaced : style.Spaced) (hvalues : ValuesBack style bound)
    (hitems : ItemsBack style bound) : ItemsBack style (bound + 1) := by
  intro item items depth blanks rest h hblanks hlength
  obtain ⟨hitem, hmore⟩ := List.forall_mem_cons.1 h
  have hends := endsNumber_writeItems style depth items hblanks rest
  have hback := hvalues item depth _ hitem (by omega) hends
  rw [items?, hback]
  cases items with
  | nil => simp [writeItems, skipBlanks_append hblanks, skipBlanks_cons, isBlank]
  | cons next more =>
    have hnext := hitems next more depth blanks rest hmore hblanks
      (by simp [writeItems] at hlength; omega)
    simp [writeItems, skipBlanks_comma, skipBlanks_append (spaced.lineBreak depth),
      skipBlanks_write_append style depth (hmore next List.mem_cons_self), hnext]

theorem membersBack_succ (spaced : style.Spaced) (hvalues : ValuesBack style bound)
    (hmembers : MembersBack style bound) : MembersBack style (bound + 1) := by
  intro name v members depth blanks rest h hblanks hlength
  obtain ⟨hv, hmore⟩ := List.forall_mem_cons.1 h
  obtain ⟨space, hspace, hcolon⟩ := spaced.colon
  have hends := endsNumber_writeMembers style depth members hblanks rest
  have hback := hvalues v depth _ hv (by omega) hends
  rw [members?, hcolon, List.cons_append, name?_append]
  simp only [Option.bind_eq_bind, Option.bind_some, skipBlanks_append hspace,
    skipBlanks_write_append style depth hv, hback]
  cases members with
  | nil => simp [writeMembers, skipBlanks_append hblanks, skipBlanks_cons, isBlank]
  | cons next more =>
    have hnext := hmembers next.1 next.2 more depth blanks rest hmore hblanks
      (by simp [writeMembers] at hlength; omega)
    simp only [hcolon, List.cons_append] at hnext
    simp [writeMembers, skipBlanks_comma, skipBlanks_append (spaced.lineBreak depth),
      skipBlanks_stringText_append, hcolon, hnext]

theorem valuesBack_succ (spaced : style.Spaced) (hitems : ItemsBack style bound)
    (hmembers : MembersBack style bound) : ValuesBack style (bound + 1) := by
  intro v depth rest hv hlength hrest
  cases hv with
  | null => simp [write, value?, expect?]
  | bool value => cases value <;> simp [write, value?, expect?]
  | number h =>
    rw [write]
    exact value?_numberText_append h hrest
  | string text =>
    obtain ⟨inside, hinside, hback⟩ := string?_append text rest
    rw [write, hinside]
    simp [value?, hback]
  | @array items h =>
    cases items with
    | nil => simp [write, value?, skipBlanks_cons, isBlank]
    | cons item items =>
      have hitem : item.WellFormed := h item List.mem_cons_self
      have hback := hitems item items (depth + 1) (style.lineBreak depth) rest h
        (spaced.lineBreak depth) (by simp [write] at hlength; omega)
      obtain ⟨c, front, hfront, -, hopen⟩ := exists_write_eq_cons style (depth + 1) hitem
      have hskip (text : List Char) :
          skipBlanks (style.lineBreak (depth + 1) ++ (write style (depth + 1) item ++ text)) =
            write style (depth + 1) item ++ text := by
        rw [skipBlanks_append (spaced.lineBreak (depth + 1)),
          skipBlanks_write_append style (depth + 1) hitem]
      simp only [write, List.cons_append, List.append_assoc, List.nil_append]
      rw [value?_bracket (by rw [hskip, hfront]; simp [hopen]), hskip, hback]
      rfl
  | @object members h =>
    cases members with
    | nil => simp [write, value?, skipBlanks_cons, isBlank]
    | cons member members =>
      have hback := hmembers member.1 member.2 members (depth + 1) (style.lineBreak depth) rest h
        (spaced.lineBreak depth) (by simp [write] at hlength; omega)
      obtain ⟨inside, hinside⟩ := exists_stringText_eq_cons member.1
      have hskip (text : List Char) :
          skipBlanks (style.lineBreak (depth + 1) ++ (stringText member.1 ++ text)) =
            stringText member.1 ++ text := by
        rw [skipBlanks_append (spaced.lineBreak (depth + 1)), skipBlanks_stringText_append]
      simp only [write, List.cons_append, List.append_assoc, List.nil_append]
      rw [value?_brace (by rw [hskip, hinside]; simp), hskip, hback]
      rfl

/-- **Values, items and members are read back within every bound.**  By induction on the bound:
each of the three readers calls the others with a bound one less. -/
theorem readsBack (spaced : style.Spaced) (bound : Nat) :
    ValuesBack style bound ∧ ItemsBack style bound ∧ MembersBack style bound := by
  induction bound with
  | zero =>
    refine ⟨fun v depth rest hv hlength _ => ?_, fun _ _ _ _ _ _ _ hlength => ?_,
      fun _ _ _ _ _ _ _ _ hlength => ?_⟩
    · obtain ⟨c, text, htext, -⟩ := exists_write_eq_cons style depth hv
      simp [htext] at hlength
    · exact absurd hlength (Nat.not_lt_zero _)
    · exact absurd hlength (Nat.not_lt_zero _)
  | succ bound ih =>
    obtain ⟨hvalues, hitems, hmembers⟩ := ih
    exact ⟨valuesBack_succ spaced hitems hmembers, itemsBack_succ spaced hvalues hitems,
      membersBack_succ spaced hvalues hmembers⟩

/-! ## Texts -/

/-- **A written value is read back.** -/
theorem parse_write (spaced : style.Spaced) {v : Json} (hv : v.WellFormed) :
    parse (String.ofList (write style 0 v)) = some v := by
  have hback := (readsBack spaced (2 * (write style 0 v).length + 1)).1 v 0 [] hv (by omega)
    (by simp [EndsNumber])
  have hskip := skipBlanks_write_append style 0 hv []
  rw [List.append_nil] at hback hskip
  simp only [parse, String.toList_ofList, String.length_ofList, hskip, hback]
  rfl

theorem parse_compact {v : Json} (hv : v.WellFormed) : parse (compact v) = some v :=
  parse_write Style.spaced_compact hv

theorem parse_pretty {v : Json} (hv : v.WellFormed) : parse (pretty v) = some v :=
  parse_write Style.spaced_pretty hv

end Json

end Screening
