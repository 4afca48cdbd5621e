import Screening.Matrix.InWords

/-!
# Every way of looking at a matrix sees the same elements

A matrix is looked at element by element, by rows, by columns, by a corner, or all of it in the
order of its storage.  Each of these computes places in the storage in its own manner.  That they
agree rests on one fact: the storage holds exactly one element for each row and column
(`Matrix.exists_get?`).

With machine words each of them gives the same, since whatever is computed lies within the storage.
There is one exception.  A matrix without columns may have any number of rows, and a list of these
has no more items than there is room for.

* `Matrix.map_some_row`, `Matrix.map_some_col`, `Matrix.block_eq`, `Matrix.map_some_entries` — rows,
  columns, corners and entries in terms of single elements.
* `Matrix.write_entries` — the entries, written back to their places, are the storage.
* `Matrix.InWords.get?_eq` and the like — what is computed with machine words.
* `Matrix.Shows`, `Matrix.ComputesInWords` — all of this of one matrix; `Matrix.shows_of_built` is
  that it holds of every matrix that can be built.
* `Matrix.breaksOff_without_columns` — lists of rows for which there is no room.
-/

set_option autoImplicit false

namespace Screening

namespace Matrix

variable {α β : Type} (m : Matrix α)

/-! ## Single elements -/

/-- There is an element at every row and column of the shape. -/
theorem exists_get? {row col : Nat} (hrow : row < m.nrows) (hcol : col < m.ncols) :
    ∃ h : flatIndex row col m.nrows < m.data.size,
      m.get? row col = some m.data[flatIndex row col m.nrows] := by
  refine ⟨m.flatIndex_lt hrow hcol, ?_⟩
  rw [get?, if_pos ⟨hrow, hcol⟩, Array.getElem?_eq_getElem]

theorem isSome_get? {row col : Nat} (hrow : row < m.nrows) (hcol : col < m.ncols) :
    ∃ x, m.get? row col = some x :=
  ⟨_, (m.exists_get? hrow hcol).2⟩

theorem get?_eq_none {row col : Nat} (h : ¬ (row < m.nrows ∧ col < m.ncols)) :
    m.get? row col = none := if_neg h

/-- An element of the storage is the one at the row and column of its place. -/
theorem getElem?_data {index : Nat} (h : index < m.data.size) :
    m.data[index]? = m.get? (index % m.nrows) (index / m.nrows) := by
  have hsize := m.size_eq ▸ h
  have hpos : 0 < m.nrows := Nat.pos_of_ne_zero fun hzero => by simp [hzero] at hsize
  have hrow : index % m.nrows < m.nrows := Nat.mod_lt _ hpos
  have hcol : index / m.nrows < m.ncols := Nat.div_lt_of_lt_mul hsize
  have hindex : flatIndex (index % m.nrows) (index / m.nrows) m.nrows = index := by
    rw [flatIndex, Nat.mul_comm, Nat.div_add_mod]
  rw [get?, if_pos ⟨hrow, hcol⟩, hindex]

/-! ## Rows, columns and corners -/

/-- Where there is something for every item, nothing is left out. -/
theorem map_some_filterMap {f : β → Option α} {items : List β}
    (h : ∀ x ∈ items, ∃ y, f x = some y) : (items.filterMap f).map some = items.map f := by
  induction items with
  | nil => rfl
  | cons x rest ih =>
    obtain ⟨⟨y, hy⟩, hrest⟩ := List.forall_mem_cons.1 h
    rw [List.filterMap_cons_some hy, List.map_cons, List.map_cons, ih hrest, hy]

theorem map_some_rowUpTo {row : Nat} (hrow : row < m.nrows) (cols : Nat) :
    (m.rowUpTo row cols).map some = (List.range (min cols m.ncols)).map (m.get? row) := by
  refine map_some_filterMap fun col hcol => m.isSome_get? hrow ?_
  exact Nat.lt_of_lt_of_le (List.mem_range.1 hcol) (Nat.min_le_right _ _)

/-- A row holds the element of each column. -/
theorem map_some_row (row : Nat) :
    (m.row row).map some =
      if row < m.nrows then (List.range m.ncols).map (m.get? row) else [] := by
  rw [Matrix.row]
  split
  · rename_i hrow
    rw [m.map_some_rowUpTo hrow, Nat.min_self]
  · rfl

/-- A column holds the element of each row. -/
theorem map_some_col (col : Nat) :
    (m.col col).map some =
      if col < m.ncols then (List.range m.nrows).map (m.get? · col) else [] := by
  rw [Matrix.col]
  split
  · rename_i hcol
    exact map_some_filterMap fun row hrow => m.isSome_get? (List.mem_range.1 hrow) hcol
  · rfl

theorem map_some_inj {first second : List α} : first.map some = second.map some ↔ first = second :=
  List.map_inj_right fun _ _ => Option.some.inj

theorem rowUpTo_eq_take {row : Nat} (hrow : row < m.nrows) (cols : Nat) :
    m.rowUpTo row cols = (m.row row).take (min cols m.ncols) := by
  rw [← map_some_inj, List.map_take, map_some_rowUpTo m hrow, map_some_row, if_pos hrow,
    ← List.map_take, List.take_range, Nat.min_assoc, Nat.min_self]

/-- A corner is cut out of the rows. -/
theorem block_eq (rows cols : Nat) :
    m.block rows cols =
      (m.rows.take (min rows m.nrows)).map (List.take (min cols m.ncols)) := by
  rw [Matrix.rows, ← List.map_take, List.take_range, Nat.min_assoc, Nat.min_self, List.map_map]
  refine List.map_congr_left fun row hmem => m.rowUpTo_eq_take ?_ cols
  exact Nat.lt_of_lt_of_le (List.mem_range.1 hmem) (Nat.min_le_right _ _)

/-! ## Entries -/

/-- The rows and columns of a shape, a column after the other. -/
def positions (nrows ncols : Nat) : List (Nat × Nat) :=
  (List.range ncols).flatMap fun col => (List.range nrows).map fun row => (row, col)

/-- The places of the storage lie in the order of the columns. -/
theorem map_range_eq_positions (nrows ncols : Nat) :
    (List.range (ncols * nrows)).map (flatPosition · nrows) = positions nrows ncols := by
  induction ncols with
  | zero => rw [Nat.zero_mul]; rfl
  | succ ncols ih =>
    have hlast : (List.range nrows).map (fun row => flatPosition (ncols * nrows + row) nrows) =
        (List.range nrows).map fun row => (row, ncols) :=
      List.map_congr_left fun row hmem => flatPosition_flatIndex (List.mem_range.1 hmem) ncols
    rw [Nat.succ_mul, List.range_add, List.map_append, ih, List.map_map]
    rw [positions, positions, List.range_succ, List.flatMap_append, List.flatMap_singleton]
    exact congrArg _ hlast

/-- Each row and column has one entry, with the element that is there. -/
theorem map_some_entries :
    m.entries.map (fun (row, col, x) => (row, col, some x)) =
      (positions m.nrows m.ncols).map fun (row, col) => (row, col, m.get? row col) := by
  rw [← map_range_eq_positions, Nat.mul_comm, ← m.size_eq, List.map_map]
  refine List.ext_getElem? fun index => ?_
  rw [entries, List.getElem?_map, List.getElem?_mapIdx, List.getElem?_map, Array.getElem?_toList]
  by_cases hindex : index < m.data.size
  · rw [List.getElem?_range hindex]
    have hget := m.getElem?_data hindex
    rw [Array.getElem?_eq_getElem hindex] at hget ⊢
    simp only [Option.map_some, Function.comp_apply, flatPosition, ← hget]
  · have hlen : (List.range m.data.size).length ≤ index := by
      rw [List.length_range]
      exact Nat.le_of_not_lt hindex
    rw [Array.getElem?_eq_none (Nat.le_of_not_lt hindex), List.getElem?_eq_none hlen]
    rfl

/-- Items that are written to the places behind one another replace what was there. -/
theorem foldl_set_zipIdx (items written : List α) {blank : List α}
    (h : blank.length = items.length) :
    (items.zipIdx written.length).foldl (fun all item => all.set item.2 item.1) (written ++ blank) =
      written ++ items := by
  induction items generalizing written blank with
  | nil => rw [List.length_eq_zero_iff.1 h]; rfl
  | cons x rest ih =>
    obtain ⟨y, blank, rfl⟩ := List.exists_cons_of_length_eq_add_one h
    have hset : (written ++ y :: blank).set written.length x = written ++ [x] ++ blank := by
      rw [List.set_append_right _ _ (Nat.le_refl _), Nat.sub_self, List.set_cons_zero,
        List.append_assoc, List.singleton_append]
    have hlen : written.length + 1 = (written ++ [x]).length := by
      rw [List.length_append, List.length_singleton]
    rw [List.zipIdx_cons, List.foldl_cons, hset, hlen, ih _ (Nat.succ.inj h), List.append_assoc,
      List.singleton_append]

theorem toList_foldl_set (items : List (α × Nat)) (blank : Array α) :
    (items.foldl (fun all item => all.setIfInBounds item.2 item.1) blank).toList =
      items.foldl (fun all item => all.set item.2 item.1) blank.toList :=
  (List.foldl_hom Array.toList fun _ _ => Array.toList_setIfInBounds.symm).symm

/-- **The entries, written back to their places, are the storage**, whatever was there before. -/
theorem write_entries {blank : Array α} (h : blank.size = m.data.size) :
    m.entries.foldl (fun all (row, col, x) => all.setIfInBounds (flatIndex row col m.nrows) x)
      blank = m.data := by
  rw [entries, List.mapIdx_eq_zipIdx_map, List.foldl_map]
  simp only [flatIndex_flatPosition]
  rw [← Array.toList_inj, toList_foldl_set]
  exact foldl_set_zipIdx m.data.toList [] h

/-! ## Computing with words -/

/-- Where each item gives a value, all of them together give the list of these. -/
theorem mapM_eq_filterMap {ε : Type} {f : β → Except ε α} {g : β → Option α} {items : List β}
    (h : ∀ x ∈ items, ∃ y, f x = .ok y ∧ g x = some y) :
    items.mapM f = .ok (items.filterMap g) := by
  induction items with
  | nil => rfl
  | cons x rest ih =>
    obtain ⟨⟨y, hx, hy⟩, hrest⟩ := List.forall_mem_cons.1 h
    rw [List.mapM_cons, hx, ih hrest, List.filterMap_cons_some hy]
    rfl

theorem mapM_eq_ok {ε : Type} {f : β → Except ε α} {g : β → α} {items : List β}
    (h : ∀ x ∈ items, f x = .ok (g x)) : items.mapM f = .ok (items.map g) := by
  rw [← List.filterMap_eq_map]
  exact mapM_eq_filterMap fun x hx => ⟨g x, h x hx, rfl⟩

end Matrix

namespace Word

variable {α : Type} {bytes count : Nat} {item : Nat → Except Breakdown α}

theorem collect_of_le (h : count * bytes ≤ maxBytes) :
    collect bytes count item = (List.range count).mapM item := if_pos h

theorem collect_of_lt (h : maxBytes < count * bytes) :
    collect bytes count item = .error .capacityOverflow := if_neg (Nat.not_le.2 h)

theorem le_maxLists_iff : count ≤ maxLists ↔ count * listBytes ≤ maxBytes :=
  Nat.le_div_iff_mul_le (by decide)

/-- **A list of lists is made if there is room for it.** -/
theorem collect_lists {f : Nat → List α} {item : Nat → Except Breakdown (List α)}
    (h : ∀ place < count, item place = .ok (f place)) :
    collect listBytes count item =
      if count ≤ maxLists then .ok ((List.range count).map f) else .error .capacityOverflow := by
  rw [collect]
  simp only [le_maxLists_iff]
  split
  · exact Matrix.mapM_eq_ok fun place hmem => h place (List.mem_range.1 hmem)
  · rfl

end Word

namespace Matrix

variable {α : Type} (m : Matrix α)

/-- Where there is a row, it is no longer than the storage. -/
theorem ncols_le_size {row : Nat} (hrow : row < m.nrows) : m.ncols ≤ m.data.size := by
  rw [m.size_eq]
  exact Nat.le_mul_of_pos_left _ (Nat.lt_of_le_of_lt (Nat.zero_le row) hrow)

/-- Nor is a column. -/
theorem nrows_le_size {col : Nat} (hcol : col < m.ncols) : m.nrows ≤ m.data.size := by
  rw [m.size_eq]
  exact Nat.le_mul_of_pos_right _ (Nat.lt_of_le_of_lt (Nat.zero_le col) hcol)

namespace InWords

/-- Whatever lies within the storage is a word. -/
theorem lt_wordLimit {n : Nat} (h : n ≤ m.data.size) : n < wordLimit :=
  Nat.lt_of_le_of_lt (m.size_eq ▸ h) m.size_lt

theorem index_eq {row col : Nat} (hrow : row < m.nrows) (hcol : col < m.ncols) :
    index row col m.nrows = .ok (flatIndex row col m.nrows) := by
  have hlt := m.flatIndex_lt hrow hcol
  have hsum : col * m.nrows + row < wordLimit := lt_wordLimit m (Nat.le_of_lt hlt)
  have hmul : Word.mul col m.nrows = .ok (col * m.nrows) := if_pos (by omega)
  rw [index, hmul]
  exact if_pos hsum

theorem element_eq {row col : Nat} (hrow : row < m.nrows) (hcol : col < m.ncols) :
    ∃ x, element m row col = .ok x ∧ m.get? row col = some x := by
  obtain ⟨hlt, hget⟩ := m.exists_get? hrow hcol
  refine ⟨_, ?_, hget⟩
  simp only [element, index_eq m hrow hcol, bind, Except.bind, Array.getElem?_eq_getElem hlt]
  rfl

theorem get?_eq (row col : Nat) : get? m row col = .ok (m.get? row col) := by
  rw [get?, Matrix.get?]
  split
  · rename_i h
    rw [index_eq m h.1 h.2]
    rfl
  · rfl

/-- Where there is an element, there is a row, and so nothing is divided by zero. -/
theorem position_eq {place : Nat} (h : place < m.data.size) :
    position place m.nrows = .ok (flatPosition place m.nrows) := by
  have hne : m.nrows ≠ 0 := by
    intro hzero
    rw [m.size_eq, hzero, Nat.zero_mul] at h
    cases h
  have hmod : Word.mod place m.nrows = .ok (place % m.nrows) := if_neg hne
  have hdiv : Word.div place m.nrows = .ok (place / m.nrows) := if_neg hne
  rw [position, hmod, hdiv]
  rfl

theorem entries_eq : entries m = .ok m.entries := by
  rw [Matrix.entries, List.mapIdx_eq_zipIdx_map]
  refine mapM_eq_ok fun (x, place) hmem => ?_
  have hlt : place < m.data.size := (List.snd_lt_of_mem_zipIdx hmem)
  dsimp only
  rw [position_eq m hlt]
  rfl

section

variable {m} {width : Nat} (hroom : m.data.size * width ≤ Word.maxBytes)

include hroom

/-- There is room for whatever is no longer than the storage. -/
theorem room_of_le {n : Nat} (h : n ≤ m.data.size) : n * width ≤ Word.maxBytes :=
  Nat.le_trans (Nat.mul_le_mul_right _ h) hroom

theorem rowUpTo_eq {row : Nat} (hrow : row < m.nrows) (cols : Nat) :
    Word.collect width (min cols m.ncols) (element m row) = .ok (m.rowUpTo row cols) := by
  have hle := Nat.le_trans (Nat.min_le_right cols _) (m.ncols_le_size hrow)
  rw [Word.collect_of_le (room_of_le hroom hle)]
  refine mapM_eq_filterMap fun col hmem => element_eq m hrow ?_
  exact Nat.lt_of_lt_of_le (List.mem_range.1 hmem) (Nat.min_le_right _ _)

theorem row_eq (row : Nat) : InWords.row width m row = .ok (m.row row) := by
  rw [InWords.row, Matrix.row]
  split
  · rename_i hrow
    have h := rowUpTo_eq hroom hrow m.ncols
    rwa [Nat.min_self] at h
  · rfl

/-- A column is one part of the storage. -/
theorem slice_eq {col : Nat} (hcol : col < m.ncols) :
    slice width m (col * m.nrows) (col * m.nrows + m.nrows) = .ok (m.col col) := by
  have hstop : col * m.nrows + m.nrows ≤ m.data.size := by
    rw [m.size_eq, Nat.mul_comm m.nrows, ← Nat.succ_mul]
    exact Nat.mul_le_mul_right _ hcol
  have hcopy := room_of_le hroom (m.nrows_le_size hcol)
  rw [← Nat.add_sub_cancel_left (col * m.nrows) m.nrows] at hcopy
  rw [slice, if_pos ⟨Nat.le_add_right _ _, hstop⟩, if_pos hcopy]
  refine congrArg Except.ok (map_some_inj.1 ?_)
  rw [map_some_col, if_pos hcol]
  refine List.ext_getElem? fun row => ?_
  rw [List.getElem?_map, List.getElem?_map, Array.getElem?_toList, Array.getElem?_extract]
  have hstart : min (col * m.nrows + m.nrows) m.data.size - col * m.nrows = m.nrows := by omega
  rw [hstart]
  by_cases hrow : row < m.nrows
  · obtain ⟨hlt, hget⟩ := m.exists_get? hrow hcol
    have hdata : m.data[col * m.nrows + row]? = some m.data[flatIndex row col m.nrows] :=
      Array.getElem?_eq_getElem hlt
    rw [if_pos hrow, hdata, List.getElem?_range hrow, Option.map_some, Option.map_some, hget]
  · have hlen : (List.range m.nrows).length ≤ row := by
      rw [List.length_range]
      exact Nat.le_of_not_lt hrow
    rw [if_neg hrow, List.getElem?_eq_none hlen]
    rfl

theorem col_eq (col : Nat) : InWords.col width m col = .ok (m.col col) := by
  by_cases hcol : col < m.ncols
  · have hle : (col + 1) * m.nrows ≤ m.ncols * m.nrows := Nat.mul_le_mul_right _ hcol
    rw [Nat.succ_mul] at hle
    have hlimit := m.size_lt
    rw [Nat.mul_comm] at hlimit
    have hmul : Word.mul col m.nrows = .ok (col * m.nrows) := if_pos (by omega)
    have hadd : Word.add (col * m.nrows) m.nrows = .ok (col * m.nrows + m.nrows) :=
      if_pos (by omega)
    rw [InWords.col, if_pos hcol, hmul]
    show (Word.add (col * m.nrows) m.nrows >>= slice width m (col * m.nrows)) = _
    rw [hadd]
    exact slice_eq hroom hcol
  · rw [InWords.col, Matrix.col, if_neg hcol, if_neg hcol]
    rfl

/-- **All rows are listed if there is room for them.** -/
theorem rows_eq : rows width m =
    if m.nrows ≤ Word.maxLists then .ok m.rows else .error .capacityOverflow :=
  Word.collect_lists fun row _ => row_eq hroom row

/-- **So are the rows of a corner.** -/
theorem block_eq (rows cols : Nat) : block width m rows cols =
    if min rows m.nrows ≤ Word.maxLists then .ok (m.block rows cols)
    else .error .capacityOverflow :=
  Word.collect_lists fun _ hrow =>
    rowUpTo_eq hroom (Nat.lt_of_lt_of_le hrow (Nat.min_le_right _ _)) cols

end

end InWords

/-! ## All ways of looking -/

/-- The matrix shows the storage `data` in the shape of so many rows and columns, in whichever way
it is looked at. -/
structure Shows (data : Array α) (nrows ncols : Nat) : Prop where
  /-- An element within the shape is the one at its place in the storage. -/
  inside : ∀ row < nrows, ∀ col < ncols, ∃ h : col * nrows + row < data.size,
    m.get? row col = some data[col * nrows + row]
  /-- There is none outside. -/
  outside : ∀ row col, ¬ (row < nrows ∧ col < ncols) → m.get? row col = none
  /-- A row holds the element of each column. -/
  row : ∀ row, (m.row row).map some =
    if row < nrows then (List.range ncols).map (m.get? row) else []
  /-- A column holds the element of each row. -/
  col : ∀ col, (m.col col).map some =
    if col < ncols then (List.range nrows).map (m.get? · col) else []
  /-- All rows, from the top. -/
  rows : m.rows = (List.range nrows).map m.row
  /-- A corner is the beginning of each of the first rows. -/
  block : ∀ rows cols,
    m.block rows cols = (m.rows.take (min rows nrows)).map (List.take (min cols ncols))
  /-- There is one entry for each row and column, a column after the other. -/
  entries : m.entries.map (fun (row, col, x) => (row, col, some x)) =
    (List.range ncols).flatMap fun col =>
      (List.range nrows).map fun row => (row, col, m.get? row col)
  /-- The entries come in the order of the storage. -/
  stored : m.entries.map (fun (_, _, x) => x) = data.toList
  /-- Written back to their places, they are the storage. -/
  written : ∀ blank : Array α, blank.size = data.size →
    m.entries.foldl (fun all (row, col, x) => all.setIfInBounds (col * nrows + row) x) blank = data

/-- Computed with words, every way of looking at the matrix gives what it gives.  The one thing that
breaks off is a list of rows that are too many, and that breaks off for want of room. -/
structure ComputesInWords (width : Nat) : Prop where
  /-- Single elements. -/
  get? : ∀ row col, InWords.get? m row col = .ok (m.get? row col)
  /-- Rows. -/
  row : ∀ row, InWords.row width m row = .ok (m.row row)
  /-- Columns. -/
  col : ∀ col, InWords.col width m col = .ok (m.col col)
  /-- All rows. -/
  rows : InWords.rows width m =
    if m.nrows ≤ Word.maxLists then .ok m.rows else .error .capacityOverflow
  /-- Corners. -/
  block : ∀ rows cols, InWords.block width m rows cols =
    if min rows m.nrows ≤ Word.maxLists then .ok (m.block rows cols)
    else .error .capacityOverflow
  /-- Entries. -/
  entries : InWords.entries m = .ok m.entries

theorem shows_data : m.Shows m.data m.nrows m.ncols where
  inside _ hrow _ hcol := m.exists_get? hrow hcol
  outside _ _ h := m.get?_eq_none h
  row := m.map_some_row
  col := m.map_some_col
  rows := rfl
  block := m.block_eq
  entries := by
    rw [m.map_some_entries, positions, List.map_flatMap]
    simp only [List.map_map]
    rfl
  stored := by
    rw [Matrix.entries, List.mapIdx_eq_zipIdx_map, List.map_map]
    exact List.zipIdx_map_fst 0 _
  written _ h := m.write_entries h

theorem computesInWords {width : Nat} (hroom : m.data.size * width ≤ Word.maxBytes) :
    m.ComputesInWords width where
  get? := InWords.get?_eq m
  row := InWords.row_eq hroom
  col := InWords.col_eq hroom
  rows := InWords.rows_eq hroom
  block := InWords.block_eq hroom
  entries := InWords.entries_eq m

/-- A matrix that could be built has the storage and the shape that it was built of. -/
theorem eq_of_built {data : Array α} {nrows ncols : Nat}
    (h : ofColumnMajor data nrows ncols = .ok m ∨ checked data nrows ncols = .ok m) :
    m.data = data ∧ m.nrows = nrows ∧ m.ncols = ncols := by
  rcases h with h | h
  · rw [ofColumnMajor] at h
    split at h
    · cases h
      exact ⟨rfl, rfl, rfl⟩
    · cases h
  · rw [checked] at h
    repeat' split at h
    all_goals cases h
    exact ⟨rfl, rfl, rfl⟩

/-- **All ways of looking at a matrix agree, and none of them breaks off unless there are too many
rows for a list.**  A matrix that was built of flat storage, in whichever of the two ways and
whatever the extents, shows that storage in every way.  No number on the way there leaves the words,
nothing is asked for that is not there, and nothing is divided by zero.  As there was room for the
storage, whatever the size of an element, there is for every list of elements; and there is for all
rows and for the rows of a corner, unless they are more than a list has room for. -/
theorem shows_of_built {data : Array α} {nrows ncols : Nat}
    (h : ofColumnMajor data nrows ncols = .ok m ∨ checked data nrows ncols = .ok m) :
    m.Shows data nrows ncols ∧
      ∀ width, data.size * width ≤ Word.maxBytes → m.ComputesInWords width := by
  obtain ⟨rfl, rfl, rfl⟩ := m.eq_of_built h
  exact ⟨m.shows_data, fun _ => m.computesInWords⟩

/-- Two rows of three elements, no rows of as many as a word can count, and as many rows of none. -/
theorem shows_of_built_extents :
    (∃ m : Matrix Nat, checked #[1, 2, 3, 4, 5, 6] 2 3 = .ok m ∧
      m.Shows #[1, 2, 3, 4, 5, 6] 2 3 ∧ m.get? 1 2 = some 6 ∧
      InWords.rows 8 m = .ok [[1, 3, 5], [2, 4, 6]] ∧ InWords.col 8 m 1 = .ok [3, 4] ∧
      InWords.block 8 m 1 2 = .ok [[1, 3]]) ∧
    (∃ m : Matrix Nat, ofColumnMajor #[] 0 0xffffffffffffffff = .ok m ∧
      m.Shows #[] 0 0xffffffffffffffff ∧ InWords.rows 8 m = .ok [] ∧
      InWords.col 8 m 0xfffffffffffffffe = .ok []) ∧
    ∃ m : Matrix Nat, ofColumnMajor #[] 0xffffffffffffffff 0 = .ok m ∧
      m.Shows #[] 0xffffffffffffffff 0 ∧ InWords.row 8 m 0xfffffffffffffffe = .ok [] ∧
      InWords.block 8 m 2 2 = .ok [[], []] ∧ InWords.rows 8 m = .error .capacityOverflow := by
  have hwide : checked #[1, 2, 3, 4, 5, 6] 2 3 = .ok ⟨2, 3, #[1, 2, 3, 4, 5, 6], rfl, by decide⟩ :=
    rfl
  have hflat : ofColumnMajor (#[] : Array Nat) 0 0xffffffffffffffff =
      .ok ⟨0, 0xffffffffffffffff, #[], rfl, by decide⟩ := rfl
  have htall : ofColumnMajor (#[] : Array Nat) 0xffffffffffffffff 0 =
      .ok ⟨0xffffffffffffffff, 0, #[], rfl, by decide⟩ := rfl
  obtain ⟨hwideShows, hwideWords⟩ := shows_of_built _ (.inr hwide)
  obtain ⟨hflatShows, hflatWords⟩ := shows_of_built _ (.inl hflat)
  obtain ⟨htallShows, htallWords⟩ := shows_of_built _ (.inl htall)
  have hwideWords := hwideWords 8 (by decide)
  have hflatWords := hflatWords 8 (by decide)
  have htallWords := htallWords 8 (by decide)
  exact ⟨⟨_, hwide, hwideShows, by decide, hwideWords.rows, hwideWords.col 1,
      hwideWords.block 1 2⟩, ⟨_, hflat, hflatShows, hflatWords.rows, hflatWords.col _⟩, _, htall,
    htallShows, htallWords.row _, htallWords.block 2 2, htallWords.rows⟩

/-- A matrix without columns can have as many rows as a word can count.  There is no room for a list
of them, though each of them is there. -/
theorem breaksOff_without_columns :
    ∃ m : Matrix Nat, ofColumnMajor #[] 0xffffffffffffffff 0 = .ok m ∧
      (∀ row, InWords.row 8 m row = .ok []) ∧
      InWords.rows 8 m = .error .capacityOverflow ∧
      InWords.block 8 m 0xffffffffffffffff 0xffffffffffffffff = .error .capacityOverflow := by
  refine ⟨⟨0xffffffffffffffff, 0, #[], rfl, by decide⟩, rfl, fun row => ?_,
    Word.collect_of_lt (by decide), Word.collect_of_lt (by decide)⟩
  rw [InWords.row]
  split <;> rfl

end Matrix

end Screening
