import Mathlib.Data.List.Nodup
import Screening.Json.Form
import Screening.Proofs.JsonText

/-!
# Reading the fields of structures

A structure is read from its fields.  They may come as an object in any order, with members between
them that are no fields, or as an array.

* `ReadsIf` — a reading gives a value if a condition holds, and finds the form malformed if not.
* `Carries` — a form has these fields with these values, in one of those ways.
* `NamedOnce` — what is checked of the names of the members of an object, all told.
* `fieldValues_readsIf` — the fields of a structure are read if each of them can be, whatever the
  way in which the form has them.
* `carries_of_fieldValues` — they are read of no other form.
-/

set_option autoImplicit false

namespace Screening

namespace Json

/-! ## Forms that are written -/

theorem wellFormed_ofFields {fields : List (String × Json)} (h : ∀ f ∈ fields, f.2.WellFormed) :
    (ofFields fields).WellFormed := by
  refine .object fun member hmember => ?_
  obtain ⟨f, hf, rfl⟩ := List.mem_map.1 hmember
  exact h f hf

theorem wellFormed_array_map {α : Type} {xs : List α} {form : α → Json}
    (h : ∀ x ∈ xs, (form x).WellFormed) : (Json.array (xs.map form)).WellFormed := by
  refine .array fun item hitem => ?_
  obtain ⟨x, hx, rfl⟩ := List.mem_map.1 hitem
  exact h x hx

/-! ## Readings that depend on a condition -/

variable {α β : Type}

/-- Gives a value if a condition holds, and finds the form malformed if not. -/
def ReadsIf (P : Prop) (x : α) (reading : Except ReadError α) : Prop :=
  (P → reading = .ok x) ∧ (¬ P → reading = .error .malformed)

namespace ReadsIf

variable {P Q : Prop} {x : α} {reading : Except ReadError α}

theorem of_ok (h : reading = .ok x) : ReadsIf True x reading :=
  ⟨fun _ => h, fun hfalse => absurd trivial hfalse⟩

theorem congr (h : ReadsIf P x reading) (hiff : P ↔ Q) : ReadsIf Q x reading :=
  ⟨fun hq => h.1 (hiff.2 hq), fun hq => h.2 fun hp => hq (hiff.1 hp)⟩

/-- The condition can be told from the reading. -/
theorem eq_ok_iff (h : ReadsIf P x reading) : reading = .ok x ↔ P := by
  refine ⟨fun hok => ?_, h.1⟩
  by_contra hp
  simp [h.2 hp] at hok

theorem bind_eq (h : ReadsIf P x reading) (hp : P) (next : α → Except ReadError β) :
    reading >>= next = next x := by
  rw [h.1 hp]
  rfl

theorem bind_eq_malformed (h : ReadsIf P x reading) (hp : ¬ P) (next : α → Except ReadError β) :
    reading >>= next = .error .malformed := by
  rw [h.2 hp]
  rfl

/-- Both of two readings, one after the other, depend on both conditions. -/
theorem bind (h : ReadsIf P x reading) {y : β} {next : α → Except ReadError β}
    (hnext : ReadsIf Q y (next x)) : ReadsIf (P ∧ Q) y (reading >>= next) := by
  by_cases hp : P
  · rw [h.bind_eq hp]
    exact hnext.congr ⟨fun hq => ⟨hp, hq⟩, And.right⟩
  · rw [h.bind_eq_malformed hp]
    exact ⟨fun hboth => absurd hboth.1 hp, fun _ => rfl⟩

theorem map (h : ReadsIf P x reading) (f : α → β) : ReadsIf P (f x) (f <$> reading) := by
  by_cases hp : P
  · rw [h.1 hp]
    exact ⟨fun _ => rfl, fun hnot => absurd hp hnot⟩
  · rw [h.2 hp]
    exact ⟨fun hyes => absurd hyes hp, fun _ => rfl⟩

end ReadsIf

/-- A reading gives something only if what comes first does. -/
theorem exists_of_bind_eq_ok {reading : Except ReadError α} {next : α → Except ReadError β} {y : β}
    (h : reading >>= next = .ok y) : ∃ x, reading = .ok x ∧ next x = .ok y := by
  cases reading with
  | ok x => exact ⟨x, rfl, h⟩
  | error cause => cases h

theorem orRefuse_eq_ok_iff {check : Except FormatError α} {x : α} :
    orRefuse check = .ok x ↔ check = .ok x := by
  cases check <;> simp [orRefuse]

/-- A reading that only ever finds the form malformed. -/
def NeverRefuses (reading : Except ReadError α) : Prop :=
  ∀ cause, reading ≠ .error (.refused cause)

theorem ReadsIf.neverRefuses {P : Prop} {x : α} {reading : Except ReadError α}
    (h : ReadsIf P x reading) : NeverRefuses reading := by
  rintro cause rfl
  by_cases hp : P
  · simpa using h.1 hp
  · simpa using h.2 hp

theorem NeverRefuses.readsIf {check : Except ReadError Unit} (h : NeverRefuses check) :
    ReadsIf (check = .ok ()) () check := by
  refine ⟨id, fun hnot => ?_⟩
  rcases check with (_ | cause) | _
  · rfl
  · exact absurd rfl (h cause)
  · exact absurd rfl hnot

/-! ## Fields of structures -/

/-- Has the given fields and no field twice: as an array of their values, or as an object in which
each of them is one of the members. -/
inductive Carries (fields : List (String × Json)) : Json → Prop
  | array : Carries fields (.array (fields.map Prod.snd))
  | object {members : List (Option String × Json)} (named : ∀ m ∈ members, m.1 ≠ none)
      (once : ∀ f ∈ fields, members.filter (·.1 == some f.1) = [(some f.1, f.2)]) :
      Carries fields (.object members)

section

variable {members : List (Option String × Json)} {name : Option String} {v : Json}

/-- The member with a name that only one member has. -/
theorem mem_of_filter_eq (h : members.filter (·.1 == name) = [(name, v)]) :
    (name, v) ∈ members :=
  List.mem_of_mem_filter (p := (·.1 == name)) (h ▸ List.mem_singleton_self _)

theorem snd_eq_of_filter_eq (h : members.filter (·.1 == name) = [(name, v)])
    {m : Option String × Json} (hm : m ∈ members) (hname : m.1 = name) : m.2 = v := by
  have hmem : m ∈ members.filter (·.1 == name) := List.mem_filter.2 ⟨hm, by simpa using hname⟩
  rw [h, List.mem_singleton] at hmem
  rw [hmem]

theorem lookup_eq_some (h : members.filter (·.1 == name) = [(name, v)]) :
    members.lookup name = some v := by
  induction members with
  | nil => simp at h
  | cons member members ih =>
    rw [List.lookup_cons]
    by_cases hname : member.1 = name
    · rw [List.filter_cons_of_pos (by simpa using hname)] at h
      obtain ⟨rfl, -⟩ := List.cons.inj h
      simp
    · rw [List.filter_cons_of_neg (by simpa using hname)] at h
      have hne : (name == member.1) = false := beq_false_of_ne (Ne.symm hname)
      rw [hne]
      exact ih h

theorem count_fst_eq_length_filter (members : List (Option String × Json)) (name : Option String) :
    (members.map Prod.fst).count name = (members.filter (·.1 == name)).length := by
  rw [List.count, List.countP_map, List.countP_eq_length_filter]
  rfl

/-- A name that is there once belongs to one member. -/
theorem filter_eq_of_mem (hcount : (members.map Prod.fst).count name ≤ 1)
    (hmem : (name, v) ∈ members) : members.filter (·.1 == name) = [(name, v)] := by
  have hfilter : (name, v) ∈ members.filter (·.1 == name) := List.mem_filter.2 ⟨hmem, by simp⟩
  rw [count_fst_eq_length_filter] at hcount
  obtain ⟨member, hmember⟩ := List.length_eq_one_iff.1
    (Nat.le_antisymm hcount (List.length_pos_of_mem hfilter))
  rw [hmember] at hfilter ⊢
  rw [List.mem_singleton.1 hfilter]

end

/-- What is written for a structure has its fields. -/
theorem carries_ofFields {fields : List (String × Json)} (hnodup : (fields.map Prod.fst).Nodup) :
    Carries fields (ofFields fields) := by
  refine .object (fun m hm => ?_) fun f hf => filter_eq_of_mem ?_ (List.mem_map_of_mem hf)
  · obtain ⟨f, -, rfl⟩ := List.mem_map.1 hm
    exact Option.some_ne_none f.1
  · have hnames : (fields.map fun f => (some f.1, f.2)).map Prod.fst =
        (fields.map Prod.fst).map some := by simp
    rw [hnames]
    exact List.nodup_iff_count_le_one.1 (hnodup.map fun _ _ => Option.some.inj) _

/-! ## The members of an object -/

section

variable {fields : List Field} {seen : List String} {members : List (Option String × Json)}
  {f : Field} {name : String} {v : Json}

/-- A field is found by its name. -/
theorem find?_name (hnodup : (fields.map Field.name).Nodup) (hf : f ∈ fields) :
    fields.find? (·.name == f.name) = some f := by
  cases hfind : fields.find? (·.name == f.name) with
  | none => exact absurd (List.find?_eq_none.1 hfind f hf) (by simp)
  | some g =>
    have hname : g.name = f.name := by simpa using List.find?_some hfind
    rw [List.inj_on_of_nodup_map hnodup (List.mem_of_find?_eq_some hfind) hf hname]

/-- A member that is a field is checked as that field, unless the field was seen. -/
theorem checkMembers_cons_field (hnodup : (fields.map Field.name).Nodup) (hf : f ∈ fields) :
    checkMembers fields seen ((some f.name, v) :: members) =
      if f.name ∈ seen then .error .malformed
      else f.check v >>= fun _ => checkMembers fields (f.name :: seen) members := by
  rw [checkMembers, find?_name hnodup hf]
  by_cases hseen : f.name ∈ seen
  · rw [if_pos hseen]
    simp only [hseen, if_true]
    rfl
  · rw [if_neg hseen]
    simp only [hseen, if_false]

/-- A member that is no field is passed over. -/
theorem checkMembers_cons_other (hother : ∀ f ∈ fields, f.name ≠ name) :
    checkMembers fields seen ((some name, v) :: members) = checkMembers fields seen members := by
  have hnone : fields.find? (·.name == name) = none := by
    rw [List.find?_eq_none]
    simpa using hother
  rw [checkMembers, hnone]

/-- Every member has a name, and none has that of a field that another one has or that was seen. -/
def NamedOnce (fields : List Field) (seen : List String)
    (members : List (Option String × Json)) : Prop :=
  (∀ m ∈ members, m.1 ≠ none) ∧ ∀ f ∈ fields,
    (members.map Prod.fst).count (some f.name) + (if f.name ∈ seen then 1 else 0) ≤ 1

theorem namedOnce_cons_field (hf : f ∈ fields) :
    NamedOnce fields seen ((some f.name, v) :: members) ↔
      f.name ∉ seen ∧ NamedOnce fields (f.name :: seen) members := by
  -- counted with the member or among those that were seen, the field is counted once more
  have hcount (g : Field) (hseen : f.name ∉ seen) :
      (((some f.name, v) :: members).map Prod.fst).count (some g.name) +
          (if g.name ∈ seen then 1 else 0) =
        (members.map Prod.fst).count (some g.name) +
          (if g.name ∈ f.name :: seen then 1 else 0) := by
    by_cases hname : g.name = f.name
    · simp [hname, hseen]
    · simp [List.count_cons_of_ne, hname, Ne.symm hname]
  constructor
  · rintro ⟨hnamed, hall⟩
    have hseen : f.name ∉ seen := by
      intro hmem
      have hself := hall f hf
      rw [List.map_cons, List.count_cons_self, if_pos hmem] at hself
      omega
    exact ⟨hseen, (List.forall_mem_cons.1 hnamed).2, fun g hg => hcount g hseen ▸ hall g hg⟩
  · rintro ⟨hseen, hnamed, hall⟩
    exact ⟨List.forall_mem_cons.2 ⟨Option.some_ne_none f.name, hnamed⟩,
      fun g hg => (hcount g hseen).symm ▸ hall g hg⟩

theorem namedOnce_cons_other (hother : ∀ f ∈ fields, f.name ≠ name) :
    NamedOnce fields seen ((some name, v) :: members) ↔ NamedOnce fields seen members := by
  have hcount : ∀ f ∈ fields, (((some name, v) :: members).map Prod.fst).count (some f.name) =
      (members.map Prod.fst).count (some f.name) := fun f hf =>
    List.count_cons_of_ne (by simpa using (hother f hf).symm)
  rw [NamedOnce, NamedOnce, List.forall_mem_cons]
  exact and_congr (and_iff_right (Option.some_ne_none name))
    (forall₂_congr fun f hf => by rw [hcount f hf])

/-- **The members of an object are checked one by one.**  By induction on the members; a field that
was seen is no field of those that are left. -/
theorem checkMembers_readsIf (hnodup : (fields.map Field.name).Nodup)
    (once : NamedOnce fields seen members)
    (hcheck : ∀ m ∈ members, ∀ f ∈ fields, m.1 = some f.name → NeverRefuses (f.check m.2)) :
    ReadsIf (∀ m ∈ members, ∀ f ∈ fields, m.1 = some f.name → f.check m.2 = .ok ()) ()
      (checkMembers fields seen members) := by
  induction members generalizing seen with
  | nil => exact (ReadsIf.of_ok rfl).congr (by simp)
  | cons member members ih =>
    obtain ⟨hmember, hmembers⟩ := List.forall_mem_cons.1 hcheck
    obtain ⟨_ | name, v⟩ := member
    · exact absurd rfl (once.1 _ List.mem_cons_self)
    by_cases hfield : ∃ f ∈ fields, f.name = name
    · obtain ⟨f, hf, rfl⟩ := hfield
      obtain ⟨hseen, honce⟩ := (namedOnce_cons_field hf).1 once
      rw [checkMembers_cons_field hnodup hf, if_neg hseen]
      refine ((hmember f hf rfl).readsIf.bind (ih honce hmembers)).congr ?_
      rw [List.forall_mem_cons]
      refine and_congr_left fun _ => ⟨fun hok g hg hname => ?_, fun hall => hall f hf rfl⟩
      rw [← List.inj_on_of_nodup_map hnodup hf hg (Option.some.inj hname)]
      exact hok
    · have hother : ∀ f ∈ fields, f.name ≠ name := fun f hf hname => hfield ⟨f, hf, hname⟩
      rw [checkMembers_cons_other hother]
      refine (ih ((namedOnce_cons_other hother).1 once) hmembers).congr ?_
      rw [List.forall_mem_cons]
      refine (and_iff_right fun f hf hname => ?_).symm
      exact absurd (Option.some.inj hname).symm (hother f hf)

/-- Members that pass the check are all named, and no field is among them twice. -/
theorem namedOnce_of_checkMembers (hnodup : (fields.map Field.name).Nodup)
    (h : checkMembers fields seen members = .ok ()) : NamedOnce fields seen members := by
  induction members generalizing seen with
  | nil => exact ⟨by simp, fun f _ => by simp only [List.map_nil, List.count_nil]; split <;> simp⟩
  | cons member members ih =>
    obtain ⟨_ | name, v⟩ := member
    · cases h
    by_cases hfield : ∃ f ∈ fields, f.name = name
    · obtain ⟨f, hf, rfl⟩ := hfield
      rw [checkMembers_cons_field hnodup hf] at h
      split at h
      · cases h
      · rename_i hseen
        obtain ⟨_, -, h⟩ := exists_of_bind_eq_ok h
        exact (namedOnce_cons_field hf).2 ⟨hseen, ih h⟩
    · have hother : ∀ f ∈ fields, f.name ≠ name := fun f hf hname => hfield ⟨f, hf, hname⟩
      rw [checkMembers_cons_other hother] at h
      exact (namedOnce_cons_other hother).2 (ih h)

end

/-! ## The fields of a structure -/

/-- A field with a value that is read for it if a condition holds. -/
structure Entry where
  /-- The field. -/
  field : Field
  /-- The value that it has in a form. -/
  value : Json
  /-- What decides whether the value is read. -/
  condition : Prop
  /-- It does decide it. -/
  reads : ReadsIf condition () (field.check value)

/-- The entry of a value that is read for a field. -/
def Entry.of {P : Prop} {x : α} {ofValue : Json → Except ReadError α} {v : Json} (name : String)
    (h : ReadsIf P x (ofValue v)) : Entry :=
  ⟨Json.field name ofValue, v, P, h.map _⟩

theorem checkItems_readsIf (entries : List Entry) :
    ReadsIf (∀ e ∈ entries, e.condition) ()
      (checkItems (entries.map Entry.field) (entries.map Entry.value)) := by
  induction entries with
  | nil => exact (ReadsIf.of_ok rfl).congr (by simp)
  | cons e entries ih => exact (e.reads.bind ih).congr (by simp)

theorem mapM_fields_eq_ok {entries : List Entry} {value : Field → Except ReadError Json}
    (h : ∀ e ∈ entries, value e.field = .ok e.value) :
    (entries.map Entry.field).mapM value = .ok (entries.map Entry.value) := by
  induction entries with
  | nil => rfl
  | cons e entries ih =>
    obtain ⟨he, hentries⟩ := List.forall_mem_cons.1 h
    rw [List.map_cons, List.mapM_cons, he, ih hentries]
    rfl

/-- **The fields of a structure are read if each of them can be**, in whatever way the form has
them. -/
theorem fieldValues_readsIf (entries : List Entry) (hnodup : (entries.map (·.field.name)).Nodup)
    {form : Json} (h : Carries (entries.map fun e => (e.field.name, e.value)) form) :
    ReadsIf (∀ e ∈ entries, e.condition) (entries.map Entry.value)
      (fieldValues (entries.map Entry.field) form) := by
  cases h with
  | array =>
    have hvalues : (entries.map fun e => (e.field.name, e.value)).map Prod.snd =
        entries.map Entry.value := by
      rw [List.map_map]
      rfl
    rw [hvalues, fieldValues]
    refine ((checkItems_readsIf entries).bind (.of_ok ?_)).congr (and_iff_left trivial)
    rfl
  | @object members named once =>
    have hone : ∀ e ∈ entries,
        members.filter (·.1 == some e.field.name) = [(some e.field.name, e.value)] :=
      fun e he => once _ (List.mem_map_of_mem he)
    have hmembers : ReadsIf (∀ m ∈ members, ∀ f ∈ entries.map Entry.field, m.1 = some f.name →
        f.check m.2 = .ok ()) () (checkMembers (entries.map Entry.field) [] members) := by
      refine checkMembers_readsIf (by rwa [List.map_map]) ⟨named, fun f hf => ?_⟩
        fun m hm f hf hname => ?_
      · obtain ⟨e, he, rfl⟩ := List.mem_map.1 hf
        rw [count_fst_eq_length_filter, hone e he]
        simp
      · obtain ⟨e, he, rfl⟩ := List.mem_map.1 hf
        rw [snd_eq_of_filter_eq (hone e he) hm hname]
        exact e.reads.neverRefuses
    refine (hmembers.bind (.of_ok (mapM_fields_eq_ok fun e he => ?_))).congr ?_
    · rw [lookup_eq_some (hone e he)]
    · rw [and_iff_left trivial]
      refine ⟨fun hall e he => ?_, fun hall m hm f hf hname => ?_⟩
      · have hmem := mem_of_filter_eq (hone e he)
        exact e.reads.eq_ok_iff.1 (hall _ hmem e.field (List.mem_map_of_mem he) rfl)
      · obtain ⟨e, he, rfl⟩ := List.mem_map.1 hf
        rw [snd_eq_of_filter_eq (hone e he) hm hname]
        exact e.reads.eq_ok_iff.2 (hall e he)

/-! ## Forms that can be read -/

theorem length_of_checkItems {fields : List Field} {items : List Json}
    (h : checkItems fields items = .ok ()) : fields.length = items.length := by
  induction fields generalizing items with
  | nil =>
    cases items with
    | nil => rfl
    | cons v items => simp [checkItems] at h
  | cons f fields ih =>
    cases items with
    | nil => simp [checkItems] at h
    | cons v items =>
      rw [checkItems] at h
      obtain ⟨-, -, h⟩ := exists_of_bind_eq_ok h
      rw [List.length_cons, List.length_cons, ih h]

/-- The values that a list is mapped to stand for its items one by one. -/
theorem forall₂_of_mapM {items : List α} {f : α → Except ReadError β}
    {values : List β} (h : items.mapM f = .ok values) :
    List.Forall₂ (fun item value => f item = .ok value) items values := by
  induction items generalizing values with
  | nil =>
    cases h
    exact .nil
  | cons item items ih =>
    rw [List.mapM_cons] at h
    obtain ⟨value, hitem, h⟩ := exists_of_bind_eq_ok h
    obtain ⟨rest, hitems, h⟩ := exists_of_bind_eq_ok h
    cases h
    exact .cons hitem (ih hitems)

/-- **A form whose fields can be read has them.** -/
theorem carries_of_fieldValues {fields : List Field} {form : Json} {values : List Json}
    (hnodup : (fields.map Field.name).Nodup) (hrequired : ∀ f ∈ fields, f.optional = false)
    (h : fieldValues fields form = .ok values) :
    Carries ((fields.map Field.name).zip values) form := by
  rcases form with _ | _ | _ | _ | items | members
  case array =>
    obtain ⟨_, hcheck, h⟩ := exists_of_bind_eq_ok h
    cases h
    have hvalues : ((fields.map Field.name).zip values).map Prod.snd = values :=
      List.map_snd_zip (Nat.le_of_eq (by rw [List.length_map, length_of_checkItems hcheck]))
    have harray : Carries ((fields.map Field.name).zip values)
        (.array (((fields.map Field.name).zip values).map Prod.snd)) := .array
    rwa [hvalues] at harray
  case object =>
    obtain ⟨_, hcheck, h⟩ := exists_of_bind_eq_ok h
    obtain ⟨hnamed, hcount⟩ := namedOnce_of_checkMembers hnodup hcheck
    obtain ⟨-, hvalues⟩ := List.forall₂_iff_zip.1 (forall₂_of_mapM h)
    refine .object hnamed fun entry hentry => ?_
    rw [List.zip_map_left] at hentry
    obtain ⟨⟨f, v⟩, hmem, rfl⟩ := List.mem_map.1 hentry
    have hf : f ∈ fields := (List.of_mem_zip hmem).1
    have hvalue := hvalues hmem
    refine filter_eq_of_mem (by simpa using hcount f hf) ?_
    split at hvalue
    · rename_i hlookup
      cases hvalue
      obtain ⟨front, back, rfl, -⟩ := List.lookup_eq_some_iff.1 hlookup
      exact List.mem_append_right front List.mem_cons_self
    · simp [missingValue, hrequired f hf] at hvalue
  all_goals cases h

end Json

end Screening
