import Mathlib.Data.List.Perm.Subperm
import ProtectedCall.Proofs.Records

/-!
# Layouts of records

A record may be laid out as an object in many ways: its fields in any order, those that are as in
the default left out, and members of other names in between.

* `RecordForm.LaysOut`: the members of an object lay out a record.
* `RecordForm.Filling`: how a record is written, and what is known of it when some of its fields
  have been read. This is what has to be shown of a kind of records; the rest follows.
* `RecordForm.Filling.takes`: every layout of a record is read as that record.
* `RecordForm.Filling.refuses`: an object that gives a field twice is refused.
-/

namespace ProtectedCall.Json

open Decimal

namespace RecordForm

variable {σ : Type}

/-- The names of the fields. -/
def names (form : RecordForm σ) : List String := form.fields.map (·.name)

/-- The members of an object lay out a record that is written with the members `given`. Those that
are fields are some of them, in any order and each at most once, and at least those that are not as
in `default`. Members of other names may stand anywhere. -/
structure LaysOut (form : RecordForm σ) (default given ms : List (String × Json)) : Prop where
  known : (ms.filter fun m => m.1 ∈ form.names).Subperm given
  complete : ∀ m ∈ given, m ∉ default → m ∈ ms

/-- A record `d` is written with the members `members d`, one for each field, and each of them is
read into its field: `given d seen` is the record of which the fields `seen` are those of `d` and
the others are as they are before anything is read. -/
structure Filling (form : RecordForm σ) (members : σ → List (String × Json))
    (given : σ → List String → σ) : Prop where
  distinct : form.names.Nodup
  initial : ∀ d, given d [] = form.initial
  fills : ∀ d, List.Forall₂ (fun field m => field.name = m.1 ∧
    ∀ seen, Takes (field.read (given d seen)) m.2 (given d (m.1 :: seen))) form.fields (members d)
  full : ∀ d seen, (∀ m ∈ members d, m.1 ∉ seen → m ∈ members form.initial) → given d seen = d
  aligned : ∀ field ∈ form.fields, ∀ record, Aligned (field.read record)
  wellFormed : ∀ d, MembersAllNumerals Numeral.WellFormed (members d)

variable {form : RecordForm σ} {ms : List (String × Json)}

/-! ## Names -/

theorem field?_isSome_iff {name : String} : (form.field? name).isSome ↔ name ∈ form.names := by
  simp [field?, names, List.find?_isSome]

theorem known_eq (form : RecordForm σ) (ms : List (String × Json)) :
    form.known ms = (ms.filter fun m => m.1 ∈ form.names).map (·.1) := by
  rw [known, List.filter_map]
  congr 2
  funext m
  rw [Bool.eq_iff_iff]
  simpa using field?_isSome_iff

theorem mem_known_iff {name : String} :
    name ∈ form.known ms ↔ name ∈ ms.map (·.1) ∧ name ∈ form.names := by
  rw [known, List.mem_filter, field?_isSome_iff]

/-- A field that is given twice is known twice. -/
theorem not_nodup_known {name : String} (field : name ∈ form.names)
    (twice : 2 ≤ (ms.map (·.1)).count name) : ¬ (form.known ms).Nodup := by
  intro hn
  have hle := List.nodup_iff_count.mp hn name
  have hfield : (form.field? name).isSome := field?_isSome_iff.mpr field
  rw [known, List.count_filter (by exact hfield)] at hle
  omega

/-! ## Fields and their members -/

section Pairs

variable {fields : List (Field σ)} {p : Field σ → String × Json → Prop}

theorem names_of_forall₂
    (h : List.Forall₂ (fun field m => field.name = m.1 ∧ p field m) fields ms) :
    ms.map (·.1) = fields.map (·.name) := by
  induction h with
  | nil => rfl
  | cons hm _ ih => rw [List.map_cons, List.map_cons, ih, hm.1]

/-- The field that is found for a member is the one that belongs to it. -/
theorem pair_of_find? (h : List.Forall₂ (fun field m => field.name = m.1 ∧ p field m) fields ms)
    (distinct : (fields.map (·.name)).Nodup) {m : String × Json} (hm : m ∈ ms) {field : Field σ}
    (hf : fields.find? (·.name == m.1) = some field) : p field m := by
  induction h with
  | nil => cases hm
  | @cons head first fields ms hpair hrest ih =>
    rw [List.map_cons, List.nodup_cons] at distinct
    rcases List.mem_cons.mp hm with rfl | hm
    · rw [List.find?_cons_of_pos (by simpa using hpair.1)] at hf
      cases hf
      exact hpair.2
    · have hother : head.name ≠ m.1 := by
        intro heq
        refine distinct.1 ?_
        rw [heq, ← names_of_forall₂ hrest]
        exact List.mem_map_of_mem hm
      rw [List.find?_cons_of_neg (by simpa using hother)] at hf
      exact ih distinct.2 hm hf

end Pairs

namespace Filling

variable {members : σ → List (String × Json)} {given : σ → List String → σ} {d : σ}

theorem names_members (h : form.Filling members given) (d : σ) :
    (members d).map (·.1) = form.names :=
  names_of_forall₂ (h.fills d)

/-- A record is read from its members and others, whatever their order. -/
theorem takes_of_subperm (h : form.Filling members given)
    (known : (ms.filter fun m => m.1 ∈ form.names).Subperm (members d))
    (complete : ∀ m ∈ members d, m ∉ members form.initial → m ∈ ms)
    (required : form.allRequired → ∀ name ∈ form.names, name ∈ form.known ms) :
    Takes (readRecord form) (.object ms) d := by
  have fills : ∀ m ∈ ms, ∀ field, form.field? m.1 = some field →
      ∀ seen, Takes (field.read (given d seen)) m.2 (given d (m.1 :: seen)) := by
    intro m hm field hf
    have hname : m.1 ∈ form.names := field?_isSome_iff.mp (by rw [hf]; rfl)
    have hmem : m ∈ members d := known.subset (List.mem_filter.mpr ⟨hm, by simpa using hname⟩)
    exact pair_of_find? (h.fills d) h.distinct hmem hf
  have fresh : (form.known ms).Nodup := by
    obtain ⟨l, hperm, hsub⟩ := known
    have hnames := h.distinct
    rw [← h.names_members d] at hnames
    rw [known_eq, ← (hperm.map (·.1)).nodup_iff]
    exact (hsub.map (·.1)).nodup hnames
  have hmissing : form.missing? (form.known ms).reverse = none := by
    unfold missing?
    split
    · rename_i hall
      refine List.find?_eq_none.mpr fun name hname => ?_
      simpa using required hall name hname
    · rfl
  -- A member that is left out has its default, so the record is complete without it.
  have hfull : given d (form.known ms).reverse = d := by
    refine h.full d _ fun m hm hunseen => ?_
    by_contra hdefault
    have hname : m.1 ∈ form.names := by
      rw [← h.names_members d]
      exact List.mem_map_of_mem hm
    refine hunseen (List.mem_reverse.mpr (mem_known_iff.mpr ⟨?_, hname⟩))
    exact List.mem_map_of_mem (complete m hm hdefault)
  have htakes := readRecord_takes (h.initial d) fills fresh hmissing
  rw [hfull] at htakes
  exact htakes

/-- Every layout of a record is read as that record, if no field is required. -/
theorem takes (h : form.Filling members given) (optional : form.allRequired = false)
    (layout : form.LaysOut (members form.initial) (members d) ms) :
    Takes (readRecord form) (.object ms) d :=
  h.takes_of_subperm layout.known layout.complete (by simp [optional])

/-- A record is read from the members that it is written with. -/
theorem takes_members (h : form.Filling members given) (d : σ) :
    Takes (readRecord form) (.object (members d)) d := by
  refine h.takes_of_subperm List.filter_sublist.subperm (fun m hm _ => hm) fun _ name hname => ?_
  rw [mem_known_iff, h.names_members]
  exact ⟨hname, hname⟩

/-- So it is read from its text. -/
theorem readWhole_text (h : form.Filling members given) (d : σ) :
    readWhole (readRecord form) (Json.object (members d)).text = .ok d :=
  readWhole_takes (h.takes_members d) (spellsWhole_text (h.wellFormed d))

/-- No spelling of an object that gives a field twice is read. -/
theorem refuses (h : form.Filling members given) {name text : String} (field : name ∈ form.names)
    (twice : 2 ≤ (ms.map (·.1)).count name) (spelled : SpellsWhole (.object ms) text) :
    ∃ fault, readWhole (readRecord form) text = .error fault := by
  obtain ⟨start, rest, hgap, hobject, -⟩ := spelled
  obtain ⟨fault, hfault⟩ :=
    readRecord_refuses h.aligned (not_nodup_known field twice) hgap hobject
  exact ⟨fault, by rw [readWhole, hfault]; rfl⟩

end Filling

end RecordForm

end ProtectedCall.Json
