import Mathlib.Data.List.Infix
import Mathlib.Data.List.TakeWhile
import ProtectedCall.Text.TypeName

/-!
# Short names of types

What the two searches in a type name find: the first opening angle bracket, from the left, and in
front of it the last double colon, from the right. Double colons in the arguments do not count, as
the arguments are cut off before; of three colons in a row the last two divide.

* `IsPath`, `IsLastSegment`: the two parts, told by their place in the text. There is one of each
  (`isPath_iff`, `isLastSegment_iff`).
* `IsLastSegment.not_divided`: nothing divides a last segment again.
* `shortTypeName_ignores_arguments`: the short name of a type is the last segment of its path.
-/

namespace ProtectedCall.Text

/-- What divides two segments of a path. -/
def divider : List Char := [':', ':']

/-- The path stands in front of the first opening angle bracket; it is the whole name where there is
none. -/
def IsPath (name path : List Char) : Prop :=
  '<' ∉ path ∧ (name = path ∨ ∃ arguments, name = path ++ '<' :: arguments)

/-- The segment stands behind the last double colon; it is the whole path where there is none. -/
def IsLastSegment (path segment : List Char) : Prop :=
  (¬ divider <:+: path ∧ segment = path) ∨
    ∃ before, path = before ++ divider ++ segment ∧
      ∀ before' behind, path = before' ++ divider ++ behind → before'.length ≤ before.length

/-! ## Paths -/

/-- A text is cut at its first angle bracket. -/
theorem isPath_iff {name path : List Char} : IsPath name path ↔ path = beforeArguments name := by
  constructor
  · rintro ⟨hpath, rfl | ⟨arguments, rfl⟩⟩
    · refine (List.takeWhile_eq_self_iff.mpr fun c hc => ?_).symm
      rw [bne_iff_ne]
      exact fun h => hpath (h ▸ hc)
    · have inside : ∀ c ∈ path, (c != '<') = true := fun c hc => by
        rw [bne_iff_ne]
        exact fun h => hpath (h ▸ hc)
      rw [beforeArguments, List.takeWhile_append_of_pos inside]
      simp
  · rintro rfl
    refine ⟨fun h => ?_, ?_⟩
    · simpa using List.mem_takeWhile_imp h
    · have whole := List.takeWhile_append_dropWhile (p := (· != '<')) (l := name)
      cases hrest : name.dropWhile (· != '<') with
      | nil =>
        rw [hrest, List.append_nil] at whole
        exact .inl whole.symm
      | cons c arguments =>
        have hc := List.head_dropWhile_not (· != '<') (l := name) (by simp [hrest])
        simp only [hrest, List.head_cons, bne_eq_false_iff_eq] at hc
        subst hc
        rw [hrest] at whole
        exact .inr ⟨arguments, whole.symm⟩

/-! ## Last segments -/

theorem divider_infix_cons_iff {c : Char} {cs : List Char} :
    divider <:+: c :: cs ↔ (c = ':' ∧ cs.head? = some ':') ∨ divider <:+: cs := by
  rw [List.infix_cons_iff, divider, List.cons_prefix_cons, eq_comm]
  cases cs with
  | nil => simp
  | cons d ds => simp [List.cons_prefix_cons, eq_comm]

/-- Where a segment begins behind a divider and nothing divides later, the divider is the last. -/
theorem IsLastSegment.of_divider {path before segment : List Char}
    (h : path = before ++ divider ++ segment) (last : ¬ divider <:+: ':' :: segment) :
    IsLastSegment path segment := by
  refine .inr ⟨before, h, fun before' behind h' => ?_⟩
  rw [h, List.append_assoc, List.append_assoc] at h'
  rcases List.append_eq_append_iff.mp h' with ⟨between, rfl, hbetween⟩ | ⟨between, rfl, -⟩
  · cases between with
    | nil => simp
    | cons c between =>
      -- A later divider may share a colon with this one, so the colon in front counts.
      have hlater : ':' :: segment = between ++ divider ++ behind := by
        simpa [divider] using (List.cons.inj hbetween).2
      exact absurd ⟨between, behind, hlater.symm⟩ last
  · simp

/-- What the search for the last divider finds. -/
theorem afterLastDivider_spec (candidate path : List Char) :
    (¬ divider <:+: path ∧ afterLastDivider candidate path = candidate) ∨
      ∃ before, path = before ++ divider ++ afterLastDivider candidate path ∧
        ¬ divider <:+: ':' :: afterLastDivider candidate path := by
  fun_induction afterLastDivider candidate path with
  | case1 candidate rest ih =>
    rcases ih with ⟨hnone, hfound⟩ | ⟨before, hrest, hlast⟩
    · rw [hfound]
      exact .inr ⟨[], rfl, hnone⟩
    · exact .inr ⟨':' :: before, by rw [List.cons_append, List.cons_append, ← hrest], hlast⟩
  | case2 candidate c rest hc ih =>
    rcases ih with ⟨hnone, hfound⟩ | ⟨before, hrest, hlast⟩
    · refine .inl ⟨fun h => ?_, hfound⟩
      rcases divider_infix_cons_iff.mp h with ⟨rfl, hhead⟩ | hin
      · obtain ⟨tail, rfl⟩ := List.head?_eq_some_iff.mp hhead
        exact hc tail rfl rfl
      · exact hnone hin
    · exact .inr ⟨c :: before, by rw [List.cons_append, List.cons_append, ← hrest], hlast⟩
  | case3 candidate => exact .inl ⟨by simp [divider], rfl⟩

theorem isLastSegment_lastSegment (path : List Char) : IsLastSegment path (lastSegment path) := by
  rcases afterLastDivider_spec path path with ⟨hnone, hfound⟩ | ⟨before, hpath, hlast⟩
  · exact .inl ⟨hnone, hfound⟩
  · exact .of_divider hpath hlast

/-- A path has one last segment. -/
theorem isLastSegment_iff {path segment : List Char} :
    IsLastSegment path segment ↔ segment = lastSegment path := by
  refine ⟨fun h => ?_, fun h => h ▸ isLastSegment_lastSegment path⟩
  have found := isLastSegment_lastSegment path
  generalize lastSegment path = other at found ⊢
  rcases h with ⟨hnone, rfl⟩ | ⟨before, hpath, hlast⟩ <;>
    rcases found with ⟨hnone', rfl⟩ | ⟨before', hpath', hlast'⟩
  · rfl
  · exact absurd ⟨before', _, hpath'.symm⟩ hnone
  · exact absurd ⟨before, _, hpath.symm⟩ hnone'
  · have hlength := Nat.le_antisymm (hlast' _ _ hpath) (hlast _ _ hpath')
    rw [hpath, List.append_assoc, List.append_assoc] at hpath'
    exact List.append_cancel_left (List.append_inj hpath' hlength).2

/-- Nothing divides a last segment again. -/
theorem IsLastSegment.not_divided {path segment : List Char} (h : IsLastSegment path segment) :
    ¬ divider <:+: segment := by
  rintro ⟨before', behind, rfl⟩
  rcases h with ⟨hnone, hs⟩ | ⟨before, hpath, hlast⟩
  · exact hnone ⟨before', behind, hs⟩
  · have hlater := hlast (before ++ divider ++ before') behind (by rw [hpath]; simp)
    simp only [divider, List.length_append, List.length_cons] at hlater
    omega

/-- A last segment is the end of its path. -/
theorem IsLastSegment.isSuffix {path segment : List Char} (h : IsLastSegment path segment) :
    segment <:+ path := by
  rcases h with ⟨-, rfl⟩ | ⟨before, rfl, -⟩
  · exact List.suffix_refl _
  · exact List.suffix_append _ _

/-! ## Short names -/

theorem toList_shortTypeName (name : String) :
    (shortTypeName name).toList = lastSegment (beforeArguments name.toList) :=
  String.toList_ofList

/-- The short name of a type is the last segment of its path, whatever its arguments are: it holds
neither an angle bracket nor a double colon, arguments behind a path change nothing, and a plain
segment behind a double colon is the short name. -/
theorem shortTypeName_ignores_arguments :
    (∀ name : String, ∃ path, (∀ other, IsPath name.toList other ↔ other = path) ∧
      IsLastSegment path (shortTypeName name).toList ∧
      '<' ∉ (shortTypeName name).toList ∧ ¬ divider <:+: (shortTypeName name).toList) ∧
    (∀ path arguments : String, '<' ∉ path.toList →
      shortTypeName (path ++ "<" ++ arguments) = shortTypeName path) ∧
    ∀ path segment : String, '<' ∉ path.toList → ':' ∉ segment.toList → '<' ∉ segment.toList →
      shortTypeName (path ++ "::" ++ segment) = segment := by
  refine ⟨fun name => ?_, fun path arguments hpath => ?_,
    fun path segment hpath hcolon hsegment => ?_⟩
  · have hlast := isLastSegment_lastSegment (beforeArguments name.toList)
    rw [toList_shortTypeName]
    refine ⟨_, fun _ => isPath_iff, hlast, fun h => ?_, hlast.not_divided⟩
    exact (isPath_iff.mpr rfl).1 (hlast.isSuffix.mem h)
  · have whole : IsPath path.toList path.toList := ⟨hpath, .inl rfl⟩
    have cut : IsPath (path ++ "<" ++ arguments).toList path.toList :=
      ⟨hpath, .inr ⟨arguments.toList, by simp⟩⟩
    rw [shortTypeName, shortTypeName, ← isPath_iff.mp whole, ← isPath_iff.mp cut]
  · have whole : IsPath (path ++ "::" ++ segment).toList
        (path.toList ++ divider ++ segment.toList) :=
      ⟨by simp [divider, hpath, hsegment], .inl (by simp [divider])⟩
    have plain : ¬ divider <:+: ':' :: segment.toList := by
      rw [divider_infix_cons_iff]
      rintro (⟨-, hhead⟩ | hin)
      · exact hcolon (List.mem_of_mem_head? hhead)
      · exact hcolon (hin.subset (by simp [divider]))
    have hlast : IsLastSegment (path.toList ++ divider ++ segment.toList) segment.toList :=
      .of_divider rfl plain
    rw [← String.toList_inj, toList_shortTypeName, ← isPath_iff.mp whole,
      ← isLastSegment_iff.mp hlast]

theorem shortTypeName_ignores_arguments_shelf :
    '<' ∉ "shop:::stock::Shelf".toList ∧
      shortTypeName "shop:::stock::Shelf<shop::Box<a::B>, c::D>" = "Shelf" ∧
      '<' ∉ "shop:".toList ∧ ':' ∉ "stock".toList ∧ '<' ∉ "stock".toList ∧
      shortTypeName "shop:::stock" = "stock" := by
  obtain ⟨-, arguments, segment⟩ := shortTypeName_ignores_arguments
  have path : '<' ∉ "shop:::stock::Shelf".toList := by decide
  have front : '<' ∉ "shop:".toList := by decide
  have plain : ':' ∉ "stock".toList ∧ '<' ∉ "stock".toList := by decide
  refine ⟨path, ?_, front, plain.1, plain.2, segment "shop:" "stock" front plain.1 plain.2⟩
  exact (arguments _ "shop::Box<a::B>, c::D>" path).trans
    (segment "shop:::stock" "Shelf" (by decide) (by decide) (by decide))

end ProtectedCall.Text
