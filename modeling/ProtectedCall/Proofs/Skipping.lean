import ProtectedCall.Json.Skip
import ProtectedCall.Proofs.Scanning

/-!
# Stepping over spelled documents

A document that is not wanted is stepped over exactly, from wherever it is spelled and however deep
it nests.

* `skipString_of_spells`, `skipNumeral_append`: the pieces.
* `resume`: stepping goes on at a place.
* `Passes`, `Leaves`: after some steps a text is behind, and the frames around it are left as they
  would be without it. It takes no more steps than it has characters.
* `Passes.of_entered`, `Leaves.of_next`: the parts of a list or an object, one after the other.
* `skipSteps_of_spells`: a document is passed from wherever it is spelled.
* `skipValue_of_spells`: so stepping over a value leaves what is behind it.
-/

namespace ProtectedCall.Json

open Decimal

/-! ## The pieces -/

theorem skipString_append (passed cs : List Char) :
    skipString passed.length (passed ++ cs) = skipString 0 cs := by
  induction passed with
  | nil => rfl
  | cons c passed ih => rw [List.length_cons, List.cons_append, skipString, ih]

theorem skipString_escape {passed cs : List Char}
    (h : skipEscape (passed ++ cs) = .ok passed.length) :
    skipString 0 ('\\' :: (passed ++ cs)) = skipString 0 cs := by
  rw [skipString]
  simp [h, skipString_append]

/-- A string is stepped over up to its closing quote. -/
theorem skipString_of_spells {meant cs rest : List Char} (h : SpellsChars meant cs rest) :
    skipString 0 cs = .ok rest := by
  have unit {a b c d : Char} {n : Nat} (hu : WritesUnit a b c d n) (cs : List Char) :
      skipString 0 ('\\' :: 'u' :: a :: b :: c :: d :: cs) = skipString 0 cs :=
    @skipString_escape ['u', a, b, c, d] cs
      (by simp [skipEscape, shortEscape?, hexUnit_of_writes hu, Except.map])
  induction h with
  | close rest => simp [skipString]
  | plain printable quote backslash _ ih => simp [skipString, quote, backslash, printable, ih]
  | @short letter c meant cs rest hs _ ih =>
    exact (@skipString_escape [letter] cs (by simp [skipEscape, hs])).trans ih
  | unit hu _ _ _ ih => exact (unit hu _).trans ih
  | pair hu _ hu' _ _ ih => exact (unit hu _).trans ((unit hu' _).trans ih)

theorem skipNumeral_append {n : Numeral} (h : n.WellFormed) {rest : List Char}
    (stops : Stops rest) : skipNumeral (n.chars ++ rest) = .ok rest := by
  rw [skipNumeral, numeral_append h stops]

/-! ## Steps -/

/-- Stepping goes on at a place, unless it is behind the whole value. -/
def resume (steps : Nat) : Except Fault Place → Except Fault (List Char)
  | .error fault => .error fault
  | .ok (.value frames cs) => skipSteps steps frames cs
  | .ok (.finished rest) => .ok rest

theorem skipSteps_succ (steps : Nat) (frames : List Frame) (cs : List Char) :
    skipSteps (steps + 1) frames cs = resume steps (skipStep frames cs) := by
  rw [skipSteps]
  cases skipStep frames cs with
  | error fault => rfl
  | ok place => cases place <;> rfl

section Places

variable {frames : List Frame} {cs start rest : List Char}

theorem leave_list_of_gap (h : Gap cs (']' :: rest)) :
    leave (.list :: frames) cs = leave frames rest := by
  conv => lhs; unfold leave
  rw [skipBlanks_of_gap h (by decide)]
  rfl

theorem leave_object_of_gap (h : Gap cs ('\x7d' :: rest)) :
    leave (.object :: frames) cs = leave frames rest := by
  conv => lhs; unfold leave
  rw [skipBlanks_of_gap h (by decide)]
  rfl

theorem leave_of_comma (frame : Frame) (h : Gap cs (',' :: rest)) :
    leave (frame :: frames) cs = nextPlace frame frames rest := by
  unfold leave
  rw [skipBlanks_of_gap h (by decide)]
  cases frame <;> rfl

/-- Behind the bracket of a list that is not empty comes its first item. -/
theorem enter_list {c : Char} (h : Gap cs (c :: rest)) (blank : isBlank c = false)
    (close : c ≠ ']') : enter .list frames cs = .ok (.value (.list :: frames) (c :: rest)) := by
  unfold enter
  rw [skipBlanks_of_gap h blank]
  split
  · rename_i heq _
    cases heq
  · rename_i heq
    cases heq
  · rename_i heq _
    cases heq
    exact absurd rfl close
  · rename_i heq
    cases heq
  · rfl

/-- The value of a member comes behind its name and its colon. -/
theorem nextPlace_object {name : String} {named colon : List Char} (h : Gap cs start)
    (hname : SpellsString name start named) (hcolon : Gap named (':' :: colon)) :
    nextPlace .object frames cs = .ok (.value (.object :: frames) colon) := by
  obtain ⟨inner, rfl, hinner⟩ := hname
  have hskip : skipName cs = .ok colon := by
    rw [skipName, skipBlanks_of_gap h (by decide)]
    simp only [↓reduceIte, skipString_of_spells hinner]
    exact colon_of_gap hcolon
  rw [nextPlace, hskip]
  rfl

end Places

/-- Stepping from a text over some of it, at most a step for each character, comes to where it would
be with the rest alone. -/
def Passes (frames : List Frame) (cs start rest : List Char) : Prop :=
  ∃ steps, steps + rest.length ≤ start.length ∧ ∀ more,
    skipSteps (steps + more) frames cs = resume more (leave frames rest)

/-- The same from behind a part of a list or an object. -/
def Leaves (frame : Frame) (frames : List Frame) (cs rest : List Char) : Prop :=
  ∃ steps, steps + rest.length ≤ cs.length ∧ ∀ more,
    resume (steps + more) (leave (frame :: frames) cs) = resume more (leave frames rest)

section Passing

variable {frame : Frame} {frames : List Frame} {cs inner outer start behind rest : List Char}

/-- What is passed in one step. -/
theorem Passes.of_step (h : skipStep frames cs = leave frames rest)
    (shorter : rest.length < start.length) : Passes frames cs start rest :=
  ⟨1, by omega, fun more => by rw [Nat.add_comm, skipSteps_succ, h]⟩

/-- A list or an object that one step enters is passed with its first part and what follows. -/
theorem Passes.of_entered (h : skipStep frames cs = .ok (.value (frame :: frames) inner))
    (first : Passes (frame :: frames) inner start behind) (follow : Leaves frame frames behind rest)
    (shorter : start.length < outer.length) : Passes frames cs outer rest := by
  obtain ⟨s, hs, pass⟩ := first
  obtain ⟨t, ht, leaves⟩ := follow
  refine ⟨s + t + 1, by omega, fun more => ?_⟩
  rw [show s + t + 1 + more = (s + (t + more)) + 1 by omega, skipSteps_succ, h, resume, pass,
    leaves]

/-- A closing bracket or brace takes no step of its own. -/
theorem Leaves.of_closed (h : leave (frame :: frames) cs = leave frames rest)
    (shorter : rest.length ≤ cs.length) : Leaves frame frames cs rest :=
  ⟨0, by omega, fun more => by rw [h, Nat.zero_add]⟩

/-- Behind a comma, the next part is passed and then what follows. -/
theorem Leaves.of_next (h : leave (frame :: frames) cs = .ok (.value (frame :: frames) inner))
    (next : Passes (frame :: frames) inner start behind) (follow : Leaves frame frames behind rest)
    (shorter : start.length ≤ cs.length) : Leaves frame frames cs rest := by
  obtain ⟨s, hs, pass⟩ := next
  obtain ⟨t, ht, leaves⟩ := follow
  refine ⟨s + t, by omega, fun more => ?_⟩
  rw [h, resume, Nat.add_assoc, pass, leaves]

/-- The three words that are values. -/
theorem passes_word {c : Char} {letters : List Char}
    (word : (c, letters) = ('n', "ull".toList) ∨ (c, letters) = ('t', "rue".toList) ∨
      (c, letters) = ('f', "alse".toList))
    (gap : Gap cs (c :: (letters ++ rest))) : Passes frames cs (c :: (letters ++ rest)) rest := by
  refine .of_step ?_ (by simp only [List.length_cons, List.length_append]; omega)
  rcases word with word | word | word <;>
    · obtain ⟨rfl, rfl⟩ := Prod.mk.inj word
      rw [skipStep, skipBlanks_of_gap gap (by decide)]
      simp only [Char.reduceEq, ↓reduceIte, word_append]
      rfl

theorem passes_number {n : Numeral} (gap : Gap cs start) (spelled : Spells (.number n) start rest) :
    Passes frames cs start rest := by
  have shorter := spelled.length_lt
  obtain ⟨c, tail, rfl, opens⟩ := spelled.opens
  obtain ⟨hn, hchars, stops⟩ := spelled
  obtain ⟨hc, hnull, htrue, hfalse, -⟩ := opens.number
  have hnumeral : (c = '-' || c.isDigit) = true := by simpa using hc
  refine .of_step ?_ shorter
  rw [skipStep, skipBlanks_of_gap gap opens.not_mark.1]
  simp only [hnull, htrue, hfalse, hnumeral, ↓reduceIte]
  rw [hchars, skipNumeral_append hn stops]
  rfl

theorem passes_string {s : String} (gap : Gap cs start) (spelled : SpellsString s start rest) :
    Passes frames cs start rest := by
  have shorter := spelled.length_lt
  obtain ⟨inner, rfl, hinner⟩ := spelled
  refine .of_step ?_ shorter
  rw [skipStep, skipBlanks_of_gap gap (by decide)]
  simp only [Char.reduceEq, ↓reduceIte, skipString_of_spells hinner]
  rfl

theorem passes_emptyList (gap : Gap cs ('[' :: inner)) (close : Gap inner (']' :: rest)) :
    Passes frames cs ('[' :: inner) rest := by
  have shorter := close.length_le
  refine .of_step ?_ (by simp only [List.length_cons] at *; omega)
  rw [skipStep, skipBlanks_of_gap gap (by decide)]
  simp [enter, skipBlanks_of_gap close (by decide)]

theorem passes_emptyObject (gap : Gap cs ('\x7b' :: inner)) (close : Gap inner ('\x7d' :: rest)) :
    Passes frames cs ('\x7b' :: inner) rest := by
  have shorter := close.length_le
  refine .of_step ?_ (by simp only [List.length_cons] at *; omega)
  rw [skipStep, skipBlanks_of_gap gap (by decide)]
  simp [enter, skipBlanks_of_gap close (by decide)]

/-- One step leads to the first item of a list. -/
theorem skipStep_list {item : Json} (gap : Gap cs ('[' :: inner)) (hstart : Gap inner start)
    (hitem : Spells item start behind) :
    skipStep frames cs = .ok (.value (.list :: frames) start) := by
  obtain ⟨c, tail, rfl, opens⟩ := hitem.opens
  obtain ⟨hblank, hclose, -⟩ := opens.not_mark
  rw [skipStep, skipBlanks_of_gap gap (by decide)]
  simp [enter_list hstart hblank hclose]

/-- One step leads over the first name of an object to its value. -/
theorem skipStep_object {name : String} {named colon : List Char} (gap : Gap cs ('\x7b' :: inner))
    (hstart : Gap inner start) (hname : SpellsString name start named)
    (hcolon : Gap named (':' :: colon)) :
    skipStep frames cs = .ok (.value (.object :: frames) colon) := by
  have hnext := @nextPlace_object frames _ _ _ _ _ (.refl start) hname hcolon
  rw [skipStep, skipBlanks_of_gap gap (by decide)]
  obtain ⟨quoted, rfl, -⟩ := hname
  simp [enter, skipBlanks_of_gap hstart (by decide), hnext]

/-- What is in front of the value of a member is not empty. -/
theorem member_length_lt {name : String} {cs start named colon value : List Char}
    (hstart : Gap cs start) (hname : SpellsString name start named)
    (hcolon : Gap named (':' :: colon)) (hgap : Gap colon value) : value.length < cs.length := by
  have := hstart.length_le
  have := hname.length_lt
  have := hcolon.length_le
  have := hgap.length_le
  simp only [List.length_cons] at *
  omega

end Passing

mutual

/-- A document is passed from wherever it is spelled. -/
theorem skipSteps_of_spells : ∀ {j : Json} {cs start rest : List Char} (frames : List Frame),
    Gap cs start → Spells j start rest → Passes frames cs start rest
  | .null, cs, start, rest, frames, gap, spelled => by
    rw [Spells] at spelled
    subst spelled
    exact passes_word (.inl rfl) gap
  | .boolean true, cs, start, rest, frames, gap, spelled => by
    rw [Spells] at spelled
    subst spelled
    exact passes_word (.inr (.inl rfl)) gap
  | .boolean false, cs, start, rest, frames, gap, spelled => by
    rw [Spells] at spelled
    subst spelled
    exact passes_word (.inr (.inr rfl)) gap
  | .number n, cs, start, rest, frames, gap, spelled => passes_number gap spelled
  | .string s, cs, start, rest, frames, gap, spelled => by
    rw [Spells] at spelled
    exact passes_string gap spelled
  | .array [], cs, start, rest, frames, gap, spelled => by
    rw [Spells] at spelled
    obtain ⟨inner, rfl, close⟩ := spelled
    rw [SpellsItems] at close
    exact passes_emptyList gap close
  | .array (item :: items), cs, start, rest, frames, gap, spelled => by
    rw [Spells] at spelled
    obtain ⟨inner, rfl, hinner⟩ := spelled
    rw [SpellsItems] at hinner
    obtain ⟨start, behind, hstart, hitem, hitems⟩ := hinner
    have hfirst := skipSteps_of_spells (.list :: frames) (.refl _) hitem
    have hfollow := skipItems_of_spells frames hitems
    exact .of_entered (skipStep_list gap hstart hitem) hfirst hfollow
      (Nat.lt_succ_of_le (Gap.length_le hstart))
  | .object [], cs, start, rest, frames, gap, spelled => by
    rw [Spells] at spelled
    obtain ⟨inner, rfl, close⟩ := spelled
    rw [SpellsMembers] at close
    exact passes_emptyObject gap close
  | .object ((name, value) :: members), cs, start, rest, frames, gap, spelled => by
    rw [Spells] at spelled
    obtain ⟨inner, rfl, hinner⟩ := spelled
    rw [SpellsMembers] at hinner
    obtain ⟨start, named, colon, start', behind, hstart, hname, hcolon, hgap, hvalue, hmore⟩ :=
      hinner
    have hfirst := skipSteps_of_spells (.object :: frames) hgap hvalue
    have hfollow := skipMembers_of_spells frames hmore
    exact .of_entered (skipStep_object gap hstart hname hcolon) hfirst hfollow
      (Nat.lt_succ_of_lt (member_length_lt hstart hname hcolon hgap))

/-- So are the items that follow one. -/
theorem skipItems_of_spells : ∀ {items : List Json} {cs rest : List Char} (frames : List Frame),
    SpellsItems false items cs rest → Leaves .list frames cs rest
  | [], cs, rest, frames, spelled => by
    rw [SpellsItems] at spelled
    exact .of_closed (leave_list_of_gap spelled) (Nat.le_of_lt spelled.length_le)
  | item :: items, cs, rest, frames, spelled => by
    rw [SpellsItems] at spelled
    obtain ⟨start, behind, ⟨comma, hcomma, hgap⟩, hitem, hitems⟩ := spelled
    have hnext := skipSteps_of_spells (.list :: frames) hgap hitem
    have hfollow := skipItems_of_spells frames hitems
    exact .of_next (leave_of_comma .list hcomma) hnext hfollow
      (Nat.le_trans hgap.length_le (Nat.le_of_lt hcomma.length_le))

/-- So are the members that follow one. -/
theorem skipMembers_of_spells : ∀ {members : List (String × Json)} {cs rest : List Char}
    (frames : List Frame), SpellsMembers false members cs rest → Leaves .object frames cs rest
  | [], cs, rest, frames, spelled => by
    rw [SpellsMembers] at spelled
    exact .of_closed (leave_object_of_gap spelled) (Nat.le_of_lt spelled.length_le)
  | (name, value) :: members, cs, rest, frames, spelled => by
    rw [SpellsMembers] at spelled
    obtain ⟨start, named, colon, start', behind, ⟨comma, hcomma, hgap⟩, hname, hcolon, hgap',
      hvalue, hmore⟩ := spelled
    have hnext := skipSteps_of_spells (.object :: frames) hgap' hvalue
    have hfollow := skipMembers_of_spells frames hmore
    refine .of_next ?_ hnext hfollow ?_
    · rw [leave_of_comma .object hcomma, nextPlace_object hgap hname hcolon]
    · have hle : (',' :: comma).length ≤ cs.length := hcomma.length_le
      exact Nat.le_of_lt (Nat.lt_trans (member_length_lt hgap hname hcolon hgap') hle)

end

/-- Stepping over a value leaves what is behind it. -/
theorem skipValue_of_spells {j : Json} {cs start rest : List Char} (gap : Gap cs start)
    (spelled : Spells j start rest) : skipValue cs = .ok rest := by
  obtain ⟨steps, hsteps, pass⟩ := skipSteps_of_spells [] gap spelled
  obtain ⟨more, hmore⟩ := Nat.exists_eq_add_of_le (show steps ≤ cs.length + 1 by
    have := gap.length_le
    omega)
  rw [skipValue, hmore, pass]
  rfl

end ProtectedCall.Json
