import Mathlib.Data.List.Basic
import ProtectedCall.Registry

/-!
# Texts of signatures

The text of a signature is its owner, its name and its parameters, one behind the other. The name
may hold anything, also parentheses and whole signatures. The names of parameters hold neither
commas nor parentheses, so the parameters begin behind the last opening parenthesis.

* `Text.intercalate_inj`, `paramsText_injective`: texts without the separator, joined by it, can be
  told apart again.
* `Text.append_cons_inj`, `paramsText_notMem`: a text is cut in one way at the last `c`.
* `Signature.eq_of_text`: so methods of one owner have different texts.
* `Signature.text_identifies`: the same of the messages that name a method.
-/

namespace ProtectedCall

variable {β : Type}

namespace Text

/-- Two texts that are cut off at the first `c` are the same on both sides of the cut. -/
private theorem append_inj_of_notMem {c : Char} {a b u v : List Char} (ha : c ∉ a) (hb : c ∉ b)
    (hu : ∀ x ∈ u.head?, x = c) (hv : ∀ x ∈ v.head?, x = c) (h : a ++ u = b ++ v) :
    a = b ∧ u = v := by
  induction a generalizing b with
  | nil =>
    cases b with
    | nil => exact ⟨rfl, h⟩
    | cons x b =>
      rw [List.nil_append] at h
      have hx : x = c := hu x (by simp [h])
      simp [hx] at hb
  | cons x a ih =>
    cases b with
    | nil =>
      rw [List.nil_append] at h
      have hx : x = c := hv x (by simp [← h])
      simp [hx] at ha
    | cons y b =>
      simp only [List.cons_append, List.cons.injEq] at h
      simp only [List.mem_cons, not_or] at ha hb
      obtain ⟨rfl, h⟩ := h
      obtain ⟨rfl, rfl⟩ := ih ha.2 hb.2 h
      exact ⟨rfl, rfl⟩

/-- What follows the first of several texts is empty or begins with a separator. -/
private theorem exists_intercalate_cons (c : Char) (sep x : List Char) (xs : List (List Char)) :
    ∃ rest, (c :: sep).intercalate (x :: xs) = x ++ rest ∧ (∀ y ∈ rest.head?, y = c) ∧
      (rest = [] ∧ xs = [] ∨ rest = c :: sep ++ (c :: sep).intercalate xs ∧ xs ≠ []) := by
  cases xs with
  | nil => exact ⟨[], by simp, by simp, .inl ⟨rfl, rfl⟩⟩
  | cons y xs =>
    refine ⟨c :: sep ++ (c :: sep).intercalate (y :: xs), ?_, by simp, .inr ⟨rfl, by simp⟩⟩
    rw [List.intercalate_cons_cons, List.append_assoc]

/-- Texts that are joined can be told apart if none of them is empty or has the character that
separators begin with. -/
theorem intercalate_inj {c : Char} {sep : List Char} {as bs : List (List Char)}
    (ha : ∀ a ∈ as, a ≠ [] ∧ c ∉ a) (hb : ∀ b ∈ bs, b ≠ [] ∧ c ∉ b)
    (h : (c :: sep).intercalate as = (c :: sep).intercalate bs) : as = bs := by
  induction as generalizing bs with
  | nil =>
    cases bs with
    | nil => rfl
    | cons b bs =>
      obtain ⟨rest, hrest, -⟩ := exists_intercalate_cons c sep b bs
      rw [hrest, List.intercalate_nil, eq_comm, List.append_eq_nil_iff] at h
      exact absurd h.1 (hb b List.mem_cons_self).1
  | cons a as ih =>
    obtain ⟨u, hau, hu, has⟩ := exists_intercalate_cons c sep a as
    cases bs with
    | nil =>
      rw [hau, List.intercalate_nil, List.append_eq_nil_iff] at h
      exact absurd h.1 (ha a List.mem_cons_self).1
    | cons b bs =>
      -- The first texts end where a separator begins or all ends, so they are cut off alike.
      obtain ⟨v, hbv, hv, hbs⟩ := exists_intercalate_cons c sep b bs
      rw [hau, hbv] at h
      obtain ⟨rfl, rfl⟩ := append_inj_of_notMem (ha a List.mem_cons_self).2
        (hb b List.mem_cons_self).2 hu hv h
      simp only [List.mem_cons, forall_eq_or_imp] at ha hb
      rcases has with ⟨rfl, rfl⟩ | ⟨rfl, has⟩ <;> rcases hbs with ⟨hv, rfl⟩ | ⟨hv, hbs⟩
      · rfl
      · simp at hv
      · simp at hv
      · rw [ih ha.2 hb.2 (List.append_cancel_left hv)]

/-- Two texts that are cut at the last `c` are the same on both sides of the cut. -/
theorem append_cons_inj {c : Char} {a b u v : List Char} (hu : c ∉ u) (hv : c ∉ v)
    (h : a ++ c :: u = b ++ c :: v) : a = b ∧ u = v := by
  -- If one cut were before the other, its `c` would occur behind the other one.
  have only_here {w u v : List Char} (hu : c ∉ u) (h : c :: u = w ++ c :: v) : w = [] ∧ u = v := by
    cases w with
    | nil => exact ⟨rfl, (List.cons.inj h).2⟩
    | cons x w =>
      rw [(List.cons.inj h).2] at hu
      simp at hu
  rcases List.append_eq_append_iff.mp h with ⟨w, rfl, hw⟩ | ⟨w, rfl, hw⟩
  · obtain ⟨rfl, rfl⟩ := only_here hu hw
    exact ⟨(List.append_nil a).symm, rfl⟩
  · obtain ⟨rfl, rfl⟩ := only_here hv hw
    exact ⟨List.append_nil b, rfl⟩

/-- What occurs neither in the texts nor in the separator does not occur where they are joined. -/
theorem notMem_intercalate {c : Char} {sep : List Char} {xs : List (List Char)} (hsep : c ∉ sep)
    (h : ∀ x ∈ xs, c ∉ x) : c ∉ sep.intercalate xs := by
  induction xs with
  | nil => simp
  | cons x xs ih =>
    have hx := h x List.mem_cons_self
    cases xs with
    | nil => simpa using hx
    | cons y xs =>
      have hmore := ih fun z hz => h z (List.mem_cons_of_mem _ hz)
      rw [List.intercalate_cons_cons]
      simp [hx, hsep, hmore]

end Text

/-! ## Texts of signatures -/

theorem ParamKind.name_injective : Function.Injective ParamKind.name := by
  intro a b h
  cases a <;> cases b <;> simp_all [ParamKind.name]

/-- The text of parameters tells which they are. -/
theorem paramsText_injective : Function.Injective paramsText := by
  intro as bs h
  have names (ps : List ParamKind) :
      ∀ a ∈ (ps.map ParamKind.name).map String.toList, a ≠ [] ∧ ',' ∉ a := by
    simp only [List.map_map, List.mem_map, Function.comp_apply, forall_exists_index, and_imp,
      forall_apply_eq_imp_iff₂]
    intro p _
    cases p <;> decide
  have hlists := Text.intercalate_inj (names as) (names bs) (String.ofList_injective h)
  have hnames := List.map_injective_iff.mpr (fun _ _ => String.toList_inj.mp) hlists
  exact List.map_injective_iff.mpr ParamKind.name_injective hnames

/-- There is no opening parenthesis in the text of parameters. -/
theorem paramsText_notMem (params : List ParamKind) : '(' ∉ (paramsText params).toList := by
  have names : ∀ x ∈ (params.map ParamKind.name).map String.toList, '(' ∉ x := by
    simp only [List.map_map, List.mem_map, Function.comp_apply, forall_exists_index, and_imp,
      forall_apply_eq_imp_iff₂]
    intro p _
    cases p <;> decide
  rw [paramsText, Text.joinWith, String.toList_ofList]
  exact Text.notMem_intercalate (by decide) names

/-- Methods of one owner have different texts. -/
theorem Signature.eq_of_text {s t : Signature} (owner : s.owner = t.owner)
    (h : s.text = t.text) : s = t := by
  obtain ⟨_, name, params⟩ := s
  obtain ⟨_, name', params'⟩ := t
  obtain rfl := owner
  have cut : name.toList ++ '(' :: ((paramsText params).toList ++ [')']) =
      name'.toList ++ '(' :: ((paramsText params').toList ++ [')']) := by
    simpa [text, ← String.toList_inj] using h
  have behind (params : List ParamKind) : '(' ∉ (paramsText params).toList ++ [')'] := by
    simpa using paramsText_notMem params
  obtain ⟨hname, hparams⟩ := Text.append_cons_inj (behind params) (behind params') cut
  rw [String.toList_inj.mp hname,
    paramsText_injective (String.toList_inj.mp (List.append_cancel_right hparams))]

/-- An error about a missing fallback lists the methods of its owner and its name by their texts. -/
theorem FallbackLink.mem_overloads_iff {registrations : List (Registration β)}
    {owner name text : String} :
    text ∈ overloads registrations owner name ↔ ∃ r ∈ registrations,
      (r.signature.owner = owner ∧ r.signature.name = name) ∧ r.signature.text = text := by
  simp [overloads, and_assoc]

/-- Whatever names methods have, the texts tell them apart. Lists of parameters have different
texts; methods of one owner have different texts, and so have the errors that name them; and an
overload that an error lists is the only method of its owner with this text. -/
theorem Signature.text_identifies :
    (∀ params params', paramsText params = paramsText params' ↔ params = params') ∧
    (∀ s t : Signature, s.owner = t.owner →
      (s.text = t.text ↔ s.name = t.name ∧ s.params = t.params) ∧
      (s ≠ t →
        (CallError.duplicateMethod s).message ≠ (CallError.duplicateMethod t).message ∧
        (CallError.missingDeclaration s).message ≠ (CallError.missingDeclaration t).message)) ∧
    ∀ (registrations : List (Registration β)) (owner name : String),
      ∀ text ∈ FallbackLink.overloads registrations owner name,
        ∃! s, s ∈ registrations.map (·.signature) ∧ s.owner = owner ∧ s.text = text := by
  refine ⟨fun _ _ => paramsText_injective.eq_iff,
    fun s t owner => ⟨⟨fun h => ?_, ?_⟩, fun hne => ?_⟩,
    fun registrations owner name text hmem => ?_⟩
  · rw [eq_of_text owner h]
    exact ⟨rfl, rfl⟩
  · rintro ⟨name, params⟩
    rw [text, text, owner, name, params]
  · have texts : s.text ≠ t.text := fun h => hne (eq_of_text owner h)
    have wording (before behind : String) :
        before ++ s.text ++ behind ≠ before ++ t.text ++ behind := by
      rwa [Ne, String.append_left_inj, String.append_right_inj]
    exact ⟨wording "Method '" _, wording "Command annotation is missing for method '" _⟩
  · obtain ⟨r, hr, ⟨howner, -⟩, rfl⟩ := FallbackLink.mem_overloads_iff.mp hmem
    refine ⟨r.signature, ⟨List.mem_map_of_mem hr, howner, rfl⟩, ?_⟩
    rintro s ⟨-, hs, htext⟩
    exact eq_of_text (hs.trans howner.symm) htext

namespace Lookalike

/-- Two overloads, and a method whose name is written like one of them. -/
def registrations : List (Registration Unit) :=
  [("pay", [.text]), ("pay", []), ("pay(TEXT)", [])].map fun (name, params) =>
    { signature := ⟨"Shop", name, params⟩, body := () }

theorem text_identifies_lookalike :
    ∃ s ∈ registrations.map (·.signature), ∃ t ∈ registrations.map (·.signature),
      s.owner = t.owner ∧ s.text = "Shop::pay(TEXT)" ∧ t.text = "Shop::pay(TEXT)()" ∧ s ≠ t ∧
      (CallError.duplicateMethod s).message ≠ (CallError.duplicateMethod t).message ∧
      "Shop::pay(TEXT)" ∈ FallbackLink.overloads registrations "Shop" "pay" ∧
      ∃! u, u ∈ registrations.map (·.signature) ∧ u.owner = "Shop" ∧
        u.text = "Shop::pay(TEXT)" := by
  let s : Signature := ⟨"Shop", "pay", [.text]⟩
  let t : Signature := ⟨"Shop", "pay(TEXT)", []⟩
  obtain ⟨-, apart, listed⟩ := Signature.text_identifies (β := Unit)
  have distinct : s ≠ t := by decide
  have hs : s.text = "Shop::pay(TEXT)" := by decide
  have hmem : "Shop::pay(TEXT)" ∈ FallbackLink.overloads registrations "Shop" "pay" :=
    FallbackLink.mem_overloads_iff.mpr ⟨_, List.mem_cons_self, ⟨rfl, rfl⟩, hs⟩
  exact ⟨s, by decide, t, by decide, rfl, hs, by decide, distinct, ((apart s t rfl).2 distinct).1,
    hmem, listed registrations "Shop" "pay" _ hmem⟩

end Lookalike

end ProtectedCall
