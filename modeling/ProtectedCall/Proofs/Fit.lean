import ProtectedCall.Invocation
import ProtectedCall.Proofs.Except

/-!
# Calls that fit

A method fits a call if it belongs to the target's type and takes the arguments. The checks that a
call passes when it is captured, when its arguments are replaced and when a body is run all come
down to this.

* `Method.Fits`: the owner is the type of the target, and the arguments suit the parameters.
* `Signature.checkArgs_eq_ok_iff`, `Invocation.Draft.check_eq_ok_iff`, `Method.Fits.dispatch`: the
  checks in terms of it.
* `Invocation.Draft.build_eq_ok_iff`: the drafts that can be captured, and as what.
* `Invocation.withArgs_eq_ok_iff`: the arguments that may replace others.
-/

namespace ProtectedCall

variable {ι β : Type}

/-- A method fits a target and arguments: it belongs to the type of the target, and each parameter
takes its argument. -/
structure Method.Fits (m : Method β) (target : Target ι) (args : List Value) : Prop where
  owner : m.owner = target.typeName
  count : args.length = m.arity
  accepted : ∀ p ∈ m.signature.params.zip args, p.1.accepts p.2

/-- Only owner and parameters matter. -/
theorem Method.Fits.congr {m f : Method β} {target : Target ι} {args : List Value}
    (h : m.Fits target args) (ho : f.owner = m.owner)
    (hp : f.signature.params = m.signature.params) : f.Fits target args where
  owner := ho.trans h.owner
  count := by rw [h.count, Method.arity, Method.arity, hp]
  accepted := by rw [hp]; exact h.accepted

/-! ## Checks -/

namespace Signature

theorem mismatch?_eq_none_iff {index : Nat} {params : List ParamKind} {args : List Value} :
    mismatch? index params args = none ↔ ∀ p ∈ params.zip args, p.1.accepts p.2 := by
  induction params generalizing index args with
  | nil => simp [mismatch?]
  | cons param params ih =>
    cases args with
    | nil => simp [mismatch?]
    | cons arg args =>
      unfold mismatch?
      split
      · rename_i ha
        simp [ih, ha]
      · rename_i ha
        simp [ha]

theorem checkArgs_eq_ok_iff {s : Signature} {args : List Value} :
    s.checkArgs args = .ok () ↔
      args.length = s.params.length ∧ ∀ p ∈ s.params.zip args, p.1.accepts p.2 := by
  rw [← @mismatch?_eq_none_iff 0]
  unfold checkArgs
  split
  · rename_i hl
    simp [hl]
  · rename_i hl
    cases mismatch? 0 s.params args with
    | none => simpa using hl
    | some p => simp

/-- Arguments that are refused are refused as arguments. -/
theorem checkArgs_fault {s : Signature} {args : List Value} {e : CallError}
    (h : s.checkArgs args = .error e) : ∃ fault, e = .invalidInvocation fault := by
  unfold checkArgs at h
  split at h
  · exact ⟨_, (Except.error.inj h).symm⟩
  · split at h
    · exact ⟨_, (Except.error.inj h).symm⟩
    · cases h

end Signature

/-- The arguments of a call that fits may be replaced by others that pass the check. -/
theorem Method.Fits.replace {m : Method β} {target : Target ι} {args others : List Value}
    (h : m.Fits target args) (ho : m.signature.checkArgs others = .ok ()) :
    m.Fits target others := by
  obtain ⟨hl, ha⟩ := Signature.checkArgs_eq_ok_iff.mp ho
  exact ⟨h.owner, hl, ha⟩

theorem Method.Fits.checkArgs {m : Method β} {target : Target ι} {args : List Value}
    (h : m.Fits target args) : m.signature.checkArgs args = .ok () :=
  Signature.checkArgs_eq_ok_iff.mpr ⟨h.count, h.accepted⟩

/-- A call that fits passes the checks in front of the body. -/
theorem Method.Fits.dispatch {m : Method β} {target : Target ι} {args : List Value}
    (h : m.Fits target args) : m.dispatch target args = .ok target.state := by
  unfold Method.dispatch
  rw [if_neg (by simp [h.owner]), if_neg (by simp [h.count]), Target.downcast?, if_pos h.owner.symm]

namespace Invocation

theorem Draft.check_eq_ok_iff {target : Target ι} {args : List Value} {m : Method β} :
    Draft.check target args m = .ok () ↔ m.Fits target args := by
  unfold Draft.check
  rw [bind_eq_ok_iff]
  constructor
  · rintro ⟨⟨⟩, ho, ha⟩
    obtain ⟨hl, ha⟩ := Signature.checkArgs_eq_ok_iff.mp ha
    refine ⟨?_, hl, ha⟩
    unfold Method.checkOwner at ho
    split at ho
    · cases ho
    · rename_i h
      exact (Decidable.not_not.mp h).symm
  · intro h
    refine ⟨(), ?_, h.checkArgs⟩
    rw [Method.checkOwner, if_neg (by simp [h.owner])]

/-- A draft can be captured if it has a target and a method, and both that method and the cache-key
method fit the call. -/
theorem Draft.build_eq_ok_iff {d : Draft ι β} {inv : Invocation ι β} :
    d.build = .ok inv ↔ ∃ target method, d.target = some target ∧ d.method = some method ∧
      method.Fits target d.args ∧ (∀ c, d.cacheKeyMethod = some c → c.Fits target d.args) ∧
      inv = {
        target, method
        args := d.args
        collapser := d.collapser.getD method.collapser
        groupKey := keyOr d.groupKey target.shortTypeName
        commandKey := keyOr d.commandKey method.name
        collapserKey := keyOr d.collapserKey method.name
        cacheKeyMethod := d.cacheKeyMethod
        mode := d.mode.getD (.ofShape method.returns) } := by
  unfold Draft.build
  cases ht : d.target with
  | none => simp
  | some target =>
    cases hm : d.method with
    | none => simp
    | some method =>
      simp only [Option.some.injEq, exists_and_left, exists_eq_left', bind_eq_ok_iff]
      cases hc : d.cacheKeyMethod with
      | none =>
        constructor
        · rintro ⟨⟨⟩, h, hinv⟩
          exact ⟨check_eq_ok_iff.mp h, by simp, (Except.ok.inj hinv).symm⟩
        · rintro ⟨h, -, rfl⟩
          exact ⟨(), check_eq_ok_iff.mpr h, rfl⟩
      | some c =>
        constructor
        · rintro ⟨⟨⟩, h, hinv⟩
          obtain ⟨⟨⟩, hcf, hinv⟩ := bind_eq_ok_iff.mp hinv
          refine ⟨check_eq_ok_iff.mp h, ?_, (Except.ok.inj hinv).symm⟩
          rintro _ ⟨⟩
          exact check_eq_ok_iff.mp hcf
        · rintro ⟨h, hcf, rfl⟩
          refine ⟨(), check_eq_ok_iff.mpr h, bind_eq_ok_iff.mpr ⟨(), ?_, rfl⟩⟩
          exact check_eq_ok_iff.mpr (hcf c rfl)

/-- The arguments of a captured call may be replaced by those that its method takes. -/
theorem withArgs_eq_ok_iff {inv other : Invocation ι β} {args : List Value} :
    inv.withArgs args = .ok other ↔
      inv.method.signature.checkArgs args = .ok () ∧ other = { inv with args } := by
  unfold withArgs
  rw [bind_eq_ok_iff]
  constructor
  · rintro ⟨⟨⟩, h, ho⟩
    exact ⟨h, (Except.ok.inj ho).symm⟩
  · rintro ⟨h, rfl⟩
    exact ⟨(), h, rfl⟩

end Invocation

end ProtectedCall
