import SmallCpp.Environment
import SmallCpp.Proofs.Store

/-!
# Looking up names

A name that is found is bound in one of the scopes that are searched, and a name that is not found
is bound in none of them.
-/

namespace SmallCpp

namespace Environment

variable {env : Environment} {name : String}

/-- A name stands for the place to which some visible scope binds it. -/
theorem exists_of_lookup_eq_ok {p : Place} (h : env.lookup name = .ok p) :
    ∃ scope ∈ env.visibleScopes, ∃ b, (name, b) ∈ scope ∧ b.place = p := by
  rw [lookup, binding] at h
  split at h
  · rename_i b hfound
    cases h
    obtain ⟨scope, hscope, hb⟩ := List.exists_of_findSome?_eq_some hfound
    obtain ⟨before, after, rfl, -⟩ := List.lookup_eq_some_iff.mp hb
    exact ⟨_, hscope, b, by simp, rfl⟩
  · cases h

/-- The only error of a lookup is that the name is unknown. -/
theorem eq_unknownIdentifier_of_lookup {e : RuntimeError} (h : env.lookup name = .error e) :
    e = .unknownIdentifier name := by
  rw [lookup, binding] at h
  split at h <;> cases h
  rfl

end Environment

end SmallCpp
