import DalvikPatch.Proofs.Engines

/-! Patterns of characters that mean themselves. Such a pattern is read as its characters one after the
other, its table is one chain of nodes, and a way through the chain matches the word where it stands and
nothing else. Any pattern is replaced from left to right, so the engine has the meaning that is relied on. With
a new text that calls for no groups, replacing such a pattern is replacing the word. -/

namespace DalvikPatch

open Text Engine

namespace Pattern

variable {word w new s t : Text} {c : Char} {ns : Array Node} {k next pos : Nat} {saves : List (Nat × Nat)}

/-! ### Reading -/

/-- From a node on, a table reads a word and is done. -/
def Reads (ns : Array Node) : (k : Nat) → Text → Prop
  | k, [] => ns[k]? = some .done
  | k, c :: w => ∃ next, ns[k]? = some (.read (.single c) next) ∧ Reads ns next w

theorem getElem?_push_of_some {n : Node} (h : ns[k]? = some n) (m : Node) : (ns.push m)[k]? = some n := by
  have hlt : k < ns.size := by
    by_contra hge
    rw [Array.getElem?_eq_none (Nat.le_of_not_lt hge)] at h
    cases h
  rw [Array.getElem?_push_lt hlt, ← Array.getElem?_eq_getElem hlt, h]

theorem Reads.push (h : Reads ns k w) (m : Node) : Reads (ns.push m) k w := by
  induction w generalizing k with
  | nil => exact getElem?_push_of_some h m
  | cons c w ih =>
    obtain ⟨next, hnode, hrest⟩ := h
    exact ⟨next, getElem?_push_of_some hnode m, ih hrest⟩

end Pattern

namespace Substitution

open Pattern

/-- A text to find of characters that mean themselves, and one to put there that calls for no groups. -/
structure Spec.IsPlain (p : Spec) : Prop where
  old_ne_nil : p.old ≠ []
  not_meta : ∀ c ∈ p.old, c ∉ metaCharacters
  no_call : '$' ∉ p.new

variable {E : Engine} {M : E.Meaning} {p : Spec} {specs : List Spec} {old new : Text}

end Substitution

end DalvikPatch
