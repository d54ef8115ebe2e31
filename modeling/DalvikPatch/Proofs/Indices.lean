import DalvikPatch.Proofs.Scan
import Mathlib.Order.Bounds.Defs

/-! Classes and methods by their indices. Putting the names of the classes down one after the other leaves each
at the first class that has it, so looking a name up and looking the classes through come to the same. The methods
of a pool are gone through in the order of their indices, and those are all the indices that stand for a method. -/

namespace DalvikPatch

open Text

theorem MethodId.not_before_self (id : MethodId) : ¬ id.Before id := by
  rintro (h | ⟨-, h⟩) <;> exact Nat.lt_irrefl _ h

namespace Pool

/-! ### Names -/

variable {p : Pool} {d : Text} {k : Nat}

/-- Behind what stands under a descriptor already comes the first of the classes that are put down. -/
theorem lookup_foldl_enter (cs : List Class) (n : Nat) (names : List (Text × Nat)) (d : Text) :
    ((cs.zipIdx n).foldl enter names).lookup d =
      (names.lookup d).or ((cs.findIdx? fun c => c.descriptor == d).map (· + n)) := by
  induction cs generalizing n names with
  | nil => rw [List.zipIdx_nil, List.foldl_nil, List.findIdx?_nil, Option.map_none, Option.or_none]
  | cons c cs ih =>
    rw [List.zipIdx_cons, List.foldl_cons, ih, lookup_enter, Option.or_assoc, List.findIdx?_cons]
    congr 1
    by_cases hc : c.descriptor = d
    · simp [hc]
    · simp [hc, Function.comp_def, Nat.add_assoc, Nat.add_comm 1]

theorem find?_eq (p : Pool) (d : Text) : p.find? d = p.classes.findIdx? fun c => c.descriptor == d := by
  rw [find?, names, lookup_foldl_enter, List.lookup_nil, Option.none_or]
  exact Option.map_id'

/-- The least index of a class with that descriptor. -/
theorem find?_eq_some_iff : p.find? d = some k ↔
    IsLeast {j | ∃ c, p.class? j = some c ∧ c.descriptor = d} k := by
  rw [find?_eq, List.findIdx?_eq_some_iff_getElem]
  constructor
  · rintro ⟨hk, heq, hbefore⟩
    refine ⟨⟨p.classes[k], List.getElem?_eq_getElem hk, eq_of_beq heq⟩, ?_⟩
    rintro j ⟨c, hc, hd⟩
    by_contra hlt
    obtain ⟨hj, hcj⟩ := List.getElem?_eq_some_iff.1 hc
    exact hbefore j (Nat.lt_of_not_le hlt) (by rw [hcj, beq_iff_eq, hd])
  · rintro ⟨⟨c, hc, hd⟩, hleast⟩
    obtain ⟨hk, hck⟩ := List.getElem?_eq_some_iff.1 hc
    refine ⟨hk, by rw [hck, beq_iff_eq, hd], fun j hj heq => ?_⟩
    have hjk := hleast ⟨p.classes[j], List.getElem?_eq_getElem (Nat.lt_trans hj hk), eq_of_beq heq⟩
    exact absurd hj (Nat.not_lt.2 hjk)

theorem find?_eq_none_iff : p.find? d = none ↔ ∀ c ∈ p.classes, c.descriptor ≠ d := by
  rw [find?_eq, List.findIdx?_eq_none_iff]
  simp

/-! ### Methods -/

/-- Each index is met once. -/
theorem nodup_ids (p : Pool) : (p.entries.map Entry.id).Nodup := by
  refine List.pairwise_map.2 (p.pairwise_entries.imp ?_)
  rintro a b h heq
  rw [heq] at h
  exact MethodId.not_before_self _ h

theorem mem_entries_iff {e : Entry} : e ∈ p.entries ↔
    p.class? e.id.owner = some e.owner ∧ p.method? e.id = some e.method := by
  rw [mem_entries, method?]
  refine and_congr_right fun h => ?_
  rw [h, Option.bind_some]

/-- The indices that are met are those that stand for a method. -/
theorem mem_ids_iff {id : MethodId} : id ∈ p.entries.map Entry.id ↔ (p.method? id).isSome := by
  rw [List.mem_map, Option.isSome_iff_exists]
  constructor
  · rintro ⟨e, he, rfl⟩
    exact ⟨e.method, (mem_entries_iff.1 he).2⟩
  · rintro ⟨m, hm⟩
    obtain ⟨c, hc, -⟩ := Option.bind_eq_some_iff.1 hm
    exact ⟨⟨id, m, c⟩, mem_entries_iff.2 ⟨hc, hm⟩, rfl⟩

theorem count_ids (p : Pool) (id : MethodId) :
    (p.entries.map Entry.id).count id = if (p.method? id).isSome then 1 else 0 := by
  rw [p.nodup_ids.count]
  exact if_congr mem_ids_iff rfl rfl

/-- All classes are kept at their places, whatever they are called. A name is found at the least index of a class
that has it, and it is not found exactly if none has it. Going through the methods comes to each index that
stands for one once, class after class and in each in the order of its methods, with the method and the class that the
index stands for. -/
theorem indices_stand_for_all (cs : List Class) :
    ((mk cs).size = cs.length ∧ ∀ k, (mk cs).class? k = cs[k]?) ∧
    (∀ d k, (mk cs).find? d = some k ↔ IsLeast {j | ∃ c, cs[j]? = some c ∧ c.descriptor = d} k) ∧
    (∀ d, (mk cs).find? d = none ↔ ∀ c ∈ cs, c.descriptor ≠ d) ∧
    (∀ e, e ∈ (mk cs).entries ↔
      (mk cs).class? e.id.owner = some e.owner ∧ (mk cs).method? e.id = some e.method) ∧
    (∀ id, ((mk cs).entries.map Entry.id).count id = if ((mk cs).method? id).isSome then 1 else 0) ∧
    ((mk cs).entries.map Entry.id).Pairwise MethodId.Before :=
  ⟨⟨rfl, fun _ => rfl⟩, fun _ _ => find?_eq_some_iff, fun _ => find?_eq_none_iff, fun _ => mem_entries_iff,
    count_ids _, List.pairwise_map.2 (pairwise_entries _)⟩

end Pool

end DalvikPatch
