import DalvikPatch.Proofs.Replacements

/-! What is relied on of an engine. Its patterns prefer a match at each place where they have one; replacing
goes from one match to the next, the first behind the one before, and writes what the template says. A character
without a special meaning matches itself, and characters in a row match in a row, so with a template that calls
for nothing a word is replaced as in plain text. -/

namespace DalvikPatch

open Text

namespace Engine

/-- The characters that can have a special meaning in a pattern. -/
def metaCharacters : List Char :=
  ['\\', '.', '+', '*', '?', '(', ')', '|', '[', ']', '{', '}', '^', '$', '#', '&', '-', '~']

variable {E : Engine}

/-- What the patterns and templates of an engine mean. -/
structure Meaning (E : Engine) where
  /-- The length of the match that a pattern prefers between what comes before a place and what comes behind. -/
  length? : E.Compiled → (before behind : Text) → Option Nat
  /-- What a template says for a match and what comes before and behind it. -/
  expand : E.Compiled → (template before found behind : Text) → Text

namespace Meaning

/-- A text that comes behind `before` becomes `result`: it has no match, or up to the first place where there is
one it stays as it is, the template is written for what is found there, and the rest comes behind that. -/
inductive Replaced (M : E.Meaning) (p : E.Compiled) (template : Text) : (before s result : Text) → Prop
  | unmatched {before s} : (∀ u v, s = u ++ v → M.length? p (before ++ u) v = none) →
      Replaced M p template before s s
  | matched {before gap found behind result} :
      (∀ u v, gap = u ++ v → v ≠ [] → M.length? p (before ++ u) (v ++ (found ++ behind)) = none) →
      M.length? p (before ++ gap) (found ++ behind) = some found.length →
      Replaced M p template (before ++ gap ++ found) behind result →
      Replaced M p template before (gap ++ (found ++ behind))
        (gap ++ (M.expand p template (before ++ gap) found behind ++ result))

variable {M : E.Meaning} {p : E.Compiled} {word template before found behind s result : Text}

/-- At a match the template is written. -/
theorem Replaced.start (h : M.Replaced p template (before ++ found) behind result)
    (hfound : M.length? p before (found ++ behind) = some found.length) :
    M.Replaced p template before (found ++ behind) (M.expand p template before found behind ++ result) := by
  have hmatched := @matched E M p template before [] found behind result
    fun u v huv hv => absurd (List.append_eq_nil_iff.1 huv.symm).2 hv
  rw [List.append_nil] at hmatched
  exact hmatched hfound h

/-- A character in front, at which there is no match, stays. -/
theorem Replaced.cons {c : Char} (h : M.Replaced p template (before ++ [c]) s result)
    (hc : M.length? p before (c :: s) = none) : M.Replaced p template before (c :: s) (c :: result) := by
  have hfront (u : Text) : before ++ [c] ++ u = before ++ (c :: u) := List.append_assoc ..
  cases h with
  | unmatched hnone =>
    refine .unmatched fun u v huv => ?_
    cases u with
    | nil =>
      cases huv
      rwa [List.append_nil]
    | cons d u =>
      cases huv
      rw [← hfront]
      exact hnone u v rfl
  | @matched _ gap found behind result hgap hfound hrest =>
    rw [hfront] at hfound hrest ⊢
    refine @matched E M p template before (c :: gap) found behind result (fun u v huv hv => ?_) hfound hrest
    cases u with
    | nil =>
      cases huv
      rwa [List.append_nil]
    | cons d u =>
      cases huv
      rw [← hfront]
      exact hgap u v rfl hv

end Meaning

end Engine

end DalvikPatch
