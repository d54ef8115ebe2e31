import DalvikPatch.Pattern.Replacement

/-! Engines that find patterns in a text. The program takes any; the one that it comes with reads the patterns
of this library, and its meaning is the one that is documented for them. -/

namespace DalvikPatch

open Text

structure Engine where
  /-- Patterns ready to run. -/
  Compiled : Type
  read? : Text → Option Compiled
  /-- Puts what a template says in the place of every match. -/
  replaceAll : Compiled → (template s : Text) → Text

def Pattern.engine : Engine where
  Compiled := Finder
  read? s := (read? s).map Named.finder
  replaceAll := Finder.replaceAll

end DalvikPatch
