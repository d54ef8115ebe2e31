import DalvikPatch.Text.Basic

/-! Paths as text: names separated by slashes. Empty parts and single dots lead nowhere else; at the
end of a path they are not counted as its last part. -/

namespace DalvikPatch.Path

open Text

def parts (p : Text) : List Text := pieces '/' p

def ofParts (ps : List Text) : Text := join ['/'] ps

theorem ofParts_parts (p : Text) : ofParts (parts p) = p := join_pieces '/' p

/-- Whether a part leads nowhere else. -/
def isIdle (part : Text) : Bool := part == [] || part == ['.']

/-- Leaves out idle parts at the end. -/
def settle (ps : List Text) : List Text := (ps.reverse.dropWhile isIdle).reverse

/-- A path below a folder; one that starts with a slash is taken by itself. -/
def below (folder p : Text) : Text :=
  if startsWith "/" p then p
  else if folder = [] ∨ endsWith "/" folder then folder ++ p
  else folder ++ "/" ++ p

/-- The folder that a path is in: that of a single part is the root after a slash, and else not named. -/
def parent (p : Text) : Text :=
  let folders := settle (settle (parts p)).dropLast
  if folders = [] ∧ startsWith "/" p then "/" else ofParts folders

/-- The part before the last dot and the part after it; a name may start with a dot. -/
def splitName (name : Text) : Text × Option Text :=
  match cutLast? "." name with
  | some (stem, e) => if stem = [] then (name, none) else (stem, some e)
  | none => (name, none)

/-- The path with that extension in the place of the last one; unchanged if it ends in two dots. -/
def withExtension (e p : Text) : Text :=
  match (settle (parts p)).getLast? with
  | none => p
  | some name =>
    if name = ".." then p
    else ofParts ((settle (parts p)).dropLast ++ [(splitName name).1 ++ "." ++ e])

end DalvikPatch.Path
