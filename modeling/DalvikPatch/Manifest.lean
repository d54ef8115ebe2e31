import DalvikPatch.Fault
import DalvikPatch.Text.Word

/-! The manifest of an app as text: the package it declares, and elements put into it. -/

namespace DalvikPatch.Manifest

open Text

/-- The name of the file. -/
def file : Text := "AndroidManifest.xml"

/-- The value of a package attribute that starts here: not empty, and closed by a quote. -/
def attribute? (s : Text) : Option Text := do
  let r ← after? "package=\"" s
  let value := r.takeWhile (· != '"')
  if value.isEmpty || (r.dropWhile (· != '"')).isEmpty then none else some value

/-- The first package attribute of the element whose rest this is; `before` is the character
before. -/
def packageFrom? (before : Char) : Text → Option Text
  | [] => none
  | c :: cs =>
    match if isWord before then none else attribute? (c :: cs) with
    | some v => some v
    | none => if c = '>' then none else packageFrom? c cs

/-- The package of a manifest element that starts here. -/
def elementPackage? (s : Text) : Option Text := do
  let r ← after? "<manifest" s
  if r.head?.any isWord then none else packageFrom? 't' r

/-- The package that a manifest declares. -/
def package? : Text → Option Text
  | [] => none
  | c :: cs => (elementPackage? (c :: cs)).or (package? cs)

/-- Writes a character inside an attribute. -/
def attributeChar (c : Char) : Text :=
  if c = '&' then "&amp;"
  else if c = '<' then "&lt;"
  else if c = '>' then "&gt;"
  else if c = '"' then "&quot;"
  else [c]

def attributeText (s : Text) : Text := s.flatMap attributeChar

/-- An element that gives a value a name. -/
def metaData (name value : Text) : Text :=
  "<meta-data android:name=\"" ++ attributeText name ++ "\" android:value=\"" ++
    attributeText value ++ "\"/>"

/-- Puts an element behind the last child of the application. -/
def insertIntoApplication (element s : Text) : Outcome Text :=
  match cutLast? "</application>" s with
  | some p => .ok (p.1 ++ "    " ++ element ++ "\n    " ++ "</application>" ++ p.2)
  | none => .fault (.parse (.text file) .noApplication)

end DalvikPatch.Manifest
