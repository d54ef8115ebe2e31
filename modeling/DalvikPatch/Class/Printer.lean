import DalvikPatch.Class.Basic

/-! Writing classes. Sections with a comment line follow the header; the members of a class stand
at the margin and what belongs to a field or a method is indented by four blanks. -/

namespace DalvikPatch

open Text

def margin : Text := "    "

/-- A line with its end. -/
def lineText (s : Text) : Text := s ++ "\n"

/-- The modifiers, each with a blank after it. -/
def AccessFlags.text (f : AccessFlags) (c : Carrier) : Text :=
  (f.keywords c).flatMap fun k => k ++ " "

/-- The lines of a directive; an empty line is not indented. -/
def Directive.text (d : Directive) (indent : Text) : Text :=
  d.lines.flatMap fun l => lineText (if l = [] then [] else indent ++ l)

def Field.text (f : Field) : Text :=
  let value : Text := match f.value? with
    | some v => " = " ++ v
    | none => []
  lineText (".field " ++ f.flags.text .field ++ f.name ++ ":" ++ f.type.jni ++ value) ++
    (if f.annotations = [] then []
      else f.annotations.flatMap (·.text margin) ++ lineText ".end field") ++
    lineText []

def FrameSize.text : FrameSize → Text
  | locals n => lineText (margin ++ ".locals " ++ Numeral.decimal n.toNat)
  | registers n => lineText (margin ++ ".registers " ++ Numeral.decimal n.toNat)

def BodyItem.text : BodyItem → Text
  | line n => lineText [] ++ lineText (margin ++ ".line " ++ Numeral.decimal n.toNat)
  | label l => lineText (margin ++ l.text)
  | instruction i => lineText (margin ++ i.text)
  | directive d => d.text margin

def Method.text (m : Method) : Text :=
  lineText (".method " ++ m.flags.text .method ++ m.descriptor) ++
    (m.frame?.elim [] FrameSize.text) ++ m.items.flatMap BodyItem.text ++
    lineText ".end method" ++ lineText []

/-- A section under its comment; an empty one is left out. -/
def sectionText {α : Type} (title : Text) (text : α → Text) (items : List α) : Text :=
  if items.isEmpty then [] else lineText [] ++ lineText ("# " ++ title) ++ items.flatMap text

/-- The source of a class. -/
def Class.text (c : Class) : Text :=
  lineText (".class " ++ c.flags.text .type ++ c.name.jni) ++
    (c.super?.elim [] fun n => lineText (".super " ++ n.jni)) ++
    (c.source?.elim [] fun s => lineText (".source \"" ++ escape s ++ "\"")) ++
    sectionText "interfaces" (fun n => lineText (".implements " ++ n.jni)) c.interfaces ++
    sectionText "annotations" (fun d => d.text [] ++ lineText []) c.annotations ++
    sectionText "fields" Field.text c.fields ++
    sectionText "methods" Method.text c.methods

end DalvikPatch
