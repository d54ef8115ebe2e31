import DalvikPatch.Manifest
import DalvikPatch.Substitution

/-! What the support of GmsCore changes in a manifest. -/

namespace DalvikPatch.GmsCore

open Text

/-- The replacements in a manifest, in order, from package `old` to package `new`. -/
def manifestSubstitutions (vendor old new : Text) : List (Text × Text) := [
  ("package=\"" ++ old, "package=\"" ++ new),
  ("android:authorities=\"" ++ old, "android:authorities=\"" ++ new),
  (old ++ ".permission.C2D_MESSAGE", new ++ ".permission.C2D_MESSAGE"),
  (old ++ ".DYNAMIC_RECEIVER_NOT_EXPORTED_PERMISSION",
    new ++ ".DYNAMIC_RECEIVER_NOT_EXPORTED_PERMISSION"),
  ("com.google.android.c2dm", vendor ++ ".android.c2dm"),
  ("com.google.android.libraries.photos.api.mars", vendor ++ ".android.apps.photos.api.mars"),
  ("</queries>", "<package android:name=\"" ++ vendor ++ ".android.gms\"/></queries>")]

def manifestRenaming (vendor old new : Text) : List (Substitution Pattern.engine) :=
  (manifestSubstitutions vendor old new).map fun p => .literal p.1 p.2

/-- Renames a manifest from package `old` to package `new`. -/
def renameManifest (vendor old new s : Text) : Text :=
  Substitution.applyAll s (manifestRenaming vendor old new)

/-- Puts a value named `name` of the vendor into the manifest. -/
def insertSpoofed (vendor name value s : Text) : Outcome Text :=
  Manifest.insertIntoApplication (Manifest.metaData (vendor ++ ".android.gms." ++ name) value) s

/-- Puts the package and the signature that the app is known by into the manifest, and where
GmsCore is found. -/
def insertMetaData (vendor old : Text) (signature? : Option Text) (s : Text) : Outcome Text := do
  let s ← insertSpoofed vendor "SPOOFED_PACKAGE_NAME" old s
  let s ← signature?.elim (.ok s) fun d => insertSpoofed vendor "SPOOFED_PACKAGE_SIGNATURE" d s
  Manifest.insertIntoApplication
    (Manifest.metaData "app.revanced.MICROG_PACKAGE_NAME" (vendor ++ ".android.gms")) s

end DalvikPatch.GmsCore
