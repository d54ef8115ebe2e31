import DalvikPatch.Fingerprint.Condition

/-! The methods of an app that GmsCore's support changes. -/

namespace DalvikPatch.GmsCore

open Text

/-- Public and static. -/
def publicStatic : AccessFlags := AccessFlags.isPublic.union .isStatic

/-- The fingerprint of a public static method by its types and texts. -/
def utility (identity : Nat) (name result : Text) (parameters strings : List Text) :
    Fingerprint where
  identity := identity
  name := name
  flags? := some publicStatic
  result? := some result
  parameters? := some (parameters.map TypePattern.ofText)
  strings := strings
  condition? := none

def googlePlayUtility : Fingerprint :=
  utility 0 "googlePlayUtility" "I" ["L", "I"]
    ["This should never happen.", "MetadataValueReader", "com.google.android.gms"]

def googlePlayUtility2 : Fingerprint :=
  utility 1 "googlePlayUtility2" "I" ["Landroid/content/Context;", "I"]
    ["com.google.android.gms", "com.android.vending"]

def serviceCheck : Fingerprint :=
  utility 2 "serviceCheck" "V" ["L", "I"] ["Google Play Services not available"]

/-- The name of the method that tells the vendor. -/
def vendorGetter : Text := "getGmsCoreVendorGroupId"

def isVendorGetter (m : Method) (c : Class) : Bool :=
  endsWith "GmsCoreSupport" c.name.path && m.name == vendorGetter

def gmsCoreSupport : Fingerprint where
  identity := 3
  name := "gmsCoreSupport"
  flags? := none
  result? := none
  parameters? := none
  strings := []
  condition? := some fun m c => .ok (isVendorGetter m c)

/-- Fingerprints of others are numbered from here. -/
def firstIdentity : Nat := 4

end DalvikPatch.GmsCore
