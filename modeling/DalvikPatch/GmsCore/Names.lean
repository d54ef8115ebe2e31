import DalvikPatch.Renaming.Chain
import DalvikPatch.Setting

/-! The names by which apps reach GmsCore, the settings of its support, and the rules that change
those names for another vendor. -/

namespace DalvikPatch.GmsCore

open Text

def permissions : List Text := [
  "com.google.android.c2dm.permission.RECEIVE",
  "com.google.android.c2dm.permission.SEND",
  "com.google.android.gtalkservice.permission.GTALK_SERVICE",
  "com.google.android.providers.gsf.permission.READ_GSERVICES"]

def actions : List Text := [
  "com.google.android.c2dm.intent.RECEIVE",
  "com.google.android.c2dm.intent.REGISTER",
  "com.google.android.c2dm.intent.REGISTRATION",
  "com.google.android.c2dm.intent.UNREGISTER",
  "com.google.android.gms.auth.api.signin.service.START",
  "com.google.android.gms.auth.service.START",
  "com.google.android.gms.chimera.PERSISTENT_BOUND_SERVICE",
  "com.google.android.gms.common.service.START",
  "com.google.android.gms.measurement.START",
  "com.google.android.gms.phenotype.service.START",
  "com.google.android.gms.signin.service.START",
  "com.google.android.gms.accounts.ACCOUNT_SERVICE",
  "com.google.iid.TOKEN_REQUEST"]

def authorities : List Text := [
  "com.google.android.gms.auth.accounts",
  "com.google.android.gms.chimera",
  "com.google.android.gms.fonts",
  "com.google.android.gms.phenotype",
  "com.google.android.gsf.gservices",
  "com.google.settings"]

/-! ### Settings -/

def vendorSetting : Setting where
  key := "gmsCoreVendorGroupId"
  title := "GmsCore vendor group ID"
  description := "The vendor's group ID for GmsCore."
  default? := some "app.revanced"
  presets := [("ReVanced", "app.revanced")]
  required := true
  valid? := some isPackageName

def packageSetting : Setting where
  key := "packageName"
  title := "Package name"
  description := "The package name the patched app is installed under."
  default? := none
  presets := []
  required := false
  valid? := some isPackageName

/-- Forty digits in base sixteen, letters small. -/
def isDigest (s : Text) : Bool :=
  s.length == 40 && s.all fun c => c.isDigit || ('a' ≤ c && c ≤ 'f')

def signatureSetting : Setting where
  key := "packageSignature"
  title := "Package signature"
  description := "SHA-1 of the original signing certificate, lower case hex."
  default? := none
  presets := []
  required := false
  valid? := some isDigest

/-! ### Rules -/

/-- The vendor in the place of `com.google`. -/
def forVendor (vendor s : Text) : Text := replaceAll "com.google" vendor s

def feeds : Text := "subscribedfeeds"

/-- Names that are GmsCore's as a whole. -/
def commonName (vendor s : Text) : Option Text :=
  if s = feeds then some (vendor ++ "." ++ feeds)
  else if s = "com.google" ∨ s = "com.google.android.gms" then some (forVendor vendor s)
  else if s ∈ permissions ++ actions ++ authorities then some (forVendor vendor s)
  else none

/-- Addresses of content whose authority is GmsCore's. -/
def contentName (vendor s : Text) : Option Text :=
  match after? "content://" s with
  | none => none
  | some rest =>
    match authorities.find? fun a => startsWith a rest with
    | some a => some (replaceFirst a (forVendor vendor a) s)
    | none =>
      if startsWith feeds rest then some (replaceFirst feeds (vendor ++ "." ++ feeds) s) else none

/-- Authorities that are named after the package of the app. -/
def ownName (old new s : Text) : Option Text :=
  if s = old ++ ".SuggestionsProvider" ∨ s = old ++ ".fileprovider" then
    some (replaceFirst old new s)
  else none

/-- The rules in the order in which they are tried. -/
def rules (vendor old new : Text) : Chain := [
  ⟨"common", commonName vendor⟩,
  ⟨"content uris", contentName vendor⟩,
  ⟨"package name", ownName old new⟩]

end DalvikPatch.GmsCore
