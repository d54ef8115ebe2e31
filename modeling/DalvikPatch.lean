import DalvikPatch.Text.Blank
import DalvikPatch.Text.Alphanumeric
import DalvikPatch.Text.Word
import DalvikPatch.Text.Inspect
import DalvikPatch.Text.Escape
import DalvikPatch.Text.Literal
import DalvikPatch.Descriptor.Basic
import DalvikPatch.Access
import DalvikPatch.Opcode.Table
import DalvikPatch.Instruction.Reader
import DalvikPatch.Class.Printer
import DalvikPatch.Class.Reader
import DalvikPatch.Descriptor.Json
import DalvikPatch.Pattern.Replacement
import DalvikPatch.GmsCore.Patches
import DalvikPatch.Renaming.Pass
import DalvikPatch.Editing.Return
import DalvikPatch.File.Source
import DalvikPatch.Proofs.Scan
import DalvikPatch.Proofs.Memory
import DalvikPatch.Proofs.Renaming
import DalvikPatch.Proofs.Targets
import DalvikPatch.Proofs.Fields
import DalvikPatch.Proofs.Pairs
import DalvikPatch.Proofs.Listings
import DalvikPatch.Proofs.Reloading
import DalvikPatch.Proofs.Openings
import DalvikPatch.Proofs.Stubs
import DalvikPatch.Proofs.Places
import DalvikPatch.Proofs.Refusals
import DalvikPatch.Proofs.Matches
import DalvikPatch.Proofs.Leftovers
import DalvikPatch.Proofs.Initialisers
import DalvikPatch.Proofs.Cuts
import DalvikPatch.Proofs.Layouts
import DalvikPatch.Proofs.Locations
import DalvikPatch.Proofs.Lookups
import DalvikPatch.Proofs.Spellings
import DalvikPatch.Proofs.Slices
import DalvikPatch.Proofs.Counts
import DalvikPatch.Proofs.Immediates
import DalvikPatch.Proofs.RegisterLists
import DalvikPatch.Proofs.Rules
import DalvikPatch.Proofs.Addresses
import DalvikPatch.Proofs.Vendors
import DalvikPatch.Proofs.Packages
import DalvikPatch.Proofs.Endings
import DalvikPatch.Proofs.Integers
import DalvikPatch.Proofs.PlainPatterns
import DalvikPatch.Proofs.Folders
import DalvikPatch.Proofs.Attributes
import DalvikPatch.Proofs.Indices
