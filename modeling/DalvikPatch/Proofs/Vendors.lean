import DalvikPatch.Proofs.Initialisers
import DalvikPatch.Proofs.Listings
import DalvikPatch.Proofs.Locations
import DalvikPatch.Proofs.PackageNames
import DalvikPatch.Proofs.Stubs

/-! The vendor in the code. The patch writes the name of the vendor between the quotes of a line and reads the
line as an instruction. A name that the options let through ends neither the literal nor the line, starts no
comment and is no escape, so that one instruction is read, and it loads the name. -/

namespace DalvikPatch

open Text

namespace Text

/-- Plain characters stand for themselves between quotes. -/
theorem enclosed_of_isPlain {s : Text} (h : ∀ c ∈ s, IsPlain c) : Enclosed s := by
  induction s with
  | nil => exact enclosed_nil
  | cons c s ih =>
    obtain ⟨hc, hs⟩ := List.forall_mem_cons.1 h
    exact (enclosed_char hc.1 hc.2.1).append (ih hs)

end Text

theorem Reference.readString?_of_isPlain {s : Text} (h : ∀ c ∈ s, IsPlain c) (r : Text) :
    readString? (quoted s ++ r) = some (string s, r) := by
  have hunescape := unescape_of_isPlain h
  rw [readString?_quoted (enclosed_of_isPlain h)]
  rw [unescape] at hunescape
  cases hunits : unescapeUnits s with
  | error f => simp [hunits, bind, Except.bind] at hunescape
  | ok us =>
    cases ht : ofUnits? us with
    | none => simp [hunits, ht, bind, Except.bind] at hunescape
    | some t =>
      obtain rfl : t = s := by simpa [hunits, ht, bind, Except.bind] using hunescape
      simp [Except.toOption, ht]

namespace GmsCore

variable {v : Text}

/-- The instruction that loads the name of a vendor. -/
def vendorInstruction (v : Text) : Instruction :=
  ⟨Context.constString, [.register (.v 0), .reference (.string v)]⟩

theorem vendorLoad_eq (v : Text) : vendorLoad v = "const-string v0, " ++ quoted v := by
  have hload : vendorLoad v = "const-string v0, \"" ++ v ++ "\"" := rfl
  have hfront : ("const-string v0, \"" : Text) = "const-string v0, " ++ ['"'] := by decide
  rw [hload, hfront, quoted, List.append_assoc, List.append_assoc]
  rfl

theorem read_vendorLoad (h : ∀ c ∈ v, IsPlain c) :
    Instruction.read (vendorLoad v) = .ok (vendorInstruction v) := by
  have hquiet : cutComment (vendorLoad v) = vendorLoad v := by
    rw [vendorLoad_eq]
    exact (quiet_plain_append (by simp) (by decide) _).2 (enclosed_of_isPlain h).quiet_quoted.1
  have htrim : trim (vendorLoad v) = vendorLoad v := by
    refine trim_eq_self ?_ ?_
    · rw [vendorLoad_eq]
      exact fun c hc => by cases hc; decide
    · rw [vendorLoad_eq, quoted, ← List.append_assoc]
      exact endsDark_append_singleton _ (by decide)
  have hops : Instruction.readOperands? Context.constString false 0 Context.constString.format.operands
      (trimLeft (" v0, " ++ quoted v)) = some ([.register (.v 0), .reference (.string v)], []) := by
    have hstart : trimLeft (" v0, " ++ quoted v) = (Register.v 0).text ++ further (quoted v) := by rfl
    have hregister := Register.read?_text (.v 0) (s := further (quoted v)) fun c hc => by cases hc; decide
    have hcomma : Register.readComma? (further (quoted v)) = some (quoted v) :=
      Register.readComma?_further fun c hc => by cases hc; decide
    have hstring := Reference.readString?_of_isPlain h []
    rw [List.append_nil] at hstring
    rw [hstart]
    simp [Context.constString, Opcode.refers, Format.operands, Instruction.readOperands?, Operand.read?,
      Opcode.referenceAt, Reference.read?, hregister, hcomma, hstring]
  have hmake : Instruction.make Context.constString [.register (.v 0), .reference (.string v)] =
      .ok (vendorInstruction v) := by rfl
  have hline : vendorLoad v = Context.constString.name ++ (" v0, " ++ quoted v) := by
    rw [vendorLoad_eq]
    rfl
  rw [Instruction.read, hquiet, htrim, hline, Instruction.Valid.readText_name_append (by decide)
    (by decide) (fun c hc => by cases hc; decide) hops, hmake]

theorem readAll_vendorLoad (h : isPackageName v) :
    Instruction.readAll (vendorLoad v) = .ok [vendorInstruction v] := by
  have hline : lines (vendorLoad v) = [vendorLoad v] := by
    refine lines_of_not_mem ?_ ?_
    · rw [vendorLoad_eq, quoted]
      have := not_mem_of_isPackageName h (c := '\n') (by decide)
      simp [this]
    · rw [vendorLoad_eq]
      simp
  have hread := read_vendorLoad (isPlain_of_isPackageName h)
  have hkept : (trim (cutComment (vendorLoad v))).isEmpty = false := by
    by_contra hempty
    have hnil : trim (cutComment (vendorLoad v)) = [] := by simpa using hempty
    rw [Instruction.read, hnil] at hread
    cases hread
  rw [Instruction.readAll, hline]
  simp [hkept, hread, bind, Except.bind, pure, Except.pure]

/-- The load of a vendor takes the place of the first instruction, and all else stays. -/
theorem replaceText_vendorLoad (h : isPackageName v) {e e' : Editor}
    (he : exec (Edit.replaceText 0 (vendorLoad v)) e = (.ok (), e')) :
    e' = { e with method := { e.method with items := e'.method.items } } ∧
    e'.method.marks = e.method.marks ∧
    e'.method.instructions = vendorInstruction v :: e.method.instructions.tail := by
  obtain ⟨i, hi, hreplace⟩ := Edit.replaceText_cases he
  obtain rfl : vendorInstruction v = i := by simpa [readAll_vendorLoad h] using hi
  obtain ⟨hsame, hlength, hinstructions, hmarks, -⟩ :=
    ListEdit.step_refines (o := .replace 0 (vendorInstruction v)) hreplace
  refine ⟨hsame, hmarks, ?_⟩
  rw [hinstructions]
  cases his : e.method.instructions with
  | nil =>
    rw [his] at hlength
    exact absurd hlength (by simp [ListEdit.index, ListEdit.gone])
  | cons j is => rfl

end GmsCore

namespace Context

/-- A look-up that finds something is remembered. -/
theorem lookup_looked {c : Context} {f : Fingerprint} {r : Resolution} (h : c.found f = .ok r) :
    (c.looked f).resolutions.lookup f.identity = some r := by
  rw [found] at h
  rw [looked]
  cases hl : c.resolutions.lookup f.identity with
  | some q => simpa [hl] using h
  | none =>
    simp only [hl] at h
    simp [h]

/-- What was resolved once is resolved alike, as long as nothing is forgotten. -/
theorem exec_resolve_again {c c₁ c' : Context} {f : Fingerprint} {m : Match}
    (h : exec (Run.resolve f) c = (.ok m, c₁)) (hpool : c'.pool = c₁.pool)
    (hresolutions : c'.resolutions = c₁.resolutions) : exec (Run.resolve f) c' = (.ok m, c') := by
  rw [exec_resolve] at h
  obtain ⟨hanswer, rfl⟩ := Prod.mk.inj h
  cases hr : c.found f with
  | error s =>
    rw [hr] at hanswer
    cases hanswer
  | ok r =>
    have hlookup : c'.resolutions.lookup f.identity = some r := by rw [hresolutions, lookup_looked hr]
    have hfound : c'.found f = .ok r := by rw [found, hlookup]
    have hlooked : c'.looked f = c' := by rw [looked, hlookup]
    rw [hr] at hanswer
    rw [exec_resolve, hfound, hlooked, hpool, pool_looked]
    exact Prod.ext hanswer rfl

end Context

namespace GmsCore

variable {v : Text}

/-- What tells the vendor is edited, and is what the fingerprint names from then on. -/
theorem tellVendor_cases {c c' : Context} (h : exec (tellVendor v) c = (.ok (), c')) :
    ∃ getter m e, exec (Run.resolve gmsCoreSupport) c' = (.ok getter, c') ∧
      c.workspace.method? getter.id = some m ∧
      exec (Edit.replaceText 0 (vendorLoad v)) ⟨c.pool.describe getter.id, m⟩ = (.ok (), e) ∧
      c'.workspace.method? getter.id = some e.method := by
  obtain ⟨getter, c₁, hresolve, hedit⟩ := exists_of_exec_bind h
  obtain ⟨m, e, hm, hexec, ⟨hpool, hresolutions⟩, hmethods⟩ := Context.exec_edit_cases hedit
  have hlooked : c₁ = c.looked gmsCoreSupport := by
    rw [Context.exec_resolve] at hresolve
    exact (Prod.mk.inj hresolve).2.symm
  rw [hlooked, Context.workspace_looked] at hm
  rw [hlooked, Context.pool_looked] at hexec
  refine ⟨getter, m, e, Context.exec_resolve_again hresolve hpool hresolutions, hm, hexec, ?_⟩
  rw [hmethods, if_pos rfl]

/-- The last step of the patch of the code tells the vendor of the options, which is a package name. -/
theorem patchCode_tells {app : AppMethods} {c c' : Context} (h : exec (patchCode app) c = (.ok (), c')) :
    ∃ v c₁, vendorSetting.require c.options = .ok v ∧ isPackageName v ∧
      exec (tellVendor v) c₁ = (.ok (), c') := by
  rw [patchCode_eq] at h
  obtain ⟨options, c₀, hoptions, h⟩ := exists_of_exec_bind h
  cases hoptions
  obtain ⟨v, c₁, hoption, h⟩ := exists_of_exec_bind h
  obtain ⟨hvendor, rfl⟩ := Prod.mk.inj hoption
  obtain ⟨old, c₂, _, h⟩ := exists_of_exec_bind h
  obtain ⟨new, c₃, _, h⟩ := exists_of_exec_bind h
  obtain ⟨report, c₄, _, h⟩ := exists_of_exec_bind h
  obtain ⟨_, c₅, _, h⟩ := exists_of_exec_bind h
  obtain ⟨_, c₆, _, h⟩ := exists_of_exec_bind h
  exact ⟨v, c₆, hvendor, Setting.valid_of_require hvendor, h⟩

/-- A vendor whose name is a package name. The line that is made for it holds one instruction, which loads the
name as it is, so an edit with that line that succeeds puts this load in the place of the first
instruction and keeps all else. After a patch of the code that succeeds, from whatever state of a run, the
method that tells the vendor begins with the load of the vendor in the options, which is such a name. -/
theorem vendor_loaded (hv : isPackageName v) :
    (Instruction.readAll (vendorLoad v) = .ok [vendorInstruction v] ∧
      (vendorInstruction v).string? = some v ∧ (vendorInstruction v).registers = [.v 0]) ∧
    (∀ e e', exec (Edit.replaceText 0 (vendorLoad v)) e = (.ok (), e') →
      e' = { e with method := { e.method with items := e'.method.items } } ∧
      e'.method.marks = e.method.marks ∧
      e'.method.instructions = vendorInstruction v :: e.method.instructions.tail) ∧
    ∀ (app : AppMethods) (c c' : Context), exec (patchCode app) c = (.ok (), c') →
      ∃ (vendor : Text) (getter : Match) (m : Method),
      (vendorSetting.require c.options = .ok vendor ∧ isPackageName vendor) ∧
      exec (Run.resolve gmsCoreSupport) c' = (.ok getter, c') ∧ c'.workspace.method? getter.id = some m ∧
      m.instructions.head? = some (vendorInstruction vendor) := by
  refine ⟨⟨readAll_vendorLoad hv, rfl, rfl⟩, fun e e' => replaceText_vendorLoad hv, fun app c c' h => ?_⟩
  obtain ⟨vendor, c₁, hvendor, hname, htell⟩ := patchCode_tells h
  obtain ⟨getter, m, e, hresolve, -, hexec, hm⟩ := tellVendor_cases htell
  obtain ⟨-, -, hinstructions⟩ := replaceText_vendorLoad hname hexec
  exact ⟨vendor, getter, e.method, ⟨hvendor, hname⟩, hresolve, hm, by rw [hinstructions]; rfl⟩

theorem vendor_loaded_accented :
    isPackageName "app.ré_2" ∧
    Instruction.readAll "const-string v0, \"app.ré_2\"" = .ok [vendorInstruction "app.ré_2"] ∧
    ∃ (c' : Context) (getter : Match) (m : Method), exec (patchCode ⟨none, []⟩) utilityRun = (.ok (), c') ∧
      c'.workspace.method? getter.id = some m ∧
      m.instructions.head? = some (vendorInstruction "app.revanced") := by
  have hname : isPackageName "app.ré_2" := by decide +kernel
  obtain ⟨c', hrun, -⟩ := exec_utilityRun
  obtain ⟨⟨hread, -⟩, -, hpatch⟩ := vendor_loaded hname
  obtain ⟨vendor, getter, m, ⟨hvendor, -⟩, -, hm, hhead⟩ := hpatch _ _ _ hrun
  obtain rfl : vendor = "app.revanced" := by
    have hdefault : vendorSetting.require utilityRun.options = .ok "app.revanced" := by decide +kernel
    rw [hdefault] at hvendor
    exact (Except.ok.inj hvendor).symm
  exact ⟨hname, hread, c', getter, m, hrun, hm, hhead⟩

end GmsCore

end DalvikPatch
