import DalvikPatch.Proofs.Documents
import DalvikPatch.Proofs.Scan
import DalvikPatch.Descriptor.Reader
import Mathlib.Data.Set.Function

/-! Descriptors stand for types. A text is read as at most one type, and exactly those are read that a type
without broken names is written as. So wherever a method is looked for by descriptors, comparing texts
compares types. -/

namespace DalvikPatch

open Text

/-! ### Names of classes in types -/

/-- A name with nothing in it that would end it in a descriptor. -/
structure ClassName.Unbroken (n : ClassName) : Prop where
  ne_nil : n.path ≠ []
  semicolon : ';' ∉ n.path
  parenthesis : ')' ∉ n.path
  comma : ',' ∉ n.path
  dark : ∀ c ∈ n.path, ¬ isBlank c

theorem ClassName.valid_iff {n : ClassName} : n.Valid ↔ n.Unbroken := by
  constructor
  · intro h
    have hnot : ∀ c, TypeDescriptor.isNameChar c = false → c ∉ n.path := by
      intro c hc hmem
      have hchar := h.chars c hmem
      rw [hc] at hchar
      cases hchar
    exact ⟨h.ne_nil, hnot ';' (by decide), hnot ')' (by decide), hnot ',' (by decide),
      fun c hc => TypeDescriptor.not_isBlank_of_isNameChar (h.chars c hc)⟩
  · intro h
    refine ⟨h.ne_nil, fun c hc => ?_⟩
    have hne : ∀ d, d ∉ n.path → c ≠ d := fun d hd hcd => hd (hcd ▸ hc)
    simp [TypeDescriptor.isNameChar, hne _ h.semicolon, hne _ h.parenthesis, hne _ h.comma, h.dark c hc]

namespace TypeDescriptor

/-- The classes that a type names. -/
def names : TypeDescriptor → List ClassName
  | array t => t.names
  | object n => [n]
  | _ => []

theorem valid_iff {t : TypeDescriptor} : t.Valid ↔ ∀ n ∈ t.names, n.Unbroken := by
  induction t with
  | array t ih => exact ih
  | object n => simpa [Valid, names] using ClassName.valid_iff
  | _ => simp [Valid, names]

end TypeDescriptor

namespace Prototype

/-- The classes that a prototype names. -/
def names (p : Prototype) : List ClassName := p.parameters.flatMap TypeDescriptor.names ++ p.result.names

theorem valid_iff {p : Prototype} : p.Valid ↔ ∀ n ∈ p.names, n.Unbroken := by
  have hparts : p.Valid ↔ (∀ t ∈ p.parameters, t.Valid) ∧ p.result.Valid :=
    ⟨fun h => ⟨h.parameters, h.result⟩, fun h => ⟨h.1, h.2⟩⟩
  simp only [hparts, TypeDescriptor.valid_iff, names, List.mem_append, List.mem_flatMap]
  constructor
  · rintro ⟨hparameters, hresult⟩ n (⟨t, ht, hn⟩ | hn)
    · exact hparameters t ht n hn
    · exact hresult n hn
  · intro h
    exact ⟨fun t ht n hn => h n (.inl ⟨t, ht, hn⟩), fun n hn => h n (.inr hn)⟩

theorem ofJni?_jni {p : Prototype} (h : p.Valid) : ofJni? p.jni = some p := by
  have hread := read?_jni h []
  rw [List.append_nil] at hread
  rw [ofJni?, hread]

theorem eq_of_ofJni? {s : Text} {p : Prototype} (h : ofJni? s = some p) : s = p.jni ∧ p.Valid := by
  rw [ofJni?] at h
  split at h
  · next q hq =>
    cases h
    obtain ⟨hs, hv⟩ := eq_of_read? hq
    exact ⟨by rwa [List.append_nil] at hs, hv⟩
  · cases h

end Prototype

/-! ### What is read -/

section

variable {α : Type} {write : α → Text} {valid : α → Prop}

/-- What is written is read back, and nothing else is read. -/
theorem Text.read_iff_of_round_trip {read? : Text → Option α}
    (hwrite : ∀ {a}, valid a → read? (write a) = some a)
    (hread : ∀ {s a}, read? s = some a → s = write a ∧ valid a) {s : Text} {a : α} :
    read? s = some a ↔ write a = s ∧ valid a := by
  constructor
  · intro h
    obtain ⟨rfl, hv⟩ := hread h
    exact ⟨rfl, hv⟩
  · rintro ⟨rfl, hv⟩
    exact hwrite hv

/-- What is read back is written in a way of its own. -/
theorem Text.injOn_of_read_iff {read : Text → Outcome α}
    (h : ∀ {s a}, read s = .ok a ↔ write a = s ∧ valid a) : Set.InjOn write {a | valid a} := by
  intro a ha b hb hab
  exact Except.ok.inj ((h.2 ⟨hab, ha⟩).symm.trans (h.2 ⟨rfl, hb⟩))

end

/-- Exactly those texts are read as a type that it is written as. -/
theorem TypeDescriptor.ofJni_eq_ok_iff {s : Text} {t : TypeDescriptor} :
    ofJni s = .ok t ↔ t.jni = s ∧ t.Valid := by
  have hlift : ofJni s = .ok t ↔ ofJni? s = some t := by
    rw [ofJni]
    cases ofJni? s <;> simp [Outcome.mistaken]
  exact hlift.trans (read_iff_of_round_trip ofJni?_jni eq_of_ofJni?)

theorem Prototype.ofJni_eq_ok_iff {s : Text} {p : Prototype} :
    ofJni s = .ok p ↔ p.jni = s ∧ p.Valid := by
  have hlift : ofJni s = .ok p ↔ ofJni? s = some p := by
    rw [ofJni]
    cases ofJni? s <;> simp [Outcome.mistaken]
  exact hlift.trans (read_iff_of_round_trip ofJni?_jni eq_of_ofJni?)

/-- Two types are written alike only if they are the same. -/
theorem TypeDescriptor.injOn_jni : Set.InjOn jni {t | t.Valid} := injOn_of_read_iff ofJni_eq_ok_iff

theorem Prototype.injOn_jni : Set.InjOn jni {p | p.Valid} := injOn_of_read_iff ofJni_eq_ok_iff

/-! ### Looking for methods -/

namespace Class

/-- The index of the first method with that name and those types. -/
def methodOf? (c : Class) (name : Text) (p : Prototype) : Option Nat :=
  c.methods.findIdx? fun m => m.name = name ∧ m.prototype = p

/-- A method that is looked for by a descriptor is looked for by the types it stands for; by a text that
stands for none, no method is found. -/
theorem findMethod?_eq {c : Class} (h : ∀ m ∈ c.methods, m.prototype.Valid) (name s : Text) :
    c.findMethod? name s = (Prototype.ofJni s).toOption.bind (c.methodOf? name) := by
  rw [findMethod?]
  cases hread : Prototype.ofJni s with
  | error e =>
    refine List.findIdx?_eq_none_iff.2 fun m hm => ?_
    rw [Bool.and_eq_false_iff, beq_eq_false_iff_ne, beq_eq_false_iff_ne]
    refine .inr fun hs => ?_
    rw [Prototype.ofJni_eq_ok_iff.2 ⟨hs, h m hm⟩] at hread
    cases hread
  | ok p =>
    obtain ⟨rfl, hp⟩ := Prototype.ofJni_eq_ok_iff.1 hread
    show _ = c.methodOf? name p
    rw [methodOf?]
    generalize c.methods = ms at h
    induction ms with
    | nil => rfl
    | cons m ms ih =>
      have htypes : m.prototype.jni = p.jni ↔ m.prototype = p :=
        Prototype.injOn_jni.eq_iff (h m (List.mem_cons_self ..)) hp
      have hm : (m.name == name && m.prototype.jni == p.jni) = decide (m.name = name ∧ m.prototype = p) := by
        rw [Bool.eq_iff_iff]
        simp [htypes]
      rw [List.findIdx?_cons, List.findIdx?_cons, hm, ih fun m' hm' => h m' (List.mem_cons_of_mem _ hm')]

end Class

theorem Member.declared_of_read {l : Line} {ls rest : List Line} {m : Method}
    (h : read l ls = .ok (method m, rest)) : m.Declared := by
  have other : ∀ {β : Type} {o : Outcome β} {g : β → Member × List Line}, (∀ b, (g b).1.method? = none) →
      o.map g ≠ .ok (method m, rest) := by
    intro β o g hg ho
    obtain ⟨b, -, heq⟩ := exists_of_map ho
    have hmethod := hg b
    rw [heq] at hmethod
    cases hmethod
  rw [read] at h
  repeat' split at h
  all_goals try exact absurd h (other fun b => rfl)
  · obtain ⟨p, hp, heq⟩ := exists_of_map h
    cases heq
    rw [Method.read] at hp
    split at hp
    · cases hp
    · next flags name prototype hline =>
      obtain ⟨q, -, heq⟩ := exists_of_map hp
      cases heq
      exact Method.declared_of_readLine hline
  · cases h

theorem Member.declared_of_readAll {ls : List Line} {ms : List Member} (h : readAll ls = .ok ms) :
    ∀ m, method m ∈ ms → m.Declared := by
  fun_induction readAll ls generalizing ms with
  | case1 =>
    cases h
    simp
  | case2 => cases h
  | case3 ls l more hnext m rest hm ih =>
    obtain ⟨ms', hms', rfl⟩ := exists_of_map h
    intro m' hm'
    rcases List.mem_cons.1 hm' with rfl | hm'
    · exact declared_of_read hm
    · exact ih hms' m' hm'

/-- The methods of a class that was read name no broken class. -/
theorem Class.valid_prototype_of_read {s : Text} {c : Class} (h : read s = .ok c) :
    ∀ m ∈ c.methods, m.prototype.Valid := by
  rw [read] at h
  split at h
  · cases h
  · obtain ⟨header, -, h⟩ := exists_of_bind h
    obtain ⟨ms, hms, h⟩ := exists_of_bind h
    cases h
    intro m hm
    obtain ⟨member, hmember, hmethod⟩ := List.mem_filterMap.1 hm
    cases member with
    | method m' =>
      cases hmethod
      exact (Member.declared_of_readAll hms m hmember).prototype
    | super | interface | source | annotated | field => cases hmethod

/-! ### Fingerprints -/

/-- The types that a pattern stands for, where a descriptor stands for the type it is read as. -/
def TypePattern.StandsFor : TypePattern → TypeDescriptor → Prop
  | anyObject, t => ∃ n, t = .object n
  | anyArray, t => ∃ e, t = .array e
  | exactly d, t => TypeDescriptor.ofJni d = .ok t

theorem TypePattern.admits_iff_standsFor {q : TypePattern} {t : TypeDescriptor} (ht : t.Valid) :
    q.Admits t ↔ q.StandsFor t := by
  cases q with
  | anyObject | anyArray => rfl
  | exactly d => exact ⟨fun h => TypeDescriptor.ofJni_eq_ok_iff.2 ⟨h, ht⟩,
      fun h => (TypeDescriptor.ofJni_eq_ok_iff.1 h).1⟩

/-- The patterns for all objects and for all arrays are no descriptors. -/
theorem TypePattern.standsFor_ofText_iff {s : Text} {t : TypeDescriptor} :
    (ofText s).StandsFor t ↔ (s = "L" ∧ ∃ n, t = .object n) ∨ (s = "[" ∧ ∃ e, t = .array e) ∨
      TypeDescriptor.ofJni s = .ok t := by
  have hobject : TypeDescriptor.ofJni "L" ≠ .ok t := by rintro ⟨⟩
  have harray : TypeDescriptor.ofJni "[" ≠ .ok t := by rintro ⟨⟩
  have hl : ("L" : Text) = ['L'] := rfl
  have ha : ("[" : Text) = ['['] := rfl
  rw [hl] at hobject ⊢
  rw [ha] at harray ⊢
  rw [ofText]
  split
  · next h =>
    subst h
    simp [StandsFor, hobject]
  · split
    · next h =>
      subst h
      simp [StandsFor, harray]
    · simp [StandsFor, *]

namespace Fingerprint

/-- The flags and the types of a method are as wanted. -/
structure FitsTypes (f : Fingerprint) (m : Method) : Prop where
  flags : ∀ g, f.flags? = some g → m.flags.contains g
  parameters : ∀ qs, f.parameters? = some qs → List.Forall₂ TypePattern.StandsFor qs m.prototype.parameters
  result : ∀ d, f.result? = some d → TypeDescriptor.ofJni d = .ok m.prototype.result

theorem fits_iff_fitsTypes {m : Method} (h : m.prototype.Valid) (f : Fingerprint) :
    f.fits m = true ↔ f.FitsTypes m := by
  have hparameters : ∀ qs, acceptsParameters qs m.prototype.parameters = true ↔
      List.Forall₂ TypePattern.StandsFor qs m.prototype.parameters := by
    intro qs
    rw [acceptsParameters_iff, List.forall₂_iff_zip, List.forall₂_iff_zip]
    refine and_congr_right fun _ => ⟨fun hall q t hqt => ?_, fun hall q t hqt => ?_⟩
    · exact (TypePattern.admits_iff_standsFor (h.parameters t (List.of_mem_zip hqt).2)).1 (hall hqt)
    · exact (TypePattern.admits_iff_standsFor (h.parameters t (List.of_mem_zip hqt).2)).2 (hall hqt)
  have hresult : ∀ d, m.prototype.result.jni = d ↔ TypeDescriptor.ofJni d = .ok m.prototype.result :=
    fun d => ⟨fun hd => TypeDescriptor.ofJni_eq_ok_iff.2 ⟨hd, h.result⟩,
      fun hd => (TypeDescriptor.ofJni_eq_ok_iff.1 hd).1⟩
  simp only [fits_iff, hparameters, hresult]
  exact ⟨fun ⟨hf, hp, hr⟩ => ⟨hf, hp, hr⟩, fun hfits => ⟨hfits.flags, hfits.parameters, hfits.result⟩⟩

end Fingerprint

/-! ### Texts for types -/

/-- A text is read as a type exactly if that type is written so and no class that it names has a broken name;
so of such types no two are written alike. Looking for a method by descriptors, of its own or of its
parameters and its result, is looking for it by the types that they stand for. -/
theorem Prototype.descriptors_stand_for_types :
    ((∀ s t, TypeDescriptor.ofJni s = .ok t ↔ t.jni = s ∧ ∀ n ∈ t.names, n.Unbroken) ∧
      ∀ s p, Prototype.ofJni s = .ok p ↔ p.jni = s ∧ ∀ n ∈ p.names, n.Unbroken) ∧
    (Set.InjOn TypeDescriptor.jni {t | ∀ n ∈ t.names, n.Unbroken} ∧
      Set.InjOn Prototype.jni {p | ∀ n ∈ p.names, n.Unbroken}) ∧
    (∀ c : Class, (∀ m ∈ c.methods, ∀ n ∈ m.prototype.names, n.Unbroken) → ∀ name s,
      c.findMethod? name s = (Prototype.ofJni s).toOption.bind (c.methodOf? name)) ∧
    (∀ m : Method, (∀ n ∈ m.prototype.names, n.Unbroken) → ∀ f : Fingerprint,
      f.fits m = true ↔ f.FitsTypes m) ∧
    (∀ s t, (TypePattern.ofText s).StandsFor t ↔ (s = "L" ∧ ∃ n, t = .object n) ∨
      (s = "[" ∧ ∃ e, t = .array e) ∨ TypeDescriptor.ofJni s = .ok t) ∧
    ∀ s c, Class.read s = .ok c → ∀ m ∈ c.methods, ∀ n ∈ m.prototype.names, n.Unbroken := by
  simp only [← TypeDescriptor.valid_iff, ← Prototype.valid_iff]
  exact ⟨⟨fun s t => TypeDescriptor.ofJni_eq_ok_iff, fun s p => Prototype.ofJni_eq_ok_iff⟩,
    ⟨TypeDescriptor.injOn_jni, Prototype.injOn_jni⟩,
    fun c hc name s => Class.findMethod?_eq hc name s,
    fun m hm f => Fingerprint.fits_iff_fitsTypes hm f,
    fun s t => TypePattern.standsFor_ofText_iff,
    fun s c hc => Class.valid_prototype_of_read hc⟩

/-- A broken name may be written as two. -/
example : (⟨[.object ⟨"a;Lb"⟩], .void⟩ : Prototype).jni =
    (⟨[.object ⟨"a"⟩, .object ⟨"b"⟩], .void⟩ : Prototype).jni := by decide

/-- Two methods that differ in the result. -/
def Class.overloaded : Class := ⟨⟨"a"⟩, .empty, none, none, [], [], [],
  [⟨"b", .empty, ⟨[.array (.object ⟨"a"⟩), .long], .void⟩, none, []⟩,
    ⟨"b", .empty, ⟨[.array (.object ⟨"a"⟩), .long], .object ⟨"a"⟩⟩, none, []⟩], none⟩

/-- Any array and a long, with the class itself as the result. -/
def Fingerprint.returning : Fingerprint where
  identity := 0
  name := "returning"
  flags? := none
  result? := some "La;"
  parameters? := some [.ofText "[", .ofText "J"]
  strings := []
  condition? := none

theorem Prototype.descriptors_stand_for_types_overloaded :
    Class.read ".class La;\n.method b([La;J)V\n.end method\n.method b([La;J)La;\n.end method\n" =
      .ok Class.overloaded ∧
    (∀ m ∈ Class.overloaded.methods, ∀ n ∈ m.prototype.names, n.Unbroken) ∧
    Class.overloaded.findMethod? "b" "([La;J)La;" =
      (Prototype.ofJni "([La;J)La;").toOption.bind (Class.overloaded.methodOf? "b") ∧
    Class.overloaded.findMethod? "b" "([La;J)La;" = some 1 ∧
    ∀ m ∈ Class.overloaded.methods, Fingerprint.returning.fits m = true ↔ Fingerprint.returning.FitsTypes m := by
  have hread : Class.read
      ".class La;\n.method b([La;J)V\n.end method\n.method b([La;J)La;\n.end method\n" =
        .ok Class.overloaded := by decide +kernel
  obtain ⟨-, -, hfind, hfits, -, hnames⟩ := descriptors_stand_for_types
  have hunbroken := hnames _ _ hread
  exact ⟨hread, hunbroken, hfind _ hunbroken _ _, by decide +kernel,
    fun m hm => hfits m (hunbroken m hm) _⟩

end DalvikPatch
