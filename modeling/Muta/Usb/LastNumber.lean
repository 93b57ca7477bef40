import Muta.Usb.Matcher

/-!
# Control interfaces with the last number

The successor of its number is computed for every control interface that the search
comes to, also where a Union descriptor names the data interface. For the number 255 it
leaves the range, so the search breaks down at such an interface, unless it is satisfied
before it comes to it. Nothing else can go wrong, whatever the descriptors hold.
-/

namespace Muta.Usb

set_option autoImplicit false

variable {ε : Type}

/-- A control interface whose number has no successor. -/
structure IsLast (c : InterfaceDescriptor) : Prop where
  altSetting : c.altSetting = 0
  signature : (c.classCode, c.subclass, c.protocol) ∈ controlSignatures
  number : c.number = 255

/-- In `config`, a control interface with the last number stands before every usable one. -/
def Overflows (config : ConfigDescriptor) : Prop :=
  ∃ before c after, config.interfaces = before ++ c :: after ∧ (∀ i ∈ before, ¬ Usable config i) ∧
    IsLast c

theorem number_le {c : InterfaceDescriptor} (h : c.number ≠ 255) : c.number.toNat ≤ 254 := by
  have hlt := c.number.toNat_lt
  have hne : c.number.toNat ≠ 255 := fun heq => h (UInt8.toNat_inj.mp heq)
  omega

theorem build_last (config : ConfigDescriptor) {c : InterfaceDescriptor} (h : c.number = 255) :
    (build config c : Checked ε _) = .fault .overflow := by
  have hnext : (inWord 8 (c.number.toNat + 1) : Checked ε _) = .fault .overflow := by
    rw [h]
    rfl
  unfold build
  rw [(subordinate_spec c.extra).1, Checked.ok_bind, hnext]
  rfl

theorem build_fault_iff {config : ConfigDescriptor} {c : InterfaceDescriptor} {w : Fault} :
    (build config c : Checked ε _) = .fault w ↔ c.number = 255 ∧ w = .overflow := by
  by_cases h : c.number = 255
  · rw [build_last config h]
    constructor
    · intro heq
      cases heq
      exact ⟨h, rfl⟩
    · intro hw
      rw [hw.2]
  · rw [build_eq config (number_le h)]
    constructor
    · intro heq
      cases heq
    · intro hw
      exact absurd hw.1 h

theorem build_stops_iff {config : ConfigDescriptor} {c : InterfaceDescriptor} :
    (build config c : Checked ε _) ≠ .ok none ↔
      (∃ d ∈ config.interfaces, Pairs c d) ∨ c.number = 255 := by
  by_cases h : c.number = 255
  · rw [build_last config h]
    simp [h]
  · rw [build_eq config (number_le h), ← matched_isSome config (number_le h)]
    cases matched config c with
    | none => simp [h]
    | some f => simp

theorem first_stop_iff {config : ConfigDescriptor} {c : InterfaceDescriptor} :
    First (fun i => (build config i : Checked ε _) ≠ .ok none) (config.interfaces.filter fun i =>
        i.altSetting = 0 ∧ isControlSignature i) c ↔
      First (fun i => Usable config i ∨ IsLast i) config.interfaces c := by
  rw [First.filter_iff]
  apply First.congr
  intro i _
  rw [decide_eq_true_iff, isControlSignature_iff, build_stops_iff]
  constructor
  · intro h
    obtain ⟨⟨halt, hsig⟩, hpaired | hlast⟩ := h
    · exact Or.inl ⟨halt, hsig, hpaired⟩
    · exact Or.inr ⟨halt, hsig, hlast⟩
  · intro h
    rcases h with hused | hlast
    · exact ⟨⟨hused.altSetting, hused.signature⟩, Or.inl hused.paired⟩
    · exact ⟨⟨hlast.altSetting, hlast.signature⟩, Or.inr hlast.number⟩

theorem overflows_iff {config : ConfigDescriptor} :
    Overflows config ↔
      ∃ c, First (fun i => Usable config i ∨ IsLast i) config.interfaces c ∧ IsLast c :=
  First.stops_iff.symm

theorem findRndisInConfig_fault_iff {config : ConfigDescriptor} {w : Fault} :
    (findRndisInConfig config : Checked ε _) = .fault w ↔ Overflows config ∧ w = .overflow := by
  rw [findRndisInConfig, First.findSomeM?_iff (by simp), overflows_iff]
  constructor
  · intro h
    obtain ⟨c, hfirst, hfault⟩ := h
    obtain ⟨hlast, hw⟩ := build_fault_iff.mp hfault
    have hstop := first_stop_iff.mp hfirst
    refine ⟨⟨c, hstop, ?_⟩, hw⟩
    rcases hstop.holds with hused | hlast'
    · exact ⟨hused.altSetting, hused.signature, hlast⟩
    · exact hlast'
  · intro h
    obtain ⟨⟨c, hfirst, hlast⟩, hw⟩ := h
    exact ⟨c, first_stop_iff.mpr hfirst, build_fault_iff.mpr ⟨hlast.number, hw⟩⟩

theorem findRndisInConfig_stops_iff {config : ConfigDescriptor} :
    (findRndisInConfig config : Checked ε _) ≠ .ok none ↔ Offers config ∨ Overflows config := by
  rw [findRndisInConfig, ne_eq, First.findSomeM?_none_iff]
  constructor
  · intro h
    simp only [not_forall] at h
    obtain ⟨c, hc, hstop⟩ := h
    obtain ⟨a, ha⟩ := (First.exists_iff (p := fun i => (build config i : Checked ε _) ≠ .ok none)).mpr
      ⟨c, hc, hstop⟩
    have hfirst := first_stop_iff.mp ha
    rcases hfirst.holds with hused | hlast
    · exact Or.inl ⟨a, hfirst.mem, hused⟩
    · exact Or.inr (overflows_iff.mpr ⟨a, hfirst, hlast⟩)
  · intro h hnone
    obtain ⟨a, ha⟩ : ∃ a, First (fun i => Usable config i ∨ IsLast i) config.interfaces a := by
      rcases h with ⟨c, hc, hused⟩ | hover
      · exact First.exists_iff.mpr ⟨c, hc, Or.inl hused⟩
      · obtain ⟨a, ha, _⟩ := overflows_iff.mp hover
        exact ⟨a, ha⟩
    have hfirst := (first_stop_iff (ε := ε)).mpr ha
    exact hfirst.holds (hnone a hfirst.mem)

theorem findRndis_fault_iff {configs : List ConfigDescriptor} {w : Fault} :
    (findRndis configs : Checked ε _) = .fault w ↔
      (∃ before config after, configs = before ++ config :: after ∧ (∀ x ∈ before, ¬ Offers x) ∧
        Overflows config) ∧ w = .overflow := by
  have hstop : ∀ config, First (fun x => (findRndisInConfig x : Checked ε _) ≠ .ok none) configs config ↔
      First (fun x => Offers x ∨ Overflows x) configs config := by
    intro config
    exact First.congr fun x _ => findRndisInConfig_stops_iff
  rw [findRndis, First.findSomeM?_iff (by simp), ← First.stops_iff]
  constructor
  · intro h
    obtain ⟨config, hfirst, hfault⟩ := h
    obtain ⟨hover, hw⟩ := findRndisInConfig_fault_iff.mp hfault
    exact ⟨⟨config, (hstop config).mp hfirst, hover⟩, hw⟩
  · intro h
    obtain ⟨⟨config, hfirst, hover⟩, hw⟩ := h
    exact ⟨config, (hstop config).mpr hfirst, findRndisInConfig_fault_iff.mpr ⟨hover, hw⟩⟩

/-- The search completes exactly if every configuration with a control interface numbered
255 before its usable ones stands behind one that has what is looked for; and overflow is
all that can keep it from completing. -/
theorem findRndis_completes_iff (configs : List ConfigDescriptor) :
    (∀ w, (findRndis configs : Checked Empty _) = .fault w → w = .overflow) ∧
    ((∃ r, (findRndis configs : Checked Empty _) = .ok r) ↔
      ∀ before config after, configs = before ++ config :: after → (∀ x ∈ before, ¬ Offers x) →
        ¬ Overflows config) := by
  constructor
  · intro w h
    exact (findRndis_fault_iff.mp h).2
  · constructor
    · intro h before config after hconfigs hbefore hover
      obtain ⟨r, hr⟩ := h
      have hfault : (findRndis configs : Checked Empty _) = .fault .overflow :=
        findRndis_fault_iff.mpr ⟨⟨before, config, after, hconfigs, hbefore, hover⟩, rfl⟩
      rw [hr] at hfault
      cases hfault
    · intro h
      cases hr : (findRndis configs : Checked Empty _) with
      | ok r => exact ⟨r, rfl⟩
      | err e => exact e.elim
      | fault w =>
        obtain ⟨⟨before, config, after, hconfigs, hbefore, hover⟩, _⟩ := findRndis_fault_iff.mp hr
        exact absurd hover (h before config after hconfigs hbefore)

/-- A phone whose control interface has the number 255 and a Union descriptor that names
the data interface. -/
theorem last_number_overflows :
    ¬ ∃ r, (findRndis [⟨1, [⟨255, 0, 0xE0, 0x01, 0x03, [], [5, 0x24, 6, 255, 1]⟩,
      ⟨1, 0, 0x0A, 0, 0, [⟨0x81, .bulk, 512⟩, ⟨0x01, .bulk, 512⟩], []⟩]⟩] : Checked Empty _) = .ok r := by
  have hrun : (findRndis [⟨1, [⟨255, 0, 0xE0, 0x01, 0x03, [], [5, 0x24, 6, 255, 1]⟩,
      ⟨1, 0, 0x0A, 0, 0, [⟨0x81, .bulk, 512⟩, ⟨0x01, .bulk, 512⟩], []⟩]⟩] : Checked Empty _) =
      .fault .overflow := by decide +kernel
  intro h
  obtain ⟨r, hr⟩ := h
  rw [hrun] at hr
  cases hr

end Muta.Usb
