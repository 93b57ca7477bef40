import Muta.Base.First
import Muta.Base.Records
import Muta.Usb.Descriptor
import Mathlib.Data.Nat.Bitwise

/-!
# Locating the RNDIS function

The search runs over configurations, over the control interfaces of each, over the data
interfaces that may belong to one, and over the descriptors that name the data
interface. Each search is described by the first element it is satisfied with.
-/

namespace Muta.Usb

open Records
set_option autoImplicit false

variable {ε : Type}

def csInterface : UInt8 := 0x24
def cdcUnion : UInt8 := 0x06
def classCdcData : UInt8 := 0x0A

def controlSignatures : List (UInt8 × UInt8 × UInt8) :=
  [(0xE0, 0x01, 0x03), (0x02, 0x02, 0xFF), (0xEF, 0x04, 0x01)]

structure RndisFunction where
  configValue : UInt8
  controlInterface : UInt8
  dataInterface : UInt8
  dataAltSetting : UInt8
  interruptIn : Option UInt8
  bulkIn : UInt8
  bulkOut : UInt8
  bulkMaxPacketSize : UInt16
deriving DecidableEq, Repr

def isControlSignature (i : InterfaceDescriptor) : Bool :=
  controlSignatures.contains (i.classCode, i.subclass, i.protocol)

/-- The test for a Union descriptor; the subtype is read only from a long enough one. -/
def isUnion (desc : Bytes) : Checked ε Bool := do
  if (← desc.index 1) = csInterface ∧ 5 ≤ desc.length then
    return decide ((← desc.index 2) = cdcUnion)
  else
    return false

def unionSubordinate (rest : Bytes) : Checked ε (Option UInt8) :=
  match rest with
  | [] => .ok none
  | len :: tail =>
    if len.toNat < 2 ∨ len.toNat > (len :: tail).length then
      .ok none
    else do
      let desc : Bytes := (len :: tail).take len.toNat
      if ← isUnion desc then
        return some (← desc.index 4)
      else
        unionSubordinate ((len :: tail).drop len.toNat)
termination_by rest.length
decreasing_by
  simp only [List.length_drop, List.length_cons]
  omega

def bulkPair (i : InterfaceDescriptor) :
    Option (InterfaceDescriptor × EndpointDescriptor × EndpointDescriptor) := do
  let bin ← i.endpoint .bulk .dirIn
  let bout ← i.endpoint .bulk .dirOut
  return (i, bin, bout)

/-- The number that stands in for a missing Union descriptor is computed in any case. -/
def build (config : ConfigDescriptor) (control : InterfaceDescriptor) :
    Checked ε (Option RndisFunction) := do
  let subordinate ← unionSubordinate control.extra
  let next ← inWord 8 (control.number.toNat + 1)
  let dataNumber := subordinate.getD (UInt8.ofNat next)
  let candidates := config.interfaces.filter fun i =>
    i.number = dataNumber ∧ i.classCode = classCdcData
  match candidates.findSome? bulkPair with
  | none => return none
  | some (data, bulkIn, bulkOut) =>
    return some {
      configValue := config.value
      controlInterface := control.number
      dataInterface := data.number
      dataAltSetting := data.altSetting
      interruptIn := (control.endpoint .interrupt .dirIn).map (·.address)
      bulkIn := bulkIn.address
      bulkOut := bulkOut.address
      bulkMaxPacketSize := max bulkIn.maxPacketSize bulkOut.maxPacketSize }

def findRndisInConfig (config : ConfigDescriptor) : Checked ε (Option RndisFunction) :=
  (config.interfaces.filter fun i => i.altSetting = 0 ∧ isControlSignature i).findSomeM?
    (build config)

def findRndis (configs : List ConfigDescriptor) : Checked ε (Option RndisFunction) :=
  configs.findSomeM? findRndisInConfig

/-- `m` is one descriptor: its first byte is its length. -/
def IsDescriptor (m d : Bytes) : Prop :=
  d = m ∧ 2 ≤ m.length ∧ ∃ len tail, m = len :: tail ∧ len.toNat = m.length

def IsUnion (d : Bytes) : Prop :=
  5 ≤ d.length ∧ d[1]? = some csInterface ∧ d[2]? = some cdcUnion

/-- `m` is the first Union descriptor reached in `extra`. -/
def FirstUnion (extra m : Bytes) : Prop :=
  ∃ ms ds rest, Splits IsDescriptor extra ms (ds ++ [m]) rest ∧ (∀ d ∈ ds, ¬ IsUnion d) ∧ IsUnion m

theorem isDescriptor_determined : Determined IsDescriptor := by
  intro m m' rest rest' d d' hm hm' heq
  obtain ⟨rfl, _, len, tail, hhead, hlen⟩ := hm
  obtain ⟨rfl, _, len', tail', hhead', hlen'⟩ := hm'
  have hfirst : len = len' := by
    rw [hhead, hhead'] at heq
    exact (List.cons.inj heq).1
  have hsame : d = d' := by
    apply List.append_inj_left heq
    rw [← hlen, ← hlen', hfirst]
  exact ⟨hsame, hsame⟩

theorem isUnion_eq {desc : Bytes} (h : 2 ≤ desc.length) :
    ∃ v, (∀ {ε : Type}, (isUnion desc : Checked ε _) = .ok v) ∧ (v = true ↔ IsUnion desc) := by
  unfold isUnion IsUnion
  by_cases hlen : 5 ≤ desc.length
  · simp (disch := omega) only [Bytes.index_ok, Checked.ok_bind, List.getElem?_eq_getElem, hlen,
      and_true, true_and, Option.some.injEq]
    by_cases hcs : desc[1] = csInterface
    · refine ⟨decide (desc[2] = cdcUnion), ?_, ?_⟩
      · intro ε
        rw [if_pos hcs]
        rfl
      · simp [hcs]
    · refine ⟨false, ?_, ?_⟩
      · intro ε
        rw [if_neg hcs]
        rfl
      · simp [hcs]
  · refine ⟨false, ?_, ?_⟩
    · intro ε
      rw [Bytes.index_ok (by omega), Checked.ok_bind, if_neg (fun h => hlen h.2)]
      rfl
    · simp [hlen]

theorem not_firstUnion {extra m : Bytes} (h : ∀ d r, IsDescriptor d d → extra ≠ d ++ r) :
    ¬ FirstUnion extra m := by
  intro hfirst
  obtain ⟨ms, ds, rest, hs, _, _⟩ := hfirst
  obtain ⟨d, ds', hds⟩ : ∃ d ds', ds ++ [m] = d :: ds' := by
    cases ds with
    | nil => exact ⟨m, [], rfl⟩
    | cons d ds => exact ⟨d, ds ++ [m], rfl⟩
  rw [hds] at hs
  cases ms with
  | nil => cases hs.records
  | cons m' ms =>
    obtain ⟨hd, hwhole, _⟩ := hs.tail
    obtain rfl : d = m' := hd.1
    exact h d _ hd hwhole

theorem FirstUnion.front {d rest m : Bytes} (hd : IsDescriptor d d) (h : FirstUnion (d ++ rest) m) :
    m = d ∧ IsUnion d ∨ ¬ IsUnion d ∧ FirstUnion rest m := by
  obtain ⟨ms, ds, last, hs, hds, hm⟩ := h
  cases ms with
  | nil =>
    have h := hs.records
    cases ds <;> cases h
  | cons m' ms =>
    cases ds with
    | nil =>
      obtain ⟨hm', hwhole, _⟩ := hs.tail
      obtain rfl := (isDescriptor_determined hd hm' hwhole).2
      exact Or.inl ⟨rfl, hm⟩
    | cons d' ds =>
      obtain ⟨hm', hwhole, htail⟩ := hs.tail
      obtain ⟨rfl, rfl⟩ := isDescriptor_determined hd hm' hwhole
      rw [← List.append_cancel_left hwhole] at htail
      refine Or.inr ⟨hds d List.mem_cons_self, ms, ds, last, htail, ?_, hm⟩
      exact fun x hx => hds x (List.mem_cons_of_mem _ hx)

theorem firstUnion_head {d rest m : Bytes} (hd : IsDescriptor d d) (hu : IsUnion d) :
    FirstUnion (d ++ rest) m ↔ m = d := by
  constructor
  · intro hfirst
    rcases hfirst.front hd with ⟨hm, _⟩ | ⟨hnot, _⟩
    · exact hm
    · exact absurd hu hnot
  · intro hm
    subst hm
    refine ⟨[m], [], rest, (Splits.nil rest).cons hd, ?_, hu⟩
    intro d hmem
    cases hmem

theorem firstUnion_tail {d rest m : Bytes} (hd : IsDescriptor d d) (hu : ¬ IsUnion d) :
    FirstUnion (d ++ rest) m ↔ FirstUnion rest m := by
  constructor
  · intro hfirst
    rcases hfirst.front hd with ⟨_, hunion⟩ | ⟨_, hrest⟩
    · exact absurd hunion hu
    · exact hrest
  · intro hfirst
    obtain ⟨ms, ds, last, hs, hds, hm⟩ := hfirst
    refine ⟨d :: ms, d :: ds, last, hs.cons hd, ?_, hm⟩
    intro x hx
    rcases List.mem_cons.mp hx with rfl | hx
    · exact hu
    · exact hds x hx

def Subordinate (extra : Bytes) (n : UInt8) : Prop := ∃ m, FirstUnion extra m ∧ m[4]? = some n

theorem none_subordinate {extra : Bytes} (h : ∀ d r, IsDescriptor d d → extra ≠ d ++ r) (n : UInt8) :
    none = some n ↔ Subordinate extra n := by
  constructor
  · intro heq
    cases heq
  · intro hn
    obtain ⟨m, hm, _⟩ := hn
    exact absurd hm (not_firstUnion h)

theorem exists_descriptor {len : UInt8} {tail : Bytes}
    (h : ¬ (len.toNat < 2 ∨ len.toNat > (len :: tail).length)) :
    ∃ d rest, len :: tail = d ++ rest ∧ IsDescriptor d d := by
  have hlen : ((len :: tail).take len.toNat).length = len.toNat := by
    rw [List.length_take]
    omega
  refine ⟨(len :: tail).take len.toNat, (len :: tail).drop len.toNat,
    (List.take_append_drop _ _).symm, rfl, by omega, len, tail.take (len.toNat - 1), ?_, hlen.symm⟩
  obtain ⟨k, hk⟩ : ∃ k, len.toNat = k + 1 := ⟨len.toNat - 1, by omega⟩
  rw [hk, List.take_succ_cons, Nat.add_sub_cancel]

theorem unionSubordinate_step {d : Bytes} (hd : IsDescriptor d d) (rest : Bytes) :
    (unionSubordinate (d ++ rest) : Checked ε _) = (do
      if ← isUnion d then
        return some (← d.index 4)
      else
        unionSubordinate rest) := by
  obtain ⟨_, htwo, len, tail, rfl, hlen⟩ := hd
  have hgo : ¬ (len.toNat < 2 ∨ len.toNat > (len :: (tail ++ rest)).length) := by
    have hle : (len :: tail).length ≤ (len :: (tail ++ rest)).length := by simp
    omega
  have htake : (len :: (tail ++ rest)).take len.toNat = len :: tail := by
    rw [hlen, ← List.cons_append, List.take_left]
  have hdrop : (len :: (tail ++ rest)).drop len.toNat = rest := by
    rw [hlen, ← List.cons_append, List.drop_left]
  rw [List.cons_append, unionSubordinate, if_neg hgo, htake, hdrop]

theorem no_descriptor {len : UInt8} {tail : Bytes}
    (h : len.toNat < 2 ∨ len.toNat > (len :: tail).length) (d r : Bytes) (hd : IsDescriptor d d) :
    len :: tail ≠ d ++ r := by
  intro heq
  obtain ⟨_, htwo, len', tail', rfl, hlen⟩ := hd
  obtain ⟨rfl, htail⟩ := List.cons.inj heq
  have hle := congrArg List.length heq
  rw [List.length_append] at hle
  omega

theorem unionSubordinate_eq (k : Nat) (extra : Bytes) (hk : extra.length ≤ k) :
    ∃ r, (∀ {ε : Type}, (unionSubordinate extra : Checked ε _) = .ok r) ∧
      ∀ n, r = some n ↔ Subordinate extra n := by
  induction k generalizing extra with
  | zero =>
    obtain rfl : extra = [] := List.eq_nil_of_length_eq_zero (by omega)
    refine ⟨none, ?_, none_subordinate ?_⟩
    · intro ε
      rw [unionSubordinate]
    · intro d r hd heq
      obtain ⟨_, _, len, tail, rfl, _⟩ := hd
      cases heq
  | succ k ih =>
    cases extra with
    | nil => exact ih [] (Nat.zero_le _)
    | cons len tail =>
      by_cases hstop : len.toNat < 2 ∨ len.toNat > (len :: tail).length
      · refine ⟨none, ?_, none_subordinate (no_descriptor hstop)⟩
        intro ε
        rw [unionSubordinate, if_pos hstop]
      · obtain ⟨d, rest, heq, hd⟩ := exists_descriptor hstop
        have hrest : rest.length ≤ k := by
          have htwo := hd.2.1
          have hle := congrArg List.length heq
          rw [List.length_append] at hle
          omega
        obtain ⟨v, hv, hunion⟩ := isUnion_eq hd.2.1
        rw [heq]
        cases v with
        | true =>
          have hu := hunion.mp rfl
          have hfour : 4 < d.length := hu.1
          refine ⟨some d[4], ?_, ?_⟩
          · intro ε
            rw [unionSubordinate_step hd, hv, Checked.ok_bind, if_pos rfl, Bytes.index_ok hfour]
            rfl
          · intro n
            rw [← List.getElem?_eq_getElem hfour]
            constructor
            · intro hn
              exact ⟨d, (firstUnion_head hd hu).mpr rfl, hn⟩
            · intro hn
              obtain ⟨m, hm, hmn⟩ := hn
              rw [(firstUnion_head hd hu).mp hm] at hmn
              exact hmn
        | false =>
          have hu : ¬ IsUnion d := fun h => by cases hunion.mpr h
          obtain ⟨r, hr, hsub⟩ := ih rest hrest
          refine ⟨r, ?_, ?_⟩
          · intro ε
            rw [unionSubordinate_step hd, hv, Checked.ok_bind, if_neg (by decide), hr]
          · intro n
            rw [hsub n]
            unfold Subordinate
            simp only [firstUnion_tail hd hu]

def DataNumber (c : InterfaceDescriptor) (n : UInt8) : Prop :=
  Subordinate c.extra n ∨ (∀ m, ¬ FirstUnion c.extra m) ∧ n.toNat = c.number.toNat + 1

/-- An endpoint of type `ty` whose direction bit is `inward`. -/
def Serves (ty : TransferType) (inward : Bool) (e : EndpointDescriptor) : Prop :=
  e.transferType = ty ∧ e.address.toNat.testBit 7 = inward

structure Pairs (c d : InterfaceDescriptor) : Prop where
  cdcData : d.classCode = classCdcData
  number : DataNumber c d.number
  bulkIn : ∃ e ∈ d.endpoints, Serves .bulk true e
  bulkOut : ∃ e ∈ d.endpoints, Serves .bulk false e

/-- `c` is a control interface that a data interface of the configuration belongs to. -/
structure Usable (config : ConfigDescriptor) (c : InterfaceDescriptor) : Prop where
  altSetting : c.altSetting = 0
  signature : (c.classCode, c.subclass, c.protocol) ∈ controlSignatures
  paired : ∃ d ∈ config.interfaces, Pairs c d

/-- `f` is the function made of the control interface `c` and the data interface `d`. -/
structure Describes (config : ConfigDescriptor) (c d : InterfaceDescriptor) (f : RndisFunction) :
    Prop where
  configValue : f.configValue = config.value
  controlInterface : f.controlInterface = c.number
  dataInterface : f.dataInterface = d.number
  dataAltSetting : f.dataAltSetting = d.altSetting
  interruptIn : ∀ a, f.interruptIn = some a ↔
    ∃ e, First (Serves .interrupt true) c.endpoints e ∧ a = e.address
  bulk : ∃ i o, First (Serves .bulk true) d.endpoints i ∧ First (Serves .bulk false) d.endpoints o ∧
    f.bulkIn = i.address ∧ f.bulkOut = o.address ∧
    f.bulkMaxPacketSize = max i.maxPacketSize o.maxPacketSize

theorem direction_iff (e : EndpointDescriptor) :
    (e.direction = .dirIn ↔ e.address.toNat.testBit 7 = true) ∧
      (e.direction = .dirOut ↔ e.address.toNat.testBit 7 = false) := by
  have hbit : e.address &&& 0x80 ≠ 0 ↔ e.address.toNat.testBit 7 = true := by
    have hand : (e.address &&& 0x80).toNat = (e.address.toNat.testBit 7).toNat * 2 ^ 7 := by
      rw [UInt8.toNat_and]
      exact Nat.and_two_pow _ 7
    rw [ne_eq, ← UInt8.toNat_inj, hand]
    cases e.address.toNat.testBit 7 with
    | true => decide
    | false => decide
  unfold EndpointDescriptor.direction
  by_cases h : e.address &&& 0x80 ≠ 0
  · simp [h, hbit.mp h]
  · have hclear : e.address.toNat.testBit 7 = false := by
      cases hb : e.address.toNat.testBit 7 with
      | true => exact absurd (hbit.mpr hb) h
      | false => rfl
    simp [h, hclear]

theorem endpoint_iff {i : InterfaceDescriptor} {ty : TransferType} {e : EndpointDescriptor} :
    (i.endpoint ty .dirIn = some e ↔ First (Serves ty true) i.endpoints e) ∧
      (i.endpoint ty .dirOut = some e ↔ First (Serves ty false) i.endpoints e) := by
  unfold InterfaceDescriptor.endpoint
  constructor
  · rw [First.find?_iff]
    apply First.congr
    intro x _
    rw [decide_eq_true_iff, (direction_iff x).1]
    rfl
  · rw [First.find?_iff]
    apply First.congr
    intro x _
    rw [decide_eq_true_iff, (direction_iff x).2]
    rfl

def subordinate (extra : Bytes) : Option UInt8 :=
  match (unionSubordinate extra : Checked Empty _) with
  | .ok r => r
  | .fault _ => none

theorem subordinate_spec (extra : Bytes) :
    (∀ {ε : Type}, (unionSubordinate extra : Checked ε _) = .ok (subordinate extra)) ∧
      ∀ n, subordinate extra = some n ↔ Subordinate extra n := by
  obtain ⟨r, hr, hsub⟩ := unionSubordinate_eq extra.length extra (Nat.le_refl _)
  have hsame : subordinate extra = r := by
    rw [subordinate, hr]
  rw [hsame]
  exact ⟨hr, hsub⟩

theorem exists_subordinate {extra m : Bytes} (h : FirstUnion extra m) : ∃ n, Subordinate extra n := by
  have hfive : 4 < m.length := by
    obtain ⟨_, _, _, _, _, hu⟩ := h
    exact hu.1
  exact ⟨m[4], m, h, List.getElem?_eq_getElem hfive⟩

def dataNumber (c : InterfaceDescriptor) : UInt8 :=
  (subordinate c.extra).getD (UInt8.ofNat (c.number.toNat + 1))

theorem dataNumber_iff {c : InterfaceDescriptor} (h : c.number.toNat ≤ 254) (n : UInt8) :
    DataNumber c n ↔ n = dataNumber c := by
  have hspec := (subordinate_spec c.extra).2
  unfold DataNumber dataNumber
  cases hs : subordinate c.extra with
  | some s =>
    have hsub := (hspec s).mp hs
    rw [← hspec n, hs, Option.getD_some]
    constructor
    · intro hn
      rcases hn with hn | ⟨hnone, _⟩
      · exact (Option.some.inj hn).symm
      · obtain ⟨m, hm, _⟩ := hsub
        exact absurd hm (hnone m)
    · intro hn
      rw [hn]
      exact Or.inl rfl
  | none =>
    have hnone : ∀ m, ¬ FirstUnion c.extra m := by
      intro m hm
      obtain ⟨s, hsub⟩ := exists_subordinate hm
      rw [← hspec s, hs] at hsub
      cases hsub
    have hnext : (UInt8.ofNat (c.number.toNat + 1)).toNat = c.number.toNat + 1 :=
      UInt8.toNat_ofNat_of_lt' (Nat.lt_succ_of_le (Nat.succ_le_succ h))
    rw [← hspec n, hs, Option.getD_none, ← UInt8.toNat_inj, hnext]
    constructor
    · intro hn
      rcases hn with hn | ⟨_, hn⟩
      · cases hn
      · exact hn
    · intro hn
      exact Or.inr ⟨hnone, hn⟩

theorem bulkPair_iff {i : InterfaceDescriptor}
    {r : InterfaceDescriptor × EndpointDescriptor × EndpointDescriptor} :
    bulkPair i = some r ↔ r.1 = i ∧ First (Serves .bulk true) i.endpoints r.2.1 ∧
      First (Serves .bulk false) i.endpoints r.2.2 := by
  obtain ⟨data, bin, bout⟩ := r
  rw [← endpoint_iff.1, ← endpoint_iff.2, bulkPair]
  cases i.endpoint .bulk .dirIn with
  | none => simp
  | some x =>
    cases i.endpoint .bulk .dirOut with
    | none => simp
    | some y => simp [eq_comm]

theorem bulkPair_isSome {i : InterfaceDescriptor} :
    (bulkPair i).isSome ↔ (∃ e ∈ i.endpoints, Serves .bulk true e) ∧
      ∃ e ∈ i.endpoints, Serves .bulk false e := by
  rw [Option.isSome_iff_exists, ← First.exists_iff, ← First.exists_iff]
  constructor
  · intro h
    obtain ⟨r, hr⟩ := h
    obtain ⟨_, hin, hout⟩ := bulkPair_iff.mp hr
    exact ⟨⟨_, hin⟩, ⟨_, hout⟩⟩
  · intro h
    obtain ⟨⟨bin, hin⟩, ⟨bout, hout⟩⟩ := h
    exact ⟨(i, bin, bout), bulkPair_iff.mpr ⟨rfl, hin, hout⟩⟩

def describe (config : ConfigDescriptor) (control : InterfaceDescriptor)
    (r : InterfaceDescriptor × EndpointDescriptor × EndpointDescriptor) : RndisFunction where
  configValue := config.value
  controlInterface := control.number
  dataInterface := r.1.number
  dataAltSetting := r.1.altSetting
  interruptIn := (control.endpoint .interrupt .dirIn).map (·.address)
  bulkIn := r.2.1.address
  bulkOut := r.2.2.address
  bulkMaxPacketSize := max r.2.1.maxPacketSize r.2.2.maxPacketSize

/-- What `build` returns for a control interface whose successor has a number. -/
def matched (config : ConfigDescriptor) (control : InterfaceDescriptor) : Option RndisFunction :=
  ((config.interfaces.filter fun i =>
    i.number = dataNumber control ∧ i.classCode = classCdcData).findSome? bulkPair).map
      (describe config control)

theorem build_eq (config : ConfigDescriptor) {c : InterfaceDescriptor} (h : c.number.toNat ≤ 254) :
    (build config c : Checked ε _) = .ok (matched config c) := by
  unfold build matched
  rw [(subordinate_spec c.extra).1, Checked.ok_bind, inWord_ok (by omega), Checked.ok_bind]
  rw [← dataNumber]
  dsimp only
  cases (config.interfaces.filter fun i =>
      i.number = dataNumber c ∧ i.classCode = classCdcData).findSome? bulkPair with
  | none => rfl
  | some r => rfl

theorem describes_describe (config : ConfigDescriptor) (c d : InterfaceDescriptor)
    {r : InterfaceDescriptor × EndpointDescriptor × EndpointDescriptor} (h : bulkPair d = some r) :
    Describes config c d (describe config c r) := by
  obtain ⟨hd, hin, hout⟩ := bulkPair_iff.mp h
  refine ⟨rfl, rfl, ?_, ?_, ?_, r.2.1, r.2.2, hin, hout, rfl, rfl, rfl⟩
  · rw [← hd]
    rfl
  · rw [← hd]
    rfl
  · intro a
    have hmap : (describe config c r).interruptIn =
        (c.endpoint .interrupt .dirIn).map (·.address) := rfl
    rw [hmap, Option.map_eq_some_iff]
    constructor
    · intro he
      obtain ⟨e, he, ha⟩ := he
      exact ⟨e, endpoint_iff.1.mp he, ha.symm⟩
    · intro he
      obtain ⟨e, he, ha⟩ := he
      exact ⟨e, endpoint_iff.1.mpr he, ha.symm⟩

theorem first_pair_iff (config : ConfigDescriptor) {c d : InterfaceDescriptor}
    (h : c.number.toNat ≤ 254) :
    First (fun i => (bulkPair i).isSome) (config.interfaces.filter fun i =>
        i.number = dataNumber c ∧ i.classCode = classCdcData) d ↔
      First (Pairs c) config.interfaces d := by
  rw [First.filter_iff]
  apply First.congr
  intro i _
  rw [decide_eq_true_iff, bulkPair_isSome, ← dataNumber_iff h]
  constructor
  · intro hi
    obtain ⟨⟨hnumber, hclass⟩, hin, hout⟩ := hi
    exact ⟨hclass, hnumber, hin, hout⟩
  · intro hi
    exact ⟨⟨hi.number, hi.cdcData⟩, hi.bulkIn, hi.bulkOut⟩

theorem Describes.unique {config : ConfigDescriptor} {c d : InterfaceDescriptor} {f g : RndisFunction}
    (hf : Describes config c d f) (hg : Describes config c d g) : f = g := by
  have hinterrupt : f.interruptIn = g.interruptIn := by
    apply Option.ext
    intro a
    rw [hf.interruptIn a, hg.interruptIn a]
  obtain ⟨i, o, hi, ho, hfin, hfout, hfsize⟩ := hf.bulk
  obtain ⟨i', o', hi', ho', hgin, hgout, hgsize⟩ := hg.bulk
  obtain rfl := hi.unique hi'
  obtain rfl := ho.unique ho'
  have hvalue := hf.configValue.trans hg.configValue.symm
  have hcontrol := hf.controlInterface.trans hg.controlInterface.symm
  have hdata := hf.dataInterface.trans hg.dataInterface.symm
  have halt := hf.dataAltSetting.trans hg.dataAltSetting.symm
  cases f
  cases g
  simp_all

theorem matched_iff (config : ConfigDescriptor) {c : InterfaceDescriptor} (h : c.number.toNat ≤ 254)
    (f : RndisFunction) :
    matched config c = some f ↔
      ∃ d, First (Pairs c) config.interfaces d ∧ Describes config c d f := by
  rw [matched, Option.map_eq_some_iff]
  constructor
  · intro hf
    obtain ⟨r, hr, rfl⟩ := hf
    obtain ⟨d, hfirst, hd⟩ := First.findSome?_iff.mp hr
    exact ⟨d, (first_pair_iff config h).mp hfirst, describes_describe config c d hd⟩
  · intro hf
    obtain ⟨d, hfirst, hdesc⟩ := hf
    have hd := (first_pair_iff config h).mpr hfirst
    obtain ⟨r, hr⟩ := Option.isSome_iff_exists.mp hd.holds
    exact ⟨r, First.findSome?_iff.mpr ⟨d, hd, hr⟩, (describes_describe config c d hr).unique hdesc⟩

theorem matched_isSome (config : ConfigDescriptor) {c : InterfaceDescriptor}
    (h : c.number.toNat ≤ 254) :
    (matched config c).isSome ↔ ∃ d ∈ config.interfaces, Pairs c d := by
  rw [Option.isSome_iff_exists, ← First.exists_iff]
  constructor
  · intro hf
    obtain ⟨f, hf⟩ := hf
    obtain ⟨d, hd, _⟩ := (matched_iff config h f).mp hf
    exact ⟨d, hd⟩
  · intro hd
    obtain ⟨d, hd⟩ := hd
    obtain ⟨r, hr⟩ := Option.isSome_iff_exists.mp ((first_pair_iff config h).mpr hd).holds
    exact ⟨describe config c r,
      (matched_iff config h _).mpr ⟨d, hd, describes_describe config c d hr⟩⟩

/-- Every control interface has a number with a successor. -/
def Numbered (config : ConfigDescriptor) : Prop :=
  ∀ i ∈ config.interfaces, (i.classCode, i.subclass, i.protocol) ∈ controlSignatures →
    i.number.toNat ≤ 254

def matchedIn (config : ConfigDescriptor) : Option RndisFunction :=
  (config.interfaces.filter fun i => i.altSetting = 0 ∧ isControlSignature i).findSome?
    (matched config)

theorem isControlSignature_iff (i : InterfaceDescriptor) :
    isControlSignature i = true ↔ (i.classCode, i.subclass, i.protocol) ∈ controlSignatures := by
  rw [isControlSignature, List.contains_iff_mem]

theorem findRndisInConfig_eq {config : ConfigDescriptor} (h : Numbered config) :
    (findRndisInConfig config : Checked ε _) = .ok (matchedIn config) := by
  apply First.findSomeM?_eq
  intro c hc
  obtain ⟨hmem, hkept⟩ := List.mem_filter.mp hc
  obtain ⟨_, hsig⟩ := of_decide_eq_true hkept
  exact build_eq config (h c hmem ((isControlSignature_iff c).mp hsig))

theorem first_usable_iff {config : ConfigDescriptor} (h : Numbered config) {c : InterfaceDescriptor} :
    First (fun i => (matched config i).isSome) (config.interfaces.filter fun i =>
        i.altSetting = 0 ∧ isControlSignature i) c ↔
      First (Usable config) config.interfaces c := by
  rw [First.filter_iff]
  apply First.congr
  intro i hi
  rw [decide_eq_true_iff, isControlSignature_iff]
  constructor
  · intro hused
    obtain ⟨⟨halt, hsig⟩, hsome⟩ := hused
    exact ⟨halt, hsig, (matched_isSome config (h i hi hsig)).mp hsome⟩
  · intro hused
    exact ⟨⟨hused.altSetting, hused.signature⟩,
      (matched_isSome config (h i hi hused.signature)).mpr hused.paired⟩

theorem matchedIn_iff {config : ConfigDescriptor} (h : Numbered config) (f : RndisFunction) :
    matchedIn config = some f ↔ ∃ c d, First (Usable config) config.interfaces c ∧
      First (Pairs c) config.interfaces d ∧ Describes config c d f := by
  rw [matchedIn, First.findSome?_iff]
  constructor
  · intro hf
    obtain ⟨c, hfirst, hc⟩ := hf
    have hused := (first_usable_iff h).mp hfirst
    obtain ⟨d, hd⟩ := (matched_iff config (h c hused.mem hused.holds.signature) f).mp hc
    exact ⟨c, d, hused, hd⟩
  · intro hf
    obtain ⟨c, d, hused, hd⟩ := hf
    exact ⟨c, (first_usable_iff h).mpr hused,
      (matched_iff config (h c hused.mem hused.holds.signature) f).mpr ⟨d, hd⟩⟩

def Offers (config : ConfigDescriptor) : Prop := ∃ c ∈ config.interfaces, Usable config c

theorem matchedIn_isSome {config : ConfigDescriptor} (h : Numbered config) :
    (matchedIn config).isSome ↔ Offers config := by
  rw [Offers, ← First.exists_iff, Option.isSome_iff_exists]
  constructor
  · intro hf
    obtain ⟨f, hf⟩ := hf
    obtain ⟨c, _, hc, _⟩ := (matchedIn_iff h f).mp hf
    exact ⟨c, hc⟩
  · intro hc
    obtain ⟨c, hc⟩ := hc
    have hnum := h c hc.mem hc.holds.signature
    obtain ⟨f, hf⟩ := Option.isSome_iff_exists.mp ((matched_isSome config hnum).mpr hc.holds.paired)
    obtain ⟨d, hd⟩ := (matched_iff config hnum f).mp hf
    exact ⟨f, (matchedIn_iff h f).mpr ⟨c, d, hc, hd⟩⟩

/-- The search finds a function exactly when there is one, and then the first one; the
walk over the class-specific bytes ends on every string. -/
theorem findRndis_exact (configs : List ConfigDescriptor) (h : ∀ config ∈ configs, Numbered config) :
    ∃ r : Option RndisFunction,
      (∀ {ε : Type}, (findRndis configs : Checked ε _) = .ok r) ∧
      (r.isSome ↔ ∃ config ∈ configs, Offers config) ∧
      (∀ f, r = some f ↔ ∃ config c d, First Offers configs config ∧
        First (Usable config) config.interfaces c ∧ First (Pairs c) config.interfaces d ∧
        Describes config c d f) ∧
      ∀ extra : Bytes, ∃ n, ∀ {ε : Type}, (unionSubordinate extra : Checked ε _) = .ok n := by
  have hfirst : ∀ config, First (fun config => (matchedIn config).isSome) configs config ↔
      First Offers configs config := by
    intro config
    apply First.congr
    intro x hx
    exact matchedIn_isSome (h x hx)
  have hsome : ∀ f, configs.findSome? matchedIn = some f ↔
      ∃ config c d, First Offers configs config ∧ First (Usable config) config.interfaces c ∧
        First (Pairs c) config.interfaces d ∧ Describes config c d f := by
    intro f
    rw [First.findSome?_iff]
    constructor
    · intro hf
      obtain ⟨config, hconfig, hf⟩ := hf
      obtain ⟨c, d, hc⟩ := (matchedIn_iff (h config hconfig.mem) f).mp hf
      exact ⟨config, c, d, (hfirst config).mp hconfig, hc⟩
    · intro hf
      obtain ⟨config, c, d, hconfig, hc⟩ := hf
      exact ⟨config, (hfirst config).mpr hconfig,
        (matchedIn_iff (h config hconfig.mem) f).mpr ⟨c, d, hc⟩⟩
  refine ⟨configs.findSome? matchedIn, ?_, ?_, hsome, fun extra => ⟨_, (subordinate_spec extra).1⟩⟩
  · intro ε
    apply First.findSomeM?_eq
    intro config hconfig
    exact findRndisInConfig_eq (h config hconfig)
  · rw [List.findSome?_isSome_iff]
    constructor
    · intro hx
      obtain ⟨config, hmem, hconfig⟩ := hx
      exact ⟨config, hmem, (matchedIn_isSome (h config hmem)).mp hconfig⟩
    · intro hx
      obtain ⟨config, hmem, hconfig⟩ := hx
      exact ⟨config, hmem, (matchedIn_isSome (h config hmem)).mpr hconfig⟩

/-- A tethering phone behind a configuration that has none of it. -/
theorem findRndis_exact_phone :
    ∃ config ∈ [⟨1, []⟩, ⟨2, [⟨0, 0, 0xE0, 0x01, 0x03, [⟨0x82, .interrupt, 8⟩], [5, 0x24, 6, 0, 4]⟩,
      ⟨4, 0, 0x0A, 0, 0, [⟨0x81, .bulk, 512⟩, ⟨0x01, .bulk, 512⟩], []⟩]⟩], Offers config := by
  obtain ⟨r, hr, hsome, _⟩ := findRndis_exact
    [⟨1, []⟩, ⟨2, [⟨0, 0, 0xE0, 0x01, 0x03, [⟨0x82, .interrupt, 8⟩], [5, 0x24, 6, 0, 4]⟩,
      ⟨4, 0, 0x0A, 0, 0, [⟨0x81, .bulk, 512⟩, ⟨0x01, .bulk, 512⟩], []⟩]⟩] (by unfold Numbered; decide)
  apply hsome.mp
  have hrun : (findRndis
      [⟨1, []⟩, ⟨2, [⟨0, 0, 0xE0, 0x01, 0x03, [⟨0x82, .interrupt, 8⟩], [5, 0x24, 6, 0, 4]⟩,
        ⟨4, 0, 0x0A, 0, 0, [⟨0x81, .bulk, 512⟩, ⟨0x01, .bulk, 512⟩], []⟩]⟩] : Checked Empty _) =
      .ok (some ⟨2, 0, 4, 0, some 0x82, 0x81, 0x01, 512⟩) := by decide +kernel
  rw [hr] at hrun
  rw [Checked.ok.inj hrun]
  rfl

end Muta.Usb
