import Muta.Base.Text
import Muta.Netstack.Ethernet
import Muta.Usb.Descriptor

/-!
# Status over a socket

One line of tab-separated `key=value` pairs, written by the daemon and read by the client.
A tab in the device's name is replaced before it is sent; a newline is not, and a name
with a newline in it is exactly what the client cannot read back.
-/

namespace Muta

open Netstack
set_option autoImplicit false

structure Status where
  device : Option Text := none
  linkUp : Bool := false
  interface : Option Text := none
  address : Option Ipv4Addr := none
  gateway : Option Ipv4Addr := none
  dns : List Ipv4Addr := []
  packetsIn : UInt64 := 0
  packetsOut : UInt64 := 0
deriving DecidableEq, Repr

namespace Status

section Values

variable (s : Status)

def stateText : Text := if s.linkUp then "connected".toList else "waiting".toList

def deviceText : Text := (s.device.getD ['-']).map fun c => if c = '\t' then ' ' else c

def interfaceText : Text := s.interface.getD ['-']

def addressText (ip : Option Ipv4Addr) : Text :=
  match ip with
  | some ip => ip.text
  | none => ['-']

def dnsText : Text :=
  let dns := [','].intercalate (s.dns.map Ipv4Addr.text)
  if dns.isEmpty then ['-'] else dns

def encode : Text :=
  "state=".toList ++ s.stateText ++ "\tdevice=".toList ++ s.deviceText ++
    "\tinterface=".toList ++ s.interfaceText ++ "\taddress=".toList ++ addressText s.address ++
    "\tgateway=".toList ++ addressText s.gateway ++ "\tdns=".toList ++ s.dnsText ++
    "\tin=".toList ++ Text.decimal s.packetsIn.toNat ++ "\tout=".toList ++ Text.decimal s.packetsOut.toNat ++
    "\n".toList

end Values

/-- What is printed for a field of the reply. -/
inductive Field where
  | pair (key value : Text)
  | bare (text : Text)
deriving DecidableEq, Repr

def query (written : Text) : Text := Text.readLine written

def printField (field : Text) : Field :=
  match Text.splitOnce '=' field with
  | some (key, value) => .pair key value
  | none => .bare field

def printStatus (written : Text) : List Field :=
  ((Text.trimEnd (query written)).splitOn '\t').map printField

/-- No character of `t` separates fields or lines. -/
def Plain (t : Text) : Prop := '\t' ∉ t ∧ '\n' ∉ t

instance (t : Text) : Decidable (Plain t) := inferInstanceAs (Decidable (_ ∧ _))

theorem plain_append {s t : Text} (hs : Plain s) (ht : Plain t) : Plain (s ++ t) := by
  simp only [Plain, List.mem_append, not_or]
  exact ⟨⟨hs.1, ht.1⟩, hs.2, ht.2⟩

theorem plain_decimal (n : Nat) : Plain (Text.decimal n) := by
  constructor
  · intro h
    exact absurd (Text.isDigit_of_mem_decimal h) (by decide)
  · intro h
    exact absurd (Text.isDigit_of_mem_decimal h) (by decide)

theorem plain_text (ip : Ipv4Addr) : Plain ip.text := by
  have hdot : Plain ['.'] := by decide
  have hparts := fun n : Nat => plain_decimal n
  exact plain_append (plain_append (plain_append (plain_append (plain_append (plain_append
    (hparts _) hdot) (hparts _)) hdot) (hparts _)) hdot) (hparts _)

theorem plain_addressText (ip : Option Ipv4Addr) : Plain (addressText ip) := by
  cases ip with
  | none => decide
  | some ip => exact plain_text ip

theorem plain_dnsText (s : Status) : Plain s.dnsText := by
  have hall : ∀ t ∈ s.dns.map Ipv4Addr.text, Plain t := by
    intro t ht
    obtain ⟨ip, _, rfl⟩ := List.mem_map.mp ht
    exact plain_text ip
  unfold dnsText
  dsimp only
  split
  · decide
  · exact ⟨Text.not_mem_intercalate (by decide) fun t ht => (hall t ht).1,
      Text.not_mem_intercalate (by decide) fun t ht => (hall t ht).2⟩

section RoundTrip

variable (s : Status)

def fields : List (Text × Text) :=
  [("state".toList, s.stateText), ("device".toList, s.deviceText),
    ("interface".toList, s.interfaceText), ("address".toList, addressText s.address),
    ("gateway".toList, addressText s.gateway), ("dns".toList, s.dnsText),
    ("in".toList, Text.decimal s.packetsIn.toNat), ("out".toList, Text.decimal s.packetsOut.toNat)]

def written (field : Text × Text) : Text := field.1 ++ '=' :: field.2

theorem line_eq (k₁ v₁ k₂ v₂ k₃ v₃ k₄ v₄ k₅ v₅ k₆ v₆ k₇ v₇ k₈ v₈ : Text) :
    (k₁ ++ ['=']) ++ v₁ ++ ('\t' :: k₂ ++ ['=']) ++ v₂ ++ ('\t' :: k₃ ++ ['=']) ++ v₃ ++
      ('\t' :: k₄ ++ ['=']) ++ v₄ ++ ('\t' :: k₅ ++ ['=']) ++ v₅ ++ ('\t' :: k₆ ++ ['=']) ++ v₆ ++
      ('\t' :: k₇ ++ ['=']) ++ v₇ ++ ('\t' :: k₈ ++ ['=']) ++ v₈ ++ ['\n'] =
    ['\t'].intercalate ([(k₁, v₁), (k₂, v₂), (k₃, v₃), (k₄, v₄), (k₅, v₅), (k₆, v₆), (k₇, v₇),
      (k₈, v₈)].map written) ++ ['\n'] := by
  simp only [List.map_cons, List.map_nil, List.intercalate_cons_cons, List.intercalate_singleton,
    written, List.append_assoc, List.cons_append, List.nil_append]

theorem encode_eq : s.encode = ['\t'].intercalate (s.fields.map written) ++ ['\n'] :=
  line_eq "state".toList s.stateText "device".toList s.deviceText "interface".toList s.interfaceText
    "address".toList (addressText s.address) "gateway".toList (addressText s.gateway) "dns".toList
    s.dnsText "in".toList (Text.decimal s.packetsIn.toNat) "out".toList (Text.decimal s.packetsOut.toNat)

theorem printField_written {key : Text} (h : '=' ∉ key) (value : Text) :
    printField (written (key, value)) = .pair key value := by
  rw [printField, written, Text.splitOnce_append h]

theorem not_tab_mem_deviceText : '\t' ∉ s.deviceText := by
  intro hmem
  obtain ⟨c, _, hc⟩ := List.mem_map.mp hmem
  by_cases htab : c = '\t'
  · simp [htab] at hc
  · simp [htab] at hc

theorem plain_deviceText (h : ∀ name, s.device = some name → '\n' ∉ name) : Plain s.deviceText := by
  have hname : '\n' ∉ s.device.getD ['-'] := by
    cases hd : s.device with
    | none => decide
    | some name => exact h name hd
  refine ⟨s.not_tab_mem_deviceText, ?_⟩
  intro hmem
  obtain ⟨c, hc, heq⟩ := List.mem_map.mp hmem
  by_cases htab : c = '\t'
  · simp [htab] at heq
  · rw [if_neg htab] at heq
    exact hname (heq ▸ hc)

theorem trimEnd_line :
    Text.trimEnd (['\t'].intercalate (s.fields.map written) ++ ['\n']) =
      ['\t'].intercalate (s.fields.map written) := by
  obtain ⟨front, hfront⟩ := Text.exists_intercalate_concat ['\t'] (s.fields.map written).dropLast
    (written ("out".toList, Text.decimal s.packetsOut.toNat))
  obtain ⟨digits, last, hdigits⟩ := (List.eq_nil_or_concat (Text.decimal s.packetsOut.toNat)).resolve_left
    Nat.toDigits_ne_nil
  rw [List.concat_eq_append] at hdigits
  have hlast : Text.isWhitespace last = false :=
    Text.not_isWhitespace_of_isDigit (Text.isDigit_of_mem_decimal (n := s.packetsOut.toNat) (by simp [hdigits]))
  have hline : ['\t'].intercalate (s.fields.map written) =
      (front ++ "out".toList ++ '=' :: digits) ++ [last] := by
    rw [show s.fields.map written = (s.fields.map written).dropLast ++
      [written ("out".toList, Text.decimal s.packetsOut.toNat)] from rfl, hfront, written, hdigits]
    simp only [List.append_assoc, List.cons_append]
  rw [hline, List.append_assoc, List.singleton_append, Text.trimEnd_append hlast]
  rfl

theorem fields_keys : ∀ f ∈ s.fields, Plain f.1 ∧ '=' ∉ f.1 := by
  simp only [fields, List.forall_mem_cons]
  decide

theorem plain_written {f : Text × Text} (hf : f ∈ s.fields) {value : Text} (hvalue : Plain value) :
    Plain (written (f.1, value)) := by
  have hmark : Plain ['='] := by decide
  exact plain_append (s.fields_keys f hf).1 (plain_append hmark hvalue)

theorem printStatus_plain (h : ∀ f ∈ s.fields, Plain f.2) :
    printStatus s.encode = s.fields.map fun f => .pair f.1 f.2 := by
  have hplain : ∀ t ∈ s.fields.map written, Plain t := by
    intro t ht
    obtain ⟨f, hf, rfl⟩ := List.mem_map.mp ht
    exact s.plain_written hf (h f hf)
  have hline : '\n' ∉ ['\t'].intercalate (s.fields.map written) :=
    Text.not_mem_intercalate (by decide) fun t ht => (hplain t ht).2
  rw [printStatus, query, encode_eq, Text.readLine_append hline, trimEnd_line,
    List.splitOn_intercalate '\t' (fun t ht => (hplain t ht).1) (by simp [fields]), List.map_map]
  refine List.map_congr_left ?_
  intro f hf
  exact printField_written (s.fields_keys f hf).2 f.2

theorem plain_stateText : Plain s.stateText := by
  unfold stateText
  split
  · decide
  · decide

theorem plain_interfaceText (h : ∀ name, s.interface = some name → Plain name) :
    Plain s.interfaceText := by
  unfold interfaceText
  cases hi : s.interface with
  | none => decide
  | some name => exact h name hi

theorem plain_values (hinterface : ∀ name, s.interface = some name → Plain name)
    (hdevice : ∀ name, s.device = some name → '\n' ∉ name) : ∀ f ∈ s.fields, Plain f.2 := by
  simp only [fields, List.forall_mem_cons]
  refine ⟨?_, ?_, ?_, ?_, ?_, ?_, ?_, ?_, by simp⟩
  · exact s.plain_stateText
  · exact s.plain_deviceText hdevice
  · exact s.plain_interfaceText hinterface
  · exact plain_addressText s.address
  · exact plain_addressText s.gateway
  · exact s.plain_dnsText
  · exact plain_decimal _
  · exact plain_decimal _

theorem newline_mem_deviceText {name : Text} (hname : s.device = some name) (h : '\n' ∈ name) :
    '\n' ∈ s.deviceText := by
  rw [deviceText, hname]
  exact List.mem_map.mpr ⟨'\n', h, by decide⟩

theorem exists_encode_eq {before after : Text} (h : s.deviceText = before ++ '\n' :: after) :
    ∃ rest, s.encode = (written ("state".toList, s.stateText) ++ '\t' ::
      written ("device".toList, before)) ++ '\n' :: rest := by
  have hfields : s.fields = ("state".toList, s.stateText) :: ("device".toList, s.deviceText) ::
      ("interface".toList, s.interfaceText) :: s.fields.drop 3 := rfl
  have hwritten : written ("device".toList, s.deviceText) =
      written ("device".toList, before) ++ '\n' :: after := by
    rw [h, written, written]
    simp only [List.append_assoc, List.cons_append]
  rw [encode_eq, hfields, List.map_cons, List.map_cons, List.map_cons, List.intercalate_cons_cons,
    List.intercalate_cons_cons, hwritten]
  simp only [List.append_assoc, List.cons_append, List.nil_append]
  exact ⟨_, rfl⟩

theorem printStatus_newline {before after : Text} (h : s.deviceText = before ++ '\n' :: after)
    (hbefore : '\n' ∉ before) :
    printStatus s.encode = [.pair "state".toList s.stateText,
      .pair "device".toList (Text.trimEnd (before ++ ['\n']))] := by
  obtain ⟨rest, hrest⟩ := s.exists_encode_eq h
  have hfirst : ("state".toList, s.stateText) ∈ s.fields := List.mem_cons_self
  have hsecond : ("device".toList, s.deviceText) ∈ s.fields :=
    List.mem_cons_of_mem _ List.mem_cons_self
  have hstate : Plain (written ("state".toList, s.stateText)) :=
    s.plain_written hfirst s.plain_stateText
  have htab : '\t' ∉ before := by
    intro hmem
    exact s.not_tab_mem_deviceText (h ▸ List.mem_append_left _ hmem)
  have hdevice : Plain (written ("device".toList, before)) :=
    s.plain_written hsecond ⟨htab, hbefore⟩
  have hline : '\n' ∉ written ("state".toList, s.stateText) ++ '\t' ::
      written ("device".toList, before) := by
    rw [List.mem_append, List.mem_cons, not_or, not_or]
    exact ⟨hstate.2, by decide, hdevice.2⟩
  have hsplit : (written ("state".toList, s.stateText) ++ '\t' ::
      written ("device".toList, before)) ++ ['\n'] =
      (written ("state".toList, s.stateText) ++ '\t' :: "device".toList) ++ '=' ::
        (before ++ ['\n']) := by
    simp only [written, List.append_assoc, List.cons_append]
  have htrimmed : '\t' ∉ "device".toList ++ '=' :: Text.trimEnd (before ++ ['\n']) := by
    rw [List.mem_append, List.mem_cons, not_or, not_or]
    refine ⟨by decide, by decide, ?_⟩
    intro hmem
    rcases List.mem_append.mp (Text.mem_of_mem_trimEnd hmem) with hmem | hmem
    · exact htab hmem
    · exact absurd hmem (by decide)
  rw [printStatus, query, hrest, Text.readLine_append hline, hsplit,
    Text.trimEnd_append (by decide), List.append_assoc, List.cons_append,
    List.splitOn_append_cons_self_of_not_mem hstate.1, List.splitOn_eq_singleton htrimmed]
  rw [List.map_cons, List.map_singleton, printField_written (by decide)]
  exact congrArg (fun f => [Field.pair _ _, f])
    (@printField_written "device".toList (by decide) _)

/-- The eight pairs come back exactly when the device's name is a single line. -/
theorem printStatus_encode_iff (hinterface : ∀ name, s.interface = some name → Plain name) :
    printStatus s.encode = s.fields.map (fun f => .pair f.1 f.2) ↔
      ∀ name, s.device = some name → '\n' ∉ name := by
  constructor
  · intro heq name hname hmem
    obtain ⟨before, after, hsplit, hbefore⟩ :=
      List.eq_append_cons_of_mem (s.newline_mem_deviceText hname hmem)
    rw [s.printStatus_newline hsplit hbefore] at heq
    have hlength := congrArg List.length heq
    simp [fields] at hlength
  · intro hdevice
    exact s.printStatus_plain (s.plain_values hinterface hdevice)

end RoundTrip

/-- With a tab in the device's name, and two name servers. -/
def tethered : Status where
  device := some "Xiaomi\tRedmi Note 10S".toList
  linkUp := true
  interface := some "utun4".toList
  address := some ⟨192, 168, 42, 130⟩
  gateway := some ⟨192, 168, 42, 129⟩
  dns := [⟨192, 168, 42, 129⟩, ⟨1, 1, 1, 1⟩]
  packetsIn := 7
  packetsOut := 5

theorem printStatus_encode_tethered :
    printStatus tethered.encode = tethered.fields.map (fun f => .pair f.1 f.2) := by
  refine (printStatus_encode_iff tethered ?_).mpr ?_
  · intro name hname
    cases hname
    decide
  · intro name hname
    cases hname
    decide

/-- The name of a phone, from a string descriptor that ends in a newline. -/
def newlineLabel : Text :=
  Usb.DeviceInfo.label {
    vendorId := 0x2717
    productId := 0xff80
    manufacturer := some "Xiaomi".toList
    product := some "Redmi Note 10S\n".toList }

theorem newline_label_truncates :
    let s : Status := { device := some newlineLabel }
    (∀ name, s.interface = some name → Plain name) ∧
      printStatus s.encode =
        [.pair "state".toList "waiting".toList, .pair "device".toList "Xiaomi Redmi Note 10S".toList] ∧
      printStatus s.encode ≠ s.fields.map (fun f => .pair f.1 f.2) := by
  refine ⟨?_, by decide +kernel, by decide +kernel⟩
  intro name h
  cases h

end Status

end Muta
