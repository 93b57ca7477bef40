import Muta.Base.Records
import Muta.Netstack.DhcpWire
import Mathlib.Data.List.GetD
import Mathlib.Data.List.Induction

/-!
# The grammar of a reply

Behind the cookie a reply holds pad bytes and options, up to its end or to an END
byte. A field of the parsed reply is read from the last option of its code that is
long enough. `parse` runs through the bytes once and assigns as it goes; here it is
shown to accept exactly this grammar and to read exactly these fields.
-/

namespace Muta.Netstack.Dhcp

open Records
set_option autoImplicit false

/-- One thing among the options. -/
inductive Item where
  | pad
  | opt (code : UInt8) (data : Bytes)
deriving DecidableEq, Repr

/-- `m` is a pad byte, or a code, a length and as many bytes of data. -/
def IsItem (m : Bytes) : Item → Prop
  | .pad => m = [optPad]
  | .opt code data => code ≠ optPad ∧ code ≠ optEnd ∧
      ∃ len : UInt8, len.toNat = data.length ∧ m = code :: len :: data

def Item.option? : Item → Option (UInt8 × Bytes)
  | .pad => none
  | .opt code data => some (code, data)

def optionsOf (items : List Item) : List (UInt8 × Bytes) := items.filterMap Item.option?

/-- Nothing is left, or an END byte and anything behind it. -/
def Ended (rest : Bytes) : Prop := rest = [] ∨ ∃ more, rest = optEnd :: more

/-- The data of the last option `code` with at least `least` bytes. -/
def lastOption (opts : List (UInt8 × Bytes)) (code : UInt8) (least : Nat) : Option Bytes :=
  (opts.reverse.find? fun o => decide (o.1 = code ∧ least ≤ o.2.length)).map Prod.snd

def byteOf (b : Bytes) : UInt8 := b.getD 0 0

def wordOf (b : Bytes) : UInt16 := u16be (b.getD 0 0) (b.getD 1 0)

def addressOf (b : Bytes) : Ipv4Addr := ⟨b.getD 0 0, b.getD 1 0, b.getD 2 0, b.getD 3 0⟩

def secondsOf (b : Bytes) : Duration :=
  ofSecs (u32be (b.getD 0 0) (b.getD 1 0) (b.getD 2 0) (b.getD 3 0)).toNat

/-- One address for every complete group of four bytes. -/
def addressesOf (b : Bytes) : List Ipv4Addr :=
  (List.range (b.length / 4)).map fun i => addressOf (b.drop (4 * i))

def macOf (b : Bytes) : MacAddr :=
  ⟨b.getD 0 0, b.getD 1 0, b.getD 2 0, b.getD 3 0, b.getD 4 0, b.getD 5 0⟩

def headerOf (buf : Bytes) : Parsed where
  xid := xidOf buf
  yiaddr := addressOf (buf.sub 16 20)
  siaddr := addressOf (buf.sub 20 24)
  chaddr := macOf (buf.sub 28 34)

def fieldsOf (buf : Bytes) (opts : List (UInt8 × Bytes)) : Parsed :=
  { headerOf buf with
    messageType := ((lastOption opts optMessageType 1).map byteOf).getD 0
    netmask := (lastOption opts optSubnetMask 4).map addressOf
    router := (lastOption opts optRouter 4).map addressOf
    dns := ((lastOption opts optDns 0).map addressesOf).getD []
    domain := (lastOption opts optDomainName 0).bind domainName
    mtu := (lastOption opts optInterfaceMtu 2).map wordOf
    serverId := (lastOption opts optServerId 4).map addressOf
    leaseTime := (lastOption opts optLeaseTime 4).map secondsOf
    renewalTime := (lastOption opts optRenewalTime 4).map secondsOf }

def Typed (opts : List (UInt8 × Bytes)) : Prop :=
  ∃ data, lastOption opts optMessageType 1 = some data ∧ byteOf data ≠ 0

/-- `buf` is a reply that carries `opts`. -/
structure IsReply (buf : Bytes) (opts : List (UInt8 × Bytes)) : Prop where
  length : bootpLen + 4 ≤ buf.length
  op : buf[0]? = some opReply
  cookie : buf.sub bootpLen (bootpLen + 4) = magicCookie
  options : ∃ ms items rest, Splits IsItem (buf.drop (bootpLen + 4)) ms items rest ∧ Ended rest ∧
    opts = optionsOf items
  typed : Typed opts

section Readers

variable {ε : Type} {b : Bytes}

theorem index_getD {i : Nat} (h : i < b.length) : (b.index i : Checked ε _) = .ok (b.getD i 0) := by
  rw [Bytes.index_ok h, List.getD_eq_getElem?_getD, List.getElem?_eq_getElem h, Option.getD_some]

theorem ipv4_eq (h : 4 ≤ b.length) : (ipv4 b : Checked ε _) = .ok (addressOf b) := by
  unfold ipv4
  simp (disch := omega) only [index_getD, Checked.ok_bind]
  rfl

theorem seconds_eq (h : 4 ≤ b.length) : (seconds b : Checked ε _) = .ok (secondsOf b) := by
  unfold seconds
  simp (disch := omega) only [index_getD, Checked.ok_bind]
  rfl

theorem ipv4s_eq (b : Bytes) : (ipv4s (chunksExact4 b) : Checked ε _) = .ok (addressesOf b) := by
  induction b using chunksExact4.induct with
  | case1 x y z w rest ih =>
    have hcount : (x :: y :: z :: w :: rest).length / 4 = rest.length / 4 + 1 := by
      simp only [List.length_cons]
      omega
    have hhead : (ipv4 [x, y, z, w] : Checked ε _) = .ok ⟨x, y, z, w⟩ := rfl
    have hgroups : addressesOf (x :: y :: z :: w :: rest) = ⟨x, y, z, w⟩ :: addressesOf rest := by
      rw [addressesOf, hcount, List.range_succ_eq_map, List.map_cons, List.map_map]
      rfl
    rw [chunksExact4, ipv4s, hhead, Checked.ok_bind, ih, Checked.ok_bind, hgroups]
    rfl
  | case2 b hne =>
    have hshort : b.length / 4 = 0 := by
      rcases b with _ | ⟨x, _ | ⟨y, _ | ⟨z, _ | ⟨w, rest⟩⟩⟩⟩
      case cons.cons.cons.cons => exact (hne x y z w rest rfl).elim
      all_goals simp
    rw [chunksExact4, addressesOf, hshort]
    · rfl
    · exact hne

theorem fromSlice_eq (h : 6 ≤ b.length) : MacAddr.fromSlice b = .ok (macOf b) := by
  obtain ⟨m, rest, rfl⟩ := MacAddr.exists_octets h
  rfl

end Readers

/-- What one option does to the fields read so far. -/
def assign (p : Parsed) (o : UInt8 × Bytes) : Parsed :=
  { p with
    messageType := if o.1 = optMessageType ∧ 1 ≤ o.2.length then byteOf o.2 else p.messageType
    netmask := if o.1 = optSubnetMask ∧ 4 ≤ o.2.length then some (addressOf o.2) else p.netmask
    router := if o.1 = optRouter ∧ 4 ≤ o.2.length then some (addressOf o.2) else p.router
    dns := if o.1 = optDns ∧ 0 ≤ o.2.length then addressesOf o.2 else p.dns
    domain := if o.1 = optDomainName ∧ 0 ≤ o.2.length then domainName o.2 else p.domain
    mtu := if o.1 = optInterfaceMtu ∧ 2 ≤ o.2.length then some (wordOf o.2) else p.mtu
    serverId := if o.1 = optServerId ∧ 4 ≤ o.2.length then some (addressOf o.2) else p.serverId
    leaseTime := if o.1 = optLeaseTime ∧ 4 ≤ o.2.length then some (secondsOf o.2) else p.leaseTime
    renewalTime := if o.1 = optRenewalTime ∧ 4 ≤ o.2.length then some (secondsOf o.2)
      else p.renewalTime }

theorem codes_eq : optMessageType = 53 ∧ optSubnetMask = 1 ∧ optRouter = 3 ∧ optServerId = 54 ∧
    optDns = 6 ∧ optDomainName = 15 ∧ optInterfaceMtu = 26 ∧ optLeaseTime = 51 ∧
    optRenewalTime = 58 := by decide

theorem setOption_eq {ε : Type} (p : Parsed) (code : UInt8) (data : Bytes) :
    (setOption p code data : Checked ε _) = .ok (assign p (code, data)) := by
  unfold setOption
  by_cases ht : code = optMessageType ∧ 1 ≤ data.length
  · obtain ⟨rfl, hlen⟩ := ht
    rw [if_pos ⟨rfl, hlen⟩, index_getD hlen]
    simp [assign, codes_eq, hlen, byteOf]
  rw [if_neg ht]
  by_cases hm : code = optSubnetMask ∧ 4 ≤ data.length
  · obtain ⟨rfl, hlen⟩ := hm
    rw [if_pos ⟨rfl, hlen⟩, ipv4_eq hlen]
    simp [assign, codes_eq, hlen]
  rw [if_neg hm]
  by_cases hr : code = optRouter ∧ 4 ≤ data.length
  · obtain ⟨rfl, hlen⟩ := hr
    rw [if_pos ⟨rfl, hlen⟩, ipv4_eq hlen]
    simp [assign, codes_eq, hlen]
  rw [if_neg hr]
  by_cases hs : code = optServerId ∧ 4 ≤ data.length
  · obtain ⟨rfl, hlen⟩ := hs
    rw [if_pos ⟨rfl, hlen⟩, ipv4_eq hlen]
    simp [assign, codes_eq, hlen]
  rw [if_neg hs]
  by_cases hd : code = optDns
  · subst hd
    rw [if_pos rfl, ipv4s_eq]
    simp [assign, codes_eq]
  rw [if_neg hd]
  by_cases hn : code = optDomainName
  · subst hn
    rw [if_pos rfl]
    simp [assign, codes_eq]
  rw [if_neg hn]
  by_cases hu : code = optInterfaceMtu ∧ 2 ≤ data.length
  · obtain ⟨rfl, hlen⟩ := hu
    rw [if_pos ⟨rfl, hlen⟩, index_getD (show 0 < data.length by omega),
      index_getD (show 1 < data.length by omega)]
    simp [assign, codes_eq, hlen, wordOf]
  rw [if_neg hu]
  by_cases hl : code = optLeaseTime ∧ 4 ≤ data.length
  · obtain ⟨rfl, hlen⟩ := hl
    rw [if_pos ⟨rfl, hlen⟩, seconds_eq hlen]
    simp [assign, codes_eq, hlen]
  rw [if_neg hl]
  by_cases hw : code = optRenewalTime ∧ 4 ≤ data.length
  · obtain ⟨rfl, hlen⟩ := hw
    rw [if_pos ⟨rfl, hlen⟩, seconds_eq hlen]
    simp [assign, codes_eq, hlen]
  rw [if_neg hw]
  simp [assign, ht, hm, hr, hs, hd, hn, hu, hl, hw]

theorem lastOption_concat (opts : List (UInt8 × Bytes)) (o : UInt8 × Bytes) (code : UInt8)
    (least : Nat) :
    lastOption (opts ++ [o]) code least =
      if o.1 = code ∧ least ≤ o.2.length then some o.2 else lastOption opts code least := by
  unfold lastOption
  rw [List.reverse_append, List.reverse_singleton, List.singleton_append, List.find?_cons]
  by_cases h : o.1 = code ∧ least ≤ o.2.length
  · simp [h]
  · simp only [h, decide_false, if_false]

theorem fieldsOf_concat (buf : Bytes) (opts : List (UInt8 × Bytes)) (o : UInt8 × Bytes) :
    fieldsOf buf (opts ++ [o]) = assign (fieldsOf buf opts) o := by
  have hgetD {α : Type} (c : Prop) [Decidable c] (x y : Option α) (d : α) :
      (if c then x else y).getD d = if c then x.getD d else y.getD d := apply_ite (·.getD d) c x y
  have hbind {α β : Type} (c : Prop) [Decidable c] (x y : Option α) (f : α → Option β) :
      (if c then x else y).bind f = if c then x.bind f else y.bind f := apply_ite (·.bind f) c x y
  unfold fieldsOf assign
  simp only [lastOption_concat, apply_ite (Option.map _), hgetD, hbind, Option.map_some,
    Option.getD_some, Option.bind_some]

theorem foldl_assign (buf : Bytes) (opts : List (UInt8 × Bytes)) :
    opts.foldl assign (headerOf buf) = fieldsOf buf opts := by
  induction opts using List.reverseRecOn with
  | nil => rfl
  | append_singleton opts o ih => rw [List.foldl_concat, ih, fieldsOf_concat]

theorem typed_iff (buf : Bytes) (opts : List (UInt8 × Bytes)) :
    Typed opts ↔ (fieldsOf buf opts).messageType ≠ 0 := by
  unfold Typed fieldsOf
  dsimp only
  cases lastOption opts optMessageType 1 with
  | none => simp
  | some data => simp

theorem optionsOf_pad (items : List Item) : optionsOf (.pad :: items) = optionsOf items := rfl

theorem optionsOf_opt (code : UInt8) (data : Bytes) (items : List Item) :
    optionsOf (.opt code data :: items) = (code, data) :: optionsOf items := rfl

theorem parseOptions_pad (n : Nat) (rest : Bytes) (p : Parsed) :
    parseOptions (n + 1) (optPad :: rest) p = parseOptions n rest p := if_pos rfl

theorem parseOptions_end (n : Nat) (rest : Bytes) (p : Parsed) :
    parseOptions (n + 1) (optEnd :: rest) p = .ok p := by
  rw [parseOptions.eq_def]
  exact (if_neg (by decide)).trans (if_pos rfl)

theorem parseOptions_opt {code len : UInt8} {data : Bytes} (hpad : code ≠ optPad)
    (hend : code ≠ optEnd) (hlen : len.toNat = data.length) (n : Nat) (rest : Bytes) (p : Parsed) :
    parseOptions (n + 1) (code :: len :: (data ++ rest)) p =
      parseOptions n rest (assign p (code, data)) := by
  have hle : data.length ≤ (data ++ rest).length := by
    rw [List.length_append]
    omega
  have hrange : Bytes.range? (data ++ rest) 0 data.length = some data := by
    rw [Bytes.range?_eq (Nat.zero_le _) hle]
    simp [Bytes.sub]
  rw [parseOptions, if_neg hpad, if_neg hend, hlen]
  simp only [hrange, Bytes.slice_ok hle (Nat.le_refl _), Checked.ok_bind, setOption_eq,
    Bytes.sub_length, List.drop_left]

/-- What the loop accepts is of the grammar, and every option in it is assigned in turn. -/
theorem splits_of_parseOptions {n : Nat} {buf : Bytes} {p q : Parsed} (hn : buf.length ≤ n)
    (h : parseOptions n buf p = .ok q) :
    ∃ ms items rest, Splits IsItem buf ms items rest ∧ Ended rest ∧
      q = (optionsOf items).foldl assign p := by
  induction n generalizing buf p with
  | zero =>
    obtain rfl : buf = [] := List.eq_nil_of_length_eq_zero (by omega)
    cases h
    exact ⟨[], [], [], Splits.nil _, Or.inl rfl, rfl⟩
  | succ n ih =>
    cases buf with
    | nil =>
      cases h
      exact ⟨[], [], [], Splits.nil _, Or.inl rfl, rfl⟩
    | cons code tail =>
      rw [List.length_cons] at hn
      by_cases hpad : code = optPad
      · subst hpad
        rw [parseOptions_pad] at h
        obtain ⟨ms, items, rest, hs, hrest, hq⟩ := ih (by omega) h
        exact ⟨[optPad] :: ms, .pad :: items, rest, hs.cons (show IsItem [optPad] .pad from rfl),
          hrest, hq⟩
      by_cases hend : code = optEnd
      · subst hend
        rw [parseOptions_end] at h
        cases h
        exact ⟨[], [], optEnd :: tail, Splits.nil _, Or.inr ⟨tail, rfl⟩, rfl⟩
      cases tail with
      | nil =>
        rw [parseOptions, if_neg hpad, if_neg hend] at h
        cases h
      | cons len tail =>
        by_cases hlen : len.toNat ≤ tail.length
        · have htake : len.toNat = (tail.take len.toNat).length := by
            rw [List.length_take]
            omega
          have hitem : IsItem (code :: len :: tail.take len.toNat)
              (.opt code (tail.take len.toNat)) := ⟨hpad, hend, len, htake, rfl⟩
          rw [← List.take_append_drop len.toNat tail, parseOptions_opt hpad hend htake] at h
          rw [List.length_cons] at hn
          have hdrop : (tail.drop len.toNat).length ≤ n := by
            rw [List.length_drop]
            omega
          obtain ⟨ms, items, rest, hs, hrest, hq⟩ := ih hdrop h
          have hcons := hs.cons hitem
          rw [List.cons_append, List.cons_append, List.take_append_drop] at hcons
          exact ⟨_, _, rest, hcons, hrest, hq⟩
        · have hrange : Bytes.range? tail 0 len.toNat = none := if_neg (by omega)
          rw [parseOptions, if_neg hpad, if_neg hend] at h
          simp only [hrange] at h
          cases h

theorem parseOptions_of_splits {n : Nat} {buf rest : Bytes} {ms : List Bytes} {items : List Item}
    (hs : Splits IsItem buf ms items rest) (hrest : Ended rest) (hn : buf.length ≤ n) (p : Parsed) :
    parseOptions n buf p = .ok ((optionsOf items).foldl assign p) := by
  obtain ⟨hitems, hw⟩ := hs
  subst hw
  induction hitems generalizing n p with
  | nil =>
    rw [List.flatten_nil, List.nil_append] at hn ⊢
    rcases hrest with rfl | ⟨more, rfl⟩
    · cases n with
      | zero => rfl
      | succ n => rfl
    · rw [List.length_cons] at hn
      obtain ⟨n, rfl⟩ : ∃ k, n = k + 1 := ⟨n - 1, by omega⟩
      exact parseOptions_end n more p
  | @cons m item ms items hm _ ih =>
    rw [List.flatten_cons, List.append_assoc] at hn ⊢
    cases item with
    | pad =>
      obtain rfl : m = [optPad] := hm
      rw [List.length_append, List.length_singleton] at hn
      obtain ⟨n, rfl⟩ : ∃ k, n = k + 1 := ⟨n - 1, by omega⟩
      rw [List.singleton_append, parseOptions_pad, optionsOf_pad]
      apply ih
      omega
    | opt code data =>
      obtain ⟨hpad, hend, len, hlen, rfl⟩ := hm
      simp only [List.length_append, List.length_cons] at hn
      obtain ⟨n, rfl⟩ : ∃ k, n = k + 1 := ⟨n - 1, by omega⟩
      rw [List.cons_append, List.cons_append, parseOptions_opt hpad hend hlen, optionsOf_opt,
        List.foldl_cons]
      apply ih
      rw [List.length_append]
      omega

theorem parse_short {buf : Bytes} (h : buf.length < bootpLen + 4) : parse buf = .err .truncated :=
  Checked.rejectIf_bind h _ _

theorem parse_eq {buf : Bytes} (hlen : bootpLen + 4 ≤ buf.length) (hop : buf[0]? = some opReply)
    (hcookie : buf.sub bootpLen (bootpLen + 4) = magicCookie) :
    parse buf = (do
      let p ← parseOptions (buf.length - (bootpLen + 4)) (buf.drop (bootpLen + 4)) (headerOf buf)
      Checked.rejectIf (p.messageType = 0) (.malformed "no DHCP message type")
      return p) := by
  have hb : bootpLen = 236 := rfl
  have hindex : (buf.index 0 : Checked Error _) = .ok opReply := by
    rw [Bytes.index, hop]
  have hsub : ∀ i j, j ≤ 240 → j - i ≤ (buf.sub i j).length := by
    intro i j hj
    exact Nat.le_of_eq (Bytes.length_sub i (by omega)).symm
  have hyiaddr := ipv4_eq (ε := Error) (hsub 16 20 (by omega))
  have hsiaddr := ipv4_eq (ε := Error) (hsub 20 24 (by omega))
  have hchaddr := fromSlice_eq (hsub 28 34 (by omega))
  unfold parse
  rw [Checked.rejectIf_not_bind (Nat.not_lt.mpr hlen), hindex, Checked.ok_bind,
    Checked.rejectIf_not_bind (not_not_intro rfl), Bytes.slice_ok (Nat.le_add_right _ _) hlen,
    Checked.ok_bind, hcookie, Checked.rejectIf_not_bind (not_not_intro rfl)]
  simp (disch := omega) only [index_getD, Bytes.slice_ok, Checked.ok_bind, hyiaddr, hsiaddr, hchaddr,
    Bytes.sub_length, List.length_drop, headerOf, xidOf]

theorem parse_fixed {buf : Bytes} {p : Parsed} (h : parse buf = .ok p) :
    bootpLen + 4 ≤ buf.length ∧ buf[0]? = some opReply ∧
      buf.sub bootpLen (bootpLen + 4) = magicCookie := by
  by_cases hshort : buf.length < bootpLen + 4
  · rw [parse_short hshort] at h
    cases h
  have hlen := Nat.le_of_not_lt hshort
  have hpos : 0 < buf.length := Nat.lt_of_lt_of_le (by decide) hlen
  unfold parse at h
  rw [Checked.rejectIf_not_bind hshort, Bytes.index_ok hpos, Checked.ok_bind] at h
  by_cases hop : buf[0] = opReply
  · rw [Checked.rejectIf_not_bind (not_not_intro hop),
      Bytes.slice_ok (Nat.le_add_right _ _) hlen, Checked.ok_bind] at h
    by_cases hcookie : buf.sub bootpLen (bootpLen + 4) = magicCookie
    · exact ⟨hlen, by rw [List.getElem?_eq_getElem hpos, hop], hcookie⟩
    · rw [Checked.rejectIf_bind hcookie] at h
      cases h
  · rw [Checked.rejectIf_bind hop] at h
    cases h

theorem parse_of_reply {buf : Bytes} {opts : List (UInt8 × Bytes)} (h : IsReply buf opts) :
    parse buf = .ok (fieldsOf buf opts) := by
  obtain ⟨ms, items, rest, hs, hrest, rfl⟩ := h.options
  have htype := (typed_iff buf _).mp h.typed
  rw [parse_eq h.length h.op h.cookie,
    parseOptions_of_splits hs hrest (Nat.le_of_eq List.length_drop), Checked.ok_bind, foldl_assign,
    Checked.rejectIf_not_bind htype]
  rfl

theorem reply_of_parse {buf : Bytes} {p : Parsed} (h : parse buf = .ok p) :
    ∃ opts, IsReply buf opts ∧ p = fieldsOf buf opts := by
  obtain ⟨hlen, hop, hcookie⟩ := parse_fixed h
  rw [parse_eq hlen hop hcookie] at h
  cases hq : parseOptions (buf.length - (bootpLen + 4)) (buf.drop (bootpLen + 4)) (headerOf buf) with
  | err e =>
    rw [hq] at h
    cases h
  | fault f =>
    rw [hq] at h
    cases h
  | ok q =>
    obtain ⟨ms, items, rest, hs, hrest, hfold⟩ :=
      splits_of_parseOptions (Nat.le_of_eq List.length_drop) hq
    rw [foldl_assign] at hfold
    rw [hq, Checked.ok_bind] at h
    by_cases htype : q.messageType = 0
    · rw [Checked.rejectIf_bind htype] at h
      cases h
    · rw [Checked.rejectIf_not_bind htype] at h
      cases h
      subst hfold
      exact ⟨optionsOf items, ⟨hlen, hop, hcookie, ⟨ms, items, rest, hs, hrest, rfl⟩,
        (typed_iff buf _).mpr htype⟩, rfl⟩

def push (m : Bytes) : Item → Bytes
  | .pad => m ++ [optPad]
  | .opt code data => pushOption m code data

def Item.Writable : Item → Prop
  | .pad => True
  | .opt code data => code ≠ optPad ∧ code ≠ optEnd ∧ data.length ≤ 255

theorem splits_push {items : List Item} (h : ∀ item ∈ items, item.Writable) (fixed rest : Bytes) :
    ∃ more ms, items.foldl push fixed = fixed ++ more ∧ Splits IsItem (more ++ rest) ms items rest := by
  induction items generalizing fixed with
  | nil => exact ⟨[], [], (List.append_nil _).symm, Splits.nil _⟩
  | cons item items ih =>
    have hitem := h item List.mem_cons_self
    have hrest : ∀ item ∈ items, item.Writable := fun it hit => h it (List.mem_cons_of_mem _ hit)
    obtain ⟨more, ms, heq, hs⟩ := ih hrest (push fixed item)
    cases item with
    | pad =>
      refine ⟨[optPad] ++ more, [optPad] :: ms, ?_, ?_⟩
      · rw [List.foldl_cons, heq, push, List.append_assoc]
      · rw [List.append_assoc]
        exact hs.cons (show IsItem [optPad] .pad from rfl)
    | opt code data =>
      obtain ⟨hpad, hend, hlen⟩ := hitem
      refine ⟨option code data ++ more, option code data :: ms, ?_, ?_⟩
      · rw [List.foldl_cons, heq, push, pushOption_eq, List.append_assoc]
      · rw [List.append_assoc]
        exact hs.cons (show IsItem (option code data) (.opt code data) from
          ⟨hpad, hend, UInt8.ofNat data.length, UInt8.toNat_ofNat_of_lt' (Nat.lt_succ_of_le hlen), rfl⟩)

theorem headerOf_append {fixed : Bytes} (h : fixed.length = bootpLen + 4) (more : Bytes) :
    headerOf (fixed ++ more) = headerOf fixed := by
  have hb : bootpLen = 236 := rfl
  have hget : ∀ i, i < 240 → (fixed ++ more).getD i 0 = fixed.getD i 0 := fun i hi =>
    List.getD_append _ _ _ _ (by omega)
  unfold headerOf xidOf
  rw [hget 4 (by omega), hget 5 (by omega), hget 6 (by omega), hget 7 (by omega),
    Bytes.sub_append_left (by omega), Bytes.sub_append_left (by omega),
    Bytes.sub_append_left (by omega)]

/-- `parse` accepts exactly the replies of the grammar and reads every field from the
last option that gives it; options written one behind the other, with pads among them,
are read back. -/
theorem parse_exact :
    (∀ (buf : Bytes) (p : Parsed),
      parse buf = .ok p ↔ ∃ opts, IsReply buf opts ∧ p = fieldsOf buf opts) ∧
    (∀ (fixed : Bytes) (items : List Item) (rest : Bytes), fixed.length = bootpLen + 4 →
      fixed[0]? = some opReply → fixed.sub bootpLen (bootpLen + 4) = magicCookie →
      (∀ item ∈ items, item.Writable) → Ended rest → Typed (optionsOf items) →
      parse (items.foldl push fixed ++ rest) = .ok (fieldsOf fixed (optionsOf items))) := by
  constructor
  · intro buf p
    constructor
    · exact reply_of_parse
    · intro h
      obtain ⟨opts, hreply, rfl⟩ := h
      exact parse_of_reply hreply
  · intro fixed items rest hlen hop hcookie hitems hrest htyped
    obtain ⟨more, ms, heq, hs⟩ := splits_push hitems fixed rest
    have hreply : IsReply (fixed ++ (more ++ rest)) (optionsOf items) := by
      refine ⟨?_, ?_, ?_, ⟨ms, items, rest, ?_, hrest, rfl⟩, htyped⟩
      · rw [List.length_append]
        omega
      · rw [List.getElem?_append_left (by rw [hlen]; decide), hop]
      · rw [Bytes.sub_append_left (Nat.le_of_eq hlen.symm), hcookie]
      · rw [← hlen, List.drop_left]
        exact hs
    rw [heq, List.append_assoc, parse_of_reply hreply, fieldsOf, headerOf_append hlen]
    rfl

end Muta.Netstack.Dhcp
