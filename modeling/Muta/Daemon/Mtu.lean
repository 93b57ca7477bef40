import Muta.Daemon.Reader
import Muta.Link.TxDelivery
import Muta.Rndis.BringUp

/-!
# The MTU and the device's limit

The tunnel's MTU is the server's, or else the default, and the limit on a transfer is the
device's. Nothing compares the two. They meet in the TX thread, which drops a frame that
is over the limit even in a transfer of its own; so the packets the kernel may send all
get through exactly if the longest of them does, with its headers and padding.
-/

namespace Muta.Daemon

open Act Netstack Dhcp Tun Link Usb Wire
set_option autoImplicit false

/-- `MacAddr(device.session.host_mac)`. -/
def hostMac (session : Rndis.Session) : MacAddr :=
  let octets := session.hostMac.val
  have h := session.hostMac.property
  ⟨octets[0], octets[1], octets[2], octets[3], octets[4], octets[5]⟩

/-- The limits the link is started with. -/
def txLimits (session : Rndis.Session) : TxLimits where
  maxTransferSize := session.deviceMaxTransferSize.toNat
  maxPackets := session.maxPacketsPerTransfer.toNat
  alignment := session.packetAlignment.toNat

/-- In some state of the link, the reader makes `frame` of `packet`. -/
def Wraps (mac : MacAddr) (r : Reader) (packet frame : Bytes) : Prop :=
  ∃ clock raw s, r.read raw = some packet ∧ (r.receive mac clock raw s).1 = .ok (some frame)

/-- The bytes a packet of length `n` needs in a transfer of its own. -/
def needed (n : Nat) : Nat := dataHeaderLen + max (Ethernet.headerLen + n) Ethernet.minFrameLen

section Frames

variable {mac : MacAddr} {r : Reader} {packet frame : Bytes}

theorem Wraps.built (h : Wraps mac r packet frame) : packet ≠ [] ∧ ∃ gatewayMac,
    (Ethernet.build gatewayMac mac Ethernet.ethertypeIpv4 packet : Checked Empty _) = .ok frame := by
  obtain ⟨clock, raw, s, hread, hrun⟩ := h
  obtain ⟨held, t, hreceive, hreceived⟩ := @Reader.receive_received mac clock r raw s
  rw [hreceive] at hrun
  cases hrun
  cases hreceived with
  | wrapped packet' gatewayMac _ hread' hne _ hbuild =>
    cases hread.symm.trans hread'
    exact ⟨hne, gatewayMac, hbuild⟩

theorem Wraps.needed_eq (h : Wraps mac r packet frame) :
    dataHeaderLen + frame.length = needed packet.length := by
  obtain ⟨_, _, hbuild⟩ := h.built
  rw [needed, Ethernet.length_build hbuild]

theorem read_whole (h : packet.length ≤ r.mtu.toNat) :
    r.read (some ([0, 0, 0, 2] ++ packet)) = some packet := by
  have hroom : ([0, 0, 0, 2] ++ packet).length ≤ r.room := by
    simp only [List.length_append, List.length_cons, List.length_nil, Reader.room, Tun.afHeaderLen]
    omega
  have hlong : ¬ ([0, 0, 0, 2] ++ packet).length < Tun.afHeaderLen := by
    simp only [List.length_append, List.length_cons, List.length_nil, Tun.afHeaderLen]
    omega
  unfold Reader.read
  dsimp only
  rw [List.take_of_length_le hroom, if_neg hlong]
  rfl

theorem exists_wraps (mac : MacAddr) (hne : packet ≠ []) (h : packet.length ≤ r.mtu.toNat) :
    ∃ frame, Wraps mac r packet frame := by
  let s : Rx := { Rx.initial mac with arp := (Arp.new mac .unspecified).insert r.gateway mac 0 }
  have hread := read_whole h
  obtain ⟨held, t, hreceive, hreceived⟩ := @Reader.receive_received mac (fun _ => 0) r
    (some ([0, 0, 0, 2] ++ packet)) s
  have hknown : s.arp.lookup r.gateway 0 = some mac := by
    rw [Arp.lookup_eq_some]
    exact ⟨⟨mac, 0⟩, if_pos rfl, (by decide : (0 : Nat) - 0 < Arp.entryTtl), rfl⟩
  cases hreceived with
  | wrapped packet' mac' frame _ _ _ _ => exact ⟨frame, _, _, s, hread, congrArg Prod.fst hreceive⟩
  | idle hidle =>
    rw [hread] at hidle
    rcases hidle with hidle | hidle
    · cases hidle
    · exact absurd (Option.some.inj hidle) hne
  | limited packet' _ _ hunknown _ =>
    cases hknown.symm.trans hunknown
  | asks packet' pad _ _ hunknown _ _ =>
    cases hknown.symm.trans hunknown

end Frames

def FitsAlone (limits : TxLimits) (frame : Bytes) : Prop :=
  ∀ (ε κ : Type) (u : Tx ε κ), u.batch = [] → u.packets = 0 → Tx.fits limits u frame = true

/-- Every packet within the MTU makes a frame that the device takes. -/
def MtuFits (session : Rndis.Session) (r : Reader) (mtu : UInt16) : Prop :=
  ∀ packet frame, Wraps (hostMac session) r packet frame → packet.length ≤ mtu.toNat →
    FitsAlone (txLimits session) frame

theorem fitsAlone_iff {limits : TxLimits} (hmax : 1 ≤ limits.maxPackets) {frame : Bytes} :
    FitsAlone limits frame ↔ Tx.Fitting limits frame = true := by
  constructor
  · intro h
    let u : Tx Unit Unit := Tx.start () () []
    exact (Tx.fits_empty_iff (s := u) hmax rfl rfl frame).mp (h Unit Unit u rfl rfl)
  · intro h ε κ u hbatch hpackets
    exact (Tx.fits_empty_iff hmax hbatch hpackets frame).mpr h

section Sizes

variable {session : Rndis.Session} {r : Reader} {packet frame : Bytes}

theorem Wraps.fitting_iff (h : Wraps (hostMac session) r packet frame) :
    Tx.Fitting (txLimits session) frame = true ↔
      needed packet.length ≤ session.deviceMaxTransferSize.toNat := by
  rw [Tx.Fitting, decide_eq_true_iff, h.needed_eq]
  rfl

theorem needed_mono {m n : Nat} (h : m ≤ n) : needed m ≤ needed n := by
  unfold needed
  omega

/-- All packets within the MTU get through if and only if the longest one does. -/
theorem mtuFits_iff (hmax : 1 ≤ (txLimits session).maxPackets) :
    MtuFits session r r.mtu ↔
      r.mtu = 0 ∨ needed r.mtu.toNat ≤ session.deviceMaxTransferSize.toNat := by
  constructor
  · intro h
    by_cases hzero : r.mtu = 0
    · exact Or.inl hzero
    · have hlen : (List.replicate r.mtu.toNat (0 : UInt8)).length = r.mtu.toNat := List.length_replicate
      have hne : List.replicate r.mtu.toNat (0 : UInt8) ≠ [] := by
        intro hnil
        rw [hnil] at hlen
        exact hzero (UInt16.toNat_inj.mp hlen.symm)
      obtain ⟨frame, hwraps⟩ := exists_wraps (hostMac session) hne (Nat.le_of_eq hlen)
      have hfits := (fitsAlone_iff hmax).mp (h _ frame hwraps (Nat.le_of_eq hlen))
      rw [hwraps.fitting_iff, hlen] at hfits
      exact Or.inr hfits
  · intro h packet frame hwraps hlen
    rw [fitsAlone_iff hmax, hwraps.fitting_iff]
    rcases h with hzero | hlimit
    · rw [hzero] at hlen
      exact absurd (List.eq_nil_of_length_eq_zero (Nat.le_zero.mp hlen)) hwraps.built.1
    · exact Nat.le_trans (needed_mono hlen) hlimit

end Sizes

/-- The tunnel's MTU is the one in the server's message, or 1500. -/
theorem mtu_of_up {client : DhcpClient} {ack : Bytes} {lease : Lease}
    (hlease : (DhcpClient.handle ack client).1 = .ok (.bound lease))
    {o : Outcomes} {h g : Host} {t : Tunnel} (hup : Tunnel.up o lease h = (.ok t, g)) :
    ∃ p config, Dhcp.parse ack = .ok p ∧ g.interfaces.lookup t.utun.name = some config ∧
      config.mtu = p.mtu.getD 1500 ∧ t.reader.mtu = config.mtu := by
  obtain ⟨p, hanswered, hfrom⟩ := DhcpClient.handle_bound_iff.mp hlease
  obtain ⟨_, hleaseOf⟩ := DhcpClient.leaseFrom_iff.mp hfrom
  have hmtu : lease.mtu = p.mtu := by
    rw [hleaseOf]
    rfl
  have hserves : wp (Tunnel.up o lease) (fun t g => ∃ gateway, Tunnel.Serves g t lease gateway)
      (fun _ _ => True) h := by
    apply Tunnel.wp_up
    · intro gateway hrouter _
      exact ⟨gateway, Tunnel.made_serves hrouter⟩
    · intro _ _ _
      exact True.intro
  obtain ⟨gateway, hs⟩ := (wp_iff.mp hserves).1 t g hup
  refine ⟨p, _, hanswered.1, hs.interface, ?_, ?_⟩
  · rw [← hmtu]
    rfl
  · rw [hs.reader]

/-- Whatever the device, the lease and the packet, a packet within the MTU makes a frame that
fits the device if and only if its headers and padding leave it within the device's limit.
So the MTU fits the device exactly if its longest packet does; and the packets that do
not fit are the ones that the TX thread drops. -/
theorem mtu_fits_device_iff {τ : Type} {c : Rndis.ControlTransport τ} {s : Rndis τ}
    {session : Rndis.Session} (hs : Rndis.Reachable c s)
    (hsession : (Rndis.bringUp c s).1 = .ok session)
    {client : DhcpClient} {ack : Bytes} {lease : Lease}
    (hlease : (DhcpClient.handle ack client).1 = .ok (.bound lease))
    {o : Outcomes} {h g : Host} {t : Tunnel} (hup : Tunnel.up o lease h = (.ok t, g)) :
    ∃ p config, Dhcp.parse ack = .ok p ∧ g.interfaces.lookup t.utun.name = some config ∧
      config.mtu = p.mtu.getD 1500 ∧
      (MtuFits session t.reader config.mtu ↔ config.mtu = 0 ∨
        44 + max (14 + config.mtu.toNat) 60 ≤ session.deviceMaxTransferSize.toNat) ∧
      (∀ packet frame, Wraps (hostMac session) t.reader packet frame →
        packet.length ≤ config.mtu.toNat → (FitsAlone (txLimits session) frame ↔
          44 + max (14 + packet.length) 60 ≤ session.deviceMaxTransferSize.toNat)) ∧
      ∀ (ε κ : Type) (ep : OutEndpoint ε) (world : Schedule κ) (turns steps : Nat) (dev : ε)
        (sched : κ) (frames : List Bytes),
        let run := Tx.txLoop ep world (txLimits session) turns steps (Tx.start dev sched frames)
        (run.1 = .ok () ∨ run.1 = .error .head) → run.2.shutdown = false →
          ∃ taken sent, frames = taken ++ run.2.frames ∧
            Tx.Sent (txLimits session) (max (ep.maxPacketSize dev) 1) run.2 sent ∧
            sent.Sublist taken ∧
            ∀ packet frame, Wraps (hostMac session) t.reader packet frame →
              packet.length ≤ config.mtu.toNat → sent.count frame =
                if 44 + max (14 + packet.length) 60 ≤ session.deviceMaxTransferSize.toNat then
                  taken.count frame else 0 := by
  obtain ⟨p, config, hparse, hconfig, hmtu, hreader⟩ := mtu_of_up hlease hup
  have hmax : 1 ≤ (txLimits session).maxPackets := by
    obtain ⟨_, _, _, hbrought, _⟩ := (wp_iff.mp (Rndis.bringUp_spec c hs.linked)).1 session _
      (Prod.ext hsession rfl)
    exact hbrought.packets
  refine ⟨p, config, hparse, hconfig, hmtu, ?_, ?_, ?_⟩
  · rw [← hreader]
    exact mtuFits_iff hmax
  · intro packet frame hwraps _
    rw [fitsAlone_iff hmax]
    exact hwraps.fitting_iff
  · intro ε κ ep world turns steps dev sched frames run hend hdown
    obtain ⟨taken, sent, hframes, hsent, hsub, hcount⟩ :=
      Tx.sent_of_taken ep world (txLimits session) turns steps dev sched frames hmax hend hdown
    refine ⟨taken, sent, hframes, hsent, hsub, ?_⟩
    intro packet frame hwraps _
    rw [hcount frame]
    exact if_congr hwraps.fitting_iff rfl rfl

/-- A device that takes one packet of up to 1580 bytes a transfer. -/
def gadget : Rndis (List Bytes) := Rndis.new
  [words [msgInitC, 52, 1, statusSuccess, 1, 0, 0, 0, 1, 1580, 0, 0, 0],
    words [msgQueryC, 30, 2, statusSuccess, 6, 16] ++ [2, 0, 0, 0, 0, 1],
    words [msgSetC, 16, 3, statusSuccess]]

def gadgetSession : Rndis.Session :=
  { Rndis.reluctantSession with
    deviceMaxTransferSize := 1580, maxPacketsPerTransfer := 1, packetAlignment := 1 }

def asking : DhcpClient :=
  (DhcpClient.handle (Rx.testReply offerType []) (DhcpClient.discover (DhcpClient.new Rx.testMac 1)).2).2

def gadgetLease (mtu : Option UInt16) : Lease := { Tunnel.phoneLease with dns := [], mtu := mtu }

theorem mtu_fits_gadget :
    (Rndis.bringUp Rndis.scripted gadget).1 = .ok gadgetSession ∧
    (DhcpClient.handle (Rx.testReply ackType []) asking).1 = .ok (.bound (gadgetLease none)) ∧
    ∃ t g, Tunnel.up Tunnel.smooth (gadgetLease none) Tunnel.bareHost = (.ok t, g) ∧
      MtuFits gadgetSession t.reader 1500 := by
  have hsession : (Rndis.bringUp Rndis.scripted gadget).1 = .ok gadgetSession := by decide +kernel
  have hlease : (DhcpClient.handle (Rx.testReply ackType []) asking).1 =
      .ok (.bound (gadgetLease none)) := by decide +kernel
  obtain ⟨t, g, hup⟩ : ∃ t g, Tunnel.up Tunnel.smooth (gadgetLease none) Tunnel.bareHost = (.ok t, g) :=
    ⟨_, _, rfl⟩
  obtain ⟨p, config, hparse, _, hmtu, hfits, _⟩ := mtu_fits_device_iff (.new _) hsession hlease hup
  have hnone : p.mtu = none := by
    have hread : (parse (Rx.testReply ackType [])).toOption.bind (·.mtu) = none := by decide +kernel
    rw [hparse] at hread
    exact hread
  rw [hmtu, hnone] at hfits
  exact ⟨hsession, hlease, t, g, hup, hfits.mpr (Or.inr (by decide))⟩

/-- The start of an IPv4 packet of 1523 bytes, and the rest of it. -/
def longPacket : Bytes := [0x45, 0, 0x05, 0xF3] ++ List.replicate 1519 0

/-- With an MTU of 9000 the same gadget is handed packets that it does not take. -/
theorem mtu_over_limit :
    (Rndis.bringUp Rndis.scripted gadget).1 = .ok gadgetSession ∧
    (DhcpClient.handle (Rx.testReply ackType [(optInterfaceMtu, [0x23, 0x28])]) asking).1 =
      .ok (.bound (gadgetLease (some 9000))) ∧
    ∃ t g, Tunnel.up Tunnel.smooth (gadgetLease (some 9000)) Tunnel.bareHost = (.ok t, g) ∧
      (g.interfaces.lookup t.utun.name).map (·.mtu) = some 9000 ∧
      longPacket.length ≤ 9000 ∧
      ∃ frame, Wraps (hostMac gadgetSession) t.reader longPacket frame ∧
        ¬ FitsAlone (txLimits gadgetSession) frame ∧
        (Tx.txLoop (Tx.idlePipe 512) allQueued (txLimits gadgetSession) 1 1
          (Tx.start () () [frame])).2.submitted = [] := by
  refine ⟨by decide +kernel, by decide +kernel, _, _, rfl, by decide +kernel, by decide +kernel,
    Ethernet.fields ⟨2, 0, 0, 0, 0, 9⟩ (hostMac gadgetSession) Ethernet.ethertypeIpv4 longPacket,
    ⟨fun _ => 0, some ([0, 0, 0, 2] ++ longPacket), Rx.after (hostMac gadgetSession) (fun _ => 0)
        [Packet.append [] (Rx.testFrame offerType []) 0,
          Packet.append [] (Rx.testFrame ackType [(optInterfaceMtu, [0x23, 0x28])]) 0], ?_, ?_⟩, ?_, ?_⟩
  · decide +kernel
  · decide +kernel
  · rw [fitsAlone_iff (by decide)]
    decide +kernel
  · decide +kernel

end Muta.Daemon
