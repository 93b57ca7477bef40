import Muta.Base.BitMask
import Muta.Daemon.Tunnel
import Muta.Netstack.DhcpWire

/-!
# The on-link route

The route for the phone's subnet is made from the lease by two means: its destination by
masking the address, its length by counting the ones of the mask. The server chooses the
mask. The two halves describe the subnet exactly when the ones of the mask lead, and the
route is the default route exactly when there are none.
-/

namespace Muta.Tunnel

open Act Netstack Tun BitMask Dhcp DhcpClient
set_option autoImplicit false

/-- The route to `d` is taken for the address `a`. -/
def Covers (d : Destination) (a : Ipv4Addr) : Prop := Agree d.len.toNat a.bits d.subnet.bits

def SameNet (netmask a b : Ipv4Addr) : Prop := a.bits &&& netmask.bits = b.bits &&& netmask.bits

/-- A route to `d` leads to the subnet of the lease, and to nothing else. -/
structure IsOnLink (lease : Lease) (d : Destination) : Prop where
  covers : ∀ a, Covers d a ↔ SameNet lease.netmask a lease.ip
  self : Covers d lease.ip
  notDefault : d ≠ ⟨.unspecified, 0⟩

theorem toNat_prefixLen (lease : Lease) :
    lease.prefixLen.toNat = lease.netmask.bits.cpop.toNat := by
  have hle := BitVec.toNat_cpop_le lease.netmask.bits
  apply UInt8.toNat_ofNat_of_lt'
  exact Nat.lt_of_le_of_lt hle (by decide)

theorem covers_destination (lease : Lease) (a : Ipv4Addr) :
    Covers (destination lease) a ↔ Agree lease.netmask.bits.cpop.toNat a.bits
      (lease.ip.bits &&& lease.netmask.bits) := by
  rw [Covers, destination, toNat_prefixLen, subnetOf, Ipv4Addr.bits_ofBits]

theorem covers_iff_leading (lease : Lease) :
    (∀ a, Covers (destination lease) a ↔ SameNet lease.netmask a lease.ip) ↔
      Leading lease.netmask.bits := by
  rw [← forall_agree_iff lease.ip.bits]
  constructor
  · intro h v
    have hv := h (.ofBits v)
    rw [covers_destination, SameNet, Ipv4Addr.bits_ofBits] at hv
    exact hv
  · intro h a
    rw [covers_destination]
    exact h a.bits

theorem default_iff (lease : Lease) :
    destination lease = ⟨.unspecified, 0⟩ ↔ lease.netmask = .unspecified := by
  have hzero : Ipv4Addr.unspecified.bits = 0#32 := rfl
  constructor
  · intro h
    have hlen : lease.prefixLen = 0 := congrArg Destination.len h
    apply Ipv4Addr.bits_inj.mp
    rw [hzero, ← cpop_eq_zero, ← toNat_prefixLen, hlen]
    rfl
  · intro h
    have hsubnet : subnetOf lease.ip lease.netmask = .unspecified := by
      apply Ipv4Addr.bits_inj.mp
      rw [subnetOf, Ipv4Addr.bits_ofBits, h, hzero, BitVec.and_zero]
    have hlen : lease.prefixLen = 0 := by
      apply UInt8.toNat_inj.mp
      rw [toNat_prefixLen, h]
      rfl
    rw [destination, hsubnet, hlen]

theorem isOnLink_iff (lease : Lease) :
    IsOnLink lease (destination lease) ↔
      Leading lease.netmask.bits ∧ lease.netmask ≠ .unspecified := by
  constructor
  · intro h
    refine ⟨(covers_iff_leading lease).mp h.covers, ?_⟩
    intro hmask
    exact h.notDefault ((default_iff lease).mpr hmask)
  · intro h
    have hcovers := (covers_iff_leading lease).mpr h.1
    refine ⟨hcovers, (hcovers lease.ip).mpr rfl, ?_⟩
    intro hdefault
    exact h.2 ((default_iff lease).mp hdefault)

theorem up_destinations {o : Outcomes} {lease : Lease} {h g : Host} {t : Tunnel}
    (hup : up o lease h = (.ok t, g)) : t.routes.destinations = [destination lease] := by
  have hwp : wp (up o lease) (fun t _ => t.routes.destinations = [destination lease])
      (fun _ _ => True) h := by
    apply wp_up
    · intro gateway _ _
      rfl
    · intro e g _
      trivial
  exact (wp_iff.mp hwp).1 t g hup

theorem leading_default : Leading (⟨255, 255, 255, 0⟩ : Ipv4Addr).bits := by
  rw [leading_iff]
  decide

/-- The route a tunnel installs for an accepted acknowledgement is the subnet of the lease
exactly if the ones of the mask option, where there is one, lead and are not missing. -/
theorem onLink_iff {c : DhcpClient} {msg : Bytes} {p : Parsed} {lease : Lease}
    (hp : parse msg = .ok p) (hack : (handle msg c).1 = .ok (.bound lease))
    {o : Outcomes} {h g : Host} {t : Tunnel} (hup : up o lease h = (.ok t, g)) :
    (∀ d ∈ t.routes.destinations, IsOnLink lease d) ↔
      ∀ mask, p.netmask = some mask → Leading mask.bits ∧ mask ≠ .unspecified := by
  obtain ⟨q, hq, hlease⟩ := handle_bound_iff.mp hack
  obtain rfl : p = q := Checked.ok.inj (hp.symm.trans hq.1)
  obtain ⟨_, rfl⟩ := leaseFrom_iff.mp hlease
  have hnetmask : (leaseOf c p).netmask = p.netmask.getD ⟨255, 255, 255, 0⟩ := rfl
  rw [up_destinations hup, List.forall_mem_singleton, isOnLink_iff, hnetmask]
  cases p.netmask with
  | none =>
    constructor
    · intro _ mask hmask
      cases hmask
    · intro _
      exact ⟨leading_default, by decide⟩
  | some mask =>
    constructor
    · intro hroute other hother
      cases hother
      exact hroute
    · intro hall
      exact hall mask rfl

def asking : DhcpClient where
  mac := ⟨2, 0, 0, 0, 0, 1⟩
  xid := 7
  state := .requesting
  offered := some ⟨192, 168, 42, 130⟩
  serverId := none
  lease := none

def ackWithMask (mask : Ipv4Addr) : Bytes :=
  serverReply asking.mac ⟨192, 168, 42, 129⟩ asking.xid ackType ⟨192, 168, 42, 130⟩
    [(optSubnetMask, mask.octets)]

theorem onLink_sixteen :
    ∃ lease t g, (handle (ackWithMask ⟨255, 255, 0, 0⟩) asking).1 = .ok (.bound lease) ∧
      up smooth lease bareHost = (.ok t, g) ∧ ∀ d ∈ t.routes.destinations, IsOnLink lease d := by
  have hack : (handle (ackWithMask ⟨255, 255, 0, 0⟩) asking).1 =
      .ok (.bound { phoneLease with netmask := ⟨255, 255, 0, 0⟩, dns := [] }) := by decide +kernel
  obtain ⟨p, hp, _⟩ := handle_bound_iff.mp hack
  have hmask : p.netmask = some ⟨255, 255, 0, 0⟩ := by
    have hread : (parse (ackWithMask ⟨255, 255, 0, 0⟩)).toOption.bind (·.netmask) =
        some ⟨255, 255, 0, 0⟩ := by decide +kernel
    rw [hp.1] at hread
    exact hread
  refine ⟨_, _, _, hack, rfl, ?_⟩
  apply (onLink_iff hp.1 hack (o := smooth) (h := bareHost) rfl).mpr
  intro mask h
  rw [hmask] at h
  cases h
  refine ⟨?_, by decide⟩
  rw [leading_iff]
  decide

/-- A mask without ones takes the default route. -/
theorem onLink_everything :
    ∃ lease t g, (handle (ackWithMask .unspecified) asking).1 = .ok (.bound lease) ∧
      up smooth lease bareHost = (.ok t, g) ∧ ¬ ∀ d ∈ t.routes.destinations, IsOnLink lease d := by
  have hack : (handle (ackWithMask .unspecified) asking).1 =
      .ok (.bound { phoneLease with netmask := .unspecified, dns := [] }) := by decide +kernel
  refine ⟨_, _, _, hack, rfl, ?_⟩
  intro h
  have hroute := h ⟨.unspecified, 0⟩ (by decide +kernel)
  exact hroute.notDefault rfl

end Muta.Tunnel
