import Muta.Base.Act
import Muta.Base.Table
import Muta.Netstack.Dhcp

/-!
# The host's interfaces and routes

What the daemon changes outside itself: the addresses of its interfaces, the routing
table and the store of network services. `ifconfig` and `route` are steps on these
tables. A step may fail for reasons of its own, which an `Outcomes` decides; besides
that `route` deletes only what is there and adds only what is not.
-/

namespace Muta.Tun

open Act Netstack
set_option autoImplicit false

/-- A destination as `route` is given it. -/
structure Destination where
  subnet : Ipv4Addr
  len : UInt8
deriving DecidableEq, Repr

inductive NextHop where
  | interface (name : Text)
  | gateway (ip : Ipv4Addr)
deriving DecidableEq, Repr

/-- The address of a point-to-point interface. -/
structure Address where
  ip : Ipv4Addr
  peer : Ipv4Addr
  netmask : Ipv4Addr
  mtu : UInt16
deriving DecidableEq, Repr

/-- A value of a property list. -/
inductive Value where
  | text (t : Text)
  | array (ts : List Text)
deriving DecidableEq, Repr

structure Host where
  /-- The number of utun devices opened so far. -/
  opened : Nat
  interfaces : Table Text Address
  routes : Table Destination NextHop
  store : Table Text (List (Text × Value))
deriving DecidableEq

/-- The calls that may fail for reasons the program does not see. -/
inductive Step where
  | openUtun
  | setReadTimeout
  | ifconfig
  | routeAdd
  | openStore
  | setStore (key : Text)
  | spawnReader
deriving DecidableEq, Repr

structure Outcomes where
  fails : Step → Bool
  /-- The name a newly opened device is given. -/
  name : Text

inductive Error where
  | noGateway
  | failed (step : Step)
  | notInTable (d : Destination)
  | inTable (d : Destination)
deriving DecidableEq, Repr

abbrev HostM (α : Type) := Act Error Host α

variable (o : Outcomes)

def call (step : Step) : HostM Unit := if o.fails step then stop (.failed step) else pure ()

structure Utun where
  handle : Nat
  name : Text
deriving DecidableEq, Repr

def openUtun : HostM Utun := do
  call o .openUtun
  apply fun h => (⟨h.opened, o.name⟩, { h with opened := h.opened + 1 })

/-- The kernel takes the interface away with the last handle to it. -/
def Utun.close (utun : Utun) (h : Host) : Host :=
  { h with interfaces := h.interfaces.erase utun.name }

def configureInterface (interface : Text) (ip peer : Ipv4Addr) (mtu : UInt16) : HostM Unit := do
  call o .ifconfig
  update fun h => { h with interfaces := h.interfaces.insert interface ⟨ip, peer, .broadcast, mtu⟩ }

def routeDelete (d : Destination) : HostM Unit := do
  if d ∈ (← state).routes then
    update fun h => { h with routes := h.routes.erase d }
  else
    stop (.notInTable d)

def routeAdd (d : Destination) (via : NextHop) : HostM Unit := do
  call o .routeAdd
  if d ∈ (← state).routes then
    stop (.inTable d)
  else
    update fun h => { h with routes := h.routes.insert d via }

/-- The routes installed, removed on teardown. -/
structure Routes where
  destinations : List Destination
deriving DecidableEq, Repr

namespace Routes

def add (routes : Routes) (d : Destination) (via : NextHop) : HostM Routes := do
  let _ ← attempt (routeDelete d)
  routeAdd o d via
  return ⟨routes.destinations ++ [d]⟩

def remove (routes : Routes) (h : Host) : Host :=
  routes.destinations.foldl (fun h d => (routeDelete d h).2) h

def install (interface : Text) (subnet : Ipv4Addr) (len : UInt8) : HostM Routes :=
  let routes : Routes := ⟨[]⟩
  dropping routes.remove (routes.add o ⟨subnet, len⟩ (.interface interface))

end Routes

def subnetOf (ip netmask : Ipv4Addr) : Ipv4Addr := .ofBits (ip.bits &&& netmask.bits)

section Effects

variable {o} {h : Host} {d : Destination} {α : Type}

theorem wp_call {step : Step} {Q : Unit → Host → Prop} {E : Error → Host → Prop} :
    wp (call o step) Q E h ↔
      (o.fails step = false → Q () h) ∧ (o.fails step = true → E (.failed step) h) := by
  unfold call
  cases o.fails step <;> simp

theorem routeDelete_snd : (routeDelete d h).2 = { h with routes := h.routes.erase d } := by
  by_cases hd : d ∈ h.routes
  · simp [routeDelete, bind_apply, hd]
  · have hsame := Table.erase_of_notMem hd
    simp [routeDelete, bind_apply, hd, hsame, stop]

theorem routeAdd_fresh {via : NextHop} (hd : d ∉ h.routes) (hadd : o.fails .routeAdd = false) :
    routeAdd o d via h = (.ok (), { h with routes := h.routes.insert d via }) := by
  simp [routeAdd, call, hadd, bind_apply, hd]

theorem routeAdd_failed {via : NextHop} (hadd : o.fails .routeAdd = true) :
    routeAdd o d via h = (.error (.failed .routeAdd), h) := by
  simp [routeAdd, call, hadd, bind_apply, stop]

namespace Routes

theorem remove_eq (routes : Routes) :
    routes.remove h = { h with routes := Table.eraseAll routes.destinations h.routes } := by
  obtain ⟨ds⟩ := routes
  unfold remove
  induction ds generalizing h with
  | nil => rfl
  | cons d ds ih =>
    rw [List.foldl_cons, routeDelete_snd]
    exact ih

section Install

variable {interface : Text} {subnet : Ipv4Addr} {len : UInt8}

theorem install_ok (hadd : o.fails .routeAdd = false) :
    install o interface subnet len h = (.ok ⟨[⟨subnet, len⟩]⟩, { h with
      routes := (h.routes.erase ⟨subnet, len⟩).insert ⟨subnet, len⟩ (.interface interface) }) := by
  have hgone : (⟨subnet, len⟩ : Destination) ∉ h.routes.erase ⟨subnet, len⟩ :=
    Finmap.notMem_erase_self
  rw [install, dropping, add, attempt_bind_apply, routeDelete_snd,
    bind_apply_ok _ _ (routeAdd_fresh hgone hadd)]
  rfl

/-- The route that was there is gone all the same. -/
theorem install_failed (hadd : o.fails .routeAdd = true) :
    install o interface subnet len h =
      (.error (.failed .routeAdd), { h with routes := h.routes.erase ⟨subnet, len⟩ }) := by
  rw [install, dropping, add, attempt_bind_apply, routeDelete_snd,
    bind_apply_error _ _ (routeAdd_failed hadd)]
  rfl

end Install

end Routes

end Effects

end Muta.Tun
