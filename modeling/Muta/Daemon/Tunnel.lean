import Muta.Tun.Dns

/-!
# The tunnel

Bringing the tunnel up opens a device, addresses it, routes the phone's subnet through it
and publishes it as a service; whatever was made is dropped where a later step fails, and
all of it when the tunnel is. That restores the store in every case. It restores the
routing table exactly where there was no route for the subnet: `Routes.add` deletes such a
route, whoever installed it, and nothing puts it back.
-/

namespace Muta

open Act Netstack Tun
set_option autoImplicit false

def defaultMtu : UInt16 := 1500

/-- What the reading thread was started with. -/
structure Reader where
  gateway : Ipv4Addr
  mtu : UInt16
deriving DecidableEq, Repr

structure Tunnel where
  utun : Utun
  lease : Lease
  routes : Routes
  dns : Dns
  reader : Reader
deriving DecidableEq, Repr

namespace Tunnel

section Program

variable (o : Outcomes) (lease : Lease)

def up : HostM Tunnel := do
  let gateway ← match lease.router with
    | some gateway => pure gateway
    | none => stop .noGateway
  let utun ← openUtun o
  dropping utun.close do
    call o .setReadTimeout
    let mtu := lease.mtu.getD defaultMtu
    configureInterface o utun.name lease.ip gateway mtu
    let routes ← Routes.install o utun.name (subnetOf lease.ip lease.netmask) lease.prefixLen
    dropping routes.remove do
      let dns ← Dns.install o utun.name lease.ip gateway lease.dns lease.domain
      dropping dns.remove do
        call o .spawnReader
        return ⟨utun, lease, routes, dns, ⟨gateway, mtu⟩⟩

def drop (t : Tunnel) (h : Host) : Host := t.dns.remove (t.routes.remove (t.utun.close h))

end Program

section Outcome

variable (o : Outcomes) (lease : Lease) (gateway : Ipv4Addr) (h : Host)

def destination : Destination := ⟨subnetOf lease.ip lease.netmask, lease.prefixLen⟩

def entries : List (Text × List (Text × Value)) :=
  Dns.entries o.name lease.ip gateway lease.dns lease.domain

def made : Tunnel where
  utun := ⟨h.opened, o.name⟩
  lease := lease
  routes := ⟨[destination lease]⟩
  dns := ⟨(entries o lease gateway).map Prod.fst⟩
  reader := ⟨gateway, lease.mtu.getD defaultMtu⟩

def configured : Host where
  opened := h.opened + 1
  interfaces := h.interfaces.insert o.name
    ⟨lease.ip, gateway, .broadcast, lease.mtu.getD defaultMtu⟩
  routes := (h.routes.erase (destination lease)).insert (destination lease) (.interface o.name)
  store := Table.insertAll (entries o lease gateway) h.store

/-- None of the steps before `Routes.install` fails. -/
def reachesRoutes : Bool :=
  lease.router.isSome && !o.fails .openUtun && !o.fails .setReadTimeout && !o.fails .ifconfig

def routesLeft : Table Destination NextHop :=
  if reachesRoutes o lease then h.routes.erase (destination lease) else h.routes

end Outcome

section Spec

variable {o : Outcomes} {lease : Lease} {h : Host}

theorem keys_fresh {gateway : Ipv4Addr} {store : Table Text (List (Text × Value))}
    (hfresh : Dns.Unpublished store) : ∀ key ∈ (entries o lease gateway).map Prod.fst, key ∉ store := by
  intro key hkey
  obtain ⟨entity, rfl⟩ := Dns.entries_keys hkey
  exact hfresh entity

theorem wp_publish {g : Host} {gateway : Ipv4Addr} {k : Dns → Tunnel} {Q : Tunnel → Host → Prop}
    {E : Tun.Error → Host → Prop}
    (hok : Q (k ⟨(entries o lease gateway).map Prod.fst⟩)
      { g with store := Table.insertAll (entries o lease gateway) g.store })
    (herror : ∀ e store, (Dns.Unpublished g.store → store = g.store) →
      E e { g with store := store }) :
    wp (do
      let dns ← Dns.install o o.name lease.ip gateway lease.dns lease.domain
      dropping dns.remove do
        call o .spawnReader
        return k dns) Q E g := by
  rw [wp_bind]
  refine Dns.wp_install ?_ herror
  rw [wp_dropping, wp_bind, wp_call]
  refine ⟨fun _ => hok, fun _ => ?_⟩
  rw [Dns.remove_eq]
  apply herror
  intro hfresh
  exact Table.eraseAll_insertAll (keys_fresh hfresh)

theorem wp_routed {g : Host} {gateway : Ipv4Addr} {k : Routes → Dns → Tunnel}
    {Q : Tunnel → Host → Prop} {E : Tun.Error → Host → Prop}
    (hok : Q (k ⟨[destination lease]⟩ ⟨(entries o lease gateway).map Prod.fst⟩) { g with
      routes := (g.routes.erase (destination lease)).insert (destination lease) (.interface o.name)
      store := Table.insertAll (entries o lease gateway) g.store })
    (herror : ∀ e store, (Dns.Unpublished g.store → store = g.store) →
      E e { g with routes := g.routes.erase (destination lease), store := store }) :
    wp (do
      let routes ← Routes.install o o.name (subnetOf lease.ip lease.netmask) lease.prefixLen
      dropping routes.remove do
        let dns ← Dns.install o o.name lease.ip gateway lease.dns lease.domain
        dropping dns.remove do
          call o .spawnReader
          return k routes dns) Q E g := by
  rw [wp_bind]
  cases hadd : o.fails .routeAdd with
  | true =>
    rw [wp_of_error (Routes.install_failed hadd)]
    exact herror _ g.store fun _ => rfl
  | false =>
    rw [wp_of_ok (Routes.install_ok hadd), wp_dropping]
    apply wp_publish
    · exact hok
    · intro e store hstore
      have hgone : destination lease ∉ g.routes.erase (destination lease) := Finmap.notMem_erase_self
      have hback := Table.erase_insert hgone (.interface o.name)
      rw [Routes.remove_eq]
      dsimp only [Table.eraseAll, List.foldl_cons, List.foldl_nil, destination] at hback ⊢
      rw [hback]
      exact herror e store hstore

theorem routesLeft_early (hearly : reachesRoutes o lease = false) :
    routesLeft o lease h = h.routes := by
  simp [routesLeft, hearly]

/-- What a failed `up` leaves behind. -/
structure Left (o : Outcomes) (lease : Lease) (h g : Host) : Prop where
  opened : h.opened ≤ g.opened
  routes : g.routes = routesLeft o lease h
  store : Dns.Unpublished h.store → g.store = h.store

theorem wp_up {Q : Tunnel → Host → Prop} {E : Tun.Error → Host → Prop}
    (hok : ∀ gateway, lease.router = some gateway → reachesRoutes o lease = true →
      Q (made o lease gateway h) (configured o lease gateway h))
    (herror : ∀ e g, Left o lease h g → E e g) : wp (up o lease) Q E h := by
  have hearly : reachesRoutes o lease = false → ∀ e g, h.opened ≤ g.opened → g.routes = h.routes →
      g.store = h.store → E e g := by
    intro hreaches e g hopened hroutes hstore
    exact herror e g ⟨hopened, hroutes.trans (routesLeft_early hreaches).symm, fun _ => hstore⟩
  unfold up
  cases hrouter : lease.router with
  | none => exact hearly (by simp [reachesRoutes, hrouter]) _ _ le_rfl rfl rfl
  | some gateway =>
    rw [wp_bind, wp_pure, wp_bind, openUtun, wp_bind, wp_call]
    refine ⟨fun hopen => ?_, fun hopen => ?_⟩
    · rw [wp_apply, wp_dropping, wp_bind, wp_call]
      refine ⟨fun htimeout => ?_, fun htimeout => ?_⟩
      · rw [wp_bind, configureInterface, wp_bind, wp_call]
        refine ⟨fun hifconfig => ?_, fun hifconfig => ?_⟩
        · have hreaches : reachesRoutes o lease = true := by
            simp [reachesRoutes, hrouter, hopen, htimeout, hifconfig]
          rw [wp_update]
          apply wp_routed
          · exact hok gateway hrouter hreaches
          · intro e store hstore
            exact herror _ _ ⟨Nat.le_succ _, by simp [routesLeft, hreaches, Utun.close], hstore⟩
        · exact hearly (by simp [reachesRoutes, hifconfig]) _ _ (Nat.le_succ _) rfl rfl
      · exact hearly (by simp [reachesRoutes, htimeout]) _ _ (Nat.le_succ _) rfl rfl
    · exact hearly (by simp [reachesRoutes, hopen]) _ _ le_rfl rfl rfl

/-- The whole of a successful tunnel is taken back, but for a route it replaced. -/
theorem drop_configured {gateway : Ipv4Addr} (hfresh : Dns.Unpublished h.store) :
    ((made o lease gateway h).drop (configured o lease gateway h)).routes =
        h.routes.erase (destination lease) ∧
      ((made o lease gateway h).drop (configured o lease gateway h)).store = h.store := by
  rw [drop, Dns.remove_eq, Routes.remove_eq]
  constructor
  · have hgone : destination lease ∉ h.routes.erase (destination lease) := Finmap.notMem_erase_self
    exact Table.erase_insert hgone _
  · exact Table.eraseAll_insertAll (keys_fresh hfresh)

@[simp] theorem drop_opened (t : Tunnel) : (t.drop h).opened = h.opened := by
  rw [drop, Dns.remove_eq, Routes.remove_eq]
  rfl

/-- The part of a lease that a tunnel is made from. -/
def network (lease : Lease) : Ipv4Addr × Ipv4Addr × Option Ipv4Addr × List Ipv4Addr ×
    Option String × Option UInt16 :=
  (lease.ip, lease.netmask, lease.router, lease.dns, lease.domain, lease.mtu)

/-- Interface, route, service and reader are those of `lease`. -/
structure Serves (h : Host) (t : Tunnel) (lease : Lease) (gateway : Ipv4Addr) : Prop where
  router : lease.router = some gateway
  interface : h.interfaces.lookup t.utun.name =
    some ⟨lease.ip, gateway, .broadcast, lease.mtu.getD defaultMtu⟩
  route : h.routes.lookup (destination lease) = some (.interface t.utun.name)
  service : ∀ key value, (key, value) ∈ Dns.entries t.utun.name lease.ip gateway lease.dns
    lease.domain → h.store.lookup key = some value
  reader : t.reader = ⟨gateway, lease.mtu.getD defaultMtu⟩

theorem made_serves {gateway : Ipv4Addr} (hrouter : lease.router = some gateway) :
    Serves (configured o lease gateway h) (made o lease gateway h) lease gateway where
  router := hrouter
  interface := Finmap.lookup_insert _
  route := Finmap.lookup_insert _
  service := fun _ _ hmem => Table.lookup_insertAll Dns.entries_nodup hmem
  reader := rfl

theorem Serves.congr {t : Tunnel} {lease' : Lease} {gateway : Ipv4Addr}
    (hserves : Serves h t lease gateway) (hsame : network lease = network lease') :
    Serves h t lease' gateway := by
  simp only [network, Prod.mk.injEq] at hsame
  obtain ⟨hip, hnetmask, hrouter, hdns, hdomain, hmtu⟩ := hsame
  have hdestination : destination lease = destination lease' := by
    simp only [destination, Lease.prefixLen, hip, hnetmask]
  obtain ⟨router, interface, route, service, reader⟩ := hserves
  rw [hdestination] at route
  rw [hip, hmtu] at interface
  rw [hip, hdns, hdomain] at service
  rw [hmtu] at reader
  exact ⟨hrouter ▸ router, interface, route, service, reader⟩

def Restored (h g : Host) : Prop := g.routes = h.routes ∧ g.store = h.store

theorem wp_up_left (hfresh : Dns.Unpublished h.store) :
    wp (up o lease)
      (fun t g => (t.drop g).routes = routesLeft o lease h ∧ (t.drop g).store = h.store)
      (fun _ g => g.routes = routesLeft o lease h ∧ g.store = h.store) h := by
  apply wp_up
  · intro gateway _ hreaches
    rw [routesLeft, if_pos hreaches]
    exact drop_configured hfresh
  · intro e g hg
    exact ⟨hg.routes, hg.store hfresh⟩

theorem routesLeft_eq_iff :
    routesLeft o lease h = h.routes ↔
      destination lease ∉ h.routes ∨ reachesRoutes o lease = false := by
  cases hreaches : reachesRoutes o lease with
  | false => simp [routesLeft, hreaches]
  | true =>
    rw [routesLeft, if_pos hreaches]
    constructor
    · intro heq
      refine .inl ?_
      rw [← heq]
      exact Finmap.notMem_erase_self
    · intro habsent
      exact Table.erase_of_notMem (habsent.resolve_right (by simp))

/-- A tunnel that comes down, or never comes up, leaves the system as it was exactly if
there was no route for the phone's subnet, or it failed before touching the routes. -/
theorem restored_iff (hfresh : Dns.Unpublished h.store) :
    ((∀ e g, up o lease h = (.error e, g) → Restored h g) ∧
      ∀ t g, up o lease h = (.ok t, g) → Restored h (t.drop g)) ↔
    destination lease ∉ h.routes ∨ reachesRoutes o lease = false := by
  have hleft := wp_iff.mp (wp_up_left (o := o) hfresh : wp (up o lease) _ _ h)
  rw [← routesLeft_eq_iff]
  constructor
  · intro hrestored
    rcases hup : up o lease h with ⟨e | t, g⟩
    · exact (hleft.2 e g hup).1.symm.trans (hrestored.1 e g hup).1
    · exact (hleft.1 t g hup).1.symm.trans (hrestored.2 t g hup).1
  · intro hsame
    constructor
    · intro e g hup
      exact ⟨(hleft.2 e g hup).1.trans hsame, (hleft.2 e g hup).2⟩
    · intro t g hup
      exact ⟨(hleft.1 t g hup).1.trans hsame, (hleft.1 t g hup).2⟩

end Spec

def smooth : Outcomes := ⟨fun _ => false, "utun4".toList⟩

def phoneLease : Lease where
  ip := ⟨192, 168, 42, 130⟩
  netmask := ⟨255, 255, 255, 0⟩
  router := some ⟨192, 168, 42, 129⟩
  dns := [⟨192, 168, 42, 129⟩]
  domain := none
  mtu := none
  serverId := ⟨192, 168, 42, 129⟩
  leaseTime := ofSecs 3600
  renewalTime := ofSecs 1800

def bareHost : Host := ⟨0, ∅, ∅, ∅⟩

/-- A host that is already on 192.168.42.0/24 by another interface. -/
def wifiHost : Host :=
  { bareHost with routes := Finmap.singleton ⟨⟨192, 168, 42, 0⟩, 24⟩ (.interface "en0".toList) }

theorem restored_bareHost :
    (∃ t g, up smooth phoneLease bareHost = (.ok t, g)) ∧
      ∀ t g, up smooth phoneLease bareHost = (.ok t, g) → Restored bareHost (t.drop g) := by
  refine ⟨⟨_, _, rfl⟩, ?_⟩
  exact ((restored_iff (fun _ => Finmap.notMem_empty)).mpr (.inl Finmap.notMem_empty)).2

theorem wifi_route_lost :
    Dns.Unpublished wifiHost.store ∧
      ∃ t g, up smooth phoneLease wifiHost = (.ok t, g) ∧ (t.drop g).routes = ∅ ∧
        ¬ Restored wifiHost (t.drop g) := by
  refine ⟨fun _ => Finmap.notMem_empty, _, _, rfl, ?_, ?_⟩
  · decide +kernel
  · unfold Restored
    decide +kernel

end Tunnel

end Muta
