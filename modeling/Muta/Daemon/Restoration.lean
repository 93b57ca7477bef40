import Muta.Daemon.Agreement

/-!
# What a whole run leaves on the host

Tunnels come and go while the daemon runs: a session ends or cannot bring its tunnel up, a
new lease replaces the tunnel there is, a reading thread cannot be spawned. Whenever no
tunnel is up, the store is what it was when the daemon was started, and the routing table
has lost the routes that bringing tunnels up has deleted, and nothing else.
-/

namespace Muta.Daemon

open Act Netstack Tun Link
set_option autoImplicit false

namespace Session

def downed (s : Session) : Host :=
  match s.tunnel with
  | some t => t.drop s.system.host
  | none => s.system.host

theorem lowered_host (s : Session) : s.lowered.system.host = s.downed := by
  rw [lowered, downed]
  cases s.tunnel <;> rfl

end Session

def downed : Phase → Host
  | .scanning y => y.host
  | .tethering s => s.downed
  | .returned y => y.host
  | .panicked y => y.host

def sought (s : Session) (t : Tick) : Option Lease :=
  if t.requested then
    none
  else
    match t.event with
    | some (.bound lease) => if s.tunnel.any fun t => t.lease.ip = lease.ip then none else some lease
    | _ => none

/-- The destination whose route a turn deletes to make room for its own. -/
def rerouted : Phase × Input → Option Destination
  | (.tethering s, .tick t) => (sought s t).bind fun lease =>
    if Tunnel.reachesRoutes t.outcomes lease then some (Tunnel.destination lease) else none
  | _ => none

/-- `g` is `h` without the routes to `ds`. -/
structure Rerouted (ds : List Destination) (h g : Host) : Prop where
  routes : g.routes = Table.eraseAll ds h.routes
  store : g.store = h.store

theorem Rerouted.refl (h : Host) : Rerouted [] h h := ⟨rfl, rfl⟩

theorem Rerouted.trans {ds es : List Destination} {h g k : Host} (hg : Rerouted ds h g)
    (hk : Rerouted es g k) : Rerouted (ds ++ es) h k where
  routes := by
    rw [hk.routes, hg.routes]
    exact List.foldl_append.symm
  store := hk.store.trans hg.store

theorem Rerouted.untouched_iff {ds : List Destination} {h g : Host} (hg : Rerouted ds h g) :
    Tunnel.Restored h g ↔ ∀ d ∈ ds, d ∉ h.routes := by
  constructor
  · intro hrestored d hd
    rw [← hrestored.1, hg.routes, ← Finmap.lookup_eq_none]
    exact Table.lookup_eraseAll_of_mem hd
  · intro habsent
    refine ⟨?_, hg.store⟩
    rw [hg.routes]
    exact (Table.AgreeOff.refl ds h.routes).eraseAll_eq habsent

namespace Session

variable {o : Outcomes} {lease : Lease} {s : Session}

def made (o : Outcomes) (lease : Lease) : List Destination :=
  if Tunnel.reachesRoutes o lease then [Tunnel.destination lease] else []

theorem rerouted_left {h g : Host} (hroutes : g.routes = Tunnel.routesLeft o lease h)
    (hstore : g.store = h.store) : Rerouted (made o lease) h g := by
  refine ⟨?_, hstore⟩
  rw [hroutes, Tunnel.routesLeft, made]
  split <;> rfl

theorem rebuild_downed (hfresh : Dns.Unpublished s.downed.store) :
    wp (rebuild o lease) (fun _ t => Rerouted (made o lease) s.downed t.downed)
      (fun _ t => Rerouted (made o lease) s.downed t.downed) s := by
  unfold wp rebuild
  rw [lower_bind, ← wp, wp_bind]
  have hleft := @Tunnel.wp_up_left o lease s.lowered.system.host (by rwa [lowered_host])
  rw [lowered_host] at hleft
  rcases hresult : Tunnel.up o lease s.downed with ⟨e | t, g⟩
  · rw [wp_of_error hresult] at hleft
    rw [← lowered_host] at hresult
    rw [wp_of_error (tunnelUp_error hresult)]
    exact rerouted_left hleft.1 hleft.2
  · rw [wp_of_ok hresult] at hleft
    rw [← lowered_host] at hresult
    rw [wp_of_ok (tunnelUp_ok hresult)]
    exact rerouted_left hleft.1 hleft.2

theorem keepalive_downed {tick : Tick} :
    wp (keepalive tick) (fun _ t => t.downed = s.downed) (fun _ t => t.downed = s.downed) s := by
  refine wp_mono wp_keepalive ?_ ?_
  · intro _ t ht
    rcases ht with rfl | rfl <;> rfl
  · intro e t ht
    rw [ht.2]
    rfl

/-- A turn deletes one route at most, whether it goes on or not. -/
theorem body_downed {tick : Tick} (hfresh : Dns.Unpublished s.downed.store) :
    wp (body tick) (fun _ t => Rerouted (rerouted (.tethering s, .tick tick)).toList s.downed t.downed)
      (fun _ t => Rerouted (rerouted (.tethering s, .tick tick)).toList s.downed t.downed) s := by
  rw [body]
  apply wp_ite
  · intro hrequested
    rw [rerouted, sought, if_pos hrequested]
    exact .refl _
  · intro hgoes
    have hevent : wp (handleEvent tick.outcomes tick.event)
        (fun _ t => Rerouted (rerouted (.tethering s, .tick tick)).toList s.downed t.downed)
        (fun _ t => Rerouted (rerouted (.tethering s, .tick tick)).toList s.downed t.downed) s := by
      rw [rerouted, sought, if_neg hgoes]
      cases tick.event with
      | none => exact Rerouted.refl _
      | some event =>
        cases event with
        | failed cause => exact Rerouted.refl _
        | bound lease =>
          rw [handleEvent, wp_bind, wp_state]
          apply wp_ite
          · intro hsame
            dsimp only
            rw [if_pos hsame]
            exact Rerouted.refl _
          · intro hother
            dsimp only
            rw [if_neg hother, Option.bind_some]
            have hmade : (if Tunnel.reachesRoutes tick.outcomes lease then
                some (Tunnel.destination lease) else none).toList = made tick.outcomes lease := by
              rw [made]
              split <;> rfl
            rw [hmade]
            exact rebuild_downed hfresh
    rw [wp_bind]
    refine wp_mono hevent ?_ (fun _ _ ht => ht)
    intro _ u hu
    refine wp_mono keepalive_downed ?_ ?_
    · intro _ t ht
      rwa [ht]
    · intro _ t ht
      rwa [ht]

end Session

theorem dropTunnel_host (s : Session) : (Session.dropTunnel s).2.system.host = s.downed := by
  cases ht : s.tunnel with
  | none => simp [Session.dropTunnel, bind_apply, Session.downed, ht]
  | some t =>
    simp [Session.dropTunnel, Session.onSystem, bind_apply, Session.downed, ht, System.record]

theorem afterSession_downed (e : Ending) (s : Session) : downed (afterSession e s) = s.downed := by
  unfold afterSession
  split
  · exact dropTunnel_host s
  · have hfinished : (Session.finish s).2.system.host = s.downed := by
      rw [Session.finish_eq, ← Session.lowered_host]
      rfl
    exact hfinished

theorem afterScan_downed (y : System) (scan : Scan) : downed (afterScan y scan) = y.host := by
  cases scan with
  | idle => rfl
  | failed => rfl
  | found info opened => cases opened <;> rfl

theorem step_downed {p : Phase} (i : Input) (hfresh : Dns.Unpublished (downed p).store) :
    Rerouted (rerouted (p, i)).toList (downed p) (downed (step p i)) := by
  cases p with
  | scanning y =>
    cases i with
    | poll requested scan =>
      cases requested with
      | true => exact .refl _
      | false =>
        rw [step, if_neg Bool.false_ne_true, afterScan_downed]
        exact .refl _
    | tick t => exact .refl _
  | tethering s =>
    cases i with
    | poll requested scan => exact .refl _
    | tick t =>
      have hbody := @Session.body_downed s t hfresh
      rcases hresult : Session.body t s with ⟨e | _, u⟩
      · rw [wp_of_error hresult] at hbody
        rw [step, hresult]
        dsimp only
        rw [afterSession_downed]
        exact hbody
      · rw [wp_of_ok hresult] at hbody
        rw [step, hresult]
        exact hbody
  | returned y => exact .refl _
  | panicked y => exact .refl _

end Muta.Daemon
