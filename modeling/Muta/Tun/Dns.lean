import Muta.Tun.Net

/-!
# The tunnel's network service

The tunnel is published as a service in the system's dynamic store, as one entry or two:
its address with the router, and the resolvers if the lease has any.
-/

namespace Muta.Tun

open Act Netstack
set_option autoImplicit false

variable (o : Outcomes)

def storeSet (key : Text) (value : List (Text × Value)) : HostM Bool :=
  if o.fails (.setStore key) then
    return false
  else do
    update fun h => { h with store := h.store.insert key value }
    return true

def storeRemove (key : Text) : HostM Bool := do
  if key ∈ (← state).store then
    update fun h => { h with store := h.store.erase key }
    return true
  else
    return false

def serviceId : Text := "muta".toList

def serviceKey (entity : Text) : Text :=
  "State:/Network/Service/".toList ++ serviceId ++ ['/'] ++ entity

def ipv4Key : Text := serviceKey "IPv4".toList

def dnsKey : Text := serviceKey "DNS".toList

theorem ipv4Key_ne_dnsKey : ipv4Key ≠ dnsKey := by decide

structure Dns where
  keys : List Text
deriving DecidableEq, Repr

namespace Dns

def set (dns : Dns) (key : Text) (value : List (Text × Value)) : HostM Dns := do
  if ← storeSet o key value then
    return ⟨dns.keys ++ [key]⟩
  else
    stop (.failed (.setStore key))

def remove (dns : Dns) (h : Host) : Host := dns.keys.foldl (fun h key => (storeRemove key h).2) h

section Install

variable (interface : Text) (address router : Ipv4Addr) (servers : List Ipv4Addr)
  (domain : Option String)

def ipv4Entry : List (Text × Value) :=
  [("Addresses".toList, .array [address.text]),
    ("SubnetMasks".toList, .array ["255.255.255.255".toList]),
    ("Router".toList, .text router.text), ("InterfaceName".toList, .text interface)]

def dnsEntry : List (Text × Value) :=
  [("ServerAddresses".toList, .array (servers.map Ipv4Addr.text))] ++
    match domain with
    | some domain => [("DomainName".toList, .text domain.toList),
        ("SearchDomains".toList, .array [domain.toList])]
    | none => []

def install : HostM Dns := do
  call o .openStore
  let dns : Dns := ⟨[]⟩
  let dns ← dropping dns.remove
    (dns.set o ipv4Key (ipv4Entry interface address router))
  if servers.isEmpty then
    return dns
  dropping dns.remove (dns.set o dnsKey (dnsEntry servers domain))

def entries : List (Text × List (Text × Value)) :=
  (ipv4Key, ipv4Entry interface address router) ::
    if servers.isEmpty then [] else [(dnsKey, dnsEntry servers domain)]

end Install

section Effects

variable {o} {h : Host} {key : Text}

theorem storeRemove_snd : (storeRemove key h).2 = { h with store := h.store.erase key } := by
  by_cases hkey : key ∈ h.store
  · simp [storeRemove, bind_apply, hkey]
  · have hsame := Table.erase_of_notMem hkey
    simp [storeRemove, bind_apply, hkey, hsame]

theorem remove_eq (dns : Dns) :
    dns.remove h = { h with store := Table.eraseAll dns.keys h.store } := by
  obtain ⟨keys⟩ := dns
  unfold remove
  induction keys generalizing h with
  | nil => rfl
  | cons key keys ih =>
    rw [List.foldl_cons, storeRemove_snd]
    exact ih

theorem set_ok {dns : Dns} {value : List (Text × Value)} (hset : o.fails (.setStore key) = false) :
    dns.set o key value h =
      (.ok ⟨dns.keys ++ [key]⟩, { h with store := h.store.insert key value }) := by
  simp [set, storeSet, hset, bind_apply]

theorem set_failed {dns : Dns} {value : List (Text × Value)}
    (hset : o.fails (.setStore key) = true) :
    dns.set o key value h = (.error (.failed (.setStore key)), h) := by
  simp [set, storeSet, hset, bind_apply, stop]

variable {interface : Text} {address router : Ipv4Addr} {servers : List Ipv4Addr}
  {domain : Option String}

theorem entries_keys {key : Text}
    (hkey : key ∈ (entries interface address router servers domain).map Prod.fst) :
    ∃ entity, key = serviceKey entity := by
  unfold entries at hkey
  split at hkey
  · rw [List.map_singleton, List.mem_singleton] at hkey
    exact ⟨_, hkey⟩
  · rw [List.map_cons, List.map_singleton, List.mem_cons, List.mem_singleton] at hkey
    rcases hkey with hkey | hkey
    · exact ⟨_, hkey⟩
    · exact ⟨_, hkey⟩

theorem entries_nodup : ((entries interface address router servers domain).map Prod.fst).Nodup := by
  unfold entries
  split
  · exact List.nodup_singleton _
  · exact List.nodup_cons.mpr ⟨by simpa using ipv4Key_ne_dnsKey, List.nodup_singleton _⟩

theorem remove_nil : (⟨[]⟩ : Dns).remove h = h := remove_eq ⟨[]⟩

def Unpublished (store : Table Text (List (Text × Value))) : Prop :=
  ∀ entity, serviceKey entity ∉ store

/-- Either the whole service is published or nothing of it is left. -/
theorem wp_install {Q : Dns → Host → Prop} {E : Error → Host → Prop}
    (hok : Q ⟨(entries interface address router servers domain).map Prod.fst⟩ { h with
      store := Table.insertAll (entries interface address router servers domain) h.store })
    (herror : ∀ e store, (Unpublished h.store → store = h.store) → E e { h with store := store }) :
    wp (install o interface address router servers domain) Q E h := by
  rw [install, wp_bind, wp_call]
  refine ⟨fun _ => ?_, fun _ => herror _ h.store fun _ => rfl⟩
  rw [wp_bind, wp_dropping]
  cases hipv4 : o.fails (.setStore ipv4Key) with
  | true =>
    rw [wp_of_error (set_failed hipv4), remove_nil]
    exact herror _ h.store fun _ => rfl
  | false =>
    rw [wp_of_ok (set_ok hipv4)]
    unfold entries at hok
    by_cases hservers : servers.isEmpty
    · rw [if_pos hservers] at hok ⊢
      exact hok
    · rw [if_neg hservers] at hok ⊢
      rw [wp_dropping]
      cases hdns : o.fails (.setStore dnsKey) with
      | true =>
        rw [wp_of_error (set_failed hdns), remove_eq]
        apply herror
        intro hfresh
        exact Table.erase_insert (hfresh _) (ipv4Entry interface address router)
      | false =>
        rw [wp_of_ok (set_ok hdns)]
        exact hok

end Effects

end Dns

end Muta.Tun
