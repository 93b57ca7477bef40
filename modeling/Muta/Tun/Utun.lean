import Muta.Base.Act
import Muta.Base.Bytes
import Muta.Base.Text

/-!
# The utun device

A device is a socket of the kernel's, connected to a unit number that has to be free. The
units are tried one after the other; each attempt opens a descriptor of its own and gives
it back where it fails. The kernel is any state with the four calls, each of which may
fail with any error number.
-/

namespace Muta.Tun

open Act
set_option autoImplicit false

def maxUnit : Nat := 255

def ebusy : Nat := 16
def eaddrinuse : Nat := 48

inductive Syscall where
  | socket
  | ctlInfo
  | connect (unit : Nat)
  | ifname
deriving DecidableEq, Repr

structure OsError where
  call : Syscall
  errno : Nat
deriving DecidableEq, Repr

def Syscall.context : Syscall → Text
  | .socket => "creating a PF_SYSTEM socket".toList
  | .ctlInfo => "looking up the utun control id".toList
  | .connect unit => "connecting to utun".toList ++ Text.decimal unit
  | .ifname => "reading the utun interface name".toList

/-- Whether the failure means that this unit is taken. -/
def isUnitBusy (e : OsError) : Bool := e.errno = ebusy || e.errno = eaddrinuse

/-- The calls on the kernel; a failure is an error number. The kernel's own unit numbers
start from one. -/
structure Kernel (κ : Type) where
  socket : κ → Except Nat Nat × κ
  ctlInfo : κ → Nat → Except Nat UInt32 × κ
  connect : κ → Nat → UInt32 → Nat → Except Nat Unit × κ
  ifname : κ → Nat → Except Nat Bytes × κ

structure Device where
  fd : Nat
  name : Bytes
deriving DecidableEq, Repr

/-- One unit's turn, with the error it failed with if it did. -/
abbrev Attempt := Nat × Option OsError

/-- The kernel's state, the descriptors open in it, and the units' turns so far. -/
structure Sockets (κ : Type) where
  kernel : κ
  fds : List Nat
  attempts : List Attempt

inductive OpenError where
  | os (e : OsError)
  | noFree (last : Option OsError)
deriving DecidableEq, Repr

namespace OpenError

def text : OpenError → Text
  | .os e => e.call.context
  | .noFree last =>
    "no free utun device: ".toList ++ (last.map fun e => e.call.context).getD "unknown".toList

end OpenError

namespace Device

variable {κ : Type} (k : Kernel κ)

def sys {α : Type} (call : Syscall) (f : κ → Except Nat α × κ) : Act OsError (Sockets κ) α := fun s =>
  match f s.kernel with
  | (.ok a, kernel) => (.ok a, { s with kernel })
  | (.error errno, kernel) => (.error ⟨call, errno⟩, { s with kernel })

/-- The name ends at the first NUL. -/
def interfaceName (fd : Nat) : Act OsError (Sockets κ) Bytes := do
  let buf ← sys .ifname fun kernel => k.ifname kernel fd
  return buf.takeWhile fun b => b ≠ 0

/-- The descriptor is closed when the attempt is given up. -/
def openUnit (unit : Nat) : Act OsError (Sockets κ) Device := do
  let fd ← sys .socket k.socket
  update fun s => { s with fds := s.fds ++ [fd] }
  dropping (fun s => { s with fds := s.fds.erase fd }) do
    let id ← sys .ctlInfo fun kernel => k.ctlInfo kernel fd
    sys (.connect unit) fun kernel => k.connect kernel fd id (unit + 1)
    let name ← interfaceName k fd
    return { fd, name }

def note (s : Sockets κ) (a : Attempt) : Sockets κ := { s with attempts := s.attempts ++ [a] }

/-- The loop of `open`, with the units still to be tried. -/
def openFrom (last : Option OsError) : List Nat → Act OpenError (Sockets κ) Device
  | [] => stop (.noFree last)
  | unit :: units => fun s =>
    match openUnit k unit s with
    | (.ok device, s) => (.ok device, note s (unit, none))
    | (.error e, s) =>
      if isUnitBusy e then
        openFrom (some e) units (note s (unit, some e))
      else
        (.error (.os e), note s (unit, some e))

def openFirst : Act OpenError (Sockets κ) Device := openFrom k none (List.range maxUnit)

end Device

namespace Device

variable {κ : Type} (k : Kernel κ)

theorem sys_spec {α : Type} (call : Syscall) (f : κ → Except Nat α × κ) (s : Sockets κ) :
    wp (sys call f) (fun _ t => t.fds = s.fds ∧ t.attempts = s.attempts)
      (fun e t => e.call = call ∧ t.fds = s.fds ∧ t.attempts = s.attempts) s := by
  unfold wp sys
  rcases f s.kernel with ⟨_ | a, kernel⟩
  · exact ⟨rfl, rfl, rfl⟩
  · exact ⟨rfl, rfl⟩

theorem erase_concat_perm (l : List Nat) (a : Nat) : ((l ++ [a]).erase a).Perm l := by
  have hcons : ((l ++ [a]).erase a).Perm ((a :: l).erase a) :=
    (List.perm_append_singleton a l).erase a
  rwa [List.erase_cons_head] at hcons

theorem openUnit_spec (unit : Nat) (s : Sockets κ) :
    wp (openUnit k unit)
      (fun device t => t.fds = s.fds ++ [device.fd] ∧ t.attempts = s.attempts)
      (fun _ t => t.fds.Perm s.fds ∧ t.attempts = s.attempts) s := by
  simp only [openUnit, interfaceName, wp_bind, wp_update, wp_dropping, wp_pure]
  refine wp_mono (sys_spec .socket k.socket s) ?_ ?_
  case refine_2 =>
    intro e t h
    exact ⟨h.2.1 ▸ List.Perm.refl _, h.2.2⟩
  intro fd s₁ h₁
  have hclosed : ∀ {t : Sockets κ}, t.fds = s₁.fds ++ [fd] → (t.fds.erase fd).Perm s.fds := by
    intro t ht
    rw [ht, h₁.1]
    exact erase_concat_perm s.fds fd
  refine wp_mono (sys_spec .ctlInfo _ _) ?_ ?_
  case refine_2 =>
    intro e t h
    exact ⟨hclosed h.2.1, h.2.2.trans h₁.2⟩
  intro id s₂ h₂
  refine wp_mono (sys_spec (.connect unit) _ _) ?_ ?_
  case refine_2 =>
    intro e t h
    exact ⟨hclosed (h.2.1.trans h₂.1), (h.2.2.trans h₂.2).trans h₁.2⟩
  intro _ s₃ h₃
  refine wp_mono (sys_spec .ifname _ _) ?_ ?_
  · intro buf s₄ h₄
    refine ⟨?_, ((h₄.2.trans h₃.2).trans h₂.2).trans h₁.2⟩
    rw [h₄.1, h₃.1, h₂.1, h₁.1]
  · intro e t h
    exact ⟨hclosed ((h.2.1.trans h₃.1).trans h₂.1), ((h.2.2.trans h₃.2).trans h₂.2).trans h₁.2⟩

section Turns

variable (last : Option OsError) {unit : Nat} {units : List Nat} {s t : Sockets κ}

theorem openFrom_ok {device : Device} (h : openUnit k unit s = (.ok device, t)) :
    openFrom k last (unit :: units) s = (.ok device, note t (unit, none)) := by
  simp only [openFrom, h]

theorem openFrom_busy {e : OsError} (h : openUnit k unit s = (.error e, t)) (hbusy : isUnitBusy e = true) :
    openFrom k last (unit :: units) s = openFrom k (some e) units (note t (unit, some e)) := by
  simp only [openFrom, h, if_pos hbusy]

theorem openFrom_failed {e : OsError} (h : openUnit k unit s = (.error e, t))
    (hbusy : ¬ isUnitBusy e = true) :
    openFrom k last (unit :: units) s = (.error (.os e), note t (unit, some e)) := by
  simp only [openFrom, h, if_neg hbusy]

end Turns

def turns (first : Nat) : List OsError → List Attempt
  | [] => []
  | e :: busy => (first, some e) :: turns (first + 1) busy

/-- How trying `count` units from `first` on ends: the first that is not busy decides. The
attempts are listed, and the descriptors that are left open. -/
inductive Ended (s : Sockets κ) (last : Option OsError) (first count : Nat) (busy : List OsError) :
    Except OpenError Device → Sockets κ → Prop where
  | free {t : Sockets κ} (device : Device) : busy.length < count →
      t.attempts = s.attempts ++ turns first busy ++ [(first + busy.length, none)] →
      t.fds.Perm (device.fd :: s.fds) → Ended s last first count busy (.ok device) t
  | failed {t : Sockets κ} (e : OsError) : busy.length < count → isUnitBusy e = false →
      t.attempts = s.attempts ++ turns first busy ++ [(first + busy.length, some e)] →
      t.fds.Perm s.fds → Ended s last first count busy (.error (.os e)) t
  | taken {t : Sockets κ} : busy.length = count → t.attempts = s.attempts ++ turns first busy →
      t.fds.Perm s.fds →
      Ended s last first count busy (.error (.noFree (busy.getLast?.or last))) t

theorem Ended.next {s t u : Sockets κ} {last : Option OsError} {first count : Nat} {e : OsError}
    {busy : List OsError} {r : Except OpenError Device}
    (h : Ended (note t (first, some e)) (some e) (first + 1) count busy r u)
    (hfds : t.fds.Perm s.fds) (hattempts : t.attempts = s.attempts) :
    Ended s last first (count + 1) (e :: busy) r u := by
  have hturns : (note t (first, some e)).attempts ++ turns (first + 1) busy =
      s.attempts ++ turns first (e :: busy) := by
    rw [note, hattempts, turns]
    simp
  have hunit : first + 1 + busy.length = first + (e :: busy).length := by
    rw [List.length_cons]
    omega
  cases h with
  | free device hlt hlog hperm =>
    refine .free device (Nat.succ_lt_succ hlt) ?_ (hperm.trans (hfds.cons device.fd))
    rw [hlog, hturns, hunit]
  | failed x hlt hbusy hlog hperm =>
    refine .failed x (Nat.succ_lt_succ hlt) hbusy ?_ (hperm.trans hfds)
    rw [hlog, hturns, hunit]
  | taken heq hlog hperm =>
    have hlast : busy.getLast?.or (some e) = (e :: busy).getLast?.or last := by
      rw [List.getLast?_cons]
      cases busy.getLast? <;> rfl
    rw [hlast]
    refine .taken (congrArg Nat.succ heq) ?_ (hperm.trans hfds)
    rw [hlog, hturns]

theorem openFrom_spec (last : Option OsError) (first count : Nat) (s : Sockets κ) :
    ∃ busy, (∀ e ∈ busy, isUnitBusy e = true) ∧
      Ended s last first count busy (openFrom k last (List.range' first count) s).1
        (openFrom k last (List.range' first count) s).2 := by
  induction count generalizing first last s with
  | zero =>
    refine ⟨[], List.forall_mem_nil _, ?_⟩
    exact .taken rfl (List.append_nil _).symm (List.Perm.refl _)
  | succ count ih =>
    have hunit := openUnit_spec k first s
    unfold wp at hunit
    rw [List.range'_succ]
    rcases hopen : openUnit k first s with ⟨e | device, t⟩
    · rw [hopen] at hunit
      by_cases hbusy : isUnitBusy e = true
      · rw [openFrom_busy k last hopen hbusy]
        obtain ⟨busy, hall, hended⟩ := ih (some e) (first + 1) (note t (first, some e))
        refine ⟨e :: busy, ?_, hended.next hunit.1 hunit.2⟩
        intro x hx
        rcases List.mem_cons.mp hx with rfl | hx
        · exact hbusy
        · exact hall x hx
      · rw [openFrom_failed k last hopen hbusy]
        refine ⟨[], List.forall_mem_nil _, ?_⟩
        apply Ended.failed e (Nat.succ_pos count) (Bool.eq_false_iff.mpr hbusy)
        · rw [note, hunit.2]
          exact congrArg (· ++ [(first, some e)]) (List.append_nil _).symm
        · exact hunit.1
    · rw [hopen] at hunit
      rw [openFrom_ok k last hopen]
      refine ⟨[], List.forall_mem_nil _, ?_⟩
      apply Ended.free device (Nat.succ_pos count)
      · rw [note, hunit.2]
        exact congrArg (· ++ [(first, none)]) (List.append_nil _).symm
      · rw [note, hunit.1]
        exact List.perm_append_singleton device.fd s.fds

/-- Opening a device. Whatever the kernel answers, the units are tried in order from zero,
the first one that is not busy decides, and if all 255 are, the last of them gives the
reason; a descriptor is left open only for the device that is returned. -/
theorem openFirst_exact (s : Sockets κ) :
    ∃ busy, (∀ e ∈ busy, isUnitBusy e = true) ∧
      Ended s none 0 255 busy (openFirst k s).1 (openFirst k s).2 := by
  rw [openFirst, List.range_eq_range']
  exact openFrom_spec k none 0 maxUnit s

end Device

def afInet : UInt32 := 2
def afInet6 : UInt32 := 30

/-- The address family of a packet, by its version. -/
def family (packet : Bytes) : Option UInt32 :=
  match packet.head?.map fun (b : UInt8) => b >>> 4 with
  | some 4 => some afInet
  | some 6 => some afInet6
  | _ => none

/-- What `Utun::write` hands to the device; packets of no version are ignored. -/
def framed (packet : Bytes) : Option Bytes := (family packet).map fun f => u32beBytes f ++ packet

end Muta.Tun
