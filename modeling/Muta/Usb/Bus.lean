import Muta.Usb.Backend
import Muta.Usb.Descriptor

/-!
# Devices on the bus

The backend as the rest of the program sees it: devices are listed, opened and configured,
and their interfaces claimed and spoken to. Nothing is assumed about what a call returns
or does to the devices. Handles are named by what they were opened with, the endpoints a
call opens are objects of their own, and every call on a device is logged with its result.
-/

namespace Muta.Usb

open Act
set_option autoImplicit false

abbrev DeviceId := UInt64

structure Attached where
  id : DeviceId
  info : DeviceInfo
deriving DecidableEq, Repr

/-- A class request addressed to an interface. -/
structure ControlSetup where
  request : UInt8
  value : UInt16
  index : UInt16
deriving DecidableEq, Repr

/-- A backend over the state `δ` of the bus, opening endpoints `ι` and `ο`. -/
structure UsbBackend (δ ι ο : Type) where
  list : δ → Except UsbError (List Attached) × δ
  openDevice : δ → DeviceId → Except UsbError Unit × δ
  configurations : δ → DeviceId → Except UsbError (List ConfigDescriptor) × δ
  activeConfiguration : δ → DeviceId → Except UsbError UInt8 × δ
  setConfiguration : δ → DeviceId → UInt8 → Except UsbError Unit × δ
  claimInterface : δ → DeviceId → UInt8 → Except UsbError Unit × δ
  setAltSetting : δ → DeviceId → UInt8 → UInt8 → Except UsbError Unit × δ
  controlOut : δ → DeviceId → UInt8 → ControlSetup → Bytes → Duration → Except UsbError Unit × δ
  controlIn : δ → DeviceId → UInt8 → ControlSetup → UInt16 → Duration → Except UsbError Bytes × δ
  openIn : δ → DeviceId → UInt8 → UInt8 → TransferType → Except UsbError ι × δ
  openOut : δ → DeviceId → UInt8 → UInt8 → TransferType → Except UsbError ο × δ

/-- A call on one device. Interfaces are named by their numbers. -/
inductive Op where
  | openDevice (id : DeviceId)
  | activeConfiguration
  | setConfiguration (value : UInt8)
  | claimInterface (number : UInt8)
  | setAltSetting (number alt : UInt8)
  | controlOut (number : UInt8) (setup : ControlSetup) (data : Bytes) (timeout : Duration)
  | controlIn (number : UInt8) (setup : ControlSetup) (len : UInt16) (timeout : Duration)
  | openIn (number address : UInt8) (ty : TransferType)
  | openOut (number address : UInt8) (ty : TransferType)
deriving DecidableEq, Repr

/-- A call with its result; what a read returned is kept. -/
structure Done where
  op : Op
  result : Except UsbError Bytes
deriving DecidableEq

structure Bus (δ : Type) where
  dev : δ
  log : List Done

namespace Bus

variable {ω δ α : Type}

/-- Make a call and log it, with the bytes it returns if it does. -/
def call (op : Op) (bytes : α → Bytes) (f : δ → Except UsbError α × δ) :
    Act ω (Bus δ) (Except UsbError α) := .apply fun b =>
  let r := f b.dev
  (r.1, { dev := r.2, log := b.log ++ [⟨op, r.1.map bytes⟩] })

def run (op : Op) (f : δ → Except UsbError α × δ) : Act ω (Bus δ) (Except UsbError α) :=
  call op (fun _ => []) f

end Bus

end Muta.Usb
