import Muta.Base.Bytes
import Muta.Base.Text

/-!
# What a device says about itself

A device is named by its own string descriptors, which may hold any character. Its
configurations list interfaces, and these their endpoints and class-specific bytes.
-/

namespace Muta.Usb

set_option autoImplicit false

/-- A number in lower-case hexadecimal, filled up to four digits. -/
def hex4 (n : UInt16) : Text :=
  let digits := Nat.toDigits 16 n.toNat
  List.replicate (4 - digits.length) '0' ++ digits

structure DeviceInfo where
  vendorId : UInt16
  productId : UInt16
  manufacturer : Option Text
  product : Option Text
deriving DecidableEq, Repr

namespace DeviceInfo

variable (info : DeviceInfo)

def name : Text :=
  match info.manufacturer, info.product with
  | some m, some p => m ++ [' '] ++ p
  | none, some p => p
  | some m, none => m
  | none, none => "unknown device".toList

def label : Text :=
  info.name ++ " (".toList ++ hex4 info.vendorId ++ [':'] ++ hex4 info.productId ++ [')']

end DeviceInfo

inductive TransferType where
  | control
  | isochronous
  | bulk
  | interrupt
deriving DecidableEq, Repr

inductive Direction where
  | dirIn
  | dirOut
deriving DecidableEq, Repr

structure EndpointDescriptor where
  address : UInt8
  transferType : TransferType
  maxPacketSize : UInt16
deriving DecidableEq, Repr

def EndpointDescriptor.direction (e : EndpointDescriptor) : Direction :=
  if e.address &&& 0x80 ≠ 0 then .dirIn else .dirOut

structure InterfaceDescriptor where
  number : UInt8
  altSetting : UInt8
  classCode : UInt8
  subclass : UInt8
  protocol : UInt8
  endpoints : List EndpointDescriptor
  extra : Bytes
deriving DecidableEq, Repr

def InterfaceDescriptor.endpoint (i : InterfaceDescriptor) (ty : TransferType) (dir : Direction) :
    Option EndpointDescriptor :=
  i.endpoints.find? fun e => e.transferType = ty ∧ e.direction = dir

structure ConfigDescriptor where
  value : UInt8
  interfaces : List InterfaceDescriptor
deriving DecidableEq, Repr

end Muta.Usb
