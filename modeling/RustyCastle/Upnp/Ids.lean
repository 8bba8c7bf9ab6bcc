import RustyCastle.Foundation.Decimal

/-!
UPnP identifiers and their display forms.
-/

namespace RustyCastle.Upnp
open Foundation

/-- A device type, written `urn:<domain>:device:<kind>:<version>`. -/
structure DeviceTypeRef where
  domain : Str
  kind : Str
  version : UInt32
  deriving DecidableEq, Repr

def DeviceTypeRef.fmt (value : DeviceTypeRef) : Str :=
  "urn:".toList ++ value.domain ++ ":device:".toList ++ value.kind ++ [':'] ++
    Decimal.numeral value.version.toNat

/-- A service type, written `urn:<domain>:service:<kind>:<version>`. -/
structure ServiceTypeRef where
  domain : Str
  kind : Str
  version : UInt32
  deriving DecidableEq, Repr

def ServiceTypeRef.fmt (value : ServiceTypeRef) : Str :=
  "urn:".toList ++ value.domain ++ ":service:".toList ++ value.kind ++ [':'] ++
    Decimal.numeral value.version.toNat

/-- A unique device name without its `uuid:` prefix. -/
structure UdnRef where
  uuid : Str
  deriving DecidableEq, Repr

def UdnRef.fmt (value : UdnRef) : Str := "uuid:".toList ++ value.uuid

end RustyCastle.Upnp
