import RustyCastle.Dlna.ProtocolInfo
import RustyCastle.Upnp.Soap

/-!
The ConnectionManager responses.
-/

namespace RustyCastle.UpnpAv
open Foundation RustyCastle.Upnp RustyCastle.Dlna

def connectionManagerService : ServiceTypeRef where
  domain := "schemas-upnp-org".toList
  kind := "ConnectionManager".toList
  version := 1

/-- Writes a comma-separated protocolInfo list. -/
def writeProtocolInfoList (values : List ProtocolInfoRef) : Str :=
  [','].intercalate (values.map ProtocolInfoRef.fmt)

def writeGetProtocolInfoResponse (sink source : Str) : Str :=
  writeActionResponse connectionManagerService "GetProtocolInfo".toList
    [{ name := "Source".toList, value := source }, { name := "Sink".toList, value := sink }]

def writeCurrentConnectionIdsResponse : Str :=
  writeActionResponse connectionManagerService "GetCurrentConnectionIDs".toList
    [{ name := "ConnectionIDs".toList, value := "0".toList }]

end RustyCastle.UpnpAv
