import RustyCastle.Upnp.Device
import RustyCastle.Upnp.Scpd
import RustyCastle.UpnpAv.ConnectionManager
import RustyCastle.UpnpAv.ContentDirectory

/-!
The device and service description documents of the server. Writing into a
string does not fail, so the builders give the text itself.
-/

namespace RustyCastle.Server
open Foundation RustyCastle.Upnp RustyCastle.UpnpAv

structure ServerConfig where
  baseUrl : Str
  uuid : Str
  friendlyName : Str
  manufacturer : Str
  modelName : Str
  deriving DecidableEq, Repr

def ServerConfig.new (baseUrl uuid friendlyName : Str) : ServerConfig where
  baseUrl := baseUrl
  uuid := uuid
  friendlyName := friendlyName
  manufacturer := "upnp-forge".toList
  modelName := "rusty-castle".toList

def contentDirectoryServiceRef : ServiceRef where
  serviceType := contentDirectoryService
  serviceId := "urn:upnp-org:serviceId:ContentDirectory".toList
  scpdUrl := "/ContentDirectory/scpd.xml".toList
  controlUrl := "/ContentDirectory/control".toList
  eventSubUrl := "/ContentDirectory/event".toList

def connectionManagerServiceRef : ServiceRef where
  serviceType := connectionManagerService
  serviceId := "urn:upnp-org:serviceId:ConnectionManager".toList
  scpdUrl := "/ConnectionManager/scpd.xml".toList
  controlUrl := "/ConnectionManager/control".toList
  eventSubUrl := "/ConnectionManager/event".toList

def packageVersion : Str := "0.0.1".toList

/-- Builds `/device.xml`. -/
def deviceXml (config : ServerConfig) : Str :=
  let deviceType : DeviceTypeRef :=
    { domain := "schemas-upnp-org".toList, kind := "MediaServer".toList, version := 1 }
  deviceDescriptionToString
    { urlBase := some config.baseUrl
      specVersion := .default
      device := .mk deviceType config.friendlyName config.manufacturer none
        (some "Rust UPnP AV MediaServer".toList) config.modelName (some packageVersion) none none
        { uuid := config.uuid } none (some "DMS-1.50".toList) none []
        [contentDirectoryServiceRef, connectionManagerServiceRef] [] }

def argument (name : String) (direction : Scpd.ArgumentDirection) (relatedStateVariable : String) :
    Scpd.ArgumentRef where
  name := name.toList
  direction := direction
  relatedStateVariable := relatedStateVariable.toList

def variableRef (name dataType : String) : Scpd.StateVariableRef where
  sendEvents := false
  name := name.toList
  dataType := dataType.toList
  defaultValue := none
  allowedValues := none

/-- Builds `/ContentDirectory/scpd.xml`. -/
def contentDirectoryScpdXml : Str :=
  Scpd.scpdToString
    { major := 1
      minor := 0
      actions :=
        [{ name := "Browse".toList
           arguments :=
            [argument "ObjectID" .input "A_ARG_TYPE_ObjectID",
              argument "BrowseFlag" .input "A_ARG_TYPE_BrowseFlag",
              argument "Filter" .input "A_ARG_TYPE_Filter",
              argument "StartingIndex" .input "A_ARG_TYPE_Index",
              argument "RequestedCount" .input "A_ARG_TYPE_Count",
              argument "SortCriteria" .input "A_ARG_TYPE_SortCriteria",
              argument "Result" .output "A_ARG_TYPE_Result",
              argument "NumberReturned" .output "A_ARG_TYPE_Count",
              argument "TotalMatches" .output "A_ARG_TYPE_Count",
              argument "UpdateID" .output "A_ARG_TYPE_UpdateID"] },
          { name := "GetSearchCapabilities".toList
            arguments := [argument "SearchCaps" .output "A_ARG_TYPE_Filter"] },
          { name := "GetSortCapabilities".toList
            arguments := [argument "SortCaps" .output "A_ARG_TYPE_SortCriteria"] },
          { name := "GetSystemUpdateID".toList
            arguments := [argument "Id" .output "A_ARG_TYPE_UpdateID"] }]
      stateVariables :=
        [variableRef "A_ARG_TYPE_ObjectID" "string", variableRef "A_ARG_TYPE_BrowseFlag" "string",
          variableRef "A_ARG_TYPE_Filter" "string", variableRef "A_ARG_TYPE_SortCriteria" "string",
          variableRef "A_ARG_TYPE_Result" "string", variableRef "A_ARG_TYPE_Index" "ui4",
          variableRef "A_ARG_TYPE_Count" "ui4", variableRef "A_ARG_TYPE_UpdateID" "ui4",
          { sendEvents := true
            name := "SystemUpdateID".toList
            dataType := "ui4".toList
            defaultValue := some "0".toList
            allowedValues := none }] }

/-- Builds `/ConnectionManager/scpd.xml`. -/
def connectionManagerScpdXml : Str :=
  Scpd.scpdToString
    { major := 1
      minor := 0
      actions :=
        [{ name := "GetProtocolInfo".toList
           arguments :=
            [argument "Source" .output "SourceProtocolInfo",
              argument "Sink" .output "SinkProtocolInfo"] },
          { name := "GetCurrentConnectionIDs".toList
            arguments := [argument "ConnectionIDs" .output "CurrentConnectionIDs"] }]
      stateVariables :=
        [variableRef "SourceProtocolInfo" "string", variableRef "SinkProtocolInfo" "string",
          variableRef "CurrentConnectionIDs" "string"] }

end RustyCastle.Server
