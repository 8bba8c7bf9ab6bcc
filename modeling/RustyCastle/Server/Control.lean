import RustyCastle.Server.Catalog
import RustyCastle.UpnpAv.ConnectionManager
import RustyCastle.UpnpAv.ContentDirectory

/-!
SOAP control dispatch. Writing into a string does not fail, so the error of a
failed write has no branch that gives it.
-/

namespace RustyCastle.Server
open Foundation RustyCastle.Dlna RustyCastle.Upnp RustyCastle.UpnpAv

structure ControlResponse where
  body : Str
  statusCode : UInt16
  deriving DecidableEq, Repr

inductive ControlError where
  | badRequest
  | invalidAction
  | noSuchObject
  | writeFailed
  deriving DecidableEq, Repr

/-- The SOAP fault of an error. -/
def ControlError.intoResponse (error : ControlError) : ControlResponse :=
  let (code, desc) : UInt32 × Str := match error with
    | .badRequest => (402, "Invalid Args".toList)
    | .invalidAction => (401, "Invalid Action".toList)
    | .noSuchObject => (701, "No Such Object".toList)
    | .writeFailed => (501, "Action Failed".toList)
  { body := writeFault code desc, statusCode := 500 }

def okResponse (body : Str) : ControlResponse := { body := body, statusCode := 200 }

/-! Objects -/

def resourceForItem (item : MediaItem) : ResourceRef where
  url := item.url
  protocolInfo := item.protocolInfo
  size := item.size
  duration := item.duration

def objectForItem (item : MediaItem) (resources : List ResourceRef) : ObjectRef where
  id := item.id
  parentId := item.parentId
  restricted := true
  title := item.title
  upnpClass := .videoItem
  childCount := none
  resources := resources

def objectForContainer (catalog : StaticCatalog) (container : MediaContainer) : ObjectRef where
  id := container.id
  parentId := container.parentId
  restricted := true
  title := container.title
  upnpClass := .container
  childCount := some (catalog.childCount container.id)
  resources := []

def rootObject (catalog : StaticCatalog) : ObjectRef where
  id := "0".toList
  parentId := "-1".toList
  restricted := true
  title := "Media".toList
  upnpClass := .container
  childCount := some (catalog.childCount "0".toList)
  resources := []

def itemObject (item : MediaItem) : ObjectRef := objectForItem item [resourceForItem item]

/-- The children of an object, containers first. -/
def childrenObjects (catalog : StaticCatalog) (parentId : Str) : List ObjectRef :=
  (catalog.childContainers parentId).map (objectForContainer catalog) ++
    (catalog.childItems parentId).map itemObject

def rootDidl (catalog : StaticCatalog) : Str := didlToString [rootObject catalog]

def childrenDidl (catalog : StaticCatalog) (parentId : Str) : Str :=
  didlToString (childrenObjects catalog parentId)

def containerDidl (catalog : StaticCatalog) (container : MediaContainer) : Str :=
  didlToString [objectForContainer catalog container]

def itemDidl (item : MediaItem) : Str := didlToString [itemObject item]

def emptyDidl : Str := didlToString []

/-! Actions -/

/-- The first argument of the name. -/
def arg (action : ActionRequestRef) (name : Str) : Option Str :=
  (action.arguments.find? fun arg => arg.name == name).map ArgumentRef.value

/-- The listing that a browse request gives, with the number of objects returned
and the number of matches. -/
def browseResult (catalog : StaticCatalog) (objectId : Str) (flag : BrowseFlag) :
    Except ControlError (Str × UInt32 × UInt32) :=
  if objectId = "0".toList then
    match flag with
    | .metadata => .ok (rootDidl catalog, 1, 1)
    | .directChildren =>
        let count := catalog.childCount "0".toList
        .ok (childrenDidl catalog "0".toList, count, count)
  else
    match flag with
    | .metadata =>
        match catalog.container objectId with
        | some container => .ok (containerDidl catalog container, 1, 1)
        | none =>
            match catalog.item objectId with
            | some item => .ok (itemDidl item, 1, 1)
            | none => .error .noSuchObject
    | .directChildren =>
        if (catalog.container objectId).isSome then
          let count := catalog.childCount objectId
          .ok (childrenDidl catalog objectId, count, count)
        else if (catalog.item objectId).isSome then .ok (emptyDidl, 0, 0)
        else .error .noSuchObject

def browse (action : ActionRequestRef) (catalog : StaticCatalog) :
    Except ControlError ControlResponse := do
  let objectId := (arg action "ObjectID".toList).getD "0".toList
  let flag := ((arg action "BrowseFlag".toList).bind BrowseFlag.parse).getD .directChildren
  let (result, numberReturned, totalMatches) ← browseResult catalog objectId flag
  .ok (okResponse (writeBrowseResponse
    { result := result
      numberReturned := numberReturned
      totalMatches := totalMatches
      updateId := catalog.updateId }))

def emptyCdResponse (actionName argName : Str) : ControlResponse :=
  okResponse (writeActionResponse contentDirectoryService actionName
    [{ name := argName, value := [] }])

def handleContentDirectory (action : ActionRequestRef) (catalog : StaticCatalog) :
    Except ControlError ControlResponse :=
  if action.actionName = "Browse".toList then browse action catalog
  else if action.actionName = "GetSystemUpdateID".toList then
    .ok (okResponse (writeSystemUpdateIdResponse catalog.updateId))
  else if action.actionName = "GetSearchCapabilities".toList then
    .ok (emptyCdResponse "GetSearchCapabilities".toList "SearchCaps".toList)
  else if action.actionName = "GetSortCapabilities".toList then
    .ok (emptyCdResponse "GetSortCapabilities".toList "SortCaps".toList)
  else .error .invalidAction

/-- The protocolInfo values of the items, each once in order of appearance. -/
def collectProtocolInfo (catalog : StaticCatalog) : List ProtocolInfoRef :=
  let infos := catalog.items.foldl
    (fun infos item =>
      if infos.contains item.protocolInfo then infos else infos ++ [item.protocolInfo]) []
  if infos.isEmpty then [.sonyMp4] else infos

def handleConnectionManager (action : ActionRequestRef) (catalog : StaticCatalog) :
    Except ControlError ControlResponse :=
  if action.actionName = "GetProtocolInfo".toList then
    .ok (okResponse (writeGetProtocolInfoResponse []
      (writeProtocolInfoList (collectProtocolInfo catalog))))
  else if action.actionName = "GetCurrentConnectionIDs".toList then
    .ok (okResponse writeCurrentConnectionIdsResponse)
  else .error .invalidAction

/-- Handles a SOAP control request. -/
def handleControl (soapXml : Str) (catalog : StaticCatalog) : Except ControlError ControlResponse :=
  match parseActionRequest soapXml with
  | .error _ => .error .badRequest
  | .ok action =>
      if action.serviceType.kind = "ContentDirectory".toList then
        handleContentDirectory action catalog
      else if action.serviceType.kind = "ConnectionManager".toList then
        handleConnectionManager action catalog
      else .error .invalidAction

end RustyCastle.Server
