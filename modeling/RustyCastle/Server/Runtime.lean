import RustyCastle.MediaHttp.Response
import RustyCastle.Server.Description
import RustyCastle.Server.Scan
import RustyCastle.Server.Ui

/-!
The HTTP side of the server: the library state, the routes and their responses.
A lock is poisoned when a writer panicked; reading it is then an error. The
capture of interactions to a file is left out.
-/

namespace RustyCastle.Server
open Foundation RustyCastle.MediaHttp

structure RuntimeConfig where
  publicBaseUrl : Str
  uuid : Str
  friendlyName : Str
  mediaDir : Path
  webUiEnabled : Bool
  deriving DecidableEq

/-- What the command line serves without options, from the current directory. -/
def RuntimeConfig.default : RuntimeConfig where
  publicBaseUrl := "http://127.0.0.1:49152/".toList
  uuid := "550e8400-e29b-41d4-a716-446655440000".toList
  friendlyName := "Rusty Castle".toList
  mediaDir := []
  webUiEnabled := false

structure RuntimeState where
  config : ServerConfig
  catalog : StaticCatalog
  media : List ServedMedia
  webUiEnabled : Bool
  deriving DecidableEq

namespace RuntimeState

/-- A state from explicit media entries. -/
def new (config : ServerConfig) (media : List ServedMedia) : RuntimeState where
  config := config
  catalog := .fromItems (media.map ServedMedia.item)
  media := media
  webUiEnabled := false

/-- The state of a scanned library. -/
def ofScanned (config : RuntimeConfig) (scanned : ScannedMediaTree) : RuntimeState where
  config := .new config.publicBaseUrl config.uuid config.friendlyName
  catalog := .fromParts scanned.containers (scanned.media.map ServedMedia.item)
  media := scanned.media
  webUiEnabled := config.webUiEnabled

/-- Scans the configured media directory. -/
def scan (fs : FileSystem) (depth : Nat) (config : RuntimeConfig) : Scan RuntimeState := do
  let scanned ← scanMediaTree fs config.publicBaseUrl depth config.mediaDir
  pure (ofScanned config scanned)

def mediaById (state : RuntimeState) (id : Str) : Option ServedMedia :=
  state.media.find? fun entry => entry.item.id == id

/-- An identifier that no entry has is read as a position, counted from one. -/
def mediaByIdOrLegacyIndex (state : RuntimeState) (id : Str) : Option ServedMedia :=
  (state.mediaById id).or do
    let index ← Decimal.parseUnsigned 64 id
    if index = 0 then none else state.media[index - 1]?

def deviceLocation (state : RuntimeState) : Str := state.config.baseUrl ++ "device.xml".toList

end RuntimeState

/-! Shared state -/

structure RwLock (α : Type) where
  value : α
  poisoned : Bool

def RwLock.read {α : Type} (lock : RwLock α) (message : String) : Except IoError α :=
  if lock.poisoned then .error { message := message.toList } else .ok lock.value

structure SharedRuntimeState where
  config : RuntimeConfig
  current : RwLock RuntimeState
  scanStatus : RwLock ScanStatus

namespace SharedRuntimeState

/-- The state of a server whose library was just scanned. -/
def new (config : RuntimeConfig) (current : RuntimeState) (now : Int) (initialScanDuration : Nat) :
    SharedRuntimeState where
  config := config
  current := { value := current, poisoned := false }
  scanStatus :=
    { value :=
        { lastScanTime := some now
          lastScanDuration := some initialScanDuration
          itemCount := current.catalog.items.length
          error := none }
      poisoned := false }

def getCurrent (state : SharedRuntimeState) : Except IoError RuntimeState :=
  state.current.read "runtime state lock poisoned"

def getScanStatus (state : SharedRuntimeState) : Except IoError ScanStatus :=
  state.scanStatus.read "scan status lock poisoned"

def updateScanStatus (state : SharedRuntimeState) (next : ScanStatus) :
    Except IoError Unit × SharedRuntimeState :=
  match state.getScanStatus with
  | .error e => (.error e, state)
  | .ok _ => (.ok (), { state with scanStatus := { state.scanStatus with value := next } })

def replaceLibrary (state : SharedRuntimeState) (next : RuntimeState) (now : Int)
    (duration : Nat) : Except IoError Unit × SharedRuntimeState :=
  match state.getCurrent with
  | .error e => (.error e, state)
  | .ok _ =>
      updateScanStatus { state with current := { state.current with value := next } }
        { lastScanTime := some now
          lastScanDuration := some duration
          itemCount := next.catalog.items.length
          error := none }

def recordScanError (state : SharedRuntimeState) (error : Str) (now : Int) (duration : Nat) :
    Except IoError Unit × SharedRuntimeState :=
  match state.getCurrent with
  | .error e => (.error e, state)
  | .ok current =>
      state.updateScanStatus
        { lastScanTime := some now
          lastScanDuration := some duration
          itemCount := current.catalog.items.length
          error := some error }

end SharedRuntimeState

/-! Requests and responses -/

structure HttpRequest where
  method : Str
  path : Str
  headers : List (Str × Str)
  body : Str
  deriving DecidableEq, Repr

def HttpRequest.header (request : HttpRequest) (name : Str) : Option Str :=
  (request.headers.find? fun h => Str.eqIgnoreAsciiCase h.1 name).map Prod.snd

structure HttpResponse where
  status : Nat
  contentType : Str
  headers : List (Str × Str)
  body : List UInt8
  deriving DecidableEq, Repr

namespace HttpResponse

def empty (status : Nat) (contentType : Str) : HttpResponse where
  status := status
  contentType := contentType
  headers := []
  body := []

def new (status : Nat) (contentType : Str) (body : List UInt8) : HttpResponse :=
  { empty status contentType with
    headers := [("Content-Length".toList, Decimal.numeral body.length)]
    body := body }

end HttpResponse

def statusCode : ResponseStatus → Nat
  | .ok => 200
  | .partialContent => 206
  | .rangeNotSatisfiable => 416

def reasonPhrase (status : Nat) : Str :=
  if status = 200 then "OK".toList
  else if status = 303 then "See Other".toList
  else if status = 206 then "Partial Content".toList
  else if status = 404 then "Not Found".toList
  else if status = 416 then "Range Not Satisfiable".toList
  else if status = 500 then "Internal Server Error".toList
  else "OK".toList

def formatContentRange : ContentRange → Str
  | .bytes start stop completeLen =>
      "bytes ".toList ++ Decimal.numeral start ++ '-' :: Decimal.numeral stop ++
        '/' :: Decimal.numeral completeLen
  | .unsatisfied completeLen => "bytes */".toList ++ Decimal.numeral completeLen

/-- The bytes of a response on the wire. -/
def writeResponse (response : HttpResponse) : List UInt8 :=
  Str.bytes ("HTTP/1.1 ".toList ++ Decimal.numeral response.status ++
    ' ' :: reasonPhrase response.status ++ "\r\n".toList ++
    "Content-Type: ".toList ++ response.contentType ++ "\r\n".toList ++
    (response.headers.flatMap fun h => h.1 ++ ": ".toList ++ h.2 ++ "\r\n".toList) ++
    "Connection: close\r\n\r\n".toList) ++ response.body

def textXml : Str := "text/xml; charset=\"utf-8\"".toList

def textPlain : Str := "text/plain; charset=\"utf-8\"".toList

def textHtml : Str := "text/html; charset=\"utf-8\"".toList

def xmlResponse (body : Str) : HttpResponse := .new 200 textXml body.bytes

def notFoundResponse : HttpResponse := .new 404 textPlain (Str.bytes "not found".toList)

def uiIndexResponse (state : SharedRuntimeState) : Except IoError HttpResponse := do
  let current ← state.getCurrent
  let scanStatus ← state.getScanStatus
  .ok (.new 200 textHtml (indexPage current.catalog scanStatus).bytes)

def uiLibraryResponse (state : SharedRuntimeState) : Except IoError HttpResponse := do
  let current ← state.getCurrent
  let scanStatus ← state.getScanStatus
  .ok (.new 200 textHtml (libraryPage current.catalog scanStatus).bytes)

def controlResponse (state : SharedRuntimeState) (body : Str) : Except IoError HttpResponse := do
  let current ← state.getCurrent
  let response := match handleControl body current.catalog with
    | .ok response => response
    | .error err => err.intoResponse
  .ok (.new response.statusCode.toNat textXml response.body.bytes)

/-- The headers of a planned media response. -/
def plannedHeaders {len : Nat} (plan : MediaResponsePlan len) : List (Str × Str) :=
  ("Accept-Ranges".toList, plan.acceptRanges) ::
    ("transferMode.dlna.org".toList, plan.transferMode) ::
    ("contentFeatures.dlna.org".toList, Dlna.writeContentFeatures plan.protocolInfo) ::
    (plan.contentRange.toList.map (fun range => ("Content-Range".toList, formatContentRange range)) ++
      [("Content-Length".toList, Decimal.numeral plan.contentLength)])

/-- The response of a plan, with the bytes of the file that it sends. -/
def sendPlanned (fs : FileSystem) (path : Path) {len : Nat} (plan : MediaResponsePlan len) :
    Except IoError HttpResponse :=
  let response : HttpResponse :=
    { HttpResponse.empty (statusCode plan.status) plan.contentType with
      headers := plannedHeaders plan }
  match plan.sendBody, plan.bodyRange with
  | true, some range => do
      let file ← fs.openFile path
      .ok { response with body := (file.bytes.drop range.start).take range.len }
  | _, _ => .ok response

def mediaResponse (fs : FileSystem) (state : SharedRuntimeState) (id : Str) (method : Method)
    (range : Option Str) : Except IoError HttpResponse := do
  let current ← state.getCurrent
  match current.mediaByIdOrLegacyIndex id with
  | none => .ok notFoundResponse
  | some entry => do
      let len ← fs.len entry.path
      sendPlanned fs entry.path (planMediaResponse method
        { len := len.toNat
          contentType := entry.item.mimeType
          protocolInfo := entry.item.protocolInfo } range)

/-! Routes -/

section
variable (fs : FileSystem) (depth : Nat) (now : Int) (elapsed : Nat) (state : SharedRuntimeState)

/-- A rescan that takes a time. There is none where the scan uses up its depth. -/
def rescanLibrary : Option (Except IoError Unit × SharedRuntimeState) := do
  match ← (RuntimeState.scan fs depth state.config).run with
  | .ok next => some (state.replaceLibrary next now elapsed)
  | .error err =>
      match state.recordScanError err.message now elapsed with
      | (.error e, state) => some (.error e, state)
      | (.ok _, state) => some (.error err, state)

def seeLibraryResponse : HttpResponse :=
  let response := HttpResponse.new 303 textPlain []
  { response with headers := response.headers ++ [("Location".toList, "/ui/library".toList)] }

def uiRescanResponse : Option (Except IoError HttpResponse × SharedRuntimeState) := do
  let (result, state) ← rescanLibrary fs depth now elapsed state
  match result with
  | .ok _ => some (.ok seeLibraryResponse, state)
  | .error err =>
      some (.ok (.new 500 textHtml (rescanFailedPage err.message).bytes), state)

def mediaPrefix : Str := "/media/".toList

/-- A page of the browser interface, not found where the interface is off. -/
def uiRoute (page : Option (Except IoError HttpResponse × SharedRuntimeState)) :
    Option (Except IoError HttpResponse × SharedRuntimeState) :=
  match state.getCurrent with
  | .error e => some (.error e, state)
  | .ok current => if current.webUiEnabled then page else some (.ok notFoundResponse, state)

def routeRequest (request : HttpRequest) :
    Option (Except IoError HttpResponse × SharedRuntimeState) :=
  if request.method = "GET".toList ∧ request.path = "/device.xml".toList then
    some (state.getCurrent.map fun current => xmlResponse (deviceXml current.config), state)
  else if request.method = "GET".toList ∧ request.path = "/ContentDirectory/scpd.xml".toList then
    some (.ok (xmlResponse contentDirectoryScpdXml), state)
  else if request.method = "GET".toList ∧ request.path = "/ConnectionManager/scpd.xml".toList then
    some (.ok (xmlResponse connectionManagerScpdXml), state)
  else if request.method = "GET".toList ∧ request.path = "/ui".toList then
    uiRoute state (some (uiIndexResponse state, state))
  else if request.method = "GET".toList ∧ request.path = "/ui/library".toList then
    uiRoute state (some (uiLibraryResponse state, state))
  else if request.method = "POST".toList ∧ request.path = "/ui/rescan".toList then
    uiRoute state (uiRescanResponse fs depth now elapsed state)
  else if request.method = "POST".toList ∧
      (request.path = "/ContentDirectory/control".toList ∨
        request.path = "/ConnectionManager/control".toList) then
    some (controlResponse state request.body, state)
  else
    match Str.stripPrefix mediaPrefix request.path with
    | some id =>
        if request.method = "GET".toList then
          some (mediaResponse fs state id .get (request.header "range".toList), state)
        else if request.method = "HEAD".toList then
          some (mediaResponse fs state id .head (request.header "range".toList), state)
        else some (.ok notFoundResponse, state)
    | none => some (.ok notFoundResponse, state)

end

end RustyCastle.Server
