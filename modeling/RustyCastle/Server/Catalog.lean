import RustyCastle.UpnpAv.Didl

/-!
The in-memory catalog: containers and items linked by object identifiers. The
children of an object are the entries that name it as their parent.
-/

namespace RustyCastle.Server
open Foundation RustyCastle.Dlna

structure MediaContainer where
  id : Str
  parentId : Str
  title : Str
  deriving DecidableEq, Repr

structure MediaItem where
  id : Str
  parentId : Str
  title : Str
  url : Str
  mimeType : Str
  size : Option UInt64
  duration : Option Str
  protocolInfo : ProtocolInfoRef
  deriving DecidableEq, Repr

/-- An MP4 item. -/
def MediaItem.mp4 (id title url : Str) : MediaItem where
  id := id
  parentId := "0".toList
  title := title
  url := url
  mimeType := "video/mp4".toList
  size := none
  duration := none
  protocolInfo := .sonyMp4

structure StaticCatalog where
  containers : List MediaContainer
  items : List MediaItem
  updateId : UInt32
  deriving DecidableEq, Repr

/-! The update identifier -/

def hashByte (hash : UInt32) (byte : UInt8) : UInt32 := (hash ^^^ byte.toUInt32) * 0x01000193

/-- A field is hashed with a terminator that no UTF-8 text contains. -/
def hashField (hash : UInt32) (value : Str) : UInt32 :=
  hashByte (value.bytes.foldl hashByte hash) 0xff

def hashContainer (hash : UInt32) (container : MediaContainer) : UInt32 :=
  hashField (hashField (hashField hash container.id) container.parentId) container.title

def hashItem (hash : UInt32) (item : MediaItem) : UInt32 :=
  let hash := hashField hash item.id
  let hash := hashField hash item.parentId
  let hash := hashField hash item.title
  let hash := hashField hash item.url
  let hash := hashField hash item.mimeType
  let hash := match item.size with
    | some size => hashField hash (Decimal.numeral size.toNat)
    | none => hash
  match item.duration with
  | some duration => hashField hash duration
  | none => hash

def catalogUpdateId (containers : List MediaContainer) (items : List MediaItem) : UInt32 :=
  max (items.foldl hashItem (containers.foldl hashContainer 0x811c9dc5)) 1

namespace StaticCatalog

def new : StaticCatalog := { containers := [], items := [], updateId := 0 }

def fromParts (containers : List MediaContainer) (items : List MediaItem) : StaticCatalog where
  containers := containers
  items := items
  updateId := catalogUpdateId containers items

def fromItems (items : List MediaItem) : StaticCatalog := fromParts [] items

/-- Adds an item and bumps the update id. -/
def push (catalog : StaticCatalog) (item : MediaItem) : StaticCatalog :=
  { catalog with items := catalog.items ++ [item], updateId := max (catalog.updateId + 1) 1 }

def childContainers (catalog : StaticCatalog) (parentId : Str) : List MediaContainer :=
  catalog.containers.filter fun container => container.parentId == parentId

def childItems (catalog : StaticCatalog) (parentId : Str) : List MediaItem :=
  catalog.items.filter fun item => item.parentId == parentId

/-- The number of direct children, as a 32-bit number. -/
def childCount (catalog : StaticCatalog) (parentId : Str) : UInt32 :=
  .ofNat ((catalog.childContainers parentId).length + (catalog.childItems parentId).length)

def container (catalog : StaticCatalog) (id : Str) : Option MediaContainer :=
  catalog.containers.find? fun container => container.id == id

def item (catalog : StaticCatalog) (id : Str) : Option MediaItem :=
  catalog.items.find? fun item => item.id == id

end StaticCatalog

end RustyCastle.Server
