import RustyCastle.Foundation.Decimal
import RustyCastle.Server.Files

/-!
The duration of an MP4 file: the boxes of the file are walked until a movie
header is found, with a recursion into the movie box. A position in a file is
below 2^63, so that sums of positions and lengths are sums of numbers.
-/

namespace RustyCastle.Server
open Foundation

def unexpectedEof : IoError := { message := "failed to fill whole buffer".toList }

/-- Seeks to a position and reads so many bytes. -/
def readExact (file : File) (pos n : Nat) : Except IoError (List UInt8) :=
  if pos + n ≤ file.bytes.length then .ok ((file.bytes.drop pos).take n) else .error unexpectedEof

def bigEndian (bytes : List UInt8) : Nat := bytes.foldl (fun n byte => 256 * n + byte.toNat) 0

/-- The bytes from one index to another. -/
def slice (bytes : List UInt8) (i j : Nat) : List UInt8 := (bytes.drop i).take (j - i)

/-- A box that starts at `start` and ends by `stop`. -/
structure Mp4Box (start stop : Nat) where
  boxType : List UInt8
  payloadStart : Nat
  payloadEnd : Nat
  start_lt : start < payloadStart
  payload : payloadStart ≤ payloadEnd
  payloadEnd_le : payloadEnd ≤ stop

def headerLen (large : Bool) : Nat := if large then 16 else 8

theorem headerLen_pos (large : Bool) : 0 < headerLen large := by cases large <;> decide

/-- The size of a box, and whether it is the large size behind the header. -/
def boxSize (file : File) (size32 start stop : Nat) : Except IoError (Nat × Bool) :=
  match size32 with
  | 0 => .ok (stop - start, false)
  | 1 => do
      let largeSize ← readExact file (start + 8) 8
      .ok (bigEndian largeSize, true)
  | size32 => .ok (size32, false)

/-- The box at `start`, if there is one that ends by `stop`. -/
def boxAt (file : File) (start stop : Nat) : Except IoError (Option (Mp4Box start stop)) :=
  match readExact file start 8 with
  | .error _ => .ok none
  | .ok header => do
      let (size, large) ← boxSize file (bigEndian (slice header 0 4)) start stop
      if h : headerLen large ≤ size ∧ start + size ≤ stop then
        .ok (some
          { boxType := slice header 4 8
            payloadStart := start + headerLen large
            payloadEnd := start + size
            start_lt := Nat.lt_add_of_pos_right (headerLen_pos large)
            payload := Nat.add_le_add_left h.1 start
            payloadEnd_le := h.2 })
      else .ok none

/-- The time scale and the duration of a movie header. -/
def readMvhd (file : File) (payloadStart payloadEnd : Nat) :
    Except IoError (Option (UInt32 × UInt64)) :=
  if payloadEnd - payloadStart < 20 then .ok none
  else do
    let versionAndFlags ← readExact file payloadStart 4
    match versionAndFlags.headD 0 with
    | 0 =>
        let fields ← readExact file (payloadStart + 4) 16
        .ok (some (.ofNat (bigEndian (slice fields 8 12)), .ofNat (bigEndian (slice fields 12 16))))
    | 1 =>
        if payloadEnd - payloadStart < 32 then .ok none
        else do
          let fields ← readExact file (payloadStart + 4) 28
          .ok (some
            (.ofNat (bigEndian (slice fields 16 20)), .ofNat (bigEndian (slice fields 20 28))))
    | _ => .ok none

def mvhd : List UInt8 := Str.bytes "mvhd".toList

def moov : List UInt8 := Str.bytes "moov".toList

def findMp4Mvhd (file : File) (start stop : Nat) : Except IoError (Option (UInt32 × UInt64)) :=
  if start + 8 ≤ stop then
    match boxAt file start stop with
    | .error e => .error e
    | .ok none => .ok none
    | .ok (some box) =>
        if box.boxType = mvhd then readMvhd file box.payloadStart box.payloadEnd
        else if box.boxType = moov then
          match findMp4Mvhd file box.payloadStart box.payloadEnd with
          | .error e => .error e
          | .ok (some duration) => .ok (some duration)
          | .ok none => findMp4Mvhd file box.payloadEnd stop
        else findMp4Mvhd file box.payloadEnd stop
  else .ok none
termination_by stop - start
decreasing_by
  all_goals
    have := box.start_lt
    have := box.payload
    have := box.payloadEnd_le
    omega

def saturate (n : Nat) : Nat := min n (2 ^ 64 - 1)

def formatDlnaDuration (duration : UInt64) (timescale : UInt32) : Str :=
  let timescale := timescale.toNat
  let totalMs := saturate (saturate (duration.toNat * 1000) + timescale / 2) / timescale
  let totalSeconds := totalMs / 1000
  let millis := totalMs % 1000
  let hours := totalSeconds / 3600
  let minutes := totalSeconds % 3600 / 60
  let seconds := totalSeconds % 60
  Decimal.numeral hours ++ ':' :: Decimal.padded 2 minutes ++ ':' :: Decimal.padded 2 seconds ++
    if millis = 0 then [] else '.' :: Decimal.padded 3 millis

def fileDuration (file : File) : Except IoError (Option Str) := do
  match ← findMp4Mvhd file 0 file.bytes.length with
  | none => .ok none
  | some (timescale, duration) =>
      if timescale = 0 then .ok none else .ok (some (formatDlnaDuration duration timescale))

def mp4Duration (fs : FileSystem) (path : Path) : Except IoError (Option Str) := do
  let file ← fs.openFile path
  fileDuration file

/-! What the search reads -/

theorem readExact_ok {file : File} {pos n : Nat} (h : pos + n ≤ file.bytes.length) :
    readExact file pos n = .ok ((file.bytes.drop pos).take n) := if_pos h

theorem readExact_error {file : File} {pos n : Nat} (h : file.bytes.length < pos + n) :
    readExact file pos n = .error unexpectedEof := if_neg (Nat.not_le.mpr h)

def sizeField (file : File) (pos : Nat) : Nat := bigEndian ((file.bytes.drop pos).take 4)

/-- A header that announces a large size, with fewer than eight bytes of the file behind it. -/
def TruncatedHeader (file : File) (pos : Nat) : Prop :=
  sizeField file pos = 1 ∧ file.bytes.length < pos + 16

instance (file : File) (pos : Nat) : Decidable (TruncatedHeader file pos) :=
  inferInstanceAs (Decidable (_ ∧ _))

/-- A movie header that is long enough for its version, 0 or 1. -/
def holdsMovieHeader (file : File) (payloadStart payloadEnd : Nat) : Bool :=
  let version := (file.bytes.drop payloadStart).headD 0
  (version == 0 && 20 ≤ payloadEnd - payloadStart) ||
    (version == 1 && 32 ≤ payloadEnd - payloadStart)

/-- The positions of the headers that a search reads, and whether it finds a movie
header. The search of a movie box that holds none goes on behind the box. -/
def headersRead (file : File) (start stop : Nat) : List Nat × Bool :=
  if start + 8 ≤ stop then
    match (boxAt file start stop).toOption.join with
    | none => ([start], false)
    | some box =>
        if box.boxType = mvhd then
          ([start], holdsMovieHeader file box.payloadStart box.payloadEnd)
        else if box.boxType = moov then
          let inner := headersRead file box.payloadStart box.payloadEnd
          if inner.2 then (start :: inner.1, true)
          else
            let rest := headersRead file box.payloadEnd stop
            (start :: inner.1 ++ rest.1, rest.2)
        else
          let rest := headersRead file box.payloadEnd stop
          (start :: rest.1, rest.2)
  else ([], false)
termination_by stop - start
decreasing_by
  all_goals
    have := box.start_lt
    have := box.payload
    have := box.payloadEnd_le
    omega

/-- No header that the search of the whole file reads is truncated. -/
def HeadersComplete (file : File) : Prop :=
  ∀ pos ∈ (headersRead file 0 file.bytes.length).1, ¬ TruncatedHeader file pos

instance (file : File) : Decidable (HeadersComplete file) :=
  inferInstanceAs (Decidable (∀ _ ∈ _, _))

end RustyCastle.Server
