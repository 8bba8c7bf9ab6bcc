import RustyCastle.Server.Mp4

/-!
Sequences of boxes and the bytes they are written as. The duration search finds the first
movie header in document order: at every step it stands at the start of a box of its level.
-/

namespace RustyCastle.Server
open Foundation

/-! Big-endian numbers -/

/-- A number in so many bytes. -/
def toBigEndian : Nat → Nat → List UInt8
  | 0, _ => []
  | k + 1, n => toBigEndian k (n / 256) ++ [UInt8.ofNat n]

@[simp] theorem length_toBigEndian (k n : Nat) : (toBigEndian k n).length = k := by
  induction k generalizing n with
  | zero => rfl
  | succ k ih => rw [toBigEndian, List.length_append, ih, List.length_singleton]

theorem bigEndian_toBigEndian {k n : Nat} (h : n < 256 ^ k) : bigEndian (toBigEndian k n) = n := by
  induction k generalizing n with
  | zero =>
      obtain rfl : n = 0 := by simpa using h
      rfl
  | succ k ih =>
      have hdiv : n / 256 < 256 ^ k := by
        rw [Nat.div_lt_iff_lt_mul (by decide)]
        rwa [Nat.pow_succ] at h
      have hlast : bigEndian (toBigEndian k (n / 256) ++ [UInt8.ofNat n]) =
          256 * bigEndian (toBigEndian k (n / 256)) + (UInt8.ofNat n).toNat := by
        rw [bigEndian, List.foldl_append]
        rfl
      rw [toBigEndian, hlast, ih hdiv, UInt8.toNat_ofNat']
      exact Nat.div_add_mod n 256

/-! Boxes -/

/-- How the size of a box is written. -/
inductive SizeEncoding where
  | short
  | large
  | toEnd
  deriving DecidableEq, Repr

namespace SizeEncoding

def isLarge : SizeEncoding → Bool
  | .large => true
  | .short | .toEnd => false

/-- The size field of a box with a payload of `n` bytes. -/
def size32 (n : Nat) : SizeEncoding → Nat
  | .short => 8 + n
  | .large => 1
  | .toEnd => 0

/-- The size is one that the field can hold. -/
def Fits (n : Nat) : SizeEncoding → Prop
  | .short => 8 + n < 2 ^ 32
  | .large => 16 + n < 2 ^ 64
  | .toEnd => True

def header (encoding : SizeEncoding) (boxType : List UInt8) (n : Nat) : List UInt8 :=
  toBigEndian 4 (encoding.size32 n) ++ boxType ++
    if encoding.isLarge then toBigEndian 8 (16 + n) else []

theorem length_header {encoding : SizeEncoding} {boxType : List UInt8} (htype : boxType.length = 4)
    (n : Nat) : (encoding.header boxType n).length = headerLen encoding.isLarge := by
  cases encoding <;> simp [header, isLarge, headerLen, htype]

theorem size32_lt {encoding : SizeEncoding} {n : Nat} (h : encoding.Fits n) :
    encoding.size32 n < 256 ^ 4 := by
  cases encoding with
  | short => exact h
  | large | toEnd => simp [size32]

end SizeEncoding

/-- A sequence of boxes on one level. A box has a payload, or it is a movie box with a
sequence of its own inside. -/
inductive Boxes where
  | nil
  | leaf (encoding : SizeEncoding) (boxType payload : List UInt8) (rest : Boxes)
  | movie (encoding : SizeEncoding) (children rest : Boxes)

namespace Boxes

def bytes : Boxes → List UInt8
  | nil => []
  | leaf encoding boxType payload rest =>
      encoding.header boxType payload.length ++ (payload ++ rest.bytes)
  | movie encoding children rest =>
      encoding.header moov children.bytes.length ++ (children.bytes ++ rest.bytes)

/-- The sizes fit their fields, and only the last box of a level reaches to its end. -/
def WellFormed : Boxes → Prop
  | nil => True
  | leaf encoding boxType payload rest => boxType.length = 4 ∧ boxType ≠ moov ∧
      encoding.Fits payload.length ∧ (encoding = .toEnd → rest = nil) ∧ rest.WellFormed
  | movie encoding children rest => encoding.Fits children.bytes.length ∧
      (encoding = .toEnd → rest = nil) ∧ children.WellFormed ∧ rest.WellFormed

/-- The payload of the first movie header in document order. -/
def firstMvhd : Boxes → Option (List UInt8)
  | nil => none
  | leaf _ boxType payload rest => if boxType = mvhd then some payload else rest.firstMvhd
  | movie _ children rest => children.firstMvhd.or rest.firstMvhd

end Boxes

/-- The time scale and the duration in the payload of a movie header of version 0 or 1. -/
def movieHeader (payload : List UInt8) : Option (UInt32 × UInt64) :=
  match payload.headD 0 with
  | 0 =>
      if 20 ≤ payload.length then
        some (.ofNat (bigEndian (slice payload 12 16)), .ofNat (bigEndian (slice payload 16 20)))
      else none
  | 1 =>
      if 32 ≤ payload.length then
        some (.ofNat (bigEndian (slice payload 20 24)), .ofNat (bigEndian (slice payload 24 32)))
      else none
  | _ => none

/-! Reading a box -/

section
variable {file : File} {pre post : List UInt8}

theorem readExact_of_split {part : List UInt8} (h : file.bytes = pre ++ (part ++ post)) :
    readExact file pre.length part.length = .ok part := by
  have hlen : pre.length + part.length ≤ file.bytes.length := by
    rw [h, List.length_append, List.length_append]
    omega
  rw [readExact_ok hlen, h, List.drop_left, List.take_left]

theorem boxSize_of_short (n start stop : Nat) :
    boxSize file (8 + n) start stop = .ok (8 + n, false) := by
  have hshort : 8 + n = (6 + n) + 2 := by omega
  rw [hshort]
  rfl

/-- The header of a box is read where the box starts. -/
theorem boxAt_of_header {encoding : SizeEncoding} {boxType : List UInt8} {n stop : Nat}
    (htype : boxType.length = 4) (hfits : encoding.Fits n)
    (h : file.bytes = pre ++ (encoding.header boxType n ++ post))
    (hstop : pre.length + headerLen encoding.isLarge + n ≤ stop)
    (hend : encoding = .toEnd → stop = pre.length + headerLen encoding.isLarge + n) :
    ∃ box : Mp4Box pre.length stop, boxAt file pre.length stop = .ok (some box) ∧
      box.boxType = boxType ∧ box.payloadStart = pre.length + headerLen encoding.isLarge ∧
      box.payloadEnd = pre.length + headerLen encoding.isLarge + n := by
  let fields := toBigEndian 4 (encoding.size32 n) ++ boxType
  have hsplit : file.bytes = pre ++ (fields ++
      ((if encoding.isLarge then toBigEndian 8 (16 + n) else []) ++ post)) := by
    rw [h, SizeEncoding.header]
    simp only [fields, List.append_assoc]
  have hread : readExact file pre.length 8 = .ok fields := by
    have hlen : fields.length = 8 := by simp [fields, htype]
    rw [← hlen]
    exact readExact_of_split hsplit
  have hsize32 : bigEndian (slice fields 0 4) = encoding.size32 n := by
    have hslice : slice fields 0 4 = toBigEndian 4 (encoding.size32 n) := by
      simp [slice, fields]
    rw [hslice, bigEndian_toBigEndian (SizeEncoding.size32_lt hfits)]
  have hboxType : slice fields 4 8 = boxType := by
    simp [slice, fields, htype]
  have hsize : boxSize file (encoding.size32 n) pre.length stop =
      .ok (headerLen encoding.isLarge + n, encoding.isLarge) := by
    cases encoding with
    | short => exact boxSize_of_short n pre.length stop
    | large =>
        have hlarge : readExact file (pre.length + 8) 8 = .ok (toBigEndian 8 (16 + n)) := by
          have hlen : (pre ++ fields).length = pre.length + 8 := by simp [fields, htype]
          have hlen8 : (toBigEndian 8 (16 + n)).length = 8 := length_toBigEndian ..
          have h' : file.bytes = (pre ++ fields) ++ (toBigEndian 8 (16 + n) ++ post) := by
            rw [List.append_assoc]
            exact hsplit
          have := readExact_of_split h'
          rwa [hlen, hlen8] at this
        have hvalue : bigEndian (toBigEndian 8 (16 + n)) = 16 + n :=
          bigEndian_toBigEndian (Nat.lt_of_lt_of_eq hfits (by decide))
        simp only [SizeEncoding.size32, boxSize, hlarge, bind, Except.bind, hvalue]
        rfl
    | toEnd =>
        have hlen : headerLen SizeEncoding.toEnd.isLarge = 8 := rfl
        have hstop : stop - pre.length = 8 + n := by
          have := hend rfl
          omega
        simp only [SizeEncoding.size32, boxSize, hstop]
        rfl
  have hfit : headerLen encoding.isLarge ≤ headerLen encoding.isLarge + n ∧
      pre.length + (headerLen encoding.isLarge + n) ≤ stop := ⟨Nat.le_add_right .., by omega⟩
  have hbox : boxAt file pre.length stop = .ok (some
      { boxType := slice fields 4 8
        payloadStart := pre.length + headerLen encoding.isLarge
        payloadEnd := pre.length + (headerLen encoding.isLarge + n)
        start_lt := Nat.lt_add_of_pos_right (headerLen_pos encoding.isLarge)
        payload := Nat.add_le_add_left hfit.1 _
        payloadEnd_le := hfit.2 }) := by
    simp only [boxAt, hread, hsize32, hsize, bind, Except.bind]
    exact dif_pos hfit
  exact ⟨_, hbox, hboxType, rfl, (Nat.add_assoc ..).symm⟩

/-- The payload of a movie header is read where it stands. -/
theorem readMvhd_of_payload {payload : List UInt8} {found : UInt32 × UInt64}
    (h : file.bytes = pre ++ (payload ++ post)) (hfound : movieHeader payload = some found) :
    readMvhd file pre.length (pre.length + payload.length) = .ok (some found) := by
  have hfields : ∀ k n, k + n ≤ payload.length →
      readExact file (pre.length + k) n = .ok ((payload.drop k).take n) := by
    intro k n hkn
    have hlen : pre.length + k + n ≤ file.bytes.length := by
      rw [h, List.length_append, List.length_append]
      omega
    rw [readExact_ok hlen, h, ← List.drop_drop, List.drop_left, List.drop_append_of_le_length (by omega),
      List.take_append_of_le_length (by rw [List.length_drop]; omega)]
  have hslice : ∀ k n i j, i ≤ j → j ≤ n →
      slice ((payload.drop k).take n) i j = slice payload (k + i) (k + j) := by
    intro k n i j hij hjn
    simp only [slice, List.drop_take, List.drop_drop, List.take_take]
    congr 1
    omega
  have hsub : pre.length + payload.length - pre.length = payload.length := by omega
  have hversion : (payload.take 4).headD 0 = payload.headD 0 := by cases payload <;> rfl
  have hstart : 4 ≤ payload.length → readExact file pre.length 4 = .ok (payload.take 4) := fun hle =>
    hfields 0 4 (by omega)
  unfold movieHeader at hfound
  rw [readMvhd, hsub]
  split at hfound
  · rename_i h0
    split at hfound
    · rename_i hlong
      rw [if_neg (by omega), hstart (by omega)]
      simp only [bind, Except.bind, hversion, h0, hfields 4 16 (by omega)]
      rw [hslice 4 16 8 12 (by decide) (by decide), hslice 4 16 12 16 (by decide) (by decide),
        ← Option.some.inj hfound]
    · cases hfound
  · rename_i h1
    split at hfound
    · rename_i hlong
      rw [if_neg (by omega), hstart (by omega)]
      simp only [bind, Except.bind, hversion, h1]
      rw [if_neg (by omega)]
      simp only [hfields 4 28 (by omega)]
      rw [hslice 4 28 16 20 (by decide) (by decide), hslice 4 28 20 28 (by decide) (by decide),
        ← Option.some.inj hfound]
    · cases hfound
  · cases hfound

/-! The search of a sequence -/

/-- The search at the start of a box. -/
theorem findMp4Mvhd_box {encoding : SizeEncoding} {boxType payload : List UInt8} {stop : Nat}
    (htype : boxType.length = 4) (hfits : encoding.Fits payload.length)
    (h : file.bytes = pre ++ (encoding.header boxType payload.length ++ (payload ++ post)))
    (hstop : (pre ++ encoding.header boxType payload.length ++ payload).length ≤ stop)
    (hend : encoding = .toEnd →
      stop = (pre ++ encoding.header boxType payload.length ++ payload).length) :
    findMp4Mvhd file pre.length stop =
      let payloadStart := (pre ++ encoding.header boxType payload.length).length
      let payloadEnd := (pre ++ encoding.header boxType payload.length ++ payload).length
      if boxType = mvhd then readMvhd file payloadStart payloadEnd
      else if boxType = moov then
        match findMp4Mvhd file payloadStart payloadEnd with
        | .error e => .error e
        | .ok (some duration) => .ok (some duration)
        | .ok none => findMp4Mvhd file payloadEnd stop
      else findMp4Mvhd file payloadEnd stop := by
  have hheader : (encoding.header boxType payload.length).length = headerLen encoding.isLarge :=
    SizeEncoding.length_header htype payload.length
  have hlen8 : 8 ≤ headerLen encoding.isLarge := by cases encoding <;> decide
  simp only [List.length_append, hheader] at hstop hend ⊢
  obtain ⟨⟨boxType', payloadStart, payloadEnd, _, _, _⟩, hbox, hboxType, hpayloadStart, hpayloadEnd⟩ :=
    boxAt_of_header htype hfits h hstop hend
  dsimp only at hboxType hpayloadStart hpayloadEnd
  subst hboxType hpayloadStart hpayloadEnd
  rewrite [findMp4Mvhd, if_pos (by omega), hbox]
  rfl

/-- The search of a sequence of boxes finds its first movie header, where that is readable. -/
theorem findMp4Mvhd_boxes {boxes : Boxes} (hwf : boxes.WellFormed)
    (h : file.bytes = pre ++ (boxes.bytes ++ post)) {found : Option (UInt32 × UInt64)}
    (hfound : boxes.firstMvhd.map movieHeader = found.map some) :
    findMp4Mvhd file pre.length (pre ++ boxes.bytes).length = .ok found := by
  induction boxes generalizing pre post found with
  | nil =>
      obtain rfl : found = none := by simpa [Boxes.firstMvhd] using hfound
      rw [findMp4Mvhd, if_neg (by simp [Boxes.bytes])]
  | leaf encoding boxType payload rest ih =>
      obtain ⟨htype, hmoov, hfits, hlast, hrest⟩ := hwf
      simp only [Boxes.bytes] at h ⊢
      simp only [List.append_assoc] at h
      rw [← List.append_assoc, ← List.append_assoc, findMp4Mvhd_box htype hfits h
        (by simp)
        fun he => by rw [hlast he, Boxes.bytes, List.append_nil]]
      simp only [Boxes.firstMvhd] at hfound
      by_cases hmvhd : boxType = mvhd
      · rw [if_pos hmvhd] at hfound ⊢
        obtain ⟨r, rfl, hr⟩ := Option.map_eq_some_iff.mp hfound.symm
        rw [@List.length_append _ _ payload]
        exact readMvhd_of_payload (by rw [h, List.append_assoc]) hr.symm
      · rw [if_neg hmvhd] at hfound ⊢
        rw [if_neg hmoov]
        have hrestSplit : file.bytes = (pre ++ encoding.header boxType payload.length ++ payload) ++
            (rest.bytes ++ post) := by
          rw [h]
          simp only [List.append_assoc]
        exact ih hrest hrestSplit hfound
  | movie encoding children rest ihChildren ihRest =>
      obtain ⟨hfits, hlast, hchildren, hrest⟩ := hwf
      simp only [Boxes.bytes] at h ⊢
      simp only [List.append_assoc] at h
      rw [← List.append_assoc, ← List.append_assoc, findMp4Mvhd_box (by decide) hfits h
        (by simp)
        fun he => by rw [hlast he, Boxes.bytes, List.append_nil]]
      dsimp only
      rw [if_neg (by decide : moov ≠ mvhd), if_pos rfl]
      simp only [Boxes.firstMvhd] at hfound
      have hinner : file.bytes = (pre ++ encoding.header moov children.bytes.length) ++
          (children.bytes ++ (rest.bytes ++ post)) := by rw [h, List.append_assoc]
      cases hfirst : children.firstMvhd with
      | none =>
          rw [hfirst, Option.none_or] at hfound
          have hnone : findMp4Mvhd file (pre ++ encoding.header moov children.bytes.length).length
              (pre ++ encoding.header moov children.bytes.length ++ children.bytes).length = .ok none :=
            ihChildren hchildren hinner (by rw [hfirst]; rfl)
          rw [hnone]
          have hrestSplit : file.bytes = (pre ++ encoding.header moov children.bytes.length ++
              children.bytes) ++ (rest.bytes ++ post) := by
            rw [hinner]
            simp only [List.append_assoc]
          exact ihRest hrest hrestSplit hfound
      | some payload =>
          rw [hfirst, Option.some_or] at hfound
          obtain ⟨r, rfl, hr⟩ := Option.map_eq_some_iff.mp hfound.symm
          have hsome : findMp4Mvhd file (pre ++ encoding.header moov children.bytes.length).length
              (pre ++ encoding.header moov children.bytes.length ++ children.bytes).length =
                .ok (some r) := ihChildren hchildren hinner (by rw [hfirst, ← hfound])
          rw [hsome]

end

/-- In a file of boxes the search of the whole file gives the time scale and the duration of
the first movie header in document order, where it has version 0 or 1 and is long enough, and
nothing where there is none. -/
theorem findMp4Mvhd_firstMvhd (boxes : Boxes) (hwf : boxes.WellFormed) (file : File)
    (hfile : file.bytes = boxes.bytes) :
    (∀ payload found, boxes.firstMvhd = some payload → movieHeader payload = some found →
      findMp4Mvhd file 0 file.bytes.length = .ok (some found)) ∧
    (boxes.firstMvhd = none → findMp4Mvhd file 0 file.bytes.length = .ok none) := by
  have hsplit : file.bytes = [] ++ (boxes.bytes ++ []) := by rw [hfile, List.append_nil, List.nil_append]
  have hsearch : ∀ found, boxes.firstMvhd.map movieHeader = found.map some →
      findMp4Mvhd file 0 file.bytes.length = .ok found := by
    intro found hfound
    have := findMp4Mvhd_boxes hwf hsplit hfound
    rwa [List.nil_append, ← hfile] at this
  constructor
  · intro payload found hfirst hheader
    exact hsearch (some found) (by rw [hfirst, Option.map_some, hheader, Option.map_some])
  · intro hfirst
    exact hsearch none (by rw [hfirst]; rfl)

/-- A file type box with a large size, and a movie box to the end of the file with a movie
header in it: 90500 units of a millisecond. -/
def clipBoxes : Boxes :=
  .leaf .large (Str.bytes "ftyp".toList) (Str.bytes "isom".toList)
    (.movie .toEnd
      (.leaf .short mvhd
        (List.replicate 12 0 ++ toBigEndian 4 1000 ++ toBigEndian 4 90500) .nil) .nil)

def clipFile : File where
  bytes := clipBoxes.bytes
  length_lt := by decide

theorem findMp4Mvhd_clipFile :
    findMp4Mvhd clipFile 0 clipFile.bytes.length = .ok (some (1000, 90500)) := by
  have hsizes : 16 + 4 < 2 ^ 64 ∧ 8 + 20 < 2 ^ 32 := by decide
  have hmvhd : mvhd.length = 4 ∧ mvhd ≠ moov := by decide
  have hftyp : (Str.bytes "ftyp".toList).length = 4 ∧ Str.bytes "ftyp".toList ≠ moov := by decide
  have hwf : clipBoxes.WellFormed := by
    refine ⟨hftyp.1, hftyp.2, hsizes.1, nofun, trivial, fun _ => rfl, ?_, trivial⟩
    exact ⟨hmvhd.1, hmvhd.2, hsizes.2, nofun, trivial⟩
  exact (findMp4Mvhd_firstMvhd clipBoxes hwf clipFile rfl).1 _ _ rfl (by decide)

end RustyCastle.Server
