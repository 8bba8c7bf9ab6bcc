import RustyCastle.Foundation.Pieces
import RustyCastle.MediaHttp.RangeSemantics
import RustyCastle.Server.MediaServing
import RustyCastle.Server.Responses

/-!
A media file that is fetched in parts. A client puts the bodies of the answers where their
heads say that they belong, and so gets the file as soon as it asked for all of its bytes,
in whatever parts and order, and never anything else.
-/

namespace RustyCastle.Server
open Foundation RustyCastle.MediaHttp

/-! What is asked for -/

/-- A request for a media file, or for a part of it. -/
structure AsksFor (request : HttpRequest) (id : Str) (part : Option SingleRange) : Prop where
  method : request.method = "GET".toList
  path : request.path = mediaPrefix ++ id
  range : request.header "range".toList = part.map SingleRange.header

/-- The first and the last byte that are asked for. -/
def askedBytes (len : Nat) : Option SingleRange → Option (Nat × Nat)
  | none => if 0 < len then some (0, len - 1) else none
  | some range => range.bytes len

/-- Every byte is in a part that is asked for. -/
def AskedWhole (len : Nat) (parts : List (Option SingleRange)) : Prop :=
  ∀ i < len, ∃ part ∈ parts, ∃ bytes ∈ askedBytes len part, bytes.1 ≤ i ∧ i ≤ bytes.2

theorem askedBytes_bounds {len : Nat} {part : Option SingleRange} {bytes : Nat × Nat}
    (h : askedBytes len part = some bytes) : bytes.1 ≤ bytes.2 ∧ bytes.2 < len := by
  cases part with
  | none =>
      obtain ⟨hpos, ⟨⟩⟩ := Option.ite_none_right_eq_some.mp h
      exact ⟨Nat.zero_le _, Nat.sub_one_lt_of_lt hpos⟩
  | some range =>
      cases range with
      | between first last first_le =>
          obtain ⟨hlt, ⟨⟩⟩ := Option.ite_none_right_eq_some.mp h
          dsimp only
          omega
      | onward first =>
          obtain ⟨hlt, ⟨⟩⟩ := Option.ite_none_right_eq_some.mp h
          dsimp only
          omega
      | suffix n =>
          obtain ⟨⟨hn, hpos⟩, ⟨⟩⟩ := Option.ite_none_right_eq_some.mp h
          dsimp only
          omega

/-- The bytes that are asked for, at their place. -/
def partOf (whole : List UInt8) (part : Option SingleRange) : Piece UInt8 :=
  match askedBytes whole.length part with
  | some (first, last) => ⟨first, (whole.drop first).take (last - first + 1)⟩
  | none => ⟨0, []⟩

theorem partOf_of (whole : List UInt8) (part : Option SingleRange) :
    (partOf whole part).Of whole := by
  unfold partOf
  split
  · exact List.take_prefix _ _
  · exact List.nil_prefix

theorem covers_partOf {whole : List UInt8} {part : Option SingleRange} {i : Nat} :
    (partOf whole part).Covers i ↔
      ∃ bytes ∈ askedBytes whole.length part, bytes.1 ≤ i ∧ i ≤ bytes.2 := by
  unfold partOf
  cases hasked : askedBytes whole.length part with
  | none => simp [Piece.Covers]
  | some bytes =>
      obtain ⟨first, last⟩ := bytes
      obtain ⟨hle, hlt⟩ := askedBytes_bounds hasked
      dsimp only at hle hlt
      have hlength : ((whole.drop first).take (last - first + 1)).length = last - first + 1 := by
        rw [List.length_take, List.length_drop]
        omega
      simp only [Piece.Covers, hlength, Option.mem_some_iff, exists_eq_left']
      omega

theorem rebuild_partOf (whole : List UInt8) (parts : List (Option SingleRange)) :
    (AskedWhole whole.length parts →
        rebuild whole.length (parts.map (partOf whole)) = some whole) ∧
      (¬ AskedWhole whole.length parts →
        rebuild whole.length (parts.map (partOf whole)) = none) := by
  have hof : ∀ p ∈ parts.map (partOf whole), p.Of whole :=
    List.forall_mem_map.mpr fun part _ => partOf_of whole part
  have hcovers : (∀ i < whole.length, ∃ p ∈ parts.map (partOf whole), p.Covers i) ↔
      AskedWhole whole.length parts :=
    forall₂_congr fun i _ => by simp only [List.mem_map, exists_exists_and_eq_and, covers_partOf]
  rw [rebuild_pieces hof]
  exact ⟨fun h => if_pos (hcovers.mpr h), fun h => if_neg fun hc => h (hcovers.mp hc)⟩

/-! The client -/

/-- Where the body of an answer starts in the file, and how long the file is. -/
def readContentRange (value : Str) : Option (Nat × Nat) := do
  let range ← Str.stripPrefix "bytes ".toList value
  let (span, total) ← Str.cut ['/'] range
  let total ← Decimal.parseUnsigned 64 total
  match Str.cut ['-'] span with
  | some (start, _) => some (← Decimal.parseUnsigned 64 start, total)
  | none => some (0, total)

/-- The bytes of the file in an answer, and how long the file is. -/
def ReadBack.part (back : ReadBack) : Option (Piece UInt8 × Nat) :=
  match back.status with
  | 200 => some (⟨0, back.body⟩, back.body.length)
  | 206 | 416 => do
      let field ← back.fields.find? fun h => h.1 == "content-range".toList
      let (start, total) ← readContentRange field.2
      some (⟨start, back.body⟩, total)
  | _ => none

def receivePart (sent : List UInt8) : Option (Piece UInt8 × Nat) :=
  match readResponse false ⟨sent, .pending⟩ with
  | .done back _ => back.part
  | _ => none

/-- The file, if the answers have all of it. -/
def download (answers : List (List UInt8)) : Option (List UInt8) := do
  let parts ← answers.mapM receivePart
  let (_, total) ← parts.head?
  rebuild total (parts.map Prod.fst)

theorem receivePart_done {sent rest : List UInt8} {back : ReadBack}
    (h : readResponse false ⟨sent, .pending⟩ = .done back rest) : receivePart sent = back.part := by
  rw [receivePart, h]

theorem download_parts {whole : List UInt8} {parts : List (Option SingleRange)} (hne : parts ≠ [])
    {answers : List (List UInt8)}
    (h : answers.mapM receivePart = some (parts.map fun part => (partOf whole part, whole.length))) :
    (AskedWhole whole.length parts → download answers = some whole) ∧
      (¬ AskedWhole whole.length parts → download answers = none) := by
  have hdownload : download answers = rebuild whole.length (parts.map (partOf whole)) := by
    rw [download, h]
    cases parts with
    | nil => exact absurd rfl hne
    | cons part parts => simp [Function.comp_def]
  rw [hdownload]
  exact rebuild_partOf whole parts

theorem ReadBack.part_whole {back : ReadBack} (h : back.status = 200) :
    back.part = some (⟨0, back.body⟩, back.body.length) := by
  rw [part, h]
  rfl

theorem readContentRange_bytes {start len : Nat} (stop : Nat) (hstart : start < 2 ^ 64)
    (hlen : len < 2 ^ 64) :
    readContentRange (formatContentRange (.bytes start stop len)) = some (start, len) := by
  have hformat : formatContentRange (.bytes start stop len) = "bytes ".toList ++
      ((Decimal.numeral start ++ '-' :: Decimal.numeral stop) ++ '/' :: Decimal.numeral len) := by
    unfold formatContentRange
    generalize "bytes ".toList = unit
    simp
  have hslash : '/' ∉ Decimal.numeral start ++ '-' :: Decimal.numeral stop := by
    have hdigits : ∀ n, '/' ∉ Decimal.numeral n := Decimal.notMem_numeral (by decide)
    simp [hdigits]
  have hdash : '-' ∉ Decimal.numeral start := Decimal.notMem_numeral (by decide) start
  rw [hformat, readContentRange, Str.stripPrefix_append]
  simp only [bind, Option.bind, Str.cut_char _ hslash, Str.cut_char _ hdash,
    Decimal.parseUnsigned_numeral hlen, Decimal.parseUnsigned_numeral hstart]

theorem readContentRange_unsatisfied {len : Nat} (hlen : len < 2 ^ 64) :
    readContentRange (formatContentRange (.unsatisfied len)) = some (0, len) := by
  have hformat : formatContentRange (.unsatisfied len) = "bytes ".toList ++
      (['*'] ++ '/' :: Decimal.numeral len) := by
    have hunit : "bytes */".toList = "bytes ".toList ++ ['*', '/'] := by decide
    unfold formatContentRange
    rw [hunit]
    generalize "bytes ".toList = unit
    simp
  have hslash : '/' ∉ ['*'] := by decide
  have hdash : Str.cut ['-'] ['*'] = none := by decide
  rw [hformat, readContentRange, Str.stripPrefix_append]
  simp only [bind, Option.bind, Str.cut_char _ hslash, hdash, Decimal.parseUnsigned_numeral hlen]

theorem find_contentRange {len : Nat} {plan : MediaResponsePlan len} {response : HttpResponse}
    {range : ContentRange} (h : response.headers = plannedHeaders plan)
    (hrange : plan.contentRange = some range) :
    (response.readBack.fields.find? fun h => h.1 == "content-range".toList) =
      some ("content-range".toList, formatContentRange range) := by
  have hname : "Content-Range".toList.map Char.toLower = "content-range".toList := by decide
  have hlower : lowerName ("Content-Range".toList, formatContentRange range) =
      ("content-range".toList, formatContentRange range) := by rw [lowerName, hname]
  have hskip : ∀ name ∈ ["Content-Type".toList, "Accept-Ranges".toList,
      "transferMode.dlna.org".toList, "contentFeatures.dlna.org".toList],
        (name.map Char.toLower == "content-range".toList) = false := by decide
  have hother : ∀ name ∈ ["Content-Type".toList, "Accept-Ranges".toList,
      "transferMode.dlna.org".toList, "contentFeatures.dlna.org".toList],
        ∀ value (rest : List (Str × Str)), ((lowerName (name, value) :: rest).find? fun h =>
          h.1 == "content-range".toList) = rest.find? fun h => h.1 == "content-range".toList :=
    fun name hmem value rest => List.find?_cons_of_neg (by
      rw [lowerName, hskip name hmem]
      exact Bool.false_ne_true)
  simp only [List.forall_mem_cons] at hother
  obtain ⟨htype, hranges, hmode, hfeatures, -⟩ := hother
  rw [HttpResponse.readBack, HttpResponse.fields, h, plannedHeaders, hrange, List.cons_append,
    List.map_cons, htype, List.cons_append, List.map_cons, hranges, List.cons_append,
    List.map_cons, hmode, List.cons_append, List.map_cons, hfeatures]
  refine (List.find?_cons_of_pos ?_).trans (congrArg some hlower)
  exact (congrArg (fun h : Str × Str => h.1 == "content-range".toList) hlower).trans
    (beq_self_eq_true _)

theorem part_planned {len start total : Nat} {plan : MediaResponsePlan len}
    {response : HttpResponse} {range : ContentRange} (h : response.headers = plannedHeaders plan)
    (hstatus : response.status = 206 ∨ response.status = 416)
    (hrange : plan.contentRange = some range)
    (hread : readContentRange (formatContentRange range) = some (start, total)) :
    response.readBack.part = some (⟨start, response.body⟩, total) := by
  have hfind := find_contentRange h hrange
  have hsame : response.readBack.status = response.status := rfl
  rw [ReadBack.part, hsame]
  rcases hstatus with hstatus | hstatus <;>
    simp only [hstatus, hfind, bind, Option.bind, hread] <;> rfl

theorem ReadBack.part_items {back : ReadBack} {piece : Piece UInt8} {total : Nat}
    (h : back.part = some (piece, total)) : piece.items = back.body := by
  unfold ReadBack.part at h
  split at h
  · cases h
    rfl
  all_goals first
    | cases h
    | obtain ⟨field, -, h⟩ := Option.bind_eq_some_iff.mp h
      obtain ⟨⟨start, len⟩, -, h⟩ := Option.bind_eq_some_iff.mp h
      cases h
      rfl

/-! The answers -/

theorem planMediaResponse_single (headers : MediaHeadersRef) {range : SingleRange}
    (hfits : range.Fits) :
    (∃ r : SatisfiableRange headers.len, range.bytes headers.len = some (r.start, r.stop) ∧
        planMediaResponse .get headers (some range.header) = partialPlan .get headers r) ∨
      (range.bytes headers.len = none ∧
        planMediaResponse .get headers (some range.header) = unsatisfiedPlan headers) := by
  have happly := parseRangeHeader_apply range hfits headers.len
  cases hread : parseRangeHeader range.header >>= fun spec => spec.apply headers.len with
  | ok r =>
      rw [hread] at happly
      cases hbytes : range.bytes headers.len with
      | none =>
          rw [hbytes] at happly
          cases happly
      | some bytes =>
          rw [hbytes] at happly
          refine .inl ⟨r, congrArg some (Except.ok.inj happly).symm, ?_⟩
          simp only [planMediaResponse, hread]
  | error e =>
      rw [hread] at happly
      cases hbytes : range.bytes headers.len with
      | none =>
          rw [hbytes] at happly
          obtain rfl : e = .unsatisfiable := Except.error.inj happly
          refine .inr ⟨rfl, ?_⟩
          simp only [planMediaResponse, hread]
      | some bytes =>
          rw [hbytes] at happly
          cases happly

section
variable {fs : FileSystem} {path : Path} {file : File} {headers : MediaHeadersRef}

theorem sendPlanned_partial (range : SatisfiableRange headers.len)
    (hlen : headers.len = file.bytes.length) (hopen : fs.openFile path = .ok file) :
    ∃ response, sendPlanned fs path (partialPlan .get headers range) = .ok response ∧
      response.readBack.part =
        some (⟨range.start, (file.bytes.drop range.start).take range.len⟩, file.bytes.length) := by
  have htotal : headers.len < 2 ^ 64 := by
    have := file.length_lt
    omega
  have hstart : range.start < 2 ^ 64 := by
    have := range.start_le
    have := range.stop_lt
    omega
  have hread := readContentRange_bytes range.stop hstart htotal
  have hheaders : plannedHeaders (partialPlan .get headers range) =
      plannedHeaders (partialPlan .get headers range) := rfl
  rw [← hlen]
  refine ⟨{ HttpResponse.empty 206 headers.contentType with
    headers := plannedHeaders (partialPlan .get headers range)
    body := (file.bytes.drop range.start).take range.len }, ?_,
    part_planned hheaders (.inl rfl) rfl hread⟩
  have hsend : (partialPlan .get headers range).sendBody = true := rfl
  have hrange : (partialPlan .get headers range).bodyRange = some range := rfl
  rw [sendPlanned, hsend, hrange]
  simp only [hopen]
  rfl

theorem sendPlanned_unsatisfied (fs : FileSystem) (path : Path) (headers : MediaHeadersRef)
    (hlen : headers.len = file.bytes.length) :
    ∃ response, sendPlanned fs path (unsatisfiedPlan headers) = .ok response ∧
      response.readBack.part = some (⟨0, []⟩, file.bytes.length) := by
  have htotal : headers.len < 2 ^ 64 := by
    have := file.length_lt
    omega
  have hread := readContentRange_unsatisfied htotal
  rw [← hlen]
  exact ⟨_, rfl, part_planned rfl (.inr rfl) rfl hread⟩

end

section
variable {fs : FileSystem} {shared : SharedRuntimeState} {state : RuntimeState} {file : File}

/-- An answer brings the bytes that were asked for. -/
theorem mediaResponse_part {id : Str} {entry : ServedMedia} {part : Option SingleRange}
    (hcurrent : shared.getCurrent = .ok state) (hentry : state.mediaByIdOrLegacyIndex id = some entry)
    (hlen : fs.len entry.path = .ok file.len) (hopen : fs.openFile entry.path = .ok file)
    (hfits : ∀ range ∈ part, range.Fits) :
    ∃ response, mediaResponse fs shared id .get (part.map SingleRange.header) = .ok response ∧
      response.readBack.part = some (partOf file.bytes part, file.bytes.length) := by
  cases part with
  | none =>
      obtain ⟨response, hresponse, hstatus, -, hbody⟩ :=
        mediaResponse_whole hcurrent hentry hlen hopen
      have hwhole : partOf file.bytes none = ⟨0, file.bytes⟩ := by
        cases hbytes : file.bytes with
        | nil => rfl
        | cons b bs => simp [partOf, askedBytes]
      refine ⟨response, hresponse, ?_⟩
      have hpart := ReadBack.part_whole (show response.readBack.status = 200 from hstatus)
      rw [hpart, hwhole, ← hbody]
      rfl
  | some range =>
      have htotal : file.len.toNat = file.bytes.length := file.toNat_len
      obtain ⟨r, hbytes, hplan⟩ | ⟨hbytes, hplan⟩ := planMediaResponse_single
        ⟨file.len.toNat, entry.item.mimeType, entry.item.protocolInfo⟩ (hfits range rfl)
      · obtain ⟨response, hresponse, hpart⟩ := sendPlanned_partial r htotal hopen
        refine ⟨response, ?_, ?_⟩
        · rw [mediaResponse, hcurrent]
          simp only [bind, Except.bind, hentry, hlen, Option.map_some]
          rw [hplan, hresponse]
        · have hasked : askedBytes file.bytes.length (some range) = some (r.start, r.stop) :=
            htotal ▸ hbytes
          rw [hpart, partOf, hasked]
          rfl
      · obtain ⟨response, hresponse, hpart⟩ := sendPlanned_unsatisfied fs entry.path
          ⟨file.len.toNat, entry.item.mimeType, entry.item.protocolInfo⟩ htotal
        refine ⟨response, ?_, ?_⟩
        · rw [mediaResponse, hcurrent]
          simp only [bind, Except.bind, hentry, hlen, Option.map_some]
          rw [hplan, hresponse]
        · have hasked : askedBytes file.bytes.length (some range) = none := htotal ▸ hbytes
          rw [hpart, partOf, hasked]

/-- What is sent in answer to a request. -/
def answerTo (fs : FileSystem) (depth elapsed : Nat) (now : Int) (shared : SharedRuntimeState)
    (request : HttpRequest) : Option (List UInt8) :=
  match routeRequest fs depth now elapsed shared request with
  | some (.ok response, _) => some (writeResponse response)
  | _ => none

theorem answerTo_eq_some {depth elapsed : Nat} {now : Int} {request : HttpRequest}
    {sent : List UInt8} : answerTo fs depth elapsed now shared request = some sent ↔
      ∃ response shared', routeRequest fs depth now elapsed shared request =
        some (.ok response, shared') ∧ writeResponse response = sent := by
  unfold answerTo
  split
  · rename_i response shared' hroute
    rw [hroute]
    simp
  · rename_i hother
    exact ⟨nofun, fun ⟨response, shared', hroute, _⟩ => absurd hroute (hother response shared')⟩

theorem answerTo_part {id : Str} {entry : ServedMedia} {part : Option SingleRange}
    {request : HttpRequest} (hv : VideoOnly state) (hcurrent : shared.getCurrent = .ok state)
    (hentry : state.mediaByIdOrLegacyIndex id = some entry) (hlen : fs.len entry.path = .ok file.len)
    (hopen : fs.openFile entry.path = .ok file) (hasks : AsksFor request id part)
    (hfits : ∀ range ∈ part, range.Fits) (depth elapsed : Nat) (now : Int) :
    ∃ sent back, answerTo fs depth elapsed now shared request = some sent ∧
      readResponse false ⟨sent, .pending⟩ = .done back [] ∧
      back.part = some (partOf file.bytes part, file.bytes.length) := by
  obtain ⟨response, hresponse, hpart⟩ := mediaResponse_part hcurrent hentry hlen hopen hfits
  have hroute : routeRequest fs depth now elapsed shared request = some (.ok response, shared) := by
    rw [routeRequest_mediaPath hasks.method hasks.path, hasks.range, hresponse]
  have hlength : response.body.length < 2 ^ 64 := by
    have hle := (partOf_of file.bytes part).length_le
    have hlt := file.length_lt
    rw [List.length_drop, ReadBack.part_items hpart] at hle
    change response.body.length ≤ _ at hle
    omega
  have hget : "GET".toList ≠ "HEAD".toList := by decide
  have hmethod : request.method ≠ "HEAD".toList := fun h => hget (hasks.method.symm.trans h)
  have hread := readResponse_routed (getCurrent_value hcurrent ▸ hv) hroute hlength
    (fun h => absurd h hmethod) [] .pending
  rw [beq_eq_false_iff_ne.mpr hmethod, List.append_nil] at hread
  exact ⟨writeResponse response, _, by rw [answerTo, hroute], hread, hpart⟩

theorem Scanned.videoOnly {t : FileTree} {config : RuntimeConfig} (h : Scanned fs t config state) :
    VideoOnly state := by
  obtain ⟨_, _, hscan⟩ := h.scan
  exact videoOnly_scan (congrArg ExceptT.run hscan)

/-- The file that the identifier of a media file is for. -/
theorem Scanned.entry {t : FileTree} {config : RuntimeConfig} {f : MediaFile}
    (h : Scanned fs t config state) (hf : f ∈ t.mediaFiles []) :
    ∃ g : MediaFile, state.mediaByIdOrLegacyIndex f.id =
        some (g.served config.mediaDir config.publicBaseUrl) ∧
      fs.len (config.mediaDir ++ g.path) = .ok g.content.len ∧
      fs.openFile (config.mediaDir ++ g.path) = .ok g.content ∧ t.named f.id = some g := by
  obtain ⟨g, hnamed, hg, -⟩ := FileTree.exists_named hf
  obtain ⟨hlen, hopen⟩ := h.opens hg
  refine ⟨g, ?_, hlen, hopen, hnamed⟩
  rw [h.eq_library, RuntimeState.mediaByIdOrLegacyIndex, FileTree.mediaById_library, hnamed]
  rfl

end

/-- A film of five bytes. -/
def reel : File := { bytes := [1, 2, 3, 4, 5], length_lt := by decide }

def reelName : FileName := { bytes := Str.bytes "reel.mpg".toList, isFileName := by decide }

def reelTree : FileTree := .dir [reelName] (List.nodup_singleton _) fun _ => .file reel

def reelFile : MediaFile where
  dir := []
  name := reelName
  kind := .mpegPs "video/mpeg".toList .mpegPsNtsc
  entryLen := reel.len
  content := reel

theorem reelTree_walk : reelTree.mediaFiles [] = [reelFile] := rfl

def lastTwo : SingleRange :=
  .suffix { text := ['2'], ne_nil := by decide, digits := by decide }

def firstFour : SingleRange :=
  .between { text := ['0'], ne_nil := by decide, digits := by decide }
    { text := ['3'], ne_nil := by decide, digits := by decide } (by decide)

theorem lastTwo_fits : lastTwo.Fits := (by decide : (2 : Nat) < 2 ^ 64)

theorem firstFour_fits : firstFour.Fits := (by decide : (0 : Nat) < 2 ^ 64 ∧ (3 : Nat) < 2 ^ 64)

theorem askedWhole_reel : AskedWhole reel.bytes.length [some lastTwo, some firstFour] := by
  intro i hi
  have hlt : i < 5 := hi
  by_cases hle : i ≤ 3
  · exact ⟨some firstFour, by simp, (0, 3), rfl, Nat.zero_le _, hle⟩
  · exact ⟨some lastTwo, by simp, (3, 4), rfl, by omega, by omega⟩

theorem reelTree_scanned :
    Scanned (reelTree.fileSystem []) reelTree .default (reelTree.library .default) := by
  refine FileTree.scanned_library (reelTree.fileSystem_shows []) rfl fun f hf => ?_
  rw [reelTree_walk, List.mem_singleton] at hf
  rw [hf]
  exact nofun

theorem reelFile_mem : reelFile ∈ reelTree.mediaFiles [] := List.mem_singleton_self _

theorem eq_reelFile {g : MediaFile} (h : reelTree.named reelFile.id = some g) : g = reelFile := by
  have hg := List.mem_of_find?_eq_some h
  rwa [reelTree_walk, List.mem_singleton] at hg

def reelRequest (range : SingleRange) : HttpRequest :=
  { mediaRequest reelFile.id with headers := [("Range".toList, range.header)] }

theorem reelRequest_asksFor (range : SingleRange) :
    AsksFor (reelRequest range) reelFile.id (some range) := ⟨rfl, rfl, rfl⟩

end RustyCastle.Server
