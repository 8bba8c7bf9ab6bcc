import RustyCastle.Server.BrowseNames
import RustyCastle.Server.Framing
import RustyCastle.Server.Requests

/-!
A response on the wire, and a client that reads it: lines as the server itself reads
them, then as many bytes as were announced. No text of a file name or of a request gets
into the head of a response, so the client reads back what was written and knows where
it ends.
-/

namespace RustyCastle.Server
open Foundation RustyCastle.MediaHttp RustyCastle.Dlna

/-! Heads -/

/-- A value that stays on its line and is not trimmed. -/
def PlainValue (value : Str) : Prop := Str.Trimmed value ∧ '\r' ∉ value ∧ '\n' ∉ value

instance (value : Str) : Decidable (PlainValue value) := inferInstanceAs (Decidable (_ ∧ _))

def PlainName (name : Str) : Prop := PlainValue name ∧ name ≠ [] ∧ ':' ∉ name

instance (name : Str) : Decidable (PlainName name) := inferInstanceAs (Decidable (_ ∧ _))

structure HttpResponse.Plain (response : HttpResponse) : Prop where
  contentType : PlainValue response.contentType
  headers : ∀ h ∈ response.headers, PlainName h.1 ∧ PlainValue h.2
  status : response.status < 2 ^ 16

/-- All header lines of a response. -/
def HttpResponse.fields (response : HttpResponse) : List (Str × Str) :=
  ("Content-Type".toList, response.contentType) :: response.headers ++
    [("Connection".toList, "close".toList)]

def lowerName (h : Str × Str) : Str × Str := (h.1.map Char.toLower, h.2)

def headerLine (h : Str × Str) : Str := h.1 ++ ": ".toList ++ h.2 ++ ['\r']

def statusLine (response : HttpResponse) : Str :=
  "HTTP/1.1 ".toList ++ Decimal.numeral response.status ++
    ' ' :: reasonPhrase response.status ++ ['\r']

theorem trimLineEnd_plain {line : Str} (hr : '\r' ∉ line) (hn : '\n' ∉ line) :
    trimLineEnd (line ++ ['\r']) = line := by
  refine (List.rdropWhile_concat_pos _ _ _ rfl).trans (List.rdropWhile_eq_self_iff.mpr fun hne => ?_)
  have hmem := List.getLast_mem hne
  simp only [Bool.or_eq_true, beq_iff_eq, not_or]
  exact ⟨fun he => hr (he ▸ hmem), fun he => hn (he ▸ hmem)⟩

theorem headerLine_plain {h : Str × Str} (hname : PlainName h.1) (hvalue : PlainValue h.2) :
    '\n' ∉ headerLine h ∧ trimLineEnd (headerLine h) = h.1 ++ ": ".toList ++ h.2 := by
  obtain ⟨⟨-, hr, hn⟩, -, -⟩ := hname
  obtain ⟨-, hr', hn'⟩ := hvalue
  have hsep : '\r' ∉ ": ".toList ∧ '\n' ∉ ": ".toList ++ ['\r'] := by decide
  constructor
  · simp only [headerLine, List.mem_append, not_or] at hsep ⊢
    exact ⟨⟨⟨hn, hsep.2.1⟩, hn'⟩, hsep.2.2⟩
  · refine trimLineEnd_plain ?_ ?_
    · simp only [List.mem_append, not_or]
      exact ⟨⟨hr, hsep.1⟩, hr'⟩
    · simp only [List.mem_append, not_or] at hsep ⊢
      exact ⟨⟨hn, hsep.2.1⟩, hn'⟩

/-- A plain header is read back, with its name in lower case. -/
theorem headerField_plain {h : Str × Str} (hname : PlainName h.1) (hvalue : PlainValue h.2) :
    headerField (h.1 ++ ": ".toList ++ h.2) = some (lowerName h) := by
  have hsplit : h.1 ++ ": ".toList ++ h.2 = h.1 ++ ':' :: (' ' :: h.2) := by simp
  have hspace : Str.trim (' ' :: h.2) = h.2 := by
    rw [Str.trim, List.dropWhile_cons_of_pos (by rfl)]
    exact Str.trim_of_trimmed hvalue.1
  rw [headerField, hsplit, Str.cut_char _ hname.2.2, Option.map_some, hspace,
    Str.trim_of_trimmed hname.1.1]
  rfl

theorem mem_fields {response : HttpResponse} (h : response.Plain) :
    ∀ f ∈ response.fields, PlainName f.1 ∧ PlainValue f.2 := by
  have htype : PlainName "Content-Type".toList := by decide
  have hconnection : PlainName "Connection".toList ∧ PlainValue "close".toList := by decide
  refine List.forall_mem_cons.mpr ⟨⟨htype, h.contentType⟩, List.forall_mem_append.mpr
    ⟨h.headers, List.forall_mem_singleton.mpr hconnection⟩⟩

theorem reasonPhrase_plain (status : Nat) : '\n' ∉ reasonPhrase status := by
  unfold reasonPhrase
  split_ifs <;> decide

theorem statusLine_plain (response : HttpResponse) : '\n' ∉ statusLine response := by
  have hversion : '\n' ∉ "HTTP/1.1 ".toList := by decide
  have hnumeral : '\n' ∉ Decimal.numeral response.status := Decimal.notMem_numeral (by decide) _
  have hreason := reasonPhrase_plain response.status
  unfold statusLine
  simp only [List.mem_append, List.mem_cons, List.not_mem_nil, or_false, not_or]
  exact ⟨⟨⟨hversion, hnumeral⟩, by decide, hreason⟩, by decide⟩

theorem words_statusLine (response : HttpResponse) :
    (Str.words (statusLine response))[1]? = some (Decimal.numeral response.status) := by
  have hword : Str.words (Decimal.numeral response.status) = [Decimal.numeral response.status] :=
    Str.words_word Nat.toDigits_ne_nil fun c hc =>
      Decimal.isDigit_not_whitespace (Decimal.numeral_isDigit hc)
  have hversion : Str.words "HTTP/1.1".toList = ["HTTP/1.1".toList] :=
    Str.words_word (by decide) (by decide)
  have hspace : "HTTP/1.1 ".toList = "HTTP/1.1".toList ++ [' '] := by decide
  have hsplit : statusLine response = "HTTP/1.1".toList ++ ' ' ::
      (Decimal.numeral response.status ++ ' ' :: (reasonPhrase response.status ++ ['\r'])) := by
    unfold statusLine
    rw [hspace]
    generalize "HTTP/1.1".toList = version
    simp
  rw [hsplit, Str.words_append_cons (by decide), Str.words_append_cons (by decide), hversion, hword]
  rfl

/-- The head of a response is its lines. -/
theorem writeResponse_eq (response : HttpResponse) : writeResponse response =
    lineBytes (statusLine response) ++ ((response.fields.map headerLine).flatMap lineBytes ++
      lineBytes ['\r'] ++ response.body) := by
  have hheaders : Str.bytes (response.headers.flatMap fun h => h.1 ++ ": ".toList ++ h.2 ++
      "\r\n".toList) = (response.headers.map headerLine).flatMap lineBytes := by
    rw [List.flatMap_map]
    generalize response.headers = headers
    induction headers with
    | nil => rfl
    | cons h headers ih =>
        rw [List.flatMap_cons, List.flatMap_cons, Str.bytes_append, ih]
        congr 1
        simp [lineBytes, headerLine]
  have hend : "\r\n".toList = ['\r', '\n'] := by decide
  have htype : "Content-Type: ".toList = "Content-Type".toList ++ ": ".toList := by decide
  have hconnection : "Connection: close\r\n\r\n".toList =
      "Connection".toList ++ ": ".toList ++ "close".toList ++ ['\r', '\n', '\r', '\n'] := by decide
  unfold writeResponse HttpResponse.fields statusLine
  rw [Str.bytes_append, Str.bytes_append, hheaders, hend, htype, hconnection, List.cons_append,
    List.map_cons, List.map_append, List.flatMap_cons, List.flatMap_append]
  generalize (response.headers.map headerLine).flatMap lineBytes = headers
  generalize "HTTP/1.1 ".toList = version
  generalize "Content-Type".toList = typeName
  generalize "Connection".toList = connection
  generalize "close".toList = close
  generalize reasonPhrase response.status = reason
  simp [lineBytes, headerLine]

/-! A client -/

/-- What a client gets to know of a response. -/
structure ReadBack where
  status : Nat
  fields : List (Str × Str)
  body : List UInt8
  deriving DecidableEq

/-- Reads a response. The answer to a HEAD request has no body, whatever it announces. -/
def readResponse (head : Bool) : Reader UInt8 ReadFailure ReadBack := do
  let statusLine ← readLine
  let status := ((Str.words statusLine)[1]?.bind (Decimal.parseUnsigned 16)).getD 0
  let lines ← Reader.collect readHeaderLine
  let fields := lines.filterMap headerField
  let body ← Reader.exactly (if head then 0 else contentLength fields)
    (.ofMessage "failed to fill whole buffer")
  pure { status := status, fields := fields, body := body }

/-- The response as a client is to read it. -/
def HttpResponse.readBack (response : HttpResponse) : ReadBack where
  status := response.status
  fields := response.fields.map lowerName
  body := response.body

theorem find_announced {headers : List (Str × Str)} {value : Str}
    (h : announced headers = [value]) :
    ((headers.map lowerName).find? fun h => h.1 == "content-length".toList).map Prod.snd =
      some value := by
  have hlower : "Content-Length".toList.map Char.toLower = "content-length".toList := by decide
  have hsame : ∀ f : Str × Str,
      ((lowerName f).1 == "content-length".toList) = isContentLength f.1 := fun f => by
    rw [isContentLength, Str.eqIgnoreAsciiCase, hlower]
    rfl
  induction headers with
  | nil => cases h
  | cons f headers ih =>
      rw [List.map_cons]
      by_cases hf : isContentLength f.1 = true
      · rw [List.find?_cons_of_pos (by rw [hsame, hf])]
        rw [announced, List.filter_cons_of_pos (by exact hf), List.map_cons] at h
        exact congrArg some (List.cons.inj h).1
      · rw [List.find?_cons_of_neg (by rw [hsame]; exact hf)]
        exact ih (by rwa [announced_cons_of_ne (by simpa using hf)] at h)

theorem contentLength_fields {response : HttpResponse} {n : Nat}
    (h : announced response.headers = [Decimal.numeral n]) (hn : n < 2 ^ 64) :
    contentLength (response.fields.map lowerName) = n := by
  have htype : isContentLength "Content-Type".toList = false := by decide
  have hconnection : isContentLength "Connection".toList = false := by decide
  have hannounced : announced response.fields = [Decimal.numeral n] := by
    have happend : announced response.fields =
        announced (response.headers ++ [("Connection".toList, "close".toList)]) :=
      announced_cons_of_ne htype _ _
    rw [happend, announced, List.filter_append, List.map_append]
    change announced _ ++ announced [_] = _
    rw [announced_cons_of_ne hconnection, h]
    rfl
  obtain ⟨f, hf, hv⟩ := Option.map_eq_some_iff.mp (find_announced hannounced)
  rw [contentLength, hf, Option.bind_some, hv, Decimal.parseUnsigned_numeral hn, Option.getD_some]

/-- A plain response is read back, and what follows it is left, where it has the bytes that it
announces or is not to have any. -/
theorem readResponse_write {response : HttpResponse} (h : response.Plain) {head : Bool} {n : Nat}
    (hn : announced response.headers = [Decimal.numeral n]) (hlt : head = false → n < 2 ^ 64)
    (hbody : response.body.length = if head then 0 else n) (more : List UInt8)
    (ending : Ending ReadFailure) :
    readResponse head ⟨writeResponse response ++ more, ending⟩ = .done response.readBack more := by
  have hfields : ∀ line ∈ response.fields.map headerLine, '\n' ∉ line ∧ trimLineEnd line ≠ [] := by
    intro line hline
    obtain ⟨f, hf, rfl⟩ := List.mem_map.mp hline
    obtain ⟨hname, hvalue⟩ := mem_fields h f hf
    obtain ⟨hfeed, htrim⟩ := headerLine_plain hname hvalue
    refine ⟨hfeed, ?_⟩
    rw [htrim, List.append_assoc]
    exact List.append_ne_nil_of_left_ne_nil hname.2.1 _
  have hread : ((response.fields.map headerLine).map trimLineEnd).filterMap headerField =
      response.fields.map lowerName := by
    have hsome : ∀ f ∈ response.fields,
        ((headerField ∘ trimLineEnd) ∘ headerLine) f = (some ∘ lowerName) f := fun f hf => by
      obtain ⟨hname, hvalue⟩ := mem_fields h f hf
      change headerField (trimLineEnd (headerLine f)) = some (lowerName f)
      rw [(headerLine_plain hname hvalue).2]
      exact headerField_plain hname hvalue
    rw [List.filterMap_map, List.filterMap_map, List.filterMap_congr hsome, List.filterMap_eq_map]
  have hlast : readHeaderLine ⟨lineBytes ['\r'] ++ (response.body ++ more), ending⟩ =
      .done none (response.body ++ more) := readHeaderLine_append (by decide) _ _
  have hlines := collects_append hfields (.nil hlast)
  have hlength : response.body.length =
      if head then 0 else contentLength (response.fields.map lowerName) := by
    cases head with
    | true => exact hbody
    | false =>
        rw [contentLength_fields hn (hlt rfl)]
        exact hbody
  have hstatus : ((Str.words (statusLine response ++ ['\n']))[1]?.bind
      (Decimal.parseUnsigned 16)).getD 0 = response.status := by
    rw [words_concat_feed, words_statusLine, Option.bind_some,
      Decimal.parseUnsigned_numeral h.status, Option.getD_some]
  rw [writeResponse_eq, List.append_assoc, List.append_assoc, List.append_assoc]
  refine Reader.bind_eq_done.mpr ⟨_, _, readLine_append (statusLine_plain response) _ _, ?_⟩
  refine Reader.bind_eq_done.mpr
    ⟨_, _, (Reader.collect_iff consumes_readHeaderLine).mpr hlines, ?_⟩
  rw [List.append_nil, hread, hstatus, ← hlength]
  refine Reader.bind_eq_done.mpr ⟨response.body, more, ?_, rfl⟩
  rw [Reader.exactly, if_pos (by simp), List.take_left, List.drop_left]

/-! Scanned media -/

/-- Every media entry that a scan gives has a property. -/
def Gives (P : ServedMedia → Prop) (scan : Scan ScannedMediaTree) : Prop :=
  ∀ tree, scan.run = some (.ok tree) → ∀ entry ∈ tree.media, P entry

theorem gives_pure {P : ServedMedia → Prop} {tree : ScannedMediaTree}
    (h : ∀ entry ∈ tree.media, P entry) : Gives P (pure tree) := by
  intro scanned hs
  cases hs
  exact h

theorem Gives.bind {P : ServedMedia → Prop} {scan : Scan ScannedMediaTree}
    {next : ScannedMediaTree → Scan ScannedMediaTree} (h : Gives P scan)
    (hnext : ∀ tree, (∀ entry ∈ tree.media, P entry) → Gives P (next tree)) :
    Gives P (scan >>= next) := by
  intro tree ht
  rw [ExceptT.run_bind] at ht
  obtain ⟨_ | mid, hmid, ht⟩ := Option.bind_eq_some_iff.mp ht
  · cases ht
  · exact hnext mid (h mid hmid) tree ht

section
variable {fs : FileSystem} {root : Path} {publicBaseUrl : Str} {P : ServedMedia → Prop}

theorem gives_scanEntry
    (hP : ∀ path name kind parentId served, mediaKind name = some kind →
      scanMedia fs root publicBaseUrl path name kind parentId = .ok served → P served)
    {scanDir : Path → Str → ScannedMediaTree → Scan ScannedMediaTree}
    (h : ∀ dir parentId tree, (∀ entry ∈ tree.media, P entry) → Gives P (scanDir dir parentId tree))
    (dir : Path) (parentId : Str) (name : FileName) {tree : ScannedMediaTree}
    (ht : ∀ entry ∈ tree.media, P entry) :
    Gives P (scanEntry fs root publicBaseUrl scanDir dir parentId tree name) := by
  unfold scanEntry
  dsimp only
  split
  · exact h _ _ _ ht
  · split
    · exact gives_pure ht
    · split
      · exact gives_pure ht
      · rename_i kind hkind
        intro scanned hs
        rw [ExceptT.run_bind] at hs
        obtain ⟨x, hx, hs⟩ := Option.bind_eq_some_iff.mp hs
        cases x with
        | error e => cases hs
        | ok served =>
            cases hs
            have hserved := hP _ _ _ _ served hkind (Option.some.inj hx)
            exact List.forall_mem_append.mpr ⟨ht, List.forall_mem_singleton.mpr hserved⟩

theorem gives_scanMediaDirInto
    (hP : ∀ path name kind parentId served, mediaKind name = some kind →
      scanMedia fs root publicBaseUrl path name kind parentId = .ok served → P served)
    (depth : Nat) (dir : Path) (parentId : Str) {tree : ScannedMediaTree}
    (ht : ∀ entry ∈ tree.media, P entry) :
    Gives P (scanMediaDirInto fs root publicBaseUrl depth dir parentId tree) := by
  induction depth generalizing dir parentId tree with
  | zero =>
      intro scanned hs
      cases hs
  | succ depth ih =>
      have hentries : ∀ names, Gives P (List.foldlM (scanEntry fs root publicBaseUrl
          (scanMediaDirInto fs root publicBaseUrl depth) dir parentId) tree names) := by
        intro names
        induction names generalizing tree with
        | nil => exact gives_pure ht
        | cons name names ih' =>
            rw [List.foldlM_cons]
            exact (gives_scanEntry hP (fun dir parentId tree ht => ih dir parentId ht) dir parentId name
              ht).bind fun tree ht => ih' ht
      intro scanned hs
      rw [scanMediaDirInto, ExceptT.run_bind] at hs
      obtain ⟨_ | names, -, hs⟩ := Option.bind_eq_some_iff.mp hs
      · cases hs
      · exact hentries _ scanned hs

end

/-- The media of a library have the types of the kinds that the scan knows. -/
def VideoOnly (state : RuntimeState) : Prop :=
  ∀ entry ∈ state.media, entry.item.mimeType = "video/mp4".toList ∨
    entry.item.mimeType = "video/mpeg".toList

theorem mimeType_of_scanMedia {fs : FileSystem} {root path : Path} {publicBaseUrl parentId : Str}
    {name : FileName} {kind : MediaKind} {served : ServedMedia} (hkind : mediaKind name = some kind)
    (h : scanMedia fs root publicBaseUrl path name kind parentId = .ok served) :
    served.item.mimeType = "video/mp4".toList ∨ served.item.mimeType = "video/mpeg".toList := by
  have hmime : ∀ id parentId title url, (mediaItem kind id parentId title url).mimeType =
      "video/mp4".toList ∨ (mediaItem kind id parentId title url).mimeType = "video/mpeg".toList := by
    intro id parentId title url
    obtain rfl | ⟨profile, rfl⟩ := mediaKind_cases hkind
    · exact .inl rfl
    · exact .inr rfl
  unfold scanMedia at h
  simp only [bind, Except.bind] at h
  split at h
  · cases h
  · split at h
    · cases h
    · cases h
      exact hmime ..

theorem videoOnly_scan {fs : FileSystem} {depth : Nat} {config : RuntimeConfig} {state : RuntimeState}
    (h : (RuntimeState.scan fs depth config).run = some (.ok state)) : VideoOnly state := by
  rw [RuntimeState.scan, ExceptT.run_bind] at h
  obtain ⟨_ | tree, ht, h⟩ := Option.bind_eq_some_iff.mp h
  · cases h
  · cases h
    exact gives_scanMediaDirInto (fun _ _ _ _ _ => mimeType_of_scanMedia) _ _ _
      (List.forall_mem_nil _) tree ht

/-! What the routes write -/

theorem plainValue_of_forall {value : Str} (h : ∀ c ∈ value, Str.isWhitespace c = false) :
    PlainValue value := by
  have hcr : Str.isWhitespace '\r' = true := by decide
  have hlf : Str.isWhitespace '\n' = true := by decide
  refine ⟨Str.trimmed_of_forall h, fun hm => ?_, fun hm => ?_⟩
  · rw [h _ hm] at hcr
    cases hcr
  · rw [h _ hm] at hlf
    cases hlf

theorem plainValue_numeral (n : Nat) : PlainValue (Decimal.numeral n) :=
  plainValue_of_forall fun _ hc => Decimal.isDigit_not_whitespace (Decimal.numeral_isDigit hc)

theorem plainValue_contentFeatures (info : ProtocolInfoRef) :
    PlainValue (writeContentFeatures info) := by
  have halphabet : ∀ c ∈ additionalAlphabet, Str.isWhitespace c = false := by decide
  exact plainValue_of_forall fun c hc => halphabet c (writeAdditionalInfo_subset info hc)

/-- Words put together by single spaces. -/
theorem PlainValue.append {word value : Str} (hne : word ≠ [])
    (hword : ∀ c ∈ word, Str.isWhitespace c = false) (hvalue : PlainValue value) (hne' : value ≠ []) :
    PlainValue (word ++ ' ' :: value) := by
  obtain ⟨⟨-, hlast⟩, hr, hn⟩ := hvalue
  obtain ⟨⟨hhead, -⟩, hr', hn'⟩ := plainValue_of_forall hword
  refine ⟨⟨?_, ?_⟩, ?_, ?_⟩
  · cases word with
    | nil => exact absurd rfl hne
    | cons c word => exact hhead
  · intro c hc
    rw [List.append_cons, List.getLast?_append_of_ne_nil _ hne'] at hc
    exact hlast c hc
  · simp [hr, hr']
  · simp [hn, hn']

theorem plainValue_contentRange (range : ContentRange) : PlainValue (formatContentRange range) := by
  have hbytes : ∀ c ∈ "bytes".toList, Str.isWhitespace c = false := by decide
  have hne : "bytes".toList ≠ [] := by decide
  have hdash : ∀ c ∈ ['-', '/', '*'], Str.isWhitespace c = false := by decide
  have hnumeral : ∀ n, ∀ c ∈ Decimal.numeral n, Str.isWhitespace c = false := fun n c hc =>
    Decimal.isDigit_not_whitespace (Decimal.numeral_isDigit hc)
  simp only [List.forall_mem_cons, List.not_mem_nil, false_implies, implies_true, and_true] at hdash
  obtain ⟨hminus, hslash, hstar⟩ := hdash
  cases range with
  | bytes start stop len =>
      have hsplit : formatContentRange (.bytes start stop len) = "bytes".toList ++ ' ' ::
          (Decimal.numeral start ++ '-' :: (Decimal.numeral stop ++ '/' :: Decimal.numeral len)) := by
        have hspace : "bytes ".toList = "bytes".toList ++ [' '] := by decide
        unfold formatContentRange
        rw [hspace]
        generalize "bytes".toList = unit
        simp
      rw [hsplit]
      refine PlainValue.append hne hbytes (plainValue_of_forall ?_) (by simp)
      refine List.forall_mem_append.mpr ⟨hnumeral _, List.forall_mem_cons.mpr ⟨hminus, ?_⟩⟩
      exact List.forall_mem_append.mpr ⟨hnumeral _, List.forall_mem_cons.mpr ⟨hslash, hnumeral _⟩⟩
  | unsatisfied len =>
      have hsplit : formatContentRange (.unsatisfied len) = "bytes".toList ++ ' ' ::
          ('*' :: '/' :: Decimal.numeral len) := by
        have hspace : "bytes */".toList = "bytes".toList ++ [' ', '*', '/'] := by decide
        unfold formatContentRange
        rw [hspace]
        generalize "bytes".toList = unit
        simp
      rw [hsplit]
      refine PlainValue.append hne hbytes (plainValue_of_forall ?_) (by simp)
      exact List.forall_mem_cons.mpr ⟨hstar, List.forall_mem_cons.mpr ⟨hslash, hnumeral _⟩⟩

theorem plain_new {status : Nat} {contentType : Str} (body : List UInt8) (hs : status < 2 ^ 16)
    (hc : PlainValue contentType) : (HttpResponse.new status contentType body).Plain where
  contentType := hc
  headers := by
    have hname : PlainName "Content-Length".toList := by decide
    exact List.forall_mem_singleton.mpr ⟨hname, plainValue_numeral _⟩
  status := hs

theorem plainValue_types : PlainValue textXml ∧ PlainValue textPlain ∧ PlainValue textHtml := by decide

theorem plain_seeLibraryResponse : seeLibraryResponse.Plain where
  contentType := plainValue_types.2.1
  headers := by
    have hnames : PlainName "Content-Length".toList ∧ PlainName "Location".toList := by decide
    have hvalue : PlainValue "/ui/library".toList := by decide
    exact List.forall_mem_cons.mpr ⟨⟨hnames.1, plainValue_numeral 0⟩,
      List.forall_mem_singleton.mpr ⟨hnames.2, hvalue⟩⟩
  status := by decide

theorem planMediaResponse_words (method : Method) (headers : MediaHeadersRef) (range : Option Str) :
    (planMediaResponse method headers range).contentType = headers.contentType ∧
      (planMediaResponse method headers range).acceptRanges = "bytes".toList ∧
      (planMediaResponse method headers range).transferMode = "Streaming".toList := by
  unfold planMediaResponse
  split
  · exact ⟨rfl, rfl, rfl⟩
  · split <;> exact ⟨rfl, rfl, rfl⟩

theorem plain_sendPlanned {fs : FileSystem} {path : Path} {len : Nat} {plan : MediaResponsePlan len}
    {response : HttpResponse} (hc : PlainValue plan.contentType)
    (ha : plan.acceptRanges = "bytes".toList) (ht : plan.transferMode = "Streaming".toList)
    (h : sendPlanned fs path plan = .ok response) : response.Plain := by
  have hnames : PlainName "Accept-Ranges".toList ∧ PlainName "transferMode.dlna.org".toList ∧
      PlainName "contentFeatures.dlna.org".toList ∧ PlainName "Content-Range".toList ∧
      PlainName "Content-Length".toList := by decide
  obtain ⟨hranges, hmode, hfeatures, hrange, hlength⟩ := hnames
  have hvalues : PlainValue "bytes".toList ∧ PlainValue "Streaming".toList := by decide
  have hheaders : ∀ h ∈ plannedHeaders plan, PlainName h.1 ∧ PlainValue h.2 := by
    rw [plannedHeaders, ha, ht]
    refine List.forall_mem_cons.mpr ⟨⟨hranges, hvalues.1⟩, List.forall_mem_cons.mpr
      ⟨⟨hmode, hvalues.2⟩, List.forall_mem_cons.mpr ⟨⟨hfeatures, plainValue_contentFeatures _⟩, ?_⟩⟩⟩
    refine List.forall_mem_append.mpr ⟨?_, List.forall_mem_singleton.mpr
      ⟨hlength, plainValue_numeral _⟩⟩
    rintro _ hm
    obtain ⟨range, -, rfl⟩ := List.mem_map.mp hm
    exact ⟨hrange, plainValue_contentRange range⟩
  have hstatus : statusCode plan.status < 2 ^ 16 := by cases plan.status <;> decide
  unfold sendPlanned at h
  dsimp only at h
  split at h
  · cases hopen : fs.openFile path with
    | error e =>
        rw [hopen] at h
        cases h
    | ok file =>
        rw [hopen] at h
        cases h
        exact ⟨hc, hheaders, hstatus⟩
  · cases h
    exact ⟨hc, hheaders, hstatus⟩

section
variable {fs : FileSystem} {depth elapsed : Nat} {now : Int} {state state' : SharedRuntimeState}
  {request : HttpRequest} {response : HttpResponse}

theorem getCurrent_value {current : RuntimeState} (h : state.getCurrent = .ok current) :
    current = state.current.value := by
  unfold SharedRuntimeState.getCurrent RwLock.read at h
  split at h
  · cases h
  · exact (Except.ok.inj h).symm

theorem mem_of_mediaByIdOrLegacyIndex {current : RuntimeState} {id : Str} {entry : ServedMedia}
    (h : current.mediaByIdOrLegacyIndex id = some entry) : entry ∈ current.media := by
  obtain h | ⟨-, h⟩ := Option.or_eq_some_iff.mp h
  · exact List.mem_of_find?_eq_some h
  · obtain ⟨index, -, h⟩ := Option.bind_eq_some_iff.mp h
    split at h
    · cases h
    · exact List.mem_of_getElem? h

theorem plain_mediaResponse {id : Str} {method : Method} {range : Option Str}
    (hv : VideoOnly state.current.value) (h : mediaResponse fs state id method range = .ok response) :
    response.Plain := by
  have hmime : PlainValue "video/mp4".toList ∧ PlainValue "video/mpeg".toList := by decide
  unfold mediaResponse at h
  cases hcurrent : state.getCurrent with
  | error e =>
      rw [hcurrent] at h
      cases h
  | ok current =>
      obtain rfl := getCurrent_value hcurrent
      rw [hcurrent] at h
      simp only [bind, Except.bind] at h
      split at h
      · cases h
        exact plain_new _ (by decide) plainValue_types.2.1
      · rename_i entry hentry
        split at h
        · cases h
        · obtain ⟨htype, hranges, hmode⟩ := planMediaResponse_words method
            { len := (_ : UInt64).toNat
              contentType := entry.item.mimeType
              protocolInfo := entry.item.protocolInfo } range
          have hmem := mem_of_mediaByIdOrLegacyIndex hentry
          refine plain_sendPlanned ?_ hranges hmode h
          rw [htype]
          obtain hm | hm := hv entry hmem
          · exact hm ▸ hmime.1
          · exact hm ▸ hmime.2

theorem plain_uiRoute {page : Option (Except IoError HttpResponse × SharedRuntimeState)}
    (h : uiRoute state page = some (.ok response, state'))
    (hpage : page = some (.ok response, state') → response.Plain) : response.Plain := by
  unfold uiRoute at h
  split at h
  · cases h
  · split at h
    · exact hpage h
    · cases h
      exact plain_new _ (by decide) plainValue_types.2.1

theorem plain_uiRescanResponse
    (h : uiRescanResponse fs depth now elapsed state = some (.ok response, state')) :
    response.Plain := by
  obtain ⟨⟨result, next⟩, -, h⟩ := Option.bind_eq_some_iff.mp h
  cases result with
  | ok _ =>
      cases h
      exact plain_seeLibraryResponse
  | error e =>
      cases h
      exact plain_new _ (by decide) plainValue_types.2.2

theorem plain_of_page {α : Type} {read : Except IoError α} {f : α → Except IoError HttpResponse}
    (h : read >>= f = .ok response) (hf : ∀ a, f a = .ok response → response.Plain) :
    response.Plain := by
  cases read with
  | error e => cases h
  | ok a => exact hf a h

/-- Every response of a server that scanned its library is plain. -/
theorem plain_routeRequest (hv : VideoOnly state.current.value)
    (h : routeRequest fs depth now elapsed state request = some (.ok response, state')) :
    response.Plain := by
  obtain ⟨hxml, htext, hhtml⟩ := plainValue_types
  have answer : ∀ {read : Except IoError HttpResponse} {next},
      some (read, next) = some (.ok response, state') → read = .ok response :=
    fun h => (Prod.mk.inj (Option.some.inj h)).1
  unfold routeRequest at h
  split at h
  · cases hcurrent : state.getCurrent with
    | error e =>
        rw [hcurrent] at h
        cases h
    | ok current =>
        rw [hcurrent] at h
        cases h
        exact plain_new _ (by decide) hxml
  split at h
  · cases h
    exact plain_new _ (by decide) hxml
  split at h
  · cases h
    exact plain_new _ (by decide) hxml
  split at h
  · refine plain_uiRoute h fun h => plain_of_page (answer h) fun current h =>
      plain_of_page h fun status h => ?_
    cases h
    exact plain_new _ (by decide) hhtml
  split at h
  · refine plain_uiRoute h fun h => plain_of_page (answer h) fun current h =>
      plain_of_page h fun status h => ?_
    cases h
    exact plain_new _ (by decide) hhtml
  split at h
  · exact plain_uiRoute h plain_uiRescanResponse
  split at h
  · refine plain_of_page (answer h) fun current h => ?_
    cases h
    exact plain_new _ (UInt16.toNat_lt _) hxml
  split at h
  · split at h
    · exact plain_mediaResponse hv (answer h)
    split at h
    · exact plain_mediaResponse hv (answer h)
    · cases h
      exact plain_new _ (by decide) htext
  · cases h
    exact plain_new _ (by decide) htext

/-- A client reads every response of such a server, unless a HEAD request is answered that
nothing was found. -/
theorem readResponse_routed (hv : VideoOnly state.current.value)
    (h : routeRequest fs depth now elapsed state request = some (.ok response, state'))
    (hlen : response.body.length < 2 ^ 64)
    (hhead : request.method = "HEAD".toList → response ≠ notFoundResponse) (more : List UInt8)
    (ending : Ending ReadFailure) :
    readResponse (request.method == "HEAD".toList) ⟨writeResponse response ++ more, ending⟩ =
      .done response.readBack more := by
  have hplain := plain_routeRequest hv h
  by_cases hm : request.method = "HEAD".toList
  · have htrue : (request.method == "HEAD".toList) = true := beq_iff_eq.mpr hm
    have hmedia : ∃ id, mediaResponse fs state id .head (request.header "range".toList) =
        .ok response := by
      obtain ⟨-, hnot⟩ | ⟨id, -, -, hmedia⟩ := routeRequest_cases h
      · exact absurd (hnot hm).1 (hhead hm)
      · exact ⟨id, hmedia⟩
    obtain ⟨id, hmedia⟩ := hmedia
    obtain ⟨current, -, ⟨-, rfl⟩ | ⟨entry, headers, -, hheaders, hbody⟩⟩ := mediaResponse_cases hmedia
    · exact absurd rfl (hhead hm)
    · rw [htrue]
      refine readResponse_write hplain (by rw [hheaders, announced_plannedHeaders])
        (fun hlt : true = false => by cases hlt) ?_ _ _
      rw [hbody, MediaResponsePlan.bodyLength, planMediaResponse_head]
      rfl
  · have hfalse : (request.method == "HEAD".toList) = false := beq_eq_false_iff_ne.mpr hm
    have hsized : response.Sized := by
      obtain ⟨hsized, -⟩ | ⟨-, -, hhead, -⟩ := routeRequest_cases h
      · exact hsized
      · exact absurd hhead hm
    rw [hfalse]
    exact readResponse_write hplain hsized (fun _ => hlen) rfl _ _

/-- A client that has a part of a response only waits for the rest. -/
theorem readResponse_waits {head : Bool} {sent rest : List UInt8} {back : ReadBack}
    (h : readResponse head ⟨sent ++ rest, .pending⟩ = .done back []) (hne : rest ≠ []) :
    readResponse head ⟨sent, .pending⟩ = .waits := by
  have hsettled : (readResponse head).Settled :=
    settled_readLine.bind fun _ => (Reader.settled_collect settled_readHeaderLine).bind fun _ =>
      (Reader.settled_exactly _ _).bind fun _ => Reader.settled_pure _
  cases hr : readResponse head ⟨sent, .pending⟩ with
  | waits => rfl
  | failed e => cases h.symm.trans (hsettled.failed hr rest .pending)
  | done a left =>
      have hleft := (Reading.done.inj (h.symm.trans (hsettled.done hr rest .pending))).2
      exact absurd (List.append_eq_nil_iff.mp hleft.symm).2 hne

end

end RustyCastle.Server
