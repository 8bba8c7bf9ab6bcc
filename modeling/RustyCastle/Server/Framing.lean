import RustyCastle.Server.FileTree
import RustyCastle.Server.Runtime

/-!
HTTP framing of the responses. Every response announces its length once. A
response to a HEAD request has no body only where the route takes that method.
-/

namespace RustyCastle.Server
open Foundation RustyCastle.MediaHttp

def isContentLength (name : Str) : Bool := Str.eqIgnoreAsciiCase name "Content-Length".toList

/-- The lengths that headers announce. -/
def announced (headers : List (Str × Str)) : List Str :=
  (headers.filter fun h => isContentLength h.1).map Prod.snd

theorem announced_cons_of_ne {name : Str} (h : isContentLength name = false) (value : Str)
    (headers : List (Str × Str)) : announced ((name, value) :: headers) = announced headers := by
  rw [announced, List.filter_cons_of_neg (by simpa using h), announced]

theorem announced_cons (value : Str) (headers : List (Str × Str)) :
    announced (("Content-Length".toList, value) :: headers) = value :: announced headers := by
  have hname : isContentLength "Content-Length".toList = true := by decide
  rw [announced, List.filter_cons_of_pos (by exact hname), List.map_cons, announced]

/-- One announced length; no body for a HEAD request, and else a body of that length. -/
def Framed (request : HttpRequest) (response : HttpResponse) : Prop :=
  ∃ n, announced response.headers = [Decimal.numeral n] ∧
    if request.method = "HEAD".toList then response.body = [] else response.body.length = n

/-- The announced length is that of the body. -/
def HttpResponse.Sized (response : HttpResponse) : Prop :=
  announced response.headers = [Decimal.numeral response.body.length]

theorem sized_new (status : Nat) (contentType : Str) (body : List UInt8) :
    (HttpResponse.new status contentType body).Sized := announced_cons _ _

theorem sized_seeLibraryResponse : seeLibraryResponse.Sized := by
  have hlocation : isContentLength "Location".toList = false := by decide
  exact (announced_cons _ _).trans (congrArg _ (announced_cons_of_ne hlocation _ _))

theorem framed_of_sized {request : HttpRequest} {response : HttpResponse} (h : response.Sized) :
    Framed request response ↔ request.method ≠ "HEAD".toList ∨ response.body = [] := by
  constructor
  · rintro ⟨n, -, hbody⟩
    by_cases hm : request.method = "HEAD".toList
    · rw [if_pos hm] at hbody
      exact .inr hbody
    · exact .inl hm
  · intro hcase
    refine ⟨response.body.length, h, ?_⟩
    split
    · exact hcase.resolve_left fun hne => hne ‹_›
    · rfl

theorem announced_plannedHeaders {len : Nat} (plan : MediaResponsePlan len) :
    announced (plannedHeaders plan) = [Decimal.numeral plan.contentLength] := by
  have hranges : isContentLength "Accept-Ranges".toList = false := by decide
  have hmode : isContentLength "transferMode.dlna.org".toList = false := by decide
  have hfeatures : isContentLength "contentFeatures.dlna.org".toList = false := by decide
  have hrange : isContentLength "Content-Range".toList = false := by decide
  have hlength : announced [("Content-Length".toList, Decimal.numeral plan.contentLength)] =
      [Decimal.numeral plan.contentLength] := announced_cons _ _
  rw [plannedHeaders, announced_cons_of_ne hranges, announced_cons_of_ne hmode,
    announced_cons_of_ne hfeatures]
  cases plan.contentRange with
  | none => exact hlength
  | some r => exact (announced_cons_of_ne hrange _ _).trans hlength

theorem sized_notFoundResponse : notFoundResponse.Sized := sized_new ..

theorem notFoundResponse_body : notFoundResponse.body ≠ [] := by decide

variable {fs : FileSystem} {state : SharedRuntimeState} {id : Str} {response : HttpResponse}
  {range : Option Str}

/-- A range of a file is as long as the range says. -/
theorem length_rangeOf {file : File} (r : SatisfiableRange file.len.toNat) :
    ((file.bytes.drop r.start).take r.len).length = r.len := by
  have hstart := r.start_le
  have hstop := r.stop_lt
  have hlen := file.toNat_len
  rw [List.length_take, List.length_drop, SatisfiableRange.len]
  omega

theorem sendPlanned_cases {path : Path} {len : UInt64} {plan : MediaResponsePlan len.toNat}
    (hlen : fs.len path = .ok len) (h : sendPlanned fs path plan = .ok response) :
    response.headers = plannedHeaders plan ∧ response.body.length = plan.bodyLength := by
  rw [sendPlanned] at h
  cases hsend : plan.sendBody with
  | false =>
      rw [hsend] at h
      obtain rfl := Except.ok.inj h
      exact ⟨rfl, by simp [MediaResponsePlan.bodyLength, hsend, HttpResponse.empty]⟩
  | true =>
      cases hrange : plan.bodyRange with
      | none =>
          rw [hsend, hrange] at h
          obtain rfl := Except.ok.inj h
          exact ⟨rfl, by simp [MediaResponsePlan.bodyLength, hsend, hrange, HttpResponse.empty]⟩
      | some r =>
          rw [hsend, hrange] at h
          cases hopen : fs.openFile path with
          | error e =>
              rw [hopen] at h
              cases h
          | ok file =>
              rw [hopen] at h
              obtain rfl := Except.ok.inj h
              obtain rfl := fs.len_of_open hlen hopen
              refine ⟨rfl, ?_⟩
              rw [MediaResponsePlan.bodyLength, if_pos hsend, hrange]
              exact length_rangeOf r

/-- What a media request gives: the fall-back of an unknown identifier, or a planned
response with as many bytes as its plan sends. -/
theorem mediaResponse_cases {method : Method}
    (h : mediaResponse fs state id method range = .ok response) :
    ∃ current, state.getCurrent = .ok current ∧
      ((current.mediaByIdOrLegacyIndex id = none ∧ response = notFoundResponse) ∨
        ∃ entry headers, current.mediaByIdOrLegacyIndex id = some entry ∧
          response.headers = plannedHeaders (planMediaResponse method headers range) ∧
          response.body.length = (planMediaResponse method headers range).bodyLength) := by
  unfold mediaResponse at h
  cases hcurrent : state.getCurrent with
  | error e =>
      rw [hcurrent] at h
      cases h
  | ok current =>
      rw [hcurrent] at h
      refine ⟨current, rfl, ?_⟩
      simp only [bind, Except.bind] at h
      cases hentry : current.mediaByIdOrLegacyIndex id with
      | none =>
          rw [hentry] at h
          exact .inl ⟨rfl, (Except.ok.inj h).symm⟩
      | some entry =>
          rw [hentry] at h
          dsimp only at h
          cases hlen : fs.len entry.path with
          | error e =>
              rw [hlen] at h
              cases h
          | ok len =>
              rw [hlen] at h
              exact .inr ⟨entry, _, rfl, sendPlanned_cases hlen h⟩

theorem mediaResponse_get_sized (h : mediaResponse fs state id .get range = .ok response) :
    response.Sized := by
  obtain ⟨_, -, ⟨-, rfl⟩ | ⟨_, headers, -, hheaders, hbody⟩⟩ := mediaResponse_cases h
  · exact sized_notFoundResponse
  · rw [HttpResponse.Sized, hheaders, hbody, planMediaResponse_bodyLength, announced_plannedHeaders]

/-- A HEAD request for a media file has a body exactly where no entry is found. -/
theorem mediaResponse_head_framed {request : HttpRequest} (hm : request.method = "HEAD".toList)
    (h : mediaResponse fs state id .head range = .ok response) :
    Framed request response ↔ ∃ current entry, state.getCurrent = .ok current ∧
      current.mediaByIdOrLegacyIndex id = some entry := by
  obtain ⟨current, hcurrent, ⟨hnone, rfl⟩ | ⟨entry, headers, hentry, hheaders, hbody⟩⟩ :=
    mediaResponse_cases h
  · rw [framed_of_sized sized_notFoundResponse]
    constructor
    · rintro (hne | hnil)
      · exact absurd hm hne
      · exact absurd hnil notFoundResponse_body
    · rintro ⟨current', entry, hcurrent', hentry⟩
      rw [hcurrent] at hcurrent'
      cases hcurrent'
      rw [hnone] at hentry
      cases hentry
  · refine iff_of_true ⟨(planMediaResponse .head headers range).contentLength, ?_, ?_⟩
      ⟨current, entry, hcurrent, hentry⟩
    · rw [hheaders, announced_plannedHeaders]
    · rw [if_pos hm]
      refine List.eq_nil_of_length_eq_zero ?_
      rw [hbody, MediaResponsePlan.bodyLength, planMediaResponse_head]
      rfl

theorem uiRoute_sized {page : Option (Except IoError HttpResponse × SharedRuntimeState)}
    {state' : SharedRuntimeState} (h : uiRoute state page = some (.ok response, state'))
    (hpage : page = some (.ok response, state') → response.Sized) : response.Sized := by
  unfold uiRoute at h
  split at h
  · cases h
  · split at h
    · exact hpage h
    · cases h
      exact sized_notFoundResponse

theorem uiRescanResponse_sized {depth elapsed : Nat} {now : Int} {state' : SharedRuntimeState}
    (h : uiRescanResponse fs depth now elapsed state = some (.ok response, state')) :
    response.Sized := by
  obtain ⟨⟨result, next⟩, -, h⟩ := Option.bind_eq_some_iff.mp h
  cases result with
  | ok _ =>
      cases h
      exact sized_seeLibraryResponse
  | error e =>
      cases h
      exact sized_new ..

/-- A page is sent with its length where the state can be read. -/
theorem sized_of_page {α : Type} {read : Except IoError α} {f : α → Except IoError HttpResponse}
    (h : read >>= f = .ok response) (hf : ∀ a, f a = .ok response → response.Sized) :
    response.Sized := by
  cases read with
  | error e => cases h
  | ok a => exact hf a h

theorem sized_of_map {α : Type} {read : Except IoError α} {f : α → HttpResponse}
    (h : read.map f = .ok response) (hf : ∀ a, (f a).Sized) : response.Sized := by
  cases read with
  | error e => cases h
  | ok a =>
      cases h
      exact hf a

theorem uiIndexResponse_sized (h : uiIndexResponse state = .ok response) : response.Sized := by
  refine sized_of_page h fun current h => sized_of_page h fun status h => ?_
  cases h
  exact sized_new ..

theorem uiLibraryResponse_sized (h : uiLibraryResponse state = .ok response) : response.Sized := by
  refine sized_of_page h fun current h => sized_of_page h fun status h => ?_
  cases h
  exact sized_new ..

theorem controlResponse_sized {body : Str} (h : controlResponse state body = .ok response) :
    response.Sized := by
  refine sized_of_page h fun current h => ?_
  cases h
  exact sized_new ..

/-- The other routes announce the length of what they send, and they do not take
the HEAD method. -/
theorem routeRequest_cases {depth elapsed : Nat} {now : Int} {request : HttpRequest}
    {state' : SharedRuntimeState}
    (h : routeRequest fs depth now elapsed state request = some (.ok response, state')) :
    (response.Sized ∧ (request.method = "HEAD".toList → response = notFoundResponse ∧
        ∀ id, request.path ≠ mediaPrefix ++ id)) ∨
      ∃ id, request.path = mediaPrefix ++ id ∧ request.method = "HEAD".toList ∧
        mediaResponse fs state id .head (request.header "range".toList) = .ok response := by
  have hget : "GET".toList ≠ "HEAD".toList := by decide
  have hpost : "POST".toList ≠ "HEAD".toList := by decide
  have other : ∀ {m : Str}, request.method = m → m ≠ "HEAD".toList → response.Sized →
      (response.Sized ∧ (request.method = "HEAD".toList → response = notFoundResponse ∧
        ∀ id, request.path ≠ mediaPrefix ++ id)) := by
    intro m hm hne hs
    exact ⟨hs, fun hhead => absurd (hm.symm.trans hhead) hne⟩
  have answer : ∀ {read : Except IoError HttpResponse} {next},
      some (read, next) = some (.ok response, state') → read = .ok response :=
    fun h => (Prod.mk.inj (Option.some.inj h)).1
  unfold routeRequest at h
  split at h
  · rename_i hm
    exact .inl (other hm.1 hget (sized_of_map (answer h) fun _ => sized_new ..))
  split at h
  · rename_i hm
    cases h
    exact .inl (other hm.1 hget (sized_new ..))
  split at h
  · rename_i hm
    cases h
    exact .inl (other hm.1 hget (sized_new ..))
  split at h
  · rename_i hm
    exact .inl (other hm.1 hget (uiRoute_sized h fun h => uiIndexResponse_sized (answer h)))
  split at h
  · rename_i hm
    exact .inl (other hm.1 hget (uiRoute_sized h fun h => uiLibraryResponse_sized (answer h)))
  split at h
  · rename_i hm
    exact .inl (other hm.1 hpost (uiRoute_sized h uiRescanResponse_sized))
  split at h
  · rename_i hm
    exact .inl (other hm.1 hpost (controlResponse_sized (answer h)))
  split at h
  · rename_i id hid
    rw [Str.stripPrefix_eq_some] at hid
    split at h
    · rename_i hm
      exact .inl (other hm hget (mediaResponse_get_sized (answer h)))
    split at h
    · rename_i hm
      exact .inr ⟨id, hid, hm, answer h⟩
    · rename_i hm
      cases h
      exact .inl (other rfl hm sized_notFoundResponse)
  · rename_i hid
    cases h
    refine .inl ⟨sized_notFoundResponse, fun _ => ⟨rfl, fun id hpath => ?_⟩⟩
    rw [hpath, Str.stripPrefix_append] at hid
    cases hid

/-- A response is framed exactly when the request is not a HEAD request, or is one
for a media file of the library. -/
theorem framed_iff {depth elapsed : Nat} {now : Int} {request : HttpRequest}
    {state' : SharedRuntimeState}
    (h : routeRequest fs depth now elapsed state request = some (.ok response, state')) :
    Framed request response ↔ request.method ≠ "HEAD".toList ∨
      ∃ id current entry, request.path = mediaPrefix ++ id ∧ state.getCurrent = .ok current ∧
        current.mediaByIdOrLegacyIndex id = some entry := by
  obtain ⟨hsized, hhead⟩ | ⟨id, hpath, hm, hmedia⟩ := routeRequest_cases h
  · rw [framed_of_sized hsized]
    refine or_congr_right' fun hm => ?_
    obtain ⟨rfl, hnot⟩ := hhead (not_not.mp hm)
    constructor
    · intro hnil
      exact absurd hnil notFoundResponse_body
    · rintro ⟨id, -, -, hpath, -⟩
      exact absurd hpath (hnot id)
  · rw [mediaResponse_head_framed hm hmedia]
    constructor
    · rintro ⟨current, entry, hcurrent, hentry⟩
      exact .inr ⟨id, current, entry, hpath, hcurrent, hentry⟩
    · rintro (hne | ⟨id', current, entry, hpath', hcurrent, hentry⟩)
      · exact absurd hm hne
      · obtain rfl : id = id' := List.append_cancel_left (hpath.symm.trans hpath')
        exact ⟨current, entry, hcurrent, hentry⟩

/-- A server with an empty library. -/
def emptyServer : SharedRuntimeState where
  config := .default
  current := { value := .ofScanned .default { containers := [], media := [] }, poisoned := false }
  scanStatus :=
    { value := { lastScanTime := none, lastScanDuration := none, itemCount := 0, error := none }
      poisoned := false }

def emptyFileSystem : FileSystem := FileTree.other.fileSystem []

def requestFor (method path : String) : HttpRequest :=
  { method := method.toList, path := path.toList, headers := [], body := [] }

theorem framed_iff_unknownPath :
    Framed (requestFor "GET" "/icon.png") notFoundResponse ↔
      (requestFor "GET" "/icon.png").method ≠ "HEAD".toList ∨
        ∃ id current entry, (requestFor "GET" "/icon.png").path = mediaPrefix ++ id ∧
          emptyServer.getCurrent = .ok current ∧ current.mediaByIdOrLegacyIndex id = some entry :=
  framed_iff (show routeRequest emptyFileSystem 0 0 0 emptyServer (requestFor "GET" "/icon.png") =
    some (.ok notFoundResponse, emptyServer) from rfl)

/-- The answer to a HEAD request for the device description has a body. -/
theorem not_framed_headDeviceXml :
    routeRequest emptyFileSystem 0 0 0 emptyServer (requestFor "HEAD" "/device.xml") =
        some (.ok notFoundResponse, emptyServer) ∧
      ¬ Framed (requestFor "HEAD" "/device.xml") notFoundResponse := by
  refine ⟨rfl, fun h => ?_⟩
  rw [framed_of_sized sized_notFoundResponse] at h
  exact h.elim (fun hne => hne rfl) notFoundResponse_body

end RustyCastle.Server
