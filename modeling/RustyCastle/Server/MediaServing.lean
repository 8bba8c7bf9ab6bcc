import RustyCastle.Server.Framing
import RustyCastle.Server.Library

/-!
What a GET request for an item of a scanned library is given: the first media
file with the identifier of the request, as a whole.
-/

namespace RustyCastle.Server
open Foundation RustyCastle.MediaHttp

variable {fs : FileSystem} {t : FileTree} {config : RuntimeConfig} {state : RuntimeState}

/-- A request for the whole of a media file, to a server with the library. -/
structure GetsMedia (shared : SharedRuntimeState) (state : RuntimeState) (request : HttpRequest)
    (id : Str) : Prop where
  current : shared.getCurrent = .ok state
  method : request.method = "GET".toList
  path : request.path = mediaPrefix ++ id
  range : request.header "range".toList = none

/-- A server with a library. -/
def libraryServer (state : RuntimeState) : SharedRuntimeState :=
  { emptyServer with current := { value := state, poisoned := false } }

def mediaRequest (id : Str) : HttpRequest :=
  { method := "GET".toList, path := mediaPrefix ++ id, headers := [], body := [] }

theorem libraryServer_getsMedia (state : RuntimeState) (id : Str) :
    GetsMedia (libraryServer state) state (mediaRequest id) id := ⟨rfl, rfl, rfl, rfl⟩

theorem routeRequest_mediaPath {shared : SharedRuntimeState} {request : HttpRequest} {id : Str}
    (hmethod : request.method = "GET".toList) (hpath : request.path = mediaPrefix ++ id)
    (depth elapsed : Nat) (now : Int) :
    routeRequest fs depth now elapsed shared request =
      some (mediaResponse fs shared id .get (request.header "range".toList), shared) := by
  have hget : "GET".toList ≠ "POST".toList := by decide
  have hother : ∀ {s : Str}, s.take 3 ≠ "/me".toList → request.path ≠ s := by
    rintro s hs rfl
    rw [hpath] at hs
    exact hs rfl
  rw [routeRequest, if_neg fun hc => hother (by decide) hc.2,
    if_neg fun hc => hother (by decide) hc.2, if_neg fun hc => hother (by decide) hc.2,
    if_neg fun hc => hother (by decide) hc.2, if_neg fun hc => hother (by decide) hc.2,
    if_neg fun hc => hget (hmethod.symm.trans hc.1),
    if_neg fun hc => hget (hmethod.symm.trans hc.1), hpath, Str.stripPrefix_append]
  exact if_pos hmethod

theorem routeRequest_getMedia {shared : SharedRuntimeState} {request : HttpRequest} {id : Str}
    (h : GetsMedia shared state request id) (depth elapsed : Nat) (now : Int) :
    routeRequest fs depth now elapsed shared request =
      some (mediaResponse fs shared id .get none, shared) := by
  rw [routeRequest_mediaPath h.method h.path, h.range]

/-- A full response has the whole of a file as its body. -/
theorem sendPlanned_full {path : Path} {file : File} {headers : MediaHeadersRef}
    (hlen : headers.len = file.len.toNat) (hopen : fs.openFile path = .ok file) :
    ∃ response, sendPlanned fs path (fullPlan .get headers) = .ok response ∧ response.status = 200 ∧
      announced response.headers = [Decimal.numeral file.len.toNat] ∧ response.body = file.bytes := by
  have hannounced : announced (plannedHeaders (fullPlan .get headers)) =
      [Decimal.numeral file.len.toNat] := by
    rw [announced_plannedHeaders, ← hlen]
    rfl
  have hwhole := fullPlan_bodyRange .get headers
  have hsend : (fullPlan .get headers).sendBody = true := rfl
  rw [sendPlanned, hsend]
  cases hrange : (fullPlan .get headers).bodyRange with
  | none =>
      rw [hrange] at hwhole
      have hnil : file.bytes = [] :=
        List.eq_nil_of_length_eq_zero (file.toNat_len.symm.trans (hlen.symm.trans hwhole))
      exact ⟨_, rfl, rfl, hannounced, hnil.symm⟩
  | some range =>
      rw [hrange] at hwhole
      have hall : range.len = file.bytes.length := hwhole.2.trans (hlen.trans file.toNat_len)
      simp only [hopen]
      refine ⟨_, rfl, rfl, hannounced, ?_⟩
      dsimp only
      rw [hwhole.1, hall, List.drop_zero, List.take_length]

theorem mediaResponse_whole {shared : SharedRuntimeState} {id : Str} {entry : ServedMedia}
    {file : File} (hcurrent : shared.getCurrent = .ok state)
    (hentry : state.mediaByIdOrLegacyIndex id = some entry)
    (hlen : fs.len entry.path = .ok file.len) (hopen : fs.openFile entry.path = .ok file) :
    ∃ response, mediaResponse fs shared id .get none = .ok response ∧ response.status = 200 ∧
      announced response.headers = [Decimal.numeral file.len.toNat] ∧ response.body = file.bytes := by
  rw [mediaResponse, hcurrent]
  simp only [bind, Except.bind, hentry, hlen, planMediaResponse]
  exact sendPlanned_full rfl hopen

/-! Entries of a scanned library -/

/-- The first media file with an identifier. -/
def FileTree.named (t : FileTree) (id : Str) : Option MediaFile :=
  (t.mediaFiles []).find? fun f => f.id == id

theorem FileTree.mediaById_library (t : FileTree) (config : RuntimeConfig) (id : Str) :
    (t.library config).mediaById id =
      (t.named id).map fun f => f.served config.mediaDir config.publicBaseUrl := by
  have hid : (fun entry : ServedMedia => entry.item.id == id) ∘
      (fun f : MediaFile => f.served config.mediaDir config.publicBaseUrl) =
      fun f => f.id == id := by
    funext f
    rw [Function.comp_apply, MediaFile.served, MediaFile.item_id]
  rw [RuntimeState.mediaById, library_media, List.find?_map, hid, named]

theorem FileTree.exists_named {f : MediaFile} (h : f ∈ t.mediaFiles []) :
    ∃ g, t.named f.id = some g ∧ g ∈ t.mediaFiles [] ∧ g.id = f.id := by
  have hfound : (t.named f.id).isSome := List.find?_isSome.mpr ⟨f, h, beq_self_eq_true f.id⟩
  obtain ⟨g, hg⟩ := Option.isSome_iff_exists.mp hfound
  have hfind : (t.mediaFiles []).find? (fun g : MediaFile => g.id == f.id) = some g := hg
  have hid : (g.id == f.id) = true := by simpa using List.find?_some hfind
  exact ⟨g, hg, List.mem_of_find?_eq_some hfind, eq_of_beq hid⟩

/-- A path of the tree is shown as what it leads to. -/
theorem FileSystem.Shows.find {s : FileTree} {root p : Path} (h : fs.Shows t root)
    (hfind : t.find p = some s) : fs.Shows s (root ++ p) := by
  induction t generalizing root p with
  | file _ | other =>
      cases p with
      | nil =>
          cases hfind
          rwa [List.append_nil]
      | cons name p => cases hfind
  | link ownLen t ih =>
      cases p with
      | nil =>
          cases hfind
          rwa [List.append_nil]
      | cons name p => exact ih h hfind
  | dir names nodup child ih =>
      cases p with
      | nil =>
          cases hfind
          rwa [List.append_nil]
      | cons name p =>
          obtain ⟨hname, hfind⟩ := FileTree.find_dir.mp hfind
          have := ih name (h.2.2 name hname).2 hfind
          rwa [List.append_assoc] at this

theorem Scanned.opens (h : Scanned fs t config state) {f : MediaFile} (hf : f ∈ t.mediaFiles []) :
    fs.len (config.mediaDir ++ f.path) = .ok f.content.len ∧
      fs.openFile (config.mediaDir ++ f.path) = .ok f.content := by
  obtain ⟨p, hdir, -, s, hs, -, hcontent⟩ := FileTree.mem_mediaFiles.mp hf
  have hpath : f.path = p ++ [f.name] := by rw [MediaFile.path, hdir, List.nil_append]
  rw [hpath]
  exact (h.shows.find hs).content hcontent

/-- A request for an item is answered with the first media file of its identifier. -/
theorem Scanned.getMedia (h : Scanned fs t config state) {f : MediaFile} (hf : f ∈ t.mediaFiles [])
    {shared : SharedRuntimeState} {request : HttpRequest}
    (hrequest : GetsMedia shared state request f.id) (depth elapsed : Nat) (now : Int) :
    ∃ g, t.named f.id = some g ∧ ∃ response,
      routeRequest fs depth now elapsed shared request = some (.ok response, shared) ∧
        response.status = 200 ∧
        announced response.headers = [Decimal.numeral g.content.len.toNat] ∧
        response.body = g.content.bytes := by
  obtain ⟨g, hnamed, hg, -⟩ := FileTree.exists_named hf
  obtain rfl := h.eq_library
  have hentry : (t.library config).mediaByIdOrLegacyIndex f.id =
      some (g.served config.mediaDir config.publicBaseUrl) := by
    rw [RuntimeState.mediaByIdOrLegacyIndex, FileTree.mediaById_library, hnamed]
    rfl
  obtain ⟨hlen, hopen⟩ := h.opens hg
  obtain ⟨response, hresponse, hrest⟩ := mediaResponse_whole hrequest.current hentry hlen hopen
  refine ⟨g, hnamed, response, ?_, hrest⟩
  rw [routeRequest_getMedia hrequest, hresponse]

end RustyCastle.Server
