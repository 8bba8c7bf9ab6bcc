import RustyCastle.Server.Connections
import RustyCastle.Server.Downloads

/-!
Downloads from a running server, whose connections interleave and whose library is scanned
again among them. While the files stay as they are, the parts that a client fetched over
any connections give it the file.
-/

namespace RustyCastle.Server
open Foundation Foundation.Runs RustyCastle.MediaHttp

/-- The files are as they were when the tree was scanned, and a scan goes deep enough. -/
def HttpOp.Sees (fs : FileSystem) (t : FileTree) : HttpOp → Prop
  | .handle _ fs' depth _ _ => fs' = fs ∧ t.depth ≤ depth
  | _ => True

/-- A response of a server with the library of a tree. -/
def RoutedFrom (fs : FileSystem) (t : FileTree) (config : RuntimeConfig) (request : HttpRequest)
    (response : HttpResponse) : Prop :=
  ∃ depth now elapsed shared shared', shared.getCurrent = .ok (t.library config) ∧
    routeRequest fs depth now elapsed shared request = some (.ok response, shared')

section
variable {memory : Nat} {fs : FileSystem} {t : FileTree} {config : RuntimeConfig}

structure HasTree (fs : FileSystem) (t : FileTree) (config : RuntimeConfig)
    (shared : SharedRuntimeState) : Prop where
  library : Library config shared
  scanned : Scanned fs t config shared.current.value

theorem HasTree.getCurrent {shared : SharedRuntimeState} (h : HasTree fs t config shared) :
    shared.getCurrent = .ok (t.library config) := by
  rw [h.library.getCurrent, h.scanned.eq_library]

theorem HasTree.route {depth elapsed : Nat} {now : Int} {shared shared' : SharedRuntimeState}
    {request : HttpRequest} {result : Except IoError HttpResponse}
    (h : HasTree fs t config shared) (hdepth : t.depth ≤ depth)
    (hr : routeRequest fs depth now elapsed shared request = some (result, shared')) :
    HasTree fs t config shared' := by
  refine routeRequest_shared h (fun _ next hrescan => ?_) hr
  obtain ⟨hlibrary, hsame | hscan⟩ := h.library.rescan hrescan
  · exact ⟨hlibrary, by rw [hsame]; exact h.scanned⟩
  · exact ⟨hlibrary, ⟨h.scanned.shows, h.scanned.isDirectory, depth, hdepth, hscan⟩⟩

/-- The library stays that of the tree, and so every response comes from it. -/
structure HttpServer.FromTree (fs : FileSystem) (t : FileTree) (config : RuntimeConfig)
    (server : HttpServer) : Prop where
  shared : HasTree fs t config server.shared
  answers : ∀ c ∈ server.connections, ∀ request response, c.answer = some (request, response) →
    RoutedFrom fs t config request response

variable {server server' : HttpServer}

theorem HttpServer.FromTree.set (h : server.FromTree fs t config) {i : Nat} {c' : Connection}
    (hshared : HasTree fs t config server'.shared)
    (hset : server'.connections = server.connections.set i c')
    (hanswer : ∀ request response, c'.answer = some (request, response) →
      RoutedFrom fs t config request response) : server'.FromTree fs t config := by
  refine ⟨hshared, fun d hd => ?_⟩
  rw [hset] at hd
  obtain hd | rfl := List.mem_or_eq_of_mem_set hd
  · exact h.answers d hd
  · exact hanswer

theorem HttpServer.FromTree.update (h : server.FromTree fs t config) {i : Nat}
    {change : Connection → Option Connection}
    (hchange : ∀ c c', change c = some c' → c'.answer = c.answer)
    (hs : server.update i change = some server') : server'.FromTree fs t config := by
  obtain ⟨c, hc, hs⟩ := Option.bind_eq_some_iff.mp hs
  obtain ⟨c', hc', hs⟩ := Option.bind_eq_some_iff.mp hs
  cases hs
  refine h.set h.shared rfl fun request response hanswer => ?_
  rw [hchange c c' hc'] at hanswer
  exact h.answers c (List.mem_of_getElem? hc) request response hanswer

theorem HttpServer.FromTree.handle (h : server.FromTree fs t config) {i depth elapsed : Nat}
    {now : Int} (hdepth : t.depth ≤ depth)
    (hs : server.handle memory i fs depth now elapsed = some server') :
    server'.FromTree fs t config := by
  obtain ⟨c, hc, hs⟩ := Option.bind_eq_some_iff.mp hs
  have hold := h.answers c (List.mem_of_getElem? hc)
  split at hs
  · cases hs
  · split at hs
    · cases hs
    · cases hs
    · obtain rfl := Option.some.inj hs
      exact h.set h.shared rfl hold
    · obtain ⟨⟨result, shared'⟩, hroute, hs⟩ := Option.bind_eq_some_iff.mp hs
      have hshared := h.shared.route hdepth hroute
      cases result with
      | ok response =>
          obtain rfl := Option.some.inj hs
          refine h.set hshared rfl fun request' response' hanswer => ?_
          obtain ⟨rfl, rfl⟩ := Prod.mk.inj (Option.some.inj hanswer)
          exact ⟨depth, now, elapsed, _, _, h.shared.getCurrent, hroute⟩
      | error e =>
          obtain rfl := Option.some.inj hs
          exact h.set hshared rfl hold

theorem fromTree_step (op : HttpOp) (server server' : HttpServer) (hop : op.Sees fs t)
    (h : server.FromTree fs t config) (hs : httpStep memory op server = some server') :
    server'.FromTree fs t config := by
  cases op with
  | accept =>
      obtain rfl := Option.some.inj hs
      exact ⟨h.shared, List.forall_mem_append.mpr ⟨h.answers, List.forall_mem_singleton.mpr nofun⟩⟩
  | receive i bytes =>
      refine h.update (fun c c' hc => ?_) hs
      unfold Connection.receive at hc
      split at hc
      · cases hc
        rfl
      · cases hc
  | finish i ending =>
      refine h.update (fun c c' hc => ?_) hs
      unfold Connection.finish at hc
      split at hc
      · cases hc
        rfl
      · cases hc
  | handle i fs' depth now elapsed =>
      obtain ⟨rfl, hdepth⟩ := hop
      exact h.handle hdepth hs
  | capture i =>
      obtain ⟨c, hc, hs⟩ := Option.bind_eq_some_iff.mp hs
      split at hs
      · obtain rfl := Option.some.inj hs
        exact h.set h.shared rfl (h.answers c (List.mem_of_getElem? hc))
      · cases hs
  | write i count =>
      refine h.update (fun c c' hc => ?_) hs
      unfold Connection.write at hc
      split at hc
      · cases hc
        rfl
      · cases hc
  | drop i => exact h.update (fun c c' hc => by cases hc; rfl) hs

theorem tree_run {library : RuntimeState} (h : Scanned fs t config library) {now : Int}
    {elapsed : Nat} {captures : Bool} {ops : List HttpOp} (hops : ∀ op ∈ ops, op.Sees fs t)
    (hr : run (httpStep memory) ops (.start config library now elapsed captures) = some server) :
    server.Sound memory config ∧ server.FromTree fs t config := by
  obtain ⟨depth, _, hscan⟩ := h.scan
  have hrun : (RuntimeState.scan fs depth config).run = some (.ok library) := hscan
  have hstart : (HttpServer.start config library now elapsed captures).FromTree fs t config :=
    ⟨⟨⟨rfl, ⟨fs, depth, hrun⟩, rfl⟩, h⟩, List.forall_mem_nil _⟩
  exact ⟨sound_run hrun hr, invariant_run_of fromTree_step hops hstart hr⟩

/-! What a client has -/

/-- A connection on which a part of a file was asked for and the answer has come. -/
structure Connection.Fetched (memory : Nat) (c : Connection) (id : Str)
    (part : Option SingleRange) : Prop where
  asked : ∃ request rest, readRequest memory c.incoming = .done request rest ∧
    AsksFor request id part
  answered : ∃ back, readResponse false ⟨c.outgoing, .pending⟩ = .done back []

theorem not_done_of_nil (back : ReadBack) :
    readResponse false ⟨[], .pending⟩ ≠ .done back [] := nofun

theorem Connection.Fetched.receivePart {c : Connection} {id : Str} {part : Option SingleRange}
    {entry : ServedMedia} {file : File} (h : c.Fetched memory id part)
    (hsound : c.Sound memory config)
    (hfrom : ∀ request response, c.answer = some (request, response) →
      RoutedFrom fs t config request response)
    (hv : VideoOnly (t.library config))
    (hentry : (t.library config).mediaByIdOrLegacyIndex id = some entry)
    (hlen : fs.len entry.path = .ok file.len) (hopen : fs.openFile entry.path = .ok file)
    (hfits : ∀ range ∈ part, range.Fits) :
    receivePart c.outgoing = some (partOf file.bytes part, file.bytes.length) := by
  obtain ⟨⟨request, rest, hread, hasks⟩, back, hback⟩ := h
  cases hanswer : c.answer with
  | none =>
      rw [(hsound.unanswered hanswer).2] at hback
      exact absurd hback (not_done_of_nil back)
  | some answer =>
      obtain ⟨request', response⟩ := answer
      obtain ⟨⟨rest', hread'⟩, -, hsent⟩ := hsound.answered _ _ hanswer
      obtain ⟨rfl, -⟩ := Reading.done.inj (hread'.symm.trans hread)
      obtain ⟨depth, now, elapsed, shared, shared', hcurrent, hroute⟩ := hfrom _ _ hanswer
      obtain ⟨sent, back', hto, hdone, hpart⟩ :=
        answerTo_part hv hcurrent hentry hlen hopen hasks hfits depth elapsed now
      rw [answerTo, hroute] at hto
      obtain rfl := Option.some.inj hto
      obtain ⟨more, hmore⟩ := hsent
      -- the client waits for what is not there yet
      have hnil : more = [] := by
        by_contra hne
        have hwaits := readResponse_waits (by rw [hmore]; exact hdone) hne
        cases hback.symm.trans hwaits
      rw [hnil, List.append_nil] at hmore
      rw [hmore]
      exact (receivePart_done hdone).trans hpart

/-- A connection on which a part was asked for can get it in three steps of its thread. -/
theorem exists_fetched {library : RuntimeState} {f : MediaFile} (h : Scanned fs t config library)
    (hf : f ∈ t.mediaFiles []) {now : Int} {elapsed : Nat} {captures : Bool} {ops : List HttpOp}
    (hops : ∀ op ∈ ops, op.Sees fs t)
    (hr : run (httpStep memory) ops (.start config library now elapsed captures) = some server)
    {i : Nat} {c : Connection} (hc : server.connections[i]? = some c) (hended : c.ended = false)
    (hnone : c.answer = none) {text : RequestText} (ht : text.WellFormed)
    (hmemory : text.body.length ≤ memory) (hat : text.At c.incoming) {part : Option SingleRange}
    (hasks : AsksFor text.request f.id part) (hfits : ∀ range ∈ part, range.Fits) :
    ∃ ops' server' c', (∀ op ∈ ops', op.Sees fs t) ∧
      run (httpStep memory) ops' server = some server' ∧
      (∀ j, j ≠ i → server'.connections[j]? = server.connections[j]?) ∧
      server'.connections[i]? = some c' ∧ c'.Fetched memory f.id part := by
  obtain rfl := h.eq_library
  obtain ⟨hsound, hfrom⟩ := tree_run h hops hr
  obtain ⟨g, hentry, hlen, hopen, -⟩ := h.entry hf
  obtain ⟨rest, hread⟩ := readRequest_of_at ht hmemory hat
  obtain ⟨sent, back, hsent, hdone, -⟩ := answerTo_part h.videoOnly hfrom.shared.getCurrent hentry
    hlen hopen hasks hfits t.depth 0 0
  obtain ⟨response, shared', hroute, rfl⟩ := answerTo_eq_some.mp hsent
  obtain ⟨server', hrun, hother, -, hself⟩ := run_serving hc hended hnone hsound hread hroute
  refine ⟨_, server', _, ?_, hrun, hother, hself, ⟨_, rest, hread, hasks⟩, back, hdone⟩
  exact List.forall_mem_cons.mpr ⟨⟨rfl, Nat.le_refl _⟩,
    List.forall_mem_cons.mpr ⟨trivial, List.forall_mem_singleton.mpr trivial⟩⟩

end

/-- The text of a request for a part of the film. -/
def reelText (range : SingleRange) : RequestText where
  start := "GET /media/m-f8c1756e7d496cf6 HTTP/1.1".toList
  fields := ["Range: ".toList ++ range.header]
  last := []
  body := []

theorem lastTwo_text : (reelText lastTwo).WellFormed ∧
    AsksFor (reelText lastTwo).request reelFile.id (some lastTwo) :=
  ⟨⟨by decide, by decide, by decide, rfl⟩, ⟨by decide, by decide, by decide⟩⟩

theorem firstFour_text : (reelText firstFour).WellFormed ∧
    AsksFor (reelText firstFour).request reelFile.id (some firstFour) :=
  ⟨⟨by decide, by decide, by decide, rfl⟩, ⟨by decide, by decide, by decide⟩⟩

/-- Two connections ask for a part each. -/
def askingParts : List HttpOp :=
  [.accept, .accept, .receive 0 (reelText lastTwo).bytes, .receive 1 (reelText firstFour).bytes]

def partsAsked : HttpServer where
  shared := (HttpServer.start .default (reelTree.library .default) 0 0 false).shared
  recorder := none
  connections :=
    [{ Connection.accepted with incoming := ⟨(reelText lastTwo).bytes, .pending⟩ },
      { Connection.accepted with incoming := ⟨(reelText firstFour).bytes, .pending⟩ }]

theorem run_askingParts : run (httpStep 0) askingParts
    (.start .default (reelTree.library .default) 0 0 false) = some partsAsked := rfl

end RustyCastle.Server
