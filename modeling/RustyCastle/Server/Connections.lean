import RustyCastle.Foundation.Runs
import RustyCastle.Server.Responses
import RustyCastle.Server.Scenario

/-!
The HTTP server: a thread for every connection, and the library and the capture file that
they share. Bytes come in pieces and at any time, a request is routed in one step, and a
response may go out in parts. How rescans interleave is told in `Rescan`.
-/

namespace RustyCastle.Server
open Foundation Foundation.Runs RustyCastle.MediaHttp

/-- A connection and what its thread has done: the request it read and the response to it,
whether they were captured, and the bytes it wrote. -/
structure Connection where
  incoming : Incoming
  answer : Option (HttpRequest × HttpResponse)
  captured : Bool
  outgoing : List UInt8
  ended : Bool

def Connection.accepted : Connection where
  incoming := { arrived := [], ending := .pending }
  answer := none
  captured := false
  outgoing := []
  ended := false

structure HttpServer where
  shared : SharedRuntimeState
  recorder : Option ScenarioRecorder
  connections : List Connection

inductive HttpOp where
  | accept
  | receive (i : Nat) (bytes : List UInt8)
  | finish (i : Nat) (ending : Ending ReadFailure)
  | handle (i : Nat) (fs : FileSystem) (depth : Nat) (now : Int) (elapsed : Nat)
  | capture (i : Nat)
  | write (i count : Nat)
  | drop (i : Nat)

namespace HttpServer

/-- The server after its first scan, with a new capture file where one is to be written. -/
def start (config : RuntimeConfig) (library : RuntimeState) (now : Int) (elapsed : Nat)
    (captures : Bool) : HttpServer where
  shared := .new config library now elapsed
  recorder := if captures then some .create else none
  connections := []

/-- Changes one connection, which may not be possible. -/
def update (server : HttpServer) (i : Nat) (change : Connection → Option Connection) :
    Option HttpServer := do
  let c ← server.connections[i]?
  let c' ← change c
  some { server with connections := server.connections.set i c' }

end HttpServer

/-- The other end sends some bytes, or ends its side. -/
def Connection.receive (c : Connection) (bytes : List UInt8) : Option Connection :=
  match c.incoming with
  | ⟨arrived, .pending⟩ => some { c with incoming := ⟨arrived ++ bytes, .pending⟩ }
  | _ => none

def Connection.finish (c : Connection) (ending : Ending ReadFailure) : Option Connection :=
  match c.incoming with
  | ⟨arrived, .pending⟩ => some { c with incoming := ⟨arrived, ending⟩ }
  | _ => none

/-- Writes a part of the response, once it was captured. -/
def Connection.write (c : Connection) (count : Nat) : Option Connection :=
  match c.answer, c.captured, c.ended with
  | some (_, response), true, false =>
      some { c with outgoing := (writeResponse response).take (c.outgoing.length + count) }
  | _, _, _ => none

namespace HttpServer
variable (memory : Nat)

/-- Reads a request and routes it. The thread is ended where reading or routing fails; a body
that there is no memory for ends the program, and so there is no state after it. -/
def handle (server : HttpServer) (i : Nat) (fs : FileSystem) (depth : Nat) (now : Int)
    (elapsed : Nat) : Option HttpServer := do
  let c ← server.connections[i]?
  if c.answer.isSome || c.ended then none
  else
    match readRequest memory c.incoming with
    | .waits => none
    | .failed .outOfMemory => none
    | .failed (.io _) =>
        some { server with connections := server.connections.set i { c with ended := true } }
    | .done request _ =>
        match ← routeRequest fs depth now elapsed server.shared request with
        | (.ok response, shared) =>
            some
              { server with
                shared := shared
                connections := server.connections.set i { c with answer := some (request, response) } }
        | (.error _, shared) =>
            some
              { server with
                shared := shared
                connections := server.connections.set i { c with ended := true } }

/-- Records the interaction of a connection. The recorder is part of the library state, which
a rescan keeps it in; without a lock on that state there is no record. -/
def capture (server : HttpServer) (i : Nat) : Option HttpServer := do
  let c ← server.connections[i]?
  match c.answer, c.captured, c.ended with
  | some (request, response), false, false =>
      some
        { server with
          recorder :=
            match server.shared.getCurrent with
            | .ok _ => captureInteraction server.recorder request response
            | .error _ => server.recorder
          connections := server.connections.set i { c with captured := true } }
  | _, _, _ => none

end HttpServer

def httpStep (memory : Nat) : HttpOp → HttpServer → Option HttpServer
  | .accept, server => some { server with connections := server.connections ++ [.accepted] }
  | .receive i bytes, server => server.update i fun c => c.receive bytes
  | .finish i ending, server => server.update i fun c => c.finish ending
  | .handle i fs depth now elapsed, server => server.handle memory i fs depth now elapsed
  | .capture i, server => server.capture i
  | .write i count, server => server.update i fun c => c.write count
  | .drop i, server => server.update i fun c => some { c with ended := true }

/-! The library -/

/-- The library is the result of a scan of the configured directory. -/
structure Library (config : RuntimeConfig) (shared : SharedRuntimeState) : Prop where
  configured : shared.config = config
  scanned : ∃ fs depth, (RuntimeState.scan fs depth config).run = some (.ok shared.current.value)
  unpoisoned : shared.current.poisoned = false

section
variable {config : RuntimeConfig} {fs : FileSystem} {depth elapsed : Nat} {now : Int}
  {shared shared' : SharedRuntimeState}

theorem Library.videoOnly (h : Library config shared) : VideoOnly shared.current.value := by
  obtain ⟨fs, depth, hscan⟩ := h.scanned
  exact videoOnly_scan hscan

theorem Library.getCurrent (h : Library config shared) :
    shared.getCurrent = .ok shared.current.value := by
  rw [SharedRuntimeState.getCurrent, RwLock.read, h.unpoisoned]
  rfl

theorem Library.updateScanStatus (h : Library config shared) (next : ScanStatus) :
    Library config (shared.updateScanStatus next).2 ∧
      (shared.updateScanStatus next).2.current = shared.current := by
  unfold SharedRuntimeState.updateScanStatus
  split
  · exact ⟨h, rfl⟩
  · exact ⟨⟨h.configured, h.scanned, h.unpoisoned⟩, rfl⟩

/-- A rescan puts in what it scanned, or leaves the library. -/
theorem Library.rescan (h : Library config shared) {result : Except IoError Unit}
    (hr : rescanLibrary fs depth now elapsed shared = some (result, shared')) :
    Library config shared' ∧ (shared'.current = shared.current ∨
      (RuntimeState.scan fs depth config).run = some (.ok shared'.current.value)) := by
  obtain ⟨scanned, hscan, hr⟩ := Option.bind_eq_some_iff.mp hr
  rw [h.configured] at hscan
  cases scanned with
  | ok next =>
      have hnext : Library config { shared with current := { shared.current with value := next } } :=
        ⟨h.configured, ⟨fs, depth, hscan⟩, h.unpoisoned⟩
      have hreplace : shared' = (shared.replaceLibrary next now elapsed).2 :=
        (congrArg Prod.snd (Option.some.inj hr)).symm
      rw [hreplace, SharedRuntimeState.replaceLibrary, h.getCurrent]
      obtain ⟨hlibrary, hcurrent⟩ := hnext.updateScanStatus
        { lastScanTime := some now, lastScanDuration := some elapsed,
          itemCount := next.catalog.items.length, error := none }
      refine ⟨hlibrary, .inr ?_⟩
      rw [hcurrent]
      exact hscan
  | error err =>
      have hrecord : shared' = (shared.recordScanError err.message now elapsed).2 := by
        dsimp only at hr
        split at hr
        · rename_i hstate
          rw [hstate]
          exact (congrArg Prod.snd (Option.some.inj hr)).symm
        · rename_i hstate
          rw [hstate]
          exact (congrArg Prod.snd (Option.some.inj hr)).symm
      rw [hrecord, SharedRuntimeState.recordScanError, h.getCurrent]
      obtain ⟨hlibrary, hcurrent⟩ := h.updateScanStatus _
      exact ⟨hlibrary, .inl hcurrent⟩

/-- Routing changes the shared state in a rescan only. -/
theorem routeRequest_shared {P : SharedRuntimeState → Prop} (h : P shared)
    (hrescan : ∀ result next, rescanLibrary fs depth now elapsed shared = some (result, next) →
      P next) {request : HttpRequest} {result : Except IoError HttpResponse}
    (hr : routeRequest fs depth now elapsed shared request = some (result, shared')) :
    P shared' := by
  have same : ∀ {result' : Except IoError HttpResponse},
      some (result', shared) = some (result, shared') → P shared' := fun he =>
    (Prod.mk.inj (Option.some.inj he)).2 ▸ h
  have page : ∀ {page : Option (Except IoError HttpResponse × SharedRuntimeState)},
      (page = some (result, shared') → P shared') →
      uiRoute shared page = some (result, shared') → P shared' := by
    intro page hpage he
    unfold uiRoute at he
    split at he
    · exact same he
    · split at he
      · exact hpage he
      · exact same he
  unfold routeRequest at hr
  iterate 3
    split at hr
    · exact same hr
  iterate 2
    split at hr
    · exact page same hr
  split at hr
  · refine page (fun he => ?_) hr
    obtain ⟨⟨outcome, next⟩, hnext, he⟩ := Option.bind_eq_some_iff.mp he
    cases outcome with
    | ok _ =>
        obtain rfl := (Prod.mk.inj (Option.some.inj he)).2
        exact hrescan _ _ hnext
    | error e =>
        obtain rfl := (Prod.mk.inj (Option.some.inj he)).2
        exact hrescan _ _ hnext
  split at hr
  · exact same hr
  split at hr
  · iterate 2
      split at hr
      · exact same hr
    exact same hr
  · exact same hr

theorem Library.route (h : Library config shared) {request : HttpRequest}
    {result : Except IoError HttpResponse}
    (hr : routeRequest fs depth now elapsed shared request = some (result, shared')) :
    Library config shared' :=
  routeRequest_shared h (fun _ _ hrescan => (h.rescan hrescan).1) hr

end

/-! Steps -/

/-- What a step does to the shared state, the capture file and one connection. -/
inductive Connection.Moves (memory : Nat) (shared : SharedRuntimeState)
    (recorder : Option ScenarioRecorder) (c : Connection) :
    SharedRuntimeState → Option ScenarioRecorder → Connection → Prop where
  | incoming (arrived more ending) (h : c.incoming = ⟨arrived, .pending⟩) :
      Moves memory shared recorder c shared recorder { c with incoming := ⟨arrived ++ more, ending⟩ }
  | answer (request rest response shared' fs depth now elapsed) (hnone : c.answer = none)
      (hended : c.ended = false) (hread : readRequest memory c.incoming = .done request rest)
      (hroute : routeRequest fs depth now elapsed shared request = some (.ok response, shared')) :
      Moves memory shared recorder c shared' recorder { c with answer := some (request, response) }
  | failed (request error shared' fs depth now elapsed)
      (hroute : routeRequest fs depth now elapsed shared request = some (.error error, shared')) :
      Moves memory shared recorder c shared' recorder { c with ended := true }
  | capture (request response) (hanswer : c.answer = some (request, response))
      (hcaptured : c.captured = false) (hended : c.ended = false) :
      Moves memory shared recorder c shared
        (match shared.getCurrent with
          | .ok _ => captureInteraction recorder request response
          | .error _ => recorder) { c with captured := true }
  | write (request response count) (hanswer : c.answer = some (request, response))
      (hcaptured : c.captured = true) (hended : c.ended = false) :
      Moves memory shared recorder c shared recorder
        { c with outgoing := (writeResponse response).take (c.outgoing.length + count) }
  | drop : Moves memory shared recorder c shared recorder { c with ended := true }

section
variable {memory : Nat} {server server' : HttpServer}

theorem moves_update {i : Nat} {change : Connection → Option Connection}
    (hchange : ∀ c c', change c = some c' →
      c.Moves memory server.shared server.recorder server.shared server.recorder c')
    (h : server.update i change = some server') :
    ∃ c c', server.connections[i]? = some c ∧ server'.connections = server.connections.set i c' ∧
      c.Moves memory server.shared server.recorder server'.shared server'.recorder c' := by
  obtain ⟨c, hc, h⟩ := Option.bind_eq_some_iff.mp h
  obtain ⟨c', hc', h⟩ := Option.bind_eq_some_iff.mp h
  cases h
  exact ⟨c, c', hc, rfl, hchange c c' hc'⟩

theorem httpStep_cases {op : HttpOp} (h : httpStep memory op server = some server') :
    server' = { server with connections := server.connections ++ [.accepted] } ∨
      ∃ i c c', server.connections[i]? = some c ∧ server'.connections = server.connections.set i c' ∧
        c.Moves memory server.shared server.recorder server'.shared server'.recorder c' := by
  cases op with
  | accept => exact .inl (Option.some.inj h).symm
  | receive i bytes =>
      refine .inr ⟨i, moves_update (fun c c' hc => ?_) h⟩
      unfold Connection.receive at hc
      split at hc
      · rename_i arrived hp
        obtain rfl := Option.some.inj hc
        exact .incoming arrived bytes .pending hp
      · cases hc
  | finish i ending =>
      refine .inr ⟨i, moves_update (fun c c' hc => ?_) h⟩
      unfold Connection.finish at hc
      split at hc
      · rename_i arrived hp
        obtain rfl := Option.some.inj hc
        rw [← List.append_nil arrived]
        exact .incoming arrived [] ending hp
      · cases hc
  | handle i fs depth now elapsed =>
      obtain ⟨c, hc, h⟩ := Option.bind_eq_some_iff.mp h
      split at h
      · cases h
      · rename_i hfree
        obtain ⟨hnone, hended⟩ : c.answer = none ∧ c.ended = false := by simpa using hfree
        split at h
        · cases h
        · cases h
        · obtain rfl := Option.some.inj h
          exact .inr ⟨i, c, _, hc, rfl, .drop⟩
        · rename_i request rest hread
          obtain ⟨⟨result, shared'⟩, hroute, h⟩ := Option.bind_eq_some_iff.mp h
          cases result with
          | ok response =>
              obtain rfl := Option.some.inj h
              exact .inr ⟨i, c, _, hc, rfl, .answer _ _ _ _ _ _ _ _ hnone hended hread hroute⟩
          | error e =>
              obtain rfl := Option.some.inj h
              exact .inr ⟨i, c, _, hc, rfl, .failed _ _ _ _ _ _ _ hroute⟩
  | capture i =>
      obtain ⟨c, hc, h⟩ := Option.bind_eq_some_iff.mp h
      split at h
      · rename_i request response hanswer hcaptured hended
        obtain rfl := Option.some.inj h
        exact .inr ⟨i, c, _, hc, rfl, .capture request response hanswer hcaptured hended⟩
      · cases h
  | write i count =>
      refine .inr ⟨i, moves_update (fun c c' hc => ?_) h⟩
      unfold Connection.write at hc
      split at hc
      · rename_i response hanswer hcaptured hended
        obtain rfl := Option.some.inj hc
        exact .write _ response count hanswer hcaptured hended
      · cases hc
  | drop i =>
      refine .inr ⟨i, moves_update (fun c c' hc => ?_) h⟩
      obtain rfl := Option.some.inj hc
      exact .drop

end

/-! Invariants -/

/-- The response that a server of the configuration gave a request at some time. -/
def Routed (config : RuntimeConfig) (request : HttpRequest) (response : HttpResponse) : Prop :=
  ∃ fs depth now elapsed shared shared', Library config shared ∧
    routeRequest fs depth now elapsed shared request = some (.ok response, shared')

/-- What is answered is the request at the front of what came in, and what goes out is the front
of the response. -/
structure Connection.Sound (memory : Nat) (config : RuntimeConfig) (c : Connection) : Prop where
  unanswered : c.answer = none → c.captured = false ∧ c.outgoing = []
  answered : ∀ request response, c.answer = some (request, response) →
    (∃ rest, readRequest memory c.incoming = .done request rest) ∧ Routed config request response ∧
      c.outgoing <+: writeResponse response

theorem Connection.Sound.moves {memory : Nat} {config : RuntimeConfig} {c c' : Connection}
    {shared shared' : SharedRuntimeState} {recorder recorder' : Option ScenarioRecorder}
    (h : c.Sound memory config) (hl : Library config shared)
    (hm : c.Moves memory shared recorder shared' recorder' c') :
    c'.Sound memory config ∧ Library config shared' := by
  cases hm with
  | incoming arrived more ending he =>
      refine ⟨⟨h.unanswered, fun request response hanswer => ?_⟩, hl⟩
      obtain ⟨⟨rest, hread⟩, hrouted, hsent⟩ := h.answered request response hanswer
      rw [he] at hread
      exact ⟨⟨_, (settled_readRequest memory).done hread more ending⟩, hrouted, hsent⟩
  | answer request rest response _ fs depth now elapsed hnone _ hread hroute =>
      refine ⟨⟨nofun, fun request' response' hanswer => ?_⟩, hl.route hroute⟩
      obtain ⟨rfl, rfl⟩ := Prod.mk.inj (Option.some.inj hanswer)
      refine ⟨⟨rest, hread⟩, ⟨fs, depth, now, elapsed, shared, shared', hl, hroute⟩, ?_⟩
      rw [(h.unanswered hnone).2]
      exact List.nil_prefix
  | failed request error _ fs depth now elapsed hroute =>
      exact ⟨⟨h.unanswered, h.answered⟩, hl.route hroute⟩
  | capture request response hanswer hcaptured hended =>
      exact ⟨⟨fun hnone => absurd (hanswer.symm.trans hnone) nofun, h.answered⟩, hl⟩
  | write request response count hanswer hcaptured hended =>
      refine ⟨⟨fun hnone => absurd (hanswer.symm.trans hnone) nofun, fun request' response' he => ?_⟩,
        hl⟩
      obtain ⟨rfl, rfl⟩ := Prod.mk.inj (Option.some.inj (hanswer.symm.trans he))
      obtain ⟨hread, hrouted, -⟩ := h.answered _ _ hanswer
      exact ⟨hread, hrouted, List.take_prefix _ _⟩
  | drop => exact ⟨⟨h.unanswered, h.answered⟩, hl⟩

namespace HttpServer

def Sound (memory : Nat) (config : RuntimeConfig) (server : HttpServer) : Prop :=
  Library config server.shared ∧ ∀ c ∈ server.connections, c.Sound memory config

theorem sound_step {memory : Nat} {config : RuntimeConfig} (op : HttpOp) (server server' : HttpServer)
    (h : server.Sound memory config) (hs : httpStep memory op server = some server') :
    server'.Sound memory config := by
  obtain ⟨hl, hall⟩ := h
  obtain rfl | ⟨i, c, c', hc, hset, hm⟩ := httpStep_cases hs
  · have haccepted : Connection.accepted.Sound memory config := ⟨fun _ => ⟨rfl, rfl⟩, nofun⟩
    exact ⟨hl, List.forall_mem_append.mpr ⟨hall, List.forall_mem_singleton.mpr haccepted⟩⟩
  · obtain ⟨hc', hl'⟩ := (hall c (List.mem_of_getElem? hc)).moves hl hm
    refine ⟨hl', fun d hd => ?_⟩
    rw [hset] at hd
    obtain hd | rfl := List.mem_or_eq_of_mem_set hd
    · exact hall d hd
    · exact hc'

theorem sound_start {memory depth : Nat} {config : RuntimeConfig} {fs : FileSystem}
    {library : RuntimeState} (h : (RuntimeState.scan fs depth config).run = some (.ok library))
    (now : Int) (elapsed : Nat) (captures : Bool) :
    (start config library now elapsed captures).Sound memory config :=
  ⟨⟨rfl, ⟨fs, depth, h⟩, rfl⟩, List.forall_mem_nil _⟩

/-- The interaction of a connection. -/
def Interacted (server : HttpServer) (i : Nat) (x : RecordedInteraction) : Prop :=
  ∃ c request response, server.connections[i]? = some c ∧ c.answer = some (request, response) ∧
    x = capturedInteraction request response

def Captured (server : HttpServer) (i : Nat) : Prop :=
  ∃ c, server.connections[i]? = some c ∧ c.captured = true

/-- The capture file has the interactions of the captured connections, each once. -/
def Recorded (server : HttpServer) : Prop :=
  ∀ recorder, server.recorder = some recorder → ∃ order interactions,
    recorder = interactions.foldl ScenarioRecorder.record .create ∧ order.Nodup ∧
      (∀ i, i ∈ order ↔ server.Captured i) ∧ List.Forall₂ server.Interacted order interactions

/-- A step that captures nothing and keeps the answers keeps the record. -/
theorem Recorded.keep {server server' : HttpServer} (h : server.Recorded)
    (hrecorder : server'.recorder = server.recorder)
    (hcaptured : ∀ i, server'.Captured i ↔ server.Captured i)
    (hanswer : ∀ i x, server.Interacted i x → server'.Interacted i x) : server'.Recorded := by
  intro recorder hr
  obtain ⟨order, interactions, hfold, hnodup, hmem, hall⟩ := h recorder (hrecorder ▸ hr)
  exact ⟨order, interactions, hfold, hnodup, fun i => (hmem i).trans (hcaptured i).symm,
    hall.imp hanswer⟩

theorem Recorded.set {server server' : HttpServer} (h : server.Recorded) {i : Nat} {c c' : Connection}
    (hc : server.connections[i]? = some c) (hset : server'.connections = server.connections.set i c')
    (hrecorder : server'.recorder = server.recorder) (hcaptured : c'.captured = c.captured)
    (hanswer : ∀ x, c.answer = some x → c'.answer = some x) : server'.Recorded := by
  have hlt := (List.getElem?_eq_some_iff.mp hc).1
  have hself : server'.connections[i]? = some c' := by
    rw [hset, List.getElem?_set_self hlt]
  have hother : ∀ j, j ≠ i → server'.connections[j]? = server.connections[j]? := fun j hj => by
    rw [hset, List.getElem?_set_ne hj.symm]
  refine h.keep hrecorder (fun j => ?_) fun j x hx => ?_
  · by_cases hj : j = i
    · subst hj
      rw [Captured, Captured, hself, hc]
      simp [hcaptured]
    · rw [Captured, Captured, hother j hj]
  · obtain ⟨d, request, response, hd, ha, rfl⟩ := hx
    by_cases hj : j = i
    · subst hj
      obtain rfl := Option.some.inj (hc.symm.trans hd)
      exact ⟨c', request, response, hself, hanswer _ ha, rfl⟩
    · exact ⟨d, request, response, (hother j hj).trans hd, ha, rfl⟩

theorem getElem?_accept {connections : List Connection} {i : Nat} {c : Connection} :
    (connections ++ [.accepted])[i]? = some c ↔
      connections[i]? = some c ∨ i = connections.length ∧ c = .accepted := by
  rw [List.getElem?_append]
  split
  · have hne : i ≠ connections.length := by omega
    simp [hne]
  · have hnone : connections[i]? = none := List.getElem?_eq_none (by omega)
    rw [hnone, List.getElem?_singleton]
    by_cases hi : i = connections.length
    · simp [hi, eq_comm]
    · have hsub : i - connections.length ≠ 0 := by omega
      simp [hi, hsub]

theorem Recorded.accept {server : HttpServer} (h : server.Recorded) :
    Recorded { server with connections := server.connections ++ [.accepted] } := by
  refine h.keep rfl (fun i => ?_) fun i x => ?_
  · constructor
    · rintro ⟨c, hc, hcaptured⟩
      obtain hc | ⟨-, rfl⟩ := getElem?_accept.mp hc
      · exact ⟨c, hc, hcaptured⟩
      · cases hcaptured
    · rintro ⟨c, hc, hcaptured⟩
      exact ⟨c, getElem?_accept.mpr (.inl hc), hcaptured⟩
  · rintro ⟨c, request, response, hc, hrest⟩
    exact ⟨c, request, response, getElem?_accept.mpr (.inl hc), hrest⟩

/-- The interaction of a connection is recorded behind the others. -/
theorem Recorded.capture {server server' : HttpServer} (h : server.Recorded) {i : Nat}
    {c : Connection} {request : HttpRequest} {response : HttpResponse}
    (hc : server.connections[i]? = some c) (hanswer : c.answer = some (request, response))
    (hcaptured : c.captured = false)
    (hset : server'.connections = server.connections.set i { c with captured := true })
    (hrecorder : server'.recorder = captureInteraction server.recorder request response) :
    server'.Recorded := by
  have hlt := (List.getElem?_eq_some_iff.mp hc).1
  have hself : server'.connections[i]? = some { c with captured := true } := by
    rw [hset, List.getElem?_set_self hlt]
  have hother : ∀ j, j ≠ i → server'.connections[j]? = server.connections[j]? := fun j hj => by
    rw [hset, List.getElem?_set_ne hj.symm]
  intro recorder hr
  rw [hrecorder] at hr
  obtain ⟨before, hbefore, rfl⟩ := Option.map_eq_some_iff.mp hr
  obtain ⟨order, interactions, rfl, hnodup, hmem, hall⟩ := h before hbefore
  have hnew : i ∉ order := fun hi => by
    obtain ⟨d, hd, hcap⟩ := (hmem i).mp hi
    obtain rfl := Option.some.inj (hc.symm.trans hd)
    rw [hcaptured] at hcap
    cases hcap
  refine ⟨order ++ [i], interactions ++ [capturedInteraction request response], ?_, ?_, fun j => ?_, ?_⟩
  · rw [List.foldl_append]
    rfl
  · exact List.nodup_append.mpr ⟨hnodup, List.nodup_singleton i, fun a ha b hb hab =>
      hnew (List.mem_singleton.mp hb ▸ hab ▸ ha)⟩
  · rw [List.mem_append, List.mem_singleton, hmem, Captured, Captured]
    by_cases hj : j = i
    · subst hj
      simp [hself]
    · rw [hother j hj]
      simp [hj]
  · refine List.rel_append (hall.imp fun j x hx => ?_) (.cons ?_ .nil)
    · obtain ⟨d, request', response', hd, ha, rfl⟩ := hx
      by_cases hj : j = i
      · subst hj
        obtain rfl := Option.some.inj (hc.symm.trans hd)
        exact ⟨_, request', response', hself, ha, rfl⟩
      · exact ⟨d, request', response', (hother j hj).trans hd, ha, rfl⟩
    · exact ⟨_, request, response, hself, hanswer, rfl⟩

theorem recorded_step {memory : Nat} {config : RuntimeConfig} (op : HttpOp)
    (server server' : HttpServer) (h : server.Recorded) (hsound : server.Sound memory config)
    (hs : httpStep memory op server = some server') : server'.Recorded := by
  obtain rfl | ⟨i, c, c', hc, hset, hm⟩ := httpStep_cases hs
  · exact h.accept
  · generalize hshared : server'.shared = shared' at hm
    generalize hrecorder : server'.recorder = recorder' at hm
    cases hm with
    | capture request response hanswer hcaptured hended =>
        rw [hsound.1.getCurrent] at hrecorder
        exact h.capture hc hanswer hcaptured hset hrecorder
    | answer request rest response shared' fs depth now elapsed hnone =>
        exact h.set hc hset hrecorder rfl fun x hx => absurd (hnone.symm.trans hx) nofun
    | incoming => exact h.set hc hset hrecorder rfl fun x hx => hx
    | failed => exact h.set hc hset hrecorder rfl fun x hx => hx
    | write => exact h.set hc hset hrecorder rfl fun x hx => hx
    | drop => exact h.set hc hset hrecorder rfl fun x hx => hx

theorem recorded_start (config : RuntimeConfig) (library : RuntimeState) (now : Int) (elapsed : Nat)
    (captures : Bool) : (start config library now elapsed captures).Recorded := by
  intro recorder hr
  refine ⟨[], [], ?_, List.nodup_nil, fun i => ?_, .nil⟩
  · cases captures with
    | true => exact (Option.some.inj hr).symm
    | false => cases hr
  · simp [Captured, start]

end HttpServer

/-! A request for an icon to a server without media -/

def emptyDirectory : FileSystem := (FileTree.dir [] .nil fun _ => .other).fileSystem []

def listening : HttpServer := .start .default (.ofScanned .default ⟨[], []⟩) 0 0 true

theorem scan_emptyDirectory : (RuntimeState.scan emptyDirectory 1 .default).run =
    some (.ok (.ofScanned .default ⟨[], []⟩)) := rfl

def iconText : RequestText where
  start := "GET /icon.png HTTP/1.1".toList
  fields := []
  last := []
  body := []

theorem iconText_wellFormed : iconText.WellFormed where
  start := by decide
  fields := List.forall_mem_nil _
  last := by decide
  body := rfl

theorem iconText_request : iconText.request = requestFor "GET" "/icon.png" := by
  have hwords : Str.words iconText.start =
      ["GET".toList, "/icon.png".toList, "HTTP/1.1".toList] := by decide
  have hbody : Utf8.lossyText iconText.body = [] := Utf8.lossyText_bytes []
  rw [RequestText.request, hwords, hbody]
  rfl

def asking : List HttpOp := [.accept, .receive 0 iconText.bytes]

def asked : HttpServer where
  shared := listening.shared
  recorder := listening.recorder
  connections := [{ Connection.accepted with incoming := ⟨iconText.bytes, .pending⟩ }]

theorem run_asking : run (httpStep 0) asking listening = some asked := rfl

theorem route_icon : routeRequest emptyDirectory 1 0 0 listening.shared iconText.request =
    some (.ok notFoundResponse, listening.shared) := by
  rw [iconText_request]
  rfl

/-! Runs of the server -/

section
variable {memory : Nat} {config : RuntimeConfig} {fs : FileSystem} {depth : Nat}
  {library : RuntimeState} {now : Int} {elapsed : Nat} {captures : Bool} {ops : List HttpOp}
  {server : HttpServer}

theorem sound_run (hscan : (RuntimeState.scan fs depth config).run = some (.ok library))
    (hr : run (httpStep memory) ops (.start config library now elapsed captures) = some server) :
    server.Sound memory config :=
  invariant_run HttpServer.sound_step (HttpServer.sound_start hscan now elapsed captures) hr

theorem recorded_run (hscan : (RuntimeState.scan fs depth config).run = some (.ok library))
    (hr : run (httpStep memory) ops (.start config library now elapsed captures) = some server) :
    server.Recorded := by
  have hstep : ∀ (op : HttpOp) (s s' : HttpServer), s.Sound memory config ∧ s.Recorded →
      httpStep memory op s = some s' → s'.Sound memory config ∧ s'.Recorded :=
    fun op s s' h hs => ⟨HttpServer.sound_step op s s' h.1 hs,
      HttpServer.recorded_step op s s' h.2 h.1 hs⟩
  exact (invariant_run hstep ⟨HttpServer.sound_start hscan now elapsed captures,
    HttpServer.recorded_start config library now elapsed captures⟩ hr).2

/-- The three steps of a thread that has a whole request. -/
def serving (i : Nat) (fs : FileSystem) (depth : Nat) (now : Int) (elapsed : Nat)
    (response : HttpResponse) : List HttpOp :=
  [.handle i fs depth now elapsed, .capture i, .write i (writeResponse response).length]

theorem handle_eq {i : Nat} {c : Connection} (hc : server.connections[i]? = some c)
    (hended : c.ended = false) (hnone : c.answer = none) {request : HttpRequest} {rest : List UInt8}
    (hread : readRequest memory c.incoming = .done request rest) {response : HttpResponse}
    {shared' : SharedRuntimeState}
    (hroute : routeRequest fs depth now elapsed server.shared request =
      some (.ok response, shared')) :
    httpStep memory (.handle i fs depth now elapsed) server = some
      { server with
        shared := shared'
        connections := server.connections.set i { c with answer := some (request, response) } } := by
  have hfree : (c.answer.isSome || c.ended) = false := by rw [hnone, hended]; rfl
  rw [httpStep, HttpServer.handle, hc, Option.bind_eq_bind, Option.bind_some, hfree,
    if_neg Bool.false_ne_true, hread]
  dsimp only
  rw [hroute, Option.bind_eq_bind, Option.bind_some]

theorem capture_eq (memory : Nat) (server : HttpServer) {i : Nat} {c : Connection}
    (hc : server.connections[i]? = some c) {request : HttpRequest} {response : HttpResponse}
    (hanswer : c.answer = some (request, response)) (hcaptured : c.captured = false)
    (hended : c.ended = false) (hl : Library config server.shared) :
    httpStep memory (.capture i) server = some
      { server with
        recorder := captureInteraction server.recorder request response
        connections := server.connections.set i { c with captured := true } } := by
  rw [httpStep, HttpServer.capture, hc, Option.bind_eq_bind, Option.bind_some, hanswer, hcaptured,
    hended]
  dsimp only
  rw [hl.getCurrent]

theorem write_eq (memory : Nat) (server : HttpServer) {i : Nat} {c : Connection}
    (hc : server.connections[i]? = some c)
    {request : HttpRequest} {response : HttpResponse} (hanswer : c.answer = some (request, response))
    (hcaptured : c.captured = true) (hended : c.ended = false) (count : Nat) :
    httpStep memory (.write i count) server = some
      { server with
        connections := server.connections.set i
          { c with outgoing := (writeResponse response).take (c.outgoing.length + count) } } := by
  rw [httpStep, HttpServer.update, hc, Option.bind_eq_bind, Option.bind_some, Connection.write, hanswer,
    hcaptured, hended]
  rfl

theorem run_serving {i : Nat} {c : Connection} (hc : server.connections[i]? = some c)
    (hended : c.ended = false) (hnone : c.answer = none) (hsound : server.Sound memory config)
    {request : HttpRequest} {rest : List UInt8}
    (hread : readRequest memory c.incoming = .done request rest) {response : HttpResponse}
    {shared' : SharedRuntimeState}
    (hroute : routeRequest fs depth now elapsed server.shared request =
      some (.ok response, shared')) :
    ∃ server', run (httpStep memory) (serving i fs depth now elapsed response) server =
        some server' ∧ (∀ j, j ≠ i → server'.connections[j]? = server.connections[j]?) ∧
      server'.recorder = captureInteraction server.recorder request response ∧
      server'.connections[i]? = some
        { c with
          answer := some (request, response)
          captured := true
          outgoing := writeResponse response } := by
  have hlt := (List.getElem?_eq_some_iff.mp hc).1
  obtain ⟨hcaptured, hnil⟩ := (hsound.2 c (List.mem_of_getElem? hc)).unanswered hnone
  have hset : ∀ d : Connection, (server.connections.set i d)[i]? = some d := fun d =>
    List.getElem?_set_self hlt
  have hset₂ : ∀ d d' : Connection, ((server.connections.set i d).set i d')[i]? = some d' :=
    fun d d' => List.getElem?_set_self (by rwa [List.length_set])
  have hhandle := handle_eq hc hended hnone hread hroute
  have hcapture := capture_eq memory
    { server with
      shared := shared'
      connections := server.connections.set i { c with answer := some (request, response) } }
    (hset _) rfl hcaptured hended (hsound.1.route hroute)
  have hwrite := write_eq memory
    { server with
      shared := shared'
      recorder := captureInteraction server.recorder request response
      connections := (server.connections.set i { c with answer := some (request, response) }).set i
        { c with answer := some (request, response), captured := true } }
    (hset₂ _ _) rfl rfl hended (writeResponse response).length
  have hrun : ∃ server' d d', run (httpStep memory) (serving i fs depth now elapsed response) server =
        some server' ∧ server'.recorder = captureInteraction server.recorder request response ∧
      server'.connections = ((server.connections.set i d).set i d').set i
      { c with
        answer := some (request, response)
        captured := true
        outgoing := (writeResponse response).take (c.outgoing.length + (writeResponse response).length) } := by
    rw [serving, run_cons, hhandle, Option.bind_some, run_cons, hcapture, Option.bind_some, run_cons,
      hwrite]
    exact ⟨_, _, _, rfl, rfl, rfl⟩
  obtain ⟨server', d, d', hrun, hrecorder, hconnections⟩ := hrun
  refine ⟨server', hrun, fun j hj => ?_, hrecorder, ?_⟩
  · rw [hconnections, List.getElem?_set_ne hj.symm, List.getElem?_set_ne hj.symm,
      List.getElem?_set_ne hj.symm]
  · rw [hconnections, List.getElem?_set_self (by rwa [List.length_set, List.length_set]), hnil,
      List.length_nil, Nat.zero_add, List.take_length]

/-- The server answers the request for the icon. -/
theorem exists_answered : ∃ server, run (httpStep 0)
      (asking ++ serving 0 emptyDirectory 1 0 0 notFoundResponse) listening = some server ∧
    server.connections[0]? = some
      { incoming := ⟨iconText.bytes, .pending⟩
        answer := some (iconText.request, notFoundResponse)
        captured := true
        outgoing := writeResponse notFoundResponse
        ended := false } ∧
    server.recorder =
      captureInteraction listening.recorder iconText.request notFoundResponse := by
  have hsound : asked.Sound 0 .default := sound_run scan_emptyDirectory run_asking
  have hread : readRequest 0 ⟨iconText.bytes, .pending⟩ = .done iconText.request [] :=
    readRequest_pending.mpr
      ⟨iconText, iconText_wellFormed, Nat.le_refl 0, (List.append_nil _).symm, rfl⟩
  obtain ⟨server, hrun, -, hrecorder, hself⟩ :=
    run_serving (rfl : asked.connections[0]? = some _) rfl rfl hsound hread route_icon
  refine ⟨server, ?_, hself, hrecorder⟩
  rw [run_append, run_asking]
  exact hrun

/-- What has gone out on a connection is nothing, or the front of one response to the request at
the front of what came in; a client reads that response and nothing else, and waits for it until
it has all of it. A HEAD request for what is not there is left out: its answer has a body. -/
theorem connections_answered (memory : Nat) (config : RuntimeConfig) (fs : FileSystem) (depth : Nat)
    (library : RuntimeState)
    (hscan : (RuntimeState.scan fs depth config).run = some (.ok library)) (now : Int) (elapsed : Nat)
    (captures : Bool) (ops : List HttpOp) (server : HttpServer)
    (hr : run (httpStep memory) ops (.start config library now elapsed captures) = some server)
    (i : Nat) (c : Connection) (hc : server.connections[i]? = some c) :
    (c.answer = none ∧ c.outgoing = []) ∨
      ∃ request response, c.answer = some (request, response) ∧
        (∃ rest, readRequest memory c.incoming = .done request rest) ∧
        Routed config request response ∧ c.outgoing <+: writeResponse response ∧
        (response.body.length < 2 ^ 64 →
          (request.method = "HEAD".toList → response ≠ notFoundResponse) →
          readResponse (request.method == "HEAD".toList) ⟨c.outgoing, .pending⟩ =
            if c.outgoing = writeResponse response then .done response.readBack [] else .waits) := by
  obtain ⟨-, hall⟩ := sound_run hscan hr
  have hsound := hall c (List.mem_of_getElem? hc)
  cases ha : c.answer with
  | none => exact .inl ⟨rfl, (hsound.unanswered ha).2⟩
  | some answer =>
      obtain ⟨request, response⟩ := answer
      obtain ⟨hread, hrouted, hsent⟩ := hsound.answered request response ha
      refine .inr ⟨request, response, rfl, hread, hrouted, hsent, fun hlen hhead => ?_⟩
      obtain ⟨fs, depth, now, elapsed, shared, shared', hl, hroute⟩ := hrouted
      have hwhole := readResponse_routed hl.videoOnly hroute hlen hhead [] .pending
      rw [List.append_nil] at hwhole
      split
      · rename_i he
        rw [he]
        exact hwhole
      · rename_i hne
        obtain ⟨rest, hrest⟩ := hsent
        rw [← hrest] at hwhole
        refine readResponse_waits hwhole fun hnil => hne ?_
        rw [← hrest, hnil, List.append_nil]

theorem connections_answered_icon : ∃ server c, run (httpStep 0)
      (asking ++ serving 0 emptyDirectory 1 0 0 notFoundResponse) listening = some server ∧
    server.connections[0]? = some c ∧
      readResponse false ⟨c.outgoing, .pending⟩ = .done notFoundResponse.readBack [] := by
  obtain ⟨server, hrun, hc, -⟩ := exists_answered
  refine ⟨server, _, hrun, hc, ?_⟩
  obtain ⟨hnone, -⟩ | ⟨request, response, ha, -, -, -, hread⟩ :=
    connections_answered 0 .default emptyDirectory 1 _ scan_emptyDirectory 0 0 true _ server hrun 0 _ hc
  · cases hnone
  · obtain ⟨rfl, rfl⟩ := Prod.mk.inj (Option.some.inj ha)
    have hget : iconText.request.method ≠ "HEAD".toList := by
      rw [iconText_request]
      decide
    have hback := hread (by decide) fun hhead => absurd hhead hget
    rw [if_pos rfl, beq_eq_false_iff_ne.mpr hget] at hback
    exact hback

end

end RustyCastle.Server
