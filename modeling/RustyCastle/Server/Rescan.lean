import RustyCastle.Foundation.Runs
import RustyCastle.Server.Runtime

/-!
Rescans that overlap. Each of them scans the disk, takes one step on the library under the
lock of the library and then one on the status under the lock of the status. Any number of
rescans take these steps in any order. Whether the status tells the item count of the library
once all of them are done is a matter of who wrote last.
-/

namespace RustyCastle.Server
open Foundation Foundation.Runs

/-! One rescan -/

/-- The library step of a successful rescan. -/
def SharedRuntimeState.writeCurrent (state : SharedRuntimeState) (next : RuntimeState) :
    Except IoError Unit × SharedRuntimeState :=
  match state.getCurrent with
  | .error e => (.error e, state)
  | .ok _ => (.ok (), { state with current := { state.current with value := next } })

/-- How far a rescan has come. What it notes of the library comes with the number of
replacements of the library before that. -/
inductive RescanPhase where
  | scanning
  | scanned (next : RuntimeState)
  /-- The recorder of the current library was taken over. -/
  | prepared (next : RuntimeState)
  | replaced (itemCount version : Nat)
  | failed (err : IoError)
  | counted (err : IoError) (itemCount version : Nat)
  | done (result : Except IoError Unit)

namespace RescanPhase

def isDone : RescanPhase → Bool
  | done _ => true
  | _ => false

/-- The item count and the version of the library that the status step goes by. -/
def noted : RescanPhase → Option (Nat × Nat)
  | replaced itemCount version | counted _ itemCount version => some (itemCount, version)
  | _ => none

/-- The phases from which a rescan does not replace the library any more. -/
def keepsLibrary : RescanPhase → Bool
  | scanning | scanned _ | prepared _ => false
  | _ => true

/-- The next atomic step of a rescan whose scan is over. -/
def advance (shared : SharedRuntimeState) (version : Nat) (now : Int) (elapsed : Nat) :
    RescanPhase → Option (RescanPhase × SharedRuntimeState × Nat)
  | scanned next =>
      match shared.getCurrent with
      | .error e => some (done (.error e), shared, version)
      | .ok _ => some (prepared next, shared, version)
  | prepared next =>
      match shared.writeCurrent next with
      | (.error e, shared) => some (done (.error e), shared, version)
      | (.ok _, shared) =>
          some (replaced next.catalog.items.length (version + 1), shared, version + 1)
  | replaced itemCount _ =>
      let (result, shared) := shared.updateScanStatus
        { lastScanTime := some now
          lastScanDuration := some elapsed
          itemCount := itemCount
          error := none }
      some (done result, shared, version)
  | failed err =>
      match shared.getCurrent with
      | .error e => some (done (.error e), shared, version)
      | .ok current => some (counted err current.catalog.items.length version, shared, version)
  | counted err itemCount _ =>
      match shared.updateScanStatus
        { lastScanTime := some now
          lastScanDuration := some elapsed
          itemCount := itemCount
          error := some err.message } with
      | (.error e, shared) => some (done (.error e), shared, version)
      | (.ok _, shared) => some (done (.error err), shared, version)
  | scanning | done _ => none

end RescanPhase

/-! Any number of rescans -/

structure Rescans where
  shared : SharedRuntimeState
  rescans : List RescanPhase
  /-- The number of replacements of the library. -/
  version : Nat

inductive RescanOp where
  | start
  | scan (i : Nat) (result : Except IoError RuntimeState)
  | advance (i : Nat) (now : Int) (elapsed : Nat)

def RescanOp.rescan : RescanOp → Option Nat
  | .start => none
  | .scan i _ | .advance i _ _ => some i

def RescanPhase.afterScan : Except IoError RuntimeState → RescanPhase
  | .ok next => .scanned next
  | .error err => .failed err

/-- A step of one rescan, `none` where the rescan is not at that step. -/
def RescanOp.step : RescanOp → Rescans → Option Rescans
  | .start, s => some { s with rescans := s.rescans ++ [.scanning] }
  | .scan i result, s =>
      match s.rescans[i]? with
      | some .scanning => some { s with rescans := s.rescans.set i (.afterScan result) }
      | _ => none
  | .advance i now elapsed, s => do
      let phase ← s.rescans[i]?
      let (phase, shared, version) ← phase.advance s.shared s.version now elapsed
      some { shared, version, rescans := s.rescans.set i phase }

namespace Rescans

def init (shared : SharedRuntimeState) : Rescans where
  shared := shared
  rescans := []
  version := 0

/-- No rescan is in progress. -/
def Quiet (s : Rescans) : Prop := ∀ phase ∈ s.rescans, phase.isDone = true

/-- The status tells the number of items in the library. -/
def CountsLibrary (s : Rescans) : Prop :=
  s.shared.scanStatus.value.itemCount = s.shared.current.value.catalog.items.length

/-- Neither lock is poisoned. -/
def Unpoisoned (shared : SharedRuntimeState) : Prop :=
  shared.current.poisoned = false ∧ shared.scanStatus.poisoned = false

end Rescans

/-- A rescan that writes the status as the last one in progress was the last on the library:
nobody replaced the library since its own step on it. -/
def RescanOp.LastOnLibrary : RescanOp → Rescans → Prop
  | .advance i _ _, s =>
      (∀ j phase, j ≠ i → s.rescans[j]? = some phase → phase.isDone = true) →
        ∀ itemCount version, s.rescans[i]?.bind RescanPhase.noted = some (itemCount, version) →
          version = s.version
  | _, _ => True

/-! What a step does -/

namespace Rescans

theorem getCurrent_of_unpoisoned {shared : SharedRuntimeState} (h : Unpoisoned shared) :
    shared.getCurrent = .ok shared.current.value := by
  rw [SharedRuntimeState.getCurrent, RwLock.read, h.1]
  rfl

theorem updateScanStatus_of_unpoisoned {shared : SharedRuntimeState} (h : Unpoisoned shared)
    (next : ScanStatus) : shared.updateScanStatus next =
      (.ok (), { shared with scanStatus := { shared.scanStatus with value := next } }) := by
  have hread : shared.getScanStatus = .ok shared.scanStatus.value := by
    rw [SharedRuntimeState.getScanStatus, RwLock.read, h.2]
    rfl
  rw [SharedRuntimeState.updateScanStatus, hread]

/-- What the step of a rescan does to the shared state: nothing, to replace the library, to
count its items, or to write the status with the count noted. -/
inductive Advances (shared : SharedRuntimeState) (version : Nat) :
    RescanPhase → RescanPhase → SharedRuntimeState → Nat → Prop where
  | prepare (next : RuntimeState) :
      Advances shared version (.scanned next) (.prepared next) shared version
  | replace (next : RuntimeState) :
      Advances shared version (.prepared next)
        (.replaced next.catalog.items.length (version + 1))
        { shared with current := { shared.current with value := next } } (version + 1)
  | count (err : IoError) :
      Advances shared version (.failed err)
        (.counted err shared.current.value.catalog.items.length version) shared version
  | write {phase : RescanPhase} (itemCount noted : Nat) (result : Except IoError Unit)
      (status : ScanStatus) (hnoted : phase.noted = some (itemCount, noted))
      (hstatus : status.itemCount = itemCount) :
      Advances shared version phase (.done result)
        { shared with scanStatus := { shared.scanStatus with value := status } } version

theorem advances_of_advance {shared shared' : SharedRuntimeState} (hp : Unpoisoned shared)
    {version version' : Nat} {now : Int} {elapsed : Nat} {phase phase' : RescanPhase}
    (h : phase.advance shared version now elapsed = some (phase', shared', version')) :
    Advances shared version phase phase' shared' version' := by
  cases phase with
  | scanning | done result => cases h
  | scanned next =>
      rw [RescanPhase.advance, getCurrent_of_unpoisoned hp] at h
      cases h
      exact .prepare next
  | prepared next =>
      rw [RescanPhase.advance, SharedRuntimeState.writeCurrent, getCurrent_of_unpoisoned hp] at h
      cases h
      exact .replace next
  | replaced itemCount noted =>
      rw [RescanPhase.advance, updateScanStatus_of_unpoisoned hp] at h
      cases h
      exact .write itemCount noted _ _ rfl rfl
  | failed err =>
      rw [RescanPhase.advance, getCurrent_of_unpoisoned hp] at h
      cases h
      exact .count err
  | counted err itemCount noted =>
      rw [RescanPhase.advance, updateScanStatus_of_unpoisoned hp] at h
      cases h
      exact .write itemCount noted _ _ rfl rfl

theorem Advances.unpoisoned {shared shared' : SharedRuntimeState} {version version' : Nat}
    {phase phase' : RescanPhase} (h : Advances shared version phase phase' shared' version')
    (hp : Unpoisoned shared) : Unpoisoned shared' := by
  cases h <;> exact hp

/-- The cases of a step of the system. -/
theorem step_cases {op : RescanOp} {s s' : Rescans} (hp : Unpoisoned s.shared)
    (h : op.step s = some s') :
    (s' = { s with rescans := s.rescans ++ [.scanning] } ∧ op = .start) ∨
    (∃ i result, s' = { s with rescans := s.rescans.set i (.afterScan result) } ∧
      op = .scan i result ∧ i < s.rescans.length) ∨
    ∃ i now elapsed phase phase' shared' version', op = .advance i now elapsed ∧
      s.rescans[i]? = some phase ∧ Advances s.shared s.version phase phase' shared' version' ∧
        s' = { shared := shared', rescans := s.rescans.set i phase', version := version' } := by
  cases op with
  | start => exact .inl ⟨(Option.some.inj h).symm, rfl⟩
  | scan i result =>
      simp only [RescanOp.step] at h
      split at h
      · rename_i hi
        exact .inr (.inl ⟨i, result, (Option.some.inj h).symm, rfl,
          (List.getElem?_eq_some_iff.mp hi).1⟩)
      · cases h
  | advance i now elapsed =>
      obtain ⟨phase, hi, h⟩ := Option.bind_eq_some_iff.mp h
      obtain ⟨⟨phase', shared', version'⟩, hadvance, h⟩ := Option.bind_eq_some_iff.mp h
      exact .inr (.inr ⟨i, now, elapsed, phase, phase', shared', version', rfl, hi,
        advances_of_advance hp hadvance, (Option.some.inj h).symm⟩)

theorem unpoisoned_step (op : RescanOp) (s s' : Rescans) (hp : Unpoisoned s.shared)
    (h : op.step s = some s') : Unpoisoned s'.shared := by
  obtain ⟨rfl, -⟩ | ⟨i, result, rfl, -⟩ | ⟨i, now, elapsed, phase, phase', shared', version', -, -,
    hadvances, rfl⟩ := step_cases hp h
  · exact hp
  · exact hp
  · exact hadvances.unpoisoned hp

/-! Quiet states -/

/-- What a rescan noted of the library is not newer than the library, and it is the item count
where it is as new; and in a quiet state the status counts the library. -/
structure Tracks (s : Rescans) : Prop where
  unpoisoned : Unpoisoned s.shared
  noted : ∀ phase ∈ s.rescans, ∀ itemCount version, phase.noted = some (itemCount, version) →
    version ≤ s.version ∧
      (version = s.version → itemCount = s.shared.current.value.catalog.items.length)
  quiet : s.Quiet → s.CountsLibrary

theorem not_quiet_of_mem {s : Rescans} {phase : RescanPhase} (hmem : phase ∈ s.rescans)
    (hdone : phase.isDone = false) : ¬ s.Quiet := fun h => by
  rw [h phase hmem] at hdone
  cases hdone

/-- A step that only moves a rescan on, to a phase that noted nothing and is not the end. -/
theorem Tracks.move {s : Rescans} (h : s.Tracks) {rescans : List RescanPhase} {phase : RescanPhase}
    (hmem : phase ∈ rescans) (hold : ∀ p ∈ rescans, p ∈ s.rescans ∨ p = phase)
    (hnoted : phase.noted = none) (hdone : phase.isDone = false) :
    Tracks { s with rescans := rescans } where
  unpoisoned := h.unpoisoned
  noted := by
    intro p hp itemCount version hn
    rcases hold p hp with hp | rfl
    · exact h.noted p hp itemCount version hn
    · rw [hnoted] at hn
      cases hn
  quiet hq := absurd hq (not_quiet_of_mem hmem hdone)

theorem tracks_step (op : RescanOp) (s s' : Rescans) (h : s.Tracks) (hlast : op.LastOnLibrary s)
    (hs : op.step s = some s') : s'.Tracks := by
  obtain ⟨rfl, -⟩ | ⟨i, result, rfl, -, hi⟩ | ⟨i, now, elapsed, phase, phase', shared', version', rfl,
    hi, hadvances, rfl⟩ := step_cases h.unpoisoned hs
  · refine h.move (by simp : RescanPhase.scanning ∈ _) (fun p hp => ?_) rfl rfl
    simpa using hp
  · have hphase : (RescanPhase.afterScan result).noted = none ∧
        (RescanPhase.afterScan result).isDone = false := by
      cases result <;> exact ⟨rfl, rfl⟩
    exact h.move (List.mem_set hi _) (fun p hp => List.mem_or_eq_of_mem_set hp) hphase.1 hphase.2
  · have hlen : i < s.rescans.length := (List.getElem?_eq_some_iff.mp hi).1
    have hmem : phase' ∈ s.rescans.set i phase' := List.mem_set hlen phase'
    cases hadvances with
    | prepare next =>
        exact h.move hmem (fun p hp => List.mem_or_eq_of_mem_set hp) rfl rfl
    | replace next =>
        refine ⟨h.unpoisoned, ?_, fun hq => absurd hq (not_quiet_of_mem hmem rfl)⟩
        intro p hp itemCount version hn
        rcases List.mem_or_eq_of_mem_set hp with hp | rfl
        · have hle := (h.noted p hp itemCount version hn).1
          dsimp only
          exact ⟨by omega, fun he => by omega⟩
        · cases hn
          exact ⟨le_rfl, fun _ => rfl⟩
    | count err =>
        refine ⟨h.unpoisoned, ?_, fun hq => absurd hq (not_quiet_of_mem hmem rfl)⟩
        intro p hp itemCount version hn
        rcases List.mem_or_eq_of_mem_set hp with hp | rfl
        · exact h.noted p hp itemCount version hn
        · cases hn
          exact ⟨le_rfl, fun _ => rfl⟩
    | write itemCount noted result status hnoted hstatus =>
        refine ⟨h.unpoisoned, ?_, fun hq => ?_⟩
        · intro p hp c v hn
          rcases List.mem_or_eq_of_mem_set hp with hp | rfl
          · exact h.noted p hp c v hn
          · cases hn
        · -- the other rescans are done, so the condition applies to this step
          have hothers : ∀ j p, j ≠ i → s.rescans[j]? = some p → p.isDone = true := by
            intro j p hne hj
            refine hq p (List.mem_of_getElem? (i := j) ?_)
            rw [← hj]
            exact List.getElem?_set_ne (Ne.symm hne)
          have hversion : noted = s.version :=
            hlast hothers itemCount noted (by rw [hi, Option.bind_some, hnoted])
          change status.itemCount = s.shared.current.value.catalog.items.length
          rw [hstatus]
          exact (h.noted phase (List.mem_of_getElem? hi) itemCount noted hnoted).2 hversion

theorem tracks_new (config : RuntimeConfig) (current : RuntimeState) (now : Int) (elapsed : Nat) :
    (init (.new config current now elapsed)).Tracks where
  unpoisoned := ⟨rfl, rfl⟩
  noted := by
    intro p hp
    cases hp
  quiet _ := rfl

/-- The rescan is past its replacement of the library, or goes without one. -/
def Keeps (i : Nat) (s : Rescans) : Prop :=
  ∃ phase, s.rescans[i]? = some phase ∧ phase.keepsLibrary = true

theorem Advances.keeps {shared shared' : SharedRuntimeState} {version version' : Nat}
    {phase phase' : RescanPhase} (h : Advances shared version phase phase' shared' version')
    (hkeeps : phase.keepsLibrary = true) :
    phase'.keepsLibrary = true ∧ shared'.current = shared.current := by
  cases h with
  | prepare | replace => cases hkeeps
  | count | write => exact ⟨rfl, rfl⟩

/-- The step of such a rescan leaves the library alone. -/
theorem current_of_keeps {op : RescanOp} {s s' : Rescans} {i : Nat} (hp : Unpoisoned s.shared)
    (hkeeps : s.Keeps i) (h : op.step s = some s') (hop : op.rescan = some i) :
    s'.shared.current = s.shared.current := by
  obtain ⟨old, hold, hkeeps⟩ := hkeeps
  obtain ⟨rfl, -⟩ | ⟨j, result, rfl, -⟩ | ⟨j, now, elapsed, phase, phase', shared', version', rfl, hi,
    hadvances, rfl⟩ := step_cases hp h
  · rfl
  · rfl
  · obtain rfl : j = i := Option.some.inj hop
    obtain rfl := Option.some.inj (hi.symm.trans hold)
    exact (hadvances.keeps hkeeps).2

theorem keeps_step {i : Nat} (op : RescanOp) (s s' : Rescans)
    (hs : Unpoisoned s.shared ∧ s.Keeps i) (h : op.step s = some s') :
    Unpoisoned s'.shared ∧ s'.Keeps i := by
  obtain ⟨hp, old, hold, hkeeps⟩ := hs
  have hlen : i < s.rescans.length := (List.getElem?_eq_some_iff.mp hold).1
  refine ⟨unpoisoned_step op s s' hp h, ?_⟩
  cases op with
  | start =>
      obtain rfl := Option.some.inj h
      exact ⟨old, by rw [List.getElem?_append_left hlen, hold], hkeeps⟩
  | scan j result =>
      simp only [RescanOp.step] at h
      split at h
      · rename_i hj
        obtain rfl := Option.some.inj h
        have hne : j ≠ i := by
          rintro rfl
          obtain rfl := Option.some.inj (hj.symm.trans hold)
          cases hkeeps
        exact ⟨old, by rw [List.getElem?_set_ne hne, hold], hkeeps⟩
      · cases h
  | advance j now elapsed =>
      obtain ⟨phase, hj, h⟩ := Option.bind_eq_some_iff.mp h
      obtain ⟨⟨phase', shared', version'⟩, hadvance, h⟩ := Option.bind_eq_some_iff.mp h
      obtain rfl := Option.some.inj h
      by_cases hji : j = i
      · subst hji
        obtain rfl := Option.some.inj (hj.symm.trans hold)
        exact ⟨phase', List.getElem?_set_self hlen,
          ((advances_of_advance hp hadvance).keeps hkeeps).1⟩
      · exact ⟨old, by rw [List.getElem?_set_ne hji, hold], hkeeps⟩

theorem keeps_of_scan_failed {s s' : Rescans} {i : Nat} {err : IoError}
    (h : RescanOp.step (.scan i (.error err)) s = some s') : s'.Keeps i := by
  simp only [RescanOp.step] at h
  split at h
  · rename_i hi
    obtain rfl := Option.some.inj h
    exact ⟨_, List.getElem?_set_self (List.getElem?_eq_some_iff.mp hi).1, rfl⟩
  · cases h

/-! A rescan without others -/

/-- A rescan with the server to itself takes the steps of `rescanLibrary`. -/
theorem run_of_rescanLibrary {fs : FileSystem} {depth : Nat} {now : Int} {elapsed : Nat}
    {shared shared' : SharedRuntimeState} {result : Except IoError Unit}
    (h : rescanLibrary fs depth now elapsed shared = some (result, shared')) :
    ∃ scanned steps version, (RuntimeState.scan fs depth shared.config).run = some scanned ∧
      run RescanOp.step
          (.start :: .scan 0 scanned :: List.replicate steps (.advance 0 now elapsed)) (init shared) =
        some { shared := shared', rescans := [.done result], version := version } := by
  obtain ⟨scanned, hscan, h⟩ := Option.bind_eq_some_iff.mp h
  cases hcurrent : shared.current.poisoned with
  | true =>
      -- the first look at the library ends the rescan
      have hread : shared.getCurrent = .error { message := "runtime state lock poisoned".toList } := by
        rw [SharedRuntimeState.getCurrent, RwLock.read, hcurrent]
        rfl
      refine ⟨scanned, 1, 0, hscan, ?_⟩
      cases scanned with
      | ok next =>
          simp only [SharedRuntimeState.replaceLibrary, hread] at h
          cases h
          simp [RescanOp.step, init, RescanPhase.afterScan, RescanPhase.advance, hread]
      | error err =>
          simp only [SharedRuntimeState.recordScanError, hread] at h
          cases h
          simp [RescanOp.step, init, RescanPhase.afterScan, RescanPhase.advance, hread]
  | false =>
      have hread : shared.getCurrent = .ok shared.current.value := by
        rw [SharedRuntimeState.getCurrent, RwLock.read, hcurrent]
        rfl
      cases scanned with
      | ok next =>
          refine ⟨_, 3, 1, hscan, ?_⟩
          simp only [SharedRuntimeState.replaceLibrary, hread] at h
          simp [RescanOp.step, init, RescanPhase.afterScan, RescanPhase.advance,
            SharedRuntimeState.writeCurrent, hread, Option.some.inj h]
      | error err =>
          refine ⟨_, 2, 0, hscan, ?_⟩
          simp only [SharedRuntimeState.recordScanError, hread] at h
          generalize hupdate : shared.updateScanStatus _ = updated at h
          obtain ⟨_ | _, _⟩ := updated <;> cases h <;>
            simp [RescanOp.step, init, RescanPhase.afterScan, RescanPhase.advance, hread, hupdate]

end Rescans

/-- In a run in which every rescan that ends as the last one in progress was the last on the
library, the status counts the library in every quiet state. In any run, the steps of a rescan
behind a scan that failed leave the library as it is. -/
theorem rescans_consistent (config : RuntimeConfig) (current : RuntimeState) (now : Int)
    (elapsed : Nat) :
    (∀ ops, EveryStep RescanOp.step RescanOp.LastOnLibrary ops
          (.init (.new config current now elapsed)) →
        EveryState RescanOp.step (fun s => s.Quiet → s.CountsLibrary) ops
          (.init (.new config current now elapsed))) ∧
    ∀ (before : List RescanOp) (i : Nat) (err : IoError) (between : List RescanOp) (s : Rescans)
      (op : RescanOp) (s' : Rescans),
      run RescanOp.step (before ++ .scan i (.error err) :: between)
          (.init (.new config current now elapsed)) = some s →
        op.rescan = some i → op.step s = some s' → s'.shared.current = s.shared.current := by
  have hnew := Rescans.tracks_new config current now elapsed
  constructor
  · intro ops hops
    exact (everyState_of_everyStep Rescans.tracks_step hnew hops).imp fun _ h => h.quiet
  · intro before i err between s op s' hrun hop hstep
    rw [run_append] at hrun
    obtain ⟨s₁, hbefore, hrun⟩ := Option.bind_eq_some_iff.mp hrun
    rw [run_cons] at hrun
    obtain ⟨s₂, hscan, hbetween⟩ := Option.bind_eq_some_iff.mp hrun
    have hp₁ : (fun s : Rescans => Rescans.Unpoisoned s.shared) s₁ :=
      invariant_run Rescans.unpoisoned_step hnew.unpoisoned hbefore
    have hp₂ := Rescans.unpoisoned_step _ s₁ s₂ hp₁ hscan
    obtain ⟨hp, hkeeps⟩ := invariant_run (fun op s s' h => Rescans.keeps_step op s s' h)
      ⟨hp₂, Rescans.keeps_of_scan_failed hscan⟩ hbetween
    exact Rescans.current_of_keeps hp hkeeps hstep hop

namespace Rescans

/-- A library of some clips of one name. -/
def clips (count : Nat) : RuntimeState :=
  .new (.new "http://127.0.0.1:49152/".toList "550e8400-e29b-41d4-a716-446655440000".toList
      "Rusty Castle".toList)
    (List.replicate count
      { item := .mp4 "m-1".toList "Clip".toList "http://127.0.0.1:49152/media/m-1".toList, path := [] })

/-- The first rescan finds one clip, the second two. The first writes its status last. -/
def lateStatus : List RescanOp :=
  [.start, .start, .scan 0 (.ok (clips 1)), .advance 0 60 5, .advance 0 60 5, .scan 1 (.ok (clips 2)),
    .advance 1 61 6, .advance 1 61 6, .advance 1 61 6, .advance 0 62 7]

end Rescans

/-- One rescan that finds two clips, and one that fails. -/
theorem rescans_consistent_alone :
    EveryState RescanOp.step (fun s => s.Quiet → s.CountsLibrary)
        [.start, .scan 0 (.ok (Rescans.clips 2)), .advance 0 60 5, .advance 0 60 5, .advance 0 60 5]
        (.init (.new .default (Rescans.clips 1) 0 3)) ∧
      ∀ s s', run RescanOp.step
          [.start, .scan 0 (.error { message := "gone".toList }), .advance 0 60 5]
          (.init (.new .default (Rescans.clips 1) 0 3)) = some s →
        RescanOp.step (.advance 0 60 5) s = some s' → s'.shared.current = s.shared.current := by
  have hall := rescans_consistent .default (Rescans.clips 1) 0 3
  refine ⟨hall.1 _ ?_, fun s s' hrun hstep => ?_⟩
  · intro s h
    obtain rfl := Option.some.inj h
    refine ⟨trivial, fun s h => ?_⟩
    obtain rfl := Option.some.inj h
    refine ⟨trivial, fun s h => ?_⟩
    obtain rfl := Option.some.inj h
    refine ⟨fun _ _ _ hnoted => (by cases hnoted), fun s h => ?_⟩
    obtain rfl := Option.some.inj h
    refine ⟨fun _ _ _ hnoted => (by cases hnoted), fun s h => ?_⟩
    obtain rfl := Option.some.inj h
    refine ⟨fun _ _ _ hnoted => ?_, trivial⟩
    cases hnoted
    rfl
  · exact hall.2 [.start] 0 _ [.advance 0 60 5] s (.advance 0 60 5) s' hrun rfl hstep

/-- Both rescans are done, the library has two items and the status tells of one. -/
theorem rescans_consistent_lateStatus :
    ¬ EveryState RescanOp.step (fun s => s.Quiet → s.CountsLibrary) Rescans.lateStatus
        (.init (.new .default (Rescans.clips 0) 0 3)) := by
  intro h
  have hlast := (h.2 _ rfl).2 _ rfl |>.2 _ rfl |>.2 _ rfl |>.2 _ rfl |>.2 _ rfl |>.2 _ rfl |>.2 _ rfl
    |>.2 _ rfl |>.2 _ rfl
  have hquiet : ∀ phase ∈ [RescanPhase.done (.ok ()), .done (.ok ())], phase.isDone = true := by
    simp [RescanPhase.isDone]
  have hcount : (1 : Nat) = 2 := hlast hquiet
  cases hcount

end RustyCastle.Server
