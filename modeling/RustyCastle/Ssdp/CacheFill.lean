import RustyCastle.Ssdp.CacheKey
import RustyCastle.Ssdp.RoundTrip

/-!
Reaching a cache of any fill level. Search responses of different devices,
received at time zero and with their events polled, add one entry each until
the cache is full.
-/

namespace RustyCastle.Ssdp
open Foundation Foundation.HeaderBlock Foundation.Runs

def sampleLocation : Str := "http://a/".toList

def sampleLocationStr : BoundedStr cacheLoc := ⟨sampleLocation, by decide⟩

theorem tryFrom_sampleLocation : BoundedStr.tryFrom sampleLocation = some sampleLocationStr :=
  BoundedStr.tryFrom_eq_some.mpr rfl

/-- A search response of device `i`. -/
def sampleResponse (i : Nat) (maxAge : UInt32) : SearchResponseRef where
  st := .rootDevice
  usn := sampleUsn i
  location := sampleLocation
  maxAge := Duration.fromSecs maxAge.toNat
  server := none
  bootid := none
  configid := none
  searchport := none

theorem sampleResponse_wellFormed (i : Nat) (maxAge : UInt32) :
    (sampleResponse i maxAge).WellFormed where
  st := ⟨trivial, trivial⟩
  usn := sampleUsn_wellFormed i
  location := (⟨by decide, by decide⟩ : LocationText sampleLocation)
  maxAge := ⟨maxAge, rfl⟩
  server := by simp [sampleResponse]
  searchport := by simp [sampleResponse]

theorem sampleKey_injective {i j : Nat} (hi : i ≤ 122) (hj : j ≤ 122)
    (h : usnToString (sampleUsn i) = usnToString (sampleUsn j)) : i = j := by
  have hfit : ∀ {n}, n ≤ 122 → (sampleUsn n).FitsKey := by
    intro n hn
    rw [UsnRef.FitsKey, length_sampleText, cacheUsn]
    omega
  have := usnToString_injective (sampleUsn_wellFormed i).1 (sampleUsn_wellFormed j).1
    (hfit hi) (hfit hj) h
  have hl := length_sampleText i
  rw [this, length_sampleText] at hl
  omega

def samplePeer : SocketAddr := .v4 0 1900

/-- Device `i` answers, and its event is polled. -/
def fillOps : Nat → List CpOp
  | 0 => []
  | n + 1 => fillOps n ++ [.handleDatagram 0 samplePeer (sampleResponse n 1).wire, .pollEvent]

namespace ControlPoint
variable {M : Type} [MapOps (BoundedStr cacheUsn) CpEntry M]

/-- A control point that has heard of the first `n` devices, and of nothing else. -/
structure Filled (n : Nat) (cp : ControlPoint M) : Prop where
  events : cp.events.toList = []
  timers : ∀ k, (cp.timers.armed k).isSome → k = .cacheExpiry
  armed : 0 < n → cp.timers.armed .cacheExpiry = some (Duration.fromSecs 1)
  keys : ∀ k, (cp.cache.find k).isSome ↔ ∃ i < n, k = usnToString (sampleUsn i)
  expiresAt : ∀ k e, cp.cache.find k = some e → e.expiresAt = Duration.fromSecs 1
  len : cp.cache.len = n

theorem Filled.ownTimers {n : Nat} {cp : ControlPoint M} (h : cp.Filled n) : cp.OwnTimers := by
  intro k hk
  rw [h.timers k hk]
  exact expiry_mem

theorem Filled.find_next {n : Nat} (hn : n < cacheCap) {cp : ControlPoint M} (hf : cp.Filled n) :
    cp.cache.find (usnToString (sampleUsn n)) = none := by
  have hcap : cacheCap = 64 := rfl
  rw [← Option.not_isSome_iff_eq_none, hf.keys]
  rintro ⟨i, hi, he⟩
  have := sampleKey_injective (by omega) (by omega) he
  omega

theorem announced_returns (cp : ControlPoint M) {now : Instant} {age : Duration} (usn : UsnRef)
    (loc : Str) (h : now + age ≤ Duration.max) : ∃ cp', cp.announced now usn loc age = some cp' := by
  have hins : ∃ r, cp.cache.insert (usnToString usn).toStr loc age now = some r := by
    simp only [ServiceCache.insert, BoundedStr.tryFrom_toStr, Instant.add_of_le h]
    split
    · exact ⟨_, rfl⟩
    · split
      · exact ⟨_, rfl⟩
      · exact ⟨_, rfl⟩
  obtain ⟨r, hr⟩ := hins
  refine ⟨ControlPoint.rescheduleCacheExpiry { cp with
    cache := r.2
    events := pushSearchHit cp.events (usnToString usn).toStr loc age } now, ?_⟩
  simp only [announced, hr]
  rfl

theorem handleDatagram_sample {httparse : List UInt8 → Nat → Outcome} (hp : SplitsBlock httparse)
    (cp : ControlPoint M) (now : Instant) (source : SocketAddr) (i : Nat) (maxAge : UInt32) :
    cp.handleDatagram httparse now source (sampleResponse i maxAge).wire =
      cp.announced now (sampleUsn i) sampleLocation (Duration.fromSecs maxAge.toNat) := by
  rw [handleDatagram, parseDatagram_response hp (sampleResponse_wellFormed i maxAge)]
  rfl

section Laws
variable (hM : LawfulMap M cacheCap)
include hM

theorem filled_zero : (new none : ControlPoint M).Filled 0 where
  events := rfl
  timers k hk := by simp [new] at hk
  armed h := absurd h (by decide)
  keys k := by
    rw [show (new none : ControlPoint M).cache = .new from rfl, ServiceCache.find_new hM]
    simp
  expiresAt k e he := by
    rw [show (new none : ControlPoint M).cache = .new from rfl, ServiceCache.find_new hM] at he
    cases he
  len := by
    rw [ServiceCache.len, show (new none : ControlPoint M).cache.entries = MapOps.empty from rfl,
      hM.entries_empty]
    rfl

/-- The response of the next device is stored: its location is short, and the
cache has room. -/
theorem Filled.find_insert {n : Nat} (hn : n < cacheCap) {cp : ControlPoint M} (hf : cp.Filled n)
    {b : Bool} {cache : CpCache M}
    (h : cp.cache.insert (usnToString (sampleUsn n)).toStr sampleLocation (Duration.fromSecs 1) 0 =
      some (b, cache)) :
    ∃ l, ∀ k, cache.find k = if k = usnToString (sampleUsn n) then
      some ⟨l, usnToString (sampleUsn n), Duration.fromSecs 1⟩ else cp.cache.find k := by
  obtain ⟨-, l, -, hfind⟩ | ⟨hacc, -⟩ := ServiceCache.insert_eq_some hM h
  · rw [Nat.zero_add] at hfind
    exact ⟨l, hfind⟩
  · refine absurd ⟨by decide, .inr ?_⟩ hacc
    rw [hf.len]
    exact hn

theorem filled_succ {n : Nat} (hn : n < cacheCap) {cp cp' : ControlPoint M} (hf : cp.Filled n)
    (h : cp.announced 0 (sampleUsn n) sampleLocation (Duration.fromSecs 1) = some cp') :
    cp'.pollEvent.2.Filled (n + 1) := by
  obtain ⟨b, cache, hc, rfl⟩ := announced_eq_some h
  obtain ⟨l, hfind⟩ := hf.find_insert hM hn hc
  let x : ControlPoint M := { cp with
    cache, events := pushSearchHit cp.events (usnToString (sampleUsn n)).toStr sampleLocation
      (Duration.fromSecs 1) }
  have hox : x.OwnTimers := hf.ownTimers
  obtain ⟨htimers, hcache⟩ := pollEvent_timers (x.rescheduleCacheExpiry 0)
  have hexp : ∀ k e, cache.find k = some e → e.expiresAt = Duration.fromSecs 1 := by
    intro k e he
    rw [hfind] at he
    split at he
    · obtain rfl := Option.some.inj he
      rfl
    · exact hf.expiresAt k e he
  refine ⟨?_, ?_, ?_, ?_, ?_, ?_⟩
  · rw [toList_pollEvent, reschedule_events, show x.events = pushSearchHit cp.events _ _ _ from rfl,
      pushSearchHit_eq, tryFrom_sampleLocation, Option.elim, BoundedVec.toList_pushOrDrop,
      hf.events]
    rfl
  · intro k hk
    rw [htimers] at hk
    by_contra hne
    rw [reschedule_armed_other hox 0 hne] at hk
    exact hne (hf.timers k hk)
  · intro _
    have hself : cache.find (usnToString (sampleUsn n)) = some _ := (hfind _).trans (if_pos rfl)
    obtain ⟨m, hm, -⟩ := ServiceCache.nextExpiry_le hM hself
    obtain ⟨k, e, he, rfl⟩ := ServiceCache.find_of_nextExpiry hM hm
    rw [htimers, reschedule_armed hox, show x.cache = cache from rfl, hm, hexp k e he]
    rfl
  · intro k
    rw [hcache, reschedule_cache, show x.cache = cache from rfl, hfind, Nat.exists_lt_succ_right]
    by_cases hk : k = usnToString (sampleUsn n)
    · rw [if_pos hk]
      exact iff_of_true rfl (.inr hk)
    · rw [if_neg hk, hf.keys]
      exact (or_iff_left hk).symm
  · rw [hcache, reschedule_cache]
    exact hexp
  · rw [hcache, reschedule_cache, ← hf.len]
    exact hM.length_of_get hfind (hf.find_next hn)

theorem exists_filled {httparse : List UInt8 → Nat → Outcome} (hp : SplitsBlock httparse) {n : Nat}
    (hn : n ≤ cacheCap) : ∃ cp : ControlPoint M,
      run (CpOp.step httparse) (fillOps n) (new none) = some cp ∧ cp.Filled n := by
  induction n with
  | zero => exact ⟨new none, rfl, filled_zero hM⟩
  | succ n ih =>
      obtain ⟨cp, hr, hf⟩ := ih (by omega)
      obtain ⟨cp', h⟩ := cp.announced_returns (sampleUsn n) sampleLocation
        (by decide : (0 : Instant) + Duration.fromSecs 1 ≤ Duration.max)
      refine ⟨cp'.pollEvent.2, ?_, filled_succ hM hn hf h⟩
      rw [fillOps, run_append, hr]
      simp only [Option.bind_some, run_cons, CpOp.step, handleDatagram_sample hp]
      rw [show Duration.fromSecs (UInt32.toNat 1) = Duration.fromSecs 1 from rfl, h]
      rfl

end Laws
end ControlPoint
end RustyCastle.Ssdp
