import Mathlib.Data.List.Nodup
import RustyCastle.Ssdp.NetworkBeliefs

/-!
What a control point has learned from announcements. Announcements of one name agree on the
location, so neither their order nor their repetition matters, as long as the cache has room for
all of them and no max-age has run out.
-/

namespace RustyCastle.Ssdp
open Foundation Foundation.HeaderBlock

/-- A name, its location and its max-age. -/
abbrev Announcement := UsnRef × Str × Duration

/-- The datagram is an announcement. -/
def PayloadAnnounces (httparse : List UInt8 → Nat → Outcome) (payload : List UInt8)
    (a : Announcement) : Prop :=
  ∃ m, parseDatagram httparse payload = .ok m ∧ m.announcement = some a

/-- A datagram that announces is in `A` and holds until the deadline, no datagram is a byebye, and
no timeout is as late as the deadline. -/
def CpOp.Hears (httparse : List UInt8 → Nat → Outcome) (A : Announcement → Prop)
    (deadline : Instant) : CpOp → Prop
  | .handleDatagram now _ payload => ∀ m, parseDatagram httparse payload = .ok m →
      (∀ a, m.announcement = some a → A a ∧ deadline ≤ now + a.2.2) ∧ m.departure = none
  | .handleTimeout now => now < deadline
  | _ => True

/-- Announcements that a cache can hold together. -/
structure Coherent (A : Announcement → Prop) : Prop where
  fits : ∀ a, A a → a.2.1.bytes.length ≤ cacheLoc
  agree : ∀ a b, A a → A b → usnToString a.1 = usnToString b.1 → a.2.1 = b.2.1
  room : ∃ names : List (BoundedStr cacheUsn), names.length ≤ cacheCap ∧
    ∀ a, A a → usnToString a.1 ∈ names

namespace ControlPoint
variable {M : Type} [MapOps (BoundedStr cacheUsn) CpEntry M]

/-- What the cache holds was announced. -/
structure Holds (A : Announcement → Prop) (cp : ControlPoint M) : Prop where
  timers : cp.OwnTimers
  entries : ∀ k e, cp.cache.find k = some e →
    ∃ a, A a ∧ k = usnToString a.1 ∧ e.location.toStr = a.2.1

/-- The announcement is in the cache until the deadline. -/
def Knows (deadline : Instant) (a : Announcement) (cp : ControlPoint M) : Prop :=
  ∃ e, cp.cache.find (usnToString a.1) = some e ∧ e.location.toStr = a.2.1 ∧
    deadline ≤ e.expiresAt

theorem announced_of_datagram {httparse : List UInt8 → Nat → Outcome} {cp cp' : ControlPoint M}
    {now : Instant} {source : SocketAddr} {payload : List UInt8} {a : Announcement}
    (ha : PayloadAnnounces httparse payload a)
    (h : (CpOp.handleDatagram now source payload).step httparse cp = some cp') :
    cp.announced now a.1 a.2.1 a.2.2 = some cp' := by
  obtain ⟨m, hm, hann⟩ := ha
  rw [CpOp.step, handleDatagram, hm] at h
  dsimp only at h
  rw [handleMessage_eq, hann] at h
  exact h

/-- Without a byebye the cache changes only by an announcement. -/
theorem cache_of_datagram {httparse : List UInt8 → Nat → Outcome} {A : Announcement → Prop}
    {deadline : Instant} {cp cp' : ControlPoint M} {now : Instant} {source : SocketAddr}
    {payload : List UInt8} (hop : (CpOp.handleDatagram now source payload).Hears httparse A deadline)
    (h : (CpOp.handleDatagram now source payload).step httparse cp = some cp') :
    cp'.cache = cp.cache ∨ ∃ a, A a ∧ deadline ≤ now + a.2.2 ∧
      PayloadAnnounces httparse payload a := by
  cases hm : parseDatagram httparse payload with
  | error e =>
      rw [CpOp.step, handleDatagram, hm] at h
      cases h
      exact .inl rfl
  | ok m =>
      obtain ⟨hann, hdep⟩ := hop m hm
      cases ha : m.announcement with
      | some a =>
          obtain ⟨hA, hle⟩ := hann a ha
          exact .inr ⟨a, hA, hle, m, hm, ha⟩
      | none =>
          rw [CpOp.step, handleDatagram, hm] at h
          dsimp only at h
          rw [handleMessage_eq, ha, hdep] at h
          cases h
          exact .inl rfl

theorem Holds.of_cache {A : Announcement → Prop} {cp cp' : ControlPoint M} (h : cp.Holds A)
    (ho : cp'.OwnTimers) (hc : cp'.cache = cp.cache) : cp'.Holds A :=
  ⟨ho, by rw [hc]; exact h.entries⟩

section Laws
variable (hM : LawfulMap M cacheCap)
include hM

/-- A name that is missing finds room among the others. -/
theorem Holds.len_lt {A : Announcement → Prop} {cp : ControlPoint M} (h : cp.Holds A)
    (hA : Coherent A) {a : Announcement} (ha : A a)
    (hnone : cp.cache.find (usnToString a.1) = none) : cp.cache.len < cacheCap := by
  obtain ⟨names, hlen, hnames⟩ := hA.room
  have hnot : usnToString a.1 ∉ (MapOps.entries cp.cache.entries).map Prod.fst := by
    intro hmem
    obtain ⟨⟨k, e⟩, he, hk⟩ := List.mem_map.mp hmem
    have hfind := hM.get_eq_some.mpr he
    rw [← hk, ServiceCache.find, hfind] at hnone
    cases hnone
  have hnodup := List.nodup_cons.mpr ⟨hnot, hM.nodup cp.cache.entries⟩
  have hsub : usnToString a.1 :: (MapOps.entries cp.cache.entries).map Prod.fst ⊆ names := by
    rw [List.cons_subset]
    refine ⟨hnames a ha, fun k hk => ?_⟩
    obtain ⟨⟨k', e⟩, he, rfl⟩ := List.mem_map.mp hk
    obtain ⟨b, hb, rfl, -⟩ := h.entries k' e (hM.get_eq_some.mpr he)
    exact hnames b hb
  have hle := (hnodup.subperm hsub).length_le
  rw [List.length_cons, List.length_map] at hle
  exact Nat.lt_of_succ_le (hle.trans hlen)

/-- An announcement among those that fit is stored. -/
theorem Holds.find_announced {A : Announcement → Prop} {cp cp' : ControlPoint M} {now : Instant}
    (h : cp.Holds A) (hA : Coherent A) {a : Announcement} (ha : A a)
    (hs : cp.announced now a.1 a.2.1 a.2.2 = some cp') :
    ∃ l : BoundedStr cacheLoc, l.toStr = a.2.1 ∧ ∀ k, cp'.cache.find k =
      if k = usnToString a.1 then some ⟨l, usnToString a.1, now + a.2.2⟩
      else cp.cache.find k := by
  obtain ⟨b, cache, hc, rfl⟩ := announced_eq_some hs
  rw [reschedule_cache]
  obtain ⟨-, l, hl, hfind⟩ | ⟨hno, -⟩ := ServiceCache.insert_eq_some hM hc
  · exact ⟨l, hl, hfind⟩
  · refine absurd ⟨hA.fits a ha, ?_⟩ hno
    cases hk : cp.cache.find (usnToString a.1) with
    | some e => exact .inl rfl
    | none => exact .inr (h.len_lt hM hA ha hk)

theorem Holds.step {httparse : List UInt8 → Nat → Outcome} {A : Announcement → Prop}
    {deadline : Instant} (hA : Coherent A) {op : CpOp} {cp cp' : ControlPoint M}
    (hop : op.Hears httparse A deadline) (h : cp.Holds A) (hs : op.step httparse cp = some cp') :
    cp'.Holds A := by
  have ho := ownTimers_step hM op cp cp' h.timers hs
  by_cases hlocal : (Act.controlPoint op).isLocal
  · obtain hc | ⟨now, rfl, hfind⟩ := cache_of_local_step hM h.timers hlocal hs
    · exact h.of_cache ho hc
    · refine ⟨ho, fun k e he => ?_⟩
      rw [hfind] at he
      exact h.entries k e (Option.filter_eq_some_iff.mp he).1
  · cases op with
    | handleDatagram now source payload =>
        obtain hc | ⟨a, ha, -, hann⟩ := cache_of_datagram hop hs
        · exact h.of_cache ho hc
        · obtain ⟨l, hl, hfind⟩ := h.find_announced hM hA ha (announced_of_datagram hann hs)
          refine ⟨ho, fun k e he => ?_⟩
          rw [hfind] at he
          split at he
          · cases he
            exact ⟨a, ha, ‹_›, hl⟩
          · exact h.entries k e he
    | _ => exact absurd rfl hlocal

theorem Knows.step {httparse : List UInt8 → Nat → Outcome} {A : Announcement → Prop}
    {deadline : Instant} (hA : Coherent A) {a : Announcement} (ha : A a) {op : CpOp}
    {cp cp' : ControlPoint M} (hop : op.Hears httparse A deadline) (h : cp.Holds A)
    (hk : cp.Knows deadline a) (hs : op.step httparse cp = some cp') : cp'.Knows deadline a := by
  obtain ⟨e, he, hl, hle⟩ := hk
  by_cases hlocal : (Act.controlPoint op).isLocal
  · obtain hc | ⟨now, rfl, hfind⟩ := cache_of_local_step hM h.timers hlocal hs
    · exact ⟨e, by rw [hc, he], hl, hle⟩
    · refine ⟨e, ?_, hl, hle⟩
      have hlt : now < e.expiresAt := Nat.lt_of_lt_of_le hop hle
      rw [hfind, he, Option.filter_some_pos (by simpa using hlt)]
  · cases op with
    | handleDatagram now source payload =>
        obtain hc | ⟨b, hb, hdead, hann⟩ := cache_of_datagram hop hs
        · exact ⟨e, by rw [hc, he], hl, hle⟩
        · obtain ⟨l, hloc, hfind⟩ := h.find_announced hM hA hb (announced_of_datagram hann hs)
          by_cases hkey : usnToString a.1 = usnToString b.1
          · exact ⟨_, (hfind _).trans (if_pos hkey), hloc.trans (hA.agree b a hb ha hkey.symm), hdead⟩
          · exact ⟨e, ((hfind _).trans (if_neg hkey)).trans he, hl, hle⟩
    | _ => exact absurd rfl hlocal

theorem knows_of_datagram {httparse : List UInt8 → Nat → Outcome} {A : Announcement → Prop}
    {deadline : Instant} (hA : Coherent A) {cp cp' : ControlPoint M} {now : Instant}
    {source : SocketAddr} {payload : List UInt8} {a : Announcement}
    (hop : (CpOp.handleDatagram now source payload).Hears httparse A deadline)
    (ha : PayloadAnnounces httparse payload a) (h : cp.Holds A)
    (hs : (CpOp.handleDatagram now source payload).step httparse cp = some cp') :
    cp'.Knows deadline a := by
  obtain ⟨m, hm, hann⟩ := ha
  obtain ⟨hA', hdead⟩ := (hop m hm).1 a hann
  obtain ⟨l, hl, hfind⟩ := h.find_announced hM hA hA' (announced_of_datagram ⟨m, hm, hann⟩ hs)
  exact ⟨_, (hfind _).trans (if_pos rfl), hl, hdead⟩

end Laws
end ControlPoint

end RustyCastle.Ssdp
