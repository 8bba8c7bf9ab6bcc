import RustyCastle.Foundation.Bounded
import RustyCastle.Foundation.FiniteMap
import RustyCastle.Ssdp.Basic

/-!
The cache of discovered services. The hash map of the collections library is a
parameter, `MapOps`, with the laws of `LawfulMap`; each cache operation has one
equation for the lookup of a key.
-/

namespace RustyCastle.Ssdp
open Foundation

structure CacheEntry (loc usn : Nat) where
  location : BoundedStr loc
  usn : BoundedStr usn
  expiresAt : Instant
  deriving DecidableEq

/-- `ServiceCache<CAP, LOC, USN>`; `entries` is the map from USN strings. -/
structure ServiceCache (cap loc usn : Nat) (M : Type) where
  entries : M

namespace ServiceCache
variable {cap loc usn : Nat} {M : Type} [MapOps (BoundedStr usn) (CacheEntry loc usn) M]

def new : ServiceCache cap loc usn M := ⟨MapOps.empty⟩

/-- Inserts or refreshes an entry. The result is `none` where the expiry time overflows;
the flag is `false` where a string is too long or the cache is full. -/
def insert (c : ServiceCache cap loc usn M) (usnStr locationStr : Str) (maxAge : Duration)
    (now : Instant) : Option (Bool × ServiceCache cap loc usn M) :=
  match (BoundedStr.tryFrom usnStr : Option (BoundedStr usn)) with
  | none => some (false, c)
  | some usnKey =>
      match (BoundedStr.tryFrom locationStr : Option (BoundedStr loc)) with
      | none => some (false, c)
      | some location =>
          match (BoundedStr.tryFrom usnStr : Option (BoundedStr usn)) with
          | none => some (false, c)
          | some usnCopy =>
              match now.add maxAge with
              | none => none
              | some expiresAt =>
                  match MapOps.insert c.entries usnKey ⟨location, usnCopy, expiresAt⟩ with
                  | some m => some (true, ⟨m⟩)
                  | none => some (false, c)

/-- Removes an entry by USN. -/
def remove (c : ServiceCache cap loc usn M) (usnStr : Str) : Bool × ServiceCache cap loc usn M :=
  match (BoundedStr.tryFrom usnStr : Option (BoundedStr usn)) with
  | none => (false, c)
  | some key =>
      match MapOps.remove c.entries key with
      | some (_, m) => (true, ⟨m⟩)
      | none => (false, c)

def get (c : ServiceCache cap loc usn M) (usnStr : Str) : Option (CacheEntry loc usn) :=
  (BoundedStr.tryFrom usnStr : Option (BoundedStr usn)).bind (MapOps.get c.entries)

/-- The keys that `expire` collects. -/
def toRemove (c : ServiceCache cap loc usn M) (now : Instant) : BoundedVec (BoundedStr usn) cap :=
  (MapOps.entries c.entries).foldl
    (fun v (k, e) => if e.expiresAt ≤ now then v.pushOrDrop k else v) .empty

def expireStep {σ : Type} (onExpired : Str → σ → σ) (s : ServiceCache cap loc usn M × σ)
    (k : BoundedStr usn) : ServiceCache cap loc usn M × σ :=
  match MapOps.remove s.1.entries k with
  | some (_, m) => (⟨m⟩, onExpired k.toStr s.2)
  | none => (s.1, onExpired k.toStr s.2)

/-- Removes the entries that expire by `now` and calls `onExpired` for each. -/
def expire {σ : Type} (c : ServiceCache cap loc usn M) (now : Instant)
    (onExpired : Str → σ → σ) (s : σ) : ServiceCache cap loc usn M × σ :=
  (c.toRemove now).toList.foldl (expireStep onExpired) (c, s)

def len (c : ServiceCache cap loc usn M) : Nat := (MapOps.entries c.entries).length

def isEmpty (c : ServiceCache cap loc usn M) : Bool := (MapOps.entries c.entries).isEmpty

def nextExpiry (c : ServiceCache cap loc usn M) : Option Instant :=
  ((MapOps.entries c.entries).map fun e => e.2.expiresAt).min?

/-- The entry of a key that is already a bounded string. -/
abbrev find (c : ServiceCache cap loc usn M) (k : BoundedStr usn) : Option (CacheEntry loc usn) :=
  MapOps.get c.entries k

/-- `insert` stores an entry for this key and location. -/
def Accepts (c : ServiceCache cap loc usn M) (k : BoundedStr usn) (locationStr : Str) : Prop :=
  locationStr.bytes.length ≤ loc ∧ ((c.find k).isSome ∨ c.len < cap)

instance (c : ServiceCache cap loc usn M) (k : BoundedStr usn) (l : Str) :
    Decidable (c.Accepts k l) := inferInstanceAs (Decidable (_ ∧ _))

section Laws
variable (hM : LawfulMap M cap)
include hM

theorem find_new (k : BoundedStr usn) : (new : ServiceCache cap loc usn M).find k = none :=
  hM.get_empty k

/-- An insertion that returns stores the entry where the cache accepts it, and
leaves the cache alone elsewhere. -/
theorem insert_eq_some {c c' : ServiceCache cap loc usn M} {k : BoundedStr usn}
    {locationStr : Str} {maxAge : Duration} {now : Instant} {b : Bool}
    (h : c.insert k.toStr locationStr maxAge now = some (b, c')) :
    (c.Accepts k locationStr ∧ ∃ l : BoundedStr loc, l.toStr = locationStr ∧
        ∀ k', c'.find k' = if k' = k then some ⟨l, k, now + maxAge⟩ else c.find k') ∨
      (¬ c.Accepts k locationStr ∧ c' = c) := by
  simp only [insert, BoundedStr.tryFrom_toStr] at h
  cases hl : (BoundedStr.tryFrom locationStr : Option (BoundedStr loc)) with
  | none =>
      rw [hl] at h
      obtain ⟨-, rfl⟩ := Prod.mk.inj (Option.some.inj h)
      have := BoundedStr.tryFrom_eq_none.mp hl
      exact .inr ⟨fun ha => absurd ha.1 (by omega), rfl⟩
  | some l =>
      have hl' := BoundedStr.tryFrom_eq_some.mp hl
      have hsize : locationStr.bytes.length ≤ loc := hl' ▸ l.size_le
      simp only [hl] at h
      cases hadd : now.add maxAge with
      | none => simp [hadd] at h
      | some t =>
          obtain rfl := Instant.add_eq_some hadd
          simp only [hadd] at h
          have hroom := hM.insert_isSome c.entries k ⟨l, k, now + maxAge⟩
          cases hins : MapOps.insert c.entries k ⟨l, k, now + maxAge⟩ with
          | some m =>
              rw [hins] at h hroom
              obtain ⟨-, rfl⟩ := Prod.mk.inj (Option.some.inj h)
              exact .inl ⟨⟨hsize, hroom.mp rfl⟩, l, hl', fun k' => hM.get_insert hins k'⟩
          | none =>
              rw [hins] at h hroom
              obtain ⟨-, rfl⟩ := Prod.mk.inj (Option.some.inj h)
              exact .inr ⟨fun ha => absurd (hroom.mpr ha.2) (by simp), rfl⟩

theorem find_remove (c : ServiceCache cap loc usn M) (k k' : BoundedStr usn) :
    (c.remove k.toStr).2.find k' = if k' = k then none else c.find k' := by
  simp only [remove, BoundedStr.tryFrom_toStr]
  cases h : MapOps.remove c.entries k with
  | none =>
      have hnone := hM.remove_eq_none.mp h
      by_cases hk : k' = k
      · subst hk
        simpa using hnone
      · simp [hk]
  | some r => exact hM.get_remove h k'

omit hM in
theorem foldl_pushOrDrop {now : Instant} {l : List (BoundedStr usn × CacheEntry loc usn)}
    {v : BoundedVec (BoundedStr usn) cap} (h : v.toList.length + l.length ≤ cap) :
    (l.foldl (fun v (k, e) => if e.expiresAt ≤ now then v.pushOrDrop k else v) v).toList =
      v.toList ++ (l.filter fun e => e.2.expiresAt ≤ now).map Prod.fst := by
  induction l generalizing v with
  | nil => simp
  | cons e l ih =>
      rw [List.length_cons] at h
      by_cases he : e.2.expiresAt ≤ now
      · have hp := v.toList_pushOrDrop e.1
        rw [if_pos (by omega)] at hp
        rw [List.foldl_cons]
        simp only [he, if_true]
        rw [ih (by simp [hp]; omega), hp]
        simp [he]
      · rw [List.foldl_cons]
        simp only [he, if_false]
        rw [ih (by omega)]
        simp [he]

theorem toList_toRemove (c : ServiceCache cap loc usn M) (now : Instant) :
    (c.toRemove now).toList =
      ((MapOps.entries c.entries).filter fun e => e.2.expiresAt ≤ now).map Prod.fst := by
  have h := hM.length_le c.entries
  rw [toRemove, foldl_pushOrDrop (by simpa using h)]
  simp

theorem mem_toRemove {c : ServiceCache cap loc usn M} {now : Instant} {k : BoundedStr usn} :
    k ∈ (c.toRemove now).toList ↔ ∃ e, c.find k = some e ∧ e.expiresAt ≤ now := by
  rw [toList_toRemove hM]
  constructor
  · intro h
    obtain ⟨⟨_, e⟩, he, rfl⟩ := List.mem_map.mp h
    obtain ⟨hm, hle⟩ := List.mem_filter.mp he
    exact ⟨e, hM.get_eq_some.mpr hm, by simpa using hle⟩
  · rintro ⟨e, he, hle⟩
    exact List.mem_map.mpr ⟨(k, e), List.mem_filter.mpr ⟨hM.get_eq_some.mp he, by simpa using hle⟩,
      rfl⟩

theorem nodup_toRemove (c : ServiceCache cap loc usn M) (now : Instant) :
    (c.toRemove now).toList.Nodup := by
  rw [toList_toRemove hM]
  exact (hM.nodup c.entries).sublist (List.filter_sublist.map _)

theorem find_expireStep {σ : Type} (onExpired : Str → σ → σ) (s : ServiceCache cap loc usn M × σ)
    (k k' : BoundedStr usn) :
    (expireStep onExpired s k).1.find k' = if k' = k then none else s.1.find k' := by
  unfold expireStep
  split
  · rename_i m h
    exact hM.get_remove h k'
  · rename_i h
    have hnone := hM.remove_eq_none.mp h
    by_cases hk : k' = k
    · subst hk
      simpa using hnone
    · simp [hk]

omit hM in
theorem snd_expireStep {σ : Type} (onExpired : Str → σ → σ) (s : ServiceCache cap loc usn M × σ)
    (k : BoundedStr usn) : (expireStep onExpired s k).2 = onExpired k.toStr s.2 := by
  unfold expireStep
  split <;> rfl

theorem foldl_expireStep {σ : Type} (onExpired : Str → σ → σ) (ks : List (BoundedStr usn))
    (s : ServiceCache cap loc usn M × σ) :
    (∀ k, (ks.foldl (expireStep onExpired) s).1.find k = if k ∈ ks then none else s.1.find k) ∧
      (ks.foldl (expireStep onExpired) s).2 = ks.foldl (fun t k => onExpired k.toStr t) s.2 := by
  induction ks generalizing s with
  | nil => exact ⟨fun _ => rfl, rfl⟩
  | cons k ks ih =>
      obtain ⟨hf, hs⟩ := ih (expireStep onExpired s k)
      refine ⟨fun k' => ?_, ?_⟩
      · rw [List.foldl_cons, hf, find_expireStep hM]
        by_cases h₁ : k' ∈ ks <;> by_cases h₂ : k' = k <;> simp [h₁, h₂]
      · rw [List.foldl_cons, hs, snd_expireStep, List.foldl_cons]

theorem find_expire {σ : Type} (c : ServiceCache cap loc usn M) (now : Instant)
    (onExpired : Str → σ → σ) (s : σ) (k : BoundedStr usn) :
    (c.expire now onExpired s).1.find k = (c.find k).filter fun e => now < e.expiresAt := by
  rw [expire, (foldl_expireStep hM onExpired _ (c, s)).1 k]
  cases hc : c.find k with
  | none => simp
  | some e =>
      by_cases he : e.expiresAt ≤ now
      · have hm := (mem_toRemove hM).mpr ⟨e, hc, he⟩
        rw [if_pos hm, Option.filter_some_neg (by simpa using he)]
      · have hm : k ∉ (c.toRemove now).toList := by
          rw [mem_toRemove hM]
          rintro ⟨e', he', hle⟩
          rw [hc] at he'
          exact he (Option.some.inj he' ▸ hle)
        rw [if_neg hm, Option.filter_some_pos (by simpa using he)]

theorem snd_expire {σ : Type} (c : ServiceCache cap loc usn M) (now : Instant)
    (onExpired : Str → σ → σ) (s : σ) :
    (c.expire now onExpired s).2 =
      (c.toRemove now).toList.foldl (fun t k => onExpired k.toStr t) s :=
  (foldl_expireStep hM onExpired _ (c, s)).2

theorem nextExpiry_le {c : ServiceCache cap loc usn M} {k : BoundedStr usn}
    {e : CacheEntry loc usn} (h : c.find k = some e) :
    ∃ t, c.nextExpiry = some t ∧ t ≤ e.expiresAt := by
  have hm : e.expiresAt ∈ (MapOps.entries c.entries).map fun e => e.2.expiresAt :=
    List.mem_map.mpr ⟨(k, e), hM.get_eq_some.mp h, rfl⟩
  obtain ⟨t, ht⟩ := Option.isSome_iff_exists.mp
    (List.isSome_min?_iff.mpr (List.ne_nil_of_mem hm))
  exact ⟨t, ht, (List.min?_eq_some_iff.mp ht).2 _ hm⟩

theorem find_of_nextExpiry {c : ServiceCache cap loc usn M} {t : Instant}
    (h : c.nextExpiry = some t) : ∃ k e, c.find k = some e ∧ e.expiresAt = t := by
  obtain ⟨⟨k, e⟩, hm, rfl⟩ := List.mem_map.mp (List.min?_eq_some_iff.mp h).1
  exact ⟨k, e, hM.get_eq_some.mpr hm, rfl⟩

end Laws
end ServiceCache
end RustyCastle.Ssdp
