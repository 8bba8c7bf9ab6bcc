import RustyCastle.Server.Mp4

/-!
Which files the duration search can read. Every read but that of a large size is
covered by a check against the end of the box, so the search fails exactly on a
header whose large size is cut off by the end of the file.
-/

namespace RustyCastle.Server
open Foundation

variable {file : File} {start stop : Nat}

theorem slice_header {bytes : List UInt8} : slice (bytes.take 8) 0 4 = bytes.take 4 := by
  simp [slice, List.take_take]

theorem boxSize_of_complete (hlen : start + 8 ≤ file.bytes.length)
    (h : ¬ TruncatedHeader file start) :
    ∃ r, boxSize file (sizeField file start) start stop = .ok r := by
  by_cases h1 : sizeField file start = 1
  · have hlarge : start + 8 + 8 ≤ file.bytes.length := by
      by_contra hlt
      exact h ⟨h1, by omega⟩
    rw [h1]
    exact ⟨_, by rw [boxSize, readExact_ok hlarge]; rfl⟩
  · unfold boxSize
    split
    · exact ⟨_, rfl⟩
    · contradiction
    · exact ⟨_, rfl⟩

theorem boxAt_of_complete (hlen : start + 8 ≤ file.bytes.length) (h : ¬ TruncatedHeader file start) :
    ∃ box, boxAt file start stop = .ok box := by
  obtain ⟨r, hr⟩ : ∃ r, boxSize file (sizeField file start) start stop = .ok r :=
    boxSize_of_complete hlen h
  rw [sizeField] at hr
  simp only [boxAt, readExact_ok hlen, slice_header, hr]
  by_cases hsize : headerLen r.2 ≤ r.1 ∧ start + r.1 ≤ stop
  · exact ⟨_, dif_pos hsize⟩
  · exact ⟨_, dif_neg hsize⟩

theorem boxAt_of_truncated (hlen : start + 8 ≤ file.bytes.length) (h : TruncatedHeader file start) :
    boxAt file start stop = .error unexpectedEof := by
  obtain ⟨h1, hlt⟩ := h
  have hsize : boxSize file (sizeField file start) start stop = .error unexpectedEof := by
    rw [h1, boxSize, readExact_error (by omega)]
    rfl
  rw [sizeField] at hsize
  simp only [boxAt, readExact_ok hlen, slice_header, hsize]
  rfl

/-- The fields of a movie header are inside its box, and the box is inside the file. -/
theorem readMvhd_ok (hstop : stop ≤ file.bytes.length) :
    ∃ r, readMvhd file start stop = .ok r ∧ r.isSome = holdsMovieHeader file start stop := by
  by_cases hshort : stop - start < 20
  · refine ⟨none, by rw [readMvhd, if_pos hshort], ?_⟩
    have h20 : ¬ 20 ≤ stop - start := by omega
    have h32 : ¬ 32 ≤ stop - start := by omega
    simp [holdsMovieHeader, h20, h32]
  · have hversion : ((file.bytes.drop start).take 4).headD 0 = (file.bytes.drop start).headD 0 := by
      cases file.bytes.drop start <;> rfl
    have h20 : 20 ≤ stop - start := by omega
    rw [readMvhd, if_neg hshort, readExact_ok (by omega)]
    simp only [bind, Except.bind, hversion, holdsMovieHeader]
    generalize (file.bytes.drop start).headD 0 = version
    split
    · rw [readExact_ok (by omega)]
      exact ⟨_, rfl, by simp [h20]⟩
    · split
      · refine ⟨_, rfl, ?_⟩
        simp
        omega
      · rw [readExact_ok (by omega)]
        refine ⟨_, rfl, ?_⟩
        simp
        omega
    · refine ⟨_, rfl, ?_⟩
      simp_all

theorem mem_headersRead (h : start + 8 ≤ stop) : start ∈ (headersRead file start stop).1 := by
  rw [headersRead, if_pos h]
  split
  · exact List.mem_singleton_self start
  · split
    · exact List.mem_singleton_self start
    · split
      · dsimp only
        split <;> simp
      · simp

/-! The search -/

/-- A search fails on a truncated header, and otherwise gives a value where the
headers it reads announce one. -/
def Agrees (file : File) (found : Except IoError (Option (UInt32 × UInt64)))
    (headers : List Nat × Bool) : Prop :=
  ((∃ pos ∈ headers.1, TruncatedHeader file pos) → found = .error unexpectedEof) ∧
    ((∀ pos ∈ headers.1, ¬ TruncatedHeader file pos) → ∃ r, found = .ok r ∧ r.isSome = headers.2)

theorem Agrees.ok {found : Except IoError (Option (UInt32 × UInt64))} {headers : List Nat × Bool}
    (h : ∀ pos ∈ headers.1, ¬ TruncatedHeader file pos)
    (hfound : ∃ r, found = .ok r ∧ r.isSome = headers.2) : Agrees file found headers :=
  ⟨fun ⟨pos, hpos, ht⟩ => absurd ht (h pos hpos), fun _ => hfound⟩

/-- A header that is not truncated changes nothing. -/
theorem Agrees.cons {found : Except IoError (Option (UInt32 × UInt64))} {headers : List Nat} {b : Bool}
    {pos : Nat} (hpos : ¬ TruncatedHeader file pos) (h : Agrees file found (headers, b)) :
    Agrees file found (pos :: headers, b) := by
  refine ⟨fun ⟨p, hp, ht⟩ => ?_, fun hall => h.2 fun p hp => hall p (List.mem_cons_of_mem pos hp)⟩
  rcases List.mem_cons.mp hp with rfl | hp
  · exact absurd ht hpos
  · exact h.1 ⟨p, hp, ht⟩

theorem not_truncated_of_boxAt {box : Mp4Box start stop} (hlen : start + 8 ≤ file.bytes.length)
    (h : boxAt file start stop = .ok (some box)) : ¬ TruncatedHeader file start := fun ht => by
  rw [boxAt_of_truncated hlen ht] at h
  cases h

theorem boxAt_of_join {box : Mp4Box start stop}
    (h : (boxAt file start stop).toOption.join = some box) :
    boxAt file start stop = .ok (some box) := by
  cases hb : boxAt file start stop with
  | error e =>
      rw [hb] at h
      cases h
  | ok r =>
      rw [hb] at h
      exact congrArg Except.ok h

theorem findMp4Mvhd_agrees (hstop : stop ≤ file.bytes.length) :
    Agrees file (findMp4Mvhd file start stop) (headersRead file start stop) := by
  fun_induction headersRead file start stop with
  | case1 start stop hle hnone =>
      have hlen : start + 8 ≤ file.bytes.length := by omega
      rw [findMp4Mvhd, if_pos hle]
      by_cases ht : TruncatedHeader file start
      · rw [boxAt_of_truncated hlen ht]
        exact ⟨fun _ => rfl, fun hall => absurd ht (hall start (by simp))⟩
      · obtain ⟨box, hbox⟩ : ∃ box, boxAt file start stop = .ok box := boxAt_of_complete hlen ht
        rw [hbox] at hnone ⊢
        obtain rfl : box = none := hnone
        exact .ok (by simpa using ht) ⟨none, rfl, rfl⟩
  | case2 start stop hle box hjoin hmvhd =>
      have hbox := boxAt_of_join hjoin
      have ht := not_truncated_of_boxAt (by omega) hbox
      rw [findMp4Mvhd, if_pos hle, hbox]
      dsimp only
      rw [if_pos hmvhd]
      exact .ok (by simpa using ht) (readMvhd_ok (box.payloadEnd_le.trans hstop))
  | case3 start stop hle box hjoin hmvhd hmoov inner hinner ih =>
      have hbox := boxAt_of_join hjoin
      have ht := not_truncated_of_boxAt (by omega) hbox
      rw [findMp4Mvhd, if_pos hle, hbox]
      dsimp only
      rw [if_neg hmvhd, if_pos hmoov]
      refine .cons ht ?_
      obtain ⟨herror, hok⟩ := ih (box.payloadEnd_le.trans hstop)
      constructor
      · intro h
        rw [herror h]
      · intro h
        obtain ⟨r, hr, hsome⟩ := hok h
        obtain ⟨duration, rfl⟩ := Option.isSome_iff_exists.mp (hsome.trans hinner)
        rw [hr]
        exact ⟨_, rfl, rfl⟩
  | case4 start stop hle box hjoin hmvhd hmoov inner hinner rest ihInner ihRest =>
      have hbox := boxAt_of_join hjoin
      have ht := not_truncated_of_boxAt (by omega) hbox
      rw [findMp4Mvhd, if_pos hle, hbox]
      dsimp only
      rw [if_neg hmvhd, if_pos hmoov]
      refine .cons ht ?_
      obtain ⟨herror, hok⟩ := ihInner (box.payloadEnd_le.trans hstop)
      have hnone : (∀ pos ∈ inner.1, ¬ TruncatedHeader file pos) →
          findMp4Mvhd file box.payloadStart box.payloadEnd = .ok none := by
        intro h
        obtain ⟨r, hr, hsome⟩ := hok h
        obtain rfl := Option.not_isSome_iff_eq_none.mp (by rw [hsome]; exact hinner)
        exact hr
      by_cases hcut : ∃ pos ∈ inner.1, TruncatedHeader file pos
      · obtain ⟨pos, hpos, htrunc⟩ := hcut
        rw [herror ⟨pos, hpos, htrunc⟩]
        exact ⟨fun _ => rfl,
          fun hall => absurd htrunc (hall pos (List.mem_append_left _ hpos))⟩
      · have hall : ∀ pos ∈ inner.1, ¬ TruncatedHeader file pos := fun pos hpos h =>
          hcut ⟨pos, hpos, h⟩
        rw [hnone hall]
        obtain ⟨herror, hok⟩ := ihRest hstop
        refine ⟨fun ⟨pos, hpos, h⟩ => ?_,
          fun h => hok fun pos hpos => h pos (List.mem_append_right _ hpos)⟩
        rcases List.mem_append.mp hpos with hpos | hpos
        · exact absurd h (hall pos hpos)
        · exact herror ⟨pos, hpos, h⟩
  | case5 start stop hle box hjoin hmvhd hmoov rest ih =>
      have hbox := boxAt_of_join hjoin
      have ht := not_truncated_of_boxAt (by omega) hbox
      rw [findMp4Mvhd, if_pos hle, hbox]
      dsimp only
      rw [if_neg hmvhd, if_neg hmoov]
      exact .cons ht (ih hstop)
  | case6 start stop hle =>
      rw [findMp4Mvhd, if_neg hle]
      exact .ok nofun ⟨none, rfl, rfl⟩

theorem fileDuration_of_complete (h : HeadersComplete file) :
    ∃ duration, fileDuration file = .ok duration := by
  obtain ⟨r, hr, -⟩ := (findMp4Mvhd_agrees (Nat.le_refl _)).2 h
  rw [fileDuration, hr]
  cases r with
  | none => exact ⟨none, rfl⟩
  | some found =>
      by_cases h0 : found.1 = 0
      · exact ⟨none, if_pos h0⟩
      · exact ⟨_, if_neg h0⟩

theorem fileDuration_of_incomplete (h : ¬ HeadersComplete file) :
    fileDuration file = .error unexpectedEof := by
  rw [HeadersComplete, not_forall] at h
  obtain ⟨pos, hpos⟩ := h
  rw [Classical.not_imp, not_not] at hpos
  rw [fileDuration, (findMp4Mvhd_agrees (Nat.le_refl _)).1 ⟨pos, hpos⟩]
  rfl

end RustyCastle.Server
