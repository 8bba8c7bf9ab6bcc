import RustyCastle.Ssdp.Parse

/-!
Parsed messages are well formed. Each header loop keeps the well-formedness of
its accumulator, one arm at a time.
-/

namespace RustyCastle.Ssdp
open Foundation Foundation.HeaderBlock

private theorem forall_mem_some {α : Type} {P : α → Prop} {a : α} (h : P a) : ∀ v ∈ some a, P v := by
  rintro v ⟨⟩
  exact h

private theorem forall_mem_none {α : Type} {P : α → Prop} : ∀ v ∈ (none : Option α), P v := by
  rintro v ⟨⟩

/-! M-SEARCH -/

structure MSearchAcc.WellFormed (acc : MSearchAcc) : Prop where
  host : ∀ v ∈ acc.host, FieldText v
  st : ∀ t ∈ acc.st, t.WellFormed
  mxVal : ∀ n ∈ acc.mxVal, mxMin ≤ n ∧ n ≤ mxMax
  userAgent : ∀ v ∈ acc.userAgent, FieldText v
  cpfn : ∀ v ∈ acc.cpfn, FieldText v
  cpuuid : ∀ v ∈ acc.cpuuid, FieldText v

theorem MSearchAcc.wellFormed_empty : MSearchAcc.WellFormed {} :=
  ⟨forall_mem_none, forall_mem_none, forall_mem_none, forall_mem_none, forall_mem_none,
    forall_mem_none⟩

theorem msearchArms_wellFormed : ∀ arm ∈ msearchArms, ∀ val acc acc', FieldText val →
    MSearchAcc.WellFormed acc → arm.2 val acc = .ok acc' → acc'.WellFormed := by
  simp only [msearchArms, List.forall_mem_cons]
  refine ⟨?_, ?_, ?_, ?_, ?_, ?_, ?_, ?_, by simp⟩
  · rintro val acc _ hv hw ⟨⟩
    exact { hw with host := forall_mem_some hv }
  · intro val acc acc' hv hw h
    obtain ⟨t, ht, ⟨⟩⟩ := bind_eq_ok.mp h
    exact { hw with st := forall_mem_some (TargetRef.wellFormed_of_parse hv ht) }
  · intro val acc acc' hv hw h
    obtain ⟨_, -, ⟨⟩⟩ := bind_eq_ok.mp h
    exact { hw with }
  · intro val acc acc' hv hw h
    obtain ⟨n, hn, ⟨⟩⟩ := bind_eq_ok.mp h
    exact { hw with mxVal := forall_mem_some (Mx.range_of_parse hn) }
  · rintro val acc _ hv hw ⟨⟩
    exact { hw with userAgent := forall_mem_some hv }
  · rintro val acc _ hv hw ⟨⟩
    exact { hw with cpfn := forall_mem_some hv }
  · rintro val acc _ hv hw ⟨⟩
    exact { hw with cpuuid := forall_mem_some hv }
  · intro val acc acc' hv hw h
    obtain ⟨p, -, ⟨⟩⟩ := bind_eq_ok.mp h
    exact { hw with }

theorem MSearchAcc.wellFormed_of_finish {acc : MSearchAcc} {m : MSearchRef}
    (hw : acc.WellFormed) (h : acc.finish = .ok m) : m.WellFormed := by
  unfold finish at h
  split at h
  · cases h
  · simp only [bind_eq_ok, okOr_eq_ok] at h
    obtain ⟨host, hhost, st, hst, mx, hmx, ⟨⟩⟩ := h
    exact {
      host := hw.host host hhost
      st := hw.st st hst
      mx := hw.mxVal mx hmx
      userAgent := hw.userAgent
      cpfn := hw.cpfn
      cpuuid := hw.cpuuid }

/-! NOTIFY -/

structure NotifyAcc.WellFormed (acc : NotifyAcc) : Prop where
  host : ∀ v ∈ acc.host, FieldText v
  nt : ∀ t ∈ acc.nt, t.WellFormed
  usn : ∀ u ∈ acc.usn, u.WellFormed
  location : ∀ v ∈ acc.location, LocationText v
  maxAge : ∀ d ∈ acc.maxAge, WholeSecs d
  server : ∀ v ∈ acc.server, FieldText v
  searchport : ∀ p ∈ acc.searchport, p ≠ 0

theorem NotifyAcc.wellFormed_empty : NotifyAcc.WellFormed {} :=
  ⟨forall_mem_none, forall_mem_none, forall_mem_none, forall_mem_none, forall_mem_none,
    forall_mem_none, forall_mem_none⟩

theorem notifyArms_wellFormed : ∀ arm ∈ notifyArms, ∀ val acc acc', FieldText val →
    NotifyAcc.WellFormed acc → arm.2 val acc = .ok acc' → acc'.WellFormed := by
  simp only [notifyArms, List.forall_mem_cons]
  refine ⟨?_, ?_, ?_, ?_, ?_, ?_, ?_, ?_, ?_, ?_, ?_, by simp⟩
  · rintro val acc _ hv hw ⟨⟩
    exact { hw with host := forall_mem_some hv }
  · intro val acc acc' hv hw h
    obtain ⟨t, ht, ⟨⟩⟩ := bind_eq_ok.mp h
    exact { hw with nt := forall_mem_some (TargetRef.wellFormed_of_parse hv ht) }
  · intro val acc acc' hv hw h
    obtain ⟨n, -, ⟨⟩⟩ := bind_eq_ok.mp h
    exact { hw with }
  · intro val acc acc' hv hw h
    obtain ⟨u, hu, ⟨⟩⟩ := bind_eq_ok.mp h
    exact { hw with usn := forall_mem_some (UsnRef.wellFormed_of_parse hv hu) }
  · intro val acc acc' hv hw h
    split at h
    · cases h
    · rename_i hvalid
      cases h
      exact { hw with location :=
        forall_mem_some ⟨by simpa using hvalid, Str.trimmed_trim val⟩ }
  · intro val acc acc' hv hw h
    obtain ⟨d, hd, ⟨⟩⟩ := bind_eq_ok.mp h
    exact { hw with maxAge := forall_mem_some (fromSecs_of_parseMaxAge hd) }
  · rintro val acc _ hv hw ⟨⟩
    exact { hw with server := forall_mem_some hv }
  · intro val acc acc' hv hw h
    obtain ⟨n, -, ⟨⟩⟩ := bind_eq_ok.mp h
    exact { hw with }
  · intro val acc acc' hv hw h
    obtain ⟨n, -, ⟨⟩⟩ := bind_eq_ok.mp h
    exact { hw with }
  · intro val acc acc' hv hw h
    obtain ⟨n, -, ⟨⟩⟩ := bind_eq_ok.mp h
    exact { hw with }
  · intro val acc acc' hv hw h
    obtain ⟨p, hp, ⟨⟩⟩ := bind_eq_ok.mp h
    exact { hw with searchport := forall_mem_some (ne_zero_of_parseSearchport hp) }

theorem requiredUnlessByeBye_eq_ok {α : Type} {nts : Nts} {name : String} {o o' : Option α}
    (h : requiredUnlessByeBye nts name o = .ok o') :
    o' = o ∧ (nts ≠ .byeBye → o'.isSome) := by
  cases nts with
  | byeBye =>
      cases h
      exact ⟨rfl, fun hn => absurd rfl hn⟩
  | alive =>
      cases o with
      | none => cases h
      | some a =>
          cases h
          exact ⟨rfl, fun _ => rfl⟩
  | update =>
      cases o with
      | none => cases h
      | some a =>
          cases h
          exact ⟨rfl, fun _ => rfl⟩

theorem NotifyAcc.wellFormed_of_finish {acc : NotifyAcc} {m : NotifyRef}
    (hw : acc.WellFormed) (h : acc.finish = .ok m) : m.WellFormed := by
  simp only [finish, bind_eq_ok, okOr_eq_ok] at h
  obtain ⟨nts, -, loc, hloc, age, hage, host, hhost, nt, hnt, usn, husn, ⟨⟩⟩ := h
  obtain ⟨rfl, hlocSome⟩ := requiredUnlessByeBye_eq_ok hloc
  obtain ⟨rfl, hageSome⟩ := requiredUnlessByeBye_eq_ok hage
  exact {
    host := hw.host host hhost
    nt := hw.nt nt hnt
    usn := hw.usn usn husn
    location := hw.location
    maxAge := hw.maxAge
    server := hw.server
    searchport := hw.searchport
    advertises := fun hn => ⟨hlocSome hn, hageSome hn⟩ }

/-! Search responses -/

structure ResponseAcc.WellFormed (acc : ResponseAcc) : Prop where
  st : ∀ t ∈ acc.st, t.WellFormed
  usn : ∀ u ∈ acc.usn, u.WellFormed
  location : ∀ v ∈ acc.location, LocationText v
  maxAge : ∀ d ∈ acc.maxAge, WholeSecs d
  server : ∀ v ∈ acc.server, FieldText v
  searchportVal : ∀ p ∈ acc.searchportVal, p ≠ 0

theorem ResponseAcc.wellFormed_empty : ResponseAcc.WellFormed {} :=
  ⟨forall_mem_none, forall_mem_none, forall_mem_none, forall_mem_none, forall_mem_none,
    forall_mem_none⟩

theorem responseArms_wellFormed : ∀ arm ∈ responseArms, ∀ val acc acc', FieldText val →
    ResponseAcc.WellFormed acc → arm.2 val acc = .ok acc' → acc'.WellFormed := by
  simp only [responseArms, List.forall_mem_cons]
  refine ⟨?_, ?_, ?_, ?_, ?_, ?_, ?_, ?_, by simp⟩
  · intro val acc acc' hv hw h
    obtain ⟨t, ht, ⟨⟩⟩ := bind_eq_ok.mp h
    exact { hw with st := forall_mem_some (TargetRef.wellFormed_of_parse hv ht) }
  · intro val acc acc' hv hw h
    obtain ⟨u, hu, ⟨⟩⟩ := bind_eq_ok.mp h
    exact { hw with usn := forall_mem_some (UsnRef.wellFormed_of_parse hv hu) }
  · intro val acc acc' hv hw h
    split at h
    · cases h
    · rename_i hvalid
      cases h
      exact { hw with location :=
        forall_mem_some ⟨by simpa using hvalid, Str.trimmed_trim val⟩ }
  · intro val acc acc' hv hw h
    obtain ⟨d, hd, ⟨⟩⟩ := bind_eq_ok.mp h
    exact { hw with maxAge := forall_mem_some (fromSecs_of_parseMaxAge hd) }
  · rintro val acc _ hv hw ⟨⟩
    exact { hw with server := forall_mem_some hv }
  · intro val acc acc' hv hw h
    obtain ⟨n, -, ⟨⟩⟩ := bind_eq_ok.mp h
    exact { hw with }
  · intro val acc acc' hv hw h
    obtain ⟨n, -, ⟨⟩⟩ := bind_eq_ok.mp h
    exact { hw with }
  · intro val acc acc' hv hw h
    obtain ⟨p, hp, ⟨⟩⟩ := bind_eq_ok.mp h
    exact { hw with searchportVal := forall_mem_some (ne_zero_of_parseSearchport hp) }

theorem ResponseAcc.wellFormed_of_finish {acc : ResponseAcc} {m : SearchResponseRef}
    (hw : acc.WellFormed) (h : acc.finish = .ok m) : m.WellFormed := by
  simp only [finish, bind_eq_ok, okOr_eq_ok] at h
  obtain ⟨st, hst, usn, husn, loc, hloc, age, hage, ⟨⟩⟩ := h
  exact {
    st := hw.st st hst
    usn := hw.usn usn husn
    location := hw.location loc hloc
    maxAge := hw.maxAge age hage
    server := hw.server
    searchport := hw.searchportVal }

/-! Datagrams -/

section
variable {httparse : List UInt8 → Nat → Outcome}

theorem parseRaw_eq_ok {buf : List UInt8} {headers : List Header} {offset : Nat}
    (h : parseRaw httparse buf = .ok (headers, offset)) :
    httparse buf maxHeaders = .complete offset headers := by
  unfold parseRaw at h
  split at h
  · rename_i hc
    cases h
    exact hc
  · cases h
  · cases h

theorem wellFormed_of_loop {α β : Type} (hp : SplitsBlock httparse) {arms : List (Arm α)}
    {P : α → Prop} {Q : β → Prop} {finish : α → Except ParseError β} {init : α}
    (harm : ∀ arm ∈ arms, ∀ val acc acc', FieldText val → P acc → arm.2 val acc = .ok acc' →
      P acc')
    (hinit : P init) (hfinish : ∀ acc m, P acc → finish acc = .ok m → Q m)
    {buf : List UInt8} {m : β}
    (h : (do
      let (headers, _) ← parseRaw httparse buf
      let acc ← headerLoop arms headers init
      finish acc) = .ok m) : Q m := by
  obtain ⟨⟨headers, offset⟩, hraw, h⟩ := bind_eq_ok.mp h
  obtain ⟨acc, hloop, h⟩ := bind_eq_ok.mp h
  have hw := (hp.headers_wellFormed (parseRaw_eq_ok hraw)).2
  exact hfinish acc m (headerLoop_invariant harm hw hinit hloop) h

/-- Every parsed message is well formed. -/
theorem wellFormed_of_parseDatagram (hp : SplitsBlock httparse) {buf : List UInt8}
    {m : MessageRef} (h : parseDatagram httparse buf = .ok m) : m.WellFormed := by
  unfold parseDatagram at h
  split at h
  · cases h
  · obtain ⟨⟨kind, rest⟩, -, h⟩ := bind_eq_ok.mp h
    cases kind with
    | mSearch =>
        obtain ⟨msg, hmsg, ⟨⟩⟩ := bind_eq_ok.mp h
        exact wellFormed_of_loop hp msearchArms_wellFormed MSearchAcc.wellFormed_empty
          (fun _ _ => MSearchAcc.wellFormed_of_finish) hmsg
    | notify =>
        obtain ⟨msg, hmsg, ⟨⟩⟩ := bind_eq_ok.mp h
        exact wellFormed_of_loop hp notifyArms_wellFormed NotifyAcc.wellFormed_empty
          (fun _ _ => NotifyAcc.wellFormed_of_finish) hmsg
    | response200 =>
        obtain ⟨msg, hmsg, ⟨⟩⟩ := bind_eq_ok.mp h
        exact wellFormed_of_loop hp responseArms_wellFormed ResponseAcc.wellFormed_empty
          (fun _ _ => ResponseAcc.wellFormed_of_finish) hmsg

end
end RustyCastle.Ssdp
