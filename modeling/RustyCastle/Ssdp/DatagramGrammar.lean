import RustyCastle.Ssdp.HeaderRules
import RustyCastle.Ssdp.RoundTrip

/-!
The grammar of datagrams: a first line that names the kind of message, and a
block of acceptable headers with those that the kind requires.
-/

namespace RustyCastle.Ssdp
open Foundation Foundation.HeaderBlock

/-! What the loops collect -/

/-- A value that is kept as it is. -/
def readText : Str → Except ParseError Str := .ok

def readTcpport (val : Str) : Except ParseError UInt16 :=
  okOr (parseU16Str val.trim) (.invalidHeaderValue "TCPPORT.UPNP.ORG")

def readLocation (val : Str) : Except ParseError Str :=
  if Uri.isValid val.trim = false then .error (.invalidHeaderValue "LOCATION") else .ok val.trim

theorem readText_ok_iff (v : Str) : (∃ x, readText v = .ok x) ↔ True :=
  iff_of_true ⟨v, rfl⟩ trivial

theorem readTcpport_ok_iff (v : Str) : (∃ p, readTcpport v = .ok p) ↔ NumberText 0 (2 ^ 16) v.trim := by
  simp only [readTcpport, okOr_eq_ok, parseU16Str_ok_iff]

theorem readLocation_ok_iff (v : Str) : (∃ l, readLocation v = .ok l) ↔ UriText v.trim := by
  rw [← Uri.isValid_iff, readLocation]
  cases Uri.isValid v.trim with
  | false => simp
  | true => simp

theorem readLocation_bind {α : Type} (val : Str) (f : Str → Except ParseError α) :
    (if Uri.isValid val.trim = false then .error (.invalidHeaderValue "LOCATION")
      else f val.trim) = (readLocation val >>= f) := by
  unfold readLocation
  split
  · rfl
  · rfl

/-! M-SEARCH -/

def msearchRules : List HeaderRule := [
  ⟨Name.host, fun _ => True⟩,
  ⟨Name.st, fun v => TargetText v.trim⟩,
  ⟨Name.man, fun v => v.trim = manDiscover⟩,
  ⟨Name.mx, fun v => NumberText 1 6 v.trim⟩,
  ⟨Name.userAgent, fun _ => True⟩,
  ⟨Name.cpfn, fun _ => True⟩,
  ⟨Name.cpuuid, fun _ => True⟩,
  ⟨Name.tcpport, fun v => NumberText 0 (2 ^ 16) v.trim⟩]

def MSearchAcc.collect (headers : List Header) : MSearchAcc where
  host := lastOf Name.host readText headers
  st := lastOf Name.st TargetRef.parse headers
  mxVal := lastOf Name.mx Mx.parse headers
  userAgent := lastOf Name.userAgent readText headers
  cpfn := lastOf Name.cpfn readText headers
  cpuuid := lastOf Name.cpuuid readText headers
  tcpport := lastOf Name.tcpport readTcpport headers
  sawMan := (lastOf Name.man Man.validate headers).isSome

theorem follows_msearch : Follows msearchArms msearchRules MSearchAcc.collect where
  arms := by
    refine .cons (armFollows_of_read readText (fun v acc => { acc with host := some v })
          (fun _ _ => rfl) readText_ok_iff ?_) <|
      .cons (armFollows_of_read TargetRef.parse (fun t acc => { acc with st := some t })
          (fun _ _ => rfl) (fun _ => TargetRef.parse_ok_iff) ?_) <|
      .cons (armFollows_of_read Man.validate (fun _ acc => { acc with sawMan := true })
          (fun _ _ => rfl) (fun _ => Man.validate_ok_iff) ?_) <|
      .cons (armFollows_of_read Mx.parse (fun n acc => { acc with mxVal := some n })
          (fun _ _ => rfl) (fun _ => Mx.parse_ok_iff) ?_) <|
      .cons (armFollows_of_read readText (fun v acc => { acc with userAgent := some v })
          (fun _ _ => rfl) readText_ok_iff ?_) <|
      .cons (armFollows_of_read readText (fun v acc => { acc with cpfn := some v })
          (fun _ _ => rfl) readText_ok_iff ?_) <|
      .cons (armFollows_of_read readText (fun v acc => { acc with cpuuid := some v })
          (fun _ _ => rfl) readText_ok_iff ?_) <|
      .cons (armFollows_of_read readTcpport (fun p acc => { acc with tcpport := some p })
          (fun _ _ => rfl) readTcpport_ok_iff ?_) .nil
    all_goals
      intro headers h x hname hx
      simp only [MSearchAcc.collect, lastOf_concat, headerEq_eq_decide hname, hx]
      rfl
  distinct := by decide
  other headers h hno := by
    simp only [msearchRules, List.forall_mem_cons] at hno
    simp only [MSearchAcc.collect, lastOf_concat, hno, Bool.false_eq_true, if_false]

/-! NOTIFY -/

def notifyRules : List HeaderRule := [
  ⟨Name.host, fun _ => True⟩,
  ⟨Name.nt, fun v => TargetText v.trim⟩,
  ⟨Name.nts, fun v => ∃ text ∈ ntsTexts, v.trim.eqIgnoreAsciiCase text = true⟩,
  ⟨Name.usn, fun v => UsnText v.trim⟩,
  ⟨Name.location, fun v => UriText v.trim⟩,
  ⟨Name.cacheControl, MaxAgeText⟩,
  ⟨Name.server, fun _ => True⟩,
  ⟨Name.bootid, fun v => NumberText 0 (2 ^ 32) v.trim⟩,
  ⟨Name.configid, fun v => NumberText 0 (2 ^ 32) v.trim⟩,
  ⟨Name.nextbootid, fun v => NumberText 0 (2 ^ 32) v.trim⟩,
  ⟨Name.searchport, fun v => NumberText 1 (2 ^ 16) v.trim⟩]

def NotifyAcc.collect (headers : List Header) : NotifyAcc where
  host := lastOf Name.host readText headers
  nt := lastOf Name.nt TargetRef.parse headers
  nts := lastOf Name.nts Nts.parse headers
  usn := lastOf Name.usn UsnRef.parse headers
  location := lastOf Name.location readLocation headers
  maxAge := lastOf Name.cacheControl parseMaxAge headers
  server := lastOf Name.server readText headers
  bootid := lastOf Name.bootid (parseU32 "BOOTID.UPNP.ORG") headers
  configid := lastOf Name.configid (parseU32 "CONFIGID.UPNP.ORG") headers
  nextbootid := lastOf Name.nextbootid (parseU32 "NEXTBOOTID.UPNP.ORG") headers
  searchport := lastOf Name.searchport parseSearchport headers

theorem follows_notify : Follows notifyArms notifyRules NotifyAcc.collect where
  arms := by
    refine .cons (armFollows_of_read readText (fun v acc => { acc with host := some v })
          (fun _ _ => rfl) readText_ok_iff ?_) <|
      .cons (armFollows_of_read TargetRef.parse (fun t acc => { acc with nt := some t })
          (fun _ _ => rfl) (fun _ => TargetRef.parse_ok_iff) ?_) <|
      .cons (armFollows_of_read Nts.parse (fun n acc => { acc with nts := some n })
          (fun _ _ => rfl) (fun _ => Nts.parse_ok_iff) ?_) <|
      .cons (armFollows_of_read UsnRef.parse (fun u acc => { acc with usn := some u })
          (fun _ _ => rfl) (fun _ => UsnRef.parse_ok_iff) ?_) <|
      .cons (armFollows_of_read readLocation (fun l acc => { acc with location := some l })
          (fun val acc => readLocation_bind val fun l => .ok { acc with location := some l }) readLocation_ok_iff ?_) <|
      .cons (armFollows_of_read parseMaxAge (fun d acc => { acc with maxAge := some d })
          (fun _ _ => rfl) (fun _ => parseMaxAge_ok_iff) ?_) <|
      .cons (armFollows_of_read readText (fun v acc => { acc with server := some v })
          (fun _ _ => rfl) readText_ok_iff ?_) <|
      .cons (armFollows_of_read (parseU32 "BOOTID.UPNP.ORG") (fun n acc => { acc with bootid := some n })
          (fun _ _ => rfl) (fun _ => parseU32_ok_iff _) ?_) <|
      .cons (armFollows_of_read (parseU32 "CONFIGID.UPNP.ORG") (fun n acc => { acc with configid := some n })
          (fun _ _ => rfl) (fun _ => parseU32_ok_iff _) ?_) <|
      .cons (armFollows_of_read (parseU32 "NEXTBOOTID.UPNP.ORG") (fun n acc => { acc with nextbootid := some n })
          (fun _ _ => rfl) (fun _ => parseU32_ok_iff _) ?_) <|
      .cons (armFollows_of_read parseSearchport (fun p acc => { acc with searchport := some p })
          (fun _ _ => rfl) (fun _ => parseSearchport_ok_iff) ?_) .nil
    all_goals
      intro headers h x hname hx
      simp only [NotifyAcc.collect, lastOf_concat, headerEq_eq_decide hname, hx]
      rfl
  distinct := by decide
  other headers h hno := by
    simp only [notifyRules, List.forall_mem_cons] at hno
    simp only [NotifyAcc.collect, lastOf_concat, hno, Bool.false_eq_true, if_false]

/-! Search responses -/

def responseRules : List HeaderRule := [
  ⟨Name.st, fun v => TargetText v.trim⟩,
  ⟨Name.usn, fun v => UsnText v.trim⟩,
  ⟨Name.location, fun v => UriText v.trim⟩,
  ⟨Name.cacheControl, MaxAgeText⟩,
  ⟨Name.server, fun _ => True⟩,
  ⟨Name.bootid, fun v => NumberText 0 (2 ^ 32) v.trim⟩,
  ⟨Name.configid, fun v => NumberText 0 (2 ^ 32) v.trim⟩,
  ⟨Name.searchport, fun v => NumberText 1 (2 ^ 16) v.trim⟩]

def ResponseAcc.collect (headers : List Header) : ResponseAcc where
  st := lastOf Name.st TargetRef.parse headers
  usn := lastOf Name.usn UsnRef.parse headers
  location := lastOf Name.location readLocation headers
  maxAge := lastOf Name.cacheControl parseMaxAge headers
  server := lastOf Name.server readText headers
  bootidVal := lastOf Name.bootid (parseU32 "BOOTID.UPNP.ORG") headers
  configidVal := lastOf Name.configid (parseU32 "CONFIGID.UPNP.ORG") headers
  searchportVal := lastOf Name.searchport parseSearchport headers

theorem follows_response : Follows responseArms responseRules ResponseAcc.collect where
  arms := by
    refine .cons (armFollows_of_read TargetRef.parse (fun t acc => { acc with st := some t })
          (fun _ _ => rfl) (fun _ => TargetRef.parse_ok_iff) ?_) <|
      .cons (armFollows_of_read UsnRef.parse (fun u acc => { acc with usn := some u })
          (fun _ _ => rfl) (fun _ => UsnRef.parse_ok_iff) ?_) <|
      .cons (armFollows_of_read readLocation (fun l acc => { acc with location := some l })
          (fun val acc => readLocation_bind val fun l => .ok { acc with location := some l }) readLocation_ok_iff ?_) <|
      .cons (armFollows_of_read parseMaxAge (fun d acc => { acc with maxAge := some d })
          (fun _ _ => rfl) (fun _ => parseMaxAge_ok_iff) ?_) <|
      .cons (armFollows_of_read readText (fun v acc => { acc with server := some v })
          (fun _ _ => rfl) readText_ok_iff ?_) <|
      .cons (armFollows_of_read (parseU32 "BOOTID.UPNP.ORG") (fun n acc => { acc with bootidVal := some n })
          (fun _ _ => rfl) (fun _ => parseU32_ok_iff _) ?_) <|
      .cons (armFollows_of_read (parseU32 "CONFIGID.UPNP.ORG") (fun n acc => { acc with configidVal := some n })
          (fun _ _ => rfl) (fun _ => parseU32_ok_iff _) ?_) <|
      .cons (armFollows_of_read parseSearchport (fun p acc => { acc with searchportVal := some p })
          (fun _ _ => rfl) (fun _ => parseSearchport_ok_iff) ?_) .nil
    all_goals
      intro headers h x hname hx
      simp only [ResponseAcc.collect, lastOf_concat, headerEq_eq_decide hname, hx]
      rfl
  distinct := by decide
  other headers h hno := by
    simp only [responseRules, List.forall_mem_cons] at hno
    simp only [ResponseAcc.collect, lastOf_concat, hno, Bool.false_eq_true, if_false]

/-! Required headers -/

/-- Every header is acceptable and the required ones are there. -/
def MSearchBlock (headers : List Header) : Prop :=
  (∀ h ∈ headers, Acceptable msearchRules h) ∧
    ∀ name ∈ [Name.host, Name.man, Name.mx, Name.st], Present name headers

/-- The location and the max-age may be left out by a notification whose last NTS
is `ssdp:byebye`. -/
def NotifyBlock (headers : List Header) : Prop :=
  (∀ h ∈ headers, Acceptable notifyRules h) ∧
    (∀ name ∈ [Name.host, Name.nt, Name.nts, Name.usn], Present name headers) ∧
    ((∃ v, LastValue Name.nts headers v ∧
        v.trim.eqIgnoreAsciiCase "ssdp:byebye".toList = true) ∨
      Present Name.location headers ∧ Present Name.cacheControl headers)

def ResponseBlock (headers : List Header) : Prop :=
  (∀ h ∈ headers, Acceptable responseRules h) ∧
    ∀ name ∈ [Name.st, Name.usn, Name.location, Name.cacheControl], Present name headers

theorem MSearchAcc.finish_ok_iff {acc : MSearchAcc} : (∃ m, acc.finish = .ok m) ↔
    (∃ x, acc.host = some x) ∧ acc.sawMan = true ∧ (∃ x, acc.mxVal = some x) ∧
      ∃ x, acc.st = some x := by
  unfold finish
  cases acc.sawMan with
  | false => simp
  | true =>
      simp only [Bool.true_eq_false, if_false, bind_eq_ok, okOr_eq_ok, true_and]
      constructor
      · rintro ⟨m, host, hhost, st, hst, mx, hmx, -⟩
        exact ⟨⟨host, hhost⟩, ⟨mx, hmx⟩, st, hst⟩
      · rintro ⟨⟨host, hhost⟩, ⟨mx, hmx⟩, st, hst⟩
        exact ⟨_, host, hhost, st, hst, mx, hmx, rfl⟩

theorem finish_msearch_iff {headers : List Header} (h : ∀ x ∈ headers, Acceptable msearchRules x) :
    (∃ m, (MSearchAcc.collect headers).finish = .ok m) ↔
      ∀ name ∈ [Name.host, Name.man, Name.mx, Name.st], Present name headers := by
  have hhost : (∃ x, (MSearchAcc.collect headers).host = some x) ↔ Present Name.host headers :=
    lastOf_isSome_iff (by simp [msearchRules]) readText_ok_iff h
  have hman : (MSearchAcc.collect headers).sawMan = true ↔ Present Name.man headers :=
    Option.isSome_iff_exists.trans
      (lastOf_isSome_iff (by simp [msearchRules]) (fun _ => Man.validate_ok_iff) h)
  have hmx : (∃ x, (MSearchAcc.collect headers).mxVal = some x) ↔ Present Name.mx headers :=
    lastOf_isSome_iff (by simp [msearchRules]) (fun _ => Mx.parse_ok_iff) h
  have hst : (∃ x, (MSearchAcc.collect headers).st = some x) ↔ Present Name.st headers :=
    lastOf_isSome_iff (by simp [msearchRules]) (fun _ => TargetRef.parse_ok_iff) h
  rw [MSearchAcc.finish_ok_iff, hhost, hman, hmx, hst]
  simp

theorem requiredUnlessByeBye_ok_iff {α : Type} {nts : Nts} {name : String} {o : Option α} :
    (∃ o', requiredUnlessByeBye nts name o = .ok o') ↔ nts = .byeBye ∨ ∃ a, o = some a := by
  cases nts with
  | byeBye => exact iff_of_true ⟨o, rfl⟩ (.inl rfl)
  | alive | update =>
      cases o with
      | none => exact iff_of_false (fun ⟨o', h⟩ => by cases h) (by simp)
      | some a => exact iff_of_true ⟨some a, rfl⟩ (.inr ⟨a, rfl⟩)

theorem NotifyAcc.finish_ok_iff {acc : NotifyAcc} : (∃ m, acc.finish = .ok m) ↔
    (∃ x, acc.host = some x) ∧ (∃ x, acc.nt = some x) ∧ (∃ x, acc.usn = some x) ∧
      ∃ nts, acc.nts = some nts ∧
        (nts = .byeBye ∨ (∃ x, acc.location = some x) ∧ ∃ x, acc.maxAge = some x) := by
  simp only [finish, bind_eq_ok, okOr_eq_ok]
  constructor
  · rintro ⟨m, nts, hnts, loc, hloc, age, hage, host, hhost, nt, hnt, usn, husn, -⟩
    have hloc := requiredUnlessByeBye_ok_iff.mp ⟨loc, hloc⟩
    have hage := requiredUnlessByeBye_ok_iff.mp ⟨age, hage⟩
    exact ⟨⟨host, hhost⟩, ⟨nt, hnt⟩, ⟨usn, husn⟩, nts, hnts, or_and_left.mpr ⟨hloc, hage⟩⟩
  · rintro ⟨⟨host, hhost⟩, ⟨nt, hnt⟩, ⟨usn, husn⟩, nts, hnts, hreq⟩
    obtain ⟨hloc, hage⟩ := or_and_left.mp hreq
    obtain ⟨loc, hloc⟩ := requiredUnlessByeBye_ok_iff.mpr hloc
    obtain ⟨age, hage⟩ := requiredUnlessByeBye_ok_iff.mpr hage
    exact ⟨_, nts, hnts, loc, hloc, age, hage, host, hhost, nt, hnt, usn, husn, rfl⟩

theorem Nts.parse_byeBye_iff {v : Str} :
    Nts.parse v = .ok .byeBye ↔ v.trim.eqIgnoreAsciiCase "ssdp:byebye".toList = true := by
  unfold Nts.parse
  dsimp only
  constructor
  · intro h
    split at h
    · cases h
    split at h
    · assumption
    split at h
    · cases h
    · cases h
  · intro h
    have halive : ¬ v.trim.eqIgnoreAsciiCase "ssdp:alive".toList = true := by
      intro ha
      have hlower := (beq_iff_eq.mp ha).symm.trans (beq_iff_eq.mp h)
      exact absurd hlower (by decide)
    rw [if_neg halive, if_pos h]

theorem finish_notify_iff {headers : List Header} (h : ∀ x ∈ headers, Acceptable notifyRules x) :
    (∃ m, (NotifyAcc.collect headers).finish = .ok m) ↔
      (∀ name ∈ [Name.host, Name.nt, Name.nts, Name.usn], Present name headers) ∧
      ((∃ v, LastValue Name.nts headers v ∧
          v.trim.eqIgnoreAsciiCase "ssdp:byebye".toList = true) ∨
        Present Name.location headers ∧ Present Name.cacheControl headers) := by
  have hhost : (∃ x, (NotifyAcc.collect headers).host = some x) ↔ Present Name.host headers :=
    lastOf_isSome_iff (by simp [notifyRules]) readText_ok_iff h
  have hnt : (∃ x, (NotifyAcc.collect headers).nt = some x) ↔ Present Name.nt headers :=
    lastOf_isSome_iff (by simp [notifyRules]) (fun _ => TargetRef.parse_ok_iff) h
  have hnts : (∃ x, (NotifyAcc.collect headers).nts = some x) ↔ Present Name.nts headers :=
    lastOf_isSome_iff (by simp [notifyRules]) (fun _ => Nts.parse_ok_iff) h
  have husn : (∃ x, (NotifyAcc.collect headers).usn = some x) ↔ Present Name.usn headers :=
    lastOf_isSome_iff (by simp [notifyRules]) (fun _ => UsnRef.parse_ok_iff) h
  have hloc : (∃ x, (NotifyAcc.collect headers).location = some x) ↔
      Present Name.location headers :=
    lastOf_isSome_iff (by simp [notifyRules]) readLocation_ok_iff h
  have hage : (∃ x, (NotifyAcc.collect headers).maxAge = some x) ↔
      Present Name.cacheControl headers :=
    lastOf_isSome_iff (by simp [notifyRules]) (fun _ => parseMaxAge_ok_iff) h
  have hbye : (NotifyAcc.collect headers).nts = some .byeBye ↔
      ∃ v, LastValue Name.nts headers v ∧
        v.trim.eqIgnoreAsciiCase "ssdp:byebye".toList = true := by
    simp only [← Nts.parse_byeBye_iff]
    exact lastOf_eq_some_iff
  rw [NotifyAcc.finish_ok_iff, hhost, hnt, husn, hloc, hage, ← hbye]
  simp only [List.mem_cons, List.not_mem_nil, or_false, forall_eq_or_imp, forall_eq, ← hnts]
  constructor
  · rintro ⟨hhost, hnt, husn, nts, hsome, rfl | hreq⟩
    · exact ⟨⟨hhost, hnt, ⟨_, hsome⟩, husn⟩, .inl hsome⟩
    · exact ⟨⟨hhost, hnt, ⟨nts, hsome⟩, husn⟩, .inr hreq⟩
  · rintro ⟨⟨hhost, hnt, ⟨nts, hsome⟩, husn⟩, hbye | hreq⟩
    · exact ⟨hhost, hnt, husn, _, hbye, .inl rfl⟩
    · exact ⟨hhost, hnt, husn, nts, hsome, .inr hreq⟩

theorem ResponseAcc.finish_ok_iff {acc : ResponseAcc} : (∃ m, acc.finish = .ok m) ↔
    (∃ x, acc.st = some x) ∧ (∃ x, acc.usn = some x) ∧ (∃ x, acc.location = some x) ∧
      ∃ x, acc.maxAge = some x := by
  simp only [finish, bind_eq_ok, okOr_eq_ok]
  constructor
  · rintro ⟨m, st, hst, usn, husn, loc, hloc, age, hage, -⟩
    exact ⟨⟨st, hst⟩, ⟨usn, husn⟩, ⟨loc, hloc⟩, age, hage⟩
  · rintro ⟨⟨st, hst⟩, ⟨usn, husn⟩, ⟨loc, hloc⟩, age, hage⟩
    exact ⟨_, st, hst, usn, husn, loc, hloc, age, hage, rfl⟩

theorem finish_response_iff {headers : List Header}
    (h : ∀ x ∈ headers, Acceptable responseRules x) :
    (∃ m, (ResponseAcc.collect headers).finish = .ok m) ↔
      ∀ name ∈ [Name.st, Name.usn, Name.location, Name.cacheControl], Present name headers := by
  have hst : (∃ x, (ResponseAcc.collect headers).st = some x) ↔ Present Name.st headers :=
    lastOf_isSome_iff (by simp [responseRules]) (fun _ => TargetRef.parse_ok_iff) h
  have husn : (∃ x, (ResponseAcc.collect headers).usn = some x) ↔ Present Name.usn headers :=
    lastOf_isSome_iff (by simp [responseRules]) (fun _ => UsnRef.parse_ok_iff) h
  have hloc : (∃ x, (ResponseAcc.collect headers).location = some x) ↔
      Present Name.location headers :=
    lastOf_isSome_iff (by simp [responseRules]) readLocation_ok_iff h
  have hage : (∃ x, (ResponseAcc.collect headers).maxAge = some x) ↔
      Present Name.cacheControl headers :=
    lastOf_isSome_iff (by simp [responseRules]) (fun _ => parseMaxAge_ok_iff) h
  rw [ResponseAcc.finish_ok_iff, hst, husn, hloc, hage]
  simp

/-! First lines -/

theorem findCrlf_of_first {line : List UInt8} (h : ¬ [13, 10] <:+: line) (rest : List UInt8) :
    findCrlf (line ++ 13 :: 10 :: rest) = some line.length := by
  induction line with
  | nil => rfl
  | cons a line ih =>
      have ih := ih fun hin => h (hin.trans (List.suffix_cons a line).isInfix)
      cases line with
      | nil => simp [findCrlf]
      | cons b line =>
          have hab : ¬ (a = 13 ∧ b = 10) := by
            rintro ⟨rfl, rfl⟩
            exact h (List.prefix_append [13, 10] line).isInfix
          rw [List.cons_append, List.cons_append, findCrlf, if_neg hab]
          rw [List.cons_append] at ih
          rw [ih]
          rfl

theorem first_of_findCrlf {buf : List UInt8} {n : Nat} (h : findCrlf buf = some n) :
    buf = buf.take n ++ 13 :: 10 :: buf.drop (n + 2) ∧ ¬ [13, 10] <:+: buf.take n := by
  induction buf generalizing n with
  | nil => cases h
  | cons a buf ih =>
      cases buf with
      | nil => cases h
      | cons b buf =>
          rw [findCrlf] at h
          split at h
          · rename_i hab
            obtain ⟨rfl, rfl⟩ := hab
            cases h
            exact ⟨rfl, by simp⟩
          · rename_i hab
            obtain ⟨k, hk, rfl⟩ := Option.map_eq_some_iff.mp h
            obtain ⟨hsplit, hfirst⟩ := ih hk
            refine ⟨?_, ?_⟩
            · rw [List.take_succ_cons, List.cons_append, Nat.add_right_comm, List.drop_succ_cons,
                ← hsplit]
            · rw [List.take_succ_cons, List.infix_cons_iff]
              rintro (hpre | hin)
              · obtain ⟨ha, hten⟩ := List.cons_prefix_cons.mp hpre
                have hb : b = 10 := by
                  cases k with
                  | zero => simp at hten
                  | succ k => exact (List.cons_prefix_cons.mp hten).1.symm
                exact hab ⟨ha.symm, hb⟩
              · exact hfirst hin

/-- The first line of a datagram, ended by the first CRLF, and the headers of the
complete block behind it. The block has room for 32 headers. -/
def Splits (httparse : List UInt8 → Nat → Outcome) (buf : List UInt8) (line : Str)
    (headers : List Header) : Prop :=
  ∃ rest offset, buf = line.bytes ++ 13 :: 10 :: rest ∧ ¬ [13, 10] <:+: line.bytes ∧
    httparse rest maxHeaders = .complete offset headers

theorem StartLine.parse_ok_iff {buf rest : List UInt8} {kind : StartLine} :
    parse buf = .ok (kind, rest) ↔ ∃ line : Str, buf = line.bytes ++ 13 :: 10 :: rest ∧
      ¬ [13, 10] <:+: line.bytes ∧ classify line = .ok kind := by
  simp only [parse, bind_eq_ok, okOr_eq_ok, Except.ok.injEq, Prod.mk.injEq]
  constructor
  · rintro ⟨n, hn, line, hline, kind', hkind, rfl, rfl⟩
    obtain ⟨hsplit, hfirst⟩ := first_of_findCrlf hn
    rw [← Str.bytes_of_fromUtf8 hline] at hsplit hfirst
    exact ⟨line, hsplit, hfirst, hkind⟩
  · rintro ⟨line, rfl, hfirst, hkind⟩
    refine ⟨_, findCrlf_of_first hfirst rest, line, ?_, kind, hkind, rfl, ?_⟩
    · rw [List.take_left, Str.fromUtf8_bytes]
    · rw [← List.drop_drop, List.drop_left]
      rfl

/-- The status code of an HTTP/1.1 status line: the text between the version and
the next space. -/
def statusCode (line : Str) : Option Str :=
  (Str.stripPrefix "HTTP/1.1 ".toList line).map fun rest => rest.takeWhile (· != ' ')

/-- The first lines of the messages of a kind. -/
def StartLine.Names (line : Str) : StartLine → Prop
  | .mSearch => line.eqIgnoreAsciiCase "M-SEARCH * HTTP/1.1".toList = true
  | .notify => line.eqIgnoreAsciiCase "NOTIFY * HTTP/1.1".toList = true
  | .response200 => statusCode line = some "200".toList

/-- A status line whose code goes on behind 200. -/
def LongStatus (line : Str) : Prop :=
  ∃ c more, line = "HTTP/1.1 200".toList ++ c :: more ∧ c ≠ ' '

theorem prefix_200_iff {line : Str} : "HTTP/1.1 200".toList.isPrefixOf line = true ↔
    statusCode line = some "200".toList ∨ LongStatus line := by
  have hsplit : ∀ more : Str, "HTTP/1.1 200".toList ++ more =
      "HTTP/1.1 ".toList ++ ("200".toList ++ more) := fun _ => rfl
  have hdigits : ∀ c ∈ "200".toList, (c != ' ') = true := by decide
  rw [List.isPrefixOf_iff_prefix]
  constructor
  · rintro ⟨more, rfl⟩
    by_cases hlong : ∃ c rest, more = c :: rest ∧ c ≠ ' '
    · obtain ⟨c, rest, rfl, hc⟩ := hlong
      exact .inr ⟨c, rest, rfl, hc⟩
    · have hnil : more.takeWhile (· != ' ') = [] := by
        cases more with
        | nil => rfl
        | cons c rest =>
            have hc : c = ' ' := by
              by_contra hne
              exact hlong ⟨c, rest, rfl, hne⟩
            rw [hc]
            rfl
      refine .inl ?_
      rw [statusCode, hsplit, Str.stripPrefix_append, Option.map_some,
        List.takeWhile_append_of_pos hdigits, hnil, List.append_nil]
  · rintro (h | ⟨c, more, rfl, -⟩)
    · obtain ⟨rest, hrest, hcode⟩ := Option.map_eq_some_iff.mp h
      have hwhole := List.takeWhile_append_dropWhile (p := (· != ' ')) (l := rest)
      rw [hcode] at hwhole
      rw [Str.stripPrefix_eq_some.mp hrest, ← hwhole, ← hsplit]
      exact List.prefix_append _ _
    · exact List.prefix_append _ _

theorem not_longStatus {line : Str} (h : statusCode line = some "200".toList) :
    ¬ LongStatus line := by
  rintro ⟨c, more, rfl, hc⟩
  have hsplit : "HTTP/1.1 200".toList ++ c :: more =
      "HTTP/1.1 ".toList ++ ("200".toList ++ c :: more) := rfl
  have hdigits : ∀ c ∈ "200".toList, (c != ' ') = true := by decide
  rw [statusCode, hsplit, Str.stripPrefix_append, Option.map_some,
    List.takeWhile_append_of_pos hdigits, List.takeWhile_cons_of_pos (by simpa using hc)] at h
  exact absurd (congrArg List.length (Option.some.inj h)) (by simp)

theorem names_exclusive {line : Str} :
    (StartLine.Names line .mSearch → ¬ StartLine.Names line .notify) ∧
      ("HTTP/1.1 200".toList.isPrefixOf line = true →
        ¬ StartLine.Names line .mSearch ∧ ¬ StartLine.Names line .notify) := by
  constructor
  · intro hm hn
    have hlength := (Str.length_of_eqIgnoreAsciiCase hm).symm.trans
      (Str.length_of_eqIgnoreAsciiCase hn)
    exact absurd hlength (by decide)
  · intro hp
    obtain ⟨more, rfl⟩ := List.isPrefixOf_iff_prefix.mp hp
    constructor
    · simp [StartLine.Names, Str.eqIgnoreAsciiCase]
    · simp [StartLine.Names, Str.eqIgnoreAsciiCase]

/-- How the first line is told: a long status code passes for 200. -/
theorem StartLine.classify_iff {line : Str} {kind : StartLine} : classify line = .ok kind ↔
    kind.Names line ∨ kind = .response200 ∧ LongStatus line := by
  obtain ⟨hmn, hp⟩ := @names_exclusive line
  have hcode : StartLine.Names line .response200 ∨ LongStatus line ↔
      "HTTP/1.1 200".toList.isPrefixOf line = true := prefix_200_iff.symm
  by_cases hm : StartLine.Names line .mSearch
  · have hno : ¬ (StartLine.Names line .response200 ∨ LongStatus line) :=
      fun h => (hp (hcode.mp h)).1 hm
    have hclass : classify line = .ok .mSearch := if_pos hm
    rw [hclass]
    cases kind with
    | mSearch => exact iff_of_true rfl (.inl hm)
    | notify => exact iff_of_false (fun h => by cases h) (by simpa using hmn hm)
    | response200 => exact iff_of_false (fun h => by cases h) (by simpa using hno)
  by_cases hn : StartLine.Names line .notify
  · have hno : ¬ (StartLine.Names line .response200 ∨ LongStatus line) :=
      fun h => (hp (hcode.mp h)).2 hn
    have hclass : classify line = .ok .notify := (if_neg hm).trans (if_pos hn)
    rw [hclass]
    cases kind with
    | mSearch => exact iff_of_false (fun h => by cases h) (by simpa using hm)
    | notify => exact iff_of_true rfl (.inl hn)
    | response200 => exact iff_of_false (fun h => by cases h) (by simpa using hno)
  have hclass : classify line = if "HTTP/1.1 200".toList.isPrefixOf line then .ok .response200
      else .error .unknownStartLine := (if_neg hm).trans (if_neg hn)
  rw [hclass]
  cases kind with
  | mSearch => exact iff_of_false (fun h => by split at h <;> cases h) (by simpa using hm)
  | notify => exact iff_of_false (fun h => by split at h <;> cases h) (by simpa using hn)
  | response200 =>
      simp only [true_and, hcode]
      split
      · exact iff_of_true rfl ‹_›
      · exact iff_of_false (fun h => by cases h) ‹_›

/-! Datagrams -/

def MessageRef.startLine : MessageRef → StartLine
  | .search _ => .mSearch
  | .notify _ => .notify
  | .searchResponse _ => .response200

def StartLine.Block (headers : List Header) : StartLine → Prop
  | .mSearch => MSearchBlock headers
  | .notify => NotifyBlock headers
  | .response200 => ResponseBlock headers

section
variable {httparse : List UInt8 → Nat → Outcome}

/-- What a parser of a kind of message reads from the headers. -/
theorem parse_collected_iff {α β : Type} {arms : List (Arm α)} {rules : List HeaderRule}
    {collect : List Header → α} (hf : Follows arms rules collect)
    (finish : α → Except ParseError β) {buf : List UInt8} {m : β} :
    (do
      let (headers, _) ← parseRaw httparse buf
      let acc ← headerLoop arms headers (collect [])
      finish acc) = .ok m ↔
      ∃ offset headers, httparse buf maxHeaders = .complete offset headers ∧
        (∀ h ∈ headers, Acceptable rules h) ∧ finish (collect headers) = .ok m := by
  constructor
  · intro h
    obtain ⟨⟨headers, offset⟩, hraw, h⟩ := bind_eq_ok.mp h
    obtain ⟨acc, hloop, hfinish⟩ := bind_eq_ok.mp h
    obtain ⟨hall, rfl⟩ := hf.loop_iff.mp hloop
    exact ⟨offset, headers, parseRaw_eq_ok hraw, hall, hfinish⟩
  · rintro ⟨offset, headers, hraw, hall, hfinish⟩
    have hloop := hf.loop_iff.mpr ⟨hall, rfl⟩
    simp only [parseRaw, hraw, bind, Except.bind, hloop, hfinish]

theorem exists_block_iff {rules : List HeaderRule} {buf : List UInt8} {β : Type}
    {finish : List Header → Except ParseError β} {Required : List Header → Prop}
    (hfinish : ∀ headers, (∀ h ∈ headers, Acceptable rules h) →
      ((∃ m, finish headers = .ok m) ↔ Required headers)) :
    (∃ m offset headers, httparse buf maxHeaders = .complete offset headers ∧
      (∀ h ∈ headers, Acceptable rules h) ∧ finish headers = .ok m) ↔
    ∃ offset headers, httparse buf maxHeaders = .complete offset headers ∧
      (∀ h ∈ headers, Acceptable rules h) ∧ Required headers := by
  constructor
  · rintro ⟨m, offset, headers, hraw, hall, hm⟩
    exact ⟨offset, headers, hraw, hall, (hfinish headers hall).mp ⟨m, hm⟩⟩
  · rintro ⟨offset, headers, hraw, hall, hreq⟩
    obtain ⟨m, hm⟩ := (hfinish headers hall).mpr hreq
    exact ⟨m, offset, headers, hraw, hall, hm⟩

theorem parseMsearch_iff {buf : List UInt8} {m : MSearchRef} : parseMsearch httparse buf = .ok m ↔
    ∃ offset headers, httparse buf maxHeaders = .complete offset headers ∧
      (∀ h ∈ headers, Acceptable msearchRules h) ∧
      (MSearchAcc.collect headers).finish = .ok m :=
  parse_collected_iff follows_msearch MSearchAcc.finish

theorem parseNotify_iff {buf : List UInt8} {m : NotifyRef} : parseNotify httparse buf = .ok m ↔
    ∃ offset headers, httparse buf maxHeaders = .complete offset headers ∧
      (∀ h ∈ headers, Acceptable notifyRules h) ∧ (NotifyAcc.collect headers).finish = .ok m :=
  parse_collected_iff follows_notify NotifyAcc.finish

theorem parseResponse_iff {buf : List UInt8} {m : SearchResponseRef} :
    parseResponse httparse buf = .ok m ↔
    ∃ offset headers, httparse buf maxHeaders = .complete offset headers ∧
      (∀ h ∈ headers, Acceptable responseRules h) ∧
      (ResponseAcc.collect headers).finish = .ok m :=
  parse_collected_iff follows_response ResponseAcc.finish

/-- The parser of a kind reads the blocks of that kind. -/
theorem parseMessage_ok_iff {kind : StartLine} {rest : List UInt8} :
    (∃ m, parseMessage httparse kind rest = .ok m) ↔
      ∃ offset headers, httparse rest maxHeaders = .complete offset headers ∧
        kind.Block headers := by
  have hwrap : ∀ {β : Type} {e : Except ParseError β} (f : β → MessageRef),
      (∃ m, (e >>= fun msg => .ok (f msg)) = .ok m) ↔ ∃ msg, e = .ok msg := by
    intro β e f
    cases e with
    | error err => exact iff_of_false (fun ⟨m, h⟩ => by cases h) (fun ⟨m, h⟩ => by cases h)
    | ok msg => exact iff_of_true ⟨_, rfl⟩ ⟨msg, rfl⟩
  cases kind with
  | mSearch =>
      refine (hwrap MessageRef.search).trans ?_
      simp only [parseMsearch_iff]
      exact exists_block_iff fun headers => finish_msearch_iff
  | notify =>
      refine (hwrap MessageRef.notify).trans ?_
      simp only [parseNotify_iff]
      exact exists_block_iff fun headers => finish_notify_iff
  | response200 =>
      refine (hwrap MessageRef.searchResponse).trans ?_
      simp only [parseResponse_iff]
      exact exists_block_iff fun headers => finish_response_iff

theorem startLine_of_parseMessage {kind : StartLine} {rest : List UInt8} {m : MessageRef}
    (h : parseMessage httparse kind rest = .ok m) : m.startLine = kind := by
  cases kind with
  | mSearch | notify | response200 =>
      obtain ⟨msg, -, hmsg⟩ := bind_eq_ok.mp h
      cases hmsg
      rfl

theorem parseDatagram_ok_iff {buf : List UInt8} {m : MessageRef} :
    parseDatagram httparse buf = .ok m ↔
      ∃ kind rest, StartLine.parse buf = .ok (kind, rest) ∧
        parseMessage httparse kind rest = .ok m := by
  unfold parseDatagram
  split
  · rename_i hnil
    subst hnil
    refine iff_of_false (fun h => by cases h) ?_
    rintro ⟨kind, rest, h, -⟩
    cases h
  · rw [bind_eq_ok]
    exact ⟨fun ⟨⟨kind, rest⟩, h⟩ => ⟨kind, rest, h⟩, fun ⟨kind, rest, h⟩ => ⟨(kind, rest), h⟩⟩

/-- The datagrams that are read as messages of a kind. -/
theorem parse_kind_iff {buf : List UInt8} {kind : StartLine} :
    (∃ m, parseDatagram httparse buf = .ok m ∧ m.startLine = kind) ↔
      ∃ line headers, Splits httparse buf line headers ∧
        (kind.Names line ∨ kind = .response200 ∧ LongStatus line) ∧ kind.Block headers := by
  simp only [parseDatagram_ok_iff, StartLine.parse_ok_iff, ← StartLine.classify_iff]
  constructor
  · rintro ⟨m, ⟨kind', rest, ⟨line, hbuf, hfirst, hkind⟩, hm⟩, rfl⟩
    obtain rfl := startLine_of_parseMessage hm
    obtain ⟨offset, headers, hraw, hblock⟩ := parseMessage_ok_iff.mp ⟨m, hm⟩
    exact ⟨line, headers, ⟨rest, offset, hbuf, hfirst, hraw⟩, hkind, hblock⟩
  · rintro ⟨line, headers, ⟨rest, offset, hbuf, hfirst, hraw⟩, hkind, hblock⟩
    obtain ⟨m, hm⟩ := parseMessage_ok_iff.mpr ⟨offset, headers, hraw, hblock⟩
    exact ⟨m, ⟨kind, rest, ⟨line, hbuf, hfirst, hkind⟩, hm⟩, startLine_of_parseMessage hm⟩

/-- The first line of a datagram is determined. -/
theorem first_unique {line line' : Str} {rest rest' : List UInt8}
    (h : line.bytes ++ 13 :: 10 :: rest = line'.bytes ++ 13 :: 10 :: rest')
    (hfirst : ¬ [13, 10] <:+: line.bytes) (hfirst' : ¬ [13, 10] <:+: line'.bytes) :
    line = line' := by
  have hcrlf := findCrlf_of_first hfirst rest
  rw [h, findCrlf_of_first hfirst' rest'] at hcrlf
  have hbytes := (List.append_inj h (Option.some.inj hcrlf).symm).1
  have htext := congrArg Str.fromUtf8 hbytes
  rw [Str.fromUtf8_bytes, Str.fromUtf8_bytes] at htext
  exact Option.some.inj htext

end

/-- The datagrams of a kind: the first line names the kind, and a block of that
kind follows. -/
def StartLine.Datagram (httparse : List UInt8 → Nat → Outcome) (buf : List UInt8)
    (kind : StartLine) : Prop :=
  ∃ line headers, Splits httparse buf line headers ∧ kind.Names line ∧ kind.Block headers

/-- A byte string is read as a message of a kind exactly when it is a datagram of
that kind, unless it is a response whose status code goes on behind 200. -/
theorem parse_grammar_iff (httparse : List UInt8 → Nat → Outcome) (buf : List UInt8) :
    (∀ kind : StartLine, (∃ m, parseDatagram httparse buf = .ok m ∧ m.startLine = kind) ↔
      kind.Datagram httparse buf) ↔
      ¬ ∃ line headers, Splits httparse buf line headers ∧ LongStatus line ∧
        ResponseBlock headers := by
  constructor
  · rintro h ⟨line, headers, hsplit, hlong, hblock⟩
    obtain ⟨line', headers', hsplit', hcode, -⟩ := (h .response200).mp
      (parse_kind_iff.mpr ⟨line, headers, hsplit, .inr ⟨rfl, hlong⟩, hblock⟩)
    obtain ⟨rest, offset, rfl, hfirst, -⟩ := hsplit
    obtain ⟨rest', offset', hbuf, hfirst', -⟩ := hsplit'
    rw [← first_unique hbuf hfirst hfirst'] at hcode
    exact not_longStatus hcode hlong
  · intro h kind
    rw [parse_kind_iff]
    constructor
    · rintro ⟨line, headers, hsplit, hnames | ⟨rfl, hlong⟩, hblock⟩
      · exact ⟨line, headers, hsplit, hnames, hblock⟩
      · exact absurd ⟨line, headers, hsplit, hlong, hblock⟩ h
    · rintro ⟨line, headers, hsplit, hnames, hblock⟩
      exact ⟨line, headers, hsplit, .inl hnames, hblock⟩

def longStatusLine : Str := "HTTP/1.1 2000 OK".toList

def rootResponse : SearchResponseRef where
  st := .rootDevice
  usn := ⟨['a'], none⟩
  location := "http://a/".toList
  maxAge := Duration.fromSecs 1
  server := none
  bootid := none
  configid := none
  searchport := none

theorem rootResponse_wellFormed : rootResponse.WellFormed where
  st := ⟨trivial, trivial⟩
  usn := ⟨⟨by decide, by decide, by decide⟩, by decide, by simp [rootResponse]⟩
  location := (⟨by decide, by decide⟩ : LocationText "http://a/".toList)
  maxAge := ⟨1, rfl⟩
  server := by simp [rootResponse]
  searchport := by simp [rootResponse]

/-- A response with the status code 2000 is read as one with 200. -/
theorem long_status_read :
    (∃ m, parseDatagram splitBlock (wire longStatusLine rootResponse.headers) = .ok m) ∧
      ∀ kind : StartLine,
        ¬ kind.Datagram splitBlock (wire longStatusLine rootResponse.headers) := by
  refine ⟨⟨_, parseDatagram_response_of_line splitBlock_splitsBlock rootResponse_wellFormed
    (by decide) (by decide)⟩, ?_⟩
  rintro kind ⟨line, headers, ⟨rest, offset, hbuf, hfirst, -⟩, hnames, -⟩
  have hcr : ¬ [13, 10] <:+: Str.bytes longStatusLine := by decide
  obtain rfl := first_unique hbuf hcr hfirst
  cases kind with
  | mSearch | notify | response200 => exact absurd hnames (by unfold StartLine.Names; decide)

end RustyCastle.Ssdp
