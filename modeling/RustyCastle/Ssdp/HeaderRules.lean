import RustyCastle.Ssdp.Parse
import RustyCastle.Ssdp.ValueGrammar

/-!
What a header loop reads. It passes exactly where every header is acceptable:
its value is UTF-8, and valid if its name is one that the loop knows. Then every
field holds the value of the last header of its name.
-/

namespace RustyCastle.Ssdp
open Foundation Foundation.HeaderBlock

/-- A name that a loop knows, and the values it takes for it. -/
structure HeaderRule where
  name : Str
  valid : Str → Prop

def Acceptable (rules : List HeaderRule) (h : Header) : Prop :=
  ∃ val, Str.fromUtf8 h.value = some val ∧
    ∀ rule ∈ rules, headerEq h.name rule.name = true → rule.valid val

theorem eq_of_headerEq {a : List UInt8} {n m : Str} (hn : headerEq a n = true)
    (hm : headerEq a m = true) : n = m := by
  have hbytes : n.bytes = m.bytes := (headerEq_iff.mp hn).symm.trans (headerEq_iff.mp hm)
  have htext := congrArg Str.fromUtf8 hbytes
  rw [Str.fromUtf8_bytes, Str.fromUtf8_bytes] at htext
  exact Option.some.inj htext

/-- A header of one name is a header of no other. -/
theorem headerEq_eq_decide {a : List UInt8} {n : Str} (hn : headerEq a n = true) (m : Str) :
    headerEq a m = decide (n = m) := by
  by_cases hm : headerEq a m = true
  · rw [hm, decide_eq_true (eq_of_headerEq hn hm)]
  · rw [Bool.eq_false_iff.mpr hm, eq_comm, decide_eq_false_iff_not]
    rintro rfl
    exact hm hn

/-! The last value of a name -/

section Last
variable {β : Type} {name : Str} {read : Str → Except ParseError β}

/-- The value of the last header of a name, where `read` reads it. -/
def lastOf (name : Str) (read : Str → Except ParseError β) (headers : List Header) : Option β :=
  (headers.reverse.find? fun h => headerEq h.name name).bind fun h =>
    (Str.fromUtf8 h.value).bind fun val => (read val).toOption

theorem lastOf_concat (headers : List Header) (h : Header) :
    lastOf name read (headers ++ [h]) =
      if headerEq h.name name then (Str.fromUtf8 h.value).bind fun val => (read val).toOption
      else lastOf name read headers := by
  rw [lastOf, List.reverse_append, List.reverse_singleton, List.singleton_append, List.find?_cons]
  cases headerEq h.name name with
  | true => rfl
  | false => rfl

/-- The text of the last header of a name. -/
def LastValue (name : Str) (headers : List Header) (val : Str) : Prop :=
  ∃ before h after, headers = before ++ h :: after ∧ headerEq h.name name = true ∧
    (∀ x ∈ after, headerEq x.name name = false) ∧ Str.fromUtf8 h.value = some val

def Present (name : Str) (headers : List Header) : Prop :=
  ∃ h ∈ headers, headerEq h.name name = true

theorem toOption_eq_some_iff {ε : Type} {e : Except ε β} {x : β} :
    e.toOption = some x ↔ e = .ok x := by
  cases e with
  | error err => exact iff_of_false (fun h => by cases h) (fun h => by cases h)
  | ok y => exact ⟨fun h => congrArg Except.ok (Option.some.inj h), fun h => congrArg some (Except.ok.inj h)⟩

theorem lastOf_eq_some_iff {headers : List Header} {x : β} :
    lastOf name read headers = some x ↔ ∃ val, LastValue name headers val ∧ read val = .ok x := by
  simp only [lastOf, Option.bind_eq_some_iff, toOption_eq_some_iff]
  constructor
  · rintro ⟨h, hfind, val, hval, hread⟩
    obtain ⟨hname, after, before, hsplit, hafter⟩ := List.find?_eq_some_iff_append.mp hfind
    refine ⟨val, ⟨before.reverse, h, after.reverse, ?_, hname, fun x hx => ?_, hval⟩, hread⟩
    · rw [← List.reverse_reverse headers, hsplit]
      simp
    · simpa using hafter x (List.mem_reverse.mp hx)
  · rintro ⟨val, ⟨before, h, after, rfl, hname, hafter, hval⟩, hread⟩
    refine ⟨h, List.find?_eq_some_iff_append.mpr ⟨hname, after.reverse, before.reverse, by simp,
      fun x hx => ?_⟩, val, hval, hread⟩
    simpa using hafter x (List.mem_reverse.mp hx)

theorem exists_last_of_present {headers : List Header} (h : Present name headers) :
    ∃ before x after, headers = before ++ x :: after ∧ headerEq x.name name = true ∧
      ∀ y ∈ after, headerEq y.name name = false := by
  obtain ⟨x, hx, hname⟩ := h
  have hsome : (headers.reverse.find? fun h => headerEq h.name name).isSome :=
    List.find?_isSome.mpr ⟨x, List.mem_reverse.mpr hx, hname⟩
  obtain ⟨y, hy⟩ := Option.isSome_iff_exists.mp hsome
  obtain ⟨hyname, after, before, hsplit, hafter⟩ := List.find?_eq_some_iff_append.mp hy
  refine ⟨before.reverse, y, after.reverse, ?_, hyname, fun z hz => ?_⟩
  · rw [← List.reverse_reverse headers, hsplit]
    simp
  · simpa using hafter z (List.mem_reverse.mp hz)

/-- Where every header is acceptable, a name that is present has a value. -/
theorem lastOf_isSome_iff {rules : List HeaderRule} {valid : Str → Prop} {headers : List Header}
    (hrule : ⟨name, valid⟩ ∈ rules) (hvalid : ∀ v, (∃ x, read v = .ok x) ↔ valid v)
    (hacc : ∀ h ∈ headers, Acceptable rules h) :
    (∃ x, lastOf name read headers = some x) ↔ Present name headers := by
  simp only [lastOf_eq_some_iff]
  constructor
  · rintro ⟨x, val, ⟨before, h, after, rfl, hname, -⟩, -⟩
    exact ⟨h, List.mem_append_right _ (List.mem_cons_self ..), hname⟩
  · intro h
    obtain ⟨before, x, after, rfl, hname, hafter⟩ := exists_last_of_present h
    obtain ⟨val, hval, hrules⟩ := hacc x (List.mem_append_right _ (List.mem_cons_self ..))
    obtain ⟨y, hy⟩ := (hvalid val).mpr (hrules _ hrule hname)
    exact ⟨y, val, ⟨before, x, after, rfl, hname, hafter, hval⟩, hy⟩

end Last

/-! The loop -/

section Loop
variable {α : Type} {arms : List (Arm α)} {rules : List HeaderRule} {collect : List Header → α}

/-- An arm follows a rule: after the headers so far it takes the valid values, and
leaves what the headers with the new one leave. -/
structure ArmFollows (collect : List Header → α) (arm : Arm α) (rule : HeaderRule) : Prop where
  name : arm.1 = rule.name
  takes : ∀ headers h val acc, headerEq h.name rule.name = true →
    Str.fromUtf8 h.value = some val →
    (arm.2 val (collect headers) = .ok acc ↔ rule.valid val ∧ acc = collect (headers ++ [h]))

/-- An arm that reads the value and stores what it reads. -/
theorem armFollows_of_read {β : Type} {arm : Arm α} {valid : Str → Prop}
    (read : Str → Except ParseError β) (set : β → α → α)
    (harm : ∀ val acc, arm.2 val acc = (read val >>= fun x => .ok (set x acc)))
    (hvalid : ∀ v, (∃ x, read v = .ok x) ↔ valid v)
    (hcollect : ∀ headers h x, headerEq h.name arm.1 = true →
      ((Str.fromUtf8 h.value).bind fun val => (read val).toOption) = some x →
      collect (headers ++ [h]) = set x (collect headers)) :
    ArmFollows collect arm ⟨arm.1, valid⟩ where
  name := rfl
  takes headers h val acc hname hval := by
    refine Iff.trans ?_ (and_congr_left' (hvalid val))
    rw [harm]
    cases hread : read val with
    | error err => exact iff_of_false (fun h => by cases h) fun ⟨⟨x, hx⟩, _⟩ => by cases hx
    | ok x =>
        have hx := hcollect headers h x hname (by rw [hval, Option.bind_some, hread]; rfl)
        rw [hx]
        exact ⟨fun h => ⟨⟨x, rfl⟩, (Except.ok.inj h).symm⟩, fun h => congrArg Except.ok h.2.symm⟩

/-- The arms of a loop follow its rules, one each. -/
structure Follows (arms : List (Arm α)) (rules : List HeaderRule) (collect : List Header → α) :
    Prop where
  arms : List.Forall₂ (ArmFollows collect) arms rules
  distinct : rules.Pairwise fun a b => a.name ≠ b.name
  other : ∀ headers h, (∀ rule ∈ rules, headerEq h.name rule.name = false) →
    collect (headers ++ [h]) = collect headers

theorem armOf_iff {headers : List Header} {h : Header} {val : Str} {acc : α}
    (harms : List.Forall₂ (ArmFollows collect) arms rules)
    (hdistinct : rules.Pairwise fun a b => a.name ≠ b.name)
    (hother : (∀ rule ∈ rules, headerEq h.name rule.name = false) →
      collect (headers ++ [h]) = collect headers)
    (hval : Str.fromUtf8 h.value = some val) :
    (match arms.find? fun arm => headerEq h.name arm.1 with
      | some arm => arm.2 val (collect headers)
      | none => .ok (collect headers)) = .ok acc ↔
      (∀ rule ∈ rules, headerEq h.name rule.name = true → rule.valid val) ∧
        acc = collect (headers ++ [h]) := by
  induction harms with
  | nil =>
      have hnone : ∀ rule ∈ ([] : List HeaderRule), headerEq h.name rule.name = true →
          rule.valid val := fun rule hrule => by cases hrule
      rw [hother fun rule hrule => by cases hrule]
      exact ⟨fun he => ⟨hnone, (Except.ok.inj he).symm⟩, fun he => congrArg Except.ok he.2.symm⟩
  | @cons arm rule arms rules harm _ ih =>
      obtain ⟨hne, hdistinct⟩ := List.pairwise_cons.mp hdistinct
      rw [List.forall_mem_cons]
      by_cases hname : headerEq h.name rule.name = true
      · have hrest : ∀ r ∈ rules, headerEq h.name r.name = true → r.valid val :=
          fun r hr hr' => absurd (eq_of_headerEq hname hr') (hne r hr)
        rw [List.find?_cons_of_pos (by rw [harm.name]; exact hname)]
        rw [harm.takes headers h val acc hname hval]
        simp only [hname, true_imp_iff]
        exact ⟨fun he => ⟨⟨he.1, hrest⟩, he.2⟩, fun he => ⟨he.1.1, he.2⟩⟩
      · have hno := Bool.eq_false_iff.mpr hname
        rw [List.find?_cons_of_neg (by rw [harm.name]; exact hname)]
        rw [ih hdistinct fun hall => hother (List.forall_mem_cons.mpr ⟨hno, hall⟩)]
        simp only [hno, Bool.false_eq_true, false_imp_iff, true_and]

theorem Follows.step_iff (hf : Follows arms rules collect) {headers : List Header} {h : Header}
    {acc : α} : headerStep arms (collect headers) h = .ok acc ↔
      Acceptable rules h ∧ acc = collect (headers ++ [h]) := by
  unfold headerStep Acceptable
  cases hval : Str.fromUtf8 h.value with
  | none => exact iff_of_false (fun he => by cases he) fun ⟨⟨val, hv, _⟩, _⟩ => by cases hv
  | some val =>
      refine (armOf_iff hf.arms hf.distinct (hf.other headers h) hval).trans ?_
      simp only [Option.some.injEq, exists_eq_left']

/-- The loop passes the acceptable headers, and collects the last value of each name. -/
theorem Follows.loop_iff (hf : Follows arms rules collect) {headers : List Header} {acc : α} :
    headerLoop arms headers (collect []) = .ok acc ↔
      (∀ h ∈ headers, Acceptable rules h) ∧ acc = collect headers := by
  induction headers using List.reverseRecOn generalizing acc with
  | nil =>
      have hnone : ∀ h ∈ ([] : List Header), Acceptable rules h := fun h hh => by cases hh
      exact ⟨fun h => ⟨hnone, (Except.ok.inj h).symm⟩, fun h => congrArg Except.ok h.2.symm⟩
  | append_singleton headers h ih =>
      have hsplit : headerLoop arms (headers ++ [h]) (collect []) =
          (headerLoop arms headers (collect []) >>= fun a => headerStep arms a h) := by
        rw [headerLoop, List.foldlM_append, ← headerLoop]
        simp only [List.foldlM_cons, List.foldlM_nil, bind_pure]
      rw [hsplit, bind_eq_ok, List.forall_mem_append, List.forall_mem_singleton]
      constructor
      · rintro ⟨a, ha, hstep⟩
        obtain ⟨hall, rfl⟩ := ih.mp ha
        obtain ⟨hh, rfl⟩ := hf.step_iff.mp hstep
        exact ⟨⟨hall, hh⟩, rfl⟩
      · rintro ⟨⟨hall, hh⟩, rfl⟩
        exact ⟨collect headers, ih.mpr ⟨hall, rfl⟩, hf.step_iff.mpr ⟨hh, rfl⟩⟩

end Loop
end RustyCastle.Ssdp
