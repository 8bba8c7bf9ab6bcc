import RustyCastle.Upnp.ClosedText

/-!
Requests with a comment in them. Of the start of a comment the parser skips two characters and
reads on in its text, so what the comment does depends on the tags in it.
-/

namespace RustyCastle.Upnp
open Foundation Foundation.Xml

/-- A comment from its third character on. -/
def commentRest (c : Str) : Str := "--".toList ++ (c ++ "-->".toList)

def comment (c : Str) : Str := '<' :: '!' :: commentRest c

theorem closed_commentRest (c : Str) : Closed (commentRest c) := by
  intro d hd
  rw [commentRest, List.getLast?_append_of_ne_nil _ (by simp), List.getLast?_append_of_ne_nil _ (by simp)]
    at hd
  exact (Option.some.inj hd).symm

theorem closeFree_commentStart : CloseFree ['<', '!'] := by
  refine closeFree_cons (fun rest hp => ?_) (closeFree_of_notMem (by decide))
  have hlit : "</".toList = ['<', '/'] := by decide
  rw [hlit] at hp
  have hslash := (List.cons_prefix_cons.mp (List.cons_prefix_cons.mp hp).2).1
  exact absurd hslash (by decide)

/-! The argument that closes over a comment -/

/-- The end tag of an argument has its start tag before it. -/
theorem findCloseForName_elements {es : List Element} (h : ∀ e ∈ es, e.WellFormed) {name : Str}
    (hname : ∃ a ∈ es.filterMap Element.read, a.name = name) (rest : Str) :
    ∃ close, findCloseForName name (es.flatMap Element.write ++ rest) 0 = some close ∧
      '<' ∈ (es.flatMap Element.write ++ rest).take close.1 := by
  induction es with
  | nil => simp at hname
  | cons e es ih =>
      rw [List.forall_mem_cons] at h
      rw [List.flatMap_cons, List.append_assoc]
      by_cases he : ∀ a ∈ e.read, a.name ≠ name
      · have hlater : ∃ a ∈ es.filterMap Element.read, a.name = name := by
          obtain ⟨a, ha, hname⟩ := hname
          obtain ⟨e', he', hread⟩ := List.mem_filterMap.mp ha
          rcases List.mem_cons.mp he' with rfl | he'
          · exact absurd hname (he a hread)
          · exact ⟨a, List.mem_filterMap.mpr ⟨e', he', hread⟩, hname⟩
        obtain ⟨close, hclose, hlt⟩ := ih h.2 hlater
        refine ⟨(e.write.length + close.1, close.2), ?_, ?_⟩
        · rw [Element.noEnd_write h.1 he, findCloseForName_zero, hclose, Nat.zero_add, Option.map_some]
        · rw [List.take_length_add_append]
          exact List.mem_append_right _ hlt
      · simp only [not_forall, not_not] at he
        obtain ⟨a, ha, rfl⟩ := he
        obtain ⟨text, htext, -⟩ := Option.map_eq_some_iff.mp ha
        rw [Element.name_of_read ha]
        have hwrite : e.write = e.gap ++ startTag e.name e.attrs ++ text ++ endTag e.name := by
          rw [Element.write, htext]
          simp
        have hnoEnd : NoEnd e.name.name (e.gap ++ startTag e.name e.attrs ++ text) :=
          ((noEnd_blank h.1.gap _).append ((closeFree_startTag h.1.name h.1.attrs.lt).noEnd _)).append
            ((closeFree_of_notMem (h.1.text text htext)).noEnd _)
        refine ⟨((e.gap ++ startTag e.name e.attrs ++ text).length, (endTag e.name).length), ?_, ?_⟩
        · rw [hwrite, List.append_assoc, hnoEnd, findCloseForName_endTag h.1.name, if_pos rfl,
            Nat.zero_add]
        · rw [hwrite, List.append_assoc _ _ (es.flatMap Element.write ++ rest), List.take_left]
          simp [startTag]

/-- What the residue of a comment means for the arguments behind it: the arguments read in it have
to be none, or, where the iterator does not get past it, those behind it. -/
def Residue.Unnoticed (read later : List ArgumentRef) : Residue → Prop
  | .passed => read = []
  | .stuck none => read = later
  | .stuck (some name) => (∀ a ∈ later, a.name ≠ name) ∧ read = later

/-- The arguments are those behind a closed text exactly when the text goes unnoticed. -/
theorem arguments_closed_iff {s : Str} (hs : Closed s) {es : List Element} (h : ∀ e ∈ es, e.WellFormed)
    {blank : Str} (hblank : IsBlank blank) :
    arguments (s ++ (es.flatMap Element.write ++ blank)) = es.filterMap Element.read ↔
      (residue s).Unnoticed (arguments s) (es.filterMap Element.read) := by
  have hlater : arguments (es.flatMap Element.write ++ blank) = es.filterMap Element.read := by
    rw [arguments_elements h, arguments_of_none (nextArgument_blank (notMem_blank hblank (by decide))),
      List.append_nil]
  obtain ⟨args, hargs, hleaves⟩ := arguments_closed hs (es.flatMap Element.write ++ blank)
  rw [hargs]
  cases hr : residue s with
  | passed =>
      rw [hr] at hleaves
      obtain rfl : args = es.filterMap Element.read := hleaves.trans hlater
      exact List.append_left_eq_self
  | stuck name =>
      rw [hr] at hleaves
      cases name with
      | none =>
          obtain rfl : args = [] := hleaves
          rw [List.append_nil]
          rfl
      | some name =>
          rw [Residue.Leaves] at hleaves
          by_cases hname : ∀ a ∈ es.filterMap Element.read, a.name ≠ name
          · rw [(noEnd_elements h hblank hname).findCloseForName_eq] at hleaves
            obtain rfl : args = [] := hleaves
            rw [List.append_nil]
            exact (and_iff_right hname).symm
          · refine iff_of_false (fun heq => ?_) fun hu => hname hu.1
            simp only [not_forall, not_not] at hname
            obtain ⟨a, ha, ha'⟩ := hname
            obtain ⟨close, hclose, hlt⟩ := findCloseForName_elements h ⟨a, ha, ha'⟩ blank
            rw [hclose] at hleaves
            obtain ⟨r, rest, rfl⟩ := hleaves
            -- the value has a tag in it, and the values of elements have none
            have hmem : { name := name, value := Str.trim (r ++ List.take close.1 _) } ∈
                es.filterMap Element.read := heq ▸ List.mem_append_right _ (List.mem_cons_self ..)
            obtain ⟨e, he, hread⟩ := List.mem_filterMap.mp hmem
            obtain ⟨text, htext, hvalue⟩ := Option.map_eq_some_iff.mp hread
            have hvalue' : Str.trim text = Str.trim (r ++ List.take close.1 _) :=
              congrArg ArgumentRef.value hvalue
            have hin : '<' ∈ Str.trim text := by
              rw [hvalue']
              exact Str.mem_trim_of_mem (List.mem_append_right _ hlt) (by decide)
            exact (h e he).text text htext (Str.mem_of_mem_trim hin)

/-! The action -/

namespace Frame
variable {f : Frame} (h : f.WellFormed)
include h

/-- The action ends at the first end tag of its name, if no end tag of the body comes before it. -/
theorem parseActionRequest_rest (hhead : f.action.HeadKept) {rest : Str} {body : Nat × Nat}
    (hbody : findCloseForName "Body".toList (rest ++ f.ending) 0 = some body) :
    parseActionRequest (f.wrap (f.beforeAction ++ (startTag f.action f.actionAttrs ++ rest))) =
      match (findCloseForName f.action.name (rest ++ f.ending) 0).filter (·.1 < body.1) with
      | none => .error .missingAction
      | some close => f.read ((rest ++ f.ending).take close.1) := by
  have hstart := noEnd_actionStart h "Body".toList
  have htext : findElementBody (f.wrap (f.beforeAction ++ (startTag f.action f.actionAttrs ++ rest)))
      "Body".toList =
        some (f.beforeAction ++ (startTag f.action f.actionAttrs ++ (rest ++ f.ending).take body.1)) := by
    rw [findElementBody_wrap h, ← List.append_assoc, List.append_assoc _ rest, hstart,
      findCloseForName_zero, hbody, Option.map_some, Option.map_some, Nat.zero_add,
      List.take_length_add_append, List.append_assoc]
  have htake : findCloseForName f.action.name ((rest ++ f.ending).take body.1) 0 =
      (findCloseForName f.action.name (rest ++ f.ending) 0).filter (·.1 < body.1) :=
    findCloseForName_take h.action_ne_body hbody
  rw [parseActionRequest_wrap h hhead htext, htake]
  cases hclose : (findCloseForName f.action.name (rest ++ f.ending) 0).filter (·.1 < body.1) with
  | none => rfl
  | some close =>
      have hlt : close.1 < body.1 := by simpa using (Option.filter_eq_some_iff.mp hclose).2
      dsimp only
      rw [List.take_take, Nat.min_eq_left hlt.le]

/-- A request with a closed text in its action. What is taken for the inside of the action ends
where the first end tag of its name is, in the text or behind it. -/
theorem parseActionRequest_closed (hhead : f.action.HeadKept) {s t v : Str} (ht : Closed t)
    (hs : ∀ name ∈ [f.action.name, "Body".toList], NoEnd name s)
    (hv : ∀ name ∈ [f.action.name, "Body".toList], NoEnd name v) :
    parseActionRequest (f.text (s ++ (t ++ v))) =
      match findCloseForName f.action.name t 0, findCloseForName "Body".toList t 0 with
      | none, none => f.read (s ++ (t ++ v))
      | none, some _ => .error .missingAction
      | some close, none => f.read (s ++ t.take close.1)
      | some close, some body =>
          if close.1 < body.1 then f.read (s ++ t.take close.1) else .error .missingAction := by
  rw [List.forall_mem_cons, List.forall_mem_singleton] at hs hv
  have htext : f.text (s ++ (t ++ v)) = f.wrap (f.beforeAction ++ (startTag f.action f.actionAttrs ++
      (s ++ (t ++ (v ++ (endTag f.action ++ f.beforeBodyEnd)))))) := by
    simp only [text, content, List.append_assoc]
  have hrest : s ++ (t ++ (v ++ (endTag f.action ++ f.beforeBodyEnd))) ++ f.ending =
      s ++ (t ++ (v ++ (endTag f.action ++ f.beforeBodyEnd) ++ f.ending)) := by
    simp only [List.append_assoc]
  have haction := findCloseForName_behind hs.1 ht (v ++ (endTag f.action ++ f.beforeBodyEnd) ++ f.ending)
  have hbody := findCloseForName_behind hs.2 ht (v ++ (endTag f.action ++ f.beforeBodyEnd) ++ f.ending)
  rw [← hrest] at haction hbody
  have htake : ∀ n ≤ t.length, (s ++ (t ++ (v ++ (endTag f.action ++ f.beforeBodyEnd))) ++ f.ending).take
      (s.length + n) = s ++ t.take n := fun n hn => by
    rw [hrest, List.take_length_add_append, List.take_append_of_le_length hn]
  cases ha : findCloseForName f.action.name t 0 with
  | none =>
      cases hb : findCloseForName "Body".toList t 0 with
      | none =>
          exact parseActionRequest_text h hhead (hs.1.append ((ht.noEnd ha).append hv.1))
            (hs.2.append ((ht.noEnd hb).append hv.2))
      | some body =>
          rw [hb, Option.map_some, Option.some_or] at hbody
          have hafter : (findCloseForName f.action.name
              (s ++ (t ++ (v ++ (endTag f.action ++ f.beforeBodyEnd))) ++ f.ending) 0).filter
                (·.1 < s.length + body.1) = none := by
            rw [haction, ha, Option.map_none, Option.none_or, Option.filter_eq_none_iff]
            intro found hfound
            have hbound := (findCloseForName_bounds hb).2
            have hbound' := (findCloseForName_bounds hfound).1
            simp only [decide_eq_true_eq]
            omega
          rw [htext, parseActionRequest_rest h hhead hbody, hafter]
  | some close =>
      have hbound : close.1 + close.2 ≤ t.length := by simpa using (findCloseForName_bounds ha).2
      rw [ha, Option.map_some, Option.some_or] at haction
      cases hb : findCloseForName "Body".toList t 0 with
      | none =>
          have hend : NoEnd "Body".toList (v ++ (endTag f.action ++ f.beforeBodyEnd)) :=
            hv.2.append ((noEnd_endTag h.action h.action_ne_body).append (noEnd_blank h.beforeBodyEnd _))
          have hname : f.bodyName.name = "Body".toList := rfl
          rw [hb, Option.map_none, Option.none_or, hend, ending,
            findCloseForName_endTag (bodyName_wellFormed h), if_pos hname] at hbody
          have hpos : 0 < (v ++ (endTag f.action ++ f.beforeBodyEnd)).length := by
            simp [endTag]
          rw [htext, parseActionRequest_rest h hhead hbody, haction,
            Option.filter_some_pos (by simp only [decide_eq_true_eq]; omega)]
          exact congrArg f.read (htake _ (by omega))
      | some body =>
          rw [hb, Option.map_some, Option.some_or] at hbody
          rw [htext, parseActionRequest_rest h hhead hbody, haction]
          dsimp only
          by_cases hlt : close.1 < body.1
          · rw [if_pos hlt, Option.filter_some_pos (by simpa using hlt)]
            exact congrArg f.read (htake _ (by omega))
          · rw [if_neg hlt, Option.filter_some_neg (by simpa using hlt)]

end Frame

/-! Requests with a comment -/

/-- Where a comment stands in a request: before the action, or in it between the elements. -/
inductive Commented where
  | beforeAction (request : Request) (blank comment : Str)
  | inAction (frame : Frame) (before : List Element) (gap comment : Str) (after : List Element)
      (blank : Str)

namespace Commented

/-- The request without the comment. -/
def plain : Commented → Str
  | .beforeAction r blank _ => r.frame.wrap (blank ++ r.frame.content r.inner)
  | .inAction f before gap _ after blank =>
      f.text (before.flatMap Element.write ++ (gap ++ (after.flatMap Element.write ++ blank)))

def text : Commented → Str
  | .beforeAction r blank c => r.frame.wrap (blank ++ (comment c ++ r.frame.content r.inner))
  | .inAction f before gap c after blank =>
      f.text (before.flatMap Element.write ++
        (gap ++ (comment c ++ (after.flatMap Element.write ++ blank))))

def WellFormed : Commented → Prop
  | .beforeAction r blank _ => r.WellFormed ∧ IsBlank blank
  | .inAction f before gap _ after blank =>
      Request.WellFormed ⟨f, before ++ after, blank⟩ ∧ IsBlank gap

/-- Where the comment goes unnoticed: nowhere before the action. In it there is no end tag of the
action or of the body in the comment, and the arguments read in it do no harm; or the action is
taken to end in the comment, after arguments that are those behind it. -/
def Unnoticed : Commented → Prop
  | .beforeAction _ _ _ => False
  | .inAction f _ _ c after _ =>
      let later := after.filterMap Element.read
      match findCloseForName f.action.name (commentRest c) 0,
        findCloseForName "Body".toList (commentRest c) 0 with
      | none, none => (residue (commentRest c)).Unnoticed (arguments (commentRest c)) later
      | none, some _ => False
      | some close, none => arguments ((commentRest c).take close.1) = later
      | some close, some body =>
          close.1 < body.1 ∧ arguments ((commentRest c).take close.1) = later

end Commented

/-- What a caller has of a request. -/
def ActionRequestRef.reading (request : ActionRequestRef) : ServiceTypeRef × Str × List ArgumentRef :=
  (request.serviceType, request.actionName, request.arguments)

/-- Whether the parser reads the same is decided by the arguments. -/
theorem reading_eq_iff {service : ServiceTypeRef} {name inner inner' : Str} {args : List ArgumentRef}
    (hinner : arguments inner' = args) :
    (Except.ok ⟨service, name, inner⟩ : Except ParseError ActionRequestRef).map
        ActionRequestRef.reading =
      (Except.ok ⟨service, name, inner'⟩ : Except ParseError ActionRequestRef).map
        ActionRequestRef.reading ↔ arguments inner = args := by
  simp only [Except.map, ActionRequestRef.reading, ActionRequestRef.arguments, hinner,
    Except.ok.injEq, Prod.mk.injEq, true_and]

section
variable {f : Frame} {before after : List Element} {gap blank : Str}
  (h : Request.WellFormed ⟨f, before ++ after, blank⟩) (hgap : IsBlank gap)
include h

/-- Parts of the inside of the action have no end tag of the action or of the body. -/
theorem noEnd_part {es : List Element} (hes : ∀ e ∈ es, e ∈ before ++ after) {s : Str}
    (hs : IsBlank s) :
    ∀ name ∈ [f.action.name, "Body".toList], NoEnd name (es.flatMap Element.write ++ s) := by
  have hwellFormed : ∀ e ∈ es, e.WellFormed := fun e he => h.elements e (hes e he)
  have hname : ∀ {name}, (∀ e ∈ es, e.name.name ≠ name) →
      ∀ a ∈ es.filterMap Element.read, a.name ≠ name := by
    intro name hne a ha
    obtain ⟨e, he, hread⟩ := List.mem_filterMap.mp ha
    rw [Element.name_of_read hread]
    exact hne e he
  rw [List.forall_mem_cons, List.forall_mem_singleton]
  exact ⟨noEnd_elements hwellFormed hs (hname fun e he => (h.elements_ne e (hes e he)).1),
    noEnd_elements hwellFormed hs (hname fun e he => (h.elements_ne e (hes e he)).2)⟩

include hgap

theorem arguments_gap (t : Str) :
    arguments (before.flatMap Element.write ++ (gap ++ t)) =
      before.filterMap Element.read ++ arguments t := by
  rw [arguments_elements fun e he => h.elements e (List.mem_append_left _ he),
    arguments_congr (nextArgument_skip (notMem_blank hgap (by decide)) t)]

/-- The request without the comment is read as it is written. -/
theorem parseActionRequest_plain :
    parseActionRequest (f.text (before.flatMap Element.write ++
        (gap ++ (after.flatMap Element.write ++ blank)))) =
      .ok ⟨f.service, f.action.name, before.flatMap Element.write ++
        (gap ++ (after.flatMap Element.write ++ blank))⟩ := by
  have hleft := noEnd_part h (fun e he => List.mem_append_left after he) hgap
  have hright := noEnd_part h (fun e he => List.mem_append_right before he) h.blank
  rw [List.forall_mem_cons, List.forall_mem_singleton] at hleft hright
  rw [← List.append_assoc, Frame.parseActionRequest_text h.frame h.legible.headKept
    (hleft.1.append hright.1) (hleft.2.append hright.2), h.legible.read_eq]

theorem arguments_plain :
    arguments (before.flatMap Element.write ++ (gap ++ (after.flatMap Element.write ++ blank))) =
      before.filterMap Element.read ++ after.filterMap Element.read := by
  rw [arguments_gap h hgap, arguments_elements fun e he => h.elements e (List.mem_append_right _ he),
    arguments_of_none (nextArgument_blank (notMem_blank h.blank (by decide))), List.append_nil]

/-- The iterator reads on in the comment. -/
theorem arguments_comment (t : Str) :
    arguments (before.flatMap Element.write ++ (gap ++ '<' :: '!' :: t)) =
      before.filterMap Element.read ++ arguments t := by
  rw [arguments_gap h hgap, arguments_congr (nextArgument_markup (.inr (.inl rfl)))]
  rfl

/-- A comment inside the action. -/
theorem comment_inAction_iff (c : Str) :
    (parseActionRequest (Commented.inAction f before gap c after blank).text).map
        ActionRequestRef.reading =
      (parseActionRequest (Commented.inAction f before gap c after blank).plain).map
        ActionRequestRef.reading ↔ (Commented.inAction f before gap c after blank).Unnoticed := by
  have hafter : ∀ e ∈ after, e.WellFormed := fun e he => h.elements e (List.mem_append_right _ he)
  have htext : (Commented.inAction f before gap c after blank).text =
      f.text ((before.flatMap Element.write ++ gap ++ ['<', '!']) ++
        (commentRest c ++ (after.flatMap Element.write ++ blank))) := by
    simp [Commented.text, comment]
  have hstart : ∀ name ∈ [f.action.name, "Body".toList],
      NoEnd name (before.flatMap Element.write ++ gap ++ ['<', '!']) := fun name hname =>
    (noEnd_part h (fun e he => List.mem_append_left after he) hgap name hname).append
      (closeFree_commentStart.noEnd name)
  have hend := noEnd_part h (fun e he => List.mem_append_right before he) h.blank
  -- the arguments before the comment are read either way
  have hcut : ∀ t, (f.read (before.flatMap Element.write ++ gap ++ ['<', '!'] ++ t)).map
      ActionRequestRef.reading =
        (parseActionRequest (Commented.inAction f before gap c after blank).plain).map
          ActionRequestRef.reading ↔ arguments t = after.filterMap Element.read := by
    intro t
    have happ : before.flatMap Element.write ++ gap ++ ['<', '!'] ++ t =
        before.flatMap Element.write ++ (gap ++ '<' :: '!' :: t) := by simp
    rw [h.legible.read_eq, happ, Commented.plain, parseActionRequest_plain h hgap,
      reading_eq_iff (arguments_plain h hgap), arguments_comment h hgap, List.append_cancel_left_eq]
  have herror : ¬ (Except.error ParseError.missingAction : Except ParseError ActionRequestRef).map
      ActionRequestRef.reading =
        (parseActionRequest (Commented.inAction f before gap c after blank).plain).map
          ActionRequestRef.reading := by
    rw [Commented.plain, parseActionRequest_plain h hgap]
    exact fun heq => by cases heq
  rw [htext, Frame.parseActionRequest_closed h.frame h.legible.headKept (closed_commentRest c) hstart
    hend]
  unfold Commented.Unnoticed
  dsimp only
  cases findCloseForName f.action.name (commentRest c) 0 with
  | none =>
      cases findCloseForName "Body".toList (commentRest c) 0 with
      | none => exact (hcut _).trans (arguments_closed_iff (closed_commentRest c) hafter h.blank)
      | some body => exact iff_of_false herror id
  | some close =>
      cases findCloseForName "Body".toList (commentRest c) 0 with
      | none => exact hcut _
      | some body =>
          dsimp only
          split
          · rename_i hlt
            exact (hcut _).trans (and_iff_right hlt).symm
          · rename_i hlt
            exact iff_of_false herror fun hu => hlt hu.1

end

/-- A comment before the action hides it. -/
theorem parseActionRequest_comment_first {f : Frame} (h : f.WellFormed) {blank : Str}
    (hblank : IsBlank blank) (c rest : Str) :
    ∃ error, parseActionRequest (f.wrap (blank ++ (comment c ++ rest))) = .error error := by
  have hstart : NoEnd "Body".toList (blank ++ ['<', '!']) :=
    (noEnd_blank hblank _).append (closeFree_commentStart.noEnd _)
  have happ : blank ++ (comment c ++ rest) ++ f.ending =
      (blank ++ ['<', '!']) ++ (commentRest c ++ (rest ++ f.ending)) := by
    simp [comment]
  rw [parseActionRequest, Frame.findElementBody_wrap h, happ, hstart, findCloseForName_zero,
    Nat.zero_add]
  cases findCloseForName "Body".toList (commentRest c ++ (rest ++ f.ending)) 0 with
  | none => exact ⟨_, rfl⟩
  | some close =>
      have hbody : (blank ++ ['<', '!'] ++ (commentRest c ++ (rest ++ f.ending))).take
          ((blank ++ ['<', '!']).length + close.1) =
            blank ++ '<' :: '!' :: (commentRest c ++ (rest ++ f.ending)).take close.1 := by
        rw [List.take_length_add_append, List.append_assoc]
        rfl
      rw [Option.map_some, Option.map_some, hbody]
      dsimp only
      rw [firstChildElement_comment (notMem_blank hblank (by decide))]
      exact ⟨_, rfl⟩

/-- White space before the action changes nothing. -/
theorem parseActionRequest_blank_first {r : Request} (h : r.WellFormed) {blank : Str}
    (hblank : IsBlank blank) :
    ∃ request, parseActionRequest (r.frame.wrap (blank ++ r.frame.content r.inner)) = .ok request := by
  let f : Frame := { r.frame with beforeAction := blank ++ r.frame.beforeAction }
  have hbefore : IsBlank f.beforeAction := fun c hc =>
    (List.mem_append.mp hc).elim (hblank c) (h.frame.beforeAction c)
  have hrequest : Request.WellFormed ⟨f, r.elements, r.blank⟩ :=
    { frame := { h.frame with beforeAction := hbefore }
      legible := ⟨h.legible.headKept, h.legible.service⟩
      elements := h.elements
      elements_ne := h.elements_ne
      blank := h.blank }
  have htext : r.frame.wrap (blank ++ r.frame.content r.inner) =
      Request.text ⟨f, r.elements, r.blank⟩ := by
    rw [Frame.content, ← List.append_assoc]
    rfl
  exact ⟨_, htext ▸ Request.parseActionRequest_text hrequest⟩

/-- A comment goes unnoticed exactly in the places and with the texts that `Unnoticed` says. -/
theorem comment_unnoticed_iff {x : Commented} (h : x.WellFormed) :
    (parseActionRequest x.text).map ActionRequestRef.reading =
      (parseActionRequest x.plain).map ActionRequestRef.reading ↔ x.Unnoticed := by
  cases x with
  | beforeAction r blank c =>
      obtain ⟨hrequest, hblank⟩ := h
      obtain ⟨error, herror⟩ := parseActionRequest_comment_first hrequest.frame hblank c
        (r.frame.content r.inner)
      obtain ⟨request, hplain⟩ := parseActionRequest_blank_first hrequest hblank
      refine iff_of_false (fun heq => ?_) id
      rw [Commented.text, Commented.plain, herror, hplain] at heq
      cases heq
  | inAction f before gap c after blank => exact comment_inAction_iff h.1 h.2 c

/-! Comments in a call of Browse -/

/-- Inside the action a comment without tags goes unnoticed. -/
theorem unnoticed_of_notMem {c : Str} (h : '<' ∉ c) (f : Frame) (before after : List Element)
    (gap blank : Str) : (Commented.inAction f before gap c after blank).Unnoticed := by
  have hlt : '<' ∉ commentRest c := by
    simp only [commentRest, List.mem_append, not_or]
    exact ⟨by decide, h, by decide⟩
  have hnone : ∀ name, findCloseForName name (commentRest c) 0 = none := fun name =>
    ((closeFree_of_notMem hlt).noEnd name).findCloseForName_eq 0
  have hresidue : residue (commentRest c) = .passed := by
    have hcut : Str.cut ['<'] (commentRest c) = none := by
      rw [Str.cut, Str.find_char_eq_none.mpr hlt]
      rfl
    rw [residue.eq_def]
    split
    · rfl
    · rename_i hs
      rw [hcut] at hs
      cases hs
  simp only [Commented.Unnoticed, hnone, hresidue]
  exact arguments_of_none (nextArgument_blank hlt)

theorem comment_unnoticed_words :
    (parseActionRequest (Commented.inAction browseFrame [] [] " words ".toList [] []).text).map
        ActionRequestRef.reading =
      (parseActionRequest (Commented.inAction browseFrame [] [] " words ".toList [] []).plain).map
        ActionRequestRef.reading :=
  (comment_unnoticed_iff (x := .inAction browseFrame [] [] " words ".toList [] [])
    ⟨browseRequest_wellFormed, isBlank_nil⟩).mpr (unnoticed_of_notMem (by decide) ..)

/-- Before the action a comment makes a request without one of a call. In the action an element in
a comment is an argument. -/
theorem comments_change_reading :
    (Str.find "--".toList " words ".toList = none ∧
      (Commented.beforeAction ⟨browseFrame, [], []⟩ [] " words ".toList).WellFormed ∧
      (∃ error, parseActionRequest
        (Commented.beforeAction ⟨browseFrame, [], []⟩ [] " words ".toList).text = .error error) ∧
      ∃ request, parseActionRequest
        (Commented.beforeAction ⟨browseFrame, [], []⟩ [] " words ".toList).plain = .ok request) ∧
    Str.find "--".toList "<A>0</A>".toList = none ∧
      (Commented.inAction browseFrame [] [] "<A>0</A>".toList [] []).WellFormed ∧
      (∃ request, parseActionRequest
          (Commented.inAction browseFrame [] [] "<A>0</A>".toList [] []).text = .ok request ∧
        request.arguments = [{ name := ['A'], value := ['0'] }]) ∧
      ∃ request, parseActionRequest
          (Commented.inAction browseFrame [] [] "<A>0</A>".toList [] []).plain = .ok request ∧
        request.arguments = [] := by
  have hname : IsXmlNcName ['A'] := by decide
  have hargument : (oneCharArgument 'A').WellFormed := ⟨nofun, ⟨nofun, hname⟩, by decide⟩
  have hinner : ∀ name, ['A'] ≠ name →
      NoEnd name (['<', '!'] ++ ("--".toList ++ ((oneCharArgument 'A').write ++ "-->".toList))) :=
    fun name hne => (closeFree_commentStart.noEnd name).append
      (((closeFree_of_notMem (by decide)).noEnd name).append
        ((ArgumentElement.noEnd_write hargument hne).append
          ((closeFree_of_notMem (by decide)).noEnd name)))
  have hread : arguments ("--".toList ++ ((oneCharArgument 'A').write ++ "-->".toList)) =
      [(oneCharArgument 'A').read] := by
    rw [arguments_congr (nextArgument_skip (by decide) _),
      arguments_of_some (ArgumentElement.nextArgument_write hargument (kept_of_letters (by decide)) _),
      arguments_of_none (nextArgument_blank (by decide))]
  have hparse : parseActionRequest (Commented.inAction browseFrame [] [] "<A>0</A>".toList [] []).text =
      .ok ⟨browseFrame.service, browseFrame.action.name,
        ['<', '!'] ++ ("--".toList ++ ((oneCharArgument 'A').write ++ "-->".toList))⟩ := by
    rw [← browseFrame_legible.read_eq,
      ← Frame.parseActionRequest_text browseFrame_wellFormed browseFrame_headKept
        (hinner _ (by decide)) (hinner _ (by decide))]
    rfl
  refine ⟨⟨by decide, ⟨browseRequest_wellFormed, isBlank_nil⟩,
    parseActionRequest_comment_first browseFrame_wellFormed isBlank_nil _ _,
    parseActionRequest_blank_first browseRequest_wellFormed isBlank_nil⟩,
    by decide, ⟨browseRequest_wellFormed, isBlank_nil⟩, ⟨_, hparse, ?_⟩, _,
    parseActionRequest_plain browseRequest_wellFormed isBlank_nil,
    arguments_plain browseRequest_wellFormed isBlank_nil⟩
  exact (arguments_congr (nextArgument_markup (.inr (.inl rfl)))).trans hread

end RustyCastle.Upnp
