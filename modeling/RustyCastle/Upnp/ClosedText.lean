import RustyCastle.Upnp.SoapElements

/-!
Texts that end where a tag ends. No tag in such a text goes on in what stands behind it, so both
scans, the one for an end tag and the one for arguments, can be taken apart at its end.
-/

namespace RustyCastle.Upnp
open Foundation Foundation.Xml

def Closed (s : Str) : Prop := ∀ c ∈ s.getLast?, c = '>'

theorem Closed.right {s t : Str} (h : Closed (s ++ t)) : Closed t := by
  intro c hc
  refine h c ?_
  rw [List.getLast?_append, Option.mem_def.mp hc]
  rfl

theorem Closed.tail {c : Char} {s : Str} (h : Closed (c :: s)) : Closed s := h.right (s := [c])

/-- A tag that starts in the text ends in it. -/
theorem Closed.mem {s t : Str} {c : Char} (h : Closed (s ++ c :: t)) (hc : c ≠ '>') : '>' ∈ t := by
  cases hlast : t.getLast? with
  | none =>
      rw [List.getLast?_eq_none_iff] at hlast
      subst hlast
      exact absurd (h c (by simp)) hc
  | some d =>
      have hd : d = '>' := h.right.tail d hlast
      exact hd ▸ List.mem_of_getLast? hlast

/-! End tags -/

theorem closeFree_of_closed {s : Str} (h : Closed s) (hnone : Str.find "</".toList s = none) :
    CloseFree s := by
  induction s with
  | nil => exact closeFree_of_notMem (by simp)
  | cons c s ih =>
      obtain ⟨hnot, htail⟩ := Str.find_cons_eq_none.mp hnone
      have hlit : "</".toList = ['<', '/'] := by decide
      refine closeFree_cons (fun rest hp => hnot ?_) (ih h.tail htail)
      rw [hlit] at hp ⊢
      obtain ⟨rfl, hslash⟩ := List.cons_prefix_cons.mp hp
      cases s with
      | nil => exact absurd (h '<' rfl) (by decide)
      | cons d s =>
          obtain ⟨rfl, -⟩ := List.cons_prefix_cons.mp hslash
          exact ⟨s, rfl⟩

/-- What a text with an end tag is cut into. -/
theorem cut_endTag {rest before after tag next : Str} (h : Str.cut "</".toList rest = some (before, after))
    (h' : Str.cut ['>'] after = some (tag, next)) :
    rest = before ++ "</".toList ++ (tag ++ '>' :: next) ∧
      Str.find "</".toList (before ++ ['<']) = none ∧ '>' ∉ tag := by
  obtain ⟨rfl, hbefore⟩ := (Str.cut_eq_some (by decide)).mp h
  obtain ⟨rfl, htag⟩ := Str.cut_char_eq_some.mp h'
  exact ⟨rfl, hbefore, htag⟩

/-- The search for an end tag goes through a text first and then through what is behind it. -/
theorem findCloseForName_closed {s : Str} (h : Closed s) (name rest : Str) (offset : Nat) :
    findCloseForName name (s ++ rest) offset =
      (findCloseForName name s offset).or (findCloseForName name rest (offset + s.length)) := by
  fun_induction findCloseForName name s offset with
  | case1 s offset hcut =>
      have hnone : Str.find "</".toList s = none := Option.map_eq_none_iff.mp hcut
      exact findCloseForName_append (closeFree_of_closed h hnone) name rest offset
  | case2 s offset before after hcut hcut' =>
      obtain ⟨rfl, -⟩ := (Str.cut_eq_some (by decide)).mp hcut
      rw [Str.cut, Option.map_eq_none_iff, Str.find_char_eq_none] at hcut'
      have hslash : Closed ((before ++ ['<']) ++ '/' :: after) := by simpa using h
      exact absurd (hslash.mem (by decide)) hcut'
  | case3 s offset before after hcut tag next hcut' hname =>
      obtain ⟨rfl, hbefore, htag⟩ := cut_endTag hcut hcut'
      rw [List.append_assoc _ _ rest, List.append_assoc tag, List.cons_append,
        findCloseForName_tag hbefore htag, if_pos hname, Option.some_or]
  | case4 s offset before after hcut tag next hcut' hname ih =>
      obtain ⟨rfl, hbefore, htag⟩ := cut_endTag hcut hcut'
      have hnext : Closed next := by
        have happ : before ++ "</".toList ++ (tag ++ '>' :: next) =
            (before ++ "</".toList ++ tag ++ ['>']) ++ next := by simp
        rw [happ] at h
        exact h.right
      have hlen : offset + (before ++ "</".toList ++ (tag ++ '>' :: next)).length =
          offset + before.length + 2 + tag.length + 1 + next.length := by
        simp
        omega
      rw [List.append_assoc _ _ rest, List.append_assoc tag, List.cons_append,
        findCloseForName_tag hbefore htag, if_neg hname, ih hnext, hlen]

theorem findCloseForName_bounds {name s : Str} {offset : Nat} {close : Nat × Nat}
    (h : findCloseForName name s offset = some close) :
    offset ≤ close.1 ∧ close.1 + close.2 ≤ offset + s.length := by
  fun_induction findCloseForName name s offset with
  | case1 => cases h
  | case2 => cases h
  | case3 s offset before after hcut tag next hcut' hname =>
      obtain ⟨rfl, -, -⟩ := cut_endTag hcut hcut'
      cases h
      simp
      omega
  | case4 s offset before after hcut tag next hcut' hname ih =>
      obtain ⟨rfl, -, -⟩ := cut_endTag hcut hcut'
      have hnext := ih h
      simp
      omega

/-- The search only shifts with the offset. -/
theorem findCloseForName_shift (name s : Str) (n offset : Nat) :
    findCloseForName name s (n + offset) =
      (findCloseForName name s offset).map fun close => (n + close.1, close.2) := by
  fun_induction findCloseForName name s offset with
  | case1 s offset hcut =>
      rw [findCloseForName.eq_def]
      split
      · rfl
      · rename_i hs
        rw [hcut] at hs
        cases hs
  | case2 s offset before after hcut hcut' =>
      rw [findCloseForName.eq_def]
      split
      · rfl
      · rename_i hs
        rw [hcut] at hs
        cases hs
        split
        · rfl
        · rename_i hs'
          rw [hcut'] at hs'
          cases hs'
  | case3 s offset before after hcut tag next hcut' hname =>
      obtain ⟨rfl, hbefore, htag⟩ := cut_endTag hcut hcut'
      rw [findCloseForName_tag hbefore htag, if_pos hname, Option.map_some, Nat.add_assoc]
  | case4 s offset before after hcut tag next hcut' hname ih =>
      obtain ⟨rfl, hbefore, htag⟩ := cut_endTag hcut hcut'
      rw [findCloseForName_tag hbefore htag, if_neg hname, ← ih]
      simp only [Nat.add_assoc]

theorem findCloseForName_zero (name s : Str) (offset : Nat) :
    findCloseForName name s offset =
      (findCloseForName name s 0).map fun close => (offset + close.1, close.2) :=
  findCloseForName_shift name s offset 0

theorem Closed.noEnd {s : Str} (h : Closed s) {name : Str} (hnone : findCloseForName name s 0 = none) :
    NoEnd name s := fun rest offset => by
  rw [findCloseForName_closed h, findCloseForName_zero, hnone, Option.map_none, Option.none_or]

/-- The search for an end tag where a closed text stands behind one without such a tag. -/
theorem findCloseForName_behind {s t : Str} {name : Str} (hs : NoEnd name s) (ht : Closed t) (rest : Str) :
    findCloseForName name (s ++ (t ++ rest)) 0 =
      ((findCloseForName name t 0).map fun close => (s.length + close.1, close.2)).or
        (findCloseForName name rest (s.length + t.length)) := by
  rw [hs, findCloseForName_closed ht, findCloseForName_zero, Nat.zero_add]

/-- Before the first end tag of one name the search for another finds what it finds there in the
whole text. -/
theorem findCloseForName_take {a b s : Str} (hne : a ≠ b) {offset : Nat} {close : Nat × Nat}
    (h : findCloseForName b s offset = some close) :
    findCloseForName a (s.take (close.1 - offset)) offset =
      (findCloseForName a s offset).filter (·.1 < close.1) := by
  fun_induction findCloseForName b s offset with
  | case1 => cases h
  | case2 => cases h
  | case3 s offset before after hcut tag next hcut' hname =>
      obtain ⟨rfl, hbefore, htag⟩ := cut_endTag hcut hcut'
      obtain rfl := Option.some.inj h
      have hnone : findCloseForName a before offset = none := by
        have hcut'' : Str.cut "</".toList before = none :=
          Option.map_eq_none_iff.mpr (Str.find_eq_none_of_append hbefore)
        rw [findCloseForName.eq_def]
        split
        · rfl
        · rename_i hs
          rw [hcut''] at hs
          cases hs
      have htake : (before ++ "</".toList ++ (tag ++ '>' :: next)).take (offset + before.length - offset) =
          before := by
        rw [Nat.add_sub_cancel_left, List.append_assoc, List.take_left]
      have hother : elementName tag ≠ some a := fun ha => hne (Option.some.inj (ha.symm.trans hname))
      rw [htake, hnone, findCloseForName_tag hbefore htag, if_neg hother, eq_comm,
        Option.filter_eq_none_iff]
      intro found hfound
      have hbound := (findCloseForName_bounds hfound).1
      simp only [decide_eq_true_eq]
      omega
  | case4 s offset before after hcut tag next hcut' hname ih =>
      obtain ⟨rfl, hbefore, htag⟩ := cut_endTag hcut hcut'
      have hbound := (findCloseForName_bounds h).1
      have htake : (before ++ "</".toList ++ (tag ++ '>' :: next)).take (close.1 - offset) =
          before ++ "</".toList ++ (tag ++ '>' ::
            next.take (close.1 - (offset + before.length + 2 + tag.length + 1))) := by
        have hlen : "</".toList.length = 2 := by decide
        have hlong : close.1 - offset = (before ++ "</".toList ++ (tag ++ ['>'])).length +
            (close.1 - (offset + before.length + 2 + tag.length + 1)) := by
          simp only [List.length_append, hlen, List.length_singleton]
          omega
        have happ : ∀ t, before ++ "</".toList ++ (tag ++ '>' :: t) =
            before ++ "</".toList ++ (tag ++ ['>']) ++ t := fun t => by simp
        rw [happ next, happ (next.take _), hlong, List.take_length_add_append]
      rw [htake, findCloseForName_tag hbefore htag, findCloseForName_tag hbefore htag]
      by_cases ha : elementName tag = some a
      · have hlt : offset + before.length < close.1 := by omega
        rw [if_pos ha, if_pos ha, Option.filter_some_pos (by simpa using hlt)]
      · rw [if_neg ha, if_neg ha, ih h]

/-! Arguments -/

/-- The iterator at the first character that may start a tag. -/
theorem nextArgument_lt {before : Str} (h : '<' ∉ before) (afterLt : Str) :
    nextArgument (before ++ '<' :: afterLt) = nextArgument ('<' :: afterLt) := by
  have hcut : Str.cut ['<'] (before ++ '<' :: afterLt) = some (before, afterLt) := Str.cut_char _ h
  have hcut' : Str.cut ['<'] ('<' :: afterLt) = some ([], afterLt) := Str.cut_char (u := []) _ (by simp)
  rw [nextArgument.eq_def, nextArgument.eq_def ('<' :: afterLt)]
  split
  · rename_i hn
    rw [hcut] at hn
    cases hn
  · rename_i hs
    rw [hcut] at hs
    cases hs
    symm
    split
    · rename_i hn
      rw [hcut'] at hn
      cases hn
    · rename_i hs'
      rw [hcut'] at hs'
      cases hs'
      rfl

theorem nextArgument_skip {s : Str} (h : '<' ∉ s) (w : Str) : nextArgument (s ++ w) = nextArgument w := by
  cases hcut : Str.cut ['<'] w with
  | none =>
      rw [Str.cut, Option.map_eq_none_iff, Str.find_char_eq_none] at hcut
      rw [nextArgument_blank hcut, nextArgument_blank (by simp [h, hcut])]
  | some r =>
      obtain ⟨rfl, hbefore⟩ := Str.cut_char_eq_some.mp hcut
      rw [← List.append_assoc, nextArgument_lt (by simp [h, hbefore]), nextArgument_lt hbefore]

/-- The iterator goes one character past the start of an end tag or of other markup. -/
theorem nextArgument_markup {afterLt : Str}
    (h : afterLt.head? = some '/' ∨ afterLt.head? = some '!' ∨ afterLt.head? = some '?') :
    nextArgument ('<' :: afterLt) = nextArgument (afterLt.drop 1) := by
  have hcut : Str.cut ['<'] ('<' :: afterLt) = some ([], afterLt) := Str.cut_char (u := []) _ (by simp)
  rw [nextArgument.eq_def]
  split
  · rename_i hn
    rw [hcut] at hn
    cases hn
  · rename_i hs
    rw [hcut] at hs
    cases hs
    rw [if_pos h]

/-- What the iterator has come to when it ends: there is no further tag, or it cannot go past a
tag, which has no name or no end tag behind it. -/
inductive Residue where
  | passed
  | stuck (name : Option Str)

def residue (rest : Str) : Residue :=
  match _h : Str.cut ['<'] rest with
  | none => .passed
  | some (_, afterLt) =>
      if afterLt.head? = some '/' ∨ afterLt.head? = some '!' ∨ afterLt.head? = some '?' then
        residue (afterLt.drop 1)
      else
        match _h' : Str.cut ['>'] afterLt with
        | none => .stuck none
        | some (raw, content) =>
            let tag := Str.trim raw
            if tag.getLast? = some '/' then residue content
            else
              match elementName tag with
              | none => .stuck none
              | some name =>
                  match findCloseForName name content 0 with
                  | none => .stuck (some name)
                  | some close => residue (content.drop (close.1 + close.2))
  termination_by rest.length
  decreasing_by
    · have := Str.length_of_cut (List.cons_ne_nil _ []) _h
      simp only [List.length_drop]
      omega
    · exact (Str.length_of_cut (List.cons_ne_nil _ []) _h').trans
        (Str.length_of_cut (List.cons_ne_nil _ []) _h)
    · have hlt := (Str.length_of_cut (List.cons_ne_nil _ []) _h').trans
        (Str.length_of_cut (List.cons_ne_nil _ []) _h)
      simp only [List.length_drop]
      omega

/-- What the iterator gives after its end when more text follows. -/
def Residue.Leaves (w : Str) : Residue → List ArgumentRef → Prop
  | .passed, args => args = arguments w
  | .stuck none, args => args = []
  | .stuck (some name), args =>
      match findCloseForName name w 0 with
      | none => args = []
      | some close => ∃ r rest,
          args = { name := name, value := Str.trim (r ++ w.take close.1) } :: rest

/-- What a text with a start tag is cut into. -/
theorem cut_tag {rest before afterLt raw content : Str} (h : Str.cut ['<'] rest = some (before, afterLt))
    (h' : Str.cut ['>'] afterLt = some (raw, content))
    (hmarkup : ¬ (afterLt.head? = some '/' ∨ afterLt.head? = some '!' ∨ afterLt.head? = some '?')) :
    rest = before ++ '<' :: afterLt ∧ '<' ∉ before ∧ afterLt = raw ++ '>' :: content ∧ '>' ∉ raw ∧
      ∀ c ∈ raw.head?, c ≠ '/' ∧ c ≠ '!' ∧ c ≠ '?' := by
  obtain ⟨rfl, hbefore⟩ := Str.cut_char_eq_some.mp h
  obtain ⟨rfl, hraw⟩ := Str.cut_char_eq_some.mp h'
  refine ⟨rfl, hbefore, rfl, hraw, fun c hc => ?_⟩
  have hhead : (raw ++ '>' :: content).head? = some c := by
    rw [List.head?_append, Option.mem_def.mp hc, Option.some_or]
  simpa [hhead, not_or] using hmarkup

/-- The arguments of a text with another behind it. -/
theorem arguments_closed {s : Str} (h : Closed s) (w : Str) :
    ∃ args, arguments (s ++ w) = arguments s ++ args ∧ (residue s).Leaves w args := by
  fun_induction residue s with
  | case1 s hcut =>
      have hlt : '<' ∉ s := by
        rwa [Str.cut, Option.map_eq_none_iff, Str.find_char_eq_none] at hcut
      refine ⟨arguments w, ?_, rfl⟩
      rw [arguments_of_none (nextArgument_blank hlt), List.nil_append,
        arguments_congr (nextArgument_skip hlt w)]
  | case2 s before afterLt hcut hmarkup ih =>
      obtain ⟨rfl, hbefore⟩ := Str.cut_char_eq_some.mp hcut
      cases afterLt with
      | nil => simp at hmarkup
      | cons c afterLt =>
          obtain ⟨args, hargs, hleaves⟩ := ih h.right.tail.tail
          have hnext : ∀ t, arguments (before ++ '<' :: c :: t) = arguments t := fun t =>
            arguments_congr ((nextArgument_lt hbefore _).trans (nextArgument_markup hmarkup))
          refine ⟨args, ?_, hleaves⟩
          rw [List.append_assoc, List.cons_append, List.cons_append, hnext, hnext]
          exact hargs
  | case3 s before afterLt hcut hmarkup hcut' =>
      obtain ⟨rfl, -⟩ := Str.cut_char_eq_some.mp hcut
      rw [Str.cut, Option.map_eq_none_iff, Str.find_char_eq_none] at hcut'
      exact absurd (h.mem (by decide)) hcut'
  | case4 s before afterLt hcut hmarkup raw content hcut' tag hslash ih =>
      obtain ⟨rfl, hbefore, rfl, hraw, hhead⟩ := cut_tag hcut hcut' hmarkup
      have hnext : ∀ t, arguments (before ++ '<' :: (raw ++ '>' :: t)) = arguments t := fun t =>
        arguments_congr (by rw [nextArgument_tag hbefore hraw hhead, if_pos hslash])
      obtain ⟨args, hargs, hleaves⟩ := ih h.right.tail.right.tail
      refine ⟨args, ?_, hleaves⟩
      rw [List.append_assoc, List.cons_append, List.append_assoc, List.cons_append, hnext, hnext, hargs]
  | case5 s before afterLt hcut hmarkup raw content hcut' tag hslash hname =>
      obtain ⟨rfl, hbefore, rfl, hraw, hhead⟩ := cut_tag hcut hcut' hmarkup
      have hnone : ∀ t, arguments (before ++ '<' :: (raw ++ '>' :: t)) = [] := fun t =>
        arguments_of_none (by
          rw [nextArgument_tag hbefore hraw hhead, if_neg hslash, hname, Option.bind_none])
      refine ⟨[], ?_, rfl⟩
      rw [List.append_assoc, List.cons_append, List.append_assoc, List.cons_append, hnone, hnone,
        List.append_nil]
  | case6 s before afterLt hcut hmarkup raw content hcut' tag hslash name hname hclose =>
      obtain ⟨rfl, hbefore, rfl, hraw, hhead⟩ := cut_tag hcut hcut' hmarkup
      have hnext : ∀ t, nextArgument (before ++ '<' :: (raw ++ '>' :: t)) =
          (findCloseForName name t 0).map fun close =>
            ({ name := name, value := Str.trim (t.take close.1) }, t.drop (close.1 + close.2)) :=
        fun t => by rw [nextArgument_tag hbefore hraw hhead, if_neg hslash, hname, Option.bind_some]
      have hnone : arguments (before ++ '<' :: (raw ++ '>' :: content)) = [] :=
        arguments_of_none (by rw [hnext, hclose, Option.map_none])
      have hbehind : findCloseForName name (content ++ w) 0 =
          (findCloseForName name w 0).map fun close => (content.length + close.1, close.2) := by
        rw [findCloseForName_closed h.right.tail.right.tail, hclose, Option.none_or,
          findCloseForName_zero, Nat.zero_add]
      rw [hnone, List.append_assoc, List.cons_append, List.append_assoc, List.cons_append]
      simp only [List.nil_append, exists_eq_left', Residue.Leaves]
      cases hw : findCloseForName name w 0 with
      | none => exact arguments_of_none (by rw [hnext, hbehind, hw]; rfl)
      | some close =>
          have hsome : nextArgument (before ++ '<' :: (raw ++ '>' :: (content ++ w))) =
              some ({ name := name, value := Str.trim (content ++ w.take close.1) },
                (content ++ w).drop (content.length + close.1 + close.2)) := by
            rw [hnext, hbehind, hw, Option.map_some, Option.map_some, List.take_length_add_append]
          exact ⟨content, _, arguments_of_some hsome⟩
  | case7 s before afterLt hcut hmarkup raw content hcut' tag hslash name hname close hclose ih =>
      obtain ⟨rfl, hbefore, rfl, hraw, hhead⟩ := cut_tag hcut hcut' hmarkup
      have hnext : ∀ t, findCloseForName name t 0 = some close →
          arguments (before ++ '<' :: (raw ++ '>' :: t)) =
            { name := name, value := Str.trim (t.take close.1) } ::
              arguments (t.drop (close.1 + close.2)) := fun t ht =>
        arguments_of_some (by
          rw [nextArgument_tag hbefore hraw hhead, if_neg hslash, hname, Option.bind_some, ht,
            Option.map_some])
      have hcontent : Closed content := h.right.tail.right.tail
      have hclose' : findCloseForName name (content ++ w) 0 = some close := by
        rw [findCloseForName_closed hcontent, hclose, Option.some_or]
      have hbound : close.1 + close.2 ≤ content.length := by
        simpa using (findCloseForName_bounds hclose).2
      have hdrop : Closed (content.drop (close.1 + close.2)) := by
        rw [← List.take_append_drop (close.1 + close.2) content] at hcontent
        exact hcontent.right
      obtain ⟨args, hargs, hleaves⟩ := ih hdrop
      refine ⟨args, ?_, hleaves⟩
      rw [List.append_assoc, List.cons_append, List.append_assoc, List.cons_append, hnext _ hclose',
        hnext _ hclose, List.take_append_of_le_length (by omega), List.drop_append_of_le_length hbound,
        hargs, List.cons_append]

end RustyCastle.Upnp
