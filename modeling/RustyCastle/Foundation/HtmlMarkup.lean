import Mathlib.Data.List.Forall2
import RustyCastle.Foundation.Text

/-!
Where the markup of an HTML text is. Reading is in one of three modes: in text, in
a tag, or in an attribute value between quotes. The markup is what stands in the
tags, their brackets and the quotes included, without the attribute values. Two
texts are alike where they have the same markup.
-/

namespace Foundation.Html

inductive Mode where
  | text
  | tag
  | value (quote : Char)
  deriving DecidableEq, Repr

def Mode.next : Mode → Char → Mode
  | .text, c => if c = '<' then .tag else .text
  | .tag, c => if c = '>' then .text else if c = '"' ∨ c = '\'' then .value c else .tag
  | .value quote, c => if c = quote then .tag else .value quote

/-- The mode behind a text. -/
def after (m : Mode) (s : Str) : Mode := s.foldl Mode.next m

/-- The characters read in a tag and those that begin or end one or a value. -/
def markup : Mode → Str → Str
  | _, [] => []
  | m, c :: s => if m = .tag ∨ m.next c = .tag then c :: markup (m.next c) s else markup (m.next c) s

/-- A text without the characters that begin or end markup. -/
def Inert (s : Str) : Prop := ∀ c ∈ ['<', '>', '"', '\''], c ∉ s

instance (s : Str) : Decidable (Inert s) := inferInstanceAs (Decidable (∀ c ∈ _, _))

/-- The modes that a text outside the tags may be put in. -/
def Mode.Outside (m : Mode) : Prop := m = .text ∨ m = .value '"' ∨ m = .value '\''

theorem after_append (m : Mode) (s t : Str) : after m (s ++ t) = after (after m s) t :=
  List.foldl_append

theorem after_trans {m n p : Mode} {s t : Str} (hs : after m s = n) (ht : after n t = p) :
    after m (s ++ t) = p := by
  rw [after_append, hs, ht]

/-- The mode behind a text that is given by its characters. -/
theorem after_ofList {m n : Mode} {l : List Char} (h : after m l = n) :
    after m (String.ofList l).toList = n := by
  rw [String.toList_ofList]
  exact h

theorem after_toList_append {m n p : Mode} {s t : String} (hs : after m s.toList = n)
    (ht : after n t.toList = p) : after m (s ++ t).toList = p := by
  rw [String.toList_append]
  exact after_trans hs ht

theorem markup_append (m : Mode) (s t : Str) :
    markup m (s ++ t) = markup m s ++ markup (after m s) t := by
  induction s generalizing m with
  | nil => rfl
  | cons c s ih =>
      have htail := ih (m.next c)
      have hafter : after m (c :: s) = after (m.next c) s := rfl
      rw [List.cons_append, markup, markup, hafter, htail]
      split <;> rfl

theorem Inert.tail {c : Char} {s : Str} (h : Inert (c :: s)) : Inert s :=
  fun d hd hm => h d hd (List.mem_cons_of_mem c hm)

theorem Inert.append {s t : Str} (hs : Inert s) (ht : Inert t) : Inert (s ++ t) := fun c hc hm =>
  (List.mem_append.mp hm).elim (hs c hc) (ht c hc)

/-- A character that is no markup does not change the mode. -/
theorem next_of_inert {m : Mode} (hm : m.Outside) {c : Char} {s : Str} (h : Inert (c :: s)) :
    m.next c = m := by
  have hne : ∀ d ∈ ['<', '>', '"', '\''], c ≠ d := fun d hd he =>
    h d hd (he ▸ List.mem_cons_self ..)
  obtain rfl | rfl | rfl := hm
  · exact if_neg (hne _ (by decide))
  · exact if_neg (hne _ (by decide))
  · exact if_neg (hne _ (by decide))

theorem after_inert {m : Mode} (hm : m.Outside) {s : Str} (h : Inert s) : after m s = m := by
  induction s with
  | nil => rfl
  | cons c s ih =>
      change after (m.next c) s = m
      rw [next_of_inert hm h]
      exact ih h.tail

theorem markup_inert {m : Mode} (hm : m.Outside) {s : Str} (h : Inert s) : markup m s = [] := by
  induction s with
  | nil => rfl
  | cons c s ih =>
      have htag : m ≠ .tag := by
        rintro rfl
        exact absurd hm (by unfold Mode.Outside; decide)
      rw [markup, next_of_inert hm h, if_neg (by simp [htag])]
      exact ih h.tail

/-- Two texts that lead from one mode to another with the same markup. -/
structure Alike (m n : Mode) (s t : Str) : Prop where
  left : after m s = n
  right : after m t = n
  same : markup m s = markup m t

namespace Alike
variable {m n p : Mode} {s t u v : Str}

theorem refl (h : after m s = n) : Alike m n s s := ⟨h, h, rfl⟩

theorem inert (hm : m.Outside) (hs : Inert s) (ht : Inert t) : Alike m m s t :=
  ⟨after_inert hm hs, after_inert hm ht, by rw [markup_inert hm hs, markup_inert hm ht]⟩

theorem append (h : Alike m n s t) (h' : Alike n p u v) : Alike m p (s ++ u) (t ++ v) where
  left := after_trans h.left h'.left
  right := after_trans h.right h'.right
  same := by rw [markup_append, markup_append, h.left, h.right, h.same, h'.same]

/-- Text between two fixed texts. -/
theorem between {q : Mode} {front back : Str} (h : Alike n p s t) (hfront : after m front = n)
    (hback : after p back = q) : Alike m q (front ++ s ++ back) (front ++ t ++ back) :=
  ((refl hfront).append h).append (refl hback)

theorem flatMap {α β : Type} {f : α → Str} {g : β → Str} {as : List α} {bs : List β}
    (h : List.Forall₂ (fun a b => Alike m m (f a) (g b)) as bs) :
    Alike m m (as.flatMap f) (bs.flatMap g) := by
  induction h with
  | nil => exact refl rfl
  | cons hab _ ih =>
      rw [List.flatMap_cons, List.flatMap_cons]
      exact hab.append ih

theorem intercalate {sep : Str} (hm : m.Outside) (hsep : Inert sep) {ss ts : List Str}
    (h : List.Forall₂ (Alike m m) ss ts) :
    Alike m m (sep.intercalate ss) (sep.intercalate ts) := by
  induction h with
  | nil => exact refl rfl
  | @cons a b as bs hab hrest ih =>
      cases hrest with
      | nil => simpa using hab
      | cons _ _ =>
          rw [List.intercalate_cons_cons, List.intercalate_cons_cons]
          exact (hab.append (inert hm hsep hsep)).append ih

end Alike

/-- Texts that begin and end in text are alike themselves. -/
theorem forall₂_alike_self {ss : List Str} (h : ∀ s ∈ ss, after .text s = .text) :
    List.Forall₂ (Alike .text .text) ss ss :=
  List.forall₂_same.mpr fun s hs => .refl (h s hs)

end Foundation.Html
