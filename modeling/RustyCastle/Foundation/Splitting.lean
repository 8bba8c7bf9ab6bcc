import RustyCastle.Foundation.Text

/-!
First-occurrence search and bounded splitting. The search law is the one a
"cut at the first separator" parser needs: a separator is found at the boundary
of two pieces exactly when it does not occur earlier, overlaps with the
boundary included.
-/

namespace Foundation.Str

/-- Position of the first occurrence of `pat`, counted in characters. -/
def find (pat : Str) : Str → Option Nat
  | [] => if pat.isEmpty then some 0 else none
  | c :: s => if pat.isPrefixOf (c :: s) then some 0 else (find pat s).map (· + 1)

theorem find_cons_eq_none {pat s : Str} {c : Char} :
    find pat (c :: s) = none ↔ ¬ pat <+: c :: s ∧ find pat s = none := by
  by_cases h : pat <+: c :: s <;> simp [find, h]

theorem find_eq_none_of_length_lt {pat s : Str} (h : s.length < pat.length) :
    find pat s = none := by
  induction s with
  | nil => cases pat with
    | nil => simp at h
    | cons a pat => rfl
  | cons c s ih =>
      refine find_cons_eq_none.mpr ⟨fun hp => ?_, ih (by simp at h; omega)⟩
      exact absurd hp.length_le (by omega)

theorem find_append_eq_none {a : Char} {pat s t : Str} (h : a ∉ s)
    (ht : find (a :: pat) t = none) : find (a :: pat) (s ++ t) = none := by
  induction s with
  | nil => exact ht
  | cons c s ih =>
      rw [List.mem_cons, not_or] at h
      exact find_cons_eq_none.mpr ⟨fun hp => h.1 (List.cons_prefix_cons.mp hp).1, ih h.2⟩

theorem find_eq_none_of_notMem {a : Char} {pat s : Str} (h : a ∉ s) : find (a :: pat) s = none := by
  have hnil : find (a :: pat) [] = none := rfl
  simpa using find_append_eq_none h hnil

theorem find_eq_none_of_suffix {pat u v : Str} (h : find pat (u ++ v) = none) : find pat v = none := by
  induction u with
  | nil => exact h
  | cons c u ih => exact ih (find_cons_eq_none.mp h).2

theorem find_eq_none_of_append {pat u v : Str} (h : find pat (u ++ v) = none) :
    find pat u = none := by
  induction u with
  | nil =>
      cases pat with
      | nil => cases v <;> simp [find] at h
      | cons a pat => rfl
  | cons c u ih =>
      rw [List.cons_append, find_cons_eq_none] at h
      refine find_cons_eq_none.mpr ⟨fun hp => h.1 (hp.trans ?_), ih h.2⟩
      exact ⟨v, rfl⟩

/-- An occurrence across the boundary is already one of the left piece followed
by all but the last character of the pattern. -/
theorem find_boundary {pat u : Str} (rest : Str)
    (h : find pat (u ++ pat.dropLast) = none) :
    find pat (u ++ pat ++ rest) = some u.length := by
  induction u with
  | nil =>
      cases pat with
      | nil => simp [find] at h
      | cons a pat => simp [find]
  | cons c u ih =>
      obtain ⟨hp, hf⟩ := find_cons_eq_none.mp h
      have hcut : ¬ pat <+: c :: (u ++ pat ++ rest) := by
        intro hpre
        refine hp (List.prefix_of_prefix_length_le hpre ?_ (by simp; omega))
        have hl : u ++ pat.dropLast <+: u ++ pat :=
          (List.prefix_append_right_inj u).mpr pat.dropLast_prefix
        exact List.cons_prefix_cons.mpr ⟨rfl, hl.trans (List.prefix_append _ _)⟩
      have ih' : find pat (u ++ (pat ++ rest)) = some u.length := by
        simpa only [List.append_assoc] using ih hf
      simp only [List.append_assoc] at hcut
      simp [find, hcut, ih']

theorem find_split {pat s : Str} {i : Nat} (hne : pat ≠ []) (h : find pat s = some i) :
    s = s.take i ++ pat ++ s.drop (i + pat.length) ∧
      find pat (s.take i ++ pat.dropLast) = none := by
  induction s generalizing i with
  | nil => simp [find, hne] at h
  | cons c s ih =>
      by_cases hp : pat <+: c :: s
      · obtain rfl : 0 = i := by simpa [find, hp] using h
        obtain ⟨t, ht⟩ := hp
        refine ⟨?_, ?_⟩
        · rw [← ht]
          simp
        apply find_eq_none_of_length_lt
        have := List.length_pos_of_ne_nil hne
        simp; omega
      · obtain ⟨j, hj, rfl⟩ : ∃ j, find pat s = some j ∧ j + 1 = i := by
          simpa [find, hp] using h
        obtain ⟨hs, hn⟩ := ih hj
        refine ⟨?_, ?_⟩
        · rw [Nat.add_right_comm]
          simpa using hs
        · refine find_cons_eq_none.mpr ⟨fun hpre => hp ?_, hn⟩
          refine hpre.trans (List.cons_prefix_cons.mpr ⟨rfl, ?_⟩)
          refine ⟨pat.getLast hne :: s.drop (j + pat.length), ?_⟩
          calc
            s.take j ++ pat.dropLast ++ pat.getLast hne :: s.drop (j + pat.length)
              = s.take j ++ (pat.dropLast ++ [pat.getLast hne]) ++ s.drop (j + pat.length) := by
                simp
            _ = s := by rw [List.dropLast_concat_getLast]; exact hs.symm

/-- The text before the first occurrence of `pat` and the text after it. -/
def cut (pat s : Str) : Option (Str × Str) :=
  (find pat s).map fun i => (s.take i, s.drop (i + pat.length))

theorem cut_append {pat u : Str} (rest : Str) (h : find pat (u ++ pat.dropLast) = none) :
    cut pat (u ++ pat ++ rest) = some (u, rest) := by
  rw [cut, find_boundary rest h, Option.map_some, List.append_assoc, List.take_left,
    ← List.append_assoc, ← List.length_append, List.drop_left]

theorem cut_eq_some {pat s u rest : Str} (hne : pat ≠ []) :
    cut pat s = some (u, rest) ↔ s = u ++ pat ++ rest ∧ find pat (u ++ pat.dropLast) = none := by
  constructor
  · intro h
    obtain ⟨i, hi, he⟩ := Option.map_eq_some_iff.mp h
    obtain ⟨rfl, rfl⟩ := Prod.mk.inj he
    exact find_split hne hi
  · rintro ⟨rfl, h⟩
    exact cut_append rest h

theorem find_char_eq_none {c : Char} {s : Str} : find [c] s = none ↔ c ∉ s := by
  induction s with
  | nil => simp [find]
  | cons d s ih => simp [find_cons_eq_none, ih, List.cons_prefix_cons]

/-- Cutting at a character. -/
theorem cut_char_eq_some {c : Char} {s u rest : Str} :
    cut [c] s = some (u, rest) ↔ s = u ++ c :: rest ∧ c ∉ u := by
  rw [cut_eq_some (List.cons_ne_nil c []), List.dropLast_singleton, List.append_nil,
    find_char_eq_none, List.append_assoc]
  rfl

theorem cut_char {c : Char} {u : Str} (rest : Str) (h : c ∉ u) :
    cut [c] (u ++ c :: rest) = some (u, rest) := cut_char_eq_some.mpr ⟨rfl, h⟩

/-- A piece without the separator ends before the separator. -/
theorem prefix_of_notMem {c : Char} {u s t : Str} (h : u <+: s ++ c :: t) (hc : c ∉ u) :
    u <+: s := by
  obtain ⟨r, hr⟩ := h
  rcases List.append_eq_append_iff.mp hr with ⟨w, hw, -⟩ | ⟨w, rfl, hw⟩
  · exact ⟨w, hw.symm⟩
  · cases w with
    | nil => simp
    | cons d w =>
        obtain ⟨rfl, -⟩ := List.cons.inj hw
        exact absurd (by simp) hc

/-- A pattern without a character is found on one side of it or not at all. -/
theorem find_append_cons_eq_none {c : Char} {pat s t : Str} (hc : c ∉ pat) (hne : pat ≠ []) :
    find pat (s ++ c :: t) = none ↔ find pat s = none ∧ find pat t = none := by
  constructor
  · intro h
    have ht := find_eq_none_of_suffix h
    exact ⟨find_eq_none_of_append h, (find_cons_eq_none.mp ht).2⟩
  · rintro ⟨hs, ht⟩
    induction s with
    | nil =>
        refine find_cons_eq_none.mpr ⟨fun hp => hne ?_, ht⟩
        exact List.prefix_nil.mp (prefix_of_notMem (s := []) hp hc)
    | cons a s ih =>
        obtain ⟨hhead, htail⟩ := find_cons_eq_none.mp hs
        exact find_cons_eq_none.mpr ⟨fun hp => hhead (prefix_of_notMem hp hc), ih htail⟩

theorem length_of_cut {pat s u rest : Str} (hne : pat ≠ []) (h : cut pat s = some (u, rest)) :
    rest.length < s.length := by
  rw [((cut_eq_some hne).mp h).1, List.length_append, List.length_append]
  have := List.length_pos_of_ne_nil hne
  omega

/-- What follows does not move the first occurrence. -/
theorem cut_append_right {pat s u rest : Str} (hne : pat ≠ []) (h : cut pat s = some (u, rest))
    (t : Str) : cut pat (s ++ t) = some (u, rest ++ t) := by
  obtain ⟨rfl, hfind⟩ := (cut_eq_some hne).mp h
  rw [List.append_assoc]
  exact cut_append (rest ++ t) hfind

/-! Skipping -/

/-- No occurrence of `pat` starts in `u`, whatever follows. -/
def Skips (pat u : Str) : Prop := ∀ t, find pat (u ++ t) = (find pat t).map (· + u.length)

theorem skips_nil (pat : Str) : Skips pat [] := fun t => by simp

theorem Skips.append {pat u v : Str} (hu : Skips pat u) (hv : Skips pat v) :
    Skips pat (u ++ v) := by
  intro t
  rw [List.append_assoc, hu, hv, Option.map_map]
  congr 1
  funext i
  simp only [Function.comp_apply, List.length_append]
  omega

theorem Skips.cons {pat u : Str} {c : Char} (hu : Skips pat u)
    (hc : ∀ t, ¬ pat <+: c :: (u ++ t)) : Skips pat (c :: u) := by
  intro t
  have hno : pat.isPrefixOf (c :: (u ++ t)) = false := by
    rw [Bool.eq_false_iff, ne_eq, List.isPrefixOf_iff_prefix]
    exact hc t
  rw [List.cons_append, find, hno, if_neg Bool.false_ne_true, hu, Option.map_map]
  rfl

theorem skips_of_notMem {a : Char} {pat u : Str} (h : a ∉ u) : Skips (a :: pat) u := by
  induction u with
  | nil => exact skips_nil _
  | cons c u ih =>
      rw [List.mem_cons, not_or] at h
      exact (ih h.2).cons fun t hp => h.1 (List.cons_prefix_cons.mp hp).1

theorem cut_of_skips {pat u : Str} (h : Skips pat u) (t : Str) :
    cut pat (u ++ t) = (cut pat t).map fun r => (u ++ r.1, r.2) := by
  rw [cut, cut, h, Option.map_map, Option.map_map]
  congr 1
  funext i
  simp only [Function.comp_apply, Prod.mk.injEq]
  refine ⟨?_, ?_⟩
  · rw [Nat.add_comm i, List.take_length_add_append]
  · rw [Nat.add_comm i, Nat.add_assoc, List.drop_length_add_append]

theorem find_eq_none_of_mem {pat s : Str} {c : Char} (hc : c ∈ pat) (h : c ∉ s) :
    find pat s = none := by
  cases hf : find pat s with
  | none => rfl
  | some i =>
      have hs := (find_split (List.ne_nil_of_mem hc) hf).1
      refine absurd ?_ h
      rw [hs]
      simp [hc]

/-- Splitting at a character into at most the given number of pieces. -/
def splitn : Nat → Char → Str → List Str
  | 0, _, _ => []
  | 1, _, s => [s]
  | n + 2, sep, s =>
      match s.dropWhile (· != sep) with
      | [] => [s]
      | _ :: rest => s.takeWhile (· != sep) :: splitn (n + 1) sep rest

theorem splitn_cut {n : Nat} {sep : Char} {a rest : Str} (h : sep ∉ a) :
    splitn (n + 2) sep (a ++ sep :: rest) = a :: splitn (n + 1) sep rest := by
  have hall : ∀ c ∈ a, (c != sep) = true := by
    intro c hc
    simp only [bne_iff_ne]
    rintro rfl
    exact h hc
  simp [splitn, List.dropWhile_append_of_pos hall, List.takeWhile_append_of_pos hall]

theorem splitn_of_notMem {n : Nat} {sep : Char} {s : Str} (h : sep ∉ s) :
    splitn (n + 1) sep s = [s] := by
  cases n with
  | zero => rfl
  | succ n =>
      have hd : s.dropWhile (· != sep) = [] := by
        simp only [List.dropWhile_eq_nil_iff, bne_iff_ne]
        rintro c hc rfl
        exact h hc
      simp [splitn, hd]

theorem splitn_cases (n : Nat) (sep : Char) (s : Str) :
    (sep ∉ s ∧ splitn (n + 2) sep s = [s]) ∨
      ∃ a rest, s = a ++ sep :: rest ∧ sep ∉ a ∧
        splitn (n + 2) sep s = a :: splitn (n + 1) sep rest := by
  by_cases h : sep ∈ s
  · obtain ⟨a, rest, rfl, ha⟩ := List.append_of_mem h |>.elim fun _ _ =>
      List.eq_append_cons_of_mem h
    exact .inr ⟨a, rest, rfl, ha, splitn_cut ha⟩
  · exact .inl ⟨h, splitn_of_notMem h⟩

/-! Words, and pieces around the last separator -/

def isAsciiWhitespace (c : Char) : Bool :=
  c == ' ' || c == '\t' || c == '\n' || c == '\x0c' || c == '\r'

/-- The first of the words that ASCII white space separates. -/
def firstWord (s : Str) : Option Str :=
  let word := (s.dropWhile isAsciiWhitespace).takeWhile (! isAsciiWhitespace ·)
  if word.isEmpty then none else some word

/-- The words that white space separates. -/
def words (s : Str) : List Str := (s.splitOnP isWhitespace).filter (· ≠ [])

/-- The texts before and after the last `sep`. -/
def rsplitOnce (sep : Char) (s : Str) : Option (Str × Str) :=
  (cut [sep] s.reverse).map fun r => (r.2.reverse, r.1.reverse)

theorem firstWord_append {word rest : Str} (hne : word ≠ [])
    (hword : ∀ c ∈ word, isAsciiWhitespace c = false)
    (hrest : ∀ c ∈ rest.head?, isAsciiWhitespace c = true) :
    firstWord (word ++ rest) = some word := by
  have hdrop : (word ++ rest).dropWhile isAsciiWhitespace = word ++ rest := by
    cases word with
    | nil => exact absurd rfl hne
    | cons c word => simp [hword c (List.mem_cons_self ..)]
  have htake : (word ++ rest).takeWhile (! isAsciiWhitespace ·) = word := by
    have hkeep : ∀ c ∈ word, (! isAsciiWhitespace c) = true := fun c hc => by simp [hword c hc]
    rw [List.takeWhile_append_of_pos hkeep]
    cases rest with
    | nil => simp
    | cons c rest => simp [hrest c rfl]
  rw [firstWord, hdrop, htake]
  cases word with
  | nil => exact absurd rfl hne
  | cons c word => rfl

theorem words_append_cons {c : Char} (hc : isWhitespace c = true) (s t : Str) :
    words (s ++ c :: t) = words s ++ words t := by
  rw [words, List.splitOnP_append_cons s t hc, List.filter_append]
  rfl

theorem words_word {word : Str} (hne : word ≠ []) (hword : ∀ c ∈ word, isWhitespace c = false) :
    words word = [word] := by
  rw [words, List.splitOnP_eq_singleton hword]
  simp [hne]

theorem words_nil : words [] = [] := rfl

theorem rsplitOnce_append {sep : Char} {s : Str} (before : Str) (h : sep ∉ s) :
    rsplitOnce sep (before ++ sep :: s) = some (before, s) := by
  have hrev : (before ++ sep :: s).reverse = s.reverse ++ sep :: before.reverse := by simp
  rw [rsplitOnce, hrev, cut_char _ (by simpa using h)]
  simp

theorem rsplitOnce_of_notMem {sep : Char} {s : Str} (h : sep ∉ s) : rsplitOnce sep s = none := by
  have hfind : find [sep] s.reverse = none := find_char_eq_none.mpr (by simpa using h)
  rw [rsplitOnce, cut, hfind]
  rfl

end Foundation.Str
