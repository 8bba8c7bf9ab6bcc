import Mathlib.Data.List.Basic
import Mathlib.Data.List.Infix

/-!
A write cursor over a caller's buffer. A program of writes either puts all of
its output at the cursor or stops with the one error for a buffer that is too
small; the state survives the error, as the buffer of a failed call does.
`Emits` says which output a program stands for, and composes. A program that is a
list of writes leaves what fits in the buffer, also where it fails.
-/

namespace Foundation

structure Cursor (α : Type) where
  buf : List α
  pos : Nat
  pos_le : pos ≤ buf.length

namespace Cursor
variable {α ε : Type}

def new (buf : List α) : Cursor α := ⟨buf, 0, Nat.zero_le _⟩

/-- There is room for `src` behind the cursor. -/
def Fits (c : Cursor α) (src : List α) : Prop := c.pos + src.length ≤ c.buf.length

instance (c : Cursor α) (src : List α) : Decidable (c.Fits src) :=
  inferInstanceAs (Decidable (_ ≤ _))

/-- Overwrite the buffer from the cursor on and move the cursor behind it. -/
def put (c : Cursor α) (src : List α) (h : c.Fits src) : Cursor α where
  buf := c.buf.take c.pos ++ src ++ c.buf.drop (c.pos + src.length)
  pos := c.pos + src.length
  pos_le := by
    simp only [Fits] at h
    simp
    omega

@[simp] theorem put_pos (c : Cursor α) (src : List α) (h : c.Fits src) :
    (c.put src h).pos = c.pos + src.length := rfl

@[simp] theorem put_length (c : Cursor α) (src : List α) (h : c.Fits src) :
    (c.put src h).buf.length = c.buf.length := by
  simp only [Fits] at h
  simp [put]
  omega

theorem put_fits {c : Cursor α} {a : List α} (h : c.Fits a) (b : List α) :
    (c.put a h).Fits b ↔ c.Fits (a ++ b) := by
  simp [Fits, Nat.add_assoc]

theorem fits_left {c : Cursor α} {a b : List α} (h : c.Fits (a ++ b)) : c.Fits a := by
  simp only [Fits, List.length_append] at *
  omega

theorem put_nil (c : Cursor α) (h : c.Fits []) : c.put [] h = c := by
  cases c
  simp [put]

theorem put_put {c : Cursor α} {a b : List α} (ha : c.Fits a) (hb : (c.put a ha).Fits b)
    (h : c.Fits (a ++ b)) : (c.put a ha).put b hb = c.put (a ++ b) h := by
  have hpos : (c.buf.take c.pos).length = c.pos := by
    have := c.pos_le
    simp
    omega
  simp only [put, mk.injEq, List.length_append, Nat.add_assoc, and_true]
  have hd : (c.buf.take c.pos ++ a ++ c.buf.drop (c.pos + a.length)).take (c.pos + a.length) =
      c.buf.take c.pos ++ a := by
    rw [List.take_append_of_le_length (by simp [hpos]), List.take_of_length_le (by simp [hpos])]
  have hr : (c.buf.take c.pos ++ a ++ c.buf.drop (c.pos + a.length)).drop
      (c.pos + (a.length + b.length)) = c.buf.drop (c.pos + (a.length + b.length)) := by
    rw [List.drop_append, List.drop_of_length_le (by simp [hpos]), List.nil_append,
      List.drop_drop]
    congr 1
    simp [hpos]
  rw [hd, hr]
  simp

theorem put_new_buf {out src : List α} (h : (new out).Fits src) :
    ((new out).put src h).buf = src ++ out.drop src.length := by simp [put, new]

theorem put_new_pos {out src : List α} (h : (new out).Fits src) :
    ((new out).put src h).pos = src.length := by simp [put, new]

/-- The single write: all of `src`, or the error and an untouched buffer. -/
def write (full : ε) (src : List α) : EStateM ε (Cursor α) Unit := fun c =>
  if h : c.Fits src then .ok () (c.put src h) else .error full c

/-- The program puts exactly `out` where it fits and fails with `full` elsewhere. -/
def Emits (full : ε) (m : EStateM ε (Cursor α) Unit) (out : List α) : Prop :=
  ∀ c : Cursor α, (∀ h : c.Fits out, m c = .ok () (c.put out h)) ∧
    (¬ c.Fits out → ∃ c' : Cursor α, m c = .error full c' ∧ c'.buf.length = c.buf.length)

theorem emits_write (full : ε) (src : List α) : Emits full (write full src) src :=
  fun c => ⟨fun h => by simp [write, h], fun h => ⟨c, by simp [write, h], rfl⟩⟩

theorem emits_pure (full : ε) : Emits full (pure () : EStateM ε (Cursor α) Unit) [] := by
  intro c
  refine ⟨fun h => by rw [put_nil]; rfl, fun h => absurd ?_ h⟩
  simpa [Fits] using c.pos_le

theorem emits_bind {full : ε} {m n : EStateM ε (Cursor α) Unit} {a b : List α}
    (hm : Emits full m a) (hn : Emits full n b) :
    Emits full (m >>= fun _ => n) (a ++ b) := by
  intro c
  have hrun : ∀ c₁, m c = .ok () c₁ → (m >>= fun _ => n) c = n c₁ := by
    intro c₁ h
    simp [bind, EStateM.bind, h]
  have herr : ∀ c₁, m c = .error full c₁ → (m >>= fun _ => n) c = .error full c₁ := by
    intro c₁ h
    simp [bind, EStateM.bind, h]
  constructor
  · intro h
    have ha := fits_left h
    have hb := (put_fits ha b).mpr h
    rw [hrun _ ((hm c).1 ha), (hn _).1 hb, put_put ha hb h]
  · intro h
    by_cases ha : c.Fits a
    · have hb : ¬ (c.put a ha).Fits b := fun hb => h ((put_fits ha b).mp hb)
      obtain ⟨c', hc', hl⟩ := (hn _).2 hb
      exact ⟨c', by rw [hrun _ ((hm c).1 ha), hc'], hl.trans (put_length c a ha)⟩
    · obtain ⟨c', hc', hl⟩ := (hm c).2 ha
      exact ⟨c', herr c' hc', hl⟩

/-- An optional part emits its output when it is present. -/
theorem emits_option {β : Type} {full : ε} {m : β → EStateM ε (Cursor α) Unit}
    {out : β → List α} (h : ∀ b, Emits full (m b) (out b)) (o : Option β) :
    Emits full (match o with
      | some b => m b
      | none => pure ()) (o.elim [] out) := by
  cases o with
  | none => exact emits_pure full
  | some b => exact h b

/-- Run a program on a buffer from its start: the written slice or the error,
and the buffer as the program leaves it. -/
def encodeInto (m : EStateM ε (Cursor α) Unit) (out : List α) : Except ε (List α) × List α :=
  match m (new out) with
  | .ok _ c => (.ok (c.buf.take c.pos), c.buf)
  | .error e c => (.error e, c.buf)

theorem encodeInto_of_fits {full : ε} {m : EStateM ε (Cursor α) Unit} {bs out : List α}
    (hm : Emits full m bs) (h : bs.length ≤ out.length) :
    encodeInto m out = (.ok bs, bs ++ out.drop bs.length) := by
  have hf : (new out).Fits bs := by simpa [Fits, new] using h
  have hrun := (hm (new out)).1 hf
  simp only [encodeInto, hrun]
  simp [put, new]

theorem encodeInto_of_not_fits {full : ε} {m : EStateM ε (Cursor α) Unit} {bs out : List α}
    (hm : Emits full m bs) (h : out.length < bs.length) :
    (encodeInto m out).1 = .error full ∧ (encodeInto m out).2.length = out.length := by
  have hf : ¬ (new out).Fits bs := by
    simp [Fits, new]
    omega
  obtain ⟨c', hc', hl⟩ := (hm (new out)).2 hf
  simp only [encodeInto, hc']
  exact ⟨trivial, hl⟩

/-- A call succeeds with all of the output, or fails where the buffer is shorter. -/
theorem encodeInto_eq {full : ε} {m : EStateM ε (Cursor α) Unit} {bs : List α}
    (hm : Emits full m bs) (out : List α) :
    (encodeInto m out).1 = if out.length < bs.length then .error full else .ok bs := by
  split
  · exact (encodeInto_of_not_fits hm ‹_›).1
  · rename_i h
    rw [encodeInto_of_fits hm (Nat.not_lt.mp h)]

theorem length_encodeInto {full : ε} {m : EStateM ε (Cursor α) Unit} {bs : List α}
    (hm : Emits full m bs) (out : List α) : (encodeInto m out).2.length = out.length := by
  by_cases h : bs.length ≤ out.length
  · rw [encodeInto_of_fits hm h]
    simp
    omega
  · exact (encodeInto_of_not_fits hm (Nat.lt_of_not_le h)).2

/-! Programs that are lists of writes -/

/-- The pieces one after the other, up to the first with no room. -/
def writeAll (full : ε) : List (List α) → EStateM ε (Cursor α) Unit
  | [] => pure ()
  | piece :: pieces => do
      write full piece
      writeAll full pieces

/-- What is written of the pieces where there is room for `room` elements. -/
def fitting (room : Nat) : List (List α) → List α
  | [] => []
  | piece :: pieces =>
      if piece.length ≤ room then piece ++ fitting (room - piece.length) pieces else []

theorem writeAll_append (full : ε) (a b : List (List α)) :
    (do
      writeAll full a
      writeAll full b) = writeAll full (a ++ b) := by
  induction a with
  | nil => simp [writeAll]
  | cons piece a ih => simp [writeAll, ← ih]

theorem length_fitting_le (room : Nat) (pieces : List (List α)) :
    (fitting room pieces).length ≤ room := by
  induction pieces generalizing room with
  | nil => exact Nat.zero_le _
  | cons piece pieces ih =>
      rw [fitting]
      split
      · have := ih (room - piece.length)
        simp
        omega
      · exact Nat.zero_le _

/-- The cursor after the program, whether or not it fails. -/
def left {β : Type} : EStateM.Result ε (Cursor α) β → Cursor α
  | .ok _ c => c
  | .error _ c => c

/-- The pieces that fit are written, also by a program that fails. -/
theorem writeAll_left (full : ε) (pieces : List (List α)) (c : Cursor α) :
    ∃ h : c.Fits (fitting (c.buf.length - c.pos) pieces),
      left (writeAll full pieces c) = c.put (fitting (c.buf.length - c.pos) pieces) h := by
  induction pieces generalizing c with
  | nil => exact ⟨c.pos_le, (put_nil c c.pos_le).symm⟩
  | cons piece pieces ih =>
      have hpos := c.pos_le
      by_cases hfits : c.Fits piece
      · have hroom : piece.length ≤ c.buf.length - c.pos := by
          simp only [Fits] at hfits
          omega
        have hrun : writeAll full (piece :: pieces) c = writeAll full pieces (c.put piece hfits) := by
          simp [writeAll, write, hfits, bind, EStateM.bind]
        obtain ⟨hrest, hleft⟩ := ih (c.put piece hfits)
        have hleave : (c.put piece hfits).buf.length - (c.put piece hfits).pos =
            c.buf.length - c.pos - piece.length := by
          rw [put_length, put_pos]
          omega
        rw [hleave] at hrest
        have hall := (put_fits hfits _).mp hrest
        simp only [fitting, if_pos hroom]
        refine ⟨hall, ?_⟩
        rw [hrun, hleft, ← put_put hfits hrest hall]
        simp only [hleave]
      · have hroom : ¬ piece.length ≤ c.buf.length - c.pos := by
          simp only [Fits] at hfits
          omega
        have hrun : writeAll full (piece :: pieces) c = .error full c := by
          simp [writeAll, write, hfits, bind, EStateM.bind]
        simp only [fitting, if_neg hroom]
        refine ⟨c.pos_le, ?_⟩
        rw [hrun, put_nil]
        rfl

theorem buf_encodeInto_writeAll (full : ε) (pieces : List (List α)) (out : List α) :
    (encodeInto (writeAll full pieces) out).2 =
      fitting out.length pieces ++ out.drop (fitting out.length pieces).length := by
  obtain ⟨hfits, hleft⟩ := writeAll_left full pieces (new out)
  have hbuf : (encodeInto (writeAll full pieces) out).2 =
      (left (writeAll full pieces (new out))).buf := by
    unfold encodeInto left
    split <;> simp_all
  rw [hbuf, hleft, put_new_buf]
  rfl

/-- One of the lists begins with the other. -/
def Agree (a b : List α) : Prop := a <+: b ∨ b <+: a

instance [DecidableEq α] (a b : List α) : Decidable (Agree a b) :=
  inferInstanceAs (Decidable (_ ∨ _))

/-- A write at the start keeps what is read there exactly when it agrees with it. -/
theorem take_overwritten_iff {w s : List α} (h : w.length ≤ s.length) (n : Nat) :
    (w ++ s.drop w.length).take n = s.take n ↔ Agree w (s.take n) := by
  by_cases hn : n ≤ w.length
  · have hlen : (s.take n).length = n := by simp; omega
    rw [List.take_append_of_le_length hn]
    constructor
    · intro he
      exact .inr (he ▸ List.take_prefix n w)
    · rintro (hp | hp)
      · have hw := hp.length_le
        rw [hp.eq_of_length (by omega), List.take_take, Nat.min_self]
      · rw [List.prefix_iff_eq_take, hlen] at hp
        exact hp.symm
  · have hsplit : s.take n = s.take w.length ++ (s.drop w.length).take (n - w.length) := by
      rw [← List.take_add, Nat.add_sub_cancel' (by omega)]
    have hinner : (s.take n).take w.length = s.take w.length := by
      rw [List.take_take, Nat.min_eq_left (by omega)]
    rw [List.take_append, List.take_of_length_le (by omega)]
    constructor
    · intro he
      exact .inl (he ▸ List.prefix_append _ _)
    · intro hp
      have hw : w = s.take w.length := by
        rcases hp with hp | hp
        · rw [List.prefix_iff_eq_take, hinner] at hp
          exact hp
        · have hl := hp.length_le
          rw [List.take_of_length_le (by simp at hl; omega)] at hp
          rw [List.take_of_length_le (by simp at hl; omega)]
          exact (hp.eq_of_length (by simp at hl; omega)).symm
      rw [hsplit, ← hw]

end Cursor
end Foundation
