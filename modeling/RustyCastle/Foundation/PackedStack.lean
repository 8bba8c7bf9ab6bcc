import Mathlib.Algebra.Order.Ring.Nat
import Mathlib.Data.List.Basic

/-!
A stack of messages in one buffer. Its slices lie back to back from the start of
the buffer, so the next free position is the largest end of a slice, a push
leaves the slices below it alone and a pop frees the bytes of the last. The
stack is read as the list of its messages.
-/

namespace Foundation.PackedStack
variable {τ β : Type}

/-- A tag, the start and the length of a slice. -/
abbrev Slice (τ : Type) := τ × Nat × Nat

/-- The slices lie back to back from a position on. -/
def PackedFrom : Nat → List (Slice τ) → Prop
  | _, [] => True
  | s, (_, start, len) :: es => start = s ∧ PackedFrom (s + len) es

def used (es : List (Slice τ)) : Nat := (es.map fun e => e.2.2).sum

/-- The largest end of a slice. -/
def nextStart (es : List (Slice τ)) : Nat :=
  ((es.map fun (_, start, len) => start + len).max?).getD 0

def read (buf : List β) (e : Slice τ) : τ × List β := (e.1, (buf.drop e.2.1).take e.2.2)

def messages (es : List (Slice τ)) (buf : List β) : List (τ × List β) := es.map (read buf)

def overwrite (buf : List β) (start : Nat) (src : List β) : List β :=
  buf.take start ++ src ++ buf.drop (start + src.length)

/-- The bytes that a list of messages takes. -/
def totalLength (ms : List (τ × List β)) : Nat := (ms.map fun m => m.2.length).sum

theorem length_overwrite {buf : List β} {start : Nat} {src : List β}
    (h : start + src.length ≤ buf.length) : (overwrite buf start src).length = buf.length := by
  simp [overwrite]
  omega

@[simp] theorem used_append (es fs : List (Slice τ)) : used (es ++ fs) = used es + used fs := by
  simp [used]

@[simp] theorem used_singleton (e : Slice τ) : used [e] = e.2.2 := by simp [used]

@[simp] theorem totalLength_append (ms ns : List (τ × List β)) :
    totalLength (ms ++ ns) = totalLength ms + totalLength ns := by
  simp [totalLength]

@[simp] theorem totalLength_singleton (m : τ × List β) : totalLength [m] = m.2.length := by
  simp [totalLength]

theorem packedFrom_append {s : Nat} {es fs : List (Slice τ)} :
    PackedFrom s (es ++ fs) ↔ PackedFrom s es ∧ PackedFrom (s + used es) fs := by
  induction es generalizing s with
  | nil => simp [PackedFrom, used]
  | cons e es ih =>
      obtain ⟨t, start, len⟩ := e
      simp only [List.cons_append, PackedFrom, ih, and_assoc, used, List.map_cons, List.sum_cons,
        Nat.add_assoc]

theorem start_add_len_le {s : Nat} {es : List (Slice τ)} (h : PackedFrom s es) {e : Slice τ}
    (he : e ∈ es) : e.2.1 + e.2.2 ≤ s + used es := by
  obtain ⟨before, after, rfl⟩ := List.append_of_mem he
  obtain ⟨t, start, len⟩ := e
  obtain ⟨-, rfl, -⟩ := packedFrom_append.mp h
  simp only [used, List.map_append, List.map_cons, List.sum_append, List.sum_cons]
  omega

theorem nextStart_eq {es : List (Slice τ)} (h : PackedFrom 0 es) : nextStart es = used es := by
  rcases List.eq_nil_or_concat es with rfl | ⟨es, e, rfl⟩
  · rfl
  · obtain ⟨t, start, len⟩ := e
    rw [List.concat_eq_append] at h ⊢
    obtain ⟨-, hstart, -⟩ := packedFrom_append.mp h
    rw [Nat.zero_add] at hstart
    have hmax : ((es ++ [(t, start, len)]).map fun (_, start, len) => start + len).max? =
        some (used es + len) := by
      rw [List.max?_eq_some_iff]
      refine ⟨List.mem_map.mpr ⟨(t, start, len), by simp, by rw [hstart]⟩, fun n hn => ?_⟩
      obtain ⟨e, he, rfl⟩ := List.mem_map.mp hn
      simpa using start_add_len_le h he
    rw [nextStart, hmax, used_append, used_singleton]
    rfl

/-- A write behind a slice leaves it alone. -/
theorem read_overwrite {buf : List β} {start : Nat} {src : List β} {e : Slice τ}
    (he : e.2.1 + e.2.2 ≤ start) (h : start ≤ buf.length) :
    read (overwrite buf start src) e = read buf e := by
  have hlen : (buf.take start).length = start := by simp [h]
  have hdrop : (overwrite buf start src).drop e.2.1 =
      (buf.take start).drop e.2.1 ++ (src ++ buf.drop (start + src.length)) := by
    rw [overwrite, List.append_assoc, List.drop_append_of_le_length (by omega)]
  rw [read, hdrop, List.take_append_of_le_length (by simp; omega), List.drop_take, List.take_take,
    Nat.min_eq_left (by omega), read]

theorem read_overwrite_self {buf : List β} {start : Nat} {src : List β} (t : τ)
    (h : start ≤ buf.length) :
    read (overwrite buf start src) (t, start, src.length) = (t, src) := by
  have hlen : (buf.take start).length = start := by simp [h]
  rw [read, overwrite, List.append_assoc, List.drop_left' hlen, List.take_left' rfl]

/-- A push adds its message to the messages below. -/
theorem messages_push {es : List (Slice τ)} {buf : List β} {src : List β} (t : τ)
    (hp : PackedFrom 0 es) (h : used es + src.length ≤ buf.length) :
    messages (es ++ [(t, used es, src.length)]) (overwrite buf (used es) src) =
      messages es buf ++ [(t, src)] := by
  have hold : messages es (overwrite buf (used es) src) = messages es buf := by
    refine List.map_congr_left fun e he => read_overwrite ?_ (by omega)
    simpa using start_add_len_le hp he
  have hself : read (overwrite buf (used es) src) (t, used es, src.length) = (t, src) :=
    read_overwrite_self t (by omega)
  rw [messages, List.map_append, ← messages, hold, List.map_singleton, hself]

theorem packedFrom_push {es : List (Slice τ)} (t : τ) (len : Nat) (hp : PackedFrom 0 es) :
    PackedFrom 0 (es ++ [(t, used es, len)]) :=
  packedFrom_append.mpr ⟨hp, by simp [PackedFrom]⟩

/-- The messages of a packed stack take the bytes it uses. -/
theorem totalLength_messages {es : List (Slice τ)} {buf : List β} (hp : PackedFrom 0 es)
    (h : used es ≤ buf.length) : totalLength (messages es buf) = used es := by
  have hlen : ∀ e ∈ es, (read buf e).2.length = e.2.2 := by
    intro e he
    have := start_add_len_le hp he
    simp [read]
    omega
  rw [totalLength, messages, List.map_map, used]
  exact congrArg List.sum (List.map_congr_left hlen)

/-! Limits on the number of messages and on their bytes -/

section Limits
variable (slots size : Nat)

/-- One more message has a slot and its bytes. -/
def Room (ms : List (τ × List β)) (src : List β) : Prop :=
  ms.length < slots ∧ totalLength ms + src.length ≤ size

instance (ms : List (τ × List β)) (src : List β) : Decidable (Room slots size ms src) :=
  inferInstanceAs (Decidable (_ ∧ _))

def pushOrDrop (ms : List (τ × List β)) (m : τ × List β) : List (τ × List β) :=
  if Room slots size ms m.2 then ms ++ [m] else ms

/-- Pushes up to the first message with no room. -/
def pushWhile : List (τ × List β) → List (τ × List β) → List (τ × List β)
  | ms, [] => ms
  | ms, m :: new => if Room slots size ms m.2 then pushWhile (ms ++ [m]) new else ms

variable {slots size : Nat}

theorem foldl_pushOrDrop_added (ms new : List (τ × List β)) :
    ∃ added, added.Sublist new ∧ new.foldl (pushOrDrop slots size) ms = ms ++ added := by
  induction new generalizing ms with
  | nil => exact ⟨[], List.Sublist.refl _, by simp⟩
  | cons m new ih =>
      rw [List.foldl_cons, pushOrDrop]
      split
      · obtain ⟨added, hs, h⟩ := ih (ms ++ [m])
        exact ⟨m :: added, hs.cons_cons m, by simp [h]⟩
      · obtain ⟨added, hs, h⟩ := ih ms
        exact ⟨added, hs.cons m, h⟩

theorem pushWhile_added (ms new : List (τ × List β)) :
    ∃ n, pushWhile slots size ms new = ms ++ new.take n := by
  induction new generalizing ms with
  | nil => exact ⟨0, by simp [pushWhile]⟩
  | cons m new ih =>
      rw [pushWhile]
      split
      · obtain ⟨n, h⟩ := ih (ms ++ [m])
        exact ⟨n + 1, by simp [h]⟩
      · exact ⟨0, by simp⟩

/-- With slots enough, nothing is dropped exactly when the bytes suffice. -/
theorem foldl_pushOrDrop_eq_iff {ms new : List (τ × List β)}
    (hslots : ms.length + new.length ≤ slots) (hsize : totalLength ms ≤ size) :
    new.foldl (pushOrDrop slots size) ms = ms ++ new ↔ totalLength (ms ++ new) ≤ size := by
  induction new generalizing ms with
  | nil => simpa using hsize
  | cons m new ih =>
      rw [List.length_cons] at hslots
      have hm : ms ++ m :: new = ms ++ [m] ++ new := by simp
      have hlen := totalLength_append ms [m]
      rw [totalLength_singleton] at hlen
      rw [List.foldl_cons, pushOrDrop]
      by_cases hroom : Room slots size ms m.2
      · rw [if_pos hroom, hm]
        exact ih (by simp; omega) (by rw [hlen]; exact hroom.2)
      · have hfull : size < totalLength ms + m.2.length := by
          simp only [Room] at hroom
          omega
        obtain ⟨added, hs, h⟩ : ∃ added, added.Sublist new ∧
            new.foldl (pushOrDrop slots size) ms = ms ++ added := foldl_pushOrDrop_added ms new
        rw [if_neg hroom, h, hm, totalLength_append, hlen]
        refine iff_of_false (fun he => ?_) (by omega)
        have := hs.length_le
        have := congrArg List.length he
        simp at this
        omega

theorem pushWhile_eq_iff {ms new : List (τ × List β)}
    (hslots : ms.length + new.length ≤ slots) (hsize : totalLength ms ≤ size) :
    pushWhile slots size ms new = ms ++ new ↔ totalLength (ms ++ new) ≤ size := by
  induction new generalizing ms with
  | nil => simpa [pushWhile] using hsize
  | cons m new ih =>
      rw [List.length_cons] at hslots
      have hm : ms ++ m :: new = ms ++ [m] ++ new := by simp
      have hlen := totalLength_append ms [m]
      rw [totalLength_singleton] at hlen
      rw [pushWhile]
      by_cases hroom : Room slots size ms m.2
      · rw [if_pos hroom, hm]
        exact ih (by simp; omega) (by rw [hlen]; exact hroom.2)
      · have hfull : size < totalLength ms + m.2.length := by
          simp only [Room] at hroom
          omega
        rw [if_neg hroom, hm, totalLength_append, hlen]
        exact iff_of_false (by simp) (by omega)

/-- Nothing is pushed exactly when the first message has no room. -/
theorem drop_pushWhile_eq_nil_iff {ms new : List (τ × List β)} :
    (pushWhile slots size ms new).drop ms.length = [] ↔
      ∀ m ∈ new.head?, ¬ Room slots size ms m.2 := by
  cases new with
  | nil => simp [pushWhile]
  | cons m new =>
      rw [pushWhile]
      split
      · rename_i hroom
        obtain ⟨n, hn⟩ : ∃ n, pushWhile slots size (ms ++ [m]) new = ms ++ [m] ++ new.take n :=
          pushWhile_added (ms ++ [m]) new
        rw [hn]
        simpa using hroom
      · rename_i hroom
        simpa using hroom

end Limits
end Foundation.PackedStack
