import Mathlib.SetTheory.Cardinal.NatCard
import Mathlib.Data.List.Forall2

/-!
Walks of a graph that go depth first and keep no record of what they entered. An entry of a
node leads to another node or stops the walk. In a finite graph a walk comes to an end and
enters no node twice exactly when no two paths lead to one node, among the paths along
entries that nothing before them keeps the walk from.
-/

namespace Foundation.DepthFirst
variable {ν : Type}

inductive Outcome where
  | finished
  | stopped
  /-- The depth was used up. -/
  | deep
  deriving DecidableEq

structure Walk (ν : Type) where
  entered : List ν
  outcome : Outcome

namespace Walk

def enter (v : ν) (walk : Walk ν) : Walk ν := { walk with entered := v :: walk.entered }

def andThen (a b : Walk ν) : Walk ν :=
  match a.outcome with
  | .finished => { entered := a.entered ++ b.entered, outcome := b.outcome }
  | .stopped | .deep => a

@[simp] theorem enter_entered (v : ν) (walk : Walk ν) :
    (walk.enter v).entered = v :: walk.entered := rfl

@[simp] theorem enter_outcome (v : ν) (walk : Walk ν) :
    (walk.enter v).outcome = walk.outcome := rfl

theorem andThen_of_finished {a : Walk ν} (h : a.outcome = .finished) (b : Walk ν) :
    a.andThen b = { entered := a.entered ++ b.entered, outcome := b.outcome } := by
  rw [andThen, h]

theorem andThen_of_not_finished {a : Walk ν} (h : a.outcome ≠ .finished) (b : Walk ν) :
    a.andThen b = a := by
  cases ha : a.outcome with
  | finished => exact absurd ha h
  | stopped | deep => rw [andThen, ha]

theorem andThen_assoc (a b c : Walk ν) : (a.andThen b).andThen c = a.andThen (b.andThen c) := by
  obtain ⟨as, _ | _ | _⟩ := a
  · obtain ⟨bs, _ | _ | _⟩ := b
    · exact congrArg (Walk.mk · c.outcome) (List.append_assoc as bs c.entered)
    · rfl
    · rfl
  · rfl
  · rfl

theorem prefix_andThen (a b : Walk ν) : a.entered <+: (a.andThen b).entered := by
  by_cases ha : a.outcome = .finished
  · rw [andThen_of_finished ha]
    exact List.prefix_append ..
  · rw [andThen_of_not_finished ha]

/-- A walk that goes on does not end for lack of depth where its first part does not. -/
theorem outcome_left_ne_deep {a b : Walk ν} (h : (a.andThen b).outcome ≠ .deep) :
    a.outcome ≠ .deep := by
  intro ha
  rw [andThen_of_not_finished (by rw [ha]; decide)] at h
  exact h ha

end Walk

/-- The walk through the entries of a node. -/
def through (visit : ν → Walk ν) : List (Option ν) → Walk ν
  | [] => { entered := [], outcome := .finished }
  | none :: _ => { entered := [], outcome := .stopped }
  | some w :: rest => ((visit w).enter w).andThen (through visit rest)

/-- A walk of a depth at most. -/
def walk (entries : ν → List (Option ν)) : Nat → ν → Walk ν
  | 0, _ => { entered := [], outcome := .deep }
  | depth + 1, v => through (walk entries depth) (entries v)

theorem through_some_of_finished {visit : ν → Walk ν} {w : ν} (h : (visit w).outcome = .finished)
    (es : List (Option ν)) :
    through visit (some w :: es) =
      { entered := w :: (visit w).entered ++ (through visit es).entered
        outcome := (through visit es).outcome } :=
  Walk.andThen_of_finished (a := (visit w).enter w) h _

theorem through_some_of_not_finished {visit : ν → Walk ν} {w : ν}
    (h : (visit w).outcome ≠ .finished) (es : List (Option ν)) :
    through visit (some w :: es) = (visit w).enter w :=
  Walk.andThen_of_not_finished (a := (visit w).enter w) h _

theorem through_append (visit : ν → Walk ν) (es es' : List (Option ν)) :
    through visit (es ++ es') = (through visit es).andThen (through visit es') := by
  induction es with
  | nil => rfl
  | cons e es ih =>
      cases e with
      | none => rfl
      | some w => rw [List.cons_append, through, through, ih, Walk.andThen_assoc]

/-- A walk that finishes finished in every entry. -/
theorem finished_of_mem {visit : ν → Walk ν} {es : List (Option ν)}
    (h : (through visit es).outcome = .finished) {e : Option ν} (he : e ∈ es) :
    ∃ w, e = some w ∧ (visit w).outcome = .finished := by
  induction es with
  | nil => cases he
  | cons a es ih =>
      cases a with
      | none => cases h
      | some w =>
          by_cases hw : (visit w).outcome = .finished
          · rw [through_some_of_finished hw] at h
            rcases List.mem_cons.mp he with rfl | he
            · exact ⟨w, rfl, hw⟩
            · exact ih h he
          · rw [through_some_of_not_finished hw] at h
            exact absurd h hw

/-- A walk that stops does so in some entry. -/
theorem stopped_in {visit : ν → Walk ν} {es : List (Option ν)}
    (h : (through visit es).outcome = .stopped) :
    none ∈ es ∨ ∃ w, some w ∈ es ∧ (visit w).outcome = .stopped := by
  induction es with
  | nil => cases h
  | cons a es ih =>
      cases a with
      | none => exact .inl (List.mem_cons_self ..)
      | some w =>
          by_cases hw : (visit w).outcome = .finished
          · rw [through_some_of_finished hw] at h
            obtain hnone | ⟨x, hx, hstop⟩ := ih h
            · exact .inl (List.mem_cons_of_mem _ hnone)
            · exact .inr ⟨x, List.mem_cons_of_mem _ hx, hstop⟩
          · rw [through_some_of_not_finished hw] at h
            exact .inr ⟨w, List.mem_cons_self .., h⟩

/-! What keeps a walk from the entries behind -/

variable (entries : ν → List (Option ν))

/-- Some path from the node leads to an entry that stops the walk. -/
inductive Stops : ν → Prop where
  | here {v : ν} (h : none ∈ entries v) : Stops v
  | further {v w : ν} (h : some w ∈ entries v) (hw : Stops w) : Stops v

/-- Nothing at or below the entry stops the walk. -/
def Passes (e : Option ν) : Prop := ∃ w, e = some w ∧ ¬ Stops entries w

/-- A path, as the positions of its entries, along entries with nothing before them that
stops the walk. -/
def Live : ν → List Nat → ν → Prop
  | v, [], u => v = u
  | v, i :: p, u => ∃ before w after, entries v = before ++ some w :: after ∧ before.length = i ∧
      (∀ e ∈ before, Passes entries e) ∧ Live w p u

variable {entries}

theorem not_stops_of_finished {depth : Nat} {v : ν}
    (h : (walk entries depth v).outcome = .finished) : ¬ Stops entries v := by
  induction depth generalizing v with
  | zero => cases h
  | succ depth ih =>
      intro hstops
      cases hstops with
      | here hnone =>
          obtain ⟨w, hw, -⟩ := finished_of_mem h hnone
          cases hw
      | further hmem hw =>
          obtain ⟨w, hw', hfinished⟩ := finished_of_mem h hmem
          obtain rfl := Option.some.inj hw'
          exact ih hfinished hw

theorem stops_of_stopped {depth : Nat} {v : ν}
    (h : (walk entries depth v).outcome = .stopped) : Stops entries v := by
  induction depth generalizing v with
  | zero => cases h
  | succ depth ih =>
      obtain hnone | ⟨w, hmem, hw⟩ := stopped_in h
      · exact .here hnone
      · exact .further hmem (ih hw)

/-- A walk gets through entries that do not stop it, given the depth. -/
theorem finished_of_passes {depth : Nat} {before es : List (Option ν)}
    (h : (through (walk entries depth) (before ++ es)).outcome ≠ .deep)
    (hpass : ∀ e ∈ before, Passes entries e) :
    (through (walk entries depth) before).outcome = .finished := by
  cases hb : (through (walk entries depth) before).outcome with
  | finished => rfl
  | deep =>
      rw [through_append] at h
      exact absurd hb (Walk.outcome_left_ne_deep h)
  | stopped =>
      obtain hnone | ⟨w, hmem, hw⟩ := stopped_in hb
      · obtain ⟨x, hx, -⟩ := hpass _ hnone
        cases hx
      · obtain ⟨x, hx, hstops⟩ := hpass _ hmem
        cases hx
        exact absurd (stops_of_stopped hw) hstops

/-- What a walk enters at an entry behind entries that do not stop it. -/
theorem through_live {depth : Nat} {before after : List (Option ν)} {w : ν}
    (h : (through (walk entries depth) (before ++ some w :: after)).outcome ≠ .deep)
    (hpass : ∀ e ∈ before, Passes entries e) :
    (walk entries depth w).outcome ≠ .deep ∧
      ∃ rest, (through (walk entries depth) (before ++ some w :: after)).entered =
        (through (walk entries depth) before).entered ++
          (w :: (walk entries depth w).entered ++ rest) := by
  have hbefore := finished_of_passes h hpass
  rw [through_append, Walk.andThen_of_finished hbefore, through] at h ⊢
  obtain ⟨rest, hrest⟩ := Walk.prefix_andThen ((walk entries depth w).enter w)
    (through (walk entries depth) after)
  rw [Walk.enter_entered] at hrest
  exact ⟨Walk.outcome_left_ne_deep (a := (walk entries depth w).enter w) h, rest, by rw [hrest]⟩

/-! Walks that come to an end -/

/-- A walk that comes to an end enters what a live path leads to. -/
theorem mem_entered_of_live {depth : Nat} {v u : ν} {p : List Nat} (hne : p ≠ [])
    (h : (walk entries depth v).outcome ≠ .deep) (hlive : Live entries v p u) :
    u ∈ (walk entries depth v).entered := by
  induction p generalizing depth v with
  | nil => exact absurd rfl hne
  | cons i p ih =>
      obtain ⟨before, w, after, hes, -, hpass, hlive⟩ := hlive
      cases depth with
      | zero => exact absurd rfl h
      | succ depth =>
          rw [walk, hes] at h ⊢
          obtain ⟨hw, rest, hrest⟩ := through_live h hpass
          have hmem : u ∈ w :: (walk entries depth w).entered := by
            cases p with
            | nil =>
                obtain rfl : w = u := hlive
                exact List.mem_cons_self ..
            | cons j p => exact List.mem_cons_of_mem _ (ih (List.cons_ne_nil _ _) hw hlive)
          rw [hrest]
          exact List.mem_append_right _ (List.mem_append_left _ hmem)

theorem mem_of_live {depth : Nat} {v u : ν} {p : List Nat}
    (h : (walk entries depth v).outcome ≠ .deep) (hlive : Live entries v p u) :
    u ∈ v :: (walk entries depth v).entered := by
  cases p with
  | nil =>
      obtain rfl : v = u := hlive
      exact List.mem_cons_self ..
  | cons i p => exact List.mem_cons_of_mem _ (mem_entered_of_live (List.cons_ne_nil _ _) h hlive)

theorem before_of_length_lt {α : Type} {before before' after after' : List α} {x x' : α}
    (h : before ++ x :: after = before' ++ x' :: after') (hlt : before.length < before'.length) :
    ∃ mid, before' = before ++ x :: mid := by
  have hleft : before ++ [x] <+: before ++ x :: after := ⟨after, by simp⟩
  have hpre : before ++ [x] <+: before' :=
    List.prefix_of_prefix_length_le hleft ⟨x' :: after', h.symm⟩ (by simpa)
  obtain ⟨mid, rfl⟩ := hpre
  exact ⟨mid, by simp⟩

/-- A walk that comes to an end and enters a node once does not come to it by two entries. -/
theorem not_live_later {depth : Nat} {before after : List (Option ν)} {w w' u : ν}
    {mid : List (Option ν)} {p q : List Nat}
    (h : (through (walk entries depth) (before ++ some w :: mid ++ some w' :: after)).outcome ≠ .deep)
    (hnodup : (through (walk entries depth)
      (before ++ some w :: mid ++ some w' :: after)).entered.Nodup)
    (hpass : ∀ e ∈ before ++ some w :: mid, Passes entries e)
    (hp : Live entries w p u) (hq : Live entries w' q u) : False := by
  have hfinished := finished_of_passes h hpass
  obtain ⟨hw', rest', hrest'⟩ := through_live h hpass
  obtain ⟨hw, rest, hrest⟩ := through_live (by rw [hfinished]; decide)
    (fun e he => hpass e (List.mem_append_left _ he))
  rw [hrest', hrest] at hnodup
  have hfirst := mem_of_live hw hp
  have hsecond := mem_of_live hw' hq
  refine (List.nodup_append.mp hnodup).2.2 u ?_ u ?_ rfl
  · exact List.mem_append_right _ (List.mem_append_left _ hfirst)
  · exact List.mem_append_left _ hsecond

/-- A walk that comes to an end and enters no node twice has one live path to a node. -/
theorem live_unique_of_nodup {depth : Nat} {v u : ν} {i j : Nat} {p q : List Nat}
    (h : (walk entries depth v).outcome ≠ .deep) (hnodup : (walk entries depth v).entered.Nodup)
    (hp : Live entries v (i :: p) u) (hq : Live entries v (j :: q) u) : i :: p = j :: q := by
  induction depth generalizing v i j p q with
  | zero => exact absurd rfl h
  | succ depth ih =>
      obtain ⟨before, w, after, hes, rfl, hpass, hp⟩ := hp
      obtain ⟨before', w', after', hes', rfl, hpass', hq⟩ := hq
      rw [walk] at h hnodup
      have hsame := hes.symm.trans hes'
      obtain hlt | heq | hlt := lt_trichotomy before.length before'.length
      · obtain ⟨mid, rfl⟩ := before_of_length_lt hsame hlt
        rw [hes'] at h hnodup
        exact (not_live_later h hnodup hpass' hp hq).elim
      · obtain ⟨rfl, htail⟩ := List.append_inj hsame heq
        obtain ⟨hw, rfl⟩ := List.cons.inj htail
        obtain rfl := Option.some.inj hw
        rw [hes] at h hnodup
        obtain ⟨hdeep, rest, hrest⟩ := through_live h hpass
        rw [hrest] at hnodup
        have hnode := (List.nodup_append.mp (List.nodup_append.mp hnodup).2.1).1
        obtain ⟨hnot, hbelow⟩ := List.nodup_cons.mp hnode
        cases p with
        | nil =>
            cases q with
            | nil => rfl
            | cons k q =>
                obtain rfl : w = u := hp
                exact absurd (mem_entered_of_live (List.cons_ne_nil _ _) hdeep hq) hnot
        | cons l p =>
            cases q with
            | nil =>
                obtain rfl : w = u := hq
                exact absurd (mem_entered_of_live (List.cons_ne_nil _ _) hdeep hp) hnot
            | cons k q => rw [ih hdeep hbelow hp hq]
      · obtain ⟨mid, rfl⟩ := before_of_length_lt hsame.symm hlt
        rw [hes] at h hnodup
        exact (not_live_later h hnodup hpass hq hp).elim

theorem Live.append {v u t : ν} {p q : List Nat} (hp : Live entries v p u)
    (hq : Live entries u q t) : Live entries v (p ++ q) t := by
  induction p generalizing v with
  | nil =>
      obtain rfl : v = u := hp
      exact hq
  | cons i p ih =>
      obtain ⟨before, w, after, hes, hi, hpass, hp⟩ := hp
      exact ⟨before, w, after, hes, hi, hpass, ih hp⟩

/-! Graphs with one live path to a node -/

/-- No two live paths lead to one node. -/
def Branching (entries : ν → List (Option ν)) (v : ν) : Prop :=
  ∀ p q u, Live entries v p u → Live entries v q u → p = q

theorem branching_of_nodup {depth : Nat} {v : ν} (h : (walk entries depth v).outcome ≠ .deep)
    (hnodup : (walk entries depth v).entered.Nodup) : Branching entries v := by
  -- a path back to the start can be taken twice
  have hloop : ∀ i p, ¬ Live entries v (i :: p) v := by
    intro i p hp
    have hsame : i :: p = i :: (p ++ i :: p) := live_unique_of_nodup h hnodup hp (hp.append hp)
    have := congrArg List.length hsame
    simp at this
  intro p q u hp hq
  cases p with
  | nil =>
      obtain rfl : v = u := hp
      cases q with
      | nil => rfl
      | cons j q => exact absurd hq (hloop j q)
  | cons i p =>
      cases q with
      | nil =>
          obtain rfl : v = u := hq
          exact absurd hp (hloop i p)
      | cons j q => exact live_unique_of_nodup h hnodup hp hq

theorem Branching.entry {v w : ν} {before after : List (Option ν)} (h : Branching entries v)
    (hes : entries v = before ++ some w :: after) (hpass : ∀ e ∈ before, Passes entries e) :
    Branching entries w := by
  intro p q u hp hq
  have hlive : ∀ {p}, Live entries w p u → Live entries v (before.length :: p) u :=
    fun hp => ⟨before, w, after, hes, rfl, hpass, hp⟩
  exact (List.cons.inj (h _ _ u (hlive hp) (hlive hq))).2

/-- What a walk enters, it enters at or below an entry that it gets to. -/
theorem entry_of_mem {depth : Nat} {es : List (Option ν)} {u : ν}
    (h : u ∈ (through (walk entries depth) es).entered) :
    ∃ before w after, es = before ++ some w :: after ∧ (∀ e ∈ before, Passes entries e) ∧
      u ∈ w :: (walk entries depth w).entered := by
  induction es with
  | nil => cases h
  | cons e es ih =>
      cases e with
      | none => cases h
      | some w =>
          have hfirst : u ∈ w :: (walk entries depth w).entered → ∃ before x after,
              some w :: es = before ++ some x :: after ∧ (∀ e ∈ before, Passes entries e) ∧
                u ∈ x :: (walk entries depth x).entered :=
            fun hu => ⟨[], w, es, rfl, by simp, hu⟩
          by_cases hw : (walk entries depth w).outcome = .finished
          · rw [through_some_of_finished hw] at h
            rcases List.mem_append.mp h with hu | hu
            · exact hfirst hu
            · obtain ⟨before, x, after, rfl, hpass, hu⟩ := ih hu
              refine ⟨some w :: before, x, after, rfl, ?_, hu⟩
              intro e he
              rcases List.mem_cons.mp he with rfl | he
              · exact ⟨w, rfl, not_stops_of_finished hw⟩
              · exact hpass e he
          · rw [through_some_of_not_finished hw] at h
            exact hfirst h

/-- What a walk enters, a live path leads to. -/
theorem exists_live_of_mem {depth : Nat} {v u : ν} (h : u ∈ (walk entries depth v).entered) :
    ∃ i p, Live entries v (i :: p) u := by
  induction depth generalizing v with
  | zero => cases h
  | succ depth ih =>
      obtain ⟨before, w, after, hes, hpass, hu⟩ := entry_of_mem h
      rcases List.mem_cons.mp hu with rfl | hu
      · exact ⟨before.length, [], before, u, after, hes, rfl, hpass, rfl⟩
      · obtain ⟨i, p, hp⟩ := ih hu
        exact ⟨before.length, i :: p, before, w, after, hes, rfl, hpass, hp⟩

theorem exists_live_of_mem_cons {depth : Nat} {v u : ν}
    (h : u ∈ v :: (walk entries depth v).entered) : ∃ p, Live entries v p u := by
  rcases List.mem_cons.mp h with rfl | h
  · exact ⟨[], rfl⟩
  · obtain ⟨i, p, hp⟩ := exists_live_of_mem h
    exact ⟨i :: p, hp⟩

theorem nodup_through {depth : Nat} {es : List (Option ν)}
    (hone : ∀ before w after, es = before ++ some w :: after → (∀ e ∈ before, Passes entries e) →
      (w :: (walk entries depth w).entered).Nodup)
    (htwo : ∀ before w mid w' after u, es = before ++ some w :: mid ++ some w' :: after →
      (∀ e ∈ before ++ some w :: mid, Passes entries e) →
        u ∈ w :: (walk entries depth w).entered → u ∉ w' :: (walk entries depth w').entered) :
    (through (walk entries depth) es).entered.Nodup := by
  induction es with
  | nil => exact List.nodup_nil
  | cons e es ih =>
      cases e with
      | none => exact List.nodup_nil
      | some w =>
          have hw := hone [] w es rfl (by simp)
          by_cases hfinished : (walk entries depth w).outcome = .finished
          · have hfirst : ∀ before, (∀ e ∈ before, Passes entries e) →
                ∀ e ∈ some w :: before, Passes entries e := by
              intro before hpass e he
              rcases List.mem_cons.mp he with rfl | he
              · exact ⟨w, rfl, not_stops_of_finished hfinished⟩
              · exact hpass e he
            rw [through_some_of_finished hfinished]
            refine List.nodup_append.mpr ⟨hw, ih ?_ ?_, ?_⟩
            · intro before x after hes hpass
              exact hone (some w :: before) x after (by rw [hes]; rfl) (hfirst before hpass)
            · intro before x mid x' after u hes hpass
              exact htwo (some w :: before) x mid x' after u (by rw [hes]; rfl)
                (hfirst _ hpass)
            · rintro u hu _ hu' rfl
              obtain ⟨before, x, after, hes, hpass, hu'⟩ := entry_of_mem hu'
              exact htwo [] w before x after u (by rw [hes]; rfl) (hfirst before hpass) hu hu'
          · rw [through_some_of_not_finished hfinished]
            exact hw

theorem Branching.nodup_walk {depth : Nat} {v : ν} (h : Branching entries v) :
    (walk entries depth v).entered.Nodup := by
  induction depth generalizing v with
  | zero => exact List.nodup_nil
  | succ depth ih =>
      refine nodup_through ?_ ?_
      · intro before w after hes hpass
        have hw := h.entry hes hpass
        refine List.nodup_cons.mpr ⟨fun hmem => ?_, ih hw⟩
        obtain ⟨i, p, hp⟩ := exists_live_of_mem hmem
        cases hw (i :: p) [] w hp rfl
      · intro before w mid w' after u hes hpass hu hu'
        obtain ⟨p, hp⟩ := exists_live_of_mem_cons hu
        obtain ⟨q, hq⟩ := exists_live_of_mem_cons hu'
        have hsame := h (before.length :: p) ((before ++ some w :: mid).length :: q) u
          ⟨before, w, mid ++ some w' :: after, by rw [hes, List.append_assoc]; rfl, rfl,
            fun e he => hpass e (List.mem_append_left _ he), hp⟩
          ⟨_, w', after, hes, rfl, hpass, hq⟩
        have hlength := (List.cons.inj hsame).1
        rw [List.length_append, List.length_cons] at hlength
        omega

theorem through_ne_deep {depth : Nat} {es : List (Option ν)}
    (h : ∀ before w after, es = before ++ some w :: after → (∀ e ∈ before, Passes entries e) →
      (walk entries depth w).outcome ≠ .deep) :
    (through (walk entries depth) es).outcome ≠ .deep := by
  induction es with
  | nil => simp [through]
  | cons e es ih =>
      cases e with
      | none => simp [through]
      | some w =>
          by_cases hw : (walk entries depth w).outcome = .finished
          · rw [through_some_of_finished hw]
            refine ih fun before x after hes hpass => ?_
            refine h (some w :: before) x after (by rw [hes]; rfl) fun e he => ?_
            rcases List.mem_cons.mp he with rfl | he
            · exact ⟨w, rfl, not_stops_of_finished hw⟩
            · exact hpass e he
          · rw [through_some_of_not_finished hw]
            exact h [] w es rfl (by simp)

/-- A depth that no live path uses up is enough. -/
theorem outcome_ne_deep {depth : Nat} {v : ν}
    (h : ∀ p u, Live entries v p u → p.length < depth) : (walk entries depth v).outcome ≠ .deep := by
  induction depth generalizing v with
  | zero => exact absurd (h [] v rfl) (Nat.not_lt_zero _)
  | succ depth ih =>
      refine through_ne_deep fun before w after hes hpass => ih fun p u hp => ?_
      have := h (before.length :: p) u ⟨before, w, after, hes, rfl, hpass, hp⟩
      rw [List.length_cons] at this
      omega

theorem Live.take {v u : ν} {p : List Nat} (h : Live entries v p u) (n : Nat) :
    ∃ w, Live entries v (p.take n) w := by
  induction p generalizing v n with
  | nil => exact ⟨v, by rw [List.take_nil]; rfl⟩
  | cons i p ih =>
      cases n with
      | zero => exact ⟨v, rfl⟩
      | succ n =>
          obtain ⟨before, w, after, hes, hi, hpass, hp⟩ := h
          obtain ⟨x, hx⟩ := ih hp n
          exact ⟨x, before, w, after, hes, hi, hpass, hx⟩

/-- The nodes on a live path are different ones. -/
theorem Branching.length_lt [Finite ν] {v u : ν} {p : List Nat} (h : Branching entries v)
    (hp : Live entries v p u) : p.length < Nat.card ν := by
  have hnode : ∀ n : Fin (p.length + 1), ∃ w, Live entries v (p.take n) w := fun n => hp.take n
  choose node hlive using hnode
  have hinj : Function.Injective node := by
    intro m n hmn
    have htake := h (p.take m) (p.take n) (node m) (hlive m) (by rw [hmn]; exact hlive n)
    have hlength := congrArg List.length htake
    rw [List.length_take, List.length_take] at hlength
    exact Fin.ext (by omega)
  have hcard := Nat.card_le_card_of_injective node hinj
  rw [Nat.card_fin] at hcard
  omega

/-- In a finite graph some depth is enough for a walk that enters no node twice exactly when
no two live paths lead to one node. -/
theorem exists_nodup_walk_iff_branching [Finite ν] (v : ν) :
    (∃ depth, (walk entries depth v).outcome ≠ .deep ∧ (walk entries depth v).entered.Nodup) ↔
      Branching entries v := by
  constructor
  · rintro ⟨depth, h, hnodup⟩
    exact branching_of_nodup h hnodup
  · intro h
    exact ⟨Nat.card ν, outcome_ne_deep fun p u hp => h.length_lt hp, h.nodup_walk⟩

/-! Walks of related graphs -/

section
variable {α β : Type} {R : α → β → Prop} {entriesA : α → List (Option α)}
  {entriesB : β → List (Option β)}

/-- Walks of graphs whose entries are related are related. -/
theorem walk_related (hentries : ∀ a b, R a b → List.Forall₂ (Option.Rel R) (entriesA a) (entriesB b))
    (depth : Nat) {a : α} {b : β} (h : R a b) :
    List.Forall₂ R (walk entriesA depth a).entered (walk entriesB depth b).entered ∧
      (walk entriesA depth a).outcome = (walk entriesB depth b).outcome := by
  induction depth generalizing a b with
  | zero => exact ⟨.nil, rfl⟩
  | succ depth ih =>
      rw [walk, walk]
      have hes := hentries a b h
      generalize entriesA a = es at hes ⊢
      generalize entriesB b = es' at hes ⊢
      induction hes with
      | nil => exact ⟨.nil, rfl⟩
      | cons he hes ih' =>
          cases he with
          | none => exact ⟨.nil, rfl⟩
          | some hab =>
              rename_i x y
              obtain ⟨hentered, houtcome⟩ := ih hab
              by_cases hx : (walk entriesA depth x).outcome = .finished
              · rw [through_some_of_finished hx, through_some_of_finished (houtcome ▸ hx)]
                exact ⟨.cons hab (List.rel_append hentered ih'.1), ih'.2⟩
              · rw [through_some_of_not_finished hx, through_some_of_not_finished (houtcome ▸ hx)]
                exact ⟨.cons hab hentered, houtcome⟩

end

end Foundation.DepthFirst
