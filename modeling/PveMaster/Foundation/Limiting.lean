import Mathlib.Data.Finset.Prod
import Mathlib.Data.Finset.Max
import Mathlib.Order.Interval.Finset.Nat

/-! Counters that expire, as limits of a rate.

Whoever counts to 1 has the counter expire a span later. A counter that has expired starts again, so its answers fall
into generations, and the generations after the next are a span away (`Metered.apart`). Of the answers in less than a
span of time, twice the limit are within the limit (`Metered.within_le`). A counter nobody has expire starts
never again, and the answers within the limit are as many as the limit (`Stuck.within_le`). -/
namespace PveMaster.Limiting

/-- A counter, and the time it goes at, if it has been told to. -/
structure Counter where
  value : Nat
  expiresAt : Option Int
  deriving DecidableEq

/-- Whether a counter is still there: it goes when its time is over, and in its last instant it is
there still. -/
def Counter.lives (c : Counter) (now : Int) : Bool :=
  match c.expiresAt with
  | some e => now ≤ e
  | none => true

/-- What a counter answered: when, in which generation, and the value. Generations are numbered by
how often the counter has started anew; nobody but the theorems knows them. -/
structure Answer where
  time : Int
  generation : Nat
  count : Nat
  deriving DecidableEq

/-- A counter with its answers so far, the oldest first. -/
structure Meter where
  counter : Option Counter
  generation : Nat
  answers : List Answer

def Meter.fresh : Meter := ⟨none, 0, []⟩

/-- The counter, unless it has expired. -/
def Meter.live (m : Meter) (now : Int) : Option Counter := m.counter.filter fun c => c.lives now

/-- Count: a counter that is there goes on, and where there is none a new generation begins at 1,
without a time to go. -/
def Meter.incr (m : Meter) (now : Int) : Meter × Nat :=
  match m.live now with
  | some c => (⟨some { c with value := c.value + 1 }, m.generation, m.answers ++ [⟨now, m.generation, c.value + 1⟩]⟩, c.value + 1)
  | none => (⟨some ⟨1, none⟩, m.generation + 1, m.answers ++ [⟨now, m.generation + 1, 1⟩]⟩, 1)

/-- Have the counter expire a span from now. Where there is no counter, nothing happens. -/
def Meter.expire (m : Meter) (now span : Int) : Meter :=
  match m.live now with
  | some c => { m with counter := some { c with expiresAt := some (now + span) } }
  | none => m

theorem incr_answers (m : Meter) (now : Int) :
    (m.incr now).1.answers = m.answers ++ [⟨now, (m.incr now).1.generation, (m.incr now).2⟩] := by
  unfold Meter.incr
  split <;> rfl

theorem expire_answers (m : Meter) (now span : Int) : (m.expire now span).answers = m.answers := by
  unfold Meter.expire
  split <;> rfl

/-! ### Generations -/

/-- Every value of a generation is answered once, and a generation begins after the one before the
last has been over for a span: the invariant of a counter whose increments and expiries
interleave. -/
structure Metered (span now : Int) (m : Meter) : Prop where
  unused : m.counter = none → m.answers = []
  positive : ∀ c, m.counter = some c → 1 ≤ c.value
  timed : ∀ a ∈ m.answers, a.time ≤ now
  counted : ∀ a ∈ m.answers, 1 ≤ a.count ∧ a.generation ≤ m.generation
  current : ∀ a ∈ m.answers, a.generation = m.generation → ∀ c, m.counter = some c → a.count ≤ c.value
  distinct : (m.answers.map fun a => (a.generation, a.count)).Nodup
  expiring : ∀ c e, m.counter = some c → c.expiresAt = some e → ∀ a ∈ m.answers, a.generation < m.generation → a.time + span ≤ e
  distant : ∀ a ∈ m.answers, a.generation + 2 ≤ m.generation → a.time + span ≤ now
  apart : ∀ a ∈ m.answers, ∀ b ∈ m.answers, a.generation + 2 ≤ b.generation → a.time + span ≤ b.time

variable {span now : Int} {m : Meter}

theorem metered_fresh (span now : Int) : Metered span now .fresh where
  unused _ := rfl
  positive _ hc := absurd hc (Option.some_ne_none _).symm
  timed _ ha := absurd ha List.not_mem_nil
  counted _ ha := absurd ha List.not_mem_nil
  current _ ha := absurd ha List.not_mem_nil
  distinct := List.nodup_nil
  expiring _ _ hc := absurd hc (Option.some_ne_none _).symm
  distant _ ha := absurd ha List.not_mem_nil
  apart _ ha := absurd ha List.not_mem_nil

theorem live_some {c : Counter} (h : m.live now = some c) : m.counter = some c ∧ c.lives now = true := by
  unfold Meter.live at h
  exact Option.filter_eq_some_iff.mp h

theorem live_none (h : m.live now = none) : m.counter = none ∨ ∃ c e, m.counter = some c ∧ c.expiresAt = some e ∧ e ≤ now := by
  cases hc : m.counter with
  | none => exact Or.inl rfl
  | some c =>
    right
    have hdead : ¬ c.lives now = true := by
      have := Option.filter_eq_none_iff.mp h c hc
      simpa using this
    cases he : c.expiresAt with
    | none => exact absurd (by simp [Counter.lives, he]) hdead
    | some e =>
      have hpast : e < now := by simpa [Counter.lives, he] using hdead
      exact ⟨c, e, rfl, he, hpast.le⟩

theorem Metered.elapse (h : Metered span now m) {later : Int} (hle : now ≤ later) : Metered span later m where
  unused := h.unused
  positive := h.positive
  timed a ha := Int.le_trans (h.timed a ha) hle
  counted := h.counted
  current := h.current
  distinct := h.distinct
  expiring := h.expiring
  distant a ha hold := Int.le_trans (h.distant a ha hold) hle
  apart := h.apart

/-- One more answer, in the generation of the last or in a new one. -/
theorem Metered.answer (h : Metered span now m) {generation count : Nat} {c : Counter}
    (hcount : 1 ≤ count) (hle : m.generation ≤ generation) (hvalue : c.value = count)
    (hnew : ∀ a ∈ m.answers, a.generation = generation → a.count < count)
    (hexpiring : ∀ e, c.expiresAt = some e → ∀ a ∈ m.answers, a.generation < generation → a.time + span ≤ e)
    (hover : ∀ a ∈ m.answers, a.generation + 2 ≤ generation → a.time + span ≤ now) :
    Metered span now ⟨some c, generation, m.answers ++ [⟨now, generation, count⟩]⟩ where
  unused hc := absurd hc (Option.some_ne_none c)
  positive := by
    rintro d ⟨⟩
    exact hvalue ▸ hcount
  timed a ha := by
    rcases List.mem_append.mp ha with ha | ha
    · exact h.timed a ha
    · cases List.mem_singleton.mp ha
      exact Int.le_refl now
  counted a ha := by
    rcases List.mem_append.mp ha with ha | ha
    · exact ⟨(h.counted a ha).1, Nat.le_trans (h.counted a ha).2 hle⟩
    · cases List.mem_singleton.mp ha
      exact ⟨hcount, Nat.le_refl _⟩
  current a ha hgen d hd := by
    cases hd
    rw [hvalue]
    rcases List.mem_append.mp ha with ha | ha
    · exact Nat.le_of_lt (hnew a ha hgen)
    · cases List.mem_singleton.mp ha
      exact Nat.le_refl _
  distinct := by
    rw [List.map_append, List.map_singleton]
    refine List.nodup_append.mpr ⟨h.distinct, List.nodup_singleton _, ?_⟩
    rintro x hx y hy rfl
    obtain ⟨a, ha, rfl⟩ := List.mem_map.mp hx
    obtain ⟨hgen, hcount⟩ := Prod.mk.inj (List.mem_singleton.mp hy)
    have hless := hnew a ha hgen
    rw [hcount] at hless
    exact Nat.lt_irrefl _ hless
  expiring d e hd he a ha hlt := by
    cases hd
    rcases List.mem_append.mp ha with ha | ha
    · exact hexpiring e he a ha hlt
    · cases List.mem_singleton.mp ha
      exact absurd hlt (Nat.lt_irrefl _)
  distant a ha hold := by
    rcases List.mem_append.mp ha with ha | ha
    · exact hover a ha hold
    · cases List.mem_singleton.mp ha
      dsimp only at hold
      omega
  apart a ha b hb hold := by
    rcases List.mem_append.mp ha with ha | ha
    · rcases List.mem_append.mp hb with hb | hb
      · exact h.apart a ha b hb hold
      · cases List.mem_singleton.mp hb
        exact hover a ha hold
    · cases List.mem_singleton.mp ha
      rcases List.mem_append.mp hb with hb | hb
      · have := (h.counted b hb).2
        dsimp only at hold
        omega
      · cases List.mem_singleton.mp hb
        dsimp only at hold
        omega

theorem Metered.incr (h : Metered span now m) : Metered span now (m.incr now).1 := by
  unfold Meter.incr
  cases hlive : m.live now with
  | some c =>
    obtain ⟨hc, -⟩ := live_some hlive
    exact h.answer (Nat.succ_le_succ (Nat.zero_le _)) (Nat.le_refl _) rfl
      (fun a ha hgen => Nat.lt_succ_of_le (h.current a ha hgen c hc)) (fun e he => h.expiring c e hc he) h.distant
  | none =>
    refine h.answer (Nat.le_refl 1) (Nat.le_succ _) rfl (fun a ha hgen => ?_) (fun e he => absurd he (by simp)) fun a ha hold => ?_
    · have := (h.counted a ha).2
      omega
    · -- What was answered before the counter's generation was a span ago when it expired.
      rcases live_none hlive with hunused | ⟨c, e, hc, he, hdead⟩
      · rw [h.unused hunused] at ha
        cases ha
      · exact Int.le_trans (h.expiring c e hc he a ha (by omega)) hdead

theorem Metered.expire (h : Metered span now m) : Metered span now (m.expire now span) := by
  unfold Meter.expire
  cases hlive : m.live now with
  | none => exact h
  | some c =>
    obtain ⟨hc, -⟩ := live_some hlive
    refine { h with unused := fun hnone => absurd hnone (Option.some_ne_none _), positive := ?_, current := ?_, expiring := ?_ }
    · rintro d ⟨⟩
      exact h.positive c hc
    · rintro a ha hgen d ⟨⟩
      exact h.current a ha hgen c hc
    · rintro d e ⟨⟩ ⟨⟩ a ha -
      exact Int.add_le_add_right (h.timed a ha) span

/-- A counter that does not expire counts on. -/
theorem incr_unexpiring (now : Int) {n : Nat} (h : m.counter = some ⟨n, none⟩) :
    (m.incr now).1.counter = some ⟨n + 1, none⟩ ∧ (m.incr now).1.generation = m.generation := by
  have hlive : m.live now = some ⟨n, none⟩ := by
    rw [Meter.live, h]
    rfl
  unfold Meter.incr
  rw [hlive]
  exact ⟨rfl, rfl⟩

/-- Whoever counts to 1 has begun a generation, with a counter that does not expire. -/
theorem Metered.incr_one (h : Metered span now m) (hone : (m.incr now).2 = 1) : (m.incr now).1.counter = some ⟨1, none⟩ := by
  unfold Meter.incr at hone ⊢
  cases hlive : m.live now with
  | some c =>
    rw [hlive] at hone
    have hvalue : c.value + 1 = 1 := hone
    have := h.positive c (live_some hlive).1
    omega
  | none => rfl

/-! ### Answers within the limit -/

/-- The answers of a window: less than a span after some instant. -/
def during (start span : Int) (a : Answer) : Bool := start ≤ a.time && a.time < start + span

open Finset in
/-- **In less than a span** no more than twice the limit is within the limit. -/
theorem Metered.within_le (h : Metered span now m) (start : Int) (limit : Nat) :
    (m.answers.filter fun a => during start span a && decide (a.count ≤ limit)).length ≤ 2 * limit := by
  let within := m.answers.filter fun a => during start span a && decide (a.count ≤ limit)
  have hmem {a : Answer} : a ∈ within ↔ a ∈ m.answers ∧ (start ≤ a.time ∧ a.time < start + span) ∧ a.count ≤ limit := by
    simp [within, during]
  have hnodup : (within.map fun a => (a.generation, a.count)).Nodup := h.distinct.sublist (List.filter_sublist.map _)
  by_cases hempty : within = []
  · show within.length ≤ _
    rw [hempty]
    exact Nat.zero_le _
  obtain ⟨first, hfirst, hleast⟩ := exists_min_image within.toFinset Answer.generation (List.toFinset_nonempty_iff _ |>.mpr hempty)
  have hin := hmem.mp (List.mem_toFinset.mp hfirst)
  -- Nothing in the window is two generations after the first: it would be a span later.
  have hpairs : (within.map fun a => (a.generation, a.count)).toFinset ⊆
      Icc first.generation (first.generation + 1) ×ˢ Icc 1 limit := by
    intro p hp
    obtain ⟨a, ha, rfl⟩ := List.mem_map.mp (List.mem_toFinset.mp hp)
    have hle := hleast a (List.mem_toFinset.mpr ha)
    have ha := hmem.mp ha
    have hnext : a.generation ≤ first.generation + 1 := by
      by_contra hlater
      have := h.apart first hin.1 a ha.1 (by omega)
      omega
    exact mem_product.mpr ⟨mem_Icc.mpr ⟨hle, hnext⟩, mem_Icc.mpr ⟨(h.counted a ha.1).1, ha.2.2⟩⟩
  calc within.length = (within.map fun a => (a.generation, a.count)).toFinset.card := by
        rw [List.toFinset_card_of_nodup hnodup, List.length_map]
    _ ≤ (Icc first.generation (first.generation + 1) ×ˢ Icc 1 limit).card := card_le_card hpairs
    _ = 2 * limit := by
        have htwo : first.generation + 1 + 1 - first.generation = 2 := by omega
        rw [card_product, Nat.card_Icc, Nat.card_Icc, htwo, Nat.add_sub_cancel]

/-! ### Counters that do not expire -/

/-- The counter had a value, does not expire, and has counted on: what an increment whose expiry
was lost leaves for good. -/
def Stuck (value : Nat) (before : List Answer) (m : Meter) : Prop :=
  ∃ more, m.answers = before ++ more ∧ more.map Answer.count = List.range' (value + 1) more.length ∧
    m.counter = some ⟨value + more.length, none⟩

theorem stuck_now {value : Nat} (h : m.counter = some ⟨value, none⟩) : Stuck value m.answers m :=
  ⟨[], (List.append_nil _).symm, rfl, h⟩

theorem Stuck.incr {value : Nat} {before : List Answer} (h : Stuck value before m) (now : Int) :
    Stuck value before (m.incr now).1 ∧ value < (m.incr now).2 := by
  obtain ⟨more, hanswers, hcounts, hcounter⟩ := h
  have hlive : m.live now = some ⟨value + more.length, none⟩ := by
    rw [Meter.live, hcounter]
    rfl
  unfold Meter.incr
  rw [hlive]
  refine ⟨⟨more ++ [⟨now, m.generation, value + more.length + 1⟩], ?_, ?_, ?_⟩, ?_⟩
  · show m.answers ++ _ = _
    rw [hanswers, List.append_assoc]
  · rw [List.map_append, hcounts, List.length_append, List.length_singleton, List.range'_1_concat]
    simp only [List.map_cons, List.map_nil]
    congr 2
    omega
  · rw [List.length_append, List.length_singleton]
    rfl
  · dsimp only
    omega

/-- **A stuck counter** answers within the limit as often as it has yet to reach it, ever. -/
theorem Stuck.within_le {value : Nat} {before : List Answer} (h : Stuck value before m) (limit : Nat) :
    ((m.answers.drop before.length).filter fun a => decide (a.count ≤ limit)).length ≤ limit - value := by
  obtain ⟨more, hanswers, hcounts, -⟩ := h
  have hrange : (more.filter fun a => decide (a.count ≤ limit)).map Answer.count =
      (List.range' (value + 1) more.length).filter (· ≤ limit) := by
    rw [← hcounts, List.filter_map]
    rfl
  have hsubset : ((List.range' (value + 1) more.length).filter (· ≤ limit)).toFinset ⊆ Finset.Icc (value + 1) limit := by
    intro n hn
    simp only [List.mem_toFinset, List.mem_filter, List.mem_range'_1, decide_eq_true_eq] at hn
    exact Finset.mem_Icc.mpr ⟨hn.1.1, hn.2⟩
  have hnodup : ((List.range' (value + 1) more.length).filter (· ≤ limit)).Nodup := (List.nodup_range' (h := Nat.one_pos)).filter _
  rw [hanswers, List.drop_left, ← List.length_map Answer.count, hrange, ← List.toFinset_card_of_nodup hnodup]
  calc _ ≤ (Finset.Icc (value + 1) limit).card := Finset.card_le_card hsubset
    _ = limit - value := by rw [Nat.card_Icc, Nat.add_sub_add_right]

end PveMaster.Limiting
