import ComponentHost.Time.Schedule
import Mathlib.Order.Bounds.Basic

/-!
When a schedule runs.

The next run after an instant is the least of the times `anchor + k * step` that lie behind it
(`Schedule.next_isLeast`). The distance from the anchor is cut to whole milliseconds, but nothing is
lost, because a step is a whole number of them. Where that time lies beyond the calendar there is no
next run. No number on the way leaves the 64 bits it is kept in (`Schedule.Calculable`): they are
bounded by the calendar, whatever the step.

With each run asked for after the one before, the `n`-th lies `n` steps behind the anchor
(`Schedule.runs_eq_ofNanos?`). Steps are as long as the interval only if that is a whole number of
milliseconds; with any other interval every run but the first comes too early
(`Schedule.keepsTime_iff`).
-/

set_option autoImplicit false

namespace ComponentHost

namespace Instant

theorem ofNanos?_eq_some_iff {n : Int} {t : Instant} : ofNanos? n = some t ↔ t.nanos = n := by
  constructor
  · intro h
    unfold ofNanos? at h
    split at h
    · cases h
      rfl
    · cases h
  · rintro rfl
    exact dif_pos ⟨t.earliest_le, t.le_latest⟩

theorem ofNanos?_eq_none_iff {n : Int} (hn : earliest ≤ n) : ofNanos? n = none ↔ latest < n := by
  unfold ofNanos?
  split
  · rename_i h
    exact ⟨nofun, fun hlate ↦ absurd h.2 (Int.not_le.mpr hlate)⟩
  · rename_i h
    exact ⟨fun _ ↦ Int.not_le.mp fun hle ↦ h ⟨hn, hle⟩, fun _ ↦ rfl⟩

end Instant

theorem Span.isSome_ofNanos? {n : Int} (hlow : -(maxMillis * nanosPerMilli) ≤ n)
    (hhigh : n ≤ maxMillis * nanosPerMilli) : (ofNanos? n).isSome := by
  unfold ofNanos?
  rw [dif_pos ⟨hlow, hhigh⟩]
  rfl

/-- The number fits 64 bits with a sign. -/
def IsWord (n : Int) : Prop := -0x8000000000000000 ≤ n ∧ n < 0x8000000000000000

namespace Schedule

variable {s : Schedule} {anchor after : Instant} {interval : Span}

theorem fields_of_ofInterval (haccepted : ofInterval anchor interval = .ok s) :
    s.anchor = anchor ∧ s.interval = interval := by
  unfold ofInterval at haccepted
  split at haccepted
  · cases haccepted
    exact ⟨rfl, rfl⟩
  · cases haccepted

/-! ### One step -/

theorem step_pos (s : Schedule) : 0 < s.step := s.positive

/-- Cutting a number of nanoseconds that is not negative to milliseconds rounds it down. -/
theorem cut_spec {n : Int} (hn : 0 ≤ n) : 0 ≤ n.tdiv nanosPerMilli ∧
    n.tdiv nanosPerMilli * nanosPerMilli ≤ n ∧
      n < (n.tdiv nanosPerMilli + 1) * nanosPerMilli := by
  rw [Int.tdiv_eq_ediv_of_nonneg hn]
  unfold nanosPerMilli
  omega

theorem interval_nonneg (s : Schedule) : 0 ≤ s.interval.nanos := by
  by_contra hneg
  have hcut : 0 ≤ (-s.interval.nanos).tdiv nanosPerMilli := Int.tdiv_nonneg (by omega) (by decide)
  rw [Int.neg_tdiv] at hcut
  have hpos : 0 < s.interval.nanos.tdiv nanosPerMilli := s.positive
  omega

/-- A step is what is left of the interval without the part of a millisecond. -/
theorem step_spec (s : Schedule) : s.step * nanosPerMilli ≤ s.interval.nanos ∧
    s.interval.nanos < (s.step + 1) * nanosPerMilli := (cut_spec s.interval_nonneg).2

theorem step_le (s : Schedule) : s.step ≤ Span.maxMillis := by
  have hbound := s.interval.bounded.2
  have hstep := s.step_spec.1
  unfold nanosPerMilli at *
  omega

/-- Not before the anchor the elapsed time is cut downwards. -/
theorem elapsed_spec (hafter : s.anchor.nanos ≤ after.nanos) : 0 ≤ s.elapsed after ∧
    s.elapsed after * nanosPerMilli ≤ after.nanos - s.anchor.nanos ∧
      after.nanos - s.anchor.nanos < (s.elapsed after + 1) * nanosPerMilli :=
  cut_spec (by omega)

/-- The calendar is much shorter than the longest span. -/
theorem elapsed_le (hafter : s.anchor.nanos ≤ after.nanos) :
    2 * s.elapsed after ≤ Span.maxMillis := by
  have hcut := (elapsed_spec hafter).2.1
  have hearliest := s.anchor.earliest_le
  have hlatest := after.le_latest
  unfold Instant.earliest at hearliest
  unfold Instant.latest at hlatest
  unfold nanosPerSecond at hearliest hlatest
  unfold nanosPerMilli at hcut
  unfold Span.maxMillis
  omega

/-- The elapsed time lies in the period that is counted last. -/
theorem periods_spec (hafter : s.anchor.nanos ≤ after.nanos) : 0 ≤ s.periods after ∧
    s.periods after * s.step ≤ s.elapsed after ∧ s.elapsed after < s.offset after := by
  have helapsed := (elapsed_spec hafter).1
  unfold offset periods
  rw [Int.tdiv_eq_ediv_of_nonneg helapsed]
  exact ⟨Int.ediv_nonneg helapsed s.step_pos.le, Int.ediv_mul_le _ s.step_pos.ne',
    Int.lt_ediv_add_one_mul_self _ s.step_pos⟩

theorem periods_le (hafter : s.anchor.nanos ≤ after.nanos) : s.periods after ≤ s.elapsed after := by
  obtain ⟨hperiods, hpassed, -⟩ := periods_spec hafter
  have hone : s.periods after * 1 ≤ s.periods after * s.step :=
    Int.mul_le_mul_of_nonneg_left s.step_pos hperiods
  omega

theorem offset_le (hafter : s.anchor.nanos ≤ after.nanos) : s.offset after ≤ Span.maxMillis := by
  obtain ⟨hperiods, hpassed, -⟩ := periods_spec hafter
  have hoffset : s.offset after = s.periods after * s.step + 1 * s.step := Int.add_mul ..
  have hstep := s.step_le
  by_cases hfirst : s.periods after = 0
  · rw [hoffset, hfirst]
    omega
  · -- a step that has passed is no longer than the calendar
    have hone : 1 * s.step ≤ s.periods after * s.step :=
      Int.mul_le_mul_of_nonneg_right (by omega) s.step_pos.le
    have hlong := elapsed_le hafter
    omega

/-- Every number on the way to the next run is kept as it is: spans are spans, words are words, and
nothing is divided by zero. -/
structure Calculable (s : Schedule) (after : Instant) : Prop where
  distance : (Span.ofNanos? (after.nanos - s.anchor.nanos)).isSome
  elapsed : IsWord (s.elapsed after)
  step_ne : s.step ≠ 0
  periods : IsWord (s.periods after)
  successor : IsWord (s.periods after + 1)
  offset : IsWord (s.offset after)
  span : (Span.ofNanos? (s.offset after * nanosPerMilli)).isSome

theorem calculable (hafter : s.anchor.nanos ≤ after.nanos) : s.Calculable after := by
  obtain ⟨helapsed, -, hcut⟩ := elapsed_spec hafter
  obtain ⟨hperiods, -, hahead⟩ := periods_spec hafter
  have hlong := elapsed_le hafter
  have hcount := periods_le hafter
  have hoffset := offset_le hafter
  unfold Span.maxMillis at hlong hoffset
  have hword {n : Int} (hn : 0 ≤ n) (hle : n ≤ 0x7fffffffffffffff) : IsWord n := by
    unfold IsWord
    omega
  have hspan {n : Int} (hn : 0 ≤ n) (hle : n ≤ 0x7fffffffffffffff * 1000000) :
      (Span.ofNanos? n).isSome := Span.isSome_ofNanos? (Int.le_trans (by decide) hn) hle
  exact {
    distance := hspan (by omega) (by unfold nanosPerMilli at hcut; omega)
    elapsed := hword helapsed (by omega)
    step_ne := s.step_pos.ne'
    periods := hword hperiods (by omega)
    successor := hword (by omega) (by omega)
    offset := hword (by omega) hoffset
    span := by
      unfold nanosPerMilli
      exact hspan (by omega) (by omega) }

/-! ### The next run -/

/-- The times at which a schedule runs that has this anchor, and so many milliseconds from one run
to the next. -/
def times (anchor : Instant) (millis : Int) : Set Int :=
  {t | ∃ k : Nat, t = anchor.nanos + k * (millis * nanosPerMilli)}

/-- Of the times behind an instant that is not before the anchor the one at the offset is the
first. -/
theorem isLeast_offset (hafter : s.anchor.nanos ≤ after.nanos) :
    IsLeast {t | t ∈ times s.anchor s.step ∧ after.nanos < t}
      (s.anchor.nanos + s.offset after * nanosPerMilli) := by
  obtain ⟨helapsed, hlow, hhigh⟩ := elapsed_spec hafter
  obtain ⟨hperiods, -, hahead⟩ := periods_spec hafter
  unfold nanosPerMilli at hlow hhigh
  constructor
  · refine ⟨⟨(s.periods after + 1).toNat, ?_⟩, ?_⟩
    · rw [Int.toNat_of_nonneg (by omega), ← Int.mul_assoc]
      rfl
    · unfold nanosPerMilli
      omega
  · rintro t ⟨⟨k, rfl⟩, hbehind⟩
    rw [← Int.mul_assoc] at hbehind ⊢
    unfold nanosPerMilli at hbehind ⊢
    have hmore : s.elapsed after < k * s.step := by omega
    have hcount : s.periods after < k := by
      unfold periods
      rw [Int.tdiv_eq_ediv_of_nonneg helapsed]
      exact Int.ediv_lt_of_lt_mul s.step_pos hmore
    have hleast : s.offset after ≤ k * s.step :=
      Int.mul_le_mul_of_nonneg_right hcount s.step_pos.le
    omega

theorem isLeast_anchor (hafter : after.nanos < s.anchor.nanos) :
    IsLeast {t | t ∈ times s.anchor s.step ∧ after.nanos < t} s.anchor.nanos := by
  refine ⟨⟨⟨0, by simp⟩, hafter⟩, ?_⟩
  rintro t ⟨⟨k, rfl⟩, -⟩
  have hsteps : 0 ≤ k * (s.step * nanosPerMilli) :=
    Int.mul_nonneg (Int.natCast_nonneg k) (Int.mul_nonneg s.step_pos.le (by decide))
  omega

/-- The next run is at the first time behind the instant, if the calendar has it. -/
theorem exists_isLeast_next (s : Schedule) (after : Instant) :
    ∃ t, IsLeast {t | t ∈ times s.anchor s.step ∧ after.nanos < t} t ∧
      s.next after = Instant.ofNanos? t := by
  unfold next
  split
  · rename_i hbefore
    exact ⟨_, isLeast_anchor hbefore, (Instant.ofNanos?_eq_some_iff.mpr rfl).symm⟩
  · rename_i hafter
    have hafter := Int.not_lt.mp hafter
    exact ⟨_, isLeast_offset hafter, if_pos (offset_le hafter)⟩

/-- The next run of a schedule after an instant is the least time `anchor + k * step` behind it, the
step being the interval in whole milliseconds. There is none exactly when that time lies beyond the
calendar. If the instant is not before the anchor then the run is calculated, and on the way nothing
overflows and nothing is divided by zero. -/
theorem next_isLeast (haccepted : ofInterval anchor interval = .ok s) (after : Instant) :
    (∃ t, IsLeast {t | t ∈ times anchor interval.millis ∧ after.nanos < t} t ∧
      (∀ i, s.next after = some i ↔ i.nanos = t) ∧
        (s.next after = none ↔ Instant.latest < t)) ∧
    (anchor.nanos ≤ after.nanos → s.Calculable after) := by
  obtain ⟨rfl, rfl⟩ := fields_of_ofInterval haccepted
  refine ⟨?_, calculable⟩
  obtain ⟨t, hleast, hnext⟩ := s.exists_isLeast_next after
  have hearly : Instant.earliest ≤ t := after.earliest_le.trans hleast.1.2.le
  refine ⟨t, hleast, fun i ↦ ?_, ?_⟩
  · rw [hnext, Instant.ofNanos?_eq_some_iff]
  · rw [hnext, Instant.ofNanos?_eq_none_iff hearly]

end Schedule

namespace Small

/-- The beginning of 1970. -/
def dawn : Instant := ⟨0, by decide, by decide⟩

/-- One millisecond and a half. -/
def uneven : Span := ⟨1500000, by decide⟩

/-- A schedule that is meant to run every one and a half milliseconds. -/
def hasty : Schedule := ⟨dawn, uneven, by decide⟩

/-- The last nanosecond of the second millisecond. -/
def shortly : Instant := ⟨1999999, by decide, by decide⟩

/-- The run behind an instant that lies between two milliseconds is at the next one. -/
theorem hasty_next : Schedule.ofInterval dawn uneven = .ok hasty ∧ dawn.nanos ≤ shortly.nanos ∧
    ((∃ t, IsLeast {t | t ∈ Schedule.times dawn uneven.millis ∧ shortly.nanos < t} t ∧
      (∀ i, hasty.next shortly = some i ↔ i.nanos = t) ∧
        (hasty.next shortly = none ↔ Instant.latest < t)) ∧
      hasty.Calculable shortly) ∧
    hasty.next shortly = some ⟨2000000, by decide, by decide⟩ := by
  have haccepted : Schedule.ofInterval dawn uneven = .ok hasty := rfl
  have hafter : dawn.nanos ≤ shortly.nanos := by decide
  obtain ⟨hnext, hcalculable⟩ := Schedule.next_isLeast haccepted shortly
  exact ⟨haccepted, hafter, ⟨hnext, hcalculable hafter⟩, by decide⟩

end Small

namespace Schedule

variable {s : Schedule} {anchor after : Instant} {interval : Span}

/-! ### Run after run -/

/-- The `n`-th run behind an instant, each being asked for after the one before. -/
def runs (s : Schedule) (after : Instant) : Nat → Option Instant
  | 0 => s.next after
  | n + 1 => (s.runs after n).bind s.next

/-- Behind one time of a schedule the next one is the first. -/
theorem isLeast_succ (s : Schedule) (n : Nat) :
    IsLeast {t | t ∈ times s.anchor s.step ∧
        s.anchor.nanos + n * (s.step * nanosPerMilli) < t}
      (s.anchor.nanos + (n + 1 : Nat) * (s.step * nanosPerMilli)) := by
  have hstep : 0 < s.step * nanosPerMilli := Int.mul_pos s.step_pos (by decide)
  constructor
  · refine ⟨⟨n + 1, rfl⟩, Int.add_lt_add_left (Int.mul_lt_mul_of_pos_right ?_ hstep) _⟩
    omega
  · rintro t ⟨⟨k, rfl⟩, hbehind⟩
    have hmore : (n : Int) < k := Int.lt_of_mul_lt_mul_right (by omega) hstep.le
    exact Int.add_le_add_left (Int.mul_le_mul_of_nonneg_right (by omega) hstep.le) _

/-- Asked for from before the anchor on, the `n`-th run is `n` steps behind the anchor, as long as
the calendar has it. -/
theorem runs_eq_ofNanos? (hbefore : after.nanos < s.anchor.nanos) (n : Nat) :
    s.runs after n = Instant.ofNanos? (s.anchor.nanos + n * (s.step * nanosPerMilli)) := by
  induction n with
  | zero =>
    obtain ⟨t, hleast, hnext⟩ := s.exists_isLeast_next after
    rw [runs, hnext, hleast.unique (isLeast_anchor hbefore)]
    simp
  | succ n ih =>
    rw [runs, ih]
    cases hrun : Instant.ofNanos? (s.anchor.nanos + n * (s.step * nanosPerMilli)) with
    | some i =>
      rw [Instant.ofNanos?_eq_some_iff] at hrun
      obtain ⟨t, hleast, hnext⟩ := s.exists_isLeast_next i
      rw [hrun] at hleast
      rw [hleast.unique (s.isLeast_succ n)] at hnext
      exact hnext
    | none =>
      -- beyond the end of the calendar there is nothing more
      have hearly (m : Nat) : Instant.earliest ≤
          s.anchor.nanos + m * (s.step * nanosPerMilli) := by
        have hsteps : 0 ≤ (m : Int) * (s.step * nanosPerMilli) :=
          Int.mul_nonneg (Int.natCast_nonneg m) (Int.mul_nonneg s.step_pos.le (by decide))
        have hanchor := s.anchor.earliest_le
        omega
      have hlate := (Instant.ofNanos?_eq_none_iff (hearly n)).mp hrun
      exact ((Instant.ofNanos?_eq_none_iff (hearly (n + 1))).mpr
        (hlate.trans (s.isLeast_succ n).1.2)).symm

/-- Steps are as long as the interval just if that is a whole number of milliseconds. -/
theorem step_eq_interval_iff (s : Schedule) :
    s.step * nanosPerMilli = s.interval.nanos ↔ nanosPerMilli ∣ s.interval.nanos := by
  obtain ⟨hlow, hhigh⟩ := s.step_spec
  unfold nanosPerMilli at *
  omega

/-- Asked for from before the anchor on, and each after the one before, the `n`-th run is `n` steps
behind the anchor. That is `n` intervals behind it, and the schedule has not drifted, exactly if it
is the first run or the interval is a whole number of milliseconds. -/
theorem keepsTime_iff (haccepted : ofInterval anchor interval = .ok s)
    (hbefore : after.nanos < anchor.nanos) (n : Nat) :
    s.runs after n =
        Instant.ofNanos? (anchor.nanos + n * (interval.millis * nanosPerMilli)) ∧
      ∀ t : Instant, t.nanos = anchor.nanos + n * interval.nanos →
        (s.runs after n = some t ↔ n = 0 ∨ nanosPerMilli ∣ interval.nanos) := by
  obtain ⟨rfl, rfl⟩ := fields_of_ofInterval haccepted
  refine ⟨runs_eq_ofNanos? hbefore n, fun t ht ↦ ?_⟩
  rw [runs_eq_ofNanos? hbefore, Instant.ofNanos?_eq_some_iff, ht, ← s.step_eq_interval_iff]
  constructor
  · intro hsame
    by_cases hfirst : n = 0
    · exact .inl hfirst
    · have hsteps := Int.add_left_cancel hsame
      exact .inr (Int.eq_of_mul_eq_mul_left (by omega) hsteps).symm
  · rintro (rfl | hwhole)
    · simp
    · rw [hwhole]

end Schedule

namespace Small

/-- The nanosecond before the beginning. -/
def eve : Instant := ⟨-1, by decide, by decide⟩

/-- When the second run should be. -/
def due : Instant := ⟨1500000, by decide, by decide⟩

/-- The second run is a step behind the anchor, and not when it should be. -/
theorem hasty_runs : Schedule.ofInterval dawn uneven = .ok hasty ∧ eve.nanos < dawn.nanos ∧
    due.nanos = dawn.nanos + (1 : Nat) * uneven.nanos ∧
    hasty.runs eve 1 =
      Instant.ofNanos? (dawn.nanos + (1 : Nat) * (uneven.millis * nanosPerMilli)) ∧
    (hasty.runs eve 1 = some due ↔ 1 = 0 ∨ nanosPerMilli ∣ uneven.nanos) := by
  have haccepted : Schedule.ofInterval dawn uneven = .ok hasty := rfl
  have hbefore : eve.nanos < dawn.nanos := by decide
  have hdue : due.nanos = dawn.nanos + (1 : Nat) * uneven.nanos := by decide
  obtain ⟨hruns, htime⟩ := Schedule.keepsTime_iff haccepted hbefore 1
  exact ⟨haccepted, hbefore, hdue, hruns, htime due hdue⟩

/-- Not every schedule keeps to its interval. -/
theorem hasty_drifts : ¬∀ (anchor after : Instant) (interval : Span) (s : Schedule) (n : Nat)
    (t : Instant), Schedule.ofInterval anchor interval = .ok s → after.nanos < anchor.nanos →
      t.nanos = anchor.nanos + n * interval.nanos → s.runs after n = some t := by
  intro h
  have hsecond : hasty.runs eve 1 = some due := h dawn eve uneven hasty 1 due rfl (by decide) rfl
  exact absurd hsecond (by decide)

end Small

end ComponentHost
