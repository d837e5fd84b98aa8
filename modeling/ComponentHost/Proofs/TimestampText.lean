import ComponentHost.Time.Rfc3339

/-!
A timestamp is read back from its text.

Each part of the text is read back by its reader in front of whatever follows it. A number stops
where its digits do, so what follows must not go on with a digit (`StopsDigits`), unless the reader
has its full count of digits by then.
-/

set_option autoImplicit false

namespace ComponentHost

namespace Rfc3339

/-! ### Digits -/

def AllDigits (s : List Char) : Prop := ∀ c ∈ s, c.isDigit = true

/-- A text that does not go on with a digit. -/
def StopsDigits (s : List Char) : Prop := ∀ c ∈ s.head?, c.isDigit = false

theorem isBlank_of_isDigit {c : Char} (hdigit : c.isDigit = true) : isBlank c = false := by
  have hall : ∀ n, n < 58 → 48 ≤ n → isBlank (Char.ofNat n) = false := by decide
  obtain ⟨hlow, hhigh⟩ := Char.isDigit_iff_toNat.mp hdigit
  rw [← Char.ofNat_toNat c]
  exact hall _ (Nat.lt_succ_of_le hhigh) hlow

theorem trim_of_head {c : Char} (hc : isBlank c = false) (s : List Char) :
    trim (c :: s) = c :: s := by
  simp [trim, hc]

theorem trim_digits_append {ds : List Char} (hdigits : AllDigits ds) (hne : ds ≠ [])
    (rest : List Char) : trim (ds ++ rest) = ds ++ rest := by
  obtain ⟨d, ds, rfl⟩ := List.exists_cons_of_ne_nil hne
  exact trim_of_head (isBlank_of_isDigit (hdigits d List.mem_cons_self)) _

theorem takeWhile_digits_append {ds rest : List Char} (hdigits : AllDigits ds)
    (hstops : StopsDigits rest) : (ds ++ rest).takeWhile Char.isDigit = ds := by
  have hrest : rest.takeWhile Char.isDigit = [] := by
    cases rest with
    | nil => rfl
    | cons c rest => simp [hstops c rfl]
  rw [List.takeWhile_append_of_pos hdigits, hrest, List.append_nil]

theorem dropWhile_digits_append {ds rest : List Char} (hdigits : AllDigits ds)
    (hstops : StopsDigits rest) : (ds ++ rest).dropWhile Char.isDigit = rest := by
  have hrest : rest.dropWhile Char.isDigit = rest := by
    cases rest with
    | nil => rfl
    | cons c rest => simp [hstops c rfl]
  rw [List.dropWhile_append_of_pos hdigits, hrest]

/-! ### Decimals -/

theorem allDigits_padded (width n : Nat) : AllDigits (padded width n) := by
  intro c hmem
  rcases List.mem_append.mp hmem with hzero | hdigit
  · obtain rfl := List.eq_of_mem_replicate hzero
    rfl
  · exact Nat.isDigit_of_mem_toDigits (by decide) (by decide) hdigit

theorem padded_ne_nil (width n : Nat) : padded width n ≠ [] := by
  have hpos : 0 < (Nat.toDigits 10 n).length := Nat.length_toDigits_pos
  intro h
  rw [padded, List.append_eq_nil_iff] at h
  simp [h.2] at hpos

/-- A number that fits is written with the width asked for. -/
theorem length_padded {width n : Nat} (hwidth : 0 < width) (hfits : n < Nat.pow 10 width) :
    (padded width n).length = width := by
  have hle : (Nat.toDigits 10 n).length ≤ width :=
    (Nat.length_toDigits_le_iff (by decide) hwidth).mpr hfits
  simp only [padded, List.length_append, List.length_replicate]
  omega

/-- Leading zeros do not count. -/
theorem valueOf_padded (width n : Nat) : valueOf (padded width n) = n := by
  have hvalue (ds : List Char) : valueOf ds = Nat.ofDigitChars 10 ds 0 := by
    simp only [valueOf, Nat.ofDigitChars_eq_foldl, Nat.mul_comm 10]
    rfl
  rw [hvalue, padded, Nat.ofDigitChars_append, Nat.ofDigitChars_replicate_zero,
    Nat.mul_zero, Nat.ofDigitChars_ten_toDigits]

/-- A decimal is read up to its end, or up to the most digits allowed. -/
theorem number_append {most : Nat} {ds rest : List Char} (hdigits : AllDigits ds) (hne : ds ≠ [])
    (hmost : ds.length ≤ most) (hstops : ds.length = most ∨ StopsDigits rest)
    (hrange : valueOf ds < 0x8000000000000000) :
    number most (ds ++ rest) = .ok (valueOf ds, rest) := by
  have htaken : ((ds ++ rest).take most).takeWhile Char.isDigit = ds := by
    rw [List.take_append, List.take_of_length_le hmost]
    refine takeWhile_digits_append hdigits ?_
    rcases hstops with hfull | hstops
    · simp [hfull, StopsDigits]
    · intro c hc
      refine hstops c ?_
      cases rest <;> cases h : most - ds.length <;> simp_all
  simp only [number, htaken]
  rw [if_neg (by simp [hne]), if_neg (by simp [hne]), if_neg (by omega), List.drop_left]

theorem number_padded {most width n : Nat} {rest : List Char}
    (hmost : (padded width n).length ≤ most)
    (hstops : (padded width n).length = most ∨ StopsDigits rest) (hrange : n < 0x8000000000000000) :
    number most (padded width n ++ rest) = .ok (n, rest) := by
  have hvalue := valueOf_padded width n
  have h := number_append (allDigits_padded width n) (padded_ne_nil width n) hmost hstops
    (by rwa [hvalue])
  rwa [hvalue] at h

/-! ### Parts of a text -/

theorem separator_cons {c : Char} (hc : isBlank c = false) (rest : List Char) :
    separator c (c :: rest) = .ok rest := by
  simp [separator, trim_of_head hc]

theorem pair_padded {least most n : Nat} {rest : List Char} (hleast : least ≤ n) (hmost : n ≤ most)
    (hfits : n < 100) : pair least most (padded 2 n ++ rest) = .ok (n, rest) := by
  have hlength : (padded 2 n).length = 2 := length_padded (by decide) hfits
  have hnumber : number 2 (padded 2 n ++ rest) = .ok (n, rest) :=
    number_padded (Nat.le_of_eq hlength) (.inl hlength) (by omega)
  have hin : ¬(n < least ∨ most < n) := by omega
  simp [pair, trim_digits_append (allDigits_padded 2 n) (padded_ne_nil 2 n), hnumber, hin, bind,
    Except.bind, pure, Except.pure]

theorem year_of_isDigit {d : Char} (hdigit : d.isDigit = true) (s : List Char) :
    year (d :: s) = (number 4 (d :: s)).map fun x ↦ ((x.1 : Int), x.2) := by
  unfold year
  rw [trim_of_head (isBlank_of_isDigit hdigit)]
  split
  next heq =>
    obtain ⟨rfl, -⟩ := List.cons.inj heq
    contradiction
  next heq =>
    obtain ⟨rfl, -⟩ := List.cons.inj heq
    contradiction
  next => cases number 4 (d :: s) <;> rfl

theorem year_minus {n : Nat} {s rest : List Char} (hnumber : number s.length s = .ok (n, rest))
    (hrange : n < 0x80000000) : year ('-' :: s) = .ok (-(n : Int), rest) := by
  have hin : ¬(-1 * (n : Int) < -0x80000000 ∨ 0x80000000 ≤ -1 * (n : Int)) := by omega
  simp only [year, trim_of_head (c := '-') rfl, hnumber, bind, Except.bind]
  rw [if_neg hin]
  simp [pure, Except.pure]

theorem year_plus {n : Nat} {s rest : List Char} (hnumber : number s.length s = .ok (n, rest))
    (hrange : n < 0x80000000) : year ('+' :: s) = .ok ((n : Int), rest) := by
  have hin : ¬(1 * (n : Int) < -0x80000000 ∨ 0x80000000 ≤ 1 * (n : Int)) := by omega
  simp only [year, trim_of_head (c := '+') rfl, hnumber, bind, Except.bind]
  rw [if_neg hin]
  simp [pure, Except.pure]

/-- A year is read back with its sign, which is written for all but the years 0 to 9999. -/
theorem year_yearText {y : Int} (hrange : y.natAbs < 0x80000000) {rest : List Char}
    (hstops : StopsDigits rest) : year (yearText y ++ rest) = .ok (y, rest) := by
  unfold yearText
  split
  next hplain =>
    have hfits : y.toNat < 10000 := by omega
    have hlength : (padded 4 y.toNat).length = 4 := length_padded (by decide) hfits
    have hnumber : number 4 (padded 4 y.toNat ++ rest) = .ok (y.toNat, rest) :=
      number_padded (Nat.le_of_eq hlength) (.inl hlength) (by omega)
    obtain ⟨d, ds, hds⟩ := List.exists_cons_of_ne_nil (padded_ne_nil 4 y.toNat)
    have hdigit : d.isDigit = true := allDigits_padded 4 y.toNat d (hds ▸ List.mem_cons_self)
    have hyear := year_of_isDigit hdigit (ds ++ rest)
    rw [← List.cons_append, ← hds, hnumber] at hyear
    rw [hyear, Except.map, Int.toNat_of_nonneg hplain.1]
  next =>
    have hnumber : number (padded 4 y.natAbs ++ rest).length (padded 4 y.natAbs ++ rest) =
        .ok (y.natAbs, rest) := number_padded (by simp) (.inr hstops) (by omega)
    rcases Int.lt_or_le y 0 with hneg | hpos
    · have habs : -(y.natAbs : Int) = y := by omega
      rw [if_pos hneg, List.cons_append, year_minus hnumber hrange, habs]
    · have habs : (y.natAbs : Int) = y := by omega
      rw [if_neg (Int.not_lt.mpr hpos), List.cons_append, year_plus hnumber hrange, habs]

theorem nanos_padded {width n : Nat} {rest : List Char} (hwidth : 0 < width) (hmost : width ≤ 9)
    (hfits : n < Nat.pow 10 width) (hstops : StopsDigits rest) :
    nanos ('.' :: padded width n ++ rest) = .ok (n * Nat.pow 10 (9 - width), rest) := by
  have hlength : (padded width n).length = width := length_padded hwidth hfits
  have hbound : Nat.pow 10 width ≤ Nat.pow 10 9 := Nat.pow_le_pow_right (by decide) hmost
  have hrange : n < 0x8000000000000000 :=
    Nat.lt_of_lt_of_le hfits (Nat.le_trans hbound (by decide))
  have hnumber : number 9 (padded width n ++ rest) = .ok (n, rest) :=
    number_padded (by omega) (.inr hstops) hrange
  have htaken : (padded width n ++ rest).take ((padded width n ++ rest).length - rest.length) =
      padded width n := by simp
  have hdropped : rest.dropWhile Char.isDigit = rest :=
    dropWhile_digits_append (List.forall_mem_nil _) hstops
  simp only [List.cons_append, nanos, hnumber, bind, Except.bind, htaken, hdropped, hlength,
    valueOf_padded]
  rfl

/-- A fraction is read back whichever of the four widths it is written with. -/
theorem nanos_fractionText {n : Nat} (hn : n < 1000000000) {rest : List Char}
    (hstops : StopsDigits rest) (hdot : rest.head? ≠ some '.') :
    nanos (fractionText n ++ rest) = .ok (n, rest) := by
  unfold fractionText
  split
  next hzero =>
    subst hzero
    cases rest with
    | nil => rfl
    | cons c rest =>
      have hc : c ≠ '.' := by simpa using hdot
      simp [nanos, hc]
  split
  next hmillis =>
    have hfits : n / 1000000 < 1000 := by omega
    have hback : n / 1000000 * 1000000 = n := by omega
    exact (nanos_padded (by decide) (by decide) hfits hstops).trans (by rw [hback])
  split
  next hmicros =>
    have hfits : n / 1000 < 1000000 := by omega
    have hback : n / 1000 * 1000 = n := by omega
    exact (nanos_padded (by decide) (by decide) hfits hstops).trans (by rw [hback])
  next =>
    have hback : n * 1 = n := Nat.mul_one n
    exact (nanos_padded (by decide) (by decide) hn hstops).trans (by rw [hback])

end Rfc3339

/-! ### The whole text -/

namespace Date

theorem bounds (d : Date) :
    d.year.natAbs < 0x80000000 ∧ (1 ≤ d.month ∧ d.month ≤ 12) ∧ (1 ≤ d.day ∧ d.day ≤ 31) := by
  have hdays : Calendar.daysInMonth d.year d.month ≤ 31 := by
    unfold Calendar.daysInMonth
    repeat' split
    all_goals decide
  have h := d.isDate
  simp only [Calendar.isDate, Bool.and_eq_true, decide_eq_true_eq] at h
  unfold Calendar.minYear Calendar.maxYear at h
  omega

theorem ofParts?_self (d : Date) : ofParts? d.year d.month d.day = some d := by
  simp [ofParts?, d.isDate]

end Date

namespace Clock

theorem bounds (c : Clock) :
    c.hour < 24 ∧ c.minute < 60 ∧ c.second ≤ 60 ∧ c.nanos < 1000000000 := by
  simpa [and_assoc] using c.isTime

theorem ofParts?_self (c : Clock) : ofParts? c.hour c.minute c.second c.nanos = some c := by
  simp [ofParts?, c.bounds]

end Clock

namespace Timestamp

/-- Clocks that show UTC show the time itself. -/
theorem ofLocal?_zero (date : Date) (clock : Clock) :
    ofLocal? date clock 0 = some ⟨date, clock⟩ := by
  obtain ⟨hhour, hminute, -, -⟩ := clock.bounds
  have hday : ((clock.hour * 60 + clock.minute : Nat) - (0 : Int)) % 1440 =
      ((clock.hour * 60 + clock.minute : Nat) : Int) := by omega
  have hof : (clock.hour * 60 + clock.minute) / 60 = clock.hour := by omega
  have hrest : (clock.hour * 60 + clock.minute) % 60 = clock.minute := by omega
  simp only [ofLocal?, hday, Int.toNat_natCast, hof, hrest, clock.ofParts?_self]
  rw [if_neg (by omega), if_neg (by omega)]

end Timestamp

namespace Rfc3339

theorem parse_text (t : Timestamp) : parse (text t) = .ok t := by
  obtain ⟨hyear, ⟨hmonth, hmonth'⟩, hday, hday'⟩ := t.date.bounds
  obtain ⟨hhour, hminute, hsecond, hnanos⟩ := t.clock.bounds
  have hnext (c : Char) (s : List Char) (hc : c.isDigit = false) : StopsDigits (c :: s) := by
    simpa [StopsDigits] using hc
  have hhour' : t.clock.hour ≤ 23 := Nat.le_of_lt_succ hhour
  have hminute' : t.clock.minute ≤ 59 := Nat.le_of_lt_succ hminute
  have hend : offset (trim ['Z']) = .ok (0, []) := rfl
  simp only [parse, text, chars, String.toList_ofList, List.append_assoc, List.cons_append, bind,
    Except.bind, year_yearText hyear (hnext '-' _ rfl), separator_cons (c := '-') rfl,
    separator_cons (c := ':') rfl, pair_padded hmonth hmonth' (by omega),
    pair_padded hday hday' (by omega), pair_padded (Nat.zero_le _) hhour' (by omega),
    pair_padded (Nat.zero_le _) hminute' (by omega), pair_padded (Nat.zero_le _) hsecond (by omega),
    nanos_fractionText hnanos (hnext 'Z' [] rfl) (by decide), hend, pure, Except.pure,
    decide_true, Bool.true_or, if_true]
  simp [trim, t.date.ofParts?_self, t.clock.ofParts?_self, Timestamp.ofLocal?_zero]

end Rfc3339

/-- A timestamp is read back from its text. -/
theorem Timestamp.codec_lawful : Timestamp.codec.Lawful := fun t ↦ by
  simp only [codec, Rfc3339.parse_text]
  rfl

end ComponentHost
