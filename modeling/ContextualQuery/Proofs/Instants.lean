import ContextualQuery.Proofs.Calendar
import ContextualQuery.Temporal
/-!
# Dates and instants that are written and read again

Dates are read again in every year of the calendar. Instants are written with an offset, and this
form has room for four digits of the year only; the forms without an offset, in which a year may
have a sign, do not take the offset that is written. So an instant is read again exactly if its year
has four digits.

* `Temporal.digits_append`, `Temporal.digits_afterDigits`: where a number ends;
* `Temporal.fraction_writeFraction`, `Temporal.looseYear_writeYear`: the parts that are not just a
  number of digits;
* `Temporal.looseDate_write`, `Temporal.looseTime_write`: a date and a time of day;
* `Temporal.withOffset?_instantText`, `Temporal.withOffset?_none`,
  `Temporal.withoutOffset?_mark_none`, `Temporal.withoutOffset?_blanks_none`,
  `Temporal.date?_instantText_none`: what each of the forms makes of an instant that is written;
* `readInstant?_writeInstant?`, `readDays?_writeDays?`.
-/

namespace ContextualQuery

/-! ## 1. Digits -/

/-- Only digits, and at least one. -/
structure AreDigits (ds : List Char) : Prop where
  digit : ∀ c ∈ ds, c.isDigit = true
  ne_nil : ds ≠ []

/-- What may follow digits: it does not begin with another one. -/
def AfterDigits (cs : List Char) : Prop := ∀ c rest, cs = c :: rest → c.isDigit = false

theorem afterDigits_mark {c : Char} (hc : c.isDigit = false) (rest : List Char) :
    AfterDigits (c :: rest) := by
  intro d more h
  cases h
  exact hc

theorem AfterDigits.take {cs : List Char} (h : AfterDigits cs) (width : Nat) :
    AfterDigits (cs.take width) := by
  intro c more he
  cases width with
  | zero => cases he
  | succ n =>
    cases cs with
    | nil => cases he
    | cons d rest =>
      cases he
      exact h c rest rfl

theorem digitsValue_eq (ds : List Char) : digitsValue ds = Nat.ofDigitChars 10 ds 0 := rfl

theorem areDigits_padded (width n : Nat) : AreDigits (padded width n) := by
  unfold padded
  simp only
  constructor
  · intro c hc
    rcases List.mem_append.mp hc with hc | hc
    · rw [List.eq_of_mem_replicate hc]
      rfl
    · exact Nat.isDigit_of_mem_toDigits (by omega) (by omega) hc
  · intro h
    exact Nat.toDigits_ne_nil (List.append_eq_nil_iff.mp h).2

theorem length_padded {width n : Nat} (hw : 0 < width) (hn : n < 10 ^ width) :
    (padded width n).length = width := by
  have hlength : (decimalDigits n).length ≤ width :=
    (Nat.length_toDigits_le_iff (by omega) hw).mpr hn
  unfold padded
  simp only [List.length_append, List.length_replicate]
  omega

theorem digitsValue_padded (width n : Nat) : digitsValue (padded width n) = n := by
  unfold padded
  simp only
  rw [digitsValue_eq, Nat.ofDigitChars_append, Nat.ofDigitChars_replicate_zero, Nat.mul_zero]
  exact Nat.ofDigitChars_ten_toDigits

theorem takeWhile_afterDigits {cs : List Char} (h : AfterDigits cs) :
    cs.takeWhile Char.isDigit = [] := by
  cases cs with
  | nil => rfl
  | cons c rest => exact List.takeWhile_cons_of_neg (by rw [h c rest rfl]; decide)

namespace Temporal

/-- A part that is read, and what is read after it. -/
theorem read_then {α β : Type} {x : Option α} {f : α → Option β} {a : α} {b : β} (h : x = some a)
    (hf : f a = some b) : x >>= f = some b := Option.bind_eq_some_iff.mpr ⟨a, h, hf⟩

theorem mark_self (c : Char) (rest : List Char) : mark c (c :: rest) = some ((), rest) := if_pos rfl

/-- Digits are taken off the front up to the width, or up to what is no digit. -/
theorem digits_append {width : Nat} {ds rest : List Char} (h : AreDigits ds)
    (hw : ds.length = width ∨ ds.length ≤ width ∧ AfterDigits rest) :
    digits width (ds ++ rest) = some (ds, rest) := by
  have hself : ds.takeWhile Char.isDigit = ds := by
    have happend := @List.takeWhile_append_of_pos _ _ ds [] h.digit
    rwa [List.takeWhile_nil, List.append_nil] at happend
  have htake : ((ds ++ rest).take width).takeWhile Char.isDigit = ds := by
    rcases hw with hw | ⟨hw, hafter⟩
    · rw [List.take_left' hw, hself]
    · have hrest := hafter.take (width - ds.length)
      rw [List.take_append, List.take_of_length_le hw, List.takeWhile_append_of_pos h.digit,
        takeWhile_afterDigits hrest, List.append_nil]
  have hne : ds.isEmpty = false := List.isEmpty_eq_false_iff.mpr h.ne_nil
  unfold digits
  simp only [htake, hne, List.drop_left]
  rfl

/-- What is no digit starts no number. -/
theorem digits_afterDigits {width : Nat} {cs : List Char} (h : AfterDigits cs) :
    digits width cs = none := by
  unfold digits
  simp only [takeWhile_afterDigits (h.take width)]
  rfl

theorem fixed_append {width : Nat} {ds : List Char} (h : AreDigits ds) (hw : ds.length = width)
    (rest : List Char) : fixed width (ds ++ rest) = some (digitsValue ds, rest) := by
  unfold fixed
  rw [digits_append h (.inl hw)]
  exact if_pos hw

/-- Above the space the first blank is U+0085. -/
theorem isBlank_of_between {c : Char} (hlow : 0x20 < c.toNat) (hhigh : c.toNat < 0x85) :
    isBlank c = false := by
  have hapart : ∀ r ∈ blankRanges, r.2 ≤ 0x20 ∨ 0x85 ≤ r.1 := by decide
  rw [isBlank, inRanges, List.any_eq_false]
  intro r hr
  rw [Bool.and_eq_true, decide_eq_true_eq, decide_eq_true_eq]
  rcases hapart r hr with hr | hr <;> omega

theorem toNat_of_isDigit {c : Char} (h : c.isDigit = true) : 48 ≤ c.toNat ∧ c.toNat ≤ 57 := by
  simpa [Char.isDigit, UInt32.le_iff_toNat_le] using h

theorem isBlank_of_isDigit {c : Char} (h : c.isDigit = true) : isBlank c = false := by
  have hbounds := toNat_of_isDigit h
  exact isBlank_of_between (by omega) (by omega)

/-- Before a number there are no blanks to be left out. -/
theorem trimLeft_append {ds : List Char} (h : AreDigits ds) (rest : List Char) :
    trimLeft (ds ++ rest) = ds ++ rest := by
  obtain ⟨d, ds, rfl⟩ := List.exists_cons_of_ne_nil h.ne_nil
  have hd := isBlank_of_isDigit (h.digit d List.mem_cons_self)
  exact List.dropWhile_cons_of_neg (by rw [hd]; decide)

theorem loose_append {width : Nat} {ds rest : List Char} (h : AreDigits ds)
    (hw : ds.length = width ∨ ds.length ≤ width ∧ AfterDigits rest) :
    loose width (ds ++ rest) = some (digitsValue ds, rest) := by
  unfold loose
  rw [trimLeft_append h, digits_append h hw]
  rfl

/-! ## 2. Numbers that are filled up with zeros -/

theorem fixed_padded {width n : Nat} (hw : 0 < width) (hn : n < 10 ^ width) (rest : List Char) :
    fixed width (padded width n ++ rest) = some (n, rest) := by
  rw [fixed_append (areDigits_padded width n) (length_padded hw hn), digitsValue_padded]

theorem loose_padded {width n : Nat} (hw : 0 < width) (hn : n < 10 ^ width) (rest : List Char) :
    loose width (padded width n ++ rest) = some (n, rest) := by
  rw [loose_append (areDigits_padded width n) (.inl (length_padded hw hn)), digitsValue_padded]

/-- A fraction of a second that is written is read again. -/
theorem fraction_writeFraction {micros : Nat} (h : micros < 1000000) {rest : List Char}
    (hafter : AfterDigits rest) (hpoint : ∀ more, rest ≠ '.' :: more) :
    fraction (writeFraction micros ++ rest) = some (micros, rest) := by
  have hsome (width n : Nat) : fraction ('.' :: (padded width n ++ rest)) =
      some (digitsValue ((padded width n ++ List.replicate 6 '0').take 6), rest) := by
    have hdigits := areDigits_padded width n
    have hle : (padded width n).length ≤ (padded width n ++ rest).length := by
      rw [List.length_append]
      omega
    rw [fraction, digits_append hdigits (.inr ⟨hle, hafter⟩)]
    simp only [Option.bind_eq_bind, Option.bind_some, List.drop_left]
    rfl
  unfold writeFraction
  split
  · rename_i hzero
    subst hzero
    rw [List.nil_append, fraction]
    exact hpoint
  · split
    · rename_i hmillis
      have hlength : (padded 3 (micros / 1000)).length = 3 := length_padded (by omega) (by omega)
      have hsix : (padded 3 (micros / 1000) ++ List.replicate 6 '0').take 6 =
          padded 3 (micros / 1000) ++ List.replicate 3 '0' := by
        rw [List.take_append, List.take_of_length_le (by omega), hlength]
        rfl
      have hvalue : digitsValue (padded 3 (micros / 1000) ++ List.replicate 3 '0') = micros := by
        have hthree := digitsValue_padded 3 (micros / 1000)
        rw [digitsValue_eq] at hthree
        rw [digitsValue_eq, Nat.ofDigitChars_append, hthree, Nat.ofDigitChars_replicate_zero]
        omega
      rw [List.cons_append, hsome, hsix, hvalue]
    · have hlength : (padded 6 micros).length = 6 := length_padded (by omega) h
      rw [List.cons_append, hsome, List.take_left' hlength, digitsValue_padded]

/-! ## 3. Dates -/

theorem looseYear_digits {ds rest : List Char} (h : AreDigits ds) :
    looseYear (ds ++ rest) =
      (digits 4 (ds ++ rest)).map fun r => ((digitsValue r.1 : Int), r.2) := by
  obtain ⟨d, ds, rfl⟩ := List.exists_cons_of_ne_nil h.ne_nil
  have hd := h.digit d List.mem_cons_self
  unfold looseYear
  rw [trimLeft_append h]
  split
  · rename_i he
    cases he
    cases hd
  · rename_i he
    cases he
    cases hd
  · rfl

/-- A year that is written is read again, with or without a sign. -/
theorem looseYear_writeYear (year : Int) {rest : List Char} (hafter : AfterDigits rest) :
    looseYear (writeYear year ++ rest) = some (year, rest) := by
  have hdigits := areDigits_padded 4 year.natAbs
  have hsigned : digits (padded 4 year.natAbs ++ rest).length (padded 4 year.natAbs ++ rest) =
      some (padded 4 year.natAbs, rest) :=
    digits_append hdigits (.inr ⟨by rw [List.length_append]; omega, hafter⟩)
  unfold writeYear
  split
  · rename_i hyear
    have hlength : (padded 4 year.toNat).length = 4 := length_padded (by omega) (by omega)
    have hplain := areDigits_padded 4 year.toNat
    rw [looseYear_digits hplain, digits_append hplain (.inl hlength), Option.map_some,
      digitsValue_padded, Int.toNat_of_nonneg hyear.1]
  · split
    · rename_i hneg
      have htrim : trimLeft ('-' :: (padded 4 year.natAbs ++ rest)) =
        '-' :: (padded 4 year.natAbs ++ rest) := rfl
      rw [List.cons_append, looseYear, htrim]
      simp only [hsigned, Option.map_some, digitsValue_padded]
      rw [Option.some_inj, Prod.mk.injEq]
      exact ⟨by omega, rfl⟩
    · rename_i hpos
      have htrim : trimLeft ('+' :: (padded 4 year.natAbs ++ rest)) =
        '+' :: (padded 4 year.natAbs ++ rest) := rfl
      rw [List.cons_append, looseYear, htrim]
      simp only [hsigned, Option.map_some, digitsValue_padded]
      rw [Option.some_inj, Prod.mk.injEq]
      exact ⟨by omega, rfl⟩

theorem looseDate_write {d : CivilDate} (h : d.HasDay) (rest : List Char) :
    looseDate (d.write ++ rest) = some (d, rest) := by
  obtain ⟨hmonth, hday⟩ := h.lt_hundred
  have htext : d.write ++ rest =
      writeYear d.year ++ '-' :: (padded 2 d.month ++ '-' :: (padded 2 d.day ++ rest)) := by
    simp [CivilDate.write]
  rw [htext, looseDate]
  refine read_then (looseYear_writeYear d.year (afterDigits_mark rfl _)) ?_
  refine read_then (mark_self '-' _) ?_
  refine read_then (loose_padded (by omega) hmonth _) ?_
  refine read_then (mark_self '-' _) ?_
  exact read_then (loose_padded (by omega) hday _) rfl

/-- The years that are written with four digits. -/
def HasFourDigits (year : Int) : Prop := 0 ≤ year ∧ year ≤ 9999

instance (year : Int) : Decidable (HasFourDigits year) :=
  inferInstanceAs (Decidable (0 ≤ year ∧ year ≤ 9999))

/-- The four digits of a year. -/
theorem fixed_writeYear {year : Int} (h : HasFourDigits year) (rest : List Char) :
    fixed 4 (writeYear year ++ rest) = some (year.toNat, rest) := by
  obtain ⟨hlow, hhigh⟩ := h
  rw [writeYear, if_pos ⟨hlow, hhigh⟩]
  exact fixed_padded (by omega) (by omega) rest

/-- Any other year begins with a sign. -/
theorem fixed_writeYear_none {year : Int} (h : ¬ HasFourDigits year) (rest : List Char) :
    fixed 4 (writeYear year ++ rest) = none := by
  have hnone (sign : Char) (hsign : sign.isDigit = false) (more : List Char) :
      fixed 4 (sign :: more) = none := by
    rw [fixed, digits_afterDigits (afterDigits_mark hsign more)]
    rfl
  unfold HasFourDigits at h
  rw [writeYear, if_neg h]
  split
  · exact hnone '-' rfl _
  · exact hnone '+' rfl _

/-! ## 4. Times of day -/

namespace TimeOfDay

/-- The time of day after so many microseconds. -/
def ofMicros (t : Nat) : TimeOfDay :=
  ⟨t / 1000000 / 3600, t / 1000000 / 60 % 60, t / 1000000 % 60, t % 1000000⟩

/-- The time as it is written. -/
def write (t : TimeOfDay) : List Char :=
  padded 2 t.hour ++ ':' :: padded 2 t.minute ++ ':' :: padded 2 t.second ++ writeFraction t.micros

theorem toMicros_ofMicros (t : Nat) : (ofMicros t).toMicros = t := by
  unfold ofMicros toMicros
  simp only
  omega

/-- A time within a day. -/
structure WithinDay (t : TimeOfDay) : Prop where
  hour : t.hour < 24
  minute : t.minute < 60
  second : t.second < 60
  micros : t.micros < 1000000

theorem withinDay_ofMicros {t : Nat} (h : t < dayMicros) : (ofMicros t).WithinDay := by
  unfold dayMicros at h
  unfold ofMicros
  constructor <;> simp only <;> omega

theorem WithinDay.isValid {t : TimeOfDay} (h : t.WithinDay) : t.isValid = true := by
  have hhour := h.hour
  have hminute := h.minute
  have hsecond := h.second
  unfold TimeOfDay.isValid
  simp only [Bool.and_eq_true, decide_eq_true_eq]
  omega

end TimeOfDay

/-- The mark of universal time, as it is written. -/
def zeroOffset : List Char := ['+', '0', '0', ':', '0', '0']

theorem looseTime_write {t : TimeOfDay} (h : t.WithinDay) :
    looseTime (t.write ++ zeroOffset) = some (t, zeroOffset) := by
  have hhour := h.hour
  have hminute := h.minute
  have hsecond := h.second
  have htext : t.write ++ zeroOffset = padded 2 t.hour ++ ':' :: (padded 2 t.minute ++
      ':' :: (padded 2 t.second ++ (writeFraction t.micros ++ zeroOffset))) := by
    simp [TimeOfDay.write]
  have hfraction : fraction (writeFraction t.micros ++ zeroOffset) = some (t.micros, zeroOffset) :=
    fraction_writeFraction h.micros (afterDigits_mark rfl _) nofun
  rw [htext, looseTime]
  refine read_then (loose_padded (by omega) (by omega) _) ?_
  refine read_then (mark_self ':' _) ?_
  refine read_then (loose_padded (by omega) (by omega) _) ?_
  refine read_then (mark_self ':' _) ?_
  refine read_then (loose_padded (by omega) (by omega) _) ?_
  exact read_then hfraction rfl

/-! ## 5. Instants -/

/-- The text of an instant. -/
def instantText (d : CivilDate) (t : TimeOfDay) : List Char :=
  d.write ++ 'T' :: (t.write ++ zeroOffset)

theorem writeInstant?_eq (micros : Int) : writeInstant? micros =
    (CivilDate.ofDays? (micros / dayMicros)).map fun d =>
      String.ofList (instantText d (.ofMicros (micros % dayMicros).toNat)) := by
  unfold writeInstant?
  congr 1
  funext d
  simp [instantText, TimeOfDay.write, TimeOfDay.ofMicros, zeroOffset]

variable {d : CivilDate} {t : TimeOfDay}

theorem instant?_of_valid (hd : d.isValid = true) (ht : t.WithinDay) :
    instant? d t = some (d.toDays * dayMicros + t.toMicros) := by
  unfold instant?
  rw [hd, ht.isValid]
  rfl

/-- The form with an offset takes four digits of the year. -/
theorem withOffset?_instantText (hd : d.isValid = true) (hyear : HasFourDigits d.year)
    (ht : t.WithinDay) :
    withOffset? (instantText d t) = some (d.toDays * dayMicros + t.toMicros) := by
  obtain ⟨hmonth, hday⟩ := (CivilDate.isValid_iff.mp hd).2.lt_hundred
  have hhour := ht.hour
  have hminute := ht.minute
  have hsecond := ht.second
  have htext : instantText d t = writeYear d.year ++ '-' :: (padded 2 d.month ++
      '-' :: (padded 2 d.day ++ 'T' :: (padded 2 t.hour ++ ':' :: (padded 2 t.minute ++
        ':' :: (padded 2 t.second ++ (writeFraction t.micros ++ zeroOffset)))))) := by
    simp [instantText, CivilDate.write, TimeOfDay.write]
  have hfraction : fraction (writeFraction t.micros ++ zeroOffset) = some (t.micros, zeroOffset) :=
    fraction_writeFraction ht.micros (afterDigits_mark rfl _) nofun
  have hoffset : offset zeroOffset = some (0, []) := by decide
  have hinstant : instant? ⟨(d.year.toNat : Int), d.month, d.day⟩ t =
      some (d.toDays * dayMicros + t.toMicros) := by
    rw [Int.toNat_of_nonneg hyear.1]
    exact instant?_of_valid hd ht
  rw [htext, withOffset?]
  refine read_then (fixed_writeYear hyear _) ?_
  refine read_then (mark_self '-' _) ?_
  refine read_then (fixed_padded (by omega) hmonth _) ?_
  refine read_then (mark_self '-' _) ?_
  refine read_then (fixed_padded (by omega) hday _) ?_
  refine read_then rfl ?_
  refine read_then (fixed_padded (by omega) (by omega) _) ?_
  refine read_then (mark_self ':' _) ?_
  refine read_then (fixed_padded (by omega) (by omega) _) ?_
  refine read_then (mark_self ':' _) ?_
  refine read_then (fixed_padded (by omega) (by omega) _) ?_
  refine read_then hfraction ?_
  refine read_then hoffset ?_
  refine read_then hinstant ?_
  rw [zero_mul, sub_zero]
  rfl

/-- The form with an offset does not take a sign. -/
theorem withOffset?_none (hyear : ¬ HasFourDigits d.year) :
    withOffset? (instantText d t) = none := by
  have htext : instantText d t = writeYear d.year ++ ('-' :: padded 2 d.month ++ '-' ::
      padded 2 d.day ++ 'T' :: (t.write ++ zeroOffset)) := by
    simp [instantText, CivilDate.write]
  rw [htext, withOffset?, fixed_writeYear_none hyear]
  rfl

/-- Without an offset nothing may follow the time. -/
theorem withoutOffset?_mark_none (hd : d.HasDay) (ht : t.WithinDay) :
    withoutOffset? (mark 'T') (instantText d t) = none := by
  rw [instantText, withoutOffset?, looseDate_write hd]
  simp only [Option.bind_eq_bind, Option.bind_some, mark, if_true, looseTime_write ht]
  rfl

/-- The mark between date and time is no blank. -/
theorem withoutOffset?_blanks_none (hd : d.HasDay) :
    withoutOffset? blanks (instantText d t) = none := by
  have hblanks : ∀ rest, blanks ('T' :: rest) = some ((), 'T' :: rest) := fun _ => rfl
  have htime : ∀ rest, looseTime ('T' :: rest) = none := by
    intro rest
    have htrim : trimLeft ('T' :: rest) = 'T' :: rest := rfl
    rw [looseTime, loose, htrim, digits_afterDigits (afterDigits_mark rfl rest)]
    rfl
  rw [instantText, withoutOffset?, looseDate_write hd]
  simp only [Option.bind_eq_bind, Option.bind_some, hblanks, htime]
  rfl

theorem date?_instantText_none (hd : d.HasDay) : date? (instantText d t) = none := by
  rw [instantText, date?, looseDate_write hd]
  rfl

end Temporal

/-- An instant whose day the calendar holds is read again exactly if its year has four digits. -/
theorem readInstant?_instantText {d : CivilDate} {t : Temporal.TimeOfDay} (hd : d.isValid = true)
    (ht : t.WithinDay) : readInstant? (Temporal.instantText d t) =
      if Temporal.HasFourDigits d.year then some (d.toDays * Temporal.dayMicros + t.toMicros)
      else none := by
  have hday := (CivilDate.isValid_iff.mp hd).2
  unfold readInstant?
  split
  · rename_i hyear
    rw [Temporal.withOffset?_instantText hd hyear ht]
    rfl
  · rename_i hyear
    rw [Temporal.withOffset?_none hyear, Temporal.withoutOffset?_mark_none hday ht,
      Temporal.withoutOffset?_blanks_none hday, Temporal.date?_instantText_none hday]
    rfl

/-- **An instant that is written is read again exactly if its year has four digits.** -/
theorem readInstant?_writeInstant? {micros : Int} {s : String} (h : writeInstant? micros = some s) :
    ∃ d, CivilDate.ofDays? (micros / Temporal.dayMicros) = some d ∧
      readInstant? s.toList = if Temporal.HasFourDigits d.year then some micros else none := by
  rw [Temporal.writeInstant?_eq] at h
  obtain ⟨d, hd, rfl⟩ := Option.map_eq_some_iff.mp h
  obtain ⟨hvalid, hdays⟩ := CivilDate.ofDays?_eq_some_iff.mp hd
  have hpos : (0 : Int) < Temporal.dayMicros := by decide
  have hnonneg := Int.emod_nonneg micros hpos.ne'
  have hlt := Int.emod_lt_of_pos micros hpos
  have htime : ((micros % Temporal.dayMicros).toNat : Int) = micros % Temporal.dayMicros :=
    Int.toNat_of_nonneg hnonneg
  have hwithin := @Temporal.TimeOfDay.withinDay_ofMicros (micros % Temporal.dayMicros).toNat
    (by omega)
  have hinstant : d.toDays * Temporal.dayMicros +
      (Temporal.TimeOfDay.ofMicros (micros % Temporal.dayMicros).toNat).toMicros = micros := by
    rw [Temporal.TimeOfDay.toMicros_ofMicros, htime, hdays]
    exact Int.ediv_mul_add_emod micros _
  refine ⟨d, hd, ?_⟩
  have hread := readInstant?_instantText hvalid hwithin
  rw [hinstant] at hread
  rw [String.toList_ofList]
  exact hread

/-- **A date that is written is read again**, in any year of the calendar. -/
theorem readDays?_write {d : CivilDate} (h : d.isValid = true) :
    readDays? d.write = some d.toDays := by
  have hread := Temporal.looseDate_write (CivilDate.isValid_iff.mp h).2 []
  rw [List.append_nil] at hread
  rw [readDays?, Temporal.date?, hread]
  simp only [Option.bind_eq_bind, Option.bind_some, h, List.isEmpty_nil, Bool.true_and, if_true,
    Option.map_some]

theorem readDays?_writeDays? {days : Int} {s : String} (h : writeDays? days = some s) :
    readDays? s.toList = some days := by
  obtain ⟨d, hd, rfl⟩ := Option.map_eq_some_iff.mp h
  obtain ⟨hvalid, hdays⟩ := CivilDate.ofDays?_eq_some_iff.mp hd
  rw [String.toList_ofList, readDays?_write hvalid, hdays]

end ContextualQuery
