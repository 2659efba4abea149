import ContextualQuery.Plan.Operand
import ContextualQuery.Proofs.JsonTexts
import ContextualQuery.Proofs.Masks
import ContextualQuery.Proofs.Rereading
/-!
# Values that are copied into a query

What a record shows of a value may be put into a query: the text of a truth value, an integer, an identifier, a
date of the calendar, or an instant of the years 0 to 9999 is read as this value, and compared as it is.

* `isPlainChar`: the characters of such texts; no blank is among them, none masks anything, and JSON writes each
  of them as it is;
* `Operand.ofTerm_plain`: so a term of such characters is read as it stands;
* `arePlain_toString`, `arePlain_writeDays?`, `arePlain_writeInstant?`, `Uuid.arePlain_write`: the texts have only
  such characters;
* `readInteger?_toString`: integers are read again;
* `CivilDate.dayFits`: every date of the calendar, and every time of its day at any offset, fits the numbers that
  days and microseconds are counted in;
* `copied_value_read` puts these together.
-/

namespace ContextualQuery

/-! ## 1. Characters that are written as they are -/

/-- The letters and digits of ASCII, and the marks that numbers, identifiers, dates and times have. -/
def plainRanges : List (Nat × Nat) := [(0x2B, 0x2B), (0x2D, 0x2E), (0x30, 0x3A), (0x41, 0x5A), (0x61, 0x7A)]

/-- Whether a character is one of these. -/
def isPlainChar (c : Char) : Bool := inRanges plainRanges c.toNat

/-- Characters that are written as they are, and read so. -/
def ArePlain (cs : List Char) : Prop := ∀ c ∈ cs, isPlainChar c = true

instance (cs : List Char) : Decidable (ArePlain cs) :=
  decidable_of_iff (cs.all isPlainChar = true) List.all_eq_true

@[simp] theorem arePlain_nil : ArePlain [] := nofun

@[simp] theorem arePlain_cons {c : Char} {cs : List Char} :
    ArePlain (c :: cs) ↔ isPlainChar c = true ∧ ArePlain cs := List.forall_mem_cons

@[simp] theorem arePlain_append {as bs : List Char} :
    ArePlain (as ++ bs) ↔ ArePlain as ∧ ArePlain bs := List.forall_mem_append

theorem toNat_lt_of_isPlainChar {c : Char} (h : isPlainChar c = true) : c.toNat < 128 := by
  have hranges : ∀ r ∈ plainRanges, r.2 < 128 := by decide
  obtain ⟨r, hr, hc⟩ := List.any_eq_true.mp h
  have hlt := hranges r hr
  rw [Bool.and_eq_true, decide_eq_true_eq, decide_eq_true_eq] at hc
  omega

/-- A plain character is no blank, it masks nothing, and JSON writes it as it is. -/
theorem of_isPlainChar {c : Char} (h : isPlainChar c = true) :
    isBlank c = false ∧ (c ≠ '\\' ∧ c ≠ '*' ∧ c ≠ '?') ∧ Json.writeChar c = [c] := by
  have hall : ∀ n < 128, isPlainChar (Char.ofNat n) = true → isBlank (Char.ofNat n) = false ∧
      (Char.ofNat n ≠ '\\' ∧ Char.ofNat n ≠ '*' ∧ Char.ofNat n ≠ '?') ∧
        Json.writeChar (Char.ofNat n) = [Char.ofNat n] := by decide +kernel
  have hc := hall c.toNat (toNat_lt_of_isPlainChar h)
  rw [Char.ofNat_toNat] at hc
  exact hc h

namespace ArePlain

variable {cs : List Char}

theorem trim_eq (h : ArePlain cs) : trim cs = cs := by
  have hleft {ds : List Char} (hds : ArePlain ds) : trimLeft ds = ds := by
    cases ds with
    | nil => rfl
    | cons d ds =>
      have hd := (of_isPlainChar (hds d List.mem_cons_self)).1
      exact List.dropWhile_cons_of_neg (by rw [hd]; decide)
  have hreverse : ArePlain cs.reverse := fun c hc => h c (List.mem_reverse.mp hc)
  rw [trim, hleft h, hleft hreverse, List.reverse_reverse]

theorem hasWildcards_eq (h : ArePlain cs) : hasWildcards cs = false := by
  induction cs with
  | nil => rfl
  | cons c cs ih =>
    obtain ⟨hc, hcs⟩ := arePlain_cons.mp h
    obtain ⟨hback, hstar, hmark⟩ := (of_isPlainChar hc).2.1
    rw [hasWildcards_cons hback, ih hcs, Bool.or_false, Bool.or_eq_false_iff]
    exact ⟨beq_false_of_ne hstar, beq_false_of_ne hmark⟩

theorem flatMap_writeChar (h : ArePlain cs) : cs.flatMap Json.writeChar = cs := by
  induction cs with
  | nil => rfl
  | cons c cs ih =>
    obtain ⟨hc, hcs⟩ := arePlain_cons.mp h
    rw [List.flatMap_cons, (of_isPlainChar hc).2.2, ih hcs]
    rfl

end ArePlain

/-! ## 2. Terms of such characters -/

/-- A JSON text without its quotes. -/
def Json.unquoted (text : String) : String :=
  match text.toList with
  | [] => ""
  | c :: rest => if c = Char.ofNat 0x22 then String.ofList rest.dropLast else text

/-- What is copied of a value that is shown as plain JSON. -/
def Value.copied (v : Value) : String := Json.unquoted v.plain.write

theorem Json.Leaf.write_eq {j : Json} (h : j.Leaf) : j.write = writeScalar j := by
  cases h <;>
    · rw [write]
      all_goals
        intro _ hj
        cases hj

theorem Json.unquoted_writeText {s : String} (h : ArePlain s.toList) : unquoted (writeText s) = s := by
  rw [unquoted, toList_writeText, h.flatMap_writeChar]
  simp

theorem Json.unquoted_plain {s : String} (h : ArePlain s.toList) : unquoted s = s := by
  have hquote : isPlainChar (Char.ofNat 0x22) = false := by decide
  rw [unquoted]
  split
  · rename_i hnil
    exact (String.toList_eq_nil_iff.mp hnil).symm
  · rename_i c rest hs
    have hc := h c (hs ▸ List.mem_cons_self)
    refine if_neg fun he => ?_
    rw [he, hquote] at hc
    cases hc

/-- **A term of plain characters is read as it stands**, and compared as it is. -/
theorem Operand.ofTerm_plain {d : Domain} {s : String} {v : Value} (hplain : ArePlain s.toList)
    (htext : d.isText = false) (h : d.read? s.toList = some v) (settings : Settings)
    (modifiers : Modifiers) : ofTerm settings d .exact modifiers s = .ok (exact v) := by
  have hmask : isMask modifiers s = false := by rw [isMask, hplain.hasWildcards_eq, Bool.and_false]
  have hordering : RelationSymbol.exact.isOrdering = false := rfl
  rw [ofTerm, htext, if_neg Bool.false_ne_true, ofValue, hmask, if_neg Bool.false_ne_true, hordering,
    Bool.false_and, if_neg Bool.false_ne_true, hplain.trim_eq, h]

/-! ## 3. Texts of plain characters -/

theorem isPlainChar_of_isDigit {c : Char} (h : c.isDigit = true) : isPlainChar c = true := by
  have hbounds := Temporal.toNat_of_isDigit h
  refine List.any_eq_true.mpr ⟨(0x30, 0x3A), by decide, ?_⟩
  rw [Bool.and_eq_true, decide_eq_true_eq, decide_eq_true_eq]
  omega

theorem AreDigits.arePlain {ds : List Char} (h : AreDigits ds) : ArePlain ds :=
  fun c hc => isPlainChar_of_isDigit (h.digit c hc)

@[simp] theorem arePlain_padded (width n : Nat) : ArePlain (padded width n) :=
  (areDigits_padded width n).arePlain

theorem CivilDate.arePlain_write (d : CivilDate) : ArePlain d.write := by
  have hmark : isPlainChar '-' = true ∧ isPlainChar '+' = true := by decide
  have hyear : ArePlain (writeYear d.year) := by
    unfold writeYear
    split
    · exact arePlain_padded _ _
    · split <;> simp [hmark]
  simp [write, hyear, hmark]

theorem arePlain_writeDays? {days : Int} {s : String} (h : writeDays? days = some s) :
    ArePlain s.toList := by
  obtain ⟨d, -, rfl⟩ := Option.map_eq_some_iff.mp h
  rw [String.toList_ofList]
  exact d.arePlain_write

theorem Temporal.arePlain_instantText (d : CivilDate) (t : TimeOfDay) : ArePlain (instantText d t) := by
  have hmarks : isPlainChar 'T' = true ∧ isPlainChar ':' = true ∧ isPlainChar '.' = true := by decide
  have hzero : ArePlain zeroOffset := by decide
  have hfraction : ArePlain (writeFraction t.micros) := by
    unfold writeFraction
    split
    · exact arePlain_nil
    · split <;> simp [hmarks]
  simp [instantText, TimeOfDay.write, d.arePlain_write, hmarks, hzero, hfraction]

theorem arePlain_writeInstant? {micros : Int} {s : String} (h : writeInstant? micros = some s) :
    ArePlain s.toList := by
  rw [Temporal.writeInstant?_eq] at h
  obtain ⟨d, -, rfl⟩ := Option.map_eq_some_iff.mp h
  rw [String.toList_ofList]
  exact Temporal.arePlain_instantText _ _

theorem Uuid.arePlain_write (u : Uuid) : ArePlain u.write.toList := by
  have hdigit : ∀ n < 16, isPlainChar (Nat.digitChar n) = true := by decide
  have hbyte (b : UInt8) : ArePlain (writeByte b) := by
    have hb := b.toNat_lt
    simp [writeByte, hdigit (b.toNat / 16) (by omega), hdigit (b.toNat % 16) (by omega)]
  have hbytes (bytes : List UInt8) : ArePlain (writeBytes bytes) := by
    intro c hc
    obtain ⟨b, -, hc⟩ := List.mem_flatMap.mp hc
    exact hbyte b c hc
  have hmark : isPlainChar '-' = true := by decide
  simp [write, hbytes, hmark]

/-! ## 4. Integers -/

theorem toList_toString (n : Int) : (toString n).toList =
    if n < 0 then '-' :: Nat.toDigits 10 n.natAbs else Nat.toDigits 10 n.natAbs := by
  cases n with
  | ofNat m => exact Json.toList_natural m
  | negSucc m =>
    show ("-" ++ Nat.repr (m + 1)).toList = _
    have hminus : "-".toList = ['-'] := rfl
    rw [String.toList_append, hminus, Nat.repr_eq_ofList_toDigits, String.toList_ofList,
      if_pos (Int.negSucc_lt_zero m)]
    rfl

theorem arePlain_toString (n : Int) : ArePlain (toString n).toList := by
  have hdigits := (Json.areDigits_toDigits n.natAbs).arePlain
  have hmark : isPlainChar '-' = true := by decide
  rw [toList_toString]
  split
  · exact arePlain_cons.mpr ⟨hmark, hdigits⟩
  · exact hdigits

/-- Digits are read as an integer, with or without a sign. -/
theorem readInteger?_digits {ds : List Char} (h : AreDigits ds) :
    readInteger? ds = some (digitsValue ds : Int) ∧
      readInteger? ('-' :: ds) = some (-(digitsValue ds : Int)) := by
  have hempty : ds.isEmpty = false := List.isEmpty_eq_false_iff.mpr h.ne_nil
  have hall : ds.all Char.isDigit = true := List.all_eq_true.mpr h.digit
  have hcond : ¬ (ds.isEmpty || !ds.all Char.isDigit) = true := by rw [hempty, hall]; decide
  refine ⟨?_, if_neg hcond⟩
  unfold readInteger?
  split
  rename_i negative digits hsign
  split at hsign
  · cases h.digit '-' List.mem_cons_self
  · cases h.digit '+' List.mem_cons_self
  · cases hsign
    exact if_neg hcond

/-- **An integer that is written is read again.** -/
theorem readInteger?_toString (n : Int) : readInteger? (toString n).toList = some n := by
  have hvalue : digitsValue (Nat.toDigits 10 n.natAbs) = n.natAbs := Nat.ofDigitChars_ten_toDigits
  obtain ⟨hplain, hminus⟩ := readInteger?_digits (Json.areDigits_toDigits n.natAbs)
  rw [hvalue] at hplain hminus
  rw [toList_toString]
  split
  · rw [hminus]
    exact congrArg some (by omega)
  · rw [hplain]
    exact congrArg some (by omega)

/-! ## 5. The counts of days and microseconds -/

/-- The counts on the way between a day and its texts fit the numbers that they are made with: its days from the
years 0, 1 and 1970 on, and the microseconds of each of its times, at any offset. -/
structure DayFits (n : Int) : Prop where
  days : ∀ year ∈ [0, 1, 1970], (int32? (n + epochOffset - daysBeforeYear year)).isSome = true
  micros : ∀ t : Temporal.TimeOfDay, t.isValid = true → t.micros < 1000000 →
    ∀ minutes : Int, -1440 < minutes → minutes < 1440 →
      (int64? (n * Temporal.dayMicros + t.toMicros - minutes * 60000000)).isSome = true

theorem isSome_int32? {n : Int} (hlow : -2147483648 ≤ n) (hhigh : n ≤ 2147483647) :
    (int32? n).isSome = true := by
  rw [int32?, if_pos ⟨hlow, hhigh⟩]
  rfl

theorem isSome_int64? {n : Int} (hlow : -9223372036854775808 ≤ n) (hhigh : n ≤ 9223372036854775807) :
    (int64? n).isSome = true := by
  rw [int64?, if_pos ⟨hlow, hhigh⟩]
  rfl

namespace CivilDate

variable {d : CivilDate}

/-- A date lies in its year. -/
theorem toDays_within_year (h : d.HasDay) : daysBeforeYear d.year ≤ d.toDays + epochOffset ∧
    d.toDays + epochOffset < daysBeforeYear (d.year + 1) := by
  obtain ⟨hbegun, hends⟩ := yearOfDay_spec (d.toDays + epochOffset)
  have hyear : yearOfDay (d.toDays + epochOffset) = d.year := congrArg year (ofDays_toDays h)
  rw [hyear] at hbegun hends
  exact ⟨hbegun, hends⟩

/-- The first and the last day of the calendar. -/
theorem toDays_bounds (h : d.isValid = true) : -96465292 ≤ d.toDays ∧ d.toDays ≤ 95026236 := by
  obtain ⟨⟨hfirst, hlast⟩, hday⟩ := isValid_iff.mp h
  obtain ⟨hbegun, hends⟩ := toDays_within_year hday
  have hlow := daysBeforeYear_le hfirst
  have hhigh := daysBeforeYear_le (show d.year + 1 ≤ calendarYears.2 + 1 by omega)
  -- the year 262142 ends, and the year -262143 begins, so many days from the year 1
  have hleast : daysBeforeYear calendarYears.1 = -95746130 := by decide
  have hgreatest : daysBeforeYear (calendarYears.2 + 1) = 95745399 := by decide
  have hoffset : epochOffset = 719162 := rfl
  omega

/-- **Every day of the calendar fits.** -/
theorem dayFits (h : d.isValid = true) : DayFits d.toDays := by
  obtain ⟨hlow, hhigh⟩ := toDays_bounds h
  constructor
  · have hyears : ∀ year ∈ [0, 1, 1970], 0 ≤ epochOffset - daysBeforeYear year ∧
        epochOffset - daysBeforeYear year ≤ 719528 := by decide
    intro year hyear
    obtain ⟨hnonneg, hle⟩ := hyears year hyear
    exact isSome_int32? (by omega) (by omega)
  · intro t ht hmicros minutes hwest heast
    have hday : (Temporal.dayMicros : Int) = 86400000000 := rfl
    have htime : t.toMicros ≤ 86401000000 := by
      simp only [Temporal.TimeOfDay.isValid, Bool.and_eq_true, decide_eq_true_eq] at ht
      unfold Temporal.TimeOfDay.toMicros
      omega
    rw [hday]
    exact isSome_int64? (by omega) (by omega)

end CivilDate

/-! ## 6. Values -/

namespace Value

/-- The day that a date is, or that an instant lies on. -/
def day? : Value → Option Int
  | date n => some n.toInt
  | timestamp t => some (t.toInt / Temporal.dayMicros)
  | _ => none

/-- The values whose copy is to be read again: those of the kinds with one text for each value, dates as far as the
calendar goes, and instants of the years that have four digits. -/
def IsPastable : Value → Prop
  | bool _ | int32 _ | int64 _ | uuid _ => True
  | date n => (CivilDate.ofDays? n.toInt).isSome = true
  | timestamp t => Temporal.HasFourDigits (CivilDate.ofDays (t.toInt / Temporal.dayMicros)).year
  | _ => False

variable {v : Value}

theorem copied_of_text {s : String} (hv : v.plain = .text s) (h : ArePlain s.toList) : v.copied = s := by
  rw [copied, v.leaf_plain.write_eq, hv]
  exact Json.unquoted_writeText h

theorem copied_of_integer {n : Int} (hv : v.plain = .integer n) : v.copied = toString n := by
  rw [copied, v.leaf_plain.write_eq, hv]
  exact Json.unquoted_plain (arePlain_toString n)

/-- The calendar holds the day of such a value. -/
theorem IsPastable.exists_date (h : v.IsPastable) {n : Int} (hn : v.day? = some n) :
    ∃ date, CivilDate.ofDays? n = some date := by
  cases v with
  | date m =>
    cases hn
    exact Option.isSome_iff_exists.mp h
  | timestamp t =>
    cases hn
    obtain ⟨hlow, hhigh⟩ := h
    have hyears : calendarYears.1 ≤ 0 ∧ 9999 ≤ calendarYears.2 := by decide
    exact ⟨_, if_pos ⟨by omega, by omega⟩⟩
  | _ => cases hn

/-- What is copied of such a value has plain characters, and is read as the value. -/
theorem IsPastable.read?_copied {d : Domain} (h : v.IsPastable) (hd : d.admits v = true) :
    ArePlain v.copied.toList ∧ d.read? v.copied.toList = some v := by
  cases v with
  | bool b =>
    cases d with
    | bool => cases b <;> decide +kernel
    | _ => cases hd
  | int32 n =>
    cases d with
    | int32 =>
      rw [copied_of_integer rfl, Domain.read?, readInteger?_toString]
      exact ⟨arePlain_toString _, congrArg (Option.map Value.int32) (int32?_toInt n)⟩
    | _ => cases hd
  | int64 n =>
    cases d with
    | int64 =>
      rw [copied_of_integer rfl, Domain.read?, readInteger?_toString]
      exact ⟨arePlain_toString _, congrArg (Option.map Value.int64) (int64?_toInt n)⟩
    | _ => cases hd
  | uuid u =>
    cases d with
    | uuid =>
      rw [copied_of_text rfl u.arePlain_write, Domain.read?, u.read?_write]
      exact ⟨u.arePlain_write, rfl⟩
    | _ => cases hd
  | date n =>
    cases d with
    | date =>
      obtain ⟨date, hdate⟩ := h.exists_date rfl
      have hwrite : writeDays? n.toInt = some (String.ofList date.write) := congrArg (Option.map _) hdate
      have hplain := arePlain_writeDays? hwrite
      rw [copied_of_text (plain_date hwrite) hplain, Domain.read?, readDays?_writeDays? hwrite]
      exact ⟨hplain, congrArg (Option.map Value.date) (int32?_toInt n)⟩
    | _ => cases hd
  | timestamp t =>
    cases d with
    | timestamp =>
      obtain ⟨date, hdate⟩ := h.exists_date rfl
      have hwrite := Temporal.writeInstant?_eq t.toInt
      rw [hdate, Option.map_some] at hwrite
      have hplain := arePlain_writeInstant? hwrite
      obtain ⟨date', hdate', hread⟩ := readInstant?_writeInstant? hwrite
      have hyear : Temporal.HasFourDigits date'.year := by
        obtain ⟨_, he⟩ := Option.ite_none_right_eq_some.mp hdate'
        cases he
        exact h
      rw [copied_of_text (plain_timestamp hwrite) hplain, Domain.read?, hread, if_pos hyear]
      exact ⟨hplain, congrArg (Option.map Value.timestamp) (int64?_toInt t)⟩
    | _ => cases hd
  | _ => cases h

end Value

/-- **What is copied of a value is read as the value**, whatever the settings and modifiers are, and compared as it
is; and nothing on the way there is too large to be counted. -/
theorem copied_value_read {d : Domain} {v : Value} (hd : d.admits v = true) (hv : v.IsPastable)
    (settings : Settings) (modifiers : Modifiers) :
    Operand.ofTerm settings d .exact modifiers v.copied = .ok (.exact v) ∧
      ∀ n, v.day? = some n → ∃ date, CivilDate.ofDays? n = some date ∧ date.toDays = n ∧ DayFits n := by
  obtain ⟨hplain, hread⟩ := hv.read?_copied hd
  have htext : d.isText = false := by
    cases d with
    | text =>
      cases v with
      | text _ => cases hv
      | _ => cases hd
    | _ => rfl
  refine ⟨Operand.ofTerm_plain hplain htext hread settings modifiers, fun n hn => ?_⟩
  obtain ⟨date, hdate⟩ := hv.exists_date hn
  obtain ⟨hvalid, rfl⟩ := CivilDate.ofDays?_eq_some_iff.mp hdate
  exact ⟨date, hdate, rfl, CivilDate.dayFits hvalid⟩

/-- The last microsecond before 1970, and the first day of a year with five digits. -/
theorem edges_read :
    (Value.timestamp (-1)).copied = "1969-12-31T23:59:59.999999+00:00" ∧
    Operand.ofTerm {} .timestamp .exact .empty (Value.timestamp (-1)).copied =
      .ok (.exact (.timestamp (-1))) ∧
    (Value.date 2932897).copied = "+10000-01-01" ∧
    Operand.ofTerm {} .date .exact .empty (Value.date 2932897).copied = .ok (.exact (.date 2932897)) ∧
    ∃ date, CivilDate.ofDays? 2932897 = some date ∧ date.toDays = 2932897 ∧ DayFits 2932897 := by
  have hyear : Temporal.HasFourDigits
      (CivilDate.ofDays ((-1 : Int64).toInt / Temporal.dayMicros)).year := by decide +kernel
  have hday : (CivilDate.ofDays? (2932897 : Int32).toInt).isSome = true := by decide +kernel
  have hinstant := @copied_value_read .timestamp (.timestamp (-1)) rfl hyear {} .empty
  have hdate := @copied_value_read .date (.date 2932897) rfl hday {} .empty
  exact ⟨by decide +kernel, hinstant.1, by decide +kernel, hdate.1, hdate.2 _ rfl⟩

end ContextualQuery
