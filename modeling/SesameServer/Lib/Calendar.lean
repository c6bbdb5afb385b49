import SesameServer.Lib.Encoding

/- Dates of the Gregorian calendar, and the text of a moment in UTC.

   1. `civil` — the date of a day counted from 1 January 1970. Eras of 400 years begin in
      March, so that a leap day is the last day of its year; `daysOf` counts back.
   2. `rfc3339` — `time.Unix(t, 0).UTC().Format(time.RFC3339)`.
   3. `rfc3339_inj` — within the years 1970 to 9999 the text stands for the moment. -/
namespace Calendar

structure Date where
  year : Int
  month : Nat
  day : Nat
  deriving DecidableEq

/-- A day of an era: its year, counted from 0, and its day of that year. -/
def yearOfEra (doe : Nat) : Nat × Nat :=
  let century := min (doe / 36524) 3
  let ofCentury := doe - 36524 * century
  let four := ofCentury / 1461
  let ofFour := ofCentury - 1461 * four
  let year := min (ofFour / 365) 3
  (100 * century + 4 * four + year, ofFour - 365 * year)

def startOfYear (yoe : Nat) : Nat := 36524 * (yoe / 100) + 1461 * (yoe % 100 / 4) + 365 * (yoe % 4)

/-- Months are counted from March. -/
def monthOfYear (doy : Nat) : Nat := (5 * doy + 2) / 153

def startOfMonth (mp : Nat) : Nat := (153 * mp + 2) / 5

/-- The month of the date, and back. -/
def fromJanuary (mp : Nat) : Nat := if mp < 10 then mp + 3 else mp - 9
def fromMarch (month : Nat) : Nat := if 2 < month then month - 3 else month + 9

/-- January and February belong to the next year. -/
def turn (mp : Nat) : Int := if mp < 10 then 0 else 1

def dateOf (era : Int) (yoe doy : Nat) : Date :=
  let mp := monthOfYear doy
  ⟨era * 400 + yoe + turn mp, fromJanuary mp, doy - startOfMonth mp + 1⟩

def civil (days : Int) : Date :=
  let year := yearOfEra ((days + 719468) % 146097).toNat
  dateOf ((days + 719468) / 146097) year.1 year.2

def daysOf (date : Date) : Int :=
  let mp := fromMarch date.month
  let y := date.year - turn mp
  let doe := startOfYear (y % 400).toNat + (startOfMonth mp + (date.day - 1))
  y / 400 * 146097 + doe - 719468

theorem yearOfEra_spec {doe : Nat} (h : doe < 146097) :
    (yearOfEra doe).1 < 400 ∧ (yearOfEra doe).2 ≤ 365 ∧
      startOfYear (yearOfEra doe).1 + (yearOfEra doe).2 = doe := by
  simp only [yearOfEra, startOfYear]
  have hc : min (doe / 36524) 3 ≤ 3 ∧ 36524 * min (doe / 36524) 3 ≤ doe ∧
      doe - 36524 * min (doe / 36524) 3 ≤ 36524 := by omega
  generalize min (doe / 36524) 3 = c at hc
  have hr : 36524 * c + (doe - 36524 * c) = doe := by omega
  generalize doe - 36524 * c = r at hc hr
  have hq : r / 1461 ≤ 24 ∧ 1461 * (r / 1461) ≤ r ∧ r - 1461 * (r / 1461) ≤ 1460 := by omega
  generalize r / 1461 = q at hq
  have ho : 1461 * q + (r - 1461 * q) = r := by omega
  generalize r - 1461 * q = o at hq ho
  have hy : min (o / 365) 3 ≤ 3 ∧ 365 * min (o / 365) 3 ≤ o ∧ o - 365 * min (o / 365) 3 ≤ 365 := by
    omega
  generalize min (o / 365) 3 = y at hy
  have h₁ : (100 * c + 4 * q + y) / 100 = c := by omega
  have h₂ : (100 * c + 4 * q + y) % 100 / 4 = q := by omega
  have h₃ : (100 * c + 4 * q + y) % 4 = y := by omega
  rw [h₁, h₂, h₃]
  omega

theorem monthOfYear_spec {doy : Nat} (h : doy ≤ 365) :
    monthOfYear doy ≤ 11 ∧ startOfMonth (monthOfYear doy) ≤ doy ∧
      doy - startOfMonth (monthOfYear doy) ≤ 30 := by
  unfold startOfMonth monthOfYear
  omega

theorem dateOf_spec (era : Int) (yoe : Nat) {doy : Nat} (h : doy ≤ 365) :
    (dateOf era yoe doy).month < 100 ∧ (dateOf era yoe doy).day < 100 := by
  have hmonth := monthOfYear_spec h
  simp only [dateOf, fromJanuary]
  refine ⟨?_, by omega⟩
  split <;> omega

theorem fromMarch_fromJanuary {mp : Nat} (h : mp ≤ 11) : fromMarch (fromJanuary mp) = mp := by
  unfold fromMarch fromJanuary
  split <;> split <;> omega

theorem daysOf_dateOf (era : Int) {yoe doy : Nat} (hyear : yoe < 400) (hday : doy ≤ 365) :
    daysOf (dateOf era yoe doy) = era * 146097 + (startOfYear yoe + doy : Nat) - 719468 := by
  have hmonth := monthOfYear_spec hday
  simp only [dateOf, daysOf]
  rw [fromMarch_fromJanuary hmonth.1, Int.add_sub_cancel]
  have hera : (era * 400 + (yoe : Int)) / 400 = era := by omega
  have hyoe : ((era * 400 + (yoe : Int)) % 400).toNat = yoe := by omega
  rw [hera, hyoe, Nat.add_sub_cancel, Nat.add_sub_cancel' hmonth.2.1]

theorem civil_spec (days : Int) : (civil days).month < 100 ∧ (civil days).day < 100 :=
  dateOf_spec _ _ (yearOfEra_spec (by omega)).2.1

theorem daysOf_civil (days : Int) : daysOf (civil days) = days := by
  have hdoe : ((days + 719468) % 146097).toNat < 146097 := by omega
  obtain ⟨hyear, hday, hsum⟩ := yearOfEra_spec hdoe
  unfold civil
  rw [daysOf_dateOf _ hyear hday, hsum]
  omega

/-! Text. -/

/-- Decimal digits, with zeros up to a width. -/
def padded (width n : Nat) : Bytes :=
  List.replicate (width - (Encoding.decimal n).length) 48 ++ Encoding.decimal n

def year (y : Int) : Bytes := if y < 0 then 45 :: padded 4 y.natAbs else padded 4 y.natAbs

def rfc3339 (t : Int) : Bytes :=
  let date := civil (t / 86400)
  let seconds := (t % 86400).toNat
  year date.year ++ (45 :: padded 2 date.month ++ (45 :: padded 2 date.day ++
    (84 :: padded 2 (seconds / 3600) ++ (58 :: padded 2 (seconds / 60 % 60) ++
      (58 :: padded 2 (seconds % 60) ++ [90])))))

theorem spelt_padded (width n : Nat) : Encoding.spelt (padded width n) = n := by
  have zeros : ∀ k, Nat.ofDigits 10 (List.replicate k 0) = 0 := by
    intro k
    induction k with
    | zero => rfl
    | succ k ih => simp [List.replicate_succ, Nat.ofDigits_cons, ih]
  conv_rhs => rw [← Encoding.spelt_decimal n]
  unfold padded Encoding.spelt
  rw [List.reverse_append, List.map_append, Nat.ofDigits_append, List.reverse_replicate,
    List.map_replicate]
  simp [zeros]

theorem length_padded {width n : Nat} (h : n < 10 ^ width) (hw : 0 < width) :
    (padded width n).length = width := by
  have : (Encoding.decimal n).length ≤ width := by
    unfold Encoding.decimal
    split
    · exact hw
    · rw [List.length_map, List.length_reverse]
      exact (Nat.digits_length_le_iff (by decide) n).mpr h
  unfold padded
  rw [List.length_append, List.length_replicate]
  omega

theorem padded_inj {width n m : Nat} {rest rest' : Bytes} (hw : 0 < width) (hn : n < 10 ^ width)
    (hm : m < 10 ^ width) (h : padded width n ++ rest = padded width m ++ rest') :
    n = m ∧ rest = rest' := by
  obtain ⟨hdigits, hrest⟩ := List.append_inj h ((length_padded hn hw).trans (length_padded hm hw).symm)
  refine ⟨?_, hrest⟩
  rw [← spelt_padded width n, hdigits, spelt_padded]

theorem padded_digit (width n : Nat) : ∀ b ∈ padded width n, 48 ≤ b.toNat ∧ b.toNat ≤ 57 := by
  intro b hb
  rcases List.mem_append.mp hb with hb | hb
  · rw [(List.mem_replicate.mp hb).2]
    decide
  · exact Encoding.decimal_digit n b hb

theorem padded_ascii (width n : Nat) : ∀ b ∈ padded width n, b.toNat < 0x80 := by
  intro b hb
  have := padded_digit width n b hb
  omega

theorem padded_spelt {digits : Bytes} (hne : digits ≠ [])
    (h : ∀ b ∈ digits, 48 ≤ b.toNat ∧ b.toNat ≤ 57) :
    padded digits.length (Encoding.spelt digits) = digits := by
  have hvalue : ∀ {ds : Bytes}, (∀ b ∈ ds, 48 ≤ b.toNat ∧ b.toNat ≤ 57) →
      (∀ v ∈ ds.reverse.map fun b => b.toNat - 48, v < 10) ∧
        (ds.reverse.map fun b => b.toNat - 48).map (fun v => UInt8.ofNat (48 + v)) = ds.reverse := by
    intro ds hds
    simp only [List.forall_mem_map, List.map_map]
    refine ⟨fun b hb => ?_, (List.map_congr_left fun b hb => ?_).trans (List.map_id _)⟩
    all_goals have := hds b (List.mem_reverse.mp hb)
    · omega
    · rw [Function.comp_apply, show 48 + (b.toNat - 48) = b.toNat by omega]
      exact UInt8.ofNat_toNat
  have hbound : Encoding.spelt digits < 10 ^ digits.length := by
    have := Nat.ofDigits_lt_base_pow_length (by decide : 1 < 10) (hvalue h).1
    rwa [List.length_map, List.length_reverse] at this
  have hlen := length_padded hbound (List.length_pos_of_ne_nil hne)
  have hpadded := hvalue (padded_digit digits.length (Encoding.spelt digits))
  have hsame := Nat.ofDigits_inj_of_len_eq (by decide : 1 < 10) (by simp [hlen]) hpadded.1
    (hvalue h).1 (spelt_padded digits.length (Encoding.spelt digits))
  rw [← List.reverse_inj, ← hpadded.2, hsame, (hvalue h).2]

theorem rfc3339_ascii (t : Int) : ∀ b ∈ rfc3339 t, b.toNat < 0x80 := by
  have hyear : ∀ y, ∀ b ∈ year y, b.toNat < 0x80 := by
    intro y b hb
    unfold year at hb
    split at hb
    · rcases List.mem_cons.mp hb with rfl | hb
      · decide
      · exact padded_ascii _ _ b hb
    · exact padded_ascii _ _ b hb
  intro b hb
  simp only [rfc3339, List.cons_append, List.mem_append, List.mem_cons, List.not_mem_nil,
    or_false] at hb
  rcases hb with hb | rfl | hb | rfl | hb | rfl | hb | rfl | hb | rfl | hb | rfl
  all_goals first
    | decide
    | exact hyear _ b hb
    | exact padded_ascii _ _ b hb

/-- From 1970 up to the end of 9999. -/
def InRange (t : Int) : Prop := 0 ≤ t ∧ t < 253402300800

instance (t : Int) : Decidable (InRange t) := inferInstanceAs (Decidable (_ ∧ _))

theorem civil_year {t : Int} (h : InRange t) : 0 ≤ (civil (t / 86400)).year ∧
    (civil (t / 86400)).year < 10000 := by
  obtain ⟨hlow, hhigh⟩ := h
  have hdays : 0 ≤ t / 86400 ∧ t / 86400 < 2932897 := by omega
  generalize t / 86400 = days at hdays
  have hdoe : ((days + 719468) % 146097).toNat < 146097 := by omega
  obtain ⟨hyear, hday, hsum⟩ := yearOfEra_spec hdoe
  have hera : 0 ≤ (days + 719468) / 146097 ∧ (days + 719468) / 146097 ≤ 24 := by omega
  simp only [civil, dateOf, turn]
  generalize yearOfEra ((days + 719468) % 146097).toNat = y at hyear hday hsum
  obtain ⟨yoe, doy⟩ := y
  dsimp only at hyear hday hsum ⊢
  refine ⟨by split <;> omega, ?_⟩
  -- the last year of the last era ends with December
  by_cases last : (days + 719468) / 146097 = 24 ∧ yoe = 399
  · obtain ⟨hlast, rfl⟩ := last
    have hstart : startOfYear 399 = 145731 := by decide
    rw [hstart] at hsum
    have hmonth : monthOfYear doy < 10 := by
      unfold monthOfYear
      omega
    rw [if_pos hmonth]
    omega
  · split <;> omega

/-- **The text of a moment stands for it**, within four digits of the year. -/
theorem rfc3339_inj {t t' : Int} (ht : InRange t) (ht' : InRange t')
    (h : rfc3339 t = rfc3339 t') : t = t' := by
  have hy := civil_year ht
  have hy' := civil_year ht'
  have hd := civil_spec (t / 86400)
  have hd' := civil_spec (t' / 86400)
  simp only [rfc3339, year, if_neg (not_lt.mpr hy.1), if_neg (not_lt.mpr hy'.1)] at h
  obtain ⟨hyear, h⟩ := padded_inj (by decide) (by omega) (by omega) h
  obtain ⟨hmonth, h⟩ := padded_inj (by decide) (by omega) (by omega) (List.cons.inj h).2
  obtain ⟨hday, h⟩ := padded_inj (by decide) (by omega) (by omega) (List.cons.inj h).2
  obtain ⟨hhour, h⟩ := padded_inj (by decide) (by omega) (by omega) (List.cons.inj h).2
  obtain ⟨hminute, h⟩ := padded_inj (by decide) (by omega) (by omega) (List.cons.inj h).2
  obtain ⟨hsecond, -⟩ := padded_inj (by decide) (by omega) (by omega) (List.cons.inj h).2
  have hdate : civil (t / 86400) = civil (t' / 86400) := by
    generalize civil (t / 86400) = c at *
    generalize civil (t' / 86400) = c' at *
    obtain ⟨y, m, d⟩ := c
    obtain ⟨y', m', d'⟩ := c'
    dsimp only at *
    rw [Date.mk.injEq]
    omega
  have hdays : t / 86400 = t' / 86400 := by
    rw [← daysOf_civil (t / 86400), hdate, daysOf_civil]
  omega

/-- The epoch, a leap day, and the last second of 9999. -/
example : rfc3339 0 = utf8 "1970-01-01T00:00:00Z" ∧
    rfc3339 951782400 = utf8 "2000-02-29T00:00:00Z" ∧
    rfc3339 253402300799 = utf8 "9999-12-31T23:59:59Z" := by decide +kernel

end Calendar
