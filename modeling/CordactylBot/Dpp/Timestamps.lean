import CordactylBot.Dpp.Strings
import CordactylBot.Library.Calendar

/-!
Timestamps of Discord (`ts_not_null`, `ts_to_string`).

A timestamp is read with one of two formats, by whether a `+` occurs in it. The one without
expects a blank where ISO 8601 has a `T`, so that it stops behind the date.

* `parseTimestamp_isoText`, `tsToString_eq` — what is read and what is written.
* `parseTimestamp_instant_iff` — for which texts the instant is read that they name.
-/

namespace Dpp

open Calendar

/-- `std::tm`, the members that are read and written. -/
structure Tm where
  /-- years since 1900 -/
  year : Int := 0
  /-- months since January -/
  mon : Nat := 0
  mday : Nat := 0
  hour : Nat := 0
  min : Nat := 0
  sec : Nat := 0
deriving DecidableEq, Repr

/-! ### Reading -/

/-- What a format is made of: conversions, blanks, and characters that stand for themselves. -/
inductive Directive where
  | year
  | month
  | day
  | hour
  | minute
  | second
  | blank
  | literal (c : Char)
deriving DecidableEq, Repr

/-- `%Y-%m-%dT%T`. -/
def isoFormat : List Directive :=
  [.year, .literal '-', .month, .literal '-', .day, .literal 'T', .hour, .literal ':', .minute,
    .literal ':', .second]

/-- `%Y-%m-%d %T`. -/
def blankFormat : List Directive :=
  [.year, .literal '-', .month, .literal '-', .day, .blank, .hour, .literal ':', .minute,
    .literal ':', .second]

/-- A decimal number of at most `width` digits and in a range. -/
def readNumber (width lowest highest : Nat) (input : List Char) : Option (Nat × List Char) :=
  match leadingDigits 10 (input.take width) with
  | [] => none
  | digits =>
      let n := digits.foldl (fun n d => 10 * n + d) 0
      if lowest ≤ n ∧ n ≤ highest then some (n, input.drop digits.length) else none

/-- One directive of a format: the rest of the input, and the members as far as they are set. -/
def Directive.read (input : List Char) (tm : Tm) : Directive → Option (List Char × Tm)
  | .year => (readNumber 4 0 9999 input).map fun (n, rest) => (rest, { tm with year := n - 1900 })
  | .month => (readNumber 2 1 12 input).map fun (n, rest) => (rest, { tm with mon := n - 1 })
  | .day => (readNumber 2 1 31 input).map fun (n, rest) => (rest, { tm with mday := n })
  | .hour => (readNumber 2 0 23 input).map fun (n, rest) => (rest, { tm with hour := n })
  | .minute => (readNumber 2 0 59 input).map fun (n, rest) => (rest, { tm with min := n })
  | .second => (readNumber 2 0 60 input).map fun (n, rest) => (rest, { tm with sec := n })
  | .blank => some (input.dropWhile isSpace, tm)
  | .literal c =>
      match input with
      | d :: rest => if d.toLower = c.toLower then some (rest, tm) else none
      | [] => none

/-- `std::get_time`, without its blanks in front. What was set before a mismatch stays set. -/
def getTime : List Directive → List Char → Tm → Tm
  | [], _, tm => tm
  | directive :: format, input, tm =>
      match directive.read input tm with
      | some (rest, tm) => getTime format rest tm
      | none => tm

/-- `crossplatform_strptime`, of which only the members are used. -/
def crossplatformStrptime (s : List Char) (format : List Directive) (tm : Tm) : Tm :=
  getTime format (s.dropWhile isSpace) tm

/-- `timegm`. -/
def timegm (tm : Tm) : Int :=
  daysOf (tm.year + 1900) (tm.mon + 1) tm.mday * 86400 + tm.hour * 3600 + tm.min * 60 + tm.sec

/-- The string case of `ts_not_null`. -/
def parseTimestamp (timedate : String) : Int :=
  let timedate := timedate.toList
  if '+' ∈ timedate then
    -- `substr(0, find('.'))`, if there is one
    let timedate := timedate.takeWhile (· ≠ '.')
    timegm (crossplatformStrptime (timedate.take 19) isoFormat {})
  else timegm (crossplatformStrptime (timedate.take 19) blankFormat {})

/-! ### Writing -/

/-- `gmtime_r`. -/
def gmtime (ts : Int) : Tm :=
  let date := Date.ofDays (ts / 86400)
  let second := (ts % 86400).toNat
  { year := date.year - 1900, mon := date.month - 1, mday := date.day
    hour := second / 3600, min := second % 3600 / 60, sec := second % 60 }

/-- `std::put_time` with `%FT%TZ`. -/
def putTime (tm : Tm) : List Char :=
  (toString (tm.year + 1900)).toList ++ '-' :: (Numeral.padded 10 2 (tm.mon + 1) ++
    '-' :: (Numeral.padded 10 2 tm.mday ++ 'T' :: (Numeral.padded 10 2 tm.hour ++
    ':' :: (Numeral.padded 10 2 tm.min ++ ':' :: (Numeral.padded 10 2 tm.sec ++ ['Z'])))))

/-- `ts_to_string`. -/
def tsToString (ts : Int) : String :=
  String.ofList (putTime (gmtime ts))

/-! ### ISO 8601 -/

/-- A time of the day. -/
@[ext] structure TimeOfDay where
  hour : Nat
  minute : Nat
  second : Nat
  hour_lt : hour < 24
  minute_lt : minute < 60
  second_lt : second < 60

namespace TimeOfDay

def midnight : TimeOfDay :=
  ⟨0, 0, 0, by decide, by decide, by decide⟩

def seconds (t : TimeOfDay) : Int :=
  t.hour * 3600 + t.minute * 60 + t.second

end TimeOfDay

/-- A date and a time, and what follows them. -/
def isoText (d : Date) (t : TimeOfDay) (tail : List Char) : List Char :=
  Numeral.padded 10 4 d.year.toNat ++ '-' :: (Numeral.padded 10 2 d.month ++
    '-' :: (Numeral.padded 10 2 d.day ++ 'T' :: (Numeral.padded 10 2 t.hour ++
    ':' :: (Numeral.padded 10 2 t.minute ++ ':' :: (Numeral.padded 10 2 t.second ++ tail)))))

theorem readNumber_padded {width lowest highest n : Nat} (hwidth : 0 < width)
    (hn : n < 10 ^ width) (hrange : lowest ≤ n ∧ n ≤ highest) (rest : List Char) :
    readNumber width lowest highest (Numeral.padded 10 width n ++ rest) = some (n, rest) := by
  have hlength := Numeral.length_padded (by decide) hwidth hn
  obtain ⟨ds, hds, hlt, htext, hvalue⟩ := Numeral.exists_padded (b := 10) (by decide) width n
  have hdigits : leadingDigits 10 ((Numeral.padded 10 width n ++ rest).take width) = ds := by
    rw [List.take_left' hlength, htext, ← List.append_nil (ds.map Nat.digitChar)]
    exact leadingDigits_map (by decide) hlt rfl
  have hdrop : (Numeral.padded 10 width n ++ rest).drop ds.length = rest := by
    apply List.drop_left'
    rw [htext, List.length_map]
  obtain ⟨d, ds, rfl⟩ := List.exists_cons_of_ne_nil hds
  rw [readNumber, hdigits]
  dsimp only
  rw [hvalue, if_pos hrange, hdrop]

/-- A year of four digits. -/
def FourDigits (d : Date) : Prop :=
  0 ≤ d.year ∧ d.year ≤ 9999

theorem daysInMonth_le (year : Int) (month : Nat) : daysInMonth year month ≤ 31 := by
  unfold daysInMonth
  split
  · split <;> omega
  all_goals omega

variable {d : Date} {t : TimeOfDay} {tail : List Char}

theorem readYear (h : FourDigits d) (rest : List Char) :
    readNumber 4 0 9999 (Numeral.padded 10 4 d.year.toNat ++ rest) = some (d.year.toNat, rest) := by
  obtain ⟨hpos, hle⟩ := h
  exact readNumber_padded (by decide) (by omega) (by omega) rest

theorem readMonth (d : Date) (rest : List Char) :
    readNumber 2 1 12 (Numeral.padded 10 2 d.month ++ rest) = some (d.month, rest) := by
  have := d.month_le
  exact readNumber_padded (by decide) (by omega) ⟨d.month_pos, d.month_le⟩ rest

theorem readDay (d : Date) (rest : List Char) :
    readNumber 2 1 31 (Numeral.padded 10 2 d.day ++ rest) = some (d.day, rest) := by
  have := d.day_le.trans (daysInMonth_le d.year d.month)
  exact readNumber_padded (by decide) (by omega) ⟨d.day_pos, this⟩ rest

/-- The members a date sets. -/
def dateTm (d : Date) : Tm :=
  { year := d.year - 1900, mon := d.month - 1, mday := d.day }

theorem getTime_iso (h : FourDigits d) (t : TimeOfDay) :
    getTime isoFormat (isoText d t []) {} =
      { dateTm d with hour := t.hour, min := t.minute, sec := t.second } := by
  have hhour := t.hour_lt
  have hminute := t.minute_lt
  have hsecond := t.second_lt
  have readHour : ∀ rest, readNumber 2 0 23 (Numeral.padded 10 2 t.hour ++ rest) =
      some (t.hour, rest) := readNumber_padded (by decide) (by omega) (by omega)
  have readMinute : ∀ rest, readNumber 2 0 59 (Numeral.padded 10 2 t.minute ++ rest) =
      some (t.minute, rest) := readNumber_padded (by decide) (by omega) (by omega)
  have readSecond : ∀ rest, readNumber 2 0 60 (Numeral.padded 10 2 t.second ++ rest) =
      some (t.second, rest) := readNumber_padded (by decide) (by omega) (by omega)
  have hyear : (d.year.toNat : Int) = d.year := Int.toNat_of_nonneg h.1
  simp only [isoFormat, isoText, getTime, Directive.read, readYear h, readMonth, readDay, readHour,
    readMinute, readSecond, Option.map_some, if_true, dateTm, hyear]

/-- The `T` is neither blank nor the first digit of an hour. -/
theorem getTime_blank (h : FourDigits d) (t : TimeOfDay) :
    getTime blankFormat (isoText d t []) {} = dateTm d := by
  have stop : ∀ rest, readNumber 2 0 23 ('T' :: rest) = none := fun _ => rfl
  have blank : ∀ rest, ('T' :: rest).dropWhile isSpace = 'T' :: rest := fun _ => rfl
  have hyear : (d.year.toNat : Int) = d.year := Int.toNat_of_nonneg h.1
  simp only [blankFormat, isoText, getTime, Directive.read, readYear h, readMonth, readDay, stop,
    blank, Option.map_some, Option.map_none, if_true, dateTm, hyear]

theorem isoText_append (d : Date) (t : TimeOfDay) (tail : List Char) :
    isoText d t tail = isoText d t [] ++ tail := by
  simp [isoText]

theorem length_isoText (h : FourDigits d) (t : TimeOfDay) : (isoText d t []).length = 19 := by
  obtain ⟨hpos, hle⟩ := h
  have hhour := t.hour_lt
  have hminute := t.minute_lt
  have hsecond := t.second_lt
  have hmonth := d.month_le
  have hday := d.day_le.trans (daysInMonth_le d.year d.month)
  have two : ∀ n < 100, (Numeral.padded 10 2 n).length = 2 := fun n hn =>
    Numeral.length_padded (by decide) (by decide) (by omega)
  have four : (Numeral.padded 10 4 d.year.toNat).length = 4 :=
    Numeral.length_padded (by decide) (by decide) (by omega)
  simp only [isoText, List.length_append, List.length_cons, List.length_nil, four,
    two d.month (by omega), two d.day (by omega), two t.hour (by omega), two t.minute (by omega),
    two t.second (by omega)]

/-- The text of a date and a time has digits and three kinds of separators. -/
theorem mem_isoText {c : Char} (h : c ∈ isoText d t []) :
    (∃ n < 10, c = n.digitChar) ∨ c = '-' ∨ c = 'T' ∨ c = ':' := by
  have digit : ∀ {width n : Nat}, c ∈ Numeral.padded 10 width n → ∃ n < 10, c = n.digitChar :=
    fun h => Numeral.mem_padded (by decide) h
  simp only [isoText, List.mem_append, List.mem_cons, List.not_mem_nil, or_false] at h
  rcases h with h | h | h | h | h | h | h | h | h | h | h
  all_goals first | exact .inl (digit h) | exact .inr (by simp [h])

theorem digitChar_plain : ∀ n < 10, isSpace n.digitChar = false ∧ n.digitChar ≠ '+' ∧
    n.digitChar ≠ '.' := by
  decide

theorem plain_isoText {c : Char} (h : c ∈ isoText d t []) :
    isSpace c = false ∧ c ≠ '+' ∧ c ≠ '.' := by
  rcases mem_isoText h with ⟨n, hn, rfl⟩ | rfl | rfl | rfl
  · exact digitChar_plain n hn
  all_goals decide

theorem crossplatformStrptime_isoText (h : FourDigits d) (t : TimeOfDay) (tail : List Char)
    (format : List Directive) :
    crossplatformStrptime ((isoText d t tail).take 19) format {} =
      getTime format (isoText d t []) {} := by
  have hspace : (isoText d t []).dropWhile isSpace = isoText d t [] := by
    cases htext : isoText d t [] with
    | nil => rfl
    | cons c cs =>
      have hc := (plain_isoText (htext ▸ List.mem_cons_self)).1
      rw [List.dropWhile_cons, if_neg (by simp [hc])]
  rw [crossplatformStrptime, isoText_append, List.take_left' (length_isoText h t), hspace]

/-- **What is read of a date and a time**: all of it when a `+` follows, else the date. -/
theorem parseTimestamp_isoText (h : FourDigits d) (t : TimeOfDay) (tail : List Char) :
    parseTimestamp (String.ofList (isoText d t tail)) =
      d.toDays * 86400 + if '+' ∈ tail then t.seconds else 0 := by
  have hmonth := d.month_pos
  have hplus : '+' ∈ isoText d t tail ↔ '+' ∈ tail := by
    rw [isoText_append, List.mem_append]
    exact ⟨fun hor => hor.resolve_left fun hmem => (plain_isoText hmem).2.1 rfl, .inr⟩
  have hdays : daysOf (d.year - 1900 + 1900) (d.month - 1 + 1) d.day = d.toDays := by
    rw [Int.sub_add_cancel, Nat.sub_add_cancel hmonth, Date.toDays]
  unfold parseTimestamp
  simp only [String.toList_ofList, hplus]
  split
  · have hcut : (isoText d t tail).takeWhile (· ≠ '.') =
        isoText d t (tail.takeWhile (· ≠ '.')) := by
      rw [isoText_append, isoText_append d t (tail.takeWhile _), List.takeWhile_append_of_pos]
      intro c hc
      exact decide_eq_true (plain_isoText hc).2.2
    rw [hcut, crossplatformStrptime_isoText h, getTime_iso h]
    simp only [timegm, dateTm, hdays, TimeOfDay.seconds]
    omega
  · rw [crossplatformStrptime_isoText h, getTime_blank h]
    simp only [timegm, dateTm, hdays]
    omega

/-! ### Writing and reading -/

/-- The time of the day of a second. -/
def TimeOfDay.ofTimestamp (ts : Int) : TimeOfDay where
  hour := (ts % 86400).toNat / 3600
  minute := (ts % 86400).toNat % 3600 / 60
  second := (ts % 86400).toNat % 60
  hour_lt := by omega
  minute_lt := by omega
  second_lt := by omega

theorem toString_fourDigits {year : Int} (h : 1000 ≤ year) :
    (toString year).toList = Numeral.padded 10 4 year.toNat := by
  obtain ⟨n, rfl⟩ := Int.eq_ofNat_of_zero_le (by omega : 0 ≤ year)
  have hlong : 4 ≤ (Nat.toDigits 10 n).length := by
    by_contra hlt
    have := (Nat.length_toDigits_le_iff (by decide : 1 < 10) (by decide : 0 < 3) (n := n)).mp
      (by omega)
    omega
  have htext : (toString (n : Int)).toList = Nat.toDigits 10 n := Nat.toList_repr
  rw [htext, Int.toNat_natCast, Numeral.padded, List.leftpad, Nat.sub_eq_zero_of_le hlong]
  rfl

/-- The year of a timestamp has four digits, with no zero in front. -/
def Writable (ts : Int) : Prop :=
  1000 ≤ (Date.ofDays (ts / 86400)).year ∧ (Date.ofDays (ts / 86400)).year ≤ 9999

/-- **What is written.** -/
theorem tsToString_eq {ts : Int} (h : Writable ts) :
    tsToString ts = String.ofList (isoText (Date.ofDays (ts / 86400)) (.ofTimestamp ts) ['Z']) := by
  have hmonth := (Date.ofDays (ts / 86400)).month_pos
  rw [tsToString, putTime, gmtime]
  dsimp only
  rw [Int.sub_add_cancel, Nat.sub_add_cancel hmonth, toString_fourDigits h.1]
  rfl

theorem parseTimestamp_written {ts : Int} (h : Writable ts) :
    parseTimestamp (String.ofList
      (isoText (Date.ofDays (ts / 86400)) (.ofTimestamp ts) ['Z'])) = ts - ts % 86400 := by
  have hyear : FourDigits (Date.ofDays (ts / 86400)) := by
    obtain ⟨hle, hge⟩ := h
    exact ⟨by omega, hge⟩
  rw [parseTimestamp_isoText hyear, Date.toDays_ofDays, if_neg (by decide)]
  omega

/-- **A timestamp that is written and read loses its time of the day.** -/
theorem parseTimestamp_tsToString {ts : Int} (h : Writable ts) :
    parseTimestamp (tsToString ts) = ts - ts % 86400 := by
  rw [tsToString_eq h]
  exact parseTimestamp_written h

theorem ofTimestamp_seconds (days : Int) (t : TimeOfDay) :
    TimeOfDay.ofTimestamp (days * 86400 + t.seconds) = t := by
  have hhour := t.hour_lt
  have hminute := t.minute_lt
  have hsecond := t.second_lt
  have hseconds : ((days * 86400 + t.seconds) % 86400).toNat =
      t.hour * 3600 + t.minute * 60 + t.second := by
    unfold TimeOfDay.seconds
    omega
  ext
  all_goals
    simp only [TimeOfDay.ofTimestamp, hseconds]
    omega

theorem seconds_div (days : Int) (t : TimeOfDay) : (days * 86400 + t.seconds) / 86400 = days := by
  have hhour := t.hour_lt
  have hminute := t.minute_lt
  have hsecond := t.second_lt
  unfold TimeOfDay.seconds
  omega

/-- What is passed on for a text: its date, its time if a `+` follows, and no zone but `Z`. -/
theorem tsToString_parseTimestamp (h : 1000 ≤ d.year ∧ d.year ≤ 9999) (t : TimeOfDay)
    (tail : List Char) :
    tsToString (parseTimestamp (String.ofList (isoText d t tail))) =
      String.ofList (isoText d (if '+' ∈ tail then t else .midnight) ['Z']) := by
  have hyear : FourDigits d := ⟨by omega, h.2⟩
  have hread : parseTimestamp (String.ofList (isoText d t tail)) =
      d.toDays * 86400 + (if '+' ∈ tail then t else .midnight).seconds := by
    rw [parseTimestamp_isoText hyear]
    split <;> rfl
  have hdate : Date.ofDays (parseTimestamp (String.ofList (isoText d t tail)) / 86400) = d := by
    rw [hread, seconds_div, Date.ofDays_toDays]
  have hwritable : Writable (parseTimestamp (String.ofList (isoText d t tail))) := by
    rw [Writable, hdate]
    exact h
  rw [tsToString_eq hwritable, hdate, hread, ofTimestamp_seconds]

/-! ### The instant a text names -/

/-- The zone a time is given in. -/
inductive Zone where
  | utc
  /-- ahead of UTC, by hours and minutes -/
  | east (hours minutes : Nat)
  /-- behind UTC -/
  | west (hours minutes : Nat)

def Zone.text : Zone → List Char
  | .utc => ['Z']
  | .east hours minutes =>
      '+' :: (Numeral.padded 10 2 hours ++ ':' :: Numeral.padded 10 2 minutes)
  | .west hours minutes =>
      '-' :: (Numeral.padded 10 2 hours ++ ':' :: Numeral.padded 10 2 minutes)

/-- Seconds ahead of UTC. -/
def Zone.offset : Zone → Int
  | .utc => 0
  | .east hours minutes => hours * 3600 + minutes * 60
  | .west hours minutes => -(hours * 3600 + minutes * 60)

/-- The instant that a date and a time name in a zone, in whole seconds since 1970. -/
def instant (d : Date) (t : TimeOfDay) (zone : Zone) : Int :=
  d.toDays * 86400 + t.seconds - zone.offset

/-- **When the instant is read that a text names.** With a `+`, when that stands for UTC; with
`Z` or a `-`, when the instant is the beginning of the date in UTC. -/
theorem parseTimestamp_instant_iff (h : FourDigits d) (t : TimeOfDay) (zone : Zone)
    {fraction : List Char} (hfraction : '+' ∉ fraction) :
    parseTimestamp (String.ofList (isoText d t (fraction ++ zone.text))) = instant d t zone ↔
      match zone with
      | .east hours minutes => hours = 0 ∧ minutes = 0
      | zone => t.seconds = zone.offset := by
  have digits : ∀ n : Nat, '+' ∉ Numeral.padded 10 2 n := by
    intro n hmem
    obtain ⟨m, hm, heq⟩ := Numeral.mem_padded (by decide) hmem
    exact (digitChar_plain m hm).2.1 heq.symm
  rw [parseTimestamp_isoText h, instant]
  cases zone with
  | utc =>
    rw [if_neg (by simp [Zone.text, hfraction])]
    simp only [Zone.offset]
    omega
  | east hours minutes =>
    rw [if_pos (by simp [Zone.text])]
    simp only [Zone.offset]
    omega
  | west hours minutes =>
    rw [if_neg (by simp [Zone.text, hfraction, digits])]
    simp only [Zone.offset]
    omega

/-- A leap day. -/
def leapDay : Date :=
  ⟨2024, 2, 29, by decide, by decide, by decide, by decide⟩

def afternoon : TimeOfDay :=
  ⟨13, 14, 15, by decide, by decide, by decide⟩

theorem parseTimestamp_instant_iff_leapDay :
    parseTimestamp (String.ofList (isoText leapDay afternoon (".123".toList ++ ['Z']))) ≠
      instant leapDay afternoon .utc := by
  intro h
  have hread := (parseTimestamp_instant_iff ⟨by decide, by decide⟩ afternoon .utc
    (by simp)).mp h
  exact absurd hread (by decide)

theorem parseTimestamp_tsToString_leapDay :
    parseTimestamp (tsToString 1709212455) = 1709212455 - 1709212455 % 86400 :=
  parseTimestamp_tsToString ⟨by decide +kernel, by decide +kernel⟩

end Dpp
