import JavaMend.Text.Numerals

/-!
# `Toml.Moment` — dates and times

A moment is a date, a time of day, or both; both together may say how far their clock is from universal time. Days
run to the end of their month. The sixtieth second is that of a leap second. Of a fraction of a second the first
nine digits count.

## Contents
- **Moments.** `Date`, `Clock`, `Offset`, `Moment`.
- **Reading.** `Date.read?`, `Clock.read?`, `Offset.read?`, `Moment.read?`.
- **Writing.** `Date.written`, `Clock.written`, `Offset.written`, `Moment.written`.
-/

namespace JavaMend.Toml

open JavaMend Text

/-! ## Moments -/

/-- A day of the calendar. -/
structure Date where
  year : Nat
  month : Nat
  day : Nat
deriving DecidableEq, Repr

/-- A time of day. -/
structure Clock where
  hour : Nat
  minute : Nat
  second : Nat
  /-- Billionths of a second. -/
  nanosecond : Nat
deriving DecidableEq, Repr

/-- How far a clock is from universal time. -/
inductive Offset where
  /-- Not at all, said by the letter Z. -/
  | zulu
  | minutes (n : Int)
deriving DecidableEq, Repr

/-- A date, a time of day, or both. -/
inductive Moment where
  | date (d : Date)
  | clock (c : Clock)
  | both (d : Date) (c : Clock) (offset : Option Offset)
deriving DecidableEq, Repr

/-- A year with a 29th of February. -/
def isLeapYear (year : Nat) : Bool := year % 4 == 0 && (year % 100 != 0 || year % 400 == 0)

/-- The days of a month. -/
def daysOfMonth (year month : Nat) : Nat :=
  if month = 2 then (if isLeapYear year then 29 else 28)
  else if month = 4 ∨ month = 6 ∨ month = 9 ∨ month = 11 then 30
  else 31

/-! ## Reading -/

/-- The value of the first `width` characters, all of them digits and the value within bounds; and the rest. -/
def figures? (width low high : Nat) (t : Text) : Option (Nat × Text) := do
  let shown := t.take width
  let n ← digitsValue? shown
  if shown.length = width ∧ low ≤ n ∧ n ≤ high then return (n, t.drop width) else none

/-- Year, month and day with hyphens between. -/
def Date.read? (t : Text) : Option (Date × Text) := do
  let (year, t) ← figures? 4 0 9999 t
  let (month, t) ← figures? 2 1 12 (← dropPrefix? ['-'] t)
  let (day, t) ← figures? 2 1 (daysOfMonth year month) (← dropPrefix? ['-'] t)
  return (⟨year, month, day⟩, t)

/-- Billionths of a second of the digits of a fraction. -/
def nanoseconds (digits : Text) : Nat :=
  ((digits ++ List.replicate 9 '0').take 9).foldl (fun n c => 10 * n + digitValue c) 0

/-- Hour, minute and second with colons between, and a fraction if there is one. -/
def Clock.read? (t : Text) : Option (Clock × Text) := do
  let (hour, t) ← figures? 2 0 23 t
  let (minute, t) ← figures? 2 0 59 (← dropPrefix? [':'] t)
  let (second, t) ← figures? 2 0 60 (← dropPrefix? [':'] t)
  let fraction := ((dropPrefix? ['.'] t).getD []).takeWhile isAsciiDigit
  let rest := if fraction.isEmpty then t else t.drop (fraction.length + 1)
  return (⟨hour, minute, second, nanoseconds fraction⟩, rest)

/-- The letter Z, or hours and minutes after a sign. -/
def Offset.read? (t : Text) : Option (Offset × Text) :=
  match t with
  | 'Z' :: rest => some (.zulu, rest)
  | 'z' :: rest => some (.zulu, rest)
  | sign :: rest => do
    if sign != '+' && sign != '-' then none
    let (hours, rest) ← figures? 2 0 23 rest
    let (past, rest) ← figures? 2 0 59 (← dropPrefix? [':'] rest)
    let n : Int := 60 * hours + past
    return (.minutes (if sign == '-' then -n else n), rest)
  | [] => none

/-- The time of day that follows a date, after the letter T or a blank. -/
def afterDate? (t : Text) : Option (Clock × Text) :=
  match t with
  | 'T' :: rest => Clock.read? rest
  | 't' :: rest => Clock.read? rest
  | ' ' :: rest => Clock.read? rest
  | _           => none

/-- A moment at the start of a text. -/
def Moment.read? (t : Text) : Option (Moment × Text) :=
  match Date.read? t with
  | none           => (Clock.read? t).map fun (c, rest) => (.clock c, rest)
  | some (d, rest) =>
    match afterDate? rest with
    | none           => some (.date d, rest)
    | some (c, rest) =>
      match Offset.read? rest with
      | none                => some (.both d c none, rest)
      | some (offset, rest) => some (.both d c (some offset), rest)

/-! ## Writing -/

/-- A number in decimal with at least `width` digits. -/
def padded (width n : Nat) : Text :=
  let shown := ofNat n
  List.replicate (width - shown.length) '0' ++ shown

/-- Year, month and day with hyphens between. -/
def Date.written (d : Date) : Text := padded 4 d.year ++ '-' :: padded 2 d.month ++ '-' :: padded 2 d.day

/-- Hour, minute and second with colons between, and the fraction without the zeros at its end. -/
def Clock.written (c : Clock) : Text :=
  let whole := padded 2 c.hour ++ ':' :: padded 2 c.minute ++ ':' :: padded 2 c.second
  if c.nanosecond = 0 then whole
  else whole ++ '.' :: ((padded 9 c.nanosecond).reverse.dropWhile (· == '0')).reverse

/-- The letter Z, or hours and minutes after a sign. -/
def Offset.written : Offset → Text
  | .zulu      => ['Z']
  | .minutes n =>
    (if n < 0 then '-' else '+') :: padded 2 (n.natAbs / 60) ++ ':' :: padded 2 (n.natAbs % 60)

/-- A moment in its standard form. -/
def Moment.written : Moment → Text
  | .date d          => d.written
  | .clock c         => c.written
  | .both d c offset => d.written ++ 'T' :: c.written ++ (offset.map Offset.written).getD []

theorem daysOfMonth_le (year month : Nat) : daysOfMonth year month ≤ 31 := by
  unfold daysOfMonth
  split
  · split <;> omega
  · split <;> omega

theorem figures?_bounds {width low high n : Nat} {t rest : Text}
    (h : figures? width low high t = some (n, rest)) : low ≤ n ∧ n ≤ high := by
  simp only [figures?, Option.bind_eq_bind, Option.bind_eq_some_iff] at h
  obtain ⟨m, -, h⟩ := h
  split at h
  · rename_i hm
    simp only [Option.pure_def, Option.some.injEq, Prod.mk.injEq] at h
    exact h.1 ▸ hm.2
  · simp at h

/-- A day that is read lies in its month. -/
theorem Date.read?_day {t rest : Text} {d : Date} (h : Date.read? t = some (d, rest)) :
    1 ≤ d.day ∧ d.day ≤ daysOfMonth d.year d.month := by
  simp only [Date.read?, Option.bind_eq_bind, Option.bind_eq_some_iff] at h
  obtain ⟨⟨y, t1⟩, -, t2, -, ⟨m, t3⟩, -, t4, -, ⟨day, t5⟩, hd, h⟩ := h
  simp only [Option.pure_def, Option.some.injEq, Prod.mk.injEq] at h
  obtain ⟨rfl, -⟩ := h
  exact figures?_bounds hd

end JavaMend.Toml
