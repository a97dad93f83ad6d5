import Vimlet.Yaml.Cursor

/-!
# Timestamps

Dates, and dates with a time of day. A timestamp is written back in one normal form.
-/

namespace Vimlet

namespace Yaml

/-- How the local time differs from universal time. -/
structure Zone where
  west : Bool
  minutes : Nat
deriving DecidableEq, Repr

/-- A time of a day. -/
structure TimeOfDay where
  hour : Nat
  minute : Nat
  second : Nat
  micros : Nat
  zone : Option Zone
deriving DecidableEq, Repr

/-- A date, with a time of day if one is given. -/
structure Timestamp where
  year : Nat
  month : Nat
  day : Nat
  time : Option TimeOfDay
deriving DecidableEq, Repr

namespace Timestamp

def numberOf (digits : List Char) : Nat :=
  digits.foldl (fun n c => n * 10 + (c.toNat - '0'.toNat)) 0

/-- Reads at least `least` and at most `most` digits. -/
def digits? (least most : Nat) (text : List Char) : Option (Nat × List Char) :=
  let digits := (text.takeWhile Char.isDigit).take most
  if digits.length < least then none else some (numberOf digits, text.drop digits.length)

def char? (c : Char) : List Char → Option (List Char)
  | d :: rest => if c = d then some rest else none
  | [] => none

/-- The millionths of a second that the digits after the point stand for. -/
def microsOf (digits : List Char) : Nat :=
  numberOf ((digits ++ List.replicate 6 '0').take 6)

/-- The time zone at the end. -/
def zone? (text : List Char) : Option (Option Zone) := do
  match text.dropWhile fun c => c == ' ' || c == '\t' with
  | [] => if text.isEmpty then return none else failure
  | ['Z'] => return some ⟨false, 0⟩
  | sign :: rest =>
    if sign ≠ '+' && sign ≠ '-' then failure
    let (hours, rest) ← digits? 1 2 rest
    match rest with
    | [] => return some ⟨sign == '-', hours * 60⟩
    | rest =>
      let (minutes, rest) ← digits? 2 2 (← char? ':' rest)
      if rest.isEmpty then return some ⟨sign == '-', hours * 60 + minutes⟩ else failure

/-- The time after a date. -/
def time? (text : List Char) : Option TimeOfDay := do
  let (hour, rest) ← digits? 1 2 text
  let (minute, rest) ← digits? 2 2 (← char? ':' rest)
  let (second, rest) ← digits? 2 2 (← char? ':' rest)
  match rest with
  | '.' :: rest =>
    let zone ← zone? (rest.dropWhile Char.isDigit)
    return ⟨hour, minute, second, microsOf (rest.takeWhile Char.isDigit), zone⟩
  | rest => return ⟨hour, minute, second, 0, ← zone? rest⟩

/-- Reads a month or a day, and how many digits it has. -/
def part? (text : List Char) : Option (Nat × Nat × List Char) := do
  let (n, rest) ← digits? 1 2 (← char? '-' text)
  return (n, text.length - rest.length - 1, rest)

/-- Reads a timestamp. Without a time of day, month and day have two digits. -/
def parse? (text : List Char) : Option Timestamp := do
  let (year, rest) ← digits? 4 4 text
  let (month, monthWidth, rest) ← part? rest
  let (day, dayWidth, rest) ← part? rest
  match rest with
  | [] => if monthWidth == 2 && dayWidth == 2 then return ⟨year, month, day, none⟩ else failure
  | c :: after =>
    if c == 'T' || c == 't' then return ⟨year, month, day, ← time? after⟩
    else if c == ' ' || c == '\t' then
      return ⟨year, month, day, ← time? (rest.dropWhile fun c => c == ' ' || c == '\t')⟩
    else failure

def daysIn (year month : Nat) : Nat :=
  if month == 2 then
    if year % 4 == 0 && (year % 100 != 0 || year % 400 == 0) then 29 else 28
  else if month == 4 || month == 6 || month == 9 || month == 11 then 30
  else 31

/-- A time that a day has, in a zone less than a day away. -/
def TimeOfDay.isValid (time : TimeOfDay) : Bool :=
  time.hour < 24 && time.minute < 60 && time.second < 60 &&
    time.zone.all fun zone => zone.minutes < 24 * 60

def isValid (stamp : Timestamp) : Bool :=
  1 ≤ stamp.year && 1 ≤ stamp.month && stamp.month ≤ 12 && 1 ≤ stamp.day &&
    stamp.day ≤ daysIn stamp.year stamp.month && stamp.time.all TimeOfDay.isValid

def daysBeforeYear (year : Nat) : Nat :=
  let past := year - 1
  past * 365 + past / 4 - past / 100 + past / 400

def daysBeforeMonth (year month : Nat) : Nat :=
  (List.range (month - 1)).foldl (fun days earlier => days + daysIn year (earlier + 1)) 0

/-- The millionths of a second from the start of the calendar to a time of day in universal time. -/
def moment (stamp : Timestamp) (time : TimeOfDay) (zone : Zone) : Int :=
  let days := daysBeforeYear stamp.year + daysBeforeMonth stamp.year stamp.month + stamp.day
  let minutes : Int := (days * 24 + time.hour) * 60 + time.minute
  let offset : Int := if zone.west then -zone.minutes else zone.minutes
  ((minutes - offset) * 60 + time.second) * 1000000 + time.micros

/-- Two timestamps are the same time. Those with a zone may be written differently, and differ from
those without one. -/
def same (a b : Timestamp) : Bool :=
  match a.time, b.time with
  | some s, some t =>
    match s.zone, t.zone with
    | some y, some z => a.moment s y == b.moment t z
    | _, _ => a == b
  | _, _ => a == b

def padded (width n : Nat) : String :=
  let digits := (Nat.repr n).toList
  String.ofList (List.replicate (width - digits.length) '0' ++ digits)

def zoneText (zone : Zone) : String :=
  (if zone.west && zone.minutes != 0 then "-" else "+") ++ padded 2 (zone.minutes / 60) ++ ":" ++
    padded 2 (zone.minutes % 60)

def timeText (time : TimeOfDay) : String :=
  padded 2 time.hour ++ ":" ++ padded 2 time.minute ++ ":" ++ padded 2 time.second ++
    (if time.micros == 0 then "" else "." ++ padded 6 time.micros) ++
    (time.zone.map zoneText).getD ""

def text (stamp : Timestamp) : String :=
  padded 4 stamp.year ++ "-" ++ padded 2 stamp.month ++ "-" ++ padded 2 stamp.day ++
    (stamp.time.map fun time => " " ++ timeText time).getD ""

end Timestamp

end Yaml

end Vimlet
