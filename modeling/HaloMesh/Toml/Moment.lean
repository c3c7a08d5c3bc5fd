import HaloMesh.Text.Date
import HaloMesh.Text.Quoted

/-! Days and times of day. What has the shape of one is read as one; whether the calendar and
the clock have it is asked afterwards. -/

namespace HaloMesh.Toml

/-- What was read, and what is left. -/
abbrev Read (β : Type) := Option (β × List Char)

structure Day where
  year : Nat
  month : Nat
  day : Nat
deriving DecidableEq, Repr

namespace Day

def isReal (d : Day) : Bool :=
  1 ≤ d.month && d.month ≤ 12 && 1 ≤ d.day && d.day ≤ Text.daysIn d.year d.month

def toText (d : Day) : String :=
  Text.zeroPadded 4 d.year ++ "-" ++ Text.zeroPadded 2 d.month ++ "-" ++ Text.zeroPadded 2 d.day

end Day

structure Time where
  hour : Nat
  minute : Nat
  second : Nat
  nanosecond : Nat
deriving DecidableEq, Repr

namespace Time

def isReal (t : Time) : Bool := t.hour < 24 && t.minute < 60 && t.second < 60

/-- Hours, minutes and seconds. -/
def clockText (t : Time) : String :=
  Text.zeroPadded 2 t.hour ++ ":" ++ Text.zeroPadded 2 t.minute ++ ":" ++
    Text.zeroPadded 2 t.second

/-- The fraction of the second with nine digits. -/
def toText (t : Time) : String :=
  if t.nanosecond = 0 then t.clockText
  else t.clockText ++ "." ++ Text.zeroPadded 9 t.nanosecond

/-- The fraction of the second without the zeros at its end. -/
def shortText (t : Time) : String :=
  let ds := (Text.zeroPadded 9 t.nanosecond).toList.reverse.dropWhile (· = '0')
  if ds.isEmpty then t.clockText else t.clockText ++ "." ++ String.ofList ds.reverse

end Time

/-- A distance from universal time in hours and minutes. -/
structure Zone where
  west : Bool
  hours : Nat
  minutes : Nat
deriving DecidableEq, Repr

namespace Zone

def universal : Zone := ⟨false, 0, 0⟩

/-- A whole day, and a whole hour of minutes, are allowed for. -/
def isReal (z : Zone) : Bool := z.hours ≤ 24 && z.minutes ≤ 60

/-- The distance, and the name of the zone, which only universal time has. -/
def toText (z : Zone) : String :=
  let m := z.hours * 60 + z.minutes
  if m = 0 then "+0000 UTC"
  else
    let distance := (if z.west then "-" else "+") ++ Text.zeroPadded 2 (m / 60) ++
      Text.zeroPadded 2 (m % 60)
    distance ++ " " ++ distance

end Zone

inductive Moment where
  | day (d : Day)
  | time (t : Time)
  | dayTime (d : Day) (t : Time)
  | instant (d : Day) (t : Time) (z : Zone)
deriving DecidableEq, Repr

namespace Moment

def toText : Moment → String
  | day d => d.toText
  | time t => t.toText
  | dayTime d t => d.toText ++ "T" ++ t.toText
  | instant d t z => d.toText ++ " " ++ t.shortText ++ " " ++ z.toText

end Moment

/-- A number of two digits. -/
def readPair : List Char → Read Nat
  | a :: b :: rest => (Text.digitsValue? 10 [a, b]).map fun n => (n, rest)
  | _ => none

/-- A sign and a number of two digits. -/
def readSignPair (sign : Char) : List Char → Read Nat
  | c :: rest => if c = sign then readPair rest else none
  | [] => none

/-- A year of up to four digits, a month and a day. Only a year of four digits is one. -/
def readDay (cs : List Char) : Option (Option Day × List Char) := do
  let ds := cs.takeWhile Text.isDigit
  if 4 < ds.length then none
  let year ← Text.digitsValue? 10 ds
  let (month, cs) ← readSignPair '-' (cs.drop ds.length)
  let (day, cs) ← readSignPair '-' cs
  return (if ds.length = 4 then some ⟨year, month, day⟩ else none, cs)

/-- A zone, none where it does not start. -/
def readZone (cs : List Char) : Option Zone × List Char :=
  match cs with
  | 'Z' :: rest => (some .universal, rest)
  | sign :: rest =>
    if sign = '+' || sign = '-' then
      let distance := do
        let (hours, rest) ← readPair rest
        let (minutes, rest) ← readSignPair ':' rest
        return (Zone.mk (sign = '-') hours minutes, rest)
      match distance with
      | some (z, rest) => (some z, rest)
      | none => (none, cs)
    else (none, cs)
  | [] => (none, cs)

/-- Up to nine digits behind a point as billionths. -/
def readFraction (cs : List Char) : Nat × List Char :=
  match cs with
  | '.' :: rest =>
    let ds := (rest.takeWhile Text.isDigit).take 9
    match Text.digitsValue? 10 ds with
    | some n => (n * Nat.pow 10 (9 - ds.length), rest.drop ds.length)
    | none => (0, cs)
  | _ => (0, cs)

/-- A time and its zone. -/
def readTime (cs : List Char) : Option ((Time × Option Zone) × List Char) := do
  let (hour, cs) ← readPair cs
  let (minute, cs) ← readSignPair ':' cs
  let (second, cs) ← readSignPair ':' cs
  let (nanosecond, cs) := readFraction cs
  let (zone, cs) := readZone cs
  return ((⟨hour, minute, second, nanosecond⟩, zone), cs)

/-- A day and a time that belong together. -/
def joined? (d : Day) (t : Time) : Option Zone → Option Moment
  | none => if d.isReal && t.isReal then some (.dayTime d t) else none
  | some z => if d.isReal && t.isReal && z.isReal then some (.instant d t z) else none

/-- A day, a time or both, where one has the shape; there may be no such moment. A sign
divides the day from the time, and only a time with a day has a zone. -/
def readMoment (cs : List Char) : Read (Option Moment) :=
  let divided (cs : List Char) : Option (Bool × (Time × Option Zone) × List Char) :=
    match cs with
    | c :: rest =>
      if c = 'T' || c = ' ' then (readTime rest).map (true, ·) else (readTime cs).map (false, ·)
    | [] => none
  match readDay cs with
  | some (day, rest) =>
    match divided rest with
    | none => some ((day.filter Day.isReal).map .day, rest)
    | some (true, (t, z), rest) => some (day.bind fun d => joined? d t z, rest)
    | some (false, _, rest) => some (none, rest)
  | none =>
    match divided cs with
    | some (false, (t, none), rest) => some (if t.isReal then some (.time t) else none, rest)
    | some (_, _, rest) => some (none, rest)
    | none => none

end HaloMesh.Toml
