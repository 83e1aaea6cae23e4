/-!
# Dates and moments

A date of the Gregorian calendar, and a moment of a day with an optional offset from universal time in
seconds. Fields out of range are reported by the first that is.
-/

set_option autoImplicit false

namespace Immittance

structure Date where
  year : Nat
  month : Nat
  day : Nat
deriving DecidableEq, Repr

structure Moment where
  date : Date
  hour : Nat
  minute : Nat
  second : Nat
  micro : Nat
  offset : Option Int
deriving DecidableEq, Repr

namespace Date

def isLeap (year : Nat) : Bool :=
  year % 4 == 0 && (year % 100 != 0 || year % 400 == 0)

def daysIn (year month : Nat) : Nat :=
  if month = 2 then (if isLeap year then 29 else 28)
  else if month = 4 ∨ month = 6 ∨ month = 9 ∨ month = 11 then 30
  else 31

def fault? (year month day : Nat) : Option String :=
  if year = 0 then some "year 0 is out of range"
  else if month = 0 ∨ 12 < month then some "month must be in 1..12"
  else if day = 0 ∨ daysIn year month < day then some "day is out of range for month"
  else none

def dayNumber (d : Date) : Nat :=
  let y := d.year - 1
  365 * y + y / 4 - y / 100 + y / 400 +
    (List.range (d.month - 1)).foldl (fun sum m => sum + daysIn d.year (m + 1)) 0 + (d.day - 1)

def digits (width n : Nat) : List Char :=
  let ds := Nat.toDigits 10 n
  List.replicate (width - ds.length) '0' ++ ds

def text (d : Date) : List Char :=
  digits 4 d.year ++ '-' :: digits 2 d.month ++ '-' :: digits 2 d.day

def fields (d : Date) : List Nat := [d.year, d.month, d.day]

end Date

namespace Moment

def fault? (hour minute second : Nat) : Option String :=
  if 23 < hour then some "hour must be in 0..23"
  else if 59 < minute then some "minute must be in 0..59"
  else if 59 < second then some "second must be in 0..59"
  else none

def instant (m : Moment) : Int :=
  let seconds : Int := ((m.date.dayNumber * 24 + m.hour) * 60 + m.minute) * 60 + m.second
  (seconds - m.offset.getD 0) * 1000000 + m.micro

def offsetText (offset : Int) : List Char :=
  let size := offset.natAbs
  (if offset < 0 then '-' else '+') :: Date.digits 2 (size / 3600) ++
    ':' :: Date.digits 2 (size / 60 % 60)

def text (m : Moment) : List Char :=
  m.date.text ++ ' ' :: Date.digits 2 m.hour ++ ':' :: Date.digits 2 m.minute ++
    ':' :: Date.digits 2 m.second ++
    (if m.micro = 0 then [] else '.' :: Date.digits 6 m.micro) ++
    (match m.offset with
     | none => []
     | some o => offsetText o)

def fields (m : Moment) : List Nat :=
  m.date.fields ++ [m.hour, m.minute] ++
    (if m.micro ≠ 0 then [m.second, m.micro] else if m.second ≠ 0 then [m.second] else [])

end Moment

end Immittance
