import AdviceMigration.Config.Toml.Reader
import AdviceMigration.Config.Toml.Value
import AdviceMigration.Text.Numeral

/-!
# Dates and times of settings files

A date, a time of day, or a date with a time, which may also have an offset from universal time. The day must exist, and a minute may have a leap second.
-/

namespace AdviceMigration.Config.Toml

def isLeapYear (year : Nat) : Bool :=
  (year % 4 == 0 && year % 100 != 0) || year % 400 == 0

/-- How many days a month has; none if there is no such month. -/
def daysInMonth (year month : Nat) : Nat :=
  if month == 2 then if isLeapYear year then 29 else 28
  else if month == 4 || month == 6 || month == 9 || month == 11 then 30
  else if 1 ≤ month && month ≤ 12 then 31
  else 0

/-- Consumes a number of exactly so many digits that lies between two others. -/
def fixedNumber (count least most : Nat) : Reader Nat := fun cs =>
  let numeral := cs.take count
  if numeral.length = count then
    match Text.numeralValue? 10 numeral with
    | some value => if least ≤ value && value ≤ most then some (value, cs.drop count) else none
    | none => none
  else none

def date : Reader Unit := do
  let year ← fixedNumber 4 0 9999
  expect '-'
  let month ← fixedNumber 2 1 12
  expect '-'
  let _ ← fixedNumber 2 1 (daysInMonth year month)

/-- Characters without the fraction of a second in front. -/
def skipFraction : List Char → List Char
  | '.' :: c :: rest => if c.isDigit then rest.dropWhile Char.isDigit else '.' :: c :: rest
  | cs => cs

def time : Reader Unit := do
  let _ ← fixedNumber 2 0 23
  expect ':'
  let _ ← fixedNumber 2 0 59
  expect ':'
  let _ ← fixedNumber 2 0 60
  modify skipFraction

/-- Consumes an offset in hours and minutes. -/
def shift : Reader Unit := do
  expect '+' <|> expect '-'
  let _ ← fixedNumber 2 0 23
  expect ':'
  let _ ← fixedNumber 2 0 59

/-- Consumes an offset from universal time. -/
def offset : Reader Unit := expect 'Z' <|> expect 'z' <|> shift

def timeAfterDate : Reader Unit := do
  expect 'T' <|> expect 't' <|> expect ' '
  time
  offset <|> pure ()

def dateWithTime : Reader Unit := do
  date
  timeAfterDate <|> pure ()

/-- Consumes a date, a time, or both. -/
def dateTime : Reader Value := do
  dateWithTime <|> time
  return .dateTime

end AdviceMigration.Config.Toml
