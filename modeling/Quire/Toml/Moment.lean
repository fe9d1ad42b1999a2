import Quire.Text.Blank
import Quire.Text.Numeral

/-! Dates and times in TOML texts. A moment is a date, a time of day, or both with an offset that
may be left out. It is kept in one spelling: a `T` before the time, nine digits of a second at
most and no zeros behind them, a `Z` or a signed offset. -/
namespace Quire.Toml

def twoDigits? (least most : Nat) : List Char → Option (List Char × List Char)
  | a :: b :: rest =>
    let n := Text.ofDigits [a, b]
    if a.isDigit && b.isDigit && least ≤ n && n ≤ most then some ([a, b], rest) else none
  | _ => none

def after? (mark : Char) : List Char → Option (List Char)
  | c :: rest => if c = mark then some rest else none
  | [] => none

def isLeapYear (year : Nat) : Bool := year % 4 = 0 && (year % 100 ≠ 0 || year % 400 = 0)

def daysIn (year month : Nat) : Nat :=
  match month with
  | 2 => if isLeapYear year then 29 else 28
  | 4 | 6 | 9 | 11 => 30
  | _ => 31

def date? (cs : List Char) : Option (List Char × List Char) := do
  let year := cs.take 4
  let rest ← if year.length = 4 && year.all Char.isDigit then after? '-' (cs.drop 4) else none
  let (month, rest) ← twoDigits? 1 12 rest
  let (day, rest) ← twoDigits? 1 (daysIn (Text.ofDigits year) (Text.ofDigits month))
    (← after? '-' rest)
  return (year ++ '-' :: month ++ '-' :: day, rest)

/-- The part of a second that may follow it. Digits beyond the ninth do not count. -/
def fraction? : List Char → Option (List Char × List Char)
  | '.' :: cs =>
    let digits := cs.takeWhile Char.isDigit
    let kept := Text.dropEndWhile (· == '0') (digits.take 9)
    if digits.isEmpty then none
    else some (if kept.isEmpty then [] else '.' :: kept, cs.drop digits.length)
  | cs => some ([], cs)

/-- A time of day at the front. The second may be a leap second. -/
def time? (cs : List Char) : Option (List Char × List Char) := do
  let (hour, rest) ← twoDigits? 0 23 cs
  let (minute, rest) ← twoDigits? 0 59 (← after? ':' rest)
  let (second, rest) ← twoDigits? 0 60 (← after? ':' rest)
  let (fraction, rest) ← fraction? rest
  return (hour ++ ':' :: minute ++ ':' :: second ++ fraction, rest)

/-- An offset, or nothing. No offset at all has a plus sign. -/
def offset? : List Char → Option (List Char)
  | [] => some []
  | ['Z'] | ['z'] => some ['Z']
  | sign :: cs => do
    let (hour, rest) ← if sign = '+' || sign = '-' then twoDigits? 0 23 cs else none
    let (minute, rest) ← twoDigits? 0 59 (← after? ':' rest)
    let sign := if (hour ++ minute).all (· == '0') then '+' else sign
    if rest.isEmpty then some (sign :: hour ++ ':' :: minute) else none

def moment? (word : String) : Option String :=
  match date? word.toList with
  | some (date, []) => some (.ofList date)
  | some (date, mark :: cs) => do
    let (time, rest) ← if mark = 'T' || mark = 't' || mark = ' ' then time? cs else none
    return .ofList (date ++ 'T' :: time ++ (← offset? rest))
  | none =>
    match time? word.toList with
    | some (time, []) => some (.ofList time)
    | _ => none

end Quire.Toml
