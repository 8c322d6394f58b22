import Mathlib.Order.Basic

-- The part of base/htime.c that the timers use.
namespace Rlibhv

-- `struct tm`
structure Tm where
  tmSec   : Int
  tmMin   : Int
  tmHour  : Int
  tmMday  : Int
  tmMon   : Int
  tmYear  : Int
  tmWday  : Int
  tmYday  : Int
  tmIsdst : Int
  deriving DecidableEq

-- The C library in its time zone. `mktime` also normalizes its argument.
structure Calendar where
  localtime : Int → Tm
  mktime    : Tm → Int × Tm

inductive PeriodType
  | minutely
  | hourly
  | daily
  | weekly
  | monthly
  | yearly
  deriving DecidableEq

def secondsPerMinute : Int := 60
def secondsPerHour   : Int := 3600
def secondsPerDay    : Int := 86400
def secondsPerWeek   : Int := 604800

-- `tt` is the answer of `time`.
def cronNextTimeout (cal : Calendar) (tt minute hour day week month : Int) : Int :=
  let tm := { cal.localtime tt with tmSec := 0 }
  let (periodType, tm) :=
    if minute ≥ 0 then (PeriodType.hourly, { tm with tmMin := minute }) else (.minutely, tm)
  let (periodType, tm) :=
    if hour ≥ 0 then (PeriodType.daily, { tm with tmHour := hour }) else (periodType, tm)
  let (periodType, tm) :=
    if week ≥ 0 then
      (PeriodType.weekly, tm)
    else if day > 0 then
      let tm := { tm with tmMday := day }
      if month > 0 then (.yearly, { tm with tmMon := month - 1 }) else (.monthly, tm)
    else
      (periodType, tm)
  let (ttRound, tm) := cal.mktime tm
  let ttRound := if week ≥ 0 then ttRound + (week - tm.tmWday) * secondsPerDay else ttRound
  if ttRound > tt then ttRound else
    match periodType with
    | .minutely => ttRound + secondsPerMinute
    | .hourly   => ttRound + secondsPerHour
    | .daily    => ttRound + secondsPerDay
    | .weekly   => ttRound + secondsPerWeek
    | .monthly  =>
      let tm := { tm with tmMon := tm.tmMon + 1 }
      (cal.mktime <| if tm.tmMon = 12 then { tm with tmMon := 0, tmYear := tm.tmYear + 1 } else tm).1
    | .yearly   => (cal.mktime { tm with tmYear := tm.tmYear + 1 }).1

end Rlibhv
