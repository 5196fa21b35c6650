import Iaam.Ids

/-! The schedule of market synchronisation (`jobs.rs`): when a series is due, and the days that a run asks for. -/

namespace Iaam

structure MarketSchedule where
  closeTime : Time
  correctionWindowDays : Int
  initialPaddingDays : Int

/-- The state of one registered series. -/
structure ScheduleState where
  active : Bool
  lastRun : Option Date

namespace MarketSchedule

/-- Seven in the evening, the window in which a source may correct what it published, and a week before the first
    event. -/
def default : MarketSchedule := ⟨⟨19 * 3600 * 10 ^ 9⟩, 21, 7⟩

def shouldRun (s : MarketSchedule) (today : Date) (time : Time) (state : ScheduleState) : Bool :=
  state.active && s.closeTime ≤ time && state.lastRun ≠ some today

/-- The first run asks for the days from the first event on, a later one for those of the correction window. -/
def window (s : MarketSchedule) (today firstEvent : Date) (state : ScheduleState) : Option (Date × Date) :=
  if !state.active then none
  else
    let start : Date := match state.lastRun with
      | some _ => ⟨today.day - max s.correctionWindowDays 0⟩
      | none => ⟨firstEvent.day - max s.initialPaddingDays 0⟩
    some (min start today, today)

/-- The days that `run_if_due` asks for. -/
def dueWindow (s : MarketSchedule) (today : Date) (time : Time) (firstEvent : Date) (state : ScheduleState) :
    Option (Date × Date) :=
  if s.shouldRun today time state then s.window today firstEvent state else none

end MarketSchedule
end Iaam
