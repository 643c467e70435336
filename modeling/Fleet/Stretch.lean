import Fleet.Problem.Basic

/-! What a sequence of consecutive visits means for a vehicle's clock.

    A vehicle that arrives before a window opens waits; one that arrives after it has closed is put back to
    the due time, and the time it was put back by is its time warp. A whole stretch behaves like one visit: it
    has a duration, a time warp, and a window of start times outside of which waiting or time warp are added.
    Joining two stretches is enough to know the stretch of both. -/

namespace Fleet

/-- The clock of a stretch of visits. -/
structure Stretch where
  /-- Travel, service and waiting in all. -/
  duration : Int
  /-- Time warp in all. -/
  timeWarp : Int
  /-- The earliest start that adds no waiting. -/
  early : Int
  /-- The latest start that adds no time warp. -/
  late : Int
  /-- The location of the first visit. -/
  first : Nat
  /-- The location of the last visit. -/
  last : Nat
  deriving DecidableEq

namespace Stretch

open Quantity

/-- A single visit. -/
def visit (location : Nat) (service early late : Int) : Stretch :=
  ⟨service, 0, early, late, location, location⟩

/-- The visit of a location with its own service duration and window. -/
def atLocation (p : Problem) (location : Nat) : Except Fault Stretch := do
  let window ← p.window location
  return visit location (p.serviceDuration location) window.early.toInt window.late.toInt

/-- How long a vehicle waits between `s` and `t` even if it starts as late as it may; `arrival` is the time
    from the start of `s` to the arrival at `t`. -/
def wait (s t : Stretch) (arrival : Int) : Int :=
  max (clamped (clamped (t.early - arrival) - s.late)) 0

/-- How far a vehicle is put back between `s` and `t` even if it starts as early as it may. -/
def warp (s t : Stretch) (arrival : Int) : Int :=
  max (clamped (clamped (s.early + arrival) - t.late)) 0

/-- First `s`, then the way to `t`, then `t`. -/
def join (durations : Matrix) (s t : Stretch) : Except Fault Stretch := do
  let travel ← durations.entry s.last t.first
  let arrival ← checked (s.duration - s.timeWarp)
  let arrival ← checked (arrival + travel)
  let wait := s.wait t arrival
  let warp := s.warp t arrival
  let duration ← checked (s.duration + t.duration)
  let duration ← checked (duration + travel)
  let duration ← checked (duration + wait)
  let timeWarp ← checked (s.timeWarp + t.timeWarp)
  let timeWarp ← checked (timeWarp + warp)
  let early ← checked (max (clamped (t.early - arrival)) s.early - wait)
  let late := clamped (min (clamped (t.late - arrival)) s.late + warp)
  return ⟨duration, timeWarp, early, late, s.first, t.last⟩

end Stretch

end Fleet
