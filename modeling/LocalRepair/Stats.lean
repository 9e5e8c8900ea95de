/-!
# Search statistics

Counters of a search and, for every constraint that took part, how often it was
picked for repair, how often a flip moved it in or out of the violated ones, and
how long its picks took.

Time is measured by whoever runs a search, if at all; a search itself leaves it
at zero, so that its result is a function of its seed.

## Main definitions

* `Activity`, `Stats`.
* `Stats.touch`: changes the entry of one constraint, made on first use.
* `Stats.add`: adds the counters of another search.
-/

namespace LocalRepair

/-- The part of one constraint in a search. Time is in microseconds. -/
structure Activity where
  picks : Nat := 0
  transitions : Nat := 0
  micros : Nat := 0
  deriving DecidableEq, Repr

/-- Adds counters. -/
def Activity.add (a b : Activity) : Activity :=
  { picks := a.picks + b.picks
    transitions := a.transitions + b.transitions
    micros := a.micros + b.micros }

/-- The counters of a search. `activity` has an entry for each constraint that
took part, in ascending order of their numbers. -/
structure Stats where
  attempts : Nat := 0
  flips : Nat := 0
  randomPicks : Nat := 0
  activity : List (Nat × Activity) := []
  deriving DecidableEq, Repr

namespace Stats

/-- Changes the entry of constraint `id`, which is made in its place if there is
none. -/
def touchIn (id : Nat) (change : Activity → Activity) :
    List (Nat × Activity) → List (Nat × Activity)
  | [] => [(id, change {})]
  | (k, a) :: rest =>
    if id < k then (id, change {}) :: (k, a) :: rest
    else if id = k then (k, change a) :: rest
    else (k, a) :: touchIn id change rest

/-- Changes the entry of constraint `id`. -/
def touch (s : Stats) (id : Nat) (change : Activity → Activity) : Stats :=
  { s with activity := touchIn id change s.activity }

/-- Counts a pick of constraint `id`. -/
def countPick (s : Stats) (id : Nat) : Stats :=
  s.touch id fun a => { a with picks := a.picks + 1 }

/-- Counts that constraint `id` changed between violated and satisfied. -/
def countTransition (s : Stats) (id : Nat) : Stats :=
  s.touch id fun a => { a with transitions := a.transitions + 1 }

/-- Adds the counters of another search. -/
def add (s t : Stats) : Stats :=
  { attempts := s.attempts + t.attempts
    flips := s.flips + t.flips
    randomPicks := s.randomPicks + t.randomPicks
    activity := t.activity.foldl
      (fun acc (id, a) => touchIn id (fun own => own.add a) acc) s.activity }

end Stats
end LocalRepair
