import LocalRepair.Proofs.Search.Greedy

/-!
# What constraints remember

For every constraint the last pick is remembered, in the same entry as the number of true
literals and the path. Flips rewrite these entries all the time, but the part with the pick
is copied as it is. `Remembers` says so of a step, and the definitions that make up a flip
are gone through with it, one lemma for each.

A pick is the one step that changes a memory. `Picked` describes it for greedy and for
random picks alike: the last pick is repeated only if there is no other candidate, and the
new one takes its place.

## Main results

* `Walk.remembers_flip`: a flip leaves all memories alone.
* `Search.ends_greedyPickFor`, `Search.ends_randomPickFor`: the two kinds of picks.
* `Picked.ne_lastPick`: among two candidates or more no pick is repeated.
-/

namespace LocalRepair

open Search State

variable {α β : Type} {p : Problem} {s s' : State} {id v : Nat} {c : Constraint} {m m' : Marks}

/-! ## Memories -/

namespace State

/-- What a constraint picked last, as far as it is remembered. -/
def lastPick (s : State) (id : Nat) : Option Nat := s.marks[id]?.bind Marks.lastPick

theorem lastPick_eq (h : s.marks[id]? = some m) : s.lastPick id = m.lastPick := by
  rw [lastPick, h, Option.bind_some]

theorem lastPick_of_marks (h : s'.marks = s.marks) : s'.lastPick = s.lastPick := by
  funext id
  rw [lastPick, lastPick, h]

/-- An entry with the same last pick. -/
theorem lastPick_setMarks (hMarks : s.marks[id]? = some m) (hSame : m'.lastPick = m.lastPick) :
    (s.setMarks id m').lastPick = s.lastPick := by
  funext j
  by_cases hj : j = id
  · subst hj
    rw [lastPick_eq (getElem?_setMarks_self hMarks), lastPick_eq hMarks, hSame]
  · rw [lastPick, lastPick, getElem?_setMarks_other hj]

end State

/-- The step leaves the memories of all constraints alone. -/
def Remembers (x : Search α) : Prop := ∀ memory, Keeps x fun s => s.lastPick = memory

namespace Remembers

theorem pure (a : α) : Remembers (Pure.pure a : Search α) := fun _ => .pure a

theorem get : Remembers (MonadState.get : Search State) := fun _ => .get

theorem bind {x : Search α} {next : α → Search β} (hx : Remembers x)
    (hNext : ∀ a, Remembers (next a)) : Remembers (x >>= next) :=
  fun memory => (hx memory).bind fun a => hNext a memory

theorem ite {b : Prop} [Decidable b] {x y : Search α} (hx : Remembers x) (hy : Remembers y) :
    Remembers (if b then x else y) :=
  fun memory => Keeps.ite (hx memory) (hy memory)

theorem of (outcome : Except Fault α) : Remembers (Search.of outcome) :=
  fun _ => (Search.respects_of outcome).keeps

/-- Tables other than that of the entries may change. -/
theorem write {change : State → State} (h : ∀ s, (change s).marks = s.marks) :
    Remembers (modify change : Search Unit) :=
  fun _ s hs => (lastPick_of_marks (h s)).trans hs

theorem forM {ids : List Nat} {step : Nat → Search Unit} (h : ∀ id, Remembers (step id)) :
    Remembers (ids.forM step) :=
  fun memory => (Respects.forM fun id _ => (h id memory).respects).keeps

end Remembers

namespace Search

theorem remembers_marksOf (id : Nat) : Remembers (marksOf id) :=
  Remembers.get.bind fun _ => .of _

theorem remembers_isViolated (id : Nat) : Remembers (isViolated id) :=
  Remembers.get.bind fun _ => .of _

theorem remembers_tracked (g : Nat) : Remembers (tracked g) :=
  Remembers.get.bind fun _ => .of _

theorem remembers_putTracked (g : Nat) (t : TrackedGraph) : Remembers (putTracked g t) :=
  .write (by intro s; rfl)

theorem remembers_record (id : Nat) (satisfied : Bool) : Remembers (record id satisfied) :=
  Remembers.get.bind fun _ => (Remembers.of _).bind fun _ => .write (by intro s; rfl)

/-- Counts and paths may change. -/
theorem remembers_changeMarks (id : Nat) {change : Marks → Marks}
    (h : ∀ m, (change m).lastPick = m.lastPick) : Remembers (changeMarks id change) := by
  intro memory s hs
  -- The marks are written back to where they were read, so the two are looked at together.
  rw [changeMarks, ends_bind, marksOf, ends_bind, ends_get]
  refine ends_of_any (fun m hEntry => ?_) fun _ _ => hs
  exact (lastPick_setMarks (entryAt_eq_ok_iff.mp hEntry) (h m)).trans hs

theorem remembers_askForest (g : Nat) (query : (g : Graph) → Except Fault (Forest.Query g α)) :
    Remembers (askForest g query) := by
  refine (remembers_tracked g).bind fun t => Remembers.get.bind fun s => (Remembers.of _).bind ?_
  rintro ⟨answer, t'⟩
  exact (remembers_putTracked g t').bind fun _ => .pure answer

theorem remembers_noteFlip (g v : Nat) (present : Bool) : Remembers (noteFlip g v present) := by
  apply (remembers_tracked g).bind
  intro t
  cases t.graph.edgeBackedBy? v with
  | none => exact .pure none
  | some e => exact (remembers_putTracked g _).bind fun _ => .pure _

end Search

namespace Constraint

theorem remembers_holdsNow (id : Nat) (c : Constraint) : Remembers (c.holdsNow id) := by
  cases c with
  | clause k => exact (remembers_marksOf id).bind fun _ => .pure _
  | graph g demand =>
      unfold holdsNow
      exact remembers_askForest g _

theorem remembers_keepShortestPath (id g source target : Nat) :
    Remembers (keepShortestPath id g source target) := by
  refine (remembers_tracked g).bind fun t => Remembers.get.bind fun s => ?_
  exact (Remembers.of _).bind fun path => remembers_changeMarks id (by intro m; rfl)

theorem remembers_followPath (id g source target edge : Nat) (present wasMet isMet : Bool) :
    Remembers (followPath id g source target edge present wasMet isMet) := by
  apply Remembers.ite (remembers_changeMarks id (by intro m; rfl))
  apply (remembers_marksOf id).bind
  intro _
  exact Remembers.ite (remembers_keepShortestPath id g source target) (.pure _)

theorem remembers_follow (id v : Nat) (value : Bool) (c : Constraint) :
    Remembers (c.follow id v value) := by
  cases c with
  | clause k =>
      apply (remembers_marksOf id).bind
      intro m
      apply Remembers.ite (.of (.error _))
      exact (remembers_changeMarks id (by intro m; rfl)).bind fun _ => remembers_record id _
  | graph g demand =>
      apply (remembers_noteFlip g v value).bind
      intro told
      cases told with
      | none => exact .pure _
      | some edge =>
          apply (remembers_isViolated id).bind
          intro _
          apply (remembers_holdsNow id (.graph g demand)).bind
          intro isMet
          cases demand with
          | whole => exact remembers_record id _
          | pieces count => exact remembers_record id _
          | sides left right => exact remembers_record id _
          | pair source target =>
              exact (remembers_followPath id g source target edge value _ isMet).bind fun _ =>
                remembers_record id _

end Constraint

namespace Walk

theorem remembers_turnOver (v : Nat) : Remembers (turnOver v) := by
  refine Remembers.get.bind fun s => (Remembers.of _).bind ?_
  rintro ⟨value, a⟩
  refine Remembers.bind (.write (by intro s; rfl)) fun _ => ?_
  exact Remembers.bind (.write (by intro s; rfl)) fun _ => .pure value

theorem remembers_tell (p : Problem) (v : Nat) (value : Bool) (id : Nat) :
    Remembers (tell p v value id) := by
  apply (remembers_isViolated id).bind
  intro before
  apply (Remembers.of _).bind
  intro c
  apply (c.remembers_follow id v value).bind
  intro _
  apply (remembers_isViolated id).bind
  intro after
  exact Remembers.ite (.write (by intro s; rfl)) (.pure _)

theorem remembers_checkRecord (p : Problem) (id : Nat) : Remembers (checkRecord p id) := by
  apply (Remembers.of _).bind
  intro c
  apply (c.remembers_holdsNow id).bind
  intro holds
  apply (remembers_isViolated id).bind
  intro recorded
  exact Remembers.ite (.of (.error _)) (.pure _)

/-- A flip changes what is kept for constraints, but not what they picked last. -/
theorem remembers_flip (p : Problem) (v : Nat) : Remembers (flip p v) := by
  apply (remembers_turnOver v).bind
  intro value
  apply (Remembers.of _).bind
  intro ids
  apply (Remembers.forM (remembers_tell p v value)).bind
  intro _
  exact .forM (remembers_checkRecord p)

end Walk

/-! ## Picks -/

/-- A pick among some candidates: the last one is picked again only if there is no other,
and the pick is remembered for the constraint and for no other one. -/
structure Picked (s : State) (id : Nat) (candidates : List Nat) (v : Nat) (s' : State) : Prop where
  mem : v ∈ candidates
  fresh : s.lastPick id = some v → ∀ w ∈ candidates, w = v
  own : s'.lastPick id = some v
  other : ∀ j, j ≠ id → s'.lastPick j = s.lastPick j

namespace Picked

variable {candidates : List Nat}

/-- A pick that was noted. -/
theorem of_noted (hMarks : s.marks[id]? = some m) (hMem : v ∈ candidates)
    (hFresh : some v = m.lastPick → ∀ w ∈ candidates, some w = m.lastPick)
    (hNoted : s'.marks = s.marks.setIfInBounds id { m with lastPick := some v }) :
    Picked s id candidates v s' := by
  have hMarks' : s'.marks = (s.setMarks id { m with lastPick := some v }).marks := hNoted
  refine ⟨hMem, fun hLast w hw => ?_, ?_, fun j hj => ?_⟩
  · rw [lastPick_eq hMarks] at hLast
    have hSame := hFresh hLast.symm w hw
    rw [hLast] at hSame
    exact Option.some.inj hSame
  · rw [lastPick_of_marks hMarks', lastPick_eq (getElem?_setMarks_self hMarks)]
  · rw [lastPick_of_marks hMarks', lastPick, lastPick, getElem?_setMarks_other hj]

/-- Among two candidates or more, the last pick is not repeated. -/
theorem ne_lastPick (h : Picked s id candidates v s') (hDistinct : candidates.Nodup)
    (hTwo : 2 ≤ candidates.length) : s.lastPick id ≠ some v := by
  intro hLast
  have hAll := h.fresh hLast
  have hShort : candidates.length ≤ [v].length :=
    hDistinct.length_le_of_subset fun w hw => by simp [hAll w hw]
  rw [List.length_singleton] at hShort
  omega

end Picked

namespace Search

theorem ends_randomPickFor (h : s.Tracks p) (hc : p.constraints[id]? = some c)
    (hAny : p.propositionsOf c ≠ []) :
    Ends (randomPickFor p id c) s (Picked s id (p.propositionsOf c)) Never := by
  obtain ⟨m, hMarks⟩ := h.exists_marks hc
  apply (ends_randomPick hAny hMarks).weaken
  rintro v s' ⟨hMem, hFresh, hAfter⟩
  refine .of_noted hMarks hMem hFresh ?_
  rw [hAfter]
  rfl

theorem ends_greedyPickFor (hp : p.WellFormed) (h : s.Tracks p)
    (hc : p.constraints[id]? = some c) (hAny : p.propositionsOf c ≠ []) :
    Ends (greedyPickFor p id c) s (Picked s id (p.propositionsOf c)) Never := by
  obtain ⟨m, hMarks⟩ := h.exists_marks hc
  apply (ends_greedyPick hAny hMarks fun generator v hv =>
    known_of_tracks hp h hc generator hv).weaken
  rintro v s' ⟨hMem, hNoted, hPicked⟩
  refine .of_noted hMarks hMem ?_ (by rw [hNoted])
  rcases hPicked with ⟨_, _, hEligible, _⟩ | ⟨_, _, hFresh⟩
  · exact fun hLast => absurd hLast hEligible.1
  · exact hFresh

end Search

end LocalRepair
