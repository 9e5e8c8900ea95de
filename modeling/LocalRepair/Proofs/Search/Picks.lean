import LocalRepair.Proofs.Search.Questions
import LocalRepair.Proofs.Search.Shape

/-!
# Picks leave the record alone

A pick asks questions, draws from the generator and remembers what it picked.
None of this is part of the record, and the assignment does not change before the
flip. `Robust` collects the relations between states that these three kinds of steps
respect, so that what a pick does is gone through only once. Every relation that all
steps respect is such a relation, and so is that of a right record for an
assignment, which single steps may well break.

A pick returns one of the propositions that it may choose from.

## Main results

* `Carried.robust`, `robust_tracks`: two kinds of robust relations.
* `Robust.yields_pick`: a pick of a walk respects any of them.
-/

namespace LocalRepair

open Search State

variable {p : Problem} {turns : Nat → Prop} {R : State → State → Prop} {s s' : State}
  {a : Assignment}

/-- A relation between states that picks do not disturb. -/
structure Robust (p : Problem) (R : State → State → Prop) : Prop extends Observed R where
  countRandom : ∀ {s t}, R s t →
    R { s with randomPicks := s.randomPicks + 1 } { t with randomPicks := t.randomPicks + 1 }
  lastPick : ∀ {s t} {id : Nat} {m : Marks} (pick : Option Nat), R s t → s.marks[id]? = some m →
    R (s.setMarks id { m with lastPick := pick }) (t.setMarks id { m with lastPick := pick })
  favours : ∀ (id : Nat) (c : Constraint) (v : Nat), p.constraints[id]? = some c →
    Respects (c.favours id v) R
  netRisk : ∀ (v : Nat) (value : Bool), Respects (p.netRisk v value) R

/-! ## Two kinds of robust relations -/

/-- What all steps respect, picks do not disturb. -/
theorem Carried.robust (h : Carried p turns R) : Robust p R :=
  { h.toObserved with
    countRandom := h.countRandom
    lastPick := fun _ hR _ => h.setMarks _ _ hR
    favours := fun id c v _ => h.respects_favours id v c
    netRisk := h.respects_netRisk }

namespace State

/-- The record is a matter of four tables. -/
theorem Tracks.of_tables (h : s.Tracks p) (hAssignment : s'.assignment = s.assignment)
    (hViolated : s'.violated = s.violated) (hMarks : s'.marks = s.marks)
    (hForests : s'.forests = s.forests) : s'.Tracks p := by
  refine ⟨h.toShaped.of_tables hAssignment hViolated hMarks hForests, fun id c hc => ?_⟩
  have hSettled := h.settled id c hc
  rw [hAssignment]
  exact
    { violated := hViolated ▸ hSettled.violated
      counted := hMarks ▸ hSettled.counted
      routed := hMarks ▸ hSettled.routed
      follows := fun g demand hEq => by
        rw [Follows, hForests]
        exact hSettled.follows g demand hEq }

/-- What a constraint picked last does not matter to its count and its path. -/
theorem Tracks.setLastPick (h : s.Tracks p) {id : Nat} {m : Marks}
    (hMarks : s.marks[id]? = some m) (lastPick : Option Nat) :
    (s.setMarks id { m with lastPick }).Tracks p := by
  refine ⟨h.toShaped.setMarks, fun j c hc => ?_⟩
  have hSettled := h.settled j c hc
  have hSame : ∀ m', (s.setMarks id { m with lastPick }).marks[j]? = some m' →
      ∃ old, s.marks[j]? = some old ∧ m'.trueLiterals = old.trueLiterals ∧ m'.path = old.path := by
    intro m' hm'
    by_cases hj : j = id
    · subst hj
      rw [getElem?_setMarks_self hMarks] at hm'
      rw [← Option.some.inj hm']
      exact ⟨m, hMarks, rfl, rfl⟩
    · rw [getElem?_setMarks_other hj] at hm'
      exact ⟨m', hm', rfl, rfl⟩
  refine ⟨⟨hSettled.violated, fun k hk m' hm' => ?_, fun m' hm' => ?_⟩, hSettled.follows⟩
  · obtain ⟨old, hOld, hCount, _⟩ := hSame m' hm'
    rw [hCount]
    exact hSettled.counted k hk old hOld
  · obtain ⟨old, hOld, _, hPath⟩ := hSame m' hm'
    rw [hPath]
    exact hSettled.routed old hOld

end State

/-- A right record stays right for the assignment at hand. -/
theorem robust_tracks (hp : p.WellFormed) (a : Assignment) :
    Robust p (Diagonal fun s => s.Tracks p ∧ s.assignment = a) :=
  { assignment := fun hR => by rw [hR.1]
    violated := fun hR => by rw [hR.1]
    marks := fun hR => by rw [hR.1]
    generator := fun hR => by rw [hR.1]
    setGenerator := fun _ hR => ⟨by rw [hR.1], hR.2.1.of_tables rfl rfl rfl rfl, hR.2.2⟩
    countRandom := fun hR => ⟨by rw [hR.1], hR.2.1.of_tables rfl rfl rfl rfl, hR.2.2⟩
    lastPick := fun pick hR hMarks => ⟨by rw [hR.1], hR.2.1.setLastPick hMarks pick, hR.2.2⟩
    favours := fun _ c v hc =>
      (Inquires.keeps fun _ hs => c.exists_inquires_favours hp hs hc v).respects
    netRisk := fun v value =>
      (Inquires.keeps fun _ hs => Problem.exists_inquires_netRisk hp hs v value).respects }

/-! ## Picks -/

/-- Entries that are looked up one after the other are entries. -/
theorem Search.mem_of_mapM_entryAt {xs : List Nat} :
    ∀ {is ys : List Nat}, is.mapM (entryAt xs.toArray) = .ok ys → ∀ y ∈ ys, y ∈ xs := by
  intro is
  induction is with
  | nil =>
      intro ys hLookup
      cases hLookup
      simp
  | cons i is ih =>
      intro ys hLookup y hy
      rw [List.mapM_cons] at hLookup
      cases hEntry : entryAt xs.toArray i with
      | error e =>
          rw [hEntry] at hLookup
          cases hLookup
      | ok x =>
          cases hRest : is.mapM (entryAt xs.toArray) with
          | error e =>
              rw [hEntry, hRest] at hLookup
              cases hLookup
          | ok zs =>
              rw [hEntry, hRest] at hLookup
              cases hLookup
              rcases List.mem_cons.mp hy with rfl | hy
              · simpa using Array.mem_of_getElem? (entryAt_eq_ok_iff.mp hEntry)
              · exact ih hRest y hy

namespace Robust

variable (h : Robust p R)
include h

theorem yields_notePick (id v : Nat) : Yields (notePick id v) R (· = v) := by
  intro s t hR
  unfold notePick changeMarks marksOf
  rw [bind_assoc, bind_assoc]
  apply agree_get
  rw [← h.marks hR]
  cases hMarks : entryAt s.marks id with
  | ok m => exact ⟨rfl, h.lastPick (some v) hR (entryAt_eq_ok_iff.mp hMarks), rfl⟩
  | error e => exact ⟨rfl, hR⟩

theorem yields_randomPick (id : Nat) (candidates : List Nat) :
    Yields (randomPick id candidates) R (· ∈ candidates) := by
  apply (h.respects_marksOf id).andYields
  intro m
  have hNote : ∀ v ∈ candidates, Yields (do
      modify fun s : State => { s with randomPicks := s.randomPicks + 1 }
      notePick id v) R (· ∈ candidates) := by
    intro v hv
    have hCount : Respects (modify fun s : State => { s with randomPicks := s.randomPicks + 1 }
        : Search Unit) R := fun _ _ hR => agree_modify (h.countRandom hR)
    apply hCount.andYields
    intro _ s t hR
    refine (h.yields_notePick id v s t hR).mono ?_ fun _ _ _ hFail => hFail
    rintro _ s' t' ⟨hR', rfl⟩
    exact ⟨hR', hv⟩
  dsimp only
  split
  · rename_i hAllowed
    apply (h.respects_draw _).andYields
    intro i
    exact hNote _ (List.mem_filter.mp (List.getElem_mem i.isLt)).1
  · cases candidates with
    | nil => exact .throw _
    | cons v rest => exact hNote v (by simp)

theorem yields_scan {helps : Nat → Search Bool} (hHelps : ∀ v, Respects (helps v) R)
    (last : Option Nat) {candidates : List Nat} :
    ∀ (rest : List Nat) (best : Option (Int × Nat)), (∀ v ∈ rest, v ∈ candidates) →
      (∀ held, best = some held → held.2 ∈ candidates) →
      Yields (scan p last helps rest best) R fun found => ∀ v, found = some v → v ∈ candidates := by
  intro rest
  induction rest with
  | nil =>
      intro best _ hBest
      apply Yields.pure
      intro v hFound
      obtain ⟨held, hHeld, rfl⟩ := Option.map_eq_some_iff.mp hFound
      exact hBest held hHeld
  | cons v rest ih =>
      intro best hRest hBest
      have hv : v ∈ candidates := hRest v (by simp)
      have hTail : ∀ w ∈ rest, w ∈ candidates := fun w hw => hRest w (List.mem_cons_of_mem _ hw)
      have hBetter : ∀ delta held, better best delta v = some held → held.2 ∈ candidates := by
        intro delta held hHeld
        unfold better at hHeld
        split at hHeld
        · split at hHeld
          · cases hHeld
            exact hv
          · exact hBest held hHeld
        · cases hHeld
          exact hv
      refine Yields.ite (ih best hTail hBest) ((hHelps v).andYields fun _ => ?_)
      refine Yields.ite (ih best hTail hBest) ((h.respects_value v).andYields fun _ => ?_)
      apply (h.netRisk v _).andYields
      intro delta
      apply Yields.ite (Yields.pure ?_) (ih _ hTail (hBetter delta))
      rintro w hw
      cases hw
      exact hv

theorem yields_greedyPick {helps : Nat → Search Bool} (hHelps : ∀ v, Respects (helps v) R)
    (id : Nat) (candidates : List Nat) :
    Yields (greedyPick p id candidates helps) R (· ∈ candidates) := by
  apply Yields.ite (.throw _)
  apply (h.respects_marksOf id).andYields
  intro m
  apply (h.respects_draw _).andYields
  intro order
  apply (yields_of _).bind
  intro inOrder hLookup
  apply (h.yields_scan hHelps m.lastPick inOrder none (mem_of_mapM_entryAt hLookup)
    (by simp)).bind
  intro found hFound
  cases found with
  | none => exact h.yields_randomPick id candidates
  | some v =>
      intro s t hR
      refine (h.yields_notePick id v s t hR).mono ?_ fun _ _ _ hFail => hFail
      rintro _ s' t' ⟨hR', rfl⟩
      exact ⟨hR', hFound _ rfl⟩

theorem yields_greedyPickFor {id : Nat} {c : Constraint} (hc : p.constraints[id]? = some c) :
    Yields (greedyPickFor p id c) R (· ∈ p.propositionsOf c) :=
  h.yields_greedyPick (fun v => h.favours id c v hc) id _

/-- A pick of a walk, greedy or at random. -/
theorem yields_pick (w : Walk) (id : Nat) :
    Yields (w.pick p id) R fun v => ∃ c, p.constraints[id]? = some c ∧ v ∈ p.propositionsOf c := by
  unfold Walk.pick
  apply (yields_of _).bind
  intro c hLookup
  have hc := entryAt_eq_ok_iff.mp hLookup
  have hPick : ∀ atRandom : Bool,
      Yields (if atRandom then randomPickFor p id c else greedyPickFor p id c) R
        fun v => ∃ c, p.constraints[id]? = some c ∧ v ∈ p.propositionsOf c := by
    intro atRandom s t hR
    have hEither : Yields (if atRandom then randomPickFor p id c else greedyPickFor p id c) R
        (· ∈ p.propositionsOf c) :=
      Yields.ite (h.yields_randomPick id _) (h.yields_greedyPickFor hc)
    refine (hEither s t hR).mono ?_ fun _ _ _ hFail => hFail
    rintro v s' t' ⟨hR', hv⟩
    exact ⟨hR', c, hc, hv⟩
  refine Yields.ite ?_ (hPick false)
  intro s t hR
  exact h.agree_chance w.randomStep hR (fun b s' t' hR' => hPick b s' t' hR') fun _ hFail => hFail

end Robust
end LocalRepair
