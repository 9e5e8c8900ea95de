import LocalRepair.Connectivity

/-!
# How often a forest is built

A forest counts how often it was built from scratch. A stale one will be built once more
before it is asked, so what counts is the number of builds that are *due*: those that
were made, and one more if the forest is stale. Whoever brings it up to date pays that
one, and those who come after find it built.

So questions and being brought up to date leave the number alone, and so does an edge
that appears, since it is joined to the forest at once. An edge that is gone adds one
if it is a forest edge, and only the first time it is told: after that the forest is
stale, or was built without the edge.

## Main results

* `due_bringUpToDate`: bringing a forest up to date pays what is due.
* `keepsStamp_isMet`: a demand is answered without building anything.
* `due_note`: what an edge adds that appears or is gone.
-/

namespace LocalRepair

namespace Forest

variable {g : Graph} {f f' : Forest g} {α β : Type}

/-- Whether the forest is up to date, and how often it was built. -/
def stamp (f : Forest g) : Bool × Nat := (f.built, f.builds)

/-- How often the forest will have been built once it is up to date. -/
def due (f : Forest g) : Nat := if f.built then f.builds else f.builds + 1

/-- A forest that is up to date owes nothing. -/
theorem due_of_built (h : f.built = true) : f.due = f.builds := if_pos h

theorem due_of_stale (h : f.built = false) : f.due = f.builds + 1 := by
  simp [due, h]

theorem due_congr (h : f'.stamp = f.stamp) : f'.due = f.due := by
  simp only [stamp, Prod.mk.injEq] at h
  simp only [due, h]

/-! ## Questions -/

/-- A question that neither builds the forest nor makes it stale. -/
def KeepsStamp (q : Query g α) : Prop := ∀ f, (q f).2.stamp = f.stamp

namespace KeepsStamp

theorem pure (x : α) : KeepsStamp (Pure.pure x : Query g α) := fun _ => rfl

theorem bind {q : Query g α} {next : α → Query g β} (hq : KeepsStamp q)
    (hNext : ∀ x, KeepsStamp (next x)) : KeepsStamp (q >>= next) :=
  fun f => (hNext (q f).1 (q f).2).trans (hq f)

end KeepsStamp

theorem keepsStamp_find (v : g.Vertex) : KeepsStamp (find v) := fun _ => rfl

theorem keepsStamp_joined (a b : g.Vertex) : KeepsStamp (joined a b) :=
  (keepsStamp_find a).bind fun _ => (keepsStamp_find b).bind fun _ => .pure _

theorem keepsStamp_findAll (vs : List g.Vertex) : KeepsStamp (findAll vs) := by
  induction vs with
  | nil => exact .pure _
  | cons v vs ih => exact (keepsStamp_find v).bind fun _ => ih.bind fun _ => .pure _

theorem keepsStamp_anyRootIn (roots vs : List g.Vertex) : KeepsStamp (anyRootIn roots vs) := by
  induction vs with
  | nil => exact .pure _
  | cons v vs ih =>
      apply (keepsStamp_find v).bind
      intro root
      split
      · exact .pure _
      · exact ih

/-! ## Edges -/

/-- Joining two classes neither builds the forest nor makes it stale. -/
theorem stamp_union (a b : g.Vertex) (e : g.EdgeId) : KeepsStamp (union a b e) := by
  apply (keepsStamp_find a).bind
  intro ra
  apply (keepsStamp_find b).bind
  intro rb f
  by_cases h : ra = rb
  · rw [if_pos h]
    rfl
  · rw [if_neg h]
    show ((f.linkRoots ra rb).record e).stamp = f.stamp
    unfold linkRoots
    cases compare f.rank[ra] f.rank[rb] <;> rfl

theorem stamp_unionPresent (present : g.EdgeId → Bool) (es : List g.EdgeId) :
    ∀ f : Forest g, (unionPresent present es f).stamp = f.stamp := by
  induction es with
  | nil => exact fun _ => rfl
  | cons e es ih =>
      intro f
      rw [unionPresent, ih]
      split
      · exact stamp_union _ _ e f
      · rfl

/-- Building from scratch counts as one. -/
theorem builds_buildFrom (present : g.EdgeId → Bool) (f : Forest g) :
    (f.buildFrom present).builds = f.builds + 1 :=
  congrArg (·.2 + 1) (stamp_unionPresent present g.edgeIds f.clear)

/-- Bringing a forest up to date pays what is due. -/
theorem due_bringUpToDate {a : Assignment} (h : f.bringUpToDate a = .ok f') : f'.due = f.due := by
  by_cases hBuilt : f.built = true
  · rw [bringUpToDate, if_pos hBuilt] at h
    rw [Except.ok.inj h]
  · rw [bringUpToDate, if_neg hBuilt, rebuild] at h
    split at h
    · rw [← Except.ok.inj h, due_of_built rfl, builds_buildFrom,
        due_of_stale (by simpa using hBuilt)]
    · cases h

/-- An edge adds to what is due if it is gone from the forest that was built with it. -/
theorem due_note (f : Forest g) (e : g.EdgeId) (present : Bool) :
    (f.note e present).due = f.due + (f.built && f.contains e && !present).toNat := by
  cases present with
  | true =>
      have hStamp : (f.note e true).stamp = f.stamp := by
        show (f.noteAppeared e).stamp = f.stamp
        unfold noteAppeared
        split
        · exact stamp_union _ _ e f
        · rfl
      simp [due_congr hStamp]
  | false =>
      show (f.noteGone e).due = _
      unfold noteGone
      cases hBuilt : f.built with
      | false => simp
      | true =>
          cases hContains : f.contains e with
          | false => simp
          | true => simp [due_of_built hBuilt, due_of_stale, invalidate]

end Forest

/-- A demand is answered without building the forest or making it stale. -/
theorem Connectivity.keepsStamp_isMet {g : Graph} (demand : Connectivity g.Vertex) :
    Forest.KeepsStamp demand.isMet := by
  cases demand with
  | whole => exact fun _ => rfl
  | pieces count => exact fun _ => rfl
  | pair source target => exact Forest.keepsStamp_joined source target
  | sides left right =>
      exact (Forest.keepsStamp_findAll left).bind fun roots =>
        Forest.keepsStamp_anyRootIn roots right

end LocalRepair
