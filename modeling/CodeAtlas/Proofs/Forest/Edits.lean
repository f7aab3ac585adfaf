import CodeAtlas.Proofs.Forest.Relate

/-!
# Editing a forest

A forest is built by a sequence of edits: entities are added, put under others and taken away again,
offered an owner, and marked as exported.  A property that every edit keeps, under a condition on
the forest that it is made in, holds of every forest that is built in this way from the empty one.
So parents, children and degrees agree as long as only entities without links are added, and only
indices without a parent are attached.
-/

namespace CodeAtlas
namespace Forest

variable {f : Forest}

/-- A change of a forest. -/
inductive Edit where
  | push (e : Entity)
  | attach (parent child : Nat)
  | detach (parent child : Nat)
  | relate (i candidate : Nat)
  | propagateExport (i : Nat)
deriving DecidableEq, Repr

/-- The forest after a change. -/
def edit (f : Forest) : Edit → Forest
  | .push e => f.push e
  | .attach p c => f.attach p c
  | .detach p c => f.detach p c
  | .relate i c => (f.relate i c).1
  | .propagateExport i => f.propagateExport i

/-- The forest after some changes. -/
def edited (f : Forest) (edits : List Edit) : Forest := edits.foldl edit f

/-- Every change meets a condition in the forest in which it is made. -/
def Along (P : Forest → Edit → Prop) : Forest → List Edit → Prop
  | _, [] => True
  | f, a :: edits => P f a ∧ Along P (f.edit a) edits

instance decidableAlong (P : Forest → Edit → Prop) [∀ f a, Decidable (P f a)] :
    ∀ f edits, Decidable (Along P f edits)
  | _, [] => .isTrue trivial
  | f, a :: edits =>
    have := decidableAlong P (f.edit a) edits
    inferInstanceAs (Decidable (P f a ∧ Along P (f.edit a) edits))

/-- What every change keeps, all of them keep. -/
theorem Along.induction {P : Forest → Edit → Prop} {I : Forest → Prop} {edits : List Edit}
    (h : Along P f edits) (hstart : I f) (hstep : ∀ f a, I f → P f a → I (f.edit a)) :
    I (f.edited edits) := by
  induction edits generalizing f with
  | nil => exact hstart
  | cons a edits ih => exact ih h.2 (hstep f a hstart h.1)

/-- Marking what is below an index changes entities one at a time. -/
theorem propagateExport_induction {I : Forest → Prop} (hstart : I f)
    (hmark : ∀ f i, I f → I (f.modify i fun e => { e with exportable := true })) (i : Nat) :
    I (f.propagateExport i) := by
  rw [propagateExport]
  split
  · exact List.foldlRecOn (motive := I) _ _ hstart fun g hg j _ => hmark g j hg
  · exact hstart

/-! ## Linked forests -/

/-- The change adds an entity without links, or attaches an index without a parent, or is of another
kind. -/
def Edit.Orderly (f : Forest) : Edit → Prop
  | .push e => e.inDegree = 0 ∧ e.outDegree = 0
  | .attach p c => p < f.size ∧ c < f.size ∧ f.parent? c = none
  | _ => True

instance decidableOrderly (f : Forest) : ∀ a, Decidable (Edit.Orderly f a)
  | .push e => inferInstanceAs (Decidable (e.inDegree = 0 ∧ e.outDegree = 0))
  | .attach p c => inferInstanceAs (Decidable (p < f.size ∧ c < f.size ∧ f.parent? c = none))
  | .detach _ _ => .isTrue trivial
  | .relate _ _ => .isTrue trivial
  | .propagateExport _ => .isTrue trivial

theorem Linked.edit (h : f.Linked) {a : Edit} (ha : Edit.Orderly f a) : (f.edit a).Linked := by
  cases a with
  | push e => exact h.push ha.1 ha.2
  | attach p c => exact h.attach ha.1 ha.2.1 ha.2.2
  | detach p c => exact h.detach p c
  | relate i c => exact h.relate i c
  | propagateExport i =>
      apply propagateExport_induction h
      intro g j hg
      exact hg.modify (fun _ => rfl) fun _ => rfl

/-- In every forest that orderly changes lead to, no child is listed twice, the children of an index
are those that have it as their parent, and the degrees of an entity count its children and its
parent. -/
theorem linked_edited {edits : List Edit} (h : Along Edit.Orderly empty edits) :
    (empty.edited edits).Linked :=
  h.induction .empty fun _ _ hf ha => hf.edit ha

/-- A function of a file moves under a class that surrounds it; then the class is taken away from
the file. -/
def movedMember : List Edit :=
  [.push (.file "/a.py" "" .python), .push (.ofCode "/a.py::A" .cls .python ""),
    .push (.ofCode "/a.py::f" .function .python ""), .attach 0 1, .attach 0 2, .relate 2 1,
    .propagateExport 0, .detach 0 1]

theorem linked_edited_movedMember :
    Along Edit.Orderly empty movedMember ∧ (empty.edited movedMember).Linked :=
  ⟨by decide, linked_edited (by decide)⟩

end Forest
end CodeAtlas
