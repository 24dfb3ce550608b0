import EventPattern.Compilation.Run
import Mathlib.Logic.Relation

/-! What a goal needs.

The stages of a goal are those that its inputs lead to (`mem_required_iff`), in an order that
can be run: each stands there once, behind the stages it works on (`inOrder_required`). A run
touches only what its stages are described to leave behind (`run_frame`). -/
namespace EventPattern

namespace Stage

/-! ### Walking along the inputs -/

def Feeds (a b : Stage) : Prop := a ∈ b.description.inputs

/-- Where a stage stands among all of them. -/
def level (stage : Stage) : Nat := all.idxOf stage

theorem level_lt_length (stage : Stage) : stage.level < all.length := by
  cases stage <;> decide

variable {a b : Stage} {before after order : List Stage}

/-- No stage works on what it leaves itself, directly or by way of others. -/
theorem Feeds.level_lt (h : Feeds a b) : a.level < b.level := by
  revert a
  show ∀ a ∈ b.description.inputs, a.level < b.level
  cases b <;> decide

theorem level_le_of_leads (h : Relation.ReflTransGen Feeds a b) : a.level ≤ b.level := by
  induction h with
  | refl => exact Nat.le_refl _
  | tail _ hfeeds ih => exact Nat.le_trans ih (Nat.le_of_lt hfeeds.level_lt)

/-- Each stage once, behind the stages it works on. -/
inductive InOrder : List Stage → Prop
  | nil : InOrder []
  | snoc {order stage} : InOrder order → stage ∉ order → stage.description.inputs ⊆ order →
      InOrder (order ++ [stage])

theorem InOrder.mem_of_feeds (horder : InOrder order) (hb : b ∈ order) (h : Feeds a b) :
    a ∈ order := by
  induction horder with
  | nil => exact absurd hb List.not_mem_nil
  | snoc _ _ hinputs ih =>
    rcases List.mem_append.mp hb with hb | hb
    · exact List.mem_append_left _ (ih hb)
    · rw [List.mem_singleton.mp hb] at h
      exact List.mem_append_left _ (hinputs h)

/-- What a walk to some goals makes of an order. -/
structure Walked (goals before after : List Stage) : Prop where
  inOrder : InOrder before → InOrder after
  kept : before ⊆ after
  reached : goals ⊆ after
  only : ∀ stage ∈ after,
    stage ∈ before ∨ ∃ goal ∈ goals, Relation.ReflTransGen Feeds stage goal

theorem Walked.nil : Walked [] order order where
  inOrder := id
  kept := List.Subset.refl _
  reached := List.nil_subset _
  only := fun _ => .inl

theorem Walked.cons {goals middle : List Stage} (hfirst : Walked [a] before middle)
    (hrest : Walked goals middle after) : Walked (a :: goals) before after where
  inOrder := hrest.inOrder ∘ hfirst.inOrder
  kept := List.Subset.trans hfirst.kept hrest.kept
  reached := List.cons_subset.mpr ⟨hrest.kept (hfirst.reached List.mem_cons_self), hrest.reached⟩
  only := fun stage h => by
    rcases hrest.only stage h with h | ⟨goal, hgoal, hleads⟩
    · rcases hfirst.only stage h with h | ⟨goal, hgoal, hleads⟩
      · exact .inl h
      · rw [List.mem_singleton.mp hgoal] at hleads
        exact .inr ⟨a, List.mem_cons_self, hleads⟩
    · exact .inr ⟨goal, List.mem_cons_of_mem _ hgoal, hleads⟩

theorem Walked.of_mem (h : a ∈ order) : Walked [a] order order where
  inOrder := id
  kept := List.Subset.refl _
  reached := List.cons_subset.mpr ⟨h, List.nil_subset _⟩
  only := fun _ => .inl

/-- Behind its inputs a stage can be put into the order. -/
theorem Walked.snoc (hinputs : Walked a.description.inputs before after) (hnew : a ∉ before) :
    Walked [a] before (after ++ [a]) where
  inOrder := fun hbefore => by
    refine .snoc (hinputs.inOrder hbefore) (fun h => ?_) hinputs.reached
    rcases hinputs.only a h with h | ⟨input, hinput, hleads⟩
    · exact hnew h
    -- The way along the inputs would have come back to where it started.
    · exact absurd (level_le_of_leads hleads) (Nat.not_le_of_lt (Feeds.level_lt hinput))
  kept := List.Subset.trans hinputs.kept (List.subset_append_left _ _)
  reached := List.subset_append_right after [a]
  only := fun stage h => by
    rcases List.mem_append.mp h with h | h
    · refine (hinputs.only stage h).imp_right fun ⟨input, hinput, hleads⟩ => ?_
      exact ⟨a, List.mem_singleton_self a, hleads.tail hinput⟩
    · rw [List.mem_singleton.mp h]
      exact .inr ⟨a, List.mem_singleton_self a, .refl⟩

theorem walked_foldl {walk : List Stage → Stage → List Stage} {goals : List Stage}
    (h : ∀ goal ∈ goals, ∀ order, Walked [goal] order (walk order goal)) (order : List Stage) :
    Walked goals order (goals.foldl walk order) := by
  induction goals generalizing order with
  | nil => exact .nil
  | cons goal goals ih =>
    exact .cons (h goal List.mem_cons_self order)
      (ih (fun goal hgoal => h goal (List.mem_cons_of_mem _ hgoal)) _)

/-- A visit does what it is for where the depth suffices for the way down. -/
theorem walked_visit {depth : Nat} {goal : Stage} (h : goal.level < depth) (order : List Stage) :
    Walked [goal] order (visit depth order goal) := by
  induction depth generalizing goal order with
  | zero => exact absurd h (Nat.not_lt_zero _)
  | succ depth ih =>
    rw [visit]
    split
    case isTrue hfound => exact .of_mem hfound
    case isFalse hnew =>
      refine .snoc (walked_foldl (fun input hinput order => ih ?_ order) order) hnew
      exact Nat.lt_of_lt_of_le (Feeds.level_lt hinput) (Nat.le_of_lt_succ h)

theorem walked_required (goal : Stage) : Walked [goal] [] goal.required :=
  walked_visit goal.level_lt_length []

theorem inOrder_required (goal : Stage) : InOrder goal.required :=
  (walked_required goal).inOrder .nil

/-- A goal needs the stages that lead to it, and no others. -/
theorem mem_required_iff : a ∈ b.required ↔ Relation.ReflTransGen Feeds a b := by
  constructor
  · intro h
    rcases (walked_required b).only a h with h | ⟨goal, hgoal, hleads⟩
    · exact absurd h List.not_mem_nil
    · rwa [List.mem_singleton.mp hgoal] at hleads
  · intro h
    induction h using Relation.ReflTransGen.head_induction_on with
    | refl => exact (walked_required b).reached List.mem_cons_self
    | head hfeeds _ ih => exact (inOrder_required b).mem_of_feeds ih hfeeds

theorem required_adapt : adapt.required = [check, adapt] := by decide

theorem required_review : review.required = [check, adapt, review] := by decide

theorem required_resolve : resolve.required = [check, adapt, review, resolve] := by decide

theorem required_render : render.required = [check, adapt, review, resolve, render] := by decide

theorem mem_required_self (stage : Stage) : stage ∈ stage.required := mem_required_iff.mpr .refl

theorem mem_required_trans {a b c : Stage} (hab : a ∈ b.required) (hbc : b ∈ c.required) :
    a ∈ c.required :=
  mem_required_iff.mpr ((mem_required_iff.mp hab).trans (mem_required_iff.mp hbc))

end Stage

/-! ### What a run leaves alone -/

namespace Compilation

/-- Two compilations hold the same of a product; the products of a review are its issues. -/
def Same (c d : Compilation) : Product → Prop
  | .document => d.document = c.document
  | .model => d.model = c.model
  | .review => d.errors = c.errors ∧ d.warnings = c.warnings
  | .resolvedModel => d.resolved = c.resolved
  | .trail => d.trail = c.trail
  | .iseql => d.iseql = c.iseql

variable {c d e next : Compilation} {product : Product} {issues : List Issue}

theorem Same.refl (c : Compilation) (product : Product) : Same c c product := by
  cases product <;> first | exact ⟨rfl, rfl⟩ | rfl

theorem Same.trans (hcd : Same c d product) (hde : Same d e product) : Same c e product := by
  cases product <;> first
    | exact ⟨hde.1.trans hcd.1, hde.2.trans hcd.2⟩
    | exact Eq.trans hde hcd

/-- A stage sets what it is described to leave behind, and nothing else. -/
theorem perform_frame {stage : Stage} (h : c.perform stage = some (next, issues))
    (hother : product ∉ stage.description.outputs) : Same c next product := by
  cases stage with
  | check =>
    simp only [perform] at h
    split at h <;> cases h <;> cases product <;>
      first | exact ⟨rfl, rfl⟩ | rfl | exact absurd (by decide) hother
  | adapt | review | resolve | render =>
    obtain ⟨_, -, hnext⟩ := Option.map_eq_some_iff.mp h
    cases hnext
    cases product <;> first | exact ⟨rfl, rfl⟩ | rfl | exact absurd (by decide) hother

/-- Taking in issues changes the issues only. -/
theorem collect_frame (h : product ≠ .review) : Same c (c.collect issues) product := by
  cases product <;> first | rfl | exact absurd rfl h

theorem runStages_frame {stages : List Stage}
    (hother : ∀ stage ∈ stages, product ∉ stage.description.outputs) (h : product ≠ .review) :
    Same c (c.runStages stages).compilation product := by
  induction stages generalizing c with
  | nil => exact .refl c product
  | cons stage rest ih =>
    obtain ⟨hstage, hrest⟩ := List.forall_mem_cons.mp hother
    rw [runStages]
    split
    case h_1 => exact .refl c product
    case h_2 next issues hperform =>
      have hnext : Same c (next.collect issues) product :=
        (perform_frame hperform hstage).trans (collect_frame h)
      split
      · exact hnext
      · exact hnext.trans (ih hrest)

/-- A run leaves the products of the stages alone that do not lead to its goal. Issues are taken
in from every stage. -/
theorem run_frame {goal : Stage}
    (hother : ∀ stage, Relation.ReflTransGen Stage.Feeds stage goal →
      product ∉ stage.description.outputs)
    (h : product ≠ .review) : Same c (c.run goal).compilation product :=
  runStages_frame (fun stage hstage => hother stage (Stage.mem_required_iff.mp hstage)) h

end Compilation
end EventPattern
