import Runbook.Condition
import Runbook.Pairs
import Runbook.Step.Kind

/-!
# Steps

A step has an identity, a name, a kind and properties; it runs only if it is enabled and all its
conditions hold.  Every step may hold further steps, though only those of a group are run, so
steps form a tree.  The order of the tree is preorder: a step comes before the steps in it.

`find?` looks for a step by its identity, `count` counts the steps of a tree and `preorder` lists
them.
-/

namespace Runbook

/-- A step and the steps in it. -/
inductive Step where
  /-- A step, given by its fields. -/
  | mk (id name description : String) (kind : Kind) (enabled continueOnError : Bool)
      (conditions : List Condition) (properties : Pairs) (children : List Step)
  deriving Repr

namespace Step

/-- The identity. -/
def id : Step → String
  | mk i _ _ _ _ _ _ _ _ => i

/-- The name. -/
def name : Step → String
  | mk _ n _ _ _ _ _ _ _ => n

/-- The description. -/
def description : Step → String
  | mk _ _ d _ _ _ _ _ _ => d

/-- The kind. -/
def kind : Step → Kind
  | mk _ _ _ k _ _ _ _ _ => k

/-- The step is run at all. -/
def enabled : Step → Bool
  | mk _ _ _ _ e _ _ _ _ => e

/-- Its failure does not stop what holds it. -/
def continueOnError : Step → Bool
  | mk _ _ _ _ _ c _ _ _ => c

/-- The conditions under which it runs. -/
def conditions : Step → List Condition
  | mk _ _ _ _ _ _ cs _ _ => cs

/-- The properties. -/
def properties : Step → Pairs
  | mk _ _ _ _ _ _ _ ps _ => ps

/-- The steps in it. -/
def children : Step → List Step
  | mk _ _ _ _ _ _ _ _ ss => ss

/-- The step holds others and runs them. -/
def isGroup (s : Step) : Bool := s.kind == .group

/-- The value of a property, the case of its key counting. -/
def property? (s : Step) (key : String) : Option String := s.properties.get? key

mutual

/-- The steps of a tree, a step before the steps in it. -/
def preorder : Step → List Step
  | mk i n d k e c cs ps ss => mk i n d k e c cs ps ss :: preorderAll ss
termination_by structural s => s

/-- The steps of several trees, one tree after the other. -/
def preorderAll : List Step → List Step
  | [] => []
  | s :: ss => preorder s ++ preorderAll ss
termination_by structural ss => ss

end

mutual

/-- The number of steps of a tree. -/
def count : Step → Nat
  | mk _ _ _ _ _ _ _ _ ss => 1 + countAll ss
termination_by structural s => s

/-- The number of steps of several trees. -/
def countAll : List Step → Nat
  | [] => 0
  | s :: ss => count s + countAll ss
termination_by structural ss => ss

end

mutual

/-- The first step of a tree with an identity. -/
def find? (wanted : String) : Step → Option Step
  | mk i n d k e c cs ps ss =>
      if i = wanted then some (mk i n d k e c cs ps ss) else findAll? wanted ss
termination_by structural s => s

/-- The first step of several trees with an identity. -/
def findAll? (wanted : String) : List Step → Option Step
  | [] => none
  | s :: ss =>
      match find? wanted s with
      | some t => some t
      | none => findAll? wanted ss
termination_by structural ss => ss

end

mutual

/-- The steps of a tree with their depths, in preorder. -/
def withDepth (depth : Nat) : Step → List (Nat × Step)
  | mk i n d k e c cs ps ss => (depth, mk i n d k e c cs ps ss) :: withDepthAll (depth + 1) ss
termination_by structural s => s

/-- The steps of several trees with their depths. -/
def withDepthAll (depth : Nat) : List Step → List (Nat × Step)
  | [] => []
  | s :: ss => withDepth depth s ++ withDepthAll depth ss
termination_by structural ss => ss

end

mutual

/-- Equality of step trees. -/
def decEq : (s t : Step) → Decidable (s = t)
  | mk i n d k e c cs ps ss, mk i' n' d' k' e' c' cs' ps' ss' =>
      if h : i = i' ∧ n = n' ∧ d = d' ∧ k = k' ∧ e = e' ∧ c = c' ∧ cs = cs' ∧ ps = ps' then
        match decEqAll ss ss' with
        | isTrue hs => isTrue (by
            obtain ⟨rfl, rfl, rfl, rfl, rfl, rfl, rfl, rfl⟩ := h
            subst hs
            rfl)
        | isFalse hs => isFalse (by
            intro he
            injection he
            contradiction)
      else isFalse (by
        intro he
        injection he
        exact h (by simp_all))
termination_by structural s => s

/-- Equality of lists of step trees. -/
def decEqAll : (ss ts : List Step) → Decidable (ss = ts)
  | [], [] => isTrue rfl
  | [], _ :: _ => isFalse (by simp)
  | _ :: _, [] => isFalse (by simp)
  | s :: ss, t :: ts =>
      match decEq s t with
      | isTrue h =>
          match decEqAll ss ts with
          | isTrue hs => isTrue (by rw [h, hs])
          | isFalse hs => isFalse (by simp [hs])
      | isFalse h => isFalse (by simp [h])
termination_by structural ss => ss

end

instance : DecidableEq Step := decEq

end Step
end Runbook
