/-
The walk through a graph, with the set of nodes that it is inside of.

`Graph.compile` hands on the nodes above a node from call to call. Here they
are a set that all calls share: a node puts itself into it before its fields
are gone through and takes the last element out of it afterwards, whether the
fields have failed or not. A walk records what it does with the set
(`Moment`), and ends with the result of `Graph.compile`
(`Graph.walk_ancestors` in `Ancestors`).

How deep the calls nest is bounded only because of what the set holds, which
is to be proved; so a walk gets a bound on that depth, and is not finished
where it would exceed it.
-/
import QueryByExample.Graph.Branch

namespace QueryByExample
variable {ι α β : Type}

/-- What a walk does with the set, and where it is. -/
inductive Moment (ι : Type) where
  /-- The fields of a node are gone through, in calls for the nodes `before`. -/
  | fields (before : List ι) (id : ι) (ancestors : List ι)
  /-- The call for a node puts it into the set. -/
  | inserted (id : ι) (before after : List ι)
  /-- The call for a node takes the last element out of the set. -/
  | popped (id : ι) (before after : List ι)
  /-- The call for a node or for a value returns, with a result or an error. -/
  | returned (before after : List ι)

/-- The set as it is at a moment, before it and after it. -/
def Moment.sets : Moment ι → List (List ι)
  | .fields _ _ ancestors => [ancestors]
  | .inserted _ before after | .popped _ before after | .returned before after => [before, after]

/-- How a walk has ended, what it has left of the set and what it has done. -/
structure Walked (ι α : Type) where
  result : Except CompileError α
  ancestors : List ι
  moments : List (Moment ι)

/-- A computation with the set, whose elements stand in the order in which they
came; `none` where it is not finished. -/
def Walk (ι α : Type) : Type := List ι → Option (Walked ι α)

namespace Walk

def fail (e : CompileError) : Walk ι α := fun s => some ⟨.error e, s, []⟩

def unfinished : Walk ι α := fun _ => none

/-- An error ends the walk and leaves the set as it then is. -/
def andThen (w : Walk ι α) (f : α → Walk ι β) : Walk ι β := fun s =>
  (w s).bind fun walked =>
    match walked.result with
    | .ok a => (f a walked.ancestors).map fun next => { next with moments := walked.moments ++ next.moments }
    | .error e => some ⟨.error e, walked.ancestors, walked.moments⟩

instance : Monad (Walk ι) where
  pure a := fun s => some ⟨.ok a, s, []⟩
  bind := andThen

theorem bind_of_ok {w : Walk ι α} {f : α → Walk ι β} {s s' : List ι} {a : α} {moments : List (Moment ι)}
    (h : w s = some ⟨.ok a, s', moments⟩) : (w >>= f) s =
      (f a s').map fun next => { next with moments := moments ++ next.moments } := by
  show andThen w f s = _
  rw [andThen, h]
  rfl

theorem bind_of_error {w : Walk ι α} {f : α → Walk ι β} {s s' : List ι} {e : CompileError}
    {moments : List (Moment ι)} (h : w s = some ⟨.error e, s', moments⟩) :
    (w >>= f) s = some ⟨.error e, s', moments⟩ := by
  show andThen w f s = _
  rw [andThen, h]
  rfl

def ancestors : Walk ι (List ι) := fun s => some ⟨.ok s, s, []⟩

def note (m : Moment ι) : Walk ι Unit := fun s => some ⟨.ok (), s, [m]⟩

/-- Puts an element into the set, unless it is there. -/
def insert [DecidableEq ι] (id : ι) : Walk ι Unit := fun s =>
  let s' := if id ∈ s then s else s ++ [id]
  some ⟨.ok (), s', [.inserted id s s']⟩

/-- Takes the last element out of the set, whatever it is. -/
def pop (id : ι) : Walk ι Unit := fun s =>
  some ⟨.ok (), s.dropLast, [.popped id s s.dropLast]⟩

/-- An error is a result to go on with. -/
def attempt (w : Walk ι α) : Walk ι (Except CompileError α) := fun s =>
  (w s).map fun walked => ⟨.ok walked.result, walked.ancestors, walked.moments⟩

def ofExcept : Except CompileError α → Walk ι α
  | .ok a => pure a
  | .error e => fail e

theorem ofExcept_eq (result : Except CompileError α) (s : List ι) : ofExcept result s = some ⟨result, s, []⟩ := by
  cases result <;> rfl

/-- A call, of which it is recorded how it leaves the set. -/
def call (w : Walk ι α) : Walk ι α := fun s =>
  (w s).map fun walked => { walked with moments := walked.moments ++ [.returned s walked.ancestors] }

/-- A walk inside of a node. -/
def inside [DecidableEq ι] (id : ι) (w : Walk ι α) : Walk ι α := do
  insert id
  let walked ← attempt w
  pop id
  ofExcept walked

end Walk

variable [DecidableEq ι]

mutual

/-- The parts that the value of a field of that name comes to. -/
def FieldValue.walk (visit : ι → Walk ι Branch) (owner name : String) : FieldValue ι → Walk ι (List Part)
  | .scalar value => .call (pure [.scalar name value])
  | .node id => .call do
    if id ∈ (← Walk.ancestors) then .fail (.cycle name owner)
    else return [.branch name (← visit id)]
  | .list items => .call (FieldValue.walkItems visit owner name items)
  | .hidden => .call (pure [])

def FieldValue.walkItems (visit : ι → Walk ι Branch) (owner name : String) :
    List (FieldValue ι) → Walk ι (List Part)
  | [] => pure []
  | item :: rest => return (← item.walk visit owner name) ++ (← FieldValue.walkItems visit owner name rest)

end

def Node.walkFields (visit : ι → Walk ι Branch) (owner : String) :
    List (String × FieldValue ι) → Walk ι (List Part)
  | [] => pure []
  | (name, value) :: rest =>
    if isRelevantKey name then
      return (← value.walk visit owner name) ++ (← Node.walkFields visit owner rest)
    else Node.walkFields visit owner rest

namespace Graph

/-- The call for a node in calls for the nodes `before`. -/
def walkNode (graph : Graph ι) (limit : Nat) : (depth : Nat) → (before : List ι) → ι → Walk ι Branch
  | 0, _, _ => .unfinished
  | depth + 1, before, id => .call do
    if limit ≤ (← Walk.ancestors).length then .fail .recursionLimitExceeded
    else
      match (graph id).tags with
      | [] => .fail (.missingTypeTag (graph id).name)
      | tag :: _ =>
        let parts ← Walk.inside id do
          Walk.note (.fields before id (← Walk.ancestors))
          Node.walkFields (graph.walkNode limit depth (before ++ [id])) tag (graph id).fields
        return .ofParts tag (graph id).isMatch (graph id).custom parts

/-- The walk from a root, which is inside of no node. -/
def walk (graph : Graph ι) (limit : Nat) (root : ι) : Option (Walked ι Branch) :=
  graph.walkNode limit (limit + 1) [] root []

end Graph
end QueryByExample
