/-
Flat examples: one tag and strings under relevant keys.

In the text of an equality the value is escaped, so it ends where its quote
does, whatever is in it. The name is written as it stands and ends where `='`
follows. So a key with `='` in it can pass for a name, a value and the
beginning of another equality (`expression?_spliced`); as long as no key has
it, the path expression tells the keys and values in their order
(`expression?_eq_iff`).
-/
import QueryByExample.Path.Text
import QueryByExample.Proofs.Example.Stored
import QueryByExample.Proofs.Path.Grammar

namespace QueryByExample
open Reading

namespace Reading

theorem eq_nil_of_not_infix {name more rest rest' : List Char} (hname : ¬ "='".toList <:+: name ++ more)
    (h : '=' :: '\'' :: rest = more ++ '=' :: '\'' :: rest') : more = [] := by
  match more, h with
  | [], _ => rfl
  | [_], h => simp at h
  | c :: d :: more, h =>
    simp only [List.cons_append, List.cons.injEq] at h
    obtain ⟨rfl, rfl, -⟩ := h
    exact absurd ⟨name, more, by simp⟩ hname

/-- A name without `='` in it ends at the first `='`. -/
theorem name_unique {name name' rest rest' : List Char} (hname : ¬ "='".toList <:+: name)
    (hname' : ¬ "='".toList <:+: name') (h : name ++ '=' :: '\'' :: rest = name' ++ '=' :: '\'' :: rest') :
    name = name' ∧ rest = rest' := by
  rcases List.append_eq_append_iff.1 h with ⟨more, rfl, hmore⟩ | ⟨more, rfl, hmore⟩
  · obtain rfl := eq_nil_of_not_infix hname' hmore
    simpa using hmore
  · obtain rfl := eq_nil_of_not_infix hname hmore
    simpa [eq_comm] using hmore

end Reading

namespace Predicate

/-- That the field of that name is that string. -/
def ofPair (p : String × String) : Predicate := .equals p.1 (.string p.2)

theorem onStep_ofPair (p : String × String) (rest : List Char) :
    (ofPair p).written.onStep ++ rest =
      '[' :: '@' :: (p.1.toList ++ '=' :: '\'' :: (escaped p.2.toList ++ '\'' :: ']' :: rest)) := by
  change '[' :: ('@' :: p.1.toList ++ "='".toList ++ escaped p.2.toList ++ ['\'']) ++ [']'] ++ rest = _
  simp

/-- The texts of equalities one after the other tell the names and the values. -/
theorem pairs_unique {ps qs : List (String × String)} (hps : ∀ p ∈ ps, ¬ "='".toList <:+: p.1.toList)
    (hqs : ∀ q ∈ qs, ¬ "='".toList <:+: q.1.toList)
    (h : (writtenAll (ps.map ofPair)).flatMap (·.onStep) = (writtenAll (qs.map ofPair)).flatMap (·.onStep)) :
    ps = qs := by
  induction ps generalizing qs with
  | nil =>
    cases qs with
    | nil => rfl
    | cons q qs =>
      rw [List.map_cons, writtenAll, List.flatMap_cons, onStep_ofPair] at h
      cases h
  | cons p ps ih =>
    cases qs with
    | nil =>
      rw [List.map_cons, writtenAll, List.flatMap_cons, onStep_ofPair] at h
      cases h
    | cons q qs =>
      rw [List.forall_mem_cons] at hps hqs
      simp only [List.map_cons, writtenAll, List.flatMap_cons, onStep_ofPair, List.cons.injEq, true_and] at h
      obtain ⟨hname, hrest⟩ := name_unique hps.1 hqs.1 h
      have hread := quoted?_escaped p.2.toList (']' :: (writtenAll (ps.map ofPair)).flatMap (·.onStep))
      rw [hrest, quoted?_escaped] at hread
      simp only [Option.some.injEq, Prod.mk.injEq, List.cons.injEq, true_and] at hread
      rw [ih hps.2 hqs.2 hread.2.symm, Prod.ext (String.toList_inj.1 hname) (String.toList_inj.1 hread.1.symm)]

end Predicate

namespace Json
variable {tag : String} {members : List (String × Json)}

/-- The members with other keys than `nodeTags` that hold strings. -/
def pairs (members : List (String × Json)) : List (String × String) :=
  members.filterMap fun m => if m.1 = "nodeTags" then none else m.2.string?.map (m.1, ·)

/-- A tag, and strings under relevant keys. -/
structure IsFlat (tag : String) (members : List (String × Json)) : Prop where
  distinct : (members.map Prod.fst).Nodup
  tagged : Keyed.get? "nodeTags" members = some (.string tag)
  others : ∀ m ∈ members, m.1 ≠ "nodeTags" → isRelevantKey m.1 = true ∧ ∃ s, m.2 = .string s

/-- A tag, and then these strings. -/
def flatMembers (tag : String) (pairs : List (String × String)) : List (String × Json) :=
  ("nodeTags", .string tag) :: pairs.map fun p => (p.1, .string p.2)

theorem isFlat_flatMembers {tag : String} {pairs : List (String × String)}
    (hdistinct : (pairs.map Prod.fst).Nodup) (h : ∀ p ∈ pairs, isRelevantKey p.1 = true) :
    IsFlat tag (flatMembers tag pairs) where
  distinct := by
    rw [flatMembers, List.map_cons, List.map_map, List.nodup_cons]
    refine ⟨fun hmem => ?_, hdistinct⟩
    obtain ⟨p, hp, hkey : p.1 = "nodeTags"⟩ := List.mem_map.1 hmem
    have hrelevant := h p hp
    rw [hkey] at hrelevant
    exact absurd hrelevant (by decide)
  tagged := rfl
  others := by
    refine List.forall_mem_cons.2 ⟨fun hkey => absurd rfl hkey, List.forall_mem_map.2 fun p hp _ => ?_⟩
    exact ⟨h p hp, p.2, rfl⟩

/-- The values of all members are strings. -/
theorem IsFlat.string (h : IsFlat tag members) {m : String × Json} (hm : m ∈ members) :
    ∃ s, m.2 = .string s := by
  by_cases hkey : m.1 = "nodeTags"
  · have hget : Keyed.get? m.1 members = some m.2 := (Keyed.get?_eq_some_iff h.distinct).2 hm
    rw [hkey, h.tagged] at hget
    exact ⟨tag, (Option.some.inj hget).symm⟩
  · exact (h.others m hm hkey).2

theorem IsFlat.get?_eq_none (h : IsFlat tag members) (key : String) (hkey : key ≠ "nodeTags")
    (hirrelevant : isRelevantKey key = false) : Keyed.get? key members = none := by
  refine Keyed.get?_eq_none_iff.2 fun hmem => ?_
  obtain ⟨m, hm, rfl⟩ := List.mem_map.1 hmem
  rw [(h.others m hm hkey).1] at hirrelevant
  cases hirrelevant

theorem IsFlat.hasDistinctKeys (h : IsFlat tag members) : (object members).hasDistinctKeys = true := by
  refine hasDistinctKeys_object_iff.2 ⟨h.distinct, (membersDistinctKeys_iff members).2 fun m hm => ?_⟩
  obtain ⟨s, hs⟩ := h.string hm
  rw [hs]
  rfl

theorem IsFlat.isGood (h : IsFlat tag members) : isGood members = true := by
  rw [Json.isGood, h.tagged]
  refine (membersFine_iff members).2 fun m hm => ?_
  obtain ⟨s, hs⟩ := h.string hm
  rw [hs]
  exact ⟨fun _ => rfl, fun _ => rfl⟩

theorem IsFlat.isRelevant (h : IsFlat tag members) : ∀ p ∈ pairs members, isRelevantKey p.1 = true := by
  intro p hp
  obtain ⟨m, hm, hpair⟩ := List.mem_filterMap.1 hp
  split at hpair
  · cases hpair
  next hkey =>
    obtain ⟨s, -, rfl⟩ := Option.map_eq_some_iff.1 hpair
    exact (h.others m hm hkey).1

theorem IsFlat.memberProperties (h : IsFlat tag members) :
    memberProperties members = (pairs members).map fun p => (p.1, .scalar (.string p.2)) := by
  rw [memberProperties_eq, pairs, List.filterMap_filter, List.map_filterMap]
  refine List.filterMap_congr fun m hm => ?_
  by_cases hkey : m.1 = "nodeTags"
  · have hirrelevant : isRelevantKey "nodeTags" = false := by decide
    simp [hkey, hirrelevant]
  · obtain ⟨hrelevant, s, hs⟩ := h.others m hm hkey
    simp [hkey, hrelevant, hs, property?, string?]

end Json

theorem Branch.ofParts_scalars (tag : String) (pairs : List (String × String)) :
    Branch.ofParts tag false [] (pairs.map fun p => .scalar p.1 (.string p.2)) =
      ⟨⟨tag, pairs.map .ofPair, []⟩, false⟩ := by
  simp [Branch.ofParts, List.filterMap_map, Function.comp_def, Part.equality?, Part.condition?,
    Part.match?, Predicate.ofPair]

namespace Example

/-- The example with one tag and these strings. -/
def ofPairs (tag : String) (pairs : List (String × String)) : Example :=
  { ofTag tag with properties := pairs.map fun p => (p.1, .scalar (.string p.2)) }

theorem ofMembers_of_isFlat {tag : String} {members : List (String × Json)} (h : Json.IsFlat tag members) :
    ofMembers members = ofPairs tag (Json.pairs members) := by
  simp only [ofMembers, withControls, ofPairs, ofTag, h.tagged, h.memberProperties,
    h.get?_eq_none "nodeName" (by decide) (by decide),
    h.get?_eq_none "$match" (by decide) (by decide),
    h.get?_eq_none "$predicate" (by decide) (by decide)]
  rfl

theorem fieldsAt_ofPairs (place : Place) (number : Nat) (pairs : List (String × String)) :
    fieldsAt place number (pairs.map fun p => (p.1, .scalar (.string p.2))) =
      pairs.map fun p => (p.1, .scalar (.string p.2)) := by
  induction pairs generalizing number with
  | nil => rfl
  | cons p rest ih => exact congrArg (_ :: ·) (ih (number + 1))

theorem leaves_ofPairs {tag : String} {pairs : List (String × String)}
    (h : ∀ p ∈ pairs, isRelevantKey p.1 = true) (place : Place) :
    ((ofPairs tag pairs).nodeAt place).leaves = pairs.map fun p => (p.1, .scalar (.string p.2)) := by
  have hrelevant : ∀ field ∈ pairs.map fun p => (p.1, (.scalar (.string p.2) : FieldValue Place)),
      isRelevantKey field.1 = true := List.forall_mem_map.2 h
  simp only [Node.leaves, nodeAt, ofPairs, fieldsAt_ofPairs]
  rw [List.filter_eq_self.2 hrelevant, List.flatMap_map]
  simp only [FieldValue.leaves, List.map_cons, List.map_nil]
  exact List.map_eq_flatMap.symm

theorem compile_ofPairs {tag : String} {pairs : List (String × String)} {limit : Nat}
    (h : ∀ p ∈ pairs, isRelevantKey p.1 = true) (hlimit : 0 < limit) :
    (ofPairs tag pairs).compile limit = .ok ⟨⟨tag, pairs.map .ofPair, []⟩, false⟩ := by
  cases limit with
  | zero => nomatch hlimit
  | succ limit =>
    have htags : ((ofPairs tag pairs).nodeAt []).tags = [tag] := rfl
    rw [compile_succ, Node.branch_of_tagged htags, leaves_ofPairs h, List.mapM_map]
    change Except.map _ (pairs.mapM fun p => pure (Part.scalar p.1 (.string p.2))) = _
    rw [List.mapM_pure]
    exact congrArg Except.ok (Branch.ofParts_scalars tag pairs)

/-- The path expression of the example that a JSON value is. -/
def expression? (v : Json) (limit : Nat) : Option String :=
  match ofJson v with
  | .error _ => none
  | .ok e =>
    match e.compile limit with
    | .error _ => none
    | .ok b => some b.step.expression

theorem expression?_of_isFlat {tag : String} {members : List (String × Json)} {limit : Nat}
    (h : Json.IsFlat tag members) (hlimit : 0 < limit) : expression? (.object members) limit =
      some (Step.expression ⟨tag, (Json.pairs members).map .ofPair, []⟩) := by
  have hread := (ofJson_okWhen h.hasDistinctKeys).eq_ok_iff.2 ⟨h.isGood, rfl⟩
  rw [ofMembers_of_isFlat h] at hread
  simp only [expression?, hread, compile_ofPairs h.isRelevant hlimit]

/-- A key can stand for a name, a value and the name of one equality more. -/
theorem expression?_spliced :
    let two := Json.flatMembers "Build" [("a", "x"), ("b", "y")]
    let one := Json.flatMembers "Build" [("a='x'][@b", "y")]
    Json.IsFlat "Build" two ∧ Json.IsFlat "Build" one ∧ Json.pairs two ≠ Json.pairs one ∧
      expression? (.object two) defaultRecursionLimit = some "/Build()[@a='x'][@b='y']" ∧
      expression? (.object one) defaultRecursionLimit = some "/Build()[@a='x'][@b='y']" :=
  ⟨Json.isFlat_flatMembers (by decide) (by decide), Json.isFlat_flatMembers (by decide) (by decide),
    by decide, rfl, rfl⟩

/-- **Flat examples with different fields have different expressions**, as
long as no key has in it what ends a name. Flat examples have expressions, and
where the keys are such, those of two with the same tag are equal exactly when
they have the same keys with the same strings in the same order. -/
theorem expression?_eq_iff {tag : String} {members members' : List (String × Json)} {limit : Nat}
    (h : Json.IsFlat tag members) (h' : Json.IsFlat tag members') (hlimit : 0 < limit)
    (hnames : ∀ p ∈ Json.pairs members, ¬ "='".toList <:+: p.1.toList)
    (hnames' : ∀ p ∈ Json.pairs members', ¬ "='".toList <:+: p.1.toList) :
    ∃ text text', expression? (.object members) limit = some text ∧
      expression? (.object members') limit = some text' ∧
      (text = text' ↔ Json.pairs members = Json.pairs members') := by
  refine ⟨_, _, expression?_of_isFlat h hlimit, expression?_of_isFlat h' hlimit, fun heq => ?_, fun heq => ?_⟩
  · have hchars := List.cons.inj (String.ofList_injective heq)
    simp only [Step.chars, List.append_assoc, List.append_cancel_left_eq, Relation.continuations,
      List.append_nil, true_and] at hchars
    exact Predicate.pairs_unique hnames hnames' hchars
  · rw [heq]

/-- A value that looks like an equality more is told from one. -/
theorem expression?_eq_iff_quoted :
    let two := Json.flatMembers "Build" [("a", "x"), ("b", "y")]
    let one := Json.flatMembers "Build" [("a", "x'][@b='y")]
    Json.IsFlat "Build" two ∧ Json.IsFlat "Build" one ∧
      expression? (.object two) defaultRecursionLimit ≠ expression? (.object one) defaultRecursionLimit := by
  intro two one
  have htwo : Json.IsFlat "Build" two := Json.isFlat_flatMembers (by decide) (by decide)
  have hone : Json.IsFlat "Build" one := Json.isFlat_flatMembers (by decide) (by decide)
  have hlimit : 0 < defaultRecursionLimit := by decide
  obtain ⟨text, text', htext, htext', hiff⟩ := expression?_eq_iff htwo hone hlimit (by decide) (by decide)
  have hpairs : Json.pairs two ≠ Json.pairs one := by decide
  refine ⟨htwo, hone, fun heq => hpairs (hiff.1 ?_)⟩
  rwa [htext, htext', Option.some.injEq] at heq

end Example
end QueryByExample
