/-
Integers in examples.

An integer of an example stands in the path expression by its digits, as far
as 64 signed bits hold it; beyond them it stands there by the digits of the
nearest double. So the expression tells the integer up to this rounding
(`textExpression?_integers`), and large identifiers can get lost
(`textExpression?_rounded`).
-/
import QueryByExample.Proofs.Example.Flat
import QueryByExample.Proofs.Example.Gaps
import QueryByExample.Proofs.Json.Integers

namespace QueryByExample
open Json (IsExact)

/-- Signs and digits need no escapes. -/
theorem Predicate.onStep_ofInt {n : Int} (hn : IsExact n) (name : String) :
    (Predicate.equals name (.ofInt n)).written.onStep =
      "[@".toList ++ name.toList ++ "='".toList ++ (Scalar.ofInt n).text ++ "']".toList := by
  have hescaped : (Scalar.ofInt n).text.flatMap (fun c => if c = '\'' ∨ c = '\\' then ['\\', c] else [c]) =
      (Scalar.ofInt n).text := by
    refine Eq.trans (List.flatMap_congr fun c hc => if_neg ?_) (List.flatMap_singleton' _)
    rintro (rfl | rfl)
    all_goals exact absurd (Scalar.mem_text_ofInt hn hc) (by decide)
  rw [Predicate.written, PredicateText.equals, hescaped]
  simp [PredicateText.bracketed]

/-- How an integer that 64 bits hold, signed or not, stands in a path
expression. -/
theorem Scalar.text_ofInt {n : Int} (hn : IsExact n) : (ofInt n).text =
    if n ≤ Int64.maxValue.toInt then Decimal.integer n else (Binary64.nearest false n.toNat 0).write .plain := by
  split
  next hle => exact text_ofInt_of_le hn hle
  next hlt => rw [ofInt_of_lt (Int.not_le.1 hlt), text]

/-- A text that is read as the value with this integer in the gap, where of
repeated keys the last counts. -/
def Json.Context.Spells (c : Context) (n : Int) (text : String) : Prop :=
  (Json.read? text).map Json.lastWins = some (c.fill (.int n))

theorem Json.Context.Spells.hasDistinctKeys {c : Context} {n : Int} {text : String} (h : c.Spells n text) :
    (c.fill (.int n)).hasDistinctKeys = true := by
  obtain ⟨v, -, hfill⟩ := Option.map_eq_some_iff.1 h
  exact hfill ▸ Json.hasDistinctKeys_lastWins v

/-- A text that is read as the value, where no key comes twice in it. -/
theorem Json.Context.spells_of_read? {c : Context} {n : Int} {text : String}
    (hread : read? text = some (c.fill (.int n))) (hkeys : (c.fill (.int n)).hasDistinctKeys = true) :
    c.Spells n text := by
  rw [Spells, hread, Option.map_some, lastWins_eq_self _ hkeys]

namespace Example

/-- The path expression of the example in a JSON text. -/
def textExpression? (text : String) (limit : Nat) : Option String :=
  match read text with
  | .error _ => none
  | .ok e =>
    match e.compile limit with
    | .error _ => none
    | .ok b => some b.step.expression

section Spells
variable {c : Json.Context} {limit : Nat}

theorem textExpression?_of_spells {n : Int} {text : String} (h : c.Spells n text) (limit : Nat) :
    textExpression? text limit = expression? (c.fill (.int n)) limit := by
  obtain ⟨v, hv, hfill⟩ := Option.map_eq_some_iff.1 h
  rw [textExpression?, read, hv, ← hfill, expression?]
  dsimp only
  cases ofJson v.lastWins <;> rfl

theorem expression?_eq_some {v : Json} {limit : Nat} {expression : String}
    (h : expression? v limit = some expression) :
    ∃ e b, ofJson v = .ok e ∧ e.compile limit = .ok b ∧ expression = b.step.expression := by
  rw [expression?] at h
  split at h
  · cases h
  next e hread =>
    split at h
    · cases h
    next b hcompile => exact ⟨e, b, hread, hcompile, (Option.some.inj h).symm⟩

/-- Around the equality for the integer the expressions are the same for all
integers. -/
theorem exists_around_integer (h : c.isStored = true) (limit : Nat) : ∃ before after, ∀ n, IsExact n →
    ∀ text, c.Spells n text → ∀ expression, textExpression? text limit = some expression →
      expression.toList = before ++ ("[@".toList ++ (c.key "").toList ++ "='".toList ++ (Scalar.ofInt n).text ++
        "']".toList) ++ after := by
  obtain ⟨before, after, hvaries⟩ := variesOnlyAt_of_fill h
  refine ⟨'/' :: before, after, fun n hn text htext expression hexpression => ?_⟩
  rw [textExpression?_of_spells htext] at hexpression
  obtain ⟨e, b, hread, hcompile, rfl⟩ := expression?_eq_some hexpression
  rw [Step.expression, String.toList_ofList, hvaries _ _ e limit b rfl htext.hasDistinctKeys hread hcompile,
    Predicate.onStep_ofInt hn]
  simp only [List.cons_append]

end Spells

/-- Beyond 64 signed bits two integers can give the same expression, with the
digits of neither. -/
theorem textExpression?_rounded :
    let id : Json.Context := .member [("nodeTags", .string "Build")] "id" .hole []
    let largest := "\x7b\"nodeTags\": \"Build\", \"id\": 18446744073709551615\x7d"
    let other := "\x7b\"nodeTags\": \"Build\", \"id\": 18446744073709551614\x7d"
    (id.isStored = true ∧ IsExact 18446744073709551615 ∧ IsExact 18446744073709551614 ∧
      id.Spells 18446744073709551615 largest ∧ id.Spells 18446744073709551614 other) ∧
      textExpression? largest defaultRecursionLimit = some "/Build()[@id='18446744073709552000']" ∧
      textExpression? other defaultRecursionLimit = some "/Build()[@id='18446744073709552000']" := by
  intro id largest other
  have hlargest : id.Spells 18446744073709551615 largest :=
    Json.Context.spells_of_read? (by unfold largest; rfl) (by decide)
  have hother : id.Spells 18446744073709551614 other :=
    Json.Context.spells_of_read? (by unfold other; rfl) (by decide)
  refine ⟨⟨rfl, by decide, by decide, hlargest, hother⟩, ?_, ?_⟩
  · rw [textExpression?_of_spells hlargest]
    decide +kernel
  · rw [textExpression?_of_spells hother]
    decide +kernel

/-- **Integers keep their digits**, as far as 64 signed bits hold them. Digits
are read as the integer that they are. When a text gives an example with an
integer in a property of a stored node, then its path expression has an
equality for the integer, and the same text around it for every integer; the
value is the digits of the integer, or beyond 64 signed bits those of the
nearest double. So two such expressions are equal only if the integers are, or
both are beyond 64 signed bits and near the same double. -/
theorem textExpression?_integers {c : Json.Context} (h : c.isStored = true) (limit : Nat) :
    (∀ n, IsExact n → ∀ depth rest, Json.EndsNumber rest →
        Json.value? depth (Decimal.integer n ++ rest) = some (.int n, rest)) ∧
      (∃ before after, ∀ n, IsExact n → ∀ text, c.Spells n text →
        ∀ expression, textExpression? text limit = some expression →
          expression.toList = before ++ ("[@".toList ++ (c.key "").toList ++ "='".toList ++
            (if n ≤ Int64.maxValue.toInt then Decimal.integer n
              else (Binary64.nearest false n.toNat 0).write .plain) ++ "']".toList) ++ after) ∧
      ∀ n m, IsExact n → IsExact m → ∀ text text', c.Spells n text → c.Spells m text' →
        ∀ expression expression', textExpression? text limit = some expression →
          textExpression? text' limit = some expression' →
          (expression = expression' ↔ n = m ∨ Int64.maxValue.toInt < n ∧ Int64.maxValue.toInt < m ∧
            Binary64.nearest false n.toNat 0 = Binary64.nearest false m.toNat 0) := by
  obtain ⟨before, after, haround⟩ := exists_around_integer h limit
  refine ⟨fun n hn depth rest hrest => Json.value?_integer depth hn hrest, ⟨before, after, ?_⟩, ?_⟩
  · intro n hn
    rw [← Scalar.text_ofInt hn]
    exact haround n hn
  · intro n m hn hm text text' htext htext' expression expression' hexpression hexpression'
    rw [← Scalar.text_ofInt_eq_iff hn hm, ← String.toList_inj, haround n hn text htext expression hexpression,
      haround m hm text' htext' expression' hexpression']
    simp only [List.append_assoc, List.append_cancel_left_eq, List.append_cancel_right_eq]

/-- A run of a marked job, in a list in a list of runs. -/
def buildRun : Json.Context :=
  .member [("nodeTags", .string "Build")] "job" (.member [("$match", .bool true), ("nodeTags", .string "Job")] "runs"
    (.item [] (.item [.null] .hole []) [.string "x"]) []) []

def buildRunText (digits : String) : String :=
  "\x7b\"nodeTags\":\"Build\",\"job\":\x7b\"$match\":true,\"nodeTags\":\"Job\",\"runs\":[[null," ++
    digits ++ "],\"x\"]\x7d\x7d"

/-- An integer between two doubles is not confused with its neighbour. -/
theorem textExpression?_integers_buildRun :
    let text := buildRunText "9007199254740993"
    let other := buildRunText "9007199254740992"
    buildRun.isStored = true ∧
      (IsExact 9007199254740993 ∧ buildRun.Spells 9007199254740993 text) ∧
      (IsExact 9007199254740992 ∧ buildRun.Spells 9007199254740992 other) ∧
      textExpression? text defaultRecursionLimit =
        some "/Build()/job::Job()[@runs='9007199254740993'][@runs='x']" ∧
      (textExpression? other defaultRecursionLimit).isSome = true ∧
      textExpression? text defaultRecursionLimit ≠ textExpression? other defaultRecursionLimit := by
  intro text other
  have hstored : buildRun.isStored = true := by decide
  have hexact : IsExact 9007199254740993 := by decide
  have hexact' : IsExact 9007199254740992 := by decide
  have hspells : buildRun.Spells 9007199254740993 text :=
    Json.Context.spells_of_read? (by unfold text; rfl) (by decide)
  have hspells' : buildRun.Spells 9007199254740992 other :=
    Json.Context.spells_of_read? (by unfold other; rfl) (by decide)
  have htext : textExpression? text defaultRecursionLimit =
      some "/Build()/job::Job()[@runs='9007199254740993'][@runs='x']" := by
    rw [textExpression?_of_spells hspells]
    decide +kernel
  have hother : (textExpression? other defaultRecursionLimit).isSome = true := by
    rw [textExpression?_of_spells hspells']
    decide +kernel
  obtain ⟨-, -, hiff⟩ := textExpression?_integers hstored defaultRecursionLimit
  refine ⟨hstored, ⟨hexact, hspells⟩, ⟨hexact', hspells'⟩, htext, hother, fun heq => ?_⟩
  have hsame := hiff _ _ hexact hexact' text other hspells hspells' _ _ htext (heq ▸ htext)
  obtain h | ⟨h, -⟩ := hsame.1 rfl
  · exact absurd h (by decide)
  · exact absurd h (by decide)

end Example
end QueryByExample
