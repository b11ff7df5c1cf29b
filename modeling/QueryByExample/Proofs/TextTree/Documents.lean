/-
Trees in a text and in a value.

A tree is in a text when the text is one document whose value, with its
repeated keys and all, has the shape of a tree. No shape has a repeated key
(`IsTree.hasDistinctKeys`), so settling the repetitions first only reads more:
a text holds a tree exactly when it repeats no key and the tree is in the
settled value (`read_iff_ofJson`).
-/
import QueryByExample.Proofs.Json.Keys
import QueryByExample.Proofs.TextTree.Respelling

namespace QueryByExample

namespace Json

/-- A value of the right shape, with nothing after it, is what a document of
this shape holds. -/
theorem readAs_eq_ok_iff {α : Type} {type : String} {ofJson? : Json → Option α} {text : String} {a : α} :
    readAs type ofJson? text = .ok a ↔ ∃ v, read? text = some v ∧ ofJson? v = some a := by
  rw [readAs, read?, readWithin?, readFirst?]
  cases value? nestingLimit text.toList with
  | none => simp
  | some found =>
    obtain ⟨v, rest⟩ := found
    cases hend : isEnd rest <;> cases hread : ofJson? v <;> simp [hend, hread]

end Json

namespace TextTree

/-- Tags are strings, so they hold no object. -/
theorem hasDistinctKeys_of_mem_tagsItem {tags : Option (List String)} {item : Json} (h : item ∈ tagsItem tags) :
    item.hasDistinctKeys = true := by
  cases tags with
  | none => cases h
  | some tags =>
    obtain rfl : item = .array (tags.map .string) := List.mem_singleton.1 h
    rw [Json.hasDistinctKeys, Json.allDistinctKeys_iff, List.forall_mem_map]
    exact fun _ _ => rfl

theorem TerminalForm.hasDistinctKeys {name value : String} {tags : Option (List String)} {v : Json}
    (h : TerminalForm name value tags v) : v.hasDistinctKeys = true := by
  have htags : ∀ item ∈ tagsItem tags, item.hasDistinctKeys = true := fun _ => hasDistinctKeys_of_mem_tagsItem
  cases h with
  | object hperm =>
    rw [Json.hasDistinctKeys_perm hperm, Json.hasDistinctKeys_object_iff, Json.membersDistinctKeys_iff]
    constructor
    · cases tags <;> simp [tagsMember, tagsItem]
    · simpa [tagsMember, Json.hasDistinctKeys] using htags
  | array =>
    rw [Json.hasDistinctKeys, Json.allDistinctKeys_iff]
    simpa [Json.hasDistinctKeys] using htags

theorem ContainerForm.hasDistinctKeys {name : String} {children : Option (List Json)} {tags : Option (List String)}
    {v : Json} (h : ContainerForm name children tags v)
    (hchildren : ∀ child ∈ children.getD [], child.hasDistinctKeys = true) : v.hasDistinctKeys = true := by
  have htags : ∀ item ∈ tagsItem tags, item.hasDistinctKeys = true := fun _ => hasDistinctKeys_of_mem_tagsItem
  cases h with
  | object hperm =>
    rw [Json.hasDistinctKeys_perm hperm, Json.hasDistinctKeys_object_iff, Json.membersDistinctKeys_iff]
    constructor
    · cases children <;> cases tags <;> simp [childrenMember, tagsMember, tagsItem]
    · cases children with
      | none => simpa [childrenMember, tagsMember, Json.hasDistinctKeys] using htags
      | some children =>
        have hitems := (Json.allDistinctKeys_iff children).2 hchildren
        simpa [childrenMember, tagsMember, Json.hasDistinctKeys, hitems] using htags
  | name => rfl
  | array =>
    have hitems := (Json.allDistinctKeys_iff _).2 hchildren
    rw [Option.getD_some] at hitems
    rw [Json.hasDistinctKeys, Json.allDistinctKeys_iff]
    simpa [Json.hasDistinctKeys, hitems] using htags

/-- A tree has its keys once each, in itself and in its children. -/
theorem IsTree.hasDistinctKeys {v : Json} (h : IsTree v) : v.hasDistinctKeys = true := by
  induction h with
  | terminal hform => exact hform.hasDistinctKeys
  | container hform _ ih => exact hform.hasDistinctKeys ih

/-- **A tree is read from a text as from its value.** A text holds a tree
exactly when it is one document, nothing following it and nested no deeper
than documents may be, in which no object repeats a key, and the tree is what
is read from its value once repeated keys are settled. Settling leaves such a
value as it is; where a key is repeated, be it in a part that a later member
replaces, no tree is read from the text, whatever the settled value holds. -/
theorem read_iff_ofJson (text : String) (t : TextTree) :
    read text = .ok t ↔
      ∃ v, Json.read? text = some v ∧ v.hasDistinctKeys = true ∧ ofJson v.lastWins = .ok t := by
  simp only [read, Json.readAs_eq_ok_iff, ofJson_ok_iff]
  refine exists_congr fun v => and_congr_right fun _ => ?_
  constructor
  · intro h
    have hkeys : v.hasDistinctKeys = true := (exists_ofJson?_iff.1 ⟨t, h⟩).hasDistinctKeys
    rw [Json.lastWins_eq_self v hkeys]
    exact ⟨hkeys, h⟩
  · rintro ⟨hkeys, h⟩
    rwa [Json.lastWins_eq_self v hkeys] at h

end TextTree
end QueryByExample
