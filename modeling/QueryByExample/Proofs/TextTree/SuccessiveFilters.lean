/-
Filters one after the other.

A view has other values and other children than the tree it was made from, but
at each node the same name, tags and kind. A selector that looks at nothing else
answers alike on both, so a second filter by such a selector is the same as one
filter by both at once (`filter_filter`), and the laws of conjunction are laws of
filters (`filter_successive`).
-/
import QueryByExample.Proofs.TextTree.Position
import QueryByExample.Proofs.TextTree.Views

namespace QueryByExample

namespace Selector
variable {s s' : Selector Id}

/-- The answer depends on the name, the tags and the kind of a node only. -/
def LooksAtHead (s : Selector Id) : Prop :=
  ∀ x y : TextTree, x.name = y.name → x.tags = y.tags → x.isTerminal = y.isTerminal →
    (s.keep x).run = (s.keep y).run

/-- The selectors made of lists of names. -/
inductive IsOfNames : Selector Id → Prop
  | named (names : List String) : IsOfNames (.named names)
  | and {s s' : Selector Id} : IsOfNames s → IsOfNames s' → IsOfNames (s.and s')
  | or {s s' : Selector Id} : IsOfNames s → IsOfNames s' → IsOfNames (s.or s')

theorem keep_named (names : List String) (x : TextTree) :
    ((Selector.named names : Selector Id).keep x).run = names.contains x.name := rfl

theorem keep_and (s s' : Selector Id) (x : TextTree) :
    ((s.and s').keep x).run = ((s.keep x).run && (s'.keep x).run) := by
  change (if (s.keep x).run = true then (s'.keep x).run else false) = _
  cases (s.keep x).run <;> rfl

theorem keep_or (s s' : Selector Id) (x : TextTree) :
    ((s.or s').keep x).run = ((s.keep x).run || (s'.keep x).run) := by
  change (if (s.keep x).run = true then true else (s'.keep x).run) = _
  cases (s.keep x).run <;> rfl

theorem LooksAtHead.and (h : s.LooksAtHead) (h' : s'.LooksAtHead) : (s.and s').LooksAtHead :=
  fun x y hname htags hkind => by
    rw [keep_and, keep_and, h x y hname htags hkind, h' x y hname htags hkind]

theorem LooksAtHead.or (h : s.LooksAtHead) (h' : s'.LooksAtHead) : (s.or s').LooksAtHead :=
  fun x y hname htags hkind => by
    rw [keep_or, keep_or, h x y hname htags hkind, h' x y hname htags hkind]

theorem IsOfNames.looksAtHead (h : s.IsOfNames) : s.LooksAtHead := by
  induction h with
  | named names => exact fun x y hname _ _ => by rw [keep_named, keep_named, hname]
  | and _ _ ih ih' => exact ih.and ih'
  | or _ _ ih ih' => exact ih.or ih'

theorem LooksAtHead.keep_filter (h : s'.LooksAtHead) (s : Selector Id) (x : TextTree) :
    (s'.keep (x.filter s)).run = (s'.keep x).run :=
  h (x.filter s) x (x.name_filter s) (x.tags_filter s) (x.isTerminal_filter s)

end Selector

namespace TextTree
variable {s s' : Selector Id}

/-- Only the answers of a selector count. -/
theorem filter_congr (h : ∀ x, (s.keep x).run = (s'.keep x).run) (t : TextTree) : t.filter s = t.filter s' := by
  induction t using inductionOnChildren with
  | terminal => rfl
  | container name tags children ih =>
    rw [filter_container, filter_container, List.filter_congr fun child _ => h child]
    congr 1
    exact List.map_congr_left fun child hchild => ih child (List.mem_filter.1 hchild).1

/-- The second filter drops from the view what it would drop from the tree. -/
theorem filter_filter (h' : s'.LooksAtHead) (t : TextTree) : (t.filter s).filter s' = t.filter (s.and s') := by
  induction t using inductionOnChildren with
  | terminal => rfl
  | container name tags children ih =>
    have hkept : (fun child => (s'.keep child).run) ∘ (·.filter s) = fun child => (s'.keep child).run :=
      funext (h'.keep_filter s)
    rw [filter_container, filter_container, filter_container, List.filter_map, hkept, List.filter_filter, List.map_map]
    simp only [Selector.keep_and, Bool.and_comm]
    congr 1
    exact List.map_congr_left fun child hchild => ih child (List.mem_filter.1 hchild).1

/-- **Filters compose.** For selectors that look at names, tags and kinds only,
a filter after a filter is the filter by both selectors: the two views are the same
tree, in what is written of it as in the value of every node. So the order of two
filters does not matter, the same filter again drops nothing more, and a filter by
names after another is the filter by the names that both have. Lists of names and
whatever is made of them by conjunction and disjunction are such selectors. -/
theorem filter_successive (h : s.LooksAtHead) (h' : s'.LooksAtHead) (t : TextTree) :
    (t.filter s).filter s' = t.filter (s.and s') ∧
    (t.filter s).filter s' = (t.filter s').filter s ∧
    (t.filter s).filter s = t.filter s ∧
    (∀ names names' : List String, (t.filter (.named names)).filter (.named names') =
      t.filter (.named (names.filter fun name => names'.contains name))) ∧
    ∀ r : Selector Id, r.IsOfNames → r.LooksAtHead := by
  refine ⟨filter_filter h' t, ?_, ?_, fun names names' => ?_, fun r => Selector.IsOfNames.looksAtHead⟩
  · rw [filter_filter h', filter_filter h]
    exact filter_congr (fun x => by rw [Selector.keep_and, Selector.keep_and, Bool.and_comm]) t
  · rw [filter_filter h]
    exact filter_congr (fun x => by rw [Selector.keep_and, Bool.and_self]) t
  · rw [filter_filter (Selector.IsOfNames.named names').looksAtHead]
    refine filter_congr (fun x => ?_) t
    rw [Selector.keep_and, Selector.keep_named, Selector.keep_named, Selector.keep_named, Bool.eq_iff_iff]
    simp [List.mem_filter]

/-- A filter by names and one by kind, on a call with a comment in it. -/
theorem filter_successive_call :
    let unnoted : Selector Id := .named ["call", "callee", "name", "args"]
    let texts : Selector Id := .or (.named ["callee"]) ⟨"terminal", fun node => pure node.isTerminal⟩
    let call := container "call" [] [.container "callee" [] [.terminal "name" "run" []],
      .container "args" [] [.terminal "args" "()" []], .terminal "comment" "/* hi */" []]
    unnoted.LooksAtHead ∧ texts.LooksAtHead ∧
    (call.filter unnoted).filter texts = call.filter (unnoted.and texts) ∧
    (call.filter unnoted).filter texts = (call.filter texts).filter unnoted ∧
    ((call.filter unnoted).filter texts).value = "run" := by
  intro unnoted texts call
  have hnames : unnoted.LooksAtHead := (Selector.IsOfNames.named _).looksAtHead
  have htexts : texts.LooksAtHead := (Selector.IsOfNames.named _).looksAtHead.or fun _ _ _ _ hkind => hkind
  have hfilters := filter_successive hnames htexts call
  exact ⟨hnames, htexts, hfilters.1, hfilters.2.1, by decide⟩

end TextTree
end QueryByExample
