import SqlClause.Proofs.Streaming

/-!
The shape of a clause at its top level.

A query holds something as soon as a chain has been ended, and for ever after, so that its clause,
its values and its pieces are empty at the same time (`isEmpty_applyAll_iff`).  The text of a group
has a question mark in it and so is no connective.  The first piece is a group in every run.  A word
is put only behind a group if no chain is given up, and a group only behind a word if every chain
but the first has a word, and then the two take turns (`top_level_shape`).
-/

namespace SqlClause

/-- The operation makes a group part of the query. -/
def Operation.EndsChain : Operation → Prop
  | .chain .. => True
  | _ => False

/-! ## Emptiness -/

theorem Chain.predicates_ne_nil : (c : Chain .afterPredicate) → c.predicates ≠ []
  | .predicate c p => List.append_ne_nil_of_right_ne_nil _ (List.cons_ne_nil p [])
  | .closeBracket c => c.predicates_ne_nil

theorem Operation.predicates_eq_nil_iff (op : Operation) : op.predicates = [] ↔ ¬op.EndsChain := by
  cases op with
  | chain opening steps closing => exact iff_of_false steps.predicates_ne_nil (not_not_intro trivial)
  | _ => exact iff_of_true rfl not_false

namespace Query

theorem isEmpty_apply_iff (q : Query) (op : Operation) :
    (q.apply op).isEmpty ↔ q.isEmpty ∧ ¬op.EndsChain := by
  cases op with
  | chain opening steps closing =>
    have hflush : (q.apply (.chain opening steps closing)).isEmpty = false :=
      (q.begin opening).isEmpty_append (.group (closing.wrap steps.group.text))
    simp [hflush, Operation.EndsChain]
  | abandoned opening steps =>
    have hbegin : (q.apply (.abandoned opening steps)).isEmpty = q.isEmpty := q.isEmpty_begin opening
    simp [hbegin, Operation.EndsChain]
  | regroup =>
    have hregroup : (q.apply .regroup).isEmpty = q.isEmpty := q.isEmpty_regroup
    simp [hregroup, Operation.EndsChain]
  | sort key => exact (and_iff_left not_false).symm
  | limit n => exact (and_iff_left not_false).symm

theorem isEmpty_applyAll_iff (q : Query) (operations : List Operation) :
    (q.applyAll operations).isEmpty ↔ q.isEmpty ∧ ∀ op ∈ operations, ¬op.EndsChain := by
  induction operations generalizing q with
  | nil => simp [applyAll]
  | cons op rest ih =>
    show ((q.apply op).applyAll rest).isEmpty ↔ _
    rw [ih, isEmpty_apply_iff, List.forall_mem_cons, and_assoc]

end Query

theorem values_eq_nil_iff (operations : List Operation) :
    (Query.empty.applyAll operations).values = [] ↔ ∀ op ∈ operations, ¬op.EndsChain := by
  rw [values_applyAll, List.map_eq_nil_iff, List.flatMap_eq_nil_iff]
  simp only [Operation.predicates_eq_nil_iff]

/-! ## Groups and words -/

namespace Fragment

/-- The text of the piece is a connective and nothing else. -/
def IsKeyword (f : Fragment) : Prop := f.text = "AND" ∨ f.text = "OR"

theorem isKeyword_word : (word : Connective) → (Fragment.word word).IsKeyword
  | .and => .inl rfl
  | .or => .inr rfl

theorem not_isKeyword_of_mark {f : Fragment} (h : Placeholder.mark ∈ f.text.toList) :
    ¬f.IsKeyword := by
  rintro (hword | hword)
  · rw [hword] at h
    exact absurd h (by decide)
  · rw [hword] at h
    exact absurd h (by decide)

end Fragment

theorem Chain.mark_mem_wrap (c : Chain .afterPredicate) (closing : Closing) :
    Placeholder.mark ∈ (closing.wrap c.group.text).toList := by
  have hmark : Placeholder.mark ∈ c.group.text.toList := c.text_group ▸ c.mark_mem_rendered
  cases closing with
  | plain => exact hmark
  | bracketed =>
    show _ ∈ ("(" ++ c.group.text ++ ")").toList
    rw [toList_bracketed]
    simp [hmark]

/-- Pieces take turns: groups come first and last, and neighbours are of two kinds. -/
structure Alternates (fragments : List Fragment) : Prop where
  first : ∀ f ∈ fragments.head?, ¬f.IsKeyword
  last : ∀ f ∈ fragments.getLast?, ¬f.IsKeyword
  turns : fragments.IsChain fun a b => a.IsKeyword ↔ ¬b.IsKeyword

namespace Alternates

theorem nil : Alternates [] := ⟨nofun, nofun, List.isChain_nil⟩

theorem singleton {f : Fragment} (hf : ¬f.IsKeyword) : Alternates [f] := by
  refine ⟨?_, ?_, List.isChain_singleton f⟩
  · intro g hg
    cases hg
    exact hf
  · intro g hg
    cases hg
    exact hf

theorem append {fragments : List Fragment} (h : Alternates fragments) (hne : fragments ≠ [])
    (word : Connective) {f : Fragment} (hf : ¬f.IsKeyword) :
    Alternates (fragments ++ [.word word, f]) := by
  refine ⟨?_, ?_, List.isChain_append.mpr ⟨h.turns, ?_, ?_⟩⟩
  · intro g hg
    rw [List.head?_append_of_ne_nil _ hne] at hg
    exact h.first g hg
  · intro g hg
    rw [List.getLast?_append] at hg
    cases hg
    exact hf
  · exact List.isChain_pair.mpr (iff_of_true (Fragment.isKeyword_word word) hf)
  · intro a ha b hb
    cases hb
    exact iff_of_false (h.last a ha) (not_not_intro (Fragment.isKeyword_word word))

end Alternates

/-! ## Steps and runs -/

namespace Query

/-- The first piece has a question mark. -/
def Led (q : Query) : Prop := ∀ f ∈ q.fragments.head?, Placeholder.mark ∈ f.text.toList

variable {q : Query}

theorem Led.append (h : q.Led) (hempty : ¬q.isEmpty) (f : Fragment) :
    Led { q with fragments := q.fragments ++ [f] } := by
  have hne : q.fragments ≠ [] := mt List.isEmpty_iff.mpr hempty
  intro g hg
  rw [List.head?_append_of_ne_nil _ hne] at hg
  exact h g hg

theorem Led.mark_mem_clause (h : q.Led) (hempty : ¬q.isEmpty) :
    Placeholder.mark ∈ q.clause.toList := by
  obtain ⟨f, rest, hq⟩ := List.exists_cons_of_ne_nil (mt List.isEmpty_iff.mpr hempty)
  have hf : Placeholder.mark ∈ f.text.toList := h f (by rw [hq]; rfl)
  rw [clause, hq, List.map_cons, String.toList_intercalate]
  cases rest with
  | nil => simpa using hf
  | cons g rest => simp [hf]

theorem Led.mark_mem_group (h : q.Led) (hempty : ¬q.isEmpty) :
    Placeholder.mark ∈ ("(" ++ q.clause ++ ")").toList := by
  have hmark := h.mark_mem_clause hempty
  rw [toList_bracketed]
  simp [hmark]

theorem Led.regroup (h : q.Led) : q.regroup.Led := by
  unfold Query.regroup
  by_cases hempty : q.isEmpty
  · rw [if_pos hempty]
    exact h
  · rw [if_neg hempty]
    intro f hf
    cases hf
    exact h.mark_mem_group hempty

theorem Led.pushWord (h : q.Led) (word : Connective) : (q.pushWord word).Led := by
  unfold Query.pushWord
  by_cases hempty : q.isEmpty
  · rw [if_pos hempty]
    exact h
  · rw [if_neg hempty]
    exact h.append hempty (.word word)

theorem Led.begin (h : q.Led) (opening : Opening) : (q.begin opening).Led := by
  cases opening with
  | bare => exact h
  | joined word => exact h.pushWord word
  | regrouped word => exact h.regroup.pushWord word

theorem Led.flush (h : q.Led) (steps : Chain .afterPredicate) (closing : Closing) :
    (q.flush steps.group closing).Led := by
  by_cases hempty : q.isEmpty
  · intro f hf
    have hnil : q.fragments = [] := List.isEmpty_iff.mp hempty
    have hfirst : f ∈ (q.fragments ++ [Fragment.group _]).head? := hf
    rw [hnil] at hfirst
    cases hfirst
    exact steps.mark_mem_wrap closing
  · exact h.append hempty _

theorem Led.apply (h : q.Led) (op : Operation) : (q.apply op).Led := by
  cases op with
  | chain opening steps closing => exact (h.begin opening).flush steps closing
  | abandoned opening steps => exact h.begin opening
  | regroup => exact h.regroup
  | sort key => exact h
  | limit n => exact h

theorem Led.applyAll (h : q.Led) (operations : List Operation) : (q.applyAll operations).Led := by
  induction operations generalizing q with
  | nil => exact h
  | cons op rest ih => exact ih (h.apply op)

end Query

/-- No chain is given up, and a chain without a word comes first. -/
def Operation.Orderly (q : Query) : Operation → Prop
  | .chain .bare _ _ => q.isEmpty
  | .abandoned .. => False
  | _ => True

def Query.Orderly : Query → List Operation → Prop
  | _, [] => True
  | q, op :: rest => op.Orderly q ∧ (q.apply op).Orderly rest

namespace Query

variable {q : Query}

theorem alternates_regroup (h : Alternates q.fragments) (hled : q.Led) :
    Alternates q.regroup.fragments := by
  unfold regroup
  by_cases hempty : q.isEmpty
  · rw [if_pos hempty]
    exact h
  · rw [if_neg hempty]
    exact .singleton (Fragment.not_isKeyword_of_mark (hled.mark_mem_group hempty))

theorem alternates_joined (h : Alternates q.fragments) (word : Connective)
    (steps : Chain .afterPredicate) (closing : Closing) :
    Alternates ((q.pushWord word).flush steps.group closing).fragments := by
  have hgroup : ¬(Fragment.group (closing.wrap steps.group.text)).IsKeyword :=
    Fragment.not_isKeyword_of_mark (steps.mark_mem_wrap closing)
  by_cases hempty : q.isEmpty
  · have hnil : q.fragments = [] := List.isEmpty_iff.mp hempty
    rw [pushWord, if_pos hempty]
    show Alternates (q.fragments ++ _)
    rw [hnil]
    exact .singleton hgroup
  · have hne : q.fragments ≠ [] := mt List.isEmpty_iff.mpr hempty
    rw [pushWord, if_neg hempty]
    show Alternates (q.fragments ++ [.word word] ++ [Fragment.group _])
    rw [List.append_assoc]
    exact h.append hne word hgroup

theorem alternates_apply (h : Alternates q.fragments) (hled : q.Led) {op : Operation}
    (hop : op.Orderly q) : Alternates (q.apply op).fragments := by
  cases op with
  | chain opening steps closing =>
    cases opening with
    | bare =>
      have hnil : q.fragments = [] := List.isEmpty_iff.mp hop
      show Alternates (q.fragments ++ _)
      rw [hnil]
      exact .singleton (Fragment.not_isKeyword_of_mark (steps.mark_mem_wrap closing))
    | joined word => exact alternates_joined h word steps closing
    | regrouped word => exact alternates_joined (alternates_regroup h hled) word steps closing
  | abandoned opening steps => exact hop.elim
  | regroup => exact alternates_regroup h hled
  | sort key => exact h
  | limit n => exact h

theorem alternates_applyAll {operations : List Operation} (h : Alternates q.fragments)
    (hled : q.Led) (hops : q.Orderly operations) :
    Alternates (q.applyAll operations).fragments := by
  induction operations generalizing q with
  | nil => exact h
  | cons op rest ih => exact ih (alternates_apply h hled hops.1) (hled.apply op) hops.2

end Query

/-- A query is empty in every respect until a chain is ended, and its first piece never is a bare
word.  If no chain is given up and none but the first group comes without a word, groups and words
take turns. -/
theorem top_level_shape (operations : List Operation) :
    let q := Query.empty.applyAll operations
    (q.isEmpty ↔ q.clause = "") ∧ (q.isEmpty ↔ q.values = []) ∧
      (q.isEmpty ↔ ∀ op ∈ operations, ¬op.EndsChain) ∧
      (∀ f ∈ q.fragments.head?, ¬f.IsKeyword) ∧
      (Query.empty.Orderly operations → Alternates q.fragments) := by
  intro q
  have hstream : q.Streams (operations.foldl Stream.apply "") :=
    Query.streams_applyAll operations
  have hended : q.isEmpty ↔ ∀ op ∈ operations, ¬op.EndsChain :=
    (Query.isEmpty_applyAll_iff _ operations).trans (and_iff_right rfl)
  have hstart : Query.empty.Led := nofun
  refine ⟨?_, hended.trans (values_eq_nil_iff operations).symm, hended, ?_, ?_⟩
  · rw [hstream.isEmpty_iff, hstream.clause_eq]
  · intro f hf
    exact Fragment.not_isKeyword_of_mark (hstart.applyAll operations f hf)
  · exact fun hops => Query.alternates_applyAll .nil hstart hops

def filterRun : List Operation :=
  [.regroup,
    .chain (.regrouped .and) (.predicate .start ⟨⟨"a"⟩, .isIn, .list []⟩) .plain,
    .limit 20,
    .chain (.joined .or) (.closeBracket (.predicate .start ⟨⟨"b"⟩, .eq, .null⟩)) .bracketed,
    .chain (.regrouped .and) (.predicate .start ⟨⟨"c"⟩, .contains, .text "AND"⟩) .plain]

/-- The last chain regroups two groups that are there. -/
theorem top_level_shape_filterRun :
    let q := Query.empty.applyAll filterRun
    Query.empty.Orderly filterRun ∧
      q.fragments = [.group "(a IN (?) OR (b = ?)))", .word .and, .group "c LIKE ?"] ∧
      (q.isEmpty ↔ q.values = []) ∧ Alternates q.fragments := by
  intro q
  have hops : Query.empty.Orderly filterRun := ⟨trivial, trivial, trivial, trivial, trivial, trivial⟩
  obtain ⟨-, hvalues, -, -, halternates⟩ := top_level_shape filterRun
  exact ⟨hops, rfl, hvalues, halternates hops⟩

end SqlClause
