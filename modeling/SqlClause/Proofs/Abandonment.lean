import SqlClause.Proofs.Streaming

/-!
What a chain that is given up leaves behind.

Its steps were made on a group of its own and are gone with it.  Its start was made on the query
at once and stays: the brackets of a regrouping and the word, on a query that holds something
(`abandoned_unchanged_iff`).  The word then has nothing behind it, and the next chain puts its own
word there.
-/

namespace SqlClause

namespace Query

variable (q : Query)

theorem exists_regroup_eq : ∃ fragments, q.regroup = { q with fragments } := by
  unfold regroup
  by_cases h : q.isEmpty
  · exact ⟨q.fragments, if_pos h⟩
  · exact ⟨_, if_neg h⟩

theorem exists_pushWord_eq (word : Connective) :
    ∃ fragments, q.pushWord word = { q with fragments } := by
  unfold pushWord
  by_cases h : q.isEmpty
  · exact ⟨q.fragments, if_pos h⟩
  · exact ⟨_, if_neg h⟩

/-- The start of a chain changes the pieces of the clause alone. -/
theorem exists_begin_eq (opening : Opening) :
    ∃ fragments, q.begin opening = { q with fragments } := by
  cases opening with
  | bare => exact ⟨q.fragments, rfl⟩
  | joined word => exact q.exists_pushWord_eq word
  | regrouped word =>
    obtain ⟨grouped, hgrouped⟩ := q.exists_regroup_eq
    obtain ⟨fragments, hword⟩ := q.regroup.exists_pushWord_eq word
    refine ⟨fragments, hword.trans ?_⟩
    rw [hgrouped]

end Query

namespace Stream

theorem length_le_regroup (w : String) : w.length ≤ (regroup w).length := by
  unfold regroup
  by_cases h : w = ""
  · rw [if_pos h]
  · rw [if_neg h]
    simp only [String.length_append]
    omega

theorem regroup_eq_empty_iff (w : String) : regroup w = "" ↔ w = "" := by
  unfold regroup
  by_cases h : w = ""
  · rw [if_pos h]
  · rw [if_neg h]
    simp [h]

theorem length_lt_pushWord {w : String} (h : w ≠ "") (word : Connective) :
    w.length < (pushWord w word).length := by
  rw [pushWord_eq, if_neg h]
  simp only [String.length_append]
  have : " ".length = 1 := rfl
  omega

theorem length_lt_begin {w : String} (h : w ≠ "") :
    (opening : Opening) → opening ≠ .bare → w.length < (begin w opening).length
  | .bare, hbare => absurd rfl hbare
  | .joined word, _ => length_lt_pushWord h word
  | .regrouped word, _ =>
    have hregroup : regroup w ≠ "" := mt (regroup_eq_empty_iff w).mp h
    Nat.lt_of_le_of_lt (length_le_regroup w) (length_lt_pushWord hregroup word)

/-- Where there is text, a start with a word adds to it. -/
theorem begin_eq_iff (w : String) (opening : Opening) :
    begin w opening = w ↔ w = "" ∨ opening = .bare := by
  constructor
  · intro heq
    by_contra h
    have hlt := length_lt_begin (fun hw => h (.inl hw)) opening (fun hbare => h (.inr hbare))
    rw [heq] at hlt
    exact Nat.lt_irrefl _ hlt
  · rintro (rfl | rfl)
    · cases opening <;> rfl
    · rfl

end Stream

/-- A chain that is given up changes nothing but the clause, and that only if it was to be joined
to something. -/
theorem abandoned_unchanged_iff (operations : List Operation) (opening : Opening) {place : Place}
    (steps : Chain place) :
    let q := Query.empty.applyAll operations
    let after := q.apply (.abandoned opening steps)
    (after.values = q.values ∧ after.isEmpty = q.isEmpty ∧ after.order = q.order ∧
      after.limit = q.limit) ∧
    after.clause = Stream.begin q.clause opening ∧
    (after.clause = q.clause ↔ q.isEmpty ∨ opening = .bare) := by
  intro q after
  obtain ⟨fragments, hfields⟩ : ∃ fragments, after = { q with fragments } :=
    q.exists_begin_eq opening
  have hstream : q.Streams (operations.foldl Stream.apply "") :=
    Query.streams_applyAll operations
  have hclause : after.clause = Stream.begin q.clause opening := by
    rw [hstream.clause_eq]
    exact (hstream.begin opening).clause_eq
  refine ⟨⟨?_, q.isEmpty_begin opening, ?_, ?_⟩, hclause, ?_⟩
  · rw [hfields]
  · rw [hfields]
    rfl
  · rw [hfields]
  · rw [hclause, Stream.begin_eq_iff, hstream.isEmpty_iff, hstream.clause_eq]

def joinedRun : List Operation :=
  [.chain .bare (.predicate .start ⟨⟨"a"⟩, .eq, .null⟩) .plain,
    .abandoned (.joined .and) .start]

/-- The word that is left comes before that of the next chain. -/
theorem joinedRun_leaves_word :
    (Query.empty.applyAll (joinedRun.take 1)).clause = "a = ?" ∧
      (Query.empty.applyAll joinedRun).clause = "a = ? AND" ∧
      (Query.empty.applyAll (joinedRun ++ [.chain (.joined .or)
        (.predicate .start ⟨⟨"b"⟩, .eq, .null⟩) .plain])).clause = "a = ? AND OR b = ?" := by
  decide

end SqlClause
