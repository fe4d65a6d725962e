import SqlClause.Proofs.Placeholder.Lookback
import SqlClause.Proofs.Placeholder.Segments

/-!
Texts in the places of placeholders.

`replace` puts a text of its own between each two segments of a clause, so it tells the placeholders
of the clause apart.  A scan that counts the placeholders it has come to does the same
(`replaceFrom_cut`).  So does numbering, as long as no value is a list (`number_of_not_list`).
-/

namespace SqlClause
namespace Placeholder

variable (t : Nat → List Char)

/-- Segments, the first of them behind the placeholder of number `i`. -/
def joinedWith : Nat → List (List Char) → List Char
  | _, [] => []
  | i, s :: others => t i ++ s ++ joinedWith (i + 1) others

/-- The clause with `t i` in place of the placeholder that has `i` others before it. -/
def replace (sql : String) : String := String.ofList ((cut sql).1 ++ joinedWith t 0 (cut sql).2)

/-- The same by a scan. -/
def replaceFrom : Bool → Nat → List Char → List Char
  | _, _, [] => []
  | inLiteral, i, c :: rest =>
    if c = quote then c :: replaceFrom (!inLiteral) i rest
    else if c = mark ∧ inLiteral = false then t i ++ replaceFrom inLiteral (i + 1) rest
    else c :: replaceFrom inLiteral i rest

theorem replaceFrom_mark (i : Nat) (rest : List Char) :
    replaceFrom t false i (mark :: rest) = t i ++ replaceFrom t false (i + 1) rest := rfl

theorem replaceFrom_plain {inLiteral : Bool} {a : List Char} (h : countFrom inLiteral a = 0)
    (i : Nat) (b : List Char) :
    replaceFrom t inLiteral i (a ++ b)
      = a ++ replaceFrom t (literalAfter inLiteral a) i b := by
  induction a generalizing inLiteral with
  | nil => rfl
  | cons c a ih =>
    rw [countFrom] at h
    rw [List.cons_append, replaceFrom, literalAfter]
    by_cases hq : c = quote
    · rw [if_pos hq] at h ⊢
      rw [if_pos hq, ih h]
      rfl
    · rw [if_neg hq] at h ⊢
      rw [if_neg hq]
      by_cases hm : c = mark ∧ inLiteral = false
      · rw [if_pos hm] at h
        omega
      · rw [if_neg hm] at h ⊢
        rw [ih h]
        rfl

/-- The second text is read in the state that the first one leaves, its placeholders counted on. -/
theorem replaceFrom_append (inLiteral : Bool) (i : Nat) (a b : List Char) :
    replaceFrom t inLiteral i (a ++ b)
      = replaceFrom t inLiteral i a
        ++ replaceFrom t (literalAfter inLiteral a) (i + countFrom inLiteral a) b := by
  induction a generalizing inLiteral i with
  | nil => rfl
  | cons c a ih =>
    rw [List.cons_append, replaceFrom, replaceFrom, countFrom, literalAfter]
    by_cases hq : c = quote
    · rw [if_pos hq, if_pos hq, if_pos hq, if_pos hq, ih]
      rfl
    · rw [if_neg hq, if_neg hq, if_neg hq, if_neg hq]
      by_cases hm : c = mark ∧ inLiteral = false
      · rw [if_pos hm, if_pos hm, if_pos hm, ih, List.append_assoc, Nat.add_assoc, Nat.add_comm 1]
      · rw [if_neg hm, if_neg hm, if_neg hm, ih]
        rfl

theorem replaceFrom_joined {others : List (List Char)} : ∀ {inLiteral : Bool} {s : List Char},
    Segmented inLiteral s others → ∀ i,
    replaceFrom t inLiteral i (s ++ joined others) = s ++ joinedWith t i others := by
  induction others with
  | nil =>
    intro inLiteral s h i
    rw [replaceFrom_plain t h]
    rfl
  | cons u others ih =>
    intro inLiteral s h i
    rw [replaceFrom_plain t h.1, h.2.1, joined_cons, replaceFrom_mark, ih h.2.2, joinedWith,
      List.append_assoc]

theorem replaceFrom_cut (sql : String) :
    String.ofList (replaceFrom t false 0 sql.toList) = replace t sql := by
  rw [replace, ← replaceFrom_joined t (cut_segmented sql), joined_cut]

/-! ## Values that are no lists -/

/-- Such a value is written as its number, whatever stands around its placeholder. -/
theorem scan_eq_replaceFrom {inLiteral : Bool} {d : Draft} {values : List Value} {text : List Char}
    (hlist : ∀ v ∈ values, v.isList = false) (hcount : countFrom inLiteral text = values.length)
    {first i : Nat} (hnext : d.next = first + i) :
    scan inLiteral d values text
      = d.append (replaceFrom (fun i => (dollar (first + i)).toList) inLiteral i text) values := by
  induction inLiteral, d, values, text using scan_induction generalizing i with
  | nil inLiteral d values =>
    obtain rfl : values = [] := List.eq_nil_of_length_eq_zero hcount.symm
    rfl
  | plain inLiteral d values c rest hc ih =>
    rw [countFrom_cons hc] at hcount
    have hreplace := replaceFrom_plain (fun i => (dollar (first + i)).toList) hc i rest
    rw [scan_cons hc, ih hlist hcount hnext, ← List.singleton_append (l := rest), hreplace]
    exact d.append_append [c] _ [] values
  | unbound d rest ih => cases hcount
  | bound d v values rest f hf ih =>
    have hv : v.isList = false := hlist v (List.mem_cons_self ..)
    have hrest : countFrom false rest = values.length := Nat.succ.inj hcount
    obtain rfl : f = .slots [.param v] := hf.symm.trans (filling_of_not_list hv _ _)
    have hput : d.put [.param v] = d.append (dollar (first + i)).toList [v] := by
      rw [Draft.put_eq_append, Slot.render_param, hnext]
      rfl
    have hput_next : (d.put [.param v]).next = first + (i + 1) := by
      rw [hput]
      exact (congrArg (· + 1) hnext).trans (Nat.add_assoc _ _ _)
    rw [scan_mark hf, replaceFrom_mark]
    refine (ih (fun w hw => hlist w (List.mem_cons_of_mem v hw)) hrest hput_next).trans ?_
    show (d.put [.param v]).append _ _ = _
    rw [hput, Draft.append_append]
    rfl

theorem number_of_not_list {sql : String} {values : List Value}
    (hlist : ∀ v ∈ values, v.isList = false) (hcount : count sql = values.length) (offset : Nat) :
    number sql values offset
      = .ok ⟨replace (fun i => (dollar (offset + 1 + i)).toList) sql, values⟩ := by
  have hnext : (⟨[], [], offset + 1⟩ : Draft).next = offset + 1 + 0 := rfl
  rw [number_eq_scan hcount, scan_eq_replaceFrom hlist hcount hnext, ← replaceFrom_cut]
  simp [Draft.append]

end Placeholder
end SqlClause
