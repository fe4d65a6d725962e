import SqlClause.Proofs.Condition.Grammar
import SqlClause.Proofs.Layout.Scan

/-!
The symbols of a layout.

If the columns are plain, then cutting a clause gives the pieces of its layout back, without the
blanks (`parse?_text`).  A piece that begins with text stands behind a bracket or a blank, so its
text does not run on from what comes before.
-/

namespace SqlClause

namespace Piece

def symbols : Piece → List Symbol
  | openBracket => [.openBracket]
  | closeBracket => [.closeBracket]
  | blank => []
  | word w => [.connective w]
  | predicate p => [.test p.test]

def tokens (a : Piece) : List Token := a.symbols.flatMap Symbol.tokens

theorem flush_run_text {a : Piece} (hplain : ∀ p ∈ a.predicate?, p.column.Plain) {s : Lexer}
    (hs : a.Worded → s.pending = []) (bound : Nat) :
    (s.run (a.text .marked bound)).flush = s.flush ++ a.tokens := by
  obtain ⟨done, pending⟩ := s
  cases a with
  | openBracket => exact congrArg Lexer.flush (Lexer.run_openBracket _)
  | closeBracket => exact congrArg Lexer.flush (Lexer.run_closeBracket _)
  | blank => exact (congrArg Lexer.flush (Lexer.run_blank _)).trans (List.append_nil _).symm
  | word w =>
    obtain rfl : pending = [] := hs trivial
    exact Lexer.run_word w done
  | predicate p =>
    obtain rfl : pending = [] := hs trivial
    have hrun := congrArg Lexer.flush (Lexer.run_predicate (hplain p rfl) done)
    exact hrun.trans (congrArg (done ++ ·) (List.append_nil _).symm)

theorem pending_run_text {a : Piece} (h : a.Opens) (s : Lexer) (bound : Nat) :
    (s.run (a.text .marked bound)).pending = [] := by
  cases a with
  | openBracket => exact congrArg Lexer.pending (Lexer.run_openBracket s)
  | blank => exact congrArg Lexer.pending (Lexer.run_blank s)
  | _ => cases h

end Piece

namespace Layout

def symbols (l : List Piece) : List Symbol := l.flatMap Piece.symbols

theorem symbols_append (a b : List Piece) : symbols (a ++ b) = symbols a ++ symbols b :=
  List.flatMap_append

theorem symbols_bracketed (l : List Piece) :
    symbols (bracketed l) = .openBracket :: (symbols l ++ [.closeBracket]) := by
  show Symbol.openBracket :: symbols (l ++ [.closeBracket]) = _
  rw [symbols_append]
  rfl

theorem flatMap_tokens_cons (a : Piece) (l : List Piece) :
    (symbols (a :: l)).flatMap Symbol.tokens
      = a.tokens ++ (symbols l).flatMap Symbol.tokens := List.flatMap_append

theorem tests_symbols (l : List Piece) :
    (symbols l).filterMap Symbol.test? = (predicates l).map Predicate.test := by
  induction l with
  | nil => rfl
  | cons a l ih =>
    cases a with
    | predicate p => exact congrArg (p.test :: ·) ih
    | _ => exact ih

/-- The induction takes the lexer from piece to piece.  Nothing is pending before a piece that
begins with text, since the piece in front of it opens. -/
theorem flush_run_text {l : List Piece} (hsep : Separated l)
    (hplain : ∀ p ∈ predicates l, p.column.Plain) {s : Lexer}
    (hs : ∀ a ∈ l.head?, a.Worded → s.pending = []) (bound : Nat) :
    (s.run (text .marked bound l)).flush = s.flush ++ (symbols l).flatMap Symbol.tokens := by
  induction l generalizing s bound with
  | nil => exact (List.append_nil _).symm
  | cons a l ih =>
    obtain ⟨hlead, hsep⟩ := List.isChain_cons.mp hsep
    obtain ⟨ha, hl⟩ := forall_predicates_cons.mp hplain
    have hpending : ∀ b ∈ l.head?, b.Worded → (s.run (a.text .marked bound)).pending = [] :=
      fun b hb hworded => Piece.pending_run_text (hlead b hb hworded) s bound
    rw [text, Lexer.run_append, ih hsep hl hpending, Piece.flush_run_text ha (hs a rfl),
      flatMap_tokens_cons, List.append_assoc]

theorem parse?_text {l : List Piece} (hsep : Separated l)
    (hplain : ∀ p ∈ predicates l, p.column.Plain) {sql : String} {bound : Nat}
    (h : sql.toList = text .marked bound l) :
    Condition.parse? sql = Condition.read? (symbols l) := by
  have hcut : Token.cut sql.toList = (symbols l).flatMap Symbol.tokens := by
    rw [Token.cut, h]
    exact flush_run_text hsep hplain (fun _ _ _ => rfl) bound
  rw [Condition.parse?, hcut, Symbol.read?_flatMap_tokens]
  rfl

end Layout
end SqlClause
