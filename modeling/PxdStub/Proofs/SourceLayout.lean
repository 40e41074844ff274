import PxdStub.Proofs.Relexing
import PxdStub.Proofs.TwinItems

/-!
What stands between the tokens of a text has no say in what is declared. Texts with the same lexemes
are read alike; only names that are taken from the source keep the blanks and comments inside them.
-/

namespace PxdStub

/-- Texts that are made of the same lexemes. -/
def Text.SameLexemes (text text' : String) : Prop :=
  ∃ lexed lexed', Lexed.ofText text.toList = .ok lexed ∧ Lexed.ofText text'.toList = .ok lexed' ∧
    lexed.tokens.map Token.lexeme = lexed'.tokens.map Token.lexeme

namespace Token

theorem Twins.of_lexemes {beyond beyond' : List Char} {tokens tokens' : List Token}
    (same : tokens.map lexeme = tokens'.map lexeme) :
    Twins False False beyond beyond' tokens tokens' := by
  induction tokens generalizing tokens' with
  | nil =>
      rw [List.map_nil, eq_comm, List.map_eq_nil_iff] at same
      rw [same]
      exact .nil False.elim
  | cons token rest ih =>
      obtain ⟨token', rest', rfl, first, more⟩ := List.map_eq_cons_iff.1 same.symm
      exact .cons first.symm False.elim False.elim (ih more.symm)

theorem AreLexed.lexemes_nameOf {tokens run : List Token} (lexed : AreLexed tokens)
    (within : run <:+: tokens) : ∃ found, Lexed.ofText (nameOf run).toList = .ok found ∧
      found.tokens.map lexeme = run.map lexeme := by
  rw [nameOf, String.toList_ofList]
  by_cases none : run = []
  · subst none
    exact ⟨⟨[], []⟩, by cbv, rfl⟩
  · obtain ⟨_, run', lexes, alike⟩ := lexed.ofText_infix within none
    exact ⟨⟨[], run'⟩, lexes, alike.lexemes.symm⟩

theorem Names.of_areLexed {tokens tokens' : List Token} (lexed : AreLexed tokens)
    (lexed' : AreLexed tokens') : Names Eq Text.SameLexemes False tokens tokens' := by
  intro run run' within within' akin
  have alike := akin.twins fun _ _ => id
  obtain ⟨found, lexes, same⟩ := lexed.lexemes_nameOf within
  obtain ⟨found', lexes', same'⟩ := lexed'.lexemes_nameOf within'
  exact ⟨found, found', lexes, lexes', by rw [same, same', alike.lexemes]⟩

end Token

namespace Parser

theorem emission_eq (parser : Parser) : parser.emission =
    parser.run.result.map fun declarations =>
      (declarations, Note.omissions (parser.notes ++ parser.run.notes)) := by
  rw [emission, declarations]
  cases parser.run.result <;> rfl

/-- Texts with the same lexemes can be read both or fail both, then with the same sort of trouble.
What they declare and omit is pairwise the same, but for what stands between the tokens of function
names and template arguments. -/
theorem declarationsOf_of_lexemes {text text' : List Char} {lexed lexed' : Lexed}
    (lexes : Lexed.ofText text = .ok lexed) (lexes' : Lexed.ofText text' = .ok lexed')
    (same : lexed.tokens.map Token.lexeme = lexed'.tokens.map Token.lexeme)
    (owner : Option String) :
    Mirrors (fun error error' => error.trouble = error'.trouble)
      (fun found found' =>
        List.Forall₂ (Declaration.Alike Text.SameLexemes) found.1 found'.1 ∧
          List.Forall₂ (Omission.Alike Text.SameLexemes) found.2 found'.2)
      (declarationsOf owner text) (declarationsOf owner text') := by
  have areLexed := Token.areLexed_of_ofText lexes
  have names := Token.Names.of_areLexed areLexed (Token.areLexed_of_ofText lexes')
  have peers : (Scope.ofOwner owner).Peers (Scope.ofOwner owner) := ⟨rfl, rfl⟩
  have silent : ∀ declarations : List Declaration,
      Note.omissions (declarations.flatMap fun _ => []) = [] := by
    simp [Note.omissions]
  have items := @Item.twins_readAll _ _ _ _ _ _ _ false _ _ peers names silent silent
    areLexed.areRead (.of_lexemes same)
  have start : ofText owner text = .ok ⟨Scope.ofOwner owner, [], lexed.tokens, []⟩ :=
    ofText_eq_ok_iff.2 ⟨lexed, lexes, rfl⟩
  have start' : ofText owner text' = .ok ⟨Scope.ofOwner owner, [], lexed'.tokens, []⟩ :=
    ofText_eq_ok_iff.2 ⟨lexed', lexes', rfl⟩
  rw [declarationsOf, declarationsOf, start, start']
  change Mirrors _ _ (emission _) (emission _)
  rw [emission_eq, emission_eq]
  refine Mirrors.map (items.result.mapError fun _ _ alike => alike.trouble) ?_
  intro declarations declarations' all
  exact ⟨all, items.omissions⟩

theorem declarationsOf_of_two_layouts : ∃ lexed lexed',
    Lexed.ofText "B<unsigned int> b; int operator+(int a);".toList = .ok lexed ∧
    Lexed.ofText "B<unsigned/**/int>b;\n#if\nint operator +(int a);// end".toList = .ok lexed' ∧
    lexed.tokens.map Token.lexeme = lexed'.tokens.map Token.lexeme ∧
    Mirrors (fun error error' => error.trouble = error'.trouble)
      (fun found found' =>
        List.Forall₂ (Declaration.Alike Text.SameLexemes) found.1 found'.1 ∧
          List.Forall₂ (Omission.Alike Text.SameLexemes) found.2 found'.2)
      (declarationsOf none "B<unsigned int> b; int operator+(int a);".toList)
      (declarationsOf none "B<unsigned/**/int>b;\n#if\nint operator +(int a);// end".toList) := by
  let lexemes : List Lexeme := [.identifier "B", .opening .angle, .identifier "unsigned",
    .keyword .int, .closing .angle, .identifier "b", .punctuation .semicolon, .keyword .int,
    .identifier "operator", .symbol '+', .opening .round, .keyword .int, .identifier "a",
    .closing .round, .punctuation .semicolon]
  have plain : ∃ lexed, Lexed.ofText "B<unsigned int> b; int operator+(int a);".toList = .ok lexed ∧
      lexed.tokens.map Token.lexeme = lexemes := ⟨_, by cbv, by rfl⟩
  have other : ∃ lexed, Lexed.ofText
      "B<unsigned/**/int>b;\n#if\nint operator +(int a);// end".toList = .ok lexed ∧
      lexed.tokens.map Token.lexeme = lexemes := ⟨_, by cbv, by rfl⟩
  obtain ⟨lexed, lexes, same⟩ := plain
  obtain ⟨lexed', lexes', same'⟩ := other
  have alike := same.trans same'.symm
  exact ⟨lexed, lexed', lexes, lexes', alike, declarationsOf_of_lexemes lexes lexes' alike none⟩

end Parser

end PxdStub
