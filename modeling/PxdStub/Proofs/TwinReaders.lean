import PxdStub.Proofs.Bindable
import PxdStub.Proofs.Twins

/-!
Readers go the same way on kin tokens: they look at lexemes only and never into string literals, and
what they take from the source are names. From brackets and types up to variables and functions.
-/

namespace PxdStub

variable {payloads written : String → String → Prop}
variable {exact quoted : Prop} {beyond beyond' : List Char} {tokens tokens' : List Token}

/-! ### Brackets and commas -/

namespace Enclosure

/-- Brackets that enclose kin and have kin behind them. -/
structure Kin (payloads : String → String → Prop) (exact quoted : Prop) (beyond beyond' : List Char)
    (found found' : Enclosure) : Prop where
  inside : Token.Kin payloads exact quoted (Token.sourceOf (found.close :: found.after) ++ beyond)
    (Token.sourceOf (found'.close :: found'.after) ++ beyond') found.inside found'.inside
  behind : Token.Kin payloads exact quoted beyond beyond' (found.close :: found.after)
    (found'.close :: found'.after)

theorem Kin.after {found found' : Enclosure}
    (kin : Kin payloads exact quoted beyond beyond' found found') :
    Token.Kin payloads exact quoted beyond beyond' found.after found'.after :=
  kin.behind.drop 1

theorem size_close? {bracket : Bracket} {depth : Nat}
    (kin : Token.Kin payloads exact quoted beyond beyond' tokens tokens') :
    (close? bracket depth tokens).map (fun found => found.inside.length) =
      (close? bracket depth tokens').map fun found => found.inside.length := by
  induction kin generalizing depth with
  | nil => rfl
  | @cons token token' rest rest' same _ _ _ ih =>
      have deeper : ∀ depth, ((close? bracket depth rest).map fun found =>
          { found with inside := token :: found.inside }).map (fun found => found.inside.length) =
          ((close? bracket depth rest').map fun found =>
            { found with inside := token' :: found.inside }).map fun found =>
              found.inside.length := by
        intro depth
        have later := congrArg (Option.map (· + 1)) (@ih depth)
        rw [Option.map_map, Option.map_map] at later
        rw [Option.map_map, Option.map_map]
        exact later
      have opens : token.lexeme = .opening bracket ↔ token'.lexeme = .opening bracket :=
        same.eq_iff rfl
      have shuts : token.lexeme = .closing bracket ↔ token'.lexeme = .closing bracket :=
        same.eq_iff rfl
      unfold close?
      simp only [opens, shuts]
      split
      · exact deeper _
      · split
        · cases depth with
          | zero => rfl
          | succ outer => exact deeper _
        · exact deeper _

theorem kin_of_opens {bracket : Bracket} {token token' : Token} {rest rest' place place' : List Token}
    (opens : token.lexeme = .opening bracket) (opens' : token'.lexeme = .opening bracket)
    (kin : Token.Kin payloads exact quoted beyond beyond' (token :: rest) (token' :: rest')) :
    Mirrors (Failure.Alike (Token.Told payloads exact quoted))
      (Kin payloads exact quoted beyond beyond') (read beyond place (token :: rest))
      (read beyond' place' (token' :: rest')) := by
  have inner : Token.Kin payloads exact quoted beyond beyond' rest rest' := kin.drop 1
  have size := @size_close? _ _ _ _ _ _ _ bracket 0 inner
  rw [read_of_opens opens, read_of_opens opens']
  cases closed : close? bracket 0 rest with
  | none =>
      cases closed' : close? bracket 0 rest' with
      | none => exact .error ⟨rfl, fun told => by rw [kin.excerpt told.quotes]⟩
      | some found' =>
          rw [closed, closed'] at size
          cases size
  | some found =>
      cases closed' : close? bracket 0 rest' with
      | none =>
          rw [closed, closed'] at size
          cases size
      | some found' =>
          rw [closed, closed'] at size
          rw [(eq_of_close? closed).1, (eq_of_close? closed').1] at inner
          obtain ⟨inside, behind⟩ := inner.split (by simpa using size)
          exact .ok ⟨inside, behind⟩

theorem kin_read {place place' : List Token}
    (standing : Token.Kin payloads exact quoted beyond beyond' place place')
    (kin : Token.Kin payloads exact quoted beyond beyond' tokens tokens') :
    Mirrors (Failure.Alike (Token.Told payloads exact quoted))
      (Kin payloads exact quoted beyond beyond') (read beyond place tokens)
      (read beyond' place' tokens') := by
  have whole := kin
  cases kin with
  | nil => exact .error (.unexpected _ standing)
  | @cons token token' _ _ same _ _ _ =>
      by_cases opening : ∃ bracket, token.lexeme = .opening bracket
      · obtain ⟨bracket, opens⟩ := opening
        exact kin_of_opens opens ((same.eq_iff rfl).1 opens) whole
      · have other : ∀ bracket, token.lexeme ≠ .opening bracket := not_exists.1 opening
        have other' : ∀ bracket, token'.lexeme ≠ .opening bracket :=
          fun bracket opens => other bracket ((same.eq_iff rfl).2 opens)
        rw [read_of_other other, read_of_other other']
        exact .error (.unexpected _ standing)

theorem endsIn_inside (beyond : List Char) {place : List Token} (suffix : tokens <:+ place) :
    EndsIn place (fun found => found.inside ++ found.close :: found.after)
      (read beyond place tokens) := by
  refine endsIn_of_ok fun found enclosed => ?_
  obtain ⟨token, rest, _, rfl, -, closed⟩ := exists_close?_of_read enclosed
  rw [← (eq_of_close? closed).1]
  exact (List.suffix_cons token rest).trans suffix

end Enclosure

namespace Token

theorem kin_splitOutside {stop : Lexeme → Bool} {depth : Nat}
    (blind : ∀ text text', stop (.string text) = stop (.string text'))
    (kin : Kin payloads exact quoted beyond beyond' tokens tokens') :
    Akin payloads exact (splitOutside stop depth tokens).1 (splitOutside stop depth tokens').1 ∧
      Kin payloads exact quoted beyond beyond' (splitOutside stop depth tokens).2
        (splitOutside stop depth tokens').2 := by
  have size : (splitOutside stop depth tokens).1.length =
      (splitOutside stop depth tokens').1.length := by
    induction kin generalizing depth with
    | nil => rfl
    | @cons token token' rest rest' same _ _ _ ih =>
        have deeper : nesting depth token = nesting depth token' :=
          same.view_eq (fun lexeme => nesting depth ⟨lexeme, 0, []⟩) fun _ _ => rfl
        rw [splitOutside, splitOutside, same.view_eq stop blind, deeper]
        split
        · rfl
        · exact congrArg (· + 1) ih
  have whole := splitOutside_append stop depth tokens
  have whole' := splitOutside_append stop depth tokens'
  rw [← whole, ← whole'] at kin
  obtain ⟨front, back⟩ := kin.split size
  exact ⟨front.akin, back⟩

theorem kin_dropSemicolon (kin : Kin payloads exact quoted beyond beyond' tokens tokens') :
    Kin payloads exact quoted beyond beyond' (dropSemicolon tokens) (dropSemicolon tokens') := by
  cases kin with
  | nil quote => exact .nil quote
  | cons same gap quote behind =>
      rw [dropSemicolon, dropSemicolon, same.view_eq Lexeme.isSemicolon fun _ _ => rfl]
      split
      · exact behind
      · exact .cons same gap quote behind

theorem alike_groupsAt {depth : Nat} (alike : Akin payloads exact tokens tokens') :
    List.Forall₂ (Akin payloads exact) (groupsAt depth tokens) (groupsAt depth tokens') := by
  induction alike generalizing depth with
  | nil => exact .cons (.nil False.elim) .nil
  | @cons token token' rest rest' same gap _ _ ih =>
      have deeper : angledNesting depth token = angledNesting depth token' :=
        same.view_eq (fun lexeme => angledNesting depth ⟨lexeme, 0, []⟩) fun _ _ => rfl
      have comma :=
        same.view_eq (fun lexeme => decide (lexeme = .punctuation .comma)) fun _ _ => rfl
      rw [groupsAt, groupsAt, comma, deeper]
      split
      · exact .cons (.nil False.elim) ih
      · have later := @ih (angledNesting depth token')
        cases groups : groupsAt (angledNesting depth token') rest with
        | nil =>
            rw [groups] at later
            rw [List.forall₂_nil_left_iff.1 later]
            exact .cons (.cons same (fun _ some => absurd rfl some) False.elim (.nil False.elim)) .nil
        | cons group more =>
            rw [groups] at later
            obtain ⟨group', more', first, others, groups'⟩ := List.forall₂_cons_left_iff.1 later
            rw [groups']
            refine .cons (.cons same (fun exactly some => gap exactly ?_) False.elim first) others
            intro none
            rw [none, groupsAt, List.cons.injEq] at groups
            exact some groups.1.symm

theorem alike_groups (alike : Akin payloads exact tokens tokens') :
    List.Forall₂ (Akin payloads exact) (groups tokens) (groups tokens') := by
  rw [groups, groups, alike.isEmpty]
  split
  · exact .nil
  · exact alike_groupsAt alike

theorem infix_of_mem_groupsAt {depth : Nat} {group : List Token} {more : List (List Token)}
    (groups : groupsAt depth tokens = group :: more) :
    group <+: tokens ∧ ∀ other ∈ more, other <:+: tokens := by
  induction tokens generalizing depth group more with
  | nil =>
      cases groups
      exact ⟨List.prefix_refl _, fun _ none => absurd none List.not_mem_nil⟩
  | cons token rest ih =>
      have longer : ∀ {other}, other <:+: rest → other <:+: token :: rest := fun inside =>
        inside.trans (List.suffix_cons token rest).isInfix
      rw [groupsAt] at groups
      split at groups
      · cases groups
        refine ⟨List.nil_prefix, fun other mem => longer ?_⟩
        cases later : groupsAt 0 rest with
        | nil => rw [later] at mem; cases mem
        | cons first others =>
            rw [later] at mem
            obtain rfl | mem := List.mem_cons.1 mem
            · exact (ih later).1.isInfix
            · exact (ih later).2 other mem
      · split at groups
        · next first others later =>
            cases groups
            obtain ⟨front, inside⟩ := ih later
            exact ⟨List.prefix_cons_inj token |>.2 front, fun other mem => longer (inside other mem)⟩
        · cases groups
          exact ⟨⟨rest, rfl⟩, fun _ none => absurd none List.not_mem_nil⟩

theorem infix_of_mem_groups {group : List Token} (mem : group ∈ groups tokens) :
    group <:+: tokens := by
  rw [groups] at mem
  split at mem
  · cases mem
  · cases parts : groupsAt 0 tokens with
    | nil => rw [parts] at mem; cases mem
    | cons first others =>
        rw [parts] at mem
        obtain rfl | mem := List.mem_cons.1 mem
        · exact (infix_of_mem_groupsAt parts).1.isInfix
        · exact (infix_of_mem_groupsAt parts).2 group mem

/-! ### Types -/

theorem kin_dropSpecifiers {behindExtern : Bool}
    (kin : Kin payloads exact quoted beyond beyond' tokens tokens') :
    Kin payloads exact quoted beyond beyond' (dropSpecifiers behindExtern tokens)
      (dropSpecifiers behindExtern tokens') := by
  induction kin generalizing behindExtern with
  | nil quote => exact .nil quote
  | cons same gap quote behind ih =>
      have keyed :=
        same.view_eq (fun lexeme => decide (lexeme = .keyword .externKey)) fun _ _ => rfl
      rw [dropSpecifiers, dropSpecifiers, same.view_eq Lexeme.isString fun _ _ => rfl,
        same.view_eq Lexeme.isSpecifier fun _ _ => rfl, keyed]
      split
      · exact ih
      · split
        · exact ih
        · exact .cons same gap quote behind

theorem kin_scopedNames (kin : Kin payloads exact quoted beyond beyond' tokens tokens') :
    (scopedNames tokens).1 = (scopedNames tokens').1 ∧
      Kin payloads exact quoted beyond beyond' (scopedNames tokens).2 (scopedNames tokens').2 := by
  fun_induction scopedNames tokens generalizing tokens' with
  | case1 =>
      rename_i isName isScope _ ih
      obtain _ | ⟨scope, _, _, _ | ⟨named, _, _, behind⟩⟩ := kin
      obtain ⟨value, left⟩ := ih behind
      rw [scopedNames_of_name ((scope.eq_iff rfl).1 isScope) ((named.eq_iff rfl).1 isName), value]
      exact ⟨rfl, left⟩
  | case2 colons token rest other =>
      have others := kin
      obtain _ | ⟨scope, _, _, _ | ⟨named, _, _, behind⟩⟩ := kin
      rw [scopedNames]
      split
      · next name isScope isName =>
          exact (other name ((scope.eq_iff rfl).2 isScope) ((named.eq_iff rfl).2 isName)).elim
      · exact ⟨rfl, others⟩
  | case3 tokens short =>
      have others := kin
      obtain quote | ⟨scope, _, _, _ | ⟨named, _, _, behind⟩⟩ := kin
      · exact ⟨rfl, others⟩
      · exact ⟨rfl, others⟩
      · exact (short _ _ _ rfl).elim

theorem kin_unscopedName (kin : Kin payloads exact quoted beyond beyond' tokens tokens') :
    Reads payloads exact quoted beyond beyond' Eq (unscopedName tokens) (unscopedName tokens') := by
  have whole := kin
  cases kin with
  | nil => exact .error (.unexpected _ whole)
  | cons same _ _ behind =>
      rw [unscopedName, unscopedName]
      obtain same | ⟨_, _, _, here, there⟩ := same.eq_or
      · rw [same]
        split
        · next name _ =>
            obtain ⟨value, left⟩ := kin_scopedNames behind
            exact .ok ⟨congrArg (name ++ ·) value, left⟩
        · exact .error (.unexpected _ whole)
      · rw [here, there]
        exact .error (.unexpected _ whole)

theorem kin_qualifiedName (kin : Kin payloads exact quoted beyond beyond' tokens tokens') :
    Reads payloads exact quoted beyond beyond' Eq (qualifiedName tokens)
      (qualifiedName tokens') := by
  have whole := kin
  cases kin with
  | nil => exact kin_unscopedName whole
  | @cons token token' _ _ same _ _ behind =>
      have scope : token.lexeme = .punctuation .scope ↔ token'.lexeme = .punctuation .scope :=
        same.eq_iff rfl
      simp only [qualifiedName, scope]
      split
      · exact (kin_unscopedName behind).map fun _ _ found =>
          ⟨congrArg ("::" ++ ·) found.1, found.2⟩
      · exact kin_unscopedName whole

theorem kin_builtinWords (kin : Kin payloads exact quoted beyond beyond' tokens tokens') :
    (builtinWords tokens).1 = (builtinWords tokens').1 ∧
      Kin payloads exact quoted beyond beyond' (builtinWords tokens).2 (builtinWords tokens').2 := by
  induction kin with
  | nil quote => exact ⟨rfl, .nil quote⟩
  | cons same gap quote behind ih =>
      rw [builtinWords, builtinWords, same.view_eq Lexeme.builtinWord? fun _ _ => rfl]
      split
      · next word _ => exact ⟨congrArg (word :: ·) ih.1, ih.2⟩
      · exact ⟨rfl, .cons same gap quote behind⟩

end Token

namespace BaseType

theorem written_argumentsOf (names : Token.Names payloads written exact tokens tokens')
    (alike : Token.Akin payloads exact tokens tokens') :
    List.Forall₂ written (argumentsOf tokens) (argumentsOf tokens') := by
  have groups := Token.alike_groups alike
  have inside : ∀ group ∈ Token.groups tokens, group <:+: tokens := fun _ =>
    Token.infix_of_mem_groups
  have inside' : ∀ group ∈ Token.groups tokens', group <:+: tokens' := fun _ =>
    Token.infix_of_mem_groups
  rw [argumentsOf, argumentsOf]
  generalize Token.groups tokens = found, Token.groups tokens' = found' at groups inside inside' ⊢
  induction groups with
  | nil => exact .nil
  | cons first _ ih =>
      obtain ⟨here, more⟩ := List.forall_mem_cons.1 inside
      obtain ⟨here', more'⟩ := List.forall_mem_cons.1 inside'
      have name := names _ _ here here' first
      cases first with
      | nil => exact ih more more'
      | cons => exact .cons name (ih more more')

theorem kin_readNamed (names : Token.Names payloads written exact tokens tokens')
    (kin : Token.Kin payloads exact quoted beyond beyond' tokens tokens') :
    Token.Reads payloads exact quoted beyond beyond' (Alike written) (readNamed beyond tokens)
      (readNamed beyond' tokens') := by
  unfold readNamed
  refine (Token.kin_qualifiedName kin).bind_within (Token.endsIn_qualifiedName tokens)
    (Token.endsIn_qualifiedName tokens') ?_
  rintro ⟨name, rest⟩ ⟨_, rest'⟩ ⟨rfl, behind⟩ suffix suffix'
  dsimp only at behind suffix suffix' ⊢
  have named : Alike written (.named name) (.named name) := .plain (by simp)
  have whole := behind
  cases behind with
  | nil quote => exact .ok ⟨named, .nil quote⟩
  | @cons token token' _ _ same gap quote behind =>
      have opens : token.lexeme = .opening .angle ↔ token'.lexeme = .opening .angle :=
        same.eq_iff rfl
      simp only [opens]
      split
      · refine (Enclosure.kin_read whole whole).bind_within
          (Enclosure.endsIn_inside beyond (List.suffix_refl _))
          (Enclosure.endsIn_inside beyond' (List.suffix_refl _)) ?_
        intro enclosed enclosed' inner within within'
        have among := names.suffix (within.trans suffix) (within'.trans suffix')
        have arguments := among.among (List.prefix_append enclosed.inside _).isInfix
          (List.prefix_append enclosed'.inside _).isInfix
        exact .ok ⟨.generic (written_argumentsOf arguments inner.inside.akin), inner.after⟩
      · exact .ok ⟨named, whole⟩

theorem kin_read (names : Token.Names payloads written exact tokens tokens')
    (kin : Token.Kin payloads exact quoted beyond beyond' tokens tokens') :
    Token.Reads payloads exact quoted beyond beyond' (Alike written) (read beyond tokens)
      (read beyond' tokens') := by
  have whole := kin
  have tag : ∀ found found' : String × List Token, found.1 = found'.1 ∧
      Token.Kin payloads exact quoted beyond beyond' found.2 found'.2 →
      Alike written (.tagged found.1) (.tagged found'.1) ∧
        Token.Kin payloads exact quoted beyond beyond' found.2 found'.2 := by
    rintro ⟨name, rest⟩ ⟨_, rest'⟩ ⟨rfl, behind⟩
    exact ⟨.plain (by simp), behind⟩
  cases kin with
  | nil => exact .error (.unexpected _ whole)
  | cons same _ _ behind =>
      rw [read, read]
      obtain same | ⟨_, _, _, here, there⟩ := same.eq_or
      swap
      · rw [here, there]
        exact .error (.unexpected _ whole)
      rw [same]
      split
      · exact .ok ⟨.plain (by simp), behind⟩
      · exact .ok ⟨.plain (by simp), behind⟩
      · exact .ok ⟨.plain (by simp), behind⟩
      · exact (Token.kin_qualifiedName behind).map tag
      · exact (Token.kin_qualifiedName behind).map tag
      · split
        · obtain ⟨words, left⟩ := Token.kin_builtinWords whole
          dsimp only
          rw [words]
          exact .ok ⟨.plain (by simp), left⟩
        · exact kin_readNamed names whole
      · exact kin_readNamed names whole
      · exact .error (.unexpected _ whole)

end BaseType

theorem Wrap.kin_read {behindAmpersand : Bool}
    (kin : Token.Kin payloads exact quoted beyond beyond' tokens tokens') :
    (read behindAmpersand tokens).1 = (read behindAmpersand tokens').1 ∧
      Token.Kin payloads exact quoted beyond beyond' (read behindAmpersand tokens).2
        (read behindAmpersand tokens').2 := by
  induction kin generalizing behindAmpersand with
  | nil quote => exact ⟨rfl, .nil quote⟩
  | cons same gap quote behind ih =>
      rw [read, read]
      obtain equal | ⟨_, _, _, here, there⟩ := same.eq_or
      swap
      · rw [here, there]
        exact ⟨rfl, .cons same gap quote behind⟩
      rw [equal]
      split
      · exact ⟨congrArg (Wrap.star :: ·) (@ih false).1, ih.2⟩
      · split
        · exact ih
        · exact ⟨congrArg (Wrap.reference :: ·) (@ih true).1, ih.2⟩
      · exact ih
      · exact ⟨rfl, .cons same gap quote behind⟩

theorem CType.kin_read (names : Token.Names payloads written exact tokens tokens')
    (kin : Token.Kin payloads exact quoted beyond beyond' tokens tokens') :
    Token.Reads payloads exact quoted beyond beyond' (Alike written) (read beyond tokens)
      (read beyond' tokens') := by
  have base := names.suffix (Token.dropSpecifiers_suffix false tokens)
    (Token.dropSpecifiers_suffix false tokens')
  unfold read
  refine (BaseType.kin_read base (Token.kin_dropSpecifiers kin)).bind ?_
  rintro ⟨base, rest⟩ ⟨base', rest'⟩ ⟨alike, behind⟩
  obtain ⟨wraps, left⟩ := @Wrap.kin_read _ _ _ _ _ _ _ false behind
  exact .ok ⟨⟨alike, wraps⟩, left⟩

/-! ### Variables -/

namespace Declarator

theorem ofGroup?_alike (alike : Token.Akin payloads exact tokens tokens') :
    ofGroup? tokens = ofGroup? tokens' := by
  have declared := alike.beforeInitializer
  have count := declared.countP (.closing .square) rfl
  rw [ofGroup?, ofGroup?, declared.firstName?, count]

theorem kin_readGroups {groups groups' : List (List Token)}
    (kin : Token.Kin payloads exact quoted beyond beyond' tokens tokens')
    (alike : List.Forall₂ (Token.Akin payloads exact) groups groups') :
    Mirrors (Failure.Alike (Token.Told payloads exact quoted)) Eq (readGroups tokens groups)
      (readGroups tokens' groups') := by
  induction alike generalizing tokens tokens' with
  | nil => exact .ok rfl
  | cons first _ ih =>
      rw [readGroups, readGroups, ofGroup?_alike first, first.length]
      split
      · exact (ih (kin.drop _)).map fun _ _ same => congrArg _ same
      · exact .error (.unexpected _ kin)

end Declarator

/-- Scopes of the same class, both inside classes or both outside. -/
structure Scope.Peers (scope scope' : Scope) : Prop where
  owner : scope.owner = scope'.owner
  isNested : scope.isNested = scope'.isNested

variable {scope scope' : Scope}

namespace Variable

theorem isPlaceholder_alike {declared declared' : List Token} {type type' : CType}
    (kin : Token.Kin payloads exact quoted beyond beyond' tokens tokens')
    (behind : Token.Akin payloads exact declared declared') (alike : type.Alike written type') :
    isPlaceholder tokens declared type = isPlaceholder tokens' declared' type' := by
  have friendly := kin.any_head (.identifier "friend") rfl
  have brace : declared.head?.all (fun token => token.lexeme = .opening .curly) =
      declared'.head?.all fun token => token.lexeme = .opening .curly := by
    cases behind with
    | nil => rfl
    | cons same _ _ _ =>
        rw [List.head?_cons, List.head?_cons, Option.all_some, Option.all_some, decide_eq_decide]
        exact same.eq_iff rfl
  rw [isPlaceholder, isPlaceholder, friendly, brace, alike.wraps]
  obtain ⟨base, wraps⟩ := type
  obtain ⟨base', wraps'⟩ := type'
  cases alike.base <;> rfl

theorem kin_ofDeclarators {type type' : CType} {text text' : String} (peers : scope.Peers scope')
    (alike : type.Alike written type') (quotes : Token.Told payloads exact quoted → text = text')
    (declarators : List Declarator) :
    Mirrors (ParseError.Alike (Token.Told payloads exact quoted)) (Alike written)
      (ofDeclarators scope type text declarators) (ofDeclarators scope' type' text' declarators) := by
  have unequal : ParseError.Alike (Token.Told payloads exact quoted) (.unequalArrayDepths text)
      (.unequalArrayDepths text') := ⟨rfl, fun told => by rw [quotes told]⟩
  cases declarators with
  | nil => exact .error unequal
  | cons first more =>
      rw [ofDeclarators, ofDeclarators]
      split
      · exact .ok ⟨⟨alike.base, congrArg (· ++ _) alike.wraps⟩, rfl, peers.isNested⟩
      · exact .error unequal

theorem kin_outcome {declared declared' : Variable} (alike : declared.Alike written declared') :
    Outcome.Alike written declared.outcome declared'.outcome := by
  have emitted : Outcome.Alike written (.emitted (.ofVariable declared))
      (.emitted (.ofVariable declared')) := ⟨.some (.ofVariable alike), .nil⟩
  have omitted : Outcome.Alike written (.omitted ⟨declared.name, declared.type.render⟩)
      (.omitted ⟨declared'.name, declared'.type.render⟩) := by
    refine ⟨.none, .cons ?_ .nil⟩
    rw [alike.name]
    exact .ofVariable (.inr ⟨_, _, alike.type, rfl, rfl⟩)
  obtain ⟨⟨base, wraps⟩, name, nested⟩ := declared
  obtain ⟨⟨base', wraps'⟩, name', nested'⟩ := declared'
  rw [outcome, outcome]
  cases alike.type.base with
  | plain plain =>
      cases base with
      | void | int | double => exact emitted
      | named | tagged => exact omitted
      | generic name arguments => exact absurd rfl (plain name arguments)
  | generic => exact omitted

theorem kin_read (peers : scope.Peers scope')
    (names : Token.Names payloads written exact tokens tokens')
    (kin : Token.Kin payloads exact quoted scope.beyond scope'.beyond tokens tokens') :
    Token.Reads payloads exact quoted scope.beyond scope'.beyond (Outcome.Alike written)
      (read scope tokens) (read scope' tokens') := by
  unfold read
  refine (CType.kin_read names kin).bind ?_
  rintro ⟨type, rest⟩ ⟨type', rest'⟩ ⟨alike, behind⟩
  obtain ⟨front, back⟩ := @Token.kin_splitOutside _ _ _ _ _ _ _ Lexeme.isSemicolon 0
    (fun _ _ => rfl) behind
  have after := Token.kin_dropSemicolon back
  dsimp only
  rw [isPlaceholder_alike kin front alike, front.isEmpty]
  split
  · exact .ok ⟨⟨.none, .nil⟩, after⟩
  · split
    · exact .error (.unexpected _ behind)
    · refine (Declarator.kin_readGroups behind (Token.alike_groups front)).bind ?_
      rintro declarators _ rfl
      have declared := @kin_ofDeclarators payloads _ exact quoted _ _ _ _ _ _ peers alike
        front.nameOf declarators
      refine Mirrors.bind (declared.mapError fun _ _ alike => alike) fun _ _ alike => ?_
      exact .ok ⟨kin_outcome alike, after⟩

end Variable

/-! ### Parameters -/

namespace Parameter

theorem kin_read {group group' : List Token}
    (names : Token.Names payloads written exact tokens tokens')
    (kin : Token.Kin payloads exact quoted beyond beyond' tokens tokens')
    (inside : Token.Akin payloads exact group group') :
    Mirrors (Failure.Alike (Token.Told payloads exact quoted)) (Alike written)
      (read beyond tokens group) (read beyond' tokens' group') := by
  unfold read
  refine (CType.kin_read names kin).bind ?_
  rintro ⟨type, rest⟩ ⟨type', rest'⟩ ⟨alike, behind⟩
  dsimp only
  rw [kin.length, inside.length, behind.length]
  split
  · exact .error ⟨rfl, fun told => by rw [inside.textOf told]; rfl⟩
  · have declared :=
      (behind.take (rest'.length - (tokens'.length - group'.length))).beforeInitializer
    have dimensions := declared.countP (.opening .square) rfl
    rw [declared.firstName?, dimensions]
    exact .ok ⟨⟨alike.base, congrArg (· ++ _) alike.wraps⟩, rfl⟩

theorem kin_readGroups {groups groups' : List (List Token)}
    (names : Token.Names payloads written exact tokens tokens')
    (kin : Token.Kin payloads exact quoted beyond beyond' tokens tokens')
    (inside : List.Forall₂ (Token.Akin payloads exact) groups groups') :
    Mirrors (Failure.Alike (Token.Told payloads exact quoted))
      (fun found found' => List.Forall₂ (Alike written) found.1 found'.1 ∧ found.2 = found'.2)
      (readGroups beyond tokens groups) (readGroups beyond' tokens' groups') := by
  induction inside generalizing tokens tokens' with
  | nil => exact .ok ⟨.nil, rfl⟩
  | @cons group group' more more' first _ ih =>
      have later := names.suffix (List.drop_suffix (group.length + 1) tokens)
        (List.drop_suffix (group.length + 1) tokens')
      have rest := ih later (kin.drop (group.length + 1))
      have whole := first
      unfold readGroups
      rw [first.length] at rest ⊢
      cases first with
      | nil => exact rest
      | @cons token token' _ _ same _ _ _ =>
          have ellipsis : token.lexeme = .punctuation .ellipsis ↔
            token'.lexeme = .punctuation .ellipsis := same.eq_iff rfl
          simp only [ellipsis]
          split
          · exact rest.bind fun _ _ found => .ok ⟨found.1, rfl⟩
          · refine (kin_read names kin whole).bind fun _ _ parameter => ?_
            exact rest.bind fun _ _ found => .ok ⟨.cons parameter found.1, found.2⟩

theorem kin_readAll {inside inside' : List Token}
    (names : Token.Names payloads written exact tokens tokens')
    (kin : Token.Kin payloads exact quoted beyond beyond' tokens tokens')
    (alike : Token.Akin payloads exact inside inside') :
    Mirrors (Failure.Alike (Token.Told payloads exact quoted))
      (fun found found' => List.Forall₂ (Alike written) found.1 found'.1 ∧ found.2 = found'.2)
      (readAll beyond tokens inside) (readAll beyond' tokens' inside') := by
  have void := alike.lexemes_eq_iff [.keyword .void] (List.forall_mem_singleton.2 rfl)
  simp only [readAll, void]
  split
  · exact .ok ⟨.nil, rfl⟩
  · exact kin_readGroups names kin (Token.alike_groups alike)

theorem named_unsupported {parameters parameters' : List Parameter}
    (alike : List.Forall₂ (Alike written) parameters parameters') :
    Option.Rel (CType.Named written) (parameters.findSome? Signature.unsupported?)
      (parameters'.findSome? Signature.unsupported?) := by
  induction alike with
  | nil => exact .none
  | @cons parameter parameter' _ _ first _ ih =>
      obtain ⟨type, same⟩ := first
      have rendered : CType.Named written parameter.type.render parameter'.type.render :=
        .inr ⟨_, _, type, rfl, rfl⟩
      obtain ⟨⟨base, wraps⟩, name⟩ := parameter
      obtain ⟨⟨base', wraps'⟩, name'⟩ := parameter'
      obtain ⟨base, same⟩ := type
      dsimp only at base same
      subst same
      rw [List.findSome?_cons, List.findSome?_cons]
      cases base with
      | generic => exact .some rendered
      | @plain base plain =>
          cases base with
          | void | int | double | named => exact ih
          | tagged => exact .some (.inl rfl)
          | generic name arguments => exact absurd rfl (plain name arguments)

end Parameter

/-! ### Functions -/

namespace Signature

/-- Signatures whose names are runs at the start of the tokens. -/
structure Alike (payloads written : String → String → Prop) (exact : Prop) (tokens : List Token)
    (signature signature' : Signature) : Prop where
  name : ∃ run run', run <+: tokens ∧ run ≠ [] ∧ Token.Akin payloads exact run run' ∧
    signature.name = Token.nameOf run ∧ signature'.name = Token.nameOf run'
  related : written signature.name signature'.name
  parameters : List.Forall₂ (Parameter.Alike written) signature.parameters signature'.parameters
  variadic : signature.variadic = signature'.variadic

theorem Alike.eq_name {signature signature' : Signature}
    (alike : signature.Alike payloads written exact tokens signature')
    (told : Token.Told payloads exact quoted) : signature.name = signature'.name := by
  obtain ⟨run, run', _, _, same, name, name'⟩ := alike.name
  rw [name, name', same.nameOf told]

theorem size_splitName {angles : Nat} {inName : Bool}
    (kin : Token.Kin payloads exact quoted beyond beyond' tokens tokens') :
    (splitName angles inName tokens).map (fun found => found.1.length) =
      (splitName angles inName tokens').map fun found => found.1.length := by
  induction kin generalizing angles inName with
  | nil => rfl
  | @cons token token' rest rest' same _ _ _ ih =>
      have later : ∀ angles inName, ((splitName angles inName rest).map fun found =>
          (token :: found.1, found.2)).map (fun found => found.1.length) =
          ((splitName angles inName rest').map fun found =>
            (token' :: found.1, found.2)).map fun found => found.1.length := by
        intro angles inName
        have longer := congrArg (Option.map (· + 1)) (@ih angles inName)
        rw [Option.map_map, Option.map_map] at longer
        rw [Option.map_map, Option.map_map]
        exact longer
      have named := same.view_eq (fun lexeme => lexeme.namesOperator inName) fun _ _ => rfl
      unfold splitName
      rw [named]
      dsimp only
      obtain same | ⟨_, _, _, here, there⟩ := same.eq_or
      swap
      · rw [here, there]
        exact later _ _
      rw [same]
      split
      · exact later _ _
      · exact later _ _
      · split
        · rfl
        · exact later _ _
      · rfl
      · rfl
      · exact later _ _

theorem kin_read {inName : Bool} (names : Token.Names payloads written exact tokens tokens')
    (kin : Token.Kin payloads exact quoted beyond beyond' tokens tokens') :
    Token.Reads payloads exact quoted beyond beyond' (Alike payloads written exact tokens)
      (read beyond inName tokens) (read beyond' inName tokens') := by
  have size := @size_splitName _ _ _ _ _ _ _ 0 inName kin
  rw [read, read]
  cases split : splitName 0 inName tokens with
  | none =>
      rw [split] at size
      rw [Option.map_eq_none_iff.1 size.symm]
      exact .error (.unexpected _ kin)
  | some parts =>
      obtain ⟨name, call⟩ := parts
      rw [split] at size
      obtain ⟨⟨name', call'⟩, split', count⟩ := Option.map_eq_some_iff.1 size.symm
      have whole := eq_of_splitName split
      have whole' := eq_of_splitName split'
      have cut := kin
      rw [whole, whole'] at cut
      obtain ⟨front, back⟩ := cut.split count.symm
      have start : name <+: tokens := ⟨call, whole.symm⟩
      have start' : name' <+: tokens' := ⟨call', whole'.symm⟩
      have behind : call.tail <:+ tokens := (List.tail_suffix call).trans ⟨name, whole.symm⟩
      have behind' : call'.tail <:+ tokens' := (List.tail_suffix call').trans ⟨name', whole'.symm⟩
      rw [split']
      dsimp only
      rw [front.isEmpty]
      split
      · exact .error (.unexpected _ kin)
      · next some =>
          have some' : name ≠ [] := by
            rintro rfl
            rw [← front.isEmpty] at some
            exact some rfl
          refine (Enclosure.kin_read kin back).bind fun enclosed enclosed' inner => ?_
          have call := back.drop 1
          rw [List.drop_one, List.drop_one] at call
          have given := Parameter.kin_readAll (names.suffix behind behind') call inner.inside.akin
          refine given.bind fun _ _ found => .ok ⟨⟨?_, ?_, found.1, found.2⟩, inner.after⟩
          · exact ⟨name, name', start, some', front.akin, rfl, rfl⟩
          · exact names _ _ start.isInfix start'.isInfix front.akin

theorem kin_outcome {signature signature' : Signature} {kind kind' : FunctionKind}
    (peers : scope.Peers scope') (alikeKind : kind.Alike written kind')
    (alike : signature.Alike payloads written exact tokens signature') :
    Outcome.Alike written (signature.outcome scope kind) (signature'.outcome scope' kind') := by
  have named := Parameter.named_unsupported alike.parameters
  rw [outcome, outcome, alike.variadic]
  split
  · exact ⟨.none, .cons (.ofFunction alike.related (.inl rfl)) .nil⟩
  · generalize signature.parameters.findSome? unsupported? = type? at named ⊢
    generalize signature'.parameters.findSome? unsupported? = type?' at named ⊢
    cases named with
    | none =>
        exact ⟨.some (.ofFunction ⟨alikeKind, alike.related, alike.parameters, peers.isNested⟩), .nil⟩
    | some named => exact ⟨.none, .cons (.ofFunction alike.related named) .nil⟩

end Signature

theorem Token.nameOf_eq_iff {token : Token} {rest : List Token} {name : String}
    (read : AreRead (token :: rest)) (named : token.lexeme = .identifier name) :
    nameOf (token :: rest) = name ↔ rest = [] := by
  cases rest with
  | nil => simp [nameOf, textOf, named, Lexeme.spelling]
  | cons next more =>
      have spelled : textOf (next :: more) ≠ [] := fun none =>
        nameOf_ne_empty (read.subset (List.subset_cons_self _ _)) (List.cons_ne_nil next more)
          (congrArg String.ofList none)
      have size := List.length_pos_iff.2 spelled
      refine iff_of_false (fun same => ?_) (List.cons_ne_nil _ _)
      have length := congrArg (fun text : String => text.toList.length) same
      simp only [nameOf, textOf, named, Lexeme.spelling, String.toList_ofList, List.length_append]
        at length
      omega

theorem Token.Kin.areRead (kin : Kin payloads exact quoted beyond beyond' tokens tokens')
    (read : AreRead tokens) : AreRead tokens' := by
  induction kin with
  | nil => exact read
  | cons same _ _ _ ih =>
      obtain ⟨here, later⟩ := List.forall_mem_cons.1 read
      refine List.forall_mem_cons.2 ⟨?_, ih later⟩
      obtain same | ⟨_, _, _, _, there⟩ := same.eq_or
      · exact same ▸ here
      · rw [there]
        exact ⟨List.cons_ne_nil _ _, fun _ other => by cases other⟩

namespace Function

theorem kin_dropEnding {name name' : String}
    (names : Token.Told payloads exact quoted → name = name')
    (kin : Token.Kin payloads exact quoted beyond beyond' tokens tokens') :
    Mirrors (Failure.Alike (Token.Told payloads exact quoted))
      (Token.Kin payloads exact quoted beyond beyond')
      (dropEnding beyond name tokens) (dropEnding beyond' name' tokens') := by
  have whole := kin
  fun_induction dropEnding beyond name tokens generalizing tokens' with
  | case1 =>
      cases kin
      rw [dropEnding]
      exact .error ⟨rfl, fun told => by rw [names told]⟩
  | case2 token rest semicolon =>
      obtain _ | ⟨same, _, _, behind⟩ := kin
      rw [dropEnding_semicolon ((same.eq_iff rfl).1 semicolon)]
      exact .ok behind
  | case3 token rest opening =>
      obtain _ | ⟨same, _, _, _⟩ := kin
      rw [dropEnding_curly ((same.eq_iff rfl).1 opening)]
      exact (Enclosure.kin_read whole whole).map fun _ _ inner =>
        Token.kin_dropSemicolon inner.after
  | case4 token rest opening enclosed here ih =>
      have enclosing := Enclosure.kin_read whole whole
      obtain _ | ⟨same, _, _, _⟩ := kin
      rw [dropEnding_round ((same.eq_iff rfl).1 opening)]
      rw [here] at enclosing
      generalize Enclosure.read beyond' _ _ = result at enclosing ⊢
      cases enclosing with
      | ok inner => exact ih inner.after inner.after
  | case5 token rest opening error here =>
      have enclosing := Enclosure.kin_read whole whole
      obtain _ | ⟨same, _, _, _⟩ := kin
      rw [dropEnding_round ((same.eq_iff rfl).1 opening)]
      rw [here] at enclosing
      generalize Enclosure.read beyond' _ _ = result at enclosing ⊢
      cases enclosing with
      | error alike => exact .error alike
  | case6 token rest notSemicolon notCurly notRound ih =>
      obtain _ | ⟨same, _, _, behind⟩ := kin
      rw [dropEnding_other (mt (same.eq_iff rfl).2 notSemicolon) (mt (same.eq_iff rfl).2 notCurly)
        (mt (same.eq_iff rfl).2 notRound)]
      exact ih behind behind

theorem kin_read {inName : Bool} (peers : scope.Peers scope')
    (names : Token.Names payloads written exact tokens tokens')
    (kin : Token.Kin payloads exact quoted scope.beyond scope'.beyond tokens tokens') :
    Token.Reads payloads exact quoted scope.beyond scope'.beyond (Outcome.Alike written)
      (read scope inName tokens) (read scope' inName tokens') := by
  unfold read
  refine (CType.kin_read names kin).bind_within (CType.endsIn_read _ tokens)
    (CType.endsIn_read _ tokens') ?_
  rintro ⟨type, rest⟩ ⟨type', rest'⟩ ⟨alikeType, behind⟩ suffix suffix'
  dsimp only
  rw [(kin.before behind).namesOperator]
  refine (Signature.kin_read (names.suffix suffix suffix') behind).bind ?_
  rintro ⟨signature, rest⟩ ⟨signature', rest'⟩ ⟨alike, behind⟩
  refine (kin_dropEnding alike.eq_name behind).bind fun _ _ after => ?_
  exact .ok ⟨Signature.kin_outcome peers (.returning alikeType) alike, after⟩

theorem kin_dropFunctionSpecifiers
    (kin : Token.Kin payloads exact quoted beyond beyond' tokens tokens') :
    Token.Kin payloads exact quoted beyond beyond' (Token.dropFunctionSpecifiers tokens)
      (Token.dropFunctionSpecifiers tokens') := by
  unfold Token.dropFunctionSpecifiers
  induction kin with
  | nil quote => exact .nil quote
  | cons same gap quote behind ih =>
      rw [List.dropWhile_cons, List.dropWhile_cons,
        same.view_eq Lexeme.isFunctionSpecifier fun _ _ => rfl]
      split
      · exact ih
      · exact .cons same gap quote behind

/-- The name of a constructor is read by the token of its class. -/
theorem kin_readConstructor {token : Token} {rest : List Token} (peers : scope.Peers scope')
    (names : Token.Names payloads written exact tokens tokens')
    (kin : Token.Kin payloads exact quoted scope.beyond scope'.beyond tokens tokens')
    (read : Token.AreRead tokens) (starts : Token.dropFunctionSpecifiers tokens = token :: rest)
    (named : token.lexeme = .identifier (scope.owner.getD "")) :
    Token.Reads payloads exact quoted scope.beyond scope'.beyond (Outcome.Alike written)
      (readConstructor scope tokens) (readConstructor scope' tokens') := by
  have start := kin_dropFunctionSpecifiers kin
  have suffix := dropFunctionSpecifiers_suffix tokens
  unfold readConstructor
  rw [← peers.owner]
  refine (Signature.kin_read
    (names.suffix suffix (dropFunctionSpecifiers_suffix tokens')) start).bind ?_
  rintro ⟨signature, rest⟩ ⟨signature', rest'⟩ ⟨alike, behind⟩
  have owned : signature.name = scope.owner.getD "" ↔ signature'.name = scope.owner.getD "" := by
    obtain ⟨run, run', within, some, alikeRun, name, name'⟩ := alike.name
    rw [starts] at within suffix
    have readRun : Token.AreRead run := read.subset fun _ mem =>
      suffix.subset (within.subset mem)
    have readRun' := alikeRun.areRead readRun
    cases alikeRun with
    | nil => exact absurd rfl some
    | cons same _ _ others =>
        obtain ⟨_, whole⟩ := within
        obtain ⟨rfl, _⟩ := List.cons.inj whole
        have single := others.isEmpty
        rw [name, name', Token.nameOf_eq_iff readRun named,
          Token.nameOf_eq_iff readRun' ((same.eq_iff rfl).1 named), ← List.isEmpty_iff,
          ← List.isEmpty_iff, single]
  dsimp only
  by_cases mismatch : signature.name = scope.owner.getD ""
  · rw [if_neg (by simpa using mismatch), if_neg (by simpa using owned.1 mismatch)]
    refine (kin_dropEnding alike.eq_name behind).bind fun _ _ after => ?_
    exact .ok ⟨Signature.kin_outcome peers .constructor alike, after⟩
  · rw [if_pos mismatch, if_pos fun same => mismatch (owned.2 same)]
    exact .error ⟨rfl, fun told => by rw [alike.eq_name told]⟩

theorem kin_readDestructor (names : Token.Names payloads written exact tokens tokens')
    (kin : Token.Kin payloads exact quoted scope.beyond scope'.beyond tokens tokens') :
    Token.Reads payloads exact quoted scope.beyond scope'.beyond (Outcome.Alike written)
      (readDestructor scope tokens) (readDestructor scope' tokens') := by
  have within := kin_dropFunctionSpecifiers kin
  have starts := names.suffix (dropFunctionSpecifiers_suffix tokens)
    (dropFunctionSpecifiers_suffix tokens')
  unfold readDestructor
  generalize Token.dropFunctionSpecifiers tokens = start at within starts ⊢
  generalize Token.dropFunctionSpecifiers tokens' = start' at within starts ⊢
  have whole := within
  cases within with
  | nil => exact .error (.unexpected _ whole)
  | @cons token token' _ _ same _ _ behind =>
      have tilde : token.lexeme = .punctuation .tilde ↔ token'.lexeme = .punctuation .tilde :=
        same.eq_iff rfl
      simp only [tilde]
      split
      · have named := starts.suffix (List.suffix_cons _ _) (List.suffix_cons _ _)
        refine (Signature.kin_read named behind).bind ?_
        rintro ⟨signature, rest⟩ ⟨signature', rest'⟩ ⟨alike, behind⟩
        refine (kin_dropEnding (fun told => by rw [alike.eq_name told]) behind).bind
          fun _ _ after => ?_
        exact .ok ⟨⟨.none, .nil⟩, after⟩
      · exact .error (.unexpected _ whole)

end Function

theorem Typedef.kin_read (kin : Token.Kin payloads exact quoted beyond beyond' tokens tokens') :
    Token.Reads payloads exact quoted beyond beyond' (Outcome.Alike written) (read tokens)
      (read tokens') := by
  have back := (@Token.kin_splitOutside _ _ _ _ _ _ _ Lexeme.isSemicolon 0
    (fun _ _ => rfl) kin).2
  unfold read
  generalize (Token.splitOutside Lexeme.isSemicolon 0 tokens).2 = rest at back ⊢
  generalize (Token.splitOutside Lexeme.isSemicolon 0 tokens').2 = rest' at back ⊢
  cases back with
  | nil => exact .error (.refl _)
  | cons _ _ _ behind => exact .ok ⟨⟨.none, .nil⟩, behind⟩

end PxdStub
