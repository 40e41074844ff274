import PxdStub.Proofs.TwinReaders

/-!
Items go the same way on kin tokens: kinds are told by lexemes, classes have kin sections, and what
is emitted and omitted is alike, in single items and in whole runs. Twins are the kin whose string
literals are the same.
-/

namespace PxdStub

variable {payloads written : String → String → Prop}
variable {exact quoted : Prop} {beyond beyond' : List Char} {tokens tokens' : List Token}

/-! ### Kinds -/

namespace Kind

theorem reachesParenthesis_kin
    (kin : Token.Kin payloads exact quoted beyond beyond' tokens tokens') :
    reachesParenthesis tokens = reachesParenthesis tokens' := by
  induction kin with
  | nil => rfl
  | cons same _ _ _ ih =>
      rw [reachesParenthesis, reachesParenthesis]
      obtain same | ⟨_, _, _, here, there⟩ := same.eq_or
      · rw [same, ih]
      · rw [here, there]
        exact ih

theorem ofOwner?_kin {owner : String}
    (kin : Token.Kin payloads exact quoted beyond beyond' tokens tokens') :
    ofOwner? owner tokens = ofOwner? owner tokens' := by
  have within := Function.kin_dropFunctionSpecifiers kin
  unfold ofOwner?
  generalize Token.dropFunctionSpecifiers tokens = start at within ⊢
  generalize Token.dropFunctionSpecifiers tokens' = start' at within ⊢
  cases within with
  | nil => rfl
  | @cons token token' _ _ same _ _ behind =>
      have next := behind.any_head (.identifier owner) rfl
      have named := same.view_eq (fun lexeme => decide (lexeme = .identifier owner)) fun _ _ => rfl
      have tilde :=
        same.view_eq (fun lexeme => decide (lexeme = .punctuation .tilde)) fun _ _ => rfl
      dsimp only at named tilde ⊢
      rw [named, tilde, reachesParenthesis_kin behind, next]

theorem isCallable_kin {braces angles : Nat} {inName : Bool}
    (kin : Token.Kin payloads exact quoted beyond beyond' tokens tokens') :
    isCallable braces angles inName tokens = isCallable braces angles inName tokens' := by
  induction kin generalizing braces angles inName with
  | nil => rfl
  | cons same _ _ _ ih =>
      have named := same.view_eq (fun lexeme => lexeme.namesOperator inName) fun _ _ => rfl
      unfold isCallable
      dsimp only at named ⊢
      rw [named]
      obtain same | ⟨_, _, _, here, there⟩ := same.eq_or
      · rw [same]
        simp only [ih]
      · rw [here, there]
        exact ih

theorem ofTokens_kin {owner : Option String} {inName : Bool}
    (kin : Token.Kin payloads exact quoted beyond beyond' tokens tokens') :
    ofTokens owner inName tokens = ofTokens owner inName tokens' := by
  have named : (owner.bind fun owner => ofOwner? owner tokens) =
      owner.bind fun owner => ofOwner? owner tokens' := by
    cases owner with
    | none => rfl
    | some owner => exact ofOwner?_kin kin
  have keyword : ofKeyword? tokens = ofKeyword? tokens' := by
    cases kin with
    | nil => rfl
    | cons same _ _ _ =>
        exact same.view_eq (fun lexeme => ofKeyword? [⟨lexeme, 0, []⟩]) fun _ _ => rfl
  rw [ofTokens, ofTokens, named, keyword, isCallable_kin kin]

end Kind

/-! ### Classes -/

theorem Token.startsLabel_kin (kin : Kin payloads exact quoted beyond beyond' tokens tokens') :
    startsLabel tokens = startsLabel tokens' := by
  obtain _ | ⟨same, _, _, _ | ⟨same', _, _, _⟩⟩ := kin
  · rfl
  · rfl
  · rw [startsLabel, startsLabel, same.view_eq Lexeme.isAccess fun _ _ => rfl,
      same'.view_eq (fun lexeme => decide (lexeme = .punctuation .colon)) fun _ _ => rfl]

namespace Section

def Kin (payloads : String → String → Prop) (exact quoted : Prop) (part part' : Section) : Prop :=
  Token.Kin payloads exact quoted part.beyond part'.beyond part.tokens part'.tokens

theorem kin_splitLabel {depth : Nat}
    (kin : Token.Kin payloads exact quoted beyond beyond' tokens tokens') :
    Token.Kin payloads exact quoted (Token.sourceOf (splitLabel depth tokens).2 ++ beyond)
        (Token.sourceOf (splitLabel depth tokens').2 ++ beyond') (splitLabel depth tokens).1
        (splitLabel depth tokens').1 ∧
      Token.Kin payloads exact quoted beyond beyond' (splitLabel depth tokens).2
        (splitLabel depth tokens').2 := by
  have size : (splitLabel depth tokens).1.length = (splitLabel depth tokens').1.length := by
    induction kin generalizing depth with
    | nil => rfl
    | @cons token token' rest rest' same gap quote behind ih =>
        have deeper : Token.nesting depth token = Token.nesting depth token' :=
          same.view_eq (fun lexeme => Token.nesting depth ⟨lexeme, 0, []⟩) fun _ _ => rfl
        rw [splitLabel, splitLabel, Token.startsLabel_kin (.cons same gap quote behind), deeper]
        split
        · rfl
        · exact congrArg (· + 1) ih
  have whole := kin
  rw [← splitLabel_append depth tokens, ← splitLabel_append depth tokens'] at whole
  exact whole.split size

theorem kin_publicFrom (kin : Token.Kin payloads exact quoted beyond beyond' tokens tokens') :
    List.Forall₂ (Kin payloads exact quoted) (publicFrom beyond tokens)
      (publicFrom beyond' tokens') := by
  induction size : tokens.length using Nat.strong_induction_on generalizing tokens tokens' with
  | _ size ih =>
      subst size
      obtain _ | ⟨same, _, _, _ | @⟨colon, colon', rest, rest', _, _, _, behind⟩⟩ := kin
      · rw [publicFrom, publicFrom]
        · exact .nil
        · exact fun _ _ _ none => by cases none
        · exact fun _ _ _ none => by cases none
      · rw [publicFrom, publicFrom]
        · exact .nil
        · exact fun _ _ _ none => by cases none
        · exact fun _ _ _ none => by cases none
      · obtain ⟨front, back⟩ := @kin_splitLabel _ _ _ _ _ _ _ 0 behind
        have whole := congrArg List.length (splitLabel_append 0 rest)
        rw [List.length_append] at whole
        have later := ih _ (by simp only [List.length_cons]; omega) back rfl
        rw [publicFrom, publicFrom, front.isEmpty,
          same.view_eq (fun lexeme => decide (lexeme = .keyword .publicKey)) fun _ _ => rfl]
        split
        · exact .cons front later
        · exact later

theorem kin_publicOf (kin : Token.Kin payloads exact quoted beyond beyond' tokens tokens') :
    List.Forall₂ (Kin payloads exact quoted) (publicOf beyond tokens) (publicOf beyond' tokens') :=
  kin_publicFrom (kin_splitLabel kin).2

end Section

namespace ClassItem

/-- The same class item with twin sections. -/
inductive Kin (payloads : String → String → Prop) (exact quoted : Prop) :
    ClassItem → ClassItem → Prop
  | forward {name} : Kin payloads exact quoted (.forward name) (.forward name)
  | definition {name sections sections'} :
      List.Forall₂ (Section.Kin payloads exact quoted) sections sections' →
      Kin payloads exact quoted (.definition name sections) (.definition name sections')

theorem kin_readBody {name : String}
    (kin : Token.Kin payloads exact quoted beyond beyond' tokens tokens') :
    Token.Reads payloads exact quoted beyond beyond' (Kin payloads exact quoted)
      (readBody beyond name tokens) (readBody beyond' name tokens') := by
  have back := (@Token.kin_splitOutside _ _ _ _ _ _ _
    (fun lexeme => lexeme.isSemicolon || lexeme = .opening .curly) 0 (fun _ _ => rfl) kin).2
  unfold readBody
  dsimp only
  generalize (Token.splitOutside _ 0 tokens).2 = start at back ⊢
  generalize (Token.splitOutside _ 0 tokens').2 = start' at back ⊢
  have whole := back
  cases back with
  | nil => exact .error (.refl _)
  | cons same _ _ behind =>
      dsimp only
      rw [same.view_eq Lexeme.isSemicolon fun _ _ => rfl]
      split
      · exact .ok ⟨.forward, behind⟩
      · refine (Enclosure.kin_read kin whole).map fun _ _ inner => ?_
        exact ⟨.definition (Section.kin_publicOf inner.inside), Token.kin_dropSemicolon inner.after⟩

theorem kin_read (kin : Token.Kin payloads exact quoted beyond beyond' tokens tokens') :
    Token.Reads payloads exact quoted beyond beyond' (Kin payloads exact quoted)
      (read beyond tokens) (read beyond' tokens') := by
  have whole := kin
  unfold read
  obtain _ | @⟨word, word', _, _, same, _, _, single | ⟨same', gap, quote, behind⟩⟩ := kin
  · exact .error (.refl _)
  · have keyed : word.lexeme = .keyword .classKey ↔ word'.lexeme = .keyword .classKey :=
      same.eq_iff rfl
    simp only [keyed]
    split
    · exact .error (.refl _)
    · exact .error (.unexpected _ whole)
  · have keyed : word.lexeme = .keyword .classKey ↔ word'.lexeme = .keyword .classKey :=
      same.eq_iff rfl
    simp only [keyed]
    split
    · obtain equal | ⟨_, _, _, here, there⟩ := same'.eq_or
      · rw [equal]
        split
        · exact kin_readBody behind
        · exact .error (.unexpected _ (.cons same' gap quote behind))
      · rw [here, there]
        exact .error (.unexpected _ (.cons same' gap quote behind))
    · exact .error (.unexpected _ whole)

end ClassItem

/-! ### Items -/

namespace Item

theorem kind?_kin {owner : Option String} {inName : Bool}
    (kin : Token.Kin payloads exact quoted beyond beyond' tokens tokens') :
    kind? owner inName tokens = kind? owner inName tokens' := by
  have whole := kin
  cases kin with
  | nil => rfl
  | cons same _ _ _ =>
      rw [kind?, kind?, same.view_eq Lexeme.isSemicolon fun _ _ => rfl, Kind.ofTokens_kin whole]

theorem kin_dropTemplate (kin : Token.Kin payloads exact quoted beyond beyond' tokens tokens') :
    Mirrors (Failure.Alike (Token.Told payloads exact quoted))
      (Token.Kin payloads exact quoted beyond beyond')
      (dropTemplate beyond tokens) (dropTemplate beyond' tokens') := by
  have inner := kin.drop 1
  rw [List.drop_one, List.drop_one] at inner
  unfold dropTemplate
  generalize tokens.tail = start at inner ⊢
  generalize tokens'.tail = start' at inner ⊢
  have whole := inner
  cases inner with
  | nil => exact .error (.refl _)
  | @cons token token' _ _ same _ _ _ =>
      have opens : token.lexeme = .opening .angle ↔ token'.lexeme = .opening .angle :=
        same.eq_iff rfl
      simp only [opens]
      split
      · exact (Enclosure.kin_read whole whole).map fun _ _ enclosed => enclosed.after
      · exact .error (.unexpected _ whole)

/-- Constructors begin with the name of their class, but for words in front of it. -/
theorem head_of_constructor {owner : Option String} {inName : Bool}
    (starts : kind? owner inName tokens = some .constructor) :
    ∃ token rest, Token.dropFunctionSpecifiers tokens = token :: rest ∧
      token.lexeme = .identifier (owner.getD "") := by
  obtain ⟨first, more, rfl, _, kind⟩ := kind?_eq_some_iff.1 starts
  obtain ⟨owner, rfl⟩ := Option.isSome_iff_exists.1 (owner_of_constructor starts)
  unfold Kind.ofTokens at kind
  rw [Option.bind_some] at kind
  split at kind
  · next found =>
      rw [kind, Kind.ofOwner?] at found
      split at found
      · cases found
      · next token rest head =>
          refine ⟨token, rest, head, ?_⟩
          split at found
          · next named =>
              rw [Bool.and_eq_true, decide_eq_true_eq] at named
              exact named.1
          · split at found <;> cases found
  · split at kind
    · next keyword =>
        rw [kind, Kind.ofKeyword?] at keyword
        split at keyword <;> cases keyword
    · split at kind <;> cases kind

variable {scope scope' : Scope}

theorem kin_readPlain {inName : Bool} {kind : Kind} (peers : scope.Peers scope')
    (names : Token.Names payloads written exact tokens tokens') (read : Token.AreRead tokens)
    (starts : kind? scope.owner inName tokens = some kind)
    (kin : Token.Kin payloads exact quoted scope.beyond scope'.beyond tokens tokens') :
    Token.Reads payloads exact quoted scope.beyond scope'.beyond (Outcome.Alike written)
      (readPlain scope inName kind tokens) (readPlain scope' inName kind tokens') := by
  unfold readPlain
  cases kind with
  | function => exact Function.kin_read peers names kin
  | constructor =>
      obtain ⟨token, rest, head, named⟩ := head_of_constructor starts
      exact Function.kin_readConstructor peers names kin read head named
  | destructor => exact Function.kin_readDestructor names kin
  | typedef => exact Typedef.kin_read kin
  | variableList | classType | template | inline => exact Variable.kin_read peers names kin

/-- Items that are emitted alike, with kin behind them. -/
abbrev Pairs (payloads written : String → String → Prop) (exact quoted : Prop)
    (scope scope' : Scope) :
    Option Declaration × List Token → Option Declaration × List Token → Prop :=
  fun found found' => Option.Rel (Declaration.Alike written) found.1 found'.1 ∧
    Token.Kin payloads exact quoted scope.beyond scope'.beyond found.2 found'.2

theorem Pairs.of_outcome {found found' : Outcome × List Token}
    (pairs : Outcome.Alike written found.1 found'.1 ∧
      Token.Kin payloads exact quoted scope.beyond scope'.beyond found.2 found'.2) :
    Course.Mirrors written (Failure.Alike (Token.Told payloads exact quoted))
      (Pairs payloads written exact quoted scope scope')
      (Course.bind (Course.note found.1.notes) fun _ =>
        Course.pure (found.1.declaration?, found.2))
      (Course.bind (Course.note found'.1.notes) fun _ =>
        Course.pure (found'.1.declaration?, found'.2)) :=
  (Course.Mirrors.note pairs.1.omissions).bind fun _ _ _ _ _ => .pure ⟨pairs.1.declaration?, pairs.2⟩

/-- Sections that are read alike, one behind the other. -/
theorem twins_sections {sections sections' : List Section} {related : Section → Section → Prop}
    {body body' : Section → Course Failure (List Declaration)} {same : Prop}
    (mirrors : ∀ part part', part ∈ sections → part' ∈ sections' → related part part' →
      Course.Mirrors written (Failure.Alike same) (List.Forall₂ (Declaration.Alike written))
        (body part) (body' part'))
    (parts : List.Forall₂ related sections sections') :
    Course.Mirrors written (Failure.Alike same)
      (List.Forall₂ (List.Forall₂ (Declaration.Alike written)))
      (Course.all (sections.map fun part => (body part).losing))
      (Course.all (sections'.map fun part => (body' part).losing)) := by
  obtain ⟨size, paired⟩ := List.forall₂_iff_zip.1 parts
  refine Course.Mirrors.all ?_
  rw [List.forall₂_map_left_iff, List.forall₂_map_right_iff]
  refine List.forall₂_iff_zip.2 ⟨size, fun {part part'} pair => ?_⟩
  obtain ⟨mem, mem'⟩ := List.of_mem_zip pair
  exact (mirrors part part' mem mem' (paired pair)).losing

mutual

theorem kin_read {scope scope' : Scope} {inName : Bool} {tokens tokens' : List Token}
    (peers : scope.Peers scope') (names : Token.Names payloads written exact tokens tokens')
    (areRead : Token.AreRead tokens)
    (kin : Token.Kin payloads exact quoted scope.beyond scope'.beyond tokens tokens') :
    Course.Mirrors written (Failure.Alike (Token.Told payloads exact quoted))
      (Pairs payloads written exact quoted scope scope')
      (read scope inName tokens) (read scope' inName tokens') := by
  match tokens, tokens', kin, names, areRead with
  | [], [], _, _, _ =>
      rw [read, read]
      exact .fail (.refl _)
  | token :: rest, token' :: rest', kin, names, areRead =>
      have whole := kin
      cases kin with
      | cons same _ _ behind =>
      rw [read, read, same.view_eq Lexeme.isSemicolon fun _ _ => rfl, Kind.ofTokens_kin whole,
        ← peers.owner]
      split
      · exact .pure ⟨.none, behind⟩
      · next other =>
          refine (Course.Mirrors.note .nil).bind fun _ _ _ _ _ => ?_
          refine kin_readKind peers names areRead whole ?_
          rw [kind?_kin whole, kind?, if_neg other]
termination_by (tokens.length, 1)

theorem kin_readKind {scope scope' : Scope} {inName : Bool} {kind : Kind} {token token' : Token}
    {rest rest' : List Token} (peers : scope.Peers scope')
    (names : Token.Names payloads written exact (token :: rest) (token' :: rest'))
    (areRead : Token.AreRead (token :: rest))
    (kin : Token.Kin payloads exact quoted scope.beyond scope'.beyond (token :: rest)
      (token' :: rest'))
    (starts : kind? scope.owner inName (token :: rest) = some kind) :
    Course.Mirrors written (Failure.Alike (Token.Told payloads exact quoted))
      (Pairs payloads written exact quoted scope scope')
      (readKind scope inName kind token rest) (readKind scope' inName kind token' rest') := by
  cases kind with
  | template =>
      rw [readKind_template, readKind_template]
      refine (Course.Mirrors.ofExcept (kin_dropTemplate kin)).bind ?_
      intro inner inner' found found' behind
      have dropped : dropTemplate scope.beyond (token :: rest) = .ok inner := found
      have dropped' : dropTemplate scope'.beyond (token' :: rest') = .ok inner' := found'
      have shorter := length_dropTemplate dropped
      have suffix := endsIn_dropTemplate scope.beyond (token :: rest)
      have suffix' := endsIn_dropTemplate scope'.beyond (token' :: rest')
      rw [dropped] at suffix
      rw [dropped'] at suffix'
      rw [(kin.before behind).namesOperator]
      exact kin_read peers (names.suffix suffix suffix') (areRead.subset suffix.subset) behind
  | inline =>
      cases kin with
      | cons same _ _ behind =>
          rw [readKind, readKind,
            same.view_eq (fun lexeme => lexeme.namesOperator inName) fun _ _ => rfl]
          exact kin_read peers (names.suffix (List.suffix_cons _ _) (List.suffix_cons _ _))
            (areRead.subset (List.subset_cons_self _ _)) behind
  | classType =>
      rw [readKind_classType, readKind_classType]
      refine (Course.Mirrors.ofExcept (ClassItem.kin_read kin)).bind ?_
      rintro ⟨item, after⟩ ⟨item', after'⟩ found found' ⟨alike, behind⟩
      cases alike with
      | forward => exact (Course.Mirrors.note .nil).bind fun _ _ _ _ _ => .pure ⟨.none, behind⟩
      | @definition name sections sections' parts =>
          have defined : ClassItem.read scope.beyond (token :: rest) =
              .ok (.definition name sections, after) := found
          have defined' : ClassItem.read scope'.beyond (token' :: rest') =
              .ok (.definition name sections', after') := found'
          have members : Course.Mirrors written (Failure.Alike (Token.Told payloads exact quoted))
              (List.Forall₂ (List.Forall₂ (Declaration.Alike written)))
              (Course.all (sections.map fun part => (readAll ⟨some name, scope.depth + 1, part.beyond⟩
                (nestedNotes name) false part.tokens).losing))
              (Course.all (sections'.map fun part => (readAll
                ⟨some name, scope'.depth + 1, part.beyond⟩ (nestedNotes name) false
                  part.tokens).losing)) := by
            refine twins_sections (fun part part' mem mem' twinParts => ?_) parts
            have shorter := ClassItem.length_of_mem_sections defined mem
            have inside := ClassItem.infix_of_mem_sections defined mem
            have inside' := ClassItem.infix_of_mem_sections defined' mem'
            exact kin_readAll ⟨rfl, rfl⟩ (names.among inside inside') (nestedNotes_silent name)
              (nestedNotes_silent name) (areRead.subset inside.subset) twinParts
          refine Course.Mirrors.bind (members.mapError fun _ _ alike => alike) ?_
          intro declarations declarations' _ _ all
          refine .pure ⟨.some (.ofClass ⟨rfl, ?_⟩), behind⟩
          exact Declaration.Alike.members (List.rel_flatten all)
  | variableList | function | typedef | constructor | destructor =>
      rw [readKind_of_isPlain rfl, readKind_of_isPlain rfl]
      exact (Course.Mirrors.ofExcept (kin_readPlain peers names areRead starts kin)).bind
        fun _ _ _ _ pairs => Pairs.of_outcome pairs
termination_by ((token :: rest).length, 0)

theorem kin_readAll {scope scope' : Scope} {notesOf notesOf' : Declaration → List Note}
    {inName : Bool} {tokens tokens' : List Token} (peers : scope.Peers scope')
    (names : Token.Names payloads written exact tokens tokens')
    (silent : ∀ declarations : List Declaration, Note.omissions (declarations.flatMap notesOf) = [])
    (silent' : ∀ declarations : List Declaration, Note.omissions (declarations.flatMap notesOf') = [])
    (areRead : Token.AreRead tokens)
    (kin : Token.Kin payloads exact quoted scope.beyond scope'.beyond tokens tokens') :
    Course.Mirrors written (Failure.Alike (Token.Told payloads exact quoted))
      (List.Forall₂ (Declaration.Alike written))
      (readAll scope notesOf inName tokens) (readAll scope' notesOf' inName tokens') := by
  match tokens, tokens', kin, names, areRead with
  | [], [], _, _, _ =>
      rw [readAll, readAll]
      exact .pure .nil
  | token :: rest, token' :: rest', kin, names, areRead =>
      rw [readAll, readAll]
      refine (kin_read peers names areRead kin).bind ?_
      rintro ⟨declaration?, after⟩ ⟨declaration?', after'⟩ found found' ⟨item, behind⟩
      have suffix := endsIn_read scope inName (token :: rest)
      have suffix' := endsIn_read scope' inName (token' :: rest')
      rw [found] at suffix
      rw [found'] at suffix'
      have emitted : List.Forall₂ (Declaration.Alike written) declaration?.toList
          declaration?'.toList := by
        cases item with
        | none => exact .nil
        | some alike => exact .cons alike .nil
      refine (Course.Mirrors.note (by rw [silent, silent']; exact .nil)).bind fun _ _ _ _ _ => ?_
      rw [behind.length, kin.length]
      split
      · next shorter =>
          have shorter' : after.length < (token :: rest).length := by
            rwa [← behind.length, ← kin.length] at shorter
          rw [(kin.before behind).namesOperator]
          refine (kin_readAll peers (names.suffix suffix suffix') silent silent'
            (areRead.subset suffix.subset) behind).bind ?_
          exact fun _ _ _ _ later => .pure (List.rel_append emitted later)
      · exact .pure emitted
termination_by (tokens.length, 2)

end

/-! ### Twins -/

theorem twins_read {scope scope' : Scope} {inName : Bool} {tokens tokens' : List Token}
    (peers : scope.Peers scope') (names : Token.Names Eq written exact tokens tokens')
    (areRead : Token.AreRead tokens)
    (twins : Token.Twins exact quoted scope.beyond scope'.beyond tokens tokens') :
    Course.Mirrors written (Failure.Alike (exact ∧ quoted))
      (fun found found' => Option.Rel (Declaration.Alike written) found.1 found'.1 ∧
        Token.Twins exact quoted scope.beyond scope'.beyond found.2 found'.2)
      (read scope inName tokens) (read scope' inName tokens') := by
  refine (kin_read peers names areRead twins.kin).imp (fun _ _ alike => ?_) fun _ _ pairs => ?_
  · exact alike.mono fun both => ⟨both.1, both.2, fun _ _ => id⟩
  · exact ⟨pairs.1, pairs.2.twins fun _ _ => id⟩

theorem twins_readAll {scope scope' : Scope} {notesOf notesOf' : Declaration → List Note}
    {inName : Bool} {tokens tokens' : List Token} (peers : scope.Peers scope')
    (names : Token.Names Eq written exact tokens tokens')
    (silent : ∀ declarations : List Declaration, Note.omissions (declarations.flatMap notesOf) = [])
    (silent' : ∀ declarations : List Declaration, Note.omissions (declarations.flatMap notesOf') = [])
    (areRead : Token.AreRead tokens)
    (twins : Token.Twins exact quoted scope.beyond scope'.beyond tokens tokens') :
    Course.Mirrors written (Failure.Alike (exact ∧ quoted))
      (List.Forall₂ (Declaration.Alike written))
      (readAll scope notesOf inName tokens) (readAll scope' notesOf' inName tokens') := by
  refine (kin_readAll peers names silent silent' areRead twins.kin).imp (fun _ _ alike => ?_)
    fun _ _ all => all
  exact alike.mono fun both => ⟨both.1, both.2, fun _ _ => id⟩

end Item

end PxdStub
