import PxdStub.Proofs.SpelledFunctions

/-!
Declarations are read back from their spelling: the kind of each is found by looking ahead, classes are
read by their members, and a list of declarations one by one.
-/

namespace PxdStub

/-! ### Angle brackets -/

/-- How many angle brackets are open behind a lexeme. -/
def Lexeme.anglesBehind (angles : Nat) : Lexeme → Nat
  | .opening .angle => angles + 1
  | .closing .angle => angles - 1
  | _ => angles

theorem Lexeme.foldl_anglesBehind {lexemes : List Lexeme} (level : ∀ lexeme ∈ lexemes,
    lexeme.isLevel ∨ lexeme = .punctuation .comma) (angles : Nat) :
    lexemes.foldl anglesBehind angles = angles := by
  induction lexemes with
  | nil => rfl
  | cons lexeme more ih =>
      have here : anglesBehind angles lexeme = angles := by
        rcases level lexeme List.mem_cons_self with plain | rfl
        · cases lexeme with
          | opening bracket | closing bracket => simp [isLevel] at plain
          | _ => rfl
        · rfl
      rw [List.foldl_cons, here]
      exact ih fun lexeme mem => level lexeme (List.mem_cons_of_mem _ mem)

theorem Lexeme.isLevel_of_startsName {lexeme : Lexeme} (starts : lexeme.startsName) :
    lexeme.isLevel := by
  cases lexeme with
  | punctuation mark => cases mark <;> simp_all [startsName, isLevel]
  | identifier name => rfl
  | _ => simp [startsName] at starts

theorem BaseType.foldl_anglesBehind {base : BaseType} (wellFormed : base.IsWellFormed) :
    base.lexemes.foldl Lexeme.anglesBehind 0 = 0 := by
  have named : ∀ name angles, IsQualified name →
      (Text.lexemes name.toList).foldl Lexeme.anglesBehind angles = angles := by
    rintro _ angles ⟨parts, plain, rfl⟩
    rw [(QualifiedName.spells plain).lexemes_eq]
    refine Lexeme.foldl_anglesBehind (fun lexeme mem => Or.inl ?_) angles
    exact Lexeme.isLevel_of_startsName (QualifiedName.startsName_of_mem plain mem)
  unfold lexemes
  cases base with
  | void | int | double => rfl
  | named name => exact named name 0 wellFormed
  | tagged name => exact named name 0 wellFormed
  | generic name arguments =>
      have inside : ∀ angles, (Lexeme.listed (arguments.map fun word =>
          [Lexeme.ofWord word])).foldl Lexeme.anglesBehind angles = angles := by
        intro angles
        refine Lexeme.foldl_anglesBehind (fun lexeme mem => ?_) angles
        rcases Lexeme.mem_listed mem with comma | ⟨_, among, within⟩
        · exact Or.inr comma
        · obtain ⟨word, _, rfl⟩ := List.mem_map.1 among
          rw [List.mem_singleton.1 within]
          exact Or.inl (Lexeme.isLevel_ofWord word)
      rw [List.foldl_append, List.foldl_cons, List.foldl_append, named name 0 wellFormed.1, inside]
      rfl

theorem CType.foldl_anglesBehind {type : CType} (wellFormed : type.base.IsWellFormed) :
    type.lexemes.foldl Lexeme.anglesBehind 0 = 0 := by
  rw [lexemes, List.foldl_append, BaseType.foldl_anglesBehind wellFormed]
  refine Lexeme.foldl_anglesBehind (fun lexeme mem => Or.inl ?_) 0
  rcases Wrap.eq_of_mem_lexemes mem with rfl | rfl <;> rfl

/-! ### Kinds -/

variable {front rest : List Token}

theorem Lexeme.not_functionSpecifier_of_isQuiet {lexeme : Lexeme} (quiet : lexeme.isQuiet) :
    lexeme.isFunctionSpecifier = false := by
  cases lexeme with
  | identifier name => exact not_functionSpecifier_of_isPlainName quiet
  | _ => rfl

theorem Lexeme.namesOperator_of_isQuiet {lexeme : Lexeme} (quiet : lexeme.isQuiet) :
    lexeme.namesOperator false = false := by
  have outside := @Token.namesOperator_of_quiet [⟨lexeme, 0, []⟩] (by simpa using quiet)
  exact outside

namespace Kind

/-- Quiet lexemes open and close angle brackets at most, so the decision is left to what follows. -/
theorem isCallable_of_quiet (quiet : ∀ token ∈ front, token.lexeme.isQuiet) (angles : Nat) :
    isCallable 0 angles false (front ++ rest) =
      isCallable 0 ((front.map Token.lexeme).foldl Lexeme.anglesBehind angles) false rest := by
  induction front generalizing angles with
  | nil => rfl
  | cons token front ih =>
      have here := quiet token List.mem_cons_self
      have outside := Lexeme.namesOperator_of_isQuiet here
      have later := ih fun token mem => quiet token (List.mem_cons_of_mem _ mem)
      rw [List.cons_append, isCallable, outside, List.map_cons, List.foldl_cons, ← later]
      cases same : token.lexeme with
      | opening bracket | closing bracket =>
          rw [same] at here
          cases bracket <;> first | rfl | simp [Lexeme.isQuiet] at here
      | punctuation mark =>
          rw [same] at here
          cases mark <;> first | rfl | simp [Lexeme.isQuiet] at here
      | _ => rfl

theorem reachesParenthesis_of_quiet {name : Token} {word : String}
    (quiet : ∀ token ∈ front, token.lexeme.isQuiet) (named : name.lexeme = .identifier word) :
    reachesParenthesis (front ++ name :: rest) = false := by
  induction front with
  | nil => simp only [List.nil_append, reachesParenthesis, named]
  | cons token front ih =>
      have here := quiet token List.mem_cons_self
      have later := ih fun token mem => quiet token (List.mem_cons_of_mem _ mem)
      rw [List.cons_append, reachesParenthesis]
      split
      · next opens => simp [opens, Lexeme.isQuiet] at here
      · rfl
      · rfl
      · exact later

theorem ofOwner?_of_quiet (owner : String) {name : Token} {word : String} (some : front ≠ [])
    (quiet : ∀ token ∈ front, token.lexeme.isQuiet) (named : name.lexeme = .identifier word) :
    ofOwner? owner (front ++ name :: rest) = none := by
  obtain ⟨first, more, rfl⟩ := List.exists_cons_of_ne_nil some
  have here := quiet first List.mem_cons_self
  have plain := Lexeme.not_functionSpecifier_of_isQuiet here
  have outside := @reachesParenthesis_of_quiet more rest name word
    (fun token mem => quiet token (List.mem_cons_of_mem _ mem)) named
  have tilde : first.lexeme ≠ .punctuation .tilde := by
    intro tilde
    simp [tilde, Lexeme.isQuiet] at here
  rw [List.cons_append, ofOwner?, Token.dropFunctionSpecifiers, List.dropWhile_cons,
    if_neg (by simp [plain])]
  simp [outside, tilde]

theorem ofKeyword?_of_quiet {first : Token} (quiet : first.lexeme.isQuiet) :
    ofKeyword? (first :: rest) = none := by
  rw [ofKeyword?]
  split <;> first | rfl | simp_all [Lexeme.isQuiet]

/-- Behind a type the kind is decided by what may be called. -/
theorem ofTokens_of_quiet (owner : Option String) {name : Token} {word : String} (some : front ≠ [])
    (quiet : ∀ token ∈ front, token.lexeme.isQuiet) (named : name.lexeme = .identifier word) :
    ofTokens owner false (front ++ name :: rest) =
      if isCallable 0 0 false (front ++ name :: rest) then .function else .variableList := by
  have inside : (owner.bind fun owner => ofOwner? owner (front ++ name :: rest)) = none := by
    cases owner with
    | none => rfl
    | some owner => exact ofOwner?_of_quiet owner some quiet named
  have keyword : ofKeyword? (front ++ name :: rest) = none := by
    obtain ⟨first, more, rfl⟩ := List.exists_cons_of_ne_nil some
    exact ofKeyword?_of_quiet (quiet first List.mem_cons_self)
  rw [ofTokens, inside]
  dsimp only
  rw [keyword]

end Kind

/-! ### Items -/

namespace Item

variable {scope : Scope}

theorem kind?_of_quiet {owner : Option String} {name : Token} {word : String} (some : front ≠ [])
    (quiet : ∀ token ∈ front, token.lexeme.isQuiet) (named : name.lexeme = .identifier word) :
    kind? owner false (front ++ name :: rest) = .some
      (if Kind.isCallable 0 0 false (front ++ name :: rest) then .function else .variableList) := by
  have kind := @Kind.ofTokens_of_quiet front rest owner name word some quiet named
  obtain ⟨first, more, rfl⟩ := List.exists_cons_of_ne_nil some
  have plain := Lexeme.not_semicolon_of_isQuiet (quiet first List.mem_cons_self)
  rw [List.cons_append] at kind ⊢
  rw [kind?, if_neg (by simp [plain]), kind]

theorem reads_variable {declared : Variable} (wellFormed : declared.IsWellFormed scope.isNested)
    (same : front.map Token.lexeme = declared.lexemes) :
    Reads scope false (front ++ rest) (some (.ofVariable declared)) [] rest := by
  have found := @Variable.read_append front rest declared scope wellFormed same
  refine @Item.Reads.plain _ _ _ .variableList _ _ ?_ rfl found
  obtain ⟨names, some, plain, _, areNames⟩ := wellFormed.names_eq
  have base := Variable.isWellFormed_base wellFormed
  rw [Variable.lexemes, areNames] at same
  obtain ⟨typed, more, rfl, typeSame, same⟩ := List.map_eq_append_iff.1 same
  obtain ⟨declarators, more, rfl, listed, same⟩ := List.map_eq_append_iff.1 same
  obtain ⟨semicolon, more, rfl, ends, _⟩ := List.map_eq_cons_iff.1 same
  obtain ⟨token, behind, name, starts, named⟩ :=
    Variable.exists_name_of_declarators (by simpa using some) listed
  have quietType : ∀ token ∈ typed, token.lexeme.isQuiet := fun token mem =>
    CType.isQuiet_of_mem base (typeSame ▸ List.mem_map_of_mem mem)
  have quiet : ∀ token ∈ typed ++ declarators, token.lexeme.isQuiet := by
    intro token mem
    rcases List.mem_append.1 mem with typed | declares
    · exact quietType token typed
    · exact Variable.isQuiet_of_mem_declarators plain (listed ▸ List.mem_map_of_mem declares)
  have nonempty : typed ≠ [] := by
    rintro rfl
    exact CType.lexemes_ne_nil base typeSame.symm
  have decided : Kind.isCallable 0 0 false
      (typed ++ declarators ++ (semicolon :: more ++ rest)) = false := by
    rw [Kind.isCallable_of_quiet quiet, List.cons_append, Kind.isCallable]
    simp [ends]
  have whole : typed ++ (declarators ++ semicolon :: more) ++ rest =
      typed ++ token :: (behind ++ semicolon :: more ++ rest) := by
    rw [starts]
    simp
  have whole' : typed ++ declarators ++ (semicolon :: more ++ rest) =
      typed ++ token :: (behind ++ semicolon :: more ++ rest) := by
    rw [starts]
    simp
  rw [whole'] at decided
  rw [whole, kind?_of_quiet nonempty quietType named, decided]
  rfl

theorem reads_returning {declared : Function} {type : CType}
    (wellFormed : declared.IsWellFormed scope.owner)
    (nested : scope.isNested = scope.owner.isSome) (kind : declared.kind = .returning type)
    (same : front.map Token.lexeme = declared.lexemes) :
    Reads scope false (front ++ rest) (some (.ofFunction declared)) [] rest := by
  have found := @Function.read_append front rest declared scope.owner scope type wellFormed nested
    kind same
  refine @Item.Reads.plain _ _ _ .function _ _ ?_ rfl found
  have typed := wellFormed.kind
  rw [kind] at typed
  unfold Function.lexemes at same
  rw [kind] at same
  obtain ⟨front, call, rfl, typeSame, same⟩ := List.map_eq_append_iff.1 same
  obtain ⟨name, call, rfl, named, same⟩ := List.map_eq_cons_iff.1 same
  obtain ⟨opening, call, rfl, opens, _⟩ := List.map_eq_cons_iff.1 same
  have quiet : ∀ token ∈ front, token.lexeme.isQuiet := fun token mem =>
    CType.isQuiet_of_mem typed.1 (typeSame ▸ List.mem_map_of_mem mem)
  have nonempty : front ≠ [] := by
    rintro rfl
    exact CType.lexemes_ne_nil typed.1 typeSame.symm
  have decided : Kind.isCallable 0 0 false (front ++ name :: (opening :: call ++ rest)) := by
    rw [Kind.isCallable_of_quiet quiet, typeSame, CType.foldl_anglesBehind typed.1, Kind.isCallable,
      named]
    dsimp only
    rw [List.cons_append, Kind.isCallable, opens]
    rfl
  have whole : front ++ name :: opening :: call ++ rest =
      front ++ name :: (opening :: call ++ rest) := by simp
  rw [whole, kind?_of_quiet nonempty quiet named, if_pos decided]

theorem reads_constructor {declared : Function} (wellFormed : declared.IsWellFormed scope.owner)
    (nested : scope.isNested = scope.owner.isSome) (kind : declared.kind = .constructor)
    (same : front.map Token.lexeme = declared.lexemes) :
    Reads scope false (front ++ rest) (some (.ofFunction declared)) [] rest := by
  have found := @Function.readConstructor_append front rest declared scope wellFormed nested kind same
  refine @Item.Reads.plain _ _ _ .constructor _ _ ?_ rfl found
  have owner := wellFormed.kind
  rw [kind] at owner
  unfold Function.lexemes at same
  rw [kind] at same
  obtain ⟨name, call, rfl, named, same⟩ := List.map_eq_cons_iff.1 same
  obtain ⟨opening, call, rfl, opens, _⟩ := List.map_eq_cons_iff.1 same
  have plain := Lexeme.not_functionSpecifier_of_isPlainName wellFormed.named
  have constructs : Kind.ofOwner? declared.name (name :: opening :: (call ++ rest)) =
      some .constructor := by
    rw [Kind.ofOwner?, Token.dropFunctionSpecifiers, List.dropWhile_cons, named,
      if_neg (by simp [plain])]
    simp [named, opens, Kind.reachesParenthesis]
  rw [List.cons_append, List.cons_append, kind?, if_neg (by simp [named, Lexeme.isSemicolon]),
    Kind.ofTokens, owner]
  dsimp only [Option.bind]
  rw [constructs]

theorem reads_function {declared : Function} (wellFormed : declared.IsWellFormed scope.owner)
    (nested : scope.isNested = scope.owner.isSome)
    (same : front.map Token.lexeme = declared.lexemes) :
    Reads scope false (front ++ rest) (some (.ofFunction declared)) [] rest := by
  cases kind : declared.kind with
  | returning type => exact reads_returning wellFormed nested kind same
  | constructor => exact reads_constructor wellFormed nested kind same
  | destructor =>
      have none := wellFormed.kind
      rw [kind] at none
      exact absurd none id

/-- Items that are read wherever they stand are read one behind the other. -/
theorem readsAll_of_reads {items : List α} {lexemes : α → List Lexeme} {declared : α → Declaration}
    (reads : ∀ item ∈ items, ∀ front rest, front.map Token.lexeme = lexemes item →
      Reads scope false (front ++ rest) (some (declared item)) [] rest)
    {tokens : List Token} (same : tokens.map Token.lexeme = items.flatMap lexemes) :
    ReadsAll scope false tokens (items.map declared) [] := by
  induction items generalizing tokens with
  | nil =>
      rw [List.map_eq_nil_iff.1 same]
      exact .nil
  | cons item more ih =>
      rw [List.flatMap_cons] at same
      obtain ⟨front, rest, rfl, first, later⟩ := List.map_eq_append_iff.1 same
      have here := reads item List.mem_cons_self front rest first
      exact .cons here (ih (fun item mem => reads item (List.mem_cons_of_mem _ mem)) later)

end Item

/-! ### Classes -/

namespace Member

def declaration : Member → Declaration
  | ofVariable declared => .ofVariable declared
  | ofFunction declared => .ofFunction declared

theorem member?_declaration (member : Member) : member.declaration.member? = some member := by
  cases member <;> rfl

theorem reads {scope : Scope} {owner : String} {member : Member}
    (wellFormed : member.IsWellFormed owner) (inside : scope.owner = some owner)
    (nested : scope.isNested) (same : front.map Token.lexeme = member.lexemes) :
    Item.Reads scope false (front ++ rest) (some member.declaration) [] rest := by
  cases member with
  | ofVariable declared =>
      refine Item.reads_variable ?_ same
      rw [nested]
      exact wellFormed
  | ofFunction declared =>
      refine Item.reads_function ?_ (by rw [nested, inside]; rfl) same
      rw [inside]
      exact wellFormed

/-- Members are spelled without braces and access words. -/
theorem isPlain_of_mem {owner : String} {member : Member} (wellFormed : member.IsWellFormed owner)
    {lexeme : Lexeme} (mem : lexeme ∈ member.lexemes) :
    lexeme ≠ .opening .curly ∧ lexeme ≠ .closing .curly ∧ lexeme.isAccess = false := by
  have quiet : lexeme.isQuiet ∨ lexeme = .opening .round ∨ lexeme = .closing .round ∨
      lexeme = .punctuation .semicolon := by
    cases member with
    | ofVariable declared =>
        obtain ⟨names, _, plain, _, areNames⟩ := Variable.IsWellFormed.names_eq wellFormed
        have mem : lexeme ∈ declared.lexemes := mem
        rw [Variable.lexemes, areNames, List.mem_append, List.mem_append, List.mem_singleton] at mem
        rcases mem with typed | declares | ends
        · exact Or.inl (CType.isQuiet_of_mem (Variable.isWellFormed_base wellFormed) typed)
        · exact Or.inl (Variable.isQuiet_of_mem_declarators plain declares)
        · exact Or.inr (Or.inr (Or.inr ends))
    | ofFunction declared =>
        have wellFormed : declared.IsWellFormed (some owner) := wellFormed
        have mem : lexeme ∈ declared.lexemes := mem
        have call : lexeme ∈ declared.callLexemes → lexeme.isQuiet ∨ lexeme = .opening .round ∨
            lexeme = .closing .round ∨ lexeme = .punctuation .semicolon := by
          intro mem
          simp only [Function.callLexemes, List.mem_cons, List.mem_append, List.not_mem_nil,
            or_false] at mem
          rcases mem with rfl | opens | parameter | closes | ends
          · exact Or.inl wellFormed.named
          · exact Or.inr (Or.inl opens)
          · exact Or.inl (Function.isQuiet_of_mem_parameters wellFormed parameter)
          · exact Or.inr (Or.inr (Or.inl closes))
          · exact Or.inr (Or.inr (Or.inr ends))
        have kind := wellFormed.kind
        unfold Function.lexemes at mem
        cases same : declared.kind with
        | returning type =>
            rw [same] at kind mem
            rcases List.mem_append.1 mem with typed | called
            · exact Or.inl (CType.isQuiet_of_mem kind.1 typed)
            · exact call called
        | constructor =>
            rw [same] at mem
            exact call mem
        | destructor =>
            rw [same] at kind
            exact absurd kind id
  rcases quiet with quiet | rfl | rfl | rfl
  · refine ⟨?_, ?_, ?_⟩
    · rintro rfl
      simp [Lexeme.isQuiet] at quiet
    · rintro rfl
      simp [Lexeme.isQuiet] at quiet
    · cases lexeme with
      | keyword word => cases word <;> simp_all [Lexeme.isQuiet, Lexeme.isAccess]
      | _ => simp [Lexeme.isAccess]
  · simp [Lexeme.isAccess]
  · simp [Lexeme.isAccess]
  · simp [Lexeme.isAccess]

end Member

theorem Section.splitLabel_of_plain {tokens : List Token}
    (plain : ∀ token ∈ tokens, token.lexeme.isAccess = false) (depth : Nat) :
    splitLabel depth tokens = (tokens, []) := by
  induction tokens generalizing depth with
  | nil => rfl
  | cons token rest ih =>
      have here := plain token List.mem_cons_self
      have later := ih fun token mem => plain token (List.mem_cons_of_mem _ mem)
      have label : Token.startsLabel (token :: rest) = false := by
        cases rest <;> simp [Token.startsLabel, here]
      rw [splitLabel, label, Bool.and_false, if_neg (by simp), later]

/-- A body that is one public section. -/
theorem Section.publicOf_of_plain {word colon : Token} {tokens : List Token} (beyond : List Char)
    (isPublic : word.lexeme = .keyword .publicKey) (isColon : colon.lexeme = .punctuation .colon)
    (plain : ∀ token ∈ tokens, token.lexeme.isAccess = false) :
    publicOf beyond (word :: colon :: tokens) = if tokens = [] then [] else [⟨tokens, beyond⟩] := by
  have label : Token.startsLabel (word :: colon :: tokens) := by
    simp [Token.startsLabel, isPublic, isColon, Lexeme.isAccess]
  have none : publicFrom beyond [] = [] := by
    rw [publicFrom]
    intro word colon rest same
    exact absurd same (by simp)
  rw [publicOf, splitLabel, label, if_pos (by simp), publicFrom, splitLabel_of_plain plain 0, none,
    isPublic]
  by_cases empty : tokens = []
  · simp [empty]
  · simp [empty, Token.sourceOf]

namespace Class

theorem read_append {declared : Class} {beyond : List Char} (wellFormed : declared.IsWellFormed)
    (same : front.map Token.lexeme = declared.lexemes) :
    ∃ members behind, members.map Token.lexeme = declared.members.flatMap Member.lexemes ∧
      ClassItem.read beyond (front ++ rest) = .ok (.definition declared.name
        (if members = [] then [] else [⟨members, behind⟩]), rest) := by
  obtain ⟨word, front, rfl, isClass, same⟩ := List.map_eq_cons_iff.1 same
  obtain ⟨name, front, rfl, named, same⟩ := List.map_eq_cons_iff.1 same
  obtain ⟨opening, front, rfl, opens, same⟩ := List.map_eq_cons_iff.1 same
  obtain ⟨access, front, rfl, isPublic, same⟩ := List.map_eq_cons_iff.1 same
  obtain ⟨colon, front, rfl, isColon, same⟩ := List.map_eq_cons_iff.1 same
  obtain ⟨members, front, rfl, listed, same⟩ := List.map_eq_append_iff.1 same
  obtain ⟨close, front, rfl, closes, same⟩ := List.map_eq_cons_iff.1 same
  obtain ⟨semicolon, front, rfl, ends, none⟩ := List.map_eq_cons_iff.1 same
  rw [List.map_eq_nil_iff.1 none]
  have plain : ∀ token ∈ members, token.lexeme ≠ .opening .curly ∧
      token.lexeme ≠ .closing .curly ∧ token.lexeme.isAccess = false := by
    intro token mem
    have among : token.lexeme ∈ members.map Token.lexeme := List.mem_map_of_mem mem
    rw [listed] at among
    obtain ⟨member, declares, spelled⟩ := List.mem_flatMap.1 among
    exact Member.isPlain_of_mem (wellFormed.members member declares) spelled
  have enclosed (place : List Token) :=
    @Enclosure.read_append .curly place (access :: colon :: members) (semicolon :: rest) _ _ beyond
      opens (by
        simp only [List.mem_cons]
        rintro token (rfl | rfl | mem)
        · simp [isPublic]
        · simp [isColon]
        · exact ⟨(plain token mem).1, (plain token mem).2.1⟩) closes
  have sections := @Section.publicOf_of_plain access colon members
    (Token.sourceOf (close :: semicolon :: rest) ++ beyond) isPublic isColon
    fun token mem => (plain token mem).2.2
  refine ⟨members, Token.sourceOf (close :: semicolon :: rest) ++ beyond, listed, ?_⟩
  have whole : word :: name :: opening :: access :: colon :: (members ++ [close, semicolon]) ++
      rest = word :: name :: opening :: (access :: colon :: members ++ close :: semicolon :: rest) := by
    simp
  have opens' : Token.splitOutside
      (fun lexeme => lexeme.isSemicolon || lexeme = .opening .curly) 0
        (opening :: (access :: colon :: members ++ close :: semicolon :: rest)) =
      ([], opening :: (access :: colon :: members ++ close :: semicolon :: rest)) := by
    rw [Token.splitOutside]
    simp [opens]
  rw [whole, ClassItem.read, if_pos isClass, named]
  dsimp only
  rw [ClassItem.readBody, opens']
  dsimp only
  rw [if_neg (by simp [opens, Lexeme.isSemicolon]), enclosed]
  dsimp only [Except.map]
  have dropped : Token.dropSemicolon (semicolon :: rest) = rest := by
    rw [Token.dropSemicolon, if_pos (by rw [ends]; rfl)]
  rw [sections, dropped]

theorem reads {declared : Class} {scope : Scope} (wellFormed : declared.IsWellFormed)
    (same : front.map Token.lexeme = declared.lexemes) :
    Item.Reads scope false (front ++ rest) (some (.ofClass declared)) [] rest := by
  obtain ⟨members, behind, listed, found⟩ :=
    @read_append front rest declared scope.beyond wellFormed same
  have bodies : Item.ReadsSections declared.name (scope.depth + 1)
      (if members = [] then [] else [⟨members, behind⟩])
      (declared.members.map Member.declaration) [] := by
    have all := @Item.readsAll_of_reads ⟨some declared.name, scope.depth + 1, behind⟩ _
      declared.members Member.lexemes Member.declaration
      (fun member mem front rest same =>
        Member.reads (wellFormed.members member mem) rfl (by simp [Scope.isNested]) same) _ listed
    by_cases none : members = []
    · rw [if_pos none]
      rw [(all.eq_nil none).1]
      exact .nil
    · rw [if_neg none]
      have whole := @Item.ReadsSections.cons _ _ ⟨members, behind⟩ _ _ _ _ _ all .nil
      rwa [List.append_nil, List.append_nil] at whole
  have back : (declared.members.map Member.declaration).filterMap Declaration.member? =
      declared.members := by
    rw [List.filterMap_map]
    have each : Declaration.member? ∘ Member.declaration = some :=
      funext Member.member?_declaration
    rw [each, List.filterMap_some]
  have starts : Item.kind? scope.owner false (front ++ rest) = some .classType := by
    obtain ⟨word, front, rfl, isClass, _⟩ := List.map_eq_cons_iff.1 same
    exact (Item.kind?_eq_iff_keyword rfl).2 isClass
  have reads := Item.Reads.definition starts found bodies
  rwa [back] at reads

end Class

/-! ### Declarations -/

namespace Declaration

theorem reads {declaration : Declaration} (wellFormed : declaration.IsWellFormed)
    (same : front.map Token.lexeme = declaration.lexemes) :
    Item.Reads .top false (front ++ rest) (some declaration) [] rest := by
  cases declaration with
  | ofVariable declared => exact Item.reads_variable wellFormed same
  | ofFunction declared => exact Item.reads_function wellFormed rfl same
  | ofClass declared => exact Class.reads wellFormed same

end Declaration

/-- Well-formed declarations are what comes of their spelling, and nothing is left out. -/
theorem Parser.declarationsOf_spellAll {declarations : List Declaration}
    (wellFormed : ∀ declaration ∈ declarations, declaration.IsWellFormed) :
    declarationsOf none (Declaration.spellAll declarations) = .ok (declarations, []) := by
  obtain ⟨lexed, lexes, same⟩ := (Declaration.spells_all wellFormed).ofText
  refine declarationsOf_eq_ok_iff.2 ⟨lexed, lexes, ?_⟩
  have reads := @Item.readsAll_of_reads .top _ declarations Declaration.lexemes id
    (fun declaration mem front rest same =>
      Declaration.reads (wellFormed declaration mem) same) _ same
  rwa [List.map_id] at reads

theorem Parser.declarationsOf_spellAll_class :
    let declarations : List Declaration :=
      [.ofClass ⟨"Grid",
        [.ofVariable ⟨⟨.double, [.star, .array 2]⟩, "a, b", true⟩,
          .ofFunction ⟨.constructor, "Grid", [⟨⟨.int, [.unsized]⟩, "i"⟩], true⟩,
          .ofFunction ⟨.returning ⟨.generic "std::map" ["K", "int"], [.star, .reference]⟩, "at",
            [⟨⟨.named "K", [.reference]⟩, ""⟩], true⟩]⟩,
        .ofFunction ⟨.returning ⟨.tagged "Q", []⟩, "make", [], false⟩]
    Declaration.spellAll declarations =
      "class Grid \x7b public: double* a[1][1], b[1][1]; Grid(int i[]); ".toList ++
        "std::map<K, int>*& at(K& ); \x7d; struct Q make();".toList ∧
      declarationsOf none (Declaration.spellAll declarations) = .ok (declarations, []) := by
  refine ⟨rfl, declarationsOf_spellAll (List.forall_mem_cons.2 ⟨⟨by decide, ?members⟩,
    List.forall_mem_singleton.2 ?function⟩)⟩
  case members =>
    refine List.forall_mem_cons.2 ⟨?grid, List.forall_mem_cons.2 ⟨?create,
      List.forall_mem_singleton.2 ?find⟩⟩
    · exact ⟨rfl, rfl, ⟨["a", "b"], by decide, by decide, rfl⟩,
        ⟨[.star], [.array 2], rfl, ⟨by decide, by decide⟩, .inr ⟨2, by decide, rfl⟩⟩⟩
    · exact ⟨rfl, by decide, rfl, List.forall_mem_singleton.2
        ⟨rfl, trivial, .inr (by decide), ⟨[], 1, rfl, by decide, by decide⟩⟩, by decide⟩
    · exact ⟨rfl, by decide,
        ⟨⟨⟨⟨false, "std", ["map"]⟩, by decide, by decide⟩, by decide⟩, by decide, by decide⟩,
        List.forall_mem_singleton.2 ⟨rfl, ⟨⟨false, "K", []⟩, by decide, by decide⟩, .inl rfl,
          ⟨[.reference], 0, rfl, by decide, by decide⟩⟩, by decide⟩
  case function =>
    exact ⟨rfl, by decide, ⟨⟨⟨false, "Q", []⟩, by decide, by decide⟩, by decide, by decide⟩,
      by simp, by decide⟩

end PxdStub
