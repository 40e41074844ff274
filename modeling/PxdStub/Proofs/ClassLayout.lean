import PxdStub.Proofs.Locality

/-!
How class definitions are laid out: bases, and a body that is cut at the access labels outside
brackets. Class items, their bodies and their public sections are read as they are laid out.
-/

namespace PxdStub

namespace Token

/-! ### Depths -/

/-- How many of `(`, `[` and `{` are open behind tokens. -/
def depthBehind (tokens : List Token) : Nat :=
  tokens.foldl nesting 0

theorem closes_iff {stack : List Bracket} {tokens : List Token} :
    closes stack tokens ↔ tokens.foldlM openBehind? stack = some [] := by
  induction tokens generalizing stack with
  | nil => simp [closes]
  | cons token rest ih =>
      rw [closes_cons, List.foldlM_cons]
      constructor
      · rintro ⟨stack', opened, closed⟩
        rw [opened]
        exact ih.1 closed
      · intro closed
        obtain ⟨stack', opened, closed⟩ := Option.bind_eq_some_iff.1 closed
        exact ⟨stack', opened, ih.2 closed⟩

/-- Where brackets match, the count of the open ones is exact. -/
theorem nesting_of_openBehind? {stack stack' : List Bracket} {token : Token}
    (opened : openBehind? stack token = some stack') :
    nesting stack.length token = stack'.length := by
  unfold openBehind? at opened
  unfold nesting
  cases lexeme : token.lexeme with
  | opening bracket =>
      rw [lexeme] at opened
      cases bracket with
      | angle | round | square | curly =>
          cases opened
          rfl
  | closing bracket =>
      rw [lexeme] at opened
      cases bracket with
      | angle =>
          cases opened
          rfl
      | round | square | curly =>
          rw [shut?_eq_some_iff.1 opened, List.length_cons]
          rfl
  | _ =>
      rw [lexeme] at opened
      cases opened
      rfl

theorem foldl_nesting {stack stack' : List Bracket} {tokens : List Token}
    (opened : tokens.foldlM openBehind? stack = some stack') :
    tokens.foldl nesting stack.length = stack'.length := by
  induction tokens generalizing stack with
  | nil =>
      cases opened
      rfl
  | cons token rest ih =>
      rw [List.foldlM_cons] at opened
      obtain ⟨inner, first, later⟩ := Option.bind_eq_some_iff.1 opened
      rw [List.foldl_cons, nesting_of_openBehind? first]
      exact ih later

theorem depthBehind_of_closes {tokens : List Token} (closed : closes [] tokens) :
    depthBehind tokens = 0 :=
  foldl_nesting (closes_iff.1 closed)

/-- Tokens that are cut outside brackets close their brackets on both sides of the cut. -/
theorem closes_split {front back : List Token} (closed : closes [] (front ++ back))
    (outside : depthBehind front = 0) : closes [] front ∧ closes [] back := by
  rw [closes_iff, List.foldlM_append] at closed
  obtain ⟨stack, opened, later⟩ := Option.bind_eq_some_iff.1 closed
  have none : stack.length = 0 := (foldl_nesting opened).symm.trans outside
  rw [List.length_eq_zero_iff.1 none] at opened later
  exact ⟨closes_iff.2 opened, closes_iff.2 later⟩

/-- Among the tokens, none that `stop` accepts stands outside brackets. -/
def NoneOutside (stop : Lexeme → Bool) (depth : Nat) (tokens : List Token) : Prop :=
  ∀ front token rest, tokens = front ++ token :: rest → front.foldl nesting depth = 0 →
    stop token.lexeme = false

/-- The first token outside brackets that `stop` accepts. -/
def FirstOutside (stop : Lexeme → Bool) (token : Token) (tokens : List Token) : Prop :=
  ∃ front rest, tokens = front ++ token :: rest ∧ NoneOutside stop 0 front ∧
    depthBehind front = 0 ∧ stop token.lexeme

variable {stop : Lexeme → Bool}

theorem NoneOutside.cons {depth : Nat} {first : Token} {rest : List Token}
    (here : depth = 0 → stop first.lexeme = false)
    (later : NoneOutside stop (nesting depth first) rest) : NoneOutside stop depth (first :: rest) := by
  rintro (_ | ⟨token, front⟩) next more same outside
  · obtain ⟨rfl, _⟩ := List.cons.inj same
    exact here outside
  · obtain ⟨rfl, tail⟩ := List.cons.inj same
    exact later front next more tail outside

/-- The search for a token outside brackets passes over tokens that have none and leave none open. -/
theorem splitOutside_of_none {depth : Nat} {tokens : List Token}
    (none : NoneOutside stop depth tokens) (level : tokens.foldl nesting depth = 0) {token : Token}
    (stops : stop token.lexeme) (behind : List Token) :
    splitOutside stop depth (tokens ++ token :: behind) = (tokens, token :: behind) := by
  induction tokens generalizing depth with
  | nil =>
      have outside : depth = 0 := level
      rw [List.nil_append, splitOutside, if_pos (by simp [outside, stops])]
  | cons first rest ih =>
      have passes : ¬(decide (depth = 0) && stop first.lexeme) = true := by
        rw [Bool.and_eq_true, decide_eq_true_eq]
        rintro ⟨outside, stopped⟩
        have kept := none [] first rest rfl outside
        rw [kept] at stopped
        cases stopped
      have later := ih (fun front token more same outside =>
        none (first :: front) token more (by rw [same]; rfl) outside) level
      rw [List.cons_append, splitOutside, if_neg passes, later]

theorem noneOutside_splitOutside (stop : Lexeme → Bool) (depth : Nat) (tokens : List Token) :
    NoneOutside stop depth (splitOutside stop depth tokens).1 ∧
      ∀ token rest, (splitOutside stop depth tokens).2 = token :: rest →
        stop token.lexeme ∧ (splitOutside stop depth tokens).1.foldl nesting depth = 0 := by
  have nil : ∀ depth, NoneOutside stop depth [] := by
    intro depth front token rest same
    exact absurd same.symm (by simp)
  induction tokens generalizing depth with
  | nil => exact ⟨nil depth, nofun⟩
  | cons first more ih =>
      obtain ⟨plain, ends⟩ := ih (nesting depth first)
      rw [splitOutside]
      split
      · next stops =>
          rw [Bool.and_eq_true, decide_eq_true_eq] at stops
          refine ⟨nil depth, fun token rest same => ?_⟩
          obtain ⟨rfl, _⟩ := List.cons.inj same
          exact ⟨stops.2, stops.1⟩
      · next passes =>
          refine ⟨.cons (fun outside => ?_) plain, ends⟩
          simpa [outside] using passes

theorem firstOutside_iff {token : Token} {tokens : List Token} :
    FirstOutside stop token tokens ↔ (splitOutside stop 0 tokens).2.head? = some token := by
  constructor
  · rintro ⟨front, rest, rfl, none, level, stops⟩
    rw [splitOutside_of_none none level stops]
    rfl
  · intro head
    obtain ⟨rest, behind⟩ := List.head?_eq_some_iff.1 head
    obtain ⟨none, ends⟩ := noneOutside_splitOutside stop 0 tokens
    obtain ⟨stops, level⟩ := ends token rest behind
    exact ⟨_, rest, by rw [← behind, splitOutside_append], none, level, stops⟩

end Token

/-- How a token changes the number of open brackets of one kind. -/
theorem Token.count_of_openBehind? {bracket : Bracket} (kind : bracket ≠ .angle)
    {stack stack' : List Bracket} {token : Token} (opened : openBehind? stack token = some stack') :
    (token.lexeme = .opening bracket → stack'.count bracket = stack.count bracket + 1) ∧
      (token.lexeme = .closing bracket → stack.count bracket = stack'.count bracket + 1) ∧
      (token.lexeme ≠ .opening bracket → token.lexeme ≠ .closing bracket →
        stack'.count bracket = stack.count bracket) := by
  unfold openBehind? at opened
  cases lexeme : token.lexeme with
  | opening other =>
      rw [lexeme] at opened
      cases other with
      | angle =>
          cases opened
          exact ⟨fun same => absurd (Lexeme.opening.inj same).symm kind, nofun, fun _ _ => rfl⟩
      | round | square | curly =>
          cases opened
          refine ⟨?_, nofun, fun others _ => List.count_cons_of_ne fun same => others (by rw [same])⟩
          intro same
          rw [Lexeme.opening.inj same, List.count_cons_self]
  | closing other =>
      rw [lexeme] at opened
      cases other with
      | angle =>
          cases opened
          exact ⟨nofun, fun same => absurd (Lexeme.closing.inj same).symm kind, fun _ _ => rfl⟩
      | round | square | curly =>
          rw [shut?_eq_some_iff.1 opened]
          refine ⟨nofun, ?_, fun _ others =>
            (List.count_cons_of_ne fun same => others (by rw [same])).symm⟩
          intro same
          rw [Lexeme.closing.inj same, List.count_cons_self]
  | _ =>
      rw [lexeme] at opened
      cases opened
      exact ⟨nofun, nofun, fun _ _ => rfl⟩

/-- The bracket that closes a run is the first one of its kind that the run leaves over. -/
theorem Enclosure.close?_of_closes {bracket : Bracket} (kind : bracket ≠ .angle)
    {stack : List Bracket} {inside : List Token} (closed : Token.closes stack inside) {close : Token}
    (closing : close.lexeme = .closing bracket) (after : List Token) :
    close? bracket (stack.count bracket) (inside ++ close :: after) = some ⟨inside, close, after⟩ := by
  induction inside generalizing stack with
  | nil =>
      rw [List.isEmpty_iff.1 closed, List.nil_append]
      unfold close?
      rw [if_neg (by simp [closing]), if_pos closing]
      rfl
  | cons token rest ih =>
      obtain ⟨stack', opened, closed⟩ := Token.closes_cons.1 closed
      obtain ⟨opens, closes, others⟩ := Token.count_of_openBehind? kind opened
      have later := ih closed
      rw [List.cons_append]
      unfold close?
      dsimp only
      by_cases opening : token.lexeme = .opening bracket
      · rw [if_pos opening, ← opens opening, later]
        rfl
      · rw [if_neg opening]
        by_cases closing : token.lexeme = .closing bracket
        · rw [if_pos closing, closes closing]
          dsimp only
          rw [later]
          rfl
        · rw [if_neg closing, ← others opening closing, later]
          rfl

/-! ### Access labels -/

theorem Token.startsLabel_append {tokens : List Token} (starts : startsLabel tokens)
    (more : List Token) : startsLabel (tokens ++ more) := by
  obtain _ | ⟨word, _ | ⟨colon, rest⟩⟩ := tokens
  · cases starts
  · cases starts
  · exact starts

/-- No label begins with a token and goes on with a label. -/
theorem Token.startsLabel_cons_label {token : Token} {label : List Token} (starts : startsLabel label) :
    startsLabel (token :: label) = false := by
  obtain _ | ⟨word, _ | ⟨colon, rest⟩⟩ := label
  · cases starts
  · cases starts
  · rw [startsLabel, Bool.and_eq_true] at starts
    have other : word.lexeme ≠ .punctuation .colon := by
      intro same
      rw [same] at starts
      simp [Lexeme.isAccess] at starts
    simp [startsLabel, other]

namespace Section

/-- Tokens that close their brackets and have no access label outside them. -/
structure IsUnbroken (tokens : List Token) : Prop where
  closed : Token.closes [] tokens
  unlabelled : ∀ front rest, tokens = front ++ rest → Token.depthBehind front = 0 →
    Token.startsLabel rest = false

/-- The search for a label passes over tokens that have none outside brackets. -/
theorem splitLabel_of_unlabelled {depth : Nat} {tokens behind : List Token}
    (unlabelled : ∀ front rest, tokens = front ++ rest → front.foldl Token.nesting depth = 0 →
      Token.startsLabel rest = false)
    (level : tokens.foldl Token.nesting depth = 0)
    (ends : behind = [] ∨ Token.startsLabel behind) :
    splitLabel depth (tokens ++ behind) = (tokens, behind) := by
  induction tokens generalizing depth with
  | nil =>
      have outside : depth = 0 := level
      obtain _ | ⟨token, rest⟩ := behind
      · rfl
      · have label : Token.startsLabel (token :: rest) := ends.resolve_left (List.cons_ne_nil _ _)
        rw [List.nil_append, splitLabel, if_pos (by simp [outside, label])]
  | cons token rest ih =>
      have passes : ¬(decide (depth = 0) && Token.startsLabel (token :: (rest ++ behind))) = true := by
        rw [Bool.and_eq_true, decide_eq_true_eq]
        rintro ⟨outside, label⟩
        have plain := unlabelled [] (token :: rest) rfl outside
        obtain _ | ⟨next, more⟩ := rest
        · rcases ends with rfl | starts
          · cases label
          · rw [List.nil_append, Token.startsLabel_cons_label starts] at label
            cases label
        · have same : Token.startsLabel (token :: next :: more) = true := label
          rw [plain] at same
          cases same
      have later := ih (fun front more same outside =>
        unlabelled (token :: front) more (by rw [same]; rfl) outside) level
      rw [List.cons_append, splitLabel, if_neg passes, later]

theorem IsUnbroken.splitLabel {tokens behind : List Token} (unbroken : IsUnbroken tokens)
    (ends : behind = [] ∨ Token.startsLabel behind) :
    splitLabel 0 (tokens ++ behind) = (tokens, behind) :=
  splitLabel_of_unlabelled unbroken.unlabelled (Token.depthBehind_of_closes unbroken.closed) ends

/-- What is in front of the first label has no label, and the label stands outside brackets. -/
theorem unlabelled_splitLabel (depth : Nat) (tokens : List Token) :
    (∀ front rest, (splitLabel depth tokens).1 = front ++ rest →
        front.foldl Token.nesting depth = 0 → Token.startsLabel rest = false) ∧
      ((splitLabel depth tokens).2 = [] ∨ Token.startsLabel (splitLabel depth tokens).2 ∧
        (splitLabel depth tokens).1.foldl Token.nesting depth = 0) := by
  induction tokens generalizing depth with
  | nil =>
      refine ⟨fun front rest same _ => ?_, Or.inl rfl⟩
      rw [(List.append_eq_nil_iff.1 same.symm).2]
      rfl
  | cons token rest ih =>
      have whole := splitLabel_append (Token.nesting depth token) rest
      obtain ⟨plain, ends⟩ := ih (Token.nesting depth token)
      rw [splitLabel]
      split
      · next starts =>
          rw [Bool.and_eq_true, decide_eq_true_eq] at starts
          refine ⟨fun front more same _ => ?_, Or.inr ⟨starts.2, starts.1⟩⟩
          rw [(List.append_eq_nil_iff.1 same.symm).2]
          rfl
      · next passes =>
          refine ⟨?_, ends⟩
          rintro (_ | ⟨first, front⟩) more same outside
          · rw [← List.nil_append more, ← same]
            by_contra label
            have longer := Token.startsLabel_append (by simpa using label)
              (splitLabel (Token.nesting depth token) rest).2
            rw [List.cons_append, whole] at longer
            have here : depth = 0 := outside
            exact passes (by simp [here, longer])
          · dsimp only at same
            obtain ⟨rfl, tail⟩ := List.cons.inj same
            exact plain front more tail outside

theorem isUnbroken_splitLabel {tokens : List Token} (closed : Token.closes [] tokens) :
    IsUnbroken (splitLabel 0 tokens).1 ∧ Token.closes [] (splitLabel 0 tokens).2 ∧
      ((splitLabel 0 tokens).2 = [] ∨ Token.startsLabel (splitLabel 0 tokens).2) := by
  have whole := splitLabel_append 0 tokens
  obtain ⟨plain, none | ⟨label, outside⟩⟩ := unlabelled_splitLabel 0 tokens
  · rw [none, List.append_nil] at whole
    exact ⟨⟨by rwa [whole], plain⟩, by rw [none]; rfl, Or.inl none⟩
  · rw [← whole] at closed
    obtain ⟨front, back⟩ := Token.closes_split closed outside
    exact ⟨⟨front, plain⟩, back, Or.inr label⟩

theorem isUnbroken_iff {tokens : List Token} :
    IsUnbroken tokens ↔ Token.closes [] tokens ∧ (splitLabel 0 tokens).2 = [] := by
  constructor
  · intro unbroken
    have whole := unbroken.splitLabel (Or.inl rfl)
    rw [List.append_nil] at whole
    exact ⟨unbroken.closed, by rw [whole]⟩
  · rintro ⟨closed, none⟩
    have whole := splitLabel_append 0 tokens
    rw [none, List.append_nil] at whole
    have unbroken := (isUnbroken_splitLabel closed).1
    rwa [whole] at unbroken

instance {tokens : List Token} : Decidable (IsUnbroken tokens) :=
  decidable_of_iff _ isUnbroken_iff.symm

end Section

/-! ### Layouts of bodies -/

/-- An access label, and what stands between it and the next one. -/
structure AccessPart where
  word : Token
  colon : Token
  content : List Token

namespace AccessPart

def tokens (part : AccessPart) : List Token :=
  part.word :: part.colon :: part.content

def isPublic (part : AccessPart) : Bool :=
  part.word.lexeme = .keyword .publicKey

structure IsFormed (part : AccessPart) : Prop where
  word : part.word.lexeme.isAccess
  colon : part.colon.lexeme = .punctuation .colon
  content : Section.IsUnbroken part.content

theorem IsFormed.startsLabel {part : AccessPart} (formed : part.IsFormed) (behind : List Token) :
    Token.startsLabel (part.tokens ++ behind) := by
  change (part.word.lexeme.isAccess && decide (part.colon.lexeme = .punctuation .colon)) = true
  simp [formed.word, formed.colon]

theorem IsFormed.of_startsLabel {word colon : Token} {rest content : List Token}
    (starts : Token.startsLabel (word :: colon :: rest)) (unbroken : Section.IsUnbroken content) :
    IsFormed ⟨word, colon, content⟩ := by
  rw [Token.startsLabel, Bool.and_eq_true, decide_eq_true_eq] at starts
  exact ⟨starts.1, starts.2, unbroken⟩

/-- Labels are no brackets. -/
theorem closes_label {word colon : Token} {rest : List Token}
    (starts : Token.startsLabel (word :: colon :: rest)) :
    Token.closes [] (word :: colon :: rest) = Token.closes [] rest := by
  rw [Token.startsLabel, Bool.and_eq_true, decide_eq_true_eq, Lexeme.isAccess] at starts
  simp only [Bool.or_eq_true, decide_eq_true_eq] at starts
  obtain ⟨(word | word) | word, colon⟩ := starts
  all_goals simp [Token.closes, Token.openBehind?, word, colon]

theorem startsLabel_flatMap {parts : List AccessPart} (formed : ∀ part ∈ parts, part.IsFormed) :
    parts.flatMap tokens = [] ∨ Token.startsLabel (parts.flatMap tokens) := by
  cases parts with
  | nil => exact Or.inl rfl
  | cons part parts => exact Or.inr ((formed part List.mem_cons_self).startsLabel _)

end AccessPart

/-- The body of a class, cut at its access labels. -/
structure BodyLayout where
  lead : List Token
  parts : List AccessPart

namespace BodyLayout

def tokens (layout : BodyLayout) : List Token :=
  layout.lead ++ layout.parts.flatMap AccessPart.tokens

/-- The runs of tokens behind public labels that are not empty, in source order. -/
def publicRuns (layout : BodyLayout) : List (List Token) :=
  ((layout.parts.filter AccessPart.isPublic).map AccessPart.content).filter fun run => !run.isEmpty

theorem ne_nil_of_mem {layout : BodyLayout} {run : List Token} (mem : run ∈ layout.publicRuns) :
    run ≠ [] := by
  simpa using (List.mem_filter.1 mem).2

structure Lays (layout : BodyLayout) (body : List Token) : Prop where
  lead : Section.IsUnbroken layout.lead
  parts : ∀ part ∈ layout.parts, part.IsFormed
  whole : layout.tokens = body

theorem exists_parts {tokens : List Token} (closed : Token.closes [] tokens)
    (starts : tokens = [] ∨ Token.startsLabel tokens) :
    ∃ parts : List AccessPart, (∀ part ∈ parts, part.IsFormed) ∧
      parts.flatMap AccessPart.tokens = tokens := by
  induction size : tokens.length using Nat.strong_induction_on generalizing tokens with
  | _ size ih =>
      subst size
      obtain _ | ⟨word, _ | ⟨colon, rest⟩⟩ := tokens
      · exact ⟨[], fun _ none => absurd none List.not_mem_nil, rfl⟩
      · rcases starts with none | label
        · cases none
        · cases label
      · have label := starts.resolve_left (List.cons_ne_nil _ _)
        rw [AccessPart.closes_label label] at closed
        have whole := Section.splitLabel_append 0 rest
        have size := congrArg List.length whole
        rw [List.length_append] at size
        obtain ⟨unbroken, behind, next⟩ := Section.isUnbroken_splitLabel closed
        obtain ⟨parts, formed, same⟩ := ih _ (by simp only [List.length_cons]; omega) behind next rfl
        refine ⟨⟨word, colon, (Section.splitLabel 0 rest).1⟩ :: parts, ?_, ?_⟩
        · exact List.forall_mem_cons.2 ⟨.of_startsLabel label unbroken, formed⟩
        · rw [List.flatMap_cons, same]
          exact congrArg (word :: colon :: ·) whole

/-- Every body that closes its brackets has a layout. -/
theorem exists_lays {body : List Token} (closed : Token.closes [] body) :
    ∃ layout : BodyLayout, layout.Lays body := by
  obtain ⟨lead, behind, next⟩ := Section.isUnbroken_splitLabel closed
  obtain ⟨parts, formed, same⟩ := exists_parts behind next
  refine ⟨⟨(Section.splitLabel 0 body).1, parts⟩, lead, formed, ?_⟩
  rw [tokens, same, Section.splitLabel_append]

theorem map_publicFrom {beyond : List Char} {parts : List AccessPart}
    (formed : ∀ part ∈ parts, part.IsFormed) :
    (Section.publicFrom beyond (parts.flatMap AccessPart.tokens)).map Section.tokens =
      publicRuns ⟨[], parts⟩ := by
  induction parts with
  | nil =>
      rw [List.flatMap_nil, Section.publicFrom]
      · rfl
      · exact fun _ _ _ none => by cases none
  | cons part parts ih =>
      have formed' := fun part mem => formed part (List.mem_cons_of_mem _ mem)
      have split := (formed part List.mem_cons_self).content.splitLabel
        (AccessPart.startsLabel_flatMap formed')
      have tokens : (part :: parts).flatMap AccessPart.tokens =
          part.word :: part.colon :: (part.content ++ parts.flatMap AccessPart.tokens) := rfl
      rw [tokens, Section.publicFrom, split]
      dsimp only
      rw [publicRuns, List.filter_cons, AccessPart.isPublic]
      by_cases isPublic : part.word.lexeme = .keyword .publicKey
      · by_cases empty : part.content = []
        · rw [if_neg (by simp [empty]), if_pos (by simpa using isPublic), List.map_cons,
            List.filter_cons, if_neg (by simp [empty]), ih formed']
          rfl
        · rw [if_pos (by simpa [isPublic] using empty), if_pos (by simpa using isPublic),
            List.map_cons, List.map_cons, List.filter_cons, if_pos (by simpa using empty), ih formed']
          rfl
      · rw [if_neg (by simp [isPublic]), if_neg (by simpa using isPublic), ih formed']
        rfl

/-- The public sections of a body are the public runs of its layout. -/
theorem map_publicOf {layout : BodyLayout} {body : List Token} (lays : layout.Lays body)
    (beyond : List Char) :
    (Section.publicOf beyond body).map Section.tokens = layout.publicRuns := by
  rw [← lays.whole, Section.publicOf, tokens,
    lays.lead.splitLabel (AccessPart.startsLabel_flatMap lays.parts)]
  exact map_publicFrom lays.parts

end BodyLayout

/-! ### Class definitions -/

/-- Bases end at the brace that opens the body; a semicolon ends them too. -/
def ClassItem.endsBases (lexeme : Lexeme) : Bool :=
  lexeme.isSemicolon || lexeme = .opening .curly

structure ClassItem.IsBaseClause (tokens : List Token) : Prop where
  plain : Token.NoneOutside endsBases 0 tokens
  level : Token.depthBehind tokens = 0

theorem ClassItem.IsBaseClause.of_plain {tokens : List Token}
    (plain : ∀ token ∈ tokens, endsBases token.lexeme = false)
    (level : Token.depthBehind tokens = 0) : IsBaseClause tokens :=
  ⟨fun front token rest same _ => plain token (by rw [same]; simp), level⟩

/-- A class definition from its keyword to its closing brace. -/
structure ClassDefinition where
  word : Token
  name : Token
  base : List Token
  opening : Token
  body : List Token
  close : Token

namespace ClassDefinition

def tokens (definition : ClassDefinition) : List Token :=
  definition.word :: definition.name ::
    (definition.base ++ definition.opening :: (definition.body ++ [definition.close]))

structure IsFormed (definition : ClassDefinition) (name : String) : Prop where
  word : definition.word.lexeme = .keyword .classKey
  name : definition.name.lexeme = .identifier name
  base : ClassItem.IsBaseClause definition.base
  opening : definition.opening.lexeme = .opening .curly
  body : Token.closes [] definition.body
  close : definition.close.lexeme = .closing .curly

variable {definition : ClassDefinition} {name : String}

theorem tokens_append (definition : ClassDefinition) (behind : List Token) :
    definition.tokens ++ behind = definition.word :: definition.name :: (definition.base ++
      definition.opening :: (definition.body ++ definition.close :: behind)) := by
  simp [tokens]

theorem read_append (formed : definition.IsFormed name) (beyond : List Char) (behind : List Token) :
    ClassItem.read beyond (definition.tokens ++ behind) =
      .ok (.definition name (Section.publicOf
        (Token.sourceOf (definition.close :: behind) ++ beyond) definition.body),
        Token.dropSemicolon behind) := by
  have opens : ClassItem.endsBases definition.opening.lexeme := by
    rw [formed.opening]
    rfl
  have bases : Token.splitOutside (fun lexeme => lexeme.isSemicolon || lexeme = .opening .curly) 0
      (definition.base ++ definition.opening :: (definition.body ++ definition.close :: behind)) =
      (definition.base, definition.opening :: (definition.body ++ definition.close :: behind)) :=
    Token.splitOutside_of_none formed.base.plain formed.base.level opens _
  have closed := Enclosure.close?_of_closes (by decide) formed.body formed.close behind
  rw [List.count_nil] at closed
  rw [tokens_append, ClassItem.read, if_pos formed.word, formed.name]
  dsimp only
  rw [ClassItem.readBody, bases]
  dsimp only
  rw [if_neg (by simp [formed.opening, Lexeme.isSemicolon]),
    Enclosure.read_of_close? formed.opening closed]
  rfl

theorem kind?_append (formed : definition.IsFormed name) (owner : Option String) (inName : Bool)
    (behind : List Token) :
    Item.kind? owner inName (definition.tokens ++ behind) = some .classType :=
  (Item.kind?_eq_iff_keyword rfl).2 formed.word

theorem infix_body (definition : ClassDefinition) : definition.body <:+: definition.tokens :=
  ⟨definition.word :: definition.name :: (definition.base ++ [definition.opening]),
    [definition.close], by simp [tokens]⟩

end ClassDefinition

end PxdStub
