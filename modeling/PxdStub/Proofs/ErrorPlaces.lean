import PxdStub.Proofs.ParameterLists
import PxdStub.Proofs.Progress
import PxdStub.Proofs.SourceLayout
import PxdStub.Proofs.TokenPlaces

/-!
Where errors are met. An error of the parser tells a place of the text: the token that a reader did
not expect, the parameter that it could not read, or the bracket that nothing closes.
-/

namespace PxdStub

/-- What an error says about the tokens at which it is met. `beyond` is the source text behind
them. -/
inductive ParseError.MetAt (beyond : List Char) (tokens : List Token) : ParseError → Prop
  | token {expected : String} {token : Token} {rest : List Token} :
      expected ≠ "an opening bracket" → token :: rest <:+ tokens →
      MetAt beyond tokens (.unexpectedToken expected token.lexeme.description token.start)
  | parameter {token : Token} {group behind : List Token} :
      token :: (group ++ behind) <:+ tokens →
      MetAt beyond tokens
        (.unexpectedToken "a parameter" (Text.excerpt (Token.textOf (token :: group))) token.start)
  | bracket {kind : Bracket} {token : Token} {rest : List Token} :
      token :: rest <:+ tokens → token.lexeme = .opening kind →
      Enclosure.close? kind 0 rest = none →
      MetAt beyond tokens (.unbalanced (.bracket kind)
        (Text.excerpt (Token.sourceOf (token :: rest) ++ beyond)))
  | ended {expected : String} : expected ≠ "an opening bracket" →
      MetAt beyond tokens (.unexpectedEnd expected)
  | nameMismatch (className found : String) : MetAt beyond tokens (.nameMismatch className found)
  | unequalArrayDepths (declarators : String) :
      MetAt beyond tokens (.unequalArrayDepths declarators)
  | endlessFunction (name : String) : MetAt beyond tokens (.endlessFunction name)

theorem ParseError.MetAt.mono {beyond : List Char} {tokens more : List Token} {error : ParseError}
    (met : error.MetAt beyond tokens) (suffix : tokens <:+ more) : error.MetAt beyond more := by
  cases met with
  | token expected here => exact .token expected (here.trans suffix)
  | parameter here => exact .parameter (here.trans suffix)
  | bracket here opens unclosed => exact .bracket (here.trans suffix) opens unclosed
  | ended expected => exact .ended expected
  | nameMismatch className found => exact .nameMismatch className found
  | unequalArrayDepths declarators => exact .unequalArrayDepths declarators
  | endlessFunction name => exact .endlessFunction name

theorem EndsIn.suffix {tokens : List Token} {restOf : α → List Token} {result : Except Failure α}
    {value : α} (ends : EndsIn tokens restOf result) (found : result = .ok value) :
    restOf value <:+ tokens := by
  rw [found] at ends
  exact ends

/-- A result whose error, if it is one, is met at `tokens`. -/
def FailsAt (beyond : List Char) (tokens : List Token) (result : Except Failure α) : Prop :=
  ∀ failure, result = .error failure → failure.error.MetAt beyond tokens

namespace FailsAt

variable {beyond : List Char} {tokens more : List Token} {result : Except Failure α}

theorem ok (value : α) : FailsAt beyond tokens (.ok value) := by
  intro failure failed
  cases failed

theorem error {failure : Failure} (met : failure.error.MetAt beyond tokens) :
    FailsAt beyond tokens (.error failure : Except Failure α) := by
  intro other same
  cases same
  exact met

theorem mono (fails : FailsAt beyond tokens result) (suffix : tokens <:+ more) :
    FailsAt beyond more result := by
  intro failure failed
  exact (fails failure failed).mono suffix

theorem bind {next : α → Except Failure β} (fails : FailsAt beyond tokens result)
    (later : ∀ value, result = .ok value → FailsAt beyond tokens (next value)) :
    FailsAt beyond tokens (result >>= next) := by
  intro failure failed
  cases result with
  | error first =>
      cases failed
      exact fails failure rfl
  | ok value => exact later value rfl failure failed

theorem map {change : α → β} (fails : FailsAt beyond tokens result) :
    FailsAt beyond tokens (result.map change) := by
  intro failure failed
  exact fails failure (Except.map_error_iff.1 failed)

theorem unexpected {expected : String} (known : expected ≠ "an opening bracket")
    (tokens : List Token) :
    FailsAt beyond tokens (.error (.unexpected expected tokens) : Except Failure α) := by
  refine .error ?_
  cases tokens with
  | nil => exact .ended known
  | cons token rest => exact .token known (List.suffix_refl _)

end FailsAt

/-! ### Brackets and types -/

variable {beyond : List Char} {scope : Scope}

/-- A search for the end of a bracket fails at the bracket, wherever its reader stands. A reader that
has seen the bracket does not miss it. -/
theorem Enclosure.failsAt_read {kind : Bracket} {token : Token} {rest : List Token}
    (opens : token.lexeme = .opening kind) (place : List Token) :
    FailsAt beyond (token :: rest) (read beyond place (token :: rest)) := by
  rw [read_of_opens opens]
  split
  · exact .ok _
  · next unclosed => exact .error (.bracket (List.suffix_refl _) opens unclosed)

theorem Token.failsAt_unscopedName (tokens : List Token) :
    FailsAt beyond tokens (unscopedName tokens) := by
  cases tokens with
  | nil => exact .unexpected (by decide) []
  | cons token rest =>
      rw [unscopedName]
      split
      · exact .ok _
      · exact .unexpected (by decide) _

theorem Token.failsAt_qualifiedName (tokens : List Token) :
    FailsAt beyond tokens (qualifiedName tokens) := by
  cases tokens with
  | nil => exact failsAt_unscopedName []
  | cons token rest =>
      rw [qualifiedName]
      split
      · exact (failsAt_unscopedName rest).map.mono (List.suffix_cons _ _)
      · exact failsAt_unscopedName _

namespace BaseType

theorem failsAt_readNamed (tokens : List Token) : FailsAt beyond tokens (readNamed beyond tokens) := by
  unfold readNamed
  refine (Token.failsAt_qualifiedName tokens).bind ?_
  rintro ⟨name, rest⟩ named
  have suffix := (Token.endsIn_qualifiedName tokens).suffix named
  cases rest with
  | nil => exact .ok _
  | cons token more =>
      dsimp only at suffix ⊢
      split
      · next opens =>
          refine FailsAt.bind ((Enclosure.failsAt_read opens (token :: more)).mono suffix) ?_
          exact fun _ _ => .ok _
      · exact .ok _

theorem failsAt_read (tokens : List Token) : FailsAt beyond tokens (read beyond tokens) := by
  cases tokens with
  | nil => exact .unexpected (by decide) []
  | cons token rest =>
      rw [read]
      split
      · exact .ok _
      · exact .ok _
      · exact .ok _
      · exact (Token.failsAt_qualifiedName rest).map.mono (List.suffix_cons _ _)
      · exact (Token.failsAt_qualifiedName rest).map.mono (List.suffix_cons _ _)
      · split
        · exact .ok _
        · exact failsAt_readNamed (token :: rest)
      · exact failsAt_readNamed (token :: rest)
      · exact .unexpected (by decide) _

end BaseType

theorem CType.failsAt_read (tokens : List Token) :
    FailsAt beyond tokens (CType.read beyond tokens) := by
  have suffix := Token.dropSpecifiers_suffix false tokens
  unfold CType.read
  exact ((BaseType.failsAt_read _).mono suffix).bind fun _ _ => .ok _

/-! ### Groups between commas -/

/-- Groups stand one behind the other at the start of the tokens, with one token between them. -/
inductive Token.Laid : List (List Token) → List Token → Prop
  | nil (tokens : List Token) : Laid [] tokens
  | last (group behind : List Token) : Laid [group] (group ++ behind)
  | cons {group comma groups behind} : Laid groups behind →
      Laid (group :: groups) (group ++ comma :: behind)

theorem Token.laid_groupsAt (tokens behind : List Token) :
    Laid (groupsAt 0 tokens) (tokens ++ behind) := by
  obtain inside | ⟨group, comma, more, rfl, inside, level, isComma⟩ := commasInside_or 0 tokens
  · rw [groupsAt_of_commasInside inside]
    exact .last tokens behind
  · rw [groupsAt_append_of_commasInside inside level isComma, List.append_assoc, List.cons_append]
    exact .cons (laid_groupsAt more behind)
termination_by tokens.length
decreasing_by
  subst_vars
  simp only [List.length_append, List.length_cons]
  omega

theorem Token.laid_groups (tokens behind : List Token) :
    Laid (groups tokens) (tokens ++ behind) := by
  cases tokens with
  | nil => exact .nil behind
  | cons token rest => exact laid_groupsAt (token :: rest) behind

theorem Declarator.failsAt_readGroups {groups : List (List Token)} {tokens : List Token} :
    FailsAt beyond tokens (readGroups tokens groups) := by
  induction groups generalizing tokens with
  | nil => exact .ok _
  | cons group more ih =>
      rw [readGroups]
      split
      · exact ih.map.mono (List.drop_suffix _ _)
      · exact .unexpected (by decide) _

theorem Variable.failsAt_ofDeclarators (scope : Scope) (type : CType) (text : String)
    (declarators : List Declarator) (place : List Token) :
    FailsAt beyond place (Failure.standing place (ofDeclarators scope type text declarators)) := by
  unfold ofDeclarators
  split
  · exact .error (.unequalArrayDepths text)
  · split
    · exact .ok _
    · exact .error (.unequalArrayDepths text)

theorem Variable.failsAt_read (tokens : List Token) :
    FailsAt scope.beyond tokens (Variable.read scope tokens) := by
  unfold Variable.read
  refine (CType.failsAt_read tokens).bind ?_
  rintro ⟨type, rest⟩ typed
  have suffix := (CType.endsIn_read scope.beyond tokens).suffix typed
  dsimp only at suffix ⊢
  split
  · exact .ok _
  · split
    · exact (FailsAt.unexpected (by decide) rest).mono suffix
    · refine FailsAt.mono (FailsAt.bind Declarator.failsAt_readGroups ?_) suffix
      intro declarators _
      exact (failsAt_ofDeclarators scope type _ declarators rest).bind fun _ _ => .ok _

/-! ### Functions -/

namespace Parameter

theorem failsAt_read {tokens group : List Token} {first : Token} {more behind : List Token}
    (here : group = first :: more) (stands : tokens = group ++ behind) :
    FailsAt beyond tokens (read beyond tokens group) := by
  subst here stands
  unfold read
  refine (CType.failsAt_read _).bind ?_
  rintro ⟨type, rest⟩ _
  dsimp only
  split
  · exact .error (.parameter (List.suffix_refl _))
  · exact .ok _

theorem failsAt_readGroups {groups : List (List Token)} {tokens : List Token}
    (laid : Token.Laid groups tokens) : FailsAt beyond tokens (readGroups beyond tokens groups) := by
  have step : ∀ {group behind : List Token} {more : List (List Token)}, 
      FailsAt beyond ((group ++ behind).drop (group.length + 1))
        (readGroups beyond ((group ++ behind).drop (group.length + 1)) more) →
      FailsAt beyond (group ++ behind) (readGroups beyond (group ++ behind) (group :: more)) := by
    intro group behind more fails
    have later := fails.mono (List.drop_suffix (group.length + 1) (group ++ behind))
    unfold readGroups
    dsimp only
    split
    · exact later
    · split
      · exact later.bind fun _ _ => .ok _
      · refine (failsAt_read rfl rfl).bind fun _ _ => ?_
        exact later.bind fun _ _ => .ok _
  induction laid with
  | nil tokens => exact .ok _
  | last group behind => exact step (.ok _)
  | @cons group comma groups behind _ ih =>
      refine step ?_
      have left : (group ++ comma :: behind).drop (group.length + 1) = behind := by
        rw [List.drop_append]
        simp
      rw [left]
      exact ih

theorem failsAt_readAll (inside behind : List Token) :
    FailsAt beyond (inside ++ behind) (readAll beyond (inside ++ behind) inside) := by
  unfold readAll
  split
  · exact .ok _
  · exact failsAt_readGroups (Token.laid_groups inside behind)

end Parameter

theorem Signature.failsAt_read (inName : Bool) (tokens : List Token) :
    FailsAt beyond tokens (read beyond inName tokens) := by
  unfold read
  split
  · exact .unexpected (by decide) _
  · next name call split =>
      have suffix : call <:+ tokens := ⟨name, (eq_of_splitName split).symm⟩
      obtain ⟨opening, rest, rfl, opens⟩ := head_of_splitName split
      split
      · exact .unexpected (by decide) _
      · refine ((Enclosure.failsAt_read opens tokens).mono suffix).bind ?_
        intro enclosed found
        have whole := (Enclosure.eq_of_close? (Enclosure.close?_of_read opens found)).1
        rw [List.tail_cons]
        have inner : FailsAt beyond rest (Parameter.readAll beyond rest enclosed.inside) := by
          rw [whole]
          exact Parameter.failsAt_readAll enclosed.inside _
        have behind := (List.suffix_cons opening rest).trans suffix
        exact (inner.mono behind).bind fun _ _ => .ok _

namespace Function

theorem failsAt_dropEnding (name : String) (tokens : List Token) :
    FailsAt beyond tokens (dropEnding beyond name tokens) := by
  fun_induction dropEnding beyond name tokens with
  | case1 => exact .error (.endlessFunction name)
  | case2 token rest semicolon => exact .ok _
  | case3 token rest opens => exact (Enclosure.failsAt_read opens _).map
  | case4 token rest opens enclosed found ih =>
      exact ih.mono (Enclosure.after_suffix_of_read found)
  | case5 token rest opens failure failed =>
      exact .error (Enclosure.failsAt_read opens _ failure failed)
  | case6 token rest _ _ _ ih => exact ih.mono (List.suffix_cons token rest)

theorem failsAt_read (inName : Bool) (tokens : List Token) :
    FailsAt scope.beyond tokens (read scope inName tokens) := by
  unfold read
  refine (CType.failsAt_read tokens).bind ?_
  rintro ⟨type, rest⟩ typed
  have behind := (CType.endsIn_read scope.beyond tokens).suffix typed
  refine ((Signature.failsAt_read _ rest).mono behind).bind ?_
  rintro ⟨signature, later⟩ signed
  have suffix := ((Signature.endsIn_read scope.beyond _ rest).suffix signed).trans behind
  exact ((failsAt_dropEnding signature.name later).mono suffix).bind fun _ _ => .ok _

theorem failsAt_readConstructor (tokens : List Token) :
    FailsAt scope.beyond tokens (readConstructor scope tokens) := by
  have start := dropFunctionSpecifiers_suffix tokens
  unfold readConstructor
  refine ((Signature.failsAt_read false _).mono start).bind ?_
  rintro ⟨signature, rest⟩ signed
  have suffix := ((Signature.endsIn_read scope.beyond false _).suffix signed).trans start
  dsimp only at suffix ⊢
  split
  · exact .error (.nameMismatch _ _)
  · exact ((failsAt_dropEnding signature.name rest).mono suffix).bind fun _ _ => .ok _

theorem failsAt_readDestructor (tokens : List Token) :
    FailsAt scope.beyond tokens (readDestructor scope tokens) := by
  have start := dropFunctionSpecifiers_suffix tokens
  unfold readDestructor
  split
  · exact (FailsAt.unexpected (by decide) []).mono List.nil_suffix
  · next token rest split =>
      rw [split] at start
      split
      · have behind := (List.suffix_cons token rest).trans start
        refine ((Signature.failsAt_read false rest).mono behind).bind ?_
        rintro ⟨signature, later⟩ signed
        have suffix := ((Signature.endsIn_read scope.beyond false rest).suffix signed).trans behind
        exact ((failsAt_dropEnding _ later).mono suffix).bind fun _ _ => .ok _
      · exact (FailsAt.unexpected (by decide) (token :: rest)).mono start

end Function

theorem Typedef.failsAt_read (tokens : List Token) : FailsAt beyond tokens (Typedef.read tokens) := by
  unfold Typedef.read
  split
  · exact .error (.ended (by decide))
  · exact .ok _

/-! ### Classes and wrappers -/

namespace ClassItem

theorem failsAt_readBody (name : String) (tokens : List Token) :
    FailsAt beyond tokens (readBody beyond name tokens) := by
  have suffix := Token.splitOutside_suffix
    (fun lexeme => lexeme.isSemicolon || lexeme = .opening .curly) 0 tokens
  unfold readBody
  dsimp only
  split
  · exact (FailsAt.unexpected (by decide) []).mono List.nil_suffix
  · next token rest split =>
      rw [split] at suffix
      split
      · exact .ok _
      · next other =>
          exact (Enclosure.failsAt_read (opens_of_bases split other) tokens).map.mono suffix

theorem failsAt_read (tokens : List Token) :
    FailsAt beyond tokens (ClassItem.read beyond tokens) := by
  unfold ClassItem.read
  split
  · next word name rest =>
      split
      · split
        · exact (failsAt_readBody _ rest).mono ⟨[word, name], rfl⟩
        · exact (FailsAt.unexpected (by decide) (name :: rest)).mono (List.suffix_cons _ _)
      · exact .unexpected (by decide) _
  · split
    · exact (FailsAt.unexpected (by decide) []).mono List.nil_suffix
    · exact .unexpected (by decide) _
  · exact .unexpected (by decide) _

end ClassItem

namespace Item

theorem failsAt_readPlain (inName : Bool) (kind : Kind) (tokens : List Token) :
    FailsAt scope.beyond tokens (readPlain scope inName kind tokens) := by
  unfold readPlain
  split
  · exact Function.failsAt_read inName tokens
  · exact Function.failsAt_readConstructor tokens
  · exact Function.failsAt_readDestructor tokens
  · exact Typedef.failsAt_read tokens
  · exact Variable.failsAt_read tokens

theorem failsAt_dropTemplate (tokens : List Token) :
    FailsAt beyond tokens (dropTemplate beyond tokens) := by
  have suffix := List.tail_suffix tokens
  unfold dropTemplate
  split
  · exact (FailsAt.unexpected (by decide) []).mono List.nil_suffix
  · next token rest split =>
      rw [split] at suffix
      split
      · next opens => exact (Enclosure.failsAt_read opens _).map.mono suffix
      · exact (FailsAt.unexpected (by decide) _).mono suffix

/-! ### Courses that fail -/

end Item

theorem Course.bind_error_iff {course : Course ε α} {next : α → Course ε β} {error : ε} :
    (course.bind next).result = .error error ↔ course.result = .error error ∨
      ∃ value, course.result = .ok value ∧ (next value).result = .error error := by
  obtain ⟨notes, result⟩ := course
  cases result <;> simp [bind]

theorem Except.mapError_eq_error_iff {result : Except ε α} {change : ε → ε'} {error : ε'} :
    result.mapError change = .error error ↔ ∃ first, result = .error first ∧ change first = error := by
  cases result <;> simp [Except.mapError]

namespace Item

/-- What is noted about declarations has no say in what a run of items gives. -/
theorem result_readAll (notesOf notesOf' : Declaration → List Note) (inName : Bool)
    (tokens : List Token) : (readAll scope notesOf inName tokens).result =
      (readAll scope notesOf' inName tokens).result := by
  cases tokens with
  | nil => rw [readAll, readAll]
  | cons token rest =>
      rw [readAll, readAll]
      generalize read scope inName (token :: rest) = course
      obtain ⟨notes, error | ⟨declaration?, after⟩⟩ := course
      · rfl
      · by_cases shorter : after.length < (token :: rest).length
        · have later := result_readAll notesOf notesOf'
            (Token.namesOperator inName (Token.before (token :: rest) after)) after
          simp only [Course.bind, Course.note, if_pos shorter, later]
          split <;> rfl
        · simp only [Course.bind, Course.note, if_neg shorter, Course.pure]
termination_by tokens.length
decreasing_by exact shorter

theorem result_readAll_of_error (notesOf : Declaration → List Note) {inName : Bool}
    {tokens : List Token} {failure : Failure} (some : tokens ≠ [])
    (failed : (read scope inName tokens).result = .error failure) :
    (readAll scope notesOf inName tokens).result = .error failure := by
  obtain ⟨token, rest, rfl⟩ := List.exists_cons_of_ne_nil some
  rw [readAll]
  exact Course.bind_error_iff.2 (Or.inl failed)

theorem exists_error_of_all {sections : List Section} {course : Section → Course Failure α}
    {failure : Failure}
    (failed : (Course.all (sections.map fun part => (course part).losing)).result =
      .error failure) :
    ∃ part ∈ sections, (course part).result = .error failure := by
  induction sections with
  | nil => cases failed
  | cons part more ih =>
      rw [List.map_cons, Course.all, Course.bind_error_iff, Course.result_losing] at failed
      obtain here | ⟨value, _, failed⟩ := failed
      · exact ⟨part, List.mem_cons_self, here⟩
      · obtain later | ⟨values, _, done⟩ := Course.bind_error_iff.1 failed
        · obtain ⟨other, mem, found⟩ := ih later
          exact ⟨other, List.mem_cons_of_mem _ mem, found⟩
        · cases done

/-- An error of an item is met in a section of a class that the item opens, or else at the item
itself, which opens none then. -/
def MetBy (scope : Scope) (inName : Bool) (tokens : List Token) (error : ParseError) : Prop :=
  (∃ child, Opens scope inName tokens child ∧ child.run.result = .error error) ∨
    error.MetAt scope.beyond tokens ∧ ∀ child, ¬ Opens scope inName tokens child

section Kinds

variable {inName : Bool} {token : Token} {rest : List Token} {failure : Failure}

theorem metBy_of_plain {kind : Kind} (isPlain : kind.isPlain)
    (starts : kind? scope.owner inName (token :: rest) = some kind)
    (failed : (readKind scope inName kind token rest).result = .error failure) :
    MetBy scope inName (token :: rest) failure.error := by
  rw [readKind_of_isPlain isPlain, Course.bind_error_iff] at failed
  obtain failed | ⟨_, _, done⟩ := failed
  · refine Or.inr ⟨failsAt_readPlain inName kind (token :: rest) failure failed, ?_⟩
    intro child opens
    cases opens with
    | template starts' _ _ | inline starts' _ | body starts' _ _ =>
        cases starts.symm.trans starts'
        cases isPlain
  · cases done

theorem metBy_of_template (starts : kind? scope.owner inName (token :: rest) = some .template)
    (failed : (readKind scope inName .template token rest).result = .error failure)
    (behind : ∀ inner, dropTemplate scope.beyond (token :: rest) = .ok inner →
      let inName := Token.namesOperator inName (Token.before (token :: rest) inner)
      (read scope inName inner).result = .error failure → MetBy scope inName inner failure.error) :
    MetBy scope inName (token :: rest) failure.error := by
  rw [readKind_template, Course.bind_error_iff] at failed
  obtain dropped | ⟨inner, dropped, failed⟩ := failed
  · refine Or.inr ⟨failsAt_dropTemplate (token :: rest) failure dropped, fun child opens => ?_⟩
    cases opens with
    | template _ found _ => cases dropped.symm.trans found
    | inline starts' _ | body starts' _ _ => cases starts.symm.trans starts'
  · have suffix := (endsIn_dropTemplate scope.beyond (token :: rest)).suffix dropped
    obtain ⟨child, opens, run⟩ | ⟨met, none⟩ := behind inner dropped failed
    · exact Or.inl ⟨child, .template starts dropped opens, run⟩
    · refine Or.inr ⟨met.mono suffix, fun child opens => ?_⟩
      cases opens with
      | template _ found inside =>
          cases dropped.symm.trans found
          exact none child inside
      | inline starts' _ | body starts' _ _ => cases starts.symm.trans starts'

theorem metBy_of_inline (starts : kind? scope.owner inName (token :: rest) = some .inline)
    (behind : MetBy scope (token.lexeme.namesOperator inName) rest failure.error) :
    MetBy scope inName (token :: rest) failure.error := by
  obtain ⟨child, opens, run⟩ | ⟨met, none⟩ := behind
  · exact Or.inl ⟨child, .inline starts opens, run⟩
  · refine Or.inr ⟨met.mono (List.suffix_cons token rest), fun child opens => ?_⟩
    cases opens with
    | inline _ inside => exact none child inside
    | template starts' _ _ | body starts' _ _ => cases starts.symm.trans starts'

theorem metBy_of_class (starts : kind? scope.owner inName (token :: rest) = some .classType)
    (failed : (readKind scope inName .classType token rest).result = .error failure) :
    MetBy scope inName (token :: rest) failure.error := by
  rw [readKind_classType, Course.bind_error_iff] at failed
  obtain failed | ⟨⟨_ | ⟨name, sections⟩, after⟩, found, failed⟩ := failed
  · refine Or.inr ⟨ClassItem.failsAt_read (token :: rest) failure failed, fun child opens => ?_⟩
    cases opens with
    | body _ found _ => cases failed.symm.trans found
    | template starts' _ _ | inline starts' _ => cases starts.symm.trans starts'
  · cases failed
  · obtain failed | ⟨_, _, done⟩ := Course.bind_error_iff.1 failed
    · obtain ⟨first, raised, rfl⟩ := Except.mapError_eq_error_iff.1 failed
      obtain ⟨part, mem, within⟩ := exists_error_of_all raised
      rw [result_readAll (nestedNotes name) fun _ => []] at within
      refine Or.inl ⟨_, .body starts found mem, ?_⟩
      exact Except.mapError_eq_error_iff.2 ⟨first, within, rfl⟩
    · cases done

/-- An error in the first section of a class is the error of the class. -/
theorem read_of_section_error {name : String} {part : Section} {more : List Section}
    {after : List Token} (starts : kind? scope.owner inName (token :: rest) = some .classType)
    (found : ClassItem.read scope.beyond (token :: rest) =
      .ok (.definition name (part :: more), after))
    (failed : (readAll ⟨some name, scope.depth + 1, part.beyond⟩ (nestedNotes name) false
      part.tokens).result = .error failure) :
    (read scope inName (token :: rest)).result = .error ⟨failure.error, rest.tail⟩ := by
  rw [read_of_kind? starts, readKind_classType]
  refine Course.bind_error_iff.2 (Or.inr ⟨(), rfl, ?_⟩)
  refine Course.bind_error_iff.2 (Or.inr ⟨_, found, ?_⟩)
  refine Course.bind_error_iff.2 (Or.inl (Except.mapError_eq_error_iff.2 ⟨failure, ?_, rfl⟩))
  rw [List.map_cons, Course.all]
  exact Course.bind_error_iff.2 (Or.inl ((Course.result_losing _).trans failed))

end Kinds

theorem metBy_of_read {inName : Bool} {tokens : List Token} {failure : Failure}
    (failed : (read scope inName tokens).result = .error failure) :
    MetBy scope inName tokens failure.error := by
  match tokens with
  | [] =>
      rw [read] at failed
      cases failed
      refine Or.inr ⟨.ended (by decide), fun child opens => ?_⟩
      cases opens <;> contradiction
  | token :: rest =>
      cases starts : kind? scope.owner inName (token :: rest) with
      | none =>
          rw [read, if_pos (by simpa [kind?] using starts)] at failed
          cases failed
      | some kind =>
          rw [read_of_kind? starts, Course.bind_error_iff] at failed
          obtain failed | ⟨_, _, failed⟩ := failed
          · cases failed
          cases kind with
          | template =>
              refine metBy_of_template starts failed fun inner dropped failed => ?_
              have shorter := length_dropTemplate dropped
              exact metBy_of_read failed
          | inline =>
              rw [readKind.eq_def] at failed
              exact metBy_of_inline starts (metBy_of_read failed)
          | classType => exact metBy_of_class starts failed
          | variableList | function | typedef | constructor | destructor =>
              exact metBy_of_plain rfl starts failed
termination_by tokens.length
decreasing_by
  · exact shorter
  · exact Nat.lt_succ_self rest.length

end Item

/-! ### Sections in their text -/

theorem Section.place_of_mem_publicFrom {tokens : List Token} {part : Section}
    (mem : part ∈ publicFrom beyond tokens) : ∃ front back,
      tokens = front ++ (part.tokens ++ back) ∧ part.beyond = Token.sourceOf back ++ beyond := by
  fun_induction publicFrom beyond tokens with
  | case1 word colon rest parts later kept ih =>
      have whole := splitLabel_append 0 rest
      obtain rfl | old := List.mem_cons.1 mem
      · exact ⟨[word, colon], parts.2, by rw [← whole]; rfl, rfl⟩
      · obtain ⟨front, back, inner, source⟩ := ih old
        refine ⟨word :: colon :: (parts.1 ++ front), back, ?_, source⟩
        rw [← whole, show (splitLabel 0 rest).2 = _ from inner]
        simp [parts]
  | case2 word colon rest parts later dropped ih =>
      have whole := splitLabel_append 0 rest
      obtain ⟨front, back, inner, source⟩ := ih mem
      refine ⟨word :: colon :: (parts.1 ++ front), back, ?_, source⟩
      rw [← whole, show (splitLabel 0 rest).2 = _ from inner]
      simp [parts]
  | case3 => cases mem

theorem ClassItem.place_of_mem_sections {tokens rest : List Token} {name : String}
    {sections : List Section} {part : Section}
    (found : read beyond tokens = .ok (.definition name sections, rest)) (mem : part ∈ sections) :
    ∃ front back, tokens = front ++ (part.tokens ++ back) ∧
      part.beyond = Token.sourceOf back ++ beyond := by
  unfold read at found
  split at found
  · next word className behind =>
      split at found
      · split at found
        · have suffix := Token.splitOutside_suffix
            (fun lexeme => lexeme.isSemicolon || lexeme = .opening .curly) 0 behind
          unfold readBody at found
          dsimp only at found
          split at found
          · cases found
          · next token more split =>
              rw [split] at suffix
              obtain ⟨header, cut⟩ := suffix
              split at found
              · cases found
              · obtain ⟨body, enclosed, same⟩ := Except.map_ok_iff.1 found
                cases same
                have whole := Enclosure.eq_of_read enclosed
                have label := Section.splitLabel_append 0 body.inside
                obtain ⟨front, back, inner, source⟩ := Section.place_of_mem_publicFrom mem
                generalize (Section.splitLabel 0 body.inside).1 = unlabelled at label
                refine ⟨word :: className :: (header ++ token :: (unlabelled ++ front)),
                  back ++ body.close :: body.after, ?_, ?_⟩
                · rw [← cut, whole, ← label, inner]
                  simp
                · rw [source, Token.sourceOf_append, List.append_assoc]
        · cases found
      · cases found
  · split at found <;> cases found
  · cases found

theorem Item.Opens.place {inName : Bool} {tokens : List Token} {child : Parser}
    (opens : Opens scope inName tokens child) : ∃ front back,
      tokens = front ++ (child.tokens ++ back) ∧
        child.scope.beyond = Token.sourceOf back ++ scope.beyond := by
  induction opens with
  | @template _ tokens inner child _ dropped _ ih =>
      obtain ⟨front, back, rfl, source⟩ := ih
      obtain ⟨wrapper, rfl⟩ := (endsIn_dropTemplate scope.beyond tokens).suffix dropped
      exact ⟨wrapper ++ front, back, (List.append_assoc _ _ _).symm, source⟩
  | @inline _ token _ _ _ _ ih =>
      obtain ⟨front, back, rfl, source⟩ := ih
      exact ⟨token :: front, back, rfl, source⟩
  | body _ found mem => exact ClassItem.place_of_mem_sections found mem

namespace Parser

/-- The tokens of a parser are a section of those of its text, and it knows the source behind them. -/
theorem Reachable.place {text : List Char} {parser : Parser} (reachable : parser.Reachable text) :
    ∃ lexed front back, Lexed.ofText text = .ok lexed ∧
      lexed.tokens = front ++ (parser.passed ++ parser.tokens ++ back) ∧
        parser.scope.beyond = Token.sourceOf back := by
  induction reachable with
  | @start owner parser found =>
      obtain ⟨lexed, lexes, rfl⟩ := ofText_eq_ok_iff.1 found
      refine ⟨lexed, [], [], lexes, by simp, ?_⟩
      cases owner <;> rfl
  | @step parser _ ih =>
      obtain ⟨lexed, front, back, lexes, tokens, source⟩ := ih
      obtain ⟨rest, notes, after, suffix, _⟩ := parser.step_cases
      have same := before_append suffix
      refine ⟨lexed, front, back, lexes, ?_, ?_⟩
      · rw [after, moveTo, List.append_assoc parser.passed, same]
        exact tokens
      · rw [step_scope]
        exact source
  | @child parser child _ opens ih =>
      obtain ⟨lexed, front, back, lexes, tokens, source⟩ := ih
      obtain ⟨inner, outer, within, beyond⟩ := Item.Opens.place opens
      have fresh := opens.within.1
      refine ⟨lexed, front ++ parser.passed ++ inner, outer ++ back, lexes, ?_, ?_⟩
      · rw [tokens, within, fresh]
        simp
      · rw [beyond, source, Token.sourceOf_append]

/-- A run that fails comes to an item at which the error is met, in the section that holds it. -/
theorem met_of_run {text : List Char} {parser : Parser} {error : ParseError}
    (reachable : parser.Reachable text) (failed : parser.run.result = .error error) :
    ∃ inner : Parser, inner.Reachable text ∧ inner.step.1 = .error error ∧
      error.MetAt inner.scope.beyond inner.tokens ∧ ∀ child, ¬ inner.Opens child := by
  have some : parser.tokens ≠ [] := by
    intro ended
    rw [run_of_ended ended] at failed
    cases failed
  obtain ⟨rest, notes, after, _, _, ⟨declaration?, found, _, shorter⟩ | ⟨met, stepped, read⟩⟩ :=
    parser.step_cases
  · rw [(run_of_step_ok found).1, Except.map_error_iff] at failed
    have fewer : parser.step.2.tokens.length < parser.tokens.length := by
      rw [after]
      exact shorter
    exact met_of_run reachable.step failed
  · cases (run_of_step_error some stepped).1.symm.trans failed
    obtain ⟨child, opens, run⟩ | ⟨here, none⟩ := Item.metBy_of_read read
    · have fewer := opens.within.2.2
      exact met_of_run (reachable.child opens) run
    · exact ⟨parser, reachable, stepped, here, none⟩
termination_by parser.tokens.length

end Parser

/-! ### Places in the text -/

/-- How an error tells its place: the tokens are those of the section in which it is met. -/
def ParseError.LocatedIn (text : List Char) (tokens : List Token) : ParseError → Prop
  | .unexpectedToken expected found offset =>
      expected ≠ "an opening bracket" ∧ offset < Text.size text ∧
        ∃ token ∈ tokens, token.start = offset ∧
          (found = token.lexeme.description ∨
            expected = "a parameter" ∧ ∃ last ∈ tokens, ∃ part,
              Text.slice? offset last.stop text = some part ∧ found = Text.excerpt part)
  | .unbalanced delimiter context =>
      ∃ kind front token rest, delimiter = .bracket kind ∧ tokens = front ++ token :: rest ∧
        token.lexeme = .opening kind ∧
        (∃ part, Text.slice? token.start (Text.size text) text = some part ∧
          context = Text.excerpt part) ∧
        ∀ inside close behind, rest = inside ++ close :: behind → close.lexeme = .closing kind →
          ¬ Token.Balances kind inside
  | .unexpectedEnd expected => expected ≠ "an opening bracket"
  | .nameMismatch _ _ | .unequalArrayDepths _ | .endlessFunction _ => True
  | _ => False

theorem Lexed.start_lt_of_ofText {text : List Char} {lexed : Lexed} {token : Token}
    (found : ofText text = .ok lexed) (mem : token ∈ lexed.tokens) : token.start < Text.size text := by
  obtain ⟨front, back, tokens⟩ := List.append_of_mem mem
  obtain ⟨whole, start, _⟩ := place_of_ofText found tokens
  have filled := (tiles_of_ofText found).filled token mem
  rw [Token.stop] at filled
  rw [whole, Text.size_append, ← start, Text.size_append]
  omega

/-- What is met at the last tokens of a section is located in the section. -/
theorem ParseError.MetAt.located {text : List Char} {lexed : Lexed} {error : ParseError}
    {front passed tokens back : List Token} (lexes : Lexed.ofText text = .ok lexed)
    (whole : lexed.tokens = front ++ (passed ++ tokens ++ back))
    (met : error.MetAt (Token.sourceOf back) tokens) : error.LocatedIn text (passed ++ tokens) := by
  have within : ∀ token ∈ tokens, token.start < Text.size text := by
    intro token mem
    refine Lexed.start_lt_of_ofText lexes ?_
    rw [whole]
    simp [mem]
  cases met with
  | @token expected token rest known suffix =>
      have mem : token ∈ tokens := suffix.subset List.mem_cons_self
      exact ⟨known, within token mem, token, List.mem_append_right _ mem, rfl, Or.inl rfl⟩
  | @parameter token group behind suffix =>
      have mem : token ∈ tokens := suffix.subset List.mem_cons_self
      have run : ∀ other ∈ token :: group, other ∈ passed ++ tokens := by
        intro other here
        exact List.mem_append_right _ (suffix.subset (List.mem_append_left behind here))
      obtain ⟨earlier, rfl⟩ := suffix
      obtain none | ⟨middle, last, parameter⟩ := List.eq_nil_or_concat (token :: group)
      · cases none
      have place : lexed.tokens =
          (front ++ passed ++ earlier) ++ (middle ++ [last] ++ (behind ++ back)) := by
        rw [whole, ← List.concat_eq_append, ← parameter]
        simp
      rw [parameter, List.concat_eq_append] at run ⊢
      have head : (middle ++ [last]).head? = some token := by
        rw [← List.concat_eq_append, ← parameter]
        rfl
      have slice := Lexed.slice?_run lexes place head
      refine ⟨by decide, within token mem, token, List.mem_append_right _ mem, rfl, Or.inr ?_⟩
      exact ⟨rfl, last, run last (by simp), _, slice, rfl⟩
  | @bracket kind token rest suffix opens unclosed =>
      obtain ⟨earlier, rfl⟩ := suffix
      have place : lexed.tokens = (front ++ passed ++ earlier) ++ token :: (rest ++ back) := by
        rw [whole]
        simp
      obtain ⟨slice, _⟩ := Lexed.slices_of_ofText lexes place
      refine ⟨kind, passed ++ earlier, token, rest, rfl, by simp, opens, ⟨_, slice, ?_⟩, ?_⟩
      · rw [← List.cons_append, Token.sourceOf_append]
      · rintro inside close behind rfl closes balanced
        have found := Enclosure.close?_of_deepen? closes balanced behind
        cases unclosed.symm.trans found
  | ended known => exact known
  | nameMismatch | unequalArrayDepths | endlessFunction => exact trivial

namespace Parser

variable {owner : Option String} {text : List Char} {lexed : Lexed} {error : ParseError}

/-- An error of a text that lexes is located in the innermost section in which it is met: at a token
of the section, or at a bracket that nothing in the section closes. -/
theorem located_of_declarationsOf (lexes : Lexed.ofText text = .ok lexed)
    (failed : declarationsOf owner text = .error error) :
    ∃ parser : Parser, parser.Reachable text ∧ parser.step.1 = .error error ∧
      (∀ child, ¬ parser.Opens child) ∧ parser.passed ++ parser.tokens <:+: lexed.tokens ∧
      error.LocatedIn text (parser.passed ++ parser.tokens) := by
  have start : ofText owner text = .ok ⟨Scope.ofOwner owner, [], lexed.tokens, []⟩ :=
    ofText_eq_ok_iff.2 ⟨lexed, lexes, rfl⟩
  rw [declarationsOf, start] at failed
  change Parser.emission _ = _ at failed
  rw [emission_eq, Except.map_error_iff] at failed
  obtain ⟨parser, reachable, stepped, met, none⟩ := met_of_run (.start start) failed
  obtain ⟨lexed', front, back, again, whole, source⟩ := reachable.place
  cases lexes.symm.trans again
  rw [source] at met
  refine ⟨parser, reachable, stepped, none, ⟨front, back, ?_⟩, met.located lexes whole⟩
  rw [whole]
  simp

theorem located_of_nameless_member :
    ∃ lexed, Lexed.ofText "class A{public:int;};".toList = .ok lexed ∧
      declarationsOf none "class A{public:int;};".toList =
        .error (.unexpectedToken "a variable name" "';'" 18) ∧
      ∃ parser : Parser, parser.Reachable "class A{public:int;};".toList ∧
        parser.step.1 = .error (.unexpectedToken "a variable name" "';'" 18) ∧
        (∀ child, ¬ parser.Opens child) ∧ parser.passed ++ parser.tokens <:+: lexed.tokens ∧
        (ParseError.unexpectedToken "a variable name" "';'" 18).LocatedIn
          "class A{public:int;};".toList (parser.passed ++ parser.tokens) := by
  let error : ParseError := .unexpectedToken "a variable name" "';'" 18
  let member : List Token := [⟨.keyword .int, 15, []⟩, ⟨.punctuation .semicolon, 18, []⟩]
  let tokens : List Token :=
    [⟨.keyword .classKey, 0, [' ']⟩, ⟨.identifier "A", 6, []⟩, ⟨.opening .curly, 7, []⟩,
      ⟨.keyword .publicKey, 8, []⟩, ⟨.punctuation .colon, 14, []⟩] ++ member ++
      [⟨.closing .curly, 19, []⟩, ⟨.punctuation .semicolon, 20, []⟩]
  have lexes : Lexed.ofText "class A{public:int;};".toList = .ok ⟨[], tokens⟩ := by cbv
  have starts : Item.kind? none false tokens = some .classType := by cbv
  have found : ClassItem.read [] tokens =
      .ok (.definition "A" [⟨member, ['}', ';']⟩], []) := by cbv
  have starts' : Item.kind? (some "A") false member = some .variableList := rfl
  have unread : Variable.read ⟨some "A", 1, ['}', ';']⟩ member =
      .error ⟨error, [⟨.punctuation .semicolon, 18, []⟩]⟩ := by cbv
  have inner : (Item.read ⟨some "A", 1, ['}', ';']⟩ false member).result =
      .error ⟨error, [⟨.punctuation .semicolon, 18, []⟩]⟩ := by
    rw [Item.read_of_kind? starts', Item.readKind_of_isPlain rfl]
    exact Course.bind_error_iff.2 (Or.inr ⟨(), rfl, Course.bind_error_iff.2 (Or.inl unread)⟩)
  have body := Item.result_readAll_of_error (Item.nestedNotes "A") (List.cons_ne_nil _ _) inner
  have outer := @Item.read_of_section_error .top false _ _ _ _ _ _ _ starts found body
  have failed : declarationsOf none "class A{public:int;};".toList = .error error := by
    rw [declarationsOf, ofText_eq_ok_iff.2 ⟨_, lexes, rfl⟩]
    change Parser.emission _ = _
    rw [emission_eq, Except.map_error_iff]
    have run := Item.result_readAll_of_error (fun _ => []) (List.cons_ne_nil _ _) outer
    exact Except.mapError_eq_error_iff.2 ⟨_, run, rfl⟩
  exact ⟨_, lexes, failed, located_of_declarationsOf lexes failed⟩

end Parser

end PxdStub
