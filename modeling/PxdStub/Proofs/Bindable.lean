import PxdStub.Header
import PxdStub.Proofs.Lexing
import PxdStub.Proofs.Progress

/-!
What is emitted. Every declaration that a parser hands out has a form in a stub: built-in types behind
pointers, references and arrays, names that are words, and constructors in their own class only.
-/

namespace PxdStub

def BaseType.isBuiltin : BaseType → Bool
  | void | int | double => true
  | _ => false

def BaseType.isPassable : BaseType → Bool
  | void | int | double | named _ => true
  | _ => false

def Wrap.isIndirection : Wrap → Bool
  | star | reference => true
  | _ => false

/-! ### Declarations with a form in a stub -/

/-- A variable with at most one array around pointers and references. -/
structure Variable.IsBindable (nested : Bool) (declared : Variable) : Prop where
  nested_eq : declared.nested = nested
  builtin : declared.type.base.isBuiltin
  named : ∃ names : List String, names ≠ [] ∧ (∀ name ∈ names, Lexeme.isName name) ∧
    declared.name = ", ".intercalate names
  wrapped : ∃ indirections arrays, declared.type.wraps = indirections ++ arrays ∧
    (∀ wrap ∈ indirections, wrap.isIndirection) ∧
    (arrays = [] ∨ ∃ dimensions, 1 ≤ dimensions ∧ arrays = [.array dimensions])

structure Variable.IsArgument (argument : Variable) : Prop where
  nested : argument.nested = true
  passable : argument.type.base.isPassable
  named : argument.name = "" ∨ Lexeme.isName argument.name
  wrapped : ∃ indirections dimensions,
    argument.type.wraps = indirections ++ List.replicate dimensions .unsized ∧
    ∀ wrap ∈ indirections, wrap.isIndirection

/-- A function at the top level, or in the class `owner`. -/
structure Function.IsBindable (owner : Option String) (declared : Function) : Prop where
  nested_eq : declared.nested = owner.isSome
  named : declared.name ≠ ""
  no_destructor : declared.kind ≠ .destructor
  constructor_named : declared.kind = .constructor → owner = some declared.name
  arguments : ∀ argument ∈ declared.arguments, argument.IsArgument

def Member.IsBindable (owner : String) : Member → Prop
  | ofVariable declared => declared.IsBindable true
  | ofFunction declared => declared.IsBindable (some owner)

def Declaration.IsBindable (owner : Option String) : Declaration → Prop
  | ofVariable declared => declared.IsBindable owner.isSome
  | ofFunction declared => declared.IsBindable owner
  | ofClass declared => ∀ member ∈ declared.members, member.IsBindable declared.name

/-- What a parse may come to: bindable declarations and omissions told as unsupported types, or an
error of another sort. -/
def EmitsBindable (owner : Option String) :
    Except ParseError (List Declaration × List Omission) → Prop
  | .ok (declarations, omissions) =>
      (∀ declaration ∈ declarations, declaration.IsBindable owner) ∧
        ∀ omission ∈ omissions, omission.trouble = .unsupportedType
  | .error error => error.trouble ≠ .unsupportedType

theorem Member.isBindable_of_member? {owner : String} {declaration : Declaration} {member : Member}
    (bindable : declaration.IsBindable (some owner)) (found : declaration.member? = some member) :
    member.IsBindable owner := by
  cases declaration with
  | ofVariable declared => cases found; exact bindable
  | ofFunction declared => cases found; exact bindable
  | ofClass declared => cases found

/-! ### Types and names -/

theorem Wrap.isIndirection_of_read (behindAmpersand : Bool) (tokens : List Token) :
    ∀ wrap ∈ (Wrap.read behindAmpersand tokens).1, wrap.isIndirection := by
  induction tokens generalizing behindAmpersand with
  | nil => simp [Wrap.read]
  | cons token rest ih =>
      rw [Wrap.read]
      split
      · exact List.forall_mem_cons.2 ⟨rfl, ih _⟩
      · split
        · exact ih _
        · exact List.forall_mem_cons.2 ⟨rfl, ih _⟩
      · exact ih _
      · simp

theorem CType.isIndirection_of_read {beyond : List Char} {tokens rest : List Token} {type : CType}
    (found : read beyond tokens = .ok (type, rest)) : ∀ wrap ∈ type.wraps, wrap.isIndirection := by
  unfold read at found
  obtain ⟨⟨base, behind⟩, _, found⟩ := Except.bind_ok_iff.1 found
  cases found
  exact Wrap.isIndirection_of_read false behind

namespace Token

theorem AreRead.subset {tokens more : List Token} (areRead : AreRead more)
    (within : tokens ⊆ more) : AreRead tokens :=
  fun token mem => areRead token (within mem)

theorem isName_of_firstName? {tokens : List Token} {name : String} (areRead : AreRead tokens)
    (found : firstName? tokens = some name) : Lexeme.isName name := by
  obtain ⟨token, mem, named⟩ := List.exists_of_findSome?_eq_some found
  cases lexeme : token.lexeme with
  | identifier word =>
      rw [lexeme] at named
      cases named
      exact (areRead token mem).named name lexeme
  | _ =>
      rw [lexeme] at named
      cases named

theorem groupsAt_flatten_subset (depth : Nat) (tokens : List Token) :
    (groupsAt depth tokens).flatten ⊆ tokens := by
  induction tokens generalizing depth with
  | nil => simp [groupsAt]
  | cons token rest ih =>
      rw [groupsAt]
      split
      · exact List.Subset.trans (ih 0) (List.subset_cons_self token rest)
      · have later := ih (angledNesting depth token)
        split
        · next group more same =>
            rw [same] at later
            exact List.cons_subset_cons token later
        · simp

theorem subset_of_mem_groups {tokens group : List Token} (mem : group ∈ groups tokens) :
    group ⊆ tokens := by
  unfold groups at mem
  split at mem
  · cases mem
  · intro token inside
    exact groupsAt_flatten_subset 0 tokens (List.mem_flatten.2 ⟨group, mem, inside⟩)

theorem AreRead.groups {tokens : List Token} (areRead : AreRead tokens) :
    ∀ group ∈ groups tokens, AreRead group :=
  fun _ mem => areRead.subset (subset_of_mem_groups mem)

theorem nameOf_ne_empty {tokens : List Token} (areRead : AreRead tokens) (some : tokens ≠ []) :
    nameOf tokens ≠ "" := by
  obtain ⟨token, rest, rfl⟩ := List.exists_cons_of_ne_nil some
  have spelled := (areRead token List.mem_cons_self).spelled
  intro none
  have empty : textOf (token :: rest) = [] := by
    simpa [nameOf] using congrArg String.toList none
  cases rest with
  | nil => exact spelled empty
  | cons next more =>
      rw [textOf, List.append_assoc] at empty
      · exact spelled (List.append_eq_nil_iff.1 empty).1
      · simp

end Token

/-! ### Variables -/

theorem Declarator.isName_of_readGroups {tokens : List Token} {groups : List (List Token)}
    {declarators : List Declarator} (areRead : ∀ group ∈ groups, Token.AreRead group)
    (found : readGroups tokens groups = .ok declarators) :
    ∀ declarator ∈ declarators, Lexeme.isName declarator.name := by
  induction groups generalizing tokens declarators with
  | nil =>
      cases found
      simp
  | cons group more ih =>
      rw [readGroups] at found
      split at found
      · next first named =>
          obtain ⟨later, read, rfl⟩ := Except.map_ok_iff.1 found
          obtain ⟨name, inside, rfl⟩ := Option.map_eq_some_iff.1 named
          refine List.forall_mem_cons.2 ⟨?_, ih (fun group mem => ?_) read⟩
          · exact Token.isName_of_firstName?
              ((areRead group List.mem_cons_self).subset (List.takeWhile_subset _)) inside
          · exact areRead group (List.mem_cons_of_mem _ mem)
      · cases found

theorem Variable.isBindable_of_ofDeclarators {scope : Scope} {type : CType} {text : String}
    {declarators : List Declarator} {declared : Variable} (builtin : type.base.isBuiltin)
    (indirect : ∀ wrap ∈ type.wraps, wrap.isIndirection)
    (areNames : ∀ declarator ∈ declarators, Lexeme.isName declarator.name)
    (found : ofDeclarators scope type text declarators = .ok declared) :
    declared.IsBindable scope.isNested := by
  cases declarators with
  | nil => cases found
  | cons first more =>
      rw [ofDeclarators] at found
      split at found
      · cases found
        refine ⟨rfl, builtin, ⟨(first :: more).map Declarator.name, by simp, ?_, rfl⟩, ?_⟩
        · intro name mem
          obtain ⟨declarator, among, rfl⟩ := List.mem_map.1 mem
          exact areNames declarator among
        · refine ⟨type.wraps, _, rfl, indirect, ?_⟩
          split
          · exact Or.inl rfl
          · exact Or.inr ⟨first.dimensions, by omega, rfl⟩
      · cases found

theorem Variable.outcome_eq_emitted {declared : Variable} {declaration : Declaration}
    (emitted : declared.outcome = .emitted declaration) :
    declaration = .ofVariable declared ∧ declared.type.base.isBuiltin := by
  unfold outcome at emitted
  cases base : declared.type.base with
  | void | int | double =>
      rw [base] at emitted
      cases emitted
      exact ⟨rfl, rfl⟩
  | named | tagged | generic =>
      rw [base] at emitted
      cases emitted

theorem Variable.base_of_ofDeclarators {scope : Scope} {type : CType} {text : String}
    {declarators : List Declarator} {declared : Variable}
    (found : ofDeclarators scope type text declarators = .ok declared) :
    declared.type.base = type.base := by
  cases declarators with
  | nil => cases found
  | cons first more =>
      rw [ofDeclarators] at found
      split at found
      · cases found
        rfl
      · cases found

theorem Variable.isBindable_of_read {scope : Scope} {tokens rest : List Token}
    {declaration : Declaration} (areRead : Token.AreRead tokens)
    (found : read scope tokens = .ok (.emitted declaration, rest)) :
    ∃ declared, declaration = .ofVariable declared ∧ declared.IsBindable scope.isNested := by
  have suffix := CType.endsIn_read scope.beyond tokens
  unfold read at found
  obtain ⟨⟨type, behind⟩, typed, found⟩ := Except.bind_ok_iff.1 found
  rw [typed] at suffix
  dsimp only at found
  split at found
  · cases found
  · split at found
    · cases found
    · obtain ⟨declarators, groups, found⟩ := Except.bind_ok_iff.1 found
      obtain ⟨declared, agree, found⟩ := Except.bind_ok_iff.1 found
      have agree := Failure.standing_ok_iff.1 agree
      have emitted := congrArg Prod.fst (Except.ok.inj found)
      obtain ⟨same, builtin⟩ := outcome_eq_emitted emitted
      rw [base_of_ofDeclarators agree] at builtin
      have whole := Token.splitOutside_append Lexeme.isSemicolon 0 behind
      have within : (Token.splitOutside Lexeme.isSemicolon 0 behind).1 ⊆ tokens := by
        intro token mem
        refine suffix.subset ?_
        rw [← whole]
        exact List.mem_append_left _ mem
      have areNames := Declarator.isName_of_readGroups (areRead.subset within).groups groups
      exact ⟨declared, same, isBindable_of_ofDeclarators builtin
        (CType.isIndirection_of_read typed) areNames agree⟩

/-! ### Functions -/

namespace Parameter

/-- What a parameter has before its base type is looked at. -/
structure IsShaped (parameter : Parameter) : Prop where
  named : parameter.name = "" ∨ Lexeme.isName parameter.name
  wrapped : ∃ indirections dimensions,
    parameter.type.wraps = indirections ++ List.replicate dimensions .unsized ∧
    ∀ wrap ∈ indirections, wrap.isIndirection

theorem isShaped_of_read {beyond : List Char} {tokens group : List Token} {parameter : Parameter}
    (areRead : Token.AreRead tokens) (found : read beyond tokens group = .ok parameter) :
    parameter.IsShaped := by
  have suffix := CType.endsIn_read beyond tokens
  unfold read at found
  obtain ⟨⟨type, rest⟩, typed, found⟩ := Except.bind_ok_iff.1 found
  rw [typed] at suffix
  dsimp only at found
  split at found
  · cases found
  · cases found
    refine ⟨?_, type.wraps, _, rfl, CType.isIndirection_of_read typed⟩
    generalize declared : Token.beforeInitializer _ = names
    have within : names ⊆ tokens := by
      rw [← declared]
      intro token mem
      exact suffix.subset (List.take_subset _ _ (List.takeWhile_subset _ mem))
    cases first : Token.firstName? names with
    | none => exact Or.inl rfl
    | some name => exact Or.inr (Token.isName_of_firstName? (areRead.subset within) first)

theorem isShaped_of_readGroups {beyond : List Char} {tokens : List Token}
    {groups : List (List Token)} {parameters : List Parameter} {variadic : Bool}
    (areRead : Token.AreRead tokens)
    (found : readGroups beyond tokens groups = .ok (parameters, variadic)) :
    ∀ parameter ∈ parameters, parameter.IsShaped := by
  induction groups generalizing tokens parameters variadic with
  | nil =>
      cases found
      simp
  | cons group more ih =>
      have behind : Token.AreRead (tokens.drop (group.length + 1)) :=
        areRead.subset (List.drop_subset _ _)
      unfold readGroups at found
      dsimp only at found
      split at found
      · exact ih behind found
      · split at found
        · obtain ⟨⟨later, _⟩, read, found⟩ := Except.bind_ok_iff.1 found
          cases found
          exact ih behind read
        · obtain ⟨parameter, first, found⟩ := Except.bind_ok_iff.1 found
          obtain ⟨⟨later, _⟩, read, found⟩ := Except.bind_ok_iff.1 found
          cases found
          exact List.forall_mem_cons.2 ⟨isShaped_of_read areRead first, ih behind read⟩

theorem isShaped_of_readAll {beyond : List Char} {tokens inside : List Token}
    {parameters : List Parameter} {variadic : Bool} (areRead : Token.AreRead tokens)
    (found : readAll beyond tokens inside = .ok (parameters, variadic)) :
    ∀ parameter ∈ parameters, parameter.IsShaped := by
  unfold readAll at found
  split at found
  · cases found
    simp
  · exact isShaped_of_readGroups areRead found

theorem IsShaped.isArgument {parameter : Parameter} (shaped : parameter.IsShaped)
    (supported : Signature.unsupported? parameter = none) : parameter.asVariable.IsArgument := by
  refine ⟨rfl, ?_, shaped.named, shaped.wrapped⟩
  unfold Signature.unsupported? at supported
  cases base : parameter.type.base with
  | void | int | double | named => simp [asVariable, base, BaseType.isPassable]
  | tagged | generic =>
      rw [base] at supported
      cases supported

end Parameter

namespace Signature

/-- What a signature has before it is said to be bindable. -/
structure IsShaped (signature : Signature) : Prop where
  named : signature.name ≠ ""
  parameters : ∀ parameter ∈ signature.parameters, parameter.IsShaped

theorem isShaped_of_read {beyond : List Char} {inName : Bool} {tokens rest : List Token}
    {signature : Signature} (areRead : Token.AreRead tokens)
    (found : read beyond inName tokens = .ok (signature, rest)) : signature.IsShaped := by
  unfold read at found
  split at found
  · cases found
  · next name call split =>
      have whole := eq_of_splitName split
      dsimp only at found
      split at found
      · cases found
      · next some =>
          obtain ⟨enclosed, _, found⟩ := Except.bind_ok_iff.1 found
          obtain ⟨⟨parameters, variadic⟩, read, found⟩ := Except.bind_ok_iff.1 found
          cases found
          refine ⟨Token.nameOf_ne_empty (areRead.subset ?_) (by simpa using some), ?_⟩
          · rw [whole]
            exact List.subset_append_left _ _
          · refine Parameter.isShaped_of_readAll (areRead.subset ?_) read
            rw [whole]
            exact List.Subset.trans (List.tail_suffix call).subset (List.subset_append_right _ _)

theorem isBindable_of_outcome {scope : Scope} {kind : FunctionKind} {signature : Signature}
    {declaration : Declaration} (shaped : signature.IsShaped) (destroys : kind ≠ .destructor)
    (constructs : kind = .constructor → scope.owner = some signature.name)
    (nested : scope.isNested = scope.owner.isSome)
    (emitted : signature.outcome scope kind = .emitted declaration) :
    declaration.IsBindable scope.owner := by
  unfold outcome at emitted
  split at emitted
  · cases emitted
  · split at emitted
    · cases emitted
    · next supported =>
        cases emitted
        refine ⟨nested, shaped.named, destroys, constructs, ?_⟩
        intro argument mem
        obtain ⟨parameter, among, rfl⟩ := List.mem_map.1 mem
        exact (shaped.parameters parameter among).isArgument
          (List.findSome?_eq_none_iff.1 supported parameter among)

end Signature

/-! ### Items -/

theorem Function.isBindable_of_read {scope : Scope} {inName : Bool} {tokens rest : List Token}
    {declaration : Declaration} (areRead : Token.AreRead tokens)
    (nested : scope.isNested = scope.owner.isSome)
    (found : read scope inName tokens = .ok (.emitted declaration, rest)) :
    declaration.IsBindable scope.owner := by
  have suffix := CType.endsIn_read scope.beyond tokens
  unfold read at found
  obtain ⟨⟨type, behind⟩, typed, found⟩ := Except.bind_ok_iff.1 found
  obtain ⟨⟨signature, body⟩, signed, found⟩ := Except.bind_ok_iff.1 found
  obtain ⟨after, _, found⟩ := Except.bind_ok_iff.1 found
  rw [typed] at suffix
  have emitted := congrArg Prod.fst (Except.ok.inj found)
  have shaped := Signature.isShaped_of_read (areRead.subset suffix.subset) signed
  refine Signature.isBindable_of_outcome shaped ?_ ?_ nested emitted
  · intro other
    cases other
  · intro other
    cases other

theorem Function.isBindable_of_readConstructor {scope : Scope} {tokens rest : List Token}
    {declaration : Declaration} (areRead : Token.AreRead tokens) (inside : scope.owner.isSome)
    (nested : scope.isNested = scope.owner.isSome)
    (found : readConstructor scope tokens = .ok (.emitted declaration, rest)) :
    declaration.IsBindable scope.owner := by
  unfold readConstructor at found
  obtain ⟨⟨signature, body⟩, signed, found⟩ := Except.bind_ok_iff.1 found
  dsimp only at found
  split at found
  · cases found
  · next named =>
      obtain ⟨after, _, found⟩ := Except.bind_ok_iff.1 found
      have emitted := congrArg Prod.fst (Except.ok.inj found)
      have shaped := Signature.isShaped_of_read
        (areRead.subset (dropFunctionSpecifiers_suffix tokens).subset) signed
      refine Signature.isBindable_of_outcome shaped ?_ ?_ nested emitted
      · intro other
        cases other
      · intro _
        obtain ⟨owner, same⟩ := Option.isSome_iff_exists.1 inside
        rw [same] at named ⊢
        exact congrArg some (Decidable.of_not_not named).symm

/-- Constructors are looked for in classes only. -/
theorem Item.owner_of_constructor {owner : Option String} {inName : Bool} {tokens : List Token}
    (starts : kind? owner inName tokens = some .constructor) : owner.isSome := by
  obtain ⟨token, rest, rfl, _, kind⟩ := kind?_eq_some_iff.1 starts
  cases owner with
  | some name => rfl
  | none =>
      unfold Kind.ofTokens at kind
      dsimp only [Option.bind] at kind
      split at kind
      · next keyword =>
          unfold Kind.ofKeyword? at keyword
          dsimp only at keyword
          rw [kind] at keyword
          split at keyword <;> cases keyword
      · split at kind <;> cases kind

theorem Item.isBindable_of_readPlain {scope : Scope} {inName : Bool} {kind : Kind}
    {tokens rest : List Token} {declaration : Declaration} (areRead : Token.AreRead tokens)
    (nested : scope.isNested = scope.owner.isSome)
    (starts : kind? scope.owner inName tokens = some kind)
    (found : readPlain scope inName kind tokens = .ok (.emitted declaration, rest)) :
    declaration.IsBindable scope.owner := by
  unfold readPlain at found
  split at found
  · exact Function.isBindable_of_read areRead nested found
  · exact Function.isBindable_of_readConstructor areRead (owner_of_constructor starts) nested found
  · unfold Function.readDestructor at found
    split at found
    · cases found
    · split at found
      · obtain ⟨_, _, found⟩ := Except.bind_ok_iff.1 found
        obtain ⟨_, _, found⟩ := Except.bind_ok_iff.1 found
        cases found
      · cases found
  · unfold Typedef.read at found
    split at found <;> cases found
  · obtain ⟨declared, rfl, bindable⟩ := Variable.isBindable_of_read areRead found
    rw [nested] at bindable
    exact bindable

namespace Item

/-- Declarations of an owner, read from tokens that are all `good`, have a property: those of items
without items of their own have it, and a class has it when the declarations in it have. -/
structure Emits (good : Token → Prop) (holds : Option String → Declaration → Prop) : Prop where
  plain : ∀ {scope : Scope} {inName : Bool} {kind : Kind} {tokens rest : List Token}
    {declaration : Declaration}, (∀ token ∈ tokens, good token) →
    scope.isNested = scope.owner.isSome → kind? scope.owner inName tokens = some kind →
    readPlain scope inName kind tokens = .ok (.emitted declaration, rest) →
    holds scope.owner declaration
  ofClass : ∀ {scope : Scope} {tokens rest : List Token} {name : String} {sections : List Section}
    {declarations : List Declaration}, (∀ token ∈ tokens, good token) →
    ClassItem.read scope.beyond tokens = .ok (.definition name sections, rest) →
    (∀ declaration ∈ declarations, holds (some name) declaration) →
    holds scope.owner (.ofClass ⟨name, declarations.filterMap Declaration.member?⟩)

variable {good : Token → Prop} {holds : Option String → Declaration → Prop}

mutual

theorem Reads.emits (emits : Emits good holds) {scope : Scope} {inName : Bool}
    {tokens rest : List Token} {declaration? : Option Declaration} {omissions : List Omission}
    (reads : Reads scope inName tokens declaration? omissions rest)
    (areGood : ∀ token ∈ tokens, good token) (nested : scope.isNested = scope.owner.isSome) :
    ∀ declaration, declaration? = some declaration → holds scope.owner declaration := by
  intro declaration emitted
  match reads with
  | .semicolon _ => cases emitted
  | .template _ dropped inner =>
      have suffix := endsIn_dropTemplate scope.beyond tokens
      rw [dropped] at suffix
      exact inner.emits emits (fun token mem => areGood token (suffix.subset mem)) nested
        declaration emitted
  | .inline _ inner =>
      exact inner.emits emits (List.forall_mem_cons.1 areGood).2 nested declaration emitted
  | .forward _ _ => cases emitted
  | .definition _ defined bodies =>
      have members := bodies.emits emits (fun part mem token inside =>
        areGood token ((ClassItem.infix_of_mem_sections defined mem).subset inside))
        (Nat.succ_pos _)
      cases emitted
      exact emits.ofClass areGood defined members
  | @Reads.plain _ _ _ _ outcome _ starts _ found =>
      cases outcome with
      | emitted declared =>
          cases emitted
          exact emits.plain areGood nested starts found
      | omitted omission => cases emitted
      | passed notes => cases emitted

theorem ReadsSections.emits (emits : Emits good holds) {name : String} {depth : Nat}
    {sections : List Section} {declarations : List Declaration} {omissions : List Omission}
    (reads : ReadsSections name depth sections declarations omissions)
    (areGood : ∀ part ∈ sections, ∀ token ∈ part.tokens, good token) (deep : 0 < depth) :
    ∀ declaration ∈ declarations, holds (some name) declaration := by
  match reads with
  | .nil => simp
  | .cons first others =>
      have here := first.emits emits (areGood _ List.mem_cons_self) (by simpa [Scope.isNested])
      have later := others.emits emits
        (fun part mem => areGood part (List.mem_cons_of_mem _ mem)) deep
      exact List.forall_mem_append.2 ⟨here, later⟩

theorem ReadsAll.emits (emits : Emits good holds) {scope : Scope} {inName : Bool}
    {tokens : List Token} {declarations : List Declaration} {omissions : List Omission}
    (reads : ReadsAll scope inName tokens declarations omissions)
    (areGood : ∀ token ∈ tokens, good token) (nested : scope.isNested = scope.owner.isSome) :
    ∀ declaration ∈ declarations, holds scope.owner declaration := by
  match reads with
  | .nil => simp
  | .cons first others =>
      have here := first.emits emits areGood nested
      have later := others.emits emits
        (fun token mem => areGood token (first.endsItem.suffix.subset mem)) nested
      refine List.forall_mem_append.2 ⟨?_, later⟩
      intro declaration mem
      exact here declaration (Option.mem_toList.1 mem)

end

theorem emits_bindable : Emits (fun token => token.lexeme.IsRead)
    fun owner declaration => declaration.IsBindable owner where
  plain areRead nested starts found := isBindable_of_readPlain areRead nested starts found
  ofClass _ _ members := by
    intro member mem
    obtain ⟨declaration, among, found⟩ := List.mem_filterMap.1 mem
    exact Member.isBindable_of_member? (members declaration among) found

end Item

/-! ### Parsers and headers -/

namespace Parser

theorem Reachable.areRead {text : List Char} {parser : Parser}
    (reachable : parser.Reachable text) : Token.AreRead parser.tokens := by
  obtain ⟨lexed, whole, inside⟩ := reachable.part_of_text
  refine (Lexed.areRead_of_ofText whole).subset ?_
  exact List.Subset.trans (List.subset_append_right _ _) inside.subset

theorem Reachable.isNested_iff {text : List Char} {parser : Parser}
    (reachable : parser.Reachable text) : parser.scope.isNested = parser.scope.owner.isSome := by
  induction reachable with
  | @start owner _ found =>
      obtain ⟨lexed, _, rfl⟩ := ofText_eq_ok_iff.1 found
      cases owner <;> rfl
  | @step parser _ ih =>
      rw [step_scope]
      exact ih
  | child _ opens _ =>
      obtain ⟨nested, owned⟩ := opens.in_class
      rw [nested, owned]

theorem Reachable.isBindable {text : List Char} {parser after : Parser}
    {declarations : List Declaration} (reachable : parser.Reachable text)
    (found : parser.declarations = .ok (declarations, after)) :
    ∀ declaration ∈ declarations, declaration.IsBindable parser.scope.owner := by
  obtain ⟨_, result, same⟩ := Except.map_ok_iff.1 found
  cases same
  exact (run_eq_ok_iff.1 ⟨result, rfl⟩).emits Item.emits_bindable reachable.areRead
    reachable.isNested_iff

end Parser

theorem ParseError.trouble_ne_unsupportedType (error : ParseError) :
    error.trouble ≠ .unsupportedType := by
  cases error <;> simp [trouble]

namespace Header

theorem ofText_eq_ok_iff {raw : List Char} {header : Header} :
    (ofText raw).result = .ok header ↔ ∃ code body, normalize raw = .ok code ∧
      extractNamespace code = .ok (header.namespaceName, body) ∧
      Parser.declarationsOf none body = .ok (header.declarations, header.omissions) := by
  constructor
  · intro found
    have course : ofText raw = ⟨(ofText raw).notes, .ok header⟩ := by rw [← found]
    obtain ⟨⟨name?, parser⟩, prepared, course⟩ := Course.ofExcept_bind_eq_ok course
    obtain ⟨declarations, notes, _, run, done, _⟩ := Course.bind_eq_ok course
    obtain ⟨code, normal, prepared⟩ := Except.bind_ok_iff.1 prepared
    obtain ⟨⟨_, body⟩, named, prepared⟩ := Except.bind_ok_iff.1 prepared
    obtain ⟨_, start, prepared⟩ := Except.bind_ok_iff.1 prepared
    cases prepared
    cases done
    obtain ⟨lexed, whole, rfl⟩ := Parser.ofText_eq_ok_iff.1 start
    refine ⟨code, body, normal, named, Parser.declarationsOf_eq_ok_iff.2 ⟨lexed, whole, ?_⟩⟩
    exact Parser.run_eq_ok_iff.1 ⟨congrArg Course.result run, rfl⟩
  · rintro ⟨code, body, normal, named, found⟩
    obtain ⟨lexed, whole, reads⟩ := Parser.declarationsOf_eq_ok_iff.1 found
    let parser : Parser := ⟨.top, [], lexed.tokens, []⟩
    have start : Parser.ofText none body = .ok parser :=
      Parser.ofText_eq_ok_iff.2 ⟨lexed, whole, rfl⟩
    have prepared : prepare raw = .ok (header.namespaceName, parser) :=
      Except.bind_ok_iff.2 ⟨code, normal, Except.bind_ok_iff.2 ⟨(_, body), named,
        Except.bind_ok_iff.2 ⟨parser, start, rfl⟩⟩⟩
    obtain ⟨result, silent⟩ :=
      (@Parser.run_eq_ok_iff parser header.declarations header.omissions).2 reads
    have run : parser.run = ⟨parser.run.notes, .ok header.declarations⟩ := by rw [← result]
    rw [ofText, prepared]
    dsimp only [Course.ofExcept, Course.bind]
    rw [silent, run]
    rfl

theorem isBindable_of_ofText {raw : List Char} {header : Header}
    (found : (ofText raw).result = .ok header) :
    ∀ declaration ∈ header.declarations, declaration.IsBindable none := by
  obtain ⟨_, _, _, _, parsed⟩ := ofText_eq_ok_iff.1 found
  obtain ⟨lexed, whole, reads⟩ := Parser.declarationsOf_eq_ok_iff.1 parsed
  exact reads.emits Item.emits_bindable (Lexed.areRead_of_ofText whole) rfl

def emission (raw : List Char) : Except ParseError (List Declaration × List Omission) :=
  (ofText raw).result.map fun header => (header.declarations, header.omissions)

end Header

/-- Only bindable declarations are emitted, for every header and by every parser over a text. -/
theorem only_bindable_emitted : (∀ raw, EmitsBindable none (Header.emission raw)) ∧
    ∀ text (parser : Parser), parser.Reachable text →
      EmitsBindable parser.scope.owner parser.emission := by
  constructor
  · intro raw
    rw [Header.emission]
    cases found : (Header.ofText raw).result with
    | error error => exact error.trouble_ne_unsupportedType
    | ok header => exact ⟨Header.isBindable_of_ofText found, fun omission _ => rfl⟩
  · intro text parser reachable
    rw [Parser.emission]
    cases found : parser.declarations with
    | error error => exact error.trouble_ne_unsupportedType
    | ok value => exact ⟨reachable.isBindable found, fun omission _ => rfl⟩

theorem variable_emitted_in_class : ∃ parser declared,
    Parser.ofText (some "A") "int n;P z;".toList = .ok parser ∧
    parser.emission = .ok ([.ofVariable declared], [⟨"z", "P"⟩]) ∧
    EmitsBindable (some "A") parser.emission := by
  let declared : Variable := ⟨⟨.int, []⟩, "n", true⟩
  let later : List Token := [⟨.identifier "P", 6, [' ']⟩, ⟨.identifier "z", 8, []⟩,
    ⟨.punctuation .semicolon, 9, []⟩]
  let tokens : List Token := [⟨.keyword .int, 0, [' ']⟩, ⟨.identifier "n", 4, []⟩,
    ⟨.punctuation .semicolon, 5, []⟩] ++ later
  have start : Parser.ofText (some "A") "int n;P z;".toList = .ok ⟨.inClass "A", [], tokens, []⟩ := by
    cbv
  have here : Item.readPlain (.inClass "A") false .variableList tokens =
      .ok (.emitted (.ofVariable declared), later) := by rfl
  have behind : Item.readPlain (.inClass "A") false .variableList later =
      .ok (.omitted ⟨"z", "P"⟩, []) := by rfl
  have reads : Item.ReadsAll (.inClass "A") false tokens [.ofVariable declared] [⟨"z", "P"⟩] :=
    .cons (.plain (by rfl) rfl here) (.cons (.plain (by rfl) rfl behind) .nil)
  exact ⟨_, declared, start, (Parser.emission_eq_ok_iff rfl).2 reads,
    only_bindable_emitted.2 _ _ (.start start)⟩

end PxdStub
