import PxdStub.Proofs.Bindable
import PxdStub.Proofs.Idempotence

/-!
No line feed gets into what a header declares: the text that is lexed is one line, and the names and
types of declarations are put together from its tokens.
-/

namespace PxdStub

/-! ### Tokens -/

namespace Token

/-- There is no line feed in the token or behind it. -/
def IsOneLine (token : Token) : Prop :=
  '\n' ∉ token.lexeme.spelling ++ token.gap

variable {beyond : List Char} {tokens rest : List Token}

theorem oneLine_sourceOf_iff :
    '\n' ∉ sourceOf tokens ↔ ∀ token ∈ tokens, token.IsOneLine := by
  simp only [sourceOf, List.mem_flatMap, not_exists, not_and, IsOneLine]

theorem textOf_subset (tokens : List Token) : textOf tokens ⊆ sourceOf tokens := by
  fun_induction textOf tokens with
  | case1 => exact List.Subset.refl _
  | case2 token =>
      intro c mem
      simp only [sourceOf, List.flatMap_cons, List.mem_append]
      exact .inl (.inl mem)
  | case3 token rest _ ih =>
      change _ ⊆ token.lexeme.spelling ++ token.gap ++ sourceOf rest
      exact List.append_subset.2 ⟨List.subset_append_left _ _,
        List.Subset.trans ih (List.subset_append_right _ _)⟩

theorem oneLine_nameOf (oneLine : ∀ token ∈ tokens, token.IsOneLine) :
    '\n' ∉ (nameOf tokens).toList := by
  rw [nameOf, String.toList_ofList]
  exact fun mem => oneLine_sourceOf_iff.2 oneLine (textOf_subset tokens mem)

theorem oneLine_of_identifier {token : Token} {name : String} (oneLine : token.IsOneLine)
    (same : token.lexeme = .identifier name) : '\n' ∉ name.toList := by
  rw [IsOneLine, same, List.mem_append, not_or] at oneLine
  exact oneLine.1

theorem oneLine_scopedNames (oneLine : ∀ token ∈ tokens, token.IsOneLine) :
    '\n' ∉ (scopedNames tokens).1.toList := by
  fun_induction scopedNames tokens with
  | case1 colons token rest name isName isScope later ih =>
      obtain ⟨_, here, behind⟩ := List.forall_mem_cons.1 oneLine |>.imp_right List.forall_mem_cons.1
      have name := oneLine_of_identifier here isName
      simp [name, later, ih behind]
  | case2 => simp
  | case3 => simp

theorem oneLine_unscopedName {name : String} (oneLine : ∀ token ∈ tokens, token.IsOneLine)
    (found : unscopedName tokens = .ok (name, rest)) : '\n' ∉ name.toList := by
  unfold unscopedName at found
  split at found
  · next token more =>
      split at found
      · next isName =>
          obtain ⟨here, behind⟩ := List.forall_mem_cons.1 oneLine
          cases found
          have first := oneLine_of_identifier here isName
          simp [first, oneLine_scopedNames behind]
      · cases found
  · cases found

theorem oneLine_qualifiedName {name : String} (oneLine : ∀ token ∈ tokens, token.IsOneLine)
    (found : qualifiedName tokens = .ok (name, rest)) : '\n' ∉ name.toList := by
  unfold qualifiedName at found
  split at found
  · split at found
    · obtain ⟨⟨inner, after⟩, read, same⟩ := Except.map_ok_iff.1 found
      cases same
      have behind := oneLine_unscopedName (List.forall_mem_cons.1 oneLine).2 read
      simp [behind]
    · exact oneLine_unscopedName oneLine found
  · exact oneLine_unscopedName oneLine found

theorem oneLine_builtinWords (oneLine : ∀ token ∈ tokens, token.IsOneLine) :
    ∀ word ∈ (builtinWords tokens).1, '\n' ∉ word.toList := by
  fun_induction builtinWords tokens with
  | case1 => simp
  | case2 token rest word isWord later ih =>
      obtain ⟨here, behind⟩ := List.forall_mem_cons.1 oneLine
      refine List.forall_mem_cons.2 ⟨?_, ih behind⟩
      unfold Lexeme.builtinWord? at isWord
      split at isWord
      · next name isName =>
          split at isWord
          · cases isWord
            exact oneLine_of_identifier here isName
          · cases isWord
      · cases isWord
        decide
      · cases isWord
        decide
      · cases isWord
  | case3 => simp

end Token

/-! ### Types -/

theorem Wrap.oneLine_render (wrap : Wrap) : '\n' ∉ wrap.render.toList := by
  cases wrap with
  | star | reference | unsized => decide
  | array dimensions =>
      have inside : '\n' ∉ (",".intercalate (List.replicate dimensions ":")).toList := by
        rw [String.toList_intercalate]
        refine List.notMem_intercalate (by decide) ?_
        intro part mem
        obtain ⟨text, among, rfl⟩ := List.mem_map.1 mem
        rw [List.eq_of_mem_replicate among]
        decide
      simp [render, inside, -String.toList_intercalate]

theorem CType.oneLine_render {type : CType} (base : '\n' ∉ type.base.render.toList) :
    '\n' ∉ type.render.toList := by
  rw [render, String.toList_append, List.mem_append, not_or]
  refine ⟨base, ?_⟩
  generalize type.wraps = wraps
  induction wraps with
  | nil => decide
  | cons wrap wraps ih =>
      rw [List.map_cons, String.join_cons, String.toList_append, List.mem_append, not_or]
      exact ⟨wrap.oneLine_render, ih⟩

namespace BaseType

variable {beyond : List Char} {tokens rest : List Token} {base : BaseType}

theorem oneLine_of_readNamed (oneLine : ∀ token ∈ tokens, token.IsOneLine)
    (found : readNamed beyond tokens = .ok (base, rest)) : '\n' ∉ base.render.toList := by
  have suffix := Token.endsIn_qualifiedName tokens
  unfold readNamed at found
  obtain ⟨⟨name, behind⟩, named, found⟩ := Except.bind_ok_iff.1 found
  rw [named] at suffix
  have nameLine := Token.oneLine_qualifiedName oneLine named
  dsimp only at found
  split at found
  · next token more =>
      split at found
      · obtain ⟨enclosed, inside, found⟩ := Except.bind_ok_iff.1 found
        cases found
        have behind := Enclosure.eq_of_read inside ▸ suffix
        have within : enclosed.inside ⊆ tokens := fun token mem => behind.subset (by simp [mem])
        have arguments : '\n' ∉ (", ".intercalate (argumentsOf enclosed.inside)).toList := by
          rw [String.toList_intercalate]
          refine List.notMem_intercalate (by decide) ?_
          intro part mem
          obtain ⟨argument, among, rfl⟩ := List.mem_map.1 mem
          obtain ⟨group, kept, rfl⟩ := List.mem_map.1 among
          have group := Token.subset_of_mem_groups (List.mem_filter.1 kept).1
          exact Token.oneLine_nameOf fun token mem => oneLine token (within (group mem))
        simp [render, nameLine, arguments, -String.toList_intercalate]
      · cases found
        exact nameLine
  · cases found
    exact nameLine

theorem oneLine_of_read (oneLine : ∀ token ∈ tokens, token.IsOneLine)
    (found : read beyond tokens = .ok (base, rest)) : '\n' ∉ base.render.toList := by
  unfold read at found
  split at found
  · cases found
  · next token more =>
      split at found
      · cases found
        decide
      · cases found
        decide
      · cases found
        decide
      · obtain ⟨⟨name, after⟩, named, same⟩ := Except.map_ok_iff.1 found
        cases same
        exact Token.oneLine_qualifiedName (List.forall_mem_cons.1 oneLine).2 named
      · obtain ⟨⟨name, after⟩, named, same⟩ := Except.map_ok_iff.1 found
        cases same
        exact Token.oneLine_qualifiedName (List.forall_mem_cons.1 oneLine).2 named
      · split at found
        · cases found
          rw [render, String.toList_intercalate]
          refine List.notMem_intercalate (by decide) ?_
          intro part mem
          obtain ⟨word, among, rfl⟩ := List.mem_map.1 mem
          exact Token.oneLine_builtinWords oneLine word among
        · exact oneLine_of_readNamed oneLine found
      · exact oneLine_of_readNamed oneLine found
      · cases found

end BaseType

theorem CType.oneLine_of_read {beyond : List Char} {tokens rest : List Token} {type : CType}
    (oneLine : ∀ token ∈ tokens, token.IsOneLine) (found : read beyond tokens = .ok (type, rest)) :
    '\n' ∉ type.base.render.toList := by
  unfold read at found
  obtain ⟨⟨base, behind⟩, based, found⟩ := Except.bind_ok_iff.1 found
  cases found
  have within := (Token.dropSpecifiers_suffix false tokens).subset
  exact BaseType.oneLine_of_read (fun token mem => oneLine token (within mem)) based

/-! ### Functions and classes -/

/-- The names and the types of a function that are taken from the source. A type that is returned
does not count: a stub cuts it into words. -/
structure Function.IsOneLine (declared : Function) : Prop where
  name : '\n' ∉ declared.name.toList
  parameters : ∀ parameter ∈ declared.parameters, '\n' ∉ parameter.type.base.render.toList

def Member.IsOneLine : Member → Prop
  | ofVariable _ => True
  | ofFunction declared => declared.IsOneLine

/-- Variables are built-in types and words, which hold no line feeds anyway. -/
def Declaration.IsOneLine : Declaration → Prop
  | ofVariable _ => True
  | ofFunction declared => declared.IsOneLine
  | ofClass declared =>
      '\n' ∉ declared.name.toList ∧ ∀ member ∈ declared.members, member.IsOneLine

theorem Member.oneLine_of_member? {declaration : Declaration} {member : Member}
    (oneLine : declaration.IsOneLine) (found : declaration.member? = some member) :
    member.IsOneLine := by
  cases declaration with
  | ofVariable declared => cases found; exact oneLine
  | ofFunction declared => cases found; exact oneLine
  | ofClass declared => cases found

namespace Parameter

variable {beyond : List Char} {tokens : List Token}

theorem oneLine_of_readGroups {groups : List (List Token)} {parameters : List Parameter}
    {variadic : Bool} (oneLine : ∀ token ∈ tokens, token.IsOneLine)
    (found : readGroups beyond tokens groups = .ok (parameters, variadic)) :
    ∀ parameter ∈ parameters, '\n' ∉ parameter.type.base.render.toList := by
  induction groups generalizing tokens parameters variadic with
  | nil =>
      cases found
      exact fun _ mem => nomatch mem
  | cons group more ih =>
      have behind : ∀ token ∈ tokens.drop (group.length + 1), token.IsOneLine :=
        fun token mem => oneLine token (List.mem_of_mem_drop mem)
      unfold readGroups at found
      dsimp only at found
      split at found
      · exact ih behind found
      · split at found
        · obtain ⟨⟨later, _⟩, others, found⟩ := Except.bind_ok_iff.1 found
          cases found
          exact ih behind others
        · obtain ⟨parameter, first, found⟩ := Except.bind_ok_iff.1 found
          obtain ⟨⟨later, _⟩, others, found⟩ := Except.bind_ok_iff.1 found
          cases found
          refine List.forall_mem_cons.2 ⟨?_, ih behind others⟩
          unfold read at first
          obtain ⟨⟨type, rest⟩, typed, first⟩ := Except.bind_ok_iff.1 first
          have base := CType.oneLine_of_read oneLine typed
          dsimp only at first
          split at first
          · cases first
          · cases first
            exact base

theorem oneLine_of_readAll {inside : List Token} {parameters : List Parameter} {variadic : Bool}
    (oneLine : ∀ token ∈ tokens, token.IsOneLine)
    (found : readAll beyond tokens inside = .ok (parameters, variadic)) :
    ∀ parameter ∈ parameters, '\n' ∉ parameter.type.base.render.toList := by
  unfold readAll at found
  split at found
  · cases found
    exact fun _ mem => nomatch mem
  · exact oneLine_of_readGroups oneLine found

end Parameter

namespace Signature

variable {tokens rest : List Token} {signature : Signature}

theorem oneLine_of_read {beyond : List Char} {inName : Bool}
    (oneLine : ∀ token ∈ tokens, token.IsOneLine)
    (found : read beyond inName tokens = .ok (signature, rest)) :
    '\n' ∉ signature.name.toList ∧
      ∀ parameter ∈ signature.parameters, '\n' ∉ parameter.type.base.render.toList := by
  unfold read at found
  split at found
  · cases found
  · next name call split =>
      have whole := eq_of_splitName split
      dsimp only at found
      split at found
      · cases found
      · obtain ⟨enclosed, _, found⟩ := Except.bind_ok_iff.1 found
        obtain ⟨⟨parameters, variadic⟩, others, found⟩ := Except.bind_ok_iff.1 found
        cases found
        constructor
        · exact Token.oneLine_nameOf fun token mem =>
            oneLine token (whole ▸ List.mem_append_left call mem)
        · exact Parameter.oneLine_of_readAll (fun token mem =>
            oneLine token (whole ▸ List.mem_append_right name (List.mem_of_mem_tail mem))) others

theorem oneLine_of_outcome {scope : Scope} {kind : FunctionKind} {declaration : Declaration}
    (oneLine : '\n' ∉ signature.name.toList ∧
      ∀ parameter ∈ signature.parameters, '\n' ∉ parameter.type.base.render.toList)
    (emitted : signature.outcome scope kind = .emitted declaration) : declaration.IsOneLine := by
  unfold outcome at emitted
  split at emitted
  · cases emitted
  · split at emitted
    · cases emitted
    · cases emitted
      exact ⟨oneLine.1, oneLine.2⟩

end Signature

/-! ### Items -/

namespace Item

theorem oneLine_of_readPlain {scope : Scope} {inName : Bool} {kind : Kind}
    {tokens rest : List Token} {declaration : Declaration} (areRead : Token.AreRead tokens)
    (oneLine : ∀ token ∈ tokens, token.IsOneLine)
    (found : readPlain scope inName kind tokens = .ok (.emitted declaration, rest)) :
    declaration.IsOneLine := by
  unfold readPlain at found
  split at found
  · have suffix := CType.endsIn_read scope.beyond tokens
    unfold Function.read at found
    obtain ⟨⟨type, behind⟩, typed, found⟩ := Except.bind_ok_iff.1 found
    obtain ⟨⟨signature, body⟩, signed, found⟩ := Except.bind_ok_iff.1 found
    obtain ⟨after, _, found⟩ := Except.bind_ok_iff.1 found
    rw [typed] at suffix
    exact Signature.oneLine_of_outcome (Signature.oneLine_of_read
      (fun token mem => oneLine token (suffix.subset mem)) signed)
      (congrArg Prod.fst (Except.ok.inj found))
  · unfold Function.readConstructor at found
    obtain ⟨⟨signature, body⟩, signed, found⟩ := Except.bind_ok_iff.1 found
    dsimp only at found
    split at found
    · cases found
    · obtain ⟨after, _, found⟩ := Except.bind_ok_iff.1 found
      have within := (Function.dropFunctionSpecifiers_suffix tokens).subset
      exact Signature.oneLine_of_outcome (Signature.oneLine_of_read
        (fun token mem => oneLine token (within mem)) signed)
        (congrArg Prod.fst (Except.ok.inj found))
  · unfold Function.readDestructor at found
    split at found
    · cases found
    · split at found
      · obtain ⟨_, _, found⟩ := Except.bind_ok_iff.1 found
        obtain ⟨_, _, found⟩ := Except.bind_ok_iff.1 found
        cases found
      · cases found
  · unfold Typedef.read at found
    split at found <;> cases found
  · obtain ⟨declared, rfl, _⟩ := Variable.isBindable_of_read areRead found
    trivial

theorem oneLine_of_classItem {beyond : List Char} {tokens rest : List Token} {name : String}
    {sections : List Section} (oneLine : ∀ token ∈ tokens, token.IsOneLine)
    (found : ClassItem.read beyond tokens = .ok (.definition name sections, rest)) :
    '\n' ∉ name.toList := by
  unfold ClassItem.read at found
  split at found
  · next word first behind =>
      split at found
      · split at found
        · next className isName =>
            have here := oneLine first (List.mem_cons_of_mem _ (List.mem_cons_self ..))
            unfold ClassItem.readBody at found
            dsimp only at found
            split at found
            · cases found
            · split at found
              · cases found
              · obtain ⟨body, _, same⟩ := Except.map_ok_iff.1 found
                cases same
                exact Token.oneLine_of_identifier here isName
        · cases found
      · cases found
  · split at found <;> cases found
  · cases found

theorem emits_oneLine : Emits (fun token => token.lexeme.IsRead ∧ token.IsOneLine)
    fun _ declaration => declaration.IsOneLine where
  plain good _ _ found :=
    oneLine_of_readPlain (fun token mem => (good token mem).1) (fun token mem => (good token mem).2)
      found
  ofClass good found members := by
    refine ⟨oneLine_of_classItem (fun token mem => (good token mem).2) found, ?_⟩
    intro member mem
    obtain ⟨declaration, among, same⟩ := List.mem_filterMap.1 mem
    exact Member.oneLine_of_member? (members declaration among) same

end Item

/-! ### Headers -/

theorem Lexed.oneLine_of_ofText {text : List Char} {lexed : Lexed} (oneLine : '\n' ∉ text)
    (found : ofText text = .ok lexed) : ∀ token ∈ lexed.tokens, token.IsOneLine := by
  obtain ⟨tokens, lexes, rfl⟩ := Except.map_ok_iff.1 found
  rw [← Token.oneLine_sourceOf_iff, Token.sourceOf_of_readFrom lexes]
  have whole := Text.splitGap_append text
  exact fun mem => oneLine (whole ▸ List.mem_append_right _ mem)

theorem Header.oneLine_of_ofText {raw : List Char} {header : Header}
    (found : (ofText raw).result = .ok header) :
    ∀ declaration ∈ header.declarations, declaration.IsOneLine := by
  obtain ⟨code, body, normal, inside, parsed⟩ := ofText_eq_ok_iff.1 found
  obtain ⟨lexed, whole, reads⟩ := Parser.declarationsOf_eq_ok_iff.1 parsed
  have flat := (isFlat_of_normalize normal).1
  have oneLine : '\n' ∉ body := fun mem =>
    flat.oneLine ((infix_of_extractNamespace inside).subset mem)
  exact reads.emits Item.emits_oneLine (fun token mem =>
    ⟨Lexed.areRead_of_ofText whole token mem, Lexed.oneLine_of_ofText oneLine whole token mem⟩) rfl

end PxdStub
