import PxdStub.Proofs.Idempotence
import PxdStub.Proofs.LiteralHeaders
import PxdStub.Proofs.LiteralTokens
import PxdStub.Proofs.SourceLayout

/-!
What a literal holds has no say in what is read from a header. This is so of payloads that none of
the passes in front of the lexer takes for its own marks: those do not know of literals.
-/

namespace PxdStub

/-! ### What messages show of a type -/

theorem Text.infix_intercalate {separator part : List Char} {parts : List (List Char)}
    (mem : part ∈ parts) : part <:+: separator.intercalate parts := by
  induction parts with
  | nil => cases mem
  | cons first rest ih =>
      cases rest with
      | nil =>
          rw [List.mem_singleton.1 mem, List.intercalate_singleton]
      | cons second rest =>
          rw [List.intercalate_cons_cons]
          obtain rfl | later := List.mem_cons.1 mem
          · rw [List.append_assoc]
            exact (List.prefix_append _ _).isInfix
          · exact (ih later).trans (List.suffix_append _ _).isInfix

theorem CType.infix_render {type : CType} {text : String} (mem : text ∈ type.texts) :
    text.toList <:+: type.render.toList := by
  obtain ⟨base, wraps⟩ := type
  cases base with
  | generic name arguments =>
      have within : text.toList <:+: (", ".intercalate arguments).toList := by
        rw [String.toList_intercalate]
        exact Text.infix_intercalate (List.mem_map_of_mem mem)
      refine within.trans ⟨name.toList ++ "[".toList,
        "]".toList ++ (String.join (wraps.map Wrap.render)).toList, ?_⟩
      simp only [render, BaseType.render, String.toList_append, List.append_assoc]
  | _ => cases mem

/-- Names that are the same but for the payloads of some literals. -/
abbrev Requoted (payload payload' : List Char) (text text' : String) : Prop :=
  Text.Requoted payload payload' text.toList text'.toList

variable {payload payload' : List Char}

/-! ### Declarations from kin -/

namespace Parser

theorem declarationsOf_eq (text : List Char) : declarationsOf none text =
    Lexed.ofText text >>= fun lexed => emission ⟨.top, [], lexed.tokens, []⟩ := by
  rw [declarationsOf, ofText]
  cases Lexed.ofText text <;> rfl

theorem mirrors_emission {tokens tokens' : List Token} (areRead : Token.AreRead tokens)
    (akin : Token.Akin (Replaces payload payload') True tokens tokens') :
    Mirrors (fun error error' => error.trouble = error'.trouble)
      (fun found found' =>
        List.Forall₂ (Declaration.Alike (Requoted payload payload')) found.1 found'.1 ∧
          List.Forall₂ (Omission.Alike (Requoted payload payload')) found.2 found'.2)
      (emission ⟨.top, [], tokens, []⟩) (emission ⟨.top, [], tokens', []⟩) := by
  have names := @Token.names_requoted payload payload' tokens tokens'
  have peers : Scope.top.Peers Scope.top := ⟨rfl, rfl⟩
  have silent : ∀ declarations : List Declaration,
      Note.omissions (declarations.flatMap fun _ => []) = [] := by
    simp [Note.omissions]
  have items := @Item.kin_readAll _ _ _ _ _ _ _ _ false _ _ peers names silent silent areRead akin
  rw [emission_eq, emission_eq]
  exact Mirrors.map (items.result.mapError fun _ _ alike => alike.trouble)
    fun _ _ all => ⟨all, items.omissions⟩

theorem mirrors_declarationsOf {text text' : List Char}
    (lexes : Mirrors (fun error error' => error.trouble = error'.trouble)
      (fun lexed lexed' =>
        Token.Akin (Replaces payload payload') True lexed.tokens lexed'.tokens)
      (Lexed.ofText text) (Lexed.ofText text')) :
    Mirrors (fun error error' => error.trouble = error'.trouble)
      (fun found found' =>
        List.Forall₂ (Declaration.Alike (Requoted payload payload')) found.1 found'.1 ∧
          List.Forall₂ (Omission.Alike (Requoted payload payload')) found.2 found'.2)
      (declarationsOf none text) (declarationsOf none text') := by
  have areRead := fun lexed => @Lexed.areRead_of_ofText text lexed
  rw [declarationsOf_eq, declarationsOf_eq]
  generalize Lexed.ofText text = result at lexes areRead ⊢
  generalize Lexed.ofText text' = result' at lexes ⊢
  cases lexes with
  | error same => exact .error same
  | ok akin => exact mirrors_emission (areRead _ rfl) akin

end Parser

namespace Header

open Text (Frame)

/-! ### The body that is lexed -/

/-- The text that the declarations of a raw header are read from, and the name of the namespace that
it stands in. -/
def body (raw : List Char) : Except ParseError (Option String × List Char) :=
  normalize raw >>= extractNamespace

theorem steady_body (raw : Frame) :
    Steady (fun payload => body (raw.fill payload))
      fun payload (found : Option String × Frame) => (found.1, found.2.fill payload) :=
  (steady_normalize raw).bind steady_extractNamespace

theorem result_ofText (raw : List Char) :
    (ofText raw).result = body raw >>= fun found =>
      (Parser.declarationsOf none found.2).map fun answer => ⟨found.1, answer.1, answer.2⟩ := by
  rw [ofText, prepare, body]
  cases normalize raw with
  | error error => rfl
  | ok code =>
      change (Course.bind (Course.ofExcept (extractNamespace code >>= _)) _).result =
        extractNamespace code >>= _
      cases extractNamespace code with
      | error error => rfl
      | ok found =>
          obtain ⟨name?, text⟩ := found
          change (Course.bind (Course.ofExcept (Parser.ofText none text >>= _)) _).result =
            (Parser.ofText none text >>= Parser.emission).map _
          cases start : Parser.ofText none text with
          | error error => rfl
          | ok parser =>
              obtain ⟨lexed, _, rfl⟩ := Parser.ofText_eq_ok_iff.1 start
              have whole : ∀ run : Run (List Declaration), (Course.bind run fun declarations =>
                  Course.pure (⟨name?, declarations, Note.omissions run.notes⟩ : Header)).result =
                    run.result.map fun declarations =>
                      ⟨name?, declarations, Note.omissions run.notes⟩ := by
                rintro ⟨_, _ | _⟩ <;> rfl
              change _ = (Parser.emission _).map _
              rw [Parser.emission_eq]
              refine (whole _).trans ?_
              generalize Parser.run _ = run
              obtain ⟨_, _ | _⟩ := run <;> rfl

/-! ### Headers side by side -/

/-- What a header and the warnings about it keep as it is written. -/
def texts (header : Header) : List String :=
  header.declarations.flatMap Declaration.texts ++
    header.omissions.flatMap fun omission => [omission.declaration, omission.type]

structure Alike (written : String → String → Prop) (header header' : Header) : Prop where
  namespaceName : header.namespaceName = header'.namespaceName
  declarations :
    List.Forall₂ (Declaration.Alike written) header.declarations header'.declarations
  omissions : List.Forall₂ (Omission.Alike written) header.omissions header'.omissions

/-- A header in which the literal does not stand is the same with any other payload. -/
theorem Alike.eq_of_without {header header' : Header}
    (alike : header.Alike (Requoted payload payload') header')
    (without : ∀ text ∈ header.texts, ¬ '"' :: (payload ++ ['"']) <:+: text.toList) :
    header = header' := by
  have fixed : ∀ texts : List String,
      (∀ text ∈ texts, ∃ whole ∈ header.texts, text.toList <:+: whole.toList) →
        Fixed (Requoted payload payload') texts := by
    intro texts inside text mem text' requoted
    obtain ⟨whole, within, part⟩ := inside text mem
    exact String.toList_inj.1 (requoted.eq fun found => without whole within (found.trans part))
  obtain ⟨name?, declarations, omissions⟩ := header
  obtain ⟨name?', declarations', omissions'⟩ := header'
  obtain ⟨named, declared, omitted⟩ := alike
  obtain rfl : name? = name?' := named
  obtain rfl : declarations = declarations' := by
    refine List.Forall₂.eq_of_mem declared fun declaration mem _ alike => alike.eq_of_fixed ?_
    refine fixed _ fun text within => ⟨text, ?_, List.infix_refl _⟩
    exact List.mem_append_left _ (List.mem_flatMap_of_mem mem within)
  obtain rfl : omissions = omissions' := by
    refine List.Forall₂.eq_of_mem omitted fun omission mem _ alike => ?_
    have shown : ∀ whole ∈ [omission.declaration, omission.type],
        whole ∈ Header.texts ⟨name?, declarations, omissions⟩ := fun whole within =>
      List.mem_append_right _ (List.mem_flatMap_of_mem mem within)
    refine alike.eq_of_fixed (fixed _ fun text within => ?_) fun type rendered =>
      fixed _ fun text within => ?_
    · exact ⟨text, shown text (List.mem_cons.2 (.inl (List.mem_singleton.1 within))), List.infix_refl _⟩
    · refine ⟨omission.type, shown _ (by simp), ?_⟩
      rw [← rendered]
      exact CType.infix_render within
  rfl

/-! ### Literals -/

theorem oneLine_of_body {raw text : List Char} {name? : Option String}
    (found : body raw = .ok (name?, text)) : '\n' ∉ text := by
  obtain ⟨code, normal, inside⟩ := Except.bind_ok_iff.1 found
  obtain ⟨flat, _⟩ := isFlat_of_normalize normal
  exact fun mem => flat.oneLine ((infix_of_extractNamespace inside).subset mem)

/-- Raw headers in which the literal is one for the lexer: where it comes to stand in the body, the
text in front of it has tokens of its own. -/
def StartsLiteral (raw : Frame) : Prop :=
  ∀ name? before after,
    (∀ payload, IsInert payload →
      body (raw.fill payload) = .ok (name?, (Frame.around before after).fill payload)) →
    ∃ lexed, Lexed.ofText before = .ok lexed

/-- Raw headers in which the literal is part of no name and of no type, as initializers and default
values are not. Some payload shows it. -/
def IsValue (raw : Frame) : Prop :=
  ∃ payload, IsInert payload ∧ ∀ header, (ofText (raw.fill payload)).result = .ok header →
    ∀ text ∈ header.texts, ¬ '"' :: (payload ++ ['"']) <:+: text.toList

/-- With another payload a header is the same but for the names that the literal is a part of. -/
theorem mirrors_ofText {raw : Frame} (starts : StartsLiteral raw) (inert : IsInert payload)
    (inert' : IsInert payload') :
    Mirrors (fun error error' => error.trouble = error'.trouble)
      (Alike (Requoted payload payload')) (ofText (raw.fill payload)).result
      (ofText (raw.fill payload')).result := by
  rw [result_ofText, result_ofText]
  cases steady_body raw with
  | error trouble fails =>
      obtain ⟨_, failed, same⟩ := fails payload inert
      obtain ⟨_, failed', same'⟩ := fails payload' inert'
      rw [failed, failed']
      exact .error (same.trans same'.symm)
  | ok found finds =>
      obtain ⟨name?, frame⟩ := found
      rw [finds payload inert, finds payload' inert']
      refine Mirrors.map (Parser.mirrors_declarationsOf ?_) fun _ _ alike => ⟨rfl, alike.1, alike.2⟩
      cases frame with
      | closed text =>
          change Mirrors _ _ (Lexed.ofText text) (Lexed.ofText text)
          cases Lexed.ofText text with
          | error _ => exact .error rfl
          | ok lexed => exact .ok (Token.Twins.refl lexed.tokens).kin
      | around before after =>
          obtain ⟨lexed, lexes⟩ := starts name? before after finds
          have line := oneLine_of_body (finds [] .nil)
          refine Lexed.mirrors_ofText lexes (Token.follows_literal inert.unquoted inert'.unquoted
            inert.unescaped inert'.unescaped inert.oneLine inert'.oneLine fun mem => line ?_)
          exact List.mem_append_right before (by simp [mem])

/-- The payload of an initializer or of a default value has no say in what is read from a header, as
far as it holds none of the marks that lines, comments and namespaces are told by. -/
theorem literal_opaque {front back : List Char} (starts : StartsLiteral (.around front back))
    (value : IsValue (.around front back)) (inert : IsInert payload) (inert' : IsInert payload') :
    Mirrors (fun error error' => error.trouble = error'.trouble) Eq
      (ofText (front ++ '"' :: (payload ++ '"' :: back))).result
      (ofText (front ++ '"' :: (payload' ++ '"' :: back))).result := by
  obtain ⟨marker, plain, without⟩ := value
  have here := mirrors_ofText starts plain inert
  have there := mirrors_ofText starts plain inert'
  change Mirrors _ _ _ (ofText (front ++ '"' :: (payload ++ '"' :: back))).result at here
  change Mirrors _ _ _ (ofText (front ++ '"' :: (payload' ++ '"' :: back))).result at there
  generalize (ofText (front ++ '"' :: (payload ++ '"' :: back))).result = result at here ⊢
  generalize (ofText (front ++ '"' :: (payload' ++ '"' :: back))).result = result' at there ⊢
  generalize (ofText (Frame.fill marker _)).result = marked at here there without
  cases here with
  | error same =>
      cases there with
      | error same' => exact .error (same.symm.trans same')
  | ok alike =>
      cases there with
      | ok alike' =>
          have unread := without _ rfl
          exact .ok ((alike.eq_of_without unread).symm.trans (alike'.eq_of_without unread))

/-- The place of the only literal of a text. -/
theorem eq_of_quotes {before after before' after' : List Char} (plain : '"' ∉ before')
    (plain' : '"' ∉ after')
    (same : before ++ '"' :: '"' :: after = before' ++ '"' :: '"' :: after') : before = before' := by
  have none : '"' ∉ before := by
    have counts := congrArg (List.count '"') same
    simp only [List.count_append, List.count_cons_self, List.count_eq_zero_of_not_mem plain,
      List.count_eq_zero_of_not_mem plain'] at counts
    exact List.count_eq_zero.1 (by omega)
  have cut := congrArg (Text.cut? ['"']) same
  rw [Text.cut?_of_not_mem none, Text.cut?_of_not_mem plain] at cut
  exact (show before = before' ∧ after = after' by simpa [Text.cut?, Text.after?] using cut).1

set_option maxRecDepth 1000 in
theorem literal_opaque_in_namespace :
    StartsLiteral (.around "namespace a \x7bdouble d = ".toList "[0];\x7d // b".toList) ∧
    IsValue (.around "namespace a \x7bdouble d = ".toList "[0];\x7d // b".toList) ∧
    IsInert ['a', 'b'] ∧ IsInert [']', ';', 'P', ' ', 'x', '['] ∧
    Mirrors (fun error error' => error.trouble = error'.trouble) Eq
      (ofText ("namespace a \x7bdouble d = ".toList ++
        '"' :: (['a', 'b'] ++ '"' :: "[0];\x7d // b".toList))).result
      (ofText ("namespace a \x7bdouble d = ".toList ++
        '"' :: ([']', ';', 'P', ' ', 'x', '['] ++ '"' :: "[0];\x7d // b".toList))).result := by
  have inert : IsInert ['a', 'b'] :=
    .of_no_slash (by decide) (by decide) (by decide) (by decide) (by decide)
      (behindKeywords_of_not_within fun within => absurd within.length_le (by decide))
  have inert' : IsInert [']', ';', 'P', ' ', 'x', '['] :=
    .of_no_slash (by decide) (by decide) (by decide) (by decide) (by decide)
      (behindKeywords_of_not_within fun within => absurd within.length_le (by decide))
  have normal : normalize "namespace a \x7bdouble d = \"\"[0];\x7d // b".toList =
      .ok "namespace a \x7bdouble d = \"\"[0];\x7d".toList := by
    have lines : Text.trim ((codeLines "namespace a \x7bdouble d = \"\"[0];\x7d // b".toList).flatMap
        (' ' :: ·)) = "namespace a \x7bdouble d = \"\"[0];\x7d".toList := by cbv
    rw [normalize_eq, lines]
    exact withoutComments_of_cut? (by cbv)
  have inside : extractNamespace "namespace a \x7bdouble d = \"\"[0];\x7d".toList =
      .ok (some "a", "double d = \"\"[0];".toList) := by cbv
  let front : List Token := [⟨.keyword .double, 0, [' ']⟩, ⟨.identifier "d", 7, [' ']⟩,
    ⟨.punctuation .equals, 9, [' ']⟩]
  let tokens : List Token := front ++ [⟨.string "", 11, []⟩, ⟨.opening .square, 13, []⟩,
    ⟨.number "0", 14, []⟩, ⟨.closing .square, 15, []⟩, ⟨.punctuation .semicolon, 16, []⟩]
  let declared : Variable := ⟨⟨.double, []⟩, "d", false⟩
  have lexes : Lexed.ofText "double d = \"\"[0];".toList = .ok ⟨[], tokens⟩ := by cbv
  have reads : Item.readPlain .top false .variableList tokens =
      .ok (.emitted (.ofVariable declared), []) := by rfl
  have found := (@ofText_eq_ok_iff _ ⟨some "a", _, _⟩).2 ⟨_, _, normal, inside,
    Parser.declarationsOf_eq_ok_iff.2 ⟨_, lexes, .cons (.plain (by rfl) rfl reads) .nil⟩⟩
  have starts : StartsLiteral (.around "namespace a \x7bdouble d = ".toList "[0];\x7d // b".toList) := by
    intro name? before after finds
    have here : body "namespace a \x7bdouble d = \"\"[0];\x7d // b".toList =
        .ok (some "a", "double d = \"\"[0];".toList) :=
      Except.bind_ok_iff.2 ⟨_, normal, inside⟩
    have there := (finds [] .nil).symm.trans here
    simp only [Except.ok.injEq, Prod.mk.injEq] at there
    have same : before = "double d = ".toList :=
      @eq_of_quotes _ after _ "[0];".toList (by decide) (by decide) there.2
    refine ⟨⟨[], front⟩, ?_⟩
    rw [same]
    cbv
  have value : IsValue (.around "namespace a \x7bdouble d = ".toList "[0];\x7d // b".toList) := by
    refine ⟨[], .nil, fun header same text mem => ?_⟩
    cases found.symm.trans same
    cases mem
  exact ⟨starts, value, inert, inert', literal_opaque starts value inert inert'⟩

set_option maxRecDepth 1000 in
/-- Lines are cut at two slashes also where they stand in a literal, which then has no end. The
parser of single texts takes the same literal as it is. -/
theorem ofText_slashes_in_literal :
    (ofText "const char* s = \"ab\";".toList).result = .ok ⟨none, [], [⟨"s", "char*"⟩]⟩ ∧
    (ofText "const char* s = \"a//b\";".toList).result = .error (.unclosedLiteral 16) ∧
    Parser.declarationsOf none "const char* s = \"a//b\";".toList = .ok ([], [⟨"s", "char*"⟩]) := by
  have normal : normalize "const char* s = \"ab\";".toList =
      .ok "const char* s = \"ab\";".toList := by
    have lines : Text.trim ((codeLines "const char* s = \"ab\";".toList).flatMap (' ' :: ·)) =
        "const char* s = \"ab\";".toList := by cbv
    rw [normalize_eq, lines]
    exact withoutComments_of_cut? (by cbv)
  have outside : extractNamespace "const char* s = \"ab\";".toList =
      .ok (none, "const char* s = \"ab\";".toList) := by cbv
  let front : List Token := [⟨.keyword .const, 0, [' ']⟩, ⟨.identifier "char", 6, []⟩,
    ⟨.punctuation .star, 10, [' ']⟩, ⟨.identifier "s", 12, [' ']⟩, ⟨.punctuation .equals, 14, [' ']⟩]
  have omits : ∀ payload stop, Item.ReadsAll .top false
      (front ++ [⟨.string payload, 16, []⟩, ⟨.punctuation .semicolon, stop, []⟩]) []
      [⟨"s", "char*"⟩] := by
    intro payload stop
    have reads : Item.readPlain .top false .variableList
        (front ++ [⟨.string payload, 16, []⟩, ⟨.punctuation .semicolon, stop, []⟩]) =
          .ok (.omitted ⟨"s", "char*"⟩, []) := by rfl
    exact .cons (.plain (by rfl) rfl reads) .nil
  have lexes : Lexed.ofText "const char* s = \"ab\";".toList =
      .ok ⟨[], front ++ [⟨.string "ab", 16, []⟩, ⟨.punctuation .semicolon, 20, []⟩]⟩ := by cbv
  have lexes' : Lexed.ofText "const char* s = \"a//b\";".toList =
      .ok ⟨[], front ++ [⟨.string "a//b", 16, []⟩, ⟨.punctuation .semicolon, 22, []⟩]⟩ := by cbv
  have cut : body "const char* s = \"a//b\";".toList = .ok (none, "const char* s = \"a".toList) := by
    have lines : Text.trim ((codeLines "const char* s = \"a//b\";".toList).flatMap (' ' :: ·)) =
        "const char* s = \"a".toList := by cbv
    refine Except.bind_ok_iff.2 ⟨"const char* s = \"a".toList, ?_, by cbv⟩
    rw [normalize_eq, lines]
    exact withoutComments_of_cut? (by cbv)
  have unlexed : Lexed.ofText "const char* s = \"a".toList = .error (.unclosedLiteral 16) := by cbv
  refine ⟨(@ofText_eq_ok_iff _ ⟨none, _, _⟩).2 ⟨_, _, normal, outside,
    Parser.declarationsOf_eq_ok_iff.2 ⟨_, lexes, omits _ _⟩⟩, ?_, ?_⟩
  · rw [result_ofText, cut]
    change (Parser.declarationsOf none _).map _ = _
    rw [Parser.declarationsOf_eq, unlexed]
    rfl
  · exact Parser.declarationsOf_eq_ok_iff.2 ⟨_, lexes', omits _ _⟩

end Header

end PxdStub
