import PxdStub.Proofs.Locality

/-!
Types need no look-ahead beyond one `::`. A reader of types that stops within some tokens stops at
the same place whatever stands behind them.
-/

namespace PxdStub

namespace Token

variable {front left rest rest' tokens' : List Token}

/-- What is left when a reader of types stops for good. One `::` alone might go on with a name. -/
def Stops (left : List Token) : Prop :=
  left ≠ [] ∧ ∀ token, left = [token] → token.lexeme ≠ .punctuation .scope

theorem Stops.of_suffix {more : List Token} (stops : Stops left) (suffix : left <:+ more) :
    Stops more := by
  obtain ⟨front, rfl⟩ := suffix
  refine ⟨fun none => stops.1 (List.append_eq_nil_iff.1 none).2, fun token one => ?_⟩
  obtain ⟨_, same⟩ | ⟨_, none⟩ := List.append_eq_singleton_iff.1 one
  · exact stops.2 token same
  · exact absurd none stops.1

theorem Stops.concat {last : Token} (other : last.lexeme ≠ .punctuation .scope) :
    Stops (left ++ [last]) := by
  have here : Stops [last] := by
    refine ⟨List.cons_ne_nil _ _, fun token one => ?_⟩
    rw [← List.head_eq_of_cons_eq one]
    exact other
  exact here.of_suffix (List.suffix_append left [last])

theorem Stops.of_fits {left' : List Token} (stops : Stops left) (fits : Fits [] left left') :
    Stops left' := by
  obtain _ | ⟨lexeme, _, behind⟩ := fits
  · exact absurd rfl stops.1
  · refine ⟨List.cons_ne_nil _ _, fun token one => ?_⟩
    obtain ⟨rfl, none⟩ := List.cons.inj one
    rw [none] at behind
    cases behind
    rw [lexeme]
    exact stops.2 _ rfl

/-- A reader that stops within its tokens has not gone past them. -/
theorem exists_front (stops : Stops left) (suffix : left ++ rest <:+ front ++ rest) :
    ∃ token more, front = token :: more := by
  have size := suffix.length_le
  have some := List.length_pos_iff.2 stops.1
  rw [List.length_append, List.length_append] at size
  exact List.exists_cons_of_length_pos (by omega)

/-- What an earlier reader leaves, when a later one leaves `left` of it. -/
theorem exists_left {middle : List Token} (stops : Stops left) (suffix : left ++ rest <:+ middle) :
    ∃ left', middle = left' ++ rest ∧ Stops left' := by
  obtain ⟨more, rfl⟩ := suffix
  refine ⟨more ++ left, (List.append_assoc _ _ _).symm, ?_⟩
  exact stops.of_suffix (List.suffix_append more left)

theorem dropSpecifiers_within {behindExtern : Bool} (fits : Fits rest' front tokens')
    (stops : Stops left) (found : dropSpecifiers behindExtern (front ++ rest) = left ++ rest) :
    Fits rest' left (dropSpecifiers behindExtern tokens') := by
  induction fits generalizing behindExtern with
  | nil =>
      have suffix := dropSpecifiers_suffix behindExtern ([] ++ rest)
      rw [found] at suffix
      obtain ⟨_, _, none⟩ := exists_front stops suffix
      cases none
  | @cons token token' more more' lexeme gap behind ih =>
      rw [List.cons_append, dropSpecifiers] at found
      rw [dropSpecifiers, lexeme]
      split at found
      · next string =>
          rw [if_pos string]
          exact ih found
      · next noString =>
          rw [if_neg noString]
          split at found
          · next specifier =>
              rw [if_pos specifier]
              exact ih found
          · next other =>
              rw [if_neg other]
              have same : token :: more ++ rest = left ++ rest := found
              rw [← List.append_cancel_right same]
              exact .cons lexeme gap behind

theorem scopedNames_within {name : String} (fits : Fits rest' front tokens') (stops : Stops left)
    (found : scopedNames (front ++ rest) = (name, left ++ rest)) :
    ∃ left', scopedNames tokens' = (name, left') ∧ Fits rest' left left' := by
  -- A step takes a `::` and the name behind it, which might stand past the end of `front`.
  induction size : front.length using Nat.strong_induction_on generalizing front tokens' name with
  | _ size ih =>
      subst size
      have suffix := scopedNames_suffix (front ++ rest)
      rw [found] at suffix
      obtain ⟨colons, more, rfl⟩ := exists_front stops suffix
      have whole := fits
      obtain _ | @⟨_, colons', _, more', lexeme, gap, behind⟩ := fits
      by_cases pair : ∃ token after second, more ++ rest = token :: after ∧
          colons.lexeme = .punctuation .scope ∧ token.lexeme = .identifier second
      · obtain ⟨token, after, second, same, scope, identifier⟩ := pair
        rw [List.cons_append, same, scopedNames_of_name scope identifier] at found
        obtain ⟨value, later⟩ := Prod.ext_iff.1 found
        have suffix' := scopedNames_suffix after
        rw [later] at suffix'
        obtain _ | @⟨_, token', inner, after', lexeme', gap', behind⟩ := behind
        · have shorter := suffix'.length_le
          have size := congrArg List.length same
          simp only [List.nil_append, List.length_append, List.length_cons] at size shorter
          omega
        · obtain ⟨rfl, rfl⟩ := List.cons.inj same
          rw [scopedNames_of_name (lexeme.trans scope) (lexeme'.trans identifier)]
          obtain ⟨left', read, fits⟩ :=
            ih inner.length (by simp) behind (Prod.ext rfl later) rfl
          rw [read]
          exact ⟨left', Prod.ext value rfl, fits⟩
      · have others : ∀ first token after name, first :: token :: after = colons :: (more ++ rest) →
            first.lexeme = .punctuation .scope → token.lexeme ≠ .identifier name := by
          intro first token after name same scope identifier
          obtain ⟨rfl, second⟩ := List.cons.inj same
          exact pair ⟨token, after, name, second.symm, scope, identifier⟩
        rw [List.cons_append, scopedNames_of_other (fun _ _ _ _ same => others _ _ _ _ same.symm)]
          at found
        obtain ⟨rfl, later⟩ := Prod.ext_iff.1 found
        have same : colons :: more ++ rest = left ++ rest := later
        rw [← List.append_cancel_right same] at stops ⊢
        refine ⟨_, scopedNames_of_other ?_, whole⟩
        intro first token after name cut scope identifier
        obtain ⟨rfl, second⟩ := List.cons.inj cut
        rw [lexeme] at scope
        cases behind with
        | nil => exact stops.2 colons rfl scope
        | cons lexeme' _ _ =>
            obtain ⟨rfl, rfl⟩ := List.cons.inj second
            rw [lexeme'] at identifier
            exact others _ _ _ _ rfl scope identifier

theorem unscopedName_within {name : String} (fits : Fits rest' front tokens') (stops : Stops left)
    (found : unscopedName (front ++ rest) = .ok (name, left ++ rest)) :
    ∃ left', unscopedName tokens' = .ok (name, left') ∧ Fits rest' left left' := by
  have suffix := endsIn_unscopedName (front ++ rest)
  rw [found] at suffix
  obtain ⟨token, more, rfl⟩ := exists_front stops suffix
  obtain _ | ⟨lexeme, gap, behind⟩ := fits
  rw [List.cons_append, unscopedName] at found
  rw [unscopedName, lexeme]
  split at found
  · next first identifier =>
      obtain ⟨rfl, later⟩ := Prod.ext_iff.1 (Except.ok.inj found)
      obtain ⟨left', read, fits⟩ := scopedNames_within behind stops (Prod.ext rfl later)
      exact ⟨left', by rw [read], fits⟩
  · cases found

theorem qualifiedName_within {name : String} (fits : Fits rest' front tokens') (stops : Stops left)
    (found : qualifiedName (front ++ rest) = .ok (name, left ++ rest)) :
    ∃ left', qualifiedName tokens' = .ok (name, left') ∧ Fits rest' left left' := by
  have suffix := endsIn_qualifiedName (front ++ rest)
  rw [found] at suffix
  obtain ⟨token, more, rfl⟩ := exists_front stops suffix
  have whole := fits
  obtain _ | ⟨lexeme, gap, behind⟩ := fits
  rw [List.cons_append, qualifiedName] at found
  rw [qualifiedName, lexeme]
  split at found
  · next scope =>
      obtain ⟨⟨second, after⟩, here, same⟩ := Except.map_ok_iff.1 found
      cases same
      obtain ⟨left', read, fits⟩ := unscopedName_within behind stops here
      exact ⟨left', by rw [if_pos scope, read]; rfl, fits⟩
  · next other =>
      rw [if_neg other]
      exact unscopedName_within whole stops found

theorem builtinWords_within {words : List String} (fits : Fits rest' front tokens')
    (stops : Stops left) (found : builtinWords (front ++ rest) = (words, left ++ rest)) :
    ∃ left', builtinWords tokens' = (words, left') ∧ Fits rest' left left' := by
  induction fits generalizing words with
  | nil =>
      have suffix := builtinWords_suffix ([] ++ rest)
      rw [found] at suffix
      obtain ⟨_, _, none⟩ := exists_front stops suffix
      cases none
  | @cons token token' more more' lexeme gap behind ih =>
      rw [List.cons_append, builtinWords] at found
      rw [builtinWords, lexeme]
      split at found
      · next word _ =>
          obtain ⟨rfl, later⟩ := Prod.ext_iff.1 found
          obtain ⟨left', read, fits⟩ := ih (Prod.ext rfl later)
          exact ⟨left', by rw [read], fits⟩
      · obtain ⟨rfl, later⟩ := Prod.ext_iff.1 found
        have same : token :: more ++ rest = left ++ rest := later
        rw [← List.append_cancel_right same]
        exact ⟨_, rfl, .cons lexeme gap behind⟩

end Token

variable {front left rest rest' tokens' : List Token} {beyond beyond' : List Char}

theorem Enclosure.close?_within {bracket : Bracket} {depth : Nat} {inside : List Token}
    {close : Token} (fits : Token.Fits rest' front tokens')
    (closed : close? bracket depth (front ++ rest) = some ⟨inside, close, left ++ rest⟩) :
    ∃ inside' close' left', close? bracket depth tokens' = some ⟨inside', close', left'⟩ ∧
      Token.Fits [] inside inside' ∧ Token.Fits rest' left left' := by
  induction fits generalizing depth inside with
  | nil =>
      have size := length_close? closed
      simp only [List.nil_append, List.length_append] at size
      omega
  | @cons token token' more more' lexeme gap behind ih =>
      have deeper : ∀ depth, (close? bracket depth (more ++ rest)).map (fun found =>
          { found with inside := token :: found.inside }) = some ⟨inside, close, left ++ rest⟩ →
          ∃ inside' close' left', (close? bracket depth more').map (fun found =>
            { found with inside := token' :: found.inside }) = some ⟨inside', close', left'⟩ ∧
              Token.Fits [] inside inside' ∧ Token.Fits rest' left left' := by
        intro depth shown
        obtain ⟨⟨inner, shuts, after⟩, here, same⟩ := Option.map_eq_some_iff.1 shown
        obtain ⟨rfl, rfl, rfl⟩ := Enclosure.mk.inj same
        obtain ⟨inner', close', left', here', fits, fits'⟩ := ih here
        refine ⟨token' :: inner', close', left', by rw [here']; rfl, .cons lexeme ?_ fits, fits'⟩
        intro some
        refine gap fun none => ?_
        have whole := (eq_of_close? here).1
        have size := congrArg List.length whole
        rw [none] at size
        simp only [List.nil_append, List.length_append, List.length_cons] at size
        omega
      rw [List.cons_append] at closed
      unfold close? at closed ⊢
      dsimp only at closed ⊢
      rw [lexeme]
      by_cases opens : token.lexeme = .opening bracket
      · rw [if_pos opens] at closed ⊢
        exact deeper _ closed
      · rw [if_neg opens] at closed ⊢
        by_cases shuts : token.lexeme = .closing bracket
        · rw [if_pos shuts] at closed ⊢
          cases depth with
          | zero =>
              dsimp only at closed
              obtain ⟨rfl, rfl, same⟩ := Enclosure.mk.inj (Option.some.inj closed)
              rw [← List.append_cancel_right same]
              exact ⟨[], token', more', rfl, .nil, behind⟩
          | succ outer => exact deeper _ closed
        · rw [if_neg shuts] at closed ⊢
          exact deeper _ closed

theorem Enclosure.read_within {place inside : List Token} {token token' close : Token}
    (beyond' : List Char) (place' : List Token) (fits : Token.Fits rest' front tokens')
    (lexeme : token'.lexeme = token.lexeme)
    (enclosed : read beyond place (token :: (front ++ rest)) =
      .ok ⟨inside, close, left ++ rest⟩) :
    ∃ inside' close' left',
      read beyond' place' (token' :: tokens') = .ok ⟨inside', close', left'⟩ ∧
        Token.Fits [] inside inside' ∧ Token.Fits rest' left left' := by
  obtain ⟨_, _, bracket, same, opens, closed⟩ := exists_close?_of_read enclosed
  cases same
  obtain ⟨inside', close', left', closed', inner, outer⟩ := close?_within fits closed
  exact ⟨inside', close', left', read_of_close? (lexeme.trans opens) closed', inner, outer⟩

namespace BaseType

theorem suffix_of_readNamed {name : String} {base : BaseType} {tokens middle after : List Token}
    (named : Token.qualifiedName tokens = .ok (name, middle))
    (found : readNamed beyond tokens = .ok (base, after)) : after <:+ middle := by
  rw [readNamed, named] at found
  dsimp only [Bind.bind, Except.bind] at found
  split at found
  · split at found
    · obtain ⟨enclosed, here, done⟩ := Except.bind_ok_iff.1 found
      cases done
      exact Enclosure.after_suffix_of_read here
    · cases found
      exact List.suffix_refl _
  · cases found
    exact List.suffix_refl _

theorem readNamed_within {base : BaseType} (fits : Token.Fits rest' front tokens')
    (stops : Token.Stops left)
    (found : readNamed beyond (front ++ rest) = .ok (base, left ++ rest)) :
    ∃ left', readNamed beyond' tokens' = .ok (base, left') ∧ Token.Fits rest' left left' := by
  obtain ⟨⟨name, middle⟩, named, later⟩ := Except.bind_ok_iff.1 found
  have suffix := suffix_of_readNamed named found
  obtain ⟨middle, rfl, stops'⟩ := Token.exists_left stops suffix
  obtain ⟨middle', named', fits'⟩ := Token.qualifiedName_within fits stops' named
  obtain ⟨token, more, rfl⟩ := Token.exists_front stops suffix
  have whole := fits'
  obtain _ | @⟨_, token', _, more', lexeme, gap, behind⟩ := fits'
  rw [readNamed, named']
  generalize ends : left ++ rest = after at later
  dsimp only [List.cons_append, Bind.bind, Except.bind] at later ⊢
  rw [lexeme]
  split at later
  · next opens =>
      obtain ⟨⟨inside, close, _⟩, here, done⟩ := Except.bind_ok_iff.1 later
      cases done
      subst ends
      obtain ⟨inside', close', left', here', inner, outer⟩ :=
        Enclosure.read_within beyond' (token' :: more') behind lexeme here
      have same : argumentsOf inside' = argumentsOf inside := namesOf_eq (Token.fits_groups inner)
      refine ⟨left', ?_, outer⟩
      rw [if_pos opens, here', ← same]
      rfl
  · next other =>
      cases later
      have same : left ++ rest = token :: more ++ rest := ends
      rw [if_neg other, List.append_cancel_right same]
      exact ⟨_, rfl, whole⟩

theorem read_within {base : BaseType} (fits : Token.Fits rest' front tokens')
    (stops : Token.Stops left) (found : read beyond (front ++ rest) = .ok (base, left ++ rest)) :
    ∃ left', read beyond' tokens' = .ok (base, left') ∧ Token.Fits rest' left left' := by
  have suffix := endsIn_read beyond (front ++ rest)
  rw [found] at suffix
  obtain ⟨token, more, rfl⟩ := Token.exists_front stops suffix
  have whole := fits
  obtain _ | @⟨_, token', _, more', lexeme, gap, behind⟩ := fits
  have word : more ++ rest = left ++ rest → Token.Fits rest' left more' := by
    intro ends
    rw [← List.append_cancel_right ends]
    exact behind
  have tagged : ∀ base, (Token.qualifiedName (more ++ rest)).map
        (fun found => (BaseType.tagged found.1, found.2)) = .ok (base, left ++ rest) →
      ∃ left', (Token.qualifiedName more').map
        (fun found => (BaseType.tagged found.1, found.2)) = .ok (base, left') ∧
          Token.Fits rest' left left' := by
    intro base found
    obtain ⟨⟨name, after⟩, named, same⟩ := Except.map_ok_iff.1 found
    obtain ⟨rfl, rfl⟩ := Prod.mk.inj same
    obtain ⟨left', named', fits'⟩ := Token.qualifiedName_within behind stops named
    exact ⟨left', by rw [named']; rfl, fits'⟩
  generalize ends : left ++ rest = after at found
  rw [List.cons_append, read] at found
  rw [read, lexeme]
  split at found
  · cases found
    exact ⟨more', rfl, word ends.symm⟩
  · cases found
    exact ⟨more', rfl, word ends.symm⟩
  · cases found
    exact ⟨more', rfl, word ends.symm⟩
  · exact tagged base (ends ▸ found)
  · exact tagged base (ends ▸ found)
  · next name identifier =>
      split at found
      · next modifier =>
          obtain ⟨left', words, fits⟩ := Token.builtinWords_within whole stops
            (Prod.ext rfl (ends ▸ congrArg Prod.snd (Except.ok.inj found)))
          rw [if_pos modifier, words]
          exact ⟨left', by cases found; rfl, fits⟩
      · next other =>
          rw [if_neg other]
          rw [← ends] at found
          exact readNamed_within whole stops found
  · rw [← ends] at found
    exact readNamed_within whole stops found
  · cases found

end BaseType

theorem Wrap.read_within {behindAmpersand : Bool} {wraps : List Wrap}
    (fits : Token.Fits rest' front tokens') (stops : Token.Stops left)
    (found : read behindAmpersand (front ++ rest) = (wraps, left ++ rest)) :
    ∃ left', read behindAmpersand tokens' = (wraps, left') ∧ Token.Fits rest' left left' := by
  induction fits generalizing behindAmpersand wraps with
  | nil =>
      have suffix := read_suffix behindAmpersand ([] ++ rest)
      rw [found] at suffix
      obtain ⟨_, _, none⟩ := Token.exists_front stops suffix
      cases none
  | @cons token token' more more' lexeme gap behind ih =>
      rw [List.cons_append, read] at found
      rw [read, lexeme]
      split at found
      · obtain ⟨rfl, later⟩ := Prod.ext_iff.1 found
        obtain ⟨left', read, fits⟩ := ih (Prod.ext rfl later)
        exact ⟨left', by rw [read], fits⟩
      · split at found
        · next behind =>
            rw [if_pos behind]
            exact ih found
        · next first =>
            rw [if_neg first]
            obtain ⟨rfl, later⟩ := Prod.ext_iff.1 found
            obtain ⟨left', read, fits⟩ := ih (Prod.ext rfl later)
            exact ⟨left', by rw [read], fits⟩
      · exact ih found
      · obtain ⟨rfl, later⟩ := Prod.ext_iff.1 found
        have same : token :: more ++ rest = left ++ rest := later
        rw [← List.append_cancel_right same]
        exact ⟨_, rfl, .cons lexeme gap behind⟩

/-- A type is the same, and ends at the same place, whatever stands behind the tokens it is read
from. -/
theorem CType.read_within {type : CType} (fits : Token.Fits rest' front tokens')
    (stops : Token.Stops left) (found : read beyond (front ++ rest) = .ok (type, left ++ rest)) :
    ∃ left', read beyond' tokens' = .ok (type, left') ∧ Token.Fits rest' left left' := by
  obtain ⟨⟨base, middle⟩, here, done⟩ := Except.bind_ok_iff.1 found
  obtain ⟨same, ends⟩ := Prod.mk.inj (Except.ok.inj done)
  have wraps : Wrap.read false middle = ((Wrap.read false middle).1, left ++ rest) :=
    Prod.ext rfl ends
  have suffix := Wrap.read_suffix false middle
  rw [wraps] at suffix
  obtain ⟨middle, rfl, stops'⟩ := Token.exists_left stops suffix
  have suffix' := BaseType.endsIn_read beyond (Token.dropSpecifiers false (front ++ rest))
  rw [here] at suffix'
  obtain ⟨start, begins, stops''⟩ := Token.exists_left stops' suffix'
  rw [begins] at here
  obtain ⟨middle', here', fits'⟩ :=
    BaseType.read_within (Token.dropSpecifiers_within fits stops'' begins) stops' here
  obtain ⟨left', wraps', fits''⟩ := Wrap.read_within fits' stops wraps
  refine ⟨left', ?_, fits''⟩
  rw [read, here', ← same]
  change Except.ok (CType.mk base (Wrap.read false middle').1, (Wrap.read false middle').2) = _
  rw [wraps']

end PxdStub
