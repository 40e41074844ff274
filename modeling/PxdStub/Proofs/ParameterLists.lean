import PxdStub.Proofs.ClassLayout
import PxdStub.Proofs.ItemLocality
import PxdStub.Proofs.Lookahead

/-!
Parameter lists with default values. A list is read as the same parameters with its values and
without them, and whatever stands behind its parenthesis.
-/

namespace PxdStub

/-! ### Tokens at other places -/

namespace Token

variable {later tokens tokens' : List Token}

/-- A token without the place where it starts. -/
def content (token : Token) : Lexeme × List Char :=
  (token.lexeme, token.gap)

/-- Tokens that differ in their places only. -/
def Moved (tokens tokens' : List Token) : Prop :=
  tokens'.map content = tokens.map content

theorem Moved.cons_iff {token token' : Token} : Moved (token :: tokens) (token' :: tokens') ↔
    (token'.lexeme = token.lexeme ∧ token'.gap = token.gap) ∧ Moved tokens tokens' := by
  simp [Moved, content]

theorem Moved.fits (moved : Moved tokens tokens') (later : List Token) :
    Fits later tokens (tokens' ++ later) := by
  induction tokens generalizing tokens' with
  | nil =>
      rw [List.map_eq_nil_iff.1 moved]
      exact .nil
  | cons token tokens ih =>
      obtain ⟨token', rest', rfl, _, _⟩ := List.map_eq_cons_iff.1 moved
      obtain ⟨⟨lexeme, gap⟩, behind⟩ := Moved.cons_iff.1 moved
      exact .cons lexeme (fun _ => gap) (ih behind)

theorem Moved.fits_concat {last last' : Token} (moved : Moved tokens tokens')
    (lexeme : last'.lexeme = last.lexeme) (later : List Token) :
    Fits later (tokens ++ [last]) (tokens' ++ last' :: later) := by
  induction tokens generalizing tokens' with
  | nil =>
      rw [List.map_eq_nil_iff.1 moved]
      exact .cons lexeme (fun some => absurd rfl some) .nil
  | cons token tokens ih =>
      obtain ⟨token', rest', rfl, _, _⟩ := List.map_eq_cons_iff.1 moved
      obtain ⟨⟨lexeme, gap⟩, behind⟩ := Moved.cons_iff.1 moved
      exact .cons lexeme (fun _ => gap) (ih behind)

theorem Moved.sourceOf (moved : Moved tokens tokens') :
    sourceOf tokens' = Token.sourceOf tokens := by
  have source : ∀ tokens : List Token, Token.sourceOf tokens =
      (tokens.map content).flatMap fun part => part.1.spelling ++ part.2 := by
    intro tokens
    rw [List.flatMap_map]
    rfl
  rw [source, source, moved]

theorem Moved.drop (moved : Moved tokens tokens') (count : Nat) :
    Moved (tokens.drop count) (tokens'.drop count) := by
  rw [Moved, List.map_drop, List.map_drop, moved]

theorem Moved.map_lexeme (moved : Moved tokens tokens') :
    tokens'.map lexeme = tokens.map lexeme := by
  have same := congrArg (List.map Prod.fst) moved
  rwa [List.map_map, List.map_map] at same

theorem Moved.length (moved : Moved tokens tokens') : tokens'.length = tokens.length := by
  have size := congrArg List.length moved
  rwa [List.length_map, List.length_map] at size

theorem Moved.isEmpty (moved : Moved tokens tokens') : tokens'.isEmpty = tokens.isEmpty := by
  rw [← List.isEmpty_map (f := content), moved, List.isEmpty_map]

/-- What fits ends in the tokens behind. -/
theorem Fits.exists_append (fits : Fits later tokens tokens') :
    ∃ front, tokens' = front ++ later ∧ Fits [] tokens front := by
  induction fits with
  | nil => exact ⟨[], rfl, .nil⟩
  | @cons token token' rest rest' lexeme gap behind ih =>
      obtain ⟨front, rfl, fits⟩ := ih
      exact ⟨token' :: front, rfl, .cons lexeme gap fits⟩

theorem Fits.append (fits : Fits [] tokens tokens') (later : List Token) :
    Fits later tokens (tokens' ++ later) := by
  induction fits with
  | nil => exact .nil
  | cons lexeme gap _ ih => exact .cons lexeme gap ih

theorem Fits.exists_split {front back : List Token} (fits : Fits [] (front ++ back) tokens') :
    ∃ front' back', tokens' = front' ++ back' ∧ Fits [] front front' ∧ Fits [] back back' := by
  have bound : front.length ≤ (front ++ back).length := by simp
  have first := fits.take bound
  have second := fits.drop bound
  rw [List.take_left' rfl] at first
  rw [List.drop_left' rfl] at second
  exact ⟨_, _, (List.take_append_drop _ _).symm, first, second⟩

/-! ### Commas -/

/-- Whether every comma stands inside brackets, when `depth` are open in front of the tokens. -/
def commasInside (depth : Nat) : List Token → Bool
  | [] => true
  | token :: rest =>
      !(decide (depth = 0) && decide (token.lexeme = .punctuation .comma)) &&
        commasInside (angledNesting depth token) rest

theorem commasInside_append {depth : Nat} {front back : List Token} :
    commasInside depth (front ++ back) =
      (commasInside depth front && commasInside (front.foldl angledNesting depth) back) := by
  induction front generalizing depth with
  | nil => rfl
  | cons token front ih =>
      rw [List.cons_append, commasInside, commasInside, ih, List.foldl_cons, Bool.and_assoc]

theorem angledNesting_mono {depth depth' : Nat} (bound : depth ≤ depth') (token : Token) :
    angledNesting depth token ≤ angledNesting depth' token := by
  unfold angledNesting
  split <;> omega

/-- With more brackets open, no comma comes to stand outside. -/
theorem commasInside_mono {depth depth' : Nat} {tokens : List Token} (bound : depth ≤ depth')
    (inside : commasInside depth tokens) : commasInside depth' tokens := by
  induction tokens generalizing depth depth' with
  | nil => rfl
  | cons token rest ih =>
      rw [commasInside, Bool.and_eq_true, Bool.not_eq_true', Bool.and_eq_false_iff,
        decide_eq_false_iff_not, decide_eq_false_iff_not] at inside ⊢
      refine ⟨inside.1.imp_left (by omega), ih (angledNesting_mono bound token) inside.2⟩

theorem groupsAt_of_commasInside {depth : Nat} {tokens : List Token}
    (inside : commasInside depth tokens) : groupsAt depth tokens = [tokens] := by
  induction tokens generalizing depth with
  | nil => rfl
  | cons token rest ih =>
      rw [commasInside, Bool.and_eq_true, Bool.not_eq_true'] at inside
      rw [groupsAt, if_neg (by simp [inside.1]), ih inside.2]

/-- A group ends at the first comma outside brackets. -/
theorem groupsAt_append_of_commasInside {depth : Nat} {group rest : List Token} {comma : Token}
    (inside : commasInside depth group) (level : group.foldl angledNesting depth = 0)
    (isComma : comma.lexeme = .punctuation .comma) :
    groupsAt depth (group ++ comma :: rest) = group :: groupsAt 0 rest := by
  induction group generalizing depth with
  | nil =>
      have outside : depth = 0 := level
      rw [List.nil_append, groupsAt, if_pos (by simp [outside, isComma])]
  | cons token group ih =>
      rw [commasInside, Bool.and_eq_true, Bool.not_eq_true'] at inside
      rw [List.cons_append, groupsAt, if_neg (by simp [inside.1]), ih inside.2 level]

theorem foldl_angledNesting_eq {depth : Nat} (same : tokens'.map lexeme = tokens.map lexeme) :
    tokens'.foldl angledNesting depth = tokens.foldl angledNesting depth := by
  induction tokens generalizing tokens' depth with
  | nil => rw [List.map_eq_nil_iff.1 same]
  | cons token tokens ih =>
      obtain ⟨token', rest', rfl, first, more⟩ := List.map_eq_cons_iff.1 same
      rw [List.foldl_cons, List.foldl_cons, ih more, angledNesting, angledNesting, first]

theorem commasInside_eq {depth : Nat} (same : tokens'.map lexeme = tokens.map lexeme) :
    commasInside depth tokens' = commasInside depth tokens := by
  induction tokens generalizing tokens' depth with
  | nil => rw [List.map_eq_nil_iff.1 same]
  | cons token tokens ih =>
      obtain ⟨token', rest', rfl, first, more⟩ := List.map_eq_cons_iff.1 same
      rw [commasInside, commasInside, ih more, angledNesting, angledNesting, first]

/-- Tokens have a first comma outside brackets, or none. -/
theorem commasInside_or (depth : Nat) (tokens : List Token) :
    commasInside depth tokens ∨ ∃ group comma more, tokens = group ++ comma :: more ∧
      commasInside depth group ∧ group.foldl angledNesting depth = 0 ∧
        comma.lexeme = .punctuation .comma := by
  induction tokens generalizing depth with
  | nil => exact Or.inl rfl
  | cons token rest ih =>
      by_cases ends : depth = 0 ∧ token.lexeme = .punctuation .comma
      · exact Or.inr ⟨[], token, rest, rfl, rfl, ends.1, ends.2⟩
      · have passes :
            (!(decide (depth = 0) && decide (token.lexeme = .punctuation .comma))) = true := by
          rw [Bool.not_eq_true', Bool.and_eq_false_iff, decide_eq_false_iff_not,
            decide_eq_false_iff_not]
          exact not_and_or.1 ends
        obtain inside | ⟨group, comma, more, rfl, inside, level, isComma⟩ :=
          ih (angledNesting depth token)
        · refine Or.inl ?_
          rw [commasInside, passes, inside]
          rfl
        · refine Or.inr ⟨token :: group, comma, more, rfl, ?_, level, isComma⟩
          rw [commasInside, passes, inside]
          rfl

/-! ### Brackets of one kind -/

/-- How many brackets of one kind are open behind a token; `none` when it closes one too many. -/
def deepen? (bracket : Bracket) (depth : Nat) (token : Token) : Option Nat :=
  if token.lexeme = .opening bracket then some (depth + 1)
  else if token.lexeme = .closing bracket then
    match depth with
    | 0 => none
    | outer + 1 => some outer
  else some depth

/-- Whether the brackets of one kind match, whatever stands between them. -/
def Balances (bracket : Bracket) (tokens : List Token) : Prop :=
  tokens.foldlM (deepen? bracket) 0 = some 0

instance (bracket : Bracket) (tokens : List Token) : Decidable (Balances bracket tokens) :=
  inferInstanceAs (Decidable (_ = _))

theorem deepen?_of_other {bracket : Bracket} {depth : Nat} {token : Token}
    (opening : token.lexeme ≠ .opening bracket) (closing : token.lexeme ≠ .closing bracket) :
    deepen? bracket depth token = some depth := by
  unfold deepen?
  rw [if_neg opening, if_neg closing]

theorem deepen?_of_opening {bracket : Bracket} {depth : Nat} {token : Token}
    (opening : token.lexeme = .opening bracket) :
    deepen? bracket depth token = some (depth + 1) := by
  unfold deepen?
  rw [if_pos opening]

theorem deepen?_of_closing {bracket : Bracket} {outer : Nat} {token : Token}
    (closing : token.lexeme = .closing bracket) :
    deepen? bracket (outer + 1) token = some outer := by
  unfold deepen?
  rw [if_neg (by simp [closing]), if_pos closing]

theorem foldlM_deepen?_eq {bracket : Bracket} {depth : Nat}
    (same : tokens'.map lexeme = tokens.map lexeme) :
    tokens'.foldlM (deepen? bracket) depth = tokens.foldlM (deepen? bracket) depth := by
  induction tokens generalizing tokens' depth with
  | nil => rw [List.map_eq_nil_iff.1 same]
  | cons token tokens ih =>
      obtain ⟨token', rest', rfl, first, more⟩ := List.map_eq_cons_iff.1 same
      have here : deepen? bracket depth token' = deepen? bracket depth token := by
        unfold deepen?
        rw [first]
      rw [List.foldlM_cons, List.foldlM_cons, here]
      exact bind_congr fun depth => ih more

/-- Tokens that close what they open leave the brackets of each kind as they are. -/
theorem foldlM_deepen?_of_closes {bracket : Bracket} (kind : bracket ≠ .angle)
    {stack : List Bracket} (closed : closes stack tokens) (depth : Nat) :
    tokens.foldlM (deepen? bracket) (depth + stack.count bracket) = some depth := by
  induction tokens generalizing stack with
  | nil =>
      rw [List.isEmpty_iff.1 closed]
      rfl
  | cons token rest ih =>
      obtain ⟨stack', opened, closed⟩ := closes_cons.1 closed
      obtain ⟨opens, shuts, others⟩ := count_of_openBehind? kind opened
      have step : deepen? bracket (depth + stack.count bracket) token =
          some (depth + stack'.count bracket) := by
        by_cases opening : token.lexeme = .opening bracket
        · rw [deepen?_of_opening opening, opens opening, Nat.add_assoc]
        · by_cases closing : token.lexeme = .closing bracket
          · rw [shuts closing, ← Nat.add_assoc, deepen?_of_closing closing]
          · rw [deepen?_of_other opening closing, others opening closing]
      rw [List.foldlM_cons, step]
      exact ih closed

end Token

theorem Enclosure.close?_of_deepen? {bracket : Bracket} {depth : Nat} {inside : List Token}
    {close : Token} (closing : close.lexeme = .closing bracket)
    (balanced : inside.foldlM (Token.deepen? bracket) depth = some 0) (after : List Token) :
    close? bracket depth (inside ++ close :: after) = some ⟨inside, close, after⟩ := by
  induction inside generalizing depth with
  | nil =>
      cases balanced
      rw [List.nil_append, close?]
      simp [closing]
  | cons token inside ih =>
      obtain ⟨depth', step, later⟩ := Option.bind_eq_some_iff.1 balanced
      have further := ih later
      rw [List.cons_append]
      unfold close?
      unfold Token.deepen? at step
      dsimp only
      by_cases opens : token.lexeme = .opening bracket
      · rw [if_pos opens] at step ⊢
        rw [Option.some.inj step, further]
        rfl
      · rw [if_neg opens] at step ⊢
        by_cases closes : token.lexeme = .closing bracket
        · rw [if_pos closes] at step ⊢
          cases depth with
          | zero => cases step
          | succ outer =>
              dsimp only
              rw [Option.some.inj step, further]
              rfl
        · rw [if_neg closes] at step ⊢
          rw [Option.some.inj step, further]
          rfl

/-! ### Parameters -/

namespace Parameter

/-- The parameter of a type and the tokens between it and the end of its group. -/
def ofDeclared (type : CType) (declared : List Token) : Parameter :=
  let declared := Token.beforeInitializer declared
  let dimensions := declared.countP fun token => token.lexeme = .opening .square
  ⟨⟨type.base, type.wraps ++ List.replicate dimensions .unsized⟩,
    (Token.firstName? declared).getD ""⟩

theorem ofDeclared_eq {type : CType} {declared declared' : List Token}
    (fits : Token.Fits [] declared declared') :
    ofDeclared type declared' = ofDeclared type declared := by
  have before := fits.beforeInitializer
  have dimensions := before.countP fun lexeme => lexeme = .opening .square
  rw [ofDeclared, ofDeclared, before.firstName?, dimensions]

/-- What stands behind an equality sign has no say in a parameter. -/
theorem ofDeclared_append_equals {type : CType} {declared value : List Token} {equals : Token}
    (isEquals : equals.lexeme = .punctuation .equals) :
    ofDeclared type (declared ++ equals :: value) = ofDeclared type declared := by
  have before : Token.beforeInitializer (declared ++ equals :: value) =
      Token.beforeInitializer declared := by
    rw [Token.beforeInitializer, Token.beforeInitializer, List.takeWhile_append]
    split
    · next whole =>
        rw [List.takeWhile_cons, if_neg (by simp [isEquals]), List.append_nil]
        exact (List.takeWhile_prefix _).eq_of_length whole |>.symm
    · rfl
  rw [ofDeclared, ofDeclared, before]

variable {beyond beyond' : List Char} {group group' behind behind' : List Token}

theorem read_ok_iff {parameter : Parameter} :
    read beyond (group ++ behind) group = .ok parameter ↔ ∃ type declared,
      CType.read beyond (group ++ behind) = .ok (type, declared ++ behind) ∧
        parameter = ofDeclared type declared := by
  have ends := CType.endsIn_read beyond (group ++ behind)
  have size : (group ++ behind).length - group.length = behind.length := by simp
  rw [read, Except.bind_ok_iff]
  constructor
  · rintro ⟨⟨type, rest⟩, found, done⟩
    dsimp only at done
    rw [size] at done
    split at done
    · cases done
    · next long =>
        cases done
        rw [found] at ends
        obtain ⟨front, whole⟩ := ends
        dsimp only at whole
        obtain ⟨declared, rfl⟩ : ∃ declared, rest = declared ++ behind := by
          have suffix : behind <:+ rest :=
            List.suffix_of_suffix_length_le (List.suffix_append group behind) ⟨front, whole⟩
              (by omega)
          obtain ⟨declared, same⟩ := suffix
          exact ⟨declared, same.symm⟩
        refine ⟨type, declared, found, ?_⟩
        rw [List.length_append, Nat.add_sub_cancel, List.take_left' rfl]
        rfl
  · rintro ⟨type, declared, found, rfl⟩
    refine ⟨_, found, ?_⟩
    dsimp only
    rw [size, if_neg (by simp), List.length_append, Nat.add_sub_cancel, List.take_left' rfl]
    rfl

/-- Whether a parameter with a name is read from a group alone. -/
def IsNamed (group : List Token) : Prop :=
  ∃ parameter, read [] group group = .ok parameter ∧ parameter.name ≠ ""

theorem exists_name_of_ofDeclared {type : CType} {declared : List Token}
    (named : (ofDeclared type declared).name ≠ "") :
    ∃ token ∈ declared, ∃ name, token.lexeme = .identifier name := by
  cases found : Token.firstName? (Token.beforeInitializer declared) with
  | none => exact absurd (congrArg (Option.getD · "") found) named
  | some name =>
      obtain ⟨token, mem, identifier⟩ := List.exists_of_findSome?_eq_some found
      refine ⟨token, (List.takeWhile_prefix _).subset mem, name, ?_⟩
      cases same : token.lexeme with
      | identifier other =>
          rw [same] at identifier
          exact congrArg Lexeme.identifier (Option.some.inj identifier)
      | _ =>
          rw [same] at identifier
          cases identifier

theorem stops_of_name {declared : List Token} {token : Token} {name : String}
    (mem : token ∈ declared) (identifier : token.lexeme = .identifier name) :
    Token.Stops declared := by
  refine ⟨List.ne_nil_of_mem mem, ?_⟩
  rintro one rfl scope
  rw [List.mem_singleton.1 mem, scope] at identifier
  cases identifier

theorem IsNamed.stops (named : IsNamed group) {type : CType} {declared : List Token}
    (found : CType.read beyond (group ++ behind) = .ok (type, declared ++ behind)) :
    Token.Stops declared := by
  -- The name stands behind the type in the group alone, so the type stops there in any text.
  obtain ⟨parameter, alone, named⟩ := named
  have alone : read [] (group ++ []) group = .ok parameter := by rwa [List.append_nil]
  obtain ⟨_, declared', found', rfl⟩ := read_ok_iff.1 alone
  obtain ⟨token, mem, name, identifier⟩ := exists_name_of_ofDeclared named
  have stops := stops_of_name mem identifier
  obtain ⟨left, within, fits⟩ :=
    CType.read_within (Token.Moved.fits rfl behind) stops found'
  obtain ⟨front, rfl, fits'⟩ := fits.exists_append
  have same := (Prod.mk.inj (Except.ok.inj (found.symm.trans within))).2
  rw [List.append_cancel_right same]
  exact stops.of_fits fits'

/-- A default value: it closes its brackets, and no comma ends it. The search for commas takes `<`
and `>` for brackets, and forgets a closing one that closes nothing. -/
structure IsDefault (value : List Token) : Prop where
  some : value ≠ []
  closed : Token.closes [] value
  commas : Token.commasInside 0 value

/-- A parameter, and the same one with a default value or without one. -/
inductive Given : List Token → List Token → Prop
  | plain {group group' : List Token} : Token.Moved group group' → Given group group'
  | valued {group front value : List Token} {equals : Token} :
      IsNamed group → Token.Fits [] group front → equals.lexeme = .punctuation .equals →
      IsDefault value → Given group (front ++ equals :: value)

/-- A parameter list, and the same one with default values for some parameters. A parameter in front
of a comma leaves no bracket open. -/
inductive Defaults : List Token → List Token → Prop
  | last {group group' : List Token} :
      Token.commasInside 0 group → Given group group' → Defaults group group'
  | cons {group group' more more' : List Token} {comma comma' : Token} :
      Token.commasInside 0 group → group.foldl Token.angledNesting 0 = 0 →
      group'.foldl Token.angledNesting 0 = 0 → Given group group' →
      comma.lexeme = .punctuation .comma → comma'.lexeme = .punctuation .comma →
      Defaults more more' →
      Defaults (group ++ comma :: more) (group' ++ comma' :: more')

theorem read_moved {stop stop' : Token} {parameter : Parameter} (moved : Token.Moved group group')
    (lexeme : stop'.lexeme = stop.lexeme) (other : stop.lexeme ≠ .punctuation .scope)
    (found : read beyond (group ++ stop :: behind) group = .ok parameter) :
    read beyond' (group' ++ stop' :: behind') group' = .ok parameter := by
  obtain ⟨type, declared, inner, rfl⟩ := read_ok_iff.1 found
  -- The group may be a type and nothing else, so it is the token behind it that stops the reader.
  rw [List.append_cons group, List.append_cons declared] at inner
  obtain ⟨left, within, fits⟩ := @CType.read_within _ _ _ _ _ _ beyond' _
    (moved.fits_concat lexeme behind') (Token.Stops.concat other) inner
  obtain ⟨front, rfl, inside⟩ := fits.exists_append
  obtain ⟨declared', _, rfl, alike, _ | @⟨_, last, _, _, _, _, _ | _⟩⟩ := inside.exists_split
  have ends := CType.endsIn_read beyond' (group' ++ stop' :: behind')
  rw [within] at ends
  have suffix : last :: behind' <:+ group' ++ stop' :: behind' :=
    List.IsSuffix.trans ⟨declared', (List.append_cons _ _ _)⟩ ends
  have same : last :: behind' = stop' :: behind' :=
    (List.suffix_of_suffix_length_le suffix (List.suffix_append _ _) (by simp)).eq_of_length rfl
  refine read_ok_iff.2 ⟨type, declared', ?_, (ofDeclared_eq alike).symm⟩
  rw [within, ← same, List.append_assoc]
  rfl

theorem read_given {stop stop' : Token} {parameter : Parameter} (given : Given group group')
    (lexeme : stop'.lexeme = stop.lexeme) (other : stop.lexeme ≠ .punctuation .scope)
    (found : read beyond (group ++ stop :: behind) group = .ok parameter) :
    read beyond' (group' ++ stop' :: behind') group' = .ok parameter := by
  cases given with
  | plain moved => exact read_moved moved lexeme other found
  | @valued front value equals named fits isEquals isDefault =>
      obtain ⟨type, declared, inner, rfl⟩ := read_ok_iff.1 found
      obtain ⟨left, within, fits⟩ :=
        CType.read_within (fits.append (equals :: value ++ stop' :: behind'))
          (named.stops inner) inner
      obtain ⟨declared', rfl, alike⟩ := fits.exists_append
      refine read_ok_iff.2 ⟨type, declared' ++ equals :: value, ?_, ?_⟩
      · rw [List.append_assoc, List.append_assoc]
        exact within
      · rw [ofDeclared_append_equals isEquals, ofDeclared_eq alike]

theorem Given.head {first : Token} {rest : List Token} (given : Given (first :: rest) group') :
    ∃ first' rest', group' = first' :: rest' ∧ first'.lexeme = first.lexeme := by
  cases given with
  | plain moved =>
      obtain ⟨first', rest', rfl, _, _⟩ := List.map_eq_cons_iff.1 moved
      exact ⟨first', rest', rfl, (Token.Moved.cons_iff.1 moved).1.1⟩
  | valued _ fits _ _ =>
      cases fits with
      | cons lexeme _ _ => exact ⟨_, _, rfl, lexeme⟩

theorem Given.eq_nil (given : Given [] group') : group' = [] := by
  cases given with
  | plain moved => exact List.map_eq_nil_iff.1 moved
  | valued named _ _ _ =>
      obtain ⟨_, found, _⟩ := named
      cases found

theorem readGroups_given {more more' : List (List Token)} {stop stop' : Token}
    {found : List Parameter × Bool} (given : Given group group')
    (lexeme : stop'.lexeme = stop.lexeme) (other : stop.lexeme ≠ .punctuation .scope)
    (later : ∀ found, readGroups beyond behind more = .ok found →
      readGroups beyond' behind' more' = .ok found)
    (read : readGroups beyond (group ++ stop :: behind) (group :: more) = .ok found) :
    readGroups beyond' (group' ++ stop' :: behind') (group' :: more') = .ok found := by
  have drop : ∀ (group behind : List Token) (stop : Token),
      (group ++ stop :: behind).drop (group.length + 1) = behind := by
    intro group behind stop
    rw [List.append_cons]
    exact List.drop_left' (by simp)
  unfold readGroups at read ⊢
  rw [drop] at read ⊢
  cases group with
  | nil =>
      rw [given.eq_nil]
      exact later found read
  | cons first rest =>
      -- An ellipsis is told by its first token, which a default value does not touch.
      obtain ⟨first', rest', rfl, head⟩ := given.head
      dsimp only at read ⊢
      rw [head]
      split at read
      · next ellipsis =>
          obtain ⟨⟨parameters, variadic⟩, behind, done⟩ := Except.bind_ok_iff.1 read
          rw [if_pos ellipsis, later _ behind]
          exact done
      · next parameter =>
          obtain ⟨parameter', here, done⟩ := Except.bind_ok_iff.1 read
          obtain ⟨⟨parameters, variadic⟩, behind, done⟩ := Except.bind_ok_iff.1 done
          rw [if_neg parameter, read_given given lexeme other here]
          dsimp only [Bind.bind, Except.bind]
          rw [later _ behind]
          exact done

theorem Given.commasInside (given : Given group group') (inside : Token.commasInside 0 group) :
    Token.commasInside 0 group' := by
  cases given with
  | plain moved => rwa [Token.commasInside_eq moved.map_lexeme]
  | @valued front value equals _ fits isEquals isDefault =>
      have step : ∀ depth, Token.angledNesting depth equals = depth := by
        intro depth
        rw [Token.angledNesting, isEquals]
      rw [Token.commasInside_append, Bool.and_eq_true, Token.commasInside_eq fits.map_lexeme]
      refine ⟨inside, ?_⟩
      rw [Token.commasInside, isEquals, step]
      simpa using Token.commasInside_mono (Nat.zero_le _) isDefault.commas

/-- A list is the same one without any values. -/
theorem Defaults.of_moved {inside inside' : List Token} (moved : Token.Moved inside inside') :
    Defaults inside inside' := by
  -- The list is cut at its first comma outside brackets: what stands behind it is only shorter.
  induction size : inside.length using Nat.strong_induction_on generalizing inside inside' with
  | _ size ih =>
      subst size
      obtain commas | ⟨group, comma, more, rfl, commas, level, isComma⟩ :=
        Token.commasInside_or 0 inside
      · exact .last commas (.plain moved)
      · have contents := Eq.trans moved List.map_append
        obtain ⟨group', _, rfl, first, others⟩ := List.map_eq_append_iff.1 contents
        obtain ⟨comma', more', rfl, same, behind⟩ := List.map_eq_cons_iff.1 others
        have isComma' : comma'.lexeme = .punctuation .comma :=
          (congrArg Prod.fst same).trans isComma
        have level' : group'.foldl Token.angledNesting 0 = 0 := by
          rwa [Token.foldl_angledNesting_eq (Token.Moved.map_lexeme first)]
        refine .cons commas level level' (.plain first) isComma isComma' (ih _ ?_ behind rfl)
        rw [List.length_append, List.length_cons]
        omega

theorem readGroups_defaults {inside inside' : List Token} {stop stop' : Token}
    {found : List Parameter × Bool} (defaults : Defaults inside inside')
    (lexeme : stop'.lexeme = stop.lexeme) (other : stop.lexeme ≠ .punctuation .scope)
    (read : readGroups beyond (inside ++ stop :: behind) (Token.groupsAt 0 inside) = .ok found) :
    readGroups beyond' (inside' ++ stop' :: behind') (Token.groupsAt 0 inside') = .ok found := by
  induction defaults generalizing found with
  | last commas given =>
      rw [Token.groupsAt_of_commasInside commas] at read
      rw [Token.groupsAt_of_commasInside (given.commasInside commas)]
      refine readGroups_given given lexeme other ?_ read
      exact fun _ none => none
  | cons commas level level' given comma comma' more ih =>
      rw [Token.groupsAt_append_of_commasInside commas level comma, List.append_assoc,
        List.cons_append] at read
      rw [Token.groupsAt_append_of_commasInside (given.commasInside commas) level' comma',
        List.append_assoc, List.cons_append]
      exact readGroups_given given (comma'.trans comma.symm) (by rw [comma]; nofun)
        (fun _ found => ih found) read

theorem readGroups_groups (tokens inside : List Token) :
    readGroups beyond tokens (Token.groups inside) =
      readGroups beyond tokens (Token.groupsAt 0 inside) := by
  cases inside <;> rfl

theorem Given.void_iff (given : Given group group') :
    group'.map Token.lexeme = [.keyword .void] ↔ group.map Token.lexeme = [.keyword .void] := by
  cases given with
  | plain moved => rw [moved.map_lexeme]
  | @valued front value equals named _ _ isDefault =>
      constructor
      · intro void
        have size := congrArg List.length void
        have some := List.length_pos_iff.2 isDefault.some
        simp only [List.length_map, List.length_append, List.length_cons, List.length_nil] at size
        omega
      · intro void
        obtain ⟨token, rfl, lexeme⟩ := List.map_eq_singleton_iff.1 void
        obtain ⟨parameter, found, named⟩ := named
        have alone : CType.read [] [token] = .ok (⟨.void, []⟩, []) := by
          have plain : Token.dropSpecifiers false [token] = [token] := by
            rw [Token.dropSpecifiers, lexeme]
            rfl
          rw [CType.read, plain, BaseType.read, lexeme]
          rfl
        rw [read, alone] at found
        cases found
        exact absurd rfl named

theorem Defaults.void_iff {inside inside' : List Token} (defaults : Defaults inside inside') :
    inside'.map Token.lexeme = [.keyword .void] ↔ inside.map Token.lexeme = [.keyword .void] := by
  cases defaults with
  | last _ given => exact given.void_iff
  | cons _ _ _ _ comma comma' _ =>
      have apart : ∀ {group more : List Token} {comma : Token},
          comma.lexeme = .punctuation .comma →
          (group ++ comma :: more).map Token.lexeme ≠ [.keyword .void] := by
        intro group more comma isComma void
        have mem : comma.lexeme ∈ (group ++ comma :: more).map Token.lexeme :=
          List.mem_map_of_mem (by simp)
        rw [void, List.mem_singleton, isComma] at mem
        cases mem
      exact ⟨fun void => absurd void (apart comma'), fun void => absurd void (apart comma)⟩

/-- A parameter list is read as the same parameters with default values and without them, whatever
stands behind the token that ends it. -/
theorem readAll_defaults {inside inside' : List Token} {stop stop' : Token}
    {found : List Parameter × Bool} (defaults : Defaults inside inside')
    (lexeme : stop'.lexeme = stop.lexeme) (other : stop.lexeme ≠ .punctuation .scope)
    (read : readAll beyond (inside ++ stop :: behind) inside = .ok found) :
    readAll beyond' (inside' ++ stop' :: behind') inside' = .ok found := by
  rw [readAll] at read ⊢
  split at read
  · next void =>
      rw [if_pos (defaults.void_iff.2 void)]
      exact read
  · next noVoid =>
      rw [if_neg fun void => noVoid (defaults.void_iff.1 void), readGroups_groups]
      rw [readGroups_groups] at read
      exact readGroups_defaults defaults lexeme other read

/-! ### Brackets of a list -/

theorem Given.foldlM_deepen? (given : Given group group') (depth : Nat) :
    group'.foldlM (Token.deepen? .round) depth = group.foldlM (Token.deepen? .round) depth := by
  cases given with
  | plain moved => exact Token.foldlM_deepen?_eq moved.map_lexeme
  | @valued front value equals _ fits isEquals isDefault =>
      have value : ∀ depth, (equals :: value).foldlM (Token.deepen? .round) depth = some depth := by
        intro depth
        rw [List.foldlM_cons, Token.deepen?_of_other (by simp [isEquals]) (by simp [isEquals])]
        exact Token.foldlM_deepen?_of_closes (by decide) isDefault.closed depth
      rw [List.foldlM_append, Token.foldlM_deepen?_eq fits.map_lexeme]
      conv_rhs => rw [← bind_pure (group.foldlM (Token.deepen? .round) depth)]
      exact bind_congr fun depth => value depth

theorem Defaults.foldlM_deepen? {inside inside' : List Token} (defaults : Defaults inside inside')
    (depth : Nat) : inside'.foldlM (Token.deepen? .round) depth =
      inside.foldlM (Token.deepen? .round) depth := by
  induction defaults generalizing depth with
  | last _ given => exact given.foldlM_deepen? depth
  | cons _ _ _ given comma comma' _ ih =>
      rw [List.foldlM_append, List.foldlM_append, given.foldlM_deepen?]
      refine bind_congr fun depth => ?_
      rw [List.foldlM_cons, List.foldlM_cons,
        Token.deepen?_of_other (by simp [comma']) (by simp [comma']),
        Token.deepen?_of_other (by simp [comma]) (by simp [comma])]
      exact ih depth

end Parameter

/-! ### Signatures -/

namespace Signature

/-- Whether tokens are a name and the parenthesis that opens the parameters. -/
def OpensCall (inName : Bool) (front : List Token) : Prop :=
  ∃ name opening, front = name ++ [opening] ∧ splitName 0 inName front = some (name, [opening])

variable {inName : Bool} {front : List Token}

theorem OpensCall.exists_last (opens : OpensCall inName front) :
    ∃ name opening, front = name ++ [opening] ∧ opening.lexeme = .opening .round := by
  obtain ⟨name, opening, whole, split⟩ := opens
  obtain ⟨token, rest, same, round⟩ := head_of_splitName split
  cases same
  exact ⟨name, opening, whole, round⟩

theorem OpensCall.stops (opens : OpensCall inName front) : Token.Stops front := by
  obtain ⟨name, opening, rfl, round⟩ := opens.exists_last
  exact Token.Stops.concat (by simp [round])

theorem OpensCall.exists_round (opens : OpensCall inName front) {tokens : List Token}
    (suffix : front <:+ tokens) : ∃ token ∈ tokens, token.lexeme = .opening .round := by
  obtain ⟨name, opening, rfl, round⟩ := opens.exists_last
  exact ⟨opening, suffix.subset (by simp), round⟩

theorem OpensCall.splitName {later tokens : List Token} (opens : OpensCall inName front)
    (fits : Token.Fits later front tokens) : ∃ name opening,
      splitName 0 inName tokens = some (name, opening :: later) ∧
        Token.Fits [] front.dropLast name := by
  obtain ⟨name, opening, whole, split⟩ := opens
  obtain ⟨name', call', split', front, back⟩ := agree_splitName fits split
  obtain _ | ⟨_, _, _ | _⟩ := back
  rw [whole, List.dropLast_concat]
  exact ⟨_, _, split', front⟩

/-- What stands behind the opening parenthesis of parameters, and behind that of the same ones with
default values for some of them. -/
inductive Calls (related : List Token → List Token → Prop) : List Token → List Token → Prop
  | intro {inside inside' behind behind' : List Token} {closing closing' : Token} :
      Parameter.Defaults inside inside' → Token.Balances .round inside →
      closing.lexeme = .closing .round → closing'.lexeme = .closing .round →
      related behind behind' →
      Calls related (inside ++ closing :: behind) (inside' ++ closing' :: behind')

/-- A signature ends behind its parenthesis, and it is the same with default values and without
them. -/
theorem read_calls {related : List Token → List Token → Prop} {beyond beyond' : List Char}
    {later later' tokens tokens' rest : List Token} {signature : Signature}
    (calls : Calls related later later') (opens : OpensCall inName front)
    (fits : Token.Fits later front tokens) (fits' : Token.Fits later' front tokens')
    (found : read beyond inName tokens = .ok (signature, rest)) :
    ∃ rest', read beyond' inName tokens' = .ok (signature, rest') ∧ related rest rest' := by
  obtain @⟨inside, inside', behind, behind', closing, closing', defaults, balanced, closes, closes',
    kin⟩ := calls
  obtain ⟨name, opening, split, named⟩ := opens.splitName fits
  obtain ⟨name', opening', split', named'⟩ := opens.splitName fits'
  obtain ⟨_, _, head, round⟩ := head_of_splitName split
  obtain ⟨_, _, head', round'⟩ := head_of_splitName split'
  cases head
  cases head'
  have enclosed := Enclosure.close?_of_deepen? closes balanced behind
  have balanced' : Token.Balances .round inside' := (defaults.foldlM_deepen? 0).trans balanced
  have enclosed' := Enclosure.close?_of_deepen? closes' balanced' behind'
  rw [read, split] at found
  rw [read, split']
  dsimp only at found ⊢
  rw [named'.isEmpty, ← named.isEmpty]
  split at found
  · cases found
  · next some =>
      rw [if_neg some]
      rw [Enclosure.read_of_close? round enclosed] at found
      rw [Enclosure.read_of_close? round' enclosed']
      obtain ⟨_, here, found⟩ := Except.bind_ok_iff.1 found
      cases here
      obtain ⟨⟨parameters, variadic⟩, given, done⟩ := Except.bind_ok_iff.1 found
      cases done
      have given' : Parameter.readAll beyond' (inside' ++ closing' :: behind') inside' =
          .ok (parameters, variadic) :=
        Parameter.readAll_defaults defaults (closes'.trans closes.symm) (by simp [closes]) given
      refine ⟨behind', Except.bind_ok_iff.2 ⟨_, rfl, Except.bind_ok_iff.2 ⟨_, given', ?_⟩⟩, kin⟩
      rw [named'.nameOf, ← named.nameOf]
      rfl

end Signature

end PxdStub
