import PrefixCalc.Proofs.Editor.Transition
import PrefixCalc.Proofs.Machine.Culprit
import PrefixCalc.Proofs.OrderedMap
import PrefixCalc.Proofs.Position

/-!
# Places of findings

Every finding of an index is noted at a token, and every constant at the token of its name. So at
the place of a finding the text has what the finding is about: the name that the message quotes,
the word of a definition, or the first character of a literal, a paren or a bracket. A token is
noted at most once in each list, so the lists are in the order of the text.
-/

namespace PrefixCalc

open Text

variable {text : Text} {t token : Token} {name : Text} {problem : Problem}

/-! ## §1 Findings and tokens -/

namespace Finding

/-- The lists of an index that findings are put on. -/
inductive Group where
  | ignoredValues
  | unknownFunctions
  | undefinedConstants
  | structural
  deriving DecidableEq

/-- The list that a finding is put on. -/
def group : Finding → Group
  | ignoredValue => .ignoredValues
  | unknownFunction _ => .unknownFunctions
  | undefinedConstant _ => .undefinedConstants
  | brokenDefinition | tooManyClosed | arrayInArray | noArrayToClose => .structural

/-- What the token says that a finding is about. -/
inductive About : Finding → Lexeme → Prop where
  | ignoredValue (kind : ScalarKind) (value : Scalar) : About ignoredValue (.literal kind value)
  | unknownFunction (name : Text) : About (unknownFunction name) (.identifier name)
  | undefinedConstant (name : Text) : About (undefinedConstant name) (.identifier name)
  | brokenDefinition : About brokenDefinition (.identifier definitionWord)
  | tooManyClosed : About tooManyClosed .closeParen
  | arrayInArray : About arrayInArray .openBracket
  | noArrayToClose : About noArrayToClose .closeBracket

end Finding

/-- A problem of the group is noted at the token. -/
structure Problem.NotedAt (place : Int → Position) (group : Finding.Group) (problem : Problem)
    (t : Token) : Prop where
  group : problem.finding.group = group
  about : problem.finding.About t.lexeme
  place : problem.place = place t.offset

namespace Index

variable {place : Int → Position} {p q : Progress} {ahead tokens : List Token}
  {group : Finding.Group}

/-- The findings of a group. -/
def problems (index : Index) : Finding.Group → List Problem
  | .ignoredValues => index.ignoredValues
  | .unknownFunctions => index.unknownFunctions
  | .undefinedConstants => index.undefinedConstants
  | .structural => index.structural

/-- A token adds at most one problem to a list, and it is noted at the token. -/
theorem problems_of_transition (h : Transition place p token ahead q) (group : Finding.Group) :
    q.index.problems group = p.index.problems group ∨
    ∃ problem : Problem, problem.NotedAt place group token ∧
      q.index.problems group = p.index.problems group ++ [problem] := by
  -- nine transitions note nothing, and each of the others notes one problem in its own group
  cases h with
  | passed | defined | headed | referred | opened | closed | arrayOpened | arrayClosed | quiet =>
    exact .inl (by cases group <;> rfl)
  | ignored kind value _ _ lexeme =>
    cases group with
    | ignoredValues => exact .inr ⟨_, ⟨rfl, lexeme ▸ .ignoredValue kind value, rfl⟩, rfl⟩
    | _ => exact .inl rfl
  | unknown name _ _ lexeme =>
    cases group with
    | unknownFunctions => exact .inr ⟨_, ⟨rfl, lexeme ▸ .unknownFunction name, rfl⟩, rfl⟩
    | _ => exact .inl rfl
  | undefined name _ _ lexeme =>
    cases group with
    | undefinedConstants => exact .inr ⟨_, ⟨rfl, lexeme ▸ .undefinedConstant name, rfl⟩, rfl⟩
    | _ => exact .inl rfl
  | broken _ _ lexeme =>
    cases group with
    | structural => exact .inr ⟨_, ⟨rfl, lexeme ▸ .brokenDefinition, rfl⟩, rfl⟩
    | _ => exact .inl rfl
  | overclosed _ lexeme =>
    cases group with
    | structural => exact .inr ⟨_, ⟨rfl, lexeme ▸ .tooManyClosed, rfl⟩, rfl⟩
    | _ => exact .inl rfl
  | arrayNested _ lexeme =>
    cases group with
    | structural => exact .inr ⟨_, ⟨rfl, lexeme ▸ .arrayInArray, rfl⟩, rfl⟩
    | _ => exact .inl rfl
  | arrayOverclosed _ lexeme =>
    cases group with
    | structural => exact .inr ⟨_, ⟨rfl, lexeme ▸ .noArrayToClose, rfl⟩, rfl⟩
    | _ => exact .inl rfl

/-- The problems of a group are noted at some of the tokens, in their order. -/
theorem exists_noted_scan (place : Int → Position) (p : Progress) (tokens : List Token)
    (group : Finding.Group) :
    ∃ noted, (scan place p tokens).problems group = p.index.problems group ++ noted ∧
      List.SublistForall₂ (Problem.NotedAt place group) noted tokens := by
  induction tokens generalizing p with
  | nil => exact ⟨[], (List.append_nil _).symm, .nil⟩
  | cons token ahead ih =>
    obtain ⟨noted, found, places⟩ := ih (step place p token ahead)
    rw [scan, found]
    rcases problems_of_transition (transition_step place p token ahead) group with
      same | ⟨problem, here, added⟩
    · exact ⟨noted, by rw [same], .cons_right places⟩
    · refine ⟨problem :: noted, ?_, .cons here places⟩
      rw [added, List.append_assoc, List.singleton_append]

/-- Only a definition changes what constants are known. -/
theorem constants_of_transition (h : Transition place p token ahead q) :
    q.index.constants = p.index.constants ∨
    ∃ key offset kind, definition? ahead = some (key, offset, kind) ∧
      q.index.constants = p.index.constants.insert key ⟨kind, place offset⟩ := by
  cases h with
  | defined key offset kind _ _ _ form => exact .inr ⟨key, offset, kind, form, rfl⟩
  | _ => exact .inl rfl

/-- A constant is placed at a token that is its name. -/
theorem exists_key_of_mem_constants {entry : Text × Constant}
    (h : entry ∈ (scan place p tokens).constants.entries) :
    entry ∈ p.index.constants.entries ∨
    ∃ t ∈ tokens, t.lexeme = .identifier entry.1 ∧ entry.2.place = place t.offset := by
  induction tokens generalizing p with
  | nil => exact .inl h
  | cons token ahead ih =>
    rcases ih h with known | ⟨t, member, lexeme, here⟩
    · rcases constants_of_transition (transition_step place p token ahead) with
        same | ⟨key, offset, kind, form, inserted⟩
      · exact .inl (same ▸ known)
      · rw [inserted] at known
        rcases OrderedMap.mem_insert known with rfl | earlier
        · obtain ⟨key', _, _, _, _, rfl, rfl, -, -⟩ := eq_of_definition? form
          exact .inr ⟨_, List.mem_cons_of_mem token List.mem_cons_self, rfl, rfl⟩
        · exact .inl earlier
    · exact .inr ⟨t, List.mem_cons_of_mem token member, lexeme, here⟩

end Index

/-! ## §2 Tokens and characters -/

namespace Token

private theorem offset_toNat_lt {other : Token} (h : t ∈ read text)
    (before : t.offset < other.offset) :
    t.offset.toNat < other.offset.toNat := by
  obtain ⟨front, _, _, _, offset, -⟩ := exists_split_of_mem_read h
  omega

theorem isNameLetter_of_reads {kind : TokenKind} {lexeme : Lexeme}
    (reads : Candidate.Reads kind text lexeme) (same : lexeme = .identifier name) :
    ∀ c ∈ name, isNameLetter c = true := by
  cases reads with
  | name run all =>
    cases same
    exact all
  | mark m => cases m <;> cases same
  | _ => cases same

/-- The text has a name at the place of its token. -/
theorem excerpt?_of_identifier (h : t ∈ read text) (lexeme : t.lexeme = .identifier name) :
    excerpt? text (.ofOffset text t.offset.toNat) name.length = some name := by
  obtain ⟨before, front, behind, rfl, offset, -, -, reads⟩ := exists_split_of_mem_read h
  obtain rfl := reads.eq_name lexeme
  have oneLine : .char '\n' ∉ front := fun member =>
    absurd (isNameLetter_of_reads reads lexeme _ member) (by decide)
  rw [offset, Int.toNat_natCast]
  refine Position.excerpt?_of_prefix ?_ ?_ oneLine
  · rw [List.drop_left]
    exact List.prefix_append front behind
  · rw [List.length_append]
    exact Nat.le_add_right _ _

/-- A token that is no white space starts with a character of one line. -/
theorem exists_first_of_mem_read (h : t ∈ read text) (solid : t.lexeme.isBlank = false) :
    ∃ before c behind, text = before ++ c :: behind ∧ t.offset = before.length ∧
      excerpt? text (.ofOffset text before.length) 1 = some [c] := by
  obtain ⟨before, front, behind, rfl, offset, some, length, reads⟩ := exists_split_of_mem_read h
  cases front with
  | nil => exact absurd rfl some
  | cons c more =>
    -- the kind reads the text here, so it starts with the first character
    have starts : t.kind.starts c = true := by
      by_contra silent
      rw [List.cons_append,
        TokenKind.matchLength_eq_zero (Bool.eq_false_iff.mpr silent)] at length
      cases length
    have notBlank : t.kind ≠ .whitespace := by
      rw [kind]
      cases lexeme : t.lexeme with
      | whitespace _ => simp [lexeme, Lexeme.isBlank] at solid
      | _ => exact nofun
    -- and of all kinds only white space starts with a line feed
    have notFeed : .char '\n' ∉ [c] := by
      intro member
      have feed : isBlank (.char '\n') = true := by decide
      rw [← List.mem_singleton.mp member, TokenKind.starts_of_isBlank feed notBlank] at starts
      cases starts
    refine ⟨before, c, more ++ behind, rfl, offset, ?_⟩
    refine Position.excerpt?_of_prefix ⟨more ++ behind, ?_⟩ ?_ notFeed
    · rw [List.drop_left]
      rfl
    · rw [List.length_append]
      exact Nat.le_add_right _ _

end Token

/-! ## §3 The findings of a text -/

/-- A problem is placed on the first character of the token, and spans just that character. -/
def Problem.SitsOn (text : Text) (problem : Problem) (t : Token) : Prop :=
  t ∈ Token.read text ∧ ∃ before c behind, text = before ++ c :: behind ∧
    t.offset = before.length ∧ problem.place = .ofOffset text before.length ∧
    excerpt? text problem.place problem.finding.length = some [c]

namespace Index

/-- What stands in a text, split at its line feeds, at the places that an index tells. -/
structure Located (text : Text) (index : Index) : Prop where
  /-- An unknown function spans the name that its message quotes. -/
  unknownFunctions : ∀ problem ∈ index.unknownFunctions, ∃ name : Text,
    problem.finding.message = "Unknown function '" ++ name ++ "'" ∧
    excerpt? text problem.place problem.finding.length = some name
  /-- An undefined constant spans the name that its message quotes. -/
  undefinedConstants : ∀ problem ∈ index.undefinedConstants, ∃ name : Text,
    problem.finding.message = "Undefined constant '" ++ name ++ "'" ∧
    excerpt? text problem.place problem.finding.length = some name
  /-- A constant spans its name. -/
  constants : ∀ entry ∈ index.constants.entries,
    excerpt? text entry.2.place entry.1.length = some entry.1
  /-- A broken definition spans its word, and any other problem of form sits on a paren or a
  bracket. -/
  structural : ∀ problem ∈ index.structural,
    (problem.finding = .brokenDefinition ∧
      excerpt? text problem.place problem.finding.length = some definitionWord) ∨
    ∃ mark : Mark, problem.finding.About mark.lexeme ∧
      ∃ t, t.lexeme = mark.lexeme ∧ problem.SitsOn text t
  /-- An ignored value sits on a literal. -/
  ignoredValues : ∀ problem ∈ index.ignoredValues, problem.finding = .ignoredValue ∧
    ∃ t, t.lexeme.isLiteral = true ∧ problem.SitsOn text t
  /-- In each list every problem is placed behind those in front of it. -/
  ordered : ∀ group, ((index.problems group).map Problem.place).Pairwise (· < ·)

/-- The problems of a text are noted at tokens of the text, in their order. -/
theorem noted_ofText (text : Text) (group : Finding.Group) :
    List.SublistForall₂ (Problem.NotedAt (placeIn text) group)
      ((ofText text).problems group) (Token.significant (Token.read text)) := by
  obtain ⟨noted, found, places⟩ :=
    exists_noted_scan (placeIn text) {} (Token.significant (Token.read text)) group
  have same : (ofText text).problems group = noted := by
    calc (ofText text).problems group
        = (scan (placeIn text) {} (Token.significant (Token.read text))).problems group := by
          rw [ofText_eq]
          cases group <;> rfl
      _ = ({} : Index).problems group ++ noted := found
      _ = noted := by cases group <;> rfl
  rwa [same]

/-- A constant of a text is placed at a token of the text that is its name. -/
theorem exists_key_of_constants_ofText {entry : Text × Constant}
    (h : entry ∈ (ofText text).constants.entries) :
    ∃ t ∈ Token.significant (Token.read text),
      t.lexeme = .identifier entry.1 ∧ entry.2.place = placeIn text t.offset := by
  rw [ofText_eq] at h
  rcases exists_key_of_mem_constants h with none | key
  · cases none
  · exact key

/-- A problem of a text is noted at a token of the text. -/
theorem exists_noted_of_mem (group : Finding.Group) (h : problem ∈ (ofText text).problems group) :
    ∃ t ∈ Token.significant (Token.read text),
      problem.NotedAt (placeIn text) group t := by
  have places := noted_ofText text group
  generalize (ofText text).problems group = noted at h places
  generalize Token.significant (Token.read text) = tokens at places
  induction places with
  | nil => cases h
  | cons here _ ih =>
    rcases List.mem_cons.mp h with rfl | later
    · exact ⟨_, List.mem_cons_self, here⟩
    · obtain ⟨t, member, noted⟩ := ih later
      exact ⟨t, List.mem_cons_of_mem _ member, noted⟩
  | cons_right _ ih =>
    obtain ⟨t, member, noted⟩ := ih h
    exact ⟨t, List.mem_cons_of_mem _ member, noted⟩

private theorem pairwise_place (text : Text) (group : Finding.Group) :
    (((ofText text).problems group).map Problem.place).Pairwise (· < ·) := by
  obtain ⟨ts, places, part⟩ := List.sublistForall₂_iff.mp (noted_ofText text group)
  replace part := part.trans List.filter_sublist
  have same : ((ofText text).problems group).map Problem.place
      = ts.map fun t => placeIn text t.offset := by
    rw [← List.forall₂_eq_eq_eq, List.forall₂_map_left_iff, List.forall₂_map_right_iff]
    exact places.imp fun _ _ noted => noted.place
  rw [same]
  refine List.pairwise_map.mpr (((Token.pairwise_read text).sublist part).imp_of_mem ?_)
  intro t other member _ before
  exact Position.ofOffset_lt_ofOffset text (Token.offset_toNat_lt (part.subset member) before)

private theorem excerpt?_of_notedAt {group : Finding.Group}
    (member : t ∈ Token.significant (Token.read text))
    (noted : problem.NotedAt (placeIn text) group t)
    (lexeme : t.lexeme = .identifier name) :
    excerpt? text problem.place name.length = some name := by
  rw [noted.place]
  exact Token.excerpt?_of_identifier (List.mem_of_mem_filter member) lexeme

private theorem sitsOn_of_notedAt {group : Finding.Group}
    (member : t ∈ Token.significant (Token.read text))
    (noted : problem.NotedAt (placeIn text) group t)
    (one : problem.finding.length = 1) : problem.SitsOn text t := by
  obtain ⟨inText, solid⟩ := List.mem_filter.mp member
  rw [Bool.not_eq_true'] at solid
  obtain ⟨before, c, behind, split, offset, found⟩ := Token.exists_first_of_mem_read inText solid
  have here : problem.place = .ofOffset text before.length := by
    rw [noted.place, placeIn, offset, Int.toNat_natCast]
  exact ⟨inText, before, c, behind, split, offset, here, by rw [one, here, found]⟩

/-- **Places of findings.** At each place that the index of a text tells, the text has what is told
of it, and in every list the places are in the order of the text. -/
theorem located_ofText (text : Text) : (ofText text).Located text where
  -- In each list the problem was noted at a token, and by its group it is about a token of that
  -- kind.
  unknownFunctions problem member := by
    obtain ⟨t, inText, noted⟩ := exists_noted_of_mem .unknownFunctions member
    obtain ⟨group, about, -⟩ := id noted
    have spans (name : Text) (lexeme : t.lexeme = .identifier name) :=
      excerpt?_of_notedAt inText noted lexeme
    obtain ⟨finding, _⟩ := problem
    generalize lexeme : t.lexeme = said at about spans
    cases about with
    | unknownFunction name => exact ⟨name, rfl, spans name rfl⟩
    | _ => cases group
  undefinedConstants problem member := by
    obtain ⟨t, inText, noted⟩ := exists_noted_of_mem .undefinedConstants member
    obtain ⟨group, about, -⟩ := id noted
    have spans (name : Text) (lexeme : t.lexeme = .identifier name) :=
      excerpt?_of_notedAt inText noted lexeme
    obtain ⟨finding, _⟩ := problem
    generalize lexeme : t.lexeme = said at about spans
    cases about with
    | undefinedConstant name => exact ⟨name, rfl, spans name rfl⟩
    | _ => cases group
  constants entry member := by
    obtain ⟨t, inText, lexeme, here⟩ := exists_key_of_constants_ofText member
    rw [here]
    exact Token.excerpt?_of_identifier (List.mem_of_mem_filter inText) lexeme
  -- Problems of form are about the word of a definition or about a mark.
  structural problem member := by
    obtain ⟨t, inText, noted⟩ := exists_noted_of_mem .structural member
    obtain ⟨group, about, -⟩ := id noted
    have sits := sitsOn_of_notedAt inText noted
    have spans (lexeme : t.lexeme = .identifier definitionWord) :=
      excerpt?_of_notedAt inText noted lexeme
    obtain ⟨finding, _⟩ := problem
    generalize lexeme : t.lexeme = said at about spans
    cases about with
    | brokenDefinition => exact .inl ⟨rfl, spans rfl⟩
    | tooManyClosed => exact .inr ⟨.closeParen, .tooManyClosed, t, lexeme, sits rfl⟩
    | arrayInArray => exact .inr ⟨.openBracket, .arrayInArray, t, lexeme, sits rfl⟩
    | noArrayToClose => exact .inr ⟨.closeBracket, .noArrayToClose, t, lexeme, sits rfl⟩
    | _ => cases group
  ignoredValues problem member := by
    obtain ⟨t, inText, noted⟩ := exists_noted_of_mem .ignoredValues member
    obtain ⟨group, about, -⟩ := id noted
    have sits := sitsOn_of_notedAt inText noted
    obtain ⟨finding, _⟩ := problem
    generalize lexeme : t.lexeme = said at about
    cases about with
    | ignoredValue kind value => exact ⟨rfl, t, by rw [lexeme]; rfl, sits rfl⟩
    | _ => cases group
  ordered group := pairwise_place text group

end Index

end PrefixCalc
