import MiniTriangle.Proofs.Completions
import MiniTriangle.Proofs.ParserBounds

/-! Syntax errors are found at the first token that no program can have there. Where parsing fails, the tokens
passed so far are the start of a program, the cause of the failure is the token that follows them, and a token is
missing only at the end of the text. -/

namespace MiniTriangle.Parse

open Sequencing Filling

/-- A parameter is passed with its type, or without one at the end of the text. -/
private theorem parameter_leaves {stream final : Stream} {tree : Tree} (ran : parameter stream = .ok tree final) :
    ∃ i c, i.kind = .identifier ∧ c.kind = .colon ∧
      ((∃ t, Passes stream [i, c, t] final ∧ tree = .parameter (.atom i.value) (.typeName (.atom t.value))) ∨
        Passes stream [i, c] final ∧ final.current.kind = .endOfText) := by
  simp only [parameter, bind_eq_ok] at ran
  obtain ⟨name, afterName, named, _, afterColon, colon, type, _, typed, ran⟩ := ran
  cases ran
  obtain ⟨nameKind, rfl, first⟩ := identifier_passes named
  obtain ⟨colonKind, second⟩ := accept_passes colon (by decide)
  refine ⟨_, _, nameKind, colonKind, ?_⟩
  obtain ⟨rfl, ⟨atEnd, rfl⟩ | third⟩ := typeName_passes typed
  · exact .inr ⟨first.trans second, atEnd⟩
  · exact .inl ⟨_, first.trans (second.trans third), rfl⟩

private theorem parameter_stops {stream : Stream} {viable : List Token → Prop} (nothing : viable [])
    (named : ∀ i, i.kind = .identifier → viable [i]) : Stops parameter stream viable := by
  refine Stops.identifier_then nothing fun i afterName isName _ => ?_
  refine Stops.accept_then (by decide) (named i isName) fun c afterColon _ _ => ?_
  exact Stops.token_then (fun _ => .pure _) fun _ _ _ => .pure _

private theorem moreParameters_leave {bound : Nat} {stream final : Stream} {list tree : Tree} {before : List Token}
    (ran : moreParametersWithin bound list stream = .ok tree final)
    (start : Derives .parameters before list ∨ Viable .parameters before ∧ stream.current.kind = .endOfText) :
    ∃ row, Passes stream row final ∧ Viable .parameters (before ++ row) := by
  induction bound generalizing stream list before with
  | zero => cases ran
  | succ bound ih =>
    rw [moreParametersWithin, current_bind] at ran
    split at ran
    next comma =>
      obtain derived | ⟨_, atEnd⟩ := start
      · simp only [bind_eq_ok] at ran
        obtain ⟨_, afterComma, advanced, next, afterNext, parameterRan, ran⟩ := ran
        have first := advance_passes advanced (by simp [comma])
        obtain ⟨i, c, named, colon, ⟨t, second, rfl⟩ | ⟨second, ended⟩⟩ := parameter_leaves parameterRan
        · obtain ⟨row, third, viable⟩ := ih ran (.inl (.moreParameters (t := t) derived comma named colon))
          exact ⟨_, first.trans (second.trans third), by simpa using viable⟩
        · have partly : Viable .parameters (before ++ [stream.current, i, c]) :=
            ⟨[word], _, by simpa using Derives.moreParameters (t := word) derived comma named colon, by decide⟩
          obtain ⟨row, third, viable⟩ := ih ran (.inr ⟨partly, ended⟩)
          exact ⟨_, first.trans (second.trans third), by simpa using viable⟩
      · rw [comma] at atEnd
        cases atEnd
    next =>
      cases ran
      refine ⟨[], .none, ?_⟩
      rw [List.append_nil]
      obtain derived | ⟨viable, _⟩ := start
      · exact .of_derives derived (by decide)
      · exact viable

/-- Parameters that are parsed have been passed, but for a type that is missing at the end of the text. -/
theorem parameters_leave {stream final : Stream} {tree : Tree} (ran : parameters stream = .ok tree final) :
    ∃ row, Passes stream row final ∧ Viable .parameters row := by
  obtain ⟨first, middle, firstRan, moreRan⟩ := bind_eq_ok.mp ran
  obtain ⟨i, c, named, colon, ⟨t, moved, rfl⟩ | ⟨moved, ended⟩⟩ := parameter_leaves firstRan
  · obtain ⟨row, onward, viable⟩ := moreParameters_leave moreRan (.inl (.oneParameter named colon))
    exact ⟨_, moved.trans onward, viable⟩
  · have partly : Viable .parameters [i, c] := ⟨[word], _, .oneParameter named colon, by decide⟩
    obtain ⟨row, onward, viable⟩ := moreParameters_leave moreRan (.inr ⟨partly, ended⟩)
    exact ⟨_, moved.trans onward, viable⟩

/-- At the end of the text the loop stops without failing. -/
private theorem moreParameters_atEnd (bound : Nat) {list : Tree} {stream : Stream} {viable : List Token → Prop}
    (ended : stream.current.kind = .endOfText) : Stops (moreParametersWithin bound list) stream viable := by
  cases bound with
  | zero => exact .endless
  | succ bound =>
    rw [moreParametersWithin]
    apply Stops.current
    rw [if_neg (by simp [ended])]
    exact .pure _

private theorem moreParameters_stop (bound : Nat) {list : Tree} {before : List Token} (stream : Stream)
    (derived : Derives .parameters before list) :
    Stops (moreParametersWithin bound list) stream fun row => Viable .parameters (before ++ row) := by
  induction bound generalizing stream list before with
  | zero => exact .endless
  | succ bound ih =>
    rw [moreParametersWithin]
    apply Stops.current
    split
    next comma =>
      refine Stops.advance_then (by simp [comma]) fun middle _ => ?_
      refine (parameter_stops ?_ ?_).bind fun next afterNext ran => ?_
      · exact ⟨wordParameter, _, by simpa [wordParameter] using .moreParameters derived comma rfl rfl, by decide⟩
      · intro i named
        exact ⟨[mark .colon, word], _, by simpa using .moreParameters derived comma named rfl, by decide⟩
      · obtain ⟨i, c, named, colon, ⟨t, moved, rfl⟩ | ⟨moved, ended⟩⟩ := parameter_leaves ran
        · have goesOn := ih afterNext (.moreParameters (t := t) derived comma named colon)
          exact ⟨_, moved, by simpa using goesOn⟩
        · exact ⟨_, moved, moreParameters_atEnd bound ended⟩
    next => exact .pure _

theorem parameters_stop (stream : Stream) : Stops parameters stream (Viable .parameters) := by
  refine (parameter_stops ?_ ?_).bind fun first middle ran => ?_
  · exact ⟨wordParameter, _, derives_parameters, by decide⟩
  · intro i named
    exact ⟨[mark .colon, word], _, .oneParameter named rfl, by decide⟩
  · obtain ⟨i, c, named, colon, ⟨t, moved, rfl⟩ | ⟨moved, ended⟩⟩ := parameter_leaves ran
    · exact ⟨_, moved, Stops.bounded fun bound => moreParameters_stop bound middle (.oneParameter named colon)⟩
    · exact ⟨_, moved, Stops.bounded fun bound => moreParameters_atEnd bound ended⟩

private theorem viable_constant {k i e : Token} {row : List Token} (opens : k.kind = .kwConst)
    (named : i.kind = .identifier) (equals : e.kind = .tilde) (viable : ViableValue .expression row) :
    Viable .declarations (k :: i :: e :: row) := by
  refine viable.inside.within (fun part => k :: i :: e :: part) (by simp) (·.append (by decide : Inside [mark .semicolon])) ?_
  intro whole tree derived
  exact ⟨_, .constDeclaration opens named equals derived rfl .noDeclaration⟩

theorem declaration_stops (stream : Stream) : Stops declaration stream (Viable .declarations) := by
  rw [declaration]
  apply Stops.current
  split
  next kind =>
    refine Stops.advance_then (by simp [kind]) fun afterConst _ => ?_
    refine Stops.identifier_then ?_ fun i afterName named _ => ?_
    · exact ⟨[word, mark .tilde, word, mark .semicolon], _,
        .constDeclaration kind rfl rfl derives_expression rfl .noDeclaration, by decide⟩
    refine Stops.accept_then (by decide) ?_ fun e afterEquals equals _ => ?_
    · exact ⟨[mark .tilde, word, mark .semicolon], _,
        .constDeclaration kind named rfl derives_expression rfl .noDeclaration, by decide⟩
    refine Stops.phrase reads_expression (expression_stops afterEquals) fun row viable => ?_
    exact viable_constant kind named equals viable
  next kind =>
    refine Stops.advance_then (by simp [kind]) fun afterVar _ => ?_
    refine Stops.identifier_then ?_ fun i afterName named _ => ?_
    · exact ⟨[word, mark .colon, word, mark .semicolon], _, .varDeclaration kind rfl rfl rfl .noDeclaration, by decide⟩
    refine Stops.accept_then (by decide) ?_ fun c afterColon _ _ => ?_
    · exact ⟨[mark .colon, word, mark .semicolon], _, .varDeclaration kind named rfl rfl .noDeclaration, by decide⟩
    exact Stops.token_then (fun _ => .pure _) fun _ _ _ => .pure _
  next => exact Stops.reject (.of_derives .noDeclaration (by decide))

/-- A declaration that is parsed has been passed, but for a type that is missing at the end of the text. -/
theorem declaration_leaves {stream final : Stream} {tree : Tree} (ran : declaration stream = .ok tree final) :
    ∃ row, Passes stream row final ∧ Viable .declarations row := by
  rw [declaration, current_bind] at ran
  generalize kind : stream.current.kind = found at ran
  split at ran
  next =>
    simp only [bind_eq_ok] at ran
    obtain ⟨_, _, advanced, name, _, named, _, _, equals, value, _, valued, ran⟩ := ran
    cases ran
    have first := advance_passes advanced (by simp [kind])
    obtain ⟨nameKind, rfl, second⟩ := identifier_passes named
    obtain ⟨equalsKind, third⟩ := accept_passes equals (by decide)
    obtain ⟨row, fourth, derived⟩ := reads_expression valued
    exact ⟨_, first.trans (second.trans (third.trans fourth)),
      viable_constant kind nameKind equalsKind (.of_derives derived (by decide))⟩
  next =>
    simp only [bind_eq_ok] at ran
    obtain ⟨_, _, advanced, name, _, named, _, _, colon, type, _, typed, ran⟩ := ran
    cases ran
    have first := advance_passes advanced (by simp [kind])
    obtain ⟨nameKind, rfl, second⟩ := identifier_passes named
    obtain ⟨colonKind, third⟩ := accept_passes colon (by decide)
    obtain ⟨rfl, ⟨atEnd, rfl⟩ | fourth⟩ := typeName_passes typed
    · exact ⟨_, first.trans (second.trans third), [word, mark .semicolon], _,
        .varDeclaration kind nameKind colonKind rfl .noDeclaration, by decide⟩
    · exact ⟨_, first.trans (second.trans (third.trans fourth)), [mark .semicolon], _,
        .varDeclaration kind nameKind colonKind rfl .noDeclaration, by decide⟩
  next => cases reject_ne_ok ran

private theorem function_stops {bound : Nat} (single : ∀ stream, Stops (singleWithin bound) stream (Viable .single))
    {stream : Stream} (kind : stream.current.kind = .kwFunc) :
    Stops (functionWithin (bound + 1)) stream (Viable .declarations) := by
  rw [functionWithin]
  refine Stops.advance_then (by simp [kind]) fun afterFunc _ => ?_
  refine Stops.identifier_then ?_ fun i afterName named _ => ?_
  · exact ⟨word :: mark .leftParen :: (wordParameter ++ mark .rightParen :: mark .colon :: word :: wordCommand), _,
      .funcDeclaration kind rfl rfl derives_parameters rfl rfl derives_single .noDeclaration, by decide⟩
  refine Stops.accept_then (by decide) ?_ fun o afterOpen opens _ => ?_
  · exact ⟨mark .leftParen :: (wordParameter ++ mark .rightParen :: mark .colon :: word :: wordCommand), _,
      .funcDeclaration kind named rfl derives_parameters rfl rfl derives_single .noDeclaration, by decide⟩
  have listed (row : List Token) (viable : Viable .parameters row) : Viable .declarations (stream.current :: i :: o :: row) := by
    refine viable.within (fun part => stream.current :: i :: o :: part) (by simp)
      (·.append (by decide : Inside (mark .rightParen :: mark .colon :: word :: wordCommand))) ?_
    intro whole tree derived
    exact ⟨_, .funcDeclaration kind named opens derived rfl rfl derives_single .noDeclaration⟩
  refine ((parameters_stop afterOpen).mono fun row _ _ => listed row).bind fun list afterList ran => ?_
  obtain ⟨partly, movedPartly, viable⟩ := parameters_leave ran
  refine ⟨partly, movedPartly, ?_⟩
  refine Stops.accept_then (by decide) ?_ fun c afterClose closes movedClose => ?_
  · rw [List.append_nil]
    exact listed partly viable
  obtain ⟨row, moved, derived⟩ := parameters_passes ran (by rw [(current_of_passes movedClose).1, closes]; decide)
  cases movedPartly.same_row moved
  refine Stops.accept_then (by decide) ?_ fun k afterColon colon _ => ?_
  · exact .of_split (.funcDeclaration (k := mark .colon) (t := word) kind named opens derived closes rfl derives_single .noDeclaration)
      (by decide : Inside (mark .colon :: word :: wordCommand)) (by simp [wordCommand])
  refine Stops.token_then (fun atEnd => ?_) fun afterType _ _ => ?_
  · -- Without a type there is no token left for the body.
    refine Stops.phrase (commands_sound bound).single ((single afterColon).mono fun row final moved _ => ?_) fun row same => same
    cases row with
    | nil =>
      exact .of_split (.funcDeclaration (t := word) kind named opens derived closes colon derives_single .noDeclaration)
        (by decide : Inside (word :: wordCommand)) (by simp [wordCommand])
    | cons token rest => exact absurd atEnd ((current_of_passes moved).1 ▸ (current_of_passes moved).2)
  · refine Stops.phrase (commands_sound bound).single (single afterType) fun row viable => ?_
    have joined : Viable .declarations (stream.current :: i :: o :: (partly ++ c :: k :: afterColon.current :: row)) := by
      refine viable.last (fun part => stream.current :: i :: o :: (partly ++ c :: k :: afterColon.current :: part)) (by simp) ?_
      intro whole tree body
      have declared := Derives.funcDeclaration (t := afterColon.current) kind named opens derived closes colon body .noDeclaration
      rw [List.append_nil] at declared
      exact ⟨_, declared⟩
    exact joined

theorem simpleCommand_stops (stream : Stream) : Stops simpleCommand stream (Viable .simple) := by
  rw [simpleCommand]
  apply Stops.current
  refine Stops.lookahead_then viable_simple_nil fun next ahead inside => ?_
  have assigned (t : Token) : Viable .simple [t] := ⟨[mark .becomes, word], _, .assignment rfl derives_expression, by decide⟩
  split
  next =>
    refine Stops.token_then (fun atEnd => absurd atEnd inside) fun afterName _ _ => ?_
    refine Stops.accept_then (by decide) (assigned _) fun b afterBecomes becomes _ => ?_
    refine Stops.phrase reads_expression (expression_stops afterBecomes) fun row viable => ?_
    refine viable.inside.last (fun part => stream.current :: b :: part) (by simp) ?_
    intro whole tree derived
    exact ⟨_, .assignment becomes derived⟩
  next =>
    split
    next =>
      refine callOf_stops reads_arguments arguments_stop viable_simple_nil (fun f _ => assigned f) ?_
      intro f o named opens row viable
      refine viable.inside.within (fun part => f :: o :: part) (by simp) (·.append (by decide : Inside [mark .rightParen])) ?_
      intro whole tree derived
      exact ⟨_, .callCommand named opens derived rfl⟩
    next other =>
      split
      next returns =>
        refine Stops.advance_then inside fun afterReturn moved => ?_
        refine Stops.phrase reads_expression ((expression_stops afterReturn).mono fun row final onward viable => ?_) fun row same => same
        obtain ⟨more, tree, derived, plain⟩ := viable
        refine ⟨more, _, .returning returns derived ?_, plain.1⟩
        -- The value starts with the token that was looked at, or with a token of the completion.
        intro token found
        cases row with
        | nil => exact plain.2 token found
        | cons first rest =>
          cases found
          rw [second_of_passes (moved.trans onward) ahead token rfl]
          exact other
      next => exact Stops.reject viable_simple_nil

private theorem viable_singleSimple {row : List Token} (viable : Viable .simple row)
    (other : ∀ token ∈ row.head?, ¬ token.kind.StartsBlock) : Viable .single row := by
  cases row with
  | nil => exact viable_single_nil
  | cons first rest =>
    obtain ⟨more, tree, derived, inside⟩ := viable
    refine ⟨more ++ [mark .semicolon], tree, ?_, inside.append (by decide)⟩
    rw [← List.append_assoc]
    exact .singleSimple derived other rfl

private theorem head_of_passes {stream final : Stream} {row : List Token} (moved : Passes stream row final) :
    ∀ token ∈ row.head?, token = stream.current := by
  intro token found
  obtain ⟨rest, rfl⟩ := List.head?_eq_some_iff.mp found
  exact (current_of_passes moved).1.symm

structure CommandsStop (bound : Nat) : Prop where
  block : ∀ stream, Stops (blockWithin bound) stream (Viable .block)
  single : ∀ stream, Stops (singleWithin bound) stream (Viable .single)
  command : ∀ stream, Stops (commandWithin bound) stream (Viable .command)
  declarations : ∀ stream, Stops (declarationsWithin bound) stream (Viable .declarations)
  function : ∀ {stream}, stream.current.kind = .kwFunc → Stops (functionWithin bound) stream (Viable .declarations)

private theorem block_stops {bound : Nat} (ih : CommandsStop bound) (stream : Stream) :
    Stops (blockWithin (bound + 1)) stream (Viable .block) := by
  have sound := commands_sound bound
  rw [blockWithin]
  apply Stops.current
  split
  next kind =>
    have tested (row : List Token) (viable : Viable .expression row) : Viable .block (stream.current :: row) := by
      refine viable.within (stream.current :: ·) (by simp)
        (·.append (by decide : Inside (mark .kwThen :: (wordCommand ++ mark .kwElse :: wordCommand)))) ?_
      intro whole tree derived
      exact ⟨_, .conditional kind derived rfl derives_single rfl derives_single⟩
    refine Stops.advance_then (by simp [kind]) fun afterIf _ => ?_
    refine Stops.phrase_then reads_expression (expression_stops afterIf) (fun row viable => tested row viable.inside)
      fun test testRow afterTest testDerived _ => ?_
    refine Stops.accept_then (by decide) ?_ fun t afterThen thens _ => ?_
    · rw [List.append_nil]
      exact tested testRow (.of_derives testDerived (by decide))
    have taken (row : List Token) (viable : Viable .single row) : Viable .block (stream.current :: (testRow ++ t :: row)) := by
      refine viable.within (fun part => stream.current :: (testRow ++ t :: part)) (by simp)
        (·.append (by decide : Inside (mark .kwElse :: wordCommand))) ?_
      intro whole tree derived
      exact ⟨_, .conditional kind testDerived thens derived rfl derives_single⟩
    refine Stops.phrase_then sound.single (ih.single afterThen) taken fun yes yesRow afterYes yesDerived _ => ?_
    refine Stops.accept_then (by decide) ?_ fun e afterElse elses _ => ?_
    · rw [List.append_nil]
      exact taken yesRow (.of_derives yesDerived (by decide))
    refine Stops.phrase sound.single (ih.single afterElse) fun row viable => ?_
    refine viable.last (fun part => stream.current :: (testRow ++ t :: (yesRow ++ e :: part))) (by simp) ?_
    intro whole tree derived
    exact ⟨_, .conditional kind testDerived thens yesDerived elses derived⟩
  next kind =>
    have tested (row : List Token) (viable : Viable .expression row) : Viable .block (stream.current :: row) := by
      refine viable.within (stream.current :: ·) (by simp) (·.append (by decide : Inside (mark .kwDo :: wordCommand))) ?_
      intro whole tree derived
      exact ⟨_, .loop kind derived rfl derives_single⟩
    refine Stops.advance_then (by simp [kind]) fun afterWhile _ => ?_
    refine Stops.phrase_then reads_expression (expression_stops afterWhile) (fun row viable => tested row viable.inside)
      fun test testRow afterTest testDerived _ => ?_
    refine Stops.accept_then (by decide) ?_ fun d afterDo does _ => ?_
    · rw [List.append_nil]
      exact tested testRow (.of_derives testDerived (by decide))
    refine Stops.phrase sound.single (ih.single afterDo) fun row viable => ?_
    refine viable.last (fun part => stream.current :: (testRow ++ d :: part)) (by simp) ?_
    intro whole tree derived
    exact ⟨_, .loop kind testDerived does derived⟩
  next kind =>
    have declares (row : List Token) (viable : Viable .declarations row) : Viable .block (stream.current :: row) := by
      refine viable.within (stream.current :: ·) (by simp) (·.append (by decide : Inside (mark .kwIn :: wordCommand))) ?_
      intro whole tree derived
      exact ⟨_, .scope kind derived rfl derives_single⟩
    refine Stops.advance_then (by simp [kind]) fun afterLet _ => ?_
    refine Stops.phrase_then sound.declarations (ih.declarations afterLet) declares
      fun declared declaredRow afterDeclared declaredDerived _ => ?_
    refine Stops.accept_then (by decide) ?_ fun i afterIn ins _ => ?_
    · rw [List.append_nil]
      exact declares declaredRow (.of_derives declaredDerived (by decide))
    refine Stops.phrase sound.single (ih.single afterIn) fun row viable => ?_
    refine viable.last (fun part => stream.current :: (declaredRow ++ i :: part)) (by simp) ?_
    intro whole tree derived
    exact ⟨_, .scope kind declaredDerived ins derived⟩
  next kind =>
    have closing (row : List Token) (viable : Viable .command row) : Viable .block (stream.current :: row) := by
      refine viable.within (stream.current :: ·) (by simp) (·.append (by decide : Inside [mark .kwEnd])) ?_
      intro whole tree derived
      exact ⟨_, .compound kind derived rfl⟩
    refine Stops.advance_then (by simp [kind]) fun afterBegin _ => ?_
    refine Stops.phrase_then sound.command (ih.command afterBegin) closing fun inner row afterInner derived _ => ?_
    refine Stops.accept_then (by decide) ?_ fun e final _ _ => .pure _
    rw [List.append_nil]
    exact closing row (.of_derives derived (by decide))
  next =>
    exact Stops.reject ⟨mark .kwBegin :: (wordCommand ++ [mark .kwEnd]), _, .compound rfl (.lastSingle derives_single) rfl, by decide⟩

theorem function_extends {bound : Nat} {stream final : Stream} {tree : Tree} (kind : stream.current.kind = .kwFunc)
    (ran : functionWithin bound stream = .ok tree final) :
    ∃ row, Passes stream row final ∧ ∀ others rest, Derives .declarations others rest →
      Derives .declarations (row ++ others) (.declarations tree rest) := by
  cases bound with
  | zero => cases ran
  | succ bound => exact function_passes (commands_sound bound) kind ran

private theorem declarations_stop {bound : Nat} (ih : CommandsStop bound) (stream : Stream) :
    Stops (declarationsWithin (bound + 1)) stream (Viable .declarations) := by
  have sound := commands_sound bound
  have ended : Stops (do
      let first ← declaration
      accept .semicolon
      return Tree.declarations first (← declarationsWithin bound)) stream (Viable .declarations) := by
    refine (declaration_stops stream).bind fun first afterFirst declared => ?_
    obtain ⟨partly, moved, viable⟩ := declaration_leaves declared
    refine ⟨partly, moved, (Stops.accept (by rwa [List.append_nil])).bind fun _ afterClose closed => ?_⟩
    obtain ⟨closes, passed⟩ := accept_passes closed (by decide)
    obtain ⟨row, whole, extended⟩ := declaration_passes declared closed
    cases (moved.trans passed).same_row whole
    refine ⟨_, passed, Stops.phrase sound.declarations (ih.declarations afterClose) fun others viableRest => ?_⟩
    rw [← List.append_assoc]
    exact viableRest.last (fun part => partly ++ [afterFirst.current] ++ part) (by simp) fun later rest derived =>
      ⟨_, extended later rest derived⟩
  rw [declarationsWithin]
  apply Stops.current
  split
  next => exact ended
  next => exact ended
  next kind =>
    refine (ih.function kind).bind fun first afterFirst declared => ?_
    obtain ⟨row, moved, extended⟩ := function_extends kind declared
    refine ⟨row, moved, Stops.phrase sound.declarations (ih.declarations afterFirst) fun others viable => ?_⟩
    exact viable.last (row ++ ·) (by simp) fun later rest derived => ⟨_, extended later rest derived⟩
  next => exact .pure _

theorem commands_stop (bound : Nat) : CommandsStop bound := by
  induction bound with
  | zero => exact ⟨fun _ => .endless, fun _ => .endless, fun _ => .endless, fun _ => .endless, fun _ => .endless⟩
  | succ bound ih =>
    have sound := commands_sound bound
    refine ⟨block_stops ih, ?single, ?command, declarations_stop ih, function_stops ih.single⟩
    case single =>
      intro stream
      rw [singleWithin]
      apply Stops.current
      split
      next =>
        refine (ih.block stream).mono fun row _ _ viable => ?_
        exact viable.last id (by simp) fun whole tree derived => ⟨_, .singleBlock derived⟩
      next plain =>
        have other {row : List Token} {final : Stream} (moved : Passes stream row final) :
            ∀ token ∈ row.head?, ¬ token.kind.StartsBlock := by
          intro token found starts
          rw [head_of_passes moved token found] at starts
          exact plain (startsBlock_iff.mpr starts)
        refine ((simpleCommand_stops stream).mono fun row _ moved viable => viable_singleSimple viable (other moved)).bind
          fun simple afterSimple ran => ?_
        obtain ⟨row, moved, derived⟩ := reads_simpleCommand ran
        refine ⟨row, moved, Stops.accept_then (by decide) ?_ fun s final _ _ => .pure _⟩
        rw [List.append_nil]
        exact viable_singleSimple (.of_derives derived (by decide)) (other moved)
    case command =>
      intro stream
      rw [commandWithin]
      refine Stops.phrase_then sound.single (ih.single stream) ?_ fun first row middle derived _ => ?_
      · intro row viable
        exact viable.last id (by simp) fun whole tree derived => ⟨_, .lastSingle derived⟩
      apply Stops.current
      split
      next continues =>
        refine Stops.phrase sound.command ((ih.command middle).mono fun later final moved viable => ?_) fun later same => same
        cases later with
        | nil =>
          rw [List.append_nil]
          exact .of_derives (.lastSingle derived) (by decide)
        | cons token rest =>
          obtain ⟨more, tree, derivedRest, inside⟩ := viable
          refine .of_split (.sequence derived derivedRest ?_) inside (List.append_assoc _ _ _).symm
          intro start found
          cases found
          rw [(current_of_passes moved).1] at continues
          exact (continuesCommand_iff.mp continues).2
      next => exact .pure _

theorem program_stops (stream : Stream) : Stops program stream (Viable .block) :=
  Stops.phrase reads_block (Stops.bounded fun bound => (commands_stop bound).block stream) fun _ viable => viable

/-- Every program with the given tokens, closed by the end of the text, is parsed up to there. -/
theorem parseTokens_of_derives {row : List Token} {command : Tree} (derived : Derives .block row command)
    (inside : Inside row) (last : Token) :
    Rule.program.parseTokens (row ++ [last]) = .ok (.program command, ⟨last, [], row.length⟩) :=
  parseTokens_block derived inside last []

end MiniTriangle.Parse

namespace MiniTriangle

open Parse

/-- Where parsing fails on tokens that the end of the text closes, the tokens before the current one are the start of
a program: with some more tokens they are parsed up to the end of the text. The failure names the current token, or
a token is missing after the end of the text. -/
theorem syntax_error_at_viable_prefix {tokens : List Token} (once : EndsOnce tokens) {stream final : Stream}
    {cause : ParseError} (starts : Stream.ofTokens? tokens = some stream)
    (failed : Rule.program.parse stream = .error cause final) :
    (∃ more tree, ∀ last, Rule.program.parseTokens (tokens.take final.index ++ more ++ [last]) =
        .ok (tree, ⟨last, [], (tokens.take final.index ++ more).length⟩)) ∧
      ∃ token, tokens[final.index]? = some token ∧
        (cause = .unexpected token ∨ cause = .noToken ∧ token.kind = .endOfText) := by
  cases tokens with
  | nil => cases starts
  | cons first rest =>
    cases starts
    have bounded : cause ≠ .endless := by
      intro same
      rw [same] at failed
      exact never_endless .program _ _ failed
    obtain ⟨row, moved, ⟨more, tree, derived, inside⟩, blames⟩ := program_stops ⟨first, rest, 0⟩ once failed bounded
    obtain ⟨split, index⟩ := moved.row
    rw [Nat.zero_add] at index
    have taken : (first :: rest).take final.index = row := by rw [split, index, List.take_left]
    refine ⟨⟨more, .program tree, fun last => ?_⟩, final.current, ?_, blames⟩
    · rw [taken]
      exact parseTokens_of_derives derived (Inside.append moved.tokens_inside inside) last
    · rw [split, index, List.getElem?_append_right (Nat.le_refl _), Nat.sub_self]
      rfl

/-- The tokens of `begin x := - ; end`, where the value of the assignment lacks an operand. -/
def signAlone : List Token :=
  [⟨.kwBegin, .number 0, 0⟩, ⟨.identifier, .text "x", 6⟩, ⟨.becomes, .number 0, 8⟩, ⟨.operator, .text "-", 11⟩,
   ⟨.semicolon, .number 0, 13⟩, ⟨.kwEnd, .number 0, 15⟩, ⟨.endOfText, .number 0, 18⟩]

theorem signAlone_viable : EndsOnce signAlone ∧
    (∃ more tree, ∀ last, Rule.program.parseTokens (signAlone.take 4 ++ more ++ [last]) =
        .ok (tree, ⟨last, [], (signAlone.take 4 ++ more).length⟩)) ∧
      ∃ token, signAlone[4]? = some token ∧
        (ParseError.unexpected ⟨.semicolon, .number 0, 13⟩ = .unexpected token ∨
          ParseError.unexpected ⟨.semicolon, .number 0, 13⟩ = .noToken ∧ token.kind = .endOfText) := by
  have once : EndsOnce signAlone := ⟨signAlone.take 6, ⟨.endOfText, .number 0, 18⟩, rfl, rfl, by decide⟩
  have failed : Rule.program.parse ⟨⟨.kwBegin, .number 0, 0⟩, signAlone.drop 1, 0⟩ =
      .error (.unexpected ⟨.semicolon, .number 0, 13⟩) ⟨⟨.semicolon, .number 0, 13⟩, signAlone.drop 5, 4⟩ := rfl
  exact ⟨once, syntax_error_at_viable_prefix once rfl failed⟩

end MiniTriangle
