import MiniTriangle.Proofs.CommandSimulation
import MiniTriangle.Proofs.ParsedNames
import MiniTriangle.Proofs.SlotDisciplines

/-! Compiled programs behave as they mean. A program read from a text, without functions and with every name
declared before it is used, compiles to code that prints and returns what the program does by lexical scoping, if
its names are chosen in one of two ways. -/

namespace MiniTriangle

theorem compile_of_generated {text : String} {tokens : List Token} {tree : Tree} {code : List Instr} {final : State}
    (scanned : Token.ofText text = .ok tokens) (parsed : parseProgram tokens = .ok tree)
    (generated : Generate.program tree State.empty = .ok code final) : compile text = .ok (⟨[], code⟩, final) :=
  compile_eq_ok.mpr ⟨tree, readProgram?_eq_some.mpr ⟨tokens, scanned, parsed⟩, compileTree_eq_ok.mpr ⟨rfl, generated⟩⟩

/-- A program in which no name is declared twice and none ends with a zero, or in which every inner `let` declares
again one of the outermost names and none ends with a digit, compiles, and its code behaves as the program. -/
theorem compiled_program_behaves {text : String} {tokens : List Token} {declared body : Tree}
    (scanned : Token.ofText text = .ok tokens) (parsed : parseProgram tokens = .ok (.program (.letIn declared body)))
    (lexical : Lexical.Command [] (.letIn declared body))
    (chosen : (Tree.letIn declared body).DeclaresOnce ∨ Tree.DeclaresAgain declared body) :
    ∃ routine state, compile text = .ok (routine, state) ∧
      SameBehaviour (Source.run (.program (.letIn declared body))) (Machine.run routine.body) := by
  have kept : ∃ after, KeepsSlots [] ⟨[[]], 0⟩ (.letIn declared body) after := by
    rcases chosen with once | again
    · exact keepsSlots_of_declaresOnce lexical once fun name member => declared_without_minus scanned parsed member
    · exact keepsSlots_of_declaresAgain lexical again
  obtain ⟨after, keeps⟩ := kept
  obtain ⟨code, last, final, generated, translates⟩ := Generate.program_at keeps
  refine ⟨⟨[], _⟩, final, ?_, program_behaves translates⟩
  exact compile_of_generated scanned parsed generated

/-- Counts down the outer variable, after an inner one of the same name was assigned. -/
def countdown : String :=
  "let var x: Integer; in begin x := 2; let var x: Integer; in x := 3; while x > 0 do begin putint(x); x := x - 1; end end"

def declareX : Tree := .declarations (.varDecl (.text "x") (.typeName (.text "Integer"))) .absent

def assignX (value : Tree) : Tree := .assign (.name (.text "x")) value

def readX : Tree := .reference (.name (.text "x"))

def countdownBody : Tree :=
  .sequence (assignX (.integer (.number 2))) (.sequence (.letIn declareX (assignX (.integer (.number 3))))
    (.whileDo (.binary readX (.text ">") (.integer (.number 0)))
      (.sequence (.call (.text "putint") (.parameter readX .absent))
        (assignX (.binary readX (.text "-") (.integer (.number 1)))))))

private theorem countdown_lexical : Lexical.Command [] (.letIn declareX countdownBody) := by
  have declares (names : List String) : Lexical.Declaration names declareX ("x" :: names) :=
    .sequence (.var names "x" _) (.nothing _)
  have read : Lexical.Expression ["x"] readX := .reference (by simp)
  have counts : Lexical.Expression ["x"] (.binary readX (.text "-") (.integer (.number 1))) :=
    .binary (by simp [Lexical.operators]) read (.integer 1)
  refine .scope (declares []) (.sequence (.assign (by simp) (.integer 2)) (.sequence ?_ ?_))
  · exact .scope (declares ["x"]) (.assign (by simp) (.integer 3))
  · refine .loop (.binary (by simp [Lexical.operators]) read (.integer 0)) ?_
    exact .sequence (.print read) (.assign (by simp) counts)

theorem countdown_behaves :
    Source.run (.program (.letIn declareX countdownBody)) 3 = .returned .nothing "2\n1\n" ∧
      ∃ routine state, compile countdown = .ok (routine, state) ∧
        SameBehaviour (Source.run (.program (.letIn declareX countdownBody))) (Machine.run routine.body) := by
  have read : readProgram? countdown = some (.program (.letIn declareX countdownBody)) := by decide +kernel
  obtain ⟨tokens, scanned, parsed⟩ := readProgram?_eq_some.mp read
  have again : Tree.DeclaresAgain declareX countdownBody := by
    have names : declareX.declaredNames = ["x"] := rfl
    refine ⟨?_, ?_, trivial, ⟨⟨"x", ?_, names⟩, trivial⟩, trivial, trivial⟩
    · rw [names]
      exact List.nodup_cons.mpr ⟨List.not_mem_nil, List.nodup_nil⟩
    · rw [names]
      exact List.forall_mem_singleton.mpr (by decide)
    · rw [names]
      exact List.mem_singleton_self "x"
  exact ⟨by decide +kernel, compiled_program_behaves scanned parsed countdown_lexical (.inr again)⟩

end MiniTriangle
