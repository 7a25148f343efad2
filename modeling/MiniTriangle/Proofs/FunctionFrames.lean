import MiniTriangle.Code.Generate

/-! The code of a function in two parts. With a frame and a scope of its own open, the parameters of the function are
declared and its body is generated; then both are closed, and the routine goes to the frame outside. -/

namespace MiniTriangle.Generate

/-- What is done in the frame and the scope of a function. -/
def functionInside (names : List Tree) (body : Generate Unit) : Generate Unit := do
  names.forM fun name => discard (declare name)
  body

def functionEnd (name : Tree) (names : List Tree) : Generate Unit := do
  let code ← closeFrame
  let _ ← closeScope
  emit (.routine names code)
  emitOp .makeFunction (.number 0)
  emitOp .storeFast name

/-- A function, from the opening of its frame and its scope on. -/
theorem functionCode_opens (name list : Tree) (body : Generate Unit) (state : State) :
    functionCode name list body state = ((do
        let names ← parameterNames list
        functionInside names body
        return names) >>= functionEnd name)
      { state with frames := [] :: state.frames, scopes := [] :: state.scopes } := by
  simp only [bind_assoc, pure_bind, functionInside]
  rfl

theorem functionCode_eq {name list : Tree} {names : List Tree} (listed : parameterNames list = pure names)
    (body : Generate Unit) (state : State) :
    functionCode name list body state = (functionInside names body >>= fun _ => functionEnd name names)
      { state with frames := [] :: state.frames, scopes := [] :: state.scopes } := by
  rw [functionCode_opens, listed]
  simp only [bind_assoc, pure_bind]

end MiniTriangle.Generate
