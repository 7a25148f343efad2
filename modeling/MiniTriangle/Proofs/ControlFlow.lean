import MiniTriangle.Code.Instr

/-! Code as a graph. Control goes from an instruction to the next one, unless it is a return or a jump that is always
taken, and from a jump to the place of its label. -/

namespace MiniTriangle

def Instr.fallsThrough : Instr → Bool
  | .op .returnValue _ => false
  | .jump .forward _ => false
  | .jump .back _ => false
  | _ => true

def Instr.target? : Instr → Option Label
  | .jump _ label => some label
  | _ => none

/-- Where control may go from a position. -/
inductive Goes (code : List Instr) : Nat → Nat → Prop where
  | next {here : Nat} {instr : Instr} (found : code[here]? = some instr) (falls : instr.fallsThrough = true) :
      Goes code here (here + 1)
  | jump {here there : Nat} {instr : Instr} {label : Label} (found : code[here]? = some instr)
      (aims : instr.target? = some label) (placed : code[there]? = some (.place label)) : Goes code here there

/-- The positions that control may come to from the first one. -/
inductive Reached (code : List Instr) : Nat → Prop where
  | start : Reached code 0
  | step {here there : Nat} (reached : Reached code here) (goes : Goes code here there) : Reached code there

def Located (code : List Instr) (here : Nat) (part : List Instr) : Prop := part <+: code.drop here

namespace Located

variable {code part before later : List Instr} {here : Nat} {instr : Instr}

theorem whole (before later : List Instr) : Located (before ++ later) 0 before := List.prefix_append before later

theorem first (located : Located code here (before ++ later)) : Located code here before :=
  (List.prefix_append before later).trans located

theorem second (located : Located code here (before ++ later)) : Located code (here + before.length) later := by
  obtain ⟨rest, split⟩ := located
  refine ⟨rest, ?_⟩
  rw [← List.drop_drop, ← split, List.append_assoc, List.drop_left]

theorem head (located : Located code here (instr :: later)) : code[here]? = some instr := by
  obtain ⟨rest, split⟩ := located
  rw [← Nat.add_zero here, ← List.getElem?_drop, ← split]
  rfl

theorem tail (located : Located code here (instr :: later)) : Located code (here + 1) later :=
  second (show Located code here ([instr] ++ later) from located)

end Located

end MiniTriangle
