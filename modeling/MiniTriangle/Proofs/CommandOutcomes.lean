import MiniTriangle.CommandLine
import MiniTriangle.Proofs.SourceTexts

/-! What the command does to the files. In a flat directory it hands code over to be written exactly if it is given the
name of one source file there whose text compiles. Then at most one name is new, that of the code, and it is new unless it
has more bytes than a name may have. Whatever else happens, the files stay as they are. -/

namespace MiniTriangle

namespace Directory

def names (files : Directory) : List String := files.map Prod.fst

@[mk_iff] structure FileName (name : String) : Prop where
  nonempty : name ≠ ""
  notHere : name ≠ "."
  notOutside : name ≠ ".."
  oneStep : '/' ∉ name.toList
  noZero : Char.ofNat 0 ∉ name.toList
  short : name.utf8ByteSize ≤ nameLimit

instance : DecidablePred FileName := fun name => decidable_of_iff' _ (fileName_iff name)

def Flat (files : Directory) : Prop := ∀ name ∈ files.names, FileName name

instance : DecidablePred Flat := fun files => inferInstanceAs (Decidable (∀ name ∈ files.names, FileName name))

theorem mem_names_of_lookup {files : Directory} {name contents : String} (found : files.lookup name = some contents) :
    name ∈ files.names := by
  obtain ⟨file, member, same⟩ := List.lookup_isSome_iff.mp (Option.isSome_of_eq_some found)
  exact List.mem_map.mpr ⟨file, member, (beq_iff_eq.mp same).symm⟩

theorem mem_names_put {files : Directory} {name contents other : String} :
    other ∈ (files.put name contents).names ↔ other ∈ files.names ∨ other = name := by
  simp only [names, put, List.map_append, List.mem_append, List.map_cons, List.map_nil, List.mem_singleton]
  by_cases same : other = name
  · simp [same]
  · simp [same, List.mem_map, List.mem_filter]

theorem splitSteps_eq_singleton {characters : List Char} (single : '/' ∉ characters) : splitSteps characters = [characters] := by
  induction characters with
  | nil => rfl
  | cons c rest ih =>
    rw [List.mem_cons, not_or] at single
    rw [splitSteps, ih single.2]
    exact if_neg (Ne.symm single.1)

/-- A path of one step is walked in that step, if it can be walked at all. -/
theorem walk_of_single {files : Directory} {path : String} (single : '/' ∉ path.toList) :
    files.walk path = if path.toList.contains (Char.ofNat 0) then .error .zeroCharacter
      else if pathLimit < path.utf8ByteSize then .error .tooLong else files.step .home path := by
  have start : path.toList.head? ≠ some '/' := fun first => single (List.mem_of_mem_head? first)
  have steps : pathSteps path = [path] := by
    rw [pathSteps, splitSteps_eq_singleton single, List.map_singleton, String.ofList_toList]
  rw [walk, steps, if_neg start]
  simp

theorem read_eq_ok {files : Directory} {path text : String} (single : '/' ∉ path.toList) :
    files.read path = .ok text ↔ files.lookup path = some text := by
  unfold read
  cases found : files.lookup path with
  | some contents => simp
  | none =>
    -- Without a file of that name the walk ends in a directory, at a vacant name or nowhere.
    rw [walk_of_single single, step, found]
    split_ifs <;> simp

/-- Writing to a name that a file may have makes a file of that name. -/
theorem mem_names_write {files : Directory} {target contents : String} (named : FileName target) {name : String} :
    name ∈ (files.write target contents).names ↔ name ∈ files.names ∨ name = target := by
  have within : ¬ pathLimit < target.utf8ByteSize :=
    Nat.not_lt.mpr (named.short.trans (by decide : nameLimit ≤ pathLimit))
  have walked : files.walk target = files.step .home target := by
    rw [walk_of_single named.oneStep, if_neg (by simpa using named.noZero), if_neg within]
  rw [write, walked, step, if_neg (by simp [named.nonempty, named.notHere]), if_neg named.notOutside]
  cases found : files.lookup target with
  | some old => exact mem_names_put
  | none =>
    simp only [if_neg (Nat.not_lt.mpr named.short)]
    exact mem_names_put

/-- Writing to too long a name leaves the files as they are. -/
theorem write_of_tooLong {files : Directory} (flat : files.Flat) {target contents : String} (single : '/' ∉ target.toList)
    (long : nameLimit < target.utf8ByteSize) : files.write target contents = files := by
  have unfound : files.lookup target = none := by
    refine Option.eq_none_iff_forall_ne_some.mpr fun old found => ?_
    exact absurd (flat target (mem_names_of_lookup found)).short (Nat.not_le.mpr long)
  have nonempty : target ≠ "" ∧ target ≠ "." ∧ target ≠ ".." := by
    refine ⟨?_, ?_, ?_⟩ <;>
    · rintro rfl
      exact absurd long (by decide)
  rw [write, walk_of_single single, step, unfound]
  simp only [if_neg (show ¬ (target = "" ∨ target = ".") by simp [nonempty]), if_neg nonempty.2.2, if_pos long]
  split_ifs <;> rfl

end Directory

section Names

/-- The name of the code of a source file, given what stands before the ending of the source. Dots alone are no name
before an ending, so then the ending stays. -/
def codeName (base : String) : String := (if base.toList.all (· = '.') then base ++ ".mt" else base) ++ ".pyc"

theorem toList_source (base : String) : (base ++ ".mt").toList = base.toList ++ ['.', 'm', 't'] := by
  rw [String.toList_append]
  rfl

theorem getLast?_codeName (base : String) : (codeName base).toList.getLast? = some 'c' := by
  rw [codeName, String.toList_append, List.getLast?_append]
  rfl

theorem codeName_ne (base : String) : codeName base ≠ base ++ ".mt" := by
  intro same
  have last := getLast?_codeName base
  rw [same, toList_source, List.getLast?_append] at last
  cases last

theorem not_mem_codeName {base : String} {c : Char} (free : c ∉ (base ++ ".mt").toList) (other : c ∉ ".pyc".toList) :
    c ∉ (codeName base).toList := by
  rw [codeName, String.toList_append, List.mem_append, not_or]
  refine ⟨?_, other⟩
  split
  · exact free
  · exact fun member => free (by rw [toList_source]; exact List.mem_append_left _ member)

theorem codeName_fileName {base : String} (named : Directory.FileName (base ++ ".mt"))
    (short : (codeName base).utf8ByteSize ≤ Directory.nameLimit) : Directory.FileName (codeName base) := by
  have ends {name : String} (other : name.toList.getLast? ≠ some 'c') : codeName base ≠ name :=
    fun same => other (same ▸ getLast?_codeName base)
  exact ⟨ends (by decide), ends (by decide), ends (by decide), not_mem_codeName named.oneStep (by decide),
    not_mem_codeName named.noZero (by decide), short⟩

theorem stem_source {base : String} (single : '/' ∉ (base ++ ".mt").toList) :
    stem (base ++ ".mt") ++ ".pyc" = codeName base := by
  have whole : lastStep (base ++ ".mt").toList = (base ++ ".mt").toList := by
    have kept : (base ++ ".mt").toList.reverse.takeWhile (· ≠ '/') = (base ++ ".mt").toList.reverse := by
      rw [List.takeWhile_eq_self_iff]
      intro c member
      rw [decide_eq_true_eq]
      rintro rfl
      exact single (List.mem_reverse.mp member)
    rw [lastStep, kept, List.reverse_reverse]
  have ending : (base ++ ".mt").toList.reverse.takeWhile (· ≠ '.') = ['t', 'm'] := by
    rw [toList_source, List.reverse_append]
    rfl
  have before : (base ++ ".mt").toList.take ((base ++ ".mt").toList.length - (['t', 'm'].length + 1)) = base.toList := by
    rw [toList_source, List.length_append]
    exact List.take_left
  simp only [stem, whole, ending, before, codeName]
  simp

theorem isSource_iff {path : String} : isSource path = true ↔ ∃ base, path = base ++ ".mt" := by
  rw [isSource, List.isSuffixOf_iff_suffix]
  constructor
  · rintro ⟨before, whole⟩
    refine ⟨String.ofList before, String.toList_inj.mp ?_⟩
    rw [toList_source, String.toList_ofList]
    exact whole.symm
  · rintro ⟨base, rfl⟩
    exact ⟨base.toList, (toList_source base).symm⟩

theorem sourcePath?_eq_some {arguments : List String} {path : String} :
    sourcePath? arguments = some path ↔ ∃ base, arguments = [path] ∧ path = base ++ ".mt" := by
  constructor
  · intro given
    unfold sourcePath? at given
    split at given
    next only =>
      split at given
      next source =>
        cases given
        obtain ⟨base, named⟩ := isSource_iff.mp source
        exact ⟨base, rfl, named⟩
      next => cases given
    next => cases given
  · rintro ⟨base, rfl, rfl⟩
    exact if_pos (isSource_iff.mpr ⟨base, rfl⟩)

end Names

section Outcomes

theorem compileFile_eq_write {path text target : String} {code : Routine} :
    compileFile path text = .write target code ↔
      (∃ state, compile text = .ok (code, state)) ∧ target = stem path ++ ".pyc" := by
  unfold compileFile
  split
  next routine state compiled =>
    constructor
    · intro written
      obtain ⟨rfl, rfl⟩ := Outcome.write.inj written
      exact ⟨⟨state, compiled⟩, rfl⟩
    · rintro ⟨⟨_, again⟩, rfl⟩
      rw [compiled] at again
      cases again
      rfl
  next position character compiled => simp [compiled]
  next token compiled =>
    rw [compiled]
    split <;> simp
  next cause _ _ compiled => simp [compiled]

/-- The command hands over the code of the one source file that it is given. -/
theorem runCommand_eq_write {arguments : List String} {files : Directory}
    (single : ∀ argument ∈ arguments, '/' ∉ argument.toList) {target : String} {code : Routine} :
    runCommand arguments files = .write target code ↔
      ∃ base text state, arguments = [base ++ ".mt"] ∧ files.lookup (base ++ ".mt") = some text ∧
        compile text = .ok (code, state) ∧ target = codeName base := by
  constructor
  · intro written
    unfold runCommand at written
    split at written
    next => cases written
    next path given =>
      obtain ⟨base, only, rfl⟩ := sourcePath?_eq_some.mp given
      subst only
      have inside := List.forall_mem_singleton.mp single
      split at written
      next text opened =>
        obtain ⟨⟨state, compiled⟩, rfl⟩ := compileFile_eq_write.mp written
        exact ⟨base, text, state, rfl, (Directory.read_eq_ok inside).mp opened, compiled, stem_source inside⟩
      next => cases written
  · rintro ⟨base, text, state, rfl, found, compiled, rfl⟩
    have inside := List.forall_mem_singleton.mp single
    have given : sourcePath? [base ++ ".mt"] = some (base ++ ".mt") := sourcePath?_eq_some.mpr ⟨base, rfl, rfl⟩
    have opened : files.read (base ++ ".mt") = .ok text := (Directory.read_eq_ok inside).mpr found
    simp only [runCommand, given, opened]
    exact compileFile_eq_write.mpr ⟨⟨state, compiled⟩, (stem_source inside).symm⟩

theorem apply_of_not_write {outcome : Outcome} (files : Directory) (other : ∀ target code, outcome ≠ .write target code) :
    outcome.apply files = files := by
  cases outcome with
  | write target code => exact absurd rfl (other target code)
  | printed _ => rfl
  | unread _ _ => rfl
  | failed _ => rfl

/-- The command writes exactly if it is given one source file of the directory and each step of compiling succeeds. Then
the directory has gained the name of the code, if the name is not too long, and nothing else; otherwise it is unchanged. -/
theorem command_writes_on_success {files : Directory} (flat : files.Flat) {arguments : List String}
    (single : ∀ argument ∈ arguments, '/' ∉ argument.toList) :
    (∀ target code, runCommand arguments files = .write target code ↔
      ∃ base text tokens tree state, arguments = [base ++ ".mt"] ∧ files.lookup (base ++ ".mt") = some text ∧
        Token.ofText text = .ok tokens ∧ parseProgram tokens = .ok tree ∧ compileTree tree = .ok (code, state) ∧
        target = codeName base) ∧
    (∀ target code, runCommand arguments files = .write target code → target ∉ arguments ∧
      ∀ name, name ∈ ((runCommand arguments files).apply files).names ↔
        name ∈ files.names ∨ name = target ∧ target.utf8ByteSize ≤ Directory.nameLimit) ∧
    ((∀ target code, runCommand arguments files ≠ .write target code) →
      (runCommand arguments files).apply files = files) := by
  refine ⟨fun target code => ?_, fun target code written => ?_, apply_of_not_write files⟩
  · rw [runCommand_eq_write single]
    simp only [compile_eq_ok, readProgram?_eq_some]
    constructor
    · rintro ⟨base, text, state, only, found, ⟨tree, ⟨tokens, scanned, parsed⟩, generated⟩, named⟩
      exact ⟨base, text, tokens, tree, state, only, found, scanned, parsed, generated, named⟩
    · rintro ⟨base, text, tokens, tree, state, only, found, scanned, parsed, generated, named⟩
      exact ⟨base, text, state, only, found, ⟨tree, ⟨tokens, scanned, parsed⟩, generated⟩, named⟩
  · obtain ⟨base, text, state, rfl, found, -, rfl⟩ := (runCommand_eq_write single).mp written
    have named := flat _ (Directory.mem_names_of_lookup found)
    refine ⟨fun same => codeName_ne base (List.mem_singleton.mp same), fun name => ?_⟩
    rw [written]
    by_cases short : (codeName base).utf8ByteSize ≤ Directory.nameLimit
    · simp only [short, and_true]
      exact Directory.mem_names_write (codeName_fileName named short)
    · have inside := not_mem_codeName named.oneStep (by decide)
      simp only [short, and_false, or_false, Outcome.apply]
      rw [Directory.write_of_tooLong flat inside (Nat.lt_of_not_le short)]

def assigning : String := "let var x: Integer; in x := 1;"

theorem assigning_compiles : ∃ code state, compile assigning = .ok (code, state) := by
  have fine : ((readProgram? assigning).any fun tree => (compileTree tree).isOk) = true := by decide +kernel
  obtain ⟨tree, read, generated⟩ := (Option.any_eq_true _ _).mp fine
  exact compiles_of_read read generated

def dotted : Directory := [("...mt", assigning), ("a.pyc", "")]

/-- The ending of the source stays in the name of the code. -/
theorem dotted_gains_code : dotted.Flat ∧ (∀ argument ∈ ["...mt"], '/' ∉ argument.toList) ∧
    ∃ code, runCommand ["...mt"] dotted = .write "...mt.pyc" code ∧
      ∀ name, name ∈ ((runCommand ["...mt"] dotted).apply dotted).names ↔ name ∈ ["...mt", "a.pyc", "...mt.pyc"] := by
  have flat : dotted.Flat := by decide +kernel
  have single : ∀ argument ∈ ["...mt"], '/' ∉ argument.toList := by decide +kernel
  refine ⟨flat, single, ?_⟩
  obtain ⟨writes, gains, -⟩ := command_writes_on_success flat single
  obtain ⟨code, state, compiled⟩ := assigning_compiles
  obtain ⟨tree, read, generated⟩ := compile_eq_ok.mp compiled
  obtain ⟨tokens, scanned, parsed⟩ := readProgram?_eq_some.mp read
  have written := (writes "...mt.pyc" code).mpr
    ⟨"..", assigning, tokens, tree, state, rfl, rfl, scanned, parsed, generated, rfl⟩
  refine ⟨code, written, fun name => ((gains _ _ written).2 name).trans ?_⟩
  have short : "...mt.pyc".utf8ByteSize ≤ Directory.nameLimit := by decide
  simp [short, dotted, Directory.names, or_assoc]

def letters (count : Nat) : String := String.ofList (List.replicate count 'a')

theorem eq_of_mem_letters {count : Nat} {c : Char} (member : c ∈ (letters count).toList) : c = 'a' := by
  rw [letters, String.toList_ofList] at member
  exact List.eq_of_mem_replicate member

theorem utf8ByteSize_letters (count : Nat) : (letters count).utf8ByteSize = count := by
  induction count with
  | zero => rfl
  | succ count ih =>
    rw [letters, List.replicate_succ', String.ofList_append, String.utf8ByteSize_append]
    exact congrArg (· + 1) ih

theorem letters_fileName {count : Nat} (fits : count ≤ 252) : Directory.FileName (letters count ++ ".mt") := by
  have ends {name : String} (other : name.toList.getLast? ≠ some 't') : letters count ++ ".mt" ≠ name := by
    rintro rfl
    rw [toList_source, List.getLast?_append] at other
    exact other rfl
  have free {c : Char} (letter : c ≠ 'a') (other : c ∉ ['.', 'm', 't']) : c ∉ (letters count ++ ".mt").toList := by
    rw [toList_source, List.mem_append, not_or]
    exact ⟨fun member => letter (eq_of_mem_letters member), other⟩
  refine ⟨ends (by decide), ends (by decide), ends (by decide), free (by decide) (by decide),
    free (by decide) (by decide), ?_⟩
  rw [String.utf8ByteSize_append, utf8ByteSize_letters]
  exact Nat.add_le_add_right fits 3

theorem codeName_letters (count : Nat) : codeName (letters (count + 1)) = letters (count + 1) ++ ".pyc" := by
  have letter : (letters (count + 1)).toList.all (· = '.') = false := by
    rw [letters, String.toList_ofList, List.replicate_succ]
    rfl
  rw [codeName, letter, if_neg Bool.false_ne_true]

def longNamed : Directory := [(letters 252 ++ ".mt", assigning)]

/-- The longer ending of the code makes its name too long: the code is handed over, and no file is made. -/
theorem longNamed_gains_nothing : longNamed.Flat ∧ '/' ∉ (letters 252 ++ ".mt").toList ∧
    ∃ code, runCommand [letters 252 ++ ".mt"] longNamed = .write (letters 252 ++ ".pyc") code ∧
      letters 252 ++ ".pyc" ∉ ((runCommand [letters 252 ++ ".mt"] longNamed).apply longNamed).names := by
  have source : Directory.FileName (letters 252 ++ ".mt") := letters_fileName le_rfl
  have flat : longNamed.Flat := List.forall_mem_singleton.mpr source
  have single := source.oneStep
  have inside : '/' ∉ (codeName (letters 252)).toList := not_mem_codeName single (by decide)
  have long : Directory.nameLimit < (codeName (letters 252)).utf8ByteSize := by
    rw [codeName_letters 251, String.utf8ByteSize_append, utf8ByteSize_letters]
    decide
  obtain ⟨code, state, compiled⟩ := assigning_compiles
  have found : longNamed.lookup (letters 252 ++ ".mt") = some assigning := by
    rw [longNamed, List.lookup_cons, beq_self_eq_true]
  have written := (runCommand_eq_write (List.forall_mem_singleton.mpr single)).mpr
    ⟨letters 252, assigning, state, rfl, found, compiled, rfl⟩
  rw [← codeName_letters 251]
  refine ⟨flat, single, code, written, ?_⟩
  rw [written, Outcome.apply, Directory.write_of_tooLong flat inside long]
  exact fun same => codeName_ne (letters 252) (List.mem_singleton.mp same)

end Outcomes

end MiniTriangle
