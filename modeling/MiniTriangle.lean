import MiniTriangle.Alphabet.Alphanumeric
import MiniTriangle.Alphabet.Digit
import MiniTriangle.Alphabet.Letter
import MiniTriangle.Alphabet.Printable
import MiniTriangle.Alphabet.Ranges
import MiniTriangle.Alphabet.Space
import MiniTriangle.Atom
import MiniTriangle.Code.Error
import MiniTriangle.Code.Generate
import MiniTriangle.Code.Instr
import MiniTriangle.Code.Listing
import MiniTriangle.Code.Scope
import MiniTriangle.Code.Session
import MiniTriangle.Code.State
import MiniTriangle.CommandLine
import MiniTriangle.Compile
import MiniTriangle.Directory
import MiniTriangle.Grammar.Command
import MiniTriangle.Grammar.Expression
import MiniTriangle.Grammar.Rule
import MiniTriangle.Grammar.Session
import MiniTriangle.Grammar.Stream
import MiniTriangle.Main
import MiniTriangle.Proofs.BrokenTexts
import MiniTriangle.Proofs.CallingConvention
import MiniTriangle.Proofs.CharacterClasses
import MiniTriangle.Proofs.CodeForms
import MiniTriangle.Proofs.CommandOutcomes
import MiniTriangle.Proofs.CommandSimulation
import MiniTriangle.Proofs.CompilablePrograms
import MiniTriangle.Proofs.Completions
import MiniTriangle.Proofs.ControlFlow
import MiniTriangle.Proofs.CountedTakes
import MiniTriangle.Proofs.DeclarationCalls
import MiniTriangle.Proofs.DeclarationCounts
import MiniTriangle.Proofs.Derivation
import MiniTriangle.Proofs.DocumentedGrammar
import MiniTriangle.Proofs.FunctionFrames
import MiniTriangle.Proofs.GeneratedCode
import MiniTriangle.Proofs.GenerationOutcomes
import MiniTriangle.Proofs.JumpTargets
import MiniTriangle.Proofs.KnownNames
import MiniTriangle.Proofs.LabelUses
import MiniTriangle.Proofs.Layouts
import MiniTriangle.Proofs.LetRestoration
import MiniTriangle.Proofs.Lexemes
import MiniTriangle.Proofs.LexicalProgram
import MiniTriangle.Proofs.MissingTokens
import MiniTriangle.Proofs.MistakenCalls
import MiniTriangle.Proofs.NestedScopes
import MiniTriangle.Proofs.NumberedNames
import MiniTriangle.Proofs.OperationScripts
import MiniTriangle.Proofs.OwnFrames
import MiniTriangle.Proofs.ParsedNames
import MiniTriangle.Proofs.ParsedTrees
import MiniTriangle.Proofs.ParsedWords
import MiniTriangle.Proofs.ParserBounds
import MiniTriangle.Proofs.ParserCompleteness
import MiniTriangle.Proofs.ParserExactness
import MiniTriangle.Proofs.ParserSoundness
import MiniTriangle.Proofs.ParsingEnds
import MiniTriangle.Proofs.PositionBlindness
import MiniTriangle.Proofs.PrintedTrees
import MiniTriangle.Proofs.RenamedPrograms
import MiniTriangle.Proofs.Renaming
import MiniTriangle.Proofs.ResolvedNames
import MiniTriangle.Proofs.ReturningPaths
import MiniTriangle.Proofs.RootedScopes
import MiniTriangle.Proofs.RoutineCode
import MiniTriangle.Proofs.RuleComposition
import MiniTriangle.Proofs.ScanOperations
import MiniTriangle.Proofs.ScanOutcomes
import MiniTriangle.Proofs.ScopeLookup
import MiniTriangle.Proofs.SemanticPreservation
import MiniTriangle.Proofs.Sequencing
import MiniTriangle.Proofs.Simulation
import MiniTriangle.Proofs.SlotClashes
import MiniTriangle.Proofs.SlotDisciplines
import MiniTriangle.Proofs.SlotNaming
import MiniTriangle.Proofs.SourceMeaning
import MiniTriangle.Proofs.SourceTexts
import MiniTriangle.Proofs.StackHeights
import MiniTriangle.Proofs.StackMachine
import MiniTriangle.Proofs.StackSafety
import MiniTriangle.Proofs.StoppingPlaces
import MiniTriangle.Proofs.StreamInStep
import MiniTriangle.Proofs.StreamSteps
import MiniTriangle.Proofs.TokenSteps
import MiniTriangle.Proofs.Tokenisation
import MiniTriangle.Proofs.Translation
import MiniTriangle.Proofs.TreeHeights
import MiniTriangle.Proofs.TreeNodes
import MiniTriangle.Proofs.UnreadTokens
import MiniTriangle.Proofs.Values
import MiniTriangle.Proofs.ViablePrefixes
import MiniTriangle.Session
import MiniTriangle.Text.Decimal
import MiniTriangle.Text.Quoted
import MiniTriangle.Token
import MiniTriangle.Token.Cursor
import MiniTriangle.Token.Scan
import MiniTriangle.Token.Session
import MiniTriangle.Tree
import MiniTriangle.Tree.Part
