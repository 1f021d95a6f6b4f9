import ScriptFront.Console.Run
import ScriptFront.Main
import ScriptFront.Tree.Outline
import ScriptFront.Proofs.Grammar.Steps
import ScriptFront.Proofs.Grammar.Reading
import ScriptFront.Proofs.Grammar.Completeness
import ScriptFront.Proofs.Grammar.Nodes
import ScriptFront.Proofs.Grammar.Climbing
import ScriptFront.Proofs.Grammar.Building
import ScriptFront.Proofs.Grammar.Binding
import ScriptFront.Proofs.Token.Modes
import ScriptFront.Proofs.Token.Seam
import ScriptFront.Proofs.Token.Shift
import ScriptFront.Proofs.Token.Lines
import ScriptFront.Proofs.Grammar.Rendering
import ScriptFront.Proofs.Grammar.Rereading
import ScriptFront.Proofs.Grammar.RereadingPrograms
import ScriptFront.Proofs.Grammar.Moving
import ScriptFront.Proofs.Grammar.Balance
import ScriptFront.Proofs.Grammar.Equivariance
import ScriptFront.Proofs.Grammar.FurtherLines
import ScriptFront.Proofs.Grammar.Locality
import ScriptFront.Proofs.Grammar.ProgramLines
import ScriptFront.Proofs.Token.Shape
import ScriptFront.Proofs.Token.Places
import ScriptFront.Proofs.Token.Brackets
import ScriptFront.Proofs.Token.Insertions
import ScriptFront.Proofs.Grammar.Passing
import ScriptFront.Proofs.Token.Enclosing
import ScriptFront.Proofs.Grammar.Delimiters
import ScriptFront.Proofs.Grammar.EnclosedPrograms
import ScriptFront.Proofs.Grammar.WellBracketed
import ScriptFront.Proofs.Grammar.Numbers
import ScriptFront.Proofs.Grammar.Simulation
import ScriptFront.Proofs.Grammar.SimulatedReading
import ScriptFront.Proofs.Grammar.ClosedPrograms
import ScriptFront.Proofs.Grammar.BlankLines
import ScriptFront.Proofs.Grammar.LineEnds
import ScriptFront.Proofs.Grammar.InsignificantText
import ScriptFront.Proofs.Token.Count
import ScriptFront.Proofs.Grammar.StringLiterals
import ScriptFront.Proofs.Grammar.IndentedStatements
import ScriptFront.Proofs.Grammar.IndentedBodies
import ScriptFront.Proofs.Grammar.HeaderEnds
import ScriptFront.Proofs.Grammar.Gathering
import ScriptFront.Proofs.Grammar.TrailingHeaders
import ScriptFront.Proofs.Grammar.IndexedParser
import ScriptFront.Proofs.Grammar.IndexedPlaces
import ScriptFront.Proofs.Grammar.IndexedReading
import ScriptFront.Proofs.Grammar.IndexedPhrases
import ScriptFront.Proofs.Grammar.IndexedCalls
import ScriptFront.Proofs.Grammar.Chains
import ScriptFront.Proofs.Grammar.Following
import ScriptFront.Proofs.Grammar.FollowedReading
import ScriptFront.Proofs.Grammar.ArgumentLists
import ScriptFront.Proofs.Grammar.CallSpellings
import ScriptFront.Proofs.Grammar.TrailingBlocks
import ScriptFront.Proofs.Grammar.FirstEnd
import ScriptFront.Proofs.Grammar.MissingDedents
import ScriptFront.Proofs.Grammar.RepeatedCalls
import ScriptFront.Proofs.Grammar.SpacedParens
import ScriptFront.Proofs.Grammar.Traces
import ScriptFront.Proofs.Grammar.ProperTrees
import ScriptFront.Proofs.Token.Names
import ScriptFront.Proofs.Token.Integers
import ScriptFront.Proofs.Grammar.PairLists
import ScriptFront.Proofs.Token.Isolation
import ScriptFront.Proofs.Token.Signs
import ScriptFront.Proofs.Token.Lone
import ScriptFront.Proofs.Token.Calls
import ScriptFront.Proofs.Grammar.ParameterNames
import ScriptFront.Proofs.Source.Lines
import ScriptFront.Proofs.Console.Sessions
import ScriptFront.Proofs.Fault.Reports
import ScriptFront.Proofs.Token.Members
import ScriptFront.Proofs.Token.Defaults
import ScriptFront.Proofs.Grammar.OneLine
import ScriptFront.Proofs.Grammar.ParameterLists
import ScriptFront.Proofs.Grammar.MemberTexts
import ScriptFront.Proofs.Grammar.SpacedDefaults
import ScriptFront.Proofs.Console.CommandLines
import ScriptFront.Proofs.Grammar.PairRuns
