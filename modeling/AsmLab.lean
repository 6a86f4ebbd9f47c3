import AsmLab.Main
import AsmLab.Proofs.Exec.Comparison
import AsmLab.Proofs.Exec.FaultCases
import AsmLab.Proofs.Exec.Footprint
import AsmLab.Proofs.Program.Reload
import AsmLab.Proofs.Run.Breakpoints
import AsmLab.Proofs.Run.FaultLatch
import AsmLab.Proofs.Exec.AluBits
import AsmLab.Proofs.Machine.ReadBack
import AsmLab.Proofs.Exec.OperandContents
import AsmLab.Proofs.Exec.Arithmetic
import AsmLab.Proofs.Exec.StepFrame
import AsmLab.Proofs.Exec.StackDiscipline
import AsmLab.Proofs.Run.Composition
import AsmLab.Proofs.Run.SkippedLines
import AsmLab.Proofs.Run.MatchedReturn
import AsmLab.Proofs.Source.SessionIndependence
import AsmLab.Proofs.Program.SourceErrors
import AsmLab.Proofs.Program.BranchTargets
import AsmLab.Proofs.Run.ListedBreakpoints
import AsmLab.Proofs.Exec.Shifting
import AsmLab.Proofs.Exec.Division
import AsmLab.Proofs.Source.ErrorRanges
import AsmLab.Proofs.Program.RepeatedLabels
import AsmLab.Proofs.Source.ImmediateGrammar
import AsmLab.Proofs.Source.AddressGrammar
import AsmLab.Proofs.Run.StackView
import AsmLab.Proofs.Source.MnemonicCatalog
import AsmLab.Proofs.Exec.WideningMoves
import AsmLab.Proofs.Run.ReachableMemory
import AsmLab.Proofs.Exec.FixedWidthEvaluation
import AsmLab.Proofs.Settings.HexWords
import AsmLab.Proofs.Source.LetterCase
import AsmLab.Proofs.Run.TracedRun
import AsmLab.Proofs.Settings.SavedSettings
import AsmLab.Proofs.Source.NearestWord
import AsmLab.Proofs.Machine.RegisterWords
import AsmLab.Proofs.Exec.Residues
import AsmLab.Proofs.Exec.FixedWidthCalculations
import AsmLab.Proofs.Run.SplitHistory
import AsmLab.Proofs.Source.ThreadedReading
