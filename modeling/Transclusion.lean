import Transclusion.Main
import Transclusion.Proofs.Losslessness
import Transclusion.Proofs.Idempotence
import Transclusion.Proofs.NestedSnippets
import Transclusion.Proofs.InPlace
import Transclusion.Proofs.JoinedFetches
import Transclusion.Proofs.SettlingOrder
import Transclusion.Proofs.Containment
import Transclusion.Proofs.Atomicity
import Transclusion.Proofs.Modes
import Transclusion.Proofs.WrittenDirectives
import Transclusion.Proofs.FillingInTurn
import Transclusion.Proofs.LocatingFilled
import Transclusion.Proofs.OutsideFiles
import Transclusion.Proofs.SelectedLines
import Transclusion.Proofs.EditsInAnyOrder
import Transclusion.Proofs.FragmentMachine
import Transclusion.Proofs.LocatedParts
import Transclusion.Proofs.RelativeIndent
import Transclusion.Proofs.Indenting
import Transclusion.Proofs.NamedSources
import Transclusion.Proofs.LineSeams
import Transclusion.Proofs.ClosingGrammar
import Transclusion.Proofs.Registrations
import Transclusion.Fence.ByteOffsets
import Transclusion.Proofs.LeastFence
import Transclusion.Proofs.TokenIteration
import Transclusion.Proofs.FinalBlank
