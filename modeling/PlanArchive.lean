import PlanArchive.Archive.Document
import PlanArchive.Archive.Log
import PlanArchive.Archive.Report
import PlanArchive.Archive.Startup
import PlanArchive.Console.Run
import PlanArchive.Main
import PlanArchive.Proofs.Archive.Admission
import PlanArchive.Proofs.Archive.Charsets
import PlanArchive.Proofs.Archive.Events
import PlanArchive.Proofs.Archive.LastLine
import PlanArchive.Proofs.Archive.LineEnds
import PlanArchive.Proofs.Archive.LogResave
import PlanArchive.Proofs.Archive.Modes
import PlanArchive.Proofs.Archive.PlanRoundTrip
import PlanArchive.Proofs.Archive.RecordRoundTrip
import PlanArchive.Proofs.Archive.References
import PlanArchive.Proofs.Archive.Respelling
import PlanArchive.Proofs.Archive.Savable
import PlanArchive.Proofs.Archive.Saving
import PlanArchive.Proofs.Archive.Sharing
import PlanArchive.Proofs.Archive.WrappedLog
import PlanArchive.Proofs.Console.Resaving
import PlanArchive.Proofs.Naming.Unreadable
import PlanArchive.Proofs.Value.Extended
import PlanArchive.Proofs.Coding.Delivered
import PlanArchive.Proofs.Archive.NestedWrappers
import PlanArchive.Proofs.Coding.Trails
import PlanArchive.Proofs.Archive.FailurePlaces
import PlanArchive.Proofs.Archive.LackingConverters
import PlanArchive.Proofs.Coding.Origins
import PlanArchive.Proofs.Coding.PlanGrammar
import PlanArchive.Proofs.Markup.StartTags
import PlanArchive.Proofs.Markup.Interruptions
import PlanArchive.Proofs.Archive.CharacterData
import PlanArchive.Proofs.Naming.Entries
import PlanArchive.Proofs.Naming.Chains
import PlanArchive.Proofs.Naming.RenameFile
import PlanArchive.Proofs.Definition.Escapes
import PlanArchive.Proofs.Archive.PlainSource
import PlanArchive.Proofs.Console.Auditing
import PlanArchive.Proofs.Definition.Slots
