import ScriptRegistrar.Main
import ScriptRegistrar.Proofs.AggregateReading
import ScriptRegistrar.Proofs.BodyExtraction
import ScriptRegistrar.Proofs.BracketDepth
import ScriptRegistrar.Proofs.BracketGroups
import ScriptRegistrar.Proofs.BracketStack
import ScriptRegistrar.Proofs.Bracketing
import ScriptRegistrar.Proofs.ClassPlaces
import ScriptRegistrar.Proofs.ConstructorClosing
import ScriptRegistrar.Proofs.ConstructorExchange
import ScriptRegistrar.Proofs.ConstructorPlaces
import ScriptRegistrar.Proofs.ConstructorRecognition
import ScriptRegistrar.Proofs.ConstructorUpdate
import ScriptRegistrar.Proofs.Crediting
import ScriptRegistrar.Proofs.DefaultOperators
import ScriptRegistrar.Proofs.FileTree.Agreement
import ScriptRegistrar.Proofs.FileTree.Following
import ScriptRegistrar.Proofs.FileTree.Listing
import ScriptRegistrar.Proofs.FileTree.PathsBelow
import ScriptRegistrar.Proofs.FileTree.Proper
import ScriptRegistrar.Proofs.FileTree.ReplacementFrame
import ScriptRegistrar.Proofs.FileTree.Replacing
import ScriptRegistrar.Proofs.FileTree.Restoring
import ScriptRegistrar.Proofs.FileTree.Targets
import ScriptRegistrar.Proofs.FileTree.Walk
import ScriptRegistrar.Proofs.Generator.AlikeRuns
import ScriptRegistrar.Proofs.Generator.Crashes
import ScriptRegistrar.Proofs.Generator.CurrentRegistrations
import ScriptRegistrar.Proofs.Generator.HeaderIsolation
import ScriptRegistrar.Proofs.Generator.HeaderUpdates
import ScriptRegistrar.Proofs.Generator.HeaderWalk
import ScriptRegistrar.Proofs.Generator.Headers
import ScriptRegistrar.Proofs.Generator.OwnOutput
import ScriptRegistrar.Proofs.Generator.RunFrame
import ScriptRegistrar.Proofs.Generator.Runs
import ScriptRegistrar.Proofs.Generator.SecondRun
import ScriptRegistrar.Proofs.HeadPattern
import ScriptRegistrar.Proofs.HeadRecognition
import ScriptRegistrar.Proofs.InjectedBody
import ScriptRegistrar.Proofs.InjectionOrder
import ScriptRegistrar.Proofs.InjectionSite
import ScriptRegistrar.Proofs.JoinedHeaders
import ScriptRegistrar.Proofs.Layout.Headers
import ScriptRegistrar.Proofs.Layout.Members
import ScriptRegistrar.Proofs.Layout.ParameterTypes
import ScriptRegistrar.Proofs.Layout.Reading
import ScriptRegistrar.Proofs.Layout.Relaid
import ScriptRegistrar.Proofs.MarkedProperties
import ScriptRegistrar.Proofs.MemberPlaces
import ScriptRegistrar.Proofs.MemberRecognition
import ScriptRegistrar.Proofs.MessagePrecedence
import ScriptRegistrar.Proofs.NestedText
import ScriptRegistrar.Proofs.NormalTypes
import ScriptRegistrar.Proofs.ParameterNesting
import ScriptRegistrar.Proofs.ParameterPieces
import ScriptRegistrar.Proofs.Printing.BodyReading
import ScriptRegistrar.Proofs.Printing.ClassModel
import ScriptRegistrar.Proofs.Printing.ClassReading
import ScriptRegistrar.Proofs.Printing.ConstructedClass
import ScriptRegistrar.Proofs.Printing.ConstructorSearch
import ScriptRegistrar.Proofs.Printing.HeaderReading
import ScriptRegistrar.Proofs.Printing.InjectionFixpoint
import ScriptRegistrar.Proofs.Printing.MemberReading
import ScriptRegistrar.Proofs.Printing.MemberWords
import ScriptRegistrar.Proofs.Printing.ParameterReading
import ScriptRegistrar.Proofs.Printing.TypeFacts
import ScriptRegistrar.Proofs.PropertyRecognition
import ScriptRegistrar.Proofs.ScanRounds
import ScriptRegistrar.Proofs.SignSpacing
import ScriptRegistrar.Proofs.SignatureTables
import ScriptRegistrar.Proofs.SlicedInjection
import ScriptRegistrar.Proofs.SlicedScan
import ScriptRegistrar.Proofs.StaleRegistrations
import ScriptRegistrar.Proofs.StatementLayout
import ScriptRegistrar.Proofs.Text.ByteCounts
import ScriptRegistrar.Proofs.Text.ByteOrder
import ScriptRegistrar.Proofs.Text.ByteSlices
import ScriptRegistrar.Proofs.Text.CursorSteps
import ScriptRegistrar.Proofs.Text.Encoding
import ScriptRegistrar.Proofs.Text.Occurrences
import ScriptRegistrar.Proofs.Text.OffsetSearch
import ScriptRegistrar.Proofs.Text.Trimming
import ScriptRegistrar.Proofs.TypeJoints
import ScriptRegistrar.Proofs.TypeNormalForm
import ScriptRegistrar.Proofs.WrittenParameters
import ScriptRegistrar.Proofs.WrittenTypes
