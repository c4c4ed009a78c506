import JavaUnit.JavaLang
import JavaUnit.TypeName.Parse
import JavaUnit.Draft
import JavaUnit.Features
import JavaUnit.Unit.Imports
import JavaUnit.Unit.Edit
import JavaUnit.Template.Body
import JavaUnit.Template.Percent
import JavaUnit.Command.Arguments
import JavaUnit.Command.Program
import JavaUnit.Main
import JavaUnit.Proofs.Lexemes
import JavaUnit.Proofs.Effects
import JavaUnit.Proofs.NameText
import JavaUnit.Proofs.Stream
import JavaUnit.Proofs.BraceBalance
import JavaUnit.Proofs.EmittedText
import JavaUnit.Proofs.Spelling
import JavaUnit.Proofs.EditStream
import JavaUnit.Proofs.Mentions
import JavaUnit.Proofs.NameReading
import JavaUnit.Proofs.NameGrammar
import JavaUnit.Proofs.NameEncoding
import JavaUnit.Proofs.BlockHistory
import JavaUnit.Proofs.BlockNesting
import JavaUnit.Proofs.Runs
import JavaUnit.Proofs.References
import JavaUnit.Proofs.Shadowing
import JavaUnit.Proofs.FullNames
import JavaUnit.Proofs.BodyCopy
import JavaUnit.Proofs.Ownership
import JavaUnit.Proofs.Bindings
import JavaUnit.Proofs.Reservations
import JavaUnit.Proofs.ImportList
import JavaUnit.Proofs.KeptNames
import JavaUnit.Proofs.Failure
import JavaUnit.Proofs.PercentReading
import JavaUnit.Proofs.TextBefore
import JavaUnit.Proofs.SpelledAhead
import JavaUnit.Proofs.Enclosures
import JavaUnit.Proofs.LexicalGrammar
import JavaUnit.Proofs.CodeWords
import JavaUnit.Proofs.Declarations
import JavaUnit.Proofs.FirstClaims
import JavaUnit.Proofs.Registry
import JavaUnit.Proofs.ImportBlock
import JavaUnit.Proofs.Growth
import JavaUnit.Proofs.DeclaredBlocks
import JavaUnit.Proofs.ImportedPackages
import JavaUnit.Proofs.DottedReading
import JavaUnit.Proofs.NestedNames
import JavaUnit.Proofs.WholeWords
import JavaUnit.Proofs.JsonText
import JavaUnit.Proofs.Reports
